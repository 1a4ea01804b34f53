import Dashboard.Text.Blank

/-!
# Trimmed texts

Trimming a text twice is trimming it once.  A text that trimming leaves alone
starts and ends with no blank, and so it is kept as it is wherever names,
titles and types are read again.
-/

namespace Dashboard.Text

/-- A text as it is kept for a name, a title or a type: not empty, and without
blanks around it. -/
def Kept (s : String) : Prop :=
  trim s = s ∧ s ≠ ""

instance (s : String) : Decidable (Kept s) :=
  inferInstanceAs (Decidable (_ ∧ _))

theorem dropBlanks_dropBlanks (cs : List Char) :
    dropBlanks (dropBlanks cs) = dropBlanks cs := by
  induction cs with
  | nil =>
      rfl
  | cons c cs ih =>
      by_cases h : isBlank c = true
      · simpa [dropBlanks, List.dropWhile_cons, h] using ih
      · simp [dropBlanks, h]

theorem dropEndBlanks_dropEndBlanks (cs : List Char) :
    dropEndBlanks (dropEndBlanks cs) = dropEndBlanks cs := by
  have h := dropBlanks_dropBlanks cs.reverse
  simp only [dropBlanks] at h
  simp [dropEndBlanks, h]

/-- Dropping the blank suffix keeps the first character, unless all are blank. -/
theorem dropEndBlanks_cons_of_not_blank {c : Char} (h : isBlank c = false) (cs : List Char) :
    ∃ ds, dropEndBlanks (c :: cs) = c :: ds := by
  have hsplit : (c :: cs).reverse = cs.reverse ++ [c] := by simp
  have hdrop : ((cs.reverse ++ [c]).dropWhile isBlank) =
      cs.reverse.dropWhile isBlank ++ [c] := by
    rw [List.dropWhile_append]
    split
    · next hnil =>
        rw [List.isEmpty_iff] at hnil
        simp [hnil, h]
    · rfl
  refine ⟨(cs.reverse.dropWhile isBlank).reverse, ?_⟩
  rw [dropEndBlanks, hsplit, hdrop]
  simp

/-- A trimmed text has no blank prefix. -/
theorem dropBlanks_trimChars (cs : List Char) :
    dropBlanks (trimChars cs) = trimChars cs := by
  rw [trimChars]
  cases hcs : dropBlanks cs with
  | nil =>
      rfl
  | cons c ds =>
      have hc : isBlank c = false := by
        have hhead := List.head?_dropWhile_not isBlank cs
        rw [show cs.dropWhile isBlank = c :: ds from hcs] at hhead
        simpa using hhead
      obtain ⟨es, hes⟩ := dropEndBlanks_cons_of_not_blank hc ds
      rw [hes]
      exact List.dropWhile_cons_of_neg (by simp [hc])

theorem trimChars_trimChars (cs : List Char) :
    trimChars (trimChars cs) = trimChars cs := by
  have hfix := dropBlanks_trimChars cs
  rw [trimChars] at hfix
  rw [trimChars, trimChars, hfix, dropEndBlanks_dropEndBlanks]

@[simp] theorem trim_trim (s : String) : trim (trim s) = trim s := by
  simp [trim, trimChars_trimChars]

/-- What trimming leaves of a text that is not blank is kept. -/
theorem kept_trim {s : String} (h : trim s ≠ "") : Kept (trim s) :=
  ⟨trim_trim s, h⟩

theorem isBlank_of_mem_head?_trimChars {cs : List Char} {c : Char}
    (h : c ∈ (trimChars cs).head?) : isBlank c = false := by
  have hhead := List.head?_dropWhile_not isBlank (trimChars cs)
  rw [← dropBlanks, dropBlanks_trimChars, Option.mem_def.1 h] at hhead
  simpa using hhead

theorem isBlank_of_mem_getLast?_trimChars {cs : List Char} {c : Char}
    (h : c ∈ (trimChars cs).getLast?) : isBlank c = false := by
  have hhead := List.head?_dropWhile_not isBlank (dropBlanks cs).reverse
  rw [trimChars, dropEndBlanks, List.getLast?_reverse] at h
  rw [Option.mem_def.1 h] at hhead
  simpa using hhead

/-! ## Blanks around a text -/

section Around

variable {bs cs : List Char}

theorem dropEndBlanks_append_of_blank (h : ∀ c ∈ bs, isBlank c = true) :
    dropEndBlanks (cs ++ bs) = dropEndBlanks cs := by
  rw [dropEndBlanks, List.reverse_append,
    List.dropWhile_append_of_pos fun c hc => h c (List.mem_reverse.1 hc), dropEndBlanks]

theorem dropBlanks_eq_nil (h : ∀ c ∈ bs, isBlank c = true) : dropBlanks bs = [] := by
  rw [dropBlanks, ← List.append_nil bs, List.dropWhile_append_of_pos h, List.dropWhile_nil]

/-- Blanks at the end are trimmed. -/
theorem trimChars_append_of_blank (h : ∀ c ∈ bs, isBlank c = true) :
    trimChars (cs ++ bs) = trimChars cs := by
  rw [trimChars, trimChars, dropBlanks, dropBlanks, List.dropWhile_append]
  split
  · next hnil =>
      rw [List.isEmpty_iff] at hnil
      rw [hnil, ← dropBlanks, dropBlanks_eq_nil h]
  · exact dropEndBlanks_append_of_blank h

/-- Blanks at the beginning are trimmed. -/
theorem trimChars_of_blank_append (h : ∀ c ∈ bs, isBlank c = true) :
    trimChars (bs ++ cs) = trimChars cs := by
  rw [trimChars, dropBlanks, List.dropWhile_append_of_pos h, trimChars, dropBlanks]

theorem all_isBlank_concat (l : List Char) :
    (l ++ ['\n']).all isBlank = l.all isBlank := by
  have hfeed : ['\n'].all isBlank = true := by decide
  rw [List.all_append, hfeed, Bool.and_true]

theorem trimChars_concat_feed (cs : List Char) : trimChars (cs ++ ['\n']) = trimChars cs :=
  trimChars_append_of_blank (List.forall_mem_singleton.2 rfl)

end Around

/-! ## Texts without blanks at their ends -/

theorem dropEndBlanks_eq_self {cs : List Char} (h : cs.getLast?.any isBlank = false) :
    dropEndBlanks cs = cs := by
  rw [List.getLast?_eq_head?_reverse] at h
  cases hr : cs.reverse with
  | nil =>
      have : cs = [] := by simpa using hr
      simp [this, dropEndBlanks]
  | cons c ds =>
      have hc : isBlank c = false := by simpa [hr] using h
      rw [dropEndBlanks, hr, List.dropWhile_cons_of_neg (by simp [hc]), ← hr,
        List.reverse_reverse]

theorem dropBlanks_eq_self {cs : List Char} (h : cs.head?.any isBlank = false) :
    dropBlanks cs = cs := by
  cases cs with
  | nil =>
      rfl
  | cons c cs =>
      exact List.dropWhile_cons_of_neg (by simpa using h)

theorem trimChars_eq_self {cs : List Char} (hhead : cs.head?.any isBlank = false)
    (hlast : cs.getLast?.any isBlank = false) : trimChars cs = cs := by
  rw [trimChars, dropBlanks_eq_self hhead, dropEndBlanks_eq_self hlast]

/-! ## Parts between two characters that are not blank -/

theorem infix_dropBlanks {c : Char} {cs ds : List Char} (hc : isBlank c = false)
    (h : c :: cs <:+: ds) : c :: cs <:+: dropBlanks ds := by
  induction ds with
  | nil =>
      exact h
  | cons d ds ih =>
      by_cases hd : isBlank d = true
      · rw [dropBlanks, List.dropWhile_cons_of_pos hd]
        rcases List.infix_cons_iff.1 h with hstart | h
        · obtain rfl := (List.cons_prefix_cons.1 hstart).1
          exact absurd hd (by simp [hc])
        · exact ih h
      · rwa [dropBlanks, List.dropWhile_cons_of_neg hd]

/-- Trimming keeps what stands between two characters that are not blank. -/
theorem infix_trimChars {c d : Char} {cs ds : List Char} (hc : isBlank c = false)
    (hd : isBlank d = false) (h : c :: (cs ++ [d]) <:+: ds) :
    c :: (cs ++ [d]) <:+: trimChars ds := by
  have hreverse : d :: (c :: cs).reverse = (c :: (cs ++ [d])).reverse := by simp
  have hfront := List.reverse_infix.2 (infix_dropBlanks hc h)
  rw [← hreverse] at hfront
  have hback := infix_dropBlanks hd hfront
  rw [hreverse] at hback
  rw [trimChars, dropEndBlanks, ← List.reverse_infix, List.reverse_reverse]
  exact hback

end Dashboard.Text

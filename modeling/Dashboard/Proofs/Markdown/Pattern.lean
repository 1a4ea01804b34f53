import Dashboard.Markdown.Pattern
import Dashboard.Proofs.Text.Search

/-!
# What patterns match

The texts that a pattern takes are described by their parts, and a match is the one at the
first place that has any (`FirstPlace`).
-/

namespace Dashboard.Markdown

/-! ## The first place -/

section First

variable {α : Type}
variable {P : List Char → α → Prop}
variable {text : List Char}
variable {a : α}

/-- A match at the first place of a text that has one. -/
def FirstPlace (P : List Char → α → Prop) (text : List Char) (a : α) : Prop :=
  ∃ before after, text = before ++ after ∧ P after a ∧
    ∀ front back, before = front ++ back → back ≠ [] → ∀ b, ¬P (back ++ after) b

theorem firstPlace_nil_iff : FirstPlace P [] a ↔ P [] a := by
  constructor
  · rintro ⟨before, after, htext, ha, -⟩
    obtain ⟨rfl, rfl⟩ := List.append_eq_nil_iff.1 htext.symm
    exact ha
  · intro ha
    refine ⟨[], [], rfl, ha, fun front back hbefore hne => ?_⟩
    exact absurd (List.append_eq_nil_iff.1 hbefore.symm).2 hne

/-- A match is at the beginning, or there is none and it is in the rest. -/
theorem firstPlace_cons_iff {c : Char} :
    FirstPlace P (c :: text) a ↔
      P (c :: text) a ∨ (∀ b, ¬P (c :: text) b) ∧ FirstPlace P text a := by
  constructor
  · rintro ⟨before, after, htext, ha, hfirst⟩
    cases before with
    | nil =>
        obtain rfl : c :: text = after := htext
        exact .inl ha
    | cons d before =>
        obtain ⟨rfl, rfl⟩ := List.cons.inj htext
        refine .inr ⟨hfirst [] (c :: before) rfl (List.cons_ne_nil c before), ?_⟩
        refine ⟨before, after, rfl, ha, fun front back hbefore => ?_⟩
        exact hfirst (c :: front) back (by rw [hbefore, List.cons_append])
  · rintro (ha | ⟨hnone, before, after, rfl, ha, hfirst⟩)
    · refine ⟨[], c :: text, rfl, ha, fun front back hbefore hne => ?_⟩
      exact absurd (List.append_eq_nil_iff.1 hbefore.symm).2 hne
    · refine ⟨c :: before, after, rfl, ha, fun front back hbefore => ?_⟩
      cases front with
      | nil =>
          rw [List.nil_append] at hbefore
          rw [← hbefore]
          exact fun _ => hnone
      | cons d front =>
          exact hfirst front back (List.cons.inj hbefore).2

theorem firstMatch?_eq_some_iff
    {pattern : List Char → Option α}
    (h : ∀ text a, pattern text = some a ↔ P text a) :
    firstMatch? pattern text = some a ↔ FirstPlace P text a := by
  induction text with
  | nil =>
      rw [firstMatch?, firstPlace_nil_iff, h]
  | cons c text ih =>
      rw [firstMatch?, firstPlace_cons_iff, ← ih, ← h]
      simp only [← h]
      cases pattern (c :: text) with
      | none =>
          simp
      | some b =>
          simp

end First

/-! ## Runs of characters -/

section Runs

variable {p : Char → Bool}
variable {text run rest : List Char}

/-- A run is as long as it can be. -/
theorem takeWhile_dropWhile_eq_iff :
    text.takeWhile p = run ∧ text.dropWhile p = rest ↔
      text = run ++ rest ∧ (∀ c ∈ run, p c = true) ∧ ∀ c ∈ rest.head?, p c = false := by
  constructor
  · rintro ⟨rfl, rfl⟩
    refine ⟨List.takeWhile_append_dropWhile.symm, fun c hc => ?_, fun c hc => ?_⟩
    · exact List.all_eq_true.1 List.all_takeWhile c hc
    · have hhead := List.head?_dropWhile_not p text
      rw [Option.mem_def.1 hc] at hhead
      simpa using hhead
  · rintro ⟨rfl, hrun, hrest⟩
    rw [List.takeWhile_append_of_pos hrun, List.dropWhile_append_of_pos hrun]
    cases rest with
    | nil =>
        simp
    | cons c rest =>
        simp [hrest c rfl]

theorem takeWhile_dropWhile (p : Char → Bool) (text : List Char) :
    text = text.takeWhile p ++ text.dropWhile p ∧ (∀ c ∈ text.takeWhile p, p c = true) ∧
      ∀ c ∈ (text.dropWhile p).head?, p c = false :=
  takeWhile_dropWhile_eq_iff.1 ⟨rfl, rfl⟩

end Runs

/-! ## Types -/

section Types

variable {text rest : List Char}
variable {type : String}

theorem dropSomeBlanks?_eq_some_iff :
    dropSomeBlanks? text = some rest ↔
      ∃ blanks, text = blanks ++ rest ∧ blanks ≠ [] ∧ (∀ c ∈ blanks, Text.isBlank c = true) ∧
        ∀ c ∈ rest.head?, Text.isBlank c = false := by
  constructor
  · intro h
    cases text with
    | nil =>
        cases h
    | cons c cs =>
        rw [dropSomeBlanks?] at h
        split at h
        · next hc =>
            obtain ⟨hcs, hblanks, hrest⟩ := takeWhile_dropWhile_eq_iff.1 ⟨rfl, Option.some.inj h⟩
            refine ⟨c :: cs.takeWhile Text.isBlank, ?_, List.cons_ne_nil c _,
              List.forall_mem_cons.2 ⟨hc, hblanks⟩, hrest⟩
            rw [List.cons_append, ← hcs]
        · cases h
  · rintro ⟨blanks, rfl, hne, hblanks, hrest⟩
    obtain ⟨b, blanks, rfl⟩ := List.exists_cons_of_ne_nil hne
    rw [List.forall_mem_cons] at hblanks
    have hdrop : Text.dropBlanks (blanks ++ rest) = rest :=
      (takeWhile_dropWhile_eq_iff.2 ⟨rfl, hblanks.2, hrest⟩).2
    rw [List.cons_append, dropSomeBlanks?, if_pos hblanks.1, hdrop]

/-- A list item that gives a type: the type goes on as far as it can. -/
def TypeItem (text : List Char) (type : String) : Prop :=
  ∃ blanks spaces rest,
    text = '-' :: (blanks ++ ("type:".toList ++ (spaces ++ (type.toList ++ rest)))) ∧
    blanks ≠ [] ∧ (∀ c ∈ blanks, Text.isBlank c = true) ∧
    (∀ c ∈ spaces, Text.isBlank c = true) ∧
    type ≠ "" ∧ (∀ c ∈ type.toList, isTypeChar c = true) ∧
    ∀ c ∈ rest.head?, isTypeChar c = false

theorem code_of_isAlphanum
    {c : Char}
    (h : c.isAlphanum = true) :
    48 ≤ c.toNat ∧ c.toNat ≤ 122 := by
  have hrange : ∀ {low high : Nat}, 48 ≤ low → high ≤ 122 → low ≤ c.toNat → c.toNat ≤ high →
      48 ≤ c.toNat ∧ c.toNat ≤ 122 := by
    omega
  rcases Bool.or_eq_true_iff.1 h with halpha | hdigit
  · rcases Bool.or_eq_true_iff.1 halpha with hupper | hlower
    · have hcode := of_decide_eq_true hupper
      exact hrange (by decide) (by decide) hcode.1 hcode.2
    · have hcode := Bool.and_eq_true_iff.1 hlower
      exact hrange (by decide) (by decide) (of_decide_eq_true hcode.1) (of_decide_eq_true hcode.2)
  · have hcode := Bool.and_eq_true_iff.1 hdigit
    exact hrange (by decide) (by decide) (of_decide_eq_true hcode.1) (of_decide_eq_true hcode.2)

theorem isBlank_of_isTypeChar
    {c : Char}
    (h : isTypeChar c = true) :
    Text.isBlank c = false := by
  simp only [isTypeChar, Bool.or_eq_true, beq_iff_eq] at h
  rcases h with (halphanum | rfl) | rfl
  · have hcode := code_of_isAlphanum halphanum
    simp only [Text.isBlank, Bool.or_eq_false_iff, Bool.and_eq_false_iff, beq_eq_false_iff_ne,
      decide_eq_false_iff_not]
    omega
  · rfl
  · rfl

theorem typeItem?_eq_some_iff : typeItem? text = some type ↔ TypeItem text type := by
  constructor
  · intro h
    simp only [typeItem?, Option.bind_eq_bind, Option.bind_eq_some_iff,
      Text.dropPrefix?_eq_some_iff, dropSomeBlanks?_eq_some_iff] at h
    obtain ⟨_, rfl, _, ⟨blanks, rfl, hne, hblanks, -⟩, item, rfl, h⟩ := h
    obtain ⟨hitem, hspaces, -⟩ := takeWhile_dropWhile Text.isBlank item
    obtain ⟨hname, hchars, hrest⟩ := takeWhile_dropWhile isTypeChar (Text.dropBlanks item)
    split at h
    · cases h
    · next hrun =>
        obtain rfl := Option.some.inj h
        have htype := String.toList_ofList (l := (Text.dropBlanks item).takeWhile isTypeChar)
        refine ⟨blanks, item.takeWhile Text.isBlank,
          (Text.dropBlanks item).dropWhile isTypeChar, ?_, hne, hblanks, hspaces, ?_, ?_, hrest⟩
        · rw [htype, ← hname, Text.dropBlanks, ← hitem]
          rfl
        · intro hempty
          rw [hempty] at htype
          exact hrun htype.symm
        · rwa [htype]
  · rintro ⟨blanks, spaces, rest, rfl, hne, hblanks, hspaces, htype, hchars, hrest⟩
    have hfirst : ∃ c cs, type.toList = c :: cs := by
      refine List.exists_cons_of_ne_nil fun hnil => htype ?_
      rw [← String.ofList_toList (s := type), hnil]
    obtain ⟨c, cs, hcs⟩ := hfirst
    have hstop : Text.isBlank c = false :=
      isBlank_of_isTypeChar (hchars c (by rw [hcs]; exact List.mem_cons_self))
    have hafter : ∀ r, dropSomeBlanks? (blanks ++ ("type:".toList ++ r)) =
        some ("type:".toList ++ r) := fun r =>
      dropSomeBlanks?_eq_some_iff.2 ⟨blanks, rfl, hne, hblanks, by simp [Text.isBlank]⟩
    have hdrop : Text.dropBlanks (spaces ++ (type.toList ++ rest)) = type.toList ++ rest := by
      refine (takeWhile_dropWhile_eq_iff.2 ⟨rfl, hspaces, fun d hd => ?_⟩).2
      rw [hcs] at hd
      obtain rfl := Option.some.inj hd
      exact hstop
    have htake : (type.toList ++ rest).takeWhile isTypeChar = type.toList :=
      (takeWhile_dropWhile_eq_iff.2 ⟨rfl, hchars, hrest⟩).1
    have hitem : ∀ r, Text.dropPrefix? "type:".toList ("type:".toList ++ r) = some r := fun r =>
      Text.dropPrefix?_eq_some_iff.2 rfl
    have hdash : ∀ r, Text.dropPrefix? ['-'] ('-' :: r) = some r := fun r =>
      Text.dropPrefix?_eq_some_iff.2 rfl
    rw [typeItem?]
    simp only [hdash, hafter, hitem, hdrop, htake, Option.bind_eq_bind, Option.bind_some]
    rw [hcs]
    change some (String.ofList (c :: cs)) = some type
    rw [← hcs, String.ofList_toList]

end Types

/-! ## Blocks of YAML -/

section Blocks

variable {text content : List Char}

/-- The name of the language, with letters of either case. -/
def IsYamlName (language : List Char) : Prop :=
  language.map Char.toLower = "yaml".toList ∨ language.map Char.toLower = "yml".toList

/-- A fenced block of YAML: its content goes up to the first fence. -/
def Fenced (text content : List Char) : Prop :=
  ∃ language rest, text = fence ++ (language ++ (content ++ fence ++ rest)) ∧
    IsYamlName language ∧ ¬fence <:+: (content ++ fence).dropLast

theorem dropWord?_eq_some_iff
    {word rest : List Char}
    (hs : 's' ∉ word) :
    dropWord? word text = some rest ↔
      ∃ letters, text = letters ++ rest ∧ letters.map Char.toLower = word := by
  induction word generalizing text with
  | nil =>
      simp [dropWord?]
  | cons w word ih =>
      rw [List.mem_cons, not_or] at hs
      have hw : (w == 's') = false := by
        simpa using Ne.symm hs.1
      cases text with
      | nil =>
          simp [dropWord?]
      | cons c text =>
          rw [dropWord?, hw, Bool.false_and, Bool.or_false]
          constructor
          · intro h
            split at h
            · next hc =>
                obtain ⟨letters, rfl, rfl⟩ := (ih hs.2).1 h
                exact ⟨c :: letters, rfl, by rw [List.map_cons, eq_of_beq hc]⟩
            · cases h
          · rintro ⟨letters, htext, hword⟩
            obtain ⟨d, letters, rfl, hd, hletters⟩ := List.map_eq_cons_iff.1 hword
            obtain ⟨rfl, rfl⟩ := List.cons.inj htext
            rw [if_pos (beq_iff_eq.2 hd)]
            exact (ih hs.2).2 ⟨letters, rfl, hletters⟩

/-- The two names differ in their second letters. -/
theorem dropWord?_yaml_eq_none
    {letters : List Char}
    (h : letters.map Char.toLower = "yml".toList)
    (rest : List Char) :
    dropWord? "yaml".toList (letters ++ rest) = none := by
  have hletters : letters.map Char.toLower = ['y', 'm', 'l'] := h
  obtain ⟨y, letters, rfl, hy, hletters⟩ := List.map_eq_cons_iff.1 hletters
  obtain ⟨m, letters, rfl, hm, -⟩ := List.map_eq_cons_iff.1 hletters
  simp [dropWord?, hy, hm]

theorem yamlName_eq_some_iff
    {after : List Char} :
    (match dropWord? "yaml".toList text with
      | some rest => some rest
      | none => dropWord? "yml".toList text) = some after ↔
      ∃ language, text = language ++ after ∧ IsYamlName language := by
  have hyaml : 's' ∉ "yaml".toList := by decide
  have hyml : 's' ∉ "yml".toList := by decide
  constructor
  · intro h
    split at h
    · next rest hrest =>
        obtain rfl := Option.some.inj h
        obtain ⟨language, htext, hname⟩ := (dropWord?_eq_some_iff hyaml).1 hrest
        exact ⟨language, htext, .inl hname⟩
    · obtain ⟨language, htext, hname⟩ := (dropWord?_eq_some_iff hyml).1 h
      exact ⟨language, htext, .inr hname⟩
  · rintro ⟨language, rfl, hname | hname⟩
    · rw [(dropWord?_eq_some_iff hyaml).2 ⟨language, rfl, hname⟩]
    · rw [dropWord?_yaml_eq_none hname]
      exact (dropWord?_eq_some_iff hyml).2 ⟨language, rfl, hname⟩

theorem exampleBlock?_eq_some_iff : exampleBlock? text = some content ↔ Fenced text content := by
  have hfence : fence ≠ [] := by decide
  simp only [exampleBlock?, block?, Option.bind_eq_bind, Option.bind_eq_some_iff,
    Text.dropPrefix?_eq_some_iff, Option.pure_def, Option.some.injEq, Prod.exists]
  constructor
  · rintro ⟨block, rfl, after, hopen, content, rest, hsplit, rfl⟩
    obtain ⟨language, rfl, hname⟩ := yamlName_eq_some_iff.1 hopen
    obtain ⟨rfl, hfirst⟩ := (Text.splitAt?_eq_some_iff hfence).1 hsplit
    exact ⟨language, rest, rfl, hname, hfirst⟩
  · rintro ⟨language, rest, rfl, hname, hfirst⟩
    exact ⟨_, rfl, _, yamlName_eq_some_iff.2 ⟨language, rfl, hname⟩, content, rest,
      (Text.splitAt?_eq_some_iff hfence).2 ⟨rfl, hfirst⟩, rfl⟩

end Blocks

end Dashboard.Markdown

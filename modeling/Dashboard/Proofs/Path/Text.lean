import Dashboard.Path.Basic
import Dashboard.Proofs.Text.Trimming
import Mathlib.Data.List.Infix

/-!
# Texts of paths

A path text is read key by key and bracket by bracket.  `Reads` says which path
the rest of a text gives in each state of the reader, and the reader follows it
exactly.  From it come the two halves of the main statement: what is read has
plain keys, an index in range behind every bracket and no blank at either end,
and the text of every such path is read back as that path.
-/

namespace Dashboard.Path

/-- A character that belongs to a key in a path text. -/
def IsKeyChar (c : Char) : Prop :=
  c ≠ '.' ∧ c ≠ '[' ∧ c ≠ ']'

instance (c : Char) : Decidable (IsKeyChar c) :=
  inferInstanceAs (Decidable (_ ∧ _))

/-- A key that stands for itself in a path text. -/
def IsPlainKey (name : String) : Prop :=
  name ≠ "" ∧ ∀ c ∈ name.toList, IsKeyChar c

instance (name : String) : Decidable (IsPlainKey name) :=
  inferInstanceAs (Decidable (_ ∧ _))

theorem IsPlainKey.toList_ne_nil
    {name : String}
    (h : IsPlainKey name) :
    name.toList ≠ [] :=
  mt String.toList_eq_nil_iff.1 h.1

/-- A path that begins with a key, has plain keys only, and whose text has no
blank at either end. -/
structure Spellable (p : Path) : Prop where
  starts : ∃ name, p.head? = some (.key name) ∧ name.toList.head?.any Text.isBlank = false
  keys : ∀ name, .key name ∈ p → IsPlainKey name
  ends : ∀ name, p.getLast? = some (.key name) → name.toList.getLast?.any Text.isBlank = false

/-- Every index has 64 bits. -/
def IndicesFit (p : Path) : Prop :=
  ∀ i, .index i ∈ p → i ≤ maxIndex

/-! ## Indices -/

section Indices

variable {ds cs rest : List Char}
variable {n : Nat}

theorem ne_bracket_of_isDigit
    {c : Char}
    (h : c.isDigit = true) :
    c ≠ '[' ∧ c ≠ ']' := by
  constructor <;> rintro rfl <;> exact absurd h (by decide)

theorem readIndex?_append
    (hds : ∀ c ∈ ds, c.isDigit = true)
    (n : Nat)
    (rest : List Char) :
    readIndex? (some n) (ds ++ ']' :: rest) =
      if Nat.ofDigitChars 10 ds n ≤ maxIndex then some (Nat.ofDigitChars 10 ds n, rest)
      else none := by
  induction ds generalizing n with
  | nil =>
      rfl
  | cons c ds ih =>
      rw [List.forall_mem_cons] at hds
      have hclose : ¬(c == ']') = true := by
        simpa using (ne_bracket_of_isDigit hds.1).2
      rw [List.cons_append, readIndex?, if_neg hclose, if_pos hds.1, ih hds.2,
        Nat.ofDigitChars_cons, Option.getD_some, Nat.mul_comm n 10]
      rfl

/-- The first digit of an index stands on nothing. -/
theorem readIndex?_none_append
    (hne : ds ≠ [])
    (hds : ∀ c ∈ ds, c.isDigit = true)
    (rest : List Char) :
    readIndex? none (ds ++ ']' :: rest) =
      if Nat.ofDigitChars 10 ds 0 ≤ maxIndex then some (Nat.ofDigitChars 10 ds 0, rest)
      else none := by
  rw [← readIndex?_append hds]
  cases ds with
  | nil =>
      exact absurd rfl hne
  | cons c ds =>
      have hclose : ¬(c == ']') = true := by
        simpa using (ne_bracket_of_isDigit (hds c List.mem_cons_self)).2
      simp only [List.cons_append, readIndex?, if_neg hclose, Option.getD_none, Option.getD_some]

/-- No index is beyond the largest. -/
theorem readIndex?_none_of_large
    (hds : ∀ c ∈ ds, c.isDigit = true)
    (hlarge : maxIndex < Nat.ofDigitChars 10 ds 0)
    (rest : List Char) :
    readIndex? none (ds ++ ']' :: rest) = none := by
  have hne : ds ≠ [] := by
    rintro rfl
    exact Nat.not_lt_zero _ hlarge
  rw [readIndex?_none_append hne hds, if_neg (Nat.not_le.2 hlarge)]

/-- The digits of an index in range are read as it. -/
theorem readIndex?_toDigits
    (h : n ≤ maxIndex)
    (rest : List Char) :
    readIndex? none (Nat.toDigits 10 n ++ ']' :: rest) = some (n, rest) := by
  have hds : ∀ c ∈ Nat.toDigits 10 n, c.isDigit = true :=
    fun _ hc => Nat.isDigit_of_mem_toDigits (by decide) (by decide) hc
  rw [readIndex?_none_append Nat.toDigits_ne_nil hds, Nat.ofDigitChars_ten_toDigits, if_pos h]

/-- What is taken for an index are digits up to the bracket that closes it. -/
theorem exists_of_readIndex?
    {n? : Option Nat}
    {i : Nat}
    (h : readIndex? n? cs = some (i, rest)) :
    i ≤ maxIndex ∧ ∃ ds, (∀ c ∈ ds, c.isDigit = true) ∧ cs = ds ++ ']' :: rest := by
  fun_induction readIndex? n? cs with
  | case1 =>
      cases h
  | case2 c cs hclose n hle =>
      cases h
      exact ⟨hle, [], by simp, by simpa using hclose⟩
  | case3 | case4 | case6 =>
      cases h
  | case5 n? c cs _ hdigit ih =>
      obtain ⟨hle, ds, hds, rfl⟩ := ih h
      exact ⟨hle, c :: ds, List.forall_mem_cons.2 ⟨hdigit, hds⟩, rfl⟩

end Indices

/-- What begins with a character is not found across texts without it. -/
theorem infix_of_infix_append
    {c : Char}
    {xs ys cs : List Char}
    (hc : c ∉ xs)
    (h : c :: cs <:+: xs ++ ys) :
    c :: cs <:+: ys := by
  induction xs with
  | nil =>
      exact h
  | cons x xs ih =>
      rw [List.mem_cons, not_or] at hc
      rcases List.infix_cons_iff.1 h with hstart | h
      · exact absurd (List.cons_prefix_cons.1 hstart).1 hc.1
      · exact ih hc.2 h

/-! ## What is read -/

theorem keyStep_eq_nil_iff
    {key : List Char} :
    keyStep key = [] ↔ key = [] := by
  cases key <;> simp [keyStep]

theorem keyStep_toList
    {name : String}
    (h : name ≠ "") :
    keyStep name.toList = [.key name] := by
  simp [keyStep, h]

/-- A collected key gives one step. -/
theorem eq_key_of_mem_keyStep
    {key : List Char}
    {step : Step}
    (h : step ∈ keyStep key) :
    step = .key (String.ofList key) := by
  cases key with
  | nil =>
      cases h
  | cons c key =>
      exact List.mem_singleton.1 h

theorem isPlainKey_of_mem_keyStep
    {key : List Char}
    {name : String}
    (hkey : ∀ c ∈ key, IsKeyChar c)
    (h : .key name ∈ keyStep key) :
    IsPlainKey name := by
  cases eq_key_of_mem_keyStep h
  refine ⟨fun hnil => ?_, by simpa using hkey⟩
  have hnil : key = [] := by simpa using hnil
  rw [keyStep_eq_nil_iff.2 hnil] at h
  cases h

/-- The path that the rest of a text gives, when `key` has been collected of the
key in progress, a key is `due` or not, and a step has been read or not. -/
inductive Reads : List Char → Bool → Bool → List Char → Path → Prop
  | finish
      {key : List Char}
      {due started : Bool}
      (hkey : key = [] → due = false) :
      Reads key due started [] (keyStep key)
  | point
      {key cs : List Char}
      {due started : Bool}
      {p : Path}
      (hkey : key = [] → due = false)
      (next : Reads [] true (started || !key.isEmpty) cs p) :
      Reads key due started ('.' :: cs) (keyStep key ++ p)
  | bracket
      {key cs rest : List Char}
      {due started : Bool}
      {i : Nat}
      {p : Path}
      (hkey : key = [] → started = true)
      (hindex : readIndex? none cs = some (i, rest))
      (next : Reads [] false true rest p) :
      Reads key due started ('[' :: cs) (keyStep key ++ .index i :: p)
  | character
      {key cs : List Char}
      {due started : Bool}
      {c : Char}
      {p : Path}
      (hc : IsKeyChar c)
      (next : Reads (key ++ [c]) false started cs p) :
      Reads key due started (c :: cs) p

section Reads

variable {key cs : List Char}
variable {due started : Bool}
variable {p : Path}

theorem reads_of_readFrom?
    (h : readFrom? key due started cs = some p) :
    Reads key due started cs p := by
  fun_induction readFrom? key due started cs generalizing p with
  | case1 | case3 | case5 | case7 | case8 =>
      cases h
  | case2 key due started hkey =>
      cases h
      exact .finish (by simpa using hkey)
  | case4 key due started c cs hc hkey ih =>
      obtain rfl : c = '.' := by simpa using hc
      obtain ⟨q, hq, hp⟩ := Option.bind_eq_some_iff.1 h
      cases hp
      exact .point (by simpa using hkey) (ih hq)
  | case6 key due started c cs _ hc hkey i rest hindex ih =>
      obtain rfl : c = '[' := by simpa using hc
      obtain ⟨q, hq, hp⟩ := Option.bind_eq_some_iff.1 h
      cases hp
      exact .bracket (by simpa using hkey) hindex (ih hq)
  | case9 key due started c cs hpoint hopen hclose ih =>
      exact .character ⟨by simpa using hpoint, by simpa using hopen, by simpa using hclose⟩ (ih h)

theorem readFrom?_of_reads
    (h : Reads key due started cs p) :
    readFrom? key due started cs = some p := by
  induction h with
  | finish hkey =>
      rw [readFrom?, if_neg (by simpa using hkey)]
  | @point key cs due started p hkey next ih =>
      have hguard : ¬(key.isEmpty && due) = true := by simpa using hkey
      rw [readFrom?, if_pos (by decide), if_neg hguard, ih]
      rfl
  | @bracket key cs rest due started i p hkey hindex next ih =>
      have hguard : ¬(key.isEmpty && !started) = true := by simpa using hkey
      rw [readFrom?, if_neg (by decide), if_pos (by decide), if_neg hguard]
      split
      · next j rest' hread =>
          rw [hindex] at hread
          cases hread
          rw [ih]
          rfl
      · next hread =>
          rw [hindex] at hread
          cases hread
  | character hc next ih =>
      obtain ⟨hpoint, hopen, hclose⟩ := hc
      rw [readFrom?, if_neg (by simpa using hpoint), if_neg (by simpa using hopen),
        if_neg (by simpa using hclose), ih]

/-- The reader gives a path exactly where the text spells it. -/
theorem readFrom?_eq_some_iff :
    readFrom? key due started cs = some p ↔ Reads key due started cs p :=
  ⟨reads_of_readFrom?, readFrom?_of_reads⟩

end Reads

namespace Reads

variable {key cs : List Char}
variable {due started : Bool}
variable {p : Path}

/-- Nothing is read only where nothing is left. -/
theorem eq_nil
    (h : Reads key due started cs p)
    (hp : p = []) :
    key = [] ∧ due = false ∧ cs = [] := by
  induction h with
  | @finish key due started hkey =>
      have hnil : key = [] := keyStep_eq_nil_iff.1 hp
      exact ⟨hnil, hkey hnil, rfl⟩
  | point hkey next ih =>
      obtain ⟨-, hdue, -⟩ := ih (List.append_eq_nil_iff.1 hp).2
      cases hdue
  | bracket hkey hindex next ih =>
      exact absurd (List.append_eq_nil_iff.1 hp).2 (List.cons_ne_nil _ _)
  | character hc next ih =>
      exact absurd (ih hp).1 (by simp)

/-- Keys are collected from characters of keys. -/
theorem isPlainKey
    (h : Reads key due started cs p)
    (hkey : ∀ c ∈ key, IsKeyChar c)
    {name : String}
    (hname : .key name ∈ p) :
    IsPlainKey name := by
  induction h with
  | finish =>
      exact isPlainKey_of_mem_keyStep hkey hname
  | point _ next ih =>
      rcases List.mem_append.1 hname with hname | hname
      · exact isPlainKey_of_mem_keyStep hkey hname
      · exact ih (by simp) hname
  | bracket _ hindex next ih =>
      rcases List.mem_append.1 hname with hname | hname
      · exact isPlainKey_of_mem_keyStep hkey hname
      · rcases List.mem_cons.1 hname with heq | hname
        · cases heq
        · exact ih (by simp) hname
  | character hc next ih =>
      refine ih (fun d hd => ?_) hname
      rcases List.mem_append.1 hd with hd | hd
      · exact hkey d hd
      · exact List.mem_singleton.1 hd ▸ hc

theorem indicesFit
    (h : Reads key due started cs p) :
    IndicesFit p := by
  induction h with
  | finish =>
      intro i hi
      cases eq_key_of_mem_keyStep hi
  | point _ next ih =>
      intro i hi
      rcases List.mem_append.1 hi with hi | hi
      · cases eq_key_of_mem_keyStep hi
      · exact ih i hi
  | bracket _ hindex next ih =>
      intro j hj
      rcases List.mem_append.1 hj with hj | hj
      · cases eq_key_of_mem_keyStep hj
      · rcases List.mem_cons.1 hj with heq | hj
        · cases heq
          exact (exists_of_readIndex? hindex).1
        · exact ih j hj
  | character hc next ih =>
      exact ih

/-- A path begins with the key that its text begins with. -/
theorem exists_head
    (h : Reads key due started cs p)
    (hstarted : started = false)
    (hkey : key = [] → due = true) :
    ∃ name, p.head? = some (.key name) ∧ name.toList <+: key ++ cs := by
  induction h with
  | @finish key due started hfree =>
      cases key with
      | nil =>
          exact absurd (hfree rfl) (by simp [hkey rfl])
      | cons c key =>
          exact ⟨_, rfl, by simp⟩
  | @point key cs due started p hfree next ih =>
      cases key with
      | nil =>
          exact absurd (hfree rfl) (by simp [hkey rfl])
      | cons c key =>
          exact ⟨_, rfl, by simp⟩
  | @bracket key cs rest due started i p hfree hindex next ih =>
      cases key with
      | nil =>
          exact absurd (hfree rfl) (by simp [hstarted])
      | cons c key =>
          exact ⟨_, rfl, by simp⟩
  | character hc next ih =>
      simpa using ih hstarted (by simp)

/-- A path that ends in a key ends in the key that its text ends with. -/
theorem suffix_of_getLast?
    (h : Reads key due started cs p)
    {name : String}
    (hname : p.getLast? = some (.key name)) :
    name.toList <:+ key ++ cs := by
  induction h with
  | @finish key due started hkey =>
      cases eq_key_of_mem_keyStep (List.mem_of_getLast? hname)
      simp
  | @point key cs due started p hkey next ih =>
      -- behind a point a key is due, so the path does not end here
      have hp : p ≠ [] := by
        rintro rfl
        exact absurd (next.eq_nil rfl).2.1 (by decide)
      rw [List.getLast?_append_of_ne_nil _ hp] at hname
      exact (ih hname).trans ((List.suffix_cons '.' cs).trans (List.suffix_append key _))
  | @bracket key cs rest due started i p hkey hindex next ih =>
      rw [List.getLast?_append_of_ne_nil _ (List.cons_ne_nil _ _)] at hname
      have hp : p ≠ [] := by
        rintro rfl
        cases hname
      rw [List.getLast?_cons_of_ne_nil hp] at hname
      obtain ⟨-, ds, -, rfl⟩ := exists_of_readIndex? hindex
      have hrest : rest <:+ key ++ '[' :: (ds ++ ']' :: rest) :=
        ⟨key ++ '[' :: (ds ++ [']']), by simp⟩
      exact (ih hname).trans hrest
  | character hc next ih =>
      simpa using ih hname

/-- No bracket holds a number beyond the largest index. -/
theorem not_infix_of_large
    (h : Reads key due started cs p)
    {ds : List Char}
    (hds : ∀ c ∈ ds, c.isDigit = true)
    (hlarge : maxIndex < Nat.ofDigitChars 10 ds 0) :
    ¬('[' :: (ds ++ [']']) <:+: cs) := by
  induction h with
  | finish =>
      simp
  | point _ next ih =>
      intro hpart
      rcases List.infix_cons_iff.1 hpart with hstart | hpart
      · exact absurd (List.cons_prefix_cons.1 hstart).1 (by decide)
      · exact ih hpart
  | @bracket key cs rest due started i p _ hindex next ih =>
      intro hpart
      rcases List.infix_cons_iff.1 hpart with hstart | hpart
      · have hstart := (List.cons_prefix_cons.1 hstart).2
        obtain ⟨after, rfl⟩ := hstart
        rw [List.append_assoc, List.singleton_append, readIndex?_none_of_large hds hlarge] at hindex
        cases hindex
      · -- no bracket opens before the index is closed, so the part lies behind it
        obtain ⟨-, ds', hds', rfl⟩ := exists_of_readIndex? hindex
        have hrest : ds' ++ ']' :: rest = (ds' ++ [']']) ++ rest := by simp
        have hopen : '[' ∉ ds' ++ [']'] := by
          rw [List.mem_append, List.mem_singleton, not_or]
          exact ⟨fun hmem => (ne_bracket_of_isDigit (hds' _ hmem)).1 rfl, by decide⟩
        rw [hrest] at hpart
        exact ih (infix_of_infix_append hopen hpart)
  | character hc next ih =>
      intro hpart
      rcases List.infix_cons_iff.1 hpart with hstart | hpart
      · exact absurd (List.cons_prefix_cons.1 hstart).1.symm hc.2.1
      · exact ih hpart

end Reads

/-! ## What is written -/

/-- The text of steps behind other steps, where every key is set off. -/
def trail : Path → List Char
  | [] => []
  | .key name :: p => '.' :: (name.toList ++ trail p)
  | .index i :: p => (Step.index i).text ++ trail p

theorem trail_append
    (p q : Path) :
    trail (p ++ q) = trail p ++ trail q := by
  induction p with
  | nil =>
      rfl
  | cons step p ih =>
      cases step <;> simp [trail, ih]

/-- Behind a text stands the trail of the steps. -/
theorem textAfter_eq_append_trail
    {before : List Char}
    (h : before ≠ [])
    (p : Path) :
    textAfter before p = before ++ trail p := by
  induction p generalizing before with
  | nil =>
      simp [textAfter, trail]
  | cons step p ih =>
      cases step with
      | key name =>
          have hnext : before ++ ['.'] ++ name.toList ≠ [] := by simp
          rw [textAfter, List.isEmpty_eq_false_iff.2 h, if_neg Bool.false_ne_true, ih hnext]
          simp [trail]
      | index i =>
          have hnext : before ++ (Step.index i).text ≠ [] := by simp [Step.text]
          rw [textAfter, ih hnext]
          simp [trail]

/-- The text of a path that begins with a key. -/
theorem toList_text_key
    {name : String}
    (h : name ≠ "")
    (p : Path) :
    (text (.key name :: p)).toList = name.toList ++ trail p := by
  have hne : name.toList ≠ [] := mt String.toList_eq_nil_iff.1 h
  have htext : text (.key name :: p) = String.ofList (textAfter name.toList p) := by
    simp [text, textAfter]
  rw [htext, String.toList_ofList, textAfter_eq_append_trail hne]

section Written

variable {p : Path}

/-- A key is collected up to the next mark. -/
theorem reads_append
    {name : List Char}
    (hne : name ≠ [])
    (hname : ∀ c ∈ name, IsKeyChar c)
    {key cs : List Char}
    {due started : Bool}
    (h : Reads (key ++ name) false started cs p) :
    Reads key due started (name ++ cs) p := by
  induction name generalizing key due with
  | nil =>
      exact absurd rfl hne
  | cons c name ih =>
      rw [List.forall_mem_cons] at hname
      refine .character hname.1 ?_
      cases name with
      | nil =>
          exact h
      | cons d name =>
          exact ih (List.cons_ne_nil d name) hname.2 (by simpa using h)

/-- A key is read from its text in front of the trail of the steps behind it. -/
theorem reads_key
    {name : String}
    (hname : IsPlainKey name)
    {cs : List Char}
    {due started : Bool}
    (h : Reads name.toList false started cs (keyStep name.toList ++ p)) :
    Reads [] due started (name.toList ++ cs) (.key name :: p) := by
  rw [keyStep_toList hname.1] at h
  exact reads_append hname.toList_ne_nil hname.2 h

/-- Steps behind others are read from their trail. -/
theorem reads_trail
    (hkeys : ∀ name, .key name ∈ p → IsPlainKey name)
    (hrange : IndicesFit p)
    {key : List Char}
    {due started : Bool}
    (hkey : key = [] → due = false ∧ started = true) :
    Reads key due started (trail p) (keyStep key ++ p) := by
  induction p generalizing key due started with
  | nil =>
      rw [List.append_nil]
      exact .finish fun hnil => (hkey hnil).1
  | cons step p ih =>
      have hkeys' : ∀ name, .key name ∈ p → IsPlainKey name :=
        fun name hname => hkeys name (List.mem_cons_of_mem step hname)
      have hrange' : IndicesFit p := fun i hi => hrange i (List.mem_cons_of_mem step hi)
      cases step with
      | key name =>
          have hplain := hkeys name List.mem_cons_self
          have hnext : Reads name.toList false (started || !key.isEmpty) (trail p)
              (keyStep name.toList ++ p) :=
            ih hkeys' hrange' fun hnil => absurd hnil hplain.toList_ne_nil
          exact .point (fun hnil => (hkey hnil).1) (reads_key hplain hnext)
      | index i =>
          have hnext : Reads [] false true (trail p) (keyStep [] ++ p) :=
            ih hkeys' hrange' fun _ => ⟨rfl, rfl⟩
          have htext : trail (.index i :: p) = '[' :: (Nat.toDigits 10 i ++ ']' :: trail p) := by
            simp [trail, Step.text]
          rw [htext]
          exact .bracket (fun hnil => (hkey hnil).2)
            (readIndex?_toDigits (hrange i List.mem_cons_self) _) hnext

end Written

/-! ## Reading and writing -/

section ReadBack

variable {p : Path}
variable {t : String}

theorem read_eq_ok_iff :
    read t = .ok p ↔ Reads [] true false (Text.trimChars t.toList) p := by
  rw [← readFrom?_eq_some_iff, read]
  split
  · next q hq =>
      rw [hq]
      simp
  · next hq =>
      rw [hq]
      simp

/-- What is read can be spelled. -/
theorem spellable_of_read
    (h : read t = .ok p) :
    Spellable p := by
  have hreads := read_eq_ok_iff.1 h
  have hkeys : ∀ name, .key name ∈ p → IsPlainKey name :=
    fun name hname => hreads.isPlainKey (by simp) hname
  refine ⟨?_, hkeys, fun name hlast => ?_⟩
  · obtain ⟨name, hhead, hbegins⟩ := hreads.exists_head rfl fun _ => rfl
    have hne := (hkeys name (List.mem_of_head? hhead)).toList_ne_nil
    refine ⟨name, hhead, ?_⟩
    rw [List.head?_eq_some_head hne, hbegins.head hne]
    exact Text.isBlank_of_mem_head?_trimChars (List.head?_eq_some_head _)
  · have hne := (hkeys name (List.mem_of_getLast? hlast)).toList_ne_nil
    have hsuffix := hreads.suffix_of_getLast? hlast
    rw [List.getLast?_eq_some_getLast hne, hsuffix.getLast hne]
    exact Text.isBlank_of_mem_getLast?_trimChars (List.getLast?_eq_some_getLast _)

theorem indicesFit_of_read
    (h : read t = .ok p) :
    IndicesFit p :=
  (read_eq_ok_iff.1 h).indicesFit

/-- No blank stands at the ends of the text of a path that can be spelled. -/
theorem trimChars_text
    (h : Spellable p) :
    Text.trimChars (text p).toList = (text p).toList := by
  obtain ⟨name, hhead, hblank⟩ := h.starts
  obtain ⟨q, rfl⟩ := List.head?_eq_some_iff.1 hhead
  have hplain := h.keys name List.mem_cons_self
  have hne := hplain.toList_ne_nil
  rw [toList_text_key hplain.1]
  refine Text.trimChars_eq_self ?_ ?_
  · rwa [List.head?_append_of_ne_nil _ hne]
  · rcases List.eq_nil_or_concat' q with rfl | ⟨q, step, rfl⟩
    · rw [trail, List.append_nil]
      exact h.ends name rfl
    · rw [trail_append, ← List.append_assoc]
      cases step with
      | key last =>
          have hlast : (Step.key name :: (q ++ [.key last])).getLast? = some (.key last) := by
            rw [← List.cons_append, List.getLast?_concat]
          have hends := (h.keys last (List.mem_of_getLast? hlast)).toList_ne_nil
          rw [trail, trail, List.append_nil,
            List.getLast?_append_of_ne_nil _ (List.cons_ne_nil _ _),
            List.getLast?_cons_of_ne_nil hends]
          exact h.ends last hlast
      | index i =>
          have htext : trail [.index i] = '[' :: Nat.toDigits 10 i ++ [']'] := by
            simp [trail, Step.text]
          rw [htext, ← List.append_assoc, List.getLast?_concat]
          decide

/-- The text of a path that can be spelled is read back as that path. -/
theorem read_text
    (h : Spellable p)
    (hrange : IndicesFit p) :
    read (text p) = .ok p := by
  rw [read_eq_ok_iff, trimChars_text h]
  obtain ⟨name, hhead, -⟩ := h.starts
  obtain ⟨q, rfl⟩ := List.head?_eq_some_iff.1 hhead
  have hplain := h.keys name List.mem_cons_self
  have hkeys : ∀ other, .key other ∈ q → IsPlainKey other :=
    fun other hother => h.keys other (List.mem_cons_of_mem _ hother)
  have hindices : IndicesFit q := fun i hi => hrange i (List.mem_cons_of_mem _ hi)
  rw [toList_text_key hplain.1]
  exact reads_key hplain (reads_trail hkeys hindices fun hnil => absurd hnil hplain.toList_ne_nil)

/-- A text with a number in brackets beyond the largest index is refused. -/
theorem read_of_large
    {ds : List Char}
    (hpart : '[' :: (ds ++ [']']) <:+: t.toList)
    (hds : ∀ c ∈ ds, c.isDigit = true)
    (hlarge : maxIndex < Nat.ofDigitChars 10 ds 0) :
    read t = .error (.pathNotFound (Text.trim t)) := by
  rw [read]
  split
  · next p hp =>
      have htrim := Text.infix_trimChars (by decide) (by decide) hpart
      exact absurd htrim ((reads_of_readFrom? hp).not_infix_of_large hds hlarge)
  · rfl

end ReadBack

/-- A path is read back from its text if and only if it can be spelled and its
indices are in range.  Whatever a text is read as is such a path, and a text with
a larger index is refused. -/
theorem read_inverts_text :
    (∀ p : Path, read (text p) = .ok p ↔ Spellable p ∧ IndicesFit p) ∧
      (∀ (t : String) (p : Path), read t = .ok p →
        Spellable p ∧ IndicesFit p ∧ read (text p) = .ok p) ∧
      ∀ (t : String) (ds : List Char), '[' :: (ds ++ [']']) <:+: t.toList →
        (∀ c ∈ ds, c.isDigit = true) → maxIndex < Nat.ofDigitChars 10 ds 0 →
          read t = .error (.pathNotFound (Text.trim t)) := by
  refine ⟨fun p => ⟨fun h => ?_, fun h => ?_⟩, fun t p h => ?_, fun t ds hpart hds hlarge => ?_⟩
  · exact ⟨spellable_of_read h, indicesFit_of_read h⟩
  · exact read_text h.1 h.2
  · have hspellable := spellable_of_read h
    have hrange := indicesFit_of_read h
    exact ⟨hspellable, hrange, read_text hspellable hrange⟩
  · exact read_of_large hpart hds hlarge

/-- An odd spelling with zeros, a missing point and blanks around it is read, and
the first index that does not fit is refused. -/
theorem read_inverts_text_odd_spelling :
    read " feeds.[007]url\n" = .ok [.key "feeds", .index 7, .key "url"] ∧
      read (text [.key "feeds", .index 7, .key "url"]) =
        .ok [.key "feeds", .index 7, .key "url"] ∧
      read "feeds[18446744073709551616]" =
        .error (.pathNotFound (Text.trim "feeds[18446744073709551616]")) := by
  have hodd : read " feeds.[007]url\n" = .ok [.key "feeds", .index 7, .key "url"] := by
    cbv
  have hpart : '[' :: ("18446744073709551616".toList ++ [']']) <:+:
      "feeds[18446744073709551616]".toList :=
    ⟨"feeds".toList, [], by decide⟩
  have hdigits : ∀ c ∈ "18446744073709551616".toList, c.isDigit = true :=
    List.all_eq_true.1 (by decide)
  exact ⟨hodd, (read_inverts_text.2.1 _ _ hodd).2.2,
    read_inverts_text.2.2 _ _ hpart hdigits (by decide)⟩

end Dashboard.Path

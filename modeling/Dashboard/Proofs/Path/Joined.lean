import Dashboard.Proofs.Path.Text
import Dashboard.Widget.Basic

/-!
# Path texts set behind a head

The text of steps that are seen from a node is set behind the key of that node by
a look at its first characters.  The outcome is the text of the whole path unless
the steps do not join: a key that looks like a bracket or like the root stands
behind the head, or an empty key leaves no mark there.
-/

namespace Dashboard

namespace Path

/-- The text of a path begins with a bracket: it is that of an index, or a key
begins so, behind keys that are empty. -/
def opensBracket : Path → Bool
  | [] => false
  | .index _ :: _ => true
  | .key name :: p => if name = "" then opensBracket p else name.toList.head? == some '['

/-- The text of steps seen from the node under `head`, set behind `head` by its first
characters alone, is the text of the whole path. -/
def joins (head : String) : Path → Bool
  | [] => true
  | .index _ :: _ => true
  | .key name :: p =>
    if head = "" then opensBracket (.key name :: p)
    else if name = "" then p.isEmpty
    else name.toList.head? != some '[' && !(name == "<root>" && p.isEmpty)

section Texts

variable {p : Path}

theorem toList_text
    (h : p ≠ []) :
    (text p).toList = textAfter [] p := by
  cases p with
  | nil =>
      exact absurd rfl h
  | cons step p =>
      simp [text]

theorem textAfter_key
    (name : String)
    (p : Path) :
    textAfter [] (.key name :: p) = textAfter name.toList p := by
  simp [textAfter]

theorem textAfter_index
    (i : Nat)
    (p : Path) :
    textAfter [] (.index i :: p) = trail (.index i :: p) := by
  have hne : (Step.index i).text ≠ [] := by simp [Step.text]
  rw [textAfter, List.nil_append, textAfter_eq_append_trail hne, trail]

theorem text_singleton_key
    (name : String) :
    text [.key name] = name := by
  simp [text, textAfter]

theorem trail_eq_nil_iff :
    trail p = [] ↔ p = [] := by
  cases p with
  | nil =>
      simp [trail]
  | cons step p =>
      cases step <;> simp [trail, Step.text]

/-- An index is told apart from a path that goes on behind it. -/
theorem text_index_eq_text_index_iff
    (i : Nat)
    (p : Path) :
    text (.index i :: p) = text [.index i] ↔ p.isEmpty = true := by
  rw [← String.toList_inj, toList_text (List.cons_ne_nil _ _), toList_text (List.cons_ne_nil _ _),
    textAfter_index, textAfter_index, trail, trail, trail, List.append_cancel_left_eq,
    trail_eq_nil_iff, List.isEmpty_iff]

theorem opensBracket_iff :
    opensBracket p = true ↔ (textAfter [] p).head? = some '[' := by
  induction p with
  | nil =>
      simp [opensBracket, textAfter]
  | cons step p ih =>
      cases step with
      | index i =>
          simp [opensBracket, textAfter_index, trail, Step.text]
      | key name =>
          rw [opensBracket, textAfter_key]
          split
          · next hnil =>
              rw [hnil]
              exact ih
          · next hne =>
              have hne : name.toList ≠ [] := mt String.toList_eq_nil_iff.1 hne
              rw [textAfter_eq_append_trail hne, List.head?_append_of_ne_nil _ hne, beq_iff_eq]

/-- Behind other steps a path that begins with a key is longer than alone. -/
theorem length_textAfter_lt
    (name : String)
    (p : Path) :
    (textAfter [] (.key name :: p)).length < (trail (.key name :: p)).length := by
  induction p generalizing name with
  | nil =>
      simp [textAfter, trail]
  | cons step p ih =>
      rw [textAfter_key, trail, List.length_cons, List.length_append]
      by_cases hnil : name.toList = []
      · rw [hnil, List.length_nil, Nat.zero_add]
        cases step with
        | index i =>
            rw [textAfter_index]
            exact Nat.lt_succ_self _
        | key other =>
            exact Nat.lt_succ_of_lt (ih other)
      · rw [textAfter_eq_append_trail hnil, List.length_append]
        exact Nat.lt_succ_self _

theorem eq_nil_of_append_trail_eq_root
    {cs : List Char}
    (h : cs ++ trail p = "<root>".toList) :
    p = [] := by
  cases p with
  | nil =>
      rfl
  | cons step p =>
      have hmark : '.' ∈ cs ++ trail (step :: p) ∨ '[' ∈ cs ++ trail (step :: p) := by
        cases step <;> simp [trail, Step.text]
      rw [h] at hmark
      exact absurd hmark (by decide)

end Texts

/-- What is set behind the head of a path text for the text of the steps there. -/
def joint (rest : String) : List Char :=
  if rest = "<root>" then []
  else if rest.toList.head? = some '[' then rest.toList
  else '.' :: rest.toList

section Joints

variable {head : String}
variable {p : Path}

theorem toList_rebasedPath
    (head rest : String) :
    (Widget.rebasedPath head rest).toList = head.toList ++ joint rest := by
  rw [Widget.rebasedPath, joint]
  split
  · simp
  · split <;> simp

theorem length_joint_le
    (rest : String) :
    (joint rest).length ≤ rest.toList.length + 1 := by
  rw [joint]
  split
  · exact Nat.zero_le _
  · split
    · exact Nat.le_succ _
    · exact Nat.le_refl _

theorem joint_eq_self
    {rest : String}
    (h : rest.toList.head? = some '[') :
    joint rest = rest.toList := by
  have hroot : rest ≠ "<root>" := by
    rintro rfl
    exact absurd h (by decide)
  rw [joint, if_neg hroot, if_pos h]

theorem joint_eq_point_cons_iff
    {rest : String} :
    joint rest = '.' :: rest.toList ↔ rest.toList.head? ≠ some '[' ∧ rest ≠ "<root>" := by
  rw [joint]
  split
  · next hroot => simp [hroot]
  · next hroot =>
      split
      · next hopen => simp [hopen]
      · next hopen => simp [hopen, hroot]

/-- Behind the head an empty key leaves its point only where nothing follows. -/
theorem joint_text_empty_key
    (p : Path) :
    joint (text (.key "" :: p)) = trail (.key "" :: p) ↔ p.isEmpty = true := by
  have htext : (text (.key "" :: p)).toList = textAfter [] p := by
    rw [toList_text (List.cons_ne_nil _ _), textAfter_key]
    rfl
  cases p with
  | nil =>
      simp only [List.isEmpty_nil, iff_true]
      rfl
  | cons step p =>
      have hshort : (joint (text (.key "" :: step :: p))).length <
          (trail (.key "" :: step :: p)).length := by
        rw [trail, List.length_cons]
        cases step with
        | index i =>
            have hopen : (text (.key "" :: .index i :: p)).toList.head? = some '[' := by
              rw [htext, textAfter_index]
              rfl
            rw [joint_eq_self hopen, htext, textAfter_index]
            exact Nat.lt_succ_self _
        | key other =>
            have hle := length_joint_le (text (.key "" :: .key other :: p))
            rw [htext] at hle
            exact Nat.lt_of_le_of_lt hle (Nat.succ_lt_succ (length_textAfter_lt other p))
      -- the trail has two points before the next key, or one before a bracket
      exact iff_of_false (fun heq => absurd (heq ▸ hshort) (Nat.lt_irrefl _)) (by simp)

/-- Behind the head another key leaves its point and its text, unless that is taken
for a bracket or for the root. -/
theorem joint_text_key
    {name : String}
    (hne : name ≠ "")
    (p : Path) :
    joint (text (.key name :: p)) = trail (.key name :: p) ↔
      name.toList.head? ≠ some '[' ∧ ¬(name = "<root>" ∧ p = []) := by
  have htext := toList_text_key hne p
  have hchars : name.toList ≠ [] := mt String.toList_eq_nil_iff.1 hne
  have hroot : text (.key name :: p) = "<root>" ↔ name = "<root>" ∧ p = [] := by
    constructor
    · intro heq
      rw [heq] at htext
      obtain rfl := eq_nil_of_append_trail_eq_root htext.symm
      rw [trail, List.append_nil] at htext
      exact ⟨(String.toList_injective htext).symm, rfl⟩
    · rintro ⟨rfl, rfl⟩
      rfl
  rw [trail, ← htext, joint_eq_point_cons_iff, ne_eq, ne_eq, hroot, htext,
    List.head?_append_of_ne_nil _ hchars]

/-- Steps are set behind a head as the trail that they leave behind other steps if
and only if they join. -/
theorem joint_text_eq_trail_iff
    (h : p ≠ [])
    (hhead : head ≠ "") :
    joint (text p) = trail p ↔ joins head p = true := by
  cases p with
  | nil =>
      exact absurd rfl h
  | cons step p =>
      cases step with
      | index i =>
          have htext : (text (.index i :: p)).toList = trail (.index i :: p) := by
            rw [toList_text h, textAfter_index]
          have hopen : (text (.index i :: p)).toList.head? = some '[' := by
            rw [htext]
            rfl
          rw [joint_eq_self hopen, htext]
          simp [joins]
      | key name =>
          rw [joins, if_neg hhead]
          split
          · next hnil =>
              rw [hnil]
              exact joint_text_empty_key p
          · next hne =>
              rw [joint_text_key hne]
              simp [imp_iff_not_or]

/-- The text of steps under a head without characters is that of the steps. -/
theorem joint_text_eq_self_iff
    (h : p ≠ []) :
    joint (text p) = (text p).toList ↔ opensBracket p = true := by
  rw [opensBracket_iff, ← toList_text h, joint]
  split
  · next hroot =>
      rw [hroot]
      decide
  · split
    · next hopen => simp [hopen]
    · next hopen => simp [hopen]

/-- A path text is set behind a head as the text of the whole path if and only if
the steps join. -/
theorem rebasedPath_eq_text_iff
    (head : String)
    (p : Path) :
    Widget.rebasedPath head (text p) = text (.key head :: p) ↔ joins head p = true := by
  rw [← String.toList_inj, toList_rebasedPath]
  by_cases hp : p = []
  · subst hp
    simp [joint, text, textAfter, joins]
  by_cases hhead : head = ""
  · subst hhead
    have htext : (text (.key "" :: p)).toList = (text p).toList := by
      rw [toList_text (List.cons_ne_nil _ _), textAfter_key, toList_text hp]
      rfl
    rw [htext, String.toList_empty, List.nil_append, joint_text_eq_self_iff hp]
    cases p with
    | nil =>
        exact absurd rfl hp
    | cons step p =>
        cases step <;> simp [joins, opensBracket]
  · rw [toList_text_key hhead, List.append_cancel_left_eq, joint_text_eq_trail_iff hp hhead]

end Joints

end Path

end Dashboard

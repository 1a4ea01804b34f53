/-!
# Finding a text inside a text

`splitAt? needle text` cuts a text around the first place where the needle
occurs: what stands before it and what follows it.
-/

namespace Dashboard.Text

/-- What follows `needle` when the text starts with it. -/
def dropPrefix? : List Char → List Char → Option (List Char)
  | [], text => some text
  | _ :: _, [] => none
  | n :: ns, c :: cs => if n == c then dropPrefix? ns cs else none

/-- The text before the first occurrence of `needle` and the text after it. -/
def splitAt? (needle : List Char) : List Char → Option (List Char × List Char)
  | [] => if needle.isEmpty then some ([], []) else none
  | c :: cs =>
    match dropPrefix? needle (c :: cs) with
    | some rest => some ([], rest)
    | none => (splitAt? needle cs).map fun (before, after) => (c :: before, after)

/-- A text that starts with the needle is the needle and what follows it. -/
theorem eq_append_of_dropPrefix? {needle text rest : List Char}
    (h : dropPrefix? needle text = some rest) : text = needle ++ rest := by
  fun_induction dropPrefix? needle text with
  | case1 => simp_all
  | case2 => simp at h
  | case3 n ns c cs hc ih => simp_all
  | case4 => simp at h

/-- Cutting around the needle loses nothing. -/
theorem eq_append_of_splitAt? {needle text before after : List Char}
    (h : splitAt? needle text = some (before, after)) :
    text = before ++ needle ++ after := by
  induction text generalizing before with
  | nil =>
    simp only [splitAt?] at h
    split at h <;> simp_all
  | cons c cs ih =>
    simp only [splitAt?] at h
    split at h
    · rename_i rest hr
      simp only [Option.some.injEq, Prod.mk.injEq] at h
      obtain ⟨rfl, rfl⟩ := h
      simpa using eq_append_of_dropPrefix? hr
    · simp only [Option.map_eq_some_iff, Prod.mk.injEq] at h
      obtain ⟨⟨b, a⟩, hb, rfl, rfl⟩ := h
      simpa using ih hb

end Dashboard.Text

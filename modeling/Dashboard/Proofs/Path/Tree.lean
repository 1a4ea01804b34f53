import Dashboard.Path.Tree
import Dashboard.Proofs.Value.Shape

/-!
# What a change at a path keeps

A change at a path keeps the keys of every mapping distinct if the change of
the node there does.  It changes the names in a mapping only if the path ends
there: inserting adds the new name, removing takes a name out, and any change
further down leaves the names as they are.
-/

namespace Dashboard.Value

section Children

variable {v w : Value}
variable {step : Step}

theorem keysDistinct_child?
    (hv : v.KeysDistinct)
    (h : v.child? step = some w) :
    w.KeysDistinct := by
  cases v with
  | map m =>
      cases step with
      | key name =>
          exact (keysDistinct_map.1 hv).2 _ (Entries.mem_of_get? h)
      | index i =>
          cases h
  | seq vs =>
      cases step with
      | key name =>
          cases h
      | index i =>
          exact keysDistinct_seq.1 hv _ (List.mem_of_getElem? h)
  | null | bool b | int n | float x | str s =>
      cases step <;> cases h

theorem keysDistinct_withChild
    (hv : v.KeysDistinct)
    (hw : w.KeysDistinct) :
    (v.withChild step w).KeysDistinct := by
  cases v with
  | map m =>
      cases step with
      | key name =>
          obtain ⟨hdistinct, hvalues⟩ := keysDistinct_map.1 hv
          refine keysDistinct_map.2 ⟨hdistinct.put name w, fun e he => ?_⟩
          rcases Entries.mem_put he with he | rfl
          · exact hvalues e he
          · exact hw
      | index i =>
          exact hv
  | seq vs =>
      cases step with
      | key name =>
          exact hv
      | index i =>
          refine keysDistinct_seq.2 fun u hu => ?_
          rcases List.mem_or_eq_of_mem_set hu with hu | rfl
          · exact keysDistinct_seq.1 hv u hu
          · exact hw
  | null | bool b | int n | float x | str s =>
      cases step <;> exact hv

end Children

section Changes

variable {α : Type}
variable {op : Value → Except Error (α × Value)}

/-- A change that keeps keys distinct does so at every path. -/
theorem keysDistinct_alterFrom
    (hop : ∀ u a u', u.KeysDistinct → op u = .ok (a, u') → u'.KeysDistinct)
    {before p : Path}
    {v v' : Value}
    {a : α}
    (hv : v.KeysDistinct)
    (h : alterFrom op before v p = .ok (a, v')) :
    v'.KeysDistinct := by
  induction p generalizing before v v' with
  | nil =>
      exact hop v a v' hv h
  | cons step p ih =>
      rw [alterFrom] at h
      split at h
      · next w hchild =>
          split at h
          · next b w' halter =>
              cases h
              exact keysDistinct_withChild hv (ih (keysDistinct_child? hv hchild) halter)
          · cases h
      · cases h

/-- A change further down keeps the names of a mapping. -/
theorem exists_names_alterFrom
    {before p : Path}
    {step : Step}
    {m : Mapping}
    {v : Value}
    {a : α}
    (h : alterFrom op before (.map m) (step :: p) = .ok (a, v)) :
    ∃ m' : Mapping, v = .map m' ∧ Entries.names m' = Entries.names m := by
  rw [alterFrom] at h
  split at h
  · next w hchild =>
      split at h
      · next b w' halter =>
          cases h
          cases step with
          | key name =>
              refine ⟨_, rfl, ?_⟩
              have hmem := Entries.mem_names_of_mem (Entries.mem_of_get? hchild)
              rw [Entries.names_put, if_pos hmem]
          | index i =>
              cases hchild
      · cases h
  · cases h

end Changes

section Operations

variable {parent : Path}
variable {step : Step}
variable {v v' w : Value}

theorem keysDistinct_insertChild
    {a : Unit}
    (hw : w.KeysDistinct)
    (hv : v.KeysDistinct)
    (h : insertChild parent step w v = .ok (a, v')) :
    v'.KeysDistinct := by
  cases v with
  | map m =>
      cases step with
      | key name =>
          rw [insertChild] at h
          split at h
          · cases h
          · cases h
            have hput : ((Value.map m).withChild (.key name) w).KeysDistinct :=
              keysDistinct_withChild hv hw
            exact hput
      | index i =>
          cases h
  | seq vs =>
      cases step with
      | key name =>
          cases h
      | index i =>
          rw [insertChild] at h
          split at h
          · cases h
          · next hle =>
              cases h
              refine keysDistinct_seq.2 fun u hu => ?_
              rcases (List.mem_insertIdx (Nat.le_of_not_lt hle)).1 hu with rfl | hu
              · exact hw
              · exact keysDistinct_seq.1 hv u hu
  | null | bool b | int n | float x | str s =>
      cases h

theorem keysDistinct_removeChild
    {old : Value}
    (hv : v.KeysDistinct)
    (h : removeChild parent step v = .ok (old, v')) :
    v'.KeysDistinct := by
  rw [removeChild] at h
  split at h
  · cases h
  · cases v with
    | map m =>
        cases step with
        | key name =>
            cases h
            obtain ⟨hdistinct, hvalues⟩ := keysDistinct_map.1 hv
            exact keysDistinct_map.2 ⟨hdistinct.erase name,
              fun e he => hvalues e ((Entries.erase_sublist m name).subset he)⟩
        | index i =>
            cases h
    | seq vs =>
        cases step with
        | key name =>
            cases h
        | index i =>
            cases h
            exact keysDistinct_seq.2 fun u hu =>
              keysDistinct_seq.1 hv u ((List.eraseIdx_sublist vs i).subset hu)
    | null | bool b | int n | float x | str s =>
        cases step <;> cases h

end Operations

end Dashboard.Value

import Dashboard.Proofs.Except
import Dashboard.Proofs.Path.Tree
import Dashboard.Proofs.Widget.Sound

/-!
# Changes of options keep a widget sound

Options are inserted, replaced and removed at paths.  The name of a field can
only come in as the last step of a path of one step, and there it is refused.
-/

namespace Dashboard.Widget

variable {w w' : Widget}
variable {p : Path}
variable {v : Value}

/-- A widget is sound with another option tree that leaves its names free. -/
theorem Sound.withTree
    (h : w.Sound)
    {m : Mapping}
    (htype : "type" ∉ Entries.names m)
    (htitle : "title" ∉ Entries.names m)
    (hkeys : (Value.map m).KeysDistinct) :
    (w.withTree (.map m)).Sound where
  type_kept := h.type_kept
  title_kept := h.title_kept
  type_free := htype
  title_free := htitle
  keys_distinct := hkeys

/-- A change further down in the options. -/
theorem Sound.withTree_alterFrom
    {α : Type}
    {op : Value → Except Error (α × Value)}
    {before : Path}
    {step : Step}
    {a : α}
    (h : w.Sound)
    (hop : ∀ u a u', u.KeysDistinct → op u = .ok (a, u') → u'.KeysDistinct)
    (halter : Value.alterFrom op before w.tree (step :: p) = .ok (a, v)) :
    (w.withTree v).Sound := by
  have hkeys := Value.keysDistinct_alterFrom hop h.keys_distinct halter
  obtain ⟨m, rfl, hnames⟩ := Value.exists_names_alterFrom halter
  exact h.withTree (hnames ▸ h.type_free) (hnames ▸ h.title_free) hkeys

/-- The last step of a path, and the steps before it. -/
theorem eq_of_splitLast
    {parent : Path}
    {step : Step}
    (h : Value.splitLast p = .ok (parent, step)) :
    p = parent ++ [step] := by
  cases p with
  | nil =>
      cases h
  | cons first rest =>
      cases h
      exact (List.dropLast_concat_getLast (List.cons_ne_nil first rest)).symm

/-- A name that a path of one step may have is no name of a field. -/
theorem not_reserved_of_checkReserved
    {name : String}
    (h : checkReserved [.key name] = .ok ()) :
    name ≠ "type" ∧ name ≠ "title" := by
  rw [checkReserved] at h
  split at h
  · cases h
  · next hfree =>
      simp only [reservedKeys, List.contains_cons, List.contains_nil, Bool.or_false,
        Bool.or_eq_true, beq_iff_eq, not_or] at hfree
      exact hfree

/-- Inserting an option keeps a widget sound. -/
theorem Sound.insertOption
    (h : w.Sound)
    (hv : v.KeysDistinct)
    (hinsert : w.insertOption p v = .ok w') :
    w'.Sound := by
  simp only [Widget.insertOption, Value.insertAt, bind_eq_ok, pure_eq_ok] at hinsert
  obtain ⟨_, hreserved, tree, ⟨⟨parent, step⟩, hsplit, ⟨a, tree'⟩, halter, rfl⟩, rfl⟩ := hinsert
  have hop : ∀ u b u', u.KeysDistinct → Value.insertChild parent step v u = .ok (b, u') →
      u'.KeysDistinct :=
    fun u b u' hu hb => Value.keysDistinct_insertChild hv hu hb
  have hp := eq_of_splitLast hsplit
  cases parent with
  | cons first rest =>
      exact h.withTree_alterFrom hop halter
  | nil =>
      subst hp
      have hkeys := hop _ _ _ h.keys_distinct halter
      cases step with
      | index i =>
          cases halter
      | key name =>
          obtain ⟨htype, htitle⟩ := not_reserved_of_checkReserved hreserved
          have halter : Value.insertChild [] (.key name) v (.map w.options) = .ok (a, tree') :=
            halter
          rw [Value.insertChild] at halter
          split at halter
          · cases halter
          · next hnew =>
              cases halter
              have hnone : name ∉ Entries.names w.options := by
                rw [← Entries.get?_eq_none_iff]
                simpa [Entries.has] using hnew
              have hnames := Entries.names_put w.options name v
              rw [if_neg hnone] at hnames
              refine h.withTree ?_ ?_ hkeys
              · rw [hnames, List.mem_append, List.mem_singleton, not_or]
                exact ⟨h.type_free, htype.symm⟩
              · rw [hnames, List.mem_append, List.mem_singleton, not_or]
                exact ⟨h.title_free, htitle.symm⟩

/-- Replacing an option keeps a widget sound. -/
theorem Sound.setOption
    {old : Value}
    (h : w.Sound)
    (hv : v.KeysDistinct)
    (hset : w.setOption p v = .ok (old, w')) :
    w'.Sound := by
  simp only [Widget.setOption, Value.replaceAt, bind_eq_ok, pure_eq_ok] at hset
  obtain ⟨_, -, ⟨_, tree⟩, ⟨_, hsplit, halter⟩, hpair⟩ := hset
  cases hpair
  have hop : ∀ u b u' : Value, u.KeysDistinct → (Except.ok (u, v) : Except Error _) = .ok (b, u') →
      u'.KeysDistinct := by
    intro u b u' _ hb
    cases hb
    exact hv
  cases p with
  | nil =>
      cases hsplit
  | cons step p =>
      exact h.withTree_alterFrom hop halter

/-- Removing an option keeps a widget sound. -/
theorem Sound.deleteOption
    {old : Value}
    (h : w.Sound)
    (hdelete : w.deleteOption p = .ok (old, w')) :
    w'.Sound := by
  simp only [Widget.deleteOption, Value.removeAt, bind_eq_ok, pure_eq_ok] at hdelete
  obtain ⟨⟨node, tree⟩, ⟨⟨parent, step⟩, hsplit, halter⟩, hpair⟩ := hdelete
  cases hpair
  have hop : ∀ u b u', u.KeysDistinct → Value.removeChild parent step u = .ok (b, u') →
      u'.KeysDistinct :=
    fun u b u' hu hb => Value.keysDistinct_removeChild hu hb
  cases parent with
  | cons first rest =>
      exact h.withTree_alterFrom hop halter
  | nil =>
      have hkeys := hop _ _ _ h.keys_distinct halter
      have halter : Value.removeChild [] step (.map w.options) = .ok (node, tree) := halter
      rw [Value.removeChild] at halter
      split at halter
      · cases halter
      · cases step with
        | index i =>
            cases halter
        | key name =>
            cases halter
            have hsubset := Entries.names_erase_subset w.options name
            exact h.withTree (fun hmem => h.type_free (hsubset hmem))
              (fun hmem => h.title_free (hsubset hmem)) hkeys

end Dashboard.Widget

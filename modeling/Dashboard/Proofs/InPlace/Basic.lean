import Dashboard.InPlace.Basic
import Dashboard.Proofs.Except
import Dashboard.Proofs.Path.Nodes
import Dashboard.Proofs.Path.Tree

/-!
# Nothing is written before everything is decided

A step is settled if it writes only what it has decided on, so that a refused
one leaves its state as it was.  Work on a part is settled if the work on the
part is, because a part that is put back as it was changes nothing.  Options
come back into their widget because every change of them, carried out or
refused, leaves a mapping.

Each change in place is settled, and what it decides on is the change of the
document that gives a second one.
-/

namespace Dashboard

/-! ## Parts that are put back -/

namespace Value

/-- A change leaves a mapping at the root if it does at the end of its path. -/
theorem exists_map_of_alterFrom
    {α : Type}
    {op : Value → Except Error (α × Value)}
    (hop : ∀ m a t, op (.map m) = .ok (a, t) → ∃ m', t = .map m')
    {before p : Path}
    {m : Mapping}
    {a : α}
    {t : Value}
    (h : alterFrom op before (.map m) p = .ok (a, t)) :
    ∃ m', t = .map m' := by
  cases p with
  | nil =>
      exact hop m a t h
  | cons step p =>
      obtain ⟨m', rfl, -⟩ := exists_names_alterFrom h
      exact ⟨m', rfl⟩

theorem exists_map_of_insertChild
    {parent : Path}
    {step : Step}
    {v t : Value}
    {m : Mapping}
    {a : Unit}
    (h : insertChild parent step v (.map m) = .ok (a, t)) :
    ∃ m', t = .map m' := by
  cases step with
  | key name =>
      rw [insertChild] at h
      split at h
      · cases h
      · cases h
        exact ⟨_, rfl⟩
  | index i =>
      cases h

theorem exists_map_of_removeChild
    {parent : Path}
    {step : Step}
    {old t : Value}
    {m : Mapping}
    (h : removeChild parent step (.map m) = .ok (old, t)) :
    ∃ m', t = .map m' := by
  rw [removeChild] at h
  split at h
  · cases h
  · cases step with
    | key name =>
        cases h
        exact ⟨_, rfl⟩
    | index i =>
        cases h

end Value

/-- An element that is put back changes nothing. -/
theorem set_of_elementAt
    {α : Type}
    {level : Level}
    {xs : List α}
    {i : Nat}
    {x : α}
    (h : elementAt level xs i = .ok x) :
    xs.set i x = xs := by
  rw [elementAt] at h
  split at h
  · next y hy =>
      cases h
      obtain ⟨hlt, rfl⟩ := List.getElem?_eq_some_iff.1 hy
      exact List.set_getElem_self hlt
  · cases h

/-! ## Changes whose value is dropped -/

namespace Document

variable {α : Type}
variable {d : Document}
variable {p c i : Nat}

theorem changePage_drop
    (value : Page → α)
    (f : Page → Page) :
    d.changePage p (fun page => .ok ((), f page)) =
      (d.changePage p fun page => .ok (value page, f page)).map fun r => ((), r.2) := by
  change d.changePage p (fun page => pure ((), f page)) =
    (fun r => ((), r.2)) <$> d.changePage p fun page => pure (value page, f page)
  simp only [changePage, changeAt, bind_assoc, pure_bind, map_bind, map_pure]

theorem changeColumn_drop
    (value : Column → α)
    (f : Column → Column) :
    d.changeColumn p c (fun column => .ok ((), f column)) =
      (d.changeColumn p c fun column => .ok (value column, f column)).map fun r => ((), r.2) := by
  change d.changeColumn p c (fun column => pure ((), f column)) =
    (fun r => ((), r.2)) <$> d.changeColumn p c fun column => pure (value column, f column)
  simp only [changeColumn, changeColumns, changePage, changeAt, bind_assoc, pure_bind, map_bind,
    map_pure]

theorem changeWidget_drop
    (value : Widget → α)
    (f : Widget → Widget) :
    d.changeWidget p c i (fun w => .ok ((), f w)) =
      (d.changeWidget p c i fun w => .ok (value w, f w)).map fun r => ((), r.2) := by
  change d.changeWidget p c i (fun w => pure ((), f w)) =
    (fun r => ((), r.2)) <$> d.changeWidget p c i fun w => pure (value w, f w)
  simp only [changeWidget, changeWidgets, changeColumn, changeColumns, changePage, changeAt,
    bind_assoc, pure_bind, map_bind, map_pure]

end Document

namespace InPlace

variable {σ τ α β : Type}

/-! ## Settled steps -/

/-- A change of a part, as a change of the whole. -/
def inside (get : σ → Except Error τ) (put : σ → τ → σ) (f : τ → Except Error (α × τ)) (s : σ) :
    Except Error (α × σ) := do
  let t ← get s
  let (a, t) ← f t
  return (a, put s t)

/-- Work on a part is settled if a part can be put back as it was. -/
theorem within_settle
    {get : σ → Except Error τ}
    {put : σ → τ → σ}
    (hput : ∀ s t, get s = .ok t → put s t = s)
    (f : τ → Except Error (α × τ)) :
    within get put (settle f) = settle (inside get put f) := by
  funext s
  simp only [within, settle, inside]
  cases hget : get s with
  | error e =>
      rfl
  | ok t =>
      cases hf : f t with
      | error e =>
          simp [bind, Except.bind, hf, hput s t hget]
      | ok r =>
          simp [bind, Except.bind, pure, Except.pure, hf]

theorem reading_settle
    (x : Except Error α)
    (f : α → σ → Except Error (β × σ)) :
    reading x (fun a => settle (f a)) = settle (fun s => x >>= fun a => f a s) := by
  funext s
  cases x <;> rfl

theorem write_eq_settle (f : σ → α × σ) : write f = settle (fun s => .ok (f s)) :=
  rfl

/-! ## Trees -/

/-- Work at a path is settled if the work on the node is. -/
theorem atPath_settle
    (op : Value → Except Error (α × Value))
    (before p : Path) :
    atPath (settle op) before p = settle (fun v => Value.alterFrom op before v p) := by
  induction p generalizing before with
  | nil =>
      rfl
  | cons step p ih =>
      have hput : ∀ v w, childAt before step v = .ok w → v.withChild step w = v := by
        intro v w h
        rw [childAt] at h
        split at h
        · next hchild =>
            cases h
            exact Value.withChild_of_child? hchild
        · cases h
      rw [atPath, ih, within_settle hput]
      congr 1
      funext v
      rw [inside, childAt, Value.alterFrom]
      cases v.child? step with
      | none =>
          rfl
      | some w =>
          cases h : Value.alterFrom op (before ++ [step]) w p <;>
            simp [bind, Except.bind, pure, Except.pure, h]

/-- An insertion at a path as a change without a value. -/
def insertion (p : Path) (v root : Value) : Except Error (Unit × Value) := do
  let (parent, step) ← Value.splitLast p
  root.alter parent (Value.insertChild parent step v)

theorem insertAt_eq_settle
    (p : Path)
    (v : Value) :
    insertAt p v = settle (insertion p v) := by
  rw [insertAt]
  simp only [atPath_settle]
  exact reading_settle _ _

theorem replaceAt_eq_settle
    (p : Path)
    (v : Value) :
    replaceAt p v = settle (fun root => root.replaceAt p v) := by
  rw [replaceAt]
  simp only [write_eq_settle, atPath_settle]
  exact reading_settle _ _

theorem removeAt_eq_settle (p : Path) : removeAt p = settle (fun root => root.removeAt p) := by
  rw [removeAt]
  simp only [atPath_settle]
  exact reading_settle _ _

/-! ## Widgets -/

/-- Work on the options is settled if it leaves a mapping. -/
theorem onOptions_settle
    (f : Value → Except Error (α × Value))
    (hmap : ∀ m a t, f (.map m) = .ok (a, t) → ∃ m', t = .map m') :
    onOptions (settle f) =
      settle (fun w => (f w.tree).map fun r => (r.1, w.withTree r.2)) := by
  funext w
  simp only [onOptions, settle]
  cases hf : f w.tree with
  | error e =>
      rfl
  | ok r =>
      obtain ⟨m, hm⟩ := hmap w.options r.1 r.2 hf
      simp only [Except.map, hm, Widget.withTree]

theorem insertOption_eq_settle
    (p : Path)
    (v : Value) :
    insertOption p v = settle (fun w => (w.insertOption p v).map fun w => ((), w)) := by
  have hmap : ∀ m a t, insertion p v (.map m) = .ok (a, t) → ∃ m', t = .map m' := by
    intro m a t h
    obtain ⟨⟨parent, step⟩, -, halter⟩ := bind_eq_ok.1 h
    exact Value.exists_map_of_alterFrom (fun _ _ _ => Value.exists_map_of_insertChild) halter
  rw [insertOption]
  simp only [insertAt_eq_settle, onOptions_settle _ hmap, reading_settle]
  congr 1
  funext w
  rw [Widget.insertOption, Value.insertAt, insertion]
  cases Widget.checkReserved p with
  | error e =>
      rfl
  | ok _ =>
      cases Value.splitLast p with
      | error e =>
          rfl
      | ok r =>
          simp only [bind, Except.bind]
          cases w.tree.alter r.1 (Value.insertChild r.1 r.2 v) <;> rfl

theorem setOption_eq_settle
    (p : Path)
    (v : Value) :
    setOption p v = settle (fun w => w.setOption p v) := by
  have hmap : ∀ m a t, (Value.map m).replaceAt p v = .ok (a, t) → ∃ m', t = .map m' := by
    intro m a t h
    obtain ⟨⟨parent, step⟩, hsplit, halter⟩ := bind_eq_ok.1 h
    cases p with
    | nil =>
        cases hsplit
    | cons first rest =>
        obtain ⟨m', rfl, -⟩ := Value.exists_names_alterFrom halter
        exact ⟨m', rfl⟩
  rw [setOption]
  simp only [replaceAt_eq_settle, onOptions_settle (fun root => root.replaceAt p v) hmap]
  exact reading_settle _ _

theorem deleteOption_eq_settle (p : Path) :
    deleteOption p = settle (fun w => w.deleteOption p) := by
  have hmap : ∀ m a t, (Value.map m).removeAt p = .ok (a, t) → ∃ m', t = .map m' := by
    intro m a t h
    obtain ⟨⟨parent, step⟩, -, halter⟩ := bind_eq_ok.1 h
    exact Value.exists_map_of_alterFrom (fun _ _ _ => Value.exists_map_of_removeChild) halter
  rw [deleteOption, removeAt_eq_settle]
  exact onOptions_settle _ hmap

/-! ## Documents -/

theorem atElement_settle
    (level : Level)
    (i : Nat)
    (f : α → Except Error (β × α)) :
    atElement level i (settle f) = settle (fun xs => changeAt level xs i f) :=
  within_settle (fun _ _ => set_of_elementAt) f

theorem takeOut_eq_settle
    (level : Level)
    (i : Nat) :
    takeOut level i = settle (fun xs : List α => Dashboard.removeAt level xs i) := by
  funext xs
  rw [takeOut, settle, Dashboard.removeAt]
  cases elementAt level xs i <;> rfl

/-- Change the pages. -/
def changePages (f : List Page → Except Error (α × List Page)) (d : Document) :
    Except Error (α × Document) := do
  let (a, pages) ← f d.pages
  return (a, { d with pages })

theorem onPages_settle (f : List Page → Except Error (α × List Page)) :
    onPages (settle f) = settle (changePages f) := by
  refine within_settle (fun d pages h => ?_) f
  cases h
  rfl

theorem onPage_settle
    (p : Nat)
    (f : Page → Except Error (α × Page)) :
    onPage p (settle f) = settle (fun d => d.changePage p f) := by
  rw [onPage, atElement_settle]
  exact onPages_settle _

theorem onColumns_settle
    (p : Nat)
    (f : List Column → Except Error (α × List Column)) :
    onColumns p (settle f) = settle (fun d => d.changeColumns p f) := by
  rw [onColumns, within_settle, onPage_settle]
  · rfl
  · intro page columns h
    cases h
    rfl

theorem onColumn_settle
    (p c : Nat)
    (f : Column → Except Error (α × Column)) :
    onColumn p c (settle f) = settle (fun d => d.changeColumn p c f) := by
  rw [onColumn, atElement_settle]
  exact onColumns_settle _ _

theorem onWidgets_settle
    (p c : Nat)
    (f : List Widget → Except Error (α × List Widget)) :
    onWidgets p c (settle f) = settle (fun d => d.changeWidgets p c f) := by
  rw [onWidgets, within_settle, onColumn_settle]
  · rfl
  · intro column widgets h
    cases h
    rfl

theorem onWidget_settle
    (p c w : Nat)
    (f : Widget → Except Error (α × Widget)) :
    onWidget p c w (settle f) = settle (fun d => d.changeWidget p c w f) := by
  rw [onWidget, atElement_settle]
  exact onWidgets_settle _ _ _

end InPlace

end Dashboard

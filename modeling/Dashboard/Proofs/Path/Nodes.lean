import Dashboard.Path.Tree
import Dashboard.Proofs.Entries
import Dashboard.Proofs.Except
import Mathlib.Data.List.Infix

/-!
# Nodes of a tree and their paths

`node?` looks up the node at a path and `graft` puts another one into its place.
Following a path gives the node there, and its error names the first step that
leads nowhere.  A change at a path follows the path, changes the node that it
finds, and grafts the outcome: nodes below it are those of the outcome, and
nodes apart from the path stay.
-/

namespace Dashboard.Value

/-- The node at a path, if the path leads to one. -/
def node? (v : Value) : Path → Option Value
  | [] => some v
  | step :: p => (v.child? step).bind fun w => w.node? p

/-- The tree with another node in the place at a path. -/
def graft (v : Value) : Path → Value → Value
  | [], u => u
  | step :: p, u =>
    match v.child? step with
    | some w => v.withChild step (w.graft p u)
    | none => v

section Children

variable {v w : Value}
variable {step other : Step}

/-- A child that is put back changes nothing. -/
theorem withChild_of_child?
    (h : v.child? step = some w) :
    v.withChild step w = v := by
  cases v with
  | map m =>
      cases step with
      | key name =>
          exact congrArg Value.map (Entries.put_of_get? h)
      | index i =>
          cases h
  | seq items =>
      cases step with
      | key name =>
          cases h
      | index i =>
          obtain ⟨hlt, rfl⟩ := List.getElem?_eq_some_iff.1 h
          exact congrArg Value.seq (List.set_getElem_self hlt)
  | null | bool b | int n | float x | str s =>
      cases step <;> cases h

theorem child?_withChild_self
    (h : v.child? step = some w)
    (u : Value) :
    (v.withChild step u).child? step = some u := by
  cases v with
  | map m =>
      cases step with
      | key name =>
          exact Entries.get?_put_self m name u
      | index i =>
          cases h
  | seq items =>
      cases step with
      | key name =>
          cases h
      | index i =>
          obtain ⟨hlt, -⟩ := List.getElem?_eq_some_iff.1 h
          exact List.getElem?_set_self hlt
  | null | bool b | int n | float x | str s =>
      cases step <;> cases h

theorem child?_withChild_of_ne
    (h : other ≠ step)
    (u : Value) :
    (v.withChild step u).child? other = v.child? other := by
  cases v with
  | map m =>
      cases step with
      | key name =>
          cases other with
          | key name' =>
              exact Entries.get?_put_of_ne m (fun heq => h (congrArg Step.key heq)) u
          | index j =>
              rfl
      | index i =>
          rfl
  | seq items =>
      cases step with
      | key name =>
          rfl
      | index i =>
          cases other with
          | key name =>
              rfl
          | index j =>
              exact List.getElem?_set_ne fun heq => h (congrArg Step.index heq.symm)
  | null | bool b | int n | float x | str s =>
      cases step <;> rfl

theorem withChild_withChild
    (u u' : Value) :
    (v.withChild step u).withChild step u' = v.withChild step u' := by
  cases v with
  | map m =>
      cases step with
      | key name =>
          exact congrArg Value.map (Entries.put_put m name u u')
      | index i =>
          rfl
  | seq items =>
      cases step with
      | key name =>
          rfl
      | index i =>
          exact congrArg Value.seq (List.set_set u)
  | null | bool b | int n | float x | str s =>
      cases step <;> rfl

end Children

/-! ## Looking up -/

theorem node?_singleton
    (v : Value)
    (step : Step) :
    v.node? [step] = v.child? step := by
  cases hchild : v.child? step <;> simp [node?, hchild]

theorem node?_append
    (v : Value)
    (p q : Path) :
    v.node? (p ++ q) = (v.node? p).bind fun w => w.node? q := by
  induction p generalizing v with
  | nil =>
      rfl
  | cons step p ih =>
      rw [List.cons_append, node?, node?, Option.bind_assoc]
      exact congrArg (v.child? step).bind (funext ih)

theorem node?_concat
    (v : Value)
    (p : Path)
    (step : Step) :
    v.node? (p ++ [step]) = (v.node? p).bind fun u => u.child? step := by
  simp only [node?_append, node?_singleton]

/-! ## Grafting -/

section Grafting

variable {v u u' : Value}
variable {p q : Path}

/-- Below the place of a graft stand the nodes that it brings. -/
theorem node?_graft_append
    (h : v.node? p = some u)
    (u' : Value)
    (q : Path) :
    (v.graft p u').node? (p ++ q) = u'.node? q := by
  induction p generalizing v with
  | nil =>
      rfl
  | cons step p ih =>
      obtain ⟨w, hchild, hw⟩ := Option.bind_eq_some_iff.1 h
      rw [graft, hchild, List.cons_append, node?]
      simp only [child?_withChild_self hchild, Option.bind_some, ih hw]

theorem node?_graft_self
    (h : v.node? p = some u)
    (u' : Value) :
    (v.graft p u').node? p = some u' := by
  have happend := node?_graft_append h u' []
  rwa [List.append_nil] at happend

/-- Nodes apart from the path of a graft stay. -/
theorem node?_graft_of_apart
    (hpq : ¬p <+: q)
    (hqp : ¬q <+: p)
    (u' : Value) :
    (v.graft p u').node? q = v.node? q := by
  induction p generalizing v q with
  | nil =>
      exact absurd List.nil_prefix hpq
  | cons step p ih =>
      cases q with
      | nil =>
          exact absurd List.nil_prefix hqp
      | cons other q =>
          rw [graft]
          split
          · next w hchild =>
              rw [node?, node?]
              by_cases heq : other = step
              · subst heq
                rw [List.cons_prefix_cons, not_and] at hpq hqp
                rw [child?_withChild_self hchild, hchild]
                exact ih (hpq rfl) (hqp rfl)
              · rw [child?_withChild_of_ne heq]
          · rfl

theorem graft_graft
    (h : v.node? p = some u)
    (u' u'' : Value) :
    (v.graft p u').graft p u'' = v.graft p u'' := by
  induction p generalizing v with
  | nil =>
      rfl
  | cons step p ih =>
      obtain ⟨w, hchild, hw⟩ := Option.bind_eq_some_iff.1 h
      simp only [graft, hchild, child?_withChild_self hchild, ih hw, withChild_withChild]

/-- Grafting what is there changes nothing. -/
theorem graft_of_node?
    (h : v.node? p = some u) :
    v.graft p u = v := by
  induction p generalizing v with
  | nil =>
      exact (Option.some.inj h).symm
  | cons step p ih =>
      obtain ⟨w, hchild, hw⟩ := Option.bind_eq_some_iff.1 h
      simp only [graft, hchild, ih hw, withChild_of_child? hchild]

end Grafting

/-! ## Following and changing -/

section Following

variable {α : Type}
variable {op : Value → Except Error (α × Value)}
variable {root v w : Value}
variable {before p q : Path}

theorem toOption_resolveFrom :
    (resolveFrom before v p).toOption = v.node? p := by
  induction p generalizing before v with
  | nil =>
      rfl
  | cons step p ih =>
      rw [resolveFrom, node?]
      split
      · next w hchild =>
          rw [hchild, ih]
          rfl
      · next hchild =>
          rw [hchild]
          rfl

/-- Following a path gives the node there. -/
theorem resolveFrom_eq_ok_iff :
    resolveFrom before v p = .ok w ↔ v.node? p = some w := by
  rw [← toOption_eq_some, toOption_resolveFrom]

theorem resolve_eq_ok_iff :
    root.resolve p = .ok w ↔ root.node? p = some w :=
  resolveFrom_eq_ok_iff

/-- What is wrong with a path that leads nowhere is the first step that no node
has. -/
theorem exists_of_resolveFrom_eq_error
    {e : Error}
    (h : resolveFrom before v p = .error e) :
    ∃ done next rest u, p = done ++ next :: rest ∧ v.node? done = some u ∧
      u.child? next = none ∧ e = u.stepError (before ++ done) next := by
  induction p generalizing before v with
  | nil =>
      cases h
  | cons step p ih =>
      rw [resolveFrom] at h
      split at h
      · next w hchild =>
          obtain ⟨done, next, rest, u, rfl, hu, hnext, rfl⟩ := ih h
          refine ⟨step :: done, next, rest, u, rfl, ?_, hnext, by simp⟩
          rw [node?, hchild, Option.bind_some, hu]
      · next hchild =>
          cases h
          exact ⟨[], step, p, v, rfl, rfl, hchild, by simp⟩

theorem resolveFrom_append
    (before : Path)
    (v : Value)
    (p q : Path) :
    resolveFrom before v (p ++ q) =
      (do resolveFrom (before ++ p) (← resolveFrom before v p) q) := by
  induction p generalizing before v with
  | nil =>
      rw [List.append_nil]
      rfl
  | cons step p ih =>
      rw [List.cons_append, resolveFrom, resolveFrom]
      split
      · next w hchild =>
          rw [ih, List.append_assoc, List.singleton_append]
      · rfl

/-- A change at a path follows it, changes the node there, and grafts the
outcome. -/
theorem alterFrom_eq
    (op : Value → Except Error (α × Value))
    (before : Path)
    (v : Value)
    (p : Path) :
    alterFrom op before v p = do
      let (a, u) ← op (← resolveFrom before v p)
      return (a, v.graft p u) := by
  induction p generalizing before v with
  | nil =>
      cases hop : op v <;> simp [alterFrom, resolveFrom, hop, graft, bind, Except.bind, pure,
        Except.pure]
  | cons step p ih =>
      rw [alterFrom, resolveFrom]
      split
      · next w hchild =>
          rw [ih]
          simp only [graft, hchild]
          cases hresolve : resolveFrom (before ++ [step]) w p with
          | error e =>
              rfl
          | ok u =>
              cases hop : op u <;> simp [hop, bind, Except.bind, pure, Except.pure]
      · rfl

end Following

end Dashboard.Value

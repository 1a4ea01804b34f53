import Dashboard.Proofs.Path.Nodes
import Mathlib.Data.List.InsertIdx

/-!
# Changes at a path act at one place

A node is inserted into, replaced in or removed from the container that its path
leads to.  Each change can be undone: an inserted node is removed again, a
replaced one put back, and an item of a list that was removed inserted again,
always with the order of the entries.  Every other node stays, at its path or,
behind the place of an item that came or went, at an index that is one higher or
one lower.
-/

namespace Dashboard

namespace Step

/-- Where the child at an index goes when a child is put in at a step. -/
def raised : Step → Nat → Nat
  | .key _, j => j
  | .index i, j => if i ≤ j then j + 1 else j

/-- Where the child at an index goes when the child at a step is taken out. -/
def lowered : Step → Nat → Nat
  | .key _, j => j
  | .index i, j => if i < j then j - 1 else j

/-- The step to a child when the children at indices move; those at keys stay. -/
def moved (f : Nat → Nat) : Step → Step
  | .key name => .key name
  | .index j => .index (f j)

end Step

/-- A path when the children of one node move: the step behind the path of that
node moves with its child. -/
def Path.moved (f : Nat → Nat) : (parent q : Path) → Path
  | [], step :: q => step.moved f :: q
  | step :: parent, other :: q =>
    if step = other then other :: Path.moved f parent q else other :: q
  | _, [] => []

section Moving

variable {f : Nat → Nat}
variable {parent : Path}

theorem Path.moved_append
    (f : Nat → Nat)
    (parent : Path)
    (step : Step)
    (q : Path) :
    Path.moved f parent (parent ++ step :: q) = parent ++ step.moved f :: q := by
  induction parent with
  | nil =>
      rfl
  | cons first parent ih =>
      rw [List.cons_append, Path.moved, if_pos rfl, ih, List.cons_append]

theorem Path.moved_self
    (hf : ∀ j, f j = j)
    (parent q : Path) :
    Path.moved f parent q = q := by
  have hstep : ∀ step : Step, step.moved f = step := by
    intro step
    cases step with
    | key name =>
        rfl
    | index j =>
        exact congrArg Step.index (hf j)
  induction parent generalizing q with
  | nil =>
      cases q with
      | nil =>
          rfl
      | cons step q =>
          rw [Path.moved, hstep]
  | cons first parent ih =>
      cases q with
      | nil =>
          rfl
      | cons other q =>
          rw [Path.moved, ih, ite_self]

theorem Path.moved_raised_key
    (name : String)
    (parent q : Path) :
    Path.moved (Step.key name).raised parent q = q :=
  Path.moved_self (fun _ => rfl) parent q

theorem Path.moved_lowered_key
    (name : String)
    (parent q : Path) :
    Path.moved (Step.key name).lowered parent q = q :=
  Path.moved_self (fun _ => rfl) parent q

/-- Only paths behind the node move. -/
theorem Path.moved_of_not_prefix
    {q : Path}
    (h : ¬parent <+: q) :
    Path.moved f parent q = q := by
  induction parent generalizing q with
  | nil =>
      exact absurd List.nil_prefix h
  | cons step parent ih =>
      cases q with
      | nil =>
          rfl
      | cons other q =>
          rw [Path.moved]
          split
          · next heq =>
              rw [List.cons_prefix_cons, not_and] at h
              rw [ih (h heq)]
          · rfl

end Moving

namespace Value

/-! ## Children that come and go -/

/-- A child can be put in at a step: under a name that is new, or at an index up
to the length. -/
def hasRoom : Value → Step → Bool
  | .map m, .key name => !Entries.has m name
  | .seq items, .index i => i ≤ items.length
  | _, _ => false

/-- A container with a new child. -/
def withNew (v : Value) (step : Step) (w : Value) : Value :=
  match v, step with
  | .map m, .key name => .map (Entries.put m name w)
  | .seq items, .index i => .seq (items.insertIdx i w)
  | v, _ => v

/-- A container without a child. -/
def without (v : Value) (step : Step) : Value :=
  match v, step with
  | .map m, .key name => .map (Entries.erase m name)
  | .seq items, .index i => .seq (items.eraseIdx i)
  | v, _ => v

section Children

variable {parent : Path}
variable {step other : Step}
variable {v v' w u : Value}

theorem get?_of_hasRoom
    {m : Mapping}
    {name : String}
    (h : hasRoom (.map m) (.key name) = true) :
    Entries.get? m name = none := by
  simpa [hasRoom, Entries.has] using h

/-- A child is inserted exactly where there is room for it. -/
theorem insertChild_eq_ok_iff
    {a : Unit} :
    insertChild parent step w v = .ok (a, v') ↔
      v.hasRoom step = true ∧ v' = v.withNew step w := by
  cases v with
  | map m =>
      cases step with
      | key name =>
          cases hhas : Entries.has m name <;>
            simp [insertChild, hasRoom, withNew, hhas, eq_comm]
      | index i =>
          simp [insertChild, hasRoom]
  | seq items =>
      cases step with
      | key name =>
          simp [insertChild, hasRoom]
      | index i =>
          by_cases hle : i ≤ items.length
          · simp [insertChild, hasRoom, withNew, hle, Nat.not_lt.2 hle, eq_comm]
          · simp [insertChild, hasRoom, hle, Nat.not_le.1 hle]
  | null | bool b | int n | float x | str s =>
      simp [insertChild, hasRoom]

/-- A child is removed exactly where a step leads to it. -/
theorem removeChild_eq
    (parent : Path)
    (step : Step)
    (v : Value) :
    removeChild parent step v =
      (resolveFrom parent v [step]).map fun w => (w, v.without step) := by
  rw [removeChild, resolveFrom]
  cases hchild : v.child? step with
  | none =>
      rfl
  | some w =>
      cases v with
      | map m =>
          cases step with
          | key name =>
              rfl
          | index i =>
              cases hchild
      | seq items =>
          cases step with
          | key name =>
              cases hchild
          | index i =>
              rfl
      | null | bool b | int n | float x | str s =>
          cases step <;> cases hchild

theorem child?_withNew_self
    (h : v.hasRoom step = true)
    (w : Value) :
    (v.withNew step w).child? step = some w := by
  cases v with
  | map m =>
      cases step with
      | key name =>
          exact Entries.get?_put_self m name w
      | index i =>
          cases h
  | seq items =>
      cases step with
      | key name =>
          cases h
      | index i =>
          have hle : i ≤ items.length := by simpa [hasRoom] using h
          simp [withNew, child?, List.getElem?_insertIdx_self, hle]
  | null | bool b | int n | float x | str s =>
      cases h

/-- A new child that is taken out leaves what there was. -/
theorem without_withNew
    (h : v.hasRoom step = true)
    (w : Value) :
    (v.withNew step w).without step = v := by
  cases v with
  | map m =>
      cases step with
      | key name =>
          exact congrArg Value.map (Entries.erase_put_of_get?_none (get?_of_hasRoom h) w)
      | index i =>
          cases h
  | seq items =>
      cases step with
      | key name =>
          cases h
      | index i =>
          exact congrArg Value.seq (List.eraseIdx_insertIdx_self w)
  | null | bool b | int n | float x | str s =>
      cases h

/-- The other children stay when a new one comes, those behind it one further. -/
theorem child?_withNew_moved
    (h : v.hasRoom step = true)
    (hu : v.child? other = some u)
    (w : Value) :
    (v.withNew step w).child? (other.moved step.raised) = some u := by
  cases v with
  | map m =>
      cases step with
      | key name =>
          cases other with
          | key name' =>
              have hne : name' ≠ name := by
                rintro rfl
                have hnone := get?_of_hasRoom h
                rw [child?, hnone] at hu
                cases hu
              exact (Entries.get?_put_of_ne m hne w).trans hu
          | index j =>
              cases hu
      | index i =>
          cases h
  | seq items =>
      cases step with
      | key name =>
          cases h
      | index i =>
          cases other with
          | key name =>
              cases hu
          | index j =>
              change (items.insertIdx i w)[if i ≤ j then j + 1 else j]? = some u
              split
              · next hle =>
                  rw [List.getElem?_insertIdx_of_gt (by omega)]
                  exact hu
              · next hlt =>
                  rw [List.getElem?_insertIdx_of_lt (by omega)]
                  exact hu
  | null | bool b | int n | float x | str s =>
      cases h

/-- The other children stay when one goes, those behind it one nearer. -/
theorem child?_without_moved
    (hne : other ≠ step)
    (hu : v.child? other = some u) :
    (v.without step).child? (other.moved step.lowered) = some u := by
  cases v with
  | map m =>
      cases other with
      | key name' =>
          cases step with
          | key name =>
              exact (Entries.get?_erase_of_ne m fun heq => hne (congrArg Step.key heq)).trans hu
          | index i =>
              exact hu
      | index j =>
          cases hu
  | seq items =>
      cases other with
      | key name' =>
          cases hu
      | index j =>
          cases step with
          | key name =>
              exact hu
          | index i =>
              have hji : j ≠ i := fun heq => hne (congrArg Step.index heq)
              change (items.eraseIdx i)[if i < j then j - 1 else j]? = some u
              split
              · next hlt =>
                  have hback : j - 1 + 1 = j := by omega
                  rw [List.getElem?_eraseIdx_of_ge (by omega), hback]
                  exact hu
              · next hge =>
                  rw [List.getElem?_eraseIdx_of_lt (by omega)]
                  exact hu
  | null | bool b | int n | float x | str s =>
      cases other <;> cases hu

/-- An item of a list that was taken out can be put in again. -/
theorem withNew_without
    {items : List Value}
    (h : (Value.seq items).child? step = some w) :
    ((Value.seq items).without step).hasRoom step = true ∧
      ((Value.seq items).without step).withNew step w = .seq items := by
  cases step with
  | key name =>
      cases h
  | index i =>
      obtain ⟨hlt, rfl⟩ := List.getElem?_eq_some_iff.1 h
      constructor
      · have hle : i ≤ (items.eraseIdx i).length := by
          rw [List.length_eraseIdx_of_lt hlt]
          omega
        simpa [without, hasRoom] using hle
      · exact congrArg Value.seq (List.insertIdx_eraseIdx_getElem hlt)

end Children

/-! ## Changes from the root -/

section Changes

variable {root root' v w old u u' : Value}
variable {parent p q : Path}
variable {step : Step}

theorem splitLast_concat
    (parent : Path)
    (step : Step) :
    splitLast (parent ++ [step]) = .ok (parent, step) := by
  cases parent with
  | nil =>
      rfl
  | cons first parent =>
      have hconcat : (first :: parent) ++ [step] ≠ [] := List.concat_ne_nil _ _
      change Except.ok (((first :: parent) ++ [step]).dropLast,
        ((first :: parent) ++ [step]).getLast hconcat) = _
      rw [List.dropLast_concat, List.getLast_concat]

theorem insertAt_eq
    (root : Value)
    (parent : Path)
    (step : Step)
    (v : Value) :
    root.insertAt (parent ++ [step]) v = do
      let u ← root.resolve parent
      return root.graft parent (← insertChild parent step v u).2 := by
  simp only [insertAt, splitLast_concat, alter, alterFrom_eq, resolve, bind_assoc, pure_bind]
  rfl

theorem replaceAt_eq
    (root : Value)
    (parent : Path)
    (step : Step)
    (v : Value) :
    root.replaceAt (parent ++ [step]) v =
      (root.resolve (parent ++ [step])).map fun old =>
        (old, root.graft (parent ++ [step]) v) := by
  simp only [replaceAt, splitLast_concat, alter, alterFrom_eq, resolve]
  cases resolveFrom [] root (parent ++ [step]) <;> rfl

theorem removeAt_eq
    (root : Value)
    (parent : Path)
    (step : Step) :
    root.removeAt (parent ++ [step]) = do
      let u ← root.resolve parent
      let w ← resolveFrom parent u [step]
      return (w, root.graft parent (u.without step)) := by
  simp only [removeAt, splitLast_concat, alter, alterFrom_eq, resolve, removeChild_eq]
  change (resolveFrom [] root parent >>= fun u => _) = _
  refine bind_congr fun u => ?_
  cases resolveFrom parent u [step] <;> rfl

/-- An insertion needs a node at the parent path with room for the child. -/
theorem insertAt_eq_ok_iff :
    root.insertAt (parent ++ [step]) v = .ok root' ↔
      ∃ u, root.node? parent = some u ∧ u.hasRoom step = true ∧
        root' = root.graft parent (u.withNew step v) := by
  simp only [insertAt_eq, bind_eq_ok, pure_eq_ok, resolve_eq_ok_iff]
  constructor
  · rintro ⟨u, hu, ⟨_, u'⟩, hinsert, rfl⟩
    obtain ⟨hroom, rfl⟩ := insertChild_eq_ok_iff.1 hinsert
    exact ⟨u, hu, hroom, rfl⟩
  · rintro ⟨u, hu, hroom, rfl⟩
    exact ⟨u, hu, ((), u.withNew step v), insertChild_eq_ok_iff.2 ⟨hroom, rfl⟩, rfl⟩

/-- A replacement needs a node at the path. -/
theorem replaceAt_eq_ok_iff :
    root.replaceAt (parent ++ [step]) v = .ok (old, root') ↔
      root.node? (parent ++ [step]) = some old ∧ root' = root.graft (parent ++ [step]) v := by
  rw [replaceAt_eq, map_eq_ok]
  constructor
  · rintro ⟨w, hw, heq⟩
    cases heq
    exact ⟨resolve_eq_ok_iff.1 hw, rfl⟩
  · rintro ⟨hold, rfl⟩
    exact ⟨old, resolve_eq_ok_iff.2 hold, rfl⟩

/-- A removal needs a node at the parent path with the child. -/
theorem removeAt_eq_ok_iff :
    root.removeAt (parent ++ [step]) = .ok (old, root') ↔
      ∃ u, root.node? parent = some u ∧ u.child? step = some old ∧
        root' = root.graft parent (u.without step) := by
  simp only [removeAt_eq, bind_eq_ok, pure_eq_ok, resolve_eq_ok_iff, resolveFrom_eq_ok_iff,
    node?_singleton]
  constructor
  · rintro ⟨u, hu, w, hchild, heq⟩
    cases heq
    exact ⟨u, hu, hchild, rfl⟩
  · rintro ⟨u, hu, hchild, rfl⟩
    exact ⟨u, hu, old, hchild, rfl⟩

/-- When the node at a path is changed, every node that is not on the way to it is
found where its part of the changed node went. -/
theorem node?_graft_moved
    {f : Nat → Nat}
    (hu : root.node? parent = some u)
    (hway : ¬q <+: parent)
    (hchild : ∀ step w, parent ++ [step] <+: q → u.child? step = some w →
      u'.child? (step.moved f) = some w)
    (hw : root.node? q = some w) :
    (root.graft parent u').node? (Path.moved f parent q) = some w := by
  by_cases hbehind : parent <+: q
  · -- the first step behind the changed node moves with its child, the rest stays
    obtain ⟨rest, rfl⟩ := hbehind
    cases rest with
    | nil =>
        exact absurd (by simp) hway
    | cons step rest =>
        rw [node?_append, hu, Option.bind_some, node?] at hw
        obtain ⟨c, hc, hw⟩ := Option.bind_eq_some_iff.1 hw
        have hbegins : parent ++ [step] <+: parent ++ step :: rest := by simp
        rw [Path.moved_append, node?_graft_append hu, node?, hchild step c hbegins hc,
          Option.bind_some, hw]
  · rw [Path.moved_of_not_prefix hbehind, node?_graft_of_apart hbehind hway, hw]

/-! ## What changes leave -/

section Inserted

variable (h : root.insertAt (parent ++ [step]) v = .ok root')
include h

theorem resolve_of_insertAt :
    root'.resolve (parent ++ [step]) = .ok v := by
  obtain ⟨u, hu, hroom, rfl⟩ := insertAt_eq_ok_iff.1 h
  rw [resolve_eq_ok_iff, node?_graft_append hu, node?_singleton, child?_withNew_self hroom]

/-- An inserted node is removed again. -/
theorem removeAt_of_insertAt :
    root'.removeAt (parent ++ [step]) = .ok (v, root) := by
  obtain ⟨u, hu, hroom, rfl⟩ := insertAt_eq_ok_iff.1 h
  refine removeAt_eq_ok_iff.2 ⟨_, node?_graft_self hu _, child?_withNew_self hroom v, ?_⟩
  rw [without_withNew hroom, graft_graft hu, graft_of_node? hu]

theorem resolve_moved_of_insertAt
    (hq : root.resolve q = .ok w)
    (hway : ¬q <+: parent) :
    root'.resolve (Path.moved step.raised parent q) = .ok w := by
  obtain ⟨u, hu, hroom, rfl⟩ := insertAt_eq_ok_iff.1 h
  rw [resolve_eq_ok_iff] at hq ⊢
  exact node?_graft_moved hu hway (fun _ _ _ hc => child?_withNew_moved hroom hc v) hq

end Inserted

section Replaced

variable (h : root.replaceAt (parent ++ [step]) v = .ok (old, root'))
include h

theorem resolve_of_replaceAt :
    root'.resolve (parent ++ [step]) = .ok v := by
  obtain ⟨hold, rfl⟩ := replaceAt_eq_ok_iff.1 h
  rw [resolve_eq_ok_iff, node?_graft_self hold]

/-- A replaced node is put back. -/
theorem replaceAt_of_replaceAt :
    root'.replaceAt (parent ++ [step]) old = .ok (v, root) := by
  obtain ⟨hold, rfl⟩ := replaceAt_eq_ok_iff.1 h
  refine replaceAt_eq_ok_iff.2 ⟨node?_graft_self hold v, ?_⟩
  rw [graft_graft hold, graft_of_node? hold]

theorem resolve_apart_of_replaceAt
    (hq : root.resolve q = .ok w)
    (hway : ¬q <+: parent)
    (hbehind : ¬parent ++ [step] <+: q) :
    root'.resolve q = .ok w := by
  obtain ⟨-, rfl⟩ := replaceAt_eq_ok_iff.1 h
  have hapart : ¬q <+: parent ++ [step] := by
    rw [List.prefix_concat_iff, not_or]
    exact ⟨fun heq => hbehind (heq ▸ List.prefix_rfl), hway⟩
  rw [resolve_eq_ok_iff] at hq ⊢
  rw [node?_graft_of_apart hbehind hapart, hq]

end Replaced

section Removed

variable (h : root.removeAt (parent ++ [step]) = .ok (old, root'))
include h

/-- An item that was removed from a list is inserted again. -/
theorem insertAt_of_removeAt
    {items : List Value}
    (hitems : root.resolve parent = .ok (.seq items)) :
    root'.insertAt (parent ++ [step]) old = .ok root := by
  obtain ⟨u, hu, hchild, rfl⟩ := removeAt_eq_ok_iff.1 h
  obtain rfl : Value.seq items = u := Option.some.inj ((resolve_eq_ok_iff.1 hitems).symm.trans hu)
  obtain ⟨hroom, hback⟩ := withNew_without hchild
  refine insertAt_eq_ok_iff.2 ⟨_, node?_graft_self hu _, hroom, ?_⟩
  rw [hback, graft_graft hu, graft_of_node? hu]

theorem resolve_moved_of_removeAt
    (hq : root.resolve q = .ok w)
    (hway : ¬q <+: parent)
    (hbehind : ¬parent ++ [step] <+: q) :
    root'.resolve (Path.moved step.lowered parent q) = .ok w := by
  obtain ⟨u, hu, -, rfl⟩ := removeAt_eq_ok_iff.1 h
  rw [resolve_eq_ok_iff] at hq ⊢
  refine node?_graft_moved hu hway (fun other c hother hc => ?_) hq
  exact child?_without_moved (fun heq => hbehind (heq ▸ hother)) hc

end Removed

end Changes

/-- A node that was inserted is found, and removing it gives the tree back.  A node
that was replaced is put back by another replacement, and an item of a list that
was removed by an insertion.  Whatever was found before, apart from the changed
container, the nodes around it and what was replaced or removed, is found after:
in a list behind the place of the change at the index that it has then, and else
at its old path. -/
theorem changes_act_at_one_place
    (root v : Value)
    (parent : Path)
    (step : Step) :
    (∀ root', root.insertAt (parent ++ [step]) v = .ok root' →
      root'.resolve (parent ++ [step]) = .ok v ∧
        root'.removeAt (parent ++ [step]) = .ok (v, root) ∧
        ∀ q w, root.resolve q = .ok w → ¬q <+: parent →
          match step with
          | .key _ => root'.resolve q = .ok w
          | .index i =>
            root'.resolve (Path.moved (fun j => if i ≤ j then j + 1 else j) parent q) = .ok w) ∧
      (∀ old root', root.replaceAt (parent ++ [step]) v = .ok (old, root') →
        root'.resolve (parent ++ [step]) = .ok v ∧
          root'.replaceAt (parent ++ [step]) old = .ok (v, root) ∧
          ∀ q w, root.resolve q = .ok w → ¬q <+: parent → ¬parent ++ [step] <+: q →
            root'.resolve q = .ok w) ∧
      ∀ old root', root.removeAt (parent ++ [step]) = .ok (old, root') →
        (∀ items, root.resolve parent = .ok (.seq items) →
          root'.insertAt (parent ++ [step]) old = .ok root) ∧
          ∀ q w, root.resolve q = .ok w → ¬q <+: parent → ¬parent ++ [step] <+: q →
            match step with
            | .key _ => root'.resolve q = .ok w
            | .index i =>
              root'.resolve (Path.moved (fun j => if i < j then j - 1 else j) parent q) =
                .ok w := by
  refine ⟨fun root' h => ?_, fun old root' h => ?_, fun old root' h => ?_⟩
  · refine ⟨resolve_of_insertAt h, removeAt_of_insertAt h, fun q w hq hway => ?_⟩
    have hmoved := resolve_moved_of_insertAt h hq hway
    cases step with
    | key name =>
        rwa [Path.moved_raised_key] at hmoved
    | index i =>
        exact hmoved
  · refine ⟨resolve_of_replaceAt h, replaceAt_of_replaceAt h, fun q w hq hway hbehind => ?_⟩
    exact resolve_apart_of_replaceAt h hq hway hbehind
  · refine ⟨fun items hitems => insertAt_of_removeAt h hitems, fun q w hq hway hbehind => ?_⟩
    have hmoved := resolve_moved_of_removeAt h hq hway hbehind
    cases step with
    | key name =>
        rwa [Path.moved_lowered_key] at hmoved
    | index i =>
        exact hmoved

/-- A list of two feeds beside a limit. -/
def twoFeeds : Value :=
  .map [("limit", .int 10), ("feeds", .seq [.str "first", .map [("url", .str "second")]])]

/-- A feed comes between two others, replaces the second, or the first one goes. -/
theorem changes_act_at_one_place_twoFeeds :
    (∃ root', twoFeeds.insertAt ([.key "feeds"] ++ [.index 1]) .null = .ok root' ∧
        root'.removeAt ([.key "feeds"] ++ [.index 1]) = .ok (.null, twoFeeds) ∧
        root'.resolve [.key "feeds", .index 2, .key "url"] = .ok (.str "second")) ∧
      (∃ root', twoFeeds.replaceAt ([.key "feeds"] ++ [.index 0]) .null =
          .ok (.str "first", root') ∧
        root'.replaceAt ([.key "feeds"] ++ [.index 0]) (.str "first") = .ok (.null, twoFeeds) ∧
        root'.resolve [.key "limit"] = .ok (.int 10)) ∧
      ∃ root', twoFeeds.removeAt ([.key "feeds"] ++ [.index 0]) = .ok (.str "first", root') ∧
        root'.insertAt ([.key "feeds"] ++ [.index 0]) (.str "first") = .ok twoFeeds ∧
        root'.resolve [.key "feeds", .index 0, .key "url"] = .ok (.str "second") := by
  have hway : ¬[Step.key "feeds", .index 1, .key "url"] <+: [.key "feeds"] := by decide
  have hbehind : ¬[Step.key "feeds"] ++ [.index 0] <+: [.key "feeds", .index 1, .key "url"] := by
    decide
  refine ⟨⟨_, rfl, ?_⟩, ⟨_, rfl, ?_⟩, ⟨_, rfl, ?_⟩⟩
  · have h := (changes_act_at_one_place twoFeeds .null [.key "feeds"] (.index 1)).1 _ rfl
    exact ⟨h.2.1, h.2.2 [.key "feeds", .index 1, .key "url"] _ rfl hway⟩
  · have h := (changes_act_at_one_place twoFeeds .null [.key "feeds"] (.index 0)).2.1 _ _ rfl
    exact ⟨h.2.1, h.2.2 [.key "limit"] _ rfl (by decide) (by decide)⟩
  · have h := (changes_act_at_one_place twoFeeds .null [.key "feeds"] (.index 0)).2.2 _ _ rfl
    exact ⟨h.1 _ rfl, h.2 [.key "feeds", .index 1, .key "url"] _ rfl hway hbehind⟩

end Value

end Dashboard

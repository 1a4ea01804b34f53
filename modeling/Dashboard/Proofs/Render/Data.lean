import Dashboard.Proofs.Render.Nodes
import Dashboard.Proofs.Yaml.Datum
import Dashboard.Proofs.Yaml.Keys

/-!
# The data of the node of a value

The node of a value has the data of that value, if plain texts stand for
themselves, no mapping has a key twice and no more containers are nested than
a reader follows.  The data give the value back.
-/

namespace Dashboard.Render

open Yaml

mutual

/-- The data of a value. -/
def toDatum : Value → Datum
  | .str s => .scalar (.str s)
  | .seq vs => .seq (toDatumItems vs)
  | .map m => .map (toDatumEntries m)
  | v => .scalar (v.asScalar?.getD .null)

/-- Item by item. -/
def toDatumItems : List Value → List Datum
  | [] => []
  | v :: vs => toDatum v :: toDatumItems vs

/-- Entry by entry. -/
def toDatumEntries : List (String × Value) → List (Datum × Datum)
  | [] => []
  | (k, v) :: m => (.scalar (.str k), toDatum v) :: toDatumEntries m

end

/-- A scalar that is no text is its own data. -/
theorem toDatum_of_asScalar?
    {v : Value}
    {s : Scalar}
    (h : v.asScalar? = some s) :
    toDatum v = .scalar s := by
  cases v with
  | null | bool b | int n | float x =>
      simp [toDatum, h]
  | str t | seq vs | map m =>
      cases h

theorem toDatumEntries_append
    (m n : List (String × Value)) :
    toDatumEntries (m ++ n) = toDatumEntries m ++ toDatumEntries n := by
  induction m with
  | nil =>
      rfl
  | cons e m ih =>
      obtain ⟨k, v⟩ := e
      rw [List.cons_append, toDatumEntries, toDatumEntries, ih, List.cons_append]

/-- The data of a mapping have its keys. -/
theorem hasKey_toDatumEntries
    {m : Entries Value}
    {k : String}
    (h : k ∉ Entries.names m) :
    Datum.hasKey (toDatumEntries m) (.scalar (.str k)) = false := by
  induction m with
  | nil =>
      rfl
  | cons e m ih =>
      obtain ⟨l, v⟩ := e
      rw [Entries.names_cons, List.mem_cons, not_or] at h
      have hkey : Datum.same (.scalar (.str k)) (.scalar (.str l)) = false := by
        simpa [Datum.same, Datum.sameScalar] using h.1
      have hrest := ih h.2
      rw [Datum.hasKey] at hrest
      rw [toDatumEntries, Datum.hasKey, List.any_cons, hkey, hrest]
      rfl

/-- Plain texts stand for themselves. -/
def Faithful (plain : String → Bool) : Prop :=
  ∀ s, plain s = true → Scalar.ofPlain? s.toList = some (.str s)

section Data

variable {plain : String → Bool}

theorem scalar?_of_faithful
    (hplain : Faithful plain)
    (s : String) :
    Node.scalar? false none s (plain s) = some (.str s) := by
  cases hs : plain s with
  | true =>
      exact hplain s hs
  | false =>
      rfl

theorem datum_node_scalar
    (ctx : Node.Context)
    (depth : Nat)
    {v : Value}
    {s : Scalar}
    (h : v.asScalar? = some s) :
    Node.datum ctx depth false (node plain v) = pure (.scalar s) := by
  have hnode : node plain v = .scalar {} (String.ofList (plainScalar v)) true := by
    cases v with
    | null | bool b | int n | float x =>
        simp [node]
    | str t | seq vs | map m =>
        cases h
  have hscalar : Node.scalar? false none (String.ofList (plainScalar v)) true = some s := by
    simp only [Node.scalar?, Bool.false_eq_true, if_false, if_true, String.toList_ofList,
      Scalar.ofPlain?_plainScalar h]
  rw [hnode, Node.datum_scalar, hscalar]

mutual

/-- The node of a value has the data of that value. -/
theorem datum_node
    (hplain : Faithful plain)
    (ctx : Node.Context)
    (v : Value)
    (depth : Nat)
    (hdepth : v.depth ≤ depth)
    (hkeys : v.KeysDistinct) :
    Node.datum ctx depth false (node plain v) = pure (toDatum v) := by
  match v with
  | .str s =>
      rw [node, Node.datum_scalar, scalar?_of_faithful hplain, toDatum]
  | .seq vs =>
      rw [Value.depth] at hdepth
      rw [Value.KeysDistinct] at hkeys
      obtain ⟨depth, rfl⟩ : ∃ n, depth = n + 1 := ⟨depth - 1, by omega⟩
      have hitems := mapM_nodeItems hplain ctx vs depth (by omega) hkeys
      rw [node, Node.datum, Node.datumWith_eq_content _ _ (by simp) rfl, Node.content, hitems,
        map_pure, toDatum]
  | .map m =>
      rw [Value.depth] at hdepth
      rw [Value.KeysDistinct] at hkeys
      obtain ⟨depth, rfl⟩ : ∃ n, depth = n + 1 := ⟨depth - 1, by omega⟩
      have hentries := foldlM_nodeEntries hplain ctx m depth (by omega) hkeys.2 [] hkeys.1
      rw [node, Node.datum, Node.datumWith_eq_content _ _ (by simp) rfl, Node.content]
      rw [toDatumEntries, List.nil_append] at hentries
      rw [hentries, map_pure, toDatum]
  | .null | .bool _ | .int _ | .float _ =>
      rw [datum_node_scalar ctx depth rfl, toDatum_of_asScalar? rfl]

theorem mapM_nodeItems
    (hplain : Faithful plain)
    (ctx : Node.Context)
    (vs : List Value)
    (depth : Nat)
    (hdepth : Value.depthItems vs ≤ depth)
    (hkeys : Value.KeysDistinctItems vs) :
    (nodeItems plain vs).mapM (Node.datum ctx depth false) = pure (toDatumItems vs) := by
  match vs with
  | [] =>
      rfl
  | v :: vs =>
      rw [Value.depthItems, Nat.max_le] at hdepth
      rw [Value.KeysDistinctItems] at hkeys
      rw [nodeItems, List.mapM_cons, datum_node hplain ctx v depth hdepth.1 hkeys.1,
        mapM_nodeItems hplain ctx vs depth hdepth.2 hkeys.2, pure_bind, pure_bind, toDatumItems]

theorem foldlM_nodeEntries
    (hplain : Faithful plain)
    (ctx : Node.Context)
    (m : List (String × Value))
    (depth : Nat)
    (hdepth : Value.depthEntries m ≤ depth)
    (hkeys : Value.KeysDistinctEntries m)
    (done : List (String × Value))
    (hdistinct : Entries.Distinct (done ++ m)) :
    (nodeEntries plain m).foldlM
        (Node.addEntry (Node.datum ctx depth false) (Node.datum ctx depth false))
        (toDatumEntries done) =
      pure (toDatumEntries (done ++ m)) := by
  match m with
  | [] =>
      rw [List.append_nil]
      rfl
  | (k, v) :: m =>
      rw [Value.depthEntries, Nat.max_le] at hdepth
      rw [Value.KeysDistinctEntries] at hkeys
      have hnew : k ∉ Entries.names done :=
        hdistinct.not_mem_left
      have hdistinct' : Entries.Distinct (done ++ [(k, v)] ++ m) := by
        rwa [List.append_assoc]
      have hrest := foldlM_nodeEntries hplain ctx m depth hdepth.2 hkeys.2 _ hdistinct'
      have hentry : Node.addEntry (Node.datum ctx depth false) (Node.datum ctx depth false)
          (toDatumEntries done) (.scalar {} k (plain k), node plain v) =
            pure (toDatumEntries (done ++ [(k, v)])) := by
        have hkey := datum_node hplain ctx (.str k) depth (Nat.zero_le _) trivial
        rw [node, toDatum] at hkey
        rw [Node.addEntry, hkey, pure_bind, hasKey_toDatumEntries hnew,
          datum_node hplain ctx v depth hdepth.1 hkeys.1, toDatumEntries_append]
        rfl
      rw [nodeEntries, List.foldlM_cons, hentry, pure_bind, hrest, List.append_assoc]
      rfl

end

end Data

mutual

/-- The data of a value stand for that value. -/
theorem tree?_toDatum
    (v : Value) :
    Datum.tree? (toDatum v) = some v := by
  match v with
  | .str s =>
      rw [toDatum]
      rfl
  | .seq vs =>
      rw [toDatum, Datum.tree?, treeItems?_toDatumItems vs]
      rfl
  | .map m =>
      rw [toDatum, Datum.tree?, treeEntries?_toDatumEntries m]
      rfl
  | .null | .bool _ | .int _ | .float _ =>
      rw [toDatum_of_asScalar? rfl, Datum.tree?]
      exact congrArg some (Value.ofScalar_of_asScalar? rfl)

theorem treeItems?_toDatumItems
    (vs : List Value) :
    Datum.treeItems? (toDatumItems vs) = some vs := by
  match vs with
  | [] =>
      rfl
  | v :: vs =>
      rw [toDatumItems, Datum.treeItems?, tree?_toDatum v, treeItems?_toDatumItems vs]
      rfl

theorem treeEntries?_toDatumEntries
    (m : List (String × Value)) :
    Datum.treeEntries? (toDatumEntries m) = some m := by
  match m with
  | [] =>
      rfl
  | (k, v) :: m =>
      rw [toDatumEntries, Datum.treeEntries?, tree?_toDatum v, treeEntries?_toDatumEntries m]
      rfl

end

/-- The node of a value is read as that value. -/
theorem exists_datum?_node
    {plain : String → Bool}
    (hplain : Faithful plain)
    {v : Value}
    (hdepth : v.depth ≤ Node.maxDepth)
    (hkeys : v.KeysDistinct) :
    (node plain v).datum? = some (toDatum v) ∧ Value.ofDatum (toDatum v) = v := by
  have hread : (node plain v).datum? = some (toDatum v) := by
    rw [Node.datum?, datum_node hplain _ v Node.maxDepth hdepth hkeys]
    rfl
  exact ⟨hread, Datum.ofDatum_eq_of_tree? _ (tree?_toDatum v) (Node.keysApart_of_datum? hread)⟩

end Dashboard.Render

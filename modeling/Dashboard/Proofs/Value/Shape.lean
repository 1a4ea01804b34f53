import Dashboard.Proofs.Entries
import Dashboard.Value.OfYaml

/-!
# The shape of values

Three things about the containers of a value matter to what is written and
read: that no mapping repeats a key, how deep containers are nested, and what
keys there are.  Each is a recursion over the tree.  Whatever YAML text a value
was read from, its mappings have distinct keys.
-/

namespace Dashboard.Value

mutual

/-- Every key of every mapping in the value has a property. -/
def AllKeys (P : String → Prop) : Value → Prop
  | .seq items => AllKeysItems P items
  | .map entries => AllKeysEntries P entries
  | _ => True

/-- Item by item. -/
def AllKeysItems (P : String → Prop) : List Value → Prop
  | [] => True
  | v :: vs => AllKeys P v ∧ AllKeysItems P vs

/-- Entry by entry. -/
def AllKeysEntries (P : String → Prop) : List (String × Value) → Prop
  | [] => True
  | (k, v) :: m => (P k ∧ AllKeys P v) ∧ AllKeysEntries P m

end

mutual

/-- No mapping in the value has two entries of one key. -/
def KeysDistinct : Value → Prop
  | .seq items => KeysDistinctItems items
  | .map entries => Entries.Distinct entries ∧ KeysDistinctEntries entries
  | _ => True

/-- Item by item. -/
def KeysDistinctItems : List Value → Prop
  | [] => True
  | v :: vs => KeysDistinct v ∧ KeysDistinctItems vs

/-- Entry by entry. -/
def KeysDistinctEntries : List (String × Value) → Prop
  | [] => True
  | (_, v) :: m => KeysDistinct v ∧ KeysDistinctEntries m

end

mutual

/-- How many containers are nested in each other. -/
def depth : Value → Nat
  | .seq items => depthItems items + 1
  | .map entries => depthEntries entries + 1
  | _ => 0

/-- Of the items together. -/
def depthItems : List Value → Nat
  | [] => 0
  | v :: vs => max (depth v) (depthItems vs)

/-- Of the entries together. -/
def depthEntries : List (String × Value) → Nat
  | [] => 0
  | (_, v) :: m => max (depth v) (depthEntries m)

end

/-! ## Deciding the shape -/

section Deciding

variable {P : String → Prop} [DecidablePred P]

mutual

/-- Look at every key. -/
def decideAllKeys : (v : Value) → Decidable (v.AllKeys P)
  | .seq items => decideAllKeysItems items
  | .map entries => decideAllKeysEntries entries
  | .null | .bool _ | .int _ | .float _ | .str _ => .isTrue trivial

/-- Item by item. -/
def decideAllKeysItems : (vs : List Value) → Decidable (AllKeysItems P vs)
  | [] => .isTrue trivial
  | v :: vs => @instDecidableAnd _ _ (decideAllKeys v) (decideAllKeysItems vs)

/-- Entry by entry. -/
def decideAllKeysEntries : (m : List (String × Value)) → Decidable (AllKeysEntries P m)
  | [] => .isTrue trivial
  | (_, v) :: m =>
    have := decideAllKeys v
    @instDecidableAnd _ _ inferInstance (decideAllKeysEntries m)

end

instance (v : Value) : Decidable (v.AllKeys P) :=
  decideAllKeys v

end Deciding

mutual

/-- Look at the keys of every mapping. -/
def decideKeysDistinct : (v : Value) → Decidable v.KeysDistinct
  | .seq items => decideKeysDistinctItems items
  | .map entries =>
    @instDecidableAnd _ _ (inferInstanceAs (Decidable (Entries.names entries).Nodup))
      (decideKeysDistinctEntries entries)
  | .null | .bool _ | .int _ | .float _ | .str _ => .isTrue trivial

/-- Item by item. -/
def decideKeysDistinctItems : (vs : List Value) → Decidable (KeysDistinctItems vs)
  | [] => .isTrue trivial
  | v :: vs => @instDecidableAnd _ _ (decideKeysDistinct v) (decideKeysDistinctItems vs)

/-- Entry by entry. -/
def decideKeysDistinctEntries : (m : List (String × Value)) → Decidable (KeysDistinctEntries m)
  | [] => .isTrue trivial
  | (_, v) :: m => @instDecidableAnd _ _ (decideKeysDistinct v) (decideKeysDistinctEntries m)

end

instance (v : Value) : Decidable v.KeysDistinct :=
  decideKeysDistinct v

/-! ## Item by item, as statements about members -/

theorem keysDistinctItems_iff {vs : List Value} :
    KeysDistinctItems vs ↔ ∀ v ∈ vs, v.KeysDistinct := by
  induction vs with
  | nil =>
      simp [KeysDistinctItems]
  | cons v vs ih =>
      simp [KeysDistinctItems, ih]

theorem keysDistinctEntries_iff {m : List (String × Value)} :
    KeysDistinctEntries m ↔ ∀ e ∈ m, e.2.KeysDistinct := by
  induction m with
  | nil =>
      simp [KeysDistinctEntries]
  | cons e m ih =>
      obtain ⟨k, v⟩ := e
      simp [KeysDistinctEntries, ih]

theorem keysDistinct_seq {vs : List Value} :
    (Value.seq vs).KeysDistinct ↔ ∀ v ∈ vs, v.KeysDistinct := by
  rw [KeysDistinct, keysDistinctItems_iff]

theorem keysDistinct_map {m : List (String × Value)} :
    (Value.map m).KeysDistinct ↔
      Entries.Distinct m ∧ ∀ e ∈ m, e.2.KeysDistinct := by
  rw [KeysDistinct, keysDistinctEntries_iff]

theorem depthItems_le_iff {vs : List Value} {n : Nat} :
    depthItems vs ≤ n ↔ ∀ v ∈ vs, v.depth ≤ n := by
  induction vs with
  | nil =>
      simp [depthItems]
  | cons v vs ih =>
      rw [depthItems, Nat.max_le, ih, List.forall_mem_cons]

theorem depthEntries_le_iff {m : List (String × Value)} {n : Nat} :
    depthEntries m ≤ n ↔ ∀ e ∈ m, e.2.depth ≤ n := by
  induction m with
  | nil =>
      simp [depthEntries]
  | cons e m ih =>
      obtain ⟨k, v⟩ := e
      rw [depthEntries, Nat.max_le, ih, List.forall_mem_cons]

/-! ## Values read from YAML -/

mutual

/-- The value of data has distinct keys: a repeated key only changes the value
of the first one. -/
theorem keysDistinct_ofDatum (d : Yaml.Datum) : (ofDatum d).KeysDistinct := by
  match d with
  | .scalar s =>
      cases s with
      | int n =>
          rw [ofDatum, ofScalar, ofInt]
          split <;> simp [KeysDistinct]
      | _ => simp [ofDatum, ofScalar, KeysDistinct]
  | .seq items =>
      rw [ofDatum, keysDistinct_seq]
      exact keysDistinct_ofItems items
  | .map entries =>
      rw [ofDatum, keysDistinct_map]
      refine ⟨Entries.distinct_ofPairs _, ?_⟩
      intro e he
      exact keysDistinct_ofEntries entries e (Entries.mem_of_mem_ofPairs he)
  | .tagged tag content =>
      rw [ofDatum]
      exact keysDistinct_ofDatum content

theorem keysDistinct_ofItems (ds : List Yaml.Datum) :
    ∀ v ∈ ofItems ds, v.KeysDistinct := by
  match ds with
  | [] =>
      simp [ofItems]
  | d :: ds =>
      rw [ofItems, List.forall_mem_cons]
      exact ⟨keysDistinct_ofDatum d, keysDistinct_ofItems ds⟩

theorem keysDistinct_ofEntries (m : List (Yaml.Datum × Yaml.Datum)) :
    ∀ e ∈ ofEntries m, e.2.KeysDistinct := by
  match m with
  | [] =>
      simp [ofEntries]
  | (k, d) :: m =>
      rw [ofEntries, List.forall_mem_cons]
      exact ⟨keysDistinct_ofDatum d, keysDistinct_ofEntries m⟩

end

theorem keysDistinct_of_ofYaml? {text : String} {v : Value} (h : ofYaml? text = some v) :
    v.KeysDistinct := by
  obtain ⟨d, -, rfl⟩ := Option.map_eq_some_iff.1 h
  exact keysDistinct_ofDatum d

end Dashboard.Value

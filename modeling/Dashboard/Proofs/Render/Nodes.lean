import Dashboard.Proofs.Render.Characters
import Dashboard.Yaml.Node

/-!
# The tokens and the node of a value

The tokens of a value in flow form and in block form, and the node they spell:
no node has a tag or an anchor, and a text is plain where it is written without
quotes.  Reading the tokens gives the node, whatever stands behind them; the
number of steps a reader may take is twice the number of tokens.
-/

namespace Dashboard.Render

open Yaml

-- which texts are plain
variable (plain : String → Bool)

mutual

/-- The node of a value. -/
def node : Value → Node
  | .str s => .scalar {} s (plain s)
  | .seq vs => .seq {} (nodeItems vs)
  | .map m => .map {} (nodeEntries m)
  | v => .scalar {} (String.ofList (plainScalar v)) true

/-- Item by item. -/
def nodeItems : List Value → List Node
  | [] => []
  | v :: vs => node v :: nodeItems vs

/-- Entry by entry. -/
def nodeEntries : List (String × Value) → List (Node × Node)
  | [] => []
  | (k, v) :: m => (.scalar {} k (plain k), node v) :: nodeEntries m

end

/-- The token of a scalar. -/
def scalarToken : Value → Token
  | .str s => .scalar s (plain s)
  | v => .scalar (String.ofList (plainScalar v)) true

/-- The tokens of a key and the mark behind it. -/
def keyTokens (k : String) : List Token :=
  [.key, .scalar k (plain k), .value]

mutual

/-- The tokens of a value in brackets. -/
def flowTokens : Value → List Token
  | .seq [] => [.flowSequenceStart, .flowSequenceEnd]
  | .seq (v :: vs) => .flowSequenceStart :: (flowTokens v ++ flowItemTokens vs)
  | .map [] => [.flowMappingStart, .flowMappingEnd]
  | .map ((k, v) :: m) =>
      .flowMappingStart :: (keyTokens plain k ++ flowTokens v ++ flowEntryTokens m)
  | v => [scalarToken plain v]

/-- The tokens behind an item: more items, and the closing bracket. -/
def flowItemTokens : List Value → List Token
  | [] => [.flowSequenceEnd]
  | v :: vs => .flowEntry :: (flowTokens v ++ flowItemTokens vs)

/-- The tokens behind an entry: more entries, and the closing bracket. -/
def flowEntryTokens : List (String × Value) → List Token
  | [] => [.flowMappingEnd]
  | (k, v) :: m => .flowEntry :: (keyTokens plain k ++ flowTokens v ++ flowEntryTokens m)

end

mutual

/-- The tokens of a value in lines. -/
def blockTokens : Value → List Token
  | .seq [] => [.flowSequenceStart, .flowSequenceEnd]
  | .seq (v :: vs) => .blockSequenceStart :: (.blockEntry :: blockTokens v ++ itemTokens vs)
  | .map [] => [.flowMappingStart, .flowMappingEnd]
  | .map ((k, v) :: m) =>
      .blockMappingStart :: (keyTokens plain k ++ blockTokens v ++ entryTokens m)
  | v => [scalarToken plain v]

/-- The tokens behind an item: more items, and the end of the list. -/
def itemTokens : List Value → List Token
  | [] => [.blockEnd]
  | v :: vs => .blockEntry :: (blockTokens v ++ itemTokens vs)

/-- The tokens behind an entry: more entries, and the end of the mapping. -/
def entryTokens : List (String × Value) → List Token
  | [] => [.blockEnd]
  | (k, v) :: m => keyTokens plain k ++ (blockTokens v ++ entryTokens m)

end

/-- The tokens in front of what stands between brackets: a comma, unless it is first. -/
def separators (first : Bool) : List Token :=
  if first then [] else [.flowEntry]

/-- A token that a node starts with. -/
def startsNode : Token → Bool
  | .scalar .. | .flowSequenceStart | .flowMappingStart => true
  | .blockSequenceStart | .blockMappingStart => true
  | _ => false

section Leaves

variable {v : Value}

/-- A scalar is one token, in brackets and in lines. -/
theorem tokens_of_scalar
    (h : v.isContainer = false) :
    flowTokens plain v = [scalarToken plain v] ∧ blockTokens plain v = [scalarToken plain v] := by
  cases v with
  | str s | null | bool b | int n | float x =>
      simp [flowTokens, blockTokens]
  | seq vs | map m =>
      exact absurd h (by simp [Value.isContainer])

/-- The token of a scalar is its node. -/
theorem exists_scalarToken_eq
    (h : v.isContainer = false) :
    ∃ text flag, scalarToken plain v = .scalar text flag ∧
      node plain v = .scalar {} text flag := by
  cases v with
  | str s =>
      exact ⟨s, plain s, rfl, by rw [node]⟩
  | null | bool b | int n | float x =>
      exact ⟨_, true, rfl, by simp [node]⟩
  | seq vs | map m =>
      exact absurd h (by simp [Value.isContainer])

theorem exists_flowTokens_eq
    (v : Value) :
    ∃ t ts, flowTokens plain v = t :: ts ∧ startsNode t = true := by
  match v with
  | .seq [] | .seq (_ :: _) | .map [] | .map (_ :: _) =>
      exact ⟨_, _, by rw [flowTokens], rfl⟩
  | .str _ | .null | .bool _ | .int _ | .float _ =>
      exact ⟨_, _, (tokens_of_scalar plain rfl).1, rfl⟩

theorem exists_blockTokens_eq
    (v : Value) :
    ∃ t ts, blockTokens plain v = t :: ts ∧ startsNode t = true := by
  match v with
  | .seq [] | .seq (_ :: _) | .map [] | .map (_ :: _) =>
      exact ⟨_, _, by rw [blockTokens], rfl⟩
  | .str _ | .null | .bool _ | .int _ | .float _ =>
      exact ⟨_, _, (tokens_of_scalar plain rfl).2, rfl⟩

theorem length_flowTokens_pos
    (v : Value) :
    0 < (flowTokens plain v).length := by
  obtain ⟨t, ts, hv, -⟩ := exists_flowTokens_eq plain v
  rw [hv]
  exact Nat.succ_pos _

theorem length_flowItemTokens_pos
    (vs : List Value) :
    0 < (flowItemTokens plain vs).length := by
  cases vs <;> simp [flowItemTokens]

theorem length_itemTokens_pos
    (vs : List Value) :
    0 < (itemTokens plain vs).length := by
  cases vs <;> simp [itemTokens]

end Leaves

section Reading

variable {handles : Handles}
variable {steps : Nat}
variable {block indentless : Bool}
variable {anchors : Anchors}
variable {ts us : List Token}

/-! One step of reading at each token that starts a node. -/

theorem read?_scalar
    (text : String)
    (flag : Bool) :
    Node.read? handles (steps + 1) block indentless anchors (.scalar text flag :: ts) =
      some ⟨.scalar {} text flag, anchors, ts⟩ := by
  simp [Node.read?, Node.readProperties?]

theorem read?_flowSequence
    {items : List Node}
    (h : Node.readFlowItems? handles steps true anchors ts = some ⟨items, anchors, us⟩) :
    Node.read? handles (steps + 1) block indentless anchors (.flowSequenceStart :: ts) =
      some ⟨.seq {} items, anchors, us⟩ := by
  simp [Node.read?, Node.readProperties?, h]

theorem read?_flowMapping
    {entries : List (Node × Node)}
    (h : Node.readFlowEntries? handles steps true anchors ts = some ⟨entries, anchors, us⟩) :
    Node.read? handles (steps + 1) block indentless anchors (.flowMappingStart :: ts) =
      some ⟨.map {} entries, anchors, us⟩ := by
  simp [Node.read?, Node.readProperties?, h]

theorem read?_blockSequence
    {items : List Node}
    (h : Node.readBlockItems? handles steps anchors ts = some ⟨items, anchors, us⟩) :
    Node.read? handles (steps + 1) true indentless anchors (.blockSequenceStart :: ts) =
      some ⟨.seq {} items, anchors, us⟩ := by
  simp [Node.read?, Node.readProperties?, h]

theorem read?_blockMapping
    {entries : List (Node × Node)}
    (h : Node.readBlockEntries? handles steps anchors ts = some ⟨entries, anchors, us⟩) :
    Node.read? handles (steps + 1) true indentless anchors (.blockMappingStart :: ts) =
      some ⟨.map {} entries, anchors, us⟩ := by
  simp [Node.read?, Node.readProperties?, h]

variable {t : Token}
variable {ts' : List Token}
variable {item value : Node}
variable {items : List Node}
variable {entries : List (Node × Node)}

/-- An item of a list in lines. -/
theorem readBlockItems?_cons
    (ht : startsNode t = true)
    (hitem : Node.read? handles steps true false anchors (t :: ts) = some ⟨item, anchors, ts'⟩)
    (hitems : Node.readBlockItems? handles steps anchors ts' = some ⟨items, anchors, us⟩) :
    Node.readBlockItems? handles (steps + 1) anchors (.blockEntry :: t :: ts) =
      some ⟨item :: items, anchors, us⟩ := by
  rw [Node.readBlockItems?.eq_def]
  cases t <;> first | exact absurd ht (by decide) | simp [hitem, hitems]

/-- An entry of a mapping in lines. -/
theorem readBlockEntries?_cons
    (k : String)
    (ht : startsNode t = true)
    (hvalue : Node.read? handles steps true true anchors (t :: ts) = some ⟨value, anchors, ts'⟩)
    (hentries : Node.readBlockEntries? handles (steps + 1) anchors ts' =
      some ⟨entries, anchors, us⟩) :
    Node.readBlockEntries? handles (steps + 2) anchors (keyTokens plain k ++ t :: ts) =
      some ⟨(.scalar {} k (plain k), value) :: entries, anchors, us⟩ := by
  have hread : Node.readBlockValue? handles (steps + 1) anchors (.value :: t :: ts) =
      some ⟨value, anchors, ts'⟩ := by
    rw [Node.readBlockValue?.eq_def]
    cases t <;> first | exact absurd ht (by decide) | simp [hvalue]
  rw [Node.readBlockEntries?.eq_def]
  simp [keyTokens, read?_scalar, hread, hentries]

/-- An item of a list in brackets. -/
theorem readFlowItem?_of_startsNode
    (ht : startsNode t = true) :
    Node.readFlowItem? handles (steps + 1) anchors (t :: ts) =
      Node.read? handles steps false false anchors (t :: ts) := by
  rw [Node.readFlowItem?.eq_def]
  cases t <;> first | rfl | exact absurd ht (by decide)

/-- An item between brackets, the first one or a further one. -/
theorem readFlowItems?_cons
    (first : Bool)
    (ht : startsNode t = true)
    (hitem : Node.read? handles steps false false anchors (t :: ts) = some ⟨item, anchors, ts'⟩)
    (hitems : Node.readFlowItems? handles (steps + 1) false anchors ts' =
      some ⟨items, anchors, us⟩) :
    Node.readFlowItems? handles (steps + 2) first anchors (separators first ++ t :: ts) =
      some ⟨item :: items, anchors, us⟩ := by
  have hread := (readFlowItem?_of_startsNode ht).trans hitem
  rw [Node.readFlowItems?.eq_def]
  cases first <;> cases t <;>
    first | exact absurd ht (by decide) | simp [separators, hread, hitems]

/-- An entry between braces. -/
theorem readFlowEntry?_key
    (k : String)
    (ht : startsNode t = true)
    (hvalue : Node.read? handles (steps + 1) false false anchors (t :: ts) =
      some ⟨value, anchors, ts'⟩) :
    Node.readFlowEntry? handles (steps + 2) anchors (keyTokens plain k ++ t :: ts) =
      some ⟨(.scalar {} k (plain k), value), anchors, ts'⟩ := by
  rw [Node.readFlowEntry?.eq_def]
  cases t <;> first | exact absurd ht (by decide) | simp [keyTokens, read?_scalar, hvalue]

/-- An entry between braces, the first one or a further one. -/
theorem readFlowEntries?_cons
    (first : Bool)
    (k : String)
    (ht : startsNode t = true)
    (hvalue : Node.read? handles (steps + 1) false false anchors (t :: ts) =
      some ⟨value, anchors, ts'⟩)
    (hentries : Node.readFlowEntries? handles (steps + 2) false anchors ts' =
      some ⟨entries, anchors, us⟩) :
    Node.readFlowEntries? handles (steps + 3) first anchors
        (separators first ++ (keyTokens plain k ++ t :: ts)) =
      some ⟨(.scalar {} k (plain k), value) :: entries, anchors, us⟩ := by
  have hread := readFlowEntry?_key plain k ht hvalue
  simp only [keyTokens, List.cons_append, List.nil_append] at hread ⊢
  rw [Node.readFlowEntries?.eq_def]
  cases first <;> simp [separators, hread, hentries]

/-- A scalar is read as its node. -/
theorem read?_scalarToken
    {v : Value}
    (hv : v.isContainer = false) :
    Node.read? handles (steps + 1) block indentless anchors (scalarToken plain v :: ts) =
      some ⟨node plain v, anchors, ts⟩ := by
  obtain ⟨text, flag, htoken, hnode⟩ := exists_scalarToken_eq plain hv
  rw [htoken, hnode]
  exact read?_scalar text flag

mutual

/-- The tokens of a value in brackets are read as its node. -/
theorem read?_flowTokens
    (v : Value)
    (steps : Nat)
    (block indentless : Bool)
    (ts : List Token)
    (h : 2 * (flowTokens plain v).length ≤ steps) :
    Node.read? handles steps block indentless anchors (flowTokens plain v ++ ts) =
      some ⟨node plain v, anchors, ts⟩ := by
  match v with
  | .seq [] =>
      obtain ⟨steps, rfl⟩ : ∃ m, steps = m + 2 := ⟨steps - 2, by simp [flowTokens] at h; omega⟩
      rw [flowTokens, node, nodeItems]
      exact read?_flowSequence rfl
  | .seq (v :: vs) =>
      have hmore := length_flowItemTokens_pos plain vs
      have hone := length_flowTokens_pos plain v
      simp only [flowTokens, List.length_cons, List.length_append] at h
      obtain ⟨steps, rfl⟩ : ∃ m, steps = m + 3 := ⟨steps - 3, by omega⟩
      have hitem := read?_flowTokens v steps false false (flowItemTokens plain vs ++ ts) (by omega)
      have hitems := readFlowItems?_flowItemTokens vs (steps + 1) ts (by omega)
      obtain ⟨t, us, hv, ht⟩ := exists_flowTokens_eq plain v
      rw [flowTokens, node, nodeItems, List.cons_append, List.append_assoc]
      rw [hv, List.cons_append] at hitem ⊢
      exact read?_flowSequence (readFlowItems?_cons true ht hitem hitems)
  | .map [] =>
      obtain ⟨steps, rfl⟩ : ∃ m, steps = m + 2 := ⟨steps - 2, by simp [flowTokens] at h; omega⟩
      rw [flowTokens, node, nodeEntries]
      exact read?_flowMapping rfl
  | .map ((k, v) :: m) =>
      simp only [flowTokens, keyTokens, List.length_cons, List.length_append, List.length_nil] at h
      obtain ⟨steps, rfl⟩ : ∃ m, steps = m + 4 := ⟨steps - 4, by omega⟩
      have hvalue := read?_flowTokens v (steps + 1) false false (flowEntryTokens plain m ++ ts)
        (by omega)
      have hentries := readFlowEntries?_flowEntryTokens m (steps + 2) ts (by omega)
      obtain ⟨t, us, hv, ht⟩ := exists_flowTokens_eq plain v
      rw [flowTokens, node, nodeEntries, List.cons_append, List.append_assoc, List.append_assoc]
      rw [hv, List.cons_append] at hvalue ⊢
      exact read?_flowMapping (readFlowEntries?_cons plain true k ht hvalue hentries)
  | .str _ | .null | .bool _ | .int _ | .float _ =>
      rw [(tokens_of_scalar plain rfl).1] at h ⊢
      obtain ⟨steps, rfl⟩ : ∃ m, steps = m + 1 := ⟨steps - 1, by simp at h; omega⟩
      exact read?_scalarToken plain rfl

theorem readFlowItems?_flowItemTokens
    (vs : List Value)
    (steps : Nat)
    (ts : List Token)
    (h : 2 * (flowItemTokens plain vs).length ≤ steps) :
    Node.readFlowItems? handles steps false anchors (flowItemTokens plain vs ++ ts) =
      some ⟨nodeItems plain vs, anchors, ts⟩ := by
  match vs with
  | [] =>
      obtain ⟨steps, rfl⟩ : ∃ m, steps = m + 1 := ⟨steps - 1, by simp [flowItemTokens] at h; omega⟩
      rw [flowItemTokens, nodeItems]
      rfl
  | v :: vs =>
      have hone := length_flowTokens_pos plain v
      simp only [flowItemTokens, List.length_cons, List.length_append] at h
      obtain ⟨steps, rfl⟩ : ∃ m, steps = m + 2 := ⟨steps - 2, by omega⟩
      have hitem := read?_flowTokens v steps false false (flowItemTokens plain vs ++ ts) (by omega)
      have hitems := readFlowItems?_flowItemTokens vs (steps + 1) ts (by omega)
      obtain ⟨t, us, hv, ht⟩ := exists_flowTokens_eq plain v
      rw [flowItemTokens, nodeItems, List.cons_append, List.append_assoc]
      rw [hv, List.cons_append] at hitem ⊢
      exact readFlowItems?_cons false ht hitem hitems

theorem readFlowEntries?_flowEntryTokens
    (m : List (String × Value))
    (steps : Nat)
    (ts : List Token)
    (h : 2 * (flowEntryTokens plain m).length ≤ steps) :
    Node.readFlowEntries? handles steps false anchors (flowEntryTokens plain m ++ ts) =
      some ⟨nodeEntries plain m, anchors, ts⟩ := by
  match m with
  | [] =>
      obtain ⟨steps, rfl⟩ : ∃ m, steps = m + 1 := ⟨steps - 1, by simp [flowEntryTokens] at h; omega⟩
      rw [flowEntryTokens, nodeEntries]
      rfl
  | (k, v) :: m =>
      simp only [flowEntryTokens, keyTokens, List.length_cons, List.length_append,
        List.length_nil] at h
      obtain ⟨steps, rfl⟩ : ∃ m, steps = m + 3 := ⟨steps - 3, by omega⟩
      have hvalue := read?_flowTokens v (steps + 1) false false (flowEntryTokens plain m ++ ts)
        (by omega)
      have hentries := readFlowEntries?_flowEntryTokens m (steps + 2) ts (by omega)
      obtain ⟨t, us, hv, ht⟩ := exists_flowTokens_eq plain v
      rw [flowEntryTokens, nodeEntries, List.cons_append, List.append_assoc, List.append_assoc]
      rw [hv, List.cons_append] at hvalue ⊢
      exact readFlowEntries?_cons plain false k ht hvalue hentries

end

mutual

/-- The tokens of a value in lines are read as its node. -/
theorem read?_blockTokens
    (v : Value)
    (steps : Nat)
    (indentless : Bool)
    (ts : List Token)
    (h : 2 * (blockTokens plain v).length ≤ steps) :
    Node.read? handles steps true indentless anchors (blockTokens plain v ++ ts) =
      some ⟨node plain v, anchors, ts⟩ := by
  match v with
  | .seq [] =>
      obtain ⟨steps, rfl⟩ : ∃ m, steps = m + 2 := ⟨steps - 2, by simp [blockTokens] at h; omega⟩
      rw [blockTokens, node, nodeItems]
      exact read?_flowSequence rfl
  | .seq (v :: vs) =>
      have hmore := length_itemTokens_pos plain vs
      simp only [blockTokens, List.length_cons, List.length_append] at h
      obtain ⟨steps, rfl⟩ : ∃ m, steps = m + 2 := ⟨steps - 2, by omega⟩
      have hitem := read?_blockTokens v steps false (itemTokens plain vs ++ ts) (by omega)
      have hitems := readBlockItems?_itemTokens vs steps ts (by omega)
      obtain ⟨t, us, hv, ht⟩ := exists_blockTokens_eq plain v
      rw [blockTokens, node, nodeItems, List.cons_append, List.append_assoc, List.cons_append]
      rw [hv, List.cons_append] at hitem ⊢
      exact read?_blockSequence (readBlockItems?_cons ht hitem hitems)
  | .map [] =>
      obtain ⟨steps, rfl⟩ : ∃ m, steps = m + 2 := ⟨steps - 2, by simp [blockTokens] at h; omega⟩
      rw [blockTokens, node, nodeEntries]
      exact read?_flowMapping rfl
  | .map ((k, v) :: m) =>
      simp only [blockTokens, keyTokens, List.length_cons, List.length_append,
        List.length_nil] at h
      obtain ⟨steps, rfl⟩ : ∃ m, steps = m + 3 := ⟨steps - 3, by omega⟩
      have hvalue := read?_blockTokens v steps true (entryTokens plain m ++ ts) (by omega)
      have hentries := readBlockEntries?_entryTokens m (steps + 1) ts (by omega)
      obtain ⟨t, us, hv, ht⟩ := exists_blockTokens_eq plain v
      rw [blockTokens, node, nodeEntries, List.cons_append, List.append_assoc, List.append_assoc]
      rw [hv, List.cons_append] at hvalue ⊢
      exact read?_blockMapping (readBlockEntries?_cons plain k ht hvalue hentries)
  | .str _ | .null | .bool _ | .int _ | .float _ =>
      rw [(tokens_of_scalar plain rfl).2] at h ⊢
      obtain ⟨steps, rfl⟩ : ∃ m, steps = m + 1 := ⟨steps - 1, by simp at h; omega⟩
      exact read?_scalarToken plain rfl

theorem readBlockItems?_itemTokens
    (vs : List Value)
    (steps : Nat)
    (ts : List Token)
    (h : 2 * (itemTokens plain vs).length ≤ steps) :
    Node.readBlockItems? handles steps anchors (itemTokens plain vs ++ ts) =
      some ⟨nodeItems plain vs, anchors, ts⟩ := by
  match vs with
  | [] =>
      obtain ⟨steps, rfl⟩ : ∃ m, steps = m + 1 := ⟨steps - 1, by simp [itemTokens] at h; omega⟩
      rw [itemTokens, nodeItems]
      rfl
  | v :: vs =>
      simp only [itemTokens, List.length_cons, List.length_append] at h
      obtain ⟨steps, rfl⟩ : ∃ m, steps = m + 1 := ⟨steps - 1, by omega⟩
      have hitem := read?_blockTokens v steps false (itemTokens plain vs ++ ts) (by omega)
      have hitems := readBlockItems?_itemTokens vs steps ts (by omega)
      obtain ⟨t, us, hv, ht⟩ := exists_blockTokens_eq plain v
      rw [itemTokens, nodeItems, List.cons_append, List.append_assoc]
      rw [hv, List.cons_append] at hitem ⊢
      exact readBlockItems?_cons ht hitem hitems

theorem readBlockEntries?_entryTokens
    (m : List (String × Value))
    (steps : Nat)
    (ts : List Token)
    (h : 2 * (entryTokens plain m).length ≤ steps) :
    Node.readBlockEntries? handles steps anchors (entryTokens plain m ++ ts) =
      some ⟨nodeEntries plain m, anchors, ts⟩ := by
  match m with
  | [] =>
      obtain ⟨steps, rfl⟩ : ∃ m, steps = m + 1 := ⟨steps - 1, by simp [entryTokens] at h; omega⟩
      rw [entryTokens, nodeEntries]
      rfl
  | (k, v) :: m =>
      simp only [entryTokens, keyTokens, List.length_cons, List.length_append,
        List.length_nil] at h
      obtain ⟨steps, rfl⟩ : ∃ m, steps = m + 2 := ⟨steps - 2, by omega⟩
      have hvalue := read?_blockTokens v steps true (entryTokens plain m ++ ts) (by omega)
      have hentries := readBlockEntries?_entryTokens m (steps + 1) ts (by omega)
      obtain ⟨t, us, hv, ht⟩ := exists_blockTokens_eq plain v
      rw [entryTokens, nodeEntries, List.append_assoc, List.append_assoc]
      rw [hv, List.cons_append] at hvalue ⊢
      exact readBlockEntries?_cons plain k ht hvalue hentries

end

end Reading

end Dashboard.Render

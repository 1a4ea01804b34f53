import Dashboard.Proofs.Render.ReadBack
import Dashboard.Proofs.Yaml.Depth

/-!
# The limits of a reader

The inline form of a value is refused for two reasons only.  A key in brackets
that is too long is not known to be a key, and the colon behind it ends no
entry.  And containers that are nested too deep are not opened.
-/

namespace Dashboard

open Yaml

namespace Value

theorem lt_depthItems_iff
    {vs : List Value}
    {n : Nat} :
    n < depthItems vs ↔ ∃ v ∈ vs, n < v.depth := by
  rw [← Nat.not_le, depthItems_le_iff]
  simp

theorem lt_depthEntries_iff
    {m : List (String × Value)}
    {n : Nat} :
    n < depthEntries m ↔ ∃ e ∈ m, n < e.2.depth := by
  rw [← Nat.not_le, depthEntries_le_iff]
  simp

end Value

namespace Yaml.Node

/-! ## Readings that never give anything -/

section Refusing

variable {α β : Type}

/-- A reading that gives nothing. -/
def Refuses (r : Reading α) : Prop :=
  Yields (fun _ => False) r

/-- A list is refused for one of its elements. -/
theorem refuses_mapM
    {f : α → Reading β}
    {xs : List α}
    {x : α}
    (hx : x ∈ xs)
    (hf : Refuses (f x)) :
    Refuses (xs.mapM f) := by
  induction xs with
  | nil =>
      cases hx
  | cons y xs ih =>
      rw [List.mapM_cons]
      rcases List.mem_cons.1 hx with rfl | hx
      · exact hf.bind fun _ h => h.elim
      · exact (yields_true _).bind fun _ _ => (ih hx).bind fun _ h => h.elim

theorem refuses_foldlM
    {f : β → α → Reading β}
    {xs : List α}
    {x : α}
    (hx : x ∈ xs)
    (hf : ∀ b, Refuses (f b x))
    (b : β) :
    Refuses (xs.foldlM f b) := by
  induction xs generalizing b with
  | nil =>
      cases hx
  | cons y xs ih =>
      rw [List.foldlM_cons]
      rcases List.mem_cons.1 hx with rfl | hx
      · exact (hf b).bind fun _ h => h.elim
      · exact (yields_true _).bind fun c _ => ih hx c

/-- An entry is refused for its value. -/
theorem refuses_addEntry
    {key value : Node → Reading Datum}
    {e : Node × Node}
    (hvalue : Refuses (value e.2))
    (done : List (Datum × Datum)) :
    Refuses (addEntry key value done e) := by
  refine (yields_true (key e.1)).bind fun k _ => ?_
  by_cases hk : Datum.hasKey done k = true
  · simp only [hk, if_true]
    exact yields_failure.bind fun _ (h : False) => h.elim
  · simp only [hk, Bool.false_eq_true, if_false]
    exact hvalue.bind fun _ h => h.elim

end Refusing

end Yaml.Node

namespace Render

/-! ## Containers that are nested too deep -/

section Depth

variable {plain : String → Bool}

theorem mem_nodeItems
    {v : Value}
    {vs : List Value}
    (h : v ∈ vs) :
    node plain v ∈ nodeItems plain vs := by
  induction vs with
  | nil =>
      cases h
  | cons w vs ih =>
      rw [nodeItems]
      rcases List.mem_cons.1 h with rfl | h
      · exact List.mem_cons_self
      · exact List.mem_cons_of_mem _ (ih h)

theorem mem_nodeEntries
    {e : String × Value}
    {m : List (String × Value)}
    (h : e ∈ m) :
    (.scalar {} e.1 (plain e.1), node plain e.2) ∈ nodeEntries plain m := by
  induction m with
  | nil =>
      cases h
  | cons f m ih =>
      obtain ⟨k, v⟩ := f
      rw [nodeEntries]
      rcases List.mem_cons.1 h with rfl | h
      · exact List.mem_cons_self
      · exact List.mem_cons_of_mem _ (ih h)

/-- A node with more nested containers than may be opened has no data. -/
theorem refuses_datum_node
    (ctx : Node.Context)
    (n : Nat)
    {v : Value}
    (h : n < v.depth) :
    Node.Refuses (Node.datum ctx n false (node plain v)) := by
  induction n generalizing v with
  | zero =>
      cases v with
      | seq vs | map m =>
          rw [node, Node.datum, Node.datumWith_eq_content _ _ (by simp) rfl]
          exact Node.yields_failure
      | null | bool b | int k | float x | str s =>
          exact absurd h (by simp [Value.depth])
  | succ n ih =>
      cases v with
      | seq vs =>
          rw [Value.depth] at h
          obtain ⟨w, hw, hdepth⟩ := Value.lt_depthItems_iff.1 (Nat.lt_of_succ_lt_succ h)
          rw [node, Node.datum, Node.datumWith_eq_content _ _ (by simp) rfl]
          exact Node.Yields.map (Node.refuses_mapM (mem_nodeItems hw) (ih hdepth)) fun _ h => h
      | map m =>
          rw [Value.depth] at h
          obtain ⟨e, he, hdepth⟩ := Value.lt_depthEntries_iff.1 (Nat.lt_of_succ_lt_succ h)
          rw [node, Node.datum, Node.datumWith_eq_content _ _ (by simp) rfl]
          have hentry (done : List (Datum × Datum)) :
              Node.Refuses (Node.addEntry (Node.datum ctx n false) (Node.datum ctx n false) done
                (.scalar {} e.1 (plain e.1), node plain e.2)) :=
            Node.refuses_addEntry (ih hdepth) done
          exact Node.Yields.map (Node.refuses_foldlM (mem_nodeEntries he) hentry []) fun _ h => h
      | null | bool b | int k | float x | str s =>
          exact absurd h (by simp [Value.depth])

theorem datum?_node_of_deep
    {v : Value}
    (h : Node.maxDepth < v.depth) :
    (node plain v).datum? = none := by
  rw [Node.datum?, Option.map_eq_none_iff, Option.eq_none_iff_forall_ne_some]
  rintro ⟨d, left⟩ hd
  exact refuses_datum_node _ _ h _ _ _ hd

end Depth

/-! ## Keys that are too long -/

section Keys

variable {handles : Handles}
variable {anchors : Anchors}
variable {steps : Nat}
variable {block indentless : Bool}
variable {t : Token}
variable {ts ts' : List Token}
variable {item : Node}

theorem exists_scannedTokens_eq
    (v : Value) :
    ∃ t ts, scannedTokens v = t :: ts ∧ startsNode t = true := by
  match v with
  | .seq [] | .seq (_ :: _) | .map [] | .map (_ :: _) =>
      exact ⟨_, _, by rw [scannedTokens], rfl⟩
  | .str _ | .null | .bool _ | .int _ | .float _ =>
      exact ⟨_, _, scannedTokens_of_scalar rfl, rfl⟩

theorem read?_flowSequence_eq_none
    (h : Node.readFlowItems? handles steps true anchors ts = none) :
    Node.read? handles (steps + 1) block indentless anchors (.flowSequenceStart :: ts) = none := by
  simp [Node.read?, Node.readProperties?, h]

theorem read?_flowMapping_eq_none
    (h : Node.readFlowEntries? handles steps true anchors ts = none) :
    Node.read? handles (steps + 1) block indentless anchors (.flowMappingStart :: ts) = none := by
  simp [Node.read?, Node.readProperties?, h]

/-- Items are refused for the first one, also behind a comma. -/
theorem readFlowItems?_eq_none_of_item
    (ht : startsNode t = true)
    (hitem : Node.read? handles steps false false anchors (t :: ts) = none) :
    Node.readFlowItems? handles (steps + 2) true anchors (t :: ts) = none ∧
      Node.readFlowItems? handles (steps + 2) false anchors (.flowEntry :: t :: ts) = none := by
  have hread := (readFlowItem?_of_startsNode ht).trans hitem
  constructor
  all_goals
    rw [Node.readFlowItems?.eq_def]
    cases t <;> first | exact absurd ht (by decide) | simp [hread]

/-- Items are refused for those behind the first one. -/
theorem readFlowItems?_eq_none_of_items
    (ht : startsNode t = true)
    (hitem : Node.read? handles steps false false anchors (t :: ts) = some ⟨item, anchors, ts'⟩)
    (hitems : Node.readFlowItems? handles (steps + 1) false anchors ts' = none) :
    Node.readFlowItems? handles (steps + 2) true anchors (t :: ts) = none ∧
      Node.readFlowItems? handles (steps + 2) false anchors (.flowEntry :: t :: ts) = none := by
  have hread := (readFlowItem?_of_startsNode ht).trans hitem
  constructor
  all_goals
    rw [Node.readFlowItems?.eq_def]
    cases t <;> first | exact absurd ht (by decide) | simp [hread, hitems]

/-- Entries are refused for the value of the first one, also behind a comma. -/
theorem readFlowEntries?_eq_none_of_value
    (k : String)
    (ht : startsNode t = true)
    (hvalue : Node.read? handles (steps + 1) false false anchors (t :: ts) = none) :
    Node.readFlowEntries? handles (steps + 3) true anchors (keyTokens quotedOnly k ++ t :: ts) =
        none ∧
      Node.readFlowEntries? handles (steps + 3) false anchors
        (.flowEntry :: (keyTokens quotedOnly k ++ t :: ts)) = none := by
  have hread : Node.readFlowEntry? handles (steps + 2) anchors
      (keyTokens quotedOnly k ++ t :: ts) = none := by
    rw [Node.readFlowEntry?.eq_def]
    cases t <;> first | exact absurd ht (by decide) | simp [keyTokens, read?_scalar, hvalue]
  simp only [keyTokens, List.cons_append, List.nil_append] at hread ⊢
  constructor
  all_goals
    rw [Node.readFlowEntries?.eq_def]
    simp [hread]

/-- Entries are refused for those behind the first one. -/
theorem readFlowEntries?_eq_none_of_entries
    (k : String)
    (ht : startsNode t = true)
    (hvalue : Node.read? handles (steps + 1) false false anchors (t :: ts) =
      some ⟨item, anchors, ts'⟩)
    (hentries : Node.readFlowEntries? handles (steps + 2) false anchors ts' = none) :
    Node.readFlowEntries? handles (steps + 3) true anchors (keyTokens quotedOnly k ++ t :: ts) =
        none ∧
      Node.readFlowEntries? handles (steps + 3) false anchors
        (.flowEntry :: (keyTokens quotedOnly k ++ t :: ts)) = none := by
  have hread := readFlowEntry?_key quotedOnly k ht hvalue
  simp only [keyTokens, List.cons_append, List.nil_append] at hread ⊢
  constructor
  all_goals
    rw [Node.readFlowEntries?.eq_def]
    simp [hread, hentries]

/-- Entries are refused for a key without the mark of one: the colon behind it
ends no entry. -/
theorem readFlowEntries?_unmarked
    (k : String) :
    Node.readFlowEntries? handles (steps + 3) true anchors
        (.scalar k false :: .value :: ts) = none ∧
      Node.readFlowEntries? handles (steps + 3) false anchors
        (.flowEntry :: .scalar k false :: .value :: ts) = none := by
  have hread : Node.readFlowEntry? handles (steps + 2) anchors (.scalar k false :: .value :: ts) =
      some ⟨(.scalar {} k false, .empty {}), anchors, .value :: ts⟩ := by
    simp [Node.readFlowEntry?, read?_scalar]
  have hcolon : Node.readFlowEntries? handles (steps + 2) false anchors (.value :: ts) = none := by
    simp [Node.readFlowEntries?]
  constructor
  all_goals
    rw [Node.readFlowEntries?.eq_def]
    simp [hread, hcolon]

theorem length_scannedTokens_pos
    (v : Value) :
    0 < (scannedTokens v).length := by
  obtain ⟨t, ts, hv, -⟩ := exists_scannedTokens_eq v
  rw [hv]
  exact Nat.succ_pos _

theorem length_scannedItemTokens_pos
    (vs : List Value) :
    0 < (scannedItemTokens vs).length := by
  cases vs <;> simp [scannedItemTokens]

/-- The tokens of a value with short keys are read as its node. -/
theorem read?_scannedTokens
    {v : Value}
    (hshort : v.AllKeys IsShortFlowKey)
    (h : 2 * (scannedTokens v).length ≤ steps) :
    Node.read? handles steps block indentless anchors (scannedTokens v ++ ts) =
      some ⟨node quotedOnly v, anchors, ts⟩ := by
  rw [scannedTokens_of_short v hshort] at h ⊢
  exact read?_flowTokens quotedOnly v steps block indentless ts h

/-- Items are refused when the first one is, or those behind it are. -/
theorem readFlowItems?_scannedTokens_eq_none
    {v : Value}
    {vs : List Value}
    (hv : ∀ steps ts, 2 * (scannedTokens v).length ≤ steps → ¬v.AllKeys IsShortFlowKey →
      Node.read? handles steps false false anchors (scannedTokens v ++ ts) = none)
    (hvs : ∀ steps ts, 2 * (scannedItemTokens vs).length ≤ steps →
      ¬Value.AllKeysItems IsShortFlowKey vs →
      Node.readFlowItems? handles steps false anchors (scannedItemTokens vs ++ ts) = none)
    (h : 2 * (scannedTokens v ++ scannedItemTokens vs).length ≤ steps)
    (hlong : ¬Value.AllKeysItems IsShortFlowKey (v :: vs)) :
    Node.readFlowItems? handles steps true anchors
        (scannedTokens v ++ scannedItemTokens vs ++ ts) = none ∧
      Node.readFlowItems? handles steps false anchors
        (.flowEntry :: (scannedTokens v ++ scannedItemTokens vs ++ ts)) = none := by
  have hone := length_scannedTokens_pos v
  have hmore := length_scannedItemTokens_pos vs
  rw [Value.AllKeysItems] at hlong
  rw [List.length_append] at h
  obtain ⟨steps, rfl⟩ : ∃ m, steps = m + 2 := ⟨steps - 2, by omega⟩
  obtain ⟨t, us, htokens, ht⟩ := exists_scannedTokens_eq v
  rw [List.append_assoc]
  by_cases hshort : v.AllKeys IsShortFlowKey
  · have hitem : Node.read? handles steps false false anchors
        (scannedTokens v ++ (scannedItemTokens vs ++ ts)) =
          some ⟨node quotedOnly v, anchors, scannedItemTokens vs ++ ts⟩ :=
      read?_scannedTokens hshort (by omega)
    have hitems := hvs (steps + 1) ts (by omega) fun hall => hlong ⟨hshort, hall⟩
    rw [htokens, List.cons_append] at hitem ⊢
    exact readFlowItems?_eq_none_of_items ht hitem hitems
  · have hitem := hv steps (scannedItemTokens vs ++ ts) (by omega) hshort
    rw [htokens, List.cons_append] at hitem ⊢
    exact readFlowItems?_eq_none_of_item ht hitem

/-- Entries are refused when the value of the first one is, or those behind it
are. -/
theorem readFlowEntries?_scannedTokens_eq_none
    {k : String}
    {v : Value}
    {m : List (String × Value)}
    (hv : ∀ steps ts, 2 * (scannedTokens v).length ≤ steps → ¬v.AllKeys IsShortFlowKey →
      Node.read? handles steps false false anchors (scannedTokens v ++ ts) = none)
    (hm : ∀ steps ts, 2 * (scannedEntryTokens m).length ≤ steps →
      ¬Value.AllKeysEntries IsShortFlowKey m →
      Node.readFlowEntries? handles steps false anchors (scannedEntryTokens m ++ ts) = none)
    (h : 2 * (scannedKeyTokens k ++ scannedTokens v ++ scannedEntryTokens m).length ≤ steps)
    (hlong : ¬Value.AllKeysEntries IsShortFlowKey ((k, v) :: m)) :
    Node.readFlowEntries? handles steps true anchors
        (scannedKeyTokens k ++ scannedTokens v ++ scannedEntryTokens m ++ ts) = none ∧
      Node.readFlowEntries? handles steps false anchors
        (.flowEntry :: (scannedKeyTokens k ++ scannedTokens v ++ scannedEntryTokens m ++ ts)) =
          none := by
  have hone := length_scannedTokens_pos v
  rw [Value.AllKeysEntries] at hlong
  by_cases hk : IsShortFlowKey k
  · simp only [scannedKeyTokens, if_pos hk, List.append_assoc, keyTokens, List.length_append,
      List.length_cons, List.length_nil] at h
    obtain ⟨steps, rfl⟩ : ∃ m, steps = m + 3 := ⟨steps - 3, by omega⟩
    obtain ⟨t, us, htokens, ht⟩ := exists_scannedTokens_eq v
    rw [scannedKeyTokens, if_pos hk, List.append_assoc, List.append_assoc]
    by_cases hshort : v.AllKeys IsShortFlowKey
    · have hvalue : Node.read? handles (steps + 1) false false anchors
          (scannedTokens v ++ (scannedEntryTokens m ++ ts)) =
            some ⟨node quotedOnly v, anchors, scannedEntryTokens m ++ ts⟩ :=
        read?_scannedTokens hshort (by omega)
      have hentries := hm (steps + 2) ts (by omega) fun hall => hlong ⟨⟨hk, hshort⟩, hall⟩
      rw [htokens, List.cons_append] at hvalue ⊢
      exact readFlowEntries?_eq_none_of_entries k ht hvalue hentries
    · have hvalue := hv (steps + 1) (scannedEntryTokens m ++ ts) (by omega) hshort
      rw [htokens, List.cons_append] at hvalue ⊢
      exact readFlowEntries?_eq_none_of_value k ht hvalue
  · simp only [scannedKeyTokens, if_neg hk, List.length_append, List.length_cons,
      List.length_nil] at h
    obtain ⟨steps, rfl⟩ : ∃ m, steps = m + 3 := ⟨steps - 3, by omega⟩
    rw [scannedKeyTokens, if_neg hk]
    exact readFlowEntries?_unmarked k

mutual

/-- The tokens of a value with a key that is too long are refused. -/
theorem read?_scannedTokens_eq_none
    (v : Value)
    (steps : Nat)
    (block indentless : Bool)
    (ts : List Token)
    (h : 2 * (scannedTokens v).length ≤ steps)
    (hlong : ¬v.AllKeys IsShortFlowKey) :
    Node.read? handles steps block indentless anchors (scannedTokens v ++ ts) = none := by
  match v with
  | .seq [] | .map [] | .str _ | .null | .bool _ | .int _ | .float _ =>
      exact absurd trivial hlong
  | .seq (v :: vs) =>
      rw [scannedTokens, List.length_cons] at h
      obtain ⟨steps, rfl⟩ : ∃ m, steps = m + 1 := ⟨steps - 1, by omega⟩
      rw [scannedTokens, List.cons_append]
      exact read?_flowSequence_eq_none (readFlowItems?_scannedTokens_eq_none
        (fun steps ts => read?_scannedTokens_eq_none v steps false false ts)
        (fun steps ts => readFlowItems?_scannedItemTokens_eq_none vs steps ts)
        (by omega) hlong).1
  | .map ((k, v) :: m) =>
      rw [scannedTokens, List.length_cons] at h
      obtain ⟨steps, rfl⟩ : ∃ m, steps = m + 1 := ⟨steps - 1, by omega⟩
      rw [scannedTokens, List.cons_append]
      exact read?_flowMapping_eq_none (readFlowEntries?_scannedTokens_eq_none
        (fun steps ts => read?_scannedTokens_eq_none v steps false false ts)
        (fun steps ts => readFlowEntries?_scannedEntryTokens_eq_none m steps ts)
        (by omega) hlong).1

theorem readFlowItems?_scannedItemTokens_eq_none
    (vs : List Value)
    (steps : Nat)
    (ts : List Token)
    (h : 2 * (scannedItemTokens vs).length ≤ steps)
    (hlong : ¬Value.AllKeysItems IsShortFlowKey vs) :
    Node.readFlowItems? handles steps false anchors (scannedItemTokens vs ++ ts) = none := by
  match vs with
  | [] =>
      exact absurd trivial hlong
  | v :: vs =>
      rw [scannedItemTokens, List.length_cons] at h
      rw [scannedItemTokens, List.cons_append]
      exact (readFlowItems?_scannedTokens_eq_none
        (fun steps ts => read?_scannedTokens_eq_none v steps false false ts)
        (fun steps ts => readFlowItems?_scannedItemTokens_eq_none vs steps ts)
        (by omega) hlong).2

theorem readFlowEntries?_scannedEntryTokens_eq_none
    (m : List (String × Value))
    (steps : Nat)
    (ts : List Token)
    (h : 2 * (scannedEntryTokens m).length ≤ steps)
    (hlong : ¬Value.AllKeysEntries IsShortFlowKey m) :
    Node.readFlowEntries? handles steps false anchors (scannedEntryTokens m ++ ts) = none := by
  match m with
  | [] =>
      exact absurd trivial hlong
  | (k, v) :: m =>
      rw [scannedEntryTokens, List.length_cons] at h
      rw [scannedEntryTokens, List.cons_append]
      exact (readFlowEntries?_scannedTokens_eq_none
        (fun steps ts => read?_scannedTokens_eq_none v steps false false ts)
        (fun steps ts => readFlowEntries?_scannedEntryTokens_eq_none m steps ts)
        (by omega) hlong).2

end

end Keys

/-! ## Inline forms -/

section Inline

variable {v : Value}

/-- A reader stays within its limits when it reads the inline form of a value. -/
structure IsReadable (v : Value) : Prop where
  depth : v.depth ≤ Node.maxDepth
  short_keys : v.AllKeys IsShortFlowKey

instance (v : Value) : Decidable (IsReadable v) :=
  decidable_of_iff (v.depth ≤ Node.maxDepth ∧ v.AllKeys IsShortFlowKey)
    ⟨fun h => ⟨h.1, h.2⟩, fun h => ⟨h.depth, h.short_keys⟩⟩

theorem isReadable_of_scalar
    (h : v.isContainer = false) :
    IsReadable v := by
  cases v with
  | null | bool b | int n | float x | str s =>
      exact ⟨Nat.zero_le _, trivial⟩
  | seq vs | map m =>
      exact absurd h (by simp [Value.isContainer])

/-- The inline form of a value beyond the limits is refused. -/
theorem readChars?_inline_eq_none
    (h : ¬IsReadable v) :
    readChars? (inline v) = none := by
  cases hcontainer : v.isContainer with
  | false =>
      exact absurd (isReadable_of_scalar hcontainer) h
  | true =>
      have hscan := scan?_inline hcontainer
      obtain ⟨t, ts, hv, ht⟩ := exists_scannedTokens_eq v
      have hlength : ∀ n, n = (scannedTokens v ++ [Token.streamEnd]).length →
          2 * (scannedTokens v).length ≤ 4 * n + 4 := by
        rintro n rfl
        rw [List.length_append]
        omega
      rw [hv, List.cons_append] at hscan hlength
      have hnode := readNode?_of_scan? (isPlain_inline v).isClean hscan ht
      rw [← List.cons_append, ← hv] at hnode hlength
      by_cases hshort : v.AllKeys IsShortFlowKey
      · have hdepth : Node.maxDepth < v.depth :=
          Nat.lt_of_not_le fun hdepth => h ⟨hdepth, hshort⟩
        rw [read?_scannedTokens hshort (hlength _ rfl)] at hnode
        rw [readChars?, hnode]
        exact datum?_node_of_deep hdepth
      · rw [read?_scannedTokens_eq_none v _ _ _ _ (hlength _ rfl) hshort] at hnode
        rw [readChars?, hnode]
        rfl

end Inline

end Render

end Dashboard

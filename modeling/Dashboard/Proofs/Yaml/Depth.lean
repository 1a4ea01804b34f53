import Dashboard.Proofs.Yaml.Keys

/-!
# How deep the values of a text are nested

Every container that is read costs one of the levels a reader may open, so the
value of a text has no more of them.  Aliases count where they are followed,
tags do not, and a container that becomes the text of a key is none any more.
-/

namespace Dashboard

open Yaml Yaml.Node

namespace Value

theorem depth_ofScalar
    (s : Scalar) :
    (ofScalar s).depth = 0 := by
  cases s with
  | int n =>
      rw [ofScalar, ofInt]
      split <;> rfl
  | null | bool b | float x | str t =>
      rfl

theorem depthItems_ofItems_le
    {ds : List Datum}
    {n : Nat}
    (h : ∀ d ∈ ds, (ofDatum d).depth ≤ n) :
    depthItems (ofItems ds) ≤ n := by
  induction ds with
  | nil =>
      exact Nat.zero_le n
  | cons d ds ih =>
      rw [ofItems, depthItems, Nat.max_le]
      exact ⟨h d List.mem_cons_self, ih fun e he => h e (List.mem_cons_of_mem d he)⟩

theorem depth_le_of_mem_ofEntries
    {m : List (Datum × Datum)}
    {n : Nat}
    (h : ∀ e ∈ m, (ofDatum e.2).depth ≤ n) :
    ∀ e ∈ ofEntries m, e.2.depth ≤ n := by
  induction m with
  | nil =>
      simp [ofEntries]
  | cons e m ih =>
      obtain ⟨k, d⟩ := e
      rw [ofEntries, List.forall_mem_cons]
      exact ⟨h _ List.mem_cons_self, ih fun f hf => h f (List.mem_cons_of_mem _ hf)⟩

end Value

namespace Yaml.Node

/-- Data whose value has at most so many nested containers. -/
def Within (depth : Nat) (d : Datum) : Prop :=
  (Value.ofDatum d).depth ≤ depth

theorem within_seq
    {depth : Nat}
    {ds : List Datum}
    (h : ∀ d ∈ ds, Within depth d) :
    Within (depth + 1) (.seq ds) := by
  rw [Within, Value.ofDatum, Value.depth]
  exact Nat.succ_le_succ (Value.depthItems_ofItems_le h)

theorem within_map
    {depth : Nat}
    {m : List (Datum × Datum)}
    (h : ∀ e ∈ m, Within depth e.2) :
    Within (depth + 1) (.map m) := by
  rw [Within, Value.ofDatum, Value.depth]
  refine Nat.succ_le_succ (Value.depthEntries_le_iff.2 fun e he => ?_)
  exact Value.depth_le_of_mem_ofEntries h e (Entries.mem_of_mem_ofPairs he)

theorem within_withTag
    {depth : Nat}
    {d : Datum}
    (h : Within depth d)
    (tag : Option String) :
    Within depth (withTag tag d) := by
  cases tag with
  | none =>
      exact h
  | some t =>
      rw [withTag, Within, Value.ofDatum]
      exact h

theorem yields_within_addEntry
    {depth : Nat}
    {key value : Node → Reading Datum}
    (hvalue : ∀ n, Yields (Within depth) (value n))
    (done : List (Datum × Datum))
    (e : Node × Node)
    (hdone : ∀ f ∈ done, Within depth f.2) :
    Yields (fun m => ∀ f ∈ m, Within depth f.2) (addEntry key value done e) := by
  refine (yields_true (key e.1)).bind fun k _ => ?_
  by_cases hk : Datum.hasKey done k = true
  · simp only [hk, if_true]
    exact yields_failure.bind fun _ (h : False) => h.elim
  · simp only [hk, Bool.false_eq_true, if_false]
    refine (hvalue e.2).bind fun v hv => yields_pure fun f hf => ?_
    rcases List.mem_append.1 hf with hf | hf
    · exact hdone f hf
    · rw [List.mem_singleton.1 hf]
      exact hv

/-- The content of a node, without a level for containers. -/
theorem yields_within_content_none
    (inTag : Bool)
    (n : Node) :
    Yields (Within 0) (content none inTag n) := by
  cases n with
  | «alias» a | seq p items | map p entries =>
      exact yields_failure
  | scalar p text plain =>
      rw [content]
      split
      · next s _ =>
          exact yields_pure (Nat.le_of_eq (Value.depth_ofScalar s))
      · exact yields_failure

/-- The content of a node, with one level for it. -/
theorem yields_within_content
    {depth : Nat}
    {read : Bool → Node → Reading Datum}
    (hread : ∀ inTag n, Yields (Within depth) (read inTag n))
    (inTag : Bool)
    (n : Node) :
    Yields (Within (depth + 1)) (content (some read) inTag n) := by
  cases n with
  | «alias» a =>
      exact yields_failure
  | scalar p text plain =>
      rw [content]
      split
      · next s _ =>
          refine yields_pure ?_
          rw [Within, Value.ofDatum, Value.depth_ofScalar]
          exact Nat.zero_le _
      · exact yields_failure
  | seq p items =>
      exact (yields_mapM (hread false) items).map fun ds hds => within_seq hds
  | map p entries =>
      refine Yields.map (yields_foldlM (fun done e hdone => ?_) entries (by simp))
        fun m hm => within_map hm
      exact yields_within_addEntry (hread false) done e hdone

/-- The data of a node have no more nested containers than the reader may open. -/
theorem yields_within_datum
    (ctx : Context)
    (depth : Nat)
    (inTag : Bool)
    (n : Node) :
    Yields (Within depth) (datum ctx depth inTag n) := by
  have hwith : ∀ {depth child}, (∀ inTag n, Yields (Within depth) (content child inTag n)) →
      ∀ inTag n, Yields (Within depth) (datumWith ctx child inTag n) := by
    intro depth child hcontent inTag n
    refine (yields_true _).bind fun r _ => ?_
    exact (hcontent _ r.2).map fun d hd => within_withTag hd _
  induction depth generalizing inTag n with
  | zero =>
      exact hwith yields_within_content_none inTag n
  | succ depth ih =>
      exact hwith (yields_within_content ih) inTag n

end Yaml.Node

/-- The value of a text has no more nested containers than a reader may open. -/
theorem depth_le_of_ofYaml?
    {text : String}
    {v : Value}
    (h : Value.ofYaml? text = some v) :
    v.depth ≤ maxDepth := by
  obtain ⟨d, hread, rfl⟩ := Option.map_eq_some_iff.1 h
  simp only [Yaml.read?, readChars?, Option.bind_eq_bind, Option.bind_eq_some_iff] at hread
  obtain ⟨n, -, hread⟩ := hread
  cases n with
  | none =>
      cases hread
      exact Nat.zero_le _
  | some n =>
      obtain ⟨⟨d', left⟩, hdatum, rfl⟩ := Option.map_eq_some_iff.1 hread
      exact yields_within_datum _ _ _ _ _ _ _ hdatum

end Dashboard

import Dashboard.Proofs.Entries
import Dashboard.Proofs.Text.Bytes
import Dashboard.Proofs.Text.Trimming
import Dashboard.Reference.Basic

/-!
# Known types and the documentation of a type

The known types, the index of the documentation and the documentation itself are three
readings of one list.  Main statement: they agree on every text.

* The known types are strictly increasing (`pairwise_sortedDistinct`), and so halving
  finds exactly the texts that are there (`standsBetween_iff`).
* The index leads to the first documentation of a type (`get?_foldl_addPlace`).
-/

namespace Dashboard

/-- The documentation is that of a type; a blank type is none. -/
def WidgetDoc.IsOf (d : WidgetDoc) (type : String) : Prop :=
  Text.trim d.type ≠ "" ∧ Text.trim d.type = Text.trim type

instance (d : WidgetDoc) (type : String) : Decidable (d.IsOf type) :=
  inferInstanceAs (Decidable (_ ∧ _))

/-- The documentation is the first one of a type. -/
def Reference.FirstOf (r : Reference) (type : String) (d : WidgetDoc) : Prop :=
  d.IsOf type ∧ ∃ before after, r.docs = before ++ d :: after ∧ ∀ e ∈ before, ¬e.IsOf type

namespace Reference

/-! ## Sorted texts -/

section Sorted

variable {s : String}
variable {ts : List String}

theorem pairwise_insertSorted
    (s : String)
    (h : ts.Pairwise (· < ·)) :
    (insertSorted s ts).Pairwise (· < ·) := by
  induction ts with
  | nil =>
      exact List.pairwise_singleton _ s
  | cons t ts ih =>
      obtain ⟨hbefore, hts⟩ := List.pairwise_cons.1 h
      rw [insertSorted]
      split
      · exact h
      · next hne =>
          split
          · next hlt =>
              refine List.pairwise_cons.2 ⟨fun u hu => ?_, h⟩
              rcases List.mem_cons.1 hu with rfl | hu
              · exact hlt
              · exact lt_trans hlt (hbefore u hu)
          · next hge =>
              have hts' : t < s := lt_of_le_of_ne (not_lt.1 hge) (Ne.symm hne)
              refine List.pairwise_cons.2 ⟨fun u hu => ?_, ih hts⟩
              rcases mem_insertSorted.1 hu with rfl | hu
              · exact hts'
              · exact hbefore u hu

/-- Sorted texts are strictly increasing, so none is there twice. -/
theorem pairwise_sortedDistinct (texts : List String) :
    (sortedDistinct texts).Pairwise (· < ·) := by
  induction texts with
  | nil =>
      exact List.Pairwise.nil
  | cons t texts ih =>
      exact pairwise_insertSorted t ih

/-- Halving finds exactly the texts that stand between the two places. -/
theorem standsBetween_iff
    {sorted : Array String}
    (h : sorted.toList.Pairwise (· < ·))
    (s : String)
    {low high : Nat}
    (hhigh : high ≤ sorted.size) :
    standsBetween sorted s low high = true ↔
      ∃ i, low ≤ i ∧ i < high ∧ sorted[i]? = some s := by
  have hlt : ∀ {i j : Nat} {t u : String}, sorted[i]? = some t → sorted[j]? = some u →
      i < j → t < u := by
    intro i j t u hi hj hij
    obtain ⟨hilt, rfl⟩ := Array.getElem?_eq_some_iff.1 hi
    obtain ⟨hjlt, rfl⟩ := Array.getElem?_eq_some_iff.1 hj
    exact List.pairwise_iff_getElem.1 h i j hilt hjlt hij
  fun_induction standsBetween sorted s low high with
  | case1 low high hlow middle hmiddle =>
      exact iff_of_true rfl ⟨middle, by omega, by omega, hmiddle⟩
  | case2 low high hlow middle t hmiddle hne hts ih =>
      refine (ih hhigh).trans (exists_congr fun i => ?_)
      have hright : sorted[i]? = some s → middle < i := by
        intro hs
        refine Nat.lt_of_not_le fun hle => ?_
        rcases Nat.lt_or_eq_of_le hle with hi | rfl
        · exact lt_asymm hts (hlt hs hmiddle hi)
        · exact hne (Option.some.inj (hmiddle.symm.trans hs))
      constructor
      · rintro ⟨hi, hihigh, hs⟩
        exact ⟨by omega, hihigh, hs⟩
      · rintro ⟨-, hihigh, hs⟩
        exact ⟨hright hs, hihigh, hs⟩
  | case3 low high hlow middle t hmiddle hne hge ih =>
      refine (ih (by omega)).trans (exists_congr fun i => ?_)
      have hleft : sorted[i]? = some s → i < middle := by
        intro hs
        refine Nat.lt_of_not_le fun hle => ?_
        rcases Nat.lt_or_eq_of_le hle with hi | rfl
        · exact hge (hlt hmiddle hs hi)
        · exact hne (Option.some.inj (hmiddle.symm.trans hs))
      constructor
      · rintro ⟨hi, himiddle, hs⟩
        exact ⟨hi, by omega, hs⟩
      · rintro ⟨hi, -, hs⟩
        exact ⟨hi, hleft hs, hs⟩
  | case4 low high hlow middle hmiddle =>
      rw [Array.getElem?_eq_none_iff] at hmiddle
      omega
  | case5 low high hlow =>
      refine iff_of_false Bool.false_ne_true ?_
      rintro ⟨i, hi, hihigh, -⟩
      omega

end Sorted

/-! ## The list of types -/

section Types

variable {r : Reference}
variable {t : String}

/-- The known types are the trimmed types of documentation and of bare types, less the
blank ones. -/
theorem mem_types_iff :
    t ∈ r.types ↔ t ≠ "" ∧ ∃ u, (u ∈ r.docs.map WidgetDoc.type ∨ u ∈ r.bareTypes) ∧
      Text.trim u = t := by
  simp only [types, mem_sortedDistinct, List.mem_filter, List.mem_map, List.mem_append,
    Bool.not_eq_true', String.isEmpty_eq_false_iff]
  exact and_comm

theorem pairwise_types : r.types.Pairwise (· < ·) :=
  pairwise_sortedDistinct _

theorem kept_of_mem_types
    (h : t ∈ r.types) :
    Text.Kept t := by
  obtain ⟨hne, u, -, rfl⟩ := mem_types_iff.1 h
  exact Text.kept_trim hne

theorem knows_iff
    (q : String) :
    r.knows q = true ↔ Text.trim q ∈ r.types := by
  have hsorted : r.types.toArray.toList.Pairwise (· < ·) := pairwise_types
  rw [knows, standsBetween_iff hsorted _ (Nat.le_refl _), List.mem_iff_getElem?]
  refine exists_congr fun i => ?_
  rw [List.getElem?_toArray, List.size_toArray]
  constructor
  · rintro ⟨-, -, hi⟩
    exact hi
  · intro hi
    exact ⟨Nat.zero_le i, (List.getElem?_eq_some_iff.1 hi).1, hi⟩

end Types

/-! ## The index of the documentation -/

section Places

variable (q : String)

/-- One more documentation comes into the index, unless its type is there. -/
theorem get?_addPlace
    (places : Entries Nat)
    (d : WidgetDoc)
    (i : Nat) :
    (addPlace places (d, i)).get? (Text.trim q) =
      (places.get? (Text.trim q)).or (if d.IsOf q then some i else none) := by
  simp only [addPlace, Bool.or_eq_true, String.isEmpty_iff]
  by_cases hd : d.IsOf q
  · obtain ⟨hne, htype⟩ := id hd
    rw [if_pos hd, htype]
    rw [htype] at hne
    cases hget : places.get? (Text.trim q) with
    | none =>
        simp [hne, Entries.has, hget, Entries.get?_put_self]
    | some j =>
        simp [Entries.has, hget]
  · rw [if_neg hd, Option.or_none]
    split
    · rfl
    · next hnew =>
        have hother : Text.trim q ≠ Text.trim d.type := fun htype =>
          hd ⟨fun hblank => hnew (.inl hblank), htype.symm⟩
        exact Entries.get?_put_of_ne _ hother _

/-- The index leads to the first documentation of a type. -/
theorem get?_foldl_addPlace
    (docs : List WidgetDoc)
    (k : Nat)
    (places : Entries Nat) :
    ((docs.zipIdx k).foldl addPlace places).get? (Text.trim q) =
      (places.get? (Text.trim q)).or
        ((docs.findIdx? fun d => decide (d.IsOf q)).map (· + k)) := by
  induction docs generalizing k places with
  | nil =>
      simp
  | cons d docs ih =>
      rw [List.zipIdx_cons, List.foldl_cons, ih, get?_addPlace, Option.or_assoc,
        List.findIdx?_cons]
      by_cases hd : d.IsOf q
      · simp [hd]
      · simp [hd, Function.comp_def, Nat.add_assoc, Nat.add_comm 1 k]

variable (r : Reference)

/-- Through the index, the first documentation of a type is found. -/
theorem doc?_eq_find? :
    r.doc? q = r.docs.find? fun d => decide (d.IsOf q) := by
  have hplaces : r.places.get? (Text.trim q) = r.docs.findIdx? fun d => decide (d.IsOf q) := by
    rw [places, get?_foldl_addPlace]
    simp [Entries.get?]
  rw [doc?, hplaces, List.find?_eq_bind_findIdx?_getElem?]

theorem doc?_eq_none_iff :
    r.doc? q = none ↔ ∀ d ∈ r.docs, ¬d.IsOf q := by
  rw [doc?_eq_find?, List.find?_eq_none]
  simp only [decide_eq_true_eq]

theorem doc?_eq_some_iff {d : WidgetDoc} :
    r.doc? q = some d ↔ r.FirstOf q d := by
  rw [doc?_eq_find?, List.find?_eq_some_iff_append]
  simp only [decide_eq_true_eq, Bool.not_eq_true', decide_eq_false_iff_not, FirstOf]

/-- The type of documentation is listed, unless it is blank. -/
theorem trim_mem_types
    {r : Reference}
    {d : WidgetDoc}
    (h : d ∈ r.docs)
    (hne : Text.trim d.type ≠ "") :
    Text.trim d.type ∈ r.types :=
  mem_types_iff.2 ⟨hne, d.type, .inl (List.mem_map_of_mem h), rfl⟩

end Places

/-- The list of types, the test for a type and the way to its documentation agree: the
list is strictly increasing in the order of bytes and has only trimmed texts; a type is
known exactly if it is listed; and its documentation is the first one of that type. -/
theorem types_agree_with_lookups (r : Reference) :
    (r.types.Pairwise fun t u => Text.bytes t < Text.bytes u) ∧
      (∀ t ∈ r.types, Text.Kept t) ∧
      (∀ q, r.knows q = true ↔ Text.trim q ∈ r.types) ∧
      (∀ q d, r.doc? q = some d ↔ r.FirstOf q d) ∧
      (∀ q, r.doc? q = none ↔ ∀ d ∈ r.docs, ¬d.IsOf q) ∧
      (∀ q d, r.doc? q = some d → r.knows q = true) ∧
      ∀ t ∈ r.types, (∃ d ∈ r.docs, Text.trim d.type = t) → ∃ d, r.doc? t = some d := by
  have hsorted : r.types.Pairwise fun t u => Text.bytes t < Text.bytes u :=
    pairwise_types.imp Text.bytes_lt_bytes_iff.2
  refine ⟨hsorted, fun t ht => kept_of_mem_types ht, knows_iff, fun q d => doc?_eq_some_iff q r,
    fun q => doc?_eq_none_iff q r, fun q d hd => ?_, fun t ht hfrom => ?_⟩
  · obtain ⟨⟨hne, htype⟩, before, after, hdocs, -⟩ := (doc?_eq_some_iff q r).1 hd
    have hmem : d ∈ r.docs := by
      rw [hdocs]
      exact List.mem_append_right before List.mem_cons_self
    rw [knows_iff, ← htype]
    exact trim_mem_types hmem hne
  · obtain ⟨d, hd, rfl⟩ := hfrom
    refine Option.ne_none_iff_exists'.1 fun hnone => ?_
    exact (doc?_eq_none_iff _ r).1 hnone d hd ⟨(kept_of_mem_types ht).2, (Text.trim_trim _).symm⟩

/-- Two entries for one type, one without a type, and a bare type. -/
def clockReference : Reference where
  docs :=
    [{ type := " " }, { name := "Clock", type := " clock " }, { name := "Again", type := "clock" }]
  bareTypes := ["weather", "clock"]

theorem types_agree_with_lookups_clockReference :
    "clock" ∈ clockReference.types ∧
      clockReference.doc? "clock\n" = some { name := "Clock", type := " clock " } ∧
      clockReference.knows "clock\n" = true ∧ Text.Kept "clock" := by
  obtain ⟨-, hkept, -, hdoc, -, hknows, -⟩ := types_agree_with_lookups clockReference
  have hlisted : "clock" ∈ clockReference.types := by decide +kernel
  have hfirst : clockReference.FirstOf "clock\n" { name := "Clock", type := " clock " } :=
    ⟨by decide +kernel, [{ type := " " }], [{ name := "Again", type := "clock" }], rfl,
      by decide +kernel⟩
  exact ⟨hlisted, (hdoc _ _).2 hfirst, hknows _ _ ((hdoc _ _).2 hfirst), hkept _ hlisted⟩

end Reference

end Dashboard

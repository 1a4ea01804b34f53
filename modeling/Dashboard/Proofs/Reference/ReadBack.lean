import Dashboard.Proofs.Json.ReadBack
import Dashboard.Reference.OfJson
import Dashboard.Reference.ToJson

/-!
# Reference data is read back

What is read from a file of reference data is what was written to it, with two
exceptions.  An example is read as it is in JSON, where a number that is not
finite is null.  And one example that is nested too deep leaves nothing of the
whole file.  Types without documentation are not written at all.
-/

namespace Dashboard

open Json

/-! ## As it is in JSON -/

/-- The documentation as it is in JSON, where null is no example. -/
def WidgetDoc.inJson (d : WidgetDoc) : WidgetDoc :=
  { d with example? := (d.example?.map Value.inJson).filter fun v => v != .null }

/-- The data as it is in JSON. -/
def Reference.inJson (r : Reference) : Reference where
  docs := r.docs.map WidgetDoc.inJson
  templates := r.templates

/-- A property of every example. -/
def Reference.AllExamples (P : Value → Prop) (r : Reference) : Prop :=
  ∀ d ∈ r.docs, ∀ v, d.example? = some v → P v

/-! ## One entry -/

theorem WidgetDoc.docOf?_inJson (d : WidgetDoc) :
    Reference.docOf? d.toValue.inJson = some d.inJson := by
  obtain ⟨name, type, markdown, example?⟩ := d
  cases example? <;> rfl

theorem Template.ofValue_inJson (t : Template) :
    Template.ofValue t.toValue.inJson = .ok t := by
  obtain ⟨name, previewImage, requires, yaml⟩ := t
  cases previewImage <;> cases requires <;> rfl

/-! ## The shape of what is written -/

namespace WidgetDoc

variable {d : WidgetDoc}

theorem keysDistinct_toValue
    (h : ∀ v, d.example? = some v → v.KeysDistinct) :
    d.toValue.KeysDistinct := by
  rw [toValue, Value.keysDistinct_map]
  cases hexample : d.example? with
  | none =>
      have hnames : ["name", "type", "markdown"].Nodup := by decide
      exact ⟨hnames, by simp [Value.KeysDistinct]⟩
  | some v =>
      have hnames : ["name", "type", "markdown", "example"].Nodup := by decide
      exact ⟨hnames, by simp [Value.KeysDistinct, h v hexample]⟩

theorem allFloats_toValue
    {P : Double → Prop}
    (h : ∀ v, d.example? = some v → v.AllFloats P) :
    d.toValue.AllFloats P := by
  rw [toValue, Value.allFloats_map]
  cases hexample : d.example? with
  | none =>
      simp [Value.AllFloats]
  | some v =>
      simp [Value.AllFloats, h v hexample]

theorem depth_toValue_le_iff
    {n : Nat} :
    d.toValue.depth ≤ n + 1 ↔ ∀ v, d.example? = some v → v.depth ≤ n := by
  rw [toValue, Value.depth, Nat.add_le_add_iff_right, Value.depthEntries_le_iff]
  cases hexample : d.example? with
  | none =>
      simp [Value.depth]
  | some v =>
      simp [Value.depth]

end WidgetDoc

namespace Template

variable (t : Template)

theorem keysDistinct_toValue : t.toValue.KeysDistinct := by
  rw [toValue, Value.keysDistinct_map]
  obtain ⟨name, previewImage, requires, yaml⟩ := t
  have hnames : ["name", "preview_image", "requires", "yaml"].Nodup := by decide
  refine ⟨hnames, ?_⟩
  cases previewImage <;> cases requires <;> simp [Value.ofText?, Value.KeysDistinct]

theorem allFloats_toValue (P : Double → Prop) : t.toValue.AllFloats P := by
  rw [toValue, Value.allFloats_map]
  obtain ⟨name, previewImage, requires, yaml⟩ := t
  cases previewImage <;> cases requires <;> simp [Value.ofText?, Value.AllFloats]

theorem depth_toValue : t.toValue.depth = 1 := by
  obtain ⟨name, previewImage, requires, yaml⟩ := t
  cases previewImage <;> cases requires <;> rfl

end Template

namespace Reference

variable {r : Reference}

theorem keysDistinct_toValue
    (h : r.AllExamples Value.KeysDistinct) :
    r.toValue.KeysDistinct := by
  have hdocs : (Value.seq (r.docs.map WidgetDoc.toValue)).KeysDistinct := by
    rw [Value.keysDistinct_seq, List.forall_mem_map]
    exact fun d hd => WidgetDoc.keysDistinct_toValue (h d hd)
  have htemplates : (Value.seq (r.templates.map Template.toValue)).KeysDistinct := by
    rw [Value.keysDistinct_seq, List.forall_mem_map]
    exact fun t _ => t.keysDistinct_toValue
  have hnames : ["widgets", "templates"].Nodup := by decide
  exact ⟨hnames, hdocs, htemplates, True.intro⟩

theorem allFloats_toValue
    {P : Double → Prop}
    (h : r.AllExamples fun v => v.AllFloats P) :
    r.toValue.AllFloats P := by
  have hdocs : (Value.seq (r.docs.map WidgetDoc.toValue)).AllFloats P := by
    rw [Value.allFloats_seq, List.forall_mem_map]
    exact fun d hd => WidgetDoc.allFloats_toValue (h d hd)
  have htemplates : (Value.seq (r.templates.map Template.toValue)).AllFloats P := by
    rw [Value.allFloats_seq, List.forall_mem_map]
    exact fun t _ => t.allFloats_toValue P
  exact ⟨hdocs, htemplates, True.intro⟩

/-- The file has three containers around an example. -/
theorem depth_toValue_le_iff
    {n : Nat} :
    r.toValue.depth ≤ n + 3 ↔ r.AllExamples fun v => v.depth ≤ n := by
  have hdocs : Value.depthItems (r.docs.map WidgetDoc.toValue) ≤ n + 1 ↔
      r.AllExamples fun v => v.depth ≤ n := by
    rw [Value.depthItems_le_iff, List.forall_mem_map]
    exact forall₂_congr fun d _ => WidgetDoc.depth_toValue_le_iff
  have htemplates : Value.depthItems (r.templates.map Template.toValue) ≤ n + 1 := by
    rw [Value.depthItems_le_iff, List.forall_mem_map]
    intro t ht
    rw [t.depth_toValue]
    exact Nat.le_add_left 1 n
  have hdepth : r.toValue.depth = max (Value.depthItems (r.docs.map WidgetDoc.toValue) + 1)
      (max (Value.depthItems (r.templates.map Template.toValue) + 1) 0) + 1 := rfl
  rw [← hdocs]
  omega

/-! ## The whole file -/

section Lists

variable (docs : List WidgetDoc)
variable (templates : List Template)

theorem filterMap_docOf?_inJson :
    (Value.inJsonItems (docs.map WidgetDoc.toValue)).filterMap docOf? =
      docs.map WidgetDoc.inJson := by
  have hdoc : docOf? ∘ Value.inJson ∘ WidgetDoc.toValue = fun d => some d.inJson :=
    funext WidgetDoc.docOf?_inJson
  rw [Value.inJsonItems_eq_map, List.map_map, List.filterMap_map, hdoc, List.filterMap_eq_map']

/-- No object is a bare type. -/
theorem filterMap_asText?_inJson :
    (Value.inJsonItems (docs.map WidgetDoc.toValue)).filterMap Value.asText? = [] := by
  rw [Value.inJsonItems_eq_map, List.map_map, List.filterMap_map]
  exact List.filterMap_eq_nil_iff.2 fun d _ => rfl

theorem filterMap_ofValue_inJson :
    (Value.inJsonItems (templates.map Template.toValue)).filterMap
      (fun v => (Template.ofValue v).toOption) = templates := by
  have htemplate : (fun v => (Template.ofValue v).toOption) ∘ Value.inJson ∘ Template.toValue =
      some := by
    funext t
    exact congrArg Except.toOption t.ofValue_inJson
  rw [Value.inJsonItems_eq_map, List.map_map, List.filterMap_map, htemplate,
    List.filterMap_some]

end Lists

/-- What the written object stands for, once it is in JSON. -/
theorem exists_ofMapping_eq_inJson (r : Reference) :
    ∃ root, r.toValue.inJson = .map root ∧ ofMapping root = r.inJson := by
  refine ⟨_, rfl, ?_⟩
  change ({
      docs := (Value.inJsonItems (r.docs.map WidgetDoc.toValue)).filterMap docOf?
      templates := (Value.inJsonItems (r.templates.map Template.toValue)).filterMap _
      bareTypes := (Value.inJsonItems (r.docs.map WidgetDoc.toValue)).filterMap Value.asText? } :
    Reference) = _
  rw [filterMap_docOf?_inJson, filterMap_ofValue_inJson, filterMap_asText?_inJson]
  rfl

/-- What is read back of reference data that was written. -/
theorem ofJson_toJson
    {r : Reference}
    (hkeys : r.AllExamples Value.KeysDistinct)
    (hfloats : r.AllExamples fun v => v.AllFloats FiniteReadsBack) :
    ofJson r.toJson = if r.toValue.depth ≤ maxDepth then r.inJson else {} := by
  obtain ⟨root, hroot, hdata⟩ := exists_ofMapping_eq_inJson r
  have hread := read_prettyText (keysDistinct_toValue hkeys) (allFloats_toValue hfloats)
  rw [hroot] at hread
  rw [ofJson, toJson]
  split at hread
  · next hdepth => rw [if_pos hdepth, toOption_eq_some.1 hread, ← hdata]
  · next hdeep =>
      rw [if_neg hdeep]
      cases htext : read (prettyText r.toValue ++ "\n") with
      | error f =>
          rfl
      | ok v =>
          rw [htext] at hread
          cases hread

end Reference

end Dashboard

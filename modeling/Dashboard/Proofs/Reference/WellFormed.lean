import Dashboard.Proofs.Reference.Stable
import Dashboard.Proofs.Reference.Types
import Dashboard.Reference.OfJson

/-!
# Which entries of a reference file are kept

An entry of the list of widgets is kept if it is an object whose fields have the right
kinds, or a bare type; an entry of the list of pages if it is such an object.  All others
are passed over one by one.

Main statement: reading does exactly this, unless a page is written as the list of its
four fields, which is taken as well.
-/

namespace Dashboard

/-! ## Kinds of fields -/

namespace Value

/-- The value is a text. -/
def isText (v : Value) : Bool :=
  v.asText?.isSome

/-- The value is a text or null. -/
def isTextOrNull (v : Value) : Bool :=
  v.isText || v == .null

end Value

namespace Mapping

variable (m : Mapping)
variable (key : String)

/-- The field is there and is a text. -/
def hasText : Bool :=
  (Entries.get? m key).any Value.isText

/-- The field is a text if it is there. -/
def mayHaveText : Bool :=
  (Entries.get? m key).all Value.isText

/-- The field is a text or null if it is there. -/
def mayHaveTextOrNull : Bool :=
  (Entries.get? m key).all Value.isTextOrNull

end Mapping

/-! ## Shapes of entries -/

namespace WidgetDoc

/-- An object has the fields of documentation. -/
def fitsObject (m : Mapping) : Bool :=
  m.hasText "type" && m.mayHaveText "name" && m.mayHaveText "markdown"

/-- The documentation in the fields of an object. -/
def ofObject (m : Mapping) : WidgetDoc where
  name := m.textAt "name"
  type := m.textAt "type"
  markdown := m.textAt "markdown"
  example? := (Entries.get? m "example").filter fun v => v != .null

/-- An entry is an object with the fields of documentation. -/
def fits : Value → Bool
  | .map m => fitsObject m
  | _ => false

/-- The documentation in an entry. -/
def ofEntry : Value → WidgetDoc
  | .map m => ofObject m
  | _ => default

end WidgetDoc

namespace Template

/-- An object has the fields of a page. -/
def fitsObject (m : Mapping) : Bool :=
  m.hasText "name" && m.hasText "yaml" && m.mayHaveTextOrNull "preview_image" &&
    m.mayHaveTextOrNull "requires"

/-- The page in the fields of an object. -/
def ofObject (m : Mapping) : Template where
  name := m.textAt "name"
  previewImage := (Entries.get? m "preview_image").bind Value.asText?
  requires := (Entries.get? m "requires").bind Value.asText?
  yaml := m.textAt "yaml"

/-- An entry is an object with the fields of a page. -/
def fits : Value → Bool
  | .map m => fitsObject m
  | _ => false

/-- The page in an entry. -/
def ofEntry : Value → Template
  | .map m => ofObject m
  | _ => default

/-- An entry is the list of the four fields of a page. -/
def isListed : Value → Bool
  | .seq [name, previewImage, requires, yaml] =>
      name.isText && previewImage.isTextOrNull && requires.isTextOrNull && yaml.isText
  | _ => false

end Template

/-! ## Checking the fields of an object -/

section Fields

variable {m : Mapping}
variable {key : String}

/-- With distinct keys, what all entries of a key have is what the field has. -/
theorem all_get?_iff
    (hm : Entries.Distinct m)
    {P : Value → Bool} :
    (Entries.get? m key).all P = true ↔ ∀ e ∈ m, e.1 = key → P e.2 = true := by
  rw [Option.all_eq_true]
  constructor
  · rintro h ⟨k, v⟩ he rfl
    exact h v (Entries.get?_of_mem hm he)
  · intro h v hv
    exact h _ (Entries.mem_of_get? hv) rfl

theorem requiredText_eq_ok_iff
    {s : String} :
    m.requiredText key = .ok s ↔ m.hasText key = true ∧ m.textAt key = s := by
  rw [Mapping.requiredText, Mapping.hasText, Mapping.textAt]
  cases hget : Entries.get? m key with
  | none =>
      simp
  | some v =>
      cases v <;> simp [Value.needText, Value.isText, Value.asText?]

theorem mayHaveText_of_hasText
    (h : m.hasText key = true) :
    m.mayHaveText key = true := by
  rw [Mapping.hasText, Option.any_eq_true] at h
  obtain ⟨v, hv, htext⟩ := h
  rw [Mapping.mayHaveText, hv]
  exact htext

theorem map_needText_eq_ok_iff
    {v : Value} :
    (v.needText.map fun _ => ()) = .ok () ↔ v.isText = true := by
  cases v <;> simp [Value.needText, Value.isText, Value.asText?, Except.map]

theorem map_optionalText_eq_ok_iff
    {v : Value} :
    (v.optionalText.map fun _ => ()) = .ok () ↔ v.isTextOrNull = true := by
  cases v <;>
    simp [Value.optionalText, Value.needText, Value.isTextOrNull, Value.isText, Value.asText?,
      Except.map]

end Fields

/-! ## Objects that are kept -/

namespace WidgetDoc

variable {m : Mapping}

theorem checkField_eq_ok_iff
    {key : String}
    {v : Value} :
    checkField (key, v) = .ok () ↔
      (key = "name" ∨ key = "type" ∨ key = "markdown" → v.isText = true) := by
  rw [checkField]
  split
  · next hkey =>
      have hkey : key = "name" ∨ key = "type" ∨ key = "markdown" := by simpa using hkey
      rw [map_needText_eq_ok_iff]
      exact ⟨fun h _ => h, fun h => h hkey⟩
  · next hkey =>
      have hkey : ¬(key = "name" ∨ key = "type" ∨ key = "markdown") := by simpa using hkey
      exact iff_of_true rfl fun h => absurd h hkey

theorem checkFields_eq_ok_iff
    (hm : Entries.Distinct m) :
    m.forM checkField = .ok () ↔
      m.mayHaveText "name" = true ∧ m.mayHaveText "type" = true ∧
        m.mayHaveText "markdown" = true := by
  simp only [forM_eq_ok, Prod.forall, checkField_eq_ok_iff, Mapping.mayHaveText,
    all_get?_iff hm]
  constructor
  · intro h
    exact ⟨fun k v he hk => h k v he (.inl hk), fun k v he hk => h k v he (.inr (.inl hk)),
      fun k v he hk => h k v he (.inr (.inr hk))⟩
  · rintro ⟨hname, htype, hmarkdown⟩ k v he (hk | hk | hk)
    · exact hname k v he hk
    · exact htype k v he hk
    · exact hmarkdown k v he hk

/-- An object is documentation exactly if its fields have the right kinds. -/
theorem ofMapping_eq_ok_iff
    (hm : Entries.Distinct m)
    {d : WidgetDoc} :
    ofMapping m = .ok d ↔ fitsObject m = true ∧ ofObject m = d := by
  simp only [ofMapping, bind_eq_ok, pure_eq_ok, checkFields_eq_ok_iff hm, requiredText_eq_ok_iff,
    fitsObject, ofObject, Bool.and_eq_true]
  constructor
  · rintro ⟨-, ⟨hname, -, hmarkdown⟩, type, ⟨htype, rfl⟩, hd⟩
    exact ⟨⟨⟨htype, hname⟩, hmarkdown⟩, hd⟩
  · rintro ⟨⟨⟨htype, hname⟩, hmarkdown⟩, hd⟩
    exact ⟨(), ⟨hname, mayHaveText_of_hasText htype, hmarkdown⟩, _, ⟨htype, rfl⟩, hd⟩

end WidgetDoc

namespace Template

variable {m : Mapping}

theorem checkField_eq_ok_iff
    {key : String}
    {v : Value} :
    checkField (key, v) = .ok () ↔
      (key = "name" ∨ key = "yaml" → v.isText = true) ∧
        (key = "preview_image" ∨ key = "requires" → v.isTextOrNull = true) := by
  rw [checkField]
  split
  · next hkey =>
      have hkey : key = "name" ∨ key = "yaml" := by simpa using hkey
      have hother : ¬(key = "preview_image" ∨ key = "requires") := by
        rcases hkey with rfl | rfl <;> decide
      rw [map_needText_eq_ok_iff]
      exact ⟨fun h => ⟨fun _ => h, fun hk => absurd hk hother⟩, fun h => h.1 hkey⟩
  · next hkey =>
      have hkey : ¬(key = "name" ∨ key = "yaml") := by simpa using hkey
      split
      · next hother =>
          have hother : key = "preview_image" ∨ key = "requires" := by simpa using hother
          rw [map_optionalText_eq_ok_iff]
          exact ⟨fun h => ⟨fun hk => absurd hk hkey, fun _ => h⟩, fun h => h.2 hother⟩
      · next hother =>
          have hother : ¬(key = "preview_image" ∨ key = "requires") := by simpa using hother
          exact iff_of_true rfl ⟨fun hk => absurd hk hkey, fun hk => absurd hk hother⟩

theorem checkFields_eq_ok_iff
    (hm : Entries.Distinct m) :
    m.forM checkField = .ok () ↔
      (m.mayHaveText "name" = true ∧ m.mayHaveText "yaml" = true) ∧
        m.mayHaveTextOrNull "preview_image" = true ∧ m.mayHaveTextOrNull "requires" = true := by
  simp only [forM_eq_ok, Prod.forall, checkField_eq_ok_iff, Mapping.mayHaveText,
    Mapping.mayHaveTextOrNull, all_get?_iff hm]
  constructor
  · intro h
    exact ⟨⟨fun k v he hk => (h k v he).1 (.inl hk), fun k v he hk => (h k v he).1 (.inr hk)⟩,
      fun k v he hk => (h k v he).2 (.inl hk), fun k v he hk => (h k v he).2 (.inr hk)⟩
  · rintro ⟨⟨hname, hyaml⟩, himage, hrequires⟩ k v he
    exact ⟨fun hk => hk.elim (hname k v he) (hyaml k v he),
      fun hk => hk.elim (himage k v he) (hrequires k v he)⟩

/-- An object is a page exactly if its fields have the right kinds. -/
theorem ofMapping_eq_ok_iff
    (hm : Entries.Distinct m)
    {t : Template} :
    ofMapping m = .ok t ↔ fitsObject m = true ∧ ofObject m = t := by
  simp only [ofMapping, bind_eq_ok, pure_eq_ok, checkFields_eq_ok_iff hm, requiredText_eq_ok_iff,
    fitsObject, ofObject, Bool.and_eq_true]
  constructor
  · rintro ⟨-, ⟨-, himage, hrequires⟩, name, ⟨hname, rfl⟩, yaml, ⟨hyaml, rfl⟩, ht⟩
    exact ⟨⟨⟨⟨hname, hyaml⟩, himage⟩, hrequires⟩, ht⟩
  · rintro ⟨⟨⟨⟨hname, hyaml⟩, himage⟩, hrequires⟩, ht⟩
    exact ⟨(), ⟨⟨mayHaveText_of_hasText hname, mayHaveText_of_hasText hyaml⟩, himage, hrequires⟩,
      _, ⟨hname, rfl⟩, _, ⟨hyaml, rfl⟩, ht⟩

end Template

/-! ## Entries that are kept -/

section Entries

variable {v : Value}

/-- An entry that is an object is documentation exactly if it fits. -/
theorem WidgetDoc.docOf?_eq
    (hv : v.KeysDistinct) :
    Reference.docOf? v = if fits v then some (ofEntry v) else none := by
  cases v with
  | map m =>
      have hm : Entries.Distinct m := (Value.keysDistinct_map.1 hv).1
      rw [Reference.docOf?, fits, ofEntry]
      split
      · next hfits =>
          exact toOption_eq_some.2 ((ofMapping_eq_ok_iff hm).2 ⟨hfits, rfl⟩)
      · next hfits =>
          refine Option.eq_none_iff_forall_ne_some.2 fun d hd => hfits ?_
          exact ((ofMapping_eq_ok_iff hm).1 (toOption_eq_some.1 hd)).1
  | null | bool b | int n | float x | str s | seq items =>
      rfl

/-- A list of four entries is a page exactly if they are its fields. -/
theorem Template.isSome_ofItems_four
    (name previewImage requires yaml : Value) :
    (ofItems [name, previewImage, requires, yaml]).toOption.isSome =
      isListed (.seq [name, previewImage, requires, yaml]) := by
  have hitems :
      ofItems [name, previewImage, requires, yaml] = (do
        let name ← name.needText
        let previewImage ← previewImage.optionalText
        let requires ← requires.optionalText
        let yaml ← yaml.needText
        return { name, previewImage, requires, yaml }) := rfl
  have hneed : ∀ v : Value, v.needText.toOption.isSome = v.isText := by
    intro v
    cases v <;> rfl
  have hoptional : ∀ v : Value, v.optionalText.toOption.isSome = v.isTextOrNull := by
    intro v
    cases v <;> rfl
  rw [hitems, isListed, ← hneed name, ← hoptional previewImage, ← hoptional requires,
    ← hneed yaml]
  cases name.needText with
  | error e =>
      rfl
  | ok s =>
      cases previewImage.optionalText with
      | error e =>
          rfl
      | ok p =>
          cases requires.optionalText with
          | error e =>
              rfl
          | ok r =>
              cases yaml.needText <;> rfl

/-- No list of another length is a page. -/
theorem Template.length_of_ofItems
    {items : List Value}
    {t : Template}
    (h : ofItems items = .ok t) :
    items.length = 4 := by
  rw [ofItems] at h
  split at h
  · obtain ⟨name, -, hname⟩ := bind_eq_ok.1 h
    obtain ⟨previewImage, -, himage⟩ := bind_eq_ok.1 hname
    obtain ⟨requires, -, hrequires⟩ := bind_eq_ok.1 himage
    split at hrequires
    · obtain ⟨yaml, -, hyaml⟩ := bind_eq_ok.1 hrequires
      split at hyaml
      · cases hyaml
      · next hlength =>
          exact Decidable.not_not.1 hlength
    · cases hrequires
  · cases h

/-- A list is a page exactly if it is the list of the four fields. -/
theorem Template.isSome_ofItems
    (items : List Value) :
    (ofItems items).toOption.isSome = isListed (.seq items) := by
  by_cases hlength : items.length = 4
  · obtain ⟨name, previewImage, requires, yaml, rfl⟩ := List.length_eq_four.1 hlength
    exact isSome_ofItems_four name previewImage requires yaml
  · have hlisted : isListed (.seq items) = false := by
      rw [isListed]
      rintro name previewImage requires yaml ⟨⟩
      exact hlength rfl
    rw [hlisted, Option.isSome_eq_false_iff, Option.isNone_iff_eq_none]
    refine Option.eq_none_iff_forall_ne_some.2 fun t ht => hlength ?_
    exact length_of_ofItems (toOption_eq_some.1 ht)

/-- An entry that is no list is a page exactly if it fits. -/
theorem Template.toOption_ofValue
    (hv : v.KeysDistinct)
    (hlisted : isListed v = false) :
    (ofValue v).toOption = if fits v then some (ofEntry v) else none := by
  cases v with
  | map m =>
      have hm : Entries.Distinct m := (Value.keysDistinct_map.1 hv).1
      rw [ofValue, fits, ofEntry]
      split
      · next hfits =>
          exact toOption_eq_some.2 ((ofMapping_eq_ok_iff hm).2 ⟨hfits, rfl⟩)
      · next hfits =>
          refine Option.eq_none_iff_forall_ne_some.2 fun t ht => hfits ?_
          exact ((ofMapping_eq_ok_iff hm).1 (toOption_eq_some.1 ht)).1
  | seq items =>
      rw [← Option.isNone_iff_eq_none.1 (Option.isSome_eq_false_iff.1
        ((isSome_ofItems items).trans hlisted))]
      rfl
  | null | bool b | int n | float x | str s =>
      rfl

/-- An entry is taken as a page if it fits, and if it is the list of the fields. -/
theorem Template.isSome_ofValue
    (hv : v.KeysDistinct) :
    (ofValue v).toOption.isSome = (fits v || isListed v) := by
  cases hlisted : isListed v with
  | false =>
      rw [toOption_ofValue hv hlisted, Bool.or_false]
      cases fits v <;> rfl
  | true =>
      cases v with
      | seq items =>
          rw [ofValue, isSome_ofItems, hlisted, Bool.or_true]
      | null | bool b | int n | float x | str s | map m =>
          cases hlisted

end Entries

/-! ## Lists of entries -/

/-- What is left out and what the rest becomes, one after the other. -/
theorem filterMap_eq_map_filter
    {α β : Type}
    {f : α → Option β}
    {p : α → Bool}
    {g : α → β}
    {xs : List α}
    (h : ∀ x ∈ xs, f x = if p x then some (g x) else none) :
    xs.filterMap f = (xs.filter p).map g := by
  rw [List.filterMap_congr h, ← List.filterMap_eq_map, List.filterMap_filter]
  rfl

/-- If as many elements have one of two properties as have the first, none has only the
second. -/
theorem eq_true_of_length_filter_eq
    {α : Type}
    {p q : α → Bool}
    {xs : List α}
    (h : (xs.filter fun x => p x || q x).length = (xs.filter p).length)
    {x : α}
    (hx : x ∈ xs)
    (hq : q x = true) :
    p x = true := by
  have hsub : (xs.filter p).Sublist (xs.filter fun x => p x || q x) :=
    List.monotone_filter_right xs fun x hp => by rw [hp, Bool.true_or]
  have hmem : x ∈ xs.filter fun x => p x || q x :=
    List.mem_filter.2 ⟨hx, by rw [hq, Bool.or_true]⟩
  rw [← hsub.eq_of_length h.symm] at hmem
  exact (List.mem_filter.1 hmem).2

namespace Reference

/-! ## Files whose entries have changed -/

section Files

variable {text : String}
variable {root : Mapping}

theorem ofJson_eq
    (h : Json.read text = .ok (.map root)) :
    ofJson text = ofMapping root := by
  rw [ofJson, h]

/-- Values in a list of the file have distinct keys throughout. -/
theorem keysDistinct_of_mem_itemsAt
    (h : Json.read text = .ok (.map root))
    {key : String}
    {v : Value}
    (hv : v ∈ root.itemsAt key) :
    v.KeysDistinct := by
  have hroot : Json.WellRead 127 (.map root) := Json.wellRead_of_read h
  exact (wellRead_of_mem_itemsAt hroot hv).keysDistinct

theorem itemsAt_put_self
    (key : String)
    (items : List Value) :
    Mapping.itemsAt (Entries.put root key (.seq items)) key = items := by
  rw [Mapping.itemsAt, Entries.get?_put_self]

theorem itemsAt_put_of_ne
    {key other : String}
    (hne : other ≠ key)
    (items : List Value) :
    Mapping.itemsAt (Entries.put root key (.seq items)) other = root.itemsAt other := by
  rw [Mapping.itemsAt, Mapping.itemsAt, Entries.get?_put_of_ne _ hne]

end Files

/-- From the text of a file with that object at its root, the entries that fit are kept,
in their order, and nothing else. -/
structure ReadsWellFormed (text : String) (root : Mapping) : Prop where
  docs_eq :
    (ofJson text).docs =
      ((root.itemsAt "widgets").filter WidgetDoc.fits).map WidgetDoc.ofEntry
  templates_eq :
    (ofJson text).templates =
      ((root.itemsAt "templates").filter Template.fits).map Template.ofEntry
  pairwise_types :
    (ofJson text).types.Pairwise fun t u => Text.bytes t < Text.bytes u
  mem_types :
    ∀ t, t ∈ (ofJson text).types ↔ t ≠ "" ∧ ∃ u,
      ((∃ v ∈ root.itemsAt "widgets", WidgetDoc.fits v = true ∧ (WidgetDoc.ofEntry v).type = u) ∨
        .str u ∈ root.itemsAt "widgets") ∧ Text.trim u = t
  /-- An entry of the widgets that neither fits nor is a text may as well be deleted. -/
  without_widget :
    ∀ {before after : List Value} {v : Value} {text' : String},
      root.itemsAt "widgets" = before ++ v :: after →
        WidgetDoc.fits v = false → v.isText = false →
          Json.read text' = .ok (.map (Entries.put root "widgets" (.seq (before ++ after)))) →
            ofJson text' = ofJson text
  /-- An entry of the pages that does not fit may as well be deleted. -/
  without_template :
    ∀ {before after : List Value} {v : Value} {text' : String},
      root.itemsAt "templates" = before ++ v :: after →
        Template.fits v = false →
          Json.read text' = .ok (.map (Entries.put root "templates" (.seq (before ++ after)))) →
            ofJson text' = ofJson text

section Main

variable {text : String}
variable {root : Mapping}

theorem docs_ofJson
    (h : Json.read text = .ok (.map root)) :
    (ofJson text).docs =
      ((root.itemsAt "widgets").filter WidgetDoc.fits).map WidgetDoc.ofEntry := by
  rw [ofJson_eq h]
  exact filterMap_eq_map_filter fun v hv =>
    WidgetDoc.docOf?_eq (keysDistinct_of_mem_itemsAt h hv)

theorem templates_ofJson
    (h : Json.read text = .ok (.map root))
    (hlisted : ∀ v ∈ root.itemsAt "templates", Template.isListed v = false) :
    (ofJson text).templates =
      ((root.itemsAt "templates").filter Template.fits).map Template.ofEntry := by
  rw [ofJson_eq h]
  exact filterMap_eq_map_filter fun v hv =>
    Template.toOption_ofValue (keysDistinct_of_mem_itemsAt h hv) (hlisted v hv)

/-- As many pages are read as there are entries that fit and lists of fields. -/
theorem length_templates_ofJson
    (h : Json.read text = .ok (.map root)) :
    (ofJson text).templates.length =
      ((root.itemsAt "templates").filter fun v =>
        Template.fits v || Template.isListed v).length := by
  rw [ofJson_eq h, ofMapping, List.length_filterMap_eq_countP, List.countP_eq_length_filter]
  refine congrArg List.length (List.filter_congr fun v hv => ?_)
  exact Template.isSome_ofValue (keysDistinct_of_mem_itemsAt h hv)

theorem mem_bareTypes_ofJson
    (h : Json.read text = .ok (.map root))
    (u : String) :
    u ∈ (ofJson text).bareTypes ↔ .str u ∈ root.itemsAt "widgets" := by
  rw [ofJson_eq h, ofMapping, List.mem_filterMap]
  constructor
  · rintro ⟨v, hv, htext⟩
    cases v with
    | str s =>
        cases htext
        exact hv
    | null | bool b | int n | float x | seq items | map m =>
        cases htext
  · intro hu
    exact ⟨_, hu, rfl⟩

/-- The known types come from the objects that fit and from the bare types. -/
theorem mem_types_ofJson
    (h : Json.read text = .ok (.map root))
    (t : String) :
    t ∈ (ofJson text).types ↔ t ≠ "" ∧ ∃ u,
      ((∃ v ∈ root.itemsAt "widgets", WidgetDoc.fits v = true ∧ (WidgetDoc.ofEntry v).type = u) ∨
        .str u ∈ root.itemsAt "widgets") ∧ Text.trim u = t := by
  have hdoc : ∀ u, u ∈ (ofJson text).docs.map WidgetDoc.type ↔
      ∃ v ∈ root.itemsAt "widgets", WidgetDoc.fits v = true ∧ (WidgetDoc.ofEntry v).type = u := by
    intro u
    rw [docs_ofJson h, List.map_map, List.mem_map]
    exact exists_congr fun v => by rw [List.mem_filter, and_assoc, Function.comp_apply]
  rw [mem_types_iff]
  exact and_congr_right fun _ => exists_congr fun u =>
    and_congr_left fun _ => or_congr (hdoc u) (mem_bareTypes_ofJson h u)

/-- An entry of the widgets that is neither documentation nor a text adds nothing. -/
theorem ofMapping_put_widgets
    {before after : List Value}
    {v : Value}
    (hitems : root.itemsAt "widgets" = before ++ v :: after)
    (hdoc : docOf? v = none)
    (htext : v.asText? = none) :
    ofMapping (Entries.put root "widgets" (.seq (before ++ after))) = ofMapping root := by
  have htemplates : "templates" ≠ "widgets" := by decide
  simp only [ofMapping, itemsAt_put_self, itemsAt_put_of_ne htemplates, hitems,
    List.filterMap_append, List.filterMap_cons_none hdoc, List.filterMap_cons_none htext]

/-- An entry of the pages that is no page adds nothing. -/
theorem ofMapping_put_templates
    {before after : List Value}
    {v : Value}
    (hitems : root.itemsAt "templates" = before ++ v :: after)
    (hpage : (Template.ofValue v).toOption = none) :
    ofMapping (Entries.put root "templates" (.seq (before ++ after))) = ofMapping root := by
  have hwidgets : "widgets" ≠ "templates" := by decide
  have hcons :
      ((v :: after).filterMap fun v => (Template.ofValue v).toOption) =
        after.filterMap fun v => (Template.ofValue v).toOption :=
    List.filterMap_cons_none hpage
  simp only [ofMapping, itemsAt_put_self, itemsAt_put_of_ne hwidgets, hitems,
    List.filterMap_append, hcons]

/-- Reading keeps exactly the entries that fit, unless a page is written as the list of
its fields. -/
theorem readsWellFormed_iff
    (h : Json.read text = .ok (.map root)) :
    ReadsWellFormed text root ↔
      ∀ v ∈ root.itemsAt "templates", Template.isListed v = false := by
  constructor
  · intro hreads v hv
    by_contra hlisted
    have hlisted : Template.isListed v = true := Bool.eq_true_of_not_eq_false hlisted
    have hlength := length_templates_ofJson h
    rw [hreads.templates_eq, List.length_map] at hlength
    have hfits : Template.fits v = true :=
      eq_true_of_length_filter_eq hlength.symm hv hlisted
    cases v with
    | map m =>
        cases hlisted
    | null | bool b | int n | float x | str s | seq items =>
        cases hfits
  · intro hlisted
    refine ⟨docs_ofJson h, templates_ofJson h hlisted,
      pairwise_types.imp Text.bytes_lt_bytes_iff.2, mem_types_ofJson h,
      fun {before after v text'} hitems hfits htext htext' => ?_,
      fun {before after v text'} hitems hfits htext' => ?_⟩
    · have hmem : v ∈ root.itemsAt "widgets" :=
        hitems ▸ List.mem_append_right _ List.mem_cons_self
      have hdoc := WidgetDoc.docOf?_eq (keysDistinct_of_mem_itemsAt h hmem)
      rw [hfits] at hdoc
      rw [ofJson_eq h, ofJson_eq htext']
      exact ofMapping_put_widgets hitems hdoc
        (Option.isNone_iff_eq_none.1 (Option.isSome_eq_false_iff.1 htext))
    · have hmem : v ∈ root.itemsAt "templates" :=
        hitems ▸ List.mem_append_right _ List.mem_cons_self
      have hpage :=
        Template.toOption_ofValue (keysDistinct_of_mem_itemsAt h hmem) (hlisted v hmem)
      rw [hfits] at hpage
      rw [ofJson_eq h, ofJson_eq htext']
      exact ofMapping_put_templates hitems hpage

end Main

/-- A file with a bare type, an object that is documentation, one that has no type, a
number, a page, and a list that is none. -/
def mixedText : String :=
  "\x7b\"widgets\": [\"custom\", \x7b\"type\": \" clock \"\x7d, " ++
    "\x7b\"name\": \"Weather\"\x7d, 3], " ++
    "\"templates\": [\x7b\"name\": \"Home\", \"yaml\": \"pages: []\", " ++
    "\"requires\": null\x7d, [\"Home\"]]\x7d"

/-- The object in that file. -/
def mixedRoot : Mapping :=
  [("widgets", .seq [.str "custom", .map [("type", .str " clock ")],
      .map [("name", .str "Weather")], .int 3]),
    ("templates", .seq [.map [("name", .str "Home"), ("yaml", .str "pages: []"),
      ("requires", .null)], .seq [.str "Home"]])]

theorem readsWellFormed_mixedText :
    Json.read mixedText = .ok (.map mixedRoot) ∧ ReadsWellFormed mixedText mixedRoot := by
  have hread : Json.read mixedText = .ok (.map mixedRoot) :=
    toOption_eq_some.1 (by decide +kernel)
  exact ⟨hread, (readsWellFormed_iff hread).2 (by decide)⟩

/-- A file with a page that is written as the list of its fields. -/
def listedText : String :=
  "\x7b\"templates\": [[\"Home\", null, null, \"pages: []\"]]\x7d"

/-- The object in that file. -/
def listedRoot : Mapping :=
  [("templates", .seq [.seq [.str "Home", .null, .null, .str "pages: []"]])]

/-- The list is taken as a page. -/
theorem not_readsWellFormed_listedText :
    Json.read listedText = .ok (.map listedRoot) ∧ ¬ReadsWellFormed listedText listedRoot := by
  have hread : Json.read listedText = .ok (.map listedRoot) :=
    toOption_eq_some.1 (by decide +kernel)
  refine ⟨hread, fun h => ?_⟩
  have hpages : (ofJson listedText).templates = [{ name := "Home", yaml := "pages: []" }] := by
    rw [ofJson_eq hread]
    rfl
  have hnone : (listedRoot.itemsAt "templates").filter Template.fits = [] := rfl
  have htemplates := h.templates_eq
  rw [hpages, hnone] at htemplates
  cases htemplates

end Reference

end Dashboard

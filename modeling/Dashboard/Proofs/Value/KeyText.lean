import Dashboard.Proofs.Json.Unambiguous
import Dashboard.Proofs.Render.Characters

/-!
# Keys as texts

The keys of a YAML mapping are data of any kind, those of a value are texts.  Main
statement: reading keeps every entry of every mapping, in its order and with its value,
exactly if no two keys of one mapping have the same text.

Texts keep keys apart well (`keyText_eq_iff`): two keys that are no texts have the same
text only if they are the same value, or containers that are the same in JSON.  What is
left is a key that is a text, which may spell another key.
-/

namespace Dashboard

namespace Value

/-- Two values are the same as keys: they are the same value, one is a text that spells
the other, or they are containers that are the same in JSON. -/
def KeysClash (v w : Value) : Prop :=
  v = w ∨ v = .str w.keyText ∨ w = .str v.keyText ∨
    v.isContainer = true ∧ w.isContainer = true ∧ v.inJson = w.inJson

instance (v w : Value) : Decidable (v.KeysClash w) :=
  inferInstanceAs (Decidable (_ ∨ _ ∨ _ ∨ _ ∧ _ ∧ _))

mutual

/-- The value holds all of the data: for every entry of a mapping it has one entry, in the
same order, whose key is the text of the key and whose value holds all of that of the
entry. -/
def HoldsAll : Yaml.Datum → Value → Prop
  | .scalar s, v => v = ofScalar s
  | .seq items, .seq vs => HoldsAllItems items vs
  | .map entries, .map m => HoldsAllEntries entries m
  | .tagged _ content, v => HoldsAll content v
  | _, _ => False

/-- Item by item. -/
def HoldsAllItems : List Yaml.Datum → List Value → Prop
  | [], [] => True
  | d :: ds, v :: vs => HoldsAll d v ∧ HoldsAllItems ds vs
  | _, _ => False

/-- Entry by entry. -/
def HoldsAllEntries : List (Yaml.Datum × Yaml.Datum) → List (String × Value) → Prop
  | [], [] => True
  | (k, d) :: entries, (key, v) :: m =>
      key = keyText (ofDatum k) ∧ HoldsAll d v ∧ HoldsAllEntries entries m
  | _, _ => False

end

mutual

/-- In no mapping of the data are the values of two keys in a relation. -/
def KeysApart (R : Value → Value → Prop) : Yaml.Datum → Prop
  | .scalar _ => True
  | .seq items => KeysApartItems R items
  | .map entries =>
      (entries.Pairwise fun e f => ¬R (ofDatum e.1) (ofDatum f.1)) ∧ KeysApartEntries R entries
  | .tagged _ content => KeysApart R content

/-- Item by item. -/
def KeysApartItems (R : Value → Value → Prop) : List Yaml.Datum → Prop
  | [] => True
  | d :: ds => KeysApart R d ∧ KeysApartItems R ds

/-- Entry by entry. -/
def KeysApartEntries (R : Value → Value → Prop) : List (Yaml.Datum × Yaml.Datum) → Prop
  | [] => True
  | (_, d) :: entries => KeysApart R d ∧ KeysApartEntries R entries

end

/-! ## Texts of keys -/

section Texts

variable {v w : Value}

theorem keyText_of_asScalar?
    {s : Yaml.Scalar}
    (h : v.asScalar? = some s) :
    v.keyText = String.ofList (Render.plainScalar v) := by
  cases v with
  | bool b =>
      cases b <;> rfl
  | null | int n | float x =>
      rfl
  | str t | seq items | map entries =>
      cases h

theorem keyText_of_isContainer
    (h : v.isContainer = true) :
    v.keyText = Json.compactText v := by
  rw [keyText, (scalarText?_eq_none_iff v).2 h]

/-- Scalars that are no texts are told apart by their texts. -/
theorem eq_of_keyText_eq
    {s t : Yaml.Scalar}
    (hv : v.asScalar? = some s)
    (hw : w.asScalar? = some t)
    (h : v.keyText = w.keyText) :
    v = w := by
  rw [keyText_of_asScalar? hv, keyText_of_asScalar? hw] at h
  have hread := Yaml.Scalar.ofPlain?_plainScalar hv
  rw [String.ofList_injective h, Yaml.Scalar.ofPlain?_plainScalar hw] at hread
  rw [← ofScalar_of_asScalar? hv, ← ofScalar_of_asScalar? hw, Option.some.inj hread]

/-- The text of a container begins with its bracket. -/
theorem head?_compact_of_isContainer
    (h : v.isContainer = true) :
    (Json.compact v).head?.any Json.isOpening = true := by
  cases v with
  | seq items | map entries =>
      rw [Json.compact.eq_def]
      rfl
  | null | bool b | int n | float x | str t =>
      cases h

/-- The text of another scalar than a text does not begin with a bracket. -/
theorem head?_plainScalar
    {s : Yaml.Scalar}
    (h : v.asScalar? = some s) :
    (Render.plainScalar v).head?.any Json.isOpening = false := by
  rcases Render.plainScalar_cases h with hword | hnumber
  · have hall : ∀ word ∈ Render.scalarWords, word.head?.any Json.isOpening = false := by decide
    exact hall _ hword
  · obtain ⟨c, cs, htext⟩ := List.exists_cons_of_ne_nil hnumber.ne_nil
    have hc := hnumber.isNumeral c (htext ▸ List.mem_cons_self)
    rw [htext, List.head?_cons, Option.any_some]
    simp only [Json.isOpening, Bool.or_eq_false_iff, beq_eq_false_iff_ne]
    refine ⟨⟨?_, ?_⟩, ?_⟩ <;> (rintro rfl; cases hc)

theorem keyText_ne_of_isContainer
    {s : Yaml.Scalar}
    (hv : v.asScalar? = some s)
    (hw : w.isContainer = true) :
    v.keyText ≠ w.keyText := by
  intro h
  rw [keyText_of_asScalar? hv, keyText_of_isContainer hw] at h
  have hhead := head?_plainScalar hv
  rw [String.ofList_injective h, head?_compact_of_isContainer hw] at hhead
  cases hhead

/-- A value is a text, another scalar or a container. -/
theorem exists_str_or_asScalar?_or_isContainer
    (v : Value) :
    (∃ a, v = .str a) ∨ (∃ s, v.asScalar? = some s) ∨ v.isContainer = true := by
  cases v with
  | str a =>
      exact .inl ⟨a, rfl⟩
  | null | bool b | int n | float x =>
      exact .inr (.inl ⟨_, rfl⟩)
  | seq items | map entries =>
      exact .inr (.inr rfl)

/-- Two values have the same text as keys exactly if they clash. -/
theorem keyText_eq_iff
    (v w : Value) :
    v.keyText = w.keyText ↔ v.KeysClash w := by
  constructor
  · intro h
    rcases exists_str_or_asScalar?_or_isContainer v with ⟨a, rfl⟩ | ⟨s, hv⟩ | hv
    · exact .inr (.inl (congrArg Value.str h))
    · rcases exists_str_or_asScalar?_or_isContainer w with ⟨b, rfl⟩ | ⟨t, hw⟩ | hw
      · exact .inr (.inr (.inl (congrArg Value.str h.symm)))
      · exact .inl (eq_of_keyText_eq hv hw h)
      · exact absurd h (keyText_ne_of_isContainer hv hw)
    · rcases exists_str_or_asScalar?_or_isContainer w with ⟨b, rfl⟩ | ⟨t, hw⟩ | hw
      · exact .inr (.inr (.inl (congrArg Value.str h.symm)))
      · exact absurd h.symm (keyText_ne_of_isContainer hw hv)
      · rw [keyText_of_isContainer hv, keyText_of_isContainer hw, Json.compactText_eq_iff] at h
        exact .inr (.inr (.inr ⟨hv, hw, h⟩))
  · rintro (rfl | h | h | ⟨hv, hw, h⟩)
    · rfl
    · rw [h]
      rfl
    · rw [h]
      rfl
    · rw [keyText_of_isContainer hv, keyText_of_isContainer hw, Json.compactText_eq_iff]
      exact h

end Texts

/-! ## Entries -/

section Entries

variable {entries : List (Yaml.Datum × Yaml.Datum)}
variable {m : List (String × Value)}

theorem names_ofEntries
    (entries : List (Yaml.Datum × Yaml.Datum)) :
    Entries.names (ofEntries entries) = entries.map fun e => keyText (ofDatum e.1) := by
  induction entries with
  | nil =>
      rfl
  | cons e entries ih =>
      rw [ofEntries, Entries.names_cons, ih, List.map_cons]

theorem names_of_holdsAllEntries
    (h : HoldsAllEntries entries m) :
    Entries.names m = Entries.names (ofEntries entries) := by
  induction entries generalizing m with
  | nil =>
      cases m with
      | nil =>
          rfl
      | cons f m =>
          cases h
  | cons e entries ih =>
      cases m with
      | nil =>
          cases h
      | cons f m =>
          obtain ⟨hkey, -, hentries⟩ := h
          rw [ofEntries, Entries.names_cons, Entries.names_cons, ih hentries, hkey]

theorem distinct_ofEntries_iff
    (entries : List (Yaml.Datum × Yaml.Datum)) :
    Entries.Distinct (ofEntries entries) ↔
      entries.Pairwise fun e f => ¬(ofDatum e.1).keyText = (ofDatum f.1).keyText := by
  rw [Entries.Distinct, names_ofEntries, List.nodup_iff_pairwise_ne, List.pairwise_map]

end Entries

/-! ## Data that is held -/

mutual

/-- The value of data holds all of it exactly if the texts of keys are distinct. -/
theorem holdsAll_iff_keyTexts
    (d : Yaml.Datum) :
    HoldsAll d (ofDatum d) ↔ KeysApart (fun v w => v.keyText = w.keyText) d := by
  match d with
  | .scalar s =>
      exact iff_of_true rfl True.intro
  | .seq items =>
      rw [ofDatum, HoldsAll, KeysApart]
      exact holdsAllItems_iff_keyTexts items
  | .map entries =>
      rw [ofDatum, HoldsAll, KeysApart, ← distinct_ofEntries_iff]
      constructor
      · intro h
        have hdistinct : Entries.Distinct (ofEntries entries) := by
          rw [Entries.Distinct, ← names_of_holdsAllEntries h]
          exact Entries.distinct_ofPairs _
        rw [Entries.ofPairs_eq_self hdistinct] at h
        exact ⟨hdistinct, (holdsAllEntries_iff_keyTexts entries).1 h⟩
      · rintro ⟨hdistinct, h⟩
        rw [Entries.ofPairs_eq_self hdistinct]
        exact (holdsAllEntries_iff_keyTexts entries).2 h
  | .tagged _ content =>
      rw [ofDatum, HoldsAll, KeysApart]
      exact holdsAll_iff_keyTexts content

/-- Item by item. -/
theorem holdsAllItems_iff_keyTexts
    (items : List Yaml.Datum) :
    HoldsAllItems items (ofItems items) ↔
      KeysApartItems (fun v w => v.keyText = w.keyText) items := by
  match items with
  | [] =>
      exact iff_of_true True.intro True.intro
  | d :: ds =>
      exact and_congr (holdsAll_iff_keyTexts d) (holdsAllItems_iff_keyTexts ds)

/-- Entry by entry. -/
theorem holdsAllEntries_iff_keyTexts
    (entries : List (Yaml.Datum × Yaml.Datum)) :
    HoldsAllEntries entries (ofEntries entries) ↔
      KeysApartEntries (fun v w => v.keyText = w.keyText) entries := by
  match entries with
  | [] =>
      exact iff_of_true True.intro True.intro
  | (k, d) :: entries =>
      exact (and_iff_right rfl).trans
        (and_congr (holdsAll_iff_keyTexts d) (holdsAllEntries_iff_keyTexts entries))

end

/-- The value of data holds all of it exactly if no two keys of one mapping clash. -/
theorem holdsAll_ofDatum_iff
    (d : Yaml.Datum) :
    HoldsAll d (ofDatum d) ↔ KeysApart KeysClash d := by
  have hclash : (fun v w : Value => v.keyText = w.keyText) = KeysClash :=
    funext fun v => funext fun w => propext (keyText_eq_iff v w)
  rw [holdsAll_iff_keyTexts, hclash]

/-- A mapping whose keys are of all eight kinds. -/
def eightKinds : Yaml.Datum :=
  .map [(.scalar .null, .scalar (.int 1)), (.scalar (.bool true), .scalar (.int 2)),
    (.scalar (.int 3), .scalar (.int 3)),
    (.scalar (.float (.infinity false)), .scalar (.int 4)),
    (.scalar (.str "a"), .scalar (.int 5)), (.seq [.scalar .null], .scalar (.int 6)),
    (.map [(.scalar (.str "a"), .scalar .null)], .scalar (.int 7)),
    (.tagged "b" (.scalar (.str "c")), .scalar (.int 8))]

theorem holdsAll_ofDatum_eightKinds : HoldsAll eightKinds (ofDatum eightKinds) := by
  refine (holdsAll_ofDatum_iff eightKinds).2 ⟨?_, ?_⟩
  · decide +kernel
  · exact ⟨True.intro, True.intro, True.intro, True.intro, True.intro, True.intro, True.intro,
      True.intro, True.intro⟩

/-- A mapping with the number one and its text as keys. -/
def oneTwice : Yaml.Datum :=
  .map [(.scalar (.int 1), .scalar (.str "a")), (.scalar (.str "1"), .scalar (.str "b"))]

/-- The data is that mapping. -/
def isOneTwice : Yaml.Datum → Bool
  | .map [(.scalar k, .scalar v), (.scalar l, .scalar w)] =>
      k == .int 1 && v == .str "a" && l == .str "1" && w == .str "b"
  | _ => false

theorem eq_of_isOneTwice
    {d : Yaml.Datum}
    (h : isOneTwice d = true) :
    d = oneTwice := by
  rw [isOneTwice.eq_def] at h
  split at h
  · simp only [Bool.and_eq_true, beq_iff_eq] at h
    obtain ⟨⟨⟨rfl, rfl⟩, rfl⟩, rfl⟩ := h
    rfl
  · cases h

/-- The reader takes the two keys for different ones, and one entry is lost. -/
theorem not_holdsAll_ofDatum_oneTwice :
    Yaml.read? "1: a\n\"1\": b\n" = some oneTwice ∧ ¬HoldsAll oneTwice (ofDatum oneTwice) := by
  constructor
  · have hread : (Yaml.read? "1: a\n\"1\": b\n").any isOneTwice = true := by decide +kernel
    obtain ⟨d, hd, hone⟩ := (Option.any_eq_true _ _).1 hread
    rw [hd, eq_of_isOneTwice hone]
  · have hvalue : ofDatum oneTwice = .map [("1", .str "b")] := by decide +kernel
    rw [hvalue]
    exact fun h => h.2.2

end Value

end Dashboard

import Dashboard.Proofs.Value.Shape
import Dashboard.Yaml.Reader

/-!
# Keys of the data of a document

Reading refuses a mapping with two equal keys, so the keys of the data it gives
are pairwise different.  Data with texts for keys and without tags stands for
one value; because the keys differ, turning such data into a value loses no
entry and changes no order.
-/

namespace Dashboard.Yaml

namespace Datum

mutual

/-- The keys of every mapping in the data are pairwise different. -/
def KeysApart : Datum → Prop
  | .scalar _ => True
  | .seq items => KeysApartItems items
  | .map entries =>
      entries.Pairwise (fun e f => same f.1 e.1 = false) ∧ KeysApartEntries entries
  | .tagged _ content => KeysApart content

/-- Item by item. -/
def KeysApartItems : List Datum → Prop
  | [] => True
  | d :: ds => KeysApart d ∧ KeysApartItems ds

/-- Of the values, entry by entry. -/
def KeysApartEntries : List (Datum × Datum) → Prop
  | [] => True
  | (_, d) :: m => KeysApart d ∧ KeysApartEntries m

end

theorem keysApartItems_iff {ds : List Datum} :
    KeysApartItems ds ↔ ∀ d ∈ ds, d.KeysApart := by
  induction ds with
  | nil =>
      simp [KeysApartItems]
  | cons d ds ih =>
      simp [KeysApartItems, ih]

theorem keysApartEntries_append {m n : List (Datum × Datum)} :
    KeysApartEntries (m ++ n) ↔ KeysApartEntries m ∧ KeysApartEntries n := by
  induction m with
  | nil =>
      simp [KeysApartEntries]
  | cons e m ih =>
      obtain ⟨k, d⟩ := e
      simp [KeysApartEntries, ih, and_assoc]

end Datum

namespace Node

section Reading

variable {α β : Type}

/-- Whatever a reading gives has a property. -/
def Yields (P : α → Prop) (r : Reading α) : Prop :=
  ∀ budget a left, r budget = some (a, left) → P a

theorem yields_pure {P : α → Prop} {a : α} (h : P a) : Yields P (pure a : Reading α) := by
  intro budget b left hb
  have hread : (pure a : Reading α) budget = some (a, budget) := rfl
  rw [hread, Option.some.injEq, Prod.mk.injEq] at hb
  exact hb.1 ▸ h

theorem yields_failure {P : α → Prop} : Yields P (failure : Reading α) := by
  intro budget a left h
  simp [failure, StateT.failure] at h

theorem Yields.bind {P : α → Prop} {Q : β → Prop} {r : Reading α} {f : α → Reading β}
    (hr : Yields P r) (hf : ∀ a, P a → Yields Q (f a)) : Yields Q (r >>= f) := by
  intro budget b left h
  simp only [Bind.bind, StateT.bind, Option.bind_eq_some_iff] at h
  obtain ⟨⟨a, spent⟩, ha, hb⟩ := h
  exact hf a (hr budget a spent ha) spent b left hb

theorem Yields.map {P : α → Prop} {Q : β → Prop} {r : Reading α} {f : α → β}
    (hr : Yields P r) (hf : ∀ a, P a → Q (f a)) : Yields Q (f <$> r) :=
  hr.bind fun a ha => yields_pure (hf a ha)

/-- A reading of any kind gives something. -/
theorem yields_true (r : Reading α) : Yields (fun _ => True) r :=
  fun _ _ _ _ => trivial

theorem yields_mapM {P : β → Prop} {f : α → Reading β} (hf : ∀ a, Yields P (f a))
    (xs : List α) : Yields (fun ys => ∀ y ∈ ys, P y) (xs.mapM f) := by
  induction xs with
  | nil =>
      rw [List.mapM_nil]
      exact yields_pure (by simp)
  | cons x xs ih =>
      rw [List.mapM_cons]
      refine (hf x).bind fun y hy => ih.bind fun ys hys => yields_pure ?_
      simpa using ⟨hy, hys⟩

theorem yields_foldlM {P : β → Prop} {f : β → α → Reading β}
    (hf : ∀ b a, P b → Yields P (f b a)) (xs : List α) {b : β} (hb : P b) :
    Yields P (xs.foldlM f b) := by
  induction xs generalizing b with
  | nil =>
      exact yields_pure hb
  | cons x xs ih =>
      rw [List.foldlM_cons]
      exact (hf b x hb).bind fun c hc => ih hc

end Reading

/-- Reading an entry keeps the keys apart, as a key that is there is refused. -/
theorem yields_addEntry {key value : Node → Reading Datum}
    (hvalue : ∀ n, Yields Datum.KeysApart (value n)) (done : List (Datum × Datum))
    (e : Node × Node) (hdone : (Datum.map done).KeysApart) :
    Yields (fun m => (Datum.map m).KeysApart) (addEntry key value done e) := by
  refine (yields_true (key e.1)).bind fun k _ => ?_
  by_cases hk : Datum.hasKey done k = true
  · simp only [hk, if_true]
    exact yields_failure.bind fun _ (h : False) => h.elim
  · simp only [hk, Bool.false_eq_true, if_false]
    refine (hvalue e.2).bind fun v hv => yields_pure ?_
    rw [Datum.KeysApart] at hdone ⊢
    have hnew : ∀ f ∈ done, Datum.same k f.1 = false := by
      intro f hf
      have hnot : ¬ ∃ f ∈ done, Datum.same k f.1 = true := by
        simpa [Datum.hasKey] using hk
      simpa using fun hsame => hnot ⟨f, hf, hsame⟩
    constructor
    · rw [List.pairwise_append]
      refine ⟨hdone.1, by simp, ?_⟩
      intro f hf g hg
      have hg : g = (k, v) := by simpa using hg
      subst hg
      exact hnew f hf
    · rw [Datum.keysApartEntries_append]
      exact ⟨hdone.2, by simpa [Datum.KeysApartEntries] using hv⟩

theorem keysApart_withTag {tag : Option String} {content : Datum} (h : content.KeysApart) :
    (withTag tag content).KeysApart := by
  cases tag with
  | none =>
      exact h
  | some t =>
      simpa [withTag, Datum.KeysApart] using h

theorem yields_content {child : Option (Bool → Node → Reading Datum)}
    (hchild : ∀ read ∈ child, ∀ inTag n, Yields Datum.KeysApart (read inTag n)) (inTag : Bool)
    (n : Node) : Yields Datum.KeysApart (content child inTag n) := by
  cases n with
  | «alias» a =>
      exact yields_failure
  | scalar p text plain =>
      rw [content]
      split
      · exact yields_pure (by simp [Datum.KeysApart])
      · exact yields_failure
  | seq p items =>
      cases child with
      | none =>
          exact yields_failure
      | some read =>
          refine (yields_mapM (hchild read rfl false) items).map fun ds hds => ?_
          rw [Datum.KeysApart, Datum.keysApartItems_iff]
          exact hds
  | map p entries =>
      cases child with
      | none =>
          exact yields_failure
      | some read =>
          refine Yields.map (P := fun m => (Datum.map m).KeysApart) ?_ fun m hm => hm
          refine yields_foldlM (fun done e hdone => ?_) entries ?_
          · exact yields_addEntry (hchild read rfl false) done e hdone
          · simp [Datum.KeysApart, Datum.KeysApartEntries]

theorem yields_datumWith {child : Option (Bool → Node → Reading Datum)}
    (hchild : ∀ read ∈ child, ∀ inTag n, Yields Datum.KeysApart (read inTag n))
    (ctx : Context) (inTag : Bool) (n : Node) :
    Yields Datum.KeysApart (datumWith ctx child inTag n) := by
  refine (yields_true (resolve ctx inTag n)).bind fun p _ => ?_
  exact (yields_content hchild _ p.2).map fun _ => keysApart_withTag

/-- The data of a node has no equal keys, however deep it may be nested. -/
theorem yields_datum (ctx : Context) (depth : Nat) (inTag : Bool) (n : Node) :
    Yields Datum.KeysApart (datum ctx depth inTag n) := by
  induction depth generalizing inTag n with
  | zero =>
      exact yields_datumWith (by simp) ctx inTag n
  | succ depth ih =>
      refine yields_datumWith ?_ ctx inTag n
      intro read hread
      cases hread
      exact ih

theorem keysApart_of_datum? {n : Node} {d : Datum} (h : n.datum? = some d) : d.KeysApart := by
  obtain ⟨⟨d', left⟩, hd, rfl⟩ := Option.map_eq_some_iff.1 h
  exact yields_datum _ _ _ _ _ _ _ hd

end Node

/-- No mapping that was read has two equal keys. -/
theorem keysApart_of_readChars? {cs : List Char} {d : Datum} (h : readChars? cs = some d) :
    d.KeysApart := by
  simp only [readChars?, Option.bind_eq_bind, Option.bind_eq_some_iff] at h
  obtain ⟨n?, -, hd⟩ := h
  cases n? with
  | none =>
      cases hd
      simp [Datum.KeysApart]
  | some n =>
      exact Node.keysApart_of_datum? hd

namespace Datum

mutual

/-- The value of data that has texts for keys and no tags, as it stands there:
entry by entry, with nothing merged. -/
def tree? : Datum → Option Value
  | .scalar s => some (Value.ofScalar s)
  | .seq items => (treeItems? items).map .seq
  | .map entries => (treeEntries? entries).map .map
  | .tagged .. => none

/-- Item by item. -/
def treeItems? : List Datum → Option (List Value)
  | [] => some []
  | d :: ds => do return (← tree? d) :: (← treeItems? ds)

/-- Entry by entry. -/
def treeEntries? : List (Datum × Datum) → Option (List (String × Value))
  | [] => some []
  | (.scalar (.str k), d) :: m => do return (k, ← tree? d) :: (← treeEntries? m)
  | _ => none

end

/-- A first entry that stands for something has a text for a key. -/
theorem treeEntries?_cons_eq_some {e : Datum × Datum} {m : List (Datum × Datum)}
    {es : List (String × Value)} (h : treeEntries? (e :: m) = some es) :
    ∃ k v rest, e.1 = .scalar (.str k) ∧ tree? e.2 = some v ∧ treeEntries? m = some rest ∧
      es = (k, v) :: rest := by
  obtain ⟨key, d⟩ := e
  cases key with
  | scalar s =>
      cases s with
      | str k =>
          simp only [treeEntries?, Option.pure_def, Option.bind_eq_bind,
            Option.bind_eq_some_iff, Option.some.injEq] at h
          obtain ⟨v, hv, rest, hrest, rfl⟩ := h
          exact ⟨k, v, rest, rfl, hv, hrest, rfl⟩
      | _ => simp [treeEntries?] at h
  | _ => simp [treeEntries?] at h

/-- The names of the entries are the texts of the keys. -/
theorem mem_of_mem_names_treeEntries? {m : List (Datum × Datum)} {es : List (String × Value)}
    (h : treeEntries? m = some es) {k : String} (hk : k ∈ Entries.names es) :
    ∃ e ∈ m, e.1 = .scalar (.str k) := by
  induction m generalizing es with
  | nil =>
      cases h
      simp at hk
  | cons e m ih =>
      obtain ⟨l, v, rest, hl, -, hrest, rfl⟩ := treeEntries?_cons_eq_some h
      rcases List.mem_cons.1 hk with rfl | hk
      · exact ⟨e, List.mem_cons_self, hl⟩
      · obtain ⟨f, hf, hkey⟩ := ih hrest hk
        exact ⟨f, List.mem_cons_of_mem e hf, hkey⟩

theorem distinct_treeEntries? {m : List (Datum × Datum)} {es : List (String × Value)}
    (h : treeEntries? m = some es) (hapart : m.Pairwise fun e f => same f.1 e.1 = false) :
    Entries.Distinct es := by
  induction m generalizing es with
  | nil =>
      cases h
      exact Entries.distinct_nil
  | cons e m ih =>
      obtain ⟨k, v, rest, hk, -, hrest, rfl⟩ := treeEntries?_cons_eq_some h
      obtain ⟨hfirst, hothers⟩ := List.pairwise_cons.1 hapart
      refine Entries.distinct_cons.2 ⟨fun hmem => ?_, ih hrest hothers⟩
      obtain ⟨f, hf, hkey⟩ := mem_of_mem_names_treeEntries? hrest hmem
      have hsame := hfirst f hf
      rw [hkey, hk] at hsame
      simp [same, sameScalar] at hsame

mutual

/-- Turning data with different keys into a value loses and changes nothing. -/
theorem ofDatum_eq_of_tree? (d : Datum) {v : Value} (h : tree? d = some v)
    (hapart : d.KeysApart) : Value.ofDatum d = v := by
  match d with
  | .scalar s =>
      cases h
      rfl
  | .seq items =>
      rw [KeysApart] at hapart
      obtain ⟨vs, hvs, rfl⟩ := Option.map_eq_some_iff.1 h
      rw [Value.ofDatum, ofItems_eq_of_treeItems? items hvs hapart]
  | .map entries =>
      rw [KeysApart] at hapart
      obtain ⟨es, hes, rfl⟩ := Option.map_eq_some_iff.1 h
      rw [Value.ofDatum, ofEntries_eq_of_treeEntries? entries hes hapart.2,
        Entries.ofPairs_eq_self (distinct_treeEntries? hes hapart.1)]
  | .tagged tag content =>
      simp [tree?] at h

theorem ofItems_eq_of_treeItems? (ds : List Datum) {vs : List Value}
    (h : treeItems? ds = some vs) (hapart : KeysApartItems ds) : Value.ofItems ds = vs := by
  match ds with
  | [] =>
      cases h
      rfl
  | d :: ds =>
      rw [KeysApartItems] at hapart
      simp only [treeItems?, Option.pure_def, Option.bind_eq_bind, Option.bind_eq_some_iff,
        Option.some.injEq] at h
      obtain ⟨v, hv, rest, hrest, rfl⟩ := h
      rw [Value.ofItems, ofDatum_eq_of_tree? d hv hapart.1,
        ofItems_eq_of_treeItems? ds hrest hapart.2]

theorem ofEntries_eq_of_treeEntries? (m : List (Datum × Datum)) {es : List (String × Value)}
    (h : treeEntries? m = some es) (hapart : KeysApartEntries m) :
    Value.ofEntries m = es := by
  match m with
  | [] =>
      cases h
      rfl
  | (key, d) :: m =>
      rw [KeysApartEntries] at hapart
      obtain ⟨k, v, rest, hk, hv, hrest, rfl⟩ := treeEntries?_cons_eq_some h
      have hk : key = .scalar (.str k) := hk
      rw [Value.ofEntries, ofDatum_eq_of_tree? d hv hapart.1,
        ofEntries_eq_of_treeEntries? m hrest hapart.2, hk]
      rfl

end

end Datum

/-- The tree of a text that has texts for keys and no tags. -/
def tree? (text : String) : Option Value :=
  (read? text).bind Datum.tree?

/-- A text with a tree is read as that very tree. -/
theorem ofYaml?_of_tree? {text : String} {v : Value} (h : tree? text = some v) :
    Value.ofYaml? text = some v := by
  obtain ⟨d, hread, htree⟩ := Option.bind_eq_some_iff.1 h
  rw [Value.ofYaml?, hread, Option.map_some,
    d.ofDatum_eq_of_tree? htree (keysApart_of_readChars? hread)]

end Dashboard.Yaml

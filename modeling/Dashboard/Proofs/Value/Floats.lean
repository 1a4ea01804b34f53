import Dashboard.Proofs.Value.Shape

/-!
# The numbers of double precision in values

JSON has no text for infinity and for what is not a number.  Written there, both
are null, and a value stays what it is exactly if all its numbers are finite.
-/

namespace Dashboard.Value

mutual

/-- Every number of double precision in the value has a property. -/
def AllFloats (P : Double → Prop) : Value → Prop
  | .float x => P x
  | .seq items => AllFloatsItems P items
  | .map entries => AllFloatsEntries P entries
  | _ => True

/-- Item by item. -/
def AllFloatsItems (P : Double → Prop) : List Value → Prop
  | [] => True
  | v :: vs => AllFloats P v ∧ AllFloatsItems P vs

/-- Entry by entry. -/
def AllFloatsEntries (P : Double → Prop) : List (String × Value) → Prop
  | [] => True
  | (_, v) :: m => AllFloats P v ∧ AllFloatsEntries P m

end

mutual

/-- The value as it is in JSON: a number that is not finite is null. -/
def inJson : Value → Value
  | .float x => if x.isFinite then .float x else .null
  | .seq items => .seq (inJsonItems items)
  | .map entries => .map (inJsonEntries entries)
  | v => v

/-- Item by item. -/
def inJsonItems : List Value → List Value
  | [] => []
  | v :: vs => inJson v :: inJsonItems vs

/-- Entry by entry. -/
def inJsonEntries : List (String × Value) → List (String × Value)
  | [] => []
  | (k, v) :: m => (k, inJson v) :: inJsonEntries m

end

/-- All numbers of double precision in the value are finite. -/
def FloatsFinite (v : Value) : Prop :=
  v.AllFloats fun x => x.isFinite = true

/-! ## Statements about members -/

section Members

variable {P : Double → Prop}

theorem allFloatsItems_iff {vs : List Value} :
    AllFloatsItems P vs ↔ ∀ v ∈ vs, v.AllFloats P := by
  induction vs with
  | nil =>
      simp [AllFloatsItems]
  | cons v vs ih =>
      simp [AllFloatsItems, ih]

theorem allFloatsEntries_iff {m : List (String × Value)} :
    AllFloatsEntries P m ↔ ∀ e ∈ m, e.2.AllFloats P := by
  induction m with
  | nil =>
      simp [AllFloatsEntries]
  | cons e m ih =>
      obtain ⟨k, v⟩ := e
      simp [AllFloatsEntries, ih]

theorem allFloats_seq {vs : List Value} :
    (Value.seq vs).AllFloats P ↔ ∀ v ∈ vs, v.AllFloats P := by
  rw [AllFloats, allFloatsItems_iff]

theorem allFloats_map {m : List (String × Value)} :
    (Value.map m).AllFloats P ↔ ∀ e ∈ m, e.2.AllFloats P := by
  rw [AllFloats, allFloatsEntries_iff]

end Members

/-! ## Weaker properties -/

section Weaker

variable {P Q : Double → Prop}

mutual

theorem AllFloats.imp
    (hPQ : ∀ x, P x → Q x)
    (v : Value)
    (h : v.AllFloats P) :
    v.AllFloats Q := by
  match v with
  | .float x =>
      exact hPQ x h
  | .seq items =>
      exact AllFloatsItems.imp hPQ items h
  | .map entries =>
      exact AllFloatsEntries.imp hPQ entries h
  | .null | .bool _ | .int _ | .str _ =>
      exact True.intro

theorem AllFloatsItems.imp
    (hPQ : ∀ x, P x → Q x)
    (vs : List Value)
    (h : AllFloatsItems P vs) :
    AllFloatsItems Q vs := by
  match vs with
  | [] =>
      exact True.intro
  | v :: vs =>
      exact ⟨AllFloats.imp hPQ v h.1, AllFloatsItems.imp hPQ vs h.2⟩

theorem AllFloatsEntries.imp
    (hPQ : ∀ x, P x → Q x)
    (m : List (String × Value))
    (h : AllFloatsEntries P m) :
    AllFloatsEntries Q m := by
  match m with
  | [] =>
      exact True.intro
  | (_, v) :: m =>
      exact ⟨AllFloats.imp hPQ v h.1, AllFloatsEntries.imp hPQ m h.2⟩

end

end Weaker

/-! ## Values in JSON -/

theorem inJsonItems_eq_map (vs : List Value) : inJsonItems vs = vs.map inJson := by
  induction vs with
  | nil =>
      rfl
  | cons v vs ih =>
      exact congrArg (v.inJson :: ·) ih

theorem names_inJsonEntries (m : List (String × Value)) :
    Entries.names (inJsonEntries m) = Entries.names m := by
  induction m with
  | nil =>
      rfl
  | cons e m ih =>
      exact congrArg (e.1 :: ·) ih

mutual

/-- A value stays what it is exactly if all its numbers are finite. -/
theorem inJson_eq_self_iff (v : Value) : v.inJson = v ↔ v.FloatsFinite := by
  match v with
  | .float x =>
      rw [inJson, FloatsFinite, AllFloats]
      split <;> simp_all
  | .seq items =>
      rw [inJson, Value.seq.injEq]
      exact inJsonItems_eq_self_iff items
  | .map entries =>
      rw [inJson, Value.map.injEq]
      exact inJsonEntries_eq_self_iff entries
  | .null | .bool _ | .int _ | .str _ =>
      exact iff_of_true rfl True.intro

theorem inJsonItems_eq_self_iff (vs : List Value) :
    inJsonItems vs = vs ↔ AllFloatsItems (fun x => x.isFinite = true) vs := by
  match vs with
  | [] =>
      exact iff_of_true rfl True.intro
  | v :: vs =>
      rw [inJsonItems, List.cons.injEq, AllFloatsItems]
      exact and_congr (inJson_eq_self_iff v) (inJsonItems_eq_self_iff vs)

theorem inJsonEntries_eq_self_iff (m : List (String × Value)) :
    inJsonEntries m = m ↔ AllFloatsEntries (fun x => x.isFinite = true) m := by
  match m with
  | [] =>
      exact iff_of_true rfl True.intro
  | (k, v) :: m =>
      rw [inJsonEntries, List.cons.injEq, Prod.mk.injEq, AllFloatsEntries]
      exact and_congr ((and_iff_right rfl).trans (inJson_eq_self_iff v))
        (inJsonEntries_eq_self_iff m)

end

end Dashboard.Value

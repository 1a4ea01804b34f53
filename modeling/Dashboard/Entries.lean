/-!
# Entries: values under names, in insertion order

The mappings of configuration files and of JSON objects keep their entries in
the order of insertion, because that order is written back.  Looking up finds
the first entry of a name; putting a name that is there already changes its
value in place, and a new name goes to the end; taking an entry out keeps the
order of the others.
-/

namespace Dashboard

/-- Values under names, in insertion order. -/
abbrev Entries (α : Type) := List (String × α)

namespace Entries

variable {α : Type}

/-- The names in order. -/
def names (m : Entries α) : List String :=
  m.map Prod.fst

/-- The value of the first entry of that name. -/
def get? : Entries α → String → Option α
  | [], _ => none
  | (k, v) :: m, name => if k = name then some v else get? m name

/-- An entry of that name exists. -/
def has (m : Entries α) (name : String) : Bool :=
  (get? m name).isSome

/-- Set the value of a name, in place if it is there and at the end if not. -/
def put : Entries α → String → α → Entries α
  | [], name, value => [(name, value)]
  | (k, v) :: m, name, value =>
    if k = name then (k, value) :: m else (k, v) :: put m name value

/-- The entries without the first one of that name. -/
def erase : Entries α → String → Entries α
  | [], _ => []
  | (k, v) :: m, name => if k = name then m else (k, v) :: erase m name

/-- Entries built from pairs in order; a later pair of a name changes the value
of the earlier one in place. -/
def ofPairs (pairs : List (String × α)) : Entries α :=
  pairs.foldl (fun m p => put m p.1 p.2) []

/-- No two entries have the same name. -/
def Distinct (m : Entries α) : Prop :=
  (names m).Nodup

theorem get?_eq_none_iff (m : Entries α) (name : String) :
    get? m name = none ↔ name ∉ names m := by
  induction m with
  | nil => simp [get?, names]
  | cons p m ih =>
    obtain ⟨k, v⟩ := p
    by_cases h : k = name
    · simp [get?, names, h]
    · simp only [get?, h, if_false, ih, names, List.map_cons, List.mem_cons, not_or]
      exact ⟨fun hm => ⟨fun hn => h hn.symm, hm⟩, fun hm => hm.2⟩

/-- A new name goes to the end. -/
theorem put_of_get?_none {m : Entries α} {name : String} (h : get? m name = none) (v : α) :
    put m name v = m ++ [(name, v)] := by
  induction m with
  | nil => rfl
  | cons p m ih =>
    obtain ⟨k, w⟩ := p
    by_cases hk : k = name
    · simp [get?, hk] at h
    · simp only [get?, hk, if_false] at h
      simp [put, hk, ih h]

/-- What was put is found. -/
theorem get?_put_self (m : Entries α) (name : String) (v : α) :
    get? (put m name v) name = some v := by
  induction m with
  | nil => simp [put, get?]
  | cons p m ih =>
    obtain ⟨k, w⟩ := p
    by_cases hk : k = name
    · simp [put, get?, hk]
    · simp [put, get?, hk, ih]

/-- Other names are not touched by putting one. -/
theorem get?_put_of_ne (m : Entries α) {name other : String} (h : other ≠ name) (v : α) :
    get? (put m name v) other = get? m other := by
  induction m with
  | nil => simp [put, get?, Ne.symm h]
  | cons p m ih =>
    obtain ⟨k, w⟩ := p
    by_cases hk : k = name
    · subst hk
      simp [put, get?, Ne.symm h]
    · simp [put, get?, hk, ih]

/-- Erasing a name that is not there changes nothing. -/
theorem erase_of_get?_none {m : Entries α} {name : String} (h : get? m name = none) :
    erase m name = m := by
  induction m with
  | nil => rfl
  | cons p m ih =>
    obtain ⟨k, w⟩ := p
    by_cases hk : k = name
    · simp [get?, hk] at h
    · simp only [get?, hk, if_false] at h
      simp [erase, hk, ih h]

/-- The order of the entries that stay is kept. -/
theorem erase_sublist (m : Entries α) (name : String) : (erase m name).Sublist m := by
  induction m with
  | nil => exact List.Sublist.refl _
  | cons p m ih =>
    obtain ⟨k, w⟩ := p
    by_cases hk : k = name
    · simp [erase, hk]
    · simpa [erase, hk] using ih

end Entries

end Dashboard

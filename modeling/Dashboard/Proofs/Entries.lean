import Dashboard.Entries

/-!
# Entries without repeated names

The mappings of a configuration never hold two entries of one name.  This
module collects what the operations on entries do to such mappings: which
entries are found, that names stay distinct, and that putting entries with new
names one after the other only appends them.
-/

namespace Dashboard.Entries

variable {α : Type}

@[simp] theorem names_nil :
    names ([] : Entries α) = [] :=
  rfl

@[simp] theorem names_cons (p : String × α) (m : Entries α) :
    names (p :: m) = p.1 :: names m :=
  rfl

@[simp] theorem names_append (m n : Entries α) :
    names (m ++ n) = names m ++ names n := by
  simp [names]

theorem mem_names_of_mem {m : Entries α} {p : String × α} (h : p ∈ m) : p.1 ∈ names m :=
  List.mem_map_of_mem h

theorem distinct_nil : Distinct ([] : Entries α) :=
  List.nodup_nil

theorem distinct_cons {p : String × α} {m : Entries α} :
    Distinct (p :: m) ↔ p.1 ∉ names m ∧ Distinct m := by
  simp [Distinct]

/-- In distinct entries a name stands only once. -/
theorem Distinct.not_mem_left {m n : Entries α} {p : String × α} (h : Distinct (m ++ p :: n)) :
    p.1 ∉ names m := by
  rw [Distinct, names_append, List.nodup_append] at h
  exact fun hm => h.2.2 p.1 hm p.1 (mem_names_of_mem List.mem_cons_self) rfl

theorem Distinct.nodup {m : Entries α} (h : Distinct m) : m.Nodup :=
  List.Pairwise.of_map Prod.fst (fun _ _ hne he => hne (he ▸ rfl)) h

theorem Distinct.sublist {m n : Entries α} (h : Distinct n) (hs : m.Sublist n) :
    Distinct m :=
  List.Nodup.sublist (hs.map Prod.fst) h

/-! ## Finding -/

theorem mem_of_get? {m : Entries α} {name : String} {v : α}
    (h : get? m name = some v) : (name, v) ∈ m := by
  induction m with
  | nil =>
      simp [get?] at h
  | cons p m ih =>
      obtain ⟨k, w⟩ := p
      by_cases hk : k = name
      · subst hk
        have hw : w = v := by simpa [get?] using h
        simp [hw]
      · have hm : get? m name = some v := by simpa [get?, hk] using h
        exact List.mem_cons_of_mem _ (ih hm)

theorem get?_of_mem {m : Entries α} (hd : Distinct m) {name : String} {v : α}
    (h : (name, v) ∈ m) : get? m name = some v := by
  induction m with
  | nil =>
      simp at h
  | cons p m ih =>
      obtain ⟨k, w⟩ := p
      obtain ⟨hk, hd⟩ := distinct_cons.1 hd
      rcases List.mem_cons.1 h with he | hm
      · cases he
        simp [get?]
      · have hne : k ≠ name := by
          rintro rfl
          have hmem := mem_names_of_mem hm
          exact hk hmem
        simpa [get?, hne] using ih hd hm

theorem get?_append_of_none {m : Entries α} {name : String} (h : get? m name = none)
    (n : Entries α) : get? (m ++ n) name = get? n name := by
  induction m with
  | nil =>
      rfl
  | cons p m ih =>
      obtain ⟨k, w⟩ := p
      by_cases hk : k = name
      · simp [get?, hk] at h
      · have hm : get? m name = none := by simpa [get?, hk] using h
        simpa [get?, hk] using ih hm

theorem get?_map (m : Entries α) (f : String × α → α) (name : String) :
    get? (m.map fun e => (e.1, f e)) name = (get? m name).map fun v => f (name, v) := by
  induction m with
  | nil =>
      rfl
  | cons p m ih =>
      obtain ⟨k, v⟩ := p
      by_cases hk : k = name
      · simp [get?, hk]
      · simp [get?, hk, ih]

/-! ## Putting -/

theorem names_put (m : Entries α) (name : String) (v : α) :
    names (put m name v) = if name ∈ names m then names m else names m ++ [name] := by
  induction m with
  | nil =>
      simp [put]
  | cons p m ih =>
      obtain ⟨k, w⟩ := p
      by_cases hk : k = name
      · simp [put, hk]
      · have hne : name ≠ k := fun he => hk he.symm
        by_cases hm : name ∈ names m
        · simp [put, hk, ih, hm]
        · simp [put, hk, ih, hm, hne]

theorem Distinct.put {m : Entries α} (h : Distinct m) (name : String) (v : α) :
    Distinct (put m name v) := by
  by_cases hm : name ∈ names m
  · simpa [Distinct, names_put, hm] using h
  · have hnew : (names m ++ [name]).Nodup := by
      rw [List.nodup_append]
      refine ⟨h, by simp, ?_⟩
      intro a ha b hb
      have hb : b = name := by simpa using hb
      subst hb
      rintro rfl
      exact hm ha
    simpa [Distinct, names_put, hm] using hnew

/-- An entry after a put was there before or is the one that was put. -/
theorem mem_put {m : Entries α} {name : String} {v : α} {p : String × α}
    (h : p ∈ put m name v) : p ∈ m ∨ p = (name, v) := by
  induction m with
  | nil =>
      right
      simpa [Entries.put] using h
  | cons q m ih =>
      obtain ⟨k, w⟩ := q
      by_cases hk : k = name
      · rw [Entries.put, if_pos hk] at h
        rcases List.mem_cons.1 h with rfl | hm
        · exact Or.inr (by rw [hk])
        · exact Or.inl (List.mem_cons_of_mem _ hm)
      · rw [Entries.put, if_neg hk] at h
        rcases List.mem_cons.1 h with rfl | hm
        · exact Or.inl List.mem_cons_self
        · rcases ih hm with hm | rfl
          · exact Or.inl (List.mem_cons_of_mem _ hm)
          · exact Or.inr rfl

/-- An entry that is put back changes nothing. -/
theorem put_of_get? {m : Entries α} {name : String} {v : α} (h : get? m name = some v) :
    put m name v = m := by
  induction m with
  | nil =>
      cases h
  | cons e m ih =>
      obtain ⟨k, w⟩ := e
      rw [get?] at h
      rw [Entries.put]
      split at h
      · next hk =>
          cases h
          rw [if_pos hk]
      · next hk =>
          rw [if_neg hk, ih h]

/-- The last value put under a name is the one that stays. -/
theorem put_put (m : Entries α) (name : String) (v w : α) :
    put (put m name v) name w = put m name w := by
  induction m with
  | nil =>
      simp [Entries.put]
  | cons e m ih =>
      obtain ⟨k, u⟩ := e
      by_cases hk : k = name
      · simp [Entries.put, hk]
      · simp [Entries.put, hk, ih]

/-- Entries with new names are appended in their order. -/
theorem foldl_put_eq_append (m n : Entries α) (h : Distinct (m ++ n)) :
    n.foldl (fun m e => put m e.1 e.2) m = m ++ n := by
  induction n generalizing m with
  | nil =>
      simp
  | cons p n ih =>
      have hsplit : m ++ p :: n = m ++ [p] ++ n := by simp
      have hnew : p.1 ∉ names m := by
        intro hm
        have hnodup : (names m ++ p.1 :: names n).Nodup := by
          simpa [Distinct] using h
        exact (List.nodup_append.1 hnodup).2.2 _ hm _ List.mem_cons_self rfl
      have hput : put m p.1 p.2 = m ++ [p] :=
        put_of_get?_none ((get?_eq_none_iff m p.1).2 hnew) p.2
      rw [List.foldl_cons, hput, hsplit]
      exact ih (m ++ [p]) (hsplit ▸ h)

theorem ofPairs_eq_self {m : Entries α} (h : Distinct m) : ofPairs m = m :=
  foldl_put_eq_append [] m h

theorem distinct_foldl_put {m : Entries α} (h : Distinct m) (n : Entries α) :
    Distinct (n.foldl (fun m e => put m e.1 e.2) m) := by
  induction n generalizing m with
  | nil =>
      exact h
  | cons p n ih =>
      exact ih (h.put p.1 p.2)

theorem distinct_ofPairs (pairs : List (String × α)) : Distinct (ofPairs pairs) :=
  distinct_foldl_put distinct_nil pairs

theorem mem_foldl_put {m n : Entries α} {p : String × α}
    (h : p ∈ n.foldl (fun m e => put m e.1 e.2) m) : p ∈ m ∨ p ∈ n := by
  induction n generalizing m with
  | nil =>
      exact Or.inl h
  | cons q n ih =>
      rcases ih h with hm | hn
      · rcases mem_put hm with hm | rfl
        · exact Or.inl hm
        · exact Or.inr List.mem_cons_self
      · exact Or.inr (List.mem_cons_of_mem _ hn)

theorem mem_of_mem_ofPairs {pairs : List (String × α)} {p : String × α}
    (h : p ∈ ofPairs pairs) : p ∈ pairs := by
  rcases mem_foldl_put h with h | h
  · simp at h
  · exact h

/-! ## Erasing -/

theorem Distinct.erase {m : Entries α} (h : Distinct m) (name : String) :
    Distinct (erase m name) :=
  h.sublist (erase_sublist m name)

/-- With distinct names, erasing a name filters it out. -/
theorem erase_eq_filter {m : Entries α} (h : Distinct m) (name : String) :
    erase m name = m.filter fun e => e.1 != name := by
  induction m with
  | nil =>
      rfl
  | cons p m ih =>
      obtain ⟨k, v⟩ := p
      obtain ⟨hk, hd⟩ := distinct_cons.1 h
      by_cases hn : k = name
      · subst hn
        have hall : ∀ e ∈ m, (e.1 != k) = true := by
          intro e he
          have hmem := mem_names_of_mem he
          have hne : e.1 ≠ k := fun hek => hk (hek ▸ hmem)
          simpa using hne
        simp [Entries.erase, List.filter_eq_self.2 hall]
      · simp [Entries.erase, hn, ih hd]

/-- Two names are taken out together. -/
theorem erase_erase_eq_filter {m : Entries α} (h : Distinct m) (a b : String) :
    erase (erase m a) b = m.filter fun e => !([a, b].contains e.1) := by
  rw [erase_eq_filter (h.erase a), erase_eq_filter h, List.filter_filter]
  refine List.filter_congr fun e _ => ?_
  by_cases h1 : e.1 = a <;> by_cases h2 : e.1 = b <;> simp [h1, h2]

theorem not_mem_names_erase {m : Entries α} (h : Distinct m) (name : String) :
    name ∉ names (erase m name) := by
  rw [erase_eq_filter h]
  simp [names]

theorem get?_erase_of_ne (m : Entries α) {name other : String} (h : other ≠ name) :
    get? (erase m name) other = get? m other := by
  induction m with
  | nil =>
      rfl
  | cons p m ih =>
      obtain ⟨k, v⟩ := p
      by_cases hk : k = name
      · have hne : ¬ name = other := fun he => h he.symm
        simp [Entries.erase, get?, hk, hne]
      · by_cases ho : k = other
        · subst ho
          simp [Entries.erase, get?, hk]
        · simp [Entries.erase, get?, hk, ho, ih]

theorem erase_append_of_not_mem {m : Entries α} {name : String} (h : name ∉ names m)
    (n : Entries α) : erase (m ++ n) name = m ++ erase n name := by
  induction m with
  | nil =>
      rfl
  | cons p m ih =>
      obtain ⟨k, v⟩ := p
      have hk : ¬ k = name := fun he => h (by simp [he])
      have hm : name ∉ names m := fun hn => h (by simp [hn])
      simp [Entries.erase, hk, ih hm]

/-- A new entry is taken out again. -/
theorem erase_put_of_get?_none {m : Entries α} {name : String} (h : get? m name = none) (v : α) :
    erase (put m name v) name = m := by
  rw [put_of_get?_none h, erase_append_of_not_mem ((get?_eq_none_iff m name).1 h)]
  simp [Entries.erase]

theorem names_erase_subset (m : Entries α) (name : String) :
    names (erase m name) ⊆ names m :=
  fun _ hx => ((erase_sublist m name).map Prod.fst).subset hx

end Dashboard.Entries

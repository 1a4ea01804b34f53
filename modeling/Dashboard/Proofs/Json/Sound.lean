import Dashboard.Json.Reader
import Dashboard.Proofs.Except
import Dashboard.Proofs.Json.Number
import Dashboard.Proofs.Value.Floats

/-!
# Values that have been read

Whatever JSON text a value was read from, no mapping in it repeats a key, its
containers are nested no deeper than the reader goes, and its numbers of double
precision are finite.
-/

namespace Dashboard.Json

open Value

/-- What is true of every value that is read where containers may be opened to a
depth. -/
structure WellRead (depth : Nat) (v : Value) : Prop where
  keysDistinct : v.KeysDistinct
  depth_le : v.depth ≤ depth
  floatsFinite : v.FloatsFinite

section Values

variable {depth : Nat}
variable {v : Value}

theorem wellRead_of_isNumber
    (h : IsNumber v) :
    WellRead depth v := by
  cases v with
  | int n =>
      exact ⟨True.intro, Nat.zero_le depth, True.intro⟩
  | float x =>
      exact ⟨True.intro, Nat.zero_le depth, h⟩
  | null | bool b | str s | seq vs | map m =>
      cases h

theorem wellRead_seq
    {vs : List Value}
    (h : ∀ v ∈ vs, WellRead depth v) :
    WellRead (depth + 1) (.seq vs) where
  keysDistinct := keysDistinct_seq.2 fun v hv => (h v hv).keysDistinct
  depth_le := Nat.succ_le_succ (depthItems_le_iff.2 fun v hv => (h v hv).depth_le)
  floatsFinite := allFloats_seq.2 fun v hv => (h v hv).floatsFinite

/-- Of the entries of one key the last one counts, and the mapping has no others. -/
theorem wellRead_map
    {m : List (String × Value)}
    (h : ∀ e ∈ m, WellRead depth e.2) :
    WellRead (depth + 1) (.map (Entries.ofPairs m)) := by
  have hall : ∀ e ∈ Entries.ofPairs m, WellRead depth e.2 :=
    fun e he => h e (Entries.mem_of_mem_ofPairs he)
  exact ⟨keysDistinct_map.2 ⟨Entries.distinct_ofPairs m, fun e he => (hall e he).keysDistinct⟩,
    Nat.succ_le_succ (depthEntries_le_iff.2 fun e he => (hall e he).depth_le),
    allFloats_map.2 fun e he => (hall e he).floatsFinite⟩

theorem WellRead.of_seq
    {vs : List Value}
    (h : WellRead (depth + 1) (.seq vs)) :
    ∀ v ∈ vs, WellRead depth v := by
  have hdepth := depthItems_le_iff.1 (Nat.le_of_succ_le_succ h.depth_le)
  exact fun v hv => ⟨keysDistinct_seq.1 h.keysDistinct v hv, hdepth v hv,
    allFloats_seq.1 h.floatsFinite v hv⟩

theorem WellRead.of_map
    {m : List (String × Value)}
    (h : WellRead (depth + 1) (.map m)) :
    ∀ e ∈ m, WellRead depth e.2 := by
  have hdepth := depthEntries_le_iff.1 (Nat.le_of_succ_le_succ h.depth_le)
  exact fun e he => ⟨(keysDistinct_map.1 h.keysDistinct).2 e he, hdepth e he,
    allFloats_map.1 h.floatsFinite e he⟩

end Values

/-! ## Results of readers -/

section Results

variable {α β : Type}
variable {P : α → Prop}

/-- Whatever a reader gives has a property. -/
def Yields (P : α → Prop) (x : Except Failure (α × List Char)) : Prop :=
  ∀ a rest, x = .ok (a, rest) → P a

theorem yields_ok
    {a : α}
    (h : P a)
    (rest : List Char) :
    Yields P (.ok (a, rest)) := by
  intro a' rest' heq
  cases heq
  exact h

theorem yields_error
    (f : Failure) :
    Yields P (.error f) := by
  intro a rest heq
  cases heq

theorem yields_bind
    {x : Except Failure β}
    {f : β → Except Failure (α × List Char)}
    (h : ∀ b, x = .ok b → Yields P (f b)) :
    Yields P (x >>= f) := by
  intro a rest heq
  obtain ⟨b, hb, hf⟩ := bind_eq_ok.1 heq
  exact h b hb a rest hf

end Results

/-! ## Readers -/

section Steps

variable {steps : Nat}

/-- Item by item. -/
def AllRead (depth : Nat) (vs : List Value) : Prop :=
  ∀ v ∈ vs, WellRead depth v

/-- Entry by entry. -/
def AllReadIn (depth : Nat) (m : List (String × Value)) : Prop :=
  ∀ e ∈ m, WellRead depth e.2

theorem yields_readValue_succ
    (hitems : ∀ depth first cs, Yields (AllRead depth) (readItems steps depth first cs))
    (hentries : ∀ depth first cs, Yields (AllReadIn depth) (readEntries steps depth first cs))
    (depth : Nat)
    (cs : List Char) :
    Yields (WellRead depth) (readValue (steps + 1) depth cs) := by
  rw [readValue.eq_def]
  simp only
  split
  case h_1 =>
    exact yields_error _
  case h_2 =>
    exact yields_bind fun rest _ => yields_ok ⟨True.intro, Nat.zero_le depth, True.intro⟩ rest
  case h_3 =>
    exact yields_bind fun rest _ => yields_ok ⟨True.intro, Nat.zero_le depth, True.intro⟩ rest
  case h_4 =>
    exact yields_bind fun rest _ => yields_ok ⟨True.intro, Nat.zero_le depth, True.intro⟩ rest
  case h_5 =>
    exact yields_bind fun r _ => yields_ok ⟨True.intro, Nat.zero_le depth, True.intro⟩ r.2
  case h_6 =>
    exact fun v left h => wellRead_of_isNumber (readsNumber_readUnsigned true _ v left h).1
  case h_7 =>
    split
    · exact yields_error _
    · exact yields_bind fun r hr => yields_ok (wellRead_seq (hitems _ _ _ r.1 r.2 hr)) r.2
  case h_8 =>
    split
    · exact yields_error _
    · exact yields_bind fun r hr => yields_ok (wellRead_map (hentries _ _ _ r.1 r.2 hr)) r.2
  case h_9 =>
    split
    · exact fun v left h => wellRead_of_isNumber (readsNumber_readUnsigned false _ v left h).1
    · exact yields_error _

theorem yields_readItems_succ
    (hvalue : ∀ depth cs, Yields (WellRead depth) (readValue steps depth cs))
    (hitems : ∀ depth first cs, Yields (AllRead depth) (readItems steps depth first cs))
    (depth : Nat)
    (first : Bool)
    (cs : List Char) :
    Yields (AllRead depth) (readItems (steps + 1) depth first cs) := by
  have hcons : ∀ cs, Yields (AllRead depth) (readValue steps depth cs >>= fun r =>
      readItems steps depth false r.2 >>= fun q => .ok (r.1 :: q.1, q.2)) := fun cs =>
    yields_bind fun r hr => yields_bind fun q hq =>
      yields_ok (List.forall_mem_cons.2 ⟨hvalue _ _ _ _ hr, hitems _ _ _ _ _ hq⟩) q.2
  rw [readItems.eq_def]
  simp only
  split
  · exact yields_error _
  · exact yields_ok (by intro v hv; cases hv) _
  · split
    · exact hcons _
    · split
      · split
        · exact yields_error _
        · exact yields_error _
        · exact hcons _
      · exact yields_error _

theorem yields_readEntries_succ
    (hentry : ∀ depth cs, Yields (AllReadIn depth) (readEntry steps depth cs))
    (depth : Nat)
    (first : Bool)
    (cs : List Char) :
    Yields (AllReadIn depth) (readEntries (steps + 1) depth first cs) := by
  rw [readEntries.eq_def]
  simp only
  split
  · exact yields_error _
  · exact yields_ok (by intro v hv; cases hv) _
  · split
    · exact hentry _ _
    · split
      · split
        · exact yields_error _
        · exact yields_error _
        · exact hentry _ _
      · exact yields_error _

theorem yields_readEntry_succ
    (hvalue : ∀ depth cs, Yields (WellRead depth) (readValue steps depth cs))
    (hentries : ∀ depth first cs, Yields (AllReadIn depth) (readEntries steps depth first cs))
    (depth : Nat)
    (cs : List Char) :
    Yields (AllReadIn depth) (readEntry (steps + 1) depth cs) := by
  rw [readEntry.eq_def]
  simp only
  split
  · refine yields_bind fun k _ => ?_
    split
    · exact yields_error _
    · refine yields_bind fun r hr => yields_bind fun q hq => yields_ok ?_ q.2
      have hrest : ∀ e ∈ q.1, WellRead depth e.2 := hentries _ _ _ _ _ hq
      exact List.forall_mem_cons.2 ⟨hvalue _ _ _ _ hr, hrest⟩
    · exact yields_error _
  · exact yields_error _

end Steps

/-- The readers together, whatever the number of steps. -/
theorem yields_readers
    (steps : Nat) :
    (∀ depth cs, Yields (WellRead depth) (readValue steps depth cs)) ∧
      (∀ depth first cs, Yields (AllRead depth) (readItems steps depth first cs)) ∧
      (∀ depth first cs, Yields (AllReadIn depth) (readEntries steps depth first cs)) ∧
      ∀ depth cs, Yields (AllReadIn depth) (readEntry steps depth cs) := by
  induction steps with
  | zero =>
      refine ⟨fun depth cs => ?_, fun depth first cs => ?_, fun depth first cs => ?_,
        fun depth cs => ?_⟩
      · rw [readValue]
        exact yields_error _
      · rw [readItems]
        exact yields_error _
      · rw [readEntries]
        exact yields_error _
      · rw [readEntry]
        exact yields_error _
  | succ steps ih =>
      obtain ⟨hvalue, hitems, hentries, hentry⟩ := ih
      exact ⟨yields_readValue_succ hitems hentries, yields_readItems_succ hvalue hitems,
        yields_readEntries_succ hentry, yields_readEntry_succ hvalue hentries⟩

/-- What is read from a text has distinct keys, is nested no deeper than the reader
goes, and has only finite numbers. -/
theorem wellRead_of_read
    {text : String}
    {v : Value}
    (h : read text = .ok v) :
    WellRead maxDepth v := by
  rw [read, readChars] at h
  obtain ⟨⟨u, rest⟩, hread, h⟩ := bind_eq_ok.1 h
  simp only at h
  split at h
  · cases h
    exact (yields_readers _).1 _ _ _ _ hread
  · cases h

end Dashboard.Json

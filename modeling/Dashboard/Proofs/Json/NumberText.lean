import Dashboard.Json.Printer
import Dashboard.Json.Reader
import Dashboard.Proofs.Except
import Dashboard.Proofs.Json.Number
import Dashboard.Proofs.Yaml.Typing

/-!
# Numbers are read back

An integer is read back from its text.  A number of double precision is read back
in front of whatever ends a number, if it is read back from its text alone.
-/

namespace Dashboard.Json

open Double

variable {negative : Bool}
variable {digits : Nat}

/-! ## Integers -/

theorem le_ofDigitChars
    (ds : List Char)
    (n : Nat) :
    n ≤ Nat.ofDigitChars 10 ds n := by
  rw [Nat.ofDigitChars_eq_ofDigitChars_zero]
  have hone : 1 * n ≤ 10 ^ ds.length * n := Nat.mul_le_mul_right n (Nat.pow_pos (by decide))
  omega

theorem readWhole_append
    {ds rest : List Char}
    (hds : ∀ c ∈ ds, c.isDigit = true)
    (hrest : EndsNumber rest)
    (h : Nat.ofDigitChars 10 ds digits ≤ maxDigits) :
    readWhole negative digits (ds ++ rest) =
      .ok (ofInteger negative (Nat.ofDigitChars 10 ds digits), rest) := by
  induction ds generalizing digits with
  | nil =>
      cases rest with
      | nil =>
          rfl
      | cons c cs =>
          obtain ⟨hdigit, hpoint, hlower, hupper⟩ := hrest c cs rfl
          simp [readWhole, hdigit, hpoint, hlower, hupper]
  | cons c ds ih =>
      rw [List.forall_mem_cons] at hds
      rw [Nat.ofDigitChars_cons, Nat.mul_comm] at h ⊢
      have hnext : ¬maxDigits < digits * 10 + (c.toNat - '0'.toNat) :=
        Nat.not_lt_of_le (Nat.le_trans (le_ofDigitChars ds _) h)
      have hzero : '0'.toNat = 48 := rfl
      rw [hzero] at h hnext ⊢
      simp only [List.cons_append, readWhole, hds.1, ↓reduceIte, hnext]
      exact ih hds.2 h

/-- The digits of an integer are read as it. -/
theorem readUnsigned_toDigits
    {n : Nat}
    {rest : List Char}
    (h : n ≤ maxDigits)
    (hrest : EndsNumber rest) :
    readUnsigned negative (Nat.toDigits 10 n ++ rest) = .ok (ofInteger negative n, rest) := by
  have hds := Yaml.Scalar.isDigit_toDigits n
  have hvalue := Nat.ofDigitChars_ten_toDigits (n := n)
  have hzeros := Yaml.Scalar.toDigits_ne_zero_cons n
  cases hdigits : Nat.toDigits 10 n with
  | nil =>
      exact absurd hdigits Nat.toDigits_ne_nil
  | cons c cs =>
      rw [hdigits] at hds hvalue hzeros
      rw [List.forall_mem_cons] at hds
      have hfirst : 10 * 0 + (c.toNat - '0'.toNat) = c.toNat - 48 := Nat.zero_add _
      rw [Nat.ofDigitChars_cons, hfirst] at hvalue
      have hwhole : readWhole negative (c.toNat - 48) (cs ++ rest) =
          .ok (ofInteger negative n, rest) := by
        rw [← hvalue] at h ⊢
        exact readWhole_append hds.2 hrest h
      by_cases hzero : c = '0'
      · subst hzero
        cases cs with
        | nil =>
            cases rest with
            | nil =>
                exact hwhole
            | cons d ds =>
                simpa [readUnsigned, (hrest d ds rfl).1] using hwhole
        | cons d ds =>
            exact absurd rfl (hzeros d ds)
      · simpa [readUnsigned, hzero, hds.1] using hwhole

/-! ## Numbers among values -/

theorem skipBlanks_digit
    {c : Char}
    (h : c.isDigit = true)
    (cs : List Char) :
    skipBlanks (c :: cs) = c :: cs := by
  refine List.dropWhile_cons_of_neg fun hblank => ?_
  simp only [isBlank, Bool.or_eq_true, beq_iff_eq] at hblank
  rcases hblank with ((rfl | rfl) | rfl) | rfl <;> exact absurd h (by decide)

/-- A digit begins a number. -/
theorem readValue_digit
    {c : Char}
    {cs rest : List Char}
    (hskip : skipBlanks cs = c :: rest)
    (h : c.isDigit = true)
    (steps depth : Nat) :
    readValue (steps + 1) depth cs = readUnsigned false (c :: rest) := by
  rw [readValue.eq_def]
  simp only [hskip]
  split
  case h_1 heq =>
    cases heq
  case h_9 heq =>
    cases heq
    exact if_pos h
  all_goals
    next heq =>
      cases heq
      exact absurd h (by decide)

/-- A minus begins a number. -/
theorem readValue_minus
    {cs rest : List Char}
    (hskip : skipBlanks cs = '-' :: rest)
    (steps depth : Nat) :
    readValue (steps + 1) depth cs = readUnsigned true rest := by
  rw [readValue.eq_def]
  simp only [hskip]

/-- A number begins with a minus or a digit. -/
theorem exists_of_readValue_float
    {x : Double}
    {steps depth : Nat}
    {cs left : List Char}
    (h : readValue steps depth cs = .ok (.float x, left)) :
    (∃ rest, skipBlanks cs = '-' :: rest ∧ readUnsigned true rest = .ok (.float x, left)) ∨
      ∃ c rest, skipBlanks cs = c :: rest ∧ c.isDigit = true ∧
        readUnsigned false (c :: rest) = .ok (.float x, left) := by
  cases steps with
  | zero =>
      rw [readValue.eq_def] at h
      cases h
  | succ steps =>
      rw [readValue.eq_def] at h
      simp only at h
      split at h
      case h_1 =>
        cases h
      case h_6 rest heq =>
        exact .inl ⟨rest, heq, h⟩
      case h_7 | h_8 =>
        split at h
        · cases h
        · obtain ⟨r, -, heq⟩ := bind_eq_ok.1 h
          cases heq
      case h_9 c rest _ _ _ _ _ _ _ heq =>
        split at h
        · next hdigit => exact .inr ⟨c, rest, heq, hdigit, h⟩
        · cases h
      all_goals
        obtain ⟨r, -, heq⟩ := bind_eq_ok.1 h
        cases heq

theorem suffix_of_readValue_float
    {x : Double}
    {steps depth : Nat}
    {cs left : List Char}
    (h : readValue steps depth cs = .ok (.float x, left)) :
    left <:+ cs := by
  have hskip : skipBlanks cs <:+ cs := List.dropWhile_suffix _
  rcases exists_of_readValue_float h with ⟨rest, heq, hread⟩ | ⟨c, rest, heq, -, hread⟩
  · rw [heq] at hskip
    exact (readsNumber_readUnsigned true _ _ _ hread).2.1.trans
      ((List.suffix_cons _ _).trans hskip)
  · rw [heq] at hskip
    exact (readsNumber_readUnsigned false _ _ _ hread).2.1.trans hskip

/-- A text without blanks around it that is read as a number is read so in front of
whatever ends a number. -/
theorem readValue_append_of_float
    {x : Double}
    {steps depth : Nat}
    {cs : List Char}
    (hskip : skipBlanks cs = cs)
    (h : readValue steps depth cs = .ok (.float x, []))
    {rest : List Char}
    (hrest : EndsNumber rest)
    (steps' depth' : Nat) :
    readValue (steps' + 1) depth' (cs ++ rest) = .ok (.float x, rest) := by
  rcases exists_of_readValue_float h with ⟨cs', heq, hread⟩ | ⟨c, cs', heq, hdigit, hread⟩
  · obtain ⟨-, -, hgoes⟩ := readsNumber_readUnsigned true cs' _ _ hread
    rw [hskip] at heq
    rw [heq, List.cons_append, readValue_minus rfl]
    exact hgoes rest fun _ => hrest
  · obtain ⟨-, -, hgoes⟩ := readsNumber_readUnsigned false (c :: cs') _ _ hread
    rw [hskip] at heq
    rw [heq, List.cons_append, readValue_digit (skipBlanks_digit hdigit _) hdigit]
    exact hgoes rest fun _ => hrest

/-- An integer is read back from its text. -/
theorem readValue_intText
    (n : Int64)
    {rest : List Char}
    (hrest : EndsNumber rest)
    (steps depth : Nat) :
    readValue (steps + 1) depth (Value.intText n ++ rest) = .ok (.int n, rest) := by
  have hlow := n.le_toInt
  have hhigh := n.toInt_lt
  have hbound : n.toInt.natAbs ≤ maxDigits := by
    rw [maxDigits]
    omega
  rw [Value.intText]
  split
  · next hnegative =>
      have hvalue : ofInteger true n.toInt.natAbs = .int n := by
        have hn : -(n.toInt.natAbs : Int) = n.toInt := by omega
        rw [ofInteger, if_pos rfl, if_pos (by omega), hn, Int64.ofInt_toInt]
      rw [List.append_assoc, List.singleton_append, readValue_minus rfl,
        readUnsigned_toDigits hbound hrest, hvalue]
  · next hnonnegative =>
      have hvalue : ofInteger false n.toInt.natAbs = .int n := by
        have hn : (n.toInt.natAbs : Int) = n.toInt := by omega
        rw [ofInteger, if_neg (by decide), if_pos (by omega), hn, Int64.ofInt_toInt]
      obtain ⟨c, cs, hdigits⟩ :=
        List.exists_cons_of_ne_nil (Nat.toDigits_ne_nil (n := n.toInt.natAbs) (b := 10))
      have hdigit : c.isDigit = true :=
        Yaml.Scalar.isDigit_toDigits n.toInt.natAbs c (hdigits ▸ List.mem_cons_self)
      have hread := @readUnsigned_toDigits false _ _ hbound hrest
      rw [hvalue, hdigits] at hread
      rw [List.nil_append, hdigits, List.cons_append,
        readValue_digit (skipBlanks_digit hdigit _) hdigit]
      exact hread

/-! ## Numbers of double precision -/

/-- The number is read back from its text. -/
def ReadsBack (x : Double) : Prop :=
  read (compactText (.float x)) = .ok (.float x)

theorem readsBack_iff {x : Double} : ReadsBack x ↔ readChars (floatText x) = .ok (.float x) := by
  have htext : compactText (.float x) = String.ofList (floatText x) := rfl
  rw [ReadsBack, read, htext, String.toList_ofList]

/-- The characters of a decimal. -/
theorem mem_positionalText
    {ds : List Char}
    {e : Int}
    {c : Char}
    (h : c ∈ positionalText ds e) :
    c ∈ ds ∨ c = '0' ∨ c = '.' := by
  simp only [positionalText] at h
  split at h
  · simp only [List.mem_append, List.mem_replicate, List.mem_cons, List.not_mem_nil, or_false] at h
    rcases h with (h | ⟨-, rfl⟩) | rfl | rfl <;> simp_all
  · split at h
    · simp only [List.mem_append, List.mem_cons] at h
      rcases h with h | rfl | h
      · exact .inl (List.mem_of_mem_take h)
      · exact .inr (.inr rfl)
      · exact .inl (List.mem_of_mem_drop h)
    · simp only [List.mem_append, List.mem_replicate, List.mem_cons] at h
      rcases h with rfl | rfl | ⟨-, rfl⟩ | h <;> simp_all

theorem mem_scientificText
    {ds : List Char}
    {leading : Int}
    {c : Char}
    (h : c ∈ scientificText ds leading) :
    c ∈ ds ∨ c ∈ ['.', 'e', '-', '+'] ∨ c ∈ Nat.toDigits 10 leading.natAbs := by
  simp only [scientificText, List.mem_append, List.mem_cons] at h
  rcases h with (h | h) | rfl | h | h
  · exact .inl (List.mem_of_mem_take h)
  · split at h
    · cases h
    · rcases List.mem_cons.1 h with rfl | h
      · simp
      · exact .inl (List.mem_of_mem_drop h)
  · simp
  · split at h <;> simp [h]
  · exact .inr (.inr h)

theorem mem_decimalText
    {d : Decimal}
    {c : Char}
    (h : c ∈ decimalText jsonLayout d) :
    c.isDigit = true ∨ c ∈ ['.', 'e', '-', '+'] := by
  have hdigits : ∀ n, ∀ c ∈ Nat.toDigits 10 n, c.isDigit = true := Yaml.Scalar.isDigit_toDigits
  simp only [decimalText, jsonLayout] at h
  split at h
  · rcases mem_positionalText h with h | rfl | rfl
    · exact .inl (hdigits _ c h)
    · exact .inl rfl
    · simp
  · rcases mem_scientificText h with h | h | h
    · exact .inl (hdigits _ c h)
    · exact .inr h
    · exact .inl (hdigits _ c h)

/-- The characters of a number, or of the null in its place. -/
theorem mem_floatText
    {x : Double}
    {c : Char}
    (h : c ∈ floatText x) :
    c.isDigit = true ∨ c ∈ ['.', 'e', '-', '+'] ∨ c ∈ ['n', 'u', 'l', 'l'] := by
  cases x with
  | finite s m k hcanonical =>
      rcases List.mem_append.1 h with h | h
      · split at h
        · rw [List.mem_singleton.1 h]
          simp
        · cases h
      · rcases mem_decimalText h with h | h
        · exact .inl h
        · exact .inr (.inl h)
  | infinity s | nan =>
      exact .inr (.inr h)

theorem isBlank_of_isDigit
    {c : Char}
    (h : c.isDigit = true) :
    isBlank c = false ∧ c ≠ ']' := by
  have hskip := skipBlanks_digit h []
  refine ⟨by simpa [skipBlanks, List.dropWhile_cons] using hskip, ?_⟩
  rintro rfl
  exact absurd h (by decide)

/-- No character of a number is a blank or the end of a list. -/
theorem isBlank_of_mem_floatText
    {x : Double}
    {c : Char}
    (h : c ∈ floatText x) :
    isBlank c = false ∧ c ≠ ']' := by
  rcases mem_floatText h with h | h | h
  · exact isBlank_of_isDigit h
  all_goals
    simp only [List.mem_cons, List.not_mem_nil, or_false] at h
    rcases h with rfl | rfl | rfl | rfl <;> exact ⟨rfl, by simp⟩

/-- A number that is read back is read back in front of whatever ends a number. -/
theorem readValue_floatText
    {x : Double}
    (h : ReadsBack x)
    {rest : List Char}
    (hrest : EndsNumber rest)
    (steps depth : Nat) :
    readValue (steps + 1) depth (floatText x ++ rest) = .ok (.float x, rest) := by
  have hblank : ∀ cs, cs <:+ floatText x → skipBlanks cs = cs := by
    intro cs hcs
    cases cs with
    | nil =>
        rfl
    | cons c cs =>
        have hc := (isBlank_of_mem_floatText (hcs.mem List.mem_cons_self)).1
        exact List.dropWhile_cons_of_neg (by simp [hc])
  rw [readsBack_iff, readChars] at h
  obtain ⟨⟨v, left⟩, hread, h⟩ := bind_eq_ok.1 h
  simp only at h
  split at h
  · next hleft =>
      cases h
      -- what is left has no blanks, so it is nothing
      rw [hblank left (suffix_of_readValue_float hread)] at hleft
      rw [hleft] at hread
      exact readValue_append_of_float (hblank _ (List.suffix_refl _)) hread hrest steps depth
  · cases h

end Dashboard.Json

import Dashboard.Json.Quoted

/-!
# Quoted texts are read back

Every character is read back from its escape, and so a text from its quotes,
whatever comes behind them.
-/

namespace Dashboard.Json

/-! ## Characters -/

/-- A hexadecimal digit has its value. -/
theorem hexValue?_hexDigit
    {n : Nat}
    (h : n < 16) :
    hexValue? (hexDigit n) = some n := by
  have hall : ∀ n < 16, hexValue? (hexDigit n) = some n := by decide
  exact hall n h

/-- A control character is read back from its code unit. -/
theorem readEscape_unit
    {c : Char}
    (h : c.toNat < 0x20)
    (rest : List Char) :
    readEscape ('u' :: '0' :: '0' :: hexDigit (c.toNat / 16) :: hexDigit (c.toNat % 16) :: rest) =
      .ok (c, rest) := by
  have hhigh := hexValue?_hexDigit (n := c.toNat / 16) (by omega)
  have hlow := hexValue?_hexDigit (n := c.toNat % 16) (by omega)
  have hzero : hexValue? '0' = some 0 := by decide
  have hunit : ((0 * 16 + 0) * 16 + c.toNat / 16) * 16 + c.toNat % 16 = c.toNat := by omega
  have hread : readUnit ('0' :: '0' :: hexDigit (c.toNat / 16) :: hexDigit (c.toNat % 16) :: rest) =
      .ok (c.toNat, rest) := by
    simp only [readUnit, hzero, hhigh, hlow, hunit]
  have hchar : readSurrogate c.toNat rest = .ok (c, rest) := by
    rw [readSurrogate.eq_def, if_neg (by omega), if_pos (by omega), Char.ofNat_toNat]
  rw [readEscape, hread]
  exact hchar

/-- The step behind a backslash. -/
theorem readTextSteps_backslash
    {cs rest : List Char}
    {c : Char}
    (h : readEscape cs = .ok (c, rest))
    (steps : Nat) :
    readTextSteps (steps + 1) ('\\' :: cs) =
      (readTextSteps steps rest).map fun (cs, rest) => (c :: cs, rest) := by
  rw [readTextSteps, h]
  simp only [bind, Except.bind]
  cases readTextSteps steps rest <;> rfl

/-- One step reads a character back from its escape. -/
theorem readTextSteps_escape
    (c : Char)
    (steps : Nat)
    (rest : List Char) :
    readTextSteps (steps + 1) (escape c ++ rest) =
      (readTextSteps steps rest).map fun (cs, rest) => (c :: cs, rest) := by
  by_cases hshort : c ∈ ['"', '\\', '\n', '\r', '\t', '\x08', '\x0c']
  · simp only [List.mem_cons, List.not_mem_nil, or_false] at hshort
    rcases hshort with rfl | rfl | rfl | rfl | rfl | rfl | rfl <;>
      exact readTextSteps_backslash rfl steps
  · simp only [List.mem_cons, List.not_mem_nil, or_false, not_or] at hshort
    obtain ⟨hquote, hbackslash, hfeed, hreturn, htab, hback, hform⟩ := hshort
    simp only [escape, beq_iff_eq, hquote, hbackslash, hfeed, hreturn, htab, hback, hform,
      ↓reduceIte]
    split
    · next hcontrol => exact readTextSteps_backslash (readEscape_unit hcontrol rest) steps
    · next hplain =>
        rw [List.singleton_append, readTextSteps, if_neg hplain]
        · simp only [bind, Except.bind]
          cases readTextSteps steps rest <;> rfl
        · exact hquote
        · exact hbackslash

/-! ## Texts -/

/-- As many steps as a text has characters read it back, up to its closing quote. -/
theorem readTextSteps_quoted
    (s : List Char)
    {steps : Nat}
    (hsteps : s.length < steps)
    (rest : List Char) :
    readTextSteps steps (s.flatMap escape ++ '"' :: rest) = .ok (s, rest) := by
  induction s generalizing steps with
  | nil =>
      cases steps with
      | zero =>
          cases hsteps
      | succ steps =>
          rfl
  | cons c s ih =>
      cases steps with
      | zero =>
          cases hsteps
      | succ steps =>
          have hshort : s.length < steps := by simpa using hsteps
          rw [List.flatMap_cons, List.append_assoc, readTextSteps_escape, ih hshort]
          rfl

/-- An escape is at least one character. -/
theorem length_le_length_escaped (s : List Char) : s.length ≤ (s.flatMap escape).length := by
  induction s with
  | nil =>
      exact Nat.le_refl 0
  | cons c s ih =>
      have hone : 1 ≤ (escape c).length := by
        simp only [escape]
        repeat' split
        all_goals simp
      rw [List.flatMap_cons, List.length_append, List.length_cons]
      omega

/-- A text is read back from behind its opening quote. -/
theorem readText_quoted
    (s : String)
    (rest : List Char) :
    readText (s.toList.flatMap escape ++ '"' :: rest) = .ok (s, rest) := by
  have hsteps : s.toList.length < (s.toList.flatMap escape ++ '"' :: rest).length + 1 := by
    have hlength := length_le_length_escaped s.toList
    rw [List.length_append]
    omega
  rw [readText, readTextSteps_quoted _ hsteps]
  exact congrArg (fun s => Except.ok (s, rest)) String.ofList_toList

end Dashboard.Json

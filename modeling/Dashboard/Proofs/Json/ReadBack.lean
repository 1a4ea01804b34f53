import Dashboard.Proofs.Json.NumberText
import Dashboard.Proofs.Json.Quoted
import Dashboard.Proofs.Value.Floats

/-!
# Values are read back

A value with distinct keys is read back from its text as it is in JSON, exactly
if its containers are nested no deeper than the reader goes.
-/

namespace Dashboard.Json

open Value

/-- A finite number is read back from its text. -/
def FiniteReadsBack (x : Double) : Prop :=
  x.isFinite = true → ReadsBack x

/-! ## What comes next in a text -/

/-- The text begins with something else than a blank or the end of a list. -/
def Begins (cs : List Char) : Prop :=
  ∃ c rest, cs = c :: rest ∧ isBlank c = false ∧ c ≠ ']'

theorem Begins.append
    {cs : List Char}
    (h : Begins cs)
    (rest : List Char) :
    Begins (cs ++ rest) := by
  obtain ⟨c, cs, rfl, hc⟩ := h
  exact ⟨c, cs ++ rest, rfl, hc⟩

theorem skipBlanks_cons
    {c : Char}
    (h : isBlank c = false)
    (cs : List Char) :
    skipBlanks (c :: cs) = c :: cs :=
  List.dropWhile_cons_of_neg (by simp [h])

theorem skipBlanks_of_begins
    {cs : List Char}
    (h : Begins cs) :
    skipBlanks cs = cs := by
  obtain ⟨c, rest, rfl, hc, -⟩ := h
  exact skipBlanks_cons hc rest

theorem skipBlanks_newline
    (n : Nat)
    (cs : List Char) :
    skipBlanks (newline n ++ cs) = skipBlanks cs := by
  have hspaces : ∀ k, skipBlanks (List.replicate k ' ' ++ cs) = skipBlanks cs := by
    intro k
    induction k with
    | zero =>
        rfl
    | succ k ih =>
        exact ih
  exact hspaces (2 * n)

theorem readValue_space
    (steps depth : Nat)
    (cs : List Char) :
    readValue (steps + 1) depth (' ' :: cs) = readValue (steps + 1) depth cs := by
  rw [readValue.eq_def, readValue.eq_def]
  rfl

/-! ## How the text of a value begins -/

theorem begins_of_forall
    {cs : List Char}
    (hne : cs ≠ [])
    (h : ∀ c ∈ cs, isBlank c = false ∧ c ≠ ']') :
    Begins cs := by
  cases cs with
  | nil =>
      exact absurd rfl hne
  | cons c cs =>
      exact ⟨c, cs, rfl, h c List.mem_cons_self⟩

theorem begins_intText (k : Int64) : Begins (Value.intText k) := by
  refine begins_of_forall ?_ fun c hc => ?_
  · exact fun h => Nat.toDigits_ne_nil (List.append_eq_nil_iff.1 h).2
  · rcases List.mem_append.1 hc with hc | hc
    · split at hc
      · rw [List.mem_singleton.1 hc]
        exact ⟨rfl, by decide⟩
      · cases hc
    · exact isBlank_of_isDigit (Yaml.Scalar.isDigit_toDigits _ c hc)

theorem begins_floatText
    {x : Double}
    (h : FiniteReadsBack x) :
    Begins (floatText x) := by
  refine begins_of_forall (fun hnil => ?_) fun c => isBlank_of_mem_floatText
  cases x with
  | finite s m k hcanonical =>
      have hread := readsBack_iff.1 (h rfl)
      have hempty : readChars [] = .error ⟨.unfinishedValue, [], true⟩ := by cbv
      rw [hnil, hempty] at hread
      cases hread
  | infinity s | nan =>
      cases hnil

/-- The text of a value can be told from a blank and from the end of a list. -/
theorem begins_prettyAt
    (n : Nat)
    {v : Value}
    (h : v.AllFloats FiniteReadsBack) :
    Begins (prettyAt n v) := by
  cases v with
  | null =>
      exact ⟨'n', _, rfl, rfl, by decide⟩
  | bool b =>
      cases b with
      | false =>
          exact ⟨'f', _, rfl, rfl, by decide⟩
      | true =>
          exact ⟨'t', _, rfl, rfl, by decide⟩
  | int k =>
      exact begins_intText k
  | float x =>
      exact begins_floatText h
  | str s =>
      exact ⟨'"', _, rfl, rfl, by decide⟩
  | seq vs =>
      cases vs with
      | nil =>
          exact ⟨'[', _, rfl, rfl, by decide⟩
      | cons v vs =>
          exact ⟨'[', _, by rw [prettyAt.eq_def]; rfl, rfl, by decide⟩
  | map m =>
      cases m with
      | nil =>
          exact ⟨'\x7b', _, rfl, rfl, by decide⟩
      | cons e m =>
          exact ⟨'\x7b', _, by rw [prettyAt.eq_def]; rfl, rfl, by decide⟩

theorem length_prettyAt_pos
    (n : Nat)
    {v : Value}
    (h : v.AllFloats FiniteReadsBack) :
    0 < (prettyAt n v).length := by
  obtain ⟨c, rest, htext, -⟩ := begins_prettyAt n h
  rw [htext]
  exact Nat.succ_pos _

/-! ## Steps of the reader -/

/-- One reader behind another one, when each gives its result on a condition. -/
theorem toOption_both
    {ε α β γ δ : Type}
    {p q : Prop}
    [Decidable p]
    [Decidable q]
    {read : Except ε (α × γ)}
    {next : γ → Except ε (β × γ)}
    {a : α}
    {b : β}
    {mid rest : γ}
    (hread : read.toOption = if p then some (a, mid) else none)
    (hnext : (next mid).toOption = if q then some (b, rest) else none)
    (f : α → β → δ) :
    (do
      let (a, mid) ← read
      let (b, rest) ← next mid
      Except.ok (f a b, rest)).toOption = if p ∧ q then some (f a b, rest) else none := by
  simp only [toOption_bind, hread]
  by_cases hp : p
  · simp only [hp, ↓reduceIte, Option.bind_some, hnext, true_and]
    split <;> rfl
  · simp only [hp, ↓reduceIte, Option.bind_none, false_and]

section Steps

variable (steps depth n : Nat)
variable {cs rest : List Char}

/-- What stands in front of an item or an entry: a comma, unless it is the first one. -/
def separators (first : Bool) : List Char :=
  if first then [] else [',']

/-- An item and those behind it. -/
def readItem
    (cs : List Char) :
    Except Failure (List Value × List Char) := do
  let (v, rest) ← readValue steps depth cs
  let (vs, rest) ← readItems steps depth false rest
  .ok (v :: vs, rest)

theorem readItems_end
    (first : Bool)
    (h : skipBlanks cs = ']' :: rest) :
    readItems (steps + 1) depth first cs = .ok ([], rest) := by
  rw [readItems.eq_def]
  simp only [h]

/-- An item is read on a line of its own, be it the first one or a further one. -/
theorem readItems_newline
    (first : Bool)
    (h : Begins cs) :
    readItems (steps + 1) depth first (separators first ++ (newline n ++ cs)) =
      readItem steps depth cs := by
  have hcomma : skipBlanks (',' :: (newline n ++ cs)) = ',' :: (newline n ++ cs) :=
    skipBlanks_cons rfl _
  have hskip : skipBlanks (newline n ++ cs) = cs := by
    rw [skipBlanks_newline, skipBlanks_of_begins h]
  obtain ⟨c, rest, rfl, hc, hend⟩ := h
  rw [readItems.eq_def]
  have hnot : ∀ left, c :: rest = ']' :: left → False := by
    intro left heq
    exact hend (List.cons.inj heq).1
  cases first <;> simp [separators, hcomma, hskip] <;> rfl

theorem readEntries_end
    (first : Bool)
    (h : skipBlanks cs = '\x7d' :: rest) :
    readEntries (steps + 1) depth first cs = .ok ([], rest) := by
  rw [readEntries.eq_def]
  simp only [h]

/-- An entry is read on a line of its own, be it the first one or a further one. -/
theorem readEntries_newline
    (first : Bool)
    (k : List Char) :
    readEntries (steps + 1) depth first (separators first ++ (newline n ++ (quote k ++ cs))) =
      readEntry steps depth (quote k ++ cs) := by
  have hquote : quote k ++ cs = '"' :: (k.flatMap escape ++ ['"'] ++ cs) := rfl
  rw [readEntries.eq_def, hquote]
  generalize k.flatMap escape ++ ['"'] ++ cs = left
  have hcomma : skipBlanks (',' :: (newline n ++ '"' :: left)) =
      ',' :: (newline n ++ '"' :: left) :=
    skipBlanks_cons rfl _
  have hskip : skipBlanks (newline n ++ '"' :: left) = '"' :: left := by
    rw [skipBlanks_newline, skipBlanks_cons rfl]
  cases first <;> simp [separators, hcomma, hskip]

theorem readEntry_quote
    (k : String) :
    readEntry (steps + 2) depth (quote k.toList ++ ':' :: ' ' :: cs) = (do
      let (v, rest) ← readValue (steps + 1) depth cs
      let (m, rest) ← readEntries (steps + 1) depth false rest
      Except.ok ((k, v) :: m, rest)) := by
  have hquote : quote k.toList ++ ':' :: ' ' :: cs =
      '"' :: (k.toList.flatMap escape ++ '"' :: ':' :: ' ' :: cs) := by
    simp [quote]
  have hskip : skipBlanks (':' :: ' ' :: cs) = ':' :: ' ' :: cs :=
    skipBlanks_cons rfl _
  rw [readEntry.eq_def, hquote]
  simp only [readText_quoted, bind, Except.bind, hskip, readValue_space]

theorem readValue_scalar
    {v : Value}
    (hcontainer : v.isContainer = false)
    (hfloats : v.AllFloats FiniteReadsBack)
    (hrest : EndsNumber rest) :
    readValue (steps + 1) depth (scalar v ++ rest) = .ok (v.inJson, rest) := by
  cases v with
  | null =>
      rw [readValue.eq_def]
      rfl
  | bool b =>
      cases b <;> rw [readValue.eq_def] <;> rfl
  | int k =>
      exact readValue_intText k hrest steps depth
  | float x =>
      by_cases hfinite : x.isFinite = true
      · rw [Value.inJson, if_pos hfinite]
        exact readValue_floatText (hfloats hfinite) hrest steps depth
      · rw [Value.inJson, if_neg hfinite]
        cases x with
        | finite s m k hcanonical =>
            exact absurd rfl hfinite
        | infinity s | nan =>
            rw [readValue.eq_def]
            rfl
  | str s =>
      have hquote : scalar (.str s) ++ rest =
          '"' :: (s.toList.flatMap escape ++ '"' :: rest) := by
        simp [scalar, quote]
      have hskip : ∀ cs, skipBlanks ('"' :: cs) = '"' :: cs := skipBlanks_cons rfl
      rw [readValue.eq_def, hquote]
      simp only [hskip, readText_quoted, bind, Except.bind, Value.inJson]
  | seq items | map entries =>
      cases hcontainer

variable {d : Nat}

/-- A list takes one container of the depth. -/
theorem readValue_list
    {items : List Value}
    (h : ∀ depth, (readItems steps depth true cs).toOption =
      if d ≤ depth then some (items, rest) else none) :
    (readValue (steps + 1) depth ('[' :: cs)).toOption =
      if d + 1 ≤ depth then some (.seq items, rest) else none := by
  have hskip : skipBlanks ('[' :: cs) = '[' :: cs := skipBlanks_cons rfl _
  rw [readValue.eq_def]
  cases depth with
  | zero =>
      simp only [hskip]
      rfl
  | succ depth =>
      simp only [hskip, toOption_bind, h depth, Nat.add_le_add_iff_right]
      split <;> rfl

/-- An object takes one container of the depth. -/
theorem readValue_object
    {m : List (String × Value)}
    (h : ∀ depth, (readEntries steps depth true cs).toOption =
      if d ≤ depth then some (m, rest) else none) :
    (readValue (steps + 1) depth ('\x7b' :: cs)).toOption =
      if d + 1 ≤ depth then some (.map (Entries.ofPairs m), rest) else none := by
  have hskip : skipBlanks ('\x7b' :: cs) = '\x7b' :: cs := skipBlanks_cons rfl _
  rw [readValue.eq_def]
  cases depth with
  | zero =>
      simp only [hskip]
      rfl
  | succ depth =>
      simp only [hskip, toOption_bind, h depth, Nat.add_le_add_iff_right]
      split <;> rfl

theorem readValue_emptyList :
    (readValue (steps + 2) depth ('[' :: ']' :: rest)).toOption =
      if 1 ≤ depth then some (.seq [], rest) else none :=
  readValue_list (steps + 1) depth fun depth =>
    (congrArg Except.toOption (readItems_end steps depth true rfl)).trans
      (if_pos (Nat.zero_le depth)).symm

theorem readValue_emptyObject :
    (readValue (steps + 2) depth ('\x7b' :: '\x7d' :: rest)).toOption =
      if 1 ≤ depth then some (.map [], rest) else none :=
  readValue_object (steps + 1) depth fun depth =>
    (congrArg Except.toOption (readEntries_end steps depth true rfl)).trans
      (if_pos (Nat.zero_le depth)).symm

end Steps

/-! ## What ends the text of a value -/

theorem endsNumber_newline
    (n : Nat)
    (rest : List Char) :
    EndsNumber (newline n ++ rest) :=
  endsNumber_cons (by decide)

theorem endsNumber_prettyItems
    (n m : Nat)
    (vs : List Value)
    (rest : List Char) :
    EndsNumber (prettyItems n vs ++ (newline m ++ rest)) := by
  cases vs with
  | nil =>
      exact endsNumber_newline m rest
  | cons v vs =>
      rw [prettyItems]
      exact endsNumber_cons (by decide)

theorem endsNumber_prettyEntries
    (n l : Nat)
    (m : List (String × Value))
    (rest : List Char) :
    EndsNumber (prettyEntries n m ++ (newline l ++ rest)) := by
  cases m with
  | nil =>
      exact endsNumber_newline l rest
  | cons e m =>
      rw [prettyEntries.eq_def]
      exact endsNumber_cons (by decide)

/-! ## Values -/

theorem prettyAt_of_not_isContainer
    (n : Nat)
    {v : Value}
    (h : v.isContainer = false) :
    prettyAt n v = scalar v := by
  cases v with
  | seq items | map entries =>
      cases h
  | null | bool b | int k | float x | str s =>
      rfl

section Texts

variable (n : Nat)
variable (k : String)
variable (v : Value)
variable (vs : List Value)
variable (m : List (String × Value))
variable (rest : List Char)

theorem prettyAt_list :
    prettyAt n (.seq (v :: vs)) ++ rest =
      '[' :: (newline (n + 1) ++ (prettyAt (n + 1) v ++
        (prettyItems (n + 1) vs ++ (newline n ++ ']' :: rest)))) := by
  rw [prettyAt]
  simp only [List.append_assoc, List.cons_append, List.nil_append]

theorem prettyItems_cons :
    prettyItems n (v :: vs) ++ rest =
      ',' :: (newline n ++ (prettyAt n v ++ (prettyItems n vs ++ rest))) := by
  rw [prettyItems]
  simp only [List.append_assoc, List.cons_append]

theorem prettyAt_object :
    prettyAt n (.map ((k, v) :: m)) ++ rest =
      '\x7b' :: (newline (n + 1) ++ (quote k.toList ++ ':' :: ' ' :: (prettyAt (n + 1) v ++
        (prettyEntries (n + 1) m ++ (newline n ++ '\x7d' :: rest))))) := by
  rw [prettyAt]
  simp only [List.append_assoc, List.cons_append, List.nil_append]

theorem prettyEntries_cons :
    prettyEntries n ((k, v) :: m) ++ rest =
      ',' :: (newline n ++ (quote k.toList ++ ':' :: ' ' :: (prettyAt n v ++
        (prettyEntries n m ++ rest)))) := by
  rw [prettyEntries]
  simp only [List.append_assoc, List.cons_append]

end Texts

mutual

/-- A value is read back as it is in JSON, exactly if it is not nested too deep. -/
theorem readValue_prettyAt
    (v : Value)
    (hkeys : v.KeysDistinct)
    (hfloats : v.AllFloats FiniteReadsBack)
    (n : Nat)
    {steps : Nat}
    (hsteps : 3 * (prettyAt n v).length < steps)
    (depth : Nat)
    {rest : List Char}
    (hrest : EndsNumber rest) :
    (readValue steps depth (prettyAt n v ++ rest)).toOption =
      if v.depth ≤ depth then some (v.inJson, rest) else none := by
  cases steps with
  | zero =>
      cases hsteps
  | succ steps =>
      have hlong := length_prettyAt_pos n hfloats
      -- an item takes one step besides those of its value, and an entry takes two
      match v with
      | .null | .bool _ | .int _ | .float _ | .str _ =>
          rw [prettyAt_of_not_isContainer n rfl, readValue_scalar steps depth rfl hfloats hrest]
          exact (if_pos (Nat.zero_le depth)).symm
      | .seq [] =>
          obtain ⟨steps, rfl⟩ : ∃ s, steps = s + 1 := ⟨steps - 1, by omega⟩
          rw [prettyAt]
          exact readValue_emptyList steps depth
      | .seq (v :: vs) =>
          have hlength := congrArg List.length (prettyAt_list n v vs [])
          simp only [List.length_append, List.length_cons, List.length_nil] at hlength
          rw [prettyAt_list]
          refine readValue_list steps depth fun depth => ?_
          obtain ⟨steps, rfl⟩ : ∃ s, steps = s + 1 := ⟨steps - 1, by omega⟩
          refine (congrArg Except.toOption (readItems_newline _ _ _ true
            ((begins_prettyAt _ hfloats.1).append _))).trans ?_
          rw [depthItems]
          simp only [Nat.max_le]
          exact toOption_both
            (readValue_prettyAt v hkeys.1 hfloats.1 (n + 1) (by omega) depth
              (endsNumber_prettyItems _ _ _ _))
            (readItems_prettyItems vs hkeys.2 hfloats.2 (n + 1) n (by omega) depth rest)
            List.cons
      | .map [] =>
          obtain ⟨steps, rfl⟩ : ∃ s, steps = s + 1 := ⟨steps - 1, by omega⟩
          rw [prettyAt]
          exact readValue_emptyObject steps depth
      | .map ((k, v) :: m) =>
          have hlength := congrArg List.length (prettyAt_object n k v m [])
          simp only [List.length_append, List.length_cons, List.length_nil] at hlength
          have hdistinct : Entries.Distinct (inJsonEntries ((k, v) :: m)) := by
            rw [Entries.Distinct, names_inJsonEntries]
            exact hkeys.1
          rw [prettyAt_object, inJson, ← Entries.ofPairs_eq_self hdistinct]
          refine readValue_object steps depth fun depth => ?_
          obtain ⟨steps, rfl⟩ : ∃ s, steps = s + 3 := ⟨steps - 3, by omega⟩
          refine (congrArg Except.toOption (readEntries_newline _ _ _ true _)).trans ?_
          rw [readEntry_quote, depthEntries]
          simp only [Nat.max_le]
          exact toOption_both
            (readValue_prettyAt v hkeys.2.1 hfloats.1 (n + 1) (by omega) depth
              (endsNumber_prettyEntries _ _ _ _))
            (readEntries_prettyEntries m hkeys.2.2 hfloats.2 (n + 1) n (by omega) depth rest)
            fun v m => (k, v) :: m

theorem readItems_prettyItems
    (vs : List Value)
    (hkeys : KeysDistinctItems vs)
    (hfloats : AllFloatsItems FiniteReadsBack vs)
    (n m : Nat)
    {steps : Nat}
    (hsteps : 3 * (prettyItems n vs).length < steps)
    (depth : Nat)
    (rest : List Char) :
    (readItems steps depth false (prettyItems n vs ++ (newline m ++ ']' :: rest))).toOption =
      if depthItems vs ≤ depth then some (inJsonItems vs, rest) else none := by
  match vs with
  | [] =>
      obtain ⟨steps, rfl⟩ : ∃ s, steps = s + 1 := ⟨steps - 1, by omega⟩
      have hend : skipBlanks (newline m ++ ']' :: rest) = ']' :: rest := by
        rw [skipBlanks_newline, skipBlanks_cons rfl]
      rw [prettyItems, List.nil_append, readItems_end _ _ _ hend]
      exact (if_pos (Nat.zero_le depth)).symm
  | v :: vs =>
      have hlength := congrArg List.length (prettyItems_cons n v vs [])
      simp only [List.length_append, List.length_cons, List.length_nil] at hlength
      obtain ⟨steps, rfl⟩ : ∃ s, steps = s + 1 := ⟨steps - 1, by omega⟩
      rw [prettyItems_cons]
      refine (congrArg Except.toOption (readItems_newline _ _ _ false
        ((begins_prettyAt _ hfloats.1).append _))).trans ?_
      rw [depthItems]
      simp only [Nat.max_le]
      exact toOption_both
        (readValue_prettyAt v hkeys.1 hfloats.1 n (by omega) depth (endsNumber_prettyItems _ _ _ _))
        (readItems_prettyItems vs hkeys.2 hfloats.2 n m (by omega) depth rest)
        List.cons

theorem readEntries_prettyEntries
    (m : List (String × Value))
    (hkeys : KeysDistinctEntries m)
    (hfloats : AllFloatsEntries FiniteReadsBack m)
    (n l : Nat)
    {steps : Nat}
    (hsteps : 3 * (prettyEntries n m).length < steps)
    (depth : Nat)
    (rest : List Char) :
    (readEntries steps depth false
        (prettyEntries n m ++ (newline l ++ '\x7d' :: rest))).toOption =
      if depthEntries m ≤ depth then some (inJsonEntries m, rest) else none := by
  match m with
  | [] =>
      obtain ⟨steps, rfl⟩ : ∃ s, steps = s + 1 := ⟨steps - 1, by omega⟩
      have hend : skipBlanks (newline l ++ '\x7d' :: rest) = '\x7d' :: rest := by
        rw [skipBlanks_newline, skipBlanks_cons rfl]
      rw [prettyEntries, List.nil_append, readEntries_end _ _ _ hend]
      exact (if_pos (Nat.zero_le depth)).symm
  | (k, v) :: m =>
      have hlength := congrArg List.length (prettyEntries_cons n k v m [])
      simp only [List.length_append, List.length_cons, List.length_nil] at hlength
      obtain ⟨steps, rfl⟩ : ∃ s, steps = s + 3 := ⟨steps - 3, by omega⟩
      rw [prettyEntries_cons]
      refine (congrArg Except.toOption (readEntries_newline _ _ _ false _)).trans ?_
      rw [readEntry_quote, depthEntries]
      simp only [Nat.max_le]
      exact toOption_both
        (readValue_prettyAt v hkeys.1 hfloats.1 n (by omega) depth
          (endsNumber_prettyEntries _ _ _ _))
        (readEntries_prettyEntries m hkeys.2 hfloats.2 n l (by omega) depth rest)
        fun v m => (k, v) :: m

end

/-- A value on lines of its own is read back as it is in JSON, exactly if it is not
nested too deep. -/
theorem read_prettyText
    {v : Value}
    (hkeys : v.KeysDistinct)
    (hfloats : v.AllFloats FiniteReadsBack) :
    (read (prettyText v ++ "\n")).toOption =
      if v.depth ≤ maxDepth then some v.inJson else none := by
  have htext : (prettyText v ++ "\n").toList = prettyAt 0 v ++ ['\n'] := by
    rw [prettyText, String.toList_append, String.toList_ofList]
    rfl
  have hsteps : 3 * (prettyAt 0 v).length < 3 * (prettyAt 0 v ++ ['\n']).length + 3 := by
    rw [List.length_append]
    omega
  have hend : EndsNumber ['\n'] := endsNumber_newline 0 []
  rw [read, htext, readChars, toOption_bind,
    readValue_prettyAt v hkeys hfloats 0 hsteps maxDepth hend]
  split <;> rfl

end Dashboard.Json

import Dashboard.Proofs.Double.Layouts
import Dashboard.Proofs.Json.NumberText
import Dashboard.Proofs.Json.Quoted
import Dashboard.Proofs.Value.Floats

/-!
# JSON is unambiguous

Two values have the same text exactly if they are the same in JSON.  A reader need not
exist for that: each text ends where a comma or a closing bracket stands, and says by its
first character what it is the text of.

* `bareValue?` takes words and numbers back from their texts.
* `compact_append_inj` is the induction: equal texts with anything behind them that ends a
  value are texts of the same value, and the same stands behind them.
-/

namespace Dashboard.Json

/-! ## First and last characters -/

/-- The character that opens a text or a container. -/
def opening? : Value → Option Char
  | .str _ => some '"'
  | .seq _ => some '['
  | .map _ => some '\x7b'
  | _ => none

/-- The character ends a value among others. -/
def isEnd (c : Char) : Bool :=
  c == ',' || c == ']' || c == '\x7d'

/-- The character opens a text or a container. -/
def isOpening (c : Char) : Bool :=
  c == '"' || c == '[' || c == '\x7b'

/-- What stands behind a value ends it. -/
def Ended (rest : List Char) : Prop :=
  rest.head?.all isEnd = true

/-- What is without ends stops at the end. -/
theorem append_inj_of_ended
    {a b r s : List Char}
    (ha : ∀ c ∈ a, isEnd c = false)
    (hb : ∀ c ∈ b, isEnd c = false)
    (hr : Ended r)
    (hs : Ended s)
    (h : a ++ r = b ++ s) :
    a = b ∧ r = s := by
  have htake : ∀ {a r : List Char}, (∀ c ∈ a, isEnd c = false) → Ended r →
      (a ++ r).takeWhile (fun c => !isEnd c) = a := by
    intro a r ha hr
    rw [List.takeWhile_append_of_pos (by simpa using ha)]
    cases r with
    | nil =>
        exact List.append_nil a
    | cons c cs =>
        have hc : isEnd c = true := hr
        rw [List.takeWhile_cons_of_neg (by simp [hc]), List.append_nil]
  have hab : a = b := by
    rw [← htake ha hr, h, htake hb hs]
  subst hab
  exact ⟨rfl, List.append_cancel_left h⟩

/-! ## Words and numbers -/

section Bare

variable {v : Value}

/-- The value of a word or a number. -/
def bareValue? (cs : List Char) : Option Value :=
  if cs = "null".toList then some .null
  else if cs = "true".toList then some (.bool true)
  else if cs = "false".toList then some (.bool false)
  else if '.' ∈ cs ∨ 'e' ∈ cs then (Double.read? cs).map .float
  else (Yaml.Scalar.readInt? cs).map fun n => .int (Int64.ofInt n)

theorem mem_intText
    {n : Int64}
    {c : Char}
    (h : c ∈ Value.intText n) :
    c.isDigit = true ∨ c = '-' := by
  rcases List.mem_append.1 h with h | h
  · split at h
    · exact .inr (List.mem_singleton.1 h)
    · cases h
  · exact .inl (Yaml.Scalar.isDigit_toDigits _ c h)

/-- A text with a digit is none of the words. -/
theorem bareValue?_of_isDigit
    {cs : List Char}
    {c : Char}
    (hmem : c ∈ cs)
    (hc : c.isDigit = true) :
    bareValue? cs =
      if '.' ∈ cs ∨ 'e' ∈ cs then (Double.read? cs).map .float
      else (Yaml.Scalar.readInt? cs).map fun n => .int (Int64.ofInt n) := by
  have hword : ∀ word : List Char, word.all (fun d => !d.isDigit) = true → cs ≠ word := by
    rintro word hword rfl
    have hnot := List.all_eq_true.1 hword c hmem
    rw [hc] at hnot
    cases hnot
  rw [bareValue?, if_neg (hword _ (by decide)), if_neg (hword _ (by decide)),
    if_neg (hword _ (by decide))]

/-- A word or a number is taken back from its text, as it is in JSON. -/
theorem bareValue?_scalar
    (h : opening? v = none) :
    bareValue? (scalar v) = some v.inJson := by
  cases v with
  | null =>
      rfl
  | bool b =>
      cases b <;> rfl
  | int n =>
      obtain ⟨c, cs, hdigits⟩ :=
        List.exists_cons_of_ne_nil (Nat.toDigits_ne_nil (n := n.toInt.natAbs) (b := 10))
      have hmem : c ∈ Value.intText n := by
        rw [Value.intText, hdigits]
        exact List.mem_append_right _ List.mem_cons_self
      have hc : c.isDigit = true :=
        Yaml.Scalar.isDigit_toDigits n.toInt.natAbs c (hdigits ▸ List.mem_cons_self)
      have hmark : ¬('.' ∈ Value.intText n ∨ 'e' ∈ Value.intText n) := by
        rintro (hpoint | hexponent)
        · rcases mem_intText hpoint with h | h <;> cases h
        · rcases mem_intText hexponent with h | h <;> cases h
      rw [scalar, bareValue?_of_isDigit hmem hc, if_neg hmark, (Yaml.Scalar.readInt?_intText n).1,
        Option.map_some, Int64.ofInt_toInt]
      rfl
  | float x =>
      cases x with
      | finite negative m k hcanonical =>
          have hread := Double.read?_finiteText_layout Double.jsonLayout negative hcanonical
          obtain ⟨c, hmem, hc⟩ :=
            Double.exists_isDigit_finiteText Double.jsonLayout negative hcanonical
          have hmark := Double.mem_finiteText_mark Double.jsonLayout negative hcanonical
          rw [scalar, floatText, bareValue?_of_isDigit hmem hc, if_pos hmark, hread]
          rfl
      | infinity s | nan =>
          rfl
  | str s | seq items | map entries =>
      cases h

/-- A text is looked through for characters that open or end something. -/
theorem forall_mem_of_all
    {cs : List Char}
    (h : (cs.all fun c => !isEnd c && !isOpening c) = true) :
    ∀ c ∈ cs, isEnd c = false ∧ isOpening c = false := by
  intro c hc
  simpa using List.all_eq_true.1 h c hc

/-- Words and numbers hold no character that opens or ends something. -/
theorem mem_scalar
    (h : opening? v = none)
    {c : Char}
    (hc : c ∈ scalar v) :
    isEnd c = false ∧ isOpening c = false := by
  have hdigit : ∀ {c : Char}, c.isDigit = true → isEnd c = false ∧ isOpening c = false := by
    intro c hc
    simp only [isEnd, isOpening, Bool.or_eq_false_iff, beq_eq_false_iff_ne]
    refine ⟨⟨⟨?_, ?_⟩, ?_⟩, ⟨?_, ?_⟩, ?_⟩ <;> (rintro rfl; cases hc)
  cases v with
  | null =>
      exact forall_mem_of_all (by decide) c hc
  | bool b =>
      cases b with
      | false =>
          exact forall_mem_of_all (by decide) c hc
      | true =>
          exact forall_mem_of_all (by decide) c hc
  | int n =>
      rcases mem_intText hc with hc | rfl
      · exact hdigit hc
      · decide
  | float x =>
      rcases mem_floatText hc with hc | hc | hc
      · exact hdigit hc
      · exact forall_mem_of_all (by decide) c hc
      · exact forall_mem_of_all (by decide) c hc
  | str s | seq items | map entries =>
      cases h

theorem scalar_ne_nil
    (h : opening? v = none) :
    scalar v ≠ [] := by
  intro hnil
  have hvalue := bareValue?_scalar h
  rw [hnil] at hvalue
  cases hvalue

/-- Words and numbers with the same text are the same in JSON. -/
theorem scalar_append_inj
    {w : Value}
    (hv : opening? v = none)
    (hw : opening? w = none)
    {r s : List Char}
    (hr : Ended r)
    (hs : Ended s)
    (h : scalar v ++ r = scalar w ++ s) :
    v.inJson = w.inJson ∧ r = s := by
  obtain ⟨htext, hrest⟩ :=
    append_inj_of_ended (fun _ hc => (mem_scalar hv hc).1) (fun _ hc => (mem_scalar hw hc).1)
      hr hs h
  have hvalue := bareValue?_scalar hv
  rw [htext, bareValue?_scalar hw] at hvalue
  exact ⟨(Option.some.inj hvalue).symm, hrest⟩

end Bare

/-! ## Texts -/

theorem quote_append
    (s rest : List Char) :
    quote s ++ rest = '"' :: (s.flatMap escape ++ '"' :: rest) := by
  simp [quote]

theorem quote_append_inj
    {a b : String}
    {r s : List Char}
    (h : quote a.toList ++ r = quote b.toList ++ s) :
    a = b ∧ r = s := by
  rw [quote_append, quote_append, List.cons.injEq] at h
  have hread := readText_quoted a r
  rw [h.2, readText_quoted, Except.ok.injEq, Prod.mk.injEq] at hread
  exact ⟨hread.1.symm, hread.2.symm⟩

/-! ## Values -/

theorem compact_of_opening?_eq_none
    {v : Value}
    (h : opening? v = none) :
    compact v = scalar v := by
  cases v with
  | null | bool b | int n | float x =>
      rw [compact.eq_def]
  | str s | seq items | map entries =>
      cases h

/-- The first character of a text tells what opens there, and ends nothing. -/
theorem exists_compact_eq_cons
    (v : Value) :
    ∃ c cs, compact v = c :: cs ∧ isEnd c = false ∧
      (if isOpening c then some c else none) = opening? v := by
  cases hopening : opening? v with
  | none =>
      obtain ⟨c, cs, htext⟩ := List.exists_cons_of_ne_nil (scalar_ne_nil hopening)
      have hc := mem_scalar hopening (htext ▸ List.mem_cons_self)
      rw [compact_of_opening?_eq_none hopening, htext]
      refine ⟨c, cs, rfl, hc.1, ?_⟩
      rw [hc.2]
      rfl
  | some c =>
      cases v with
      | str s | seq items | map entries =>
          cases hopening
          rw [compact.eq_def]
          exact ⟨_, _, rfl, by decide, by decide⟩
      | null | bool b | int n | float x =>
          cases hopening

theorem opening?_eq_of_compact_append
    {v w : Value}
    {r s : List Char}
    (h : compact v ++ r = compact w ++ s) :
    opening? v = opening? w := by
  obtain ⟨c, cs, hv, -, hc⟩ := exists_compact_eq_cons v
  obtain ⟨d, ds, hw, -, hd⟩ := exists_compact_eq_cons w
  rw [hv, hw, List.cons_append, List.cons_append, List.cons.injEq] at h
  rw [← hc, ← hd, h.1]

/-! ## Members of containers -/

/-- Items behind another one. -/
def itemsTail : List Value → List Char
  | [] => []
  | v :: vs => ',' :: (compact v ++ itemsTail vs)

/-- Entries behind another one. -/
def entriesTail : List (String × Value) → List Char
  | [] => []
  | (k, v) :: m => ',' :: (quote k.toList ++ ':' :: (compact v ++ entriesTail m))

theorem compactItems_cons
    (v : Value)
    (vs : List Value) :
    compactItems (v :: vs) = compact v ++ itemsTail vs := by
  induction vs generalizing v with
  | nil =>
      rw [compactItems.eq_def, itemsTail, List.append_nil]
  | cons w ws ih =>
      rw [compactItems.eq_def]
      exact congrArg (fun cs => compact v ++ ',' :: cs) (ih w)

theorem compactEntries_cons
    (k : String)
    (v : Value)
    (m : List (String × Value)) :
    compactEntries ((k, v) :: m) =
      quote k.toList ++ ':' :: (compact v ++ entriesTail m) := by
  induction m generalizing k v with
  | nil =>
      rw [compactEntries.eq_def, entriesTail, List.append_nil]
  | cons e m ih =>
      rw [compactEntries.eq_def]
      simp only [ih, entriesTail, List.append_assoc, List.cons_append]

/-- The first item has no comma before it. -/
theorem compactItems_eq_drop
    (vs : List Value) :
    compactItems vs = (itemsTail vs).drop 1 := by
  cases vs with
  | nil =>
      rfl
  | cons v vs =>
      exact compactItems_cons v vs

/-- The first entry has no comma before it. -/
theorem compactEntries_eq_drop
    (m : List (String × Value)) :
    compactEntries m = (entriesTail m).drop 1 := by
  cases m with
  | nil =>
      rfl
  | cons e m =>
      exact compactEntries_cons e.1 e.2 m

theorem ended_itemsTail
    (vs : List Value)
    (rest : List Char) :
    Ended (itemsTail vs ++ ']' :: rest) := by
  cases vs <;> exact rfl

theorem ended_entriesTail
    (m : List (String × Value))
    (rest : List Char) :
    Ended (entriesTail m ++ '\x7d' :: rest) := by
  cases m <;> exact rfl

section Members

variable {r s : List Char}

/-- No value begins with the end of a list, so lists of which one is empty differ. -/
theorem itemsTail_of_compactItems
    {vs ws : List Value}
    (h : compactItems vs ++ ']' :: r = compactItems ws ++ ']' :: s) :
    itemsTail vs ++ ']' :: r = itemsTail ws ++ ']' :: s := by
  have hend : ∀ {v : Value} {vs : List Value} {r s : List Char},
      compactItems (v :: vs) ++ r ≠ ']' :: s := by
    intro v vs r s heq
    obtain ⟨c, cs, hv, hc, -⟩ := exists_compact_eq_cons v
    rw [compactItems_cons, hv, List.cons_append, List.cons_append, List.cons.injEq] at heq
    rw [heq.1] at hc
    cases hc
  cases vs with
  | nil =>
      cases ws with
      | nil =>
          exact h
      | cons w ws =>
          exact absurd h.symm hend
  | cons v vs =>
      cases ws with
      | nil =>
          exact absurd h hend
      | cons w ws =>
          rw [compactItems_cons, compactItems_cons] at h
          exact congrArg (',' :: ·) h

theorem entriesTail_of_compactEntries
    {m n : List (String × Value)}
    (h : compactEntries m ++ '\x7d' :: r = compactEntries n ++ '\x7d' :: s) :
    entriesTail m ++ '\x7d' :: r = entriesTail n ++ '\x7d' :: s := by
  have hend : ∀ {e : String × Value} {m : List (String × Value)} {r s : List Char},
      compactEntries (e :: m) ++ r ≠ '\x7d' :: s := by
    rintro ⟨k, v⟩ m r s heq
    rw [compactEntries_cons, List.append_assoc, quote_append] at heq
    cases (List.cons.inj heq).1
  cases m with
  | nil =>
      cases n with
      | nil =>
          exact h
      | cons f n =>
          exact absurd h.symm hend
  | cons e m =>
      cases n with
      | nil =>
          exact absurd h hend
      | cons f n =>
          rw [compactEntries_cons, compactEntries_cons] at h
          exact congrArg (',' :: ·) h

end Members

/-! ## Equal texts -/

mutual

/-- Equal texts in front of what ends a value are texts of the same value. -/
theorem compact_append_inj
    (v w : Value)
    {r s : List Char}
    (hr : Ended r)
    (hs : Ended s)
    (h : compact v ++ r = compact w ++ s) :
    v.inJson = w.inJson ∧ r = s := by
  have hopening := opening?_eq_of_compact_append h
  match v with
  | .seq vs =>
      cases w with
      | seq ws =>
          rw [compact.eq_def, compact.eq_def] at h
          simp only [List.cons_append, List.append_assoc, List.cons.injEq, true_and,
            List.nil_append] at h
          obtain ⟨hitems, hrest⟩ :=
            itemsTail_append_inj vs ws (itemsTail_of_compactItems h)
          exact ⟨congrArg Value.seq hitems, hrest⟩
      | null | bool b | int n | float x | str t | map n =>
          cases hopening
  | .map m =>
      cases w with
      | map n =>
          rw [compact.eq_def, compact.eq_def] at h
          simp only [List.cons_append, List.append_assoc, List.cons.injEq, true_and,
            List.nil_append] at h
          obtain ⟨hentries, hrest⟩ :=
            entriesTail_append_inj m n (entriesTail_of_compactEntries h)
          exact ⟨congrArg Value.map hentries, hrest⟩
      | null | bool b | int n | float x | str t | seq ws =>
          cases hopening
  | .str a =>
      cases w with
      | str b =>
          rw [compact.eq_def, compact.eq_def] at h
          obtain ⟨rfl, hrest⟩ := quote_append_inj h
          exact ⟨rfl, hrest⟩
      | null | bool b | int n | float x | seq ws | map n =>
          cases hopening
  | .null | .bool _ | .int _ | .float _ =>
      rw [compact_of_opening?_eq_none rfl, compact_of_opening?_eq_none hopening.symm] at h
      exact scalar_append_inj rfl hopening.symm hr hs h

/-- Item by item. -/
theorem itemsTail_append_inj
    (vs ws : List Value)
    {r s : List Char}
    (h : itemsTail vs ++ ']' :: r = itemsTail ws ++ ']' :: s) :
    Value.inJsonItems vs = Value.inJsonItems ws ∧ r = s := by
  match vs, ws with
  | [], [] =>
      exact ⟨rfl, (List.cons.inj h).2⟩
  | [], _ :: _ =>
      cases (List.cons.inj h).1
  | _ :: _, [] =>
      cases (List.cons.inj h).1
  | v :: vs, w :: ws =>
      rw [itemsTail, itemsTail, List.cons_append, List.cons_append, List.append_assoc,
        List.append_assoc] at h
      obtain ⟨hvalue, htail⟩ :=
        compact_append_inj v w (ended_itemsTail vs r) (ended_itemsTail ws s) (List.cons.inj h).2
      obtain ⟨hitems, hrest⟩ := itemsTail_append_inj vs ws htail
      rw [Value.inJsonItems, Value.inJsonItems, hvalue, hitems]
      exact ⟨rfl, hrest⟩

/-- Entry by entry. -/
theorem entriesTail_append_inj
    (m n : List (String × Value))
    {r s : List Char}
    (h : entriesTail m ++ '\x7d' :: r = entriesTail n ++ '\x7d' :: s) :
    Value.inJsonEntries m = Value.inJsonEntries n ∧ r = s := by
  match m, n with
  | [], [] =>
      exact ⟨rfl, (List.cons.inj h).2⟩
  | [], _ :: _ =>
      cases (List.cons.inj h).1
  | _ :: _, [] =>
      cases (List.cons.inj h).1
  | (k, v) :: m, (l, w) :: n =>
      rw [entriesTail, entriesTail, List.cons_append, List.cons_append, List.append_assoc,
        List.append_assoc, List.cons_append, List.cons_append, List.append_assoc,
        List.append_assoc] at h
      obtain ⟨hkey, hcolon⟩ := quote_append_inj (List.cons.inj h).2
      obtain ⟨hvalue, htail⟩ :=
        compact_append_inj v w (ended_entriesTail m r) (ended_entriesTail n s)
          (List.cons.inj hcolon).2
      obtain ⟨hentries, hrest⟩ := entriesTail_append_inj m n htail
      rw [Value.inJsonEntries, Value.inJsonEntries, hkey, hvalue, hentries]
      exact ⟨rfl, hrest⟩

end

mutual

/-- A value and what it is in JSON have the same text. -/
theorem compact_inJson (v : Value) : compact v.inJson = compact v := by
  match v with
  | .float x =>
      cases x with
      | finite s m k hcanonical =>
          rfl
      | infinity s | nan =>
          rw [Value.inJson, compact.eq_def, compact.eq_def]
          rfl
  | .seq vs =>
      rw [Value.inJson, compact.eq_def, compact.eq_def]
      simp only [compactItems_eq_drop, itemsTail_inJson vs]
  | .map m =>
      rw [Value.inJson, compact.eq_def, compact.eq_def]
      simp only [compactEntries_eq_drop, entriesTail_inJson m]
  | .null | .bool _ | .int _ | .str _ =>
      rfl

theorem itemsTail_inJson (vs : List Value) : itemsTail (Value.inJsonItems vs) = itemsTail vs := by
  match vs with
  | [] =>
      rfl
  | v :: vs =>
      rw [Value.inJsonItems, itemsTail, itemsTail, compact_inJson v, itemsTail_inJson vs]

theorem entriesTail_inJson
    (m : List (String × Value)) :
    entriesTail (Value.inJsonEntries m) = entriesTail m := by
  match m with
  | [] =>
      rfl
  | (k, v) :: m =>
      rw [Value.inJsonEntries, entriesTail, entriesTail, compact_inJson v, entriesTail_inJson m]

end

/-- Two values have the same text exactly if they are the same in JSON. -/
theorem compactText_eq_iff
    (v w : Value) :
    compactText v = compactText w ↔ v.inJson = w.inJson := by
  rw [compactText, compactText]
  constructor
  · intro h
    have htext : compact v = compact w := by
      rw [← String.toList_ofList (l := compact v), h, String.toList_ofList]
    have hended : Ended [] := rfl
    exact (compact_append_inj v w hended hended (congrArg (· ++ []) htext)).1
  · intro h
    rw [← compact_inJson v, h, compact_inJson w]

end Dashboard.Json

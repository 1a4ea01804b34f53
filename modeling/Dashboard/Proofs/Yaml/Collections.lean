import Dashboard.Proofs.Yaml.Fronts
import Dashboard.Proofs.Yaml.Roots

/-!
# Collections in brackets

A text that opens with a bracket is read as one node only if nothing but blanks
comes behind the bracket that closes it, or else a comment, the end of the line
or the colon of a key.  The bracket that closes it is the one behind which the
scanner has no bracket open any more.
-/

namespace Dashboard.Yaml

open Cursor

/-- The tokens that may stand behind a node outside brackets. -/
def Token.endsNode : Token → Bool
  | .streamEnd | .documentEnd | .value | .key | .blockEnd => true
  | _ => false

/-- The text ends here, or a comment, a line break or the colon behind a key
comes next. -/
def atNodeEnd : List Char → Bool
  | [] => true
  | c :: cs => isBreak c || c == '#' || (c == ':' && atGap cs)

namespace Scanner

variable {b : Bracket}
variable {m : Nat}
variable {s t : Scanner}

/-- The text behind the first step after which no bracket is open. -/
def behindBrackets? : Nat → Scanner → Option (List Char)
  | 0, _ => none
  | steps + 1, s => do
    let s ← s.step?
    if s.inFlow then behindBrackets? steps s else return s.cursor.rest

/-! ## Inside the bracket that opens the text -/

/-- The tokens open with a bracket, and `m` more are open. -/
structure Inside (b : Bracket) (m : Nat) (s : Scanner) : Prop where
  tokens : ∃ inner, s.tokens = inner ++ [b.opening] ∧ nesting 0 inner.reverse = some m
  count : s.tokenCount = s.tokens.length
  keys : s.Keys (fun k => k.tokenCount = 0) fun k => 1 ≤ k.tokenCount
  brackets : s.flowKeys.length = m + 1
  indent : s.indent = -1

theorem nesting_reverse_cons
    {u : Token}
    {us : List Token} :
    nesting 0 (u :: us).reverse = (nesting 0 us.reverse).bind fun n => u.nest n := by
  rw [List.reverse_cons, nesting_append]
  refine congrArg _ (funext fun n => ?_)
  rw [nesting_cons]
  cases u.nest n <;> rfl

/-- A token between two others that leaves the depth as it is. -/
theorem nesting_insert
    {u : Token}
    (hu : ∀ n, u.nest n = some n)
    (us vs : List Token) :
    nesting m (us ++ u :: vs) = nesting m (us ++ vs) := by
  rw [nesting_append, nesting_append]
  refine congrArg _ (funext fun n => ?_)
  rw [nesting_cons, hu]
  rfl

theorem Inside.flowKeys_ne_nil
    (h : Inside b m s) :
    s.flowKeys ≠ [] := by
  intro hnil
  have hlength := h.brackets
  rw [hnil] at hlength
  cases hlength

/-- One more token that is no bracket. -/
theorem Inside.push
    (h : Inside b m s)
    {u : Token}
    (hu : ∀ n, u.nest n = some n)
    (htokens : t.tokens = u :: s.tokens)
    (hcount : t.tokenCount = s.tokenCount + 1)
    (hblock : t.blockKey = s.blockKey)
    (hflow : t.flowKeys = s.flowKeys)
    (hindent : t.indent = s.indent) :
    Inside b m t := by
  obtain ⟨inner, heq, hnesting⟩ := h.tokens
  refine ⟨⟨u :: inner, ?_, ?_⟩, ?_, ⟨?_, ?_⟩, ?_, ?_⟩
  · rw [htokens, heq, List.cons_append]
  · rw [nesting_reverse_cons, hnesting, Option.bind_some, hu]
  · rw [htokens, hcount, h.count, List.length_cons]
  · rw [hblock]
    exact h.keys.block
  · rw [hflow]
    exact h.keys.flow
  · rw [hflow]
    exact h.brackets
  · rw [hindent]
    exact h.indent

theorem Inside.setCandidate
    (h : Inside b m s)
    {o : Option Candidate}
    (ho : ∀ k ∈ o, 1 ≤ k.tokenCount) :
    Inside b m (s.setCandidate o) := by
  have hkeys := h.keys.setCandidate (fun hnil => absurd hnil h.flowKeys_ne_nil) fun _ => ho
  refine ⟨?_, ?_, hkeys, ?_, ?_⟩
  · rw [setCandidate_tokens]
    exact h.tokens
  · rw [setCandidate_tokens, setCandidate_tokenCount]
    exact h.count
  · rw [length_setCandidate_flowKeys]
    exact h.brackets
  · rw [setCandidate_indent]
    exact h.indent

/-- A key inside the brackets leaves the one in front of it, and their number. -/
theorem Inside.asKey
    (h : Inside b m s)
    {k : Candidate}
    (hk : s.candidate = some k) :
    Inside b m (s.asKey k) := by
  have hpos : 1 ≤ k.tokenCount := by
    rcases h.keys.of_candidate hk with ⟨hnil, -⟩ | ⟨-, hpos⟩
    · exact absurd hnil h.flowKeys_ne_nil
    · exact hpos
  obtain ⟨inner, heq, hnesting⟩ := h.tokens
  have hlater : s.tokenCount - k.tokenCount ≤ inner.length := by
    rw [h.count, heq, List.length_append, List.length_singleton]
    omega
  have hinsert : Inside b m (s.insert k.tokenCount .key) := by
    generalize hn : s.tokenCount - k.tokenCount = n at hlater
    refine ⟨⟨inner.take n ++ .key :: inner.drop n, ?_, ?_⟩, length_insert _ h.count _,
      ⟨h.keys.block, h.keys.flow⟩, h.brackets, h.indent⟩
    · simp only [insert, hn]
      rw [heq, List.take_append_of_le_length hlater, List.drop_append_of_le_length hlater,
        List.append_assoc, List.cons_append]
    · rw [List.reverse_append, List.reverse_cons, List.append_assoc, List.singleton_append,
        nesting_insert (fun _ => rfl), ← List.reverse_append, List.take_append_drop, hnesting]
  rw [asKey_of_inFlow k h.flowKeys_ne_nil]
  exact hinsert.setCandidate (by rintro _ ⟨⟩)

theorem Inside.moves
    (h : Inside b m s)
    (hmoves : Moves s t) :
    Inside b m t := by
  induction hmoves with
  | refl s =>
      exact h
  | trans _ _ ih ih' =>
      exact ih' (ih h)
  | advance s c allowed _ =>
      exact ⟨h.tokens, h.count, ⟨h.keys.block, h.keys.flow⟩, h.brackets, h.indent⟩
  | drop s =>
      exact h.setCandidate (by rintro _ ⟨⟩)
  | lapse hs =>
      have hkeys := h.keys.lapse hs
      obtain ⟨_, _, rfl, -, hlength, -⟩ := exists_of_expireAll? hs
      exact ⟨h.tokens, h.count, hkeys, hlength.trans h.brackets, h.indent⟩
  | save s k hk =>
      refine h.setCandidate fun k' hk' => ?_
      cases hk'
      obtain ⟨inner, heq, -⟩ := h.tokens
      rw [hk, h.count, heq, List.length_append]
      exact Nat.le_add_left 1 _
  | blocks s indent outer hnil =>
      exact absurd hnil h.flowKeys_ne_nil
  | key s k hk =>
      exact h.asKey hk
  | mark s u hu =>
      exact h.push (fun _ => nest_of_isMark hu) rfl rfl rfl rfl rfl
  | scalar s text plain c allowed _ _ =>
      exact h.push (fun _ => rfl) rfl rfl rfl rfl rfl

theorem Inside.opening
    (h : Inside b m s)
    (c : Bracket) :
    Inside b (m + 1)
      ({ s with flowKeys := none :: s.flowKeys, keyAllowed := true }.take 1 c.opening) := by
  obtain ⟨inner, heq, hnesting⟩ := h.tokens
  refine ⟨⟨c.opening :: inner, ?_, ?_⟩, congrArg Nat.succ h.count, ⟨h.keys.block, ?_⟩,
    congrArg Nat.succ h.brackets, h.indent⟩
  · exact congrArg (List.cons c.opening) heq
  · rw [nesting_reverse_cons, hnesting, Option.bind_some, nest_opening]
  · intro o ho k hk
    rcases List.mem_cons.1 ho with rfl | ho
    · cases hk
    · exact h.keys.flow o ho k hk

theorem Inside.closing
    (h : Inside b (m + 1) s)
    (c : Bracket) :
    Inside b m
      ({ s with flowKeys := s.flowKeys.tail, keyAllowed := false }.take 1 c.closing) := by
  obtain ⟨inner, heq, hnesting⟩ := h.tokens
  refine ⟨⟨c.closing :: inner, ?_, ?_⟩, congrArg Nat.succ h.count, ⟨h.keys.block, ?_⟩, ?_,
    h.indent⟩
  · exact congrArg (List.cons c.closing) heq
  · rw [nesting_reverse_cons, hnesting, Option.bind_some, nest_closing_succ]
  · exact fun o ho => h.keys.flow o (List.mem_of_mem_tail ho)
  · show s.flowKeys.tail.length = m + 1
    rw [List.length_tail, h.brackets]
    rfl

/-! ## Behind the bracket that closes the text -/

/-- The bracket that opens the tokens has just been closed. -/
structure Closed (b c : Bracket) (s : Scanner) : Prop extends Outside s where
  tokens : ∃ inner, s.tokens = c.closing :: (inner ++ [b.opening]) ∧
    nesting 0 inner.reverse = some 0
  keyAllowed : s.keyAllowed = false
  column : s.cursor.column ≠ 0

theorem Inside.closed
    (h : Inside b 0 s)
    {c : Bracket}
    {cs : List Char}
    (hrest : s.cursor.rest = c.right :: cs) :
    Closed b c ({ s with flowKeys := s.flowKeys.tail, keyAllowed := false }.take 1 c.closing) := by
  obtain ⟨inner, heq, hnesting⟩ := h.tokens
  refine ⟨⟨congrArg Nat.succ h.count, h.keys.block, ?_, h.indent⟩, ⟨inner, ?_, hnesting⟩, rfl, ?_⟩
  · show s.flowKeys.tail = []
    rw [← List.length_eq_zero_iff, List.length_tail, h.brackets]
  · exact congrArg (List.cons c.closing) heq
  · show (s.cursor.skip).column ≠ 0
    rw [skip, hrest]
    exact Nat.succ_ne_zero _

theorem rest_skip
    {c : Cursor}
    {x : Char}
    {cs : List Char}
    (h : c.rest = x :: cs) :
    c.skip.rest = cs := by
  rw [skip, h]

/-- A run from inside the first bracket ends there, or comes to the step that
closes it. -/
theorem Inside.run?
    {steps : Nat}
    {e : Scanner}
    (h : Inside b m s)
    (hrun : s.run? steps = some e) :
    (∃ n, Inside b n e) ∨
      ∃ c r left, Closed b c r ∧ c.right :: r.cursor.rest <:+ s.cursor.rest ∧
        behindBrackets? steps s = some r.cursor.rest ∧ r.run? left = some e := by
  induction steps generalizing s m with
  | zero =>
      cases hrun
  | succ steps ih =>
      simp only [Scanner.run?, Option.bind_eq_bind, Option.bind_eq_some_iff] at hrun
      obtain ⟨r, hstep, hrun⟩ := hrun
      have hahead := (step_of_step? hstep).ahead
      have hwithin : ∀ {n : Nat}, Inside b n r → (∃ n, Inside b n e) ∨
          ∃ c r left, Closed b c r ∧ c.right :: r.cursor.rest <:+ s.cursor.rest ∧
            behindBrackets? (steps + 1) s = some r.cursor.rest ∧ r.run? left = some e := by
        intro n hr
        have hflow : r.inFlow = true := by
          simpa [inFlow] using hr.flowKeys_ne_nil
        have hnext : behindBrackets? (steps + 1) s = behindBrackets? steps r := by
          simp only [behindBrackets?, hstep, Option.bind_eq_bind, Option.bind_some, hflow, if_true]
        split at hrun
        · cases hrun
          exact .inl ⟨n, hr⟩
        · rw [hnext]
          rcases ih hr hrun with hinside | ⟨c, r', left, hclosed, hsuffix, hbehind⟩
          · exact .inl hinside
          · exact .inr ⟨c, r', left, hclosed, hsuffix.trans hahead, hbehind⟩
      cases step_of_step? hstep with
      | within hmoves =>
          exact hwithin (h.moves hmoves)
      | opening c cs hmoves _ =>
          exact hwithin ((h.moves hmoves).opening c)
      | @closing r c cs hmoves hrest =>
          cases m with
          | succ m =>
              exact hwithin ((h.moves hmoves).closing c)
          | zero =>
              have hclosed := (h.moves hmoves).closed hrest
              have hlast : Scanner.run? steps ({ r with
                  flowKeys := r.flowKeys.tail, keyAllowed := false }.take 1 c.closing) = some e := by
                cases c <;> exact hrun
              refine .inr ⟨c, _, steps, hclosed, ?_, ?_, hlast⟩
              · show c.right :: r.cursor.skip.rest <:+ s.cursor.rest
                rw [rest_skip hrest, ← hrest]
                exact hmoves.ahead
              · have hflow : inFlow ({ r with
                    flowKeys := r.flowKeys.tail, keyAllowed := false }.take 1 c.closing) = false := by
                  simpa [inFlow] using hclosed.flowKeys
                simp only [behindBrackets?, hstep, Option.bind_eq_bind, Option.bind_some, hflow]
                rfl

/-! ## The token behind it -/

/-- One token is taken, and no new candidate for a key is remembered. -/
structure Takes (u : Token) (s t : Scanner) : Prop where
  tokens : t.tokens = u :: s.tokens
  count : t.tokenCount = s.tokenCount + 1
  block : t.blockKey = none ∨ t.blockKey = s.blockKey
  flow : ∀ o ∈ t.flowKeys, o = none

theorem eq_of_saveCandidate?
    (hallowed : s.keyAllowed = false)
    (h : s.saveCandidate? = some t) :
    t = s := by
  rw [saveCandidate?, hallowed] at h
  cases h
  rfl

theorem eq_of_dropCandidate?
    (hflow : s.flowKeys = [])
    (h : s.dropCandidate? = some t) :
    t = s ∨ t = { s with blockKey := none } := by
  rw [dropCandidate?] at h
  split at h
  · split at h
    · cases h
    · cases h
      rw [Scanner.setCandidate]
      simp only [hflow, or_true]
  · cases h
    exact .inl rfl

section Behind

variable {u : Token}

theorem takes_push
    {r : Scanner}
    (hr : r = s ∨ r = { s with blockKey := none })
    (hflow : s.flowKeys = [])
    (cursor : Cursor)
    (allowed : Bool)
    (u : Token) :
    Takes u s ({ r with cursor, keyAllowed := allowed }.push u) := by
  rcases hr with rfl | rfl
  · exact ⟨rfl, rfl, .inr rfl, by simp [push, hflow]⟩
  · exact ⟨rfl, rfl, .inl rfl, by simp [push, hflow]⟩

theorem takes_takeOpening?
    (hflow : s.flowKeys = [])
    (hallowed : s.keyAllowed = false)
    (h : s.takeOpening? u = some t) :
    Takes u s t := by
  simp only [takeOpening?, Option.bind_eq_bind, Option.bind_eq_some_iff, Option.pure_def,
    Option.some.injEq] at h
  obtain ⟨r, hr, rfl⟩ := h
  obtain rfl := eq_of_saveCandidate? hallowed hr
  refine ⟨rfl, rfl, .inr rfl, ?_⟩
  simp [take, push, hflow]

theorem takes_takeClosing?
    (hflow : s.flowKeys = [])
    (h : s.takeClosing? u = some t) :
    Takes u s t := by
  simp only [takeClosing?, Option.bind_eq_bind, Option.bind_eq_some_iff, Option.pure_def,
    Option.some.injEq] at h
  obtain ⟨r, hr, rfl⟩ := h
  rcases eq_of_dropCandidate? hflow hr with rfl | rfl
  · exact ⟨rfl, rfl, .inr rfl, by simp [take, push, hflow]⟩
  · exact ⟨rfl, rfl, .inl rfl, by simp [take, push, hflow]⟩

theorem takes_takeFlowEntry?
    (hflow : s.flowKeys = [])
    (h : s.takeFlowEntry? = some t) :
    Takes .flowEntry s t := by
  simp only [ takeFlowEntry?, Option.bind_eq_bind, Option.bind_eq_some_iff, Option.pure_def,
    Option.some.injEq] at h
  obtain ⟨r, hr, rfl⟩ := h
  exact takes_push (eq_of_dropCandidate? hflow hr) hflow _ true .flowEntry

theorem exists_takes_takeName?
    (hflow : s.flowKeys = [])
    (hallowed : s.keyAllowed = false)
    {m : String → Token}
    (h : s.takeName? m = some t) :
    ∃ name, Takes (m name) s t := by
  simp only [takeName?, Option.bind_eq_bind, Option.bind_eq_some_iff, Option.pure_def,
    Option.some.injEq] at h
  obtain ⟨r, hr, ⟨name, c⟩, -, rfl⟩ := h
  exact ⟨name, takes_push (.inl (eq_of_saveCandidate? hallowed hr)) hflow c false (m name)⟩

theorem exists_takes_takeTag?
    (hflow : s.flowKeys = [])
    (hallowed : s.keyAllowed = false)
    (h : s.takeTag? = some t) :
    ∃ handle suffix, Takes (.tag handle suffix) s t := by
  simp only [takeTag?, Option.bind_eq_bind, Option.bind_eq_some_iff, Option.pure_def,
    Option.some.injEq] at h
  obtain ⟨r, hr, ⟨m, c⟩, hread, rfl⟩ := h
  obtain ⟨-, handle, suffix, rfl⟩ := ahead_readTag? hread
  exact ⟨handle, suffix, takes_push (.inl (eq_of_saveCandidate? hallowed hr)) hflow c false _⟩

theorem exists_takes_takeBlockScalar?
    (hflow : s.flowKeys = [])
    {literal : Bool}
    (h : s.takeBlockScalar? literal = some t) :
    ∃ text plain, Takes (.scalar text plain) s t := by
  simp only [takeBlockScalar?, Option.bind_eq_bind, Option.bind_eq_some_iff, Option.pure_def,
    Option.some.injEq] at h
  obtain ⟨r, hr, ⟨text, c⟩, -, rfl⟩ := h
  exact ⟨_, _, takes_push (eq_of_dropCandidate? hflow hr) hflow c true _⟩

theorem exists_takes_takeQuoted?
    (hflow : s.flowKeys = [])
    (hallowed : s.keyAllowed = false)
    {double : Bool}
    (h : s.takeQuoted? double = some t) :
    ∃ text plain, Takes (.scalar text plain) s t := by
  simp only [takeQuoted?, Option.bind_eq_bind, Option.bind_eq_some_iff, Option.pure_def,
    Option.some.injEq] at h
  obtain ⟨r, hr, ⟨text, c⟩, -, rfl⟩ := h
  exact ⟨_, _, takes_push (.inl (eq_of_saveCandidate? hallowed hr)) hflow c false _⟩

theorem exists_takes_takePlain?
    (hflow : s.flowKeys = [])
    (hallowed : s.keyAllowed = false)
    (h : s.takePlain? = some t) :
    ∃ text plain, Takes (.scalar text plain) s t := by
  simp only [takePlain?, Option.bind_eq_bind, Option.bind_eq_some_iff, Option.pure_def,
    Option.some.injEq] at h
  obtain ⟨r, hr, ⟨text, broken, c⟩, -, rfl⟩ := h
  exact ⟨_, _, takes_push (.inl (eq_of_saveCandidate? hallowed hr)) hflow c broken _⟩

/-- On a line where no key may start, any other token may come only where no node
ends. -/
theorem exists_takes_takeToken?
    {x : Char}
    {xs : List Char}
    (hrest : s.cursor.rest = x :: xs)
    (hends : atNodeEnd (x :: xs) = false)
    (hcolumn : s.cursor.column ≠ 0)
    (hallowed : s.keyAllowed = false)
    (hflow : s.flowKeys = [])
    (h : s.takeToken? = some t) :
    ∃ u, u.endsNode = false ∧ Takes u s t := by
  have houtside : s.inFlow = false := by
    simpa [inFlow] using hflow
  have hscalar : (∃ text plain, Takes (.scalar text plain) s t) →
      ∃ u, u.endsNode = false ∧ Takes u s t := by
    rintro ⟨_, _, h⟩
    exact ⟨_, rfl, h⟩
  have hname : ∀ {m : String → Token}, (∀ name, (m name).endsNode = false) →
      s.takeName? m = some t → ∃ u, u.endsNode = false ∧ Takes u s t := by
    intro m hm h
    obtain ⟨name, h⟩ := exists_takes_takeName? hflow hallowed h
    exact ⟨m name, hm name, h⟩
  rw [takeToken?.eq_def, hrest] at h
  revert h
  refine of_ite (fun hc => absurd hc (by simp [hcolumn])) fun _ => ?_
  refine of_ite (fun hc => absurd hc (by simp [atDocumentMark, hcolumn])) fun _ => ?_
  refine of_ite (fun _ h => ⟨_, rfl, takes_takeOpening? hflow hallowed h⟩) fun _ => ?_
  refine of_ite (fun _ h => ⟨_, rfl, takes_takeOpening? hflow hallowed h⟩) fun _ => ?_
  refine of_ite (fun _ h => ⟨_, rfl, takes_takeClosing? hflow h⟩) fun _ => ?_
  refine of_ite (fun _ h => ⟨_, rfl, takes_takeClosing? hflow h⟩) fun _ => ?_
  refine of_ite (fun _ h => ⟨_, rfl, takes_takeFlowEntry? hflow h⟩) fun _ => ?_
  refine of_ite (fun _ h => ?_) fun _ => ?_
  · simp [ takeBlockEntry?, houtside, hallowed] at h
  refine of_ite (fun _ h => ?_) fun _ => ?_
  · simp [takeKey?, houtside, hallowed] at h
  refine of_ite (fun hc _ => ?_) fun _ => ?_
  · rw [houtside, Bool.false_or] at hc
    simp only [atNodeEnd, hc, Bool.or_true] at hends
    cases hends
  refine of_ite (fun _ h => hname (fun _ => rfl) h) fun _ => ?_
  refine of_ite (fun _ h => hname (fun _ => rfl) h) fun _ => ?_
  refine of_ite (fun _ h => ?_) fun _ => ?_
  · obtain ⟨handle, suffix, h⟩ := exists_takes_takeTag? hflow hallowed h
    exact ⟨_, rfl, h⟩
  refine of_ite (fun _ h => hscalar (exists_takes_takeBlockScalar? hflow h)) fun _ => ?_
  refine of_ite (fun _ h => hscalar (exists_takes_takeBlockScalar? hflow h)) fun _ => ?_
  refine of_ite (fun _ h => hscalar (exists_takes_takeQuoted? hflow hallowed h)) fun _ => ?_
  refine of_ite (fun _ h => hscalar (exists_takes_takeQuoted? hflow hallowed h)) fun _ => ?_
  refine of_ite (fun _ h => hscalar (exists_takes_takePlain? hflow hallowed h)) fun _ h => ?_
  cases h

/-- Blanks are skipped on a line where no key may start. -/
theorem skipGaps_blanks
    (steps : Nat)
    (hcolumn : s.cursor.column ≠ 0)
    (hallowed : s.keyAllowed = false)
    (hends : atNodeEnd (s.cursor.rest.dropWhile isSpace) = false) :
    s.skipGaps (steps + 1) = { s with cursor := s.cursor.skipWhile isSpace } := by
  have hstart : (s.cursor.column == 0 && s.cursor.rest.head? == some byteOrderMark) = false := by
    simp [hcolumn]
  have hblank : (fun x => x == ' ' || ((s.inFlow || !s.keyAllowed) && x == '\t')) = isSpace := by
    funext x
    simp [hallowed, isSpace]
  have hrest : (s.cursor.skipWhile isSpace).rest = s.cursor.rest.dropWhile isSpace := rfl
  have hcomment : (s.cursor.skipWhile isSpace).skipComment = s.cursor.skipWhile isSpace := by
    rw [skipComment]
    split
    · next heq =>
        rw [← hrest, heq] at hends
        simp [atNodeEnd] at hends
    · rfl
  rw [skipGaps]
  simp only [hstart, hblank, Bool.false_eq_true, if_false, hcomment]
  split
  · next heq =>
      rw [← hrest, heq] at hends
      split
      · next hbreak =>
          simp [atNodeEnd, hbreak] at hends
      · rfl
  · rfl

/-- The next token behind the closing bracket, where no node may end. -/
theorem Closed.exists_onBase
    {b c : Bracket}
    (h : Closed b c s)
    (hends : atNodeEnd (s.cursor.rest.dropWhile isSpace) = false)
    (hstep : s.step? = some t) :
    ∃ u, u.endsNode = false ∧ t.tokens = u :: s.tokens ∧ OnBase t.tokens t := by
  obtain ⟨r, hr, hcursor, htokens, hallowed, htake⟩ :=
    h.exists_of_step? (skipGaps_blanks _ h.column h.keyAllowed hends) hstep
  have hcolumn : r.cursor.column ≠ 0 := by
    rw [hcursor]
    exact fun hzero => h.column (Nat.eq_zero_of_add_eq_zero_right hzero)
  cases hrest : s.cursor.rest.dropWhile isSpace with
  | nil =>
      rw [hrest] at hends
      cases hends
  | cons x xs =>
      rw [hrest] at hends
      have hnext : r.cursor.rest = x :: xs := by
        rw [hcursor]
        exact hrest
      obtain ⟨u, hu, htakes⟩ := exists_takes_takeToken? hnext hends hcolumn
        (hallowed.trans h.keyAllowed) hr.flowKeys htake
      refine ⟨u, hu, by rw [htakes.tokens, htokens], onBase_self ?_ ?_ htakes.flow⟩
      · rw [htakes.tokens, htakes.count, hr.count, List.length_cons]
      · intro k hk
        rcases htakes.block with hnone | hsame
        · rw [hnone] at hk
          cases hk
        · exact hr.block k (hsame ▸ hk)

end Behind

end Scanner

/-- What stands behind the bracket that closes the first one, in the tokens of a
document: its own closing mark, and a token that may follow a node. -/
theorem behind_closing
    {b c : Bracket}
    {front inner more : List Token}
    {n : Node}
    (hfront : Scanner.Front front)
    (hinner : nesting 0 inner = some 0)
    (hlone : ¬HasLoneKey (front.reverse ++ (b.opening :: (inner ++ c.closing :: more))))
    (h : Node.readDocument? (front.reverse ++ (b.opening :: (inner ++ c.closing :: more))) =
      some (some n)) :
    c = b ∧ ∃ u us, more = u :: us ∧ u.endsNode = true := by
  have hmatch : ∀ {us : List Token},
      Closes b (inner ++ c.closing :: more) us → c = b ∧ more = us := by
    rintro us ⟨taken, htaken, hbalanced⟩
    obtain ⟨-, heq⟩ := eq_of_nesting hinner (hbalanced 0) htaken
    obtain ⟨hclosing, rfl⟩ := List.cons.inj heq
    refine ⟨?_, rfl⟩
    cases b <;> cases c <;> first | rfl | cases hclosing
  cases hfront with
  | none =>
      obtain ⟨us, hcloses, hends⟩ := Node.closes_of_readDocument? (not_hasLoneKey_tail hlone) h
      obtain ⟨hsame, rfl⟩ := hmatch hcloses
      refine ⟨hsame, ?_⟩
      rw [Node.endsStream.eq_def] at hends
      split at hends
      · exact ⟨_, _, rfl, rfl⟩
      · exact ⟨_, _, rfl, rfl⟩
      · cases hends
  | key =>
      rw [List.reverse_singleton, List.singleton_append, Node.readDocument?_key] at h
      cases h
  | block =>
      have hlone' := not_hasLoneKey_tail (not_hasLoneKey_tail (not_hasLoneKey_tail hlone))
      obtain ⟨u, us, hcloses, hu⟩ := Node.closes_of_readDocument?_key hlone' h
      obtain ⟨hsame, rfl⟩ := hmatch hcloses
      refine ⟨hsame, u, us, rfl, ?_⟩
      rcases hu with rfl | rfl | rfl <;> rfl

namespace Scanner

variable {s e : Scanner}
variable {b c : Bracket}
variable {steps : Nat}
variable {n : Node}

theorem Closed.nodeEnds
    (h : Closed b c s)
    (hrun : s.run? steps = some e)
    (hlone : ¬HasLoneKey e.tokens.reverse)
    (hdocument : Node.readDocument? e.tokens.reverse = some (some n)) :
    c = b ∧ atNodeEnd (s.cursor.rest.dropWhile isSpace) = true := by
  obtain ⟨inner, htokens, hinner⟩ := h.tokens
  have hreverse : ∀ more, s.tokens.reverse ++ more =
      b.opening :: (inner.reverse ++ c.closing :: more) := by
    intro more
    rw [htokens]
    simp
  have hbehind : ∀ {front more}, Front front →
      e.tokens.reverse = front.reverse ++ (s.tokens.reverse ++ more) →
        c = b ∧ ∃ u us, more = u :: us ∧ u.endsNode = true := by
    intro front more hfront heq
    rw [heq, hreverse] at hlone hdocument
    exact behind_closing hfront hinner hlone hdocument
  obtain ⟨front, more, hfront, heq⟩ := h.onBase.exists_reverse hrun
  refine ⟨(hbehind hfront heq).1, Classical.byContradiction fun hnot => ?_⟩
  have hends := Bool.eq_false_iff.2 hnot
  obtain ⟨r, left, hstep, -, hnext⟩ := exists_of_run? hrun
  obtain ⟨u, hu, hr, hbase⟩ := h.exists_onBase hends hstep
  rcases hnext with ⟨hend, -⟩ | ⟨-, hnext⟩
  · rw [hr] at hend
    cases hend
    cases hu
  · obtain ⟨front, more, hfront, heq⟩ := hbase.exists_reverse hnext
    rw [hr, List.reverse_cons, List.append_assoc, List.singleton_append] at heq
    obtain ⟨-, v, vs, hv, hends⟩ := hbehind hfront heq
    cases hv
    rw [hu] at hends
    cases hends

/-- At the start of a text the first step takes the token that opens there. -/
theorem step?_start
    {cs : List Char}
    (h : opensToken cs = true) :
    ({ cursor := .start cs } : Scanner).step? = ({ cursor := .start cs } : Scanner).takeToken? := by
  have hstay : ({ cursor := .start cs } : Scanner).skipGaps (cs.length + 1) =
      { cursor := .start cs } :=
    skipGaps_of_opensToken _ h
  rw [step?, show (Cursor.start cs).rest.length = cs.length from rfl, hstay]
  rfl

theorem exists_inside_start
    (b : Bracket)
    (cs : List Char) :
    ∃ s, ({ cursor := .start (b.left :: cs) } : Scanner).step? = some s ∧ Inside b 0 s ∧
      s.tokens = [b.opening] ∧ s.cursor.rest = cs := by
  have hopens : opensToken (b.left :: cs) = true := by
    cases b <;> rfl
  refine ⟨{ cursor := ⟨cs, 1, 0, 1⟩, blockKey := some ⟨false, 0, 0, 0, 0⟩, flowKeys := [none],
            tokens := [b.opening], tokenCount := 1 }, ?_, ?_, rfl, rfl⟩
  · rw [step?_start hopens]
    cases b <;> rfl
  · refine ⟨⟨[], rfl, rfl⟩, rfl, ⟨?_, ?_⟩, rfl, rfl⟩
    · rintro k hk
      cases hk
      rfl
    · rintro o ho k hk
      rw [List.mem_singleton.1 ho] at hk
      cases hk

end Scanner

/-- The text behind the bracket that closes the one a text opens with. -/
def behindBracket? (cs : List Char) : Option (List Char) :=
  Scanner.behindBrackets? (cs.length + 2) { cursor := .start cs }

/-- A text that opens with a bracket and is a document goes on to the bracket
that closes it, and behind that the node ends. -/
theorem exists_behindBracket?
    {b : Bracket}
    {cs : List Char}
    {ts : List Token}
    {n : Node}
    (hscan : scan? (b.left :: cs) = some ts)
    (hlone : ¬HasLoneKey ts)
    (hdocument : Node.readDocument? ts = some (some n)) :
    ∃ r, behindBracket? (b.left :: cs) = some r ∧ b.right :: r <:+ cs ∧
      atNodeEnd (r.dropWhile isSpace) = true := by
  obtain ⟨s, hstep, hinside, htokens, hrest⟩ := Scanner.exists_inside_start b cs
  simp only [scan?, Scanner.run?, hstep, Option.bind_eq_bind, Option.bind_some,
    Option.bind_eq_some_iff, Option.pure_def, Option.some.injEq] at hscan
  obtain ⟨e, hrun, rfl⟩ := hscan
  have hflow : s.inFlow = true := by
    simpa [Scanner.inFlow] using hinside.flowKeys_ne_nil
  have hbehind : behindBracket? (b.left :: cs) =
      Scanner.behindBrackets? ((b.left :: cs).length + 1) s := by
    simp only [behindBracket?, Scanner.behindBrackets?, hstep, Option.bind_eq_bind,
      Option.bind_some, hflow, if_true]
  have hnext : s.run? ((b.left :: cs).length + 1) = some e := by
    rw [htokens] at hrun
    cases b <;> exact hrun
  rcases hinside.run? hnext with ⟨m, hend⟩ | ⟨c, t, left, hclosed, hsuffix, hrest', hlast⟩
  · -- the bracket is never closed, so no node is read
    obtain ⟨inner, htokens, hinner⟩ := hend.tokens
    rw [htokens, List.reverse_append, List.reverse_singleton, List.singleton_append]
      at hlone hdocument
    obtain ⟨us, ⟨taken, htaken, hbalanced⟩, -⟩ :=
      Node.closes_of_readDocument? (not_hasLoneKey_tail hlone) hdocument
    rw [htaken, nesting_append, hbalanced 0, Option.bind_some, nesting_cons, nest_closing_zero]
      at hinner
    cases hinner
  · obtain ⟨rfl, hends⟩ := hclosed.nodeEnds hlast hlone hdocument
    exact ⟨t.cursor.rest, hbehind.trans hrest', hrest ▸ hsuffix, hends⟩

end Dashboard.Yaml

import Dashboard.Proofs.Yaml.Length

/-!
# What a step of the scanner does

A step is a few single moves: the scanner goes on in the text, drops, saves and
uses candidates for keys, opens and closes blocks, and takes tokens.  It passes
one bracket at most, and that as the last thing it does.  What is known of all
scanners on the way is known from these moves alone.
-/

namespace Dashboard.Yaml

/-- The two kinds of brackets. -/
inductive Bracket where
  | square
  | brace
deriving DecidableEq, Repr

namespace Bracket

/-- The character that opens the bracket. -/
def left : Bracket → Char
  | square => '['
  | brace => '\x7b'

/-- The character that closes the bracket. -/
def right : Bracket → Char
  | square => ']'
  | brace => '\x7d'

/-- The token that opens the bracket. -/
def opening : Bracket → Token
  | square => .flowSequenceStart
  | brace => .flowMappingStart

/-- The token that closes the bracket. -/
def closing : Bracket → Token
  | square => .flowSequenceEnd
  | brace => .flowMappingEnd

end Bracket

/-- A token that is neither a scalar nor a bracket. -/
def Token.isMark : Token → Bool
  | .scalar .. | .flowSequenceStart | .flowSequenceEnd | .flowMappingStart | .flowMappingEnd =>
    false
  | _ => true

open Cursor

namespace Scanner

variable {s r t : Scanner}

/-- The candidate becomes a key: the mark of a key is put in front of what was
taken since, and outside brackets that of a block where one starts. -/
def asKey (s : Scanner) (k : Candidate) : Scanner :=
  ((s.insert k.tokenCount .key).openBlock k.column
    (·.insert k.tokenCount .blockMappingStart)).setCandidate none

/-- Single moves one after the other, none of which passes a bracket. -/
inductive Moves : Scanner → Scanner → Prop
  | refl (s : Scanner) : Moves s s
  | trans {s r t : Scanner} : Moves s r → Moves r t → Moves s t
  | advance (s : Scanner) (c : Cursor) (allowed : Bool) :
      s.cursor.Ahead c → Moves s { s with cursor := c, keyAllowed := allowed }
  | drop (s : Scanner) : Moves s (s.setCandidate none)
  | lapse {s t : Scanner} : s.expireAll? = some t → Moves s t
  | save (s : Scanner) (k : Candidate) :
      k.tokenCount = s.tokenCount → Moves s (s.setCandidate (some k))
  | blocks (s : Scanner) (indent : Int) (outer : List Int) :
      s.flowKeys = [] → Moves s { s with indent, outer }
  | key (s : Scanner) (k : Candidate) : s.candidate = some k → Moves s (s.asKey k)
  | mark (s : Scanner) (t : Token) : t.isMark = true → Moves s (s.push t)
  | scalar (s : Scanner) (text : List Char) (plain : Bool) (c : Cursor) (allowed : Bool) :
      s.cursor.Ahead c → text.length + c.left ≤ s.cursor.left →
        Moves s ({ s with keyAllowed := allowed, cursor := c }.push
          (.scalar (String.ofList text) plain))

/-- A step: single moves, and then perhaps a bracket. -/
inductive Step (s : Scanner) : Scanner → Prop
  | within {t : Scanner} (h : Moves s t) : Step s t
  | opening {r : Scanner} (b : Bracket) (cs : List Char) (h : Moves s r)
      (hrest : r.cursor.rest = b.left :: cs) :
      Step s ({ r with flowKeys := none :: r.flowKeys, keyAllowed := true }.take 1 b.opening)
  | closing {r : Scanner} (b : Bracket) (cs : List Char) (h : Moves s r)
      (hrest : r.cursor.rest = b.right :: cs) :
      Step s ({ r with flowKeys := r.flowKeys.tail, keyAllowed := false }.take 1 b.closing)

/-! ## The parts of a step -/

@[simp]
theorem setCandidate_cursor
    (s : Scanner)
    (k : Option Candidate) :
    (s.setCandidate k).cursor = s.cursor := by
  rw [setCandidate]
  split <;> rfl

theorem cursor_of_dropCandidate?
    (h : s.dropCandidate? = some t) :
    t.cursor = s.cursor := by
  rw [dropCandidate?] at h
  split at h
  · split at h
    · cases h
    · cases h
      exact setCandidate_cursor s none
  · cases h
    rfl

theorem cursor_of_saveCandidate?
    (h : s.saveCandidate? = some t) :
    t.cursor = s.cursor := by
  rw [saveCandidate?] at h
  split at h
  · simp only [Option.bind_eq_bind, Option.bind_eq_some_iff, Option.pure_def,
      Option.some.injEq] at h
    obtain ⟨r, hr, rfl⟩ := h
    rw [setCandidate_cursor, cursor_of_dropCandidate? hr]
  · cases h
    rfl

/-- A token of some characters that is no bracket. -/
theorem Moves.take
    (s : Scanner)
    (allowed : Bool)
    (length : Nat)
    {t : Token}
    (ht : t.isMark = true) :
    Moves s ({ s with keyAllowed := allowed }.take length t) :=
  (advance s (s.cursor.skipN length) allowed (ahead_skipN length s.cursor)).trans
    (mark { s with keyAllowed := allowed, cursor := s.cursor.skipN length } t ht)

theorem moves_dropCandidate?
    (h : s.dropCandidate? = some t) :
    Moves s t := by
  rw [dropCandidate?] at h
  split at h
  · split at h
    · cases h
    · cases h
      exact .drop s
  · cases h
    exact .refl s

theorem moves_saveCandidate?
    (h : s.saveCandidate? = some t) :
    Moves s t := by
  rw [saveCandidate?] at h
  split at h
  · simp only [Option.bind_eq_bind, Option.bind_eq_some_iff, Option.pure_def,
      Option.some.injEq] at h
    obtain ⟨r, hr, rfl⟩ := h
    exact (moves_dropCandidate? hr).trans (.save r _ rfl)
  · cases h
    exact .refl s

theorem moves_openBlock
    (s : Scanner)
    (column : Nat)
    {t : Token}
    (ht : t.isMark = true) :
    Moves s (s.openBlock column (·.push t)) := by
  rw [openBlock]
  split
  · next hblock =>
      have hkeys : s.flowKeys = [] := by
        simp only [inFlow, Bool.not_not, Bool.and_eq_true, List.isEmpty_iff] at hblock
        exact hblock.1
      exact (Moves.blocks s column (s.indent :: s.outer) hkeys).trans (.mark _ t ht)
  · exact .refl s

theorem moves_closeBlocks
    (s : Scanner)
    (column : Int) :
    Moves s (s.closeBlocks column) := by
  have hsteps : ∀ (depth : Nat) (r : Scanner), r.flowKeys = [] →
      Moves r (closeBlocksSteps column depth r) := by
    intro depth
    induction depth with
    | zero =>
        exact fun r _ => .refl r
    | succ depth ih =>
        intro r hr
        rw [closeBlocksSteps]
        split
        · have hend := (Moves.mark r .blockEnd rfl).trans
            (.blocks (r.push .blockEnd) (r.outer.headD (-1)) r.outer.tail hr)
          exact hend.trans (ih _ hr)
        · exact .refl r
  rw [closeBlocks]
  split
  · exact .refl s
  · next hflow =>
      simp only [inFlow, Bool.not_eq_true, Bool.not_eq_false', List.isEmpty_iff] at hflow
      exact hsteps _ s hflow

theorem moves_skipGaps
    (steps : Nat)
    (s : Scanner) :
    Moves s (s.skipGaps steps) := by
  induction steps generalizing s with
  | zero =>
      exact .refl s
  | succ steps ih =>
      rw [skipGaps]
      generalize hstart : (if (s.cursor.column == 0 && s.cursor.rest.head? == some byteOrderMark) =
        true then s.cursor.skip else s.cursor) = start
      have hahead : s.cursor.Ahead start := by
        rw [← hstart]
        split
        · exact ahead_skip s.cursor
        · exact Ahead.refl s.cursor
      have hgaps : s.cursor.Ahead (start.skipWhile fun x =>
          x == ' ' || ((s.inFlow || !s.keyAllowed) && x == '\t')).skipComment :=
        hahead.trans ((ahead_skipWhile _ start).trans (ahead_skipComment _))
      split
      · split
        · exact (Moves.advance s _ _ (hgaps.trans (ahead_skipBreak _))).trans (ih _)
        · exact .advance s _ s.keyAllowed hgaps
      · exact .advance s _ s.keyAllowed hgaps

theorem moves_finish?
    (h : s.finish? = some t) :
    Moves s t := by
  simp only [finish?, Option.bind_eq_bind, Option.bind_eq_some_iff, Option.pure_def,
    Option.some.injEq] at h
  obtain ⟨r, hr, rfl⟩ := h
  exact (moves_closeBlocks s (-1)).trans ((moves_dropCandidate? hr).trans (.mark r _ rfl))

theorem moves_takeDocumentMark?
    {m : Token}
    (hm : m.isMark = true)
    (h : s.takeDocumentMark? m = some t) :
    Moves s t := by
  simp only [takeDocumentMark?, Option.bind_eq_bind, Option.bind_eq_some_iff, Option.pure_def,
    Option.some.injEq] at h
  obtain ⟨r, hr, rfl⟩ := h
  exact (moves_closeBlocks s (-1)).trans ((moves_dropCandidate? hr).trans (.take r false 3 hm))

theorem isMark_of_isDirective
    {m : Token}
    (h : IsDirective m) :
    m.isMark = true := by
  rcases h with ⟨_, _, rfl⟩ | ⟨_, _, rfl⟩ <;> rfl

theorem moves_takeDirective?
    (h : s.takeDirective? = some t) :
    Moves s t := by
  simp only [takeDirective?, Option.bind_eq_bind, Option.bind_eq_some_iff, Option.pure_def,
    Option.some.injEq] at h
  obtain ⟨r, hr, ⟨m, c⟩, hread, rfl⟩ := h
  have hadvance := Moves.advance r c false (ahead_readDirective? hread)
  have hm := isMark_of_isDirective (exists_of_readDirective? hread).1
  exact (moves_closeBlocks s (-1)).trans
    ((moves_dropCandidate? hr).trans (hadvance.trans (.mark _ m hm)))

theorem moves_takeFlowEntry?
    (h : s.takeFlowEntry? = some t) :
    Moves s t := by
  simp only [ takeFlowEntry?, Option.bind_eq_bind, Option.bind_eq_some_iff, Option.pure_def,
    Option.some.injEq] at h
  obtain ⟨r, hr, rfl⟩ := h
  exact (moves_dropCandidate? hr).trans (.take r true 1 rfl)

theorem moves_takeBlockEntry?
    (h : s.takeBlockEntry? = some t) :
    Moves s t := by
  simp only [ takeBlockEntry?] at h
  split at h
  · cases h
  · simp only [Option.bind_eq_bind, Option.bind_eq_some_iff, Option.pure_def,
      Option.some.injEq] at h
    obtain ⟨r, hr, rfl⟩ := h
    exact (moves_openBlock s _ rfl).trans ((moves_dropCandidate? hr).trans (.take r true 1 rfl))

theorem moves_takeKey?
    (h : s.takeKey? = some t) :
    Moves s t := by
  simp only [takeKey?] at h
  split at h
  · cases h
  · simp only [Option.bind_eq_bind, Option.bind_eq_some_iff, Option.pure_def,
      Option.some.injEq] at h
    obtain ⟨r, hr, rfl⟩ := h
    exact (moves_openBlock s _ rfl).trans ((moves_dropCandidate? hr).trans (.take r _ 1 rfl))

theorem moves_takeValue?
    (h : s.takeValue? = some t) :
    Moves s t := by
  simp only [takeValue?] at h
  split at h
  · next k hk =>
      cases h
      exact (Moves.key s k hk).trans (.take (s.asKey k) false 1 rfl)
  · split at h
    · cases h
    · cases h
      exact (moves_openBlock s _ rfl).trans (.take _ _ 1 rfl)

theorem moves_takeName?
    {m : String → Token}
    (hm : ∀ name, (m name).isMark = true)
    (h : s.takeName? m = some t) :
    Moves s t := by
  simp only [takeName?, Option.bind_eq_bind, Option.bind_eq_some_iff, Option.pure_def,
    Option.some.injEq] at h
  obtain ⟨r, hr, ⟨name, c⟩, hread, rfl⟩ := h
  have hadvance := Moves.advance r c false (ahead_readName? hread)
  exact (moves_saveCandidate? hr).trans (hadvance.trans (.mark _ _ (hm name)))

theorem moves_takeTag?
    (h : s.takeTag? = some t) :
    Moves s t := by
  simp only [takeTag?, Option.bind_eq_bind, Option.bind_eq_some_iff, Option.pure_def,
    Option.some.injEq] at h
  obtain ⟨r, hr, ⟨m, c⟩, hread, rfl⟩ := h
  obtain ⟨hahead, handle, suffix, rfl⟩ := ahead_readTag? hread
  have hadvance := Moves.advance r c false hahead
  exact (moves_saveCandidate? hr).trans (hadvance.trans (.mark _ _ rfl))

/-- A scalar that is made of the characters that it takes. -/
theorem moves_scalar
    {text : List Char}
    {c : Cursor}
    (plain allowed : Bool)
    (htakes : Takes 0 s.cursor text.length c) :
    Moves s ({ s with keyAllowed := allowed, cursor := c }.push
      (.scalar (String.ofList text) plain)) := by
  have hle := htakes.length_le
  rw [Nat.zero_add] at hle
  exact .scalar s text plain c allowed htakes.ahead hle

theorem moves_takeBlockScalar?
    {literal : Bool}
    (h : s.takeBlockScalar? literal = some t) :
    Moves s t := by
  simp only [takeBlockScalar?, Option.bind_eq_bind, Option.bind_eq_some_iff, Option.pure_def,
    Option.some.injEq] at h
  obtain ⟨r, hr, ⟨text, c⟩, hread, rfl⟩ := h
  exact (moves_dropCandidate? hr).trans (moves_scalar false true (takes_readBlock? hread))

theorem moves_takeQuoted?
    {double : Bool}
    (h : s.takeQuoted? double = some t) :
    Moves s t := by
  simp only [takeQuoted?, Option.bind_eq_bind, Option.bind_eq_some_iff, Option.pure_def,
    Option.some.injEq] at h
  obtain ⟨r, hr, ⟨text, c⟩, hread, rfl⟩ := h
  have htakes := (ahead_skip r.cursor).takes.trans (takes_readQuotedBody? hread)
  exact (moves_saveCandidate? hr).trans (moves_scalar false false htakes)

theorem moves_takePlain?
    (h : s.takePlain? = some t) :
    Moves s t := by
  simp only [takePlain?, Option.bind_eq_bind, Option.bind_eq_some_iff, Option.pure_def,
    Option.some.injEq] at h
  obtain ⟨r, hr, ⟨text, broken, c⟩, hread, rfl⟩ := h
  exact (moves_saveCandidate? hr).trans (moves_scalar true broken (takes_readPlainBody? hread))

/-! ## Steps -/

/-- Moves before a step belong to it. -/
theorem Step.after
    (hmoves : Moves s r)
    (h : Step r t) :
    Step s t := by
  cases h with
  | within h =>
      exact .within (hmoves.trans h)
  | opening b cs h hrest =>
      exact .opening b cs (hmoves.trans h) hrest
  | closing b cs h hrest =>
      exact .closing b cs (hmoves.trans h) hrest

theorem step_takeOpening?
    (b : Bracket)
    {cs : List Char}
    (hrest : s.cursor.rest = b.left :: cs)
    (h : s.takeOpening? b.opening = some t) :
    Step s t := by
  simp only [takeOpening?, Option.bind_eq_bind, Option.bind_eq_some_iff, Option.pure_def,
    Option.some.injEq] at h
  obtain ⟨r, hr, rfl⟩ := h
  exact .opening b cs (moves_saveCandidate? hr) (by rw [cursor_of_saveCandidate? hr, hrest])

theorem step_takeClosing?
    (b : Bracket)
    {cs : List Char}
    (hrest : s.cursor.rest = b.right :: cs)
    (h : s.takeClosing? b.closing = some t) :
    Step s t := by
  simp only [takeClosing?, Option.bind_eq_bind, Option.bind_eq_some_iff, Option.pure_def,
    Option.some.injEq] at h
  obtain ⟨r, hr, rfl⟩ := h
  exact .closing b cs (moves_dropCandidate? hr) (by rw [cursor_of_dropCandidate? hr, hrest])

/-- What is known of both branches. -/
theorem of_ite
    {p q : Prop}
    [Decidable p]
    {x y : Option Scanner}
    (hx : p → x = some t → q)
    (hy : ¬p → y = some t → q) :
    (if p then x else y) = some t → q := by
  split
  · next h => exact hx h
  · next h => exact hy h

theorem step_takeToken?
    (h : s.takeToken? = some t) :
    Step s t := by
  rw [takeToken?.eq_def] at h
  split at h
  · exact .within (moves_finish? h)
  · next c cs hrest =>
      have hchar : ∀ x, (c == x) = true → s.cursor.rest = x :: cs := by
        intro x hx
        rw [hrest, eq_of_beq hx]
      have hmark : (if (c == '-') = true then Token.documentStart else .documentEnd).isMark =
          true := by
        split <;> rfl
      revert h
      refine of_ite (fun _ h => .within (moves_takeDirective? h)) fun _ => ?_
      refine of_ite (fun _ h => .within (moves_takeDocumentMark? hmark h)) fun _ => ?_
      refine of_ite (fun hc => step_takeOpening? .square (hchar _ hc)) fun _ => ?_
      refine of_ite (fun hc => step_takeOpening? .brace (hchar _ hc)) fun _ => ?_
      refine of_ite (fun hc => step_takeClosing? .square (hchar _ hc)) fun _ => ?_
      refine of_ite (fun hc => step_takeClosing? .brace (hchar _ hc)) fun _ => ?_
      refine of_ite (fun _ h => .within <| moves_takeFlowEntry? h) fun _ => ?_
      refine of_ite (fun _ h => .within <| moves_takeBlockEntry? h) fun _ => ?_
      refine of_ite (fun _ h => .within (moves_takeKey? h)) fun _ => ?_
      refine of_ite (fun _ h => .within (moves_takeValue? h)) fun _ => ?_
      refine of_ite (fun _ h => .within (moves_takeName? (fun _ => rfl) h)) fun _ => ?_
      refine of_ite (fun _ h => .within (moves_takeName? (fun _ => rfl) h)) fun _ => ?_
      refine of_ite (fun _ h => .within (moves_takeTag? h)) fun _ => ?_
      refine of_ite (fun _ h => .within (moves_takeBlockScalar? h)) fun _ => ?_
      refine of_ite (fun _ h => .within (moves_takeBlockScalar? h)) fun _ => ?_
      refine of_ite (fun _ h => .within (moves_takeQuoted? h)) fun _ => ?_
      refine of_ite (fun _ h => .within (moves_takeQuoted? h)) fun _ => ?_
      refine of_ite (fun _ h => .within (moves_takePlain? h)) fun _ h => ?_
      cases h

/-- Every step of the scanner is one of these. -/
theorem step_of_step?
    (h : s.step? = some t) :
    Step s t := by
  simp only [step?, Option.bind_eq_bind, Option.bind_eq_some_iff] at h
  obtain ⟨r, hr, h⟩ := h
  have hmoves := (moves_skipGaps _ s).trans
    ((Moves.lapse hr).trans (moves_closeBlocks r (r.cursor.column : Int)))
  exact (step_takeToken? h).after hmoves

theorem Moves.ahead
    (h : Moves s t) :
    s.cursor.Ahead t.cursor := by
  induction h with
  | refl s =>
      exact Ahead.refl s.cursor
  | trans _ _ ih ih' =>
      exact ih.trans ih'
  | advance s c allowed hc | scalar s text plain c allowed hc _ =>
      exact hc
  | lapse hs =>
      simp only [expireAll?, Option.bind_eq_bind, Option.bind_eq_some_iff, Option.pure_def,
        Option.some.injEq] at hs
      obtain ⟨_, -, _, -, rfl⟩ := hs
      exact Ahead.refl _
  | drop s | save s k _ =>
      rw [setCandidate_cursor]
      exact Ahead.refl s.cursor
  | key s k _ =>
      rw [asKey, setCandidate_cursor, openBlock]
      split <;> exact Ahead.refl s.cursor
  | blocks s indent outer _ | mark s m _ =>
      exact Ahead.refl s.cursor

/-- A step goes on in the text. -/
theorem Step.ahead
    (h : Step s t) :
    s.cursor.Ahead t.cursor := by
  cases h with
  | within h =>
      exact h.ahead
  | opening b cs h _ | closing b cs h _ =>
      exact h.ahead.trans (ahead_skipN 1 _)

/-- A run is a step, and then the end or another run. -/
theorem exists_of_run?
    {steps : Nat}
    (h : s.run? steps = some t) :
    ∃ r left, s.step? = some r ∧ steps = left + 1 ∧
      ((r.tokens.head? = some .streamEnd ∧ r = t) ∨
        (r.tokens.head? ≠ some .streamEnd ∧ r.run? left = some t)) := by
  cases steps with
  | zero =>
      cases h
  | succ left =>
      simp only [run?, Option.bind_eq_bind, Option.bind_eq_some_iff] at h
      obtain ⟨r, hr, h⟩ := h
      refine ⟨r, left, hr, rfl, ?_⟩
      split at h
      · next heq =>
          cases h
          exact .inl ⟨by rw [heq]; rfl, rfl⟩
      · next hmore =>
          refine .inr ⟨fun hend => ?_, h⟩
          obtain ⟨us, hus⟩ := List.head?_eq_some_iff.1 hend
          exact hmore us hus

/-- What every step preserves holds at the end of a run. -/
theorem of_run?
    {P : Scanner → Prop}
    (hstep : ∀ {r t : Scanner}, P r → Step r t → P t)
    {steps : Nat}
    (hs : P s)
    (h : s.run? steps = some t) :
    P t := by
  induction steps generalizing s with
  | zero =>
      cases h
  | succ steps ih =>
      obtain ⟨r, left, hr, hleft, h⟩ := exists_of_run? h
      obtain rfl := Nat.succ.inj hleft
      have hnext := hstep hs (step_of_step? hr)
      rcases h with ⟨-, rfl⟩ | ⟨-, h⟩
      · exact hnext
      · exact ih hnext h

/-! ## What the moves do to the candidates and the tokens -/

@[simp]
theorem setCandidate_tokens
    (s : Scanner)
    (k : Option Candidate) :
    (s.setCandidate k).tokens = s.tokens := by
  rw [setCandidate]
  split <;> rfl

@[simp]
theorem setCandidate_tokenCount
    (s : Scanner)
    (k : Option Candidate) :
    (s.setCandidate k).tokenCount = s.tokenCount := by
  rw [setCandidate]
  split <;> rfl

@[simp]
theorem setCandidate_indent
    (s : Scanner)
    (k : Option Candidate) :
    (s.setCandidate k).indent = s.indent := by
  rw [setCandidate]
  split <;> rfl

theorem length_setCandidate_flowKeys
    (s : Scanner)
    (k : Option Candidate) :
    (s.setCandidate k).flowKeys.length = s.flowKeys.length := by
  rw [setCandidate]
  split
  · rfl
  · next heq =>
      rw [heq]
      rfl

/-- Conditions on the candidate outside the brackets and on those inside. -/
structure Keys (outside inside : Candidate → Prop) (s : Scanner) : Prop where
  block : ∀ k ∈ s.blockKey, outside k
  flow : ∀ o ∈ s.flowKeys, ∀ k ∈ o, inside k

section Keys

variable {outside inside : Candidate → Prop}

theorem Keys.of_candidate
    (h : Keys outside inside s)
    {k : Candidate}
    (hk : s.candidate = some k) :
    (s.flowKeys = [] ∧ outside k) ∨ (s.flowKeys ≠ [] ∧ inside k) := by
  rw [candidate] at hk
  split at hk
  · next heq =>
      exact .inl ⟨heq, h.block k hk⟩
  · next o os heq =>
      refine .inr ⟨by rw [heq]; exact List.cons_ne_nil o os, ?_⟩
      exact h.flow o (by rw [heq]; exact List.mem_cons_self) k hk

theorem Keys.setCandidate
    (h : Keys outside inside s)
    {o : Option Candidate}
    (hblock : s.flowKeys = [] → ∀ k ∈ o, outside k)
    (hflow : s.flowKeys ≠ [] → ∀ k ∈ o, inside k) :
    Keys outside inside (s.setCandidate o) := by
  rw [Scanner.setCandidate]
  split
  · next heq =>
      exact ⟨hblock heq, h.flow⟩
  · next p ps heq =>
      refine ⟨h.block, fun q hq => ?_⟩
      rcases List.mem_cons.1 hq with rfl | hq
      · exact hflow (by rw [heq]; exact List.cons_ne_nil p ps)
      · exact h.flow q (by rw [heq]; exact List.mem_cons_of_mem p hq)

theorem Keys.drop
    (h : Keys outside inside s) :
    Keys outside inside (s.setCandidate none) :=
  h.setCandidate (by rintro - _ ⟨⟩) (by rintro - _ ⟨⟩)

theorem eq_of_expire?
    {c : Cursor}
    {o o' : Option Candidate}
    (h : expire? c o = some o') :
    o' = none ∨ o' = o := by
  cases o with
  | none =>
      exact .inl (Option.some.inj h).symm
  | some k =>
      rw [expire?] at h
      split at h
      · split at h
        · cases h
        · exact .inl (Option.some.inj h).symm
      · exact .inr (Option.some.inj h).symm

theorem mem_of_mapM_expire?
    {c : Cursor}
    {os os' : List (Option Candidate)}
    (h : os.mapM (expire? c) = some os') :
    os'.length = os.length ∧ ∀ o ∈ os', o = none ∨ o ∈ os := by
  induction os generalizing os' with
  | nil =>
      rw [List.mapM_nil] at h
      cases h
      exact ⟨rfl, fun _ hmem => absurd hmem List.not_mem_nil⟩
  | cons o os ih =>
      rw [List.mapM_cons] at h
      simp only [Option.bind_eq_bind, Option.bind_eq_some_iff, Option.pure_def,
        Option.some.injEq] at h
      obtain ⟨p, hp, ps, hps, rfl⟩ := h
      obtain ⟨hlength, hmem⟩ := ih hps
      refine ⟨by rw [List.length_cons, List.length_cons, hlength], fun q hq => ?_⟩
      rcases List.mem_cons.1 hq with rfl | hq
      · exact (eq_of_expire? hp).imp_right fun heq => List.mem_cons.2 (.inl heq)
      · exact (hmem q hq).imp_right (List.mem_cons_of_mem o)

/-- Candidates lapse, and nothing else happens. -/
theorem exists_of_expireAll?
    (h : s.expireAll? = some t) :
    ∃ blockKey flowKeys, t = { s with blockKey, flowKeys } ∧
      (blockKey = none ∨ blockKey = s.blockKey) ∧
      flowKeys.length = s.flowKeys.length ∧ ∀ o ∈ flowKeys, o = none ∨ o ∈ s.flowKeys := by
  simp only [expireAll?, Option.bind_eq_bind, Option.bind_eq_some_iff, Option.pure_def,
    Option.some.injEq] at h
  obtain ⟨blockKey, hblock, flowKeys, hflow, rfl⟩ := h
  exact ⟨blockKey, flowKeys, rfl, eq_of_expire? hblock, mem_of_mapM_expire? hflow⟩

theorem Keys.lapse
    (h : Keys outside inside s)
    (hs : s.expireAll? = some t) :
    Keys outside inside t := by
  obtain ⟨blockKey, flowKeys, rfl, hblock, -, hflow⟩ := exists_of_expireAll? hs
  constructor
  · intro k hk
    rcases hblock with rfl | rfl
    · cases hk
    · exact h.block k hk
  · intro o ho k hk
    rcases hflow o ho with rfl | ho
    · cases hk
    · exact h.flow o ho k hk

end Keys

/-- Inside brackets a candidate becomes a key without a block. -/
theorem asKey_of_inFlow
    (k : Candidate)
    (h : s.flowKeys ≠ []) :
    s.asKey k = (s.insert k.tokenCount .key).setCandidate none := by
  have hflow : (s.insert k.tokenCount .key).inFlow = true := by
    simpa [inFlow, insert] using h
  rw [asKey, openBlock, hflow]
  rfl

end Scanner

end Dashboard.Yaml

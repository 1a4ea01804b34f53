import Dashboard.Yaml.Scanner

/-!
# What the steps of the scanner depend on

Two scanners with the same text before them, in the same column and the same
blocks, take the same tokens from there on.  Where they stand in the text, and
which places they remember as keys that need not come, does not matter.  A
`View` is a scanner up to these, and `Leads` says that reading from one view
goes on as reading from another.
-/

namespace Dashboard.Yaml

/-- A token starts here, or the text ends: no blank, no comment and no mark that
is skipped at the start of a line. -/
def opensToken : List Char → Bool
  | [] => true
  | c :: _ => !(isGap c || c == '#' || c == byteOrderMark)

/-- The part of a scanner that its further steps depend on. -/
structure View where
  rest : List Char
  column : Nat := 0
  indent : Int := -1
  outer : List Int := []
  keyAllowed : Bool := true
  /-- How many brackets are open. -/
  brackets : Nat := 0
  /-- The tokens, latest first. -/
  tokens : List Token := []

namespace View

/-- Candidates for keys none of which is required. -/
structure Lax (brackets : Nat) (blockKey : Option Candidate)
    (flowKeys : List (Option Candidate)) : Prop where
  block : ∀ k ∈ blockKey, k.required = false
  flow : ∀ o ∈ flowKeys, ∀ k ∈ o, k.required = false
  length : flowKeys.length = brackets

/-- The scanner at a place of the text with some candidates. -/
def scanner (v : View) (index line : Nat) (blockKey : Option Candidate)
    (flowKeys : List (Option Candidate)) : Scanner where
  cursor := ⟨v.rest, index, line, v.column⟩
  indent := v.indent
  outer := v.outer
  keyAllowed := v.keyAllowed
  blockKey := blockKey
  flowKeys := flowKeys
  tokens := v.tokens
  tokenCount := v.tokens.length

/-- A scanner has this view. -/
def Shown (v : View) (s : Scanner) : Prop :=
  ∃ index line blockKey flowKeys,
    Lax v.brackets blockKey flowKeys ∧ s = v.scanner index line blockKey flowKeys

/-- Reading goes on from the one view as from the other. -/
def Leads (v w : View) : Prop :=
  ∀ s, v.Shown s → ∀ n, v.rest.length < n →
    ∃ t m, w.Shown t ∧ w.rest.length < m ∧ Scanner.run? n s = Scanner.run? m t

theorem Leads.refl
    (v : View) :
    Leads v v :=
  fun s hs n hn => ⟨s, n, hs, hn, rfl⟩

theorem Leads.trans
    {u v w : View}
    (huv : Leads u v)
    (hvw : Leads v w) :
    Leads u w := by
  intro s hs n hn
  obtain ⟨t, m, ht, hm, hrun⟩ := huv s hs n hn
  obtain ⟨r, l, hr, hl, hrun'⟩ := hvw t ht m hm
  exact ⟨r, l, hr, hl, hrun.trans hrun'⟩

/-- A step that is not the last one is one step less to take. -/
theorem run?_succ
    {n : Nat}
    {s t : Scanner}
    (hstep : s.step? = some t)
    (hend : t.tokens.head? ≠ some .streamEnd) :
    Scanner.run? (n + 1) s = Scanner.run? n t := by
  rw [Scanner.run?, hstep]
  simp only [Option.bind_eq_bind, Option.bind_some]
  split
  · next heq =>
      rw [heq] at hend
      exact absurd rfl hend
  · rfl

/-- A step leads to every view from which the next step is the same. -/
theorem Leads.of_step_alike
    {v w : View}
    (h : ∀ s, v.Shown s → ∃ t r, s.step? = some t ∧ t.tokens.head? ≠ some .streamEnd ∧
      w.Shown r ∧ t.step? = r.step?)
    (hlength : w.rest.length < v.rest.length) :
    Leads v w := by
  intro s hs n hn
  obtain ⟨t, r, hstep, hend, hr, halike⟩ := h s hs
  obtain ⟨n, rfl⟩ : ∃ m, n = m + 2 := ⟨n - 2, by omega⟩
  refine ⟨r, n + 1, hr, by omega, ?_⟩
  rw [run?_succ hstep hend, Scanner.run?, Scanner.run?, halike]

/-- A step leads to the view of the scanner after it. -/
theorem Leads.of_step
    {v w : View}
    (h : ∀ s, v.Shown s → ∃ t, s.step? = some t ∧ w.Shown t)
    (hend : w.tokens.head? ≠ some .streamEnd)
    (hlength : w.rest.length < v.rest.length) :
    Leads v w := by
  refine Leads.of_step_alike (fun s hs => ?_) hlength
  obtain ⟨t, hstep, ht⟩ := h s hs
  refine ⟨t, t, hstep, ?_, ht, rfl⟩
  obtain ⟨_, _, _, _, -, rfl⟩ := ht
  exact hend

/-- Two steps lead to the view of the scanner after them. -/
theorem Leads.of_two_steps
    {v w : View}
    (h : ∀ s, v.Shown s → ∃ t r, s.step? = some t ∧ t.tokens.head? ≠ some .streamEnd ∧
      t.step? = some r ∧ w.Shown r)
    (hend : w.tokens.head? ≠ some .streamEnd)
    (hlength : w.rest.length + 2 ≤ v.rest.length) :
    Leads v w := by
  intro s hs n hn
  obtain ⟨t, r, hstep, hmiddle, hstep', hr⟩ := h s hs
  obtain ⟨n, rfl⟩ : ∃ m, n = m + 2 := ⟨n - 2, by omega⟩
  have hlast : r.tokens.head? ≠ some .streamEnd := by
    obtain ⟨_, _, _, _, -, rfl⟩ := hr
    exact hend
  refine ⟨r, n, hr, by omega, ?_⟩
  rw [run?_succ hstep hmiddle, run?_succ hstep' hlast]

/-- Views from which the next step is the same. -/
theorem Leads.of_alike
    {v w : View}
    (h : ∀ s, v.Shown s → ∃ t, w.Shown t ∧ s.step? = t.step?)
    (hlength : w.rest.length ≤ v.rest.length) :
    Leads v w := by
  intro s hs n hn
  obtain ⟨t, ht, halike⟩ := h s hs
  obtain ⟨n, rfl⟩ : ∃ m, n = m + 1 := ⟨n - 1, by omega⟩
  refine ⟨t, n + 1, ht, by omega, ?_⟩
  rw [Scanner.run?, Scanner.run?, halike]

end View

namespace Scanner

/-- Where a token starts nothing is skipped. -/
theorem skipGaps_of_opensToken
    (steps : Nat)
    {s : Scanner}
    (h : opensToken s.cursor.rest = true) :
    s.skipGaps steps = s := by
  cases steps with
  | zero =>
      rfl
  | succ steps =>
      obtain ⟨⟨rest, index, line, column⟩, indent, outer, keyAllowed, blockKey, flowKeys, tokens,
        count⟩ := s
      cases rest with
      | nil =>
          simp [skipGaps, Cursor.skipWhile, Cursor.skipComment]
      | cons c cs =>
          simp only [opensToken, isGap, isSpace, Bool.not_eq_true', Bool.or_eq_false_iff] at h
          obtain ⟨⟨⟨⟨hspace, htab⟩, hbreak⟩, hhash⟩, hmark⟩ := h
          have hc : c ≠ '#' := by
            simpa using hhash
          simp [skipGaps, Cursor.skipWhile, Cursor.skipComment, hspace, htab, hbreak, hmark, hc]

/-- Spaces before a token are skipped. -/
theorem skipGaps_spaces
    (steps k : Nat)
    {s : Scanner}
    {rest : List Char}
    {index line column : Nat}
    (hs : s.cursor = ⟨List.replicate k ' ' ++ rest, index, line, column⟩)
    (h : opensToken rest = true) :
    s.skipGaps (steps + 1) = { s with cursor := ⟨rest, index + k, line, column + k⟩ } := by
  cases k with
  | zero =>
      rw [List.replicate_zero, List.nil_append] at hs
      rw [skipGaps_of_opensToken _ (by rw [hs]; exact h)]
      simp [← hs]
  | succ k =>
      have hmark : (some ' ' == some byteOrderMark) = false := rfl
      have htake : ∀ p : Char → Bool, p ' ' = true → rest.head?.any p = false →
          (List.replicate (k + 1) ' ' ++ rest).takeWhile p = List.replicate (k + 1) ' ' ∧
            (List.replicate (k + 1) ' ' ++ rest).dropWhile p = rest := by
        intro p hp hrest
        have hstop : rest.takeWhile p = [] ∧ rest.dropWhile p = rest := by
          cases rest with
          | nil =>
              exact ⟨rfl, rfl⟩
          | cons c cs =>
              have hc : p c = false := by
                simpa using hrest
              simp [hc]
        have hall : ∀ c ∈ List.replicate (k + 1) ' ', p c = true := by
          intro c hc
          rw [List.eq_of_mem_replicate hc]
          exact hp
        rw [List.takeWhile_append_of_pos hall, List.dropWhile_append_of_pos hall, hstop.1, hstop.2,
          List.append_nil]
        exact ⟨rfl, rfl⟩
      have hskip : ∀ tabs : Bool,
          Cursor.skipWhile (fun x => x == ' ' || (tabs && x == '\t'))
              ⟨List.replicate (k + 1) ' ' ++ rest, index, line, column⟩ =
            ⟨rest, index + (k + 1), line, column + (k + 1)⟩ := by
        intro tabs
        have hrest : rest.head?.any (fun x => x == ' ' || (tabs && x == '\t')) = false := by
          cases rest with
          | nil =>
              rfl
          | cons c cs =>
              simp only [opensToken, isGap, isSpace, Bool.not_eq_true',
                Bool.or_eq_false_iff] at h
              simp [h.1.1.1.1, h.1.1.1.2]
        obtain ⟨htaken, hdropped⟩ := htake (fun x => x == ' ' || (tabs && x == '\t')) rfl hrest
        simp only [Cursor.skipWhile, htaken, hdropped, List.length_replicate]
      rw [skipGaps]
      simp only [hs, List.replicate_succ, List.cons_append, List.head?_cons, hmark, Bool.and_false,
        Bool.false_eq_true, if_false]
      simp only [← List.cons_append, ← List.replicate_succ, hskip]
      cases rest with
      | nil =>
          rfl
      | cons c cs =>
          simp only [opensToken, isGap, Bool.not_eq_true', Bool.or_eq_false_iff] at h
          obtain ⟨⟨⟨-, hbreak⟩, hhash⟩, -⟩ := h
          have hc : c ≠ '#' := by
            simpa using hhash
          simp [Cursor.skipComment, hc, hbreak]

/-- A line break outside brackets allows a key. -/
theorem skipGaps_break
    (steps : Nat)
    {s : Scanner}
    {rest : List Char}
    {index line column : Nat}
    (hs : s.cursor = ⟨'\n' :: rest, index, line, column⟩) :
    s.skipGaps (steps + 1) =
      skipGaps steps { s with cursor := ⟨rest, index + 1, line + 1, 0⟩
                              keyAllowed := s.keyAllowed || !s.inFlow } := by
  have hmark : (some '\n' == some byteOrderMark) = false := rfl
  have hbreak : isBreak '\n' = true := rfl
  have hskip : ∀ tabs : Bool,
      Cursor.skipWhile (fun x => x == ' ' || (tabs && x == '\t'))
          ⟨'\n' :: rest, index, line, column⟩ =
        ⟨'\n' :: rest, index, line, column⟩ := by
    intro tabs
    simp [Cursor.skipWhile]
  have hcomment : (⟨'\n' :: rest, index, line, column⟩ : Cursor).skipComment =
      ⟨'\n' :: rest, index, line, column⟩ := rfl
  rw [skipGaps]
  simp only [hs, List.head?_cons, hmark, Bool.and_false, Bool.false_eq_true, if_false, hskip,
    hcomment, hbreak, if_true, Cursor.skipBreak]

/-- Blocks in which the column lies stay open. -/
theorem closeBlocks_of_le
    {s : Scanner}
    {column : Int}
    (h : s.inFlow = false → s.indent ≤ column) :
    s.closeBlocks column = s := by
  rw [closeBlocks]
  split
  · rfl
  · next hflow =>
      have hle := h (by simpa using hflow)
      cases s.outer.length with
      | zero =>
          rfl
      | succ n =>
          rw [closeBlocksSteps, if_neg (by omega)]

/-- The innermost block is closed when the column is outside of it. -/
theorem closeBlocks_of_lt
    {s : Scanner}
    {column o : Int}
    {os : List Int}
    (hflow : s.inFlow = false)
    (houter : s.outer = o :: os)
    (h : column < s.indent) :
    s.closeBlocks column =
      closeBlocks { s.push .blockEnd with indent := o, outer := os } column := by
  have hflow' : (Scanner.inFlow { s.push .blockEnd with indent := o, outer := os }) = false := hflow
  rw [closeBlocks, closeBlocks, hflow, hflow']
  simp only [Bool.false_eq_true, if_false, houter, List.length_cons]
  rw [closeBlocksSteps, if_pos h, houter]
  rfl

/-- Blocks that are closed first need not be closed again. -/
theorem closeBlocks_closeBlocks
    (s : Scanner)
    {column deeper : Int}
    (h : column ≤ deeper) :
    (s.closeBlocks deeper).closeBlocks column = s.closeBlocks column := by
  rw [closeBlocks.eq_def s deeper]
  split
  · rfl
  · next hflow =>
      generalize hlength : s.outer.length = n
      induction n generalizing s with
      | zero =>
          rfl
      | succ n ih =>
          rw [closeBlocksSteps]
          split
          · next hlt =>
              obtain ⟨o, os, houter⟩ := List.exists_cons_of_length_eq_add_one hlength
              have hless : column < s.indent := by
                omega
              rw [houter, List.length_cons] at hlength
              rw [closeBlocks_of_lt (by simpa using hflow) houter hless, houter]
              exact ih _ hflow (by simpa using hlength)
          · rfl

/-- Closing blocks keeps the place. -/
theorem closeBlocks_cursor
    (s : Scanner)
    (column : Int) :
    (s.closeBlocks column).cursor = s.cursor := by
  have hsteps : ∀ (n : Nat) (s : Scanner), (closeBlocksSteps column n s).cursor = s.cursor := by
    intro n
    induction n with
    | zero =>
        exact fun _ => rfl
    | succ n ih =>
        intro s
        rw [closeBlocksSteps]
        split
        · exact ih _
        · rfl
  rw [closeBlocks]
  split
  · rfl
  · exact hsteps _ s

/-- A candidate that is not required may lapse. -/
theorem exists_expire?_eq
    (c : Cursor)
    {o : Option Candidate}
    (h : ∀ k ∈ o, k.required = false) :
    ∃ o', (∀ k ∈ o', k.required = false) ∧ expire? c o = some o' := by
  cases o with
  | none =>
      exact ⟨none, by simp, rfl⟩
  | some k =>
      have hk : k.required = false :=
        h k rfl
      rw [expire?, hk]
      split
      · exact ⟨none, by simp, rfl⟩
      · exact ⟨some k, h, rfl⟩

/-- Candidates inside brackets may lapse. -/
theorem exists_mapM_expire?_eq
    (c : Cursor)
    {ks : List (Option Candidate)}
    (h : ∀ o ∈ ks, ∀ k ∈ o, k.required = false) :
    ∃ ks', (∀ o ∈ ks', ∀ k ∈ o, k.required = false) ∧ ks'.length = ks.length ∧
      ks.mapM (expire? c) = some ks' := by
  induction ks with
  | nil =>
      exact ⟨[], h, rfl, rfl⟩
  | cons o ks ih =>
      obtain ⟨o', ho', heq⟩ := exists_expire?_eq c (h o List.mem_cons_self)
      obtain ⟨ks', hks', hlength, heqs⟩ := ih fun p hp => h p (List.mem_cons_of_mem _ hp)
      refine ⟨o' :: ks', ?_, by simp [hlength], ?_⟩
      · intro p hp
        rcases List.mem_cons.1 hp with rfl | hp
        · exact ho'
        · exact hks' p hp
      · rw [List.mapM_cons, heq, heqs]
        rfl

/-- A candidate on this line stays for 1024 characters. -/
theorem expire?_of_near
    {c : Cursor}
    {k : Candidate}
    (hline : k.line = c.line)
    (hnear : c.index ≤ k.index + 1024) :
    expire? c (some k) = some (some k) := by
  have hline' : ¬k.line < c.line := by
    omega
  have hnear' : ¬k.index + 1024 < c.index := by
    omega
  simp [expire?, hline', hnear']

/-- Candidates of which none is required may lapse. -/
theorem exists_expireAll?_eq
    {brackets : Nat}
    {blockKey : Option Candidate}
    {flowKeys : List (Option Candidate)}
    (hlax : View.Lax brackets blockKey flowKeys)
    (c : Cursor) :
    ∃ blockKey' flowKeys', View.Lax brackets blockKey' flowKeys' ∧
      ∀ s : Scanner, s.cursor = c → s.blockKey = blockKey → s.flowKeys = flowKeys →
        s.expireAll? = some { s with blockKey := blockKey', flowKeys := flowKeys' } := by
  obtain ⟨blockKey', hblock, heqBlock⟩ := exists_expire?_eq c hlax.block
  obtain ⟨flowKeys', hflow, hlength, heqFlow⟩ := exists_mapM_expire?_eq c hlax.flow
  refine ⟨blockKey', flowKeys', ⟨hblock, hflow, hlength.trans hlax.length⟩, ?_⟩
  rintro s rfl rfl rfl
  simp only [expireAll?, heqBlock, heqFlow, Option.bind_eq_bind, Option.bind_some]
  rfl

end Scanner

namespace View

section Steps

variable {v : View}
variable {blockKey : Option Candidate}
variable {flowKeys : List (Option Candidate)}

theorem scanner_inFlow
    (hlength : flowKeys.length = v.brackets)
    (index line : Nat)
    (blockKey : Option Candidate) :
    (v.scanner index line blockKey flowKeys).inFlow = decide (v.brackets ≠ 0) := by
  cases flowKeys with
  | nil =>
      rw [List.length_nil] at hlength
      simp [scanner, Scanner.inFlow, ← hlength]
  | cons o os =>
      rw [List.length_cons] at hlength
      simp [scanner, Scanner.inFlow, ← hlength]

/-- A step where a token starts closes blocks and takes that token. -/
theorem exists_step?_eq_closeBlocks
    (hlax : Lax v.brackets blockKey flowKeys)
    (index line : Nat) :
    ∃ blockKey' flowKeys', Lax v.brackets blockKey' flowKeys' ∧
      ∀ w : View, w.rest = v.rest → w.column = v.column → opensToken w.rest = true →
        (w.scanner index line blockKey flowKeys).step? =
          ((w.scanner index line blockKey' flowKeys').closeBlocks w.column).takeToken? := by
  obtain ⟨blockKey', flowKeys', hlax', hexpire⟩ :=
    Scanner.exists_expireAll?_eq hlax ⟨v.rest, index, line, v.column⟩
  refine ⟨blockKey', flowKeys', hlax', fun w hrest hcolumn hopens => ?_⟩
  have hstay : (w.scanner index line blockKey flowKeys).skipGaps
      ((w.scanner index line blockKey flowKeys).cursor.rest.length + 1) =
        w.scanner index line blockKey flowKeys :=
    Scanner.skipGaps_of_opensToken _ hopens
  have hlapsed := hexpire (w.scanner index line blockKey flowKeys)
    (by rw [scanner, hrest, hcolumn]) rfl rfl
  rw [Scanner.step?]
  simp only [hstay, hlapsed, Option.bind_eq_bind, Option.bind_some]
  rfl

/-- A step where a token starts, in the innermost block, takes that token. -/
theorem exists_step?_eq
    (hlax : Lax v.brackets blockKey flowKeys)
    (hopens : opensToken v.rest = true)
    (hinside : v.brackets = 0 → v.indent ≤ v.column)
    (index line : Nat) :
    ∃ blockKey' flowKeys', Lax v.brackets blockKey' flowKeys' ∧
      (v.scanner index line blockKey flowKeys).step? =
        (v.scanner index line blockKey' flowKeys').takeToken? := by
  obtain ⟨blockKey', flowKeys', hlax', hstep⟩ := exists_step?_eq_closeBlocks hlax index line
  refine ⟨blockKey', flowKeys', hlax', ?_⟩
  have hclose : (v.scanner index line blockKey' flowKeys').closeBlocks v.column =
      v.scanner index line blockKey' flowKeys' := by
    refine Scanner.closeBlocks_of_le fun hflow => ?_
    rw [scanner_inFlow hlax'.length] at hflow
    exact hinside (by simpa using hflow)
  rw [hstep v rfl rfl hopens, hclose]

/-- A step from spaces is the step from the token behind them. -/
theorem step?_spaces
    (k : Nat)
    {rest : List Char}
    (hrest : v.rest = List.replicate k ' ' ++ rest)
    (hopens : opensToken rest = true)
    (index line : Nat) :
    (v.scanner index line blockKey flowKeys).step? =
      ({ v with rest, column := v.column + k }.scanner (index + k) line blockKey flowKeys).step? := by
  have hskip := fun steps => Scanner.skipGaps_spaces steps k
    (s := v.scanner index line blockKey flowKeys) (congrArg (Cursor.mk · index line v.column) hrest)
    hopens
  have hstay := fun steps => Scanner.skipGaps_of_opensToken steps
    (s := { v with rest, column := v.column + k }.scanner (index + k) line blockKey flowKeys) hopens
  rw [Scanner.step?, Scanner.step?, hskip, hstay]
  rfl

/-- A step from a line break is the step from the token on the next line. -/
theorem step?_break
    (hbrackets : v.brackets = 0)
    (hlax : Lax v.brackets blockKey flowKeys)
    (k : Nat)
    {rest : List Char}
    (hrest : v.rest = '\n' :: (List.replicate k ' ' ++ rest))
    (hopens : opensToken rest = true)
    (index line : Nat) :
    (v.scanner index line blockKey flowKeys).step? =
      ({ v with rest, column := k, keyAllowed := true }.scanner (index + 1 + k) (line + 1)
        blockKey flowKeys).step? := by
  have hflow : (v.scanner index line blockKey flowKeys).inFlow = false := by
    rw [scanner_inFlow hlax.length, hbrackets]
    rfl
  have hbreak := fun steps => Scanner.skipGaps_break steps
    (s := v.scanner index line blockKey flowKeys) (congrArg (Cursor.mk · index line v.column) hrest)
  have hstay := fun steps => Scanner.skipGaps_of_opensToken steps
    (s := { v with rest, column := k, keyAllowed := true }.scanner (index + 1 + k) (line + 1)
      blockKey flowKeys) hopens
  have hlength : (v.scanner index line blockKey flowKeys).cursor.rest.length + 1 =
      (List.replicate k ' ' ++ rest).length + 1 + 1 := by
    simp [scanner, hrest]
  rw [Scanner.step?, Scanner.step?, hlength, hbreak, hflow, hstay,
    Scanner.skipGaps_spaces _ k rfl hopens]
  simp only [scanner, Bool.not_false, Bool.or_true, Nat.zero_add]

/-- The innermost block may be closed before the step that closes it. -/
theorem step?_pop
    (hbrackets : v.brackets = 0)
    (hlax : Lax v.brackets blockKey flowKeys)
    {o : Int}
    {os : List Int}
    (houter : v.outer = o :: os)
    (hindent : -1 < v.indent)
    (hopens : opensToken v.rest = true)
    (hout : v.rest = [] ∨ v.column < v.indent)
    (index line : Nat) :
    (v.scanner index line blockKey flowKeys).step? =
      ({ v with indent := o, outer := os, tokens := .blockEnd :: v.tokens }.scanner index line
        blockKey flowKeys).step? := by
  obtain ⟨blockKey', flowKeys', hlax', hstep⟩ := exists_step?_eq_closeBlocks hlax index line
  rw [hstep v rfl rfl hopens, hstep { v with indent := o, outer := os, tokens := .blockEnd :: v.tokens }
    rfl rfl hopens]
  have hflow : (v.scanner index line blockKey' flowKeys').inFlow = false := by
    rw [scanner_inFlow hlax'.length, hbrackets]
    rfl
  have hpop : ∀ column : Int, column < v.indent →
      (v.scanner index line blockKey' flowKeys').closeBlocks column =
        ({ v with indent := o, outer := os, tokens := .blockEnd :: v.tokens }.scanner index line
          blockKey' flowKeys').closeBlocks column :=
    fun column hlt => Scanner.closeBlocks_of_lt hflow houter hlt
  rcases hout with hnil | hlt
  · have htake : ∀ (w : View) (column : Nat), w.rest = [] →
        ((w.scanner index line blockKey' flowKeys').closeBlocks column).takeToken? =
          (w.scanner index line blockKey' flowKeys').finish? := by
      intro w column hw
      have hle : (-1 : Int) ≤ column := by
        omega
      have hrest : ((w.scanner index line blockKey' flowKeys').closeBlocks column).cursor.rest =
          [] := by
        rw [Scanner.closeBlocks_cursor]
        exact hw
      rw [Scanner.takeToken?.eq_def, hrest]
      simp only [Scanner.finish?]
      rw [Scanner.closeBlocks_closeBlocks _ hle]
    have htakePopped := htake
      { v with indent := o, outer := os, tokens := .blockEnd :: v.tokens } v.column hnil
    rw [htake v _ hnil, htakePopped, Scanner.finish?, Scanner.finish?, hpop (-1) hindent]
  · rw [hpop _ hlt]

end Steps

/-- The text ends here, or the next line is indented by at most `indent`
columns. -/
def Outdented (indent : Int) (rest : List Char) : Prop :=
  rest = [] ∨ ∃ (k : Nat) (next : List Char),
    rest = '\n' :: (List.replicate k ' ' ++ next) ∧ opensToken next = true ∧
      (next = [] ∨ (k : Int) ≤ indent)

theorem Outdented.mono
    {indent deeper : Int}
    {rest : List Char}
    (h : Outdented indent rest)
    (hle : indent ≤ deeper) :
    Outdented deeper rest := by
  rcases h with rfl | ⟨k, next, rfl, hopens, hout⟩
  · exact .inl rfl
  · exact .inr ⟨k, next, rfl, hopens, hout.imp_right fun hk => Int.le_trans hk hle⟩

section Moves

variable {v : View}

/-- Reading goes on behind spaces. -/
theorem leads_spaces
    (k : Nat)
    {rest : List Char}
    (hrest : v.rest = List.replicate k ' ' ++ rest)
    (hopens : opensToken rest = true) :
    Leads v { v with rest, column := v.column + k } := by
  refine Leads.of_alike (fun s hs => ?_) ?_
  · obtain ⟨index, line, blockKey, flowKeys, hlax, rfl⟩ := hs
    exact ⟨_, ⟨index + k, line, blockKey, flowKeys, hlax, rfl⟩, step?_spaces k hrest hopens index line⟩
  · rw [hrest, List.length_append]
    exact Nat.le_add_left _ _

/-- Reading goes on at the first token of the next line. -/
theorem leads_break
    (hbrackets : v.brackets = 0)
    (k : Nat)
    {rest : List Char}
    (hrest : v.rest = '\n' :: (List.replicate k ' ' ++ rest))
    (hopens : opensToken rest = true) :
    Leads v { v with rest, column := k, keyAllowed := true } := by
  refine Leads.of_alike (fun s hs => ?_) ?_
  · obtain ⟨index, line, blockKey, flowKeys, hlax, rfl⟩ := hs
    exact ⟨_, ⟨_, _, blockKey, flowKeys, hlax, rfl⟩,
      step?_break hbrackets hlax k hrest hopens index line⟩
  · rw [hrest, List.length_cons, List.length_append]
    exact Nat.le_succ_of_le (Nat.le_add_left _ _)

/-- At the end of a line the innermost block may be closed, when the next line is
outside of it. -/
theorem leads_pop
    (hbrackets : v.brackets = 0)
    {o : Int}
    {os : List Int}
    (houter : v.outer = o :: os)
    (hindent : -1 < v.indent)
    (ho : o < v.indent)
    (hout : Outdented o v.rest) :
    Leads v { v with indent := o, outer := os, tokens := .blockEnd :: v.tokens } := by
  refine Leads.of_alike (fun s hs => ?_) (Nat.le_refl _)
  obtain ⟨index, line, blockKey, flowKeys, hlax, rfl⟩ := hs
  refine ⟨_, ⟨index, line, blockKey, flowKeys, hlax, rfl⟩, ?_⟩
  rcases hout with hnil | ⟨k, next, hrest, hopens, hout⟩
  · exact step?_pop hbrackets hlax houter hindent (by rw [hnil]; rfl) (.inl hnil) index line
  · rw [step?_break hbrackets hlax k hrest hopens index line,
      step?_break (v := { v with indent := o, outer := os, tokens := .blockEnd :: v.tokens })
        hbrackets hlax k hrest hopens index line]
    refine step?_pop (v := { v with rest := next, column := k, keyAllowed := true })
      hbrackets hlax houter hindent hopens ?_ _ _
    rcases hout with hnil | hle
    · exact .inl hnil
    · exact .inr (by show (k : Int) < v.indent; omega)

end Moves

end View

end Dashboard.Yaml

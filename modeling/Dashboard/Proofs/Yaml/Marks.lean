import Dashboard.Proofs.Yaml.Written

/-!
# Marks between scalars

The steps of the scanner at a dash, a colon, a bracket and a comma, and at the
end of the text.  A scalar and the colon behind it are taken together: only
the colon shows that the scalar was a key, and puts the marks of the key and
of a new mapping in front of it.
-/

namespace Dashboard.Yaml

namespace Scanner

variable {s : Scanner}
variable {rest : List Char}

/-- A colon before a gap, or inside brackets, is the mark of a value. -/
theorem takeToken?_colon
    (hrest : s.cursor.rest = ':' :: rest)
    (hgap : (s.inFlow || atGap rest) = true) :
    s.takeToken? = s.takeValue? := by
  have hmark : s.cursor.atDocumentMark = false := by
    simp [Cursor.atDocumentMark, hrest]
  rw [takeToken?.eq_def, hrest]
  simp [hmark, hgap]

/-- A dash before a gap is the mark of an item. -/
theorem takeToken?_dash
    (hrest : s.cursor.rest = '-' :: rest)
    (hgap : atGap rest = true) :
    s.takeToken? = s.takeBlockEntry? := by
  have hmark : s.cursor.atDocumentMark = false := by
    rw [Cursor.atDocumentMark, hrest, Bool.and_eq_false_iff]
    refine .inr ?_
    split
    · next heq =>
        rw [(List.cons.inj heq).2] at hgap
        exact absurd hgap (by simp [atGap, isGap, isSpace, isBreak])
    · next heq =>
        exact absurd (List.cons.inj heq).1 (by decide)
    · rfl
  rw [takeToken?.eq_def, hrest]
  simp [hmark, hgap]

theorem takeToken?_openSequence
    (hrest : s.cursor.rest = '[' :: rest) :
    s.takeToken? = s.takeOpening? .flowSequenceStart := by
  have hmark : s.cursor.atDocumentMark = false := by
    simp [Cursor.atDocumentMark, hrest]
  rw [takeToken?.eq_def, hrest]
  simp [hmark]

theorem takeToken?_openMapping
    (hrest : s.cursor.rest = '\x7b' :: rest) :
    s.takeToken? = s.takeOpening? .flowMappingStart := by
  have hmark : s.cursor.atDocumentMark = false := by
    simp [Cursor.atDocumentMark, hrest]
  rw [takeToken?.eq_def, hrest]
  simp [hmark]

theorem takeToken?_closeSequence
    (hrest : s.cursor.rest = ']' :: rest) :
    s.takeToken? = s.takeClosing? .flowSequenceEnd := by
  have hmark : s.cursor.atDocumentMark = false := by
    simp [Cursor.atDocumentMark, hrest]
  rw [takeToken?.eq_def, hrest]
  simp [hmark]

theorem takeToken?_closeMapping
    (hrest : s.cursor.rest = '\x7d' :: rest) :
    s.takeToken? = s.takeClosing? .flowMappingEnd := by
  have hmark : s.cursor.atDocumentMark = false := by
    simp [Cursor.atDocumentMark, hrest]
  rw [takeToken?.eq_def, hrest]
  simp [hmark]

theorem takeToken?_comma
    (hrest : s.cursor.rest = ',' :: rest) :
    s.takeToken? = s.takeFlowEntry? := by
  have hmark : s.cursor.atDocumentMark = false := by
    simp [Cursor.atDocumentMark, hrest]
  rw [takeToken?.eq_def, hrest]
  simp [hmark]

end Scanner

namespace View

/-- The view with a block opened in a column, unless the innermost block is in
that column already. -/
def enter (v : View) (column : Nat) (t : Token) : View :=
  if v.indent < column then
    { v with indent := column, outer := v.indent :: v.outer, tokens := t :: v.tokens }
  else v

theorem enter_brackets
    (v : View)
    (column : Nat)
    (t : Token) :
    (v.enter column t).brackets = v.brackets := by
  rw [enter]
  split <;> rfl

/-- No candidates. -/
theorem lax_none :
    Lax 0 none [] :=
  ⟨by simp, by simp, rfl⟩

variable {v : View}
variable {rest : List Char}

/-- Opening a block by a token in front of the next one. -/
theorem openBlock_push
    (hbrackets : v.brackets = 0)
    (t : Token)
    {index line : Nat}
    {blockKey : Option Candidate}
    {flowKeys : List (Option Candidate)}
    (hlength : flowKeys.length = v.brackets) :
    (v.scanner index line blockKey flowKeys).openBlock v.column (·.push t) =
      (v.enter v.column t).scanner index line blockKey flowKeys := by
  have hflow : (v.scanner index line blockKey flowKeys).inFlow = false := by
    rw [scanner_inFlow hlength, hbrackets]
    rfl
  rw [Scanner.openBlock, hflow, enter]
  by_cases hopen : v.indent < v.column
  · simp [scanner, hopen, Scanner.push]
  · simp [scanner, hopen]

/-- The mark of an item opens its list and is read. -/
theorem leads_item
    (hbrackets : v.brackets = 0)
    (hkey : v.keyAllowed = true)
    (hrest : v.rest = '-' :: rest)
    (hgap : atGap rest = true)
    (hinside : v.indent ≤ v.column) :
    Leads v ((v.enter v.column .blockSequenceStart).after 1 rest true [.blockEntry]) := by
  have hopens : opensToken v.rest = true := by
    rw [hrest]
    rfl
  refine Leads.of_step (fun s hs => ?_) (by simp [after]) ?_
  · obtain ⟨index, line, blockKey, flowKeys, hlax, rfl⟩ := hs
    obtain ⟨blockKey, flowKeys, hlax, hstep⟩ :=
      exists_step?_eq hlax hopens (fun _ => hinside) index line
    have hflow : (v.scanner index line blockKey flowKeys).inFlow = false := by
      rw [scanner_inFlow hlax.length, hbrackets]
      rfl
    have hallowed : (v.scanner index line blockKey flowKeys).keyAllowed = true := hkey
    have hlaxEnter : Lax (v.enter v.column .blockSequenceStart).brackets blockKey flowKeys := by
      rw [enter_brackets]
      exact hlax
    have hcolumn : (v.scanner index line blockKey flowKeys).cursor.column = v.column := rfl
    rw [hstep, Scanner.takeToken?_dash hrest hgap, Scanner.takeBlockEntry?, hflow, hallowed, hcolumn]
    simp only [Bool.not_true, Bool.and_false, Bool.false_eq_true, if_false]
    rw [openBlock_push hbrackets _ hlax.length, dropCandidate?_eq hlaxEnter]
    have hnil : flowKeys = [] :=
      List.eq_nil_of_length_eq_zero (hlax.length.trans hbrackets)
    subst hnil
    have hrestEnter : (v.enter v.column .blockSequenceStart).rest = '-' :: rest := by
      rw [enter]
      split
      · exact hrest
      · exact hrest
    refine ⟨_, rfl, index + 1, line, none, [], ?_, ?_⟩
    · simpa [after, enter_brackets, hbrackets] using lax_none
    · simp [scanner, Scanner.setCandidate, Scanner.take, Scanner.push, Cursor.skipN, Cursor.skip,
        after, hrestEnter]
  · rw [hrest]
    exact Nat.lt_succ_self _

/-- The colon behind a candidate makes it a key of the innermost block. -/
theorem step?_blockValue
    (hgap : atGap rest = true)
    (hinside : v.indent ≤ v.column)
    {length : Nat}
    (hlength : length ≤ 1024)
    (t : Token)
    (index line : Nat) :
    ((v.after length (':' :: rest) false [t]).scanner (index + length) line
        (some (v.here index line)) []).step? =
      some (((v.enter v.column .blockMappingStart).after (length + 1) rest false
        [.key, t, .value]).scanner (index + length + 1) line none []) := by
  generalize hs : (v.after length (':' :: rest) false [t]).scanner (index + length) line
    (some (v.here index line)) [] = s
  have hstay : s.skipGaps (s.cursor.rest.length + 1) = s := by
    rw [← hs]
    exact Scanner.skipGaps_of_opensToken _ rfl
  have hnear : Scanner.expire? s.cursor (some (v.here index line)) =
      some (some (v.here index line)) := by
    rw [← hs]
    exact Scanner.expire?_of_near rfl (Nat.add_le_add_left hlength index)
  have hexpire : s.expireAll? = some s := by
    rw [Scanner.expireAll?, show s.blockKey = some (v.here index line) by rw [← hs]; rfl, hnear,
      show s.flowKeys = [] by rw [← hs]; rfl, ← hs]
    rfl
  have hclose : s.closeBlocks s.cursor.column = s := by
    refine Scanner.closeBlocks_of_le fun _ => ?_
    rw [← hs]
    show v.indent ≤ ((v.column + length : Nat) : Int)
    omega
  have hcolon : s.takeToken? = s.takeValue? := by
    refine Scanner.takeToken?_colon (show s.cursor.rest = ':' :: rest by rw [← hs]; rfl) ?_
    rw [hgap, Bool.or_true]
  rw [Scanner.step?, hstay, hexpire]
  simp only [Option.bind_eq_bind, Option.bind_some]
  rw [hclose, hcolon, ← hs]
  have hlater : v.tokens.length + 1 - v.tokens.length = 1 := by
    omega
  have hlater' : v.tokens.length + 1 + 1 - v.tokens.length = 2 := by
    omega
  by_cases hopen : v.indent < v.column
  · simp only [Scanner.takeValue?, scanner, Scanner.candidate, after, here, Scanner.insert,
      Scanner.openBlock, Scanner.inFlow, Scanner.setCandidate, Scanner.take, Scanner.push,
      Cursor.skipN, Cursor.skip, enter, hopen, List.reverse_singleton, List.singleton_append,
      List.length_cons, hlater, hlater', List.isEmpty_nil, Bool.not_true, Bool.not_false,
      Bool.true_and, decide_true, if_true, List.take_succ_cons, List.take_zero,
      List.drop_succ_cons, List.drop_zero]
    rfl
  · simp only [Scanner.takeValue?, scanner, Scanner.candidate, after, here, Scanner.insert,
      Scanner.openBlock, Scanner.inFlow, Scanner.setCandidate, Scanner.take, Scanner.push,
      Cursor.skipN, Cursor.skip, enter, hopen, List.reverse_singleton, List.singleton_append,
      List.length_cons, hlater, List.isEmpty_nil, Bool.not_true, Bool.not_false,
      Bool.true_and, decide_false, Bool.false_eq_true, if_false, List.take_succ_cons,
      List.take_zero, List.drop_succ_cons, List.drop_zero]
    rfl

/-- A key of a block mapping and the colon behind it are read. -/
theorem leads_blockKey
    {x : List Char}
    {text : String}
    {plain : Bool}
    (hx : Written false x text plain)
    (hbrackets : v.brackets = 0)
    (hkey : v.keyAllowed = true)
    (hrest : v.rest = x ++ ':' :: rest)
    (hgap : atGap rest = true)
    (hinside : v.indent ≤ v.column)
    (hlength : x.length ≤ 1024) :
    Leads v ((v.enter v.column .blockMappingStart).after (x.length + 1) rest false
      [.key, .scalar text plain, .value]) := by
  have hopens : opensToken v.rest = true :=
    hrest ▸ opensToken_of_written hx _
  refine Leads.of_two_steps (fun s hs => ?_) (by simp [after]) ?_
  · obtain ⟨index, line, blockKey, flowKeys, hlax, rfl⟩ := hs
    obtain ⟨blockKey, flowKeys, hlax, hstep⟩ :=
      exists_step?_eq hlax hopens (fun _ => hinside) index line
    have hflowKeys : flowKeys = [] :=
      List.eq_nil_of_length_eq_zero (hlax.length.trans hbrackets)
    subst hflowKeys
    have hsave := saveCandidate?_eq hlax hkey index line
    have htake := takeToken?_written (by simpa [hbrackets] using hx) hrest
      (by simpa [hbrackets, atBareEnd] using hgap) rfl hinside hlax.length hsave
    have hvalue := step?_blockValue hgap hinside hlength (.scalar text plain) index line
    have hbracketsNew : ((v.enter v.column .blockMappingStart).after (x.length + 1) rest false
        [.key, .scalar text plain, .value]).brackets = 0 := by
      simpa [after, enter_brackets] using hbrackets
    exact ⟨_, _, hstep.trans htake, by simp [scanner, after], hvalue, _, _, _, _,
      hbracketsNew ▸ lax_none, rfl⟩
  · rw [hrest, List.length_append, List.length_cons]
    have hpos := length_pos_of_written hx
    show rest.length + 2 ≤ _
    omega

/-- Opening brackets, as characters and tokens. -/
inductive Opening : Char → Token → Prop where
  | sequence : Opening '[' .flowSequenceStart
  | mapping : Opening '\x7b' .flowMappingStart

/-- Closing brackets, as characters and tokens. -/
inductive Closing : Char → Token → Prop where
  | sequence : Closing ']' .flowSequenceEnd
  | mapping : Closing '\x7d' .flowMappingEnd

/-- An opening bracket is read. -/
theorem leads_opening
    {c : Char}
    {t : Token}
    (hc : Opening c t)
    (hrest : v.rest = c :: rest)
    (hinside : v.indent ≤ v.column)
    (hfree : v.keyAllowed = true → v.brackets = 0 → v.indent ≠ v.column) :
    Leads v { v.after 1 rest true [t] with brackets := v.brackets + 1 } := by
  have hopens : opensToken v.rest = true := by
    rw [hrest]
    cases hc <;> rfl
  refine Leads.of_step (fun s hs => ?_) (by cases hc <;> simp [after]) ?_
  · obtain ⟨index, line, blockKey, flowKeys, hlax, rfl⟩ := hs
    obtain ⟨blockKey, flowKeys, hlax, hstep⟩ :=
      exists_step?_eq hlax hopens (fun _ => hinside) index line
    obtain ⟨blockKey', flowKeys', hlax', hsave⟩ := exists_saveCandidate?_eq hlax hfree index line
    have htake : (v.scanner index line blockKey flowKeys).takeToken? =
        (v.scanner index line blockKey flowKeys).takeOpening? t := by
      cases hc with
      | sequence =>
          exact Scanner.takeToken?_openSequence hrest
      | mapping =>
          exact Scanner.takeToken?_openMapping hrest
    rw [hstep, htake, Scanner.takeOpening?, hsave]
    refine ⟨_, rfl, index + 1, line, blockKey', none :: flowKeys', ?_, ?_⟩
    · refine ⟨hlax'.block, ?_, congrArg (· + 1) hlax'.length⟩
      intro o ho
      rcases List.mem_cons.1 ho with rfl | ho
      · simp
      · exact hlax'.flow o ho
    · simp [scanner, Scanner.take, Scanner.push, Cursor.skipN, Cursor.skip, after, hrest]
  · rw [hrest]
    exact Nat.lt_succ_self _

/-- A closing bracket is read. -/
theorem leads_closing
    {c : Char}
    {t : Token}
    (hc : Closing c t)
    (hrest : v.rest = c :: rest)
    {n : Nat}
    (hbrackets : v.brackets = n + 1) :
    Leads v { v.after 1 rest false [t] with brackets := n } := by
  have hopens : opensToken v.rest = true := by
    rw [hrest]
    cases hc <;> rfl
  refine Leads.of_step (fun s hs => ?_) (by cases hc <;> simp [after]) ?_
  · obtain ⟨index, line, blockKey, flowKeys, hlax, rfl⟩ := hs
    obtain ⟨blockKey, flowKeys, hlax, hstep⟩ :=
      exists_step?_eq hlax hopens (fun h => absurd h (by omega)) index line
    have htake : (v.scanner index line blockKey flowKeys).takeToken? =
        (v.scanner index line blockKey flowKeys).takeClosing? t := by
      cases hc with
      | sequence =>
          exact Scanner.takeToken?_closeSequence hrest
      | mapping =>
          exact Scanner.takeToken?_closeMapping hrest
    obtain ⟨o, os, rfl⟩ :=
      List.exists_cons_of_length_eq_add_one (hlax.length.trans hbrackets)
    rw [hstep, htake, Scanner.takeClosing?, dropCandidate?_eq hlax]
    refine ⟨_, rfl, index + 1, line, blockKey, os, ?_, ?_⟩
    · refine ⟨hlax.block, fun p hp => hlax.flow p (List.mem_cons_of_mem _ hp), ?_⟩
      have hlength := hlax.length
      rw [hbrackets, List.length_cons] at hlength
      exact Nat.succ.inj hlength
    · simp [scanner, Scanner.setCandidate, Scanner.take, Scanner.push, Cursor.skipN, Cursor.skip,
        after, hrest]
  · rw [hrest]
    exact Nat.lt_succ_self _

/-- A comma between brackets is read. -/
theorem leads_comma
    (hrest : v.rest = ',' :: rest)
    (hbrackets : v.brackets ≠ 0) :
    Leads v (v.after 1 rest true [.flowEntry]) := by
  have hopens : opensToken v.rest = true := by
    rw [hrest]
    rfl
  refine Leads.of_step (fun s hs => ?_) (by simp [after]) ?_
  · obtain ⟨index, line, blockKey, flowKeys, hlax, rfl⟩ := hs
    obtain ⟨blockKey, flowKeys, hlax, hstep⟩ :=
      exists_step?_eq hlax hopens (fun h => absurd h hbrackets) index line
    obtain ⟨n, hn⟩ := Nat.exists_eq_succ_of_ne_zero hbrackets
    obtain ⟨o, os, rfl⟩ := List.exists_cons_of_length_eq_add_one (hlax.length.trans hn)
    rw [hstep, Scanner.takeToken?_comma hrest, Scanner.takeFlowEntry?, dropCandidate?_eq hlax]
    refine ⟨_, rfl, index + 1, line, blockKey, none :: os, ?_, ?_⟩
    · refine ⟨hlax.block, fun p hp => ?_, hlax.length⟩
      rcases List.mem_cons.1 hp with rfl | hp
      · simp
      · exact hlax.flow p (List.mem_cons_of_mem _ hp)
    · simp [scanner, Scanner.setCandidate, Scanner.take, Scanner.push, Cursor.skipN, Cursor.skip,
        after, hrest]
  · rw [hrest]
    exact Nat.lt_succ_self _

/-- Between brackets only the innermost candidate matters to a step. -/
theorem exists_step?_eq_inner
    {blockKey o : Option Candidate}
    {flowKeys : List (Option Candidate)}
    (hlax : Lax v.brackets blockKey (o :: flowKeys))
    (w : View)
    {index line : Nat}
    {k k' : Option Candidate}
    (hopens : opensToken w.rest = true)
    (hk : Scanner.expire? ⟨w.rest, index, line, w.column⟩ k = some k') :
    ∃ blockKey' flowKeys', Lax v.brackets blockKey' (none :: flowKeys') ∧
      (w.scanner index line blockKey (k :: flowKeys)).step? =
        (w.scanner index line blockKey' (k' :: flowKeys')).takeToken? := by
  obtain ⟨blockKey', hblock, heqBlock⟩ :=
    Scanner.exists_expire?_eq ⟨w.rest, index, line, w.column⟩ hlax.block
  obtain ⟨flowKeys', hflow, hlength, heqFlow⟩ :=
    Scanner.exists_mapM_expire?_eq ⟨w.rest, index, line, w.column⟩
      fun p hp => hlax.flow p (List.mem_cons_of_mem _ hp)
  refine ⟨blockKey', flowKeys', ⟨hblock, ?_, ?_⟩, ?_⟩
  · intro p hp
    rcases List.mem_cons.1 hp with rfl | hp
    · simp
    · exact hflow p hp
  · rw [List.length_cons, hlength, ← List.length_cons, hlax.length]
  · have hexpire : (w.scanner index line blockKey (k :: flowKeys)).expireAll? =
        some (w.scanner index line blockKey' (k' :: flowKeys')) := by
      simp only [Scanner.expireAll?, scanner, heqBlock, List.mapM_cons, hk, heqFlow,
        Option.bind_eq_bind, Option.bind_some, Option.pure_def]
    rw [Scanner.step?, Scanner.skipGaps_of_opensToken _ hopens, hexpire]
    simp only [Option.bind_eq_bind, Option.bind_some]
    rw [Scanner.closeBlocks_of_le fun hflow => absurd hflow (by simp [scanner, Scanner.inFlow])]

/-- The colon behind a candidate between brackets makes it a key. -/
theorem exists_step?_flowValue
    (rest : List Char)
    {length : Nat}
    (hlength : length ≤ 1024)
    (t : Token)
    {blockKey o : Option Candidate}
    {flowKeys : List (Option Candidate)}
    (hlax : Lax v.brackets blockKey (o :: flowKeys))
    (index line : Nat) :
    ∃ blockKey' flowKeys', Lax v.brackets blockKey' flowKeys' ∧
      ((v.after length (':' :: rest) false [t]).scanner (index + length) line
          blockKey (some (v.here index line) :: flowKeys)).step? =
        some ((v.after (length + 1) rest false [.key, t, .value]).scanner (index + length + 1) line
          blockKey' flowKeys') := by
  have hnear : Scanner.expire? ⟨':' :: rest, index + length, line, v.column + length⟩
      (some (v.here index line)) = some (some (v.here index line)) :=
    Scanner.expire?_of_near rfl (Nat.add_le_add_left hlength index)
  obtain ⟨blockKey', flowKeys', hlax', hstep⟩ := exists_step?_eq_inner hlax
    (v.after length (':' :: rest) false [t]) rfl hnear
  have hlater : v.tokens.length + 1 - v.tokens.length = 1 := by
    omega
  refine ⟨blockKey', none :: flowKeys', hlax', ?_⟩
  rw [hstep, Scanner.takeToken?_colon rfl (by simp [scanner, Scanner.inFlow])]
  simp only [Scanner.takeValue?, scanner, Scanner.candidate, after, here, Scanner.insert,
    Scanner.openBlock, Scanner.inFlow, Scanner.setCandidate, Scanner.take, Scanner.push,
    Cursor.skipN, Cursor.skip, List.reverse_singleton, List.singleton_append, List.length_cons,
    hlater, List.isEmpty_cons, Bool.not_false, Bool.not_true, Bool.false_and,
    Bool.false_eq_true, if_false, List.take_succ_cons, List.take_zero, List.drop_succ_cons,
    List.drop_zero]
  rfl

/-- The colon behind a candidate between brackets that lies further back is read,
but what stands before it is no key. -/
theorem exists_step?_lapsedFlowValue
    (rest : List Char)
    {length : Nat}
    (hlength : 1024 < length)
    (t : Token)
    {blockKey o : Option Candidate}
    {flowKeys : List (Option Candidate)}
    (hlax : Lax v.brackets blockKey (o :: flowKeys))
    (hbrackets : v.brackets ≠ 0)
    (index line : Nat) :
    ∃ blockKey' flowKeys', Lax v.brackets blockKey' flowKeys' ∧
      ((v.after length (':' :: rest) false [t]).scanner (index + length) line
          blockKey (some (v.here index line) :: flowKeys)).step? =
        some ((v.after (length + 1) rest false [t, .value]).scanner (index + length + 1) line
          blockKey' flowKeys') := by
  have hfar : Scanner.expire? ⟨':' :: rest, index + length, line, v.column + length⟩
      (some (v.here index line)) = some none := by
    have hindex : (v.here index line).index + 1024 < index + length :=
      Nat.add_lt_add_left hlength index
    have hfree : (v.here index line).required = false := by
      simp [here, hbrackets]
    simp [Scanner.expire?, hindex, hfree]
  obtain ⟨blockKey', flowKeys', hlax', hstep⟩ := exists_step?_eq_inner hlax
    (v.after length (':' :: rest) false [t]) rfl hfar
  refine ⟨blockKey', none :: flowKeys', hlax', ?_⟩
  rw [hstep, Scanner.takeToken?_colon rfl (by simp [scanner, Scanner.inFlow])]
  simp only [Scanner.takeValue?, scanner, Scanner.candidate, after, Scanner.openBlock,
    Scanner.inFlow, Scanner.take, Scanner.push, Cursor.skipN, Cursor.skip,
    List.reverse_singleton, List.singleton_append, List.length_cons, List.isEmpty_cons,
    Bool.not_false, Bool.not_true, Bool.false_and, Bool.false_eq_true, if_false]
  rfl

/-- What stands between brackets before a colon is read with the colon, and it is
known to be a key if it is not longer than 1024 characters. -/
theorem leads_beforeColon
    (s : List Char)
    (hbrackets : v.brackets ≠ 0)
    (hkey : v.keyAllowed = true)
    (hrest : v.rest = Render.doubleQuoted s ++ ':' :: rest) :
    Leads v (v.after ((Render.doubleQuoted s).length + 1) rest false
      (if (Render.doubleQuoted s).length ≤ 1024 then [.key, .scalar (String.ofList s) false, .value]
        else [.scalar (String.ofList s) false, .value])) := by
  have hopens : opensToken v.rest = true := by
    rw [hrest]
    rfl
  refine Leads.of_two_steps (fun r hr => ?_) (by split <;> simp [after]) ?_
  · obtain ⟨index, line, blockKey, flowKeys, hlax, rfl⟩ := hr
    obtain ⟨blockKey, flowKeys, hlax, hstep⟩ :=
      exists_step?_eq hlax hopens (fun h => absurd h hbrackets) index line
    obtain ⟨n, hn⟩ := Nat.exists_eq_succ_of_ne_zero hbrackets
    obtain ⟨o, os, rfl⟩ := List.exists_cons_of_length_eq_add_one (hlax.length.trans hn)
    have hsave := saveCandidate?_eq hlax hkey index line
    have htake := takeToken?_doubleQuoted s hrest hsave
    split
    · next hlength =>
        obtain ⟨blockKey', flowKeys', hlax', hvalue⟩ :=
          exists_step?_flowValue rest hlength (.scalar (String.ofList s) false) hlax index line
        exact ⟨_, _, hstep.trans htake, by simp [scanner, after], hvalue, _, _, _, _, hlax', rfl⟩
    · next hlength =>
        obtain ⟨blockKey', flowKeys', hlax', hvalue⟩ := exists_step?_lapsedFlowValue rest
          (Nat.lt_of_not_le hlength) (.scalar (String.ofList s) false) hlax hbrackets index line
        exact ⟨_, _, hstep.trans htake, by simp [scanner, after], hvalue, _, _, _, _, hlax', rfl⟩
  · rw [hrest, List.length_append, List.length_cons, Render.doubleQuoted, List.length_append]
    show rest.length + 2 ≤ _
    simp only [List.length_cons]
    omega

/-- At the end of the text, outside all blocks, the last token is taken. -/
theorem run?_of_end
    (hrest : v.rest = [])
    (hbrackets : v.brackets = 0)
    (hindent : v.indent = -1)
    {s : Scanner}
    (hs : v.Shown s)
    {n : Nat}
    (hn : 0 < n) :
    ∃ t, Scanner.run? n s = some t ∧ t.tokens = .streamEnd :: v.tokens := by
  obtain ⟨n, rfl⟩ := Nat.exists_eq_succ_of_ne_zero (Nat.ne_of_gt hn)
  obtain ⟨index, line, blockKey, flowKeys, hlax, rfl⟩ := hs
  obtain ⟨blockKey, flowKeys, hlax, hstep⟩ :=
    exists_step?_eq hlax (by rw [hrest]; rfl) (by omega) index line
  have htake : (v.scanner index line blockKey flowKeys).takeToken? =
      (v.scanner index line blockKey flowKeys).finish? := by
    rw [Scanner.takeToken?.eq_def,
      show (v.scanner index line blockKey flowKeys).cursor.rest = [] from hrest]
  have hclose : (v.scanner index line blockKey flowKeys).closeBlocks (-1) =
      v.scanner index line blockKey flowKeys :=
    Scanner.closeBlocks_of_le fun _ => Int.le_of_eq hindent
  have hnil : flowKeys = [] :=
    List.eq_nil_of_length_eq_zero (hlax.length.trans hbrackets)
  subst hnil
  rw [Scanner.run?, hstep, htake, Scanner.finish?, hclose, dropCandidate?_eq hlax]
  exact ⟨_, rfl, rfl⟩

/-- Reading cannot go on to the end of the text. -/
def Stuck (v : View) : Prop :=
  ∀ s, v.Shown s → ∀ n, v.rest.length < n → Scanner.run? n s = none

/-- Where reading leads to a view it is stuck at, it is stuck. -/
theorem Leads.stuck
    {v w : View}
    (h : Leads v w)
    (hw : w.Stuck) :
    v.Stuck := by
  intro s hs n hn
  obtain ⟨t, m, ht, hm, hrun⟩ := h s hs n hn
  exact hrun.trans (hw t ht m hm)

/-- A candidate that lies further back has lapsed, and the colon is refused. -/
theorem step?_lapsedValue
    (hgap : atGap rest = true)
    (hinside : v.indent ≤ v.column)
    {length : Nat}
    (hlength : 1024 < length)
    (t : Token)
    (index line : Nat) :
    ((v.after length (':' :: rest) false [t]).scanner (index + length) line
      (some (v.here index line)) []).step? = none := by
  generalize hs : (v.after length (':' :: rest) false [t]).scanner (index + length) line
    (some (v.here index line)) [] = s
  have hstay : s.skipGaps (s.cursor.rest.length + 1) = s := by
    rw [← hs]
    exact Scanner.skipGaps_of_opensToken _ rfl
  have hfar : Scanner.expire? s.cursor (some (v.here index line)) =
      if (v.here index line).required then none else some none := by
    rw [← hs]
    have hindex : (v.here index line).index + 1024 < index + length :=
      Nat.add_lt_add_left hlength index
    simp [Scanner.expire?, scanner, hindex]
  rw [Scanner.step?, hstay, Scanner.expireAll?,
    show s.blockKey = some (v.here index line) by rw [← hs]; rfl, hfar]
  cases hrequired : (v.here index line).required with
  | true =>
      rfl
  | false =>
      have hclose : ({ s with blockKey := none } : Scanner).closeBlocks s.cursor.column =
          { s with blockKey := none } := by
        refine Scanner.closeBlocks_of_le fun _ => ?_
        rw [← hs]
        show v.indent ≤ ((v.column + length : Nat) : Int)
        omega
      have hcolon : ({ s with blockKey := none } : Scanner).takeToken? =
          ({ s with blockKey := none } : Scanner).takeValue? := by
        refine Scanner.takeToken?_colon (show s.cursor.rest = ':' :: rest by rw [← hs]; rfl) ?_
        rw [hgap, Bool.or_true]
      have hflow : s.flowKeys = [] := by
        rw [← hs]
        rfl
      have hallowed : s.keyAllowed = false := by
        rw [← hs]
        rfl
      simp only [Bool.false_eq_true, if_false, hflow, List.mapM_nil, Option.bind_eq_bind,
        Option.bind_some, Option.pure_def]
      rw [← hflow, hclose, hcolon]
      simp [Scanner.takeValue?, Scanner.candidate, Scanner.inFlow, hflow, hallowed]

/-- A key of a block mapping with more than 1024 characters is not read: it
lapses before the colon, and no key may start there. -/
theorem stuck_blockKey
    {x : List Char}
    {text : String}
    {plain : Bool}
    (hx : Written false x text plain)
    (hbrackets : v.brackets = 0)
    (hkey : v.keyAllowed = true)
    (hrest : v.rest = x ++ ':' :: rest)
    (hgap : atGap rest = true)
    (hinside : v.indent ≤ v.column)
    (hlength : 1024 < x.length) :
    v.Stuck := by
  intro s hs n hn
  have hopens : opensToken v.rest = true :=
    hrest ▸ opensToken_of_written hx _
  obtain ⟨index, line, blockKey, flowKeys, hlax, rfl⟩ := hs
  obtain ⟨blockKey, flowKeys, hlax, hstep⟩ :=
    exists_step?_eq hlax hopens (fun _ => hinside) index line
  have hnil : flowKeys = [] :=
    List.eq_nil_of_length_eq_zero (hlax.length.trans hbrackets)
  subst hnil
  have hsave := saveCandidate?_eq hlax hkey index line
  have htake := takeToken?_written (by simpa [hbrackets] using hx) hrest
    (by simpa [hbrackets, atBareEnd] using hgap) rfl hinside hlax.length hsave
  obtain ⟨n, rfl⟩ : ∃ m, n = m + 2 := by
    rw [hrest, List.length_append] at hn
    exact ⟨n - 2, by omega⟩
  rw [run?_succ (hstep.trans htake) (by simp [scanner, after]), Scanner.run?]
  have hlapsed := step?_lapsedValue hgap hinside hlength (.scalar text plain) index line
  exact congrArg (Option.bind · _) hlapsed

end View

/-- The start of a text. -/
theorem shown_start
    (cs : List Char) :
    ({ rest := cs } : View).Shown { cursor := .start cs } :=
  ⟨0, 0, none, [], View.lax_none, rfl⟩

/-- The tokens of a text that is read to its end. -/
theorem scan?_of_leads
    {cs : List Char}
    {w : View}
    (h : View.Leads { rest := cs } w)
    (hrest : w.rest = [])
    (hbrackets : w.brackets = 0)
    (hindent : w.indent = -1) :
    scan? cs = some (w.tokens.reverse ++ [.streamEnd]) := by
  obtain ⟨t, m, ht, hm, hrun⟩ := h _ (shown_start cs) (cs.length + 2) (Nat.lt_add_of_pos_right (by decide))
  obtain ⟨r, hr, htokens⟩ := View.run?_of_end hrest hbrackets hindent ht (Nat.zero_lt_of_lt hm)
  rw [scan?, hrun, hr]
  simp [htokens]

/-- A text that is not read to its end has no tokens. -/
theorem scan?_of_stuck
    {cs : List Char}
    (h : View.Stuck { rest := cs }) :
    scan? cs = none := by
  rw [scan?, h _ (shown_start cs) (cs.length + 2) (Nat.lt_add_of_pos_right (by decide))]
  rfl

end Dashboard.Yaml

import Dashboard.Proofs.Yaml.Collections
import Dashboard.Proofs.Yaml.Scalar.OneLine
import Dashboard.Proofs.Yaml.SelfReading

/-!
# Texts without quotes and brackets

The first token of such a text decides whether it may be read as a text at all.
A plain scalar up to the end is the text itself, one before a colon becomes a
key, a local tag stays around the data, and every other token but a few starts
something else.  Those few are left out of the text that is read behind them.
-/

namespace Dashboard.Yaml

/-- The marks at the start of a text that are left out of a text read behind
them: those of a block scalar, of a tag that is not local, of the start of a
document, of a line of its own, and of the byte order. -/
def losesMark : List Char → Bool
  | '|' :: _ | '>' :: _ => true
  | '!' :: '!' :: _ | '!' :: '<' :: _ => true
  | '-' :: '-' :: '-' :: cs => atGap cs
  | '%' :: cs | '#' :: cs => cs.any isBreak
  | c :: _ => c == byteOrderMark
  | [] => false

/-- A text of which a part may be left out when it is read as a text. -/
def losesText (cs : List Char) : Bool :=
  losesMark cs || (Scanner.startsPlain false cs && cutShort cs)

namespace Node

/-- A node behind a tag has that tag. -/
theorem tag?_of_read?
    {handles : Handles}
    {steps : Nat}
    {block indentless : Bool}
    {anchors : Anchors}
    {handle suffix : String}
    {ts : List Token}
    {r : Remaining Node}
    (h : read? handles steps block indentless anchors (.tag handle suffix :: ts) = some r) :
    ∃ full, fullTag? handles handle suffix = some full ∧ r.result.tag? = some full := by
  cases steps with
  | zero =>
      cases h
  | succ steps =>
      simp only [read?, Option.bind_eq_bind, Option.bind_eq_some_iff] at h
      obtain ⟨⟨p, anchors', us⟩, hproperties, h⟩ := h
      have htag : ∃ full, fullTag? handles handle suffix = some full ∧ p.tag = some full := by
        rw [readProperties?.eq_def] at hproperties
        split at hproperties
        · next heq =>
            cases heq
        · next heq =>
            cases heq
        · next heq =>
            cases heq
            simp only [Option.bind_eq_bind, Option.bind_eq_some_iff, Option.pure_def,
              Option.some.injEq, Remaining.mk.injEq] at hproperties
            obtain ⟨full, hfull, rfl, -⟩ := hproperties
            exact ⟨full, hfull, rfl⟩
        · next heq =>
            cases heq
            simp only [Option.bind_eq_bind, Option.bind_eq_some_iff, Option.pure_def,
              Option.some.injEq, Remaining.mk.injEq] at hproperties
            obtain ⟨full, hfull, rfl, -⟩ := hproperties
            exact ⟨full, hfull, rfl⟩
        · next hne =>
            exact absurd rfl (hne handle suffix ts)
      obtain ⟨full, hfull, hp⟩ := htag
      refine ⟨full, hfull, ?_⟩
      have hempty : ∀ {us : List Token},
          (if p = {} then none else some ⟨empty p, anchors', us⟩) = some r →
            r.result.tag? = some full := by
        intro us h
        split at h
        · cases h
        · cases h
          exact hp
      dsimp only at h
      split at h
      · cases h
        exact hp
      · simp only [Option.bind_eq_some_iff, Option.pure_def, Option.some.injEq] at h
        obtain ⟨_, -, rfl⟩ := h
        exact hp
      · simp only [Option.bind_eq_some_iff, Option.pure_def, Option.some.injEq] at h
        obtain ⟨_, -, rfl⟩ := h
        exact hp
      · split at h
        · simp only [Option.bind_eq_some_iff, Option.pure_def, Option.some.injEq] at h
          obtain ⟨_, -, rfl⟩ := h
          exact hp
        · exact hempty h
      · split at h
        · simp only [Option.bind_eq_some_iff, Option.pure_def, Option.some.injEq] at h
          obtain ⟨_, -, rfl⟩ := h
          exact hp
        · exact hempty h
      · split at h
        · simp only [Option.bind_eq_some_iff, Option.pure_def, Option.some.injEq] at h
          obtain ⟨_, -, rfl⟩ := h
          exact hp
        · exact hempty h
      · exact hempty h

/-- A local tag stays around the data. -/
theorem yields_tagged_datum
    (ctx : Context)
    (depth : Nat)
    {n : Node}
    {full mark : String}
    (htag : n.tag? = some full)
    (hlocal : localTag? full = some mark) :
    Yields (fun d => ∃ content, d = .tagged mark content) (datum ctx depth false n) := by
  have hwith : ∀ child,
      Yields (fun d => ∃ content, d = .tagged mark content) (datumWith ctx child false n) := by
    intro child
    have hresolve : resolve ctx false n = pure (false, n) := by
      cases n with
      | «alias» a =>
          cases htag
      | scalar p text plain | seq p items | map p entries =>
          rfl
    rw [datumWith, hresolve, pure_bind]
    refine (yields_true _).map fun d _ => ⟨d, ?_⟩
    simp only [htag, Option.bind_some, hlocal, Bool.false_eq_true, if_false, withTag]
  cases depth with
  | zero =>
      exact hwith none
  | succ depth =>
      exact hwith _

/-- Data with a local tag are no text. -/
theorem datum?_ne_str
    {n : Node}
    {full : String}
    (htag : n.tag? = some full)
    (hlocal : (localTag? full).isSome = true)
    (t : String) :
    n.datum? ≠ some (.scalar (.str t)) := by
  intro h
  obtain ⟨_, hlocal⟩ := Option.isSome_iff_exists.1 hlocal
  rw [datum?, Option.map_eq_some_iff] at h
  obtain ⟨⟨d, left⟩, hread, rfl⟩ := h
  obtain ⟨content, heq⟩ := yields_tagged_datum _ _ htag hlocal _ _ _ hread
  cases heq

end Node

namespace Scanner

variable {x : Char}
variable {xs : List Char}
variable {s t e : Scanner}

/-- What the tokens from here on stand for, if it is a text, is this one, and it
has one line. -/
structure Keeps (cs : List Char) (s : Scanner) : Prop where
  goes : s.tokens.head? ≠ some .streamEnd
  text : ∀ {steps e n t}, s.run? steps = some e →
    Node.readDocument? e.tokens.reverse = some (some n) → n.datum? = some (.scalar (.str t)) →
      cs.any isBreak = false ∧ t = String.ofList cs

/-- What has become a key is no text. -/
theorem Front.eq_nil_of_datum?
    {front ts : List Token}
    {n : Node}
    {t : String}
    (hfront : Front front)
    (hdocument : Node.readDocument? (front.reverse ++ ts) = some (some n))
    (hdatum : n.datum? = some (.scalar (.str t))) :
    front = [] := by
  obtain ⟨p, plain, rfl⟩ := Node.exists_scalar_of_datum? hdatum
  cases hfront with
  | none =>
      rfl
  | key | block =>
      exact absurd rfl (Node.ne_scalar_of_isStructural rfl hdocument p t plain)

/-- Only what the tokens stand for as they are counts, not what they stand for
as a key. -/
theorem keeps_of_onBase
    {cs : List Char}
    (hgoes : s.tokens.head? ≠ some .streamEnd)
    (hbase : OnBase s.tokens s)
    (htext : ∀ {more n t}, Node.readDocument? (s.tokens.reverse ++ more) = some (some n) →
      n.datum? = some (.scalar (.str t)) → cs.any isBreak = false ∧ t = String.ofList cs) :
    Keeps cs s := by
  refine ⟨hgoes, fun hrun hdocument hdatum => ?_⟩
  obtain ⟨front, more, hfront, heq⟩ := hbase.exists_reverse hrun
  rw [heq] at hdocument
  obtain rfl := hfront.eq_nil_of_datum? hdocument hdatum
  exact htext hdocument hdatum

/-- Nothing that starts with one of these tokens is a text. -/
theorem keeps_of_isStructural
    {us : List Token}
    {u : Token}
    (cs : List Char)
    (hgoes : s.tokens.head? ≠ some .streamEnd)
    (hbase : OnBase s.tokens s)
    (htokens : s.tokens = us ++ [u])
    (hu : u.isStructural = true) :
    Keeps cs s := by
  refine keeps_of_onBase hgoes hbase fun hdocument hdatum => ?_
  obtain ⟨p, plain, rfl⟩ := Node.exists_scalar_of_datum? hdatum
  rw [htokens, List.reverse_append, List.reverse_singleton] at hdocument
  exact absurd rfl (Node.ne_scalar_of_isStructural hu hdocument p _ plain)

/-- Behind a local tag comes no text. -/
theorem keeps_tag
    {handle suffix : String}
    (cs : List Char)
    (houtside : Outside s)
    (htokens : s.tokens = [.tag handle suffix])
    (hlocal : ∀ full, Node.fullTag? defaultHandles handle suffix = some full →
      (Node.localTag? full).isSome = true) :
    Keeps cs s := by
  refine keeps_of_onBase (by simp [htokens]) houtside.onBase fun hdocument hdatum => ?_
  rw [htokens] at hdocument
  obtain ⟨_, r, hread, rfl, -⟩ := Node.exists_of_readDocument? rfl hdocument
  obtain ⟨full, hfull, htag⟩ := Node.tag?_of_read? hread
  exact absurd hdatum (Node.datum?_ne_str htag (hlocal full hfull) _)

/-- A plain scalar to the end of the text is the text. -/
theorem keeps_plain
    {cs : List Char}
    (hline : cs.any isBreak = false)
    (houtside : Outside s)
    (htokens : s.tokens = [.scalar (String.ofList cs) true]) :
    Keeps cs s := by
  refine keeps_of_onBase (by simp [htokens]) houtside.onBase fun hdocument hdatum => ⟨hline, ?_⟩
  rw [htokens] at hdocument
  obtain ⟨_, r, hread, rfl, -⟩ := Node.exists_of_readDocument? rfl hdocument
  cases hread
  obtain ⟨_, _, hscalar⟩ := Node.exists_scalar_of_datum? hdatum
  cases hscalar
  rfl

/-- At the end of the text the scanner stops. -/
theorem tokens_of_step?_end
    (houtside : Outside s)
    {c : Cursor}
    (hskip : s.skipGaps (s.cursor.rest.length + 1) = { s with cursor := c })
    (hrest : c.rest = [])
    (hstep : s.step? = some t) :
    t.tokens = .streamEnd :: s.tokens := by
  obtain ⟨r, hr, rfl, htokens, -, htake⟩ := houtside.exists_of_step? hskip hstep
  have hle : r.indent ≤ -1 :=
    Int.le_of_eq hr.indent
  rw [takeToken?.eq_def, hrest] at htake
  simp only [finish?, closeBlocks_of_le fun _ => hle, Option.bind_eq_bind,
    Option.bind_eq_some_iff, Option.pure_def, Option.some.injEq] at htake
  obtain ⟨q, hdrop, rfl⟩ := htake
  rcases eq_of_dropCandidate? hr.flowKeys hdrop with rfl | rfl
  · exact congrArg (List.cons Token.streamEnd) htokens
  · exact congrArg (List.cons Token.streamEnd) htokens

/-- A directive to the end of the text is no document. -/
theorem keeps_directive
    {u : Token}
    (cs : List Char)
    (hu : IsDirective u)
    (houtside : Outside s)
    (hrest : s.cursor.rest = [])
    (htokens : s.tokens = [u]) :
    Keeps cs s := by
  have hskip : ∀ steps, s.skipGaps steps = { s with cursor := s.cursor } :=
    fun steps => skipGaps_of_opensToken steps (by rw [hrest]; rfl)
  refine ⟨?_, fun hrun hdocument _ => ?_⟩
  · rw [htokens]
    rcases hu with ⟨_, _, rfl⟩ | ⟨_, _, rfl⟩ <;> simp
  · obtain ⟨r, left, hstep, -, hrun⟩ := exists_of_run? hrun
    have hend := tokens_of_step?_end houtside (hskip _) hrest hstep
    rcases hrun with ⟨-, rfl⟩ | ⟨hmore, -⟩
    · rw [hend, htokens, show [Token.streamEnd, u].reverse = [u, .streamEnd] from rfl,
        Node.readDocument?_directive hu] at hdocument
      cases hdocument
    · exact absurd (by rw [hend]; rfl) hmore

/-- A colon makes a key of all that was taken before, or the scanner fails. -/
theorem exists_of_step?_colon
    (houtside : Outside s)
    (hallowed : s.keyAllowed = false)
    (hrest : s.cursor.rest = ':' :: xs)
    (hgap : atGap xs = true)
    (h : s.step? = some t) :
    ∃ front, Front front ∧ front ≠ [] ∧ t.tokens = .value :: (s.tokens ++ front) ∧
      OnBase t.tokens t := by
  have hskip : ∀ steps, s.skipGaps steps = { s with cursor := s.cursor } :=
    fun steps => skipGaps_of_opensToken steps (by rw [hrest]; rfl)
  obtain ⟨r, hr, hcursor, htokens, hallowed', htake⟩ := houtside.exists_of_step? (hskip _) h
  have hoption : (r.inFlow || atGap xs) = true := by
    rw [hgap, Bool.or_true]
  have hcandidate : r.candidate = r.blockKey := by
    rw [candidate, hr.flowKeys]
  rw [takeToken?_colon (hcursor.symm ▸ hrest) hoption, takeValue?, hcandidate] at htake
  cases hkey : r.blockKey with
  | none =>
      simp [hkey, inFlow, hr.flowKeys, hallowed', hallowed] at htake
  | some k =>
      obtain ⟨front, hfront, hne, hasKey, hlength, hlast, hlastFlow⟩ :=
        exists_asKey_zero hr.count (hr.block k hkey) hr.flowKeys
      rw [hkey] at htake
      obtain rfl : ({ r.asKey k with keyAllowed := false }.take 1 .value) = t :=
        Option.some.inj htake
      refine ⟨front, hfront, hne, ?_, onBase_self ?_ ?_ ?_⟩
      · rw [← htokens, ← hasKey]
        rfl
      · exact congrArg Nat.succ hlength
      · show ∀ k' ∈ (r.asKey k).blockKey, k'.tokenCount = 0
        rw [hlast]
        rintro _ ⟨⟩
      · show ∀ o ∈ (r.asKey k).flowKeys, o = none
        rw [hlastFlow]
        exact fun _ hmem => absurd hmem List.not_mem_nil

/-- A token that may start a key is no text before a colon. -/
theorem keeps_colon
    (cs : List Char)
    (houtside : Outside s)
    (hallowed : s.keyAllowed = false)
    (hgoes : s.tokens.head? ≠ some .streamEnd)
    (hrest : s.cursor.rest = ':' :: xs)
    (hgap : atGap xs = true) :
    Keeps cs s := by
  refine ⟨hgoes, fun hrun hdocument hdatum => ?_⟩
  obtain ⟨r, left, hstep, -, hrun⟩ := exists_of_run? hrun
  obtain ⟨front, hfront, hne, htokens, hbase⟩ :=
    exists_of_step?_colon houtside hallowed hrest hgap hstep
  obtain ⟨us, u, hlast, hu⟩ : ∃ us u, r.tokens = us ++ [u] ∧ u.isStructural = true := by
    cases hfront with
    | none =>
        exact absurd rfl hne
    | key =>
        exact ⟨.value :: s.tokens, .key, htokens, rfl⟩
    | block =>
        refine ⟨.value :: (s.tokens ++ [.key]), .blockMappingStart, ?_, rfl⟩
        rw [htokens]
        simp
  have hvalue : r.tokens.head? ≠ some .streamEnd := by
    simp [htokens]
  rcases hrun with ⟨hend, -⟩ | ⟨-, hrun⟩
  · exact absurd hend hvalue
  · exact (keeps_of_isStructural cs hvalue hbase hlast hu).text hrun hdocument hdatum

/-! ## The first token -/

/-- One token is taken that may start a key. -/
theorem outside_first
    (c : Cursor)
    (allowed : Bool)
    (u : Token) :
    Outside { cursor := c, keyAllowed := allowed, blockKey := some ⟨false, 0, 0, 0, 0⟩,
              tokens := [u], tokenCount := 1 } := by
  refine ⟨rfl, ?_, rfl, rfl⟩
  rintro k ⟨⟩
  rfl

theorem keeps_takePlain?
    {cs : List Char}
    (hmark : (Cursor.start cs).atDocumentMark = false)
    (hhash : cs.head? ≠ some '#')
    (hcut : cutShort cs = false)
    (hlast : ∀ y ∈ cs.getLast?, isSpace y = false)
    (h : ({ cursor := .start cs } : Scanner).takePlain? = some t) :
    Keeps cs t := by
  simp only [takePlain?, Option.bind_eq_bind, Option.bind_eq_some_iff, Option.pure_def,
    Option.some.injEq] at h
  obtain ⟨r, hr, ⟨text, broken, c⟩, hread, rfl⟩ := h
  obtain rfl : ({ cursor := .start cs, blockKey := some ⟨false, 0, 0, 0, 0⟩ } : Scanner) = r :=
    Option.some.inj hr
  have hfirst := outside_first c broken (.scalar (String.ofList text) true)
  obtain ⟨rfl, ⟨-, hline, spaces, hspaces, rfl⟩ | ⟨xs, hrest, hgap⟩⟩ :=
    of_readPlain?_start hmark hhash hcut hread
  · obtain rfl : spaces = [] := by
      refine List.getLast?_eq_none_iff.1 ?_
      cases hnone : spaces.getLast? with
      | none =>
          rfl
      | some y =>
          have hy := hlast y (by rw [List.getLast?_append, hnone]; rfl)
          rw [hspaces y (List.mem_of_getLast? hnone)] at hy
          cases hy
    rw [List.append_nil] at hline ⊢
    exact keeps_plain hline hfirst rfl
  · exact keeps_colon cs hfirst rfl (by simp [push]) hrest hgap

/-- A handle with a word needs a directive. -/
theorem lookup_defaultHandles
    {word : List Char}
    (hne : word ≠ []) :
    defaultHandles.lookup (String.ofList ('!' :: word ++ ['!'])) = none := by
  have hother : ∀ handle : String, handle.toList ≠ '!' :: word ++ ['!'] →
      (String.ofList ('!' :: word ++ ['!']) == handle) = false := by
    intro handle hhandle
    rw [beq_eq_false_iff_ne]
    rintro rfl
    exact hhandle String.toList_ofList
  have hprimary : (String.ofList ('!' :: word ++ ['!']) == "!") = false :=
    hother "!" (by simp)
  have hsecondary : (String.ofList ('!' :: word ++ ['!']) == "!!") = false :=
    hother "!!" (by simpa using hne)
  rw [defaultHandles, List.lookup_cons, hprimary, List.lookup_cons, hsecondary]
  rfl

/-- A handle that is not closed at once has a word. -/
theorem ne_nil_of_readHandle
    {word : List Char}
    {c : Cursor}
    (hloses : losesMark ('!' :: xs) = false)
    (h : readHandle (.start ('!' :: xs)) = (word, true, c)) :
    word ≠ [] := by
  rintro rfl
  obtain ⟨htake, ys, hdrop⟩ :
      xs.takeWhile isWord = [] ∧ ∃ ys, xs.dropWhile isWord = '!' :: ys := by
    simp only [readHandle, Cursor.start, Cursor.skip, Cursor.skipWhile] at h
    split at h
    · next heq =>
        exact ⟨(Prod.mk.inj h).1, _, heq⟩
    · simp at h
  rw [← List.takeWhile_append_dropWhile (p := isWord) (l := xs), htake, hdrop] at hloses
  cases hloses

theorem isSome_localTag?
    (text : List Char) :
    (Node.localTag? ("!" ++ String.ofList text)).isSome = true := by
  have hmark : ("!" ++ String.ofList text).toList = '!' :: text := by
    simp
  rw [Node.localTag?, hmark]
  split
  · rfl
  · rfl
  · next hne =>
      exact absurd rfl (hne text)

/-- A tag that is no mark to leave out is local. -/
theorem exists_of_readTag?_start
    {inFlow : Bool}
    {u : Token}
    {c : Cursor}
    (hloses : losesMark ('!' :: xs) = false)
    (h : readTag? inFlow (.start ('!' :: xs)) = some (u, c)) :
    ∃ handle suffix, u = .tag handle suffix ∧
      ∀ full, Node.fullTag? defaultHandles handle suffix = some full →
        (Node.localTag? full).isSome = true := by
  simp only [readTag?, Option.bind_eq_bind, Option.bind_eq_some_iff] at h
  obtain ⟨⟨token, d⟩, hform, h⟩ := h
  obtain ⟨rfl, -⟩ : token = u ∧ d = c := by
    split at h
    · cases h
      exact ⟨rfl, rfl⟩
    · cases h
  rw [readTagForm?] at hform
  split at hform
  · next heq =>
      rw [show (Cursor.start ('!' :: xs)).rest = '!' :: xs from rfl] at heq
      obtain ⟨-, rfl⟩ := List.cons.inj heq
      cases hloses
  · split at hform
    · next word c hhandle =>
        simp only [Option.bind_eq_bind, Option.bind_eq_some_iff, Option.pure_def,
          Option.some.injEq, Prod.mk.injEq] at hform
        obtain ⟨⟨text, d⟩, -, rfl, rfl⟩ := hform
        refine ⟨_, _, rfl, fun full hfull => ?_⟩
        have hne := ne_nil_of_readHandle hloses hhandle
        rw [Node.fullTag?, lookup_defaultHandles hne] at hfull
        split at hfull
        · next hempty =>
            rw [String.isEmpty_iff] at hempty
            simpa using congrArg String.toList hempty
        · cases hfull
    · next word c hhandle =>
        simp only [Option.bind_eq_bind, Option.bind_eq_some_iff] at hform
        obtain ⟨⟨text, d⟩, -, hform⟩ := hform
        split at hform
        · cases hform
          refine ⟨_, _, rfl, ?_⟩
          rintro full ⟨⟩
          rfl
        · cases hform
          refine ⟨_, _, rfl, ?_⟩
          rintro full ⟨⟩
          exact isSome_localTag? text

theorem keeps_takeTag?
    (hloses : losesMark ('!' :: xs) = false)
    (h : ({ cursor := .start ('!' :: xs) } : Scanner).takeTag? = some t) :
    Keeps ('!' :: xs) t := by
  simp only [takeTag?, Option.bind_eq_bind, Option.bind_eq_some_iff, Option.pure_def,
    Option.some.injEq] at h
  obtain ⟨r, hr, ⟨u, c⟩, hread, rfl⟩ := h
  obtain rfl : ({ cursor := .start ('!' :: xs), blockKey := some ⟨false, 0, 0, 0, 0⟩ } : Scanner) =
      r := Option.some.inj hr
  obtain ⟨handle, suffix, rfl, hlocal⟩ := exists_of_readTag?_start hloses hread
  exact keeps_tag _ (outside_first c false _) rfl hlocal

theorem keeps_takeDirective?
    (hline : xs.any isBreak = false)
    (h : ({ cursor := .start ('%' :: xs) } : Scanner).takeDirective? = some t) :
    Keeps ('%' :: xs) t := by
  simp only [takeDirective?, Option.bind_eq_bind, Option.bind_eq_some_iff, Option.pure_def,
    Option.some.injEq] at h
  obtain ⟨r, hr, ⟨u, c⟩, hread, rfl⟩ := h
  obtain rfl : ({ cursor := .start ('%' :: xs) } : Scanner) = r :=
    Option.some.inj hr
  obtain ⟨hu, d, hahead, hend, rfl⟩ := exists_of_readDirective? hread
  have hnil : d.rest = [] := by
    cases hrest : d.rest with
    | nil =>
        rfl
    | cons y ys =>
        rw [hrest] at hend
        have hmem : y ∈ '%' :: xs := hahead.subset (hrest ▸ List.mem_cons_self)
        rcases List.mem_cons.1 hmem with rfl | hmem
        · cases hend
        · exact absurd hend (List.any_eq_false.1 hline y hmem)
  refine keeps_directive _ hu ⟨rfl, by rintro _ ⟨⟩, rfl, rfl⟩ ?_ rfl
  show d.skipBreak.rest = []
  rw [Cursor.skipBreak, hnil, hnil]

/-- A mark that stands without what it belongs to. -/
theorem keeps_mark
    {r : Scanner}
    {u : Token}
    (cs : List Char)
    (us : List Token)
    (htokens : r.tokens = us ++ [u])
    (hu : u.isStructural = true)
    (hgoes : r.tokens.head? ≠ some .streamEnd)
    (hcount : r.tokenCount = r.tokens.length)
    (hblock : r.blockKey = none)
    (hflow : r.flowKeys = [])
    (h : some r = some t) :
    Keeps cs t := by
  cases h
  refine keeps_of_isStructural cs hgoes (onBase_self hcount ?_ ?_) htokens hu
  · rw [hblock]
    rintro _ ⟨⟩
  · rw [hflow]
    exact fun _ hmem => absurd hmem List.not_mem_nil

/-- A document mark that loses nothing is the one of the end. -/
theorem ne_dash_of_atDocumentMark
    (hloses : losesMark (x :: xs) = false)
    (h : (Cursor.start (x :: xs)).atDocumentMark = true) :
    (x == '-') = false := by
  simp only [Cursor.start, Cursor.atDocumentMark, BEq.rfl, Bool.true_and] at h
  split at h
  · next heq =>
      rw [heq, losesMark, h] at hloses
      cases hloses
  · next heq =>
      cases heq
      rfl
  · cases h

/-- The first token of a text that loses nothing keeps it. -/
theorem keeps_takeToken?
    (hopens : x ∉ ['\'', '"', '[', '\x7b', '&', '*', '#'])
    (hloses : losesText (x :: xs) = false)
    (hlast : ∀ y ∈ (x :: xs).getLast?, isSpace y = false)
    (h : ({ cursor := .start (x :: xs) } : Scanner).takeToken? = some t) :
    Keeps (x :: xs) t := by
  simp only [List.mem_cons, List.not_mem_nil, or_false, not_or] at hopens
  obtain ⟨hsingle, hdouble, hsquare, hbrace, hanchor, halias, hhash⟩ := hopens
  rw [losesText, Bool.or_eq_false_iff] at hloses
  obtain ⟨hmark, hcut⟩ := hloses
  rw [takeToken?.eq_def] at h
  dsimp only [Cursor.start] at h
  revert h
  refine of_ite (fun hc h => ?_) fun _ => ?_
  · simp only [BEq.rfl, Bool.true_and, beq_iff_eq] at hc
    subst hc
    exact keeps_takeDirective? hmark h
  refine of_ite (fun hc h => ?_) fun hnone => ?_
  · rw [ne_dash_of_atDocumentMark hmark hc] at h
    exact keeps_mark _ [] rfl rfl (by rintro ⟨⟩) rfl rfl rfl h
  refine of_ite (fun hc h => absurd (eq_of_beq hc) hsquare) fun _ => ?_
  refine of_ite (fun hc h => absurd (eq_of_beq hc) hbrace) fun _ => ?_
  -- marks without what they belong to
  refine of_ite (fun _ h => keeps_mark _ [] rfl rfl (by rintro ⟨⟩) rfl rfl rfl h) fun _ => ?_
  refine of_ite (fun _ h => keeps_mark _ [] rfl rfl (by rintro ⟨⟩) rfl rfl rfl h) fun _ => ?_
  refine of_ite (fun _ h => keeps_mark _ [] rfl rfl (by rintro ⟨⟩) rfl rfl rfl h) fun _ => ?_
  refine of_ite (fun _ h => keeps_mark _ [.blockEntry] rfl rfl (by rintro ⟨⟩) rfl rfl rfl h)
    fun _ => ?_
  refine of_ite (fun _ h => keeps_mark _ [.key] rfl rfl (by rintro ⟨⟩) rfl rfl rfl h) fun _ => ?_
  refine of_ite (fun _ h => keeps_mark _ [.value] rfl rfl (by rintro ⟨⟩) rfl rfl rfl h) fun _ => ?_
  refine of_ite (fun hc h => absurd (eq_of_beq hc) halias) fun _ => ?_
  refine of_ite (fun hc h => absurd (eq_of_beq hc) hanchor) fun _ => ?_
  refine of_ite (fun hc h => ?_) fun _ => ?_
  · obtain rfl := eq_of_beq hc
    exact keeps_takeTag? hmark h
  refine of_ite (fun hc _ => ?_) fun _ => ?_
  · simp only [inFlow, List.isEmpty_nil, Bool.not_true, Bool.not_false, Bool.and_true,
      beq_iff_eq] at hc
    subst hc
    cases hmark
  refine of_ite (fun hc _ => ?_) fun _ => ?_
  · simp only [inFlow, List.isEmpty_nil, Bool.not_true, Bool.not_false, Bool.and_true,
      beq_iff_eq] at hc
    subst hc
    cases hmark
  refine of_ite (fun hc h => absurd (eq_of_beq hc) hsingle) fun _ => ?_
  refine of_ite (fun hc h => absurd (eq_of_beq hc) hdouble) fun _ => ?_
  refine of_ite (fun hplain h => ?_) fun _ h => ?_
  · have hstarts : startsPlain false (x :: xs) = true := hplain
    rw [hstarts, Bool.true_and] at hcut
    have hhead : (x :: xs).head? ≠ some '#' := by
      rintro ⟨⟩
      exact hhash rfl
    exact keeps_takePlain? (Bool.eq_false_iff.2 hnone) hhead hcut hlast h
  · cases h

end Scanner

/-- A comment to the end of the text is null. -/
theorem readDocument?_comment
    {xs : List Char}
    {ts : List Token}
    (hline : xs.any isBreak = false)
    (hscan : scan? ('#' :: xs) = some ts) :
    Node.readDocument? ts = some none := by
  generalize hend : (Cursor.start ('#' :: xs)).skipLine = c
  have hrest : c.rest = [] := by
    rw [← hend]
    show ('#' :: xs).dropWhile (fun x => !isBreak x) = []
    have hall : ∀ y ∈ '#' :: xs, (!isBreak y) = true := by
      rw [List.forall_mem_cons]
      exact ⟨rfl, fun y hy => by simpa using List.any_eq_false.1 hline y hy⟩
    have hdrop := @List.dropWhile_append_of_pos _ _ _ [] hall
    rwa [List.append_nil] at hdrop
  have hskip : ∀ steps, ({ cursor := .start ('#' :: xs) } : Scanner).skipGaps (steps + 1) =
      { cursor := c } := by
    intro steps
    rw [Scanner.skipGaps]
    dsimp only
    split
    · next y ys heq =>
        have hline : (Cursor.start ('#' :: xs)).skipLine.rest = y :: ys := heq
        rw [hend, hrest] at hline
        cases hline
    · exact congrArg (fun c => ({ cursor := c } : Scanner)) hend
  simp only [scan?, Option.bind_eq_bind, Option.bind_eq_some_iff, Option.pure_def,
    Option.some.injEq] at hscan
  obtain ⟨e, hrun, rfl⟩ := hscan
  obtain ⟨s, left, hstep, -, hrun⟩ := Scanner.exists_of_run? hrun
  have hstart : Scanner.Outside { cursor := .start ('#' :: xs) } :=
    ⟨rfl, by rintro _ ⟨⟩, rfl, rfl⟩
  have htokens := Scanner.tokens_of_step?_end hstart (hskip _) hrest hstep
  rcases hrun with ⟨-, rfl⟩ | ⟨hmore, -⟩
  · rw [htokens]
    rfl
  · exact absurd (by rw [htokens]; rfl) hmore

/-- A text without quotes and brackets that is read as a text is that text, when
no part of it is left out. -/
theorem eq_of_readChars?_str
    {x : Char}
    {xs cs : List Char}
    {t : String}
    (hcs : normalize cs = x :: xs)
    (hgap : isGap x = false)
    (hopens : x ∉ ['\'', '"', '[', '\x7b', '&', '*'])
    (hlast : ∀ y ∈ cs.getLast?, isSpace y = false)
    (hloses : losesText (x :: xs) = false)
    (h : readChars? cs = some (.scalar (.str t))) :
    t = String.ofList cs := by
  obtain ⟨ts, hscan, ⟨-, hnull⟩ | ⟨n, hdocument, hdatum⟩⟩ := exists_of_readChars? h
  · cases hnull
  rw [hcs] at hscan
  by_cases hhash : x = '#'
  · subst hhash
    rw [losesText, Bool.or_eq_false_iff] at hloses
    rw [readDocument?_comment hloses.1 hscan] at hdocument
    cases hdocument
  · have hmark : x ≠ byteOrderMark := by
      rintro rfl
      cases hloses
    have hfirst : opensToken (x :: xs) = true := by
      simp [opensToken, hgap, hhash, hmark]
    have hend : ∀ y ∈ (x :: xs).getLast?, isSpace y = false := by
      intro y hy
      by_cases hbreak : y = '\n'
      · subst hbreak
        rfl
      · exact hlast y (getLast?_eq_of_normalize hbreak (hcs ▸ hy))
    simp only [scan?, Option.bind_eq_bind, Option.bind_eq_some_iff, Option.pure_def,
      Option.some.injEq] at hscan
    obtain ⟨e, hrun, rfl⟩ := hscan
    obtain ⟨s, left, hstep, -, hrun⟩ := Scanner.exists_of_run? hrun
    rw [Scanner.step?_start hfirst] at hstep
    have hkeeps := Scanner.keeps_takeToken? (by simpa [hhash] using hopens) hloses hend hstep
    rcases hrun with ⟨hlast, -⟩ | ⟨-, hrun⟩
    · exact absurd hlast hkeeps.goes
    · obtain ⟨hline, rfl⟩ := hkeeps.text hrun hdocument hdatum
      rw [← hcs, normalize_eq_self (hcs ▸ hline)]

end Dashboard.Yaml

import Dashboard.Proofs.Yaml.Datum
import Dashboard.Proofs.Yaml.Keys
import Dashboard.Proofs.Yaml.Marks
import Dashboard.Proofs.Yaml.Moves

/-!
# Texts that read back as themselves

A text that is read as one text is a scalar among the tokens.  As scalars are
no longer than their source, nothing but the scalar has been taken when it is
the whole text: no mark that is skipped at the start, and no mark of the
document.
-/

namespace Dashboard.Yaml

open Cursor

namespace Scalar

/-- A plain scalar that is a text is the text as it stands. -/
theorem eq_of_ofPlain?_str
    {cs : List Char}
    {t : String}
    (h : ofPlain? cs = some (.str t)) :
    t = String.ofList cs := by
  simp only [ofPlain?] at h
  split at h
  · cases h
  · split at h
    · cases h
    · split at h
      · cases h
      · cases h
      · split at h
        · cases h
        · cases h
          rfl

end Scalar

namespace Node

theorem mem_of_readProperties?
    {handles : Handles}
    {anchors : Anchors}
    {ts : List Token}
    {r : Remaining Properties}
    (h : readProperties? handles anchors ts = some r) :
    ∀ t ∈ r.tokens, t ∈ ts := by
  rw [readProperties?.eq_def] at h
  split at h
  · simp only [Option.bind_eq_bind, Option.bind_eq_some_iff, Option.pure_def,
      Option.some.injEq] at h
    obtain ⟨_, _, rfl⟩ := h
    exact fun t ht => List.mem_cons_of_mem _ (List.mem_cons_of_mem _ ht)
  · cases h
    exact fun t ht => List.mem_cons_of_mem _ ht
  · simp only [Option.bind_eq_bind, Option.bind_eq_some_iff, Option.pure_def,
      Option.some.injEq] at h
    obtain ⟨_, _, rfl⟩ := h
    exact fun t ht => List.mem_cons_of_mem _ (List.mem_cons_of_mem _ ht)
  · simp only [Option.bind_eq_bind, Option.bind_eq_some_iff, Option.pure_def,
      Option.some.injEq] at h
    obtain ⟨_, _, rfl⟩ := h
    exact fun t ht => List.mem_cons_of_mem _ ht
  · cases h
    exact fun t ht => ht

/-- A scalar node has its text from a token, or is empty. -/
def FromToken (ts : List Token) : Node → Prop
  | .scalar _ text _ => text = "" ∨ ∃ plain, .scalar text plain ∈ ts
  | _ => True

theorem fromToken_empty
    (ts : List Token)
    (p : Properties) :
    FromToken ts (empty p) :=
  .inl rfl

theorem FromToken.mono
    {ts us : List Token}
    {n : Node}
    (h : FromToken ts n)
    (hsub : ∀ t ∈ ts, t ∈ us) :
    FromToken us n := by
  cases n with
  | scalar p text plain =>
      exact h.imp_right fun ⟨plain, hmem⟩ => ⟨plain, hsub _ hmem⟩
  | «alias» _ | seq _ _ | map _ _ =>
      trivial

theorem fromToken_of_read?
    {handles : Handles}
    {steps : Nat}
    {block indentless : Bool}
    {anchors : Anchors}
    {ts : List Token}
    {r : Remaining Node}
    (h : read? handles steps block indentless anchors ts = some r) :
    FromToken ts r.result := by
  rw [read?.eq_def] at h
  split at h
  · cases h
  · simp only [Option.bind_eq_bind, Option.bind_eq_some_iff, Option.pure_def,
      Option.some.injEq] at h
    obtain ⟨_, _, rfl⟩ := h
    trivial
  · simp only [Option.bind_eq_bind, Option.bind_eq_some_iff] at h
    obtain ⟨⟨p, anchors', us⟩, hproperties, h⟩ := h
    suffices hfrom : FromToken us r.result from hfrom.mono (mem_of_readProperties? hproperties)
    dsimp only at h
    split at h
    · cases h
      exact .inr ⟨_, List.mem_cons_self⟩
    · simp only [Option.bind_eq_some_iff, Option.pure_def, Option.some.injEq] at h
      obtain ⟨_, _, rfl⟩ := h
      trivial
    · simp only [Option.bind_eq_some_iff, Option.pure_def, Option.some.injEq] at h
      obtain ⟨_, _, rfl⟩ := h
      trivial
    · split at h
      · simp only [Option.bind_eq_some_iff, Option.pure_def, Option.some.injEq] at h
        obtain ⟨_, _, rfl⟩ := h
        trivial
      · split at h
        · cases h
        · cases h
          exact fromToken_empty _ p
    · split at h
      · simp only [Option.bind_eq_some_iff, Option.pure_def, Option.some.injEq] at h
        obtain ⟨_, _, rfl⟩ := h
        trivial
      · split at h
        · cases h
        · cases h
          exact fromToken_empty _ p
    · split at h
      · simp only [Option.bind_eq_some_iff, Option.pure_def, Option.some.injEq] at h
        obtain ⟨_, _, rfl⟩ := h
        trivial
      · split at h
        · cases h
        · cases h
          exact fromToken_empty _ p
    · split at h
      · cases h
      · cases h
        exact fromToken_empty _ p

theorem mem_of_readDirectives?
    {versioned : Bool}
    {handles handles' : Handles}
    {ts us : List Token}
    (h : readDirectives? versioned handles ts = some (handles', us)) :
    ∀ t ∈ us, t ∈ ts := by
  induction ts generalizing versioned handles with
  | nil =>
      cases h
      exact fun t ht => ht
  | cons t ts ih =>
      rw [readDirectives?.eq_def] at h
      split at h
      · next heq =>
          cases heq
          split at h
          · cases h
          · exact fun t ht => List.mem_cons_of_mem _ (ih h t ht)
      · next heq =>
          cases heq
          split at h
          · cases h
          · exact fun t ht => List.mem_cons_of_mem _ (ih h t ht)
      · cases h
        exact fun t ht => ht

/-- The node of a document, when it is a scalar, has its text from a token. -/
theorem fromToken_of_readDocument?
    {ts : List Token}
    {n : Node}
    (h : readDocument? ts = some (some n)) :
    FromToken ts n := by
  have hfinish : ∀ r : Remaining Node,
      (if endsStream r.tokens = true then some (some r.result) else none) = some (some n) →
        r.result = n := by
    intro r hr
    split at hr
    · exact Option.some.inj (Option.some.inj hr)
    · cases hr
  rw [readDocument?.eq_def] at h
  dsimp only at h
  split at h
  case h_1 =>
      cases h
  case h_5 =>
      simp only [Option.bind_eq_bind, Option.bind_eq_some_iff] at h
      obtain ⟨r, hr, h⟩ := h
      exact hfinish r h ▸ fromToken_of_read? hr
  -- a directive or a mark of the start comes first: the node is behind them
  all_goals
    simp only [Option.bind_eq_bind, Option.bind_eq_some_iff] at h
    obtain ⟨⟨handles, us⟩, hdirectives, h⟩ := h
    suffices hfrom : FromToken us n from hfrom.mono (mem_of_readDirectives? hdirectives)
    dsimp only at h
    split at h
    · refine FromToken.mono ?_ fun t ht => List.mem_cons_of_mem _ ht
      split at h
      case h_6 =>
          simp only [Option.bind_eq_some_iff] at h
          obtain ⟨r, hr, h⟩ := h
          exact hfinish r h ▸ fromToken_of_read? hr
      all_goals
        exact hfinish ⟨empty {}, [], _⟩ h ▸ fromToken_empty _ {}
    · cases h

/-- Data that are a text come from a scalar with that text. -/
def TextOf (n : Node) (d : Datum) : Prop :=
  ∀ t, d = .scalar (.str t) → ∃ p plain, n = .scalar p t plain

/-- The text of a scalar stays as it stands, whatever its tag. -/
theorem eq_of_scalar?_str
    {inTag : Bool}
    {tag : Option String}
    {text t : String}
    {plain : Bool}
    (h : scalar? inTag tag text plain = some (.str t)) :
    t = text := by
  simp only [scalar?] at h
  split at h
  · split at h
    · simp at h
    · split at h
      · split at h <;> simp at h
      · split at h
        · simp at h
        · split at h
          · split at h <;> simp at h
          · exact (Scalar.str.inj (Option.some.inj h)).symm
  · split at h
    · rw [Scalar.eq_of_ofPlain?_str h, String.ofList_toList]
    · exact (Scalar.str.inj (Option.some.inj h)).symm

theorem yields_textOf_content
    (child : Option (Bool → Node → Reading Datum))
    (inTag : Bool)
    (n : Node) :
    Yields (TextOf n) (content child inTag n) := by
  cases n with
  | «alias» a =>
      exact yields_failure
  | scalar p text plain =>
      rw [content]
      split
      · next s hs =>
          refine yields_pure fun t ht => ?_
          rw [Datum.scalar.inj ht] at hs
          rw [eq_of_scalar?_str hs]
          exact ⟨p, plain, rfl⟩
      · exact yields_failure
  | seq p items | map p entries =>
      cases child with
      | none =>
          exact yields_failure
      | some read =>
          refine (yields_true _).map fun d _ t ht => ?_
          cases ht

theorem yields_textOf_datum
    (ctx : Context)
    (depth : Nat)
    (inTag : Bool)
    {n : Node}
    (hn : ∀ a, n ≠ .alias a) :
    Yields (TextOf n) (datum ctx depth inTag n) := by
  have hwith : ∀ child, Yields (TextOf n) (datumWith ctx child inTag n) := by
    intro child
    have hresolve : resolve ctx inTag n = pure (inTag, n) := by
      cases n with
      | «alias» a =>
          exact absurd rfl (hn a)
      | scalar p text plain | seq p items | map p entries =>
          rfl
    rw [datumWith, hresolve, pure_bind]
    refine (yields_textOf_content child _ n).map fun d hd t ht => ?_
    simp only [withTag] at ht
    split at ht
    · cases ht
    · exact hd t ht
  cases depth with
  | zero =>
      exact hwith none
  | succ depth =>
      exact hwith _

/-- An alias of nothing is refused. -/
theorem datum_alias_of_no_targets
    (depth : Nat)
    (inTag : Bool)
    (a budget : Nat) :
    datum ⟨[]⟩ depth inTag (.alias a) budget = none := by
  have hwith : ∀ child, datumWith ⟨[]⟩ child inTag (.alias a) budget = none := by
    intro child
    have hresolve : resolve ⟨[]⟩ inTag (.alias a) budget = none := by
      cases budget <;> rfl
    simp only [datumWith, Bind.bind, StateT.bind, hresolve, Option.bind_none]
  cases depth with
  | zero =>
      exact hwith none
  | succ depth =>
      exact hwith _

/-- The data of a document that are a text come from a scalar with that text. -/
theorem exists_scalar_of_datum?
    {n : Node}
    {t : String}
    (h : n.datum? = some (.scalar (.str t))) :
    ∃ p plain, n = .scalar p t plain := by
  rw [datum?, Option.map_eq_some_iff] at h
  obtain ⟨⟨d, left⟩, hread, rfl⟩ := h
  by_cases hn : ∀ a, n ≠ .alias a
  · exact yields_textOf_datum _ _ _ hn _ _ _ hread t rfl
  · simp only [Classical.not_forall, ne_eq, Classical.not_not] at hn
    obtain ⟨a, rfl⟩ := hn
    have hnone := datum_alias_of_no_targets maxDepth false a (100 * (Node.alias a).eventCount)
    exact absurd (hread.symm.trans hnone) (by simp)

end Node

namespace Scanner

/-- Less than `n` characters are left, and every scalar so far is shorter than
`n` characters. -/
structure Below (n : Nat) (s : Scanner) : Prop where
  left : s.cursor.left < n
  scalars : ∀ text plain, .scalar text plain ∈ s.tokens → text.toList.length < n

section Below

variable {n : Nat}
variable {s t : Scanner}

/-- A scanner further on with the same tokens. -/
theorem Below.mono
    (h : Below n s)
    (hcursor : t.cursor.left ≤ s.cursor.left)
    (htokens : t.tokens = s.tokens) :
    Below n t :=
  ⟨Nat.lt_of_le_of_lt hcursor h.left, fun text plain hmem => h.scalars text plain (htokens ▸ hmem)⟩

theorem Below.push
    (h : Below n s)
    {m : Token}
    (hm : ∀ text plain, m ≠ .scalar text plain) :
    Below n (s.push m) := by
  refine ⟨h.left, fun text plain hmem => ?_⟩
  rcases List.mem_cons.1 hmem with heq | hmem
  · exact absurd heq.symm (hm text plain)
  · exact h.scalars text plain hmem

theorem Below.insert
    (h : Below n s)
    (k : Nat)
    {m : Token}
    (hm : ∀ text plain, m ≠ .scalar text plain) :
    Below n (s.insert k m) := by
  refine ⟨h.left, fun text plain hmem => ?_⟩
  rcases List.mem_append.1 hmem with hmem | hmem
  · exact h.scalars text plain (List.mem_of_mem_take hmem)
  · rcases List.mem_cons.1 hmem with heq | hmem
    · exact absurd heq.symm (hm text plain)
    · exact h.scalars text plain (List.mem_of_mem_drop hmem)

theorem Below.setCandidate
    (h : Below n s)
    (k : Option Candidate) :
    Below n (s.setCandidate k) :=
  h.mono (Nat.le_of_eq (congrArg Cursor.left (setCandidate_cursor s k))) (setCandidate_tokens s k)

theorem Below.asKey
    (h : Below n s)
    (k : Candidate) :
    Below n (s.asKey k) := by
  have hkey : Below n (s.insert k.tokenCount .key) :=
    h.insert k.tokenCount (by simp)
  rw [Scanner.asKey, openBlock]
  split
  · refine Below.setCandidate (Below.insert ?_ k.tokenCount (by simp)) none
    exact hkey.mono (Nat.le_refl _) rfl
  · exact hkey.setCandidate none

/-- A scalar is made of the characters that it takes. -/
theorem Below.moves
    (h : Below n s)
    (hmoves : Moves s t) :
    Below n t := by
  induction hmoves with
  | refl s =>
      exact h
  | trans _ _ ih ih' =>
      exact ih' (ih h)
  | advance s c allowed hc =>
      exact h.mono hc.left_le rfl
  | drop s =>
      exact h.setCandidate none
  | lapse hs =>
      obtain ⟨_, _, rfl, -⟩ := exists_of_expireAll? hs
      exact h.mono (Nat.le_refl _) rfl
  | save s k _ =>
      exact h.setCandidate (some k)
  | blocks s indent outer _ =>
      exact h.mono (Nat.le_refl _) rfl
  | key s k _ =>
      exact h.asKey k
  | mark s m hm =>
      refine h.push ?_
      rintro text plain rfl
      cases hm
  | scalar s text plain c allowed hc hlength =>
      refine ⟨Nat.lt_of_le_of_lt hc.left_le h.left, fun text' plain' hmem => ?_⟩
      have hleft := h.left
      rcases List.mem_cons.1 hmem with heq | hmem
      · cases heq
        rw [String.toList_ofList]
        omega
      · exact h.scalars text' plain' hmem

/-- A step from short scalars keeps them short. -/
theorem Below.step
    (h : Below n s)
    (hstep : Step s t) :
    Below n t := by
  cases hstep with
  | within hmoves =>
      exact h.moves hmoves
  | opening b cs hmoves _ | closing b cs hmoves _ =>
      refine Below.push ?_ (by cases b <;> simp [Bracket.opening, Bracket.closing])
      exact Below.mono (h.moves hmoves) (ahead_skipN 1 _).left_le rfl

end Below

end Scanner

/-- The data of a text are those of its document, or null when it has none. -/
theorem exists_of_readChars?
    {cs : List Char}
    {d : Datum}
    (h : readChars? cs = some d) :
    ∃ ts, scan? (normalize cs) = some ts ∧
      ((Node.readDocument? ts = some none ∧ d = .scalar .null) ∨
        ∃ n, Node.readDocument? ts = some (some n) ∧ n.datum? = some d) := by
  simp only [readChars?, readNode?, Option.bind_eq_bind] at h
  split at h
  · cases h
  · simp only [Option.bind_eq_some_iff] at h
    obtain ⟨node, ⟨ts, hscan, hdocument⟩, h⟩ := h
    refine ⟨ts, hscan, ?_⟩
    cases node with
    | none =>
        cases h
        exact .inl ⟨hdocument, rfl⟩
    | some n =>
        exact .inr ⟨n, hdocument, h⟩

/-- A text that is read from a text is empty, or a scalar among the tokens. -/
theorem exists_scalar_of_readChars?
    {cs : List Char}
    {t : String}
    (h : readChars? cs = some (.scalar (.str t))) :
    ∃ ts, scan? (normalize cs) = some ts ∧ (t = "" ∨ ∃ plain, .scalar t plain ∈ ts) := by
  obtain ⟨ts, hscan, ⟨-, hnull⟩ | ⟨n, hdocument, hdatum⟩⟩ := exists_of_readChars? h
  · cases hnull
  · obtain ⟨p, plain, rfl⟩ := Node.exists_scalar_of_datum? hdatum
    exact ⟨ts, hscan, Node.fromToken_of_readDocument? hdocument⟩

/-- A text whose first step takes anything but a scalar of its own length is not
read as itself. -/
theorem readChars?_ne_of_below
    {cs : List Char}
    (hclean : normalize cs = cs)
    (hne : cs ≠ [])
    (h : ∀ s, ({ cursor := .start cs } : Scanner).step? = some s → s.Below cs.length) :
    readChars? cs ≠ some (.scalar (.str (String.ofList cs))) := by
  intro hread
  obtain ⟨ts, hscan, hscalar⟩ := exists_scalar_of_readChars? hread
  rw [hclean] at hscan
  simp only [scan?, Option.bind_eq_bind, Option.bind_eq_some_iff, Option.pure_def,
    Option.some.injEq] at hscan
  obtain ⟨s, hrun, rfl⟩ := hscan
  obtain ⟨r, left, hstep, -, hrun⟩ := Scanner.exists_of_run? hrun
  have hs : s.Below cs.length := by
    rcases hrun with ⟨-, rfl⟩ | ⟨-, hrun⟩
    · exact h r hstep
    · exact Scanner.of_run? Scanner.Below.step (h r hstep) hrun
  rcases hscalar with hempty | ⟨plain, hmem⟩
  · have hnil := congrArg String.toList hempty
    rw [String.toList_ofList] at hnil
    exact hne hnil
  · have hlt := hs.scalars _ _ (List.mem_reverse.1 hmem)
    rw [String.toList_ofList] at hlt
    exact Nat.lt_irrefl _ hlt

/-- A text that opens with a byte order mark loses it. -/
theorem readChars?_ne_of_byteOrderMark
    {cs : List Char}
    (hclean : normalize (byteOrderMark :: cs) = byteOrderMark :: cs) :
    readChars? (byteOrderMark :: cs) ≠
      some (.scalar (.str (String.ofList (byteOrderMark :: cs)))) := by
  refine readChars?_ne_of_below hclean (by simp) fun s hstep => ?_
  simp only [Scanner.step?, Option.bind_eq_bind, Option.bind_eq_some_iff] at hstep
  obtain ⟨r, hexpire, htake⟩ := hstep
  refine Scanner.Below.step ?_ ((Scanner.step_takeToken? htake).after
    ((Scanner.Moves.lapse hexpire).trans (Scanner.moves_closeBlocks r (r.cursor.column : Int))))
  have hskip : ∀ steps, ({ cursor := .start (byteOrderMark :: cs) } : Scanner).skipGaps (steps + 1) =
      ({ cursor := ⟨cs, 1, 0, 1⟩ } : Scanner).skipGaps (steps + 1) := by
    intro steps
    rw [Scanner.skipGaps, Scanner.skipGaps]
    rfl
  rw [hskip]
  have hbelow : ({ cursor := ⟨cs, 1, 0, 1⟩ } : Scanner).Below (byteOrderMark :: cs).length :=
    ⟨Nat.lt_succ_self _, fun text plain hmem => absurd hmem List.not_mem_nil⟩
  exact hbelow.moves (Scanner.moves_skipGaps _ _)

/-- A text that opens with the mark of the end of a document is read as no text. -/
theorem readChars?_ne_of_documentEnd
    {cs : List Char}
    (hgap : atGap cs = true)
    (hclean : normalize ('.' :: '.' :: '.' :: cs) = '.' :: '.' :: '.' :: cs) :
    readChars? ('.' :: '.' :: '.' :: cs) ≠
      some (.scalar (.str (String.ofList ('.' :: '.' :: '.' :: cs)))) := by
  refine readChars?_ne_of_below hclean (by simp) fun s hstep => ?_
  obtain ⟨blockKey, flowKeys, hlax, hnext⟩ :=
    View.exists_step?_eq (v := { rest := '.' :: '.' :: '.' :: cs }) View.lax_none rfl
      (fun _ => by simp) 0 0
  have hmark : (View.scanner { rest := '.' :: '.' :: '.' :: cs } 0 0 blockKey
      flowKeys).takeToken? =
        (View.scanner { rest := '.' :: '.' :: '.' :: cs } 0 0 blockKey
          flowKeys).takeDocumentMark? .documentEnd := by
    simp [Scanner.takeToken?.eq_def, View.scanner, Cursor.atDocumentMark, hgap]
  have hclose : (View.scanner { rest := '.' :: '.' :: '.' :: cs } 0 0 blockKey
      flowKeys).closeBlocks (-1) = _ :=
    Scanner.closeBlocks_of_le fun _ => Int.le_refl _
  rw [show ({ cursor := .start ('.' :: '.' :: '.' :: cs) } : Scanner) =
      View.scanner { rest := '.' :: '.' :: '.' :: cs } 0 0 none [] from rfl, hnext, hmark,
    Scanner.takeDocumentMark?, hclose, View.dropCandidate?_eq hlax] at hstep
  cases hstep
  constructor
  · have hnil : flowKeys = [] :=
      List.eq_nil_of_length_eq_zero hlax.length
    subst hnil
    show cs.length < cs.length + 3
    omega
  · intro text plain hmem
    have hnil : flowKeys = [] :=
      List.eq_nil_of_length_eq_zero hlax.length
    subst hnil
    exact absurd (List.mem_singleton.1 hmem) (by simp)

/-- A bare text that is the whole text is the scalar it spells. -/
theorem readChars?_of_startsBare
    {cs : List Char}
    (hprintable : cs.all isPrintable = true)
    (hclean : normalize cs = cs)
    (text : BareText false cs)
    (starts : startsBare cs = true) :
    readChars? cs = (Scalar.ofPlain? cs).map .scalar := by
  have hread : View.Leads { rest := cs }
      (View.after { rest := cs } cs.length [] false [.scalar (String.ofList cs) true]) :=
    View.leads_written (.bare text starts) (List.append_nil cs).symm rfl rfl (by simp)
      fun _ _ => by simp
  have hscan := scan?_of_leads hread rfl rfl rfl
  have hnode : readNode? cs = some (some (.scalar {} (String.ofList cs) true)) := by
    rw [readNode?, hprintable, hclean, hscan]
    rfl
  have hscalar : Node.scalar? false none (String.ofList cs) true = Scalar.ofPlain? cs := by
    simp only [Node.scalar?, Bool.false_eq_true, if_false, if_true, String.toList_ofList]
  rw [readChars?, hnode]
  simp only [Option.bind_eq_bind, Option.bind_some, Node.datum?_scalar, hscalar]

end Dashboard.Yaml

import Dashboard.Proofs.Yaml.Scalar.Quoted
import Dashboard.Proofs.Yaml.View

/-!
# Scalars as they are written

A scalar stands bare, between double quotes, or, when it is empty, as two
single quotes.  In each form one step of the scanner takes it as one token.
-/

namespace Dashboard.Yaml

/-- A bare text may start like this: nothing it starts with has a meaning of its
own. -/
def startsBare : List Char → Bool
  | [] => false
  | '-' :: c :: _ => !isGap c && c != '-'
  | '.' :: '.' :: '.' :: cs => !atGap cs
  | c :: _ => !isGap c && !Scanner.isIndicator c && c != byteOrderMark

/-- How a scalar stands in a text, and which text it is, plain or not. -/
inductive Written (inFlow : Bool) : List Char → String → Bool → Prop where
  | bare
      {s : List Char}
      (text : BareText inFlow s)
      (starts : startsBare s = true) :
      Written inFlow s (String.ofList s) true
  | quoted
      (s : List Char) :
      Written inFlow (Render.doubleQuoted s) (String.ofList s) false
  | empty :
      Written inFlow ['\'', '\''] "" false

/-- What stands behind a scalar does not make its end look different. -/
def endsBare : List Char → Bool
  | [] => true
  | c :: _ => c != '.' && c != '-' && c != '\'' && c != '#'

/-- Nothing that ends a bare text looks like a part of it. -/
theorem endsBare_of_atBareEnd
    {inFlow : Bool}
    {tail : List Char}
    (h : atBareEnd inFlow tail = true)
    (hstop : noGapNext tail = true) :
    endsBare tail = true := by
  cases tail with
  | nil =>
      rfl
  | cons c cs =>
      have hgap : isGap c = false := by
        simpa [noGapNext_cons] using hstop
      by_cases hcolon : c = ':'
      · subst hcolon
        rfl
      · have hflow : isFlowIndicator c = true := by
          have hend : isGap c = true ∨ (inFlow = true ∧ isFlowIndicator c = true) := by
            simpa [atBareEnd, hcolon] using h
          rcases hend with hend | hend
          · rw [hgap] at hend
            exact absurd hend (by decide)
          · exact hend.2
        simp only [isFlowIndicator, Bool.or_eq_true, beq_iff_eq] at hflow
        rcases hflow with (((rfl | rfl) | rfl) | rfl) | rfl <;> rfl

section StartsBare

variable {s tail : List Char}

theorem ne_nil_of_startsBare
    (h : startsBare s = true) :
    s ≠ [] := by
  rintro rfl
  exact absurd h (by decide)

/-- A bare text starts with no mark but a dash, and a dash is no mark there. -/
theorem startsBare_cases
    (h : startsBare s = true) :
    ∃ c cs, s = c :: cs ∧ isGap c = false ∧ c ≠ byteOrderMark ∧
      (Scanner.isIndicator c = false ∨
        c = '-' ∧ ∃ d ds, cs = d :: ds ∧ isGap d = false ∧ d ≠ '-') := by
  rw [startsBare.eq_def] at h
  split at h
  · exact absurd h (by decide)
  · next d ds =>
      simp only [Bool.and_eq_true, Bool.not_eq_true', bne_iff_ne] at h
      exact ⟨'-', d :: ds, rfl, rfl, by decide, .inr ⟨rfl, d, ds, rfl, h⟩⟩
  · exact ⟨_, _, rfl, rfl, by decide, .inl rfl⟩
  · next c cs _ _ =>
      simp only [Bool.and_eq_true, Bool.not_eq_true', bne_iff_ne] at h
      exact ⟨c, cs, rfl, h.1.1, h.2, .inl h.1.2⟩

theorem noGapNext_of_startsBare
    (h : startsBare s = true) :
    noGapNext s = true := by
  obtain ⟨c, cs, rfl, hgap, -, -⟩ := startsBare_cases h
  rw [noGapNext_cons, hgap]
  rfl

/-- A token starts where a bare text starts. -/
theorem opensToken_of_startsBare
    (h : startsBare s = true) :
    opensToken (s ++ tail) = true := by
  obtain ⟨c, cs, rfl, hgap, hmark, hindicator⟩ := startsBare_cases h
  have hhash : c ≠ '#' := by
    rintro rfl
    rcases hindicator with hindicator | ⟨heq, -⟩
    · exact absurd hindicator (by decide)
    · exact absurd heq (by decide)
  simp [opensToken, hgap, hhash, hmark]

/-- A bare text is no document mark, whatever stands behind it. -/
theorem atDocumentMark_of_startsBare
    (h : startsBare s = true)
    (htail : endsBare tail = true)
    (index line column : Nat) :
    (⟨s ++ tail, index, line, column⟩ : Cursor).atDocumentMark = false := by
  rw [Cursor.atDocumentMark, Bool.and_eq_false_iff]
  refine .inr ?_
  have hnot : ∀ c cs, tail = c :: cs → c ≠ '.' := by
    rintro c cs rfl
    simp only [endsBare, Bool.and_eq_true, bne_iff_ne] at htail
    exact htail.1.1.1
  split
  · next heq =>
      match s, h with
      | [], h =>
          exact absurd h (by decide)
      | c :: ds, h =>
          simp only [List.cons_append, List.cons.injEq] at heq
          obtain ⟨rfl, heq⟩ := heq
          cases ds with
          | nil =>
              exact absurd h (by decide)
          | cons d ds =>
              simp only [startsBare, Bool.and_eq_true, bne_iff_ne] at h
              exact absurd (List.cons.inj heq).1 h.2
  · next heq =>
      match s, h with
      | [], h =>
          exact absurd h (by decide)
      | [c], _ =>
          exact absurd rfl (hnot '.' _ (List.cons.inj heq).2)
      | [c, d], _ =>
          exact absurd rfl (hnot '.' _ (List.cons.inj (List.cons.inj heq).2).2)
      | c :: d :: e :: cs, h =>
          simp only [List.cons_append, List.cons.injEq] at heq
          obtain ⟨rfl, rfl, rfl, rfl⟩ := heq
          simp only [startsBare, Bool.not_eq_true'] at h
          cases cs with
          | nil =>
              exact absurd h (by decide)
          | cons c cs =>
              exact h
  · rfl

/-- A bare text starts a plain scalar. -/
theorem startsPlain_of_startsBare
    (h : startsBare s = true)
    (inFlow : Bool) :
    Scanner.startsPlain inFlow (s ++ tail) = true := by
  obtain ⟨c, cs, rfl, hgap, -, hindicator⟩ := startsBare_cases h
  rcases hindicator with hindicator | ⟨rfl, d, ds, rfl, hd, -⟩
  · simp [Scanner.startsPlain, hgap, hindicator]
  · have hspace : isSpace d = false := by
      simp only [isGap, Bool.or_eq_false_iff] at hd
      exact hd.1
    simp [Scanner.startsPlain, hspace]

end StartsBare

namespace Scanner

/-- A character that is no indicator is none of them. -/
theorem ne_of_isIndicator
    {c d : Char}
    (hc : isIndicator c = false)
    (hd : isIndicator d = true) :
    (c == d) = false := by
  rw [beq_eq_false_iff_ne]
  rintro rfl
  rw [hc] at hd
  exact absurd hd (by decide)

/-- Where a bare text starts a plain scalar is taken. -/
theorem takeToken?_of_startsBare
    {s : Scanner}
    {x tail : List Char}
    (hrest : s.cursor.rest = x ++ tail)
    (hx : startsBare x = true)
    (htail : endsBare tail = true) :
    s.takeToken? = s.takePlain? := by
  have hmark : s.cursor.atDocumentMark = false := by
    have hnot := atDocumentMark_of_startsBare hx htail s.cursor.index s.cursor.line s.cursor.column
    rwa [← hrest] at hnot
  have hplain : startsPlain s.inFlow (x ++ tail) = true :=
    startsPlain_of_startsBare hx s.inFlow
  obtain ⟨c, cs, rfl, hgap, -, hindicator⟩ := startsBare_cases hx
  rw [List.cons_append] at hrest hplain
  rw [takeToken?.eq_def, hrest]
  dsimp only
  rcases hindicator with hindicator | ⟨rfl, d, ds, rfl, hd, -⟩
  · have hne := fun d => ne_of_isIndicator (d := d) hindicator
    simp only [hne '%' (by decide), hmark, hne '[' (by decide), hne '\x7b' (by decide),
      hne ']' (by decide), hne '\x7d' (by decide), hne ',' (by decide), hne '-' (by decide),
      hne '?' (by decide), hne ':' (by decide), hne '*' (by decide), hne '&' (by decide),
      hne '!' (by decide), hne '|' (by decide), hne '>' (by decide), hne '\'' (by decide),
      hne '"' (by decide), Bool.and_false, Bool.false_and, Bool.false_eq_true, if_false, hplain,
      if_true]
  · have hgapNext : atGap (d :: ds ++ tail) = false := hd
    simp only [hgapNext, hmark, hplain, if_true]
    simp

/-- A double quote starts a quoted scalar. -/
theorem takeToken?_doubleQuote
    {s : Scanner}
    {rest : List Char}
    (hrest : s.cursor.rest = '"' :: rest) :
    s.takeToken? = s.takeQuoted? true := by
  have hmark : s.cursor.atDocumentMark = false := by
    simp [Cursor.atDocumentMark, hrest]
  rw [takeToken?.eq_def, hrest]
  simp [hmark]

/-- A single quote starts a quoted scalar. -/
theorem takeToken?_singleQuote
    {s : Scanner}
    {rest : List Char}
    (hrest : s.cursor.rest = '\'' :: rest) :
    s.takeToken? = s.takeQuoted? false := by
  have hmark : s.cursor.atDocumentMark = false := by
    simp [Cursor.atDocumentMark, hrest]
  rw [takeToken?.eq_def, hrest]
  simp [hmark]

end Scanner

namespace View

/-- The view behind some characters of the line, with more tokens. -/
def after (v : View) (length : Nat) (rest : List Char) (keyAllowed : Bool) (ts : List Token) :
    View :=
  { v with rest, column := v.column + length, keyAllowed, tokens := ts.reverse ++ v.tokens }

/-- The place of a view as a candidate for a key. -/
def here (v : View) (index line : Nat) : Candidate :=
  ⟨v.brackets == 0 && v.indent == v.column, v.tokens.length, index, line, v.column⟩

section Candidates

variable {v : View}
variable {blockKey : Option Candidate}
variable {flowKeys : List (Option Candidate)}

/-- The innermost candidate is dropped. -/
theorem dropCandidate?_eq
    (hlax : Lax v.brackets blockKey flowKeys)
    (index line : Nat) :
    (v.scanner index line blockKey flowKeys).dropCandidate? =
      some ((v.scanner index line blockKey flowKeys).setCandidate none) := by
  cases flowKeys with
  | nil =>
      cases blockKey with
      | none =>
          rfl
      | some k =>
          have hk : k.required = false :=
            hlax.block k rfl
          simp [Scanner.dropCandidate?, scanner, Scanner.candidate, hk]
  | cons o os =>
      cases o with
      | none =>
          rfl
      | some k =>
          have hk : k.required = false :=
            hlax.flow _ List.mem_cons_self k rfl
          simp [Scanner.dropCandidate?, scanner, Scanner.candidate, hk]

/-- A place where a key may start becomes the innermost candidate. -/
theorem saveCandidate?_eq
    (hlax : Lax v.brackets blockKey flowKeys)
    (hkey : v.keyAllowed = true)
    (index line : Nat) :
    (v.scanner index line blockKey flowKeys).saveCandidate? =
      some ((v.scanner index line blockKey flowKeys).setCandidate (some (v.here index line))) := by
  have hlength := hlax.length
  have hallowed : (v.scanner index line blockKey flowKeys).keyAllowed = true := hkey
  rw [Scanner.saveCandidate?, if_pos hallowed, dropCandidate?_eq hlax]
  cases flowKeys with
  | nil =>
      rw [List.length_nil] at hlength
      simp [scanner, Scanner.setCandidate, Scanner.inFlow, here, ← hlength]
  | cons o os =>
      rw [List.length_cons] at hlength
      simp [scanner, Scanner.setCandidate, Scanner.inFlow, here, ← hlength]

/-- A scalar that need not be a key leaves candidates that are not required. -/
theorem exists_saveCandidate?_eq
    (hlax : Lax v.brackets blockKey flowKeys)
    (hfree : v.keyAllowed = true → v.brackets = 0 → v.indent ≠ v.column)
    (index line : Nat) :
    ∃ blockKey' flowKeys', Lax v.brackets blockKey' flowKeys' ∧
      (v.scanner index line blockKey flowKeys).saveCandidate? =
        some (v.scanner index line blockKey' flowKeys') := by
  cases hkey : v.keyAllowed with
  | false =>
      refine ⟨blockKey, flowKeys, hlax, ?_⟩
      simp [Scanner.saveCandidate?, scanner, hkey]
  | true =>
      have hhere : (v.here index line).required = false := by
        simpa [here] using hfree hkey
      rw [saveCandidate?_eq hlax hkey]
      cases flowKeys with
      | nil =>
          refine ⟨some (v.here index line), [], ⟨?_, hlax.flow, hlax.length⟩, rfl⟩
          rintro k ⟨rfl⟩
          exact hhere
      | cons o os =>
          refine ⟨blockKey, some (v.here index line) :: os, ⟨hlax.block, ?_, hlax.length⟩, rfl⟩
          intro p hp k hk
          rcases List.mem_cons.1 hp with rfl | hp
          · cases hk
            exact hhere
          · exact hlax.flow p (List.mem_cons_of_mem _ hp) k hk

end Candidates

section Scalars

variable {v : View}
variable {blockKey blockKey' : Option Candidate}
variable {flowKeys flowKeys' : List (Option Candidate)}
variable {index line : Nat}

/-- A text between double quotes is taken as one token. -/
theorem takeToken?_doubleQuoted
    (s : List Char)
    {tail : List Char}
    (hrest : v.rest = Render.doubleQuoted s ++ tail)
    (hsave : (v.scanner index line blockKey flowKeys).saveCandidate? =
      some (v.scanner index line blockKey' flowKeys')) :
    (v.scanner index line blockKey flowKeys).takeToken? =
      some ((v.after (Render.doubleQuoted s).length tail false
          [.scalar (String.ofList s) false]).scanner
        (index + (Render.doubleQuoted s).length) line blockKey' flowKeys') := by
  have hread := readQuoted?_doubleQuoted s tail index line v.column
  have hquote : (v.scanner index line blockKey flowKeys).cursor.rest =
      '"' :: (s.flatMap Render.escape ++ ['"'] ++ tail) := by
    rw [scanner, hrest, Render.doubleQuoted]
    rfl
  have hcursor : (v.scanner index line blockKey' flowKeys').cursor =
      ⟨Render.doubleQuoted s ++ tail, index, line, v.column⟩ := by
    rw [scanner, hrest]
  rw [Scanner.takeToken?_doubleQuote hquote, Scanner.takeQuoted?, hsave]
  simp only [Option.bind_eq_bind, Option.bind_some, hcursor, hread]
  rfl

/-- Two single quotes are taken as the empty text. -/
theorem takeToken?_singleQuotes
    {tail : List Char}
    (htail : tail.head? ≠ some '\'')
    (hrest : v.rest = ['\'', '\''] ++ tail)
    (hsave : (v.scanner index line blockKey flowKeys).saveCandidate? =
      some (v.scanner index line blockKey' flowKeys')) :
    (v.scanner index line blockKey flowKeys).takeToken? =
      some ((v.after 2 tail false [.scalar "" false]).scanner (index + 2) line
        blockKey' flowKeys') := by
  have hread := readQuoted?_empty htail index line v.column
  have hquote : (v.scanner index line blockKey flowKeys).cursor.rest =
      '\'' :: ('\'' :: tail) := hrest
  have hcursor : (v.scanner index line blockKey' flowKeys').cursor =
      ⟨'\'' :: '\'' :: tail, index, line, v.column⟩ := by
    rw [scanner, hrest]
    rfl
  rw [Scanner.takeToken?_singleQuote hquote, Scanner.takeQuoted?, hsave]
  simp only [Option.bind_eq_bind, Option.bind_some, hcursor, hread]
  rfl

/-- A scalar before a colon, a comma, a bracket or the end of the text is taken as
one token. -/
theorem takeToken?_written
    {x tail : List Char}
    {text : String}
    {plain : Bool}
    (hx : Written (decide (v.brackets ≠ 0)) x text plain)
    (hrest : v.rest = x ++ tail)
    (htail : atBareEnd (decide (v.brackets ≠ 0)) tail = true)
    (hstop : noGapNext tail = true)
    (hinside : v.indent ≤ v.column)
    (hlength : flowKeys'.length = v.brackets)
    (hsave : (v.scanner index line blockKey flowKeys).saveCandidate? =
      some (v.scanner index line blockKey' flowKeys')) :
    (v.scanner index line blockKey flowKeys).takeToken? =
      some ((v.after x.length tail false [.scalar text plain]).scanner (index + x.length) line
        blockKey' flowKeys') := by
  have hends : endsBare tail = true :=
    endsBare_of_atBareEnd htail hstop
  have hcursor : (v.scanner index line blockKey' flowKeys').cursor =
      ⟨x ++ tail, index, line, v.column⟩ := by
    rw [scanner, hrest]
  cases hx with
  | quoted s =>
      exact takeToken?_doubleQuoted s hrest hsave
  | empty =>
      have hquote : tail.head? ≠ some '\'' := by
        cases tail with
        | nil =>
            simp
        | cons c cs =>
            simp only [endsBare, Bool.and_eq_true, bne_iff_ne] at hends
            simpa using hends.1.2
      exact takeToken?_singleQuotes hquote hrest hsave
  | bare text starts =>
      have hmark := atDocumentMark_of_startsBare starts hends index line v.column
      have hmargin : (v.indent + 1).toNat ≤ v.column + 1 := by
        omega
      have hread := readPlain?_stop text (ne_nil_of_startsBare starts)
        (noGapNext_of_startsBare starts) htail hstop hmargin hmark
      have hflow := scanner_inFlow hlength index line blockKey'
      rw [Scanner.takeToken?_of_startsBare hrest starts hends, Scanner.takePlain?, hsave]
      simp only [Option.bind_eq_bind, Option.bind_some, hcursor, hflow]
      rw [show (v.scanner index line blockKey' flowKeys').indent = v.indent from rfl, hread]
      rfl

/-- A bare scalar at the end of its line takes the line break too; the step after
it is the one from the end of the line. -/
theorem exists_takeToken?_break
    {x next : List Char}
    (text : BareText false x)
    (starts : startsBare x = true)
    {k : Nat}
    (hrest : v.rest = x ++ '\n' :: (List.replicate k ' ' ++ next))
    (hopens : opensToken next = true)
    (hout : next = [] ∨ (k : Int) ≤ v.indent)
    (hinside : v.indent ≤ v.column)
    (hbrackets : v.brackets = 0)
    (hlax : Lax v.brackets blockKey' flowKeys')
    (hsave : (v.scanner index line blockKey flowKeys).saveCandidate? =
      some (v.scanner index line blockKey' flowKeys')) :
    ∃ t, (v.scanner index line blockKey flowKeys).takeToken? = some t ∧
      t.tokens.head? ≠ some .streamEnd ∧
      t.step? = ((v.after x.length ('\n' :: (List.replicate k ' ' ++ next)) false
          [.scalar (String.ofList x) true]).scanner (index + x.length) line
        blockKey' flowKeys').step? := by
  have hends : endsBare ('\n' :: (List.replicate k ' ' ++ next)) = true := rfl
  have hcursor : (v.scanner index line blockKey' flowKeys').cursor =
      ⟨x ++ '\n' :: (List.replicate k ' ' ++ next), index, line, v.column⟩ := by
    rw [scanner, hrest]
  have hnext : noGapNext next = true := by
    cases next with
    | nil =>
        rfl
    | cons c cs =>
        simp only [opensToken, Bool.not_eq_true', Bool.or_eq_false_iff] at hopens
        rw [noGapNext_cons, hopens.1.1]
        rfl
  have hmargin : (v.indent + 1).toNat ≤ v.column + 1 := by
    omega
  have hout' : next = [] ∨ k < (v.indent + 1).toNat := by
    rcases hout with hnil | hle
    · exact .inl hnil
    · exact .inr (by omega)
  have hmark := atDocumentMark_of_startsBare starts hends index line v.column
  have hread := readPlain?_break text (ne_nil_of_startsBare starts)
    (noGapNext_of_startsBare starts) hnext hout' hmargin hmark
  have hflow : (v.scanner index line blockKey' flowKeys').inFlow = false := by
    rw [scanner_inFlow hlax.length, hbrackets]
    rfl
  have hindent : (v.scanner index line blockKey' flowKeys').indent = v.indent := rfl
  refine ⟨(({ v with rest := next, column := k, keyAllowed := true
                     tokens := .scalar (String.ofList x) true :: v.tokens } : View).scanner
    (index + x.length + 1 + k) (line + 1) blockKey' flowKeys'), ?_, by simp [scanner], ?_⟩
  · rw [Scanner.takeToken?_of_startsBare hrest starts hends, Scanner.takePlain?, hsave]
    simp only [Option.bind_eq_bind, Option.bind_some, hcursor, hflow, hindent, hread]
    rfl
  · rw [step?_break (v := v.after x.length _ false _) hbrackets hlax k rfl hopens]
    rfl

end Scalars

/-- A token starts where a scalar is written. -/
theorem opensToken_of_written
    {inFlow : Bool}
    {x : List Char}
    {text : String}
    {plain : Bool}
    (h : Written inFlow x text plain)
    (tail : List Char) :
    opensToken (x ++ tail) = true := by
  cases h with
  | quoted s | empty =>
      rfl
  | bare text starts =>
      exact opensToken_of_startsBare starts

/-- Something is written for every scalar. -/
theorem length_pos_of_written
    {inFlow : Bool}
    {x : List Char}
    {text : String}
    {plain : Bool}
    (h : Written inFlow x text plain) :
    0 < x.length := by
  cases h with
  | quoted s | empty =>
      exact Nat.succ_pos _
  | bare text starts =>
      exact List.length_pos_iff.2 (ne_nil_of_startsBare starts)

section Moves

variable {v : View}
variable {x tail : List Char}
variable {text : String}
variable {plain : Bool}

/-- A scalar before a colon, a comma, a bracket or the end of the text is read. -/
theorem leads_written
    (hx : Written (decide (v.brackets ≠ 0)) x text plain)
    (hrest : v.rest = x ++ tail)
    (htail : atBareEnd (decide (v.brackets ≠ 0)) tail = true)
    (hstop : noGapNext tail = true)
    (hinside : v.indent ≤ v.column)
    (hfree : v.keyAllowed = true → v.brackets = 0 → v.indent ≠ v.column) :
    Leads v (v.after x.length tail false [.scalar text plain]) := by
  have hopens : opensToken v.rest = true :=
    hrest ▸ opensToken_of_written hx tail
  refine Leads.of_step (fun s hs => ?_) (by simp [after]) ?_
  · obtain ⟨index, line, blockKey, flowKeys, hlax, rfl⟩ := hs
    obtain ⟨blockKey, flowKeys, hlax, hstep⟩ :=
      exists_step?_eq hlax hopens (fun _ => hinside) index line
    obtain ⟨blockKey', flowKeys', hlax', hsave⟩ := exists_saveCandidate?_eq hlax hfree index line
    rw [hstep, takeToken?_written hx hrest htail hstop hinside hlax'.length hsave]
    exact ⟨_, rfl, _, _, _, _, hlax', rfl⟩
  · rw [hrest, List.length_append]
    exact Nat.lt_add_of_pos_left (length_pos_of_written hx)

/-- A scalar at the end of a line is read up to that end, when the next line does
not go on with it. -/
theorem leads_leaf
    (hx : Written false x text plain)
    (hbrackets : v.brackets = 0)
    (hrest : v.rest = x ++ tail)
    (hout : Outdented v.indent tail)
    (hinside : v.indent ≤ v.column)
    (hfree : v.keyAllowed = true → v.indent ≠ v.column) :
    Leads v (v.after x.length tail false [.scalar text plain]) := by
  have hflow : decide (v.brackets ≠ 0) = false := by
    simp [hbrackets]
  have hfree' : v.keyAllowed = true → v.brackets = 0 → v.indent ≠ v.column :=
    fun hkey _ => hfree hkey
  have hopens : opensToken v.rest = true :=
    hrest ▸ opensToken_of_written hx tail
  have hshorter : tail.length < v.rest.length := by
    rw [hrest, List.length_append]
    exact Nat.lt_add_of_pos_left (length_pos_of_written hx)
  rcases hout with rfl | ⟨k, next, rfl, hnext, hout⟩
  · exact leads_written (hflow ▸ hx) hrest rfl rfl hinside hfree'
  · refine Leads.of_step_alike (fun s hs => ?_) hshorter
    obtain ⟨index, line, blockKey, flowKeys, hlax, rfl⟩ := hs
    obtain ⟨blockKey, flowKeys, hlax, hstep⟩ :=
      exists_step?_eq hlax hopens (fun _ => hinside) index line
    obtain ⟨blockKey', flowKeys', hlax', hsave⟩ := exists_saveCandidate?_eq hlax hfree' index line
    rw [hstep]
    cases hx with
    | quoted s =>
        rw [takeToken?_doubleQuoted s hrest hsave]
        exact ⟨_, _, rfl, by simp [scanner, after], ⟨_, _, _, _, hlax', rfl⟩, rfl⟩
    | empty =>
        rw [takeToken?_singleQuotes (by simp) hrest hsave]
        exact ⟨_, _, rfl, by simp [scanner, after], ⟨_, _, _, _, hlax', rfl⟩, rfl⟩
    | bare text starts =>
        obtain ⟨t, htake, hend, halike⟩ := exists_takeToken?_break text starts hrest hnext hout
          hinside hbrackets hlax' hsave
        exact ⟨t, _, htake, hend, ⟨_, _, _, _, hlax', rfl⟩, halike⟩

end Moves

end View

end Dashboard.Yaml

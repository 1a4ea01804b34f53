import Dashboard.Proofs.Render.Bare
import Dashboard.Proofs.Render.Nodes
import Dashboard.Proofs.Yaml.Marks

/-!
# The flow form is read as its tokens

A value in brackets stands on one line, so reading only moves on in that line;
inside the brackets neither the blocks around them nor the column matter.  A
key that is too long to be remembered up to its colon is read without the mark
of a key.
-/

namespace Dashboard

namespace Yaml.View

/-- The view further on in the line, behind some tokens. -/
def past (v : View) (rest : List Char) (column : Nat) (ts : List Token) : View :=
  { v with rest, column, keyAllowed := false, tokens := ts.reverse ++ v.tokens }

/-- Only the tokens of a place in between are kept. -/
theorem past_past
    (v : View)
    (rest rest' : List Char)
    (column column' : Nat)
    (ts us : List Token) :
    (v.past rest column ts).past rest' column' us = v.past rest' column' (ts ++ us) := by
  simp [past]

/-- The view behind a comma and a space. -/
def separated (v : View) (rest : List Char) : View :=
  { v with
    rest
    column := v.column + 2
    keyAllowed := true
    tokens := .flowEntry :: v.tokens }

theorem separated_past
    (v : View)
    (rest rest' : List Char)
    (column : Nat)
    (ts : List Token) :
    (v.separated rest).past rest' column ts = v.past rest' column (.flowEntry :: ts) := by
  simp [separated, past]

/-- The view behind an opening bracket. -/
def opened (v : View) (rest : List Char) (t : Token) : View :=
  { v with
    rest
    column := v.column + 1
    keyAllowed := true
    brackets := v.brackets + 1
    tokens := t :: v.tokens }

/-- The view behind a closing bracket, with `n` brackets still open. -/
def closed (v : View) (rest : List Char) (column n : Nat) (ts : List Token) : View :=
  { v.past rest column ts with brackets := n }

theorem opened_closed
    (v : View)
    (rest rest' : List Char)
    (t : Token)
    (column : Nat)
    (ts : List Token) :
    (v.opened rest t).closed rest' column v.brackets ts = v.past rest' column (t :: ts) := by
  simp [opened, closed, past]

theorem past_closed
    (v : View)
    (rest rest' : List Char)
    (column column' n : Nat)
    (ts us : List Token) :
    (v.past rest column ts).closed rest' column' n us = v.closed rest' column' n (ts ++ us) := by
  simp [closed, past]

end Yaml.View

namespace Render

open Yaml

/-- No text is plain. -/
def quotedOnly (_ : String) : Bool :=
  false

/-- The items behind one, with the commas before them and the bracket behind. -/
def itemsText : List Value → List Char
  | [] => [']']
  | v :: vs => ',' :: ' ' :: (flow v ++ itemsText vs)

/-- A key with its colon, and the value of it. -/
def entryText (k : String) (v : Value) : List Char :=
  doubleQuoted k.toList ++ ':' :: ' ' :: flow v

/-- The entries behind one, with the commas before them and the brace behind. -/
def entriesText : List (String × Value) → List Char
  | [] => ['\x7d']
  | (k, v) :: m => ',' :: ' ' :: (entryText k v ++ entriesText m)

theorem flowItems_cons
    (v : Value)
    (vs : List Value) :
    flowItems (v :: vs) ++ [']'] = flow v ++ itemsText vs := by
  induction vs generalizing v with
  | nil =>
      rw [flowItems, itemsText]
  | cons w vs ih =>
      rw [flowItems, List.append_assoc, List.cons_append, List.cons_append, ih, itemsText]
      simp

theorem flowEntries_cons
    (k : String)
    (v : Value)
    (m : List (String × Value)) :
    flowEntries ((k, v) :: m) ++ ['\x7d'] = entryText k v ++ entriesText m := by
  induction m generalizing k v with
  | nil =>
      rw [flowEntries, entriesText, entryText]
  | cons e m ih =>
      obtain ⟨l, w⟩ := e
      rw [flowEntries, List.append_assoc, List.cons_append, List.cons_append, ih, entriesText]
      · simp [entryText]
      · simp

/-- A token starts where a value starts. -/
theorem opensToken_flow
    (v : Value)
    (tail : List Char) :
    opensToken (flow v ++ tail) = true := by
  cases v with
  | str s | seq vs | map m =>
      rw [flow]
      rfl
  | null | bool b | int n | float x =>
      rw [flow_eq_plainScalar rfl]
      exact View.opensToken_of_written (written_plainScalar rfl true) tail

/-- A scalar is written between brackets. -/
theorem exists_written_flow
    {v : Value}
    (h : v.isContainer = false) :
    ∃ text flag, scalarToken quotedOnly v = .scalar text flag ∧
      Written true (flow v) text flag := by
  cases v with
  | str s =>
      have hwritten : Written true (doubleQuoted s.toList) (String.ofList s.toList) false :=
        .quoted s.toList
      rw [String.ofList_toList] at hwritten
      exact ⟨s, false, rfl, by rwa [flow]⟩
  | null | bool b | int n | float x =>
      refine ⟨_, true, rfl, ?_⟩
      rw [flow_eq_plainScalar rfl]
      exact written_plainScalar rfl true
  | seq vs | map m =>
      exact absurd h (by simp [Value.isContainer])

/-- A key in brackets is short enough to be read. -/
def IsShortFlowKey (k : String) : Prop :=
  (doubleQuoted k.toList).length ≤ 1024

instance : DecidablePred IsShortFlowKey :=
  fun _ => Nat.decLe _ _

/-- The tokens of a key and its colon, as they are read: a key that is too long
has no mark. -/
def scannedKeyTokens (k : String) : List Token :=
  if IsShortFlowKey k then keyTokens quotedOnly k else [.scalar k false, .value]

mutual

/-- The tokens of a value in brackets, as they are read. -/
def scannedTokens : Value → List Token
  | .seq [] => [.flowSequenceStart, .flowSequenceEnd]
  | .seq (v :: vs) => .flowSequenceStart :: (scannedTokens v ++ scannedItemTokens vs)
  | .map [] => [.flowMappingStart, .flowMappingEnd]
  | .map ((k, v) :: m) =>
      .flowMappingStart :: (scannedKeyTokens k ++ scannedTokens v ++ scannedEntryTokens m)
  | v => [scalarToken quotedOnly v]

/-- The tokens behind an item. -/
def scannedItemTokens : List Value → List Token
  | [] => [.flowSequenceEnd]
  | v :: vs => .flowEntry :: (scannedTokens v ++ scannedItemTokens vs)

/-- The tokens behind an entry. -/
def scannedEntryTokens : List (String × Value) → List Token
  | [] => [.flowMappingEnd]
  | (k, v) :: m =>
      .flowEntry :: (scannedKeyTokens k ++ scannedTokens v ++ scannedEntryTokens m)

end

theorem scannedTokens_of_scalar
    {v : Value}
    (h : v.isContainer = false) :
    scannedTokens v = [scalarToken quotedOnly v] := by
  cases v with
  | str s | null | bool b | int n | float x =>
      simp [scannedTokens]
  | seq vs | map m =>
      exact absurd h (by simp [Value.isContainer])

mutual

/-- The tokens of a value all of whose keys are short. -/
theorem scannedTokens_of_short
    (v : Value)
    (hkeys : v.AllKeys IsShortFlowKey) :
    scannedTokens v = flowTokens quotedOnly v := by
  match v with
  | .seq [] | .map [] =>
      simp [scannedTokens, flowTokens]
  | .seq (v :: vs) =>
      rw [Value.AllKeys, Value.AllKeysItems] at hkeys
      rw [scannedTokens, flowTokens, scannedTokens_of_short v hkeys.1,
        scannedItemTokens_of_short vs hkeys.2]
  | .map ((k, v) :: m) =>
      rw [Value.AllKeys, Value.AllKeysEntries] at hkeys
      rw [scannedTokens, flowTokens, scannedKeyTokens, if_pos hkeys.1.1,
        scannedTokens_of_short v hkeys.1.2, scannedEntryTokens_of_short m hkeys.2]
  | .str _ | .null | .bool _ | .int _ | .float _ =>
      rw [scannedTokens_of_scalar rfl, (tokens_of_scalar quotedOnly rfl).1]

theorem scannedItemTokens_of_short
    (vs : List Value)
    (hkeys : Value.AllKeysItems IsShortFlowKey vs) :
    scannedItemTokens vs = flowItemTokens quotedOnly vs := by
  match vs with
  | [] =>
      rw [scannedItemTokens, flowItemTokens]
  | v :: vs =>
      rw [Value.AllKeysItems] at hkeys
      rw [scannedItemTokens, flowItemTokens, scannedTokens_of_short v hkeys.1,
        scannedItemTokens_of_short vs hkeys.2]

theorem scannedEntryTokens_of_short
    (m : List (String × Value))
    (hkeys : Value.AllKeysEntries IsShortFlowKey m) :
    scannedEntryTokens m = flowEntryTokens quotedOnly m := by
  match m with
  | [] =>
      rw [scannedEntryTokens, flowEntryTokens]
  | (k, v) :: m =>
      rw [Value.AllKeysEntries] at hkeys
      rw [scannedEntryTokens, flowEntryTokens, scannedKeyTokens, if_pos hkeys.1.1,
        scannedTokens_of_short v hkeys.1.2, scannedEntryTokens_of_short m hkeys.2]

end

/-- From where a value in brackets starts, reading takes its tokens. -/
def ReadsFlow (v : Value) : Prop :=
  ∀ (u : View) (tail : List Char),
    u.rest = flow v ++ tail →
    u.indent ≤ u.column →
    (u.keyAllowed = true → u.brackets = 0 → u.indent ≠ u.column) →
    (v.isContainer = false → u.brackets ≠ 0 ∧ atBareEnd true tail = true ∧ noGapNext tail = true) →
      ∃ column : Nat, u.indent ≤ column ∧
        u.Leads (u.past tail column (scannedTokens v))

section Reading

variable {v : Value}
variable {u : View}
variable {tail rest : List Char}

theorem readsFlow_of_scalar
    (h : v.isContainer = false) :
    ReadsFlow v := by
  intro u tail hrest hinside hfree htail
  obtain ⟨hbrackets, hend, hstop⟩ := htail h
  obtain ⟨text, flag, htoken, hwritten⟩ := exists_written_flow h
  have hflow : decide (u.brackets ≠ 0) = true := by
    simpa using hbrackets
  refine ⟨u.column + (flow v).length, by omega, ?_⟩
  rw [scannedTokens_of_scalar h, htoken]
  exact View.leads_written (hflow ▸ hwritten) hrest (hflow ▸ hend) hstop hinside hfree

/-- A key between braces and its colon are read. -/
theorem exists_leads_flowKey
    {k : String}
    (hrest : u.rest = doubleQuoted k.toList ++ ':' :: ' ' :: rest)
    (hopens : opensToken rest = true)
    (hinside : u.indent ≤ u.column)
    (hkey : u.keyAllowed = true)
    (hbrackets : u.brackets ≠ 0) :
    ∃ column : Nat, u.indent ≤ column ∧
      u.Leads (u.past rest column (scannedKeyTokens k)) := by
  have hread := View.leads_beforeColon k.toList hbrackets hkey hrest
  rw [String.ofList_toList] at hread
  refine ⟨u.column + ((doubleQuoted k.toList).length + 1) + 1, by omega, hread.trans ?_⟩
  exact View.leads_spaces 1 rfl hopens

/-- A key between braces and its value are read. -/
theorem exists_leads_entryText
    {k : String}
    (hv : ReadsFlow v)
    (hrest : u.rest = entryText k v ++ tail)
    (hinside : u.indent ≤ u.column)
    (hkey : u.keyAllowed = true)
    (hbrackets : u.brackets ≠ 0)
    (hend : atBareEnd true tail = true)
    (hstop : noGapNext tail = true) :
    ∃ column : Nat, u.indent ≤ column ∧
      u.Leads (u.past tail column (scannedKeyTokens k ++ scannedTokens v)) := by
  have hrestKey : u.rest = doubleQuoted k.toList ++ ':' :: ' ' :: (flow v ++ tail) := by
    rw [hrest, entryText]
    simp
  obtain ⟨column, hcolumn, hreadKey⟩ :=
    exists_leads_flowKey hrestKey (opensToken_flow v tail) hinside hkey hbrackets
  obtain ⟨column', hcolumn', hvalue⟩ :=
    hv (u.past (flow v ++ tail) column (scannedKeyTokens k)) tail rfl hcolumn
      (fun h => absurd h (by simp [View.past])) fun _ => ⟨hbrackets, hend, hstop⟩
  rw [View.past_past] at hvalue
  exact ⟨column', hcolumn', hreadKey.trans hvalue⟩

/-- Behind an item nothing goes on with it. -/
theorem stops_itemsText
    (vs : List Value)
    (tail : List Char) :
    atBareEnd true (itemsText vs ++ tail) = true ∧ noGapNext (itemsText vs ++ tail) = true := by
  cases vs with
  | nil =>
      exact ⟨rfl, rfl⟩
  | cons v vs =>
      exact ⟨rfl, rfl⟩

/-- Behind an entry nothing goes on with it. -/
theorem stops_entriesText
    (m : List (String × Value))
    (tail : List Char) :
    atBareEnd true (entriesText m ++ tail) = true ∧
      noGapNext (entriesText m ++ tail) = true := by
  cases m with
  | nil =>
      exact ⟨rfl, rfl⟩
  | cons e m =>
      exact ⟨rfl, rfl⟩

/-- A comma between brackets and the space behind it are read. -/
theorem leads_separated
    (hrest : u.rest = ',' :: ' ' :: rest)
    (hopens : opensToken rest = true)
    (hbrackets : u.brackets ≠ 0) :
    u.Leads (u.separated rest) :=
  (View.leads_comma hrest hbrackets).trans (View.leads_spaces 1 rfl hopens)

/-- An opening bracket is read. -/
theorem leads_opened
    {c : Char}
    {t : Token}
    (hc : View.Opening c t)
    (hrest : u.rest = c :: rest)
    (hinside : u.indent ≤ u.column)
    (hfree : u.keyAllowed = true → u.brackets = 0 → u.indent ≠ u.column) :
    u.Leads (u.opened rest t) :=
  View.leads_opening hc hrest hinside hfree

/-- A closing bracket is read. -/
theorem leads_closed
    {c : Char}
    {t : Token}
    (hc : View.Closing c t)
    (hrest : u.rest = c :: rest)
    {n : Nat}
    (hbrackets : u.brackets = n + 1) :
    u.Leads (u.closed rest (u.column + 1) n [t]) :=
  View.leads_closing hc hrest hbrackets

mutual

/-- The flow form of a value is read as its tokens. -/
theorem readsFlow
    (v : Value) :
    ReadsFlow v := by
  match v with
  | .str _ | .null | .bool _ | .int _ | .float _ =>
      exact readsFlow_of_scalar rfl
  | .seq [] =>
      intro u tail hrest hinside hfree _
      rw [flow, flowItems] at hrest
      have hopening := leads_opened .sequence hrest hinside hfree
      have hclosing : (u.opened (']' :: tail) .flowSequenceStart).Leads _ :=
        leads_closed .sequence rfl rfl
      rw [View.opened_closed] at hclosing
      rw [scannedTokens]
      exact ⟨_, by simp only [View.opened]; omega, hopening.trans hclosing⟩
  | .seq (v :: vs) =>
      intro u tail hrest hinside hfree _
      rw [flow, List.cons_append, flowItems_cons, List.cons_append, List.append_assoc] at hrest
      have hopening := leads_opened .sequence hrest hinside hfree
      obtain ⟨hend, hstop⟩ := stops_itemsText vs tail
      have hinsideItem : u.indent ≤ ((u.column + 1 : Nat) : Int) := by
        omega
      obtain ⟨column, hcolumn, hitem⟩ := readsFlow v
        (u.opened (flow v ++ (itemsText vs ++ tail)) .flowSequenceStart) _ rfl hinsideItem
        (fun _ h => absurd h (Nat.succ_ne_zero _)) fun _ => ⟨Nat.succ_ne_zero _, hend, hstop⟩
      obtain ⟨column', hcolumn', hitems⟩ := exists_leads_itemsText vs
        ((u.opened (flow v ++ (itemsText vs ++ tail)) .flowSequenceStart).past
          (itemsText vs ++ tail) column (scannedTokens v)) tail u.brackets rfl hcolumn rfl
      rw [View.past_closed, View.opened_closed] at hitems
      rw [scannedTokens]
      exact ⟨column', hcolumn', hopening.trans (hitem.trans hitems)⟩
  | .map [] =>
      intro u tail hrest hinside hfree _
      rw [flow, flowEntries] at hrest
      have hopening := leads_opened .mapping hrest hinside hfree
      have hclosing : (u.opened ('\x7d' :: tail) .flowMappingStart).Leads _ :=
        leads_closed .mapping rfl rfl
      rw [View.opened_closed] at hclosing
      rw [scannedTokens]
      exact ⟨_, by simp only [View.opened]; omega, hopening.trans hclosing⟩
  | .map ((k, v) :: m) =>
      intro u tail hrest hinside hfree _
      rw [flow, List.cons_append, flowEntries_cons, List.cons_append, List.append_assoc] at hrest
      have hopening := leads_opened .mapping hrest hinside hfree
      obtain ⟨hend, hstop⟩ := stops_entriesText m tail
      have hinsideEntry : u.indent ≤ ((u.column + 1 : Nat) : Int) := by
        omega
      obtain ⟨column, hcolumn, hentry⟩ := exists_leads_entryText (readsFlow v)
        (u := u.opened (entryText k v ++ (entriesText m ++ tail)) .flowMappingStart) rfl
        hinsideEntry rfl (Nat.succ_ne_zero _) hend hstop
      obtain ⟨column', hcolumn', hentries⟩ := exists_leads_entriesText m
        ((u.opened (entryText k v ++ (entriesText m ++ tail)) .flowMappingStart).past
          (entriesText m ++ tail) column (scannedKeyTokens k ++ scannedTokens v))
        tail u.brackets rfl hcolumn rfl
      rw [View.past_closed, View.opened_closed] at hentries
      rw [scannedTokens]
      exact ⟨column', hcolumn', hopening.trans (hentry.trans hentries)⟩

theorem exists_leads_itemsText
    (vs : List Value)
    (u : View)
    (tail : List Char)
    (n : Nat)
    (hrest : u.rest = itemsText vs ++ tail)
    (hinside : u.indent ≤ u.column)
    (hbrackets : u.brackets = n + 1) :
    ∃ column : Nat, u.indent ≤ column ∧
      u.Leads (u.closed tail column n (scannedItemTokens vs)) := by
  match vs with
  | [] =>
      rw [scannedItemTokens]
      exact ⟨u.column + 1, by omega, leads_closed .sequence hrest hbrackets⟩
  | v :: vs =>
      rw [itemsText, List.cons_append, List.cons_append, List.append_assoc] at hrest
      have hopen : u.brackets ≠ 0 := by
        omega
      obtain ⟨hend, hstop⟩ := stops_itemsText vs tail
      have hcomma := leads_separated hrest (opensToken_flow v _) hopen
      have hinsideItem : u.indent ≤ ((u.column + 2 : Nat) : Int) := by
        omega
      obtain ⟨column, hcolumn, hitem⟩ := readsFlow v
        (u.separated (flow v ++ (itemsText vs ++ tail))) _ rfl hinsideItem
        (fun _ h => absurd h hopen) fun _ => ⟨hopen, hend, hstop⟩
      rw [View.separated_past] at hitem
      obtain ⟨column', hcolumn', hitems⟩ := exists_leads_itemsText vs
        (u.past (itemsText vs ++ tail) column (.flowEntry :: scannedTokens v)) tail n rfl
        hcolumn hbrackets
      rw [View.past_closed] at hitems
      rw [scannedItemTokens]
      exact ⟨column', hcolumn', hcomma.trans (hitem.trans hitems)⟩

theorem exists_leads_entriesText
    (m : List (String × Value))
    (u : View)
    (tail : List Char)
    (n : Nat)
    (hrest : u.rest = entriesText m ++ tail)
    (hinside : u.indent ≤ u.column)
    (hbrackets : u.brackets = n + 1) :
    ∃ column : Nat, u.indent ≤ column ∧
      u.Leads (u.closed tail column n (scannedEntryTokens m)) := by
  match m with
  | [] =>
      rw [scannedEntryTokens]
      exact ⟨u.column + 1, by omega, leads_closed .mapping hrest hbrackets⟩
  | (k, v) :: m =>
      rw [entriesText, List.cons_append, List.cons_append, List.append_assoc] at hrest
      have hopen : u.brackets ≠ 0 := by
        omega
      obtain ⟨hend, hstop⟩ := stops_entriesText m tail
      have hcomma := leads_separated hrest rfl hopen
      have hinsideEntry : u.indent ≤ ((u.column + 2 : Nat) : Int) := by
        omega
      obtain ⟨column, hcolumn, hentry⟩ := exists_leads_entryText (readsFlow v)
        (u := u.separated (entryText k v ++ (entriesText m ++ tail))) rfl hinsideEntry rfl hopen
        hend hstop
      rw [View.separated_past] at hentry
      obtain ⟨column', hcolumn', hentries⟩ := exists_leads_entriesText m
        (u.past (entriesText m ++ tail) column
          (.flowEntry :: (scannedKeyTokens k ++ scannedTokens v))) tail n rfl
        hcolumn hbrackets
      rw [View.past_closed] at hentries
      rw [scannedEntryTokens]
      exact ⟨column', hcolumn', hcomma.trans (hentry.trans hentries)⟩

end

end Reading

end Render

end Dashboard

import Dashboard.Proofs.Render.Flow
import Dashboard.Proofs.Value.Shape

/-!
# The block form is read as its tokens

The lines of a value are read one after the other.  A list or mapping opens a
block when its first mark is read, and the block ends at the first line that
is indented less.  Nothing but a key that is too long stands in the way: such
a key is not remembered up to its colon, and the text is refused.  So the
block form is read exactly if all keys are short enough.
-/

namespace Dashboard

namespace Yaml.View

/-- Reading goes on from the one view to the other under a condition, and only
then to the end of the text. -/
structure Goes (ok : Prop) (u w : View) : Prop where
  leads : ok → Leads u w
  stuck : ¬ok → Stuck u

theorem Leads.goes
    {u w : View}
    (h : Leads u w) :
    Goes True u w :=
  ⟨fun _ => h, fun hno => absurd trivial hno⟩

theorem Goes.trans
    {a b : Prop}
    {u v w : View}
    (huv : Goes a u v)
    (hvw : Goes b v w) :
    Goes (a ∧ b) u w := by
  refine ⟨fun ⟨ha, hb⟩ => (huv.leads ha).trans (hvw.leads hb), fun hno => ?_⟩
  by_cases ha : a
  · exact (huv.leads ha).stuck (hvw.stuck fun hb => hno ⟨ha, hb⟩)
  · exact huv.stuck ha

/-- A way that is open leads on to what follows. -/
theorem Leads.trans_goes
    {b : Prop}
    {u v w : View}
    (huv : Leads u v)
    (hvw : Goes b v w) :
    Goes b u w :=
  ⟨fun hb => huv.trans (hvw.leads hb), fun hno => huv.stuck (hvw.stuck hno)⟩

/-- The view at the end of a line, behind some tokens. -/
def ended (u : View) (rest : List Char) (column : Nat) (keyAllowed : Bool) (ts : List Token) :
    View :=
  { u with rest, column, keyAllowed, tokens := ts.reverse ++ u.tokens }

/-- The view inside a block of its own. -/
def inner (u : View) (indent : Nat) : View :=
  { u with indent, outer := u.indent :: u.outer }

theorem ended_ended
    (u : View)
    (rest rest' : List Char)
    (column column' : Nat)
    (keyAllowed keyAllowed' : Bool)
    (ts us : List Token) :
    (u.ended rest column keyAllowed ts).ended rest' column' keyAllowed' us =
      u.ended rest' column' keyAllowed' (ts ++ us) := by
  simp [ended]

theorem inner_ended
    (u : View)
    (indent : Nat)
    (rest : List Char)
    (column : Nat)
    (keyAllowed : Bool)
    (ts : List Token) :
    (u.inner indent).ended rest column keyAllowed ts =
      (u.ended rest column keyAllowed ts).inner indent :=
  rfl

/-- A block is opened by its first mark. -/
theorem enter_of_lt
    {u : View}
    {column : Nat}
    (h : u.indent < column)
    (t : Token)
    (length : Nat)
    (rest : List Char)
    (keyAllowed : Bool)
    (ts : List Token) :
    (u.enter column t).after length rest keyAllowed ts =
      (u.ended rest (u.column + length) keyAllowed (t :: ts)).inner column := by
  simp [enter, after, ended, inner, h]

/-- A mark in the column of its block leaves the block as it is. -/
theorem enter_of_eq
    {u : View}
    {column : Nat}
    (h : u.indent = column)
    (t : Token) :
    u.enter column t = u := by
  rw [enter, if_neg (by omega)]

/-- The mark of an item on the next line is read. -/
theorem leads_line_item
    {u : View}
    {indent : Nat}
    {rest : List Char}
    (hbrackets : u.brackets = 0)
    (hrest : u.rest = '\n' :: (List.replicate indent ' ' ++ '-' :: rest))
    (hgap : atGap rest = true) :
    Leads (u.inner indent) ((u.ended rest (indent + 1) true [.blockEntry]).inner indent) := by
  have hbreak := leads_break (v := u.inner indent) hbrackets indent hrest rfl
  have hmark := leads_item (v := (u.ended ('-' :: rest) indent true []).inner indent)
    hbrackets rfl rfl hgap (Int.le_refl _)
  rw [enter_of_eq rfl] at hmark
  exact hbreak.trans hmark

/-- A key and its colon are read if the key is short enough. -/
theorem goes_key
    {u : View}
    {x rest : List Char}
    {text : String}
    {plain : Bool}
    (hx : Written false x text plain)
    (hbrackets : u.brackets = 0)
    (hkey : u.keyAllowed = true)
    (hrest : u.rest = x ++ ':' :: rest)
    (hgap : atGap rest = true)
    (hinside : u.indent ≤ u.column) :
    Goes (x.length ≤ 1024) u ((u.enter u.column .blockMappingStart).after (x.length + 1) rest false
      [.key, .scalar text plain, .value]) :=
  ⟨leads_blockKey hx hbrackets hkey hrest hgap hinside, fun hno =>
    stuck_blockKey hx hbrackets hkey hrest hgap hinside (Nat.lt_of_not_le hno)⟩

/-- A key on the next line and its colon are read if the key is short enough. -/
theorem goes_line_key
    {u : View}
    {indent : Nat}
    {x rest : List Char}
    {text : String}
    {plain : Bool}
    (hx : Written false x text plain)
    (hbrackets : u.brackets = 0)
    (hrest : u.rest = '\n' :: (List.replicate indent ' ' ++ (x ++ ':' :: rest)))
    (hgap : atGap rest = true) :
    Goes (x.length ≤ 1024) (u.inner indent)
      ((u.ended rest (indent + (x.length + 1)) false [.key, .scalar text plain, .value]).inner
        indent) := by
  have hbreak := leads_break (v := u.inner indent) hbrackets indent hrest
    (opensToken_of_written hx _)
  have hmark := goes_key (u := (u.ended (x ++ ':' :: rest) indent true []).inner indent)
    hx hbrackets rfl rfl hgap (Int.le_refl _)
  rw [enter_of_eq rfl] at hmark
  exact hbreak.trans_goes hmark

/-- At the end of its lines a block is closed. -/
theorem leads_pop_inner
    {u : View}
    {indent : Nat}
    (hbrackets : u.brackets = 0)
    (hindent : u.indent < indent)
    (hout : Outdented u.indent u.rest) :
    Leads (u.inner indent) (u.ended u.rest u.column u.keyAllowed [.blockEnd]) := by
  have hpos : (-1 : Int) < (u.inner indent).indent := by
    show (-1 : Int) < (indent : Int)
    omega
  exact leads_pop (v := u.inner indent) hbrackets rfl hpos hindent hout

end Yaml.View

namespace Render

open Yaml

/-- Lines that follow on others. -/
def following (ls : List (List Char)) : List Char :=
  ls.flatMap ('\n' :: ·)

theorem following_cons
    (l : List Char)
    (ls : List (List Char)) :
    following (l :: ls) = '\n' :: (l ++ following ls) := by
  simp [following]

theorem following_append
    (ls ms : List (List Char)) :
    following (ls ++ ms) = following ls ++ following ms := by
  simp [following]

theorem joinLines_cons
    (l : List Char)
    (ls : List (List Char)) :
    joinLines (l :: ls) = l ++ following ls := by
  induction ls generalizing l with
  | nil =>
      simp [joinLines, following]
  | cons m ls ih =>
      rw [joinLines, ih, following_cons]
      simp

/-- Only the first line break tells lines that follow from lines alone. -/
theorem following_eq_joinLines
    {ls : List (List Char)}
    (h : ls ≠ []) :
    following ls = '\n' :: joinLines ls := by
  cases ls with
  | nil =>
      exact absurd rfl h
  | cons l ls =>
      rw [following_cons, joinLines_cons]

/-- What stands behind the mark of an item or the colon of a key. -/
def afterMark (depth : Nat) (v : Value) : List Char :=
  if v.isContainer then following (blockLines (depth + 1) v) else ' ' :: inline v

/-- A container stands on lines of its own. -/
theorem afterMark_of_container
    {v : Value}
    (h : v.isContainer = true)
    (depth : Nat) :
    afterMark depth v = following (blockLines (depth + 1) v) := by
  rw [afterMark, if_pos h]

/-- A scalar stands on the line of its mark. -/
theorem afterMark_of_scalar
    {v : Value}
    (h : v.isContainer = false)
    (depth : Nat) :
    afterMark depth v = ' ' :: inline v := by
  rw [afterMark, if_neg (by simp [h])]

theorem following_itemLines
    (depth : Nat)
    (v : Value)
    (vs : List Value) :
    following (itemLines depth (v :: vs)) =
      '\n' :: (indentation depth ++ '-' :: (afterMark depth v ++ following (itemLines depth vs))) := by
  rw [itemLines, following_append, afterMark]
  split
  · rw [following_cons]
    simp
  · rw [following_cons]
    simp [following]

theorem following_entryLines
    (depth : Nat)
    (k : String)
    (v : Value)
    (m : List (String × Value)) :
    following (entryLines depth ((k, v) :: m)) =
      '\n' :: (indentation depth ++ (quoted k.toList ++
        ':' :: (afterMark depth v ++ following (entryLines depth m)))) := by
  rw [entryLines, following_append, afterMark]
  split
  · rw [following_cons]
    simp
  · rw [following_cons]
    simp [following]

/-- The text of a mapping starts with its first key. -/
theorem block_map_cons
    (k : String)
    (v : Value)
    (m : List (String × Value)) :
    block 0 (.map ((k, v) :: m)) =
      quoted k.toList ++ ':' :: (afterMark 0 v ++ following (entryLines 0 m)) := by
  have hlines := following_entryLines 0 k v m
  have hne : entryLines 0 ((k, v) :: m) ≠ [] := by
    intro hnil
    rw [hnil] at hlines
    exact absurd hlines (by simp [following])
  rw [following_eq_joinLines hne] at hlines
  rw [block, blockLines]
  exact (List.cons.inj hlines).2

/-- A mark ends before a space or a line break. -/
theorem atGap_afterMark
    (depth : Nat)
    (v : Value)
    (tail : List Char) :
    atGap (afterMark depth v ++ tail) = true := by
  match v with
  | .seq [] | .map [] =>
      rw [afterMark_of_container rfl, blockLines, following_cons]
      rfl
  | .seq (v :: vs) =>
      rw [afterMark_of_container rfl, blockLines, following_itemLines]
      rfl
  | .map ((k, v) :: m) =>
      rw [afterMark_of_container rfl, blockLines, following_entryLines]
      rfl
  | .str _ | .null | .bool _ | .int _ | .float _ =>
      rw [afterMark_of_scalar rfl]
      rfl

/-- A key in a block is short enough to be read. -/
def IsShortKey (k : String) : Prop :=
  (quoted k.toList).length ≤ 1024

instance : DecidablePred IsShortKey :=
  fun _ => Nat.decLe _ _

/-- A scalar is written in a block. -/
theorem exists_written_inline
    {v : Value}
    (h : v.isContainer = false) :
    ∃ text flag, scalarToken isBare v = .scalar text flag ∧
      Written false (inline v) text flag := by
  cases v with
  | str s =>
      exact ⟨s, isBare s, rfl, by rw [inline]; exact written_quoted s⟩
  | null | bool b | int n | float x =>
      refine ⟨_, true, rfl, ?_⟩
      rw [inline_eq_plainScalar rfl]
      exact written_plainScalar rfl false
  | seq vs | map m =>
      exact absurd h (by simp [Value.isContainer])

/-- A line of a depth is not indented more than that depth. -/
theorem outdented_line
    (depth : Nat)
    {next : List Char}
    (hopens : opensToken next = true) :
    View.Outdented ((2 * depth : Nat) : Int) ('\n' :: (indentation depth ++ next)) :=
  .inr ⟨2 * depth, next, rfl, hopens, .inr (Int.le_refl _)⟩

/-- The lines of items are not indented more than their list. -/
theorem outdented_itemLines
    (depth : Nat)
    (vs : List Value)
    {indent : Int}
    {tail : List Char}
    (h : View.Outdented indent tail)
    (hle : indent ≤ (2 * depth : Nat)) :
    View.Outdented ((2 * depth : Nat) : Int) (following (itemLines depth vs) ++ tail) := by
  cases vs with
  | nil =>
      exact h.mono hle
  | cons v vs =>
      rw [following_itemLines, List.cons_append, List.append_assoc]
      exact outdented_line depth rfl

/-- The lines of entries are not indented more than their mapping. -/
theorem outdented_entryLines
    (depth : Nat)
    (m : List (String × Value))
    {indent : Int}
    {tail : List Char}
    (h : View.Outdented indent tail)
    (hle : indent ≤ (2 * depth : Nat)) :
    View.Outdented ((2 * depth : Nat) : Int) (following (entryLines depth m) ++ tail) := by
  cases m with
  | nil =>
      exact h.mono hle
  | cons e m =>
      obtain ⟨k, v⟩ := e
      rw [following_entryLines, List.cons_append, List.append_assoc, List.append_assoc]
      exact outdented_line depth (View.opensToken_of_written (written_quoted k) _)

section Reading

/-- Behind a mark in the block of a depth, reading takes the tokens of a value. -/
def ReadsBehind (v : Value) : Prop :=
  ∀ (depth : Nat) (u : View) (tail : List Char),
    u.rest = afterMark depth v ++ tail →
    u.brackets = 0 →
    u.indent = ((2 * depth : Nat) : Int) →
    u.indent < u.column →
    View.Outdented ((2 * depth : Nat) : Int) tail →
      ∃ column keyAllowed,
        View.Goes (v.AllKeys IsShortKey) u (u.ended tail column keyAllowed (blockTokens isBare v))

/-- Behind an item, reading takes the tokens of the further items and leaves the
block. -/
def ReadsItems (vs : List Value) : Prop :=
  ∀ (depth : Nat) (u : View) (tail : List Char),
    u.rest = following (itemLines depth vs) ++ tail →
    u.brackets = 0 →
    u.indent < ((2 * depth : Nat) : Int) →
    View.Outdented u.indent tail →
      ∃ column keyAllowed,
        View.Goes (Value.AllKeysItems IsShortKey vs) (u.inner (2 * depth))
          (u.ended tail column keyAllowed (itemTokens isBare vs))

/-- Behind an entry, reading takes the tokens of the further entries and leaves
the block. -/
def ReadsEntries (m : List (String × Value)) : Prop :=
  ∀ (depth : Nat) (u : View) (tail : List Char),
    u.rest = following (entryLines depth m) ++ tail →
    u.brackets = 0 →
    u.indent < ((2 * depth : Nat) : Int) →
    View.Outdented u.indent tail →
      ∃ column keyAllowed,
        View.Goes (Value.AllKeysEntries IsShortKey m) (u.inner (2 * depth))
          (u.ended tail column keyAllowed (entryTokens isBare m))

theorem readsBehind_of_scalar
    {v : Value}
    (h : v.isContainer = false) :
    ReadsBehind v := by
  intro depth u tail hrest hbrackets hindent hinside hout
  obtain ⟨text, flag, htoken, hwritten⟩ := exists_written_inline h
  rw [afterMark_of_scalar h, List.cons_append] at hrest
  have hspace := View.leads_spaces 1 hrest (View.opensToken_of_written hwritten tail)
  have hinsideLeaf : u.indent ≤ ((u.column + 1 : Nat) : Int) := by
    omega
  have hfree : u.keyAllowed = true → u.indent ≠ ((u.column + 1 : Nat) : Int) := by
    omega
  have hleaf := View.leads_leaf
    (v := { u with rest := inline v ++ tail, column := u.column + 1 })
    hwritten hbrackets rfl (hindent ▸ hout) hinsideLeaf hfree
  refine ⟨u.column + 1 + (inline v).length, false, ?_⟩
  have hall : v.AllKeys IsShortKey ↔ True := by
    cases v with
    | str s | null | bool b | int n | float x =>
        simp [Value.AllKeys]
    | seq vs | map m =>
        exact absurd h (by simp [Value.isContainer])
  rw [(tokens_of_scalar _ h).2, htoken, hall]
  exact (hspace.trans hleaf).goes

/-- An item behind its mark, and the further items, in a list that is open. -/
theorem exists_goes_item
    {v : Value}
    {vs : List Value}
    (hv : ReadsBehind v)
    (hvs : ReadsItems vs)
    {depth : Nat}
    {u : View}
    {tail : List Char}
    (hrest : u.rest = afterMark depth v ++ (following (itemLines depth vs) ++ tail))
    (hbrackets : u.brackets = 0)
    (hindent : u.indent < ((2 * depth : Nat) : Int))
    (hcolumn : 2 * depth < u.column)
    (hout : View.Outdented u.indent tail) :
    ∃ column keyAllowed,
      View.Goes (Value.AllKeysItems IsShortKey (v :: vs)) (u.inner (2 * depth))
        (u.ended tail column keyAllowed (blockTokens isBare v ++ itemTokens isBare vs)) := by
  have hinside : ((2 * depth : Nat) : Int) < u.column := by
    omega
  obtain ⟨column, keyAllowed, hitem⟩ := hv depth (u.inner (2 * depth)) _ hrest hbrackets rfl
    hinside (outdented_itemLines depth vs hout (Int.le_of_lt hindent))
  rw [View.inner_ended] at hitem
  obtain ⟨column', keyAllowed', hitems⟩ := hvs depth
    (u.ended (following (itemLines depth vs) ++ tail) column keyAllowed (blockTokens isBare v))
    tail rfl hbrackets hindent hout
  rw [View.ended_ended] at hitems
  refine ⟨column', keyAllowed', ?_⟩
  rw [Value.AllKeysItems]
  exact hitem.trans hitems

/-- The first item opens its list. -/
theorem exists_goes_sequence
    {v : Value}
    {vs : List Value}
    (hv : ReadsBehind v)
    (hvs : ReadsItems vs)
    {depth : Nat}
    {u : View}
    {tail : List Char}
    (hrest : u.rest = '-' :: (afterMark depth v ++ (following (itemLines depth vs) ++ tail)))
    (hbrackets : u.brackets = 0)
    (hkey : u.keyAllowed = true)
    (hindent : u.indent < ((2 * depth : Nat) : Int))
    (hcolumn : u.column = 2 * depth)
    (hout : View.Outdented u.indent tail) :
    ∃ column keyAllowed,
      View.Goes (Value.AllKeysItems IsShortKey (v :: vs)) u
        (u.ended tail column keyAllowed (blockTokens isBare (.seq (v :: vs)))) := by
  have hlt : u.indent < u.column := by
    omega
  have hmark := View.leads_item hbrackets hkey hrest (atGap_afterMark depth v _) (Int.le_of_lt hlt)
  rw [View.enter_of_lt hlt, hcolumn] at hmark
  obtain ⟨column, keyAllowed, hitems⟩ := exists_goes_item hv hvs
    (u := u.ended (afterMark depth v ++ (following (itemLines depth vs) ++ tail)) (2 * depth + 1)
      true [.blockSequenceStart, .blockEntry]) rfl hbrackets hindent (Nat.lt_succ_self _) hout
  rw [View.ended_ended] at hitems
  rw [blockTokens]
  exact ⟨column, keyAllowed, hmark.trans_goes hitems⟩

/-- Further items, in a list that is open. -/
theorem readsItems_cons
    {v : Value}
    {vs : List Value}
    (hv : ReadsBehind v)
    (hvs : ReadsItems vs) :
    ReadsItems (v :: vs) := by
  intro depth u tail hrest hbrackets hindent hout
  rw [following_itemLines, List.cons_append, List.append_assoc, List.cons_append,
    List.append_assoc] at hrest
  have hmark := View.leads_line_item hbrackets hrest (atGap_afterMark depth v _)
  obtain ⟨column, keyAllowed, hitems⟩ := exists_goes_item hv hvs
    (u := u.ended (afterMark depth v ++ (following (itemLines depth vs) ++ tail)) (2 * depth + 1)
      true [.blockEntry]) rfl hbrackets hindent (Nat.lt_succ_self _) hout
  rw [View.ended_ended] at hitems
  rw [itemTokens]
  exact ⟨column, keyAllowed, hmark.trans_goes hitems⟩

/-- Behind the last item the list is closed. -/
theorem readsItems_nil :
    ReadsItems [] := by
  intro depth u tail hrest hbrackets hindent hout
  have hrest : u.rest = tail := hrest
  rw [← hrest] at hout
  have hpop := View.leads_pop_inner hbrackets hindent hout
  refine ⟨u.column, u.keyAllowed, ?_⟩
  rw [itemTokens, ← hrest, Value.AllKeysItems]
  exact hpop.goes

/-- An entry behind its colon, and the further entries, in a mapping that is
open. -/
theorem exists_goes_entry
    {v : Value}
    {m : List (String × Value)}
    (hv : ReadsBehind v)
    (hm : ReadsEntries m)
    {depth : Nat}
    {u : View}
    {tail : List Char}
    (hrest : u.rest = afterMark depth v ++ (following (entryLines depth m) ++ tail))
    (hbrackets : u.brackets = 0)
    (hindent : u.indent < ((2 * depth : Nat) : Int))
    (hcolumn : 2 * depth < u.column)
    (hout : View.Outdented u.indent tail) :
    ∃ column keyAllowed,
      View.Goes (v.AllKeys IsShortKey ∧ Value.AllKeysEntries IsShortKey m) (u.inner (2 * depth))
        (u.ended tail column keyAllowed (blockTokens isBare v ++ entryTokens isBare m)) := by
  have hinside : ((2 * depth : Nat) : Int) < u.column := by
    omega
  obtain ⟨column, keyAllowed, hvalue⟩ := hv depth (u.inner (2 * depth)) _ hrest hbrackets rfl
    hinside (outdented_entryLines depth m hout (Int.le_of_lt hindent))
  rw [View.inner_ended] at hvalue
  obtain ⟨column', keyAllowed', hentries⟩ := hm depth
    (u.ended (following (entryLines depth m) ++ tail) column keyAllowed (blockTokens isBare v))
    tail rfl hbrackets hindent hout
  rw [View.ended_ended] at hentries
  exact ⟨column', keyAllowed', hvalue.trans hentries⟩

/-- The first key opens its mapping. -/
theorem exists_goes_mapping
    {k : String}
    {v : Value}
    {m : List (String × Value)}
    (hv : ReadsBehind v)
    (hm : ReadsEntries m)
    {depth : Nat}
    {u : View}
    {tail : List Char}
    (hrest : u.rest = quoted k.toList ++
      ':' :: (afterMark depth v ++ (following (entryLines depth m) ++ tail)))
    (hbrackets : u.brackets = 0)
    (hkey : u.keyAllowed = true)
    (hindent : u.indent < ((2 * depth : Nat) : Int))
    (hcolumn : u.column = 2 * depth)
    (hout : View.Outdented u.indent tail) :
    ∃ column keyAllowed,
      View.Goes ((Value.map ((k, v) :: m)).AllKeys IsShortKey) u
        (u.ended tail column keyAllowed (blockTokens isBare (.map ((k, v) :: m)))) := by
  have hlt : u.indent < u.column := by
    omega
  have hread := View.goes_key (written_quoted k) hbrackets hkey hrest (atGap_afterMark depth v _)
    (Int.le_of_lt hlt)
  rw [View.enter_of_lt hlt, hcolumn] at hread
  obtain ⟨column, keyAllowed, hentries⟩ := exists_goes_entry hv hm
    (u := u.ended (afterMark depth v ++ (following (entryLines depth m) ++ tail))
      (2 * depth + ((quoted k.toList).length + 1)) false
      (.blockMappingStart :: keyTokens isBare k)) rfl hbrackets hindent
    (Nat.lt_add_of_pos_right (Nat.succ_pos _)) hout
  rw [View.ended_ended] at hentries
  refine ⟨column, keyAllowed, ?_⟩
  rw [blockTokens, List.append_assoc, Value.AllKeys, Value.AllKeysEntries, and_assoc]
  exact hread.trans hentries

/-- Further entries, in a mapping that is open. -/
theorem readsEntries_cons
    {k : String}
    {v : Value}
    {m : List (String × Value)}
    (hv : ReadsBehind v)
    (hm : ReadsEntries m) :
    ReadsEntries ((k, v) :: m) := by
  intro depth u tail hrest hbrackets hindent hout
  rw [following_entryLines, List.cons_append, List.append_assoc, List.append_assoc,
    List.cons_append, List.append_assoc] at hrest
  have hread := View.goes_line_key (written_quoted k) hbrackets hrest (atGap_afterMark depth v _)
  obtain ⟨column, keyAllowed, hentries⟩ := exists_goes_entry hv hm
    (u := u.ended (afterMark depth v ++ (following (entryLines depth m) ++ tail))
      (2 * depth + ((quoted k.toList).length + 1)) false (keyTokens isBare k))
    rfl hbrackets hindent (Nat.lt_add_of_pos_right (Nat.succ_pos _)) hout
  rw [View.ended_ended] at hentries
  refine ⟨column, keyAllowed, ?_⟩
  rw [entryTokens, Value.AllKeysEntries, and_assoc]
  exact hread.trans hentries

/-- Behind the last entry the mapping is closed. -/
theorem readsEntries_nil :
    ReadsEntries [] := by
  intro depth u tail hrest hbrackets hindent hout
  have hrest : u.rest = tail := hrest
  rw [← hrest] at hout
  have hpop := View.leads_pop_inner hbrackets hindent hout
  refine ⟨u.column, u.keyAllowed, ?_⟩
  rw [entryTokens, ← hrest, Value.AllKeysEntries]
  exact hpop.goes

/-- An empty container stands in brackets on a line of its own. -/
theorem readsBehind_empty
    {v : Value}
    {c d : Char}
    {s t : Token}
    (hc : View.Opening c s)
    (hd : View.Closing d t)
    (htext : ∀ depth, afterMark depth v = '\n' :: (indentation (depth + 1) ++ [c, d]))
    (htokens : blockTokens isBare v = [s, t])
    (hkeys : v.AllKeys IsShortKey) :
    ReadsBehind v := by
  intro depth u tail hrest hbrackets hindent hinside hout
  have hopens : opensToken (c :: d :: tail) = true := by
    cases hc <;> rfl
  rw [htext, List.cons_append, List.append_assoc] at hrest
  have hbreak := View.leads_break hbrackets _ hrest hopens
  have hopening := leads_opened (u := u.ended (c :: d :: tail) (2 * (depth + 1)) true []) hc rfl
    (by show u.indent ≤ ((2 * (depth + 1) : Nat) : Int); omega)
    (fun _ _ => by show u.indent ≠ ((2 * (depth + 1) : Nat) : Int); omega)
  have hclosing := leads_closed
    (u := (u.ended (c :: d :: tail) (2 * (depth + 1)) true []).opened (d :: tail) s) hd rfl rfl
  rw [View.opened_closed] at hclosing
  refine ⟨2 * (depth + 1) + 2, false, ?_⟩
  have hall : v.AllKeys IsShortKey ↔ True :=
    iff_true_intro hkeys
  rw [htokens, hall]
  exact (hbreak.trans (hopening.trans hclosing)).goes

/-- A list below its mark. -/
theorem readsBehind_seq
    {v : Value}
    {vs : List Value}
    (hv : ReadsBehind v)
    (hvs : ReadsItems vs) :
    ReadsBehind (.seq (v :: vs)) := by
  intro depth u tail hrest hbrackets hindent hinside hout
  rw [afterMark_of_container rfl, blockLines, following_itemLines, List.cons_append, List.append_assoc,
    List.cons_append, List.append_assoc] at hrest
  have hbreak := View.leads_break hbrackets _ hrest rfl
  obtain ⟨column, keyAllowed, hread⟩ := exists_goes_sequence hv hvs
    (u := u.ended ('-' :: (afterMark (depth + 1) v ++
      (following (itemLines (depth + 1) vs) ++ tail))) (2 * (depth + 1)) true [])
    rfl hbrackets rfl (by show u.indent < ((2 * (depth + 1) : Nat) : Int); omega) rfl
    (by show View.Outdented u.indent tail; rw [hindent]; exact hout)
  rw [View.ended_ended] at hread
  rw [Value.AllKeys]
  exact ⟨column, keyAllowed, hbreak.trans_goes hread⟩

/-- A mapping below its mark. -/
theorem readsBehind_map
    {k : String}
    {v : Value}
    {m : List (String × Value)}
    (hv : ReadsBehind v)
    (hm : ReadsEntries m) :
    ReadsBehind (.map ((k, v) :: m)) := by
  intro depth u tail hrest hbrackets hindent hinside hout
  rw [afterMark_of_container rfl, blockLines, following_entryLines, List.cons_append, List.append_assoc,
    List.append_assoc, List.cons_append, List.append_assoc] at hrest
  have hbreak := View.leads_break hbrackets _ hrest
    (View.opensToken_of_written (written_quoted k) _)
  obtain ⟨column, keyAllowed, hread⟩ := exists_goes_mapping hv hm
    (u := u.ended (quoted k.toList ++ ':' :: (afterMark (depth + 1) v ++
      (following (entryLines (depth + 1) m) ++ tail))) (2 * (depth + 1)) true [])
    rfl hbrackets rfl (by show u.indent < ((2 * (depth + 1) : Nat) : Int); omega) rfl
    (by show View.Outdented u.indent tail; rw [hindent]; exact hout)
  rw [View.ended_ended] at hread
  exact ⟨column, keyAllowed, hbreak.trans_goes hread⟩

mutual

/-- Behind its mark a value is read as its tokens. -/
theorem readsBehind
    (v : Value) :
    ReadsBehind v := by
  match v with
  | .str _ | .null | .bool _ | .int _ | .float _ =>
      exact readsBehind_of_scalar rfl
  | .seq [] =>
      refine readsBehind_empty .sequence .sequence (fun depth => ?_) (by rw [blockTokens]) trivial
      rw [afterMark_of_container rfl, blockLines, following_cons, following, List.flatMap_nil,
        List.append_nil]
  | .seq (v :: vs) =>
      exact readsBehind_seq (readsBehind v) (readsItems vs)
  | .map [] =>
      refine readsBehind_empty .mapping .mapping (fun depth => ?_) (by rw [blockTokens]) trivial
      rw [afterMark_of_container rfl, blockLines, following_cons, following, List.flatMap_nil,
        List.append_nil]
  | .map ((k, v) :: m) =>
      exact readsBehind_map (readsBehind v) (readsEntries m)

theorem readsItems
    (vs : List Value) :
    ReadsItems vs := by
  match vs with
  | [] =>
      exact readsItems_nil
  | v :: vs =>
      exact readsItems_cons (readsBehind v) (readsItems vs)

theorem readsEntries
    (m : List (String × Value)) :
    ReadsEntries m := by
  match m with
  | [] =>
      exact readsEntries_nil
  | (k, v) :: m =>
      exact readsEntries_cons (readsBehind v) (readsEntries m)

end

end Reading

end Render

end Dashboard

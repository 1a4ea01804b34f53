import Dashboard.Proofs.Yaml.Moves
import Dashboard.Yaml.Node
import Mathlib.Data.List.Infix

/-!
# Brackets among the tokens

A reader of nodes that has opened a bracket goes on to the bracket that closes
it, as a count of brackets finds it.  There is one exception: behind the mark of
a key, where the key is missing, the reader of an item between square brackets
takes the next token with it, and this may be the closing one.
-/

namespace Dashboard.Yaml

/-- How deep in brackets the text is behind a token, when it is `m` deep before. -/
def Token.nest (m : Nat) : Token → Option Nat
  | .flowSequenceStart | .flowMappingStart => some (m + 1)
  | .flowSequenceEnd | .flowMappingEnd =>
    match m with
    | 0 => none
    | m + 1 => some m
  | _ => some m

/-- How deep in brackets the text is behind some tokens; nothing when they close
more brackets than are open. -/
def nesting (m : Nat) (ts : List Token) : Option Nat :=
  ts.foldlM Token.nest m

section Nesting

variable {b : Bracket}
variable {m n : Nat}
variable {t : Token}
variable {ts us vs : List Token}

theorem nesting_append :
    nesting m (ts ++ us) = (nesting m ts).bind fun n => nesting n us :=
  List.foldlM_append

theorem nesting_cons :
    nesting m (t :: ts) = (t.nest m).bind fun n => nesting n ts :=
  List.foldlM_cons

@[simp]
theorem nest_opening :
    b.opening.nest m = some (m + 1) := by
  cases b <;> rfl

@[simp]
theorem nest_closing_zero :
    b.closing.nest 0 = none := by
  cases b <;> rfl

@[simp]
theorem nest_closing_succ :
    b.closing.nest (m + 1) = some m := by
  cases b <;> rfl

/-- Neither a scalar nor a mark changes the depth. -/
theorem nest_of_isMark
    (h : t.isMark = true) :
    t.nest m = some m := by
  cases t <;> first | rfl | cases h

/-- All brackets in the tokens are closed in them, and opened. -/
def Balanced (ts : List Token) : Prop :=
  ∀ m, nesting m ts = some m

theorem balanced_nil :
    Balanced [] :=
  fun _ => rfl

theorem Balanced.append
    (ht : Balanced ts)
    (hu : Balanced us) :
    Balanced (ts ++ us) := by
  intro m
  rw [nesting_append, ht m, Option.bind_some, hu m]

theorem Balanced.brackets
    (b : Bracket)
    (h : Balanced ts) :
    Balanced (b.opening :: ts ++ [b.closing]) := by
  intro m
  rw [List.cons_append, nesting_cons, nest_opening, Option.bind_some, nesting_append, h (m + 1),
    Option.bind_some, nesting_cons, nest_closing_succ]
  rfl

theorem balanced_scalar
    (text : String)
    (plain : Bool) :
    Balanced [.scalar text plain] :=
  fun _ => rfl

/-- The bracket that closes an open one is found in one place only. -/
theorem eq_of_nesting
    {b c : Bracket}
    (ht : nesting 0 ts = some 0)
    (hu : nesting 0 us = some 0)
    {ts' us' : List Token}
    (heq : ts ++ b.closing :: ts' = us ++ c.closing :: us') :
    ts = us ∧ b.closing :: ts' = c.closing :: us' := by
  have hshort : ∀ {xs ys : List Token} {d : Bracket}, nesting 0 xs = some 0 →
      nesting 0 (xs ++ d.closing :: ys) = none := by
    intro xs ys d hxs
    rw [nesting_append, hxs, Option.bind_some, nesting_cons, nest_closing_zero]
    rfl
  rcases List.append_eq_append_iff.1 heq with ⟨xs, rfl, hxs⟩ | ⟨xs, rfl, hxs⟩
  · cases xs with
    | nil =>
        exact ⟨(List.append_nil ts).symm, hxs⟩
    | cons x xs =>
        cases hxs
        rw [hshort ht] at hu
        cases hu
  · cases xs with
    | nil =>
        exact ⟨List.append_nil us, hxs.symm⟩
    | cons x xs =>
        cases hxs
        rw [hshort hu] at ht
        cases ht

/-! ## What a reader takes -/

/-- The tokens up to `us` hold closed brackets only. -/
def Spans (ts us : List Token) : Prop :=
  ∃ taken, ts = taken ++ us ∧ Balanced taken

/-- The tokens up to `us` hold closed brackets, and close one at last. -/
def Closes (b : Bracket) (ts us : List Token) : Prop :=
  ∃ taken, ts = taken ++ b.closing :: us ∧ Balanced taken

/-- The mark of a key stands directly before a closing square bracket. -/
def HasLoneKey (ts : List Token) : Prop :=
  [.key, .flowSequenceEnd] <:+: ts

instance : DecidablePred HasLoneKey :=
  fun ts => inferInstanceAs (Decidable (_ <:+: ts))

theorem Spans.refl
    (ts : List Token) :
    Spans ts ts :=
  ⟨[], rfl, balanced_nil⟩

theorem Spans.trans
    (h : Spans ts us)
    (h' : Spans us vs) :
    Spans ts vs := by
  obtain ⟨xs, rfl, hxs⟩ := h
  obtain ⟨ys, rfl, hys⟩ := h'
  exact ⟨xs ++ ys, (List.append_assoc xs ys vs).symm, hxs.append hys⟩

theorem spans_cons
    (h : Balanced [t])
    (ts : List Token) :
    Spans (t :: ts) ts :=
  ⟨[t], rfl, h⟩

theorem Spans.of_closes
    (h : Closes b ts us) :
    Spans (b.opening :: ts) us := by
  obtain ⟨xs, rfl, hxs⟩ := h
  exact ⟨b.opening :: xs ++ [b.closing], by simp, hxs.brackets b⟩

theorem closes_cons
    (b : Bracket)
    (ts : List Token) :
    Closes b (b.closing :: ts) ts :=
  ⟨[], rfl, balanced_nil⟩

theorem Spans.closes
    (h : Spans ts us)
    (h' : Closes b us vs) :
    Closes b ts vs := by
  obtain ⟨xs, rfl, hxs⟩ := h
  obtain ⟨ys, rfl, hys⟩ := h'
  exact ⟨xs ++ ys, (List.append_assoc xs ys _).symm, hxs.append hys⟩

theorem Spans.not_hasLoneKey
    (h : Spans ts us)
    (hts : ¬HasLoneKey ts) :
    ¬HasLoneKey us := by
  obtain ⟨xs, rfl, -⟩ := h
  exact fun hus => hts (hus.trans (List.suffix_append xs us).isInfix)

theorem not_hasLoneKey_tail
    (h : ¬HasLoneKey (t :: ts)) :
    ¬HasLoneKey ts :=
  fun hts => h (hts.trans (List.suffix_cons t ts).isInfix)

end Nesting

namespace Node

variable {handles : Handles}
variable {steps : Nat}

theorem spans_of_readProperties?
    {anchors : Anchors}
    {ts : List Token}
    {r : Remaining Properties}
    (h : readProperties? handles anchors ts = some r) :
    Spans ts r.tokens := by
  have hanchor : ∀ name, Balanced [.anchor name] :=
    fun _ _ => rfl
  have htag : ∀ handle suffix, Balanced [.tag handle suffix] :=
    fun _ _ _ => rfl
  rw [readProperties?.eq_def] at h
  split at h
  · simp only [Option.bind_eq_bind, Option.bind_eq_some_iff, Option.pure_def,
      Option.some.injEq] at h
    obtain ⟨_, _, rfl⟩ := h
    exact (spans_cons (hanchor _) _).trans (spans_cons (htag _ _) _)
  · cases h
    exact spans_cons (hanchor _) _
  · simp only [Option.bind_eq_bind, Option.bind_eq_some_iff, Option.pure_def,
      Option.some.injEq] at h
    obtain ⟨_, _, rfl⟩ := h
    exact (spans_cons (htag _ _) _).trans (spans_cons (hanchor _) _)
  · simp only [Option.bind_eq_bind, Option.bind_eq_some_iff, Option.pure_def,
      Option.some.injEq] at h
    obtain ⟨_, _, rfl⟩ := h
    exact spans_cons (htag _ _) _
  · cases h
    exact Spans.refl _

/-- What the readers between brackets take, with a number of steps: nodes in
which all brackets are closed, and at last the closing bracket. -/
structure FlowReads (handles : Handles) (steps : Nat) : Prop where
  node : ∀ {anchors ts r}, ¬HasLoneKey ts →
    read? handles steps false false anchors ts = some r → Spans ts r.tokens
  item : ∀ {anchors ts r}, ¬HasLoneKey ts →
    readFlowItem? handles steps anchors ts = some r → Spans ts r.tokens
  entry : ∀ {anchors ts r}, ¬HasLoneKey ts →
    readFlowEntry? handles steps anchors ts = some r → Spans ts r.tokens
  items : ∀ {first anchors ts r}, ¬HasLoneKey ts →
    readFlowItems? handles steps first anchors ts = some r → Closes .square ts r.tokens
  entries : ∀ {first anchors ts r}, ¬HasLoneKey ts →
    readFlowEntries? handles steps first anchors ts = some r → Closes .brace ts r.tokens

theorem FlowReads.node_succ
    (ih : FlowReads handles steps)
    {anchors : Anchors}
    {ts : List Token}
    {r : Remaining Node}
    (hlone : ¬HasLoneKey ts)
    (h : read? handles (steps + 1) false false anchors ts = some r) :
    Spans ts r.tokens := by
  rw [read?.eq_def] at h
  split at h
  · next heq => cases heq
  · next heq =>
      cases heq
      simp only [Option.bind_eq_bind, Option.bind_eq_some_iff, Option.pure_def,
        Option.some.injEq] at h
      obtain ⟨_, _, rfl⟩ := h
      exact spans_cons (fun _ => rfl) _
  · next heq _ =>
      cases heq
      simp only [Option.bind_eq_bind, Option.bind_eq_some_iff] at h
      obtain ⟨⟨p, anchors', us⟩, hproperties, h⟩ := h
      have hus := spans_of_readProperties? hproperties
      have hlone' := hus.not_hasLoneKey hlone
      dsimp only at h hus hlone'
      refine hus.trans ?_
      split at h
      · cases h
        exact spans_cons (balanced_scalar _ _) _
      · simp only [Option.bind_eq_some_iff, Option.pure_def, Option.some.injEq] at h
        obtain ⟨_, hitems, rfl⟩ := h
        exact Spans.of_closes (ih.items (not_hasLoneKey_tail hlone') hitems)
      · simp only [Option.bind_eq_some_iff, Option.pure_def, Option.some.injEq] at h
        obtain ⟨_, hentries, rfl⟩ := h
        exact Spans.of_closes (ih.entries (not_hasLoneKey_tail hlone') hentries)
      -- a block where none may start, like any other token, is left to what follows
      case h_7 =>
          split at h
          · cases h
          · cases h
            exact Spans.refl _
      all_goals
        simp only [Bool.false_eq_true, if_false] at h
        split at h
        · cases h
        · cases h
          exact Spans.refl _

/-- An item between square brackets, of which the key has been read. -/
def itemBehindKey? (handles : Handles) (steps : Nat) (key : Remaining Node) :
    Option (Remaining Node) := do
  let ⟨value, anchors, ts⟩ ← match key.tokens with
    | .value :: ts =>
      match ts with
      | .flowEntry :: _ | .flowSequenceEnd :: _ => some ⟨empty {}, key.anchors, ts⟩
      | _ => read? handles steps false false key.anchors ts
    | _ => some ⟨empty {}, key.anchors, key.tokens⟩
  return ⟨.map {} [(key.result, value)], anchors, ts⟩

/-- An entry between braces, of which the key has been read. -/
def entryBehindKey? (handles : Handles) (steps : Nat) (key : Remaining Node) :
    Option (Remaining (Node × Node)) := do
  let ⟨value, anchors, ts⟩ ← match key.tokens with
    | .value :: ts =>
      match ts with
      | .flowEntry :: _ | .flowMappingEnd :: _ => some ⟨empty {}, key.anchors, ts⟩
      | _ => read? handles steps false false key.anchors ts
    | _ => some ⟨empty {}, key.anchors, key.tokens⟩
  return ⟨(key.result, value), anchors, ts⟩

theorem FlowReads.itemBehindKey
    (ih : FlowReads handles steps)
    {key r : Remaining Node}
    (hlone : ¬HasLoneKey key.tokens)
    (h : itemBehindKey? handles steps key = some r) :
    Spans key.tokens r.tokens := by
  rw [itemBehindKey?] at h
  generalize key.tokens = ts at h hlone ⊢
  split at h
  · refine (spans_cons (fun _ => rfl) _).trans ?_
    split at h
    · cases h
      exact Spans.refl _
    · cases h
      exact Spans.refl _
    · obtain ⟨value, hvalue, hr⟩ := Option.bind_eq_some_iff.1 h
      cases hr
      have hspans := ih.node (not_hasLoneKey_tail hlone) hvalue
      exact hspans
  · cases h
    exact Spans.refl _

theorem FlowReads.entryBehindKey
    (ih : FlowReads handles steps)
    {key : Remaining Node}
    {r : Remaining (Node × Node)}
    (hlone : ¬HasLoneKey key.tokens)
    (h : entryBehindKey? handles steps key = some r) :
    Spans key.tokens r.tokens := by
  rw [entryBehindKey?] at h
  generalize key.tokens = ts at h hlone ⊢
  split at h
  · refine (spans_cons (fun _ => rfl) _).trans ?_
    split at h
    · cases h
      exact Spans.refl _
    · cases h
      exact Spans.refl _
    · obtain ⟨value, hvalue, hr⟩ := Option.bind_eq_some_iff.1 h
      cases hr
      have hspans := ih.node (not_hasLoneKey_tail hlone) hvalue
      exact hspans
  · cases h
    exact Spans.refl _

theorem FlowReads.item_succ
    (ih : FlowReads handles steps)
    {anchors : Anchors}
    {ts : List Token}
    {r : Remaining Node}
    (hlone : ¬HasLoneKey ts)
    (h : readFlowItem? handles (steps + 1) anchors ts = some r) :
    Spans ts r.tokens := by
  rw [readFlowItem?.eq_def] at h
  dsimp only at h
  split at h
  · next us =>
      have hus := not_hasLoneKey_tail hlone
      suffices hkey : ∃ key, Spans us key.tokens ∧ itemBehindKey? handles steps key = some r by
        obtain ⟨key, hspans, hkey⟩ := hkey
        have hbehind := ih.itemBehindKey (hspans.not_hasLoneKey hus) hkey
        exact (spans_cons (fun _ => rfl) us).trans (hspans.trans hbehind)
      split at h
      · exact ⟨⟨empty {}, anchors, _⟩, spans_cons (fun _ => rfl) _, h⟩
      · exact ⟨⟨empty {}, anchors, _⟩, spans_cons (fun _ => rfl) _, h⟩
      · next vs =>
          have hprefix : [.key, .flowSequenceEnd] <+: Token.key :: Token.flowSequenceEnd :: vs :=
            List.prefix_append _ vs
          exact absurd hprefix.isInfix hlone
      · obtain ⟨key, hkey, h⟩ := Option.bind_eq_some_iff.1 h
        exact ⟨key, ih.node hus hkey, h⟩
  · exact ih.node hlone h

theorem FlowReads.entry_succ
    (ih : FlowReads handles steps)
    {anchors : Anchors}
    {ts : List Token}
    {r : Remaining (Node × Node)}
    (hlone : ¬HasLoneKey ts)
    (h : readFlowEntry? handles (steps + 1) anchors ts = some r) :
    Spans ts r.tokens := by
  rw [ readFlowEntry?.eq_def] at h
  dsimp only at h
  split at h
  · next us =>
      have hus := not_hasLoneKey_tail hlone
      suffices hkey : ∃ key, Spans us key.tokens ∧ entryBehindKey? handles steps key = some r by
        obtain ⟨key, hspans, hkey⟩ := hkey
        have hbehind := ih.entryBehindKey (hspans.not_hasLoneKey hus) hkey
        exact (spans_cons (fun _ => rfl) us).trans (hspans.trans hbehind)
      split at h
      · exact ⟨⟨empty {}, anchors, _⟩, Spans.refl _, h⟩
      · exact ⟨⟨empty {}, anchors, _⟩, Spans.refl _, h⟩
      · exact ⟨⟨empty {}, anchors, _⟩, Spans.refl _, h⟩
      · obtain ⟨key, hkey, h⟩ := Option.bind_eq_some_iff.1 h
        exact ⟨key, ih.node hus hkey, h⟩
  · obtain ⟨key, hkey, h⟩ := Option.bind_eq_some_iff.1 h
    cases h
    have hspans := ih.node hlone hkey
    exact hspans

theorem FlowReads.items_succ
    (ih : FlowReads handles steps)
    {first : Bool}
    {anchors : Anchors}
    {ts : List Token}
    {r : Remaining (List Node)}
    (hlone : ¬HasLoneKey ts)
    (h : readFlowItems? handles (steps + 1) first anchors ts = some r) :
    Closes .square ts r.tokens := by
  rw [readFlowItems?.eq_def] at h
  dsimp only at h
  split at h
  · cases h
    exact closes_cons .square _
  · cases h
    exact (spans_cons (fun _ => rfl) _).closes (closes_cons .square _)
  · next us _ =>
      have hus := not_hasLoneKey_tail hlone
      simp only [Option.bind_eq_bind, Option.bind_eq_some_iff] at h
      obtain ⟨⟨item, anchors', vs⟩, hitem, ⟨items, anchors'', ws⟩, hitems, h⟩ := h
      cases h
      have hvs := ih.item hus hitem
      have hws := ih.items (hvs.not_hasLoneKey hus) hitems
      exact (spans_cons (fun _ => rfl) us).closes (hvs.closes hws)
  · simp only [Option.bind_eq_bind, Option.bind_eq_some_iff] at h
    obtain ⟨⟨item, anchors', vs⟩, hitem, ⟨items, anchors'', ws⟩, hitems, h⟩ := h
    cases h
    have hvs := ih.item hlone hitem
    have hws := ih.items (hvs.not_hasLoneKey hlone) hitems
    exact hvs.closes hws
  · cases h

theorem FlowReads.entries_succ
    (ih : FlowReads handles steps)
    {first : Bool}
    {anchors : Anchors}
    {ts : List Token}
    {r : Remaining (List (Node × Node))}
    (hlone : ¬HasLoneKey ts)
    (h : readFlowEntries? handles (steps + 1) first anchors ts = some r) :
    Closes .brace ts r.tokens := by
  rw [readFlowEntries?.eq_def] at h
  dsimp only at h
  split at h
  · cases h
    exact closes_cons .brace _
  · cases h
    exact (spans_cons (fun _ => rfl) _).closes (closes_cons .brace _)
  · next us _ =>
      have hus := not_hasLoneKey_tail hlone
      simp only [Option.bind_eq_bind, Option.bind_eq_some_iff] at h
      obtain ⟨⟨entry, anchors', vs⟩, hentry, ⟨entries, anchors'', ws⟩, hentries, h⟩ := h
      cases h
      have hvs := ih.entry hus hentry
      have hws := ih.entries (hvs.not_hasLoneKey hus) hentries
      exact (spans_cons (fun _ => rfl) us).closes (hvs.closes hws)
  · simp only [Option.bind_eq_bind, Option.bind_eq_some_iff] at h
    obtain ⟨⟨entry, anchors', vs⟩, hentry, ⟨entries, anchors'', ws⟩, hentries, h⟩ := h
    cases h
    have hvs := ih.entry hlone hentry
    have hws := ih.entries (hvs.not_hasLoneKey hlone) hentries
    exact hvs.closes hws
  · cases h

theorem flowReads
    (handles : Handles)
    (steps : Nat) :
    FlowReads handles steps := by
  induction steps with
  | zero =>
      constructor <;> intros <;> rename_i h <;> cases h
  | succ steps ih =>
      exact ⟨ih.node_succ, ih.item_succ, ih.entry_succ, ih.items_succ, ih.entries_succ⟩

/-- A node that opens with a bracket is read to the bracket that closes it. -/
theorem closes_of_read?
    {b : Bracket}
    {block indentless : Bool}
    {anchors : Anchors}
    {ts : List Token}
    {r : Remaining Node}
    (hlone : ¬HasLoneKey ts)
    (h : read? handles steps block indentless anchors (b.opening :: ts) = some r) :
    Closes b ts r.tokens := by
  cases steps with
  | zero =>
      cases h
  | succ steps =>
      cases b
      · simp only [Bracket.opening, read?, readProperties?, Option.bind_eq_bind, Option.bind_some,
          Option.bind_eq_some_iff, Option.pure_def, Option.some.injEq] at h
        obtain ⟨_, hitems, rfl⟩ := h
        exact (flowReads handles steps).items hlone hitems
      · simp only [Bracket.opening, read?, readProperties?, Option.bind_eq_bind, Option.bind_some,
          Option.bind_eq_some_iff, Option.pure_def, Option.some.injEq] at h
        obtain ⟨_, hentries, rfl⟩ := h
        exact (flowReads handles steps).entries hlone hentries

end Node

end Dashboard.Yaml

import Dashboard.Proofs.Yaml.Brackets

/-!
# What the first tokens say of a document

The node of a document is told by the tokens it opens with: only a scalar, an
anchor, a tag or a mark of the document can open one that is a scalar, and one
that opens with a bracket ends where that is closed, unless it is made a key.
-/

namespace Dashboard.Yaml

namespace Token

/-- The directives, the mark of the start and the end of the text, which come
before a node or without one. -/
def isPreamble : Token → Bool
  | .versionDirective .. | .tagDirective .. | .documentStart | .streamEnd => true
  | _ => false

/-- The tokens of which no scalar is made: neither preambles, nor properties of
nodes, nor scalars and what stands for them. -/
def isStructural : Token → Bool
  | .versionDirective .. | .tagDirective .. | .documentStart | .streamEnd => false
  | .alias _ | .anchor _ | .tag .. | .scalar .. => false
  | _ => true

theorem isPreamble_of_isStructural
    {t : Token}
    (h : t.isStructural = true) :
    t.isPreamble = false := by
  cases t <;> first | rfl | cases h

end Token

namespace Node

variable {b : Bracket}
variable {n : Node}
variable {t : Token}
variable {ts : List Token}

/-- A document without preamble is a node and the end of the text. -/
theorem readDocument?_eq_bind
    (ht : t.isPreamble = false) :
    readDocument? (t :: ts) =
      (read? defaultHandles (4 * (t :: ts).length + 4) true false [] (t :: ts)).bind fun r =>
        if endsStream r.tokens then some (some r.result) else none := by
  rw [readDocument?.eq_def]
  cases t <;> first | rfl | cases ht

theorem exists_of_readDocument?
    (ht : t.isPreamble = false)
    (h : readDocument? (t :: ts) = some (some n)) :
    ∃ steps r, read? defaultHandles (steps + 1) true false [] (t :: ts) = some r ∧
      r.result = n ∧ endsStream r.tokens = true := by
  rw [readDocument?_eq_bind ht] at h
  obtain ⟨r, hr, h⟩ := Option.bind_eq_some_iff.1 h
  split at h
  · next hends =>
      exact ⟨_, r, hr, Option.some.inj (Option.some.inj h), hends⟩
  · cases h

/-- A directive alone is no document. -/
theorem readDocument?_directive
    (h : IsDirective t) :
    readDocument? [t, .streamEnd] = none := by
  rcases h with ⟨major, minor, rfl⟩ | ⟨handle, text, rfl⟩
  · simp only [readDocument?, readDirectives?]
    split <;> rfl
  · rfl

theorem ne_scalar_of_isStructural
    (ht : t.isStructural = true)
    (h : readDocument? (t :: ts) = some (some n))
    (p : Properties)
    (text : String)
    (plain : Bool) :
    n ≠ .scalar p text plain := by
  obtain ⟨steps, r, hr, rfl, -⟩ := exists_of_readDocument? (Token.isPreamble_of_isStructural ht) h
  cases t with
  | versionDirective | tagDirective | documentStart | streamEnd | «alias» | anchor | tag | scalar =>
      cases ht
  | flowSequenceStart | flowMappingStart | blockSequenceStart | blockMappingStart =>
      simp only [read?, readProperties?, Option.bind_eq_bind, Option.bind_some, if_true,
        Option.bind_eq_some_iff, Option.pure_def, Option.some.injEq] at hr
      obtain ⟨_, -, rfl⟩ := hr
      rintro ⟨⟩
  | documentEnd | blockEnd | flowSequenceEnd | flowMappingEnd | blockEntry | flowEntry | key
  | value =>
      simp [read?, readProperties?] at hr

/-- A document that opens with a bracket ends where that is closed. -/
theorem closes_of_readDocument?
    (hlone : ¬HasLoneKey ts)
    (h : readDocument? (b.opening :: ts) = some (some n)) :
    ∃ us, Closes b ts us ∧ endsStream us = true := by
  have hb : b.opening.isPreamble = false := by
    cases b <;> rfl
  obtain ⟨steps, r, hr, -, hends⟩ := exists_of_readDocument? hb h
  exact ⟨r.tokens, closes_of_read? hlone hr, hends⟩

/-- A document that opens with the mark of a key is none. -/
theorem readDocument?_key :
    readDocument? (.key :: ts) = none := by
  rw [readDocument?_eq_bind rfl]
  rfl

/-- Behind a key of a block stands the colon, the next key or the end of the
block. -/
theorem exists_behind_blockKey
    {handles : Handles}
    {steps : Nat}
    {anchors : Anchors}
    {value : Remaining Node}
    {entries : Remaining (List (Node × Node))}
    (hvalue : readBlockValue? handles steps anchors ts = some value)
    (hentries : readBlockEntries? handles steps value.anchors value.tokens = some entries) :
    ∃ u us, ts = u :: us ∧ (u = .value ∨ u = .key ∨ u = .blockEnd) := by
  cases steps with
  | zero =>
      cases hvalue
  | succ steps =>
      rw [readBlockValue?.eq_def] at hvalue
      dsimp only at hvalue
      split at hvalue
      · exact ⟨_, _, rfl, .inl rfl⟩
      · cases hvalue
        rw [readBlockEntries?.eq_def] at hentries
        dsimp only at hentries
        split at hentries
        · exact ⟨_, _, rfl, .inr (.inl rfl)⟩
        · exact ⟨_, _, rfl, .inr (.inr rfl)⟩
        · cases hentries

/-- When what opens with a bracket is made a key, one of these comes behind the
closing one. -/
theorem closes_of_readDocument?_key
    (hlone : ¬HasLoneKey ts)
    (h : readDocument? (.blockMappingStart :: .key :: b.opening :: ts) = some (some n)) :
    ∃ u us, Closes b ts (u :: us) ∧ (u = .value ∨ u = .key ∨ u = .blockEnd) := by
  obtain ⟨steps, r, hr, -, -⟩ := exists_of_readDocument? rfl h
  simp only [read?, readProperties?, Option.bind_eq_bind, Option.bind_some, if_true,
    Option.bind_eq_some_iff] at hr
  obtain ⟨entries, hentries, -⟩ := hr
  cases steps with
  | zero =>
      cases hentries
  | succ steps =>
      have hparts : ∃ key value rest,
          read? defaultHandles steps true true [] (b.opening :: ts) = some key ∧
            readBlockValue? defaultHandles steps key.anchors key.tokens = some value ∧
            readBlockEntries? defaultHandles steps value.anchors value.tokens = some rest := by
        rw [readBlockEntries?.eq_def] at hentries
        cases b
        all_goals
          simp only [Bracket.opening, Option.bind_eq_bind, Option.bind_eq_some_iff] at hentries ⊢
          obtain ⟨key, hkey, value, hvalue, rest, hrest, -⟩ := hentries
          exact ⟨key, value, rest, hkey, hvalue, hrest⟩
      obtain ⟨key, value, rest, hkey, hvalue, hrest⟩ := hparts
      obtain ⟨u, us, heq, hu⟩ := exists_behind_blockKey hvalue hrest
      exact ⟨u, us, heq ▸ closes_of_read? hlone hkey, hu⟩

end Node

end Dashboard.Yaml

import Dashboard.Log.Event
import Dashboard.Text.Blank

/-!
# Which events are written

A filter is a list of rules between commas.  A rule is a level, the name of a
source, or `source=level`; an event is written when the rule with the longest
name that its source starts with lets its level pass.  Levels have names or
the numbers 0 to 5.  A text that is no filter is treated as if there was none.
-/

namespace Dashboard.Log

/-- Events up to a rank pass, of a source or of all. -/
structure Rule where
  source : Option String
  rank : Nat
deriving DecidableEq, Repr

/-- Rules in the order they were given. -/
structure Filter where
  rules : List Rule
deriving DecidableEq, Repr

namespace Rule

/-- The names of the levels by rank. -/
def levelNames : List String :=
  ["off", "error", "warn", "info", "debug", "trace"]

/-- The rank that a text names. -/
def rank? (text : String) : Option Nat :=
  match text.toList with
  | [c] => if '0' ≤ c ∧ c ≤ '5' then some (c.toNat - '0'.toNat) else none
  | cs => levelNames.findIdx? fun name => name.toList == cs.map Char.toLower

/-- The characters that a rule may start with. -/
def opens (c : Char) : Bool :=
  c == '-' || c == ':' || c == '_' || c.isAlphanum || 0x7F < c.toNat

/-- The rule that a text spells; without a level it lets everything pass. -/
def read? (text : String) : Option Rule :=
  let cs := text.toList
  if !cs.head?.any opens then none
  else
    let (source, level) := cs.span (· != '=')
    match level with
    | [] =>
      match rank? text with
      | some rank => some ⟨none, rank⟩
      | none => some ⟨some text, 5⟩
    | _ :: [] => some ⟨some (String.ofList source), 5⟩
    | _ :: level =>
      (rank? (String.ofList level)).map fun rank => ⟨some (String.ofList source), rank⟩

/-- The rule applies to events of a source. -/
def applies (r : Rule) (source : String) : Bool :=
  match r.source with
  | none => true
  | some s => s.toList.isPrefixOf source.toList

/-- How special a rule is: the longer its name, the more. -/
def weight (r : Rule) : Nat :=
  match r.source with
  | none => 0
  | some s => s.utf8ByteSize + 1

end Rule

namespace Filter

/-- The filter that lets events up to a level pass. -/
def upTo (s : Severity) : Filter :=
  ⟨[⟨none, s.rank⟩]⟩

/-- The filter that a text spells; a text without rules lets errors pass. -/
def read? (text : String) : Option Filter := do
  let pieces := (text.splitOn ",").filter fun p => !p.isEmpty
  let rules ← pieces.mapM fun p => Rule.read? (Text.trim p)
  return if rules.isEmpty then upTo .error else ⟨rules⟩

/-- The rule that decides about a source: the most special one, and of two
alike the later. -/
def ruleFor (f : Filter) (source : String) : Option Rule :=
  (f.rules.filter fun r => r.applies source).foldl (fun best r =>
    match best with
    | some b => if b.weight ≤ r.weight then some r else some b
    | none => some r) none

/-- An event is written. -/
def passes (f : Filter) (e : Event) : Bool :=
  match f.ruleFor e.source with
  | some r => e.severity.rank ≤ r.rank
  | none => false

end Filter

end Dashboard.Log

/-!
# Tokens of a YAML text

A text is first cut into tokens: marks of the document, starts and ends of
collections, entry and key marks, properties of nodes, and scalars.  Starts
and ends of blocks, which only the indentation shows, are tokens of their own.
-/

namespace Dashboard.Yaml

/-- A token. -/
inductive Token where
  | versionDirective (major minor : Nat)
  | tagDirective (handle tagPrefix : String)
  | documentStart
  | documentEnd
  | blockSequenceStart
  | blockMappingStart
  | blockEnd
  | flowSequenceStart
  | flowSequenceEnd
  | flowMappingStart
  | flowMappingEnd
  | blockEntry
  | flowEntry
  | key
  | value
  | alias (name : String)
  | anchor (name : String)
  | tag (handle suffix : String)
  | scalar (text : String) (plain : Bool)
  | streamEnd
deriving DecidableEq, Repr

end Dashboard.Yaml

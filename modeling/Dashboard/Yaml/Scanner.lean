import Dashboard.Yaml.Property
import Dashboard.Yaml.Scalar.Block
import Dashboard.Yaml.Scalar.Plain
import Dashboard.Yaml.Scalar.Quoted

/-!
# From text to tokens

Every step skips blanks and comments, closes the blocks that the new column
ends, and takes one token.  A key that is not marked as one shows only at the
colon behind it.  So wherever a key may start, the place is remembered as a
candidate, one for each open bracket; when the colon comes, the key mark is
put in front of the tokens taken since.  A candidate lapses at the end of its
line and after 1024 characters.
-/

namespace Dashboard.Yaml

/-- A place where a key may have started. -/
structure Candidate where
  /-- The block structure leaves no other reading than a key. -/
  required : Bool
  /-- How many tokens were taken before. -/
  tokenCount : Nat
  index : Nat
  line : Nat
  column : Nat
deriving DecidableEq, Repr

/-- What has been read so far. -/
structure Scanner where
  cursor : Cursor
  /-- The column of the innermost open block, `-1` outside all blocks. -/
  indent : Int := -1
  /-- The columns of the blocks around it. -/
  outer : List Int := []
  /-- A key may start here. -/
  keyAllowed : Bool := true
  /-- The candidate outside all brackets. -/
  blockKey : Option Candidate := none
  /-- The candidates inside the open brackets, innermost first. -/
  flowKeys : List (Option Candidate) := []
  /-- The tokens, latest first, and their number. -/
  tokens : List Token := []
  tokenCount : Nat := 0

namespace Scanner

/-- A bracket is open. -/
def inFlow (s : Scanner) : Bool :=
  !s.flowKeys.isEmpty

/-- The innermost candidate. -/
def candidate (s : Scanner) : Option Candidate :=
  match s.flowKeys with
  | [] => s.blockKey
  | k :: _ => k

/-- Set the innermost candidate. -/
def setCandidate (s : Scanner) (k : Option Candidate) : Scanner :=
  match s.flowKeys with
  | [] => { s with blockKey := k }
  | _ :: ks => { s with flowKeys := k :: ks }

/-- Take a token. -/
def push (s : Scanner) (t : Token) : Scanner :=
  { s with tokens := t :: s.tokens, tokenCount := s.tokenCount + 1 }

/-- Put a token in front of those taken after the first `n`. -/
def insert (s : Scanner) (n : Nat) (t : Token) : Scanner :=
  let later := s.tokenCount - n
  { s with
    tokens := s.tokens.take later ++ t :: s.tokens.drop later
    tokenCount := s.tokenCount + 1 }

/-- A candidate that has lapsed: none when a key was required there. -/
def expire? (c : Cursor) : Option Candidate → Option (Option Candidate)
  | none => some none
  | some k =>
    if k.line < c.line || k.index + 1024 < c.index then
      if k.required then none else some none
    else some (some k)

/-- Drop the candidates that have lapsed. -/
def expireAll? (s : Scanner) : Option Scanner := do
  let blockKey ← expire? s.cursor s.blockKey
  let flowKeys ← s.flowKeys.mapM (expire? s.cursor)
  return { s with blockKey, flowKeys }

/-- Drop the innermost candidate, which must not be required. -/
def dropCandidate? (s : Scanner) : Option Scanner :=
  match s.candidate with
  | some k => if k.required then none else some (s.setCandidate none)
  | none => some s

/-- Remember this place as a candidate, if a key may start here. -/
def saveCandidate? (s : Scanner) : Option Scanner :=
  if s.keyAllowed then do
    let s ← s.dropCandidate?
    let required := !s.inFlow && s.indent == (s.cursor.column : Int)
    return s.setCandidate
      (some ⟨required, s.tokenCount, s.cursor.index, s.cursor.line, s.cursor.column⟩)
  else some s

/-- Open a block in a column deeper than the innermost one. -/
def openBlock (s : Scanner) (column : Nat) (start : Scanner → Scanner) : Scanner :=
  if !s.inFlow && s.indent < column then
    start { s with indent := column, outer := s.indent :: s.outer }
  else s

/-- Close blocks, `depth` at most, until none is deeper than the column. -/
def closeBlocksSteps (column : Int) : Nat → Scanner → Scanner
  | 0, s => s
  | depth + 1, s =>
    if column < s.indent then
      closeBlocksSteps column depth
        { s.push .blockEnd with indent := s.outer.headD (-1), outer := s.outer.tail }
    else s

/-- Close the blocks that are deeper than the column. -/
def closeBlocks (s : Scanner) (column : Int) : Scanner :=
  if s.inFlow then s else closeBlocksSteps column s.outer.length s

/-- Skip blanks, comments and line breaks.  Outside brackets a tab is no blank
where a key may start, and a line break allows one. -/
def skipGaps : Nat → Scanner → Scanner
  | 0, s => s
  | steps + 1, s =>
    let c := s.cursor
    let c := if c.column == 0 && c.rest.head? == some byteOrderMark then c.skip else c
    let tabs := s.inFlow || !s.keyAllowed
    let c := (c.skipWhile fun x => x == ' ' || (tabs && x == '\t')).skipComment
    match c.rest with
    | x :: _ =>
      if isBreak x then
        skipGaps steps
          { s with cursor := c.skipBreak, keyAllowed := s.keyAllowed || !s.inFlow }
      else { s with cursor := c }
    | [] => { s with cursor := c }

/-- Take a token of `length` characters. -/
def take (s : Scanner) (length : Nat) (t : Token) : Scanner :=
  { s with cursor := s.cursor.skipN length }.push t

/-- Close everything at the end of the text. -/
def finish? (s : Scanner) : Option Scanner := do
  let s ← (s.closeBlocks (-1)).dropCandidate?
  return s.push .streamEnd

/-- A mark of the document: three characters. -/
def takeDocumentMark? (s : Scanner) (t : Token) : Option Scanner := do
  let s ← (s.closeBlocks (-1)).dropCandidate?
  return { s with keyAllowed := false }.take 3 t

/-- A directive. -/
def takeDirective? (s : Scanner) : Option Scanner := do
  let s ← (s.closeBlocks (-1)).dropCandidate?
  let (t, cursor) ← readDirective? s.cursor
  return { s with keyAllowed := false, cursor }.push t

/-- An opening bracket, which may itself start a key. -/
def takeOpening? (s : Scanner) (t : Token) : Option Scanner := do
  let s ← s.saveCandidate?
  return { s with flowKeys := none :: s.flowKeys, keyAllowed := true }.take 1 t

/-- A closing bracket. -/
def takeClosing? (s : Scanner) (t : Token) : Option Scanner := do
  let s ← s.dropCandidate?
  return { s with flowKeys := s.flowKeys.tail, keyAllowed := false }.take 1 t

/-- A comma between brackets. -/
def takeFlowEntry? (s : Scanner) : Option Scanner := do
  let s ← s.dropCandidate?
  return { s with keyAllowed := true }.take 1 .flowEntry

/-- The mark of a list item; the parser of nodes refuses it inside brackets. -/
def takeBlockEntry? (s : Scanner) : Option Scanner := do
  if !s.inFlow && !s.keyAllowed then none
  let s := s.openBlock s.cursor.column (·.push .blockSequenceStart)
  let s ← s.dropCandidate?
  return { s with keyAllowed := true }.take 1 .blockEntry

/-- The mark of a key of any kind. -/
def takeKey? (s : Scanner) : Option Scanner := do
  if !s.inFlow && !s.keyAllowed then none
  let s := s.openBlock s.cursor.column (·.push .blockMappingStart)
  let s ← s.dropCandidate?
  return { s with keyAllowed := !s.inFlow }.take 1 .key

/-- The colon: behind a candidate it makes that a key. -/
def takeValue? (s : Scanner) : Option Scanner :=
  match s.candidate with
  | some k =>
    let s := s.insert k.tokenCount .key
    let s := s.openBlock k.column (·.insert k.tokenCount .blockMappingStart)
    some <| { s.setCandidate none with keyAllowed := false }.take 1 .value
  | none =>
    if !s.inFlow && !s.keyAllowed then none
    else
      let s := s.openBlock s.cursor.column (·.push .blockMappingStart)
      some <| { s with keyAllowed := !s.inFlow }.take 1 .value

/-- An anchor or an alias. -/
def takeName? (s : Scanner) (t : String → Token) : Option Scanner := do
  let s ← s.saveCandidate?
  let (name, cursor) ← readName? s.cursor
  return { s with keyAllowed := false, cursor }.push (t name)

/-- A tag. -/
def takeTag? (s : Scanner) : Option Scanner := do
  let s ← s.saveCandidate?
  let (t, cursor) ← readTag? s.inFlow s.cursor
  return { s with keyAllowed := false, cursor }.push t

/-- A block scalar, after which a key may start. -/
def takeBlockScalar? (s : Scanner) (literal : Bool) : Option Scanner := do
  let s ← s.dropCandidate?
  let (text, cursor) ← readBlock? literal s.indent s.cursor
  return { s with keyAllowed := true, cursor }.push (.scalar (String.ofList text) false)

/-- A quoted scalar. -/
def takeQuoted? (s : Scanner) (double : Bool) : Option Scanner := do
  let s ← s.saveCandidate?
  let (text, cursor) ← readQuoted? double s.cursor
  return { s with keyAllowed := false, cursor }.push (.scalar (String.ofList text) false)

/-- A plain scalar; when it ended after a line break a key may start. -/
def takePlain? (s : Scanner) : Option Scanner := do
  let s ← s.saveCandidate?
  let (text, broken, cursor) ← readPlain? s.inFlow (s.indent + 1).toNat s.cursor
  return { s with keyAllowed := broken, cursor }.push (.scalar (String.ofList text) true)

/-- The characters that start no plain scalar by themselves. -/
def isIndicator (c : Char) : Bool :=
  "-?:,[]\x7b\x7d#&*!|>'\"%@`".toList.contains c

/-- A plain scalar starts here; three indicators do start one when no gap
follows, two of them only outside brackets. -/
def startsPlain (inFlow : Bool) : List Char → Bool
  | [] => false
  | c :: cs =>
    !(isGap c || isIndicator c) ||
    (c == '-' && !(cs.head?.any isSpace)) ||
    (!inFlow && (c == '?' || c == ':') && !atGap cs)

/-- Take the next token, which starts here. -/
def takeToken? (s : Scanner) : Option Scanner :=
  match s.cursor.rest with
  | [] => s.finish?
  | c :: cs =>
    if s.cursor.column == 0 && c == '%' then s.takeDirective?
    else if s.cursor.atDocumentMark then
      s.takeDocumentMark? (if c == '-' then .documentStart else .documentEnd)
    else if c == '[' then s.takeOpening? .flowSequenceStart
    else if c == '\x7b' then s.takeOpening? .flowMappingStart
    else if c == ']' then s.takeClosing? .flowSequenceEnd
    else if c == '\x7d' then s.takeClosing? .flowMappingEnd
    else if c == ',' then s.takeFlowEntry?
    else if c == '-' && atGap cs then s.takeBlockEntry?
    else if c == '?' && (s.inFlow || atGap cs) then s.takeKey?
    else if c == ':' && (s.inFlow || atGap cs) then s.takeValue?
    else if c == '*' then s.takeName? .alias
    else if c == '&' then s.takeName? .anchor
    else if c == '!' then s.takeTag?
    else if c == '|' && !s.inFlow then s.takeBlockScalar? true
    else if c == '>' && !s.inFlow then s.takeBlockScalar? false
    else if c == '\'' then s.takeQuoted? false
    else if c == '"' then s.takeQuoted? true
    else if startsPlain s.inFlow s.cursor.rest then s.takePlain?
    else none

/-- Go to the next token and take it. -/
def step? (s : Scanner) : Option Scanner := do
  let s := s.skipGaps (s.cursor.rest.length + 1)
  let s ← s.expireAll?
  let s := s.closeBlocks s.cursor.column
  s.takeToken?

/-- Take tokens to the end of the text; every step takes a character. -/
def run? : Nat → Scanner → Option Scanner
  | 0, _ => none
  | steps + 1, s => do
    let s ← s.step?
    match s.tokens with
    | .streamEnd :: _ => return s
    | _ => run? steps s

end Scanner

/-- The tokens of a normalized text. -/
def scan? (cs : List Char) : Option (List Token) := do
  let s ← Scanner.run? (cs.length + 2) { cursor := .start cs }
  return s.tokens.reverse

end Dashboard.Yaml

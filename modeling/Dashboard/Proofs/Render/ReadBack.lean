import Dashboard.Proofs.Render.Block
import Dashboard.Proofs.Render.Data
import Dashboard.Proofs.Yaml.Roots

/-!
# Written values are read back

The text of a value, as a file or on one line, is read as the data of that
value.  For a file the condition on the keys is exact: with a key that is too
long the text is refused.
-/

namespace Dashboard.Render

open Yaml

/-- A text that stands for itself is plain in a block. -/
theorem faithful_isBare :
    Faithful isBare := by
  intro s hs
  have hread := (unquoted_of_isBare hs).ofPlain?_eq
  rwa [String.ofList_toList] at hread

theorem faithful_quotedOnly :
    Faithful quotedOnly :=
  fun _ hs => absurd hs (by simp [quotedOnly])

/-- A text whose tokens start with a node is read as a document of that node. -/
theorem readNode?_of_scan?
    {cs : List Char}
    (hclean : IsClean cs)
    {t : Token}
    {ts : List Token}
    (hscan : scan? cs = some (t :: ts))
    (ht : startsNode t = true) :
    readNode? cs =
      (Node.read? defaultHandles (4 * (t :: ts).length + 4) true false [] (t :: ts)).bind fun r =>
        if Node.endsStream r.tokens then some (some r.result) else none := by
  rw [readNode?, hclean.printable, hclean.normalize_eq, hscan]
  refine Node.readDocument?_eq_bind ?_
  cases t <;> first | rfl | cases ht

section ReadBack

variable {plain : String → Bool}
variable {v : Value}
variable {cs : List Char}

/-- A text whose tokens spell the node of a value is read as the data of it. -/
theorem readChars?_of_scan?
    (hplain : Faithful plain)
    (hclean : IsClean cs)
    {t : Token}
    {ts : List Token}
    (hscan : scan? cs = some (t :: ts))
    (ht : startsNode t = true)
    (hread : ∀ steps, 2 * (t :: ts).length ≤ steps →
      Node.read? defaultHandles steps true false [] (t :: ts) =
        some ⟨node plain v, [], [.streamEnd]⟩)
    (hdepth : v.depth ≤ Node.maxDepth)
    (hkeys : v.KeysDistinct) :
    readChars? cs = some (toDatum v) := by
  have hnode : readNode? cs = some (some (node plain v)) := by
    rw [readNode?_of_scan? hclean hscan ht, hread _ (by omega)]
    rfl
  rw [readChars?, hnode]
  exact (exists_datum?_node hplain hdepth hkeys).1

theorem readChars?_of_blockTokens
    (hplain : Faithful plain)
    (hclean : IsClean cs)
    (hscan : scan? cs = some (blockTokens plain v ++ [.streamEnd]))
    (hdepth : v.depth ≤ Node.maxDepth)
    (hkeys : v.KeysDistinct) :
    readChars? cs = some (toDatum v) := by
  have hread : ∀ steps, 2 * (blockTokens plain v ++ [Token.streamEnd]).length ≤ steps →
      Node.read? defaultHandles steps true false [] (blockTokens plain v ++ [.streamEnd]) =
        some ⟨node plain v, [], [.streamEnd]⟩ := by
    intro steps hsteps
    rw [List.length_append] at hsteps
    exact read?_blockTokens plain v steps false [.streamEnd] (by omega)
  obtain ⟨t, ts, hv, ht⟩ := exists_blockTokens_eq plain v
  rw [hv, List.cons_append] at hscan hread
  exact readChars?_of_scan? hplain hclean hscan ht hread hdepth hkeys

theorem readChars?_of_flowTokens
    (hplain : Faithful plain)
    (hclean : IsClean cs)
    (hscan : scan? cs = some (flowTokens plain v ++ [.streamEnd]))
    (hdepth : v.depth ≤ Node.maxDepth)
    (hkeys : v.KeysDistinct) :
    readChars? cs = some (toDatum v) := by
  have hread : ∀ steps, 2 * (flowTokens plain v ++ [Token.streamEnd]).length ≤ steps →
      Node.read? defaultHandles steps true false [] (flowTokens plain v ++ [.streamEnd]) =
        some ⟨node plain v, [], [.streamEnd]⟩ := by
    intro steps hsteps
    rw [List.length_append] at hsteps
    exact read?_flowTokens plain v steps true false [.streamEnd] (by omega)
  obtain ⟨t, ts, hv, ht⟩ := exists_flowTokens_eq plain v
  rw [hv, List.cons_append] at hscan hread
  exact readChars?_of_scan? hplain hclean hscan ht hread hdepth hkeys

end ReadBack

/-- The ends of a text that are no line of their own. -/
inductive IsTextEnd : List Char → Prop where
  | none : IsTextEnd []
  | lineFeed : IsTextEnd ['\n']

/-- At the end of a text reading goes to the very end. -/
theorem IsTextEnd.leads
    {tail : List Char}
    (h : IsTextEnd tail)
    {u : View}
    (hrest : u.rest = tail)
    (hbrackets : u.brackets = 0) :
    ∃ w : View, u.Leads w ∧ w.rest = [] ∧ w.brackets = 0 ∧ w.indent = u.indent ∧
      w.tokens = u.tokens := by
  cases h with
  | none =>
      exact ⟨u, .refl u, hrest, hbrackets, rfl, rfl⟩
  | lineFeed =>
      exact ⟨_, View.leads_break hbrackets 0 hrest rfl, rfl, hbrackets, rfl, rfl⟩

/-- A file holds the tokens of its mapping if all keys are short enough, and is
refused otherwise. -/
theorem scan?_block
    {e : String × Value}
    {m : List (String × Value)}
    {tail : List Char}
    (htail : IsTextEnd tail) :
    ((Value.map (e :: m)).AllKeys IsShortKey →
      scan? (block 0 (.map (e :: m)) ++ tail) =
        some (blockTokens isBare (.map (e :: m)) ++ [.streamEnd])) ∧
      (¬(Value.map (e :: m)).AllKeys IsShortKey →
        scan? (block 0 (.map (e :: m)) ++ tail) = none) := by
  obtain ⟨k, v⟩ := e
  have htext : block 0 (.map ((k, v) :: m)) ++ tail = quoted k.toList ++
      ':' :: (afterMark 0 v ++ (following (entryLines 0 m) ++ tail)) := by
    rw [block_map_cons]
    simp
  have hout : View.Outdented (-1) tail := by
    cases htail with
    | none =>
        exact .inl rfl
    | lineFeed =>
        exact .inr ⟨0, [], rfl, rfl, .inl rfl⟩
  have hindent : (-1 : Int) < ((2 * 0 : Nat) : Int) := by
    decide
  obtain ⟨column, keyAllowed, hgoes⟩ := exists_goes_mapping (readsBehind v) (readsEntries m)
    (u := { rest := block 0 (.map ((k, v) :: m)) ++ tail }) htext rfl rfl hindent rfl hout
  refine ⟨fun hshort => ?_, fun hlong => scan?_of_stuck (hgoes.stuck hlong)⟩
  obtain ⟨w, hleads, hrest, hbrackets, hindent, htokens⟩ := htail.leads
    (u := View.ended { rest := block 0 (.map ((k, v) :: m)) ++ tail } tail column keyAllowed
      (blockTokens isBare (.map ((k, v) :: m)))) rfl rfl
  rw [scan?_of_leads ((hgoes.leads hshort).trans hleads) hrest hbrackets hindent, htokens]
  simp [View.ended]

/-- A file is read as its mapping if all keys are short enough, and is refused
otherwise. -/
theorem ofYaml?_block
    {m : List (String × Value)}
    (hne : m ≠ [])
    (hdepth : (Value.map m).depth ≤ Node.maxDepth)
    (hkeys : (Value.map m).KeysDistinct)
    {tail : List Char}
    (htail : IsTextEnd tail)
    {text : String}
    (htext : text.toList = block 0 (.map m) ++ tail) :
    ((Value.map m).AllKeys IsShortKey → Value.ofYaml? text = some (.map m)) ∧
      (¬(Value.map m).AllKeys IsShortKey → Value.ofYaml? text = none) := by
  obtain ⟨e, m, rfl⟩ := List.exists_cons_of_ne_nil hne
  obtain ⟨hshort, hlong⟩ := scan?_block (e := e) (m := m) htail
  have hclean : IsClean (block 0 (.map (e :: m)) ++ tail) := by
    rw [isClean_append]
    refine ⟨isClean_block 0 _, ?_⟩
    cases htail with
    | none =>
        exact isClean_nil
    | lineFeed =>
        exact isClean_cons.2 ⟨.inr rfl, isClean_nil⟩
  rw [Value.ofYaml?, read?, htext]
  constructor
  · intro h
    rw [readChars?_of_blockTokens faithful_isBare hclean (hshort h) hdepth hkeys]
    exact congrArg some (exists_datum?_node faithful_isBare hdepth hkeys).2
  · intro h
    rw [readChars?, readNode?, hclean.printable, hclean.normalize_eq, hlong h]
    rfl

section Inline

variable {plain : String → Bool}
variable {v : Value}

/-- One scalar that is written as a value is read as the data of it. -/
theorem readChars?_of_written
    (hplain : Faithful plain)
    {x : List Char}
    {text : String}
    {flag : Bool}
    (hchars : IsPlain x)
    (hwritten : Written false x text flag)
    (htokens : flowTokens plain v = [.scalar text flag])
    (hdepth : v.depth ≤ Node.maxDepth)
    (hkeys : v.KeysDistinct) :
    readChars? x = some (toDatum v) := by
  have hread : View.Leads { rest := x }
      (View.after { rest := x } x.length [] false [.scalar text flag]) :=
    View.leads_written hwritten (List.append_nil _).symm rfl rfl (by simp) fun _ _ => by simp
  have hscan := scan?_of_leads hread rfl rfl rfl
  refine readChars?_of_flowTokens hplain hchars.isClean ?_ hdepth hkeys
  rw [htokens]
  simpa [View.after] using hscan

/-- A text in double quotes is read as that text, however long it is. -/
theorem readChars?_doubleQuoted
    (t : String) :
    readChars? (doubleQuoted t.toList) = some (.scalar (.str t)) := by
  have hwritten : Written false (doubleQuoted t.toList) (String.ofList t.toList) false :=
    .quoted _
  rw [String.ofList_toList] at hwritten
  exact readChars?_of_written (v := .str t) faithful_quotedOnly (isPlain_doubleQuoted _) hwritten
    rfl (Nat.zero_le _) trivial

/-- The tokens of the inline form of a container. -/
theorem scan?_inline
    (h : v.isContainer = true) :
    scan? (inline v) = some (scannedTokens v ++ [.streamEnd]) := by
  have hinline : inline v = flow v := by
    cases v with
    | seq vs | map m =>
        rw [inline]
        simp
    | str s | null | bool b | int n | float x =>
        exact absurd h (by simp [Value.isContainer])
  obtain ⟨column, -, hread⟩ := readsFlow v { rest := flow v } []
    (List.append_nil _).symm (by simp) (fun _ _ => by simp)
    (fun hscalar => absurd hscalar (by simp [h]))
  have hscan := scan?_of_leads hread rfl rfl rfl
  rw [hinline]
  simpa [View.past] using hscan

/-- The inline form of a value is read as its data. -/
theorem readChars?_inline
    (hshort : v.AllKeys IsShortFlowKey)
    (hdepth : v.depth ≤ Node.maxDepth)
    (hkeys : v.KeysDistinct) :
    readChars? (inline v) = some (toDatum v) := by
  cases hcontainer : v.isContainer with
  | true =>
      have hscan := scan?_inline hcontainer
      rw [scannedTokens_of_short v hshort] at hscan
      exact readChars?_of_flowTokens faithful_quotedOnly (isPlain_inline v).isClean hscan hdepth
        hkeys
  | false =>
      obtain ⟨text, flag, htoken, hwritten⟩ := exists_written_inline hcontainer
      refine readChars?_of_written faithful_isBare (isPlain_inline v) hwritten ?_ hdepth hkeys
      rw [(tokens_of_scalar isBare hcontainer).1, htoken]

end Inline

end Dashboard.Render

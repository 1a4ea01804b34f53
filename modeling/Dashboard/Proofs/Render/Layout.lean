import Dashboard.Document.Basic
import Dashboard.Proofs.Render.Bare

/-!
# The layout of a written value

The lines of a value at a depth are its lines at the margin, with two blanks in front of
each for every depth (`blockLines_eq_map`).  No line is empty or ends with a blank, and
nothing in the text breaks a line other than the line feeds between the lines.  So the file
of a document ends with the one line feed that is put behind its text.
-/

namespace Dashboard.Render

variable {l cs ds : List Char}

/-! ## Ends of lines -/

/-- There is a last character, and it is not blank. -/
def EndsShown (l : List Char) : Prop :=
  ∃ front c, l = front ++ [c] ∧ Text.isBlank c = false

theorem EndsShown.append
    (h : EndsShown ds)
    (cs : List Char) :
    EndsShown (cs ++ ds) := by
  obtain ⟨front, c, rfl, hc⟩ := h
  exact ⟨cs ++ front, c, (List.append_assoc _ _ _).symm, hc⟩

theorem EndsShown.cons
    (h : EndsShown cs)
    (c : Char) :
    EndsShown (c :: cs) :=
  h.append [c]

theorem endsShown_iff : EndsShown l ↔ l ≠ [] ∧ ∀ c ∈ l.getLast?, Text.isBlank c = false := by
  constructor
  · rintro ⟨front, c, rfl, hc⟩
    refine ⟨by simp, fun d hd => ?_⟩
    rw [List.getLast?_concat, Option.mem_some_iff] at hd
    rwa [← hd]
  · rintro ⟨hne, hlast⟩
    refine ⟨l.dropLast, l.getLast hne, (List.dropLast_concat_getLast hne).symm, hlast _ ?_⟩
    exact List.getLast?_eq_some_getLast hne

theorem isBlank_of_isNumeral
    {c : Char}
    (h : isNumeral c = true) :
    Text.isBlank c = false := by
  simp only [isNumeral, Char.isDigit, Bool.or_eq_true, Bool.and_eq_true, decide_eq_true_eq,
    beq_iff_eq] at h
  rcases h with (⟨hlow, hhigh⟩ | rfl) | rfl
  · have hlow' : 48 ≤ c.toNat := hlow
    have hhigh' : c.toNat ≤ 57 := hhigh
    simp only [Text.isBlank, Bool.or_eq_false_iff, Bool.and_eq_false_iff, beq_eq_false_iff_ne,
      decide_eq_false_iff_not]
    omega
  · decide
  · decide

theorem endsShown_plainScalar
    {v : Value}
    {s : Yaml.Scalar}
    (h : v.asScalar? = some s) :
    EndsShown (plainScalar v) := by
  rw [endsShown_iff]
  rcases plainScalar_cases h with hword | hnumber
  · have hwords : ∀ w ∈ scalarWords, w ≠ [] ∧ w.getLast?.all (!Text.isBlank ·) = true := by
      decide
    obtain ⟨hne, hlast⟩ := hwords _ hword
    refine ⟨hne, fun c hc => ?_⟩
    rw [Option.mem_def.1 hc] at hlast
    simpa using hlast
  · exact ⟨hnumber.ne_nil, fun c hc =>
      isBlank_of_isNumeral (hnumber.isNumeral c (List.mem_of_getLast? hc))⟩

theorem endsShown_doubleQuoted (s : List Char) : EndsShown (doubleQuoted s) :=
  ⟨'"' :: s.flatMap escape, '"', rfl, rfl⟩

/-- A text that ends with a blank is not written bare. -/
theorem endsShown_quoted (s : List Char) : EndsShown (quoted s) := by
  rw [quoted]
  split
  · exact ⟨['\''], '\'', rfl, rfl⟩
  · next hempty =>
      split
      · exact endsShown_doubleQuoted s
      · next hquotes =>
          have hne : s ≠ [] := fun hnil => hempty (List.isEmpty_iff.2 hnil)
          rw [Bool.not_eq_true] at hquotes
          exact endsShown_iff.2 ⟨hne, (unquoted_of_needsQuotes hne hquotes).last⟩

theorem endsShown_inline (v : Value) : EndsShown (inline v) := by
  cases v with
  | str s =>
      rw [inline]
      exact endsShown_quoted s.toList
  | seq vs =>
      rw [inline, flow]
      · exact ⟨'[' :: flowItems vs, ']', rfl, rfl⟩
      · simp
  | map m =>
      rw [inline, flow]
      · exact ⟨'\x7b' :: flowEntries m, '\x7d', rfl, rfl⟩
      · simp
  | null | bool _ | int _ | float _ =>
      rw [inline_eq_plainScalar rfl]
      exact endsShown_plainScalar rfl

mutual

/-- No line of a value is empty or ends with a blank. -/
theorem endsShown_blockLines
    (depth : Nat)
    (v : Value) :
    ∀ l ∈ blockLines depth v, EndsShown l := by
  match v with
  | .seq [] =>
      rw [blockLines, List.forall_mem_singleton]
      exact .append ⟨['['], ']', rfl, rfl⟩ _
  | .map [] =>
      rw [blockLines, List.forall_mem_singleton]
      exact .append ⟨['\x7b'], '\x7d', rfl, rfl⟩ _
  | .seq (v :: vs) =>
      rw [blockLines]
      exact endsShown_itemLines depth (v :: vs)
  | .map (e :: m) =>
      rw [blockLines]
      exact endsShown_entryLines depth (e :: m)
  | .str _ | .null | .bool _ | .int _ | .float _ =>
      simp only [blockLines, List.forall_mem_singleton]
      exact (endsShown_inline _).append _

theorem endsShown_itemLines
    (depth : Nat)
    (vs : List Value) :
    ∀ l ∈ itemLines depth vs, EndsShown l := by
  match vs with
  | [] =>
      rw [itemLines]
      exact List.forall_mem_nil _
  | v :: vs =>
      rw [itemLines, List.forall_mem_append]
      refine ⟨?_, endsShown_itemLines depth vs⟩
      split
      · rw [List.forall_mem_cons]
        exact ⟨⟨indentation depth, '-', rfl, rfl⟩, endsShown_blockLines (depth + 1) v⟩
      · rw [List.forall_mem_singleton]
        exact (((endsShown_inline v).cons ' ').cons '-').append _

theorem endsShown_entryLines
    (depth : Nat)
    (m : List (String × Value)) :
    ∀ l ∈ entryLines depth m, EndsShown l := by
  match m with
  | [] =>
      rw [entryLines]
      exact List.forall_mem_nil _
  | (k, v) :: m =>
      rw [entryLines, List.forall_mem_append]
      refine ⟨?_, endsShown_entryLines depth m⟩
      split
      · rw [List.forall_mem_cons]
        exact ⟨⟨indentation depth ++ quoted k.toList, ':', rfl, rfl⟩,
          endsShown_blockLines (depth + 1) v⟩
      · rw [List.forall_mem_singleton]
        exact (((endsShown_inline v).cons ' ').cons ':').append _

end

/-! ## Depths -/

theorem indentation_succ (depth : Nat) :
    indentation (depth + 1) = ' ' :: ' ' :: indentation depth := by
  rw [indentation, indentation, Nat.mul_succ, List.replicate_succ, List.replicate_succ]

mutual

/-- One depth more is two blanks more in front of each line. -/
theorem blockLines_succ
    (depth : Nat)
    (v : Value) :
    blockLines (depth + 1) v = (blockLines depth v).map ([' ', ' '] ++ ·) := by
  match v with
  | .seq [] | .map [] =>
      simp [blockLines, indentation_succ]
  | .seq (v :: vs) =>
      rw [blockLines, blockLines]
      exact itemLines_succ depth (v :: vs)
  | .map (e :: m) =>
      rw [blockLines, blockLines]
      exact entryLines_succ depth (e :: m)
  | .str _ | .null | .bool _ | .int _ | .float _ =>
      simp [blockLines, indentation_succ]

theorem itemLines_succ
    (depth : Nat)
    (vs : List Value) :
    itemLines (depth + 1) vs = (itemLines depth vs).map ([' ', ' '] ++ ·) := by
  match vs with
  | [] =>
      rw [itemLines, itemLines, List.map_nil]
  | v :: vs =>
      rw [itemLines, itemLines, List.map_append, itemLines_succ depth vs, indentation_succ]
      split
      · rw [List.map_cons, blockLines_succ (depth + 1) v]
        rfl
      · rfl

theorem entryLines_succ
    (depth : Nat)
    (m : List (String × Value)) :
    entryLines (depth + 1) m = (entryLines depth m).map ([' ', ' '] ++ ·) := by
  match m with
  | [] =>
      rw [entryLines, entryLines, List.map_nil]
  | (k, v) :: m =>
      rw [entryLines, entryLines, List.map_append, entryLines_succ depth m, indentation_succ]
      split
      · rw [List.map_cons, blockLines_succ (depth + 1) v]
        rfl
      · rfl

end

/-- The lines at a depth are those at the margin behind the blanks of the depth. -/
theorem blockLines_eq_map
    (depth : Nat)
    (v : Value) :
    blockLines depth v = (blockLines 0 v).map (indentation depth ++ ·) := by
  induction depth with
  | zero =>
      exact (List.map_id _).symm
  | succ depth ih =>
      rw [blockLines_succ, ih, List.map_map, indentation_succ]
      rfl

/-! ## Lines of the text -/

theorem joinLines_eq_intercalate (ls : List (List Char)) :
    joinLines ls = ['\n'].intercalate ls := by
  fun_induction joinLines ls with
  | case1 =>
      rw [List.intercalate_nil]
  | case2 l =>
      rw [List.intercalate_singleton]
  | case3 l ls hne ih =>
      rw [List.intercalate_cons_of_ne_nil hne, ih]
      simp

theorem blockLines_ne_nil
    (depth : Nat)
    (v : Value) :
    blockLines depth v ≠ [] := by
  match v with
  | .seq [] | .map [] | .str _ | .null | .bool _ | .int _ | .float _ =>
      simp [blockLines]
  | .seq (v :: vs) =>
      rw [blockLines, itemLines]
      split
      · simp
      · simp
  | .map ((k, v) :: m) =>
      rw [blockLines, entryLines]
      split
      · simp
      · simp

/-- The lines of the text are those that were put together: none is broken in two. -/
theorem splitOn_block
    (depth : Nat)
    (v : Value) :
    (block depth v).splitOn '\n' = blockLines depth v := by
  rw [block, joinLines_eq_intercalate]
  refine List.splitOn_intercalate '\n' (fun l hl hfeed => ?_) (blockLines_ne_nil depth v)
  exact absurd (isPlain_blockLines depth v l hl _ hfeed) (by decide)

/-! ## Layout -/

/-- The characters that break a line for one reader or another: tabs and feeds, carriage
returns, the next-line character, and the two separators. -/
def lineBreaks : List Char :=
  ['\n', '\x0b', '\x0c', '\r', '\u0085', '\u2028', '\u2029']

/-- No line is empty or ends with a blank, and every character is printable, is no tab, and
breaks no line unless it is a line feed between two lines. -/
structure LaidOut (text : List Char) : Prop where
  lines : ∀ l ∈ text.splitOn '\n', l ≠ [] ∧ ∀ c ∈ l.getLast?, Text.isBlank c = false
  printable : ∀ c ∈ text, Yaml.isPrintable c = true
  no_tab : '\t' ∉ text
  breaks : ∀ c ∈ text, c ∈ lineBreaks → c = '\n'
  last : text.getLast? ≠ some '\n'

theorem laidOut_block
    (depth : Nat)
    (v : Value) :
    LaidOut (block depth v) := by
  have hlines : ∀ l ∈ (block depth v).splitOn '\n', EndsShown l := by
    rw [splitOn_block]
    exact endsShown_blockLines depth v
  have hclean := isClean_block depth v
  refine ⟨fun l hl => endsShown_iff.1 (hlines l hl), ?_, ?_, ?_, ?_⟩
  · exact List.all_eq_true.1 hclean.printable
  · intro htab
    exact absurd (hclean _ htab) (by decide)
  · intro c hc hbreak
    refine (hclean c hc).resolve_left fun hplain => ?_
    have hnone : lineBreaks.all (fun b => !isPlainChar b) = true := by
      decide
    have hbroken := List.all_eq_true.1 hnone c hbreak
    rw [hplain] at hbroken
    cases hbroken
  · -- behind a line feed there would be one more line, and an empty one
    intro hlast
    obtain ⟨front, hfront⟩ := List.getLast?_eq_some_iff.1 hlast
    have hempty : [] ∈ (block depth v).splitOn '\n' := by
      rw [hfront, List.splitOn_append_cons_self front []]
      exact List.mem_append_right _ (List.mem_singleton.2 rfl)
    exact (endsShown_iff.1 (hlines [] hempty)).1 rfl

/-- The last line is not blank. -/
theorem LaidOut.last_line
    {text : List Char}
    (h : LaidOut text) :
    ∀ l ∈ (text.splitOn '\n').getLast?, l.all Text.isBlank = false := by
  intro l hl
  obtain ⟨hne, hlast⟩ := h.lines l (List.mem_of_getLast? hl)
  rw [List.all_eq_false]
  refine ⟨l.getLast hne, List.getLast_mem hne, ?_⟩
  rw [hlast _ (List.getLast?_eq_some_getLast hne)]
  decide

/-- A value is laid out in lines that show something at their ends, and a depth moves each
of them by two blanks.  The file of a document has one line feed more than its text, behind
a last line that is not blank. -/
theorem blockText_laidOut :
    (∀ v depth, LaidOut (blockText depth v).toList ∧
      (blockText depth v).toList.splitOn '\n' =
        ((blockText 0 v).toList.splitOn '\n').map (List.replicate (2 * depth) ' ' ++ ·)) ∧
    ∀ d : Document, d.renderFile = d.render ++ "\n" ∧ d.render.toList.getLast? ≠ some '\n' ∧
      ∃ l ∈ (d.render.toList.splitOn '\n').getLast?, l.all Text.isBlank = false := by
  refine ⟨fun v depth => ?_, fun d => ?_⟩
  · rw [blockText, blockText, String.toList_ofList, String.toList_ofList, splitOn_block,
      splitOn_block]
    exact ⟨laidOut_block depth v, blockLines_eq_map depth v⟩
  · have hlaidOut := laidOut_block 0 d.toValue
    rw [Document.renderFile, Document.render, blockText, String.toList_ofList]
    have hne : (block 0 d.toValue).splitOn '\n' ≠ [] := List.splitOn_ne_nil _ _
    have hlast := List.getLast?_eq_some_getLast hne
    exact ⟨rfl, hlaidOut.last, _, hlast, hlaidOut.last_line _ hlast⟩

/-! ## A value with blanks and breaks in its texts -/

/-- A list of a text with a tab and a blank at its end and of an empty mapping. -/
def notesValue : Value :=
  .map [("notes", .seq [.str "a\tb\u2028c ", .map []]), ("", .str "d e")]

/-- Its lines at a depth are its lines at the margin, each behind two blanks. -/
theorem blockText_notesValue :
    LaidOut (blockText 1 notesValue).toList ∧
      (blockText 1 notesValue).toList.splitOn '\n' =
        ["  notes:", "    - \"a\\tb\\u2028c \"", "    -", "      \x7b\x7d", "  '': d e"].map
          String.toList := by
  obtain ⟨hlaidOut, hlines⟩ := blockText_laidOut.1 notesValue 1
  refine ⟨hlaidOut, ?_⟩
  rw [hlines]
  decide +kernel

end Dashboard.Render

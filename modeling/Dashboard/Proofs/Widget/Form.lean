import Dashboard.Proofs.Text.Lines
import Dashboard.Proofs.Value.FormText
import Dashboard.Proofs.Widget.Sound
import Dashboard.Widget.Form

/-!
# The form of a widget

A widget comes back from the form that shows it, but for options that a reader
gives up on: these come back as the texts that were shown.  Each option is one
line, which can be cut where the key ends: a bare key holds no equals sign, and
between quotes every quote of the key is escaped.
-/

namespace Dashboard.WidgetForm

/-! ## Keys -/

section Keys

variable {key cs quoted rest : List Char}

/-- What a key without quotes is known for. -/
structure BareKey (key : List Char) : Prop where
  ne_nil : key ≠ []
  no_equals : '=' ∉ key
  no_quote : key.head? ≠ some '"'
  trimmed : Text.trimChars key = key
  plain : Render.IsPlain key

theorem bareKey_of_isBareKey
    (h : isBareKey key = true) :
    BareKey key := by
  simp only [isBareKey, Bool.and_eq_true, Bool.not_eq_true', List.isEmpty_eq_false_iff,
    bne_iff_ne, beq_iff_eq, List.any_eq_false, Bool.not_eq_true] at h
  obtain ⟨⟨⟨⟨hne, hequals⟩, hquote⟩, htrimmed⟩, hplain⟩ := h
  refine ⟨hne, ?_, hquote, htrimmed, fun c hc => ?_⟩
  · simpa using hequals
  · simpa [Render.needsEscape] using hplain c hc

theorem cutAtEquals_append
    (h : '=' ∉ key) :
    cutAtEquals (key ++ '=' :: rest) = some (key, rest) := by
  induction key with
  | nil =>
      rfl
  | cons c key ih =>
      rw [List.mem_cons, not_or] at h
      have hc : (c == '=') = false := by
        simpa using Ne.symm h.1
      rw [List.cons_append, cutAtEquals, hc, ih h.2]
      rfl

theorem cutAtQuote_cons
    {escaped : Bool}
    {c : Char}
    (hc : (!escaped && c == '"') = false)
    (h : cutAtQuote (!escaped && c == '\\') cs = some (quoted, rest)) :
    cutAtQuote escaped (c :: cs) = some (c :: quoted, rest) := by
  rw [cutAtQuote, hc, h]
  rfl

theorem cutAtQuote_append
    {ds : List Char}
    (hds : ∀ d ∈ ds, d ≠ '"' ∧ d ≠ '\\')
    (h : cutAtQuote false cs = some (quoted, rest)) :
    cutAtQuote false (ds ++ cs) = some (ds ++ quoted, rest) := by
  induction ds with
  | nil =>
      exact h
  | cons d ds ih =>
      rw [List.forall_mem_cons] at hds
      refine cutAtQuote_cons (by simp [hds.1.1]) ?_
      have hslash : (d == '\\') = false := by
        simp [hds.1.2]
      rw [hslash]
      exact ih hds.2

/-- No quote of an escape ends a key. -/
theorem cutAtQuote_escape
    (c : Char)
    (h : cutAtQuote false cs = some (quoted, rest)) :
    cutAtQuote false (Render.escape c ++ cs) = some (Render.escape c ++ quoted, rest) := by
  have hpair : ∀ d : Char, cutAtQuote false ('\\' :: d :: cs) = some ('\\' :: d :: quoted, rest) :=
    fun d => cutAtQuote_cons rfl (cutAtQuote_cons rfl h)
  have hdigits : cutAtQuote false (Render.hex4 c.toNat ++ cs) =
      some (Render.hex4 c.toNat ++ quoted, rest) := by
    refine cutAtQuote_append (fun d hd => ?_) h
    obtain ⟨n, -, rfl⟩ := List.mem_map.1 hd
    have hall : "0123456789ABCDEF*".toList.all (fun d => d != '"' && d != '\\') = true := by
      decide
    simpa using List.all_eq_true.1 hall _ (Render.hexDigit_mem n)
  rw [Render.escape]
  split
  · exact hpair _
  · next hquote =>
      split
      · exact hpair _
      · next hslash =>
          split
          · exact hpair _
          · split
            · exact hpair _
            · split
              · exact hpair _
              · split
                · exact cutAtQuote_cons rfl (cutAtQuote_cons rfl hdigits)
                · refine cutAtQuote_append (fun d hd => ?_) h
                  rw [List.mem_singleton.1 hd]
                  exact ⟨by simpa using hquote, by simpa using hslash⟩

theorem cutAtQuote_flatMap
    (s rest : List Char) :
    cutAtQuote false (s.flatMap Render.escape ++ '"' :: rest) =
      some (s.flatMap Render.escape ++ ['"'], rest) := by
  induction s with
  | nil =>
      rfl
  | cons c s ih =>
      rw [List.flatMap_cons, List.append_assoc, List.append_assoc]
      exact cutAtQuote_escape c ih

theorem readQuotedKey?_doubleQuoted
    (key : String) :
    readQuotedKey? (Render.doubleQuoted key.toList) = some key := by
  rw [readQuotedKey?, Render.readChars?_doubleQuoted]

end Keys

/-! ## Lines -/

section Lines

variable {key : String}
variable {v : Value}

theorem readLine?_bare
    (h : BareKey key.toList)
    (value : List Char) :
    readLine? (key.toList ++ '=' :: value) = some (key, value) := by
  obtain ⟨c, cs, hcs⟩ := List.exists_cons_of_ne_nil h.ne_nil
  have hdrop : Text.dropBlanks (key.toList ++ '=' :: value) = key.toList ++ '=' :: value := by
    refine Text.dropBlanks_eq_self ?_
    have htrimmed := Text.dropBlanks_trimChars key.toList
    rw [h.trimmed, hcs] at htrimmed
    have hhead := List.head?_dropWhile_not Text.isBlank (c :: cs)
    rw [show (c :: cs).dropWhile Text.isBlank = c :: cs from htrimmed] at hhead
    rw [hcs]
    simpa using hhead
  have hquote : c ≠ '"' := by
    have hhead := h.no_quote
    rw [hcs] at hhead
    simpa using hhead
  have hempty : key ≠ "" := by
    rintro rfl
    exact h.ne_nil rfl
  rw [readLine?, hdrop]
  split
  · next rest heq =>
      rw [hcs] at heq
      exact absurd (List.cons.inj heq).1 hquote
  · rw [cutAtEquals_append h.no_equals]
    simp [h.trimmed, hempty]

theorem readLine?_quoted
    (value : List Char) :
    readLine? (Render.doubleQuoted key.toList ++ '=' :: value) = some (key, value) := by
  have hkey : Render.doubleQuoted key.toList =
      '"' :: (key.toList.flatMap Render.escape ++ ['"']) :=
    rfl
  have hdrop : ∀ (c : Char) (cs : List Char), Text.isBlank c = false →
      Text.dropBlanks (c :: cs) = c :: cs :=
    fun c cs hc => Text.dropBlanks_eq_self hc
  have hcut := cutAtQuote_flatMap key.toList ('=' :: value)
  have hread := readQuotedKey?_doubleQuoted key
  rw [hkey] at hread
  rw [hkey, readLine?, List.cons_append, List.append_assoc, hdrop _ _ (by decide)]
  simp only [List.singleton_append, hcut, hread, bind, Option.bind, hdrop '=' value (by decide)]
  rfl

/-- The line of an option gives its key and the inline form of its value. -/
theorem readLine?_line
    (key : String)
    (v : Value) :
    readLine? (line key v) = some (key, Render.inline v) := by
  rw [line]
  split
  · next hbare =>
      exact readLine?_bare (bareKey_of_isBareKey hbare) _
  · exact readLine?_quoted _

/-- The line of an option can be told from the ends of lines. -/
theorem isLine_line
    (key : String)
    (v : Value) :
    Text.IsLine (line key v) := by
  have hplain : Render.IsPlain (line key v) := by
    have hequals : Render.isPlainChar '=' = true := by
      decide
    rw [line, Render.isPlain_append, Render.isPlain_cons]
    refine ⟨?_, hequals, Render.isPlain_inline v⟩
    split
    · next hbare =>
        exact (bareKey_of_isBareKey hbare).plain
    · exact Render.isPlain_doubleQuoted _
  refine ⟨by simp [line], fun hfeed => ?_, fun hreturn => ?_⟩
  · exact absurd (hplain _ hfeed) (by decide)
  · exact absurd (hplain _ hreturn) (by decide)

/-- Lines that were put together can be cut again. -/
theorem lines_joined
    {ls : List (List Char)}
    (h : ∀ l ∈ ls, Text.IsLine l) :
    Text.lines (joined ls) = ls.map String.ofList := by
  rw [Text.lines, joined, String.toList_ofList]
  fun_induction Render.joinLines ls with
  | case1 =>
      rfl
  | case2 l =>
      have hl := h l List.mem_cons_self
      rw [Text.pieces_of_no_feed hl.ne_nil hl.no_feed]
      simp [Text.contentOf_of_no_feed hl.no_feed]
  | case3 l ls _ ih =>
      have hl := h l List.mem_cons_self
      rw [Text.pieces_append_feed hl.no_feed, List.map_cons,
        ih fun l' hl' => h l' (List.mem_cons_of_mem _ hl'), hl.contentOf_append_feed,
        List.map_cons]

end Lines

/-! ## Forms -/

section Forms

variable {w : Widget}

/-- Inserting an option under a new name puts it behind the others. -/
theorem insertOption_of_new
    {name : String}
    {v : Value}
    (hreserved : Widget.reservedKeys.contains name = false)
    (hnew : name ∉ Entries.names w.options) :
    w.insertOption [.key name] v = .ok { w with options := w.options ++ [(name, v)] } := by
  have hnone := (Entries.get?_eq_none_iff w.options name).2 hnew
  have hhas : Entries.has w.options name = false := by
    simp [Entries.has, hnone]
  have hinsert : w.tree.insertAt [.key name] v = .ok (.map (w.options ++ [(name, v)])) := by
    have hchild : Value.insertChild [] (.key name) v (.map w.options) =
        .ok ((), .map (w.options ++ [(name, v)])) := by
      rw [Value.insertChild, hhas, Entries.put_of_get?_none hnone]
      rfl
    change ((Value.insertChild [] (.key name) v (.map w.options)).bind fun r => .ok r.2) = _
    rw [hchild]
    rfl
  rw [Widget.insertOption, Widget.checkReserved, hreserved, hinsert]
  rfl

/-- Options that were shown in a form, as they are read from there. -/
def rereadOptions (m : Mapping) : Mapping :=
  m.map fun e => (e.1, e.2.reread)

/-- Options come back from a form exactly if each of them does. -/
theorem rereadOptions_eq_self_iff
    {m : Mapping} :
    rereadOptions m = m ↔ ∀ e ∈ m, Render.IsReadable e.2 := by
  induction m with
  | nil =>
      simp [rereadOptions]
  | cons e m ih =>
      obtain ⟨key, v⟩ := e
      rw [List.forall_mem_cons, ← ih, ← Value.reread_eq_self_iff]
      simp [rereadOptions]

/-- Adding the line of a new option puts the option behind the others. -/
theorem addLine_line
    {name : String}
    {v : Value}
    (number : Nat)
    (hreserved : Widget.reservedKeys.contains name = false)
    (hnew : name ∉ Entries.names w.options)
    (hkeys : v.KeysDistinct) :
    addLine w number (String.ofList (line name v)) =
      .ok { w with options := w.options ++ [(name, v.reread)] } := by
  have hblank : Text.isBlankText (String.ofList (line name v)) = false := by
    rw [Text.isBlankText, String.toList_ofList, List.all_eq_false]
    exact ⟨'=', by simp [line], by decide⟩
  rw [addLine, hblank, String.toList_ofList, readLine?_line]
  simp only [Bool.false_eq_true, if_false, hreserved, Value.ofFormText_inline hkeys]
  exact insertOption_of_new hreserved hnew

/-- Adding the lines of new options puts the options behind the others. -/
theorem addLines_lines
    (done : Mapping)
    {todo : Mapping}
    (number : Nat)
    (hdistinct : Entries.Distinct (done ++ todo))
    (hreserved : ∀ e ∈ todo, Widget.reservedKeys.contains e.1 = false)
    (hkeys : ∀ e ∈ todo, e.2.KeysDistinct) :
    addLines { w with options := done } number
        ((todo.map fun e => line e.1 e.2).map String.ofList) =
      .ok { w with options := done ++ rereadOptions todo } := by
  induction todo generalizing done number with
  | nil =>
      simp [rereadOptions, addLines]
  | cons e todo ih =>
      rw [List.forall_mem_cons] at hreserved hkeys
      have hadd := addLine_line (w := { w with options := done }) number hreserved.1
        hdistinct.not_mem_left hkeys.1
      have hdistinct' : Entries.Distinct (done ++ [(e.1, e.2.reread)] ++ todo) := by
        simpa [Entries.Distinct] using hdistinct
      have hrest : done ++ rereadOptions (e :: todo) =
          done ++ [(e.1, e.2.reread)] ++ rereadOptions todo := by
        simp [rereadOptions]
      rw [hrest, List.map_cons, List.map_cons, addLines, hadd]
      exact ih (done ++ [(e.1, e.2.reread)]) (number + 1) hdistinct' hreserved.2 hkeys.2

/-- A form with a type is read line by line. -/
theorem toWidget_eq_addLines
    {type : String}
    (title options : String)
    (htype : Text.trim type ≠ "") :
    toWidget { type, title, options } =
      addLines { type := Text.trim type, title := Widget.keptTitle (some title) } 1
        (Text.lines options) := by
  have hof : Widget.ofType type = .ok { type := Text.trim type } := by
    simp [Widget.ofType, htype]
  rw [toWidget, hof]
  rfl

/-- A form that shows options is read as the widget that has them. -/
theorem toWidget_joined
    {type title : String}
    {m : Mapping}
    (htype : Text.trim type ≠ "")
    (hkeys : (Value.map m).KeysDistinct)
    (hreserved : ∀ e ∈ m, Widget.reservedKeys.contains e.1 = false) :
    toWidget { type, title, options := joined (m.map fun e => line e.1 e.2) } =
      .ok { type := Text.trim type
            title := Widget.keptTitle (some title)
            options := rereadOptions m } := by
  obtain ⟨hdistinct, hvalues⟩ := Value.keysDistinct_map.1 hkeys
  have hlines : Text.lines (joined (m.map fun e => line e.1 e.2)) =
      (m.map fun e => line e.1 e.2).map String.ofList := by
    refine lines_joined fun l hl => ?_
    obtain ⟨e, -, rfl⟩ := List.mem_map.1 hl
    exact isLine_line e.1 e.2
  have hadd := addLines_lines
    (w := { type := Text.trim type, title := Widget.keptTitle (some title) }) [] 1 hdistinct
    hreserved hvalues
  rw [List.nil_append] at hadd
  rw [toWidget_eq_addLines _ _ htype, hlines]
  exact hadd

/-- A sound widget comes back from its form, with its options read again. -/
theorem toWidget_ofWidget_eq
    (h : w.Sound) :
    (ofWidget w).toWidget = .ok { w with options := rereadOptions w.options } := by
  have htitle : Widget.keptTitle (some (w.title.getD "")) = w.title := by
    cases ht : w.title with
    | none =>
        rfl
    | some t =>
        exact ht ▸ Widget.keptTitle_eq_self h.title_kept
  have htrim : Text.trim w.type ≠ "" := by
    rw [h.type_kept.1]
    exact h.type_kept.2
  rw [ofWidget, toWidget_joined htrim h.keys_distinct h.not_reserved, h.type_kept.1, htitle]

/-- A sound widget comes back from its form as it is, within the limits of a
reader. -/
theorem toWidget_ofWidget
    (h : w.Sound)
    (hdepth : ∀ e ∈ w.options, e.2.depth ≤ Yaml.Node.maxDepth)
    (hkeys : ∀ e ∈ w.options, e.2.AllKeys Render.IsShortFlowKey) :
    (ofWidget w).toWidget = .ok w := by
  have hsame : rereadOptions w.options = w.options :=
    rereadOptions_eq_self_iff.2 fun e he => ⟨hdepth e he, hkeys e he⟩
  rw [toWidget_ofWidget_eq h, hsame]

end Forms

end Dashboard.WidgetForm

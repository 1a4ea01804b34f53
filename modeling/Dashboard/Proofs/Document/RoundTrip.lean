import Dashboard.Proofs.Document.Reachable
import Dashboard.Proofs.Render.ReadBack

/-!
# A document and its text

The text of a document that was reached is read as that document, unless a
reader gives up on it: when containers are nested too deep, or when a key is
too long to be remembered up to its colon.  A file that was loaded is never
nested too deep when it is written again, but a key may have become too long:
in the file it could stand behind a mark of its own, or in other quotes.
-/

namespace Dashboard.Document

/-- The text of a sound document is read as the document if its keys are short
enough, and is refused otherwise. -/
theorem Sound.parse_text
    {d : Document}
    (h : d.Sound)
    (hdepth : d.toValue.depth ≤ Yaml.Node.maxDepth)
    {tail : List Char}
    (htail : Render.IsTextEnd tail)
    {text : String}
    (htext : text.toList = Render.block 0 d.toValue ++ tail) :
    (d.toValue.AllKeys Render.IsShortKey → parse text = .ok d) ∧
      (¬d.toValue.AllKeys Render.IsShortKey → parse text = .error .malformedYaml) := by
  have hkeys := h.keysDistinct_toValue
  have hread := h.ofValue_toValue
  rw [h.toValue_eq] at hdepth htext hkeys hread ⊢
  obtain ⟨hshort, hlong⟩ := Render.ofYaml?_block (by simp) hdepth hkeys htail htext
  constructor
  · intro hall
    exact (parse_eq_of_ofYaml? (hshort hall)).trans hread
  · intro hall
    rw [parse, hlong hall]

/-- A document that was reached is read back from its text as it is. -/
theorem parse_render
    {d : Document}
    (h : d.Reachable)
    (hdepth : d.toValue.depth ≤ Yaml.Node.maxDepth)
    (hkeys : d.toValue.AllKeys Render.IsShortKey) :
    parse d.render = .ok d := by
  have htext : d.render.toList = Render.block 0 d.toValue ++ [] := by
    rw [render, Render.blockText, String.toList_ofList, List.append_nil]
  exact (h.sound.parse_text hdepth .none htext).1 hkeys

/-- A clock whose title and option key would be taken for something else without
quotes. -/
def quotedClock : Widget where
  type := "clock"
  title := some "no"
  options := [("12: h", .seq [.int 1, .map [], .str "1"])]

/-- A page with the clock. -/
def clockDocument : Document where
  pages := [{ name := "Home", columns := [{ size := .full, widgets := [quotedClock] }] }]

/-- The clock is reached by changes of a new widget, and its document by changes
of the empty one. -/
theorem reachable_clockDocument :
    clockDocument.Reachable := by
  have made : Widget.ofType " clock" = .ok { type := "clock" } := rfl
  have titled := Widget.Reachable.next (.ofType made) (.setTitle _ (some "no"))
  have clock : quotedClock.Reachable := .next titled
    (.insertOption (p := [.key "12: h"]) (v := .seq [.int 1, .map [], .str "1"]) (by decide) rfl)
  have home : addPage {} "Home " = .ok (0, { pages := [{ name := "Home" }] }) := rfl
  have paged := Reachable.next .empty (List.forall_mem_nil _) (.addPage home)
  have full : addColumn { pages := [{ name := "Home" }] } 0 .full =
      .ok (0, { pages := [{ name := "Home", columns := [{ size := .full }] }] }) := rfl
  have columned := Reachable.next paged (List.forall_mem_nil _) (.addColumn full)
  have filled : addWidget { pages := [{ name := "Home", columns := [{ size := .full }] }] } 0 0
      quotedClock = .ok (0, clockDocument) := rfl
  exact .next columned (List.forall_mem_singleton.2 clock) (.addWidget filled)

theorem parse_render_clockDocument :
    clockDocument.Reachable ∧
      clockDocument.toValue.depth ≤ Yaml.Node.maxDepth ∧
      clockDocument.toValue.AllKeys Render.IsShortKey ∧
      parse clockDocument.render = .ok clockDocument := by
  have hdepth : clockDocument.toValue.depth ≤ Yaml.Node.maxDepth := by
    decide
  have hkeys : clockDocument.toValue.AllKeys Render.IsShortKey := by
    decide +kernel
  exact ⟨reachable_clockDocument, hdepth, hkeys,
    parse_render reachable_clockDocument hdepth hkeys⟩

/-- The file of a document that was loaded is read as that document if all its
keys are short enough, and is refused otherwise. -/
theorem parse_renderFile
    {text : String}
    {d : Document}
    (h : parse text = .ok d) :
    (d.toValue.AllKeys Render.IsShortKey → parse d.renderFile = .ok d) ∧
      (¬d.toValue.AllKeys Render.IsShortKey →
        parse d.renderFile = .error .malformedYaml) := by
  have htext : d.renderFile.toList = Render.block 0 d.toValue ++ ['\n'] := by
    rw [renderFile, render, Render.blockText, String.toList_append, String.toList_ofList]
    rfl
  exact (sound_parse h).parse_text (depth_parse_le h) .lineFeed htext

/-- Formatting a file that was formatted changes nothing, exactly when all keys
of the file that was written are short enough. -/
theorem renderFile_stable_iff
    {text : String}
    {d : Document}
    (h : parse text = .ok d) :
    (∃ e, parse d.renderFile = .ok e ∧ e.renderFile = d.renderFile) ↔
      d.toValue.AllKeys Render.IsShortKey := by
  obtain ⟨hshort, hlong⟩ := parse_renderFile h
  constructor
  · rintro ⟨e, he, -⟩
    by_cases hall : d.toValue.AllKeys Render.IsShortKey
    · exact hall
    · rw [hlong hall] at he
      cases he
  · intro hall
    exact ⟨d, hshort hall, rfl⟩

/-- A page with a name in other quotes is formatted once and for all. -/
theorem renderFile_stable_of_quoted_name :
    ∃ d, parse "pages: [\x7bname: 'Home'\x7d]" = .ok d ∧
      ∃ e, parse d.renderFile = .ok e ∧ e.renderFile = d.renderFile := by
  have hread : Value.ofYaml? "pages: [\x7bname: 'Home'\x7d]" =
      some (.map [("pages", .seq [.map [("name", .str "Home")]])]) := by
    decide +kernel
  have h := parse_eq_of_ofYaml? hread
  have hdoc : ofValue (.map [("pages", .seq [.map [("name", .str "Home")]])]) =
      .ok { pages := [{ name := "Home" }] } := rfl
  exact ⟨_, h.trans hdoc, (renderFile_stable_iff (h.trans hdoc)).2 (by decide +kernel)⟩

/-- A key of bells.  In a file a bell may be two characters, when it is written
again it is six. -/
def bells : String :=
  String.ofList (List.replicate 171 '\x07')

/-- A file with the short form of the key. -/
def bellFile : String :=
  String.ofList
    ('"' :: (List.replicate 171 ['\\', 'a']).flatten ++ "\": 1\npages: []\n".toList)

/-- A file of settings. -/
theorem ofValue_settings
    {m : Mapping}
    (hfree : "pages" ∉ Entries.names m) :
    ofValue (.map (m ++ [("pages", .seq [])])) = .ok { settings := m } := by
  rw [ofValue, Entries.get?_append_of_none ((Entries.get?_eq_none_iff m "pages").2 hfree),
    Entries.erase_append_of_not_mem hfree]
  simp [Entries.get?, Entries.erase, Value.mappings, bind, Except.bind, pure, Except.pure]

theorem bells_free :
    "pages" ∉ Entries.names [(bells, Value.int 1)] := by
  decide +kernel

theorem parse_bellFile :
    parse bellFile = .ok { settings := [(bells, .int 1)] } := by
  have hread : Value.ofYaml? bellFile =
      some (.map ([(bells, .int 1)] ++ [("pages", .seq [])])) :=
    (congrArg (fun cs => (Yaml.readChars? cs).map Value.ofDatum) String.toList_ofList).trans
      (by decide +kernel)
  exact (parse_eq_of_ofYaml? hread).trans (ofValue_settings bells_free)

theorem not_isShortKey_bells :
    ¬Render.IsShortKey bells := by
  have hlength : 1024 < (Render.quoted (List.replicate 171 '\x07')).length := by
    decide +kernel
  have htext : bells.toList = List.replicate 171 '\x07' :=
    String.toList_ofList
  rw [Render.IsShortKey, htext]
  exact Nat.not_le.2 hlength

/-- What is written for the file of bells cannot be read. -/
theorem not_renderFile_stable_bellFile :
    ∃ d, parse bellFile = .ok d ∧
      ¬∃ e, parse d.renderFile = .ok e ∧ e.renderFile = d.renderFile := by
  refine ⟨_, parse_bellFile, ?_⟩
  rintro ⟨e, he, -⟩
  have hlong : ¬(toValue { settings := [(bells, .int 1)] }).AllKeys Render.IsShortKey := by
    rw [toValue, Entries.put_of_get?_none ((Entries.get?_eq_none_iff _ _).2 bells_free)]
    exact fun hall => not_isShortKey_bells hall.1.1
  rw [(parse_renderFile parse_bellFile).2 hlong] at he
  cases he

end Dashboard.Document

import Dashboard.Proofs.Markdown.Chapter
import Dashboard.Proofs.Markdown.Pattern
import Dashboard.Proofs.Text.Bytes
import Dashboard.Proofs.Value.Parts

/-!
# The widgets of the documentation

From the sections of the chapter come the documented widgets: sorted by type, one for each
type that is declared, and from the first section that declares it (`Extracts`).
-/

namespace Dashboard.Markdown

/-! ## What a section says -/

/-- The first type that the text of a section gives. -/
def Declares (s : Section) (type : String) : Prop :=
  FirstPlace TypeItem (docText s).toList type

/-- The first part of this type in the first block of YAML, which can be read. -/
def ShowsExample (markdown type : String) (v : Value) : Prop :=
  ∃ content data, FirstPlace Fenced markdown.toList content ∧
    Yaml.readChars? (Text.trimChars (Text.dedentChars content)) = some data ∧
    (Value.ofDatum data).parts.find? (Value.isOfType type) = some v

/-- The documentation of a type, from the first section that declares it. -/
structure Documents (found : List Section) (d : WidgetDoc) : Prop where
  first : ∃ before s after, found = before ++ s :: after ∧ Declares s d.type ∧
    (∀ e ∈ before, ¬Declares e d.type) ∧ d.name = s.name ∧ d.markdown = docText s
  example_iff : ∀ v, d.example? = some v ↔ ShowsExample d.markdown d.type v

/-- The documentation in sections: strictly increasing in the order of bytes, one for each
type that is declared. -/
structure Extracts (found : List Section) (docs : List WidgetDoc) : Prop where
  sorted : docs.Pairwise fun d e => Text.bytes d.type < Text.bytes e.type
  complete : ∀ type, (∃ d ∈ docs, d.type = type) ↔ ∃ s ∈ found, Declares s type
  documents : ∀ d ∈ docs, Documents found d

section Section

variable {s : Section}
variable {d : WidgetDoc}
variable {markdown type : String}
variable {v : Value}

theorem firstMatch?_typeItem?_iff :
    firstMatch? typeItem? (docText s).toList = some type ↔ Declares s type :=
  firstMatch?_eq_some_iff fun _ _ => typeItem?_eq_some_iff

theorem find?_parts_of_readChars?_nil
    {data : Yaml.Datum}
    (h : Yaml.readChars? [] = some data) :
    (Value.ofDatum data).parts.find? (Value.isOfType type) = none := by
  have hnull : (Yaml.readChars? []).map Value.ofDatum = some .null := by
    decide +kernel
  rw [h, Option.map_some] at hnull
  rw [Option.some.inj hnull]
  rfl

theorem example?_eq_some_iff : example? markdown type = some v ↔ ShowsExample markdown type v := by
  have hblock : ∀ content, firstMatch? exampleBlock? markdown.toList = some content ↔
      FirstPlace Fenced markdown.toList content :=
    fun _ => firstMatch?_eq_some_iff fun _ _ => exampleBlock?_eq_some_iff
  simp only [example?, exampleText?, Option.bind_eq_bind, Option.bind_eq_some_iff, hblock,
    Value.findWidget?_eq_find?]
  constructor
  · rintro ⟨text, ⟨content, hcontent, htext⟩, data, hdata, hv⟩
    split at htext
    · cases htext
    · obtain rfl := Option.some.inj htext
      exact ⟨content, data, hcontent, hdata, hv⟩
  · rintro ⟨content, data, hcontent, hdata, hv⟩
    refine ⟨_, ⟨content, hcontent, if_neg fun hempty => ?_⟩, data, hdata, hv⟩
    -- a blank block is null, and so without a widget
    rw [List.isEmpty_iff.1 hempty] at hdata
    rw [find?_parts_of_readChars?_nil hdata] at hv
    cases hv

theorem docOf?_eq_some_iff :
    docOf? s = some d ↔ Declares s d.type ∧ d.name = s.name ∧ d.markdown = docText s ∧
      ∀ v, d.example? = some v ↔ ShowsExample d.markdown d.type v := by
  simp only [docOf?, Option.bind_eq_bind, Option.bind_eq_some_iff, firstMatch?_typeItem?_iff,
    Option.pure_def, Option.some.injEq, ← example?_eq_some_iff]
  constructor
  · rintro ⟨type, htype, rfl⟩
    exact ⟨htype, rfl, rfl, fun _ => Iff.rfl⟩
  · rintro ⟨htype, hname, hmarkdown, hexample⟩
    have hsame : d.example? = example? d.markdown d.type := Option.ext hexample
    refine ⟨d.type, htype, ?_⟩
    rw [← hmarkdown, ← hname, ← hsame]

theorem exists_docOf?_of_declares
    (h : Declares s type) :
    ∃ d, docOf? s = some d ∧ d.type = type := by
  refine ⟨⟨s.name, type, docText s, example? (docText s) type⟩, docOf?_eq_some_iff.2 ?_, rfl⟩
  exact ⟨h, rfl, rfl, fun _ => example?_eq_some_iff⟩

end Section

/-! ## The first of a type -/

section First

variable {d : WidgetDoc}
variable {docs : List WidgetDoc}
variable {seen : List String}

theorem mem_firstOfType_iff :
    d ∈ firstOfType seen docs ↔
      d.type ∉ seen ∧ ∃ before after, docs = before ++ d :: after ∧
        ∀ e ∈ before, e.type ≠ d.type := by
  induction docs generalizing seen with
  | nil =>
      simp [firstOfType]
  | cons e docs ih =>
      rw [firstOfType]
      split
      · next hseen =>
          rw [List.contains_iff_mem] at hseen
          rw [ih]
          refine and_congr_right fun hd => ?_
          constructor
          · rintro ⟨before, after, rfl, hbefore⟩
            refine ⟨e :: before, after, rfl, List.forall_mem_cons.2 ⟨fun heq => ?_, hbefore⟩⟩
            exact hd (heq ▸ hseen)
          · rintro ⟨before, after, hdocs, hbefore⟩
            cases before with
            | nil =>
                obtain ⟨rfl, rfl⟩ := List.cons.inj hdocs
                exact absurd hseen hd
            | cons f before =>
                obtain ⟨rfl, rfl⟩ := List.cons.inj hdocs
                exact ⟨before, after, rfl, (List.forall_mem_cons.1 hbefore).2⟩
      · next hnew =>
          rw [List.contains_iff_mem] at hnew
          rw [List.mem_cons, ih, List.mem_cons, not_or]
          constructor
          · rintro (rfl | ⟨⟨hne, hd⟩, before, after, rfl, hbefore⟩)
            · exact ⟨hnew, [], docs, rfl, List.forall_mem_nil _⟩
            · exact ⟨hd, e :: before, after, rfl,
                List.forall_mem_cons.2 ⟨Ne.symm hne, hbefore⟩⟩
          · rintro ⟨hd, before, after, hdocs, hbefore⟩
            cases before with
            | nil =>
                exact .inl (List.cons.inj hdocs).1.symm
            | cons f before =>
                obtain ⟨rfl, rfl⟩ := List.cons.inj hdocs
                rw [List.forall_mem_cons] at hbefore
                exact .inr ⟨⟨Ne.symm hbefore.1, hd⟩, before, after, rfl, hbefore.2⟩

/-- The type of each documentation has a first one. -/
theorem exists_mem_firstOfType
    (hd : d ∈ docs)
    (hnew : d.type ∉ seen) :
    ∃ e ∈ firstOfType seen docs, e.type = d.type := by
  cases hfind : docs.find? fun e => decide (e.type = d.type) with
  | none =>
      exact absurd (decide_eq_true rfl) (List.find?_eq_none.1 hfind d hd)
  | some e =>
      obtain ⟨he, before, after, hdocs, hbefore⟩ := List.find?_eq_some_iff_append.1 hfind
      have htype := of_decide_eq_true he
      refine ⟨e, mem_firstOfType_iff.2 ⟨htype ▸ hnew, before, after, hdocs, fun f hf => ?_⟩, htype⟩
      rw [htype]
      simpa using hbefore f hf

theorem pairwise_firstOfType (seen : List String) (docs : List WidgetDoc) :
    (firstOfType seen docs).Pairwise fun d e => d.type ≠ e.type := by
  induction docs generalizing seen with
  | nil =>
      exact List.Pairwise.nil
  | cons e docs ih =>
      rw [firstOfType]
      split
      · exact ih seen
      · refine List.pairwise_cons.2 ⟨fun d hd heq => ?_, ih _⟩
        exact (mem_firstOfType_iff.1 hd).1 (heq ▸ List.mem_cons_self)

end First

/-! ## The order of types -/

section Order

variable {d : WidgetDoc}
variable {docs : List WidgetDoc}

theorem insertByType_perm (d : WidgetDoc) (docs : List WidgetDoc) :
    (insertByType d docs).Perm (d :: docs) := by
  induction docs with
  | nil =>
      exact .refl _
  | cons e docs ih =>
      rw [insertByType]
      split
      · exact (ih.cons e).trans (.swap d e docs)
      · exact .refl _

theorem sortByType_perm (docs : List WidgetDoc) : (sortByType docs).Perm docs := by
  induction docs with
  | nil =>
      exact .refl _
  | cons d docs ih =>
      exact (insertByType_perm d _).trans (ih.cons d)

theorem pairwise_insertByType
    (h : docs.Pairwise fun e f => e.type < f.type)
    (hnew : ∀ e ∈ docs, e.type ≠ d.type) :
    (insertByType d docs).Pairwise fun e f => e.type < f.type := by
  induction docs with
  | nil =>
      exact List.pairwise_singleton _ d
  | cons e docs ih =>
      obtain ⟨hbefore, hdocs⟩ := List.pairwise_cons.1 h
      rw [List.forall_mem_cons] at hnew
      rw [insertByType]
      split
      · next hlt =>
          refine List.pairwise_cons.2 ⟨fun f hf => ?_, ih hdocs hnew.2⟩
          rcases List.mem_cons.1 ((insertByType_perm d docs).mem_iff.1 hf) with rfl | hf
          · exact hlt
          · exact hbefore f hf
      · next hge =>
          have hlt : d.type < e.type := lt_of_le_of_ne (not_lt.1 hge) (Ne.symm hnew.1)
          refine List.pairwise_cons.2 ⟨fun f hf => ?_, h⟩
          rcases List.mem_cons.1 hf with rfl | hf
          · exact hlt
          · exact lt_trans hlt (hbefore f hf)

theorem pairwise_sortByType
    (h : docs.Pairwise fun e f => e.type ≠ f.type) :
    (sortByType docs).Pairwise fun e f => e.type < f.type := by
  induction docs with
  | nil =>
      exact List.Pairwise.nil
  | cons d docs ih =>
      obtain ⟨hne, hdocs⟩ := List.pairwise_cons.1 h
      refine pairwise_insertByType (ih hdocs) fun e he => ?_
      exact Ne.symm (hne e ((sortByType_perm docs).mem_iff.1 he))

end Order

/-! ## From sections to widgets -/

section Extraction

variable {found : List Section}
variable {d : WidgetDoc}

theorem mem_widgets_iff :
    d ∈ sortByType (firstOfType [] (found.filterMap docOf?)) ↔
      ∃ before s after, found = before ++ s :: after ∧ docOf? s = some d ∧
        ∀ e ∈ before, ¬Declares e d.type := by
  have hnone : ∀ {e : Section} {type : String}, docOf? e = none → ¬Declares e type := by
    intro e type he hdeclares
    obtain ⟨f, hf, -⟩ := exists_docOf?_of_declares hdeclares
    cases he.symm.trans hf
  rw [(sortByType_perm _).mem_iff, mem_firstOfType_iff, and_iff_right List.not_mem_nil]
  constructor
  · rintro ⟨before, after, hdocs, hbefore⟩
    obtain ⟨front, back, rfl, hfront, hback⟩ := List.filterMap_eq_append_iff.1 hdocs
    obtain ⟨silent, s, rest, rfl, hsilent, hs, -⟩ := List.filterMap_eq_cons_iff.1 hback
    refine ⟨front ++ silent, s, rest, by rw [List.append_assoc], hs, fun e he hdeclares => ?_⟩
    rcases List.mem_append.1 he with he | he
    · obtain ⟨f, hf, htype⟩ := exists_docOf?_of_declares hdeclares
      refine hbefore f ?_ htype
      rw [← hfront]
      exact List.mem_filterMap.2 ⟨e, he, hf⟩
    · exact hnone (hsilent e he) hdeclares
  · rintro ⟨before, s, after, rfl, hs, hbefore⟩
    refine ⟨before.filterMap docOf?, after.filterMap docOf?, ?_, fun f hf htype => ?_⟩
    · rw [List.filterMap_append, List.filterMap_cons_some hs]
    · obtain ⟨e, he, hdoc⟩ := List.mem_filterMap.1 hf
      exact hbefore e he (htype ▸ (docOf?_eq_some_iff.1 hdoc).1)

/-- What is taken from sections is the documentation in them. -/
theorem extracts (found : List Section) :
    Extracts found (sortByType (firstOfType [] (found.filterMap docOf?))) where
  sorted := (pairwise_sortByType (pairwise_firstOfType [] _)).imp Text.bytes_lt_bytes_iff.2
  complete := by
    intro type
    constructor
    · rintro ⟨d, hd, rfl⟩
      obtain ⟨before, s, after, rfl, hs, -⟩ := mem_widgets_iff.1 hd
      exact ⟨s, List.mem_append_right before List.mem_cons_self, (docOf?_eq_some_iff.1 hs).1⟩
    · rintro ⟨s, hs, hdeclares⟩
      obtain ⟨d, hd, rfl⟩ := exists_docOf?_of_declares hdeclares
      obtain ⟨e, he, htype⟩ :=
        exists_mem_firstOfType (List.mem_filterMap.2 ⟨s, hs, hd⟩) List.not_mem_nil
      exact ⟨e, (sortByType_perm _).mem_iff.2 he, htype⟩
  documents := by
    intro d hd
    obtain ⟨before, s, after, rfl, hs, hbefore⟩ := mem_widgets_iff.1 hd
    obtain ⟨hdeclares, hname, hmarkdown, hexample⟩ := docOf?_eq_some_iff.1 hs
    exact ⟨⟨before, s, after, rfl, hdeclares, hbefore, hname, hmarkdown⟩, hexample⟩

end Extraction

/-! ## The chapter of a document -/

section Document

variable {pre body rest : String}

/-- A chapter whose headings of widgets each are a line with a name; the last of them is
not the last line in front of another chapter, where it would lose its line feed. -/
structure WidgetsThen (body rest : List Char) : Prop extends ChapterThen body rest where
  named : ∀ p ∈ Text.pieces body, isUnnamed "###".toList p = false
  last_line : rest = [] ∧ Text.EndsLine body ∨
    ∀ l ∈ (Text.pieces body).getLast?, headingName? "###".toList l = none

/-- The heading of the chapter is in front of its sections. -/
theorem sections_alone (body : String) :
    sections "###" ("## Widgets\n" ++ body).toList =
      (splitFrom "###".toList true body.toList).2 := by
  have hname : headingName? "###".toList (widgetsHeading ++ ['\n']) = none := by decide
  rw [sections, toList_alone, splitFrom_line (by decide) (by decide) (by decide), putLine, hname]

theorem widgets_of_widgetsThen
    (hpre : Text.EndsLine pre.toList)
    (hnot : ¬widgetsHeading <:+: pre.toList)
    (h : WidgetsThen body.toList rest.toList) :
    widgets (pre ++ "## Widgets\n" ++ body ++ rest) =
      sortByType (firstOfType []
        ((lineSections "###".toList body.toList).filterMap docOf?)) := by
  have hlines : sections "###" ("## Widgets\n" ++ body).toList =
      lineSections "###".toList body.toList := by
    rw [sections_alone, splitFrom_eq_lineSections (by decide) h.named
      (h.last_line.imp_left And.right)]
  have hrest : rest = "" ∨ ¬EndsInHeading (sections "###" ("## Widgets\n" ++ body).toList) := by
    rw [hlines]
    refine h.last_line.imp (fun h => ?_) not_endsInHeading_lineSections
    rw [← String.ofList_toList (s := rest), h.1]
  rw [widgets_of_no_occurrence hpre hnot h.toChapterThen hrest, widgets_alone h.no_chapter, hlines]

theorem declares_clock : ∃ s ∈ lineSections "###".toList clockBody.toList, Declares s "clock" := by
  refine ⟨⟨"### Clock\n".toList, "Clock", "- type: clock\n".toList⟩, by decide +kernel, ?_⟩
  rw [← firstMatch?_typeItem?_iff]
  decide +kernel

/-- The widgets of a document are those of the sections that its chapter is split into.
These are the sections of the chapter line by line, behind every text in front of it that
has nowhere what reads like the heading of the chapter, and only behind these. -/
theorem widgets_extracts_iff
    (hpre : Text.EndsLine pre.toList) :
    (∀ text chapter, widgetsChapter? text.toList = some chapter →
      Extracts (sections "###" chapter) (widgets text)) ∧
    ((∀ body rest, WidgetsThen body.toList rest.toList →
      Extracts (lineSections "###".toList body.toList)
        (widgets (pre ++ "## Widgets\n" ++ body ++ rest))) ↔
      ¬widgetsHeading <:+: pre.toList) := by
  refine ⟨fun text chapter hchapter => ?_, fun hall hinfix => ?_, fun hnot body rest h => ?_⟩
  · rw [widgets_of_widgetsChapter? hchapter]
    exact extracts _
  · have hempty := hall "" "" ⟨⟨by decide, .inl rfl⟩, by decide, .inl ⟨rfl, by decide⟩⟩
    have hclock := hall clockBody ""
      ⟨⟨by decide +kernel, .inl rfl⟩, by decide +kernel, .inl ⟨rfl, by decide +kernel⟩⟩
    rw [widgets_of_occurrence hpre hinfix clockBody "" "" ""] at hclock
    obtain ⟨d, hd, htype⟩ := (hclock.complete "clock").2 declares_clock
    obtain ⟨s, hs, -⟩ := (hempty.complete "clock").1 ⟨d, hd, htype⟩
    cases hs
  · rw [widgets_of_widgetsThen hpre hnot h]
    exact extracts _

/-- Two types, one of them declared by two sections and with an example. -/
def clocksBody : String :=
  "### RSS\n- type: rss\n### Clock\n```yml\n- type: clock\n```\n### Again\n- type: clock\n"

/-- Between other chapters, the first section of each type counts. -/
theorem widgets_extracts_clocks :
    Text.EndsLine "# Pages\n\n".toList ∧ WidgetsThen clocksBody.toList "## Branding\n".toList ∧
      Extracts (lineSections "###".toList clocksBody.toList)
        (widgets ("# Pages\n\n" ++ "## Widgets\n" ++ clocksBody ++ "## Branding\n")) ∧
      (widgets ("# Pages\n\n" ++ "## Widgets\n" ++ clocksBody ++ "## Branding\n")).map
        (fun d => (d.type, d.name, d.example?)) =
          [("clock", "Clock", some (.map [("type", .str "clock")])), ("rss", "RSS", none)] := by
  have hpre : Text.EndsLine "# Pages\n\n".toList := by decide +kernel
  have hchapter : ChapterThen clocksBody.toList "## Branding\n".toList :=
    ⟨by decide +kernel, .inr ⟨by decide +kernel, by decide +kernel⟩⟩
  have hwidgets : WidgetsThen clocksBody.toList "## Branding\n".toList :=
    ⟨hchapter, by decide +kernel, .inr (by decide +kernel)⟩
  have hextracts := (widgets_extracts_iff hpre).2.2 (by decide +kernel) clocksBody _ hwidgets
  exact ⟨hpre, hwidgets, hextracts, by decide +kernel⟩

/-- Behind a heading of a lower level no widget is extracted, although the chapter has the
section of one, and no line in front of it is its heading. -/
theorem not_widgets_extracts :
    Text.EndsLine "### Widgets\n\n".toList ∧
      (∀ p ∈ Text.pieces "### Widgets\n\n".toList, ¬widgetsHeading <+: p) ∧
      WidgetsThen clockBody.toList [] ∧
      widgets ("### Widgets\n\n" ++ "## Widgets\n" ++ clockBody ++ "") = [] ∧
      ¬Extracts (lineSections "###".toList clockBody.toList)
        (widgets ("### Widgets\n\n" ++ "## Widgets\n" ++ clockBody ++ "")) := by
  have hnone : widgets ("### Widgets\n\n" ++ "## Widgets\n" ++ clockBody ++ "") = [] := by
    decide +kernel
  refine ⟨by decide +kernel, by decide +kernel,
    ⟨⟨by decide +kernel, .inl rfl⟩, by decide +kernel, .inl ⟨rfl, by decide +kernel⟩⟩, hnone, ?_⟩
  intro hextracts
  rw [hnone] at hextracts
  obtain ⟨d, hd, -⟩ := (hextracts.complete "clock").2 declares_clock
  cases hd

end Document

end Dashboard.Markdown

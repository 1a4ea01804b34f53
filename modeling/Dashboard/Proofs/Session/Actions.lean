import Dashboard.Proofs.Session.Turns

/-!
# What an action may do

Each action is walked through once.  Main statement: done at a desk, an action edits the
session, saves or loads a document, or fails and leaves the session as it was but for the
file name that saving under another name has taken over by then.
-/

namespace Dashboard

/-! ## What an action is about -/

/-- The level of the target of an action. -/
def Action.target? : Action → Option Level
  | renamePage | deletePage | addColumn | selectColumn => some .page
  | editColumn | deleteColumn | addWidget | selectWidget => some .column
  | editWidget | deleteWidget | editOption => some .widget
  | preview | addPage | selectPage | insertTemplate | widgetDocs | save | saveAs | load | quit =>
    none

namespace Selection

variable {s : Selection}
variable {d : Document}

/-- The target of a level exists. -/
def Finds (s : Selection) (d : Document) : Level → Prop
  | .page => ∃ page, s.page? d = some page
  | .column => ∃ column, s.column? d = some column
  | .widget => ∃ widget, s.widget? d = some widget

/-- A page that is found is selected and can be looked up. -/
theorem exists_page
    {page : Page}
    (h : s.page? d = some page) :
    ∃ p, s.page = some p ∧ d.page p = .ok page := by
  obtain ⟨p, hp, hpage⟩ := Option.bind_eq_some_iff.1 h
  refine ⟨p, hp, ?_⟩
  rw [Document.page, elementAt, hpage]

/-- A column that is found is selected in a page and can be looked up. -/
theorem exists_column
    {column : Column}
    (h : s.column? d = some column) :
    ∃ p c, s.page = some p ∧ s.column = some c ∧ d.column p c = .ok column := by
  obtain ⟨page, hpage, h⟩ := Option.bind_eq_some_iff.1 h
  obtain ⟨p, hp, hpage⟩ := exists_page hpage
  obtain ⟨c, hc, hcolumn⟩ := Option.bind_eq_some_iff.1 h
  refine ⟨p, c, hp, hc, bind_eq_ok.2 ⟨page, hpage, ?_⟩⟩
  rw [elementAt, hcolumn]

/-- A widget that is found is selected in a column and can be looked up. -/
theorem exists_widget
    {widget : Widget}
    (h : s.widget? d = some widget) :
    ∃ p c w, s.page = some p ∧ s.column = some c ∧ s.widget = some w ∧
      d.widget p c w = .ok widget := by
  obtain ⟨column, hcolumn, h⟩ := Option.bind_eq_some_iff.1 h
  obtain ⟨p, c, hp, hc, hcolumn⟩ := exists_column hcolumn
  obtain ⟨w, hw, hwidget⟩ := Option.bind_eq_some_iff.1 h
  refine ⟨p, c, w, hp, hc, hw, bind_eq_ok.2 ⟨column, hcolumn, ?_⟩⟩
  rw [elementAt, hwidget]

end Selection

namespace Session

open Activity

/-! ## Targets -/

section Lookups

variable {d : Document}
variable {p c w : Nat}

theorem outOfRange?_page (h : ∃ page, d.page p = .ok page) : d.outOfRange? (.page p) = none := by
  obtain ⟨page, hlookup⟩ := h
  exact Document.errorOf?_page.symm.trans (congrArg errorOf? hlookup)

theorem outOfRange?_column (h : ∃ column, d.column p c = .ok column) :
    d.outOfRange? (.column p c) = none := by
  obtain ⟨column, hlookup⟩ := h
  exact Document.errorOf?_column.symm.trans (congrArg errorOf? hlookup)

theorem outOfRange?_widget (h : ∃ widget, d.widget p c w = .ok widget) :
    d.outOfRange? (.widget p c w) = none := by
  obtain ⟨widget, hlookup⟩ := h
  exact Document.errorOf?_widget.symm.trans (congrArg errorOf? hlookup)

end Lookups

section Targets

variable {found : Prop}
variable {s : Session}

/-- The target of an action is selected and exists, if it has one. -/
def FindsTarget (s : Session) (a : Action) : Prop :=
  ∀ level, a.target? = some level → s.selection.Finds s.editor.document level

theorem ends_require
    {level : Level}
    (h : found → ∃ i, s.selection.place? level = some i) :
    Ends s (require level) (fun i s' => s' = s ∧ s.selection.place? level = some i)
      (Refused found s) := by
  refine ends_session_bind ?_
  split
  · next i hi =>
      exact ends_pure ⟨rfl, hi⟩
  · next hnone =>
      refine ends_fail ⟨rfl, fun hfound => ?_⟩
      obtain ⟨i, hi⟩ := h hfound
      cases hnone.symm.trans hi

/-- A page that is found can be looked up where it is required. -/
theorem ends_requirePage (h : found → s.selection.Finds s.editor.document .page) :
    Ends s (require .page)
      (fun p s' => s' = s ∧ (found → ∃ page, s.editor.document.page p = .ok page))
      (Refused found s) := by
  have hplace : found → ∃ p page, s.selection.place? .page = some p ∧
      s.editor.document.page p = .ok page := by
    intro hfound
    obtain ⟨page, hpage⟩ := h hfound
    obtain ⟨p, hp, hlookup⟩ := Selection.exists_page hpage
    exact ⟨p, page, hp, hlookup⟩
  refine (ends_require fun hfound => ?_).mono fun p s' ⟨hsame, hp⟩ => ⟨hsame, fun hfound => ?_⟩
  · obtain ⟨p, -, hp, -⟩ := hplace hfound
    exact ⟨p, hp⟩
  · obtain ⟨p', page, hp', hlookup⟩ := hplace hfound
    cases hp.symm.trans hp'
    exact ⟨page, hlookup⟩

/-- A column that is found can be looked up where it is required. -/
theorem ends_requireColumn (h : found → s.selection.Finds s.editor.document .column) :
    Ends s requireColumn
      (fun i s' => s' = s ∧ (found → ∃ column, s.editor.document.column i.1 i.2 = .ok column))
      (Refused found s) := by
  have hplaces : found → ∃ p c column, s.selection.place? .page = some p ∧
      s.selection.place? .column = some c ∧ s.editor.document.column p c = .ok column := by
    intro hfound
    obtain ⟨column, hcolumn⟩ := h hfound
    obtain ⟨p, c, hp, hc, hlookup⟩ := Selection.exists_column hcolumn
    exact ⟨p, c, column, hp, hc, hlookup⟩
  refine (ends_require fun hfound => ?_).bind_same fun p hp => ?_
  · obtain ⟨p, -, -, hp, -⟩ := hplaces hfound
    exact ⟨p, hp⟩
  refine (ends_require fun hfound => ?_).bind_same fun c hc => ?_
  · obtain ⟨-, c, -, -, hc, -⟩ := hplaces hfound
    exact ⟨c, hc⟩
  refine ends_pure ⟨rfl, fun hfound => ?_⟩
  obtain ⟨p', c', column, hp', hc', hlookup⟩ := hplaces hfound
  cases hp.symm.trans hp'
  cases hc.symm.trans hc'
  exact ⟨column, hlookup⟩

/-- A widget that is found can be looked up where it is required. -/
theorem ends_requireWidget (h : found → s.selection.Finds s.editor.document .widget) :
    Ends s requireWidget
      (fun i s' => s' = s ∧
        (found → ∃ widget, s.editor.document.widget i.1 i.2.1 i.2.2 = .ok widget))
      (Refused found s) := by
  have hplaces : found → ∃ p c w widget, s.selection.place? .page = some p ∧
      s.selection.place? .column = some c ∧ s.selection.place? .widget = some w ∧
      s.editor.document.widget p c w = .ok widget := by
    intro hfound
    obtain ⟨widget, hwidget⟩ := h hfound
    obtain ⟨p, c, w, hp, hc, hw, hlookup⟩ := Selection.exists_widget hwidget
    exact ⟨p, c, w, widget, hp, hc, hw, hlookup⟩
  refine (ends_require fun hfound => ?_).bind_same fun p hp => ?_
  · obtain ⟨p, -, -, -, hp, -⟩ := hplaces hfound
    exact ⟨p, hp⟩
  refine (ends_require fun hfound => ?_).bind_same fun c hc => ?_
  · obtain ⟨-, c, -, -, -, hc, -⟩ := hplaces hfound
    exact ⟨c, hc⟩
  refine (ends_require fun hfound => ?_).bind_same fun w hw => ?_
  · obtain ⟨-, -, w, -, -, -, hw, -⟩ := hplaces hfound
    exact ⟨w, hw⟩
  refine ends_pure ⟨rfl, fun hfound => ?_⟩
  obtain ⟨p', c', w', widget, hp', hc', hw', hlookup⟩ := hplaces hfound
  cases hp.symm.trans hp'
  cases hc.symm.trans hc'
  cases hw.symm.trans hw'
  exact ⟨widget, hlookup⟩

end Targets

/-! ## Edits -/

section Edits

variable {found : Prop}
variable {s : Session}
variable {p c w : Nat}

/-! ### Pages -/

theorem edits_addPage : Edits found s addPage :=
  (edits_dialog (k := .addPage) fun _ => rfl).bind_applied rfl fun _ _ h => ends_select h

theorem edits_selectPage : Edits found s selectPage := by
  refine ends_session_bind ?_
  exact (asks_pick _ _ _).bind_answered rfl fun p => ends_select .refl

theorem edits_renamePage (h : found → s.selection.Finds s.editor.document .page) :
    Edits found s renamePage := by
  refine (ends_requirePage h).bind_same fun p hpage => ?_
  refine Edits.bind (edits_dialog (k := .renamePage p) fun hfound => ?_) fun _ _ h => ends_pure h
  exact outOfRange?_page (hpage hfound)

theorem edits_deletePage (h : found → s.selection.Finds s.editor.document .page) :
    Edits found s deletePage := by
  refine (ends_requirePage h).bind_same fun p hpage => ?_
  refine ends_session_bind ?_
  refine (asks_lookup hpage).bind fun page => ?_
  refine (asks_confirm _).bind_sure ?_
  refine Edits.bind (edits_adopt fun hfound => ?_) fun _ _ h => ends_pure h
  obtain ⟨_, hlookup⟩ := hpage hfound
  exact Editor.inRange_deletePage hlookup

/-! ### Columns -/

theorem edits_addColumn (h : found → s.selection.Finds s.editor.document .page) :
    Edits found s addColumn := by
  refine (ends_requirePage h).bind_same fun p hpage => ?_
  refine Edits.bind_applied (edits_dialog (k := .addColumn p) fun hfound => ?_) rfl
    fun _ _ h => ends_select h
  exact outOfRange?_page (hpage hfound)

theorem edits_selectColumn (h : found → s.selection.Finds s.editor.document .page) :
    Edits found s selectColumn := by
  refine (ends_requirePage h).bind_same fun p hpage => ?_
  refine ends_session_bind ?_
  refine (asks_lookup hpage).bind fun page => ?_
  exact (asks_pick _ _ _).bind_answered rfl fun c => ends_select .refl

theorem edits_editColumn (h : found → s.selection.Finds s.editor.document .column) :
    Edits found s editColumn := by
  refine (ends_requireColumn h).bind_same fun (p, c) hcolumn => ?_
  refine ends_session_bind ?_
  refine (asks_lookup hcolumn).bind fun column => ?_
  -- the dialog is reached with and without the question, so it is looked at once
  extract_lets widgets rest
  have hrest : ∀ sure, Edits found s (rest sure) := by
    intro sure
    cases sure with
    | true =>
        refine Edits.bind_applied (edits_dialog (k := .editColumn p c) fun hfound => ?_) rfl
          fun _ _ h => ends_select h
        exact outOfRange?_column (hcolumn hfound)
    | false =>
        exact ends_pure .refl
  split
  · exact hrest true
  · exact (asks_confirm _).bind hrest

theorem edits_deleteColumn (h : found → s.selection.Finds s.editor.document .column) :
    Edits found s deleteColumn := by
  refine (ends_requireColumn h).bind_same fun (p, c) hcolumn => ?_
  refine (asks_confirm _).bind_sure ?_
  refine Edits.bind (edits_adopt fun hfound => ?_) fun _ _ h => ends_pure h
  obtain ⟨_, hlookup⟩ := hcolumn hfound
  exact Editor.inRange_deleteColumn hlookup

/-! ### Widgets -/

theorem edits_addWidget (h : found → s.selection.Finds s.editor.document .column) :
    Edits found s addWidget := by
  refine (ends_requireColumn h).bind_same fun (p, c) hcolumn => ?_
  refine (asks_askType _).bind fun r => ?_
  refine (asks_optional r).bind_answered rfl fun type => ?_
  refine ends_session_bind ?_
  extract_lets initial prompt
  refine Edits.bind_applied ?_ rfl fun _ _ h => ends_select h
  refine edits_dialog (k := .addWidget p c initial) fun hfound => ?_
  exact outOfRange?_column (hcolumn hfound)

theorem edits_selectWidget (h : found → s.selection.Finds s.editor.document .column) :
    Edits found s selectWidget := by
  refine (ends_requireColumn h).bind_same fun (p, c) hcolumn => ?_
  refine ends_session_bind ?_
  refine (asks_lookup hcolumn).bind fun column => ?_
  exact (asks_pick _ _ _).bind_answered rfl fun w => ends_select .refl

theorem edits_editWidget (h : found → s.selection.Finds s.editor.document .widget) :
    Edits found s editWidget := by
  refine (ends_requireWidget h).bind_same fun (p, c, w) hwidget => ?_
  refine ends_session_bind ?_
  refine Edits.bind (edits_dialog (k := .editWidget p c w) fun hfound => ?_) fun _ _ h => ends_pure h
  exact outOfRange?_widget (hwidget hfound)

theorem edits_deleteWidget (h : found → s.selection.Finds s.editor.document .widget) :
    Edits found s deleteWidget := by
  refine (ends_requireWidget h).bind_same fun (p, c, w) hwidget => ?_
  refine (asks_confirm _).bind_sure ?_
  refine Edits.bind (edits_adopt fun hfound => ?_) fun _ _ h => ends_pure h
  obtain ⟨_, hlookup⟩ := hwidget hfound
  exact Editor.inRange_deleteWidget hlookup

/-! ### Options -/

/-- A change of the selected widget is refused only by itself. -/
theorem edits_changeWidget
    {α : Type}
    {change : Widget → Except Error (α × Widget)}
    (hwidget : found → ∃ widget, s.editor.document.widget p c w = .ok widget)
    (hchange : ∀ widget, InRange (change widget)) :
    Edits found s
      (act fun ed => ed.adopt ((ed.document.changeWidget p c w change).map Editor.quiet)) := by
  refine edits_adopt fun hfound => ?_
  obtain ⟨widget, hlookup⟩ := hwidget hfound
  exact Editor.inRange_changeWidget hlookup (hchange widget)

theorem edits_changeOption
    (hwidget : found → ∃ widget, s.editor.document.widget p c w = .ok widget)
    (path : Path)
    (action : OptionAction) :
    Edits found s (changeOption p c w path action) := by
  cases action with
  | read =>
      refine ends_session_bind ?_
      refine (asks_lookup hwidget).bind fun widget => ?_
      refine (asks_ofResult fun _ => inRange_getOption widget path).bind fun v => ?_
      exact ends_say .refl
  | replace =>
      refine asks_askValue.bind_answered rfl fun v => ?_
      refine Edits.bind (edits_changeWidget hwidget fun widget => ?_) fun _ _ h => ends_say h
      exact inRange_setOption widget path v
  | insert =>
      refine asks_askValue.bind_answered rfl fun v => ?_
      exact edits_changeWidget hwidget fun widget => (inRange_insertOption widget path v).map _
  | delete =>
      refine Edits.bind (edits_changeWidget hwidget fun widget => ?_) fun _ _ h => ends_say h
      exact inRange_deleteOption widget path

theorem edits_editOption (h : found → s.selection.Finds s.editor.document .widget) :
    Edits found s editOption := by
  refine (ends_requireWidget h).bind_same fun (p, c, w) hwidget => ?_
  refine (asks_ask _ _).bind fun r => ?_
  refine (asks_optional r).bind_answered rfl fun i => ?_
  refine (asks_ask _ _).bind fun r => ?_
  refine (asks_optional r).bind_answered rfl fun text => ?_
  refine (asks_ofResult fun _ => inRange_readPath text).bind fun path => ?_
  split
  · exact edits_changeOption hwidget path _
  · exact ends_pure .refl

/-! ### Reference data -/

theorem edits_insertTemplate : Edits found s insertTemplate := by
  refine ends_session_bind ?_
  -- the rest comes after the check for templates
  extract_lets labels rest
  have hrest : ∀ u, Edits found s (rest u) := by
    intro u
    refine (asks_pick _ _ _).bind_answered rfl fun i => ?_
    refine Edits.bind (edits_act (fun _ _ _ => Editor.exists_withDocument_of_insertTemplate)
      fun _ => Editor.inRange_insertTemplate _ _) fun added s' h => ?_
    refine ends_say_bind ?_
    split
    · exact ends_select h
    · exact ends_pure h
  split
  · refine Asks.bind (ends_fail ⟨rfl, fun _ => ?_⟩) hrest
    rintro ⟨level, h⟩
    cases level <;> exact absurd h (by decide)
  · exact hrest ()

theorem edits_showDocs : Edits found s showDocs := by
  refine ends_session_bind ?_
  refine (asks_askType _).bind fun r => ?_
  refine (asks_optional r).bind_answered rfl fun type => ?_
  simp only
  split
  · exact ends_say .refl
  · refine ends_fail ⟨rfl, fun _ => ?_⟩
    -- the messages differ in their first character
    rintro ⟨level, h⟩
    have hfirst := congrArg (fun text => text.toList.head?) h
    simp [Selection.missing] at hfirst

end Edits

/-! ## What an action comes to -/

/-- The file that is saved to after an action has failed: saving under another name has
taken that over by then. -/
def takenTarget (d : Desk) : Action → String
  | .saveAs =>
    match (askPath "Save to:" d.session.target).run d with
    | (.ok (some path), _) => path
    | _ => d.session.target
  | _ => d.session.target

/-- What doing an action in a session comes to: an edit, a document that is saved or
loaded and counts as saved from then on, or a failure. -/
inductive Done (s : Session) (found : Prop) (stored : Option Document) (taken : String) :
    Except Trouble Unit × Desk → Prop where
  | edited
      {d : Desk}
      (session : Edited s d.session)
      (stored_eq : stored = none) :
      Done s found stored taken (.ok (), d)
  | saved
      {d : Desk}
      (target : String)
      (session : d.session = { s with target, saved := s.editor.preview })
      (stored_eq : stored = some s.editor.document) :
      Done s found stored taken (.ok (), d)
  | loaded
      {d : Desk}
      (target : String)
      (document : Document)
      (session : d.session =
        { editor := s.editor.withDocument document, target, saved := document.render })
      (stored_eq : stored = some document) :
      Done s found stored taken (.ok (), d)
  | failed
      {t : Trouble}
      {d : Desk}
      (session : d.session = { s with target := taken })
      (stored_eq : stored = none)
      (onTarget : found → ¬t.MissesTarget) :
      Done s found stored taken (.error t, d)

section Done

variable {found : Prop}

/-- An activity that only edits comes to an edit or to a failure. -/
theorem done_of_edits
    {x : Activity Unit}
    {d : Desk}
    (hx : Edits found d.session x) :
    Done d.session found none d.session.target (x.run d) := by
  have hend := hx d rfl
  cases hrun : x.run d with
  | mk result d' =>
      rw [hrun] at hend
      cases result with
      | ok u =>
          exact .edited hend rfl
      | error t =>
          exact .failed hend.session rfl hend.onTarget

/-- Saving to a file that has been taken over writes the document, or is refused. -/
theorem done_saveTo
    (path : String)
    (d : Desk) :
    Done d.session found (savedTo? path d) path
      (save.run { d with session := { d.session with target := path } }) := by
  rw [savedTo?]
  simp only [save, bind, next, session, files]
  cases hsave : d.session.editor.save d.shell.files path with
  | ok fs =>
      exact .saved path rfl rfl
  | error e =>
      have hinRange := Editor.inRange_save _ _ _ e hsave
      exact .failed rfl rfl fun _ => Trouble.not_missesTarget_refused hinRange

/-- The name is taken over before the document is saved, be that refused or not. -/
theorem done_saveAs (d : Desk) :
    Done d.session found (stored? d .saveAs) (takenTarget d .saveAs) (saveAs.run d) := by
  have hasks : Asks True d.session (askPath "Save to:" d.session.target) := asks_askPath _ _
  rcases hasks.cases with ⟨path?, d₁, hasked, hkept⟩ | ⟨t, d₁, hasked, hkept, ht⟩
  · simp only [stored?, takenTarget, hasked]
    cases path? with
    | none =>
        have hrun : saveAs.run d = (.ok (), d₁) := by
          refine (run_bind_of_ok rfl).trans ?_
          exact run_bind_of_ok hasked
        rw [hrun]
        exact .edited (hkept ▸ .refl) rfl
    | some path =>
        have hrun : saveAs.run d =
            save.run { d₁ with session := { d₁.session with target := path } } := by
          refine (run_bind_of_ok rfl).trans ?_
          exact run_bind_of_ok hasked
        rw [hrun, ← hkept]
        exact done_saveTo path d₁
  · have hrun : saveAs.run d = (.error t, d₁) := by
      refine (run_bind_of_ok rfl).trans ?_
      exact run_bind_of_error hasked
    simp only [stored?, takenTarget, hasked]
    rw [hrun]
    exact .failed hkept rfl fun _ => ht

/-- The file that is asked for is opened, and only then it is the one that is saved to. -/
theorem done_loadAsked (d : Desk) :
    Done d.session found (askedFrom? d) d.session.target (loadAsked.run d) := by
  have hasks : Asks True d.session (askPath "Load from:" d.session.target) := asks_askPath _ _
  rcases hasks.cases with ⟨path?, d₁, hasked, hkept⟩ | ⟨t, d₁, hasked, hkept, ht⟩
  · simp only [askedFrom?, hasked]
    cases path? with
    | none =>
        have hrun : loadAsked.run d = (.ok (), d₁) := by
          refine (run_bind_of_ok rfl).trans ?_
          exact run_bind_of_ok hasked
        rw [hrun]
        exact .edited (hkept ▸ .refl) rfl
    | some path =>
        have hrun : loadAsked.run d =
            (openFile path >>= fun _ => change fun s =>
              { s with selection := {}, target := path }).run d₁ := by
          refine (run_bind_of_ok rfl).trans ?_
          exact run_bind_of_ok hasked
        rw [hrun, ← hkept]
        simp only [loadedFrom?]
        cases hload : (d₁.session.editor.load d₁.shell.files path).result with
        | ok r =>
            obtain ⟨d₂, hopened, hsession⟩ := openFile_of_ok hload
            obtain ⟨document, hdocument⟩ := Editor.exists_withDocument_of_load hload
            rw [run_bind_of_ok hopened]
            refine .loaded path document ?_ ?_
            · simp only [hsession, hdocument]
              rfl
            · simp only [hdocument]
              rfl
        | error e =>
            obtain ⟨d₂, hopened, hsession⟩ := openFile_of_error hload
            have hinRange := Editor.inRange_load _ _ _ e hload
            rw [run_bind_of_error hopened]
            exact .failed hsession rfl fun _ => Trouble.not_missesTarget_refused hinRange
  · have hrun : loadAsked.run d = (.error t, d₁) := by
      refine (run_bind_of_ok rfl).trans ?_
      exact run_bind_of_error hasked
    simp only [askedFrom?, hasked]
    rw [hrun]
    exact .failed hkept rfl fun _ => ht

theorem asks_mayLoad
    {s : Session} :
    Asks found s mayLoad := by
  refine ends_session_bind ?_
  split
  · exact asks_confirm _
  · exact ends_pure rfl

theorem done_load (d : Desk) :
    Done d.session found (stored? d .load) d.session.target (load.run d) := by
  have hasks : Asks True d.session mayLoad := asks_mayLoad
  rw [run_load]
  rcases hasks.cases with ⟨sure, d₁, hsure, hkept⟩ | ⟨t, d₁, hsure, hkept, ht⟩
  · rw [run_bind_of_ok hsure, ← hkept]
    simp only [stored?, hsure]
    cases sure with
    | false =>
        exact .edited .refl rfl
    | true =>
        exact done_loadAsked d₁
  · rw [run_bind_of_error hsure]
    simp only [stored?, hsure]
    exact .failed hkept rfl fun _ => ht

end Done

/-- Done at a desk, an action edits the session, saves or loads a document, or fails and
leaves the session as it was but for the name that saving under another name took over. -/
theorem done_perform
    (a : Action)
    (d : Desk) :
    Done d.session (FindsTarget d.session a) (stored? d a) (takenTarget d a)
      ((perform a).run d) := by
  cases a with
  | preview =>
      exact done_of_edits (ends_session_bind (ends_say .refl))
  | addPage =>
      exact done_of_edits edits_addPage
  | selectPage =>
      exact done_of_edits edits_selectPage
  | renamePage =>
      exact done_of_edits (edits_renamePage fun h => h .page rfl)
  | deletePage =>
      exact done_of_edits (edits_deletePage fun h => h .page rfl)
  | addColumn =>
      exact done_of_edits (edits_addColumn fun h => h .page rfl)
  | selectColumn =>
      exact done_of_edits (edits_selectColumn fun h => h .page rfl)
  | editColumn =>
      exact done_of_edits (edits_editColumn fun h => h .column rfl)
  | deleteColumn =>
      exact done_of_edits (edits_deleteColumn fun h => h .column rfl)
  | addWidget =>
      exact done_of_edits (edits_addWidget fun h => h .column rfl)
  | selectWidget =>
      exact done_of_edits (edits_selectWidget fun h => h .column rfl)
  | editWidget =>
      exact done_of_edits (edits_editWidget fun h => h .widget rfl)
  | deleteWidget =>
      exact done_of_edits (edits_deleteWidget fun h => h .widget rfl)
  | editOption =>
      exact done_of_edits (edits_editOption fun h => h .widget rfl)
  | insertTemplate =>
      exact done_of_edits edits_insertTemplate
  | widgetDocs =>
      exact done_of_edits edits_showDocs
  | save =>
      exact done_saveTo d.session.target d
  | saveAs =>
      exact done_saveAs d
  | load =>
      exact done_load d
  | quit =>
      exact done_of_edits (ends_pure .refl)

end Session

end Dashboard

import Dashboard.Proofs.Document.Kept
import Dashboard.Proofs.Editor.Operations
import Dashboard.Proofs.Editor.Reachable

/-!
# Keys that survive editing

Every operation of the editor but loading carries the settings along, and the
properties of each page and column that is still there afterwards.  The one
exception is the dialog that changes the size of a column: the column stays,
and its properties are lost when it had some.
-/

namespace Dashboard

/-- An operation that replaces the document by a loaded one. -/
def Editor.Operation.loads {β : Type} : Operation β → Bool
  | loadText _ => true
  | load _ => true
  | _ => false

namespace Editor

variable {α β : Type}
variable {ed ed' : Editor}

/-- The column that a dialog is about to start over. -/
def Dialog.startsOver? : Dialog α β → Option (Nat × Nat)
  | editColumn p c => some (p, c)
  | _ => none

/-- A dialog that is applied did its change for one of the answers. -/
theorem exists_direct_of_run
    {σ : Type}
    {k : Dialog α β}
    {prompt : Prompt σ α}
    {s : σ}
    {b : β}
    (h : (k.run ed prompt s).1 = .ok (.applied (b, ed'))) :
    ∃ a, k.direct ed.document a = .ok (b, ed'.document) := by
  cases hinitial : k.initial ed.document with
  | error e =>
      rw [Dialog.run_eq, hinitial] at h
      cases h
  | ok shown =>
      rw [Dialog.run_fst hinitial, map_eq_ok] at h
      obtain ⟨o, hasked, happlied⟩ := h
      cases o with
      | applied r =>
          cases happlied
          exact Prompt.exists_of_askUntilValid hasked
      | cancelled =>
          cases happlied

/-- No dialog takes out a page or a column. -/
theorem Dialog.keepsKeys_direct
    {k : Dialog α β}
    {d d' : Document}
    {a : α}
    {b : β}
    (h : k.direct d a = .ok (b, d')) :
    d.KeepsKeys .stay k.startsOver? d' := by
  cases k with
  | addPage =>
      exact Document.keepsKeys_addPage h
  | renamePage p =>
      obtain ⟨⟨old, d₁⟩, hchange, hpair⟩ := map_eq_ok.1 h
      cases hpair
      exact Document.keepsKeys_renamePage hchange
  | addColumn p =>
      obtain ⟨size, -, h⟩ := bind_eq_ok.1 h
      exact Document.keepsKeys_addColumn h
  | editColumn p c =>
      obtain ⟨size, -, h⟩ := bind_eq_ok.1 h
      obtain ⟨⟨old, d₁⟩, hchange, hpair⟩ := bind_eq_ok.1 h
      cases hpair
      exact Document.keepsKeys_editColumn hchange
  | addWidget p c shown =>
      obtain ⟨w, -, h⟩ := bind_eq_ok.1 h
      exact Document.keepsKeys_changeWidgets h
  | editWidget p c i =>
      obtain ⟨w, -, h⟩ := bind_eq_ok.1 h
      obtain ⟨⟨old, d₁⟩, hchange, hpair⟩ := bind_eq_ok.1 h
      cases hpair
      rw [Document.replaceWidget] at hchange
      exact Document.keepsKeys_changeWidgets hchange

/-- What a dialog that starts a column over loses is the properties that the
column had. -/
theorem Dialog.keepsKeys_direct_iff
    {k : Dialog α β}
    {d d' : Document}
    {a : α}
    {b : β}
    (h : k.direct d a = .ok (b, d')) :
    d.KeepsKeys .stay none d' ↔
      ∀ p c column, k.startsOver? = some (p, c) → d.column? p c = some column →
        column.properties = [] := by
  cases hover : k.startsOver? with
  | none =>
      have hkeeps := keepsKeys_direct h
      rw [hover] at hkeeps
      simp [hkeeps]
  | some place =>
      cases k with
      | editColumn p c =>
          cases hover
          obtain ⟨size, -, h⟩ := bind_eq_ok.1 h
          obtain ⟨⟨old, d₁⟩, hchange, hpair⟩ := bind_eq_ok.1 h
          cases hpair
          have hold := (Document.column?_of_editColumn hchange).1
          rw [Document.keepsKeys_editColumn_iff hchange]
          constructor
          · intro hnone p' c' column hplace hcolumn
            cases hplace
            cases hold.symm.trans hcolumn
            exact hnone
          · intro hnone
            exact hnone p c old rfl hold
      | addPage | renamePage p | addColumn p | addWidget p c shown | editWidget p c i =>
          cases hover

namespace Operation

/-- Where an operation leaves the pages and columns that it does not delete. -/
def shift : Operation β → Document.Shift
  | deletePage p => .withoutPage p
  | deleteColumn p c => .withoutColumn p c
  | _ => .stay

/-- The column that an operation is about to start over. -/
def startsOver? : Operation β → Option (Nat × Nat)
  | ask k _ _ => k.startsOver?
  | _ => none

variable {fs fs' : Files}
variable {o : Outcome β}

/-- Every operation but loading keeps all keys outside the column that it starts
over. -/
theorem keepsKeys_of_carryOut
    {op : Operation β}
    (hop : op.loads = false)
    (h : op.carryOut (ed, fs) = .ok (o, ed', fs')) :
    ed.document.KeepsKeys op.shift op.startsOver? ed'.document := by
  cases op with
  | ask k prompt s =>
      obtain ⟨result, hrun, hpair⟩ := map_eq_ok.1 h
      cases result with
      | applied r =>
          cases hpair
          obtain ⟨a, hdirect⟩ := exists_direct_of_run hrun
          exact Dialog.keepsKeys_direct hdirect
      | cancelled =>
          cases hpair
          exact Document.keepsKeys_self _
  | deletePage p =>
      obtain ⟨b, -, hresult⟩ := result_of_ofAct h
      obtain ⟨⟨page, d⟩, hchange, hdocument⟩ := exists_of_adopt hresult
      rw [hdocument]
      exact Document.keepsKeys_deletePage hchange
  | deleteColumn p c =>
      obtain ⟨b, -, hresult⟩ := result_of_ofAct h
      obtain ⟨⟨column, d⟩, hchange, hdocument⟩ := exists_of_adopt hresult
      rw [hdocument]
      exact Document.keepsKeys_deleteColumn hchange
  | deleteWidget p c i | insertOption p c i path v | setOption p c i path v
  | deleteOption p c i path =>
      obtain ⟨b, -, hresult⟩ := result_of_ofAct h
      obtain ⟨⟨old, d⟩, hchange, hdocument⟩ := exists_of_adopt hresult
      rw [hdocument]
      exact Document.keepsKeys_changeWidgets hchange
  | insertTemplate name =>
      obtain ⟨b, -, hresult⟩ := result_of_ofAct h
      obtain ⟨text, more, -, happend⟩ := appendPages_of_insertTemplate hresult
      have hkeeps : ed.document.KeepsKeys .stay none (ed.document.appendPages more).2 :=
        Document.keepsKeys_appendPages more.pages
      rw [happend] at hkeeps
      exact hkeeps
  | loadText text =>
      cases hop
  | load path =>
      cases hop
  | save path =>
      obtain ⟨fs₁, -, hpair⟩ := map_eq_ok.1 h
      cases hpair
      exact Document.keepsKeys_self _

end Operation

/-! ## A column that is made full -/

/-- A page with a small column that has a width. -/
def wideDocument : Document where
  pages := [{ name := "Home", columns := [{ size := .small, properties := [("width", .int 3)] }] }]

/-- The page with a full column that has no width. -/
def fullDocument : Document where
  pages := [{ name := "Home", columns := [{ size := .full }] }]

/-- A file with the page that has the width. -/
def wideText : String :=
  "pages: [\x7bname: Home, columns: [\x7bsize: small, width: 3\x7d]\x7d]"

/-- Change the size of the first column to full. -/
def makeFull : Operation Unit :=
  .ask (.editColumn 0 0) Script.prompt { answers := [some "full"] }

theorem loadText_wideText :
    ((ofReference {}).loadText wideText).result =
      .ok ((), (ofReference {}).withDocument wideDocument) := by
  have hread : Value.ofYaml? wideText = some (.map [("pages", .seq [.map [
      ("name", .str "Home"), ("columns", .seq [.map [
        ("size", .str "small"), ("width", .int 3)]])]])]) := by
    decide +kernel
  have hparse : Document.parse wideText = .ok wideDocument :=
    (Document.parse_eq_of_ofYaml? hread).trans rfl
  simp only [loadText, hparse]

theorem carryOut_makeFull :
    makeFull.carryOut ((ofReference {}).withDocument wideDocument, {}) =
      .ok (.applied (), (ofReference {}).withDocument fullDocument, {}) := by
  have hsize : ColumnSize.read "full" = .ok .full := rfl
  have hdirect : (Dialog.editColumn 0 0).direct wideDocument "full" = .ok ((), fullDocument) := by
    rw [Dialog.direct, hsize]
    rfl
  have houtcome : Script.outcome ((Dialog.editColumn 0 0).direct wideDocument)
      (Script.submitted [some "full"]) = .applied ((), fullDocument) := by
    simp [Script.outcome, Script.accepted?, Script.submitted, hdirect, Except.toOption]
  have hinitial : (Dialog.editColumn 0 0).initial
      ((ofReference {}).withDocument wideDocument).document = .ok "small" := rfl
  have hrun := (Dialog.run_script hinitial [some "full"]).1
  have hdocument : ((ofReference {}).withDocument wideDocument).document = wideDocument := rfl
  rw [hdocument, houtcome] at hrun
  rw [makeFull, Operation.carryOut, hrun]
  rfl

/-- Every operation but loading keeps the settings, and the properties of every
page and column that it does not delete, except for a column that it starts
over.  That column loses nothing exactly when it has nothing to lose. -/
theorem Operation.keepsKeys_iff_of_carryOut
    {fs fs' : Files}
    {o : Outcome β}
    {op : Operation β}
    (hop : op.loads = false)
    (h : op.carryOut (ed, fs) = .ok (o, ed', fs')) :
    ed.document.KeepsKeys op.shift op.startsOver? ed'.document ∧
      (ed.document.KeepsKeys op.shift none ed'.document ↔
        ∀ p c column, op.startsOver? = some (p, c) → o ≠ .cancelled →
          ed.document.column? p c = some column → column.properties = []) := by
  have hkeeps := Operation.keepsKeys_of_carryOut hop h
  refine ⟨hkeeps, ?_⟩
  cases hover : op.startsOver? with
  | none =>
      rw [hover] at hkeeps
      simp [hkeeps]
  | some place =>
      cases op with
      | ask k prompt s =>
          rw [← hover]
          obtain ⟨result, hrun, hpair⟩ := map_eq_ok.1 h
          cases result with
          | applied r =>
              cases hpair
              obtain ⟨a, hdirect⟩ := exists_direct_of_run hrun
              exact (Dialog.keepsKeys_direct_iff hdirect).trans (by simp [Operation.startsOver?])
          | cancelled =>
              cases hpair
              simp [Document.keepsKeys_self, Operation.shift]
      | _ =>
          cases hover

/-- Making the column full keeps all but the width of the column. -/
theorem keepsKeys_makeFull :
    makeFull.loads = false ∧
      makeFull.carryOut ((ofReference {}).withDocument wideDocument, {}) =
        .ok (.applied (), (ofReference {}).withDocument fullDocument, {}) ∧
      wideDocument.KeepsKeys .stay (some (0, 0)) fullDocument ∧
      (wideDocument.KeepsKeys .stay none fullDocument ↔
        ∀ p c column, some (0, 0) = some (p, c) → Outcome.applied () ≠ .cancelled →
          wideDocument.column? p c = some column → column.properties = []) :=
  ⟨rfl, carryOut_makeFull, Operation.keepsKeys_iff_of_carryOut rfl carryOut_makeFull⟩

/-- In an editor that loaded the file, making the column full loses its width. -/
theorem not_keepsKeys_makeFull :
    ∃ ed ed' : Editor, ed.Reachable ∧
      makeFull.loads = false ∧ makeFull.carryOut (ed, {}) = .ok (.applied (), ed', {}) ∧
      ed.document.column? 0 0 = some { size := .small, properties := [("width", .int 3)] } ∧
      ed'.document.column? 0 0 = some { size := .full, properties := [] } ∧
      ¬ ed.document.KeepsKeys makeFull.shift none ed'.document := by
  have hreached := Reachable.next (.ofReference {}) (.loadText loadText_wideText)
  refine ⟨_, _, hreached, rfl, carryOut_makeFull, rfl, rfl, fun hkeeps => ?_⟩
  have hlost : ([] : Mapping) = [("width", .int 3)] :=
    hkeeps.properties_of_column? (p := 0) (c := 0) rfl rfl
  cases hlost

end Editor

end Dashboard

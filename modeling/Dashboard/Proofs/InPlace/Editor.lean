import Dashboard.InPlace.Editor
import Dashboard.Proofs.Editor.Operations
import Dashboard.Proofs.Editor.Reachable
import Dashboard.Proofs.InPlace.Basic

/-!
# The editor in place keeps what it does not change

Every operation in place is settled: it writes only what the operation that
gives a second editor has decided on.  A dialog tries its answers one after the
other on the same document; none that is refused leaves anything behind, so the
next one is tried on the document as it was.

So a refused or cancelled operation leaves the document, its options and the
preview alone, however an editor was reached, and the preview is always the
text of the document.
-/

namespace Dashboard.InPlace

open Editor (Dialog Operation adopted)

variable {σ δ α β : Type}

/-! ## Changes -/

theorem mutate_settle (f : Document → Except Error (α × Document)) :
    mutate (settle f) = settle (fun ed => (f ed.document).map (adopted ed)) := by
  funext ed
  simp only [mutate, settle]
  cases f ed.document <;> rfl

theorem onEditor_settle (f : Editor → Except Error (α × Editor)) :
    onEditor (settle f) =
      settle (fun (ed, fs) => (f ed).map fun (a, ed) => (.applied a, ed, fs)) := by
  funext ⟨ed, fs⟩
  simp only [onEditor, settle]
  cases f ed <;> rfl

/-- A change that the log is told nothing special about is taken over. -/
theorem result_adopt_quiet
    (ed : Editor)
    (x : Except Error (α × Document)) :
    (ed.adopt (x.map Editor.quiet)).result = x.map (adopted ed) := by
  rw [Editor.result_adopt]
  cases x <;> rfl

/-! ## Dialogs -/

/-- An answer writes the change of the document that it asks for, or nothing. -/
theorem accept_eq_settle
    (k : Dialog α β)
    (a : α) :
    accept k a = settle (fun d => k.direct d a) := by
  cases k with
  | addPage =>
      simp only [accept, push, write_eq_settle, onPages_settle]
      exact reading_settle _ _
  | renamePage p =>
      simp only [accept, assign, write_eq_settle, onPage_settle, reading_settle,
        Document.changePage_drop Page.name]
      -- the name is read first on both sides, and the old name is dropped
      congr 1
      funext d
      rw [Dialog.direct, Document.renamePage]
      cases keptName a <;> rfl
  | addColumn p =>
      simp only [accept, push, write_eq_settle, onColumns_settle]
      exact reading_settle _ _
  | editColumn p c =>
      simp only [accept, assign, write_eq_settle, onColumn_settle, reading_settle,
        Document.changeColumn_drop id]
      rfl
  | addWidget p c shown =>
      simp only [accept, push, write_eq_settle, onWidgets_settle]
      exact reading_settle _ _
  | editWidget p c i =>
      simp only [accept, assign, write_eq_settle, onWidget_settle, reading_settle,
        Document.changeWidget_drop id]
      rfl

/-- What a dialog leaves behind: a state to go on with only where an answer was
carried out. -/
def leave (x : Except Error (Outcome (β × δ))) (d : δ) : Except Error (Outcome β) × δ :=
  match x with
  | .ok (.applied (b, d')) => (.ok (.applied b), d')
  | .ok .cancelled => (.ok .cancelled, d)
  | .error e => (.error e, d)

/-- A step of a dialog in place: ask, and try what was submitted. -/
theorem askUntilValid_eq
    (p : Prompt σ α)
    (accept : α → InPlace δ β)
    (shown : α)
    (reason : Option Error)
    (d : δ)
    (s : σ) :
    askUntilValid p accept shown reason d s =
      match p.ask shown reason s with
      | (.cancelled, _) => (.ok .cancelled, d)
      | (.submitted a, s') =>
        match accept a d with
        | (.ok b, d') => (.ok (.applied b), d')
        | (.error e, d') =>
          if e.isUserInput then
            askUntilValid p accept a (some e) d' (p.note (Prompt.refused e) s')
          else (.error e, d') := by
  rw [askUntilValid]
  generalize p.ask shown reason s = r
  split
  · rfl
  · rfl

/-- Answers that write nothing unless they are carried out are all tried on the
same state. -/
theorem askUntilValid_settle
    (p : Prompt σ α)
    (f : α → δ → Except Error (β × δ))
    (shown : α)
    (reason : Option Error)
    (d : δ)
    (s : σ) :
    askUntilValid p (fun a => settle (f a)) shown reason d s =
      leave (p.askUntilValid (fun a => f a d) shown reason s).1 d := by
  -- on the dialog that tries every answer on `d`: a refused answer leaves `d` behind
  fun_induction Prompt.askUntilValid p (fun a => f a d) shown reason s with
  | case1 shown reason s s' hask =>
      rw [askUntilValid_eq, hask]
      rfl
  | case2 shown reason s a s' hask r hr =>
      rw [askUntilValid_eq, hask]
      simp only [settle, hr]
      rfl
  | case3 shown reason s a s' hask e he hu ih =>
      rw [askUntilValid_eq, hask]
      simp only [settle, he, if_pos hu]
      exact ih
  | case4 shown reason s a s' hask e he hu =>
      rw [askUntilValid_eq, hask]
      simp only [settle, he, if_neg hu]
      rfl

/-- A dialog in place leaves the editor that the dialog gives, or the one that it
began with. -/
theorem dialog_eq_leave
    (k : Dialog α β)
    (p : Prompt σ α)
    (s : σ)
    (ed : Editor) :
    dialog k p s ed = leave (k.run ed p s).1 ed := by
  rw [dialog]
  cases hinitial : k.initial ed.document with
  | error e =>
      simp only [Dialog.run_eq, hinitial]
      rfl
  | ok shown =>
      have haccept : accept k = fun a => settle (fun d => k.direct d a) :=
        funext (accept_eq_settle k)
      have hasked := askUntilValid_settle p (fun a d => k.direct d a) shown none ed.document s
      rw [Dialog.run_fst hinitial, haccept]
      simp only [hasked]
      rcases (p.askUntilValid (k.direct ed.document) shown none s).1 with e | ⟨b, d⟩ | _ <;> rfl

/-! ## Templates and files -/

theorem insertTemplate_eq_settle (name : String) :
    insertTemplate name = settle (fun ed => (ed.insertTemplate name).result) := by
  funext ed
  simp only [insertTemplate, settle, Editor.insertTemplate]
  cases ed.reference.template? name with
  | none =>
      rfl
  | some t =>
      simp only
      cases Editor.templateDocument name t.yaml <;> rfl

theorem loadText_eq_settle (text : String) :
    loadText text = settle (fun ed => (ed.loadText text).result) := by
  funext ed
  simp only [loadText, settle, Editor.loadText]
  cases Document.parse text <;> rfl

theorem load_eq_settle
    (fs : Files)
    (path : String) :
    load fs path = settle (fun ed => (ed.load fs path).result) := by
  funext ed
  simp only [load, settle, Editor.load, Editor.loadText]
  cases fs.read path with
  | error e =>
      rfl
  | ok text =>
      change loadText text ed = _
      simp only [loadText]
      cases Document.parse text <;> rfl

/-! ## All operations -/

/-- An operation that asks nothing and is settled is carried out as it is. -/
theorem onEditor_eq_settle
    {op : InPlace Editor α}
    {act : Editor → Act α}
    (hop : op = settle (fun ed => (act ed).result)) :
    onEditor op = settle (fun (ed, fs) => Operation.ofAct fs (act ed)) := by
  rw [hop, onEditor_settle]
  rfl

/-- A settled change of the document is taken over as the editor takes it over. -/
theorem onEditor_mutate_eq_settle
    {op : InPlace Document α}
    {f : Document → Except Error (α × Document)}
    (hop : op = settle f)
    {act : Editor → Act α}
    (hact : ∀ ed, (act ed).result = (f ed.document).map (adopted ed)) :
    onEditor (mutate op) = settle (fun (ed, fs) => Operation.ofAct fs (act ed)) := by
  have hmutate : mutate op = settle (fun ed => (act ed).result) := by
    rw [hop, mutate_settle]
    simp only [hact]
  exact onEditor_eq_settle hmutate

/-- Every operation in place is carried out whole or not at all. -/
theorem operation_eq_settle (op : Operation β) : operation op = settle op.carryOut := by
  cases op with
  | ask k p s =>
      funext ⟨ed, fs⟩
      simp only [operation, settle, Operation.carryOut, dialog_eq_leave]
      rcases (k.run ed p s).1 with e | ⟨b, ed'⟩ | _ <;> rfl
  | deletePage p =>
      have hop : onPages (takeOut .page p) = settle (fun d => d.deletePage p) := by
        rw [takeOut_eq_settle]
        exact onPages_settle _
      have hact : ∀ ed : Editor,
          (ed.deletePage p).result = (ed.document.deletePage p).map (adopted ed) := by
        intro ed
        rw [Editor.deletePage, Editor.result_adopt]
        cases ed.document.deletePage p <;> rfl
      exact onEditor_mutate_eq_settle hop hact
  | deleteColumn p c =>
      have hop : onColumns p (takeOut .column c) = settle (fun d => d.deleteColumn p c) := by
        rw [takeOut_eq_settle]
        exact onColumns_settle _ _
      exact onEditor_mutate_eq_settle hop fun ed => result_adopt_quiet ed _
  | deleteWidget p c i =>
      have hop : onWidgets p c (takeOut .widget i) = settle (fun d => d.deleteWidget p c i) := by
        rw [takeOut_eq_settle]
        exact onWidgets_settle _ _ _
      exact onEditor_mutate_eq_settle hop fun ed => result_adopt_quiet ed _
  | insertOption p c i path v =>
      have hop := onWidget_settle p c i fun w => (w.insertOption path v).map fun w => ((), w)
      rw [← insertOption_eq_settle] at hop
      exact onEditor_mutate_eq_settle hop fun ed => result_adopt_quiet ed _
  | setOption p c i path v =>
      have hop := onWidget_settle p c i fun w => w.setOption path v
      rw [← setOption_eq_settle] at hop
      exact onEditor_mutate_eq_settle hop fun ed => result_adopt_quiet ed _
  | deleteOption p c i path =>
      have hop := onWidget_settle p c i fun w => w.deleteOption path
      rw [← deleteOption_eq_settle] at hop
      exact onEditor_mutate_eq_settle hop fun ed => result_adopt_quiet ed _
  | insertTemplate name =>
      exact onEditor_eq_settle (insertTemplate_eq_settle name)
  | loadText text =>
      exact onEditor_eq_settle (loadText_eq_settle text)
  | load path =>
      funext ⟨ed, fs⟩
      simp only [operation, load_eq_settle fs path, onEditor_settle]
      rfl
  | save path =>
      funext ⟨ed, fs⟩
      simp only [operation, settle, Operation.carryOut]
      cases ed.save fs path <;> rfl

/-! ## Whole sessions -/

/-- An editor that starts empty and goes on by operations in place, whatever
comes of them. -/
inductive Reached : Editor → Prop where
  | ofReference
      (reference : Reference) :
      Reached (.ofReference reference)
  | next
      {ed : Editor}
      {β : Type}
      (reached : Reached ed)
      (op : Operation β)
      (fs : Files) :
      Reached (operation op (ed, fs)).2.1

section Sessions

variable {ed : Editor}

/-- An operation that is not applied leaves the editor as it was. -/
theorem operation_of_not_applied
    {op : Operation β}
    {fs : Files}
    (h : ∀ b, (operation op (ed, fs)).1 ≠ .ok (.applied b)) :
    (operation op (ed, fs)).2.1 = ed := by
  rw [operation_eq_settle] at h ⊢
  rw [settle] at h ⊢
  cases hop : op.carryOut (ed, fs) with
  | error e =>
      rfl
  | ok r =>
      obtain ⟨o, ed', fs'⟩ := r
      rw [hop] at h
      rcases Operation.eq_or_withDocument_of_carryOut hop with rfl | ⟨b, d, rfl, -⟩
      · rfl
      · exact absurd rfl (h b)

/-- Every operation keeps the preview the text of the document. -/
theorem current_operation
    (h : ed.Current)
    (op : Operation β)
    (fs : Files) :
    (operation op (ed, fs)).2.1.Current := by
  rw [operation_eq_settle, settle]
  cases hop : op.carryOut (ed, fs) with
  | error e =>
      exact h
  | ok r =>
      obtain ⟨o, ed', fs'⟩ := r
      rcases Operation.eq_or_withDocument_of_carryOut hop with rfl | ⟨b, d, -, rfl⟩
      · exact h
      · exact ed.current_withDocument d

theorem Reached.current (h : Reached ed) : ed.Current := by
  induction h with
  | ofReference reference =>
      rfl
  | next _ op fs ih =>
      exact current_operation ih op fs

theorem operation_save
    (path : String)
    (fs : Files) :
    (operation (.save path) (ed, fs)).2.1 = ed := by
  simp only [operation]
  cases ed.save fs path <;> rfl

/-- However an editor was reached, its preview is the text of its document; an
operation that is refused or cancelled leaves it as it was, and so does saving.
Operations in place do what the operations do that give a second editor. -/
theorem Reached.preview_and_atomic (h : Reached ed) :
    ed.preview = ed.document.render ∧
      (∀ {β : Type} (op : Operation β) (fs : Files),
        (∀ e, (operation op (ed, fs)).1 = .error e → (operation op (ed, fs)).2.1 = ed) ∧
          ((operation op (ed, fs)).1 = .ok .cancelled → (operation op (ed, fs)).2.1 = ed) ∧
          operation op (ed, fs) = settle op.carryOut (ed, fs)) ∧
      ∀ (path : String) (fs : Files), (operation (.save path) (ed, fs)).2.1 = ed := by
  refine ⟨h.current, fun op fs => ⟨fun e he => ?_, fun hcancelled => ?_, ?_⟩, operation_save⟩
  · exact operation_of_not_applied (by simp [he])
  · exact operation_of_not_applied (by simp [hcancelled])
  · rw [operation_eq_settle]

/-- An editor that loaded a page with a clock is left as it was by replacing an
option that the clock does not have, and by a path without steps. -/
theorem preview_and_atomic_paddedDocument :
    let ed := (Editor.ofReference {}).withDocument Editor.paddedDocument
    Reached ed ∧ ed.preview = ed.document.render ∧
      (operation (.setOption 0 0 0 [.key "missing"] .null) (ed, {})).1 =
        .error (.pathNotFound "missing") ∧
      (operation (.setOption 0 0 0 [.key "missing"] .null) (ed, {})).2.1 = ed ∧
      (operation (.insertOption 0 0 0 [] .null) (ed, {})).1 = .error (.pathNotFound "<root>") ∧
      (operation (.insertOption 0 0 0 [] .null) (ed, {})).2.1 = ed := by
  have hload : (operation (.loadText Editor.paddedText) (.ofReference {}, {})).2.1 =
      (Editor.ofReference {}).withDocument Editor.paddedDocument := by
    rw [operation_eq_settle]
    simp only [settle, Operation.carryOut, Operation.ofAct, Editor.loadText_paddedText, Except.map]
  have hreached : Reached ((Editor.ofReference {}).withDocument Editor.paddedDocument) :=
    hload ▸ .next (.ofReference {}) (.loadText Editor.paddedText) {}
  obtain ⟨hpreview, hkept, -⟩ := hreached.preview_and_atomic
  have hmissing : (operation (.setOption 0 0 0 [.key "missing"] .null)
      ((Editor.ofReference {}).withDocument Editor.paddedDocument, {})).1 =
      .error (.pathNotFound "missing") := rfl
  have hroot : (operation (.insertOption 0 0 0 [] .null)
      ((Editor.ofReference {}).withDocument Editor.paddedDocument, {})).1 =
      .error (.pathNotFound "<root>") := rfl
  exact ⟨hreached, hpreview, hmissing, (hkept _ _).1 _ hmissing, hroot, (hkept _ _).1 _ hroot⟩

end Sessions

/-! ## Dialogs with scripted answers -/

/-- A dialog at a place that is out of range fails and asks nothing.  Otherwise it
never fails.  It does the direct change of the document for the first answer
that the change accepts, once, and is cancelled if there is none.  The first
prompt shows the initial value, and each later one the answer that was refused
with its error. -/
theorem dialog_refines_direct
    (k : Dialog α β)
    (ed : Editor)
    (answers : List (Option α)) :
    match ed.document.outOfRange? k.place with
    | some e =>
      k.run ed Script.prompt { answers } = (.error e, { answers }) ∧
        dialog k Script.prompt { answers } ed = (.error e, ed)
    | none =>
      ∃ shown asked, k.initial ed.document = .ok shown ∧
        asked.shown.reverse =
          (shown, none) :: Script.refusals (k.direct ed.document) (Script.submitted answers) ∧
        match Script.outcome (k.direct ed.document) (Script.submitted answers) with
        | .applied (v, d) =>
          k.run ed Script.prompt { answers } = (.ok (.applied (v, ed.withDocument d)), asked) ∧
            dialog k Script.prompt { answers } ed = (.ok (.applied v), ed.withDocument d)
        | .cancelled =>
          k.run ed Script.prompt { answers } = (.ok .cancelled, asked) ∧
            dialog k Script.prompt { answers } ed = (.ok .cancelled, ed) := by
  rw [dialog_eq_leave]
  cases hplace : ed.document.outOfRange? k.place with
  | some e =>
      have hrun := Dialog.run_of_outOfRange hplace Script.prompt { answers }
      rw [hrun]
      exact ⟨rfl, rfl⟩
  | none =>
      rw [← Dialog.errorOf?_initial] at hplace
      cases hinitial : k.initial ed.document with
      | error e =>
          rw [hinitial] at hplace
          cases hplace
      | ok shown =>
          obtain ⟨hresult, hshown⟩ := Dialog.run_script hinitial answers
          refine ⟨shown, (k.run ed Script.prompt { answers }).2, rfl, hshown, ?_⟩
          cases houtcome : Script.outcome (k.direct ed.document) (Script.submitted answers) with
          | applied r =>
              rw [houtcome] at hresult
              exact ⟨Prod.ext hresult rfl, by rw [hresult]; rfl⟩
          | cancelled =>
              rw [houtcome] at hresult
              exact ⟨Prod.ext hresult rfl, by rw [hresult]; rfl⟩

end Dashboard.InPlace

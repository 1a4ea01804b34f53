import Dashboard.Proofs.Document.Places
import Dashboard.Proofs.Editor.Asking

/-!
# Dialogs are changes of the document

A dialog of the editor looks up its place first; if that is out of range it
fails with that error and asks nothing.  Otherwise it never fails: whatever is
wrong with an answer is a fault of the user's, so the answer is shown again
with its error.  The first answer that the change of the document accepts is
carried out, once, and nothing comes of the answers before it.
-/

namespace Dashboard

/-! ## Faults of the user's -/

/-- A failure is a fault of what was typed. -/
def OnlyInputFaults {α : Type} (x : Except Error α) : Prop :=
  ∀ e, x = .error e → e.isUserInput = true

section Faults

variable {α β : Type}

theorem onlyInputFaults_ok (a : α) : OnlyInputFaults (.ok a : Except Error α) := by
  intro e h
  cases h

theorem OnlyInputFaults.bind
    {x : Except Error α}
    {f : α → Except Error β}
    (hx : OnlyInputFaults x)
    (hf : ∀ a, x = .ok a → OnlyInputFaults (f a)) :
    OnlyInputFaults (x >>= f) := by
  cases x with
  | ok a =>
      exact hf a rfl
  | error e' =>
      intro e h
      cases h
      exact hx _ rfl

theorem OnlyInputFaults.map
    {x : Except Error α}
    (hx : OnlyInputFaults x)
    (f : α → β) :
    OnlyInputFaults (x.map f) := by
  cases x with
  | ok a =>
      exact onlyInputFaults_ok _
  | error e' =>
      intro e h
      cases h
      exact hx _ rfl

theorem onlyInputFaults_keptName (name : String) : OnlyInputFaults (keptName name) := by
  intro e h
  simp only [keptName] at h
  split at h
  · cases h
    rfl
  · cases h

theorem onlyInputFaults_readSize (text : String) : OnlyInputFaults (ColumnSize.read text) := by
  intro e h
  simp only [ColumnSize.read] at h
  split at h
  · cases h
  · split at h
    · cases h
    · cases h
      rfl

theorem onlyInputFaults_ofType (type : String) : OnlyInputFaults (Widget.ofType type) := by
  intro e h
  simp only [Widget.ofType] at h
  split at h
  · cases h
    rfl
  · cases h

/-- A new option under a key can only have a reserved name or one that is
taken. -/
theorem onlyInputFaults_insertOption
    (w : Widget)
    (key : String)
    (v : Value) :
    OnlyInputFaults (w.insertOption [.key key] v) := by
  have hreserved : OnlyInputFaults (Widget.checkReserved [.key key]) := by
    intro e h
    rw [Widget.checkReserved] at h
    split at h
    · cases h
      rfl
    · cases h
  have hinsert : OnlyInputFaults (Value.insertChild [] (.key key) v (.map w.options)) := by
    intro e h
    rw [Value.insertChild] at h
    split at h
    · cases h
      rfl
    · cases h
  refine hreserved.bind fun _ _ => OnlyInputFaults.bind ?_ fun _ _ => onlyInputFaults_ok _
  exact hinsert.bind fun _ _ => onlyInputFaults_ok _

theorem onlyInputFaults_addLine
    (w : Widget)
    (number : Nat)
    (line : String) :
    OnlyInputFaults (WidgetForm.addLine w number line) := by
  rw [WidgetForm.addLine]
  split
  · exact onlyInputFaults_ok w
  · split
    · intro e h
      cases h
      rfl
    · split
      · intro e h
        cases h
        rfl
      · exact onlyInputFaults_insertOption w _ _

theorem onlyInputFaults_addLines
    (w : Widget)
    (number : Nat)
    (ls : List String) :
    OnlyInputFaults (WidgetForm.addLines w number ls) := by
  induction ls generalizing w number with
  | nil =>
      exact onlyInputFaults_ok w
  | cons line ls ih =>
      exact (onlyInputFaults_addLine w number line).bind fun v _ => ih v (number + 1)

/-- Whatever is wrong with a form is a fault of what was typed. -/
theorem onlyInputFaults_toWidget (f : WidgetForm) : OnlyInputFaults f.toWidget :=
  (onlyInputFaults_ofType f.type).bind fun _ _ => onlyInputFaults_addLines _ 1 _

end Faults

namespace Editor

variable {β : Type}

/-- What a change does to the document. -/
def changed (c : Change β) : β × Document :=
  (c.value, c.document)

/-- The value of a change, and the editor with the document that it gives. -/
def adopted (ed : Editor) (r : β × Document) : β × Editor :=
  (r.1, ed.withDocument r.2)

/-- An editor takes over the document of an accepted change. -/
theorem result_adopt
    (ed : Editor)
    (x : Except Error (Change β)) :
    (ed.adopt x).result = (x.map changed).map (adopted ed) := by
  cases x <;> rfl

end Editor

namespace Editor.Dialog

variable {α β σ : Type}

/-! ## The place of a dialog -/

/-- A dialog starts unless its place is out of range. -/
theorem errorOf?_initial
    (k : Dialog α β)
    (d : Document) :
    errorOf? (k.initial d) = d.outOfRange? k.place := by
  cases k with
  | addPage =>
      rfl
  | renamePage p =>
      exact (errorOf?_map _ _).trans Document.errorOf?_page
  | addColumn p =>
      exact (errorOf?_map _ _).trans Document.errorOf?_page
  | editColumn p c =>
      exact (errorOf?_map _ _).trans Document.errorOf?_column
  | addWidget p c shown =>
      exact (errorOf?_map _ _).trans Document.errorOf?_column
  | editWidget p c w =>
      exact (errorOf?_map _ _).trans Document.errorOf?_widget

/-- At a place that exists, an answer is refused only for what is wrong with
it. -/
theorem onlyInputFaults_direct
    {k : Dialog α β}
    {d : Document}
    {shown : α}
    (hinitial : k.initial d = .ok shown)
    (a : α) :
    OnlyInputFaults (k.direct d a) := by
  cases k with
  | addPage =>
      exact (onlyInputFaults_keptName a).bind fun _ _ => onlyInputFaults_ok _
  | renamePage p =>
      obtain ⟨page, hpage, -⟩ := map_eq_ok.1 hinitial
      refine OnlyInputFaults.map ((onlyInputFaults_keptName a).bind fun name _ => ?_) _
      intro e h
      cases Document.error_of_changePage hpage h
  | addColumn p =>
      obtain ⟨page, hpage, -⟩ := map_eq_ok.1 hinitial
      refine (onlyInputFaults_readSize a).bind fun size _ => ?_
      intro e h
      cases Document.error_of_changeColumns hpage h
  | editColumn p c =>
      obtain ⟨column, hcolumn, -⟩ := map_eq_ok.1 hinitial
      refine (onlyInputFaults_readSize a).bind fun size _ =>
        OnlyInputFaults.bind ?_ fun _ _ => onlyInputFaults_ok _
      intro e h
      cases Document.error_of_changeColumn hcolumn h
  | addWidget p c shown =>
      obtain ⟨column, hcolumn, -⟩ := map_eq_ok.1 hinitial
      refine (onlyInputFaults_toWidget a).bind fun w _ => ?_
      intro e h
      cases Document.error_of_changeWidgets hcolumn h
  | editWidget p c i =>
      obtain ⟨w, hw, -⟩ := map_eq_ok.1 hinitial
      refine (onlyInputFaults_toWidget a).bind fun w' _ =>
        OnlyInputFaults.bind ?_ fun _ _ => onlyInputFaults_ok _
      intro e h
      cases Document.error_of_changeWidget hw h

/-! ## What a dialog tries -/

/-- What a chain of steps does to the document is decided by its last one. -/
theorem map_changed_bind
    {γ : Type}
    {x : Except Error γ}
    {f : γ → Except Error (Change β)}
    {g : γ → Except Error (β × Document)}
    (h : ∀ c, (f c).map changed = g c) :
    (x >>= f).map changed = x >>= g := by
  cases x with
  | error e =>
      rfl
  | ok c =>
      exact h c

/-- An answer is tried by the change of the document that it asks for. -/
theorem map_accept
    (k : Dialog α β)
    (ed : Editor)
    (a : α) :
    (k.accept ed a).map changed = k.direct ed.document a := by
  cases k with
  | addPage =>
      simp only [accept, acceptPage, direct]
      cases ed.document.addPage a <;> rfl
  | renamePage p =>
      simp only [accept, acceptName, direct]
      cases ed.document.renamePage p a <;> rfl
  | addColumn p =>
      refine map_changed_bind fun size => ?_
      cases ed.document.addColumn p size <;> rfl
  | editColumn p c =>
      refine map_changed_bind fun size => ?_
      cases ed.document.editColumn p c size <;> rfl
  | addWidget p c shown =>
      refine map_changed_bind fun w => ?_
      cases ed.document.addWidget p c w <;> rfl
  | editWidget p c i =>
      refine map_changed_bind fun w => ?_
      cases ed.document.replaceWidget p c i w <;> rfl

/-! ## Running a dialog -/

/-- A dialog looks up its place, and asks from there on. -/
theorem run_eq
    (k : Dialog α β)
    (ed : Editor)
    (p : Prompt σ α)
    (s : σ) :
    k.run ed p s =
      match k.initial ed.document with
      | .error e => (.error e, s)
      | .ok shown => ed.dialog p (k.accept ed) shown s := by
  cases k with
  | addPage =>
      rfl
  | renamePage page =>
      simp only [run, Editor.renamePage, initial, accept]
      cases ed.document.page page <;> rfl
  | addColumn page =>
      simp only [run, Editor.addColumn, initial, accept]
      cases ed.document.page page <;> rfl
  | editColumn page c =>
      simp only [run, Editor.editColumn, initial, accept]
      cases ed.document.column page c <;> rfl
  | addWidget page c shown =>
      simp only [run, Editor.addWidget, initial, accept]
      cases ed.document.column page c <;> rfl
  | editWidget page c i =>
      simp only [run, Editor.editWidget, initial, accept]
      cases ed.document.widget page c i <;> rfl

/-- A dialog gives the value of the accepted change, and the editor with its
document. -/
theorem dialog_fst
    (ed : Editor)
    (p : Prompt σ α)
    (accept : α → Except Error (Change β))
    (shown : α)
    (s : σ) :
    (ed.dialog p accept shown s).1 =
      (p.askUntilValid (fun a => (accept a).map changed) shown none s).1.map
        (Outcome.map (adopted ed)) := by
  rw [Prompt.askUntilValid_map, dialog]
  split
  · next h =>
      rw [h]
      rfl
  · next h =>
      rw [h]
      rfl
  · next h =>
      rw [h]
      rfl

/-- The prompts of a dialog are those of asking until an answer is accepted. -/
theorem dialog_snd_shown
    (ed : Editor)
    (accept : α → Except Error (Change β))
    (shown : α)
    (s : Script α) :
    (ed.dialog Script.prompt accept shown s).2.shown =
      (Script.prompt.askUntilValid (fun a => (accept a).map changed) shown none s).2.shown := by
  rw [Prompt.askUntilValid_map, dialog]
  split
  · next h =>
      rw [h]
      exact Script.shown_noteAll _ _
  · next h =>
      rw [h]
  · next h =>
      rw [h]

/-- What a dialog tries is the change of the document that an answer asks
for. -/
theorem map_accept_eq
    (k : Dialog α β)
    (ed : Editor) :
    (fun a => (k.accept ed a).map changed) = k.direct ed.document :=
  funext (k.map_accept ed)

/-- At a place that exists, a dialog gives what comes of asking until the change
of the document accepts an answer. -/
theorem run_fst
    {k : Dialog α β}
    {ed : Editor}
    {shown : α}
    (hinitial : k.initial ed.document = .ok shown)
    (p : Prompt σ α)
    (s : σ) :
    (k.run ed p s).1 =
      (p.askUntilValid (k.direct ed.document) shown none s).1.map (Outcome.map (adopted ed)) := by
  rw [run_eq, hinitial, ← map_accept_eq]
  exact dialog_fst ed p (k.accept ed) shown s

/-- At a place that is out of range, a dialog fails and asks nothing. -/
theorem run_of_outOfRange
    {k : Dialog α β}
    {ed : Editor}
    {e : Error}
    (hplace : ed.document.outOfRange? k.place = some e)
    (p : Prompt σ α)
    (s : σ) :
    k.run ed p s = (.error e, s) := by
  rw [run_eq]
  rw [← errorOf?_initial] at hplace
  cases hinitial : k.initial ed.document with
  | ok shown =>
      rw [hinitial] at hplace
      cases hplace
  | error e' =>
      rw [hinitial] at hplace
      cases hplace
      rfl

/-- At a place that exists, the first answer of a script that is accepted is
carried out, and each answer before it is shown again with its error. -/
theorem run_script
    {k : Dialog α β}
    {ed : Editor}
    {shown : α}
    (hinitial : k.initial ed.document = .ok shown)
    (answers : List (Option α)) :
    (k.run ed Script.prompt { answers }).1 =
        .ok ((Script.outcome (k.direct ed.document) (Script.submitted answers)).map (adopted ed)) ∧
      (k.run ed Script.prompt { answers }).2.shown.reverse =
        (shown, none) :: Script.refusals (k.direct ed.document) (Script.submitted answers) := by
  obtain ⟨hresult, hshown⟩ := Script.askUntilValid_prompt
    (onlyInputFaults_direct hinitial) shown none { answers }
  constructor
  · rw [run_fst hinitial, hresult]
    rfl
  · have hdialog : k.run ed Script.prompt { answers } =
        ed.dialog Script.prompt (k.accept ed) shown { answers } := by
      rw [run_eq, hinitial]
    rw [hdialog, dialog_snd_shown, map_accept_eq, hshown]
    simp

end Editor.Dialog

end Dashboard

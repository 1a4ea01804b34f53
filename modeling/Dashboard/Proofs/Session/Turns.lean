import Dashboard.Proofs.Session.Endings
import Dashboard.Session.Turn

/-!
# Sessions turn by turn

Every session is a row of turns from its first desk to its end.  On the way it is
known which document was saved or loaded last: saving and loading that were not
refused set it, and nothing else does.
-/

namespace Dashboard

/-! ## What can be selected -/

/-- What is selected is one of the options. -/
theorem Shell.lt_of_askSelect
    {s s' : Shell}
    {message : String}
    {options : List String}
    {cursor i : Nat}
    {help : Option String}
    (h : s.askSelect message options cursor help = (.submitted i, s')) :
    i < options.length := by
  rw [askSelect, ask.eq_def] at h
  split at h
  · cases h
  · next a rest hanswers =>
      have hread := congrArg Prod.fst h
      simp only at hread
      cases a with
      | text label =>
          simp only [Answer.read, Answer.option?] at hread
          cases hfound : options.findIdx? (· == label) with
          | none =>
              rw [hfound] at hread
              cases hread
          | some j =>
              rw [hfound] at hread
              cases hread
              exact (List.findIdx?_eq_some_iff_getElem.1 hfound).1
      | choice j =>
          simp only [Answer.read, Answer.option?] at hread
          split at hread
          · next hlt =>
              cases hread
              exact hlt
          · cases hread
      | enter =>
          simp only [Answer.read] at hread
          split at hread
          · next hlt =>
              cases hread
              exact hlt
          · cases hread
      | truth b | escape | interrupt | broken reason =>
          cases hread

namespace Session

open Activity

/-! ## Opening a file -/

section Opening

variable {path : String}
variable {d d' : Desk}

/-- A file that can be loaded gives the document, which counts as saved. -/
theorem openFile_of_ok
    {ed : Editor}
    (h : (d.session.editor.load d.shell.files path).result = .ok ((), ed)) :
    ∃ d', (openFile path).run d = (.ok (), d') ∧
      d'.session = { d.session with editor := ed, saved := ed.preview } := by
  refine ⟨_, Prod.ext ?_ rfl, ?_⟩ <;>
    simp only [openFile, loadFile, bind, next, files, session, Activity.tell, h, change, say,
      markSaved]

/-- A file that cannot be loaded leaves the session as it is. -/
theorem openFile_of_error
    {e : Error}
    (h : (d.session.editor.load d.shell.files path).result = .error e) :
    ∃ d', (openFile path).run d =
        (.error (.within ("Failed to load " ++ path) (.refused e)), d') ∧
      d'.session = d.session := by
  refine ⟨_, Prod.ext ?_ rfl, ?_⟩ <;>
    simp only [openFile, loadFile, bind, next, files, session, Activity.tell, h, fail]

/-- A file that was opened was loaded. -/
theorem exists_of_openFile
    (h : (openFile path).run d = (.ok (), d')) :
    ∃ ed, (d.session.editor.load d.shell.files path).result = .ok ((), ed) ∧
      d'.session = { d.session with editor := ed, saved := ed.preview } := by
  cases hload : (d.session.editor.load d.shell.files path).result with
  | error e =>
      obtain ⟨d₁, hrun, -⟩ := openFile_of_error hload
      cases h.symm.trans hrun
  | ok r =>
      obtain ⟨d₁, hrun, hsession⟩ := openFile_of_ok hload
      cases h.symm.trans hrun
      exact ⟨r.2, rfl, hsession⟩

end Opening

/-! ## Single turns -/

section Turns

variable {d d' : Desk}

/-- The user wants to quit: the menu was interrupted, or that action was chosen. -/
def WantsToQuit (d : Desk) : Prop :=
  (askAction d).1 = .interrupted ∨
    ∃ i, (askAction d).1 = .submitted i ∧
      (Action.available d.session.editor d.session.selection)[i]? = some .quit

/-- An action that is done was offered. -/
theorem exists_of_did
    {before after : Desk}
    {a : Action}
    (h : turn d = .did a before after) :
    a ∈ Action.available d.session.editor d.session.selection ∧
      ∃ shell, before = atAction a { d with shell } ∧ after = doAction a { d with shell } := by
  rw [turn] at h
  split at h
  · cases h
  · cases h
  · exact absurd h quitTurn_ne_did
  · next i shell hask =>
      simp only at h
      split at h
      · exact absurd h quitTurn_ne_did
      · next hchosen =>
          cases h
          refine ⟨?_, shell, rfl, rfl⟩
          rw [List.getD_eq_getElem?_getD] at hchosen ⊢
          cases hget : (Action.available d.session.editor d.session.selection)[i]? with
          | none =>
              rw [hget] at hchosen
              exact absurd rfl hchosen
          | some a =>
              exact List.mem_of_getElem? hget

theorem quitTurn_eq_ended_iff : quitTurn d = .ended (.ok ()) d' ↔ mayQuit d = (.ok true, d') := by
  rw [quitTurn]
  split
  · next hmay => simp [hmay]
  · next hmay => simp [hmay]
  · next hmay => simp [hmay]

/-- A session ends well when the user wants to quit and may do so. -/
theorem ended_iff :
    turn d = .ended (.ok ()) d' ↔
      WantsToQuit d ∧ mayQuit { d with shell := (askAction d).2 } = (.ok true, d') := by
  rw [turn, WantsToQuit]
  split
  · next shell hask => simp [hask]
  · next reason shell hask => simp [hask]
  · next shell hask => simp [hask, quitTurn_eq_ended_iff]
  · next i shell hask =>
      have hlt : i < (Action.available d.session.editor d.session.selection).length := by
        simpa using Shell.lt_of_askSelect hask
      simp only [hask, List.getD_eq_getElem?_getD, List.getElem?_eq_getElem hlt, Option.getD_some]
      split
      · next hchosen =>
          rw [quitTurn_eq_ended_iff]
          simp [hchosen, hlt]
      · next hchosen => simp [hchosen, hlt]

/-- A turn without an action leaves the session as it is. -/
theorem session_of_again
    (h : turn d = .again d') :
    d'.session = d.session := by
  have hquit : ∀ d, quitTurn d = .again d' → d'.session = d.session := by
    intro d hd
    rw [quitTurn, mayQuit] at hd
    split at hd
    · next hmay =>
        cases hd
        split at hmay
        · split at hmay <;> cases hmay <;> rfl
        · cases hmay
    · cases hd
    · cases hd
  rw [turn] at h
  split at h
  · cases h
    rfl
  · cases h
  · have hkept := hquit _ h
    exact hkept
  · simp only at h
    split at h
    · have hkept := hquit _ h
      exact hkept
    · cases h

end Turns

/-! ## What was saved or loaded last -/

/-- The document that saving to a file writes, unless it is refused. -/
def savedTo? (path : String) (d : Desk) : Option Document :=
  match d.session.editor.save d.shell.files path with
  | .ok _ => some d.session.editor.document
  | .error _ => none

/-- The document that loading a file gives, unless it is refused. -/
def loadedFrom? (path : String) (d : Desk) : Option Document :=
  match (d.session.editor.load d.shell.files path).result with
  | .ok (_, ed) => some ed.document
  | .error _ => none

/-- Whether a file may be loaded: the user is asked if there are changes. -/
def mayLoad : Activity Bool := do
  if (← session).hasChanges then confirm "Discard unsaved changes?" else return true

/-- Load the file that is asked for. -/
def loadAsked : Activity Unit := do
  let some path ← askPath "Load from:" (← session).target | return
  openFile path
  change fun s => { s with selection := {}, target := path }

/-- Loading first makes sure that it may be done. -/
theorem run_load (d : Desk) :
    load.run d = (mayLoad >>= fun sure => if sure then loadAsked else pure ()).run d := by
  simp only [load, mayLoad, bind, next, session]
  split
  · rcases Asks.cases (d := d) (asks_confirm "Discard unsaved changes?") with
      ⟨sure, d₁, hsure, hkept⟩ | ⟨t, d₁, hsure, -⟩
    · cases sure with
      | false =>
          simp only [hsure]
          rfl
      | true =>
          simp only [hsure, Bool.not_true, Bool.false_eq_true, ↓reduceIte]
          rw [← hkept]
          rfl
    · simp only [hsure]
  · rfl

/-- The document that loading the file that is asked for gives. -/
def askedFrom? (d : Desk) : Option Document :=
  match (askPath "Load from:" d.session.target).run d with
  | (.ok (some path), d) => loadedFrom? path d
  | _ => none

/-- The document that was saved or loaded in doing an action, if it came to that
and was not refused. -/
def stored? (d : Desk) : Action → Option Document
  | .save => savedTo? d.session.target d
  | .saveAs =>
    match (askPath "Save to:" d.session.target).run d with
    | (.ok (some path), d) => savedTo? path d
    | _ => none
  | .load =>
    match mayLoad.run d with
    | (.ok true, d) => askedFrom? d
    | _ => none
  | _ => none

/-! ## Whole sessions -/

/-- A session as it is started, with an empty document or with a loaded one. -/
inductive Opened : Session → Prop where
  | empty
      (reference : Reference)
      (target : String) :
      Opened (start (.ofReference reference) target)
  | loaded
      {reference : Reference}
      {target path : String}
      {shell : Shell}
      {d : Desk}
      (opened : (openFile path).run { session := start (.ofReference reference) target, shell } =
        (.ok (), d)) :
      Opened d.session

/-- A new session that saves to a file, with answers to come. -/
def newDesk (answers : List Answer) : Desk where
  session := start (.ofReference {}) "good.yml"
  shell := { env := { home := "/home" }, filter := { rules := [] }, files := {}, answers }

/-- From a first desk on the session has come to a desk where the menu is shown,
and the document is the one that was saved or loaded last, or that of the first
desk.  Others may change the files between two turns. -/
inductive AtMenu (first : Desk) : Document → Desk → Prop where
  | first :
      AtMenu first first.session.editor.document first
  | again
      {kept : Document}
      {d d' : Desk}
      (reached : AtMenu first kept d)
      (taken : turn d = .again d') :
      AtMenu first kept d'
  | did
      {kept : Document}
      {d before after : Desk}
      {a : Action}
      (reached : AtMenu first kept d)
      (taken : turn d = .did a before after) :
      AtMenu first ((stored? before a).getD kept) after
  | files
      {kept : Document}
      {d : Desk}
      (reached : AtMenu first kept d)
      (files : Files) :
      AtMenu first kept { d with shell := { d.shell with files } }

/-- A menu that ends well ends with a turn of its own. -/
theorem AtMenu.exists_last
    {first d d' : Desk}
    {kept : Document}
    (h : AtMenu first kept d)
    (hmenu : menu d = (.ok (), d')) :
    ∃ kept last, AtMenu first kept last ∧ turn last = .ended (.ok ()) d' := by
  -- every turn but the last one takes an answer
  induction hn : d.patience using Nat.strongRecOn generalizing d kept with
  | ind n ih =>
      rw [menu_eq] at hmenu
      cases hturn : turn d with
      | again d₁ =>
          rw [hturn] at hmenu
          exact ih _ (hn ▸ patience_of_again hturn) (h.again hturn) hmenu rfl
      | did a before after =>
          rw [hturn] at hmenu
          exact ih _ (hn ▸ patience_of_did hturn) (h.did hturn) hmenu rfl
      | ended result d₁ =>
          rw [hturn] at hmenu
          cases hmenu
          exact ⟨kept, d, h, hturn⟩

end Session

end Dashboard

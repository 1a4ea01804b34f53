import Dashboard.CommandLine.Perform
import Dashboard.Proofs.Session.Actions

/-!
# Unsaved work

The text that counts as saved is that of the document as it was when it was
saved or loaded last.  The session ends only when the user wants it to, and then
the document has that text or the user has agreed to lose the changes; loading a
file over changes takes such an agreement too.
-/

namespace Dashboard

namespace Activity

variable {α β : Type}

/-! ## What was asked -/

/-- An activity that keeps what was asked before. -/
def Remembers (x : Activity α) : Prop :=
  ∀ d, d.shell.exchanges <:+ (x.run d).2.shell.exchanges

theorem Remembers.bind
    {x : Activity α}
    {f : α → Activity β}
    (hx : Remembers x)
    (hf : ∀ a, Remembers (f a)) :
    Remembers (x >>= f) := by
  intro d
  have hfirst := hx d
  change _ <:+ ((next x f).run d).2.shell.exchanges
  simp only [next]
  split
  · next a d₁ hrun =>
      rw [hrun] at hfirst
      exact hfirst.trans (hf a d₁)
  · next t d₁ hrun =>
      rw [hrun] at hfirst
      exact hfirst

theorem remembers_pure (a : α) : Remembers (pure a) :=
  fun _ => List.suffix_refl _

theorem remembers_fail (t : Trouble) : Remembers (fail t : Activity α) :=
  fun _ => List.suffix_refl _

theorem remembers_session : Remembers session :=
  fun _ => List.suffix_refl _

theorem remembers_files : Remembers files :=
  fun _ => List.suffix_refl _

theorem remembers_change (f : Session → Session) : Remembers (change f) :=
  fun _ => List.suffix_refl _

theorem remembers_say (text : String) : Remembers (say text) :=
  fun _ => List.suffix_refl _

theorem exchanges_noteAll
    (events : List Log.Event)
    (s : Shell) :
    (s.noteAll events).exchanges = s.exchanges := by
  induction events generalizing s with
  | nil =>
      rfl
  | cons e events ih =>
      refine (ih (s.note e)).trans ?_
      rw [Shell.note]
      split
      · rfl
      · rfl

theorem remembers_tell (events : List Log.Event) : Remembers (tell events) := by
  intro d
  simp only [Activity.tell, exchanges_noteAll]
  exact List.suffix_refl _

/-- A question is recorded on top of what was asked before. -/
theorem suffix_ask
    (s : Shell)
    (q : Question)
    (read : Answer → Reply α)
    (entered : α → Option String) :
    s.exchanges <:+ (s.ask q read entered).2.exchanges := by
  rw [Shell.ask.eq_def]
  split
  · exact List.suffix_cons _ _
  · exact List.suffix_cons _ _

theorem remembers_ask
    {question : Shell → Reply α × Shell}
    {h : ∀ s, (question s).2.answers.length ≤ s.answers.length}
    (hasked : ∀ s, s.exchanges <:+ (question s).2.exchanges) :
    Remembers (ask question h) :=
  fun d => hasked d.shell

theorem remembers_optional (r : Reply α) : Remembers (Session.optional r) := by
  cases r with
  | submitted a =>
      exact remembers_pure _
  | canceled | interrupted =>
      exact remembers_pure _
  | failed reason =>
      exact remembers_fail _

theorem remembers_askPath (message initial : String) :
    Remembers (Session.askPath message initial) := by
  refine (remembers_ask fun s => suffix_ask s _ _ _).bind fun r => ?_
  exact (remembers_optional r).bind fun _ => remembers_pure _

theorem remembers_openFile (path : String) : Remembers (Session.openFile path) := by
  refine Remembers.bind ?_ fun _ => (remembers_change _).bind fun _ => remembers_say _
  refine remembers_files.bind fun fs => ?_
  refine remembers_session.bind fun s => ?_
  refine (remembers_tell _).bind fun _ => ?_
  split
  · exact remembers_change _
  · exact remembers_fail _

end Activity

namespace Session

open Activity

/-! ## The text that counts as saved -/

/-- The text that counts as saved is that of a document, and the preview is that of
the document that is edited. -/
structure Marked (kept : Document) (s : Session) : Prop where
  saved : s.saved = kept.render
  current : s.editor.Current

/-- An action keeps track of the text that counts as saved. -/
theorem marked_perform
    {a : Action}
    {d : Desk}
    {kept : Document}
    (h : Marked kept d.session) :
    Marked ((stored? d a).getD kept) ((perform a).run d).2.session := by
  have hdone := done_perform a d
  generalize (perform a).run d = ended at hdone ⊢
  cases hdone with
  | edited hsession hstored =>
      rw [hstored]
      exact ⟨hsession.saved_eq.trans h.saved, hsession.current h.current⟩
  | saved target hsession hstored =>
      rw [hstored, hsession]
      exact ⟨h.current, h.current⟩
  | loaded target document hsession hstored =>
      rw [hstored, hsession]
      exact ⟨rfl, rfl⟩
  | failed hsession hstored honTarget =>
      rw [hstored, hsession]
      exact ⟨h.saved, h.current⟩

/-! ## Losing changes -/

theorem remembers_loadAsked : Remembers loadAsked := by
  refine remembers_session.bind fun s => ?_
  refine (remembers_askPath _ _).bind fun path? => ?_
  cases path? with
  | none =>
      exact remembers_pure ()
  | some path =>
      exact (remembers_openFile path).bind fun _ => remembers_change _

/-- An editor whose document is not the saved one has changes. -/
theorem hasChanges_iff
    {kept : Document}
    {s : Session}
    (h : Marked kept s) :
    s.hasChanges = true ↔ s.editor.document.render ≠ kept.render := by
  rw [hasChanges, h.saved, h.current, bne_iff_ne, ne_comm]

/-- Who may quit has no changes, or has agreed to lose them. -/
theorem agreed_of_mayQuit
    {d d' : Desk}
    (h : mayQuit d = (.ok true, d')) :
    d'.session = d.session ∧
      (d.session.hasChanges = false ∧ d'.shell = d.shell ∨
        ∃ reply, d.shell.askConfirm "Discard unsaved changes and quit?" = (reply, d'.shell) ∧
          (reply = .submitted true ∨ reply = .interrupted)) := by
  rw [mayQuit] at h
  split at h
  · split at h
    · next b shell hask =>
        cases h
        exact ⟨rfl, .inr ⟨_, hask, .inl rfl⟩⟩
    · cases h
    · next shell hask =>
        cases h
        exact ⟨rfl, .inr ⟨_, hask, .inr rfl⟩⟩
    · cases h
  · next hchanges =>
      cases h
      exact ⟨rfl, .inl ⟨by simpa using hchanges, rfl⟩⟩

/-- A file that is loaded over changes takes the agreement to lose them. -/
theorem agreed_of_load
    {d : Desk}
    (hchanges : d.session.hasChanges = true)
    (hchanged : (load.run d).2.session.editor ≠ d.session.editor) :
    ∃ shell, d.shell.askConfirm "Discard unsaved changes?" = (.submitted true, shell) ∧
      shell.exchanges <:+ (load.run d).2.shell.exchanges := by
  have hmay : mayLoad.run d = (confirm "Discard unsaved changes?").run d := by
    simp only [mayLoad, bind, next, session, hchanges, ↓reduceIte]
  rw [run_load] at hchanged ⊢
  simp only [bind, next, hmay] at hchanged ⊢
  cases hask : d.shell.askConfirm "Discard unsaved changes?" with
  | mk reply shell =>
      have hconfirm : (confirm "Discard unsaved changes?").run d =
          ((optional reply >>= fun answer => pure (answer.getD false)) : Activity Bool).run
            { d with shell } := by
        simp only [confirm, bind, next, askConfirm, ask, hask]
      rw [hconfirm] at hchanged ⊢
      cases reply with
      | submitted sure =>
          cases sure with
          | true =>
              exact ⟨shell, rfl, remembers_loadAsked { d with shell }⟩
          | false =>
              exact absurd rfl hchanged
      | canceled | interrupted =>
          exact absurd rfl hchanged
      | failed reason =>
          exact absurd rfl hchanged

/-! ## Sessions -/

/-- A session starts with a document that counts as saved. -/
theorem Opened.marked
    {s : Session}
    (h : Opened s) :
    Marked s.editor.document s := by
  cases h with
  | empty reference target =>
      exact ⟨rfl, rfl⟩
  | loaded opened =>
      obtain ⟨ed, hload, hsession⟩ := exists_of_openFile opened
      obtain ⟨document, rfl⟩ := Editor.exists_withDocument_of_load hload
      rw [hsession]
      exact ⟨rfl, rfl⟩

/-- A done action leaves the session that it made, with the selection clamped, and
what was asked in it. -/
theorem session_doAction
    (a : Action)
    (d : Desk) :
    (doAction a d).session = ((perform a).run (atAction a d)).2.session.clamp ∧
      (doAction a d).shell.exchanges =
        ((perform a).run (atAction a d)).2.shell.exchanges := by
  simp only [doAction, atAction]
  split <;> next hrun =>
    rw [hrun]
    exact ⟨rfl, rfl⟩

/-- A done action keeps track of the text that counts as saved. -/
theorem marked_doAction
    {kept : Document}
    {a : Action}
    {d : Desk}
    (h : Marked kept d.session) :
    Marked ((stored? (atAction a d) a).getD kept) (doAction a d).session := by
  have hdone : Marked ((stored? (atAction a d) a).getD kept)
      ((perform a).run (atAction a d)).2.session := marked_perform h
  rw [(session_doAction a d).1]
  exact ⟨hdone.saved, hdone.current⟩

/-- Wherever the menu is shown, the text that counts as saved is that of the
document that was saved or loaded last. -/
theorem AtMenu.marked
    {first d : Desk}
    {kept : Document}
    (hfirst : Opened first.session)
    (h : AtMenu first kept d) :
    Marked kept d.session := by
  induction h with
  | first =>
      exact hfirst.marked
  | again reached taken ih =>
      rw [session_of_again taken]
      exact ih
  | did reached taken ih =>
      obtain ⟨-, shell, rfl, rfl⟩ := exists_of_did taken
      exact marked_doAction ih
  | files reached files ih =>
      exact ih

/-- Loading over changes is done only if the user agrees to lose them. -/
theorem agreed_of_did_load
    {d before after : Desk}
    (h : turn d = .did .load before after)
    (hchanges : d.session.hasChanges = true)
    (hchanged : after.session.editor ≠ d.session.editor) :
    ∃ shell, before.shell.askConfirm "Discard unsaved changes?" = (.submitted true, shell) ∧
      shell.exchanges <:+ after.shell.exchanges := by
  obtain ⟨-, shell, rfl, rfl⟩ := exists_of_did h
  obtain ⟨hsession, hexchanges⟩ := session_doAction .load { d with shell }
  rw [hsession] at hchanged
  rw [hexchanges]
  exact agreed_of_load (d := atAction .load { d with shell }) hchanges hchanged

/-- A session of the command is one of the menu from a desk where it was started. -/
theorem exists_of_openSession
    {reference : Reference}
    {target : String}
    {file? : Option String}
    {shell : Shell}
    {d' : Desk}
    (h : CommandLine.Task.openSession file?
      { session := start (.ofReference reference) target, shell } = (.ok (), d')) :
    ∃ first, Opened first.session ∧ menu first = (.ok (), d') := by
  rw [CommandLine.Task.openSession] at h
  split at h
  · exact ⟨_, .empty reference target, h⟩
  · next file hfile =>
      split at h
      · next d hopened =>
          have hstarted : Opened d.session := .loaded hopened
          exact ⟨{ d with shell := d.shell.say _ }, hstarted, h⟩
      · cases h

/-- Unsaved work is not lost silently.  The text that counts as saved is that of the
document that was saved or loaded last.  A session ends well only in a turn in
which the user wants to quit, and then the document has that text, or the user
was asked and said yes or interrupted.  A document with another text is loaded
over only after the user was asked and said yes. -/
theorem unsaved_not_lost
    {first : Desk}
    (hfirst : Opened first.session) :
    (∀ kept d, AtMenu first kept d → d.session.saved = kept.render) ∧
      (∀ kept d d', AtMenu first kept d → turn d = .ended (.ok ()) d' →
        WantsToQuit d ∧ d'.session = d.session ∧
          (d.session.editor.document.render = kept.render ∧ d'.shell = (askAction d).2 ∨
            ∃ reply, (askAction d).2.askConfirm "Discard unsaved changes and quit?" =
                (reply, d'.shell) ∧
              (reply = .submitted true ∨ reply = .interrupted))) ∧
      (∀ kept d before after, AtMenu first kept d → turn d = .did .load before after →
        d.session.editor.document.render ≠ kept.render →
        after.session.editor ≠ d.session.editor →
        ∃ shell, before.shell.askConfirm "Discard unsaved changes?" = (.submitted true, shell) ∧
          shell.exchanges <:+ after.shell.exchanges) ∧
      ∀ reference target file? shell d',
        CommandLine.Task.openSession file?
          { session := start (.ofReference reference) target, shell } = (.ok (), d') →
        ∃ first kept last, Opened first.session ∧ AtMenu first kept last ∧
          turn last = .ended (.ok ()) d' := by
  refine ⟨fun kept d h => (h.marked hfirst).saved, fun kept d d' h hended => ?_,
    fun kept d before after h hdid hrender hchanged => ?_,
    fun reference target file? shell d' hrun => ?_⟩
  · obtain ⟨hwants, hmay⟩ := ended_iff.1 hended
    obtain ⟨hsession, hagreed⟩ := agreed_of_mayQuit hmay
    refine ⟨hwants, hsession, hagreed.imp_left fun ⟨hchanges, hshell⟩ => ⟨?_, hshell⟩⟩
    refine Decidable.byContradiction fun hrender => ?_
    have hhas := (hasChanges_iff (h.marked hfirst)).2 hrender
    rw [hhas] at hchanges
    cases hchanges
  · exact agreed_of_did_load hdid ((hasChanges_iff (h.marked hfirst)).2 hrender) hchanged
  · obtain ⟨first, hopened, hmenu⟩ := exists_of_openSession hrun
    obtain ⟨kept, last, hlast, hended⟩ := AtMenu.first.exists_last hmenu
    exact ⟨first, kept, last, hopened, hlast, hended⟩

/-- A session that adds a page and then quits without saving it. -/
def hastyDesk : Desk :=
  newDesk [.text "Add page", .text "Home", .text "Quit", .truth true]

/-- The page was not saved, so the user was asked before the session ended. -/
theorem asked_before_losing_page :
    ∃ d d', AtMenu hastyDesk {} d ∧ turn d = .ended (.ok ()) d' ∧
      d.session.editor.document.render ≠ ({} : Document).render ∧
      ∃ reply, (askAction d).2.askConfirm "Discard unsaved changes and quit?" =
          (reply, d'.shell) ∧
        (reply = .submitted true ∨ reply = .interrupted) := by
  let added := doAction .addPage { hastyDesk with shell := (askAction hastyDesk).2 }
  have hturn : turn hastyDesk =
      .did .addPage (atAction .addPage { hastyDesk with shell := (askAction hastyDesk).2 })
        added := by
    rfl
  have hreached : AtMenu hastyDesk {} added := AtMenu.first.did hturn
  have hchanged : added.session.editor.document.render ≠ ({} : Document).render := by
    decide +kernel
  have hmay : (mayQuit { added with shell := (askAction added).2 }).1 = .ok true := by
    have hyes : (mayQuit { added with shell := (askAction added).2 }).1.toOption = some true := by
      decide +kernel
    cases hresult : (mayQuit { added with shell := (askAction added).2 }).1 with
    | ok b =>
        rw [hresult] at hyes
        cases hyes
        rfl
    | error t =>
        rw [hresult] at hyes
        cases hyes
  have hended : turn added =
      .ended (.ok ()) (mayQuit { added with shell := (askAction added).2 }).2 :=
    ended_iff.2 ⟨.inr ⟨9, by decide +kernel, by decide +kernel⟩, Prod.ext hmay rfl⟩
  obtain ⟨-, -, hsame | hasked⟩ :=
    (unsaved_not_lost (.empty {} "good.yml")).2.1 _ _ _ hreached hended
  · exact absurd hsame.1 hchanged
  · exact ⟨added, _, hreached, hended, hchanged, hasked⟩

end Session

end Dashboard

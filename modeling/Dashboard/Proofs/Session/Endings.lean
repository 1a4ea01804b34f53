import Dashboard.Proofs.Editor.InRange
import Dashboard.Proofs.Editor.Operations
import Dashboard.Session.Perform

/-!
# How activities end

An activity ends well with a value, or it fails.  One judgment says of both endings in
which session they leave the desk, so that the steps of an action are walked through
once.  A question leaves the session as it is.  An edit changes the selection and the
document, and nothing at all if it fails.
-/

namespace Dashboard

/-- An action failed because its target is not selected, or because the place of
the target is out of range. -/
def Trouble.MissesTarget : Trouble → Prop
  | message text => ∃ level, text = Selection.missing level
  | refused e => e.isOutOfRange = true
  | within _ cause => cause.MissesTarget
  | _ => False

/-- A refusal for another reason misses no target. -/
theorem Trouble.not_missesTarget_refused
    {e : Error}
    (h : e.isOutOfRange = false) :
    ¬(refused e).MissesTarget := by
  rw [MissesTarget, h]
  exact Bool.false_ne_true

namespace Session

/-- An edit changes the selection and the document, which is rendered anew, and
nothing else. -/
inductive Edited (s : Session) : Session → Prop where
  | selected
      (selection : Selection) :
      Edited s { s with selection }
  | changed
      (document : Document)
      (selection : Selection) :
      Edited s { s with editor := s.editor.withDocument document, selection }

/-- A failure that leaves a session as it was, and that is not for want of the target if
the target is found. -/
structure Refused (found : Prop) (s : Session) (t : Trouble) (s' : Session) : Prop where
  session : s' = s
  onTarget : found → ¬t.MissesTarget

variable {s s' : Session}

theorem Edited.refl : Edited s s :=
  .selected s.selection

theorem Edited.select
    (h : Edited s s')
    (f : Selection → Selection) :
    Edited s { s' with selection := f s'.selection } := by
  cases h with
  | selected selection =>
      exact .selected (f selection)
  | changed document selection =>
      exact .changed document (f selection)

/-- An edit saves nothing. -/
theorem Edited.saved_eq (h : Edited s s') : s'.saved = s.saved := by
  cases h with
  | selected selection | changed document selection =>
      rfl

/-- An edit leaves the preview of the document. -/
theorem Edited.current
    (h : Edited s s')
    (hcurrent : s.editor.Current) :
    s'.editor.Current := by
  cases h with
  | selected selection =>
      exact hcurrent
  | changed document selection =>
      exact s.editor.current_withDocument document

end Session

open Session

namespace Activity

variable {α β : Type}

/-! ## Steps -/

section Steps

variable {x : Activity α}
variable {f : α → Activity β}
variable {d d' : Desk}

/-- A sequence goes on where its first step succeeded. -/
theorem run_bind_of_ok
    {a : α}
    (h : x.run d = (.ok a, d')) :
    (x >>= f).run d = (f a).run d' := by
  change (next x f).run d = _
  simp only [next, h]

/-- A sequence ends where its first step failed. -/
theorem run_bind_of_error
    {t : Trouble}
    (h : x.run d = (.error t, d')) :
    (x >>= f).run d = (.error t, d') := by
  change (next x f).run d = _
  simp only [next, h]

theorem run_act_of_ok
    (operation : Editor → Act α)
    {a : α}
    {ed : Editor}
    (h : (operation d.session.editor).result = .ok (a, ed)) :
    (act operation).run d =
      (.ok a,
        { session := { d.session with editor := ed }
          shell := d.shell.noteAll (operation d.session.editor).events }) := by
  refine (run_bind_of_ok rfl).trans ?_
  refine (run_bind_of_ok rfl).trans ?_
  rw [h]
  rfl

theorem run_act_of_error
    (operation : Editor → Act α)
    {e : Error}
    (h : (operation d.session.editor).result = .error e) :
    (act operation).run d =
      (.error (.refused e),
        { d with shell := d.shell.noteAll (operation d.session.editor).events }) := by
  refine (run_bind_of_ok rfl).trans ?_
  refine (run_bind_of_ok rfl).trans ?_
  rw [h]
  rfl

end Steps

/-! ## Endings -/

/-- From a session on, an activity leaves `ok` of its value and its session, or `failed`
of its trouble and its session. -/
def Ends (s : Session) (x : Activity α) (ok : α → Session → Prop)
    (failed : Trouble → Session → Prop) : Prop :=
  ∀ d, d.session = s →
    match x.run d with
    | (.ok a, d') => ok a d'.session
    | (.error t, d') => failed t d'.session

/-- An activity that only asks: it leaves the session as it is. -/
def Asks (found : Prop) (s : Session) (x : Activity α) : Prop :=
  Ends s x (fun _ s' => s' = s) (Refused found s)

/-- An activity that edits the session, or leaves it as it is when it fails. -/
def Edits (found : Prop) (s : Session) (x : Activity α) : Prop :=
  Ends s x (fun _ s' => Edited s s') (Refused found s)

section Rules

variable {found : Prop}
variable {s s' : Session}
variable {ok : β → Session → Prop}
variable {failed : Trouble → Session → Prop}

theorem Ends.mono
    {x : Activity β}
    {ok' : β → Session → Prop}
    (hx : Ends s x ok failed)
    (hok : ∀ b s', ok b s' → ok' b s') :
    Ends s x ok' failed := by
  intro d hd
  have hend := hx d hd
  split at hend
  · exact hok _ _ hend
  · exact hend

/-- A question is answered or fails, and the session is the same either way. -/
theorem Asks.cases
    {x : Activity α}
    {d : Desk}
    (h : Asks True d.session x) :
    (∃ a d', x.run d = (.ok a, d') ∧ d'.session = d.session) ∨
      ∃ t d', x.run d = (.error t, d') ∧ d'.session = d.session ∧ ¬t.MissesTarget := by
  have hend := h d rfl
  cases hrun : x.run d with
  | mk result d' =>
      rw [hrun] at hend
      cases result with
      | ok a =>
          exact .inl ⟨a, d', rfl, hend⟩
      | error t =>
          exact .inr ⟨t, d', rfl, hend.session, hend.onTarget trivial⟩

/-! ## Single steps -/

theorem ends_pure
    {b : β}
    (h : ok b s) :
    Ends s (pure b) ok failed := by
  rintro d rfl
  exact h

theorem ends_fail
    {t : Trouble}
    (h : failed t s) :
    Ends s (fail t) ok failed := by
  rintro d rfl
  exact h

theorem ends_say
    {text : String}
    {ok : Unit → Session → Prop}
    (h : ok () s) :
    Ends s (say text) ok failed := by
  rintro d rfl
  exact h

theorem ends_select
    {f : Selection → Selection}
    (h : Edited s s') :
    Ends s' (select f) (fun _ s' => Edited s s') failed := by
  rintro d rfl
  exact h.select f

theorem asks_ask
    (question : Shell → Reply α × Shell)
    (h : ∀ s, (question s).2.answers.length ≤ s.answers.length) :
    Asks found s (ask question h) :=
  fun _ hd => hd

/-- A result whose target exists is an error for other reasons. -/
theorem asks_ofResult
    {r : Except Error α}
    (h : found → InRange r) :
    Asks found s (ofResult r) := by
  cases r with
  | ok a =>
      exact ends_pure rfl
  | error e =>
      exact ends_fail ⟨rfl, fun hfound => Trouble.not_missesTarget_refused (h hfound e rfl)⟩

/-- A lookup succeeds if its target is found. -/
theorem asks_lookup
    {r : Except Error α}
    (h : found → ∃ a, r = .ok a) :
    Asks found s (ofResult r) := by
  refine asks_ofResult fun hfound => ?_
  obtain ⟨a, ha⟩ := h hfound
  exact inRange_of_eq_ok ha

/-- An operation of the editor that asks nothing is an edit. -/
theorem edits_act
    {operation : Editor → Act α}
    (hchanged : ∀ ed a ed', (operation ed).result = .ok (a, ed') → ∃ d, ed' = ed.withDocument d)
    (hinRange : found → InRange (operation s.editor).result) :
    Edits found s (act operation) := by
  rintro d rfl
  cases hresult : (operation d.session.editor).result with
  | ok r =>
      obtain ⟨document, hdocument⟩ := hchanged _ _ _ hresult
      rw [run_act_of_ok operation hresult, hdocument]
      exact .changed document d.session.selection
  | error e =>
      rw [run_act_of_error operation hresult]
      exact ⟨rfl, fun hfound => Trouble.not_missesTarget_refused (hinRange hfound e hresult)⟩

/-- An operation whose change the editor takes over. -/
theorem edits_adopt
    {change : Editor → Except Error (Change α)}
    (hinRange : found → InRange (s.editor.adopt (change s.editor)).result) :
    Edits found s (act fun ed => ed.adopt (change ed)) :=
  edits_act (fun _ _ _ => Editor.exists_withDocument_of_adopt) hinRange

/-- A dialog about a place that exists does not fail. -/
theorem edits_dialog
    {k : Editor.Dialog α β}
    {prompt : Prompt Shell α}
    {h : ∀ ed shell, (k.run ed prompt shell).2.answers.length ≤ shell.answers.length}
    (hplace : found → s.editor.document.outOfRange? k.place = none) :
    Edits found s (dialog (fun ed shell => k.run ed prompt shell) h) := by
  rintro d rfl
  simp only [dialog]
  cases hrun : k.run d.session.editor prompt d.shell with
  | mk result shell =>
      have hresult := congrArg Prod.fst hrun
      cases result with
      | error e =>
          exact ⟨rfl, fun hfound _ => Editor.run_ne_error (hplace hfound) prompt d.shell e hresult⟩
      | ok o =>
          cases o with
          | cancelled =>
              exact .refl
          | applied r =>
              obtain ⟨document, hdocument⟩ := Editor.exists_withDocument_of_run hresult
              simp only [hdocument]
              exact .changed document d.session.selection

/-! ## Sequences -/

/-- The rest of a sequence goes on in the session that the first step left. -/
theorem Ends.bind
    {x : Activity α}
    {f : α → Activity β}
    {mid : α → Session → Prop}
    (hx : Ends s x mid failed)
    (hf : ∀ a s', mid a s' → Ends s' (f a) ok failed) :
    Ends s (x >>= f) ok failed := by
  intro d hd
  have hfirst := hx d hd
  cases hrun : x.run d with
  | mk result d₁ =>
      rw [hrun] at hfirst
      cases result with
      | ok a =>
          rw [run_bind_of_ok hrun]
          exact hf a d₁.session hfirst d₁ rfl
      | error t =>
          rw [run_bind_of_error hrun]
          exact hfirst

/-- After a step that leaves the session as it is, only its value matters. -/
theorem Ends.bind_same
    {x : Activity α}
    {f : α → Activity β}
    {value : α → Prop}
    (hx : Ends s x (fun a s' => s' = s ∧ value a) failed)
    (hf : ∀ a, value a → Ends s (f a) ok failed) :
    Ends s (x >>= f) ok failed := by
  refine hx.bind ?_
  rintro a _ ⟨rfl, hvalue⟩
  exact hf a hvalue

/-- After a question the session is the same. -/
theorem Asks.bind
    {x : Activity α}
    {f : α → Activity β}
    (hx : Asks found s x)
    (hf : ∀ a, Ends s (f a) ok (Refused found s)) :
    Ends s (x >>= f) ok (Refused found s) := by
  refine Ends.bind hx ?_
  rintro a _ rfl
  exact hf a

/-- After an edit come only steps that go on editing. -/
theorem Edits.bind
    {x : Activity α}
    {f : α → Activity β}
    (hx : Edits found s x)
    (hf : ∀ a s', Edited s s' → Ends s' (f a) (fun _ s' => Edited s s') (Refused found s)) :
    Edits found s (x >>= f) :=
  Ends.bind hx hf

/-- What is done with the session that is looked at is done in it. -/
theorem ends_session_bind
    {f : Session → Activity β}
    (hf : Ends s (f s) ok failed) :
    Ends s (session >>= f) ok failed := by
  rintro d rfl
  exact hf d rfl

theorem ends_say_bind
    {text : String}
    {f : Unit → Activity β}
    (hf : Ends s (f ()) ok failed) :
    Ends s (say text >>= f) ok failed :=
  fun d hd => hf { d with shell := d.shell.say text } hd

/-- A question that is given up ends an activity. -/
theorem Asks.bind_answered
    {x : Activity (Option α)}
    {f : Option α → Activity Unit}
    (hx : Asks found s x)
    (hnone : f none = pure ())
    (hsome : ∀ a, Edits found s (f (some a))) :
    Edits found s (x >>= f) := by
  refine Asks.bind hx fun answer => ?_
  cases answer with
  | none =>
      rw [hnone]
      exact ends_pure .refl
  | some a =>
      exact hsome a

/-- What is only done if the user is sure ends an activity otherwise. -/
theorem Asks.bind_sure
    {x : Activity Bool}
    {y : Activity Unit}
    (hx : Asks found s x)
    (hy : Edits found s y) :
    Edits found s (x >>= fun sure => if sure then y else pure ()) := by
  refine Asks.bind hx fun sure => ?_
  split
  · exact hy
  · exact ends_pure .refl

/-- A dialog that is cancelled ends an activity. -/
theorem Edits.bind_applied
    {x : Activity (Outcome α)}
    {f : Outcome α → Activity Unit}
    (hx : Edits found s x)
    (hcancelled : f .cancelled = pure ())
    (happlied : ∀ a s', Edited s s' →
      Ends s' (f (.applied a)) (fun _ s' => Edited s s') (Refused found s)) :
    Edits found s (x >>= f) := by
  refine hx.bind fun o s' h => ?_
  cases o with
  | cancelled =>
      rw [hcancelled]
      exact ends_pure h
  | applied a =>
      exact happlied a s' h

end Rules

end Activity

namespace Session

open Activity

/-! ## Questions -/

section Questions

variable {found : Prop}
variable {s : Session}

/-- A question that cannot be asked is no missing target. -/
theorem asks_optional
    {α : Type}
    (r : Reply α) :
    Asks found s (optional r) := by
  cases r with
  | submitted a =>
      exact ends_pure rfl
  | canceled | interrupted =>
      exact ends_pure rfl
  | failed reason =>
      exact ends_fail ⟨rfl, fun _ => id⟩

theorem asks_pick
    (message : String)
    (labels : List String)
    (current : Option Nat) :
    Asks found s (pick message labels current) :=
  (asks_ask _ _).bind fun r => asks_optional r

theorem asks_confirm (question : String) : Asks found s (confirm question) :=
  (asks_ask _ _).bind fun r => (asks_optional r).bind fun _ => ends_pure rfl

theorem asks_askPath (message initial : String) : Asks found s (askPath message initial) :=
  (asks_ask _ _).bind fun r => (asks_optional r).bind fun _ => ends_pure rfl

theorem asks_askValue : Asks found s askValue :=
  (asks_ask _ _).bind fun r => (asks_optional r).bind fun _ => ends_pure rfl

theorem asks_askType (initial : String) : Asks found s (askType initial) :=
  ends_session_bind (asks_ask _ _)

end Questions

end Session

end Dashboard

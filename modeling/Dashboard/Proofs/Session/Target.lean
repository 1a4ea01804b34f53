import Dashboard.Proofs.Menu.Selection
import Dashboard.Proofs.Session.Actions

/-!
# Targets of the actions

An action that the menu offers finds the page, the column or the widget that it
is about: it never fails because nothing is selected, and never because a place
is out of range.  The menu, the checks of an action and the lookups of the
editor each have a condition of their own; here they are shown to agree.
-/

namespace Dashboard

namespace Action

theorem target?_of_mem_onPage
    {a : Action}
    {page : Page}
    (h : a ∈ onPage page) :
    a.target? = some .page := by
  simp only [onPage, List.mem_append, List.mem_cons, List.not_mem_nil, or_false] at h
  rcases h with (rfl | rfl | rfl) | h
  · rfl
  · rfl
  · rfl
  · split at h
    · cases h
    · cases List.mem_singleton.1 h
      rfl

theorem target?_of_mem_onColumn
    {a : Action}
    {column : Column}
    (h : a ∈ onColumn column) :
    a.target? = some .column := by
  simp only [onColumn, List.mem_append, List.mem_cons, List.not_mem_nil, or_false] at h
  rcases h with (rfl | rfl | rfl) | h
  · rfl
  · rfl
  · rfl
  · split at h
    · cases h
    · cases List.mem_singleton.1 h
      rfl

/-- The menu offers an action only if its target exists. -/
theorem finds_of_mem_available
    {a : Action}
    {level : Level}
    {ed : Editor}
    {s : Selection}
    (h : a ∈ available ed s)
    (hlevel : a.target? = some level) :
    s.Finds ed.document level := by
  simp only [available, List.mem_append] at h
  rcases h with ((((((h | h) | h) | h) | h) | h) | h) | h
  · -- what is always offered needs no target
    simp only [List.mem_cons, List.not_mem_nil, or_false] at h
    rcases h with rfl | rfl <;> cases hlevel
  · split at h
    · cases h
    · cases List.mem_singleton.1 h
      cases hlevel
  · split at h
    · next page hpage =>
        cases (target?_of_mem_onPage h).symm.trans hlevel
        exact ⟨page, hpage⟩
    · cases h
  · split at h
    · next column hcolumn =>
        cases (target?_of_mem_onColumn h).symm.trans hlevel
        exact ⟨column, hcolumn⟩
    · cases h
  · split at h
    · next hwidget =>
        have htarget : a.target? = some .widget := by
          simp only [List.mem_cons, List.not_mem_nil, or_false] at h
          rcases h with rfl | rfl | rfl <;> rfl
        cases htarget.symm.trans hlevel
        exact Option.isSome_iff_exists.1 hwidget
    · cases h
  · split at h
    · cases h
    · cases List.mem_singleton.1 h
      cases hlevel
  · split at h
    · cases h
    · cases List.mem_singleton.1 h
      cases hlevel
  · simp only [List.mem_cons, List.not_mem_nil, or_false] at h
    rcases h with rfl | rfl | rfl | rfl <;> cases hlevel

end Action

namespace Session

open Activity

/-! ## Sessions -/

/-- A session starts without a selection. -/
theorem Opened.selection
    {s : Session}
    (h : Opened s) :
    s.selection = {} := by
  cases h with
  | empty reference target =>
      rfl
  | loaded opened =>
      obtain ⟨_, -, hsession⟩ := exists_of_openFile opened
      rw [hsession]
      rfl

/-- An action leaves a valid selection, whatever it has done. -/
theorem valid_doAction
    (a : Action)
    (d : Desk) :
    (doAction a d).session.selection.Valid (doAction a d).session.editor.document := by
  simp only [doAction]
  split
  · exact Selection.valid_clamp _ _
  · exact Selection.valid_clamp _ _

/-- Wherever the menu is shown, the selection is valid. -/
theorem AtMenu.valid
    {first d : Desk}
    {kept : Document}
    (hfirst : Opened first.session)
    (h : AtMenu first kept d) :
    d.session.selection.Valid d.session.editor.document := by
  induction h with
  | first =>
      rw [hfirst.selection]
      exact ⟨nofun, nofun, nofun⟩
  | again reached taken ih =>
      rw [session_of_again taken]
      exact ih
  | did reached taken ih =>
      obtain ⟨-, shell, -, rfl⟩ := exists_of_did taken
      exact valid_doAction _ _
  | files reached files ih =>
      exact ih

/-- Wherever the menu is shown, the selection is valid, and an action that is
offered does not fail for want of its target, whatever is answered.  Clamping
looks up nothing that is out of range, leaves a valid selection as it is,
selects nothing where nothing was selected, and is idempotent. -/
theorem offered_on_target
    {first d : Desk}
    {kept : Document}
    (hfirst : Opened first.session)
    (h : AtMenu first kept d) :
    d.session.selection.Valid d.session.editor.document ∧
      (∀ a ∈ Action.available d.session.editor d.session.selection, ∀ shell t d',
        (perform a).run { d with shell } = (.error t, d') → ¬t.MissesTarget) ∧
      ∀ (s : Selection) (e : Document),
        s.clampStrict e = some (s.clamp e) ∧
          (s.Valid e → s.clamp e = s) ∧
          (∀ level, s.place? level = none → (s.clamp e).place? level = none) ∧
          (s.clamp e).clamp e = s.clamp e := by
  refine ⟨h.valid hfirst, fun a ha shell t d' hrun => ?_, fun s e => ?_⟩
  · have hdone := done_perform a { d with shell }
    rw [hrun] at hdone
    cases hdone with
    | failed hsession hstored honTarget =>
        exact honTarget fun level => Action.finds_of_mem_available ha
  · exact ⟨Selection.clampStrict_eq s e, Selection.clamp_eq_self, fun level =>
      Selection.place?_clamp level, Selection.clamp_clamp s e⟩

/-- A session that adds a page first. -/
def pageDesk : Desk :=
  newDesk [.text "Add page", .text "Home"]

/-- The page that was added is selected, and renaming it finds it. -/
theorem renamePage_on_target :
    ∃ d, AtMenu pageDesk pageDesk.session.editor.document d ∧
      d.session.selection.page = some 0 ∧
      .renamePage ∈ Action.available d.session.editor d.session.selection ∧
      ∀ shell t d', (perform .renamePage).run { d with shell } = (.error t, d') →
        ¬t.MissesTarget := by
  have hopened : Opened pageDesk.session := .empty {} "good.yml"
  have hturn : turn pageDesk =
      .did .addPage (atAction .addPage { pageDesk with shell := (askAction pageDesk).2 })
        (doAction .addPage { pageDesk with shell := (askAction pageDesk).2 }) := by
    rfl
  have hreached := AtMenu.first.did hturn
  have hoffered := (offered_on_target hopened hreached).2.1 .renamePage (by decide +kernel)
  exact ⟨_, hreached, by decide +kernel, by decide +kernel, hoffered⟩

end Session

end Dashboard

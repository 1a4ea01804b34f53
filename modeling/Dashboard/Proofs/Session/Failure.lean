import Dashboard.Proofs.Session.Actions

/-!
# What a failed action leaves behind

An action of the menu asks its questions and does what may fail before it
changes the session, so a failed action leaves the session as it was.  Only
saving under another name takes over the name first: if the document cannot be
written there, the next saving goes there all the same.
-/

namespace Dashboard.Session

open Activity

/-- No other file comes to be the one that is saved to, unless its name is taken over in
saving under another name. -/
theorem takenTarget_eq_iff
    {a : Action}
    {d : Desk} :
    takenTarget d a = d.session.target ↔
      ∀ path d₁, a = .saveAs →
        (askPath "Save to:" d.session.target).run d = (.ok (some path), d₁) →
        path = d.session.target := by
  unfold takenTarget
  split
  · split
    · next path d₁ hasked =>
        constructor
        · intro hsame path' d₂ _ hasked'
          cases hasked.symm.trans hasked'
          exact hsame
        · intro hsame
          exact hsame path d₁ rfl hasked
    · next hnone =>
        exact iff_of_true rfl fun path d₁ _ hasked => absurd hasked (hnone path d₁)
  · next hother =>
      exact iff_of_true rfl fun path d₁ hsave _ => absurd hsave hother

/-- A failed action leaves the session as it was, unless it is to save under
another name than the one that is saved to. -/
theorem failed_perform_keeps_iff
    {a : Action}
    {d d' : Desk}
    {t : Trouble}
    (h : (perform a).run d = (.error t, d')) :
    d'.session = d.session ↔
      ∀ path d₁, a = .saveAs →
        (askPath "Save to:" d.session.target).run d = (.ok (some path), d₁) →
        path = d.session.target := by
  have hdone := done_perform a d
  rw [h] at hdone
  cases hdone with
  | failed hsession hstored honTarget =>
      rw [← takenTarget_eq_iff, hsession]
      constructor
      · intro hsame
        exact congrArg Session.target hsame
      · intro hsame
        rw [hsame]

/-- A file that is missing cannot be loaded, and the session goes on as it was. -/
theorem failed_load_keeps :
    ((perform .load).run (newDesk [.text "missing.yml"])).1 =
        .error (.within "Failed to load missing.yml" (.refused (.file "missing.yml" .notFound))) ∧
      ((perform .load).run (newDesk [.text "missing.yml"])).2.session =
        (newDesk [.text "missing.yml"]).session := by
  have hfailed : ((perform .load).run (newDesk [.text "missing.yml"])).1 =
      .error (.within "Failed to load missing.yml" (.refused (.file "missing.yml" .notFound))) := by
    rfl
  have hrun : (perform .load).run (newDesk [.text "missing.yml"]) =
      (.error (.within "Failed to load missing.yml" (.refused (.file "missing.yml" .notFound))),
        ((perform .load).run (newDesk [.text "missing.yml"])).2) := by
    rw [← hfailed]
  refine ⟨hfailed, (failed_perform_keeps_iff hrun).2 fun path d₁ hsave => ?_⟩
  cases hsave

/-- Saving an empty document under another name is refused, and from then on the
session saves to the other file. -/
theorem not_failed_saveAs_keeps :
    ∃ d d' t, d.session = start (.ofReference {}) "good.yml" ∧
      .saveAs ∈ Action.available d.session.editor d.session.selection ∧
      (perform .saveAs).run d = (.error t, d') ∧ d'.session.target = "other.yml" ∧
      d'.session ≠ d.session := by
  have hrun : ((perform .saveAs).run (newDesk [.text "other.yml"])).1 =
      .error (.within "Failed to save other.yml" (.refused .emptyDocument)) := by
    rfl
  have htarget : ((perform .saveAs).run (newDesk [.text "other.yml"])).2.session.target =
      "other.yml" := by
    rfl
  refine ⟨newDesk [.text "other.yml"], ((perform .saveAs).run (newDesk [.text "other.yml"])).2, _,
    rfl, by decide, Prod.ext hrun rfl, htarget, fun hsame => ?_⟩
  have hgood := htarget.symm.trans (congrArg Session.target hsame)
  exact absurd hgood (by decide)

end Dashboard.Session

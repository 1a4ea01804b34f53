import Dashboard.Proofs.Editor.Dialogs

/-!
# What an operation makes of an editor

An operation that is carried out gives the editor with another document and its
preview, or, if it is cancelled or only writes a file, the editor as it was.
-/

namespace Dashboard.Editor

variable {α β : Type}
variable {ed ed' : Editor}

/-- The preview is the text of the document. -/
def Current (ed : Editor) : Prop :=
  ed.preview = ed.document.render

theorem current_withDocument
    (ed : Editor)
    (d : Document) :
    (ed.withDocument d).Current :=
  rfl

section Acts

/-- An editor that takes over a change has its document. -/
theorem exists_withDocument_of_adopt
    {x : Except Error (Change α)}
    {a : α}
    (h : (ed.adopt x).result = .ok (a, ed')) :
    ∃ d, ed' = ed.withDocument d := by
  cases x with
  | error e =>
      cases h
  | ok c =>
      cases h
      exact ⟨c.document, rfl⟩

theorem exists_withDocument_of_insertTemplate
    {name : String}
    {count : Nat}
    (h : (ed.insertTemplate name).result = .ok (count, ed')) :
    ∃ d, ed' = ed.withDocument d := by
  simp only [insertTemplate] at h
  split at h
  · cases h
  · split at h
    · cases h
    · cases h
      exact ⟨_, rfl⟩

theorem exists_withDocument_of_loadText
    {text : String}
    (h : (ed.loadText text).result = .ok ((), ed')) :
    ∃ d, ed' = ed.withDocument d := by
  simp only [loadText] at h
  split at h
  · cases h
  · next d hparse =>
      cases h
      exact ⟨d, rfl⟩

theorem exists_withDocument_of_load
    {fs : Files}
    {path : String}
    (h : (ed.load fs path).result = .ok ((), ed')) :
    ∃ d, ed' = ed.withDocument d := by
  simp only [load] at h
  split at h
  · cases h
  · split at h
    · next ed₁ heard hload =>
        cases h
        exact exists_withDocument_of_loadText (congrArg Act.result hload)
    · exact exists_withDocument_of_loadText h

end Acts

/-- A dialog that is applied gives the editor with another document. -/
theorem exists_withDocument_of_run
    {σ : Type}
    {k : Dialog α β}
    {p : Prompt σ α}
    {s : σ}
    {b : β}
    (h : (k.run ed p s).1 = .ok (.applied (b, ed'))) :
    ∃ d, ed' = ed.withDocument d := by
  cases hinitial : k.initial ed.document with
  | error e =>
      rw [Dialog.run_eq, hinitial] at h
      cases h
  | ok shown =>
      rw [Dialog.run_fst hinitial, map_eq_ok] at h
      obtain ⟨o, -, happlied⟩ := h
      cases o with
      | applied r =>
          cases happlied
          exact ⟨r.2, rfl⟩
      | cancelled =>
          cases happlied

namespace Operation

variable {fs fs' : Files}
variable {o : Outcome β}

theorem result_of_ofAct
    {act : Act β}
    (h : ofAct fs act = .ok (o, ed', fs')) :
    ∃ b, o = .applied b ∧ act.result = .ok (b, ed') := by
  obtain ⟨⟨b, ed₁⟩, hresult, hpair⟩ := map_eq_ok.1 h
  cases hpair
  exact ⟨b, rfl, hresult⟩

/-- An operation that is carried out leaves the editor as it was, or gives it
another document, and then it is applied. -/
theorem eq_or_withDocument_of_carryOut
    {op : Operation β}
    (h : op.carryOut (ed, fs) = .ok (o, ed', fs')) :
    ed' = ed ∨ ∃ b d, o = .applied b ∧ ed' = ed.withDocument d := by
  cases op with
  | ask k p s =>
      obtain ⟨result, hrun, hpair⟩ := map_eq_ok.1 h
      cases result with
      | applied r =>
          cases hpair
          obtain ⟨d, hd⟩ := exists_withDocument_of_run hrun
          exact .inr ⟨r.1, d, rfl, hd⟩
      | cancelled =>
          cases hpair
          exact .inl rfl
  | deletePage p | deleteColumn p c | deleteWidget p c i | insertOption p c i path v
  | setOption p c i path v | deleteOption p c i path =>
      obtain ⟨b, ho, hresult⟩ := result_of_ofAct h
      obtain ⟨d, hd⟩ := exists_withDocument_of_adopt hresult
      exact .inr ⟨b, d, ho, hd⟩
  | insertTemplate name =>
      obtain ⟨b, ho, hresult⟩ := result_of_ofAct h
      obtain ⟨d, hd⟩ := exists_withDocument_of_insertTemplate hresult
      exact .inr ⟨b, d, ho, hd⟩
  | loadText text =>
      obtain ⟨b, ho, hresult⟩ := result_of_ofAct h
      obtain ⟨d, hd⟩ := exists_withDocument_of_loadText hresult
      exact .inr ⟨b, d, ho, hd⟩
  | load path =>
      obtain ⟨b, ho, hresult⟩ := result_of_ofAct h
      obtain ⟨d, hd⟩ := exists_withDocument_of_load hresult
      exact .inr ⟨b, d, ho, hd⟩
  | save path =>
      obtain ⟨fs₁, -, hpair⟩ := map_eq_ok.1 h
      cases hpair
      exact .inl rfl

end Operation

end Dashboard.Editor

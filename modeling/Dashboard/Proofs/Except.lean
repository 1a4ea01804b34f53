/-!
# Results of steps that may be refused

A chain of steps that gives a result went through every one of its steps.
-/

namespace Dashboard

variable {ε α β : Type}

/-- A step behind another one gives a result only on a result of that one. -/
theorem bind_eq_ok
    {x : Except ε α}
    {f : α → Except ε β}
    {b : β} :
    x >>= f = .ok b ↔ ∃ a, x = .ok a ∧ f a = .ok b := by
  cases x with
  | error e =>
      simp [bind, Except.bind]
  | ok a =>
      simp [bind, Except.bind]

/-- A result that is changed was there before. -/
theorem map_eq_ok
    {x : Except ε α}
    {f : α → β}
    {b : β} :
    x.map f = .ok b ↔ ∃ a, x = .ok a ∧ f a = b := by
  cases x with
  | error e =>
      simp [Except.map]
  | ok a =>
      simp [Except.map]

/-- Another error makes no result. -/
theorem mapError_eq_ok
    {x : Except ε α}
    {f : ε → β}
    {a : α} :
    x.mapError f = .ok a ↔ x = .ok a := by
  constructor
  · intro h
    cases x with
    | error e =>
        cases h
    | ok b =>
        cases h
        rfl
  · rintro rfl
    rfl

theorem pure_eq_ok
    {a b : α} :
    (pure a : Except ε α) = .ok b ↔ a = b := by
  simp [pure, Except.pure]

/-- The result of a step behind another one, if both give one. -/
theorem toOption_bind
    (x : Except ε α)
    (f : α → Except ε β) :
    (x >>= f).toOption = x.toOption.bind fun a => (f a).toOption := by
  cases x <;> rfl

theorem toOption_eq_some
    {x : Except ε α}
    {a : α} :
    x.toOption = some a ↔ x = .ok a := by
  cases x with
  | error e =>
      simp [Except.toOption]
  | ok b =>
      simp [Except.toOption]

/-- A step for each element succeeds exactly if all of them do. -/
theorem forM_eq_ok
    {step : α → Except ε Unit}
    {xs : List α} :
    xs.forM step = .ok () ↔ ∀ x ∈ xs, step x = .ok () := by
  induction xs with
  | nil =>
      simp [List.forM, pure, Except.pure]
  | cons x xs ih =>
      have hcons : (x :: xs).forM step = step x >>= fun _ => xs.forM step := rfl
      rw [hcons, bind_eq_ok, List.forall_mem_cons, ← ih]
      constructor
      · rintro ⟨⟨⟩, hx, hxs⟩
        exact ⟨hx, hxs⟩
      · rintro ⟨hx, hxs⟩
        exact ⟨(), hx, hxs⟩

/-- Every result of a list of steps comes from one of its elements. -/
theorem mem_of_mapM_eq_ok
    {f : α → Except ε β}
    {xs : List α}
    {ys : List β}
    (h : xs.mapM f = .ok ys) :
    ∀ y ∈ ys, ∃ x ∈ xs, f x = .ok y := by
  induction xs generalizing ys with
  | nil =>
      rw [List.mapM_nil, pure_eq_ok] at h
      simp [← h]
  | cons x xs ih =>
      rw [List.mapM_cons, bind_eq_ok] at h
      obtain ⟨y, hy, h⟩ := h
      rw [bind_eq_ok] at h
      obtain ⟨zs, hzs, h⟩ := h
      rw [pure_eq_ok] at h
      subst h
      intro z hz
      rcases List.mem_cons.1 hz with rfl | hz
      · exact ⟨x, List.mem_cons_self, hy⟩
      · obtain ⟨x', hx', heq⟩ := ih hzs z hz
        exact ⟨x', List.mem_cons_of_mem x hx', heq⟩

end Dashboard

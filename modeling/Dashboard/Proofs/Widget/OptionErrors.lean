import Dashboard.Proofs.Path.Agreement
import Dashboard.Proofs.Path.Joined

/-!
# Errors of reading and of changing an option

An option is read from the node under the first key of its path, and the error of
the way from there is set behind that key.  The node is always the one that the
options as a whole have at the path, and so is the cause of an error.  The path
text of the error is that of the whole path if and only if the steps that it names
join, and a path that begins with an index is named as a whole only if it ends
there.
-/

namespace Dashboard

namespace Value

/-- The steps that the error of following a path names, if it leads nowhere. -/
def reported? (v : Value) : Path → Option Path
  | [] => none
  | step :: p =>
    match v.child? step with
    | some w => (w.reported? p).map fun r => step :: r
    | none => some (if v.isContainer then [step] else [])

section Reported

variable {v : Value}
variable {p r : Path}

theorem exists_of_reported?_eq_none
    (h : v.reported? p = none) :
    ∃ w, ∀ before, resolveFrom before v p = .ok w := by
  induction p generalizing v with
  | nil =>
      exact ⟨v, fun _ => rfl⟩
  | cons step p ih =>
      rw [reported?] at h
      split at h
      · next w hchild =>
          obtain ⟨u, hu⟩ := ih (Option.map_eq_none_iff.1 h)
          refine ⟨u, fun before => ?_⟩
          simp only [resolveFrom, hchild, hu]
      · cases h

/-- An error names the steps up to the node and those that are reported. -/
theorem exists_of_reported?_eq_some
    (h : v.reported? p = some r) :
    ∃ cause : String → Error, (cause = .pathNotFound ∨ cause = .notAContainer) ∧
      ∀ before, resolveFrom before v p = .error (cause (Path.text (before ++ r))) := by
  induction p generalizing v r with
  | nil =>
      cases h
  | cons step p ih =>
      rw [reported?] at h
      split at h
      · next w hchild =>
          obtain ⟨rest, hrest, rfl⟩ := Option.map_eq_some_iff.1 h
          obtain ⟨cause, hcause, herror⟩ := ih hrest
          refine ⟨cause, hcause, fun before => ?_⟩
          simp only [resolveFrom, hchild, herror, List.append_assoc, List.singleton_append]
      · next hchild =>
          cases h
          by_cases hcontainer : v.isContainer = true
          · refine ⟨.pathNotFound, .inl rfl, fun before => ?_⟩
            simp only [resolveFrom, hchild, stepError, hcontainer, if_true]
          · refine ⟨.notAContainer, .inr rfl, fun before => ?_⟩
            simp only [resolveFrom, hchild, stepError, hcontainer, Bool.false_eq_true, if_false,
              List.append_nil]

end Reported

end Value

namespace Widget

/-- The error of reading the option at a path names the path as the options as a
whole do. -/
def namesWhole (w : Widget) : Path → Bool
  | [] => true
  | .index _ :: p => p.isEmpty
  | .key name :: p =>
    match (Entries.get? w.options name).bind fun v => v.reported? p with
    | some r => Path.joins name r
    | none => true

section Options

variable {w : Widget}
variable {p : Path}

theorem rebased_cause
    {cause : String → Error}
    (h : cause = .pathNotFound ∨ cause = .notAContainer)
    (head rest : String) :
    rebased head (cause rest) = cause (rebasedPath head rest) := by
  rcases h with rfl | rfl <;> rfl

theorem cause_inj
    {cause : String → Error}
    (h : cause = .pathNotFound ∨ cause = .notAContainer)
    {s t : String} :
    cause s = cause t ↔ s = t := by
  rcases h with rfl | rfl <;> simp

/-- Reading an option and following its path in the options as a whole give the
same node, or errors of one cause. -/
theorem getOption_cases
    (w : Widget)
    (hp : p ≠ []) :
    (∃ v, w.getOption p = .ok v ∧ w.tree.resolve p = .ok v ∧ w.namesWhole p = true) ∨
      ∃ (cause : String → Error) (found whole : String),
        (cause = .pathNotFound ∨ cause = .notAContainer) ∧
        w.getOption p = .error (cause found) ∧ w.tree.resolve p = .error (cause whole) ∧
        (found = whole ↔ w.namesWhole p = true) := by
  cases p with
  | nil =>
      exact absurd rfl hp
  | cons step p =>
      cases step with
      | index i =>
          refine .inr ⟨.pathNotFound, _, _, .inl rfl, rfl, rfl, ?_⟩
          exact Path.text_index_eq_text_index_iff i p
      | key name =>
          have htree : w.tree.resolve (.key name :: p) =
              match Entries.get? w.options name with
              | some v => Value.resolveFrom [.key name] v p
              | none => .error (.pathNotFound (Path.text [.key name])) :=
            rfl
          rw [getOption, htree, namesWhole]
          cases Entries.get? w.options name with
          | none =>
              exact .inr ⟨.pathNotFound, _, _, .inl rfl, rfl, rfl, by simp⟩
          | some v =>
              rw [Option.bind_some]
              cases hreported : v.reported? p with
              | none =>
                  obtain ⟨u, hu⟩ := Value.exists_of_reported?_eq_none hreported
                  refine .inl ⟨u, ?_, hu _, rfl⟩
                  simp only [Value.resolve, hu]
                  rfl
              | some r =>
                  obtain ⟨cause, hcause, herror⟩ := Value.exists_of_reported?_eq_some hreported
                  simp only [Value.resolve, herror]
                  refine .inr ⟨cause, _, _, hcause, ?_, rfl, Path.rebasedPath_eq_text_iff name r⟩
                  rw [Path.text_singleton_key]
                  exact congrArg Except.error (rebased_cause hcause name (Path.text r))

theorem deleteOption_of_resolve_eq_error
    {e : Error}
    (hp : p ≠ [])
    (h : w.tree.resolve p = .error e) :
    w.deleteOption p = .error e := by
  obtain ⟨parent, step, rfl⟩ := (List.eq_nil_or_concat' p).resolve_left hp
  rw [← Value.map_fst_removeAt] at h
  rw [deleteOption]
  cases hremove : w.tree.removeAt (parent ++ [step]) with
  | ok r =>
      rw [hremove] at h
      cases h
  | error e' =>
      rw [hremove] at h
      cases h
      rfl

theorem setOption_of_resolve_eq_error
    {e : Error}
    (hp : p ≠ [])
    (hreserved : checkReserved p = .ok ())
    (h : w.tree.resolve p = .error e)
    (v : Value) :
    w.setOption p v = .error e := by
  obtain ⟨parent, step, rfl⟩ := (List.eq_nil_or_concat' p).resolve_left hp
  rw [← Value.map_fst_replaceAt] at h
  rw [setOption, hreserved]
  change (w.tree.replaceAt (parent ++ [step]) v >>= fun r => pure (r.1, w.withTree r.2)) = _
  cases hreplace : w.tree.replaceAt (parent ++ [step]) v with
  | ok r =>
      rw [hreplace] at h
      cases h
  | error e' =>
      rw [hreplace] at h
      cases h
      rfl

end Options

/-- Reading an option gives the node that the options as a whole have at the path,
or an error of the same cause, and changing it is refused with the error of the
whole.  The two errors are the same if and only if the path text is. -/
theorem getOption_eq_resolve_iff
    (w : Widget)
    (p : Path)
    (hp : p ≠ []) :
    (∀ v, w.getOption p = .ok v ↔ w.tree.resolve p = .ok v) ∧
      (w.getOption p = w.tree.resolve p ↔ w.namesWhole p = true) ∧
      ∀ e, w.getOption p = .error e →
        ∃ (cause : String → Error) (found whole : String),
          (cause = .pathNotFound ∨ cause = .notAContainer) ∧ e = cause found ∧
          w.tree.resolve p = .error (cause whole) ∧
          w.deleteOption p = .error (cause whole) ∧
          (∀ v, checkReserved p = .ok () → w.setOption p v = .error (cause whole)) ∧
          (e = cause whole ↔ w.namesWhole p = true) := by
  rcases getOption_cases w hp with
    ⟨v, hget, hresolve, hwhole⟩ | ⟨cause, found, whole, hcause, hget, hresolve, hiff⟩
  · rw [hget, hresolve]
    exact ⟨fun u => Iff.rfl, by simp [hwhole], fun e h => nomatch h⟩
  · have hdelete := deleteOption_of_resolve_eq_error hp hresolve
    rw [hget, hresolve]
    refine ⟨fun v => by simp, by simp [cause_inj hcause, hiff], fun e h => ?_⟩
    cases h
    refine ⟨cause, found, whole, hcause, rfl, rfl, hdelete, fun v hreserved => ?_, ?_⟩
    · exact setOption_of_resolve_eq_error hp hreserved hresolve v
    · rw [cause_inj hcause, hiff]

/-- A widget with one feed and parameters that are still empty. -/
def oneFeed : Widget where
  type := "rss"
  options := [("feeds", .seq [.map [("url", .str "x")]]), ("parameters", .map [])]

/-- A feed that is not there is missed by reading and by changing alike. -/
theorem getOption_eq_resolve_iff_oneFeed :
    [Step.key "feeds", .index 1, .key "url"] ≠ [] ∧
      oneFeed.getOption [.key "feeds", .index 1, .key "url"] =
        oneFeed.tree.resolve [.key "feeds", .index 1, .key "url"] ∧
      ∃ e, oneFeed.getOption [.key "feeds", .index 1, .key "url"] = .error e ∧
        oneFeed.deleteOption [.key "feeds", .index 1, .key "url"] = .error e := by
  have hp : [Step.key "feeds", .index 1, .key "url"] ≠ [] := List.cons_ne_nil _ _
  obtain ⟨-, hsame, herror⟩ := getOption_eq_resolve_iff oneFeed _ hp
  have hwhole : oneFeed.namesWhole [.key "feeds", .index 1, .key "url"] = true := by decide
  obtain ⟨cause, found, whole, -, -, -, hdelete, -, hiff⟩ := herror _ rfl
  exact ⟨hp, hsame.2 hwhole, _, rfl, hiff.2 hwhole ▸ hdelete⟩

/-- A parameter in brackets is missed at one path by reading and at another by
changing. -/
theorem not_getOption_eq_resolve :
    oneFeed.getOption [.key "parameters", .key "[id]"] =
        .error (.pathNotFound "parameters[id]") ∧
      oneFeed.tree.resolve [.key "parameters", .key "[id]"] =
        .error (.pathNotFound "parameters.[id]") ∧
      oneFeed.deleteOption [.key "parameters", .key "[id]"] =
        .error (.pathNotFound "parameters.[id]") ∧
      oneFeed.getOption [.key "parameters", .key "[id]"] ≠
        oneFeed.tree.resolve [.key "parameters", .key "[id]"] := by
  decide

end Widget

end Dashboard

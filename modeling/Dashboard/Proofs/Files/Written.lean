import Dashboard.Files.Store
import Dashboard.Proofs.Except

/-!
# A text that was written is read

Writing a file changes what is at one place, and no folder was there.  So every
way that led somewhere before leads there afterwards, and at the path of the file
is the text that was written.
-/

namespace Dashboard.Files

variable {fs fs' : Files}
variable {place : Place}
variable {node : Node}

/-! ## Other places -/

theorem lookup_putNode_of_ne
    {q : Place}
    (h : q ≠ place)
    (es : List (Place × Node)) :
    (putNode es place node).lookup q = es.lookup q := by
  have hq : (q == place) = false := by simpa using h
  induction es with
  | nil =>
      simp [putNode, List.lookup_cons, hq]
  | cons e es ih =>
      obtain ⟨p, n⟩ := e
      by_cases hp : p = place
      · subst hp
        simp [putNode, List.lookup_cons, hq]
      · simp [putNode, List.lookup_cons, hp, ih]

theorem node?_setNode_of_ne
    {q : Place}
    (h : q ≠ place) :
    (fs.setNode place node).node? q = fs.node? q := by
  rw [node?, node?, setNode, lookup_putNode_of_ne h]

/-- Folders stay where they are when something else changes. -/
theorem needFolder_setNode
    {q : Place}
    (hplace : fs.node? place ≠ some .folder)
    (h : fs.needFolder q = .ok ()) :
    (fs.setNode place node).needFolder q = .ok () := by
  have hfolder : fs.node? q = some .folder := by
    rw [needFolder] at h
    split at h
    · assumption
    · cases h
    · cases h
  have hne : q ≠ place := by
    rintro rfl
    exact hplace hfolder
  rw [needFolder, node?_setNode_of_ne hne, hfolder]

/-- A way leads where it led before. -/
theorem follow_setNode
    {base found : Place}
    {ps : List String}
    (hplace : fs.node? place ≠ some .folder)
    (h : fs.follow base ps = .ok found) :
    (fs.setNode place node).follow base ps = .ok found := by
  induction ps generalizing base with
  | nil =>
      exact h
  | cons part ps ih =>
      rw [follow] at h ⊢
      obtain ⟨⟨⟩, hfolder, hrest⟩ := bind_eq_ok.1 h
      refine bind_eq_ok.2 ⟨⟨⟩, needFolder_setNode hplace hfolder, ?_⟩
      simp only at hrest ⊢
      split at hrest
      · cases hrest
      · next hshort =>
          rw [if_neg hshort]
          exact ih hrest

/-! ## The written file -/

theorem unslashed_eq_self
    {ps : List String}
    (h : (ps.getLast?.any fun p => isIdle p || p == "..") = false) :
    unslashed ps = ps := by
  have hlast : ps.reverse.head?.any (· == "") = false := by
    rw [List.head?_reverse]
    cases hps : ps.getLast? with
    | none =>
        rfl
    | some p =>
        rw [hps] at h
        simp_all [isIdle]
  rw [unslashed]
  cases hps : ps.reverse with
  | nil =>
      rw [List.reverse_eq_nil_iff.1 hps]
      rfl
  | cons p rest =>
      rw [hps] at hlast
      rw [List.dropWhile_cons_of_neg (by simpa using hlast), ← hps, List.reverse_reverse]

/-- A text that was written to a path is read from it. -/
theorem read_of_write
    {path content : String}
    (h : fs.write path content = .ok fs') :
    fs'.read path = .ok content := by
  rw [write] at h
  obtain ⟨⟨base, ps⟩, hstart, h⟩ := bind_eq_ok.1 h
  obtain ⟨place, hfollow, h⟩ := bind_eq_ok.1 h
  split at h
  · cases h
  · next hlast =>
      split at h
      · cases h
      · next hfolder =>
          cases h
          have hplace : fs.node? place ≠ some .folder := hfolder
          have hbase : isBase place = false := by
            cases hbase : isBase place with
            | true =>
                exact absurd (if_pos hbase) hplace
            | false =>
                rfl
          rw [unslashed_eq_self (Bool.eq_false_iff.2 hlast)] at hfollow
          have hfound : (fs.setNode place (.text content)).find path = .ok (.text content) := by
            rw [find, hstart]
            refine bind_eq_ok.2 ⟨(base, ps), rfl, ?_⟩
            refine bind_eq_ok.2 ⟨place, follow_setNode hplace hfollow, ?_⟩
            rw [node?_setNode hbase]
          rw [read, hfound]
          rfl

end Dashboard.Files

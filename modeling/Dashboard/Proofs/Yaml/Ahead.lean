import Dashboard.Yaml.Reader

/-!
# The readers only move on

What is left behind whatever a reader takes is an end of what was left before
it: nothing is read twice, and nothing is put back.
-/

namespace Dashboard.Yaml

namespace Cursor

/-- The second place is the first one or comes behind it. -/
def Ahead (c d : Cursor) : Prop :=
  d.rest <:+ c.rest

variable {c d e : Cursor}

theorem Ahead.refl
    (c : Cursor) :
    c.Ahead c :=
  List.suffix_rfl

theorem Ahead.trans
    (hcd : c.Ahead d)
    (hde : d.Ahead e) :
    c.Ahead e :=
  List.IsSuffix.trans hde hcd

theorem ahead_skip
    (c : Cursor) :
    c.Ahead c.skip := by
  obtain ⟨_ | ⟨x, xs⟩, index, line, column⟩ := c
  · exact List.suffix_rfl
  · exact List.suffix_cons x xs

theorem ahead_skipN
    (n : Nat)
    (c : Cursor) :
    c.Ahead (c.skipN n) := by
  induction n generalizing c with
  | zero =>
      exact Ahead.refl c
  | succ n ih =>
      exact (ahead_skip c).trans (ih c.skip)

theorem ahead_skipBreak
    (c : Cursor) :
    c.Ahead c.skipBreak := by
  obtain ⟨_ | ⟨x, xs⟩, index, line, column⟩ := c
  · exact List.suffix_rfl
  · exact List.suffix_cons x xs

theorem ahead_skipWhile
    (p : Char → Bool)
    (c : Cursor) :
    c.Ahead (c.skipWhile p) :=
  List.dropWhile_suffix p

theorem ahead_skipComment
    (c : Cursor) :
    c.Ahead c.skipComment := by
  rw [skipComment]
  split
  · exact ahead_skipWhile _ c
  · exact Ahead.refl c

end Cursor

open Cursor

section Indicators

theorem ahead_readIncrement?
    {n : Nat}
    {c c' : Cursor}
    (h : readIncrement? c = some (n, c')) :
    c.Ahead c' := by
  rw [readIncrement?] at h
  split at h
  · split at h
    · split at h
      · cases h
      · cases h
        exact ahead_skip _
    · cases h
      exact Ahead.refl _
  · cases h
    exact Ahead.refl _

theorem ahead_readChomp
    (c : Cursor) :
    c.Ahead (readChomp c).2 := by
  rw [readChomp]
  split
  · exact ahead_skip c
  · exact Ahead.refl _

theorem ahead_readIndicators?
    {chomp : Chomp}
    {n : Nat}
    {c c' : Cursor}
    (h : readIndicators? c = some (chomp, n, c')) :
    c.Ahead c' := by
  have hchomp := ahead_readChomp c
  rw [readIndicators?] at h
  split at h
  · next heq =>
      rw [heq] at hchomp
      simp only [Option.bind_eq_bind, Option.bind_eq_some_iff, Option.pure_def,
        Option.some.injEq, Prod.mk.injEq] at h
      obtain ⟨⟨m, d⟩, hd, -, -, rfl⟩ := h
      exact hchomp.trans (ahead_readIncrement? hd)
  · next heq =>
      rw [heq] at hchomp
      simp only [Option.bind_eq_bind, Option.bind_eq_some_iff, Option.pure_def,
        Option.some.injEq, Prod.mk.injEq] at h
      obtain ⟨⟨m, d⟩, hd, -, -, rfl⟩ := h
      have hle := hchomp.trans (ahead_readIncrement? hd)
      dsimp only
      split
      · exact hle
      · exact hle.trans (ahead_readChomp d)

end Indicators

section Properties

theorem ahead_readName?
    {name : String}
    {c c' : Cursor}
    (h : readName? c = some (name, c')) :
    c.Ahead c' := by
  rw [readName?] at h
  split at h
  · cases h
  · cases h
    exact (ahead_skip c).trans (ahead_skipWhile isWord c.skip)

theorem ahead_readOctets?
    {n code code' : Nat}
    {c c' : Cursor}
    (h : readOctets? n code c = some (code', c')) :
    c.Ahead c' := by
  induction n generalizing code c with
  | zero =>
      cases h
      exact Ahead.refl _
  | succ n ih =>
      simp only [readOctets?, Option.bind_eq_bind, Option.bind_eq_some_iff] at h
      obtain ⟨octet, -, h⟩ := h
      split at h
      · cases h
      · exact (ahead_skipN 3 c).trans (ih h)

theorem ahead_readTagEscape?
    {x : Char}
    {c c' : Cursor}
    (h : readTagEscape? c = some (x, c')) :
    c.Ahead c' := by
  simp only [readTagEscape?, Option.bind_eq_bind, Option.bind_eq_some_iff, Option.pure_def,
    Option.some.injEq, Prod.mk.injEq] at h
  obtain ⟨octet, -, count, -, ⟨code, d⟩, hoctets, -, rfl⟩ := h
  exact (ahead_skipN 3 c).trans (ahead_readOctets? hoctets)

theorem ahead_readTagText?
    {verbatim : Bool}
    {steps : Nat}
    {text text' : List Char}
    {c c' : Cursor}
    (h : readTagText? verbatim steps text c = some (text', c')) :
    c.Ahead c' := by
  induction steps generalizing text c with
  | zero =>
      cases h
  | succ steps ih =>
      rw [readTagText?] at h
      split at h
      · cases h
        exact Ahead.refl _
      · split at h
        · simp only [Option.bind_eq_bind, Option.bind_eq_some_iff] at h
          obtain ⟨⟨y, d⟩, hescape, h⟩ := h
          exact (ahead_readTagEscape? hescape).trans (ih h)
        · split at h
          · exact (ahead_skip c).trans (ih h)
          · cases h
            exact Ahead.refl _

theorem ahead_readTagSuffix?
    {verbatim : Bool}
    {text : List Char}
    {c c' : Cursor}
    (h : readTagSuffix? verbatim c = some (text, c')) :
    c.Ahead c' := by
  simp only [readTagSuffix?, Option.bind_eq_bind, Option.bind_eq_some_iff] at h
  obtain ⟨⟨t, d⟩, htext, h⟩ := h
  split at h
  · cases h
  · cases h
    exact ahead_readTagText? htext

theorem ahead_readHandle
    (c : Cursor) :
    c.Ahead (readHandle c).2.2 := by
  have hword := (ahead_skip c).trans (ahead_skipWhile isWord c.skip)
  simp only [readHandle]
  split
  · exact hword.trans (ahead_skip _)
  · exact hword

theorem ahead_readTagForm?
    {t : Token}
    {c c' : Cursor}
    (h : readTagForm? c = some (t, c')) :
    c.Ahead c' ∧ ∃ handle suffix, t = .tag handle suffix := by
  rw [readTagForm?] at h
  split at h
  · simp only [Option.bind_eq_bind, Option.bind_eq_some_iff] at h
    obtain ⟨⟨text, d⟩, hsuffix, h⟩ := h
    have hd := (ahead_skipN 2 c).trans (ahead_readTagSuffix? hsuffix)
    dsimp only at h
    split at h
    · cases h
      exact ⟨hd.trans (ahead_skip d), _, _, rfl⟩
    · cases h
  · have hhandle := ahead_readHandle c
    split at h
    · next heq =>
        rw [heq] at hhandle
        simp only [Option.bind_eq_bind, Option.bind_eq_some_iff, Option.pure_def,
          Option.some.injEq, Prod.mk.injEq] at h
        obtain ⟨⟨text, d⟩, hsuffix, rfl, rfl⟩ := h
        exact ⟨hhandle.trans (ahead_readTagSuffix? hsuffix), _, _, rfl⟩
    · next heq =>
        rw [heq] at hhandle
        simp only [Option.bind_eq_bind, Option.bind_eq_some_iff] at h
        obtain ⟨⟨text, d⟩, htext, h⟩ := h
        have hd := hhandle.trans (ahead_readTagText? htext)
        split at h
        · cases h
          exact ⟨hd, _, _, rfl⟩
        · cases h
          exact ⟨hd, _, _, rfl⟩

theorem ahead_readTag?
    {inFlow : Bool}
    {t : Token}
    {c c' : Cursor}
    (h : readTag? inFlow c = some (t, c')) :
    c.Ahead c' ∧ ∃ handle suffix, t = .tag handle suffix := by
  simp only [readTag?, Option.bind_eq_bind, Option.bind_eq_some_iff] at h
  obtain ⟨⟨token, d⟩, hform, h⟩ := h
  split at h
  · cases h
    exact ahead_readTagForm? hform
  · cases h

/-- The token of a directive. -/
def IsDirective (t : Token) : Prop :=
  (∃ major minor, t = .versionDirective major minor) ∨ ∃ handle text, t = .tagDirective handle text

theorem ahead_readVersionNumber?
    {n : Nat}
    {c c' : Cursor}
    (h : readVersionNumber? c = some (n, c')) :
    c.Ahead c' := by
  rw [readVersionNumber?] at h
  split at h
  · cases h
  · cases h
    exact ahead_skipWhile _ c

theorem ahead_readVersion?
    {t : Token}
    {c c' : Cursor}
    (h : readVersion? c = some (t, c')) :
    c.Ahead c' ∧ IsDirective t := by
  simp only [readVersion?, Option.bind_eq_bind, Option.bind_eq_some_iff] at h
  obtain ⟨⟨major, d⟩, hmajor, h⟩ := h
  have hd := (ahead_skipWhile isSpace c).trans (ahead_readVersionNumber? hmajor)
  dsimp only at h
  split at h
  · simp only [Option.bind_eq_some_iff, Option.pure_def, Option.some.injEq, Prod.mk.injEq] at h
    obtain ⟨⟨minor, e⟩, hminor, rfl, rfl⟩ := h
    exact ⟨hd.trans ((ahead_skip d).trans (ahead_readVersionNumber? hminor)), .inl ⟨_, _, rfl⟩⟩
  · cases h

theorem ahead_readTagDirective?
    {t : Token}
    {c c' : Cursor}
    (h : readTagDirective? c = some (t, c')) :
    c.Ahead c' ∧ IsDirective t := by
  have hhandle := (ahead_skipWhile isSpace c).trans (ahead_readHandle (c.skipWhile isSpace))
  simp only [readTagDirective?] at h
  split at h
  · generalize readHandle (c.skipWhile isSpace) = handle at h hhandle
    obtain ⟨word, closed, d⟩ := handle
    dsimp only at h hhandle
    split at h
    · cases h
    · split at h
      · split at h
        · cases h
        · simp only [Option.bind_eq_bind, Option.bind_eq_some_iff] at h
          obtain ⟨⟨text, e⟩, hsuffix, h⟩ := h
          have he := (ahead_skipWhile isSpace d).trans (ahead_readTagSuffix? hsuffix)
          split at h
          · cases h
          · cases h
            exact ⟨hhandle.trans he, .inr ⟨_, _, rfl⟩⟩
      · cases h
  · cases h

/-- A directive takes the rest of its line. -/
theorem exists_of_readDirective?
    {t : Token}
    {c c' : Cursor}
    (h : readDirective? c = some (t, c')) :
    IsDirective t ∧ ∃ d, c.Ahead d ∧ atLineEnd d.rest = true ∧ c' = d.skipBreak := by
  have hname := (ahead_skip c).trans (ahead_skipWhile isWord c.skip)
  have hend : ∀ r : Token × Cursor, (c.skip.skipWhile isWord).Ahead r.2 ∧ IsDirective r.1 →
      atLineEnd (r.2.skipWhile isSpace).skipComment.rest = true →
        (t, c') = (r.1, (r.2.skipWhile isSpace).skipComment.skipBreak) →
          IsDirective t ∧ ∃ d, c.Ahead d ∧ atLineEnd d.rest = true ∧ c' = d.skipBreak := by
    rintro ⟨token, d⟩ ⟨hd, htoken⟩ hline heq
    cases heq
    have hcomment := (ahead_skipWhile isSpace d).trans (ahead_skipComment (d.skipWhile isSpace))
    exact ⟨htoken, _, hname.trans (hd.trans hcomment), hline, rfl⟩
  simp only [readDirective?, Option.bind_eq_bind, Option.pure_def, Option.bind_none] at h
  split at h
  · cases h
  · split at h
    · simp only [Option.bind_eq_some_iff] at h
      obtain ⟨r, hread, h⟩ := h
      split at h
      · cases h
      · next hline =>
          exact hend r (ahead_readVersion? hread) (by simpa using hline) (Option.some.inj h).symm
    · split at h
      · simp only [Option.bind_eq_some_iff] at h
        obtain ⟨r, hread, h⟩ := h
        split at h
        · cases h
        · next hline =>
            exact hend r (ahead_readTagDirective? hread) (by simpa using hline)
              (Option.some.inj h).symm
      · cases h

theorem ahead_readDirective?
    {t : Token}
    {c c' : Cursor}
    (h : readDirective? c = some (t, c')) :
    c.Ahead c' := by
  obtain ⟨-, d, hd, -, rfl⟩ := exists_of_readDirective? h
  exact hd.trans (ahead_skipBreak d)

end Properties

end Dashboard.Yaml

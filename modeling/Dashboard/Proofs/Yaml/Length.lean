import Dashboard.Proofs.Yaml.Ahead

/-!
# No scalar is longer than its source

Every character of a scalar is taken from the text: escapes and folds only
make it shorter.  So a text of which anything but the scalar has been taken
holds no scalar of its own length, which is what a text has to be that reads
back as itself.
-/

namespace Dashboard.Yaml

namespace Cursor

/-- How many characters are left. -/
def left (c : Cursor) : Nat :=
  c.rest.length

theorem left_skip
    (c : Cursor) :
    c.skip.left = c.left - 1 := by
  obtain ⟨_ | ⟨x, xs⟩, index, line, column⟩ := c <;> rfl

theorem left_skipN
    (n : Nat)
    (c : Cursor) :
    (c.skipN n).left = c.left - n := by
  induction n generalizing c with
  | zero =>
      rfl
  | succ n ih =>
      rw [skipN, ih, left_skip]
      omega

theorem Ahead.left_le
    {c d : Cursor}
    (h : c.Ahead d) :
    d.left ≤ c.left :=
  List.IsSuffix.length_le h

/-- With `n` characters in hand at one place and `m` at another one ahead, no more have
come to hand than were taken from the text. -/
structure Takes (n : Nat) (c : Cursor) (m : Nat) (d : Cursor) : Prop where
  ahead : c.Ahead d
  length_le : m + d.left ≤ n + c.left

section Takes

variable {n m k : Nat}
variable {c d e : Cursor}

theorem Takes.refl : Takes n c n c :=
  ⟨Ahead.refl c, Nat.le_refl _⟩

theorem Takes.trans
    (hcd : Takes n c m d)
    (hde : Takes m d k e) :
    Takes n c k e :=
  ⟨hcd.ahead.trans hde.ahead, Nat.le_trans hde.length_le hcd.length_le⟩

/-- What is at hand may be counted high at first and low in the end. -/
theorem Takes.mono
    {n' m' : Nat}
    (h : Takes n c m d)
    (hn : n ≤ n')
    (hm : m' ≤ m) :
    Takes n' c m' d := by
  have hle := h.length_le
  exact ⟨h.ahead, by omega⟩

/-- What was at hand before stays there. -/
theorem Takes.add
    (h : Takes n c m d)
    (k : Nat) :
    Takes (n + k) c (m + k) d := by
  have hle := h.length_le
  exact ⟨h.ahead, by omega⟩

theorem Ahead.takes (h : c.Ahead d) : Takes n c n d :=
  ⟨h, Nat.add_le_add_left h.left_le n⟩

theorem takes_skipBreak (c : Cursor) :
    Takes n c (n + (c.rest.take 1).length) c.skipBreak := by
  refine ⟨ahead_skipBreak c, ?_⟩
  obtain ⟨_ | ⟨x, xs⟩, index, line, column⟩ := c
  · exact Nat.le_refl _
  · simp [left, skipBreak]
    omega

/-- Of one or more characters that are skipped one may be held. -/
theorem takes_skipN
    {x : Char}
    {xs : List Char}
    {i : Nat}
    (hc : c.rest = x :: xs)
    (hi : 0 < i) :
    Takes n c (n + 1) (c.skipN i) := by
  refine ⟨ahead_skipN i c, ?_⟩
  rw [left_skipN, left, hc, List.length_cons]
  omega

theorem takes_skip
    {x : Char}
    {xs : List Char}
    (hc : c.rest = x :: xs) :
    Takes n c (n + 1) c.skip :=
  takes_skipN hc Nat.one_pos

theorem takes_skipWhile
    (p : Char → Bool)
    (c : Cursor) :
    Takes n c (n + (c.rest.takeWhile p).length) (c.skipWhile p) := by
  refine ⟨ahead_skipWhile p c, Nat.le_of_eq ?_⟩
  rw [left, left, skipWhile, Nat.add_assoc, ← List.length_append, List.takeWhile_append_dropWhile]

end Takes

end Cursor

namespace Fold

/-- How many characters a fold was taken from, at least. -/
def weight (f : Fold) : Nat :=
  f.spaces.length + f.first.toList.length + f.more.length

theorem length_text_le
    (f : Fold) :
    f.text.length ≤ f.weight := by
  rw [text, weight]
  split
  · split
    · next hfirst =>
        rw [hfirst]
        split
        · rw [List.length_singleton, Option.toList_some, List.length_singleton]
          omega
        · omega
    · next c _ hfirst =>
        rw [hfirst, List.length_cons, Option.toList_some, List.length_singleton]
        omega
    · omega
  · omega

theorem weight_addSpace_le
    (f : Fold)
    (c : Char) :
    (f.addSpace c).weight ≤ f.weight + 1 := by
  rw [addSpace]
  split
  · omega
  · simp [weight]
    omega

theorem weight_addBreak_le
    (f : Fold)
    (c : Char) :
    (f.addBreak c).weight ≤ f.weight + 1 := by
  rw [addBreak]
  split
  · simp [weight]
    omega
  · simp [weight]
    omega

end Fold

open Cursor

/-- A fold is made of the characters that it takes. -/
theorem takes_readFold?
    {margin : Nat}
    {cs : List Char}
    {f f' : Fold}
    {c c' : Cursor}
    (hc : c.rest = cs)
    (h : readFold? margin cs f c = some (f', c')) :
    Takes f.weight c f'.weight c' := by
  induction cs generalizing f c with
  | nil =>
      cases h
      exact .refl
  | cons x xs ih =>
      rw [readFold?] at h
      split at h
      · split at h
        · cases h
        · have hskip : c.skip.rest = xs := by
            rw [skip, hc]
          have hrest := (ih hskip h).mono (f.weight_addSpace_le x) (Nat.le_refl _)
          exact (takes_skip hc).trans hrest
      · split at h
        · have hskip : c.skipBreak.rest = xs := by
            rw [skipBreak, hc]
          have hrest := (ih hskip h).mono (f.weight_addBreak_le x) (Nat.le_refl _)
          have hbreak := takes_skipBreak (n := f.weight) c
          rw [hc] at hbreak
          exact hbreak.trans hrest
        · cases h
          exact .refl

/-- A word is made of the characters that it takes. -/
theorem takes_readPlainWord?
    {inFlow : Bool}
    {cs word : List Char}
    {c c' : Cursor}
    (hc : c.rest = cs)
    (h : readPlainWord? inFlow cs c = some (word, c')) :
    Takes 0 c word.length c' := by
  induction cs generalizing word c with
  | nil =>
      cases h
      exact .refl
  | cons x xs ih =>
      rw [readPlainWord?] at h
      split at h
      · cases h
        exact .refl
      · split at h
        · cases h
        · split at h
          · cases h
            exact .refl
          · simp only [Option.bind_eq_bind, Option.bind_eq_some_iff, Option.pure_def,
              Option.some.injEq, Prod.mk.injEq] at h
            obtain ⟨⟨w, d⟩, hw, rfl, rfl⟩ := h
            have hskip : c.skip.rest = xs := by
              rw [skip, hc]
            exact (takes_skip hc).trans ((ih hskip hw).add 1)

/-- A plain scalar is made of the characters that it takes. -/
theorem takes_readPlainBody?
    {inFlow : Bool}
    {margin steps : Nat}
    {text text' : List Char}
    {fold : Fold}
    {broken : Bool}
    {c c' : Cursor}
    (h : readPlainBody? inFlow margin steps text fold c = some (text', broken, c')) :
    Takes (text.length + fold.weight) c text'.length c' := by
  induction steps generalizing text fold c with
  | zero =>
      cases h
  | succ steps ih =>
      rw [readPlainBody?] at h
      split at h
      · cases h
        exact Takes.refl.mono (Nat.le_add_right _ _) (Nat.le_refl _)
      · simp only [Option.bind_eq_bind, Option.bind_eq_some_iff] at h
        obtain ⟨⟨word, d⟩, hword, h⟩ := h
        have htext := fold.length_text_le
        generalize hnext : (if word.isEmpty = true then (text, fold)
          else (text ++ fold.text ++ word, {})) = next at h
        have hnextle : next.1.length + next.2.weight ≤
            word.length + (text.length + fold.weight) := by
          rw [← hnext]
          split
          · simp only
            omega
          · simp only [List.length_append]
            show _ + 0 ≤ _
            omega
        have hd : Takes (text.length + fold.weight) c (next.2.weight + next.1.length) d :=
          ((takes_readPlainWord? rfl hword).add (text.length + fold.weight)).mono
            (by omega) (by omega)
        simp only at h
        split at h
        · cases h
          exact hd.mono (Nat.le_refl _) (Nat.le_add_left _ _)
        · split at h
          · cases h
            exact hd.mono (Nat.le_refl _) (Nat.le_add_left _ _)
          · simp only [Option.bind_eq_some_iff] at h
            obtain ⟨⟨f, e⟩, hfold, h⟩ := h
            have he := hd.trans ((takes_readFold? rfl hfold).add next.1.length)
            dsimp only at h
            split at h
            · cases h
              exact he.mono (Nat.le_refl _) (Nat.le_add_left _ _)
            · have hrest := ih h
              rw [Nat.add_comm] at hrest
              exact he.trans hrest

theorem pos_of_readEscape?
    {cs : List Char}
    {x : Char}
    {n : Nat}
    (h : readEscape? cs = some (x, n)) :
    0 < n := by
  rw [readEscape?.eq_def] at h
  split at h
  · split at h
    · simp only [Option.bind_eq_bind, Option.bind_eq_some_iff, Option.pure_def,
        Option.some.injEq, Prod.mk.injEq] at h
      obtain ⟨-, -, -, -, -, rfl⟩ := h
      omega
    · simp only [Option.bind_eq_bind, Option.bind_eq_some_iff, Option.pure_def,
        Option.some.injEq, Prod.mk.injEq] at h
      obtain ⟨-, -, -, rfl⟩ := h
      exact Nat.two_pos
  · cases h

/-- A word of a quoted scalar is made of the characters that it takes. -/
theorem takes_readQuotedWord?
    {double : Bool}
    {steps : Nat}
    {text text' : List Char}
    {ended : WordEnd}
    {c c' : Cursor}
    (h : readQuotedWord? double steps text c = some (text', ended, c')) :
    Takes text.length c text'.length c' := by
  induction steps generalizing text c with
  | zero =>
      cases h
  | succ steps ih =>
      rw [readQuotedWord?.eq_def] at h
      dsimp only at h
      split at h
      · cases h
        exact .refl
      · next x rest hrest =>
          have hmore : ∀ y n, 0 < n → readQuotedWord? double steps (text ++ [y]) (c.skipN n) =
              some (text', ended, c') → Takes text.length c text'.length c' := by
            intro y n hn hy
            have hword := ih hy
            rw [List.length_append] at hword
            exact (takes_skipN hrest hn).trans hword
          split at h
          · cases h
            exact .refl
          · split at h
            · split at h
              · cases h
                exact .refl
              · split at h
                · split at h
                  · split at h
                    · cases h
                      exact ((ahead_skip _).trans (ahead_skipBreak _)).takes
                    · simp only [Option.bind_eq_bind, Option.bind_eq_some_iff] at h
                      obtain ⟨⟨y, n⟩, hescape, h⟩ := h
                      exact hmore y n (pos_of_readEscape? hescape) h
                  · cases h
                · exact hmore x 1 Nat.one_pos h
            · split at h
              · split at h
                · exact hmore '\'' 2 Nat.two_pos h
                · cases h
                  exact .refl
              · exact hmore x 1 Nat.one_pos h

/-- A quoted scalar is made of the characters that it takes. -/
theorem takes_readQuotedBody?
    {double : Bool}
    {steps : Nat}
    {text text' : List Char}
    {c c' : Cursor}
    (h : readQuotedBody? double steps text c = some (text', c')) :
    Takes text.length c text'.length c' := by
  induction steps generalizing text c with
  | zero =>
      cases h
  | succ steps ih =>
      rw [readQuotedBody?] at h
      split at h
      · cases h
      · simp only [Option.bind_eq_bind, Option.bind_eq_some_iff] at h
        obtain ⟨⟨word, ended, d⟩, hword, h⟩ := h
        have hd := takes_readQuotedWord? hword
        have hfold : ∀ f g : Fold, ∀ e, f.weight = 0 → readFold? 0 d.rest f d = some (g, e) →
            readQuotedBody? double steps (word ++ g.text) e = some (text', c') →
            Takes text.length c text'.length c' := by
          intro f g e hf hfold hbody
          have htext := g.length_text_le
          have hrest := ih hbody
          rw [List.length_append] at hrest
          have he := (takes_readFold? rfl hfold).add word.length
          exact hd.trans ((he.mono (by omega) (by omega)).trans hrest)
        dsimp only at h
        generalize (if double = true then '"' else '\'') = quote at h
        split at h
        · cases h
        · split at h
          · cases h
            exact hd.trans (ahead_skip d).takes
          · simp only [Option.bind_eq_some_iff] at h
            obtain ⟨⟨g, e⟩, hg, h⟩ := h
            exact hfold _ g e rfl hg h
        · split at h
          · cases h
            exact hd.trans (ahead_skip d).takes
          · simp only [Option.bind_eq_some_iff] at h
            obtain ⟨⟨g, e⟩, hg, h⟩ := h
            exact hfold _ g e rfl hg h

/-- Empty lines are made of the characters that they take. -/
theorem takes_readEmptyLines?
    {indent steps deepest deepest' : Nat}
    {breaks breaks' : List Char}
    {c c' : Cursor}
    (h : readEmptyLines? indent steps deepest breaks c = some (deepest', breaks', c')) :
    Takes breaks.length c breaks'.length c' := by
  induction steps generalizing deepest breaks c with
  | zero =>
      cases h
  | succ steps ih =>
      rw [readEmptyLines?] at h
      split at h
      · cases h
        exact .refl
      · next x xs hrest =>
          dsimp only at h
          split at h
          · exact (ahead_skip c).takes.trans (ih h)
          · split at h
            · cases h
            · split at h
              · have hmore := ih h
                have hbreak := takes_skipBreak (n := breaks.length) c
                rw [List.length_append] at hmore
                rw [hrest] at hbreak
                exact hbreak.trans hmore
              · cases h
                exact .refl

/-- How many characters the lines of a block scalar were taken from, at least. -/
def BlockText.weight (b : BlockText) : Nat :=
  b.text.length + b.lastBreak.length

/-- The lines of a block scalar are made of the characters that they take. -/
theorem takes_readBlockLines?
    {literal : Bool}
    {indent steps : Nat}
    {b b' : BlockText}
    {breaks breaks' : List Char}
    {c c' : Cursor}
    (h : readBlockLines? literal indent steps b breaks c = some (b', breaks', c')) :
    Takes (b.weight + breaks.length) c (b'.weight + breaks'.length) c' := by
  induction steps generalizing b breaks c with
  | zero =>
      cases h
  | succ steps ih =>
      rw [readBlockLines?] at h
      split at h
      · cases h
        exact .refl
      next x xs _ =>
        split at h
        · cases h
          exact .refl
        · simp only [Option.bind_eq_bind, Option.bind_eq_some_iff] at h
          obtain ⟨⟨m, more, d⟩, hempty, h⟩ := h
          have hjoined : (if (!literal && b.lastBreak == ['\n'] && !b.afterBlank && !isSpace x) = true
              then (if breaks.isEmpty = true then [' '] else []) else b.lastBreak).length ≤
                b.lastBreak.length := by
            split
            · next hfolded =>
                simp only [Bool.and_eq_true, beq_iff_eq] at hfolded
                rw [hfolded.1.1.2]
                split <;> simp
            · exact Nat.le_refl _
          have hline := takes_skipWhile (n := b.weight + breaks.length) (fun y => !isBreak y) c
          have hbreak := hline.trans (takes_skipBreak c.skipLine)
          have hd := hbreak.trans (((takes_readEmptyLines? hempty).add _).mono
            (Nat.le_of_eq (Nat.zero_add _)) (Nat.le_refl _))
          refine hd.trans ((ih h).mono ?_ (Nat.le_refl _))
          simp only [BlockText.weight, List.length_append]
          omega

/-- A block scalar is made of the characters that it takes. -/
theorem takes_readBlock?
    {literal : Bool}
    {parent : Int}
    {text : List Char}
    {c c' : Cursor}
    (h : readBlock? literal parent c = some (text, c')) :
    Takes 0 c text.length c' := by
  simp only [readBlock?, Option.bind_eq_bind, Option.bind_eq_some_iff] at h
  obtain ⟨⟨chomp, n, d⟩, hindicators, h⟩ := h
  have hd := (ahead_skip c).trans (ahead_readIndicators? hindicators)
  split at h
  · cases h
  · simp only [Option.bind_eq_some_iff, Option.pure_def, Option.some.injEq, Prod.mk.injEq] at h
    obtain ⟨⟨deepest, breaks, e⟩, hempty, ⟨b, more, g⟩, hlines, rfl, rfl⟩ := h
    have hcomment := (ahead_skipWhile isSpace d).trans (ahead_skipComment (d.skipWhile isSpace))
    have hheader := hd.trans (hcomment.trans (ahead_skipBreak _))
    have hempty := takes_readEmptyLines? hempty
    have hlines := (takes_readBlockLines? hlines).mono (Nat.le_of_eq (Nat.zero_add _))
      (Nat.le_refl _)
    refine (hheader.takes.trans (hempty.trans hlines)).mono (Nat.le_refl _) ?_
    dsimp only
    rw [BlockText.weight, List.length_append]
    split
    · simp
      omega
    · omega
    · rw [List.length_append]
      omega

end Dashboard.Yaml

import Dashboard.Proofs.Yaml.Moves
import Dashboard.Proofs.Yaml.View

/-!
# Tokens that have been taken stay

Later steps add tokens behind those taken before.  The one thing that may still
happen to them is that all of them become a key: then its mark comes in front,
and that of a block outside all blocks.
-/

namespace Dashboard.Yaml.Scanner

variable {base front : List Token}
variable {s t : Scanner}

/-- What may come in front of all tokens, latest first. -/
inductive Front : List Token → Prop
  | none : Front []
  | key : Front [.key]
  | block : Front [.key, .blockMappingStart]

/-- The first tokens are these, and as long as nothing has come in front of them
all of them may still become a key. -/
structure Lies (base front : List Token) (s : Scanner) : Prop where
  tokens : base ++ front <:+ s.tokens
  count : s.tokenCount = s.tokens.length
  keys : s.Keys
    (fun k => (front = [] ∧ k.tokenCount = 0) ∨ (base ++ front).length ≤ k.tokenCount)
    (fun k => (base ++ front).length ≤ k.tokenCount)

/-- The first tokens are these, apart from what may come in front. -/
def OnBase (base : List Token) (s : Scanner) : Prop :=
  ∃ front, Front front ∧ Lies base front s

theorem insert_zero
    (hcount : s.tokenCount = s.tokens.length)
    (m : Token) :
    (s.insert 0 m).tokens = s.tokens ++ [m] := by
  simp only [insert, hcount, Nat.sub_zero, List.take_length, List.drop_length]

theorem length_insert
    (n : Nat)
    (hcount : s.tokenCount = s.tokens.length)
    (m : Token) :
    (s.insert n m).tokenCount = (s.insert n m).tokens.length := by
  have hlength : (s.tokens.take (s.tokenCount - n)).length +
      (s.tokens.drop (s.tokenCount - n)).length = s.tokens.length := by
    rw [← List.length_append, List.take_append_drop]
  simp only [insert, List.length_append, List.length_cons]
  omega

/-- Tokens put in behind the first ones leave those as they are. -/
theorem suffix_insert
    {n : Nat}
    {xs : List Token}
    (hcount : s.tokenCount = s.tokens.length)
    (hxs : xs <:+ s.tokens)
    (hn : xs.length ≤ n)
    (m : Token) :
    xs <:+ (s.insert n m).tokens := by
  obtain ⟨ys, hys⟩ := hxs
  have hle : s.tokenCount - n ≤ ys.length := by
    rw [hcount, ← hys, List.length_append]
    omega
  refine ⟨ys.take (s.tokenCount - n) ++ m :: ys.drop (s.tokenCount - n), ?_⟩
  simp only [insert]
  rw [← hys, List.take_append_of_le_length hle, List.drop_append_of_le_length hle,
    List.append_assoc, List.cons_append]

/-- A scanner with other tokens, of which none of the first ones is another. -/
theorem Lies.of_tokens
    (h : Lies base front s)
    (htokens : s.tokens <:+ t.tokens)
    (hcount : t.tokenCount = t.tokens.length)
    (hblock : t.blockKey = s.blockKey)
    (hflow : t.flowKeys = s.flowKeys) :
    Lies base front t :=
  ⟨h.tokens.trans htokens, hcount, by rw [hblock]; exact h.keys.block, by
    rw [hflow]
    exact h.keys.flow⟩

theorem Lies.setCandidate
    (h : Lies base front s)
    {o : Option Candidate}
    (hkeys : (s.setCandidate o).Keys
      (fun k => (front = [] ∧ k.tokenCount = 0) ∨ (base ++ front).length ≤ k.tokenCount)
      (fun k => (base ++ front).length ≤ k.tokenCount)) :
    Lies base front (s.setCandidate o) := by
  refine ⟨?_, ?_, hkeys⟩
  · rw [setCandidate_tokens]
    exact h.tokens
  · rw [setCandidate_tokens, setCandidate_tokenCount]
    exact h.count

theorem Lies.insert
    (h : Lies base front s)
    {n : Nat}
    (hn : (base ++ front).length ≤ n)
    (m : Token) :
    Lies base front (s.insert n m) :=
  ⟨suffix_insert h.count h.tokens hn m, length_insert n h.count m, h.keys.block, h.keys.flow⟩

theorem Lies.openBlock_insert
    (h : Lies base front s)
    {n : Nat}
    (hn : (base ++ front).length ≤ n)
    (column : Nat)
    (m : Token) :
    Lies base front (s.openBlock column (·.insert n m)) := by
  rw [openBlock]
  split
  · have hblock : Lies base front { s with indent := column, outer := s.indent :: s.outer } :=
      ⟨h.tokens, h.count, h.keys.block, h.keys.flow⟩
    exact hblock.insert hn m
  · exact h

/-- The tokens taken so far, when no candidate lies behind one of them. -/
theorem onBase_self
    (hcount : s.tokenCount = s.tokens.length)
    (hblock : ∀ k ∈ s.blockKey, k.tokenCount = 0)
    (hflow : ∀ o ∈ s.flowKeys, o = none) :
    OnBase s.tokens s := by
  have hsuffix : s.tokens ++ [] <:+ s.tokens :=
    ⟨[], by simp⟩
  refine ⟨[], .none, hsuffix, hcount, fun k hk => .inl ⟨rfl, hblock k hk⟩, fun o ho k hk => ?_⟩
  rw [hflow o ho] at hk
  cases hk

/-- A key made of later tokens leaves the first ones as they are. -/
theorem Lies.asKey
    (h : Lies base front s)
    {k : Candidate}
    (hk : (base ++ front).length ≤ k.tokenCount) :
    Lies base front (s.asKey k) := by
  have hblock := (h.insert hk .key).openBlock_insert hk k.column .blockMappingStart
  exact hblock.setCandidate hblock.keys.drop

/-- A key made of all tokens comes in front of them. -/
theorem exists_asKey_zero
    (hcount : s.tokenCount = s.tokens.length)
    {k : Candidate}
    (hk : k.tokenCount = 0)
    (hflow : s.flowKeys = []) :
    ∃ front, Front front ∧ front ≠ [] ∧ (s.asKey k).tokens = s.tokens ++ front ∧
      (s.asKey k).tokenCount = (s.asKey k).tokens.length ∧
      (s.asKey k).blockKey = none ∧ (s.asKey k).flowKeys = [] := by
  have hdrop : ∀ {r : Scanner}, r.flowKeys = [] →
      (r.setCandidate none).blockKey = none ∧ (r.setCandidate none).flowKeys = [] := by
    intro r hr
    rw [setCandidate]
    simp only [hr, and_self]
  have hkey : (s.insert 0 .key).tokens = s.tokens ++ [.key] :=
    insert_zero hcount .key
  have hkeyCount := length_insert 0 hcount .key
  rw [asKey, openBlock, hk]
  split
  · refine ⟨[.key, .blockMappingStart], .block, List.cons_ne_nil _ _, ?_, ?_, hdrop hflow⟩
    · rw [setCandidate_tokens]
      refine (insert_zero ?_ _).trans ?_
      · exact hkeyCount
      · show (s.insert 0 .key).tokens ++ [.blockMappingStart] = _
        rw [hkey, List.append_assoc]
        rfl
    · rw [setCandidate_tokens, setCandidate_tokenCount]
      refine length_insert 0 ?_ _
      exact hkeyCount
  · refine ⟨[.key], .key, List.cons_ne_nil _ _, ?_, ?_, hdrop hflow⟩
    · rw [setCandidate_tokens, hkey]
    · rw [setCandidate_tokens, setCandidate_tokenCount]
      exact hkeyCount

theorem OnBase.moves
    (h : OnBase base s)
    (hmoves : Moves s t) :
    OnBase base t := by
  induction hmoves with
  | refl s =>
      exact h
  | trans _ _ ih ih' =>
      exact ih' (ih h)
  | advance s c allowed _ | blocks s indent outer _ =>
      obtain ⟨front, hfront, h⟩ := h
      exact ⟨front, hfront, h.of_tokens List.suffix_rfl h.count rfl rfl⟩
  | drop s =>
      obtain ⟨front, hfront, h⟩ := h
      exact ⟨front, hfront, h.setCandidate h.keys.drop⟩
  | lapse hs =>
      obtain ⟨front, hfront, h⟩ := h
      have hkeys := h.keys.lapse hs
      obtain ⟨_, _, rfl, -⟩ := exists_of_expireAll? hs
      exact ⟨front, hfront, h.tokens, h.count, hkeys⟩
  | save s k hk =>
      obtain ⟨front, hfront, h⟩ := h
      have hle : (base ++ front).length ≤ k.tokenCount := by
        rw [hk, h.count]
        exact h.tokens.length_le
      refine ⟨front, hfront, h.setCandidate (h.keys.setCandidate ?_ ?_)⟩
      · rintro - k' hk'
        cases hk'
        exact .inr hle
      · rintro - k' hk'
        cases hk'
        exact hle
  | key s k hk =>
      obtain ⟨front, hfront, h⟩ := h
      rcases h.keys.of_candidate hk with ⟨hflow, ⟨rfl, hzero⟩ | hle⟩ | ⟨-, hle⟩
      · obtain ⟨front, hfront, -, htokens, hcount, hblock, hflow⟩ :=
          exists_asKey_zero h.count hzero hflow
        refine ⟨front, hfront, ?_, hcount, ?_, ?_⟩
        · obtain ⟨ys, hys⟩ := h.tokens
          rw [List.append_nil] at hys
          exact ⟨ys, by rw [htokens, ← hys, List.append_assoc]⟩
        · rw [hblock]
          rintro _ ⟨⟩
        · rw [hflow]
          exact fun _ hmem => absurd hmem List.not_mem_nil
      · exact ⟨front, hfront, h.asKey hle⟩
      · exact ⟨front, hfront, h.asKey hle⟩
  | mark s m _ =>
      obtain ⟨front, hfront, h⟩ := h
      exact ⟨front, hfront, h.of_tokens (List.suffix_cons m s.tokens)
        (congrArg Nat.succ h.count) rfl rfl⟩
  | scalar s text plain c allowed _ _ =>
      obtain ⟨front, hfront, h⟩ := h
      exact ⟨front, hfront, h.of_tokens (List.suffix_cons _ s.tokens)
        (congrArg Nat.succ h.count) rfl rfl⟩

/-- A step adds tokens behind the first ones. -/
theorem OnBase.step
    (h : OnBase base s)
    (hstep : Step s t) :
    OnBase base t := by
  cases hstep with
  | within hmoves =>
      exact h.moves hmoves
  | opening b cs hmoves _ =>
      obtain ⟨front, hfront, h⟩ := h.moves hmoves
      refine ⟨front, hfront, h.tokens.trans (List.suffix_cons _ _), congrArg Nat.succ h.count,
        h.keys.block, fun o ho k hk => ?_⟩
      rcases List.mem_cons.1 ho with rfl | ho
      · cases hk
      · exact h.keys.flow o ho k hk
  | closing b cs hmoves _ =>
      obtain ⟨front, hfront, h⟩ := h.moves hmoves
      exact ⟨front, hfront, h.tokens.trans (List.suffix_cons _ _), congrArg Nat.succ h.count,
        h.keys.block, fun o ho => h.keys.flow o (List.mem_of_mem_tail ho)⟩

/-- What a run ends with opens with the first tokens, apart from what has come in
front of them. -/
theorem OnBase.exists_reverse
    {steps : Nat}
    (h : OnBase base s)
    (hrun : s.run? steps = some t) :
    ∃ front more, Front front ∧ t.tokens.reverse = front.reverse ++ (base.reverse ++ more) := by
  obtain ⟨front, hfront, hlies⟩ := of_run? OnBase.step h hrun
  obtain ⟨ys, hys⟩ := hlies.tokens
  exact ⟨front, ys.reverse, hfront, by rw [← hys]; simp⟩

/-! ## Outside all brackets and blocks -/

/-- No bracket and no block is open, and the candidate is for a key made of all
tokens. -/
structure Outside (s : Scanner) : Prop where
  count : s.tokenCount = s.tokens.length
  block : ∀ k ∈ s.blockKey, k.tokenCount = 0
  flowKeys : s.flowKeys = []
  indent : s.indent = -1

theorem Outside.onBase
    (h : Outside s) :
    OnBase s.tokens s := by
  refine onBase_self h.count h.block ?_
  rw [h.flowKeys]
  exact fun _ hmem => absurd hmem List.not_mem_nil

theorem Outside.lapse
    (h : Outside s)
    (hs : s.expireAll? = some t) :
    Outside t ∧ t.cursor = s.cursor ∧ t.tokens = s.tokens ∧ t.keyAllowed = s.keyAllowed := by
  obtain ⟨blockKey, flowKeys, rfl, hblock, hlength, -⟩ := exists_of_expireAll? hs
  refine ⟨⟨h.count, fun k hk => ?_, ?_, h.indent⟩, rfl, rfl, rfl⟩
  · rcases hblock with rfl | rfl
    · cases hk
    · exact h.block k hk
  · rw [h.flowKeys] at hlength
    exact List.length_eq_zero_iff.1 hlength

/-- A step outside takes the token behind the gaps. -/
theorem Outside.exists_of_step?
    (h : Outside s)
    {c : Cursor}
    (hskip : s.skipGaps (s.cursor.rest.length + 1) = { s with cursor := c })
    (hstep : s.step? = some t) :
    ∃ r, Outside r ∧ r.cursor = c ∧ r.tokens = s.tokens ∧ r.keyAllowed = s.keyAllowed ∧
      r.takeToken? = some t := by
  simp only [step?, hskip, Option.bind_eq_bind, Option.bind_eq_some_iff] at hstep
  obtain ⟨r, hlapse, htake⟩ := hstep
  have houtside : Outside { s with cursor := c } :=
    ⟨h.count, h.block, h.flowKeys, h.indent⟩
  obtain ⟨hr, hcursor, htokens, hallowed⟩ := houtside.lapse hlapse
  have hle : r.indent ≤ (r.cursor.column : Int) := by
    rw [hr.indent]
    omega
  rw [closeBlocks_of_le fun _ => hle] at htake
  exact ⟨r, hr, hcursor, htokens, hallowed, htake⟩

end Dashboard.Yaml.Scanner

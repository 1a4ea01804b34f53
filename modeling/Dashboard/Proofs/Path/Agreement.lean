import Dashboard.Proofs.Path.Changes

/-!
# Path operations agree

Replacing and removing succeed on the paths that can be followed, give the node
there, and otherwise fail with the error of following the path.  That error names
the shortest beginning of the path that leads nowhere, or the scalar that the path
steps into.  An insertion fails as following the parent path does, and otherwise
depends on the room for a new child.
-/

namespace Dashboard.Value

section Agreement

variable {root u v w : Value}
variable {parent p q done : Path}
variable {step next : Step}
variable {e : Error}

theorem resolve_concat
    (root : Value)
    (parent : Path)
    (step : Step) :
    root.resolve (parent ++ [step]) =
      root.resolve parent >>= fun u => resolveFrom parent u [step] := by
  rw [resolve, resolveFrom_append, List.nil_append]
  rfl

/-- A replacement gives what following the path gives. -/
theorem map_fst_replaceAt :
    (root.replaceAt (parent ++ [step]) v).map Prod.fst = root.resolve (parent ++ [step]) := by
  rw [replaceAt_eq]
  cases root.resolve (parent ++ [step]) <;> rfl

/-- A removal gives what following the path gives. -/
theorem map_fst_removeAt :
    (root.removeAt (parent ++ [step])).map Prod.fst = root.resolve (parent ++ [step]) := by
  rw [removeAt_eq, resolve_concat]
  cases root.resolve parent with
  | error e =>
      rfl
  | ok u =>
      change (resolveFrom parent u [step] >>= fun w => _).map Prod.fst =
        resolveFrom parent u [step]
      cases resolveFrom parent u [step] <;> rfl

/-- The beginnings of a path that lead to nodes, where its first step that leads
nowhere comes behind `done`. -/
theorem exists_resolve_iff_prefix
    (hu : root.node? done = some u)
    (hnext : u.child? next = none)
    (hbegins : done ++ [next] <+: p)
    (hq : q <+: p) :
    (∃ w, root.resolve q = .ok w) ↔ q <+: done := by
  simp only [resolve_eq_ok_iff]
  constructor
  · rintro ⟨w, hw⟩
    rcases List.prefix_or_prefix_of_prefix hq hbegins with hshort | ⟨rest, rfl⟩
    · rcases List.prefix_concat_iff.1 hshort with rfl | hshort
      · rw [node?_concat, hu, Option.bind_some, hnext] at hw
        cases hw
      · exact hshort
    · rw [node?_append, node?_concat, hu, Option.bind_some, hnext] at hw
      cases hw
  · rintro ⟨rest, rfl⟩
    rw [node?_append] at hu
    obtain ⟨w, hw, -⟩ := Option.bind_eq_some_iff.1 hu
    exact ⟨w, hw⟩

/-- The error of following a path names its shortest beginning that leads nowhere,
or the scalar that it steps into. -/
theorem exists_of_resolve_eq_error
    (h : root.resolve p = .error e) :
    ∃ done next u, done ++ [next] <+: p ∧ root.resolve done = .ok u ∧
      (∀ q, q <+: p → ((∃ w, root.resolve q = .ok w) ↔ q <+: done)) ∧
      e = if u.isContainer then .pathNotFound (Path.text (done ++ [next]))
        else .notAContainer (Path.text done) := by
  obtain ⟨done, next, rest, u, rfl, hu, hnext, rfl⟩ := exists_of_resolveFrom_eq_error h
  have hbegins : done ++ [next] <+: done ++ next :: rest := by simp
  exact ⟨done, next, u, hbegins, resolve_eq_ok_iff.2 hu,
    fun q hq => exists_resolve_iff_prefix hu hnext hbegins hq, rfl⟩

theorem insertAt_of_resolve_eq_error
    (h : root.resolve parent = .error e) :
    root.insertAt (parent ++ [step]) v = .error e := by
  rw [insertAt_eq, h]
  rfl

theorem exists_insertAt_iff
    (h : root.resolve parent = .ok u) :
    (∃ root', root.insertAt (parent ++ [step]) v = .ok root') ↔ u.hasRoom step = true := by
  have hu := resolve_eq_ok_iff.1 h
  simp only [insertAt_eq_ok_iff]
  constructor
  · rintro ⟨_, u', hu', hroom, -⟩
    rwa [Option.some.inj (hu.symm.trans hu')]
  · intro hroom
    exact ⟨_, u, hu, hroom, rfl⟩

theorem hasRoom_key_iff
    {name : String} :
    u.hasRoom (.key name) = true ↔ (∃ m, u = .map m) ∧ ∀ w, u.child? (.key name) ≠ some w := by
  cases u with
  | map m =>
      simp [hasRoom, Entries.has, child?, Option.eq_none_iff_forall_ne_some]
  | seq items =>
      simp [hasRoom]
  | null | bool b | int n | float x | str s =>
      simp [hasRoom]

theorem hasRoom_index_iff
    {i : Nat} :
    u.hasRoom (.index i) = true ↔ ∃ items, u = .seq items ∧ i ≤ items.length := by
  cases u with
  | seq items =>
      simp [hasRoom]
  | map m =>
      simp [hasRoom]
  | null | bool b | int n | float x | str s =>
      simp [hasRoom]

theorem resolve_concat_eq_ok_iff
    (h : root.resolve parent = .ok u) :
    root.resolve (parent ++ [step]) = .ok w ↔ u.child? step = some w := by
  rw [resolve_eq_ok_iff, node?_concat, resolve_eq_ok_iff.1 h, Option.bind_some]

/-- A key that is there is not inserted again. -/
theorem insertAt_of_resolve_eq_ok
    {name : String}
    (hparent : root.resolve parent = .ok u)
    (h : root.resolve (parent ++ [.key name]) = .ok w) :
    root.insertAt (parent ++ [.key name]) v = .error (.duplicateKey name (Path.text parent)) := by
  have hchild := (resolve_concat_eq_ok_iff hparent).1 h
  have hinsert : insertChild parent (.key name) v u =
      .error (.duplicateKey name (Path.text parent)) := by
    cases u with
    | map m =>
        have hhas : Entries.has m name = true := by
          rw [Entries.has, Option.isSome_iff_exists]
          exact ⟨w, hchild⟩
        rw [insertChild, if_pos hhas]
    | seq items =>
        cases hchild
    | null | bool b | int n | float x | str s =>
        cases hchild
  rw [insertAt_eq, hparent]
  change (do return root.graft parent (← insertChild parent (.key name) v u).2) = _
  rw [hinsert]
  rfl

end Agreement

/-- Following, replacing and removing agree on which paths exist, on the node there
and on the error, which names the shortest beginning of the path that does not
exist or the scalar that the path steps into.  Inserting fails as following the
parent path does; where that leads to a node, a key is inserted exactly if the
node is a mapping without it, and an index exactly if the node is a list that is
long enough. -/
theorem path_operations_agree
    (root v : Value)
    (parent : Path)
    (step : Step) :
    (root.replaceAt (parent ++ [step]) v).map Prod.fst = root.resolve (parent ++ [step]) ∧
      (root.removeAt (parent ++ [step])).map Prod.fst = root.resolve (parent ++ [step]) ∧
      (∀ e, root.resolve (parent ++ [step]) = .error e →
        ∃ done next u, done ++ [next] <+: parent ++ [step] ∧ root.resolve done = .ok u ∧
          (∀ q, q <+: parent ++ [step] → ((∃ w, root.resolve q = .ok w) ↔ q <+: done)) ∧
          e = if u.isContainer then .pathNotFound (Path.text (done ++ [next]))
            else .notAContainer (Path.text done)) ∧
      (∀ e, root.resolve parent = .error e → root.insertAt (parent ++ [step]) v = .error e) ∧
      ∀ u, root.resolve parent = .ok u →
        match step with
        | .key name =>
          ((∃ root', root.insertAt (parent ++ [.key name]) v = .ok root') ↔
              (∃ m, u = .map m) ∧ ∀ w, root.resolve (parent ++ [.key name]) ≠ .ok w) ∧
            ∀ w, root.resolve (parent ++ [.key name]) = .ok w →
              root.insertAt (parent ++ [.key name]) v =
                .error (.duplicateKey name (Path.text parent))
        | .index i =>
          (∃ root', root.insertAt (parent ++ [.index i]) v = .ok root') ↔
            ∃ items, u = .seq items ∧ i ≤ items.length := by
  refine ⟨map_fst_replaceAt, map_fst_removeAt, fun e h => exists_of_resolve_eq_error h,
    fun e h => insertAt_of_resolve_eq_error h, fun u hu => ?_⟩
  cases step with
  | key name =>
      refine ⟨?_, fun w hw => insertAt_of_resolve_eq_ok hu hw⟩
      rw [exists_insertAt_iff hu, hasRoom_key_iff]
      simp only [ne_eq, resolve_concat_eq_ok_iff hu]
  | index i =>
      exact (exists_insertAt_iff hu).trans hasRoom_index_iff

/-- A step into a scalar, a key that is there, and an index behind the end. -/
theorem path_operations_agree_twoFeeds :
    (twoFeeds.removeAt ([.key "limit", .index 3] ++ [.key "url"])).map Prod.fst =
        .error (.notAContainer "limit") ∧
      (∃ done next u, done ++ [next] <+: [.key "limit", .index 3] ++ [.key "url"] ∧
        twoFeeds.resolve done = .ok u ∧
        (∀ q, q <+: [.key "limit", .index 3] ++ [.key "url"] →
          ((∃ w, twoFeeds.resolve q = .ok w) ↔ q <+: done)) ∧
        Error.notAContainer "limit" =
          if u.isContainer then .pathNotFound (Path.text (done ++ [next]))
          else .notAContainer (Path.text done)) ∧
      twoFeeds.insertAt ([.key "limit", .index 3] ++ [.key "url"]) .null =
        .error (.notAContainer "limit") ∧
      twoFeeds.insertAt ([] ++ [.key "limit"]) .null = .error (.duplicateKey "limit" "<root>") ∧
      ∃ root', twoFeeds.insertAt ([.key "feeds"] ++ [.index 2]) .null = .ok root' := by
  have hlimit := path_operations_agree twoFeeds .null [.key "limit", .index 3] (.key "url")
  have hkey := path_operations_agree twoFeeds .null [] (.key "limit")
  have hindex := path_operations_agree twoFeeds .null [.key "feeds"] (.index 2)
  exact ⟨hlimit.2.1, hlimit.2.2.1 _ rfl, hlimit.2.2.2.1 _ rfl,
    (hkey.2.2.2.2 _ rfl).2 _ rfl, (hindex.2.2.2.2 _ rfl).2 ⟨_, rfl, by decide⟩⟩

end Dashboard.Value

import ShardVault.Proofs.FileTree.Change

/-!
What making the directories of a path leaves, also where it fails on the way.  Nothing is lost, what
is new are directories that the path leads through, and nothing is new where something is at the
path's end or in its way (`madeAlong_createDirectories`).  Making them again changes nothing
(`createDirectories_again`).
-/

namespace ShardVault.FileTree

/-- A tree has the directories that are new in another, those of a path as far as they could be
    made.  None is made of a path at whose end or in whose way is something. -/
structure MadeAlong (root : Path) (tree grown : FileTree) : Prop where
  stays : tree.Extends grown
  new : ∀ place entry, tree.entry? place = none → grown.entry? place = some entry →
    entry = .directory ∧ ∃ way, way <+: root.segments ∧ way.foldlM grown.follow [] = .ok place
  absent : grown ≠ tree → tree.exists? root = .ok false

variable {tree : FileTree} {place other : Place} {segments : List String}

/-! ## Segments -/

theorem extends_createAlong (tree : FileTree) (place : Place) (segments : List String) :
    tree.Extends (tree.createAlong place segments).2 := by
  induction segments generalizing tree place with
  | nil => exact fun _ _ h => h
  | cons segment rest ih =>
    rcases createAlong_cons_cases tree place segment rest with
      ⟨fault, hstop⟩ | ⟨next, -, ⟨-, hmake⟩ | ⟨hmissing, hmake⟩⟩
    · rw [hstop]
      exact fun _ _ h => h
    · rw [hmake]
      exact ih tree next
    · rw [hmake]
      exact (extends_put hmissing .directory).trans (ih _ next)

/-- What is new is a directory to which some of the segments lead. -/
theorem of_new_createAlong {entry : Entry} (hold : tree.entry? other = none)
    (hnew : FileTree.entry? (tree.createAlong place segments).2 other = some entry) :
    entry = .directory ∧ ∃ way, way <+: segments ∧
      way.foldlM (tree.createAlong place segments).2.follow place = .ok other := by
  induction segments generalizing tree place with
  | nil =>
    rw [createAlong, hold] at hnew
    cases hnew
  | cons segment rest ih =>
    have hextends := extends_createAlong tree place (segment :: rest)
    rcases createAlong_cons_cases tree place segment rest with
      ⟨fault, hstop⟩ | ⟨next, hnext, hstep⟩
    · rw [hstop, hold] at hnew
      cases hnew
    · have hfollow := follow_of_keepsDirectories hextends.keepsDirectories hnext
      -- the segment leads on from the place, and what follows it to the new directory
      have hlonger {way : List String} (hway : way <+: rest)
          (hlead : way.foldlM (tree.createAlong place (segment :: rest)).2.follow next =
            .ok other) :
          ∃ way, way <+: segment :: rest ∧
            way.foldlM (tree.createAlong place (segment :: rest)).2.follow place = .ok other := by
        refine ⟨segment :: way, List.cons_prefix_cons.mpr ⟨rfl, hway⟩, ?_⟩
        rw [List.foldlM_cons, hfollow]
        exact hlead
      rcases hstep with ⟨-, hmake⟩ | ⟨hmissing, hmake⟩
      · rw [hmake] at hnew hlonger ⊢
        obtain ⟨hentry, way, hway, hlead⟩ := ih hold hnew
        exact ⟨hentry, hlonger hway hlead⟩
      · by_cases hother : other = next
        · have hput := entry?_put_self tree .directory (ne_nil_of_entry?_eq_none hmissing)
          rw [hmake, hother, extends_createAlong _ next rest _ _ hput] at hnew
          exact ⟨(Option.some.inj hnew).symm, hlonger List.nil_prefix (by rw [hother]; rfl)⟩
        · have hput : FileTree.entry? (tree.put next .directory) other = none := by
            rw [entry?_put_of_ne tree _ hother, hold]
          rw [hmake] at hnew hlonger ⊢
          obtain ⟨hentry, way, hway, hlead⟩ := ih hput hnew
          exact ⟨hentry, hlonger hway hlead⟩

/-- Nothing is made where something is at the end of the way or in it. -/
theorem createAlong_eq_self_or (tree : FileTree) (place : Place) (segments : List String) :
    (tree.createAlong place segments).2 = tree ∨
      segments.foldlM tree.follow place = .error .notFound ∨
      ∃ target, segments.foldlM tree.follow place = .ok target ∧ tree.entry? target = none := by
  induction segments generalizing place with
  | nil => exact .inl rfl
  | cons segment rest ih =>
    rcases createAlong_cons_cases tree place segment rest with
      ⟨fault, hstop⟩ | ⟨next, hnext, ⟨-, hmake⟩ | ⟨hmissing, -⟩⟩
    · exact .inl (congrArg Prod.snd hstop)
    · rw [hmake, List.foldlM_cons, hnext]
      exact ih next
    · right
      rw [List.foldlM_cons, hnext]
      cases rest with
      | nil => exact .inr ⟨next, rfl, hmissing⟩
      | cons later rest =>
        refine .inl ?_
        change (later :: rest).foldlM tree.follow next = _
        rw [List.foldlM_cons, follow, hmissing]
        rfl

/-- Directories that are made again are there as far as they could be made, and no farther. -/
theorem createAlong_again (tree : FileTree) (place : Place) (segments : List String) :
    (tree.createAlong place segments).2.createAlong place segments =
      tree.createAlong place segments := by
  induction segments generalizing tree place with
  | nil => rfl
  | cons segment rest ih =>
    have hextends := extends_createAlong tree place (segment :: rest)
    rcases createAlong_cons_cases tree place segment rest with
      ⟨fault, hstop⟩ | ⟨next, hnext, hstep⟩
    · rw [hstop]
      exact hstop
    · have hfollow := follow_of_keepsDirectories hextends.keepsDirectories hnext
      have hgo (hdirectory : FileTree.entry? (tree.createAlong place (segment :: rest)).2 next =
            some .directory) :
          (tree.createAlong place (segment :: rest)).2.createAlong place (segment :: rest) =
            (tree.createAlong place (segment :: rest)).2.createAlong next rest := by
        rw [createAlong, hfollow]
        simp only [hdirectory]
      rcases hstep with ⟨hthere, hmake⟩ | ⟨hmissing, hmake⟩
      · rw [hgo (hextends _ _ hthere), hmake]
        exact ih tree next
      · have hput := entry?_put_self tree .directory (ne_nil_of_entry?_eq_none hmissing)
        rw [hmake] at hgo ⊢
        rw [hgo (extends_createAlong _ next rest _ _ hput)]
        exact ih _ next

/-! ## Paths -/

theorem madeAlong_createDirectories (tree : FileTree) (root : Path) :
    MadeAlong root tree (tree.createDirectories root).2 := by
  unfold createDirectories
  cases hfault : pathFault? root with
  | some fault =>
    refine ⟨fun _ _ h => h, fun place entry hold hnew => ?_, fun h => absurd rfl h⟩
    rw [hold] at hnew
    cases hnew
  | none =>
    refine ⟨extends_createAlong tree [] root.segments,
      fun place entry hold hnew => of_new_createAlong hold hnew, fun hmade => ?_⟩
    have hlocate : tree.locate root = _ := locate_eq_foldlM hfault
    rcases createAlong_eq_self_or tree [] root.segments with
      hsame | hnowhere | ⟨target, htarget, hnone⟩
    · exact absurd hsame hmade
    · rw [exists?, hlocate, hnowhere]
    · rw [exists?, hlocate, htarget]
      simp only [hnone, Option.isSome_none]

theorem createDirectories_again (tree : FileTree) (root : Path) :
    (tree.createDirectories root).2.createDirectories root = tree.createDirectories root := by
  cases hfault : pathFault? root with
  | some fault => simp only [createDirectories, hfault]
  | none =>
    simp only [createDirectories, hfault]
    exact createAlong_again tree [] root.segments

end ShardVault.FileTree

import ShardVault.FileTree

/-!
Laws of file trees.  What is at a place after a change elsewhere is what was there before, a path
leads where it led as long as its directories stay, and directories that are made can be followed
(`createAlong_ok`).
-/

namespace ShardVault.FileTree

variable {tree grown : FileTree} {place other target : Place}

/-! ## Places -/

@[simp] theorem entry?_nil (tree : FileTree) : tree.entry? [] = some .directory := by
  simp [ entry?]

@[simp] theorem entry?_put_self (tree : FileTree) (entry : Entry) (hne : place ≠ []) :
    FileTree.entry? (tree.put place entry) place = some entry := by
  simp [ entry?, put, hne]

@[simp] theorem entry?_put_of_ne (tree : FileTree) (entry : Entry) (h : other ≠ place) :
    FileTree.entry? (tree.put place entry) other = tree.entry? other := by
  simp [ entry?, put, Std.ExtTreeMap.getElem?_insert, Ne.symm h]

@[simp] theorem entry?_erase_self (tree : FileTree) (hne : place ≠ []) :
    FileTree.entry? (tree.erase place) place = none := by
  simp [ entry?, erase, hne]

@[simp] theorem entry?_erase_of_ne (tree : FileTree) (h : other ≠ place) :
    FileTree.entry? (tree.erase place) other = tree.entry? other := by
  simp [ entry?, erase, Std.ExtTreeMap.getElem?_erase, Ne.symm h]

/-- The top is a directory, so any other thing is below it. -/
theorem ne_nil_of_not_directory (h : tree.entry? place ≠ some .directory) : place ≠ [] := by
  rintro rfl
  exact h (entry?_nil tree)

theorem ne_nil_of_entry?_eq_none (h : tree.entry? place = none) : place ≠ [] := by
  have hother : tree.entry? place ≠ some .directory := by simp [h]
  exact ne_nil_of_not_directory hother

/-- A tree is what is at its places. -/
theorem ext_entries {left right : FileTree}
    (h : ∀ place : Place, left.entries[place]? = right.entries[place]?) : left = right := by
  obtain ⟨entries⟩ := left
  obtain ⟨entries'⟩ := right
  exact congrArg FileTree.mk (Std.ExtTreeMap.ext_getElem? h)

theorem getElem?_put (tree : FileTree) (place : Place) (entry : Entry) (other : Place) :
    (tree.put place entry).entries[other]? =
      if place = other then some entry else tree.entries[other]? := by
  simp [put, Std.ExtTreeMap.getElem?_insert]

/-- What is put where there was nothing, and then erased, leaves no trace. -/
theorem erase_put_of_none (h : tree.entry? place = none) (entry : Entry) :
    (tree.put place entry).erase place = tree := by
  rw [ entry?, if_neg (ne_nil_of_entry?_eq_none h)] at h
  apply ext_entries
  intro other
  by_cases hother : place = other
  · subst hother
    simp [erase, h]
  · simp [erase, put, Std.ExtTreeMap.getElem?_erase, Std.ExtTreeMap.getElem?_insert, hother]

/-- What is there already is put without effect. -/
theorem put_of_entry? {entry : Entry} (hne : place ≠ []) (h : tree.entry? place = some entry) :
    tree.put place entry = tree := by
  rw [ entry?, if_neg hne] at h
  apply ext_entries
  intro other
  rw [getElem?_put]
  split
  · rename_i hother
    rw [← hother, h]
  · rfl

/-- It does not matter which of two places is filled first. -/
theorem put_comm (tree : FileTree) (hne : place ≠ other) (entry entry' : Entry) :
    (tree.put place entry).put other entry' = (tree.put other entry').put place entry := by
  apply ext_entries
  intro own
  simp only [getElem?_put]
  by_cases hplace : place = own
  · rw [if_pos hplace, if_pos hplace, if_neg fun hother => hne (hplace.trans hother.symm)]
  · rw [if_neg hplace, if_neg hplace]

/-! ## Following -/

/-- Whatever is in one tree is also in the other. -/
def Extends (tree grown : FileTree) : Prop :=
  ∀ place entry, tree.entry? place = some entry → grown.entry? place = some entry

theorem Extends.trans {full : FileTree} (h : tree.Extends grown) (h' : grown.Extends full) :
    tree.Extends full :=
  fun place entry hentry => h' place entry (h place entry hentry)

/-- Putting something where there was nothing loses nothing. -/
theorem extends_put (h : tree.entry? place = none) (entry : Entry) :
    tree.Extends (tree.put place entry) := by
  intro other held hheld
  by_cases hother : other = place
  · subst hother
    rw [h] at hheld
    cases hheld
  · rw [entry?_put_of_ne tree entry hother, hheld]

/-- The directories of one tree are directories of the other. -/
def KeepsDirectories (tree grown : FileTree) : Prop :=
  ∀ place, tree.entry? place = some .directory → grown.entry? place = some .directory

theorem KeepsDirectories.refl (tree : FileTree) : tree.KeepsDirectories tree :=
  fun _ h => h

theorem KeepsDirectories.trans {full : FileTree} (h : tree.KeepsDirectories grown)
    (h' : grown.KeepsDirectories full) : tree.KeepsDirectories full :=
  fun place hentry => h' place (h place hentry)

theorem Extends.keepsDirectories (h : tree.Extends grown) : tree.KeepsDirectories grown :=
  fun place hentry => h place _ hentry

/-- Only a file gives way to a file that is written. -/
theorem keepsDirectories_put (h : tree.entry? place ≠ some .directory) (content : Bytes) :
    tree.KeepsDirectories (tree.put place (.file content)) := by
  intro other hother
  have hne : other ≠ place := by
    rintro rfl
    exact h hother
  rw [entry?_put_of_ne tree _ hne, hother]

theorem keepsDirectories_erase (h : tree.entry? place ≠ some .directory) :
    tree.KeepsDirectories (tree.erase place) := by
  intro other hother
  have hne : other ≠ place := by
    rintro rfl
    exact h hother
  rw [entry?_erase_of_ne tree hne, hother]

/-- Only a directory is followed. -/
theorem entry?_of_follow_eq_ok {segment : String} (h : tree.follow place segment = .ok target) :
    tree.entry? place = some .directory := by
  unfold follow at h
  split at h
  · cases h
  · cases h
  · rename_i hplace
    exact hplace

/-- Where a directory leads does not depend on the rest of the tree. -/
theorem follow_eq_follow {segment : String} (h : tree.entry? place = some .directory)
    (hgrown : grown.entry? place = some .directory) :
    grown.follow place segment = tree.follow place segment := by
  simp only [follow, h, hgrown]

theorem follow_of_keepsDirectories {segment : String} (h : tree.KeepsDirectories grown)
    (hfollow : tree.follow place segment = .ok target) :
    grown.follow place segment = .ok target := by
  have hplace := entry?_of_follow_eq_ok hfollow
  rw [follow_eq_follow hplace (h place hplace), hfollow]

/-- A path leads where it led as long as its directories stay. -/
theorem foldlM_follow_of_keepsDirectories {segments : List String}
    (h : tree.KeepsDirectories grown)
    (hfollow : segments.foldlM tree.follow place = .ok target) :
    segments.foldlM grown.follow place = .ok target := by
  induction segments generalizing place with
  | nil => exact hfollow
  | cons segment rest ih =>
    rw [List.foldlM_cons] at hfollow ⊢
    cases hnext : tree.follow place segment with
    | error fault =>
      rw [hnext] at hfollow
      cases hfollow
    | ok next =>
      rw [hnext] at hfollow
      rw [follow_of_keepsDirectories h hnext]
      exact ih hfollow

/-- A name that is no dots and not too long leads into the directory. -/
theorem follow_name {name : String} (hplace : tree.entry? place = some .directory)
    (hdots : 2 < name.utf8ByteSize) (hsize : name.utf8ByteSize ≤ maxNameSize) :
    tree.follow place name = .ok (place ++ [name]) := by
  have hne (short : String) (hshort : short.utf8ByteSize ≤ 2) : name ≠ short := by
    rintro rfl
    omega
  simp only [follow, hplace]
  rw [if_neg, if_neg (hne ".." (by decide)), if_neg (by omega)]
  rintro (hempty | hdot)
  · exact hne "" (by decide) hempty
  · exact hne "." (by decide) hdot

/-! ## Making directories -/

/-- Directories are made from a place on, or it ends there.  It goes on from where the segment
    leads, with a directory there that was made if it was missing. -/
theorem createAlong_cons_cases (tree : FileTree) (place : Place) (segment : String)
    (rest : List String) :
    (∃ fault, tree.createAlong place (segment :: rest) = (.error fault, tree)) ∨
      ∃ next, tree.follow place segment = .ok next ∧
        (tree.entry? next = some .directory ∧
            tree.createAlong place (segment :: rest) = tree.createAlong next rest ∨
          tree.entry? next = none ∧ tree.createAlong place (segment :: rest) =
            (tree.put next .directory).createAlong next rest) := by
  cases hnext : tree.follow place segment with
  | error fault => exact .inl ⟨fault, by simp only [createAlong, hnext]⟩
  | ok next =>
    cases hentry : tree.entry? next with
    | none =>
      by_cases hdots : areDots rest
      · exact .inl ⟨.notFound, by simp only [createAlong, hnext, hentry, if_pos hdots]⟩
      · exact .inr ⟨next, rfl, .inr ⟨hentry,
          by simp only [createAlong, hnext, hentry, if_neg hdots]⟩⟩
    | some entry =>
      cases entry with
      | file content => exact .inl ⟨.notADirectory, by simp only [createAlong, hnext, hentry]⟩
      | directory =>
        exact .inr ⟨next, rfl, .inl ⟨hentry, by simp only [createAlong, hnext, hentry]⟩⟩

/-- Directories that are made lead to a directory, and nothing is lost by making them. -/
theorem createAlong_ok {segments : List String} (hplace : tree.entry? place = some .directory)
    (h : tree.createAlong place segments = (.ok (), grown)) :
    tree.Extends grown ∧ ∃ target, segments.foldlM grown.follow place = .ok target ∧
      grown.entry? target = some .directory := by
  induction segments generalizing tree place with
  | nil =>
    cases h
    exact ⟨fun _ _ hentry => hentry, place, rfl, hplace⟩
  | cons segment rest ih =>
    rcases createAlong_cons_cases tree place segment rest with
      ⟨fault, hstop⟩ | ⟨next, hnext, ⟨hdirectory, hmake⟩ | ⟨hmissing, hmake⟩⟩
    · rw [hstop] at h
      cases h
    · obtain ⟨hextends, target, htarget, hentry⟩ := ih hdirectory (hmake.symm.trans h)
      refine ⟨hextends, target, ?_, hentry⟩
      rw [List.foldlM_cons, follow_of_keepsDirectories hextends.keepsDirectories hnext]
      exact htarget
    · have hput := entry?_put_self tree .directory (ne_nil_of_entry?_eq_none hmissing)
      obtain ⟨hextends, target, htarget, hentry⟩ := ih hput (hmake.symm.trans h)
      have hall := (extends_put hmissing .directory).trans hextends
      refine ⟨hall, target, ?_, hentry⟩
      rw [List.foldlM_cons, follow_of_keepsDirectories hall.keepsDirectories hnext]
      exact htarget

/-- On the way to a directory every segment leads to a directory. -/
theorem exists_follow_of_foldlM {segment : String} {rest : List String}
    (h : (segment :: rest).foldlM tree.follow place = .ok target)
    (htarget : tree.entry? target = some .directory) :
    ∃ next, tree.follow place segment = .ok next ∧ tree.entry? next = some .directory ∧
      rest.foldlM tree.follow next = .ok target := by
  rw [List.foldlM_cons] at h
  cases hnext : tree.follow place segment with
  | error fault =>
    rw [hnext] at h
    cases h
  | ok next =>
    rw [hnext] at h
    refine ⟨next, rfl, ?_, h⟩
    cases rest with
    | nil =>
      cases h
      exact htarget
    | cons later rest =>
      change (later :: rest).foldlM tree.follow next = .ok target at h
      rw [List.foldlM_cons] at h
      cases hlater : tree.follow next later with
      | error fault =>
        rw [hlater] at h
        cases h
      | ok _ => exact entry?_of_follow_eq_ok hlater

/-- Where all directories are there, none is made. -/
theorem createAlong_of_foldlM {segments : List String}
    (h : segments.foldlM tree.follow place = .ok target)
    (htarget : tree.entry? target = some .directory) :
    tree.createAlong place segments = (.ok (), tree) := by
  induction segments generalizing place with
  | nil => rfl
  | cons segment rest ih =>
    obtain ⟨next, hnext, hdirectory, hrest⟩ := exists_follow_of_foldlM h htarget
    simp only [createAlong, hnext, hdirectory]
    exact ih hrest

theorem of_createDirectories {path : Path} (h : tree.createDirectories path = (.ok (), grown)) :
    pathFault? path = none ∧ tree.createAlong [] path.segments = (.ok (), grown) := by
  unfold createDirectories at h
  split at h
  · cases h
  · rename_i hfault
    exact ⟨hfault, h⟩

/-- Before directories are made, the way to the last of them ends nowhere or at its place. -/
theorem foldlM_follow_of_createAlong {segments : List String}
    (hplace : tree.entry? place = some .directory)
    (h : tree.createAlong place segments = (.ok (), grown)) :
    segments.foldlM tree.follow place = .error .notFound ∨
      ∃ target, segments.foldlM tree.follow place = .ok target ∧
        (tree.entry? target = none ∨ tree.entry? target = some .directory) := by
  induction segments generalizing tree place with
  | nil => exact .inr ⟨place, rfl, .inr hplace⟩
  | cons segment rest ih =>
    rw [List.foldlM_cons]
    rcases createAlong_cons_cases tree place segment rest with
      ⟨fault, hstop⟩ | ⟨next, hnext, ⟨hdirectory, hmake⟩ | ⟨hmissing, -⟩⟩
    · rw [hstop] at h
      cases h
    · rw [hnext]
      exact ih hdirectory (hmake.symm.trans h)
    · rw [hnext]
      cases rest with
      | nil => exact .inr ⟨next, rfl, .inl hmissing⟩
      | cons later rest =>
        refine .inl ?_
        change (later :: rest).foldlM tree.follow next = _
        rw [List.foldlM_cons, follow, hmissing]
        rfl

/-- Making directories makes and loses no file. -/
theorem file_iff_of_createAlong {segments : List String} {result : Except FileFault Unit}
    {content : Bytes} (h : tree.createAlong place segments = (result, grown)) :
    grown.entry? other = some (.file content) ↔ tree.entry? other = some (.file content) := by
  induction segments generalizing tree place with
  | nil =>
    cases h
    exact .rfl
  | cons segment rest ih =>
    rcases createAlong_cons_cases tree place segment rest with
      ⟨fault, hstop⟩ | ⟨next, -, ⟨-, hmake⟩ | ⟨hmissing, hmake⟩⟩
    · rw [hstop] at h
      cases h
      exact .rfl
    · exact ih (hmake.symm.trans h)
    · rw [ih (hmake.symm.trans h)]
      by_cases hother : other = next
      · rw [hother, entry?_put_self tree _ (ne_nil_of_entry?_eq_none hmissing), hmissing]
        exact ⟨nofun, nofun⟩
      · rw [entry?_put_of_ne tree _ hother]

/-! ## Reading -/

theorem of_read {path : Path} {content : Bytes} (h : tree.read path = .ok content) :
    ∃ place, tree.locate path = .ok place ∧ tree.entry? place = some (.file content) := by
  unfold read at h
  split at h
  · cases h
  · rename_i place hplace
    split at h
    · rename_i hentry
      cases h
      exact ⟨place, hplace, hentry⟩
    · cases h
    · cases h

theorem exists?_of_read {path : Path} {content : Bytes} (h : tree.read path = .ok content) :
    tree.exists? path = .ok true := by
  obtain ⟨place, hlocate, hentry⟩ := of_read h
  simp only [exists?, hlocate, hentry, Option.isSome_some]

theorem read_of_exists?_eq_false {path : Path} (h : tree.exists? path = .ok false) :
    tree.read path = .error .notFound := by
  unfold exists? at h
  split at h
  · rename_i place hplace
    have hnone : tree.entry? place = none := by simpa using h
    simp only [read, hplace, hnone]
  · rename_i hmissing
    simp only [read, hmissing]
  · cases h

/-- Where there is no file to read, there is none to remove. -/
theorem remove_of_read_eq_notFound {path : Path} (h : tree.read path = .error .notFound) :
    tree.remove path = .error .notFound := by
  unfold read at h
  split at h
  · rename_i hlocate
    simp only [remove, hlocate]
    exact congrArg Except.error (Except.error.inj h)
  · rename_i place hlocate
    split at h
    · cases h
    · cases h
    · rename_i hentry
      simp only [remove, hlocate, hentry]

/-! ## Writing -/

/-- A file is written where there is no directory. -/
theorem write_eq_ok {path : Path} (hlocate : tree.locate path = .ok place)
    (hplace : tree.entry? place ≠ some .directory) (content : Bytes) :
    tree.write path content = .ok (tree.put place (.file content)) := by
  simp only [write, hlocate]

/-- A file is moved to where there is no directory. -/
theorem rename_eq_ok {path goal : Path} {content : Bytes} (hlocate : tree.locate path = .ok place)
    (hplace : tree.entry? place = some (.file content))
    (hgoal : (tree.erase place).locate goal = .ok target)
    (htarget : FileTree.entry? (tree.erase place) target ≠ some .directory) :
    tree.rename path goal = .ok ((tree.erase place).put target (.file content)) := by
  have hread : tree.read path = .ok content := by
    simp only [read, hlocate, hplace]
  have hremove : tree.remove path = .ok (tree.erase place) := by
    simp only [remove, hlocate, hplace]
  simp only [rename, hread, hremove, write_eq_ok hgoal htarget]

/-- A file is written and then moved to where there is no directory, if both paths lead where they
    lead as long as the directories stay. -/
theorem write_rename_eq_ok {path goal : Path}
    (hpath : ∀ {grown}, tree.KeepsDirectories grown → grown.locate path = .ok place)
    (hgoal : ∀ {grown}, tree.KeepsDirectories grown → grown.locate goal = .ok target)
    (hplace : tree.entry? place ≠ some .directory) (htarget : tree.entry? target ≠ some .directory)
    (hne : target ≠ place) (content : Bytes) :
    let written := tree.put place (.file content)
    tree.write path content = .ok written ∧
      written.rename path goal = .ok ((written.erase place).put target (.file content)) := by
  intro written
  have hroot := ne_nil_of_not_directory hplace
  have hread : written.entry? place = some (.file content) := entry?_put_self tree _ hroot
  have hwritten : tree.KeepsDirectories written := keepsDirectories_put hplace content
  have herased : written.KeepsDirectories (written.erase place) :=
    keepsDirectories_erase (by simp [hread])
  refine ⟨write_eq_ok (hpath (.refl tree)) hplace content,
    rename_eq_ok (hpath hwritten) hread (hgoal (hwritten.trans herased)) ?_⟩
  rw [entry?_erase_of_ne written hne, entry?_put_of_ne tree _ hne]
  exact htarget

/-! ## Listing -/

/-- The names of a directory are those under which there is something. -/
theorem mem_names?_iff {path : Path} {names : List String} (h : tree.names? path = some names)
    (hlocate : tree.locate path = .ok place) (hplace : tree.entry? place = some .directory)
    {name : String} : name ∈ names ↔ (tree.entry? (place ++ [name])).isSome = true := by
  simp only [names?, hlocate, hplace, Option.some.injEq] at h
  rw [ entry?, if_neg (by simp), ← h, List.mem_filterMap]
  constructor
  · rintro ⟨⟨other, entry⟩, hentry, hname⟩
    obtain ⟨hdirectory, hlast⟩ := Option.ite_none_right_eq_some.mp hname
    obtain ⟨start, rfl⟩ := List.getLast?_eq_some_iff.mp hlast
    obtain rfl : start = place := by rwa [List.dropLast_concat] at hdirectory
    rw [Std.ExtTreeMap.mem_toList_iff_getElem?_eq_some.mp hentry, Option.isSome_some]
  · intro hsome
    obtain ⟨entry, hentry⟩ := Option.isSome_iff_exists.mp hsome
    exact ⟨(place ++ [name], entry), Std.ExtTreeMap.mem_toList_iff_getElem?_eq_some.mpr hentry,
      by simp⟩

/-- What is not among the names of a directory is not in it. -/
theorem entry?_of_not_mem_names? {path : Path} {names : List String}
    (h : tree.names? path = some names) (hlocate : tree.locate path = .ok place)
    (hplace : tree.entry? place = some .directory) {name : String} (hname : name ∉ names) :
    tree.entry? (place ++ [name]) = none := by
  rwa [mem_names?_iff h hlocate hplace, Option.not_isSome_iff_eq_none] at hname

end ShardVault.FileTree

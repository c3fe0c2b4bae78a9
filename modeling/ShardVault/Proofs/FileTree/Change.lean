import ShardVault.Proofs.FileTree.Path
import Mathlib.Data.Set.Insert

/-!
What operations on files change.  All directories that are ever made are those of one tree, so
where nothing is in it nothing comes to be but by being touched (`Changes`).  A file under a plain
name in a directory of that tree is always at the same place (`Ground.place_of_locate`), and is
read as it was as long as that place is not touched (`Changes.read`).
-/

namespace ShardVault.FileTree

variable {prepared tree grown : FileTree} {place : Place} {touched : Set Place}

/-- A tree changes to another that has no directories but those of a prepared one.  What is not
    touched stays, and nothing comes to be there but these directories. -/
structure Changes (prepared : FileTree) (touched : Set Place) (tree grown : FileTree) : Prop where
  within : grown.KeepsDirectories prepared
  keeps : tree.KeepsDirectories grown
  stays : ∀ place ∉ touched, ∀ entry, tree.entry? place = some entry →
    grown.entry? place = some entry
  absent : ∀ place ∉ touched, prepared.entry? place = none → tree.entry? place = none →
    grown.entry? place = none

/-- What is the same where it is not touched changes. -/
theorem Changes.of_same (hwithin : grown.KeepsDirectories prepared)
    (hkeeps : tree.KeepsDirectories grown)
    (h : ∀ place ∉ touched, grown.entry? place = tree.entry? place) :
    Changes prepared touched tree grown :=
  ⟨hwithin, hkeeps, fun place hplace _ hentry => (h place hplace).trans hentry,
    fun place hplace _ hnone => (h place hplace).trans hnone⟩

theorem Changes.refl (hwithin : tree.KeepsDirectories prepared) (touched : Set Place) :
    Changes prepared touched tree tree :=
  .of_same hwithin (.refl tree) fun _ _ => rfl

theorem Changes.trans {full : FileTree} (h : Changes prepared touched tree grown)
    (h' : Changes prepared touched grown full) : Changes prepared touched tree full where
  within := h'.within
  keeps := h.keeps.trans h'.keeps
  stays place hplace entry hentry := h'.stays place hplace entry (h.stays place hplace entry hentry)
  absent place hplace hnone htree :=
    h'.absent place hplace hnone (h.absent place hplace hnone htree)

theorem Changes.mono {more : Set Place} (h : Changes prepared touched tree grown)
    (hsubset : touched ⊆ more) : Changes prepared more tree grown where
  within := h.within
  keeps := h.keeps
  stays place hplace := h.stays place fun hmem => hplace (hsubset hmem)
  absent place hplace := h.absent place fun hmem => hplace (hsubset hmem)

/-- A path leads where it led as long as its directories stay. -/
theorem locate_of_keepsDirectories {path : Path} (h : tree.KeepsDirectories grown)
    (hlocate : tree.locate path = .ok place) : grown.locate path = .ok place := by
  unfold locate at hlocate ⊢
  split at hlocate
  · cases hlocate
  · exact foldlM_follow_of_keepsDirectories h hlocate

/-! ## Single operations -/

theorem changes_put (hwithin : tree.KeepsDirectories prepared)
    (hplace : tree.entry? place ≠ some .directory) (content : Bytes) :
    Changes prepared {place} tree (tree.put place (.file content)) := by
  refine .of_same (fun other hother => ?_) (keepsDirectories_put hplace content)
    fun other hother => entry?_put_of_ne tree _ hother
  have hne := ne_nil_of_not_directory hplace
  by_cases heq : other = place
  · rw [heq, entry?_put_self tree _ hne] at hother
    cases hother
  · rw [entry?_put_of_ne tree _ heq] at hother
    exact hwithin other hother

theorem changes_erase (hwithin : tree.KeepsDirectories prepared)
    (hplace : tree.entry? place ≠ some .directory) :
    Changes prepared {place} tree (tree.erase place) := by
  refine .of_same (fun other hother => ?_) (keepsDirectories_erase hplace)
    fun other hother => entry?_erase_of_ne tree hother
  have hne := ne_nil_of_not_directory hplace
  by_cases heq : other = place
  · rw [heq, entry?_erase_self tree hne] at hother
    cases hother
  · rw [entry?_erase_of_ne tree heq] at hother
    exact hwithin other hother

/-- A file is written at its place, over a file or nothing. -/
theorem of_write {path : Path} {content : Bytes} (h : tree.write path content = .ok grown) :
    ∃ place, tree.locate path = .ok place ∧ tree.entry? place ≠ some .directory ∧
      grown = tree.put place (.file content) := by
  unfold write at h
  split at h
  · cases h
  · rename_i place hplace
    split at h
    · cases h
    · rename_i hentry
      exact ⟨place, hplace, hentry, (Except.ok.inj h).symm⟩

theorem of_remove {path : Path} (h : tree.remove path = .ok grown) :
    ∃ place, tree.locate path = .ok place ∧ tree.entry? place ≠ some .directory ∧
      grown = tree.erase place := by
  unfold remove at h
  split at h
  · cases h
  · rename_i place hplace
    split at h
    · rename_i hentry
      exact ⟨place, hplace, by simp [hentry], (Except.ok.inj h).symm⟩
    · cases h
    · cases h

/-- A file is moved by removing it and writing it at the other path. -/
theorem of_rename {path target : Path} (h : tree.rename path target = .ok grown) :
    ∃ content rest, tree.read path = .ok content ∧ tree.remove path = .ok rest ∧
      rest.write target content = .ok grown := by
  unfold rename at h
  split at h
  · rename_i content rest hread hremove
    exact ⟨content, rest, hread, hremove, h⟩
  · cases h
  · cases h

/-! ## Making directories -/

/-- Making the directories of a path makes none that the prepared tree does not have, if the path
    leads to a directory there. -/
theorem changes_createAlong {segments : List String} {target : Place}
    (hwithin : tree.KeepsDirectories prepared)
    (hlocated : segments.foldlM prepared.follow place = .ok target)
    (htarget : prepared.entry? target = some .directory) :
    Changes prepared ∅ tree (tree.createAlong place segments).2 := by
  induction segments generalizing tree place with
  | nil => exact .refl hwithin ∅
  | cons segment rest ih =>
    obtain ⟨next, hnext, hdirectory, hrest⟩ := exists_follow_of_foldlM hlocated htarget
    rcases createAlong_cons_cases tree place segment rest with
      ⟨fault, hstop⟩ | ⟨own, hown, hstep⟩
    · rw [hstop]
      exact .refl hwithin ∅
    · obtain rfl : own = next := by
        have hsame := follow_of_keepsDirectories hwithin hown
        rw [hnext] at hsame
        exact (Except.ok.inj hsame).symm
      rcases hstep with ⟨-, hmake⟩ | ⟨hmissing, hmake⟩
      · rw [hmake]
        exact ih hwithin hrest
      · -- the directory that is made is one of the prepared tree's
        have hextends := extends_put hmissing .directory
        have hput : Changes prepared ∅ tree (tree.put own .directory) := by
          refine ⟨fun other hother => ?_, hextends.keepsDirectories,
            fun other _ entry => hextends other entry, fun other _ hother htree => ?_⟩
          · by_cases heq : other = own
            · rw [heq, hdirectory]
            · rw [entry?_put_of_ne tree _ heq] at hother
              exact hwithin other hother
          · rw [entry?_put_of_ne, htree]
            rintro rfl
            rw [hdirectory] at hother
            cases hother
        rw [hmake]
        exact hput.trans (ih hput.within hrest)

/-! ## A directory of the prepared tree -/

/-- A path leads to a directory of the prepared tree. -/
structure Ground (prepared : FileTree) (root : Path) (directory : Place) : Prop where
  located : root.segments.foldlM prepared.follow [] = .ok directory
  isDirectory : prepared.entry? directory = some .directory

theorem Ground.of_keepsDirectories {root : Path} {directory : Place}
    (h : Ground tree root directory) (hkeeps : tree.KeepsDirectories grown) :
    Ground grown root directory :=
  ⟨foldlM_follow_of_keepsDirectories hkeeps h.located, hkeeps _ h.isDirectory⟩

theorem Ground.locate_eq {root : Path} {directory : Place} (h : Ground tree root directory)
    (hfault : pathFault? root = none) : tree.locate root = .ok directory := by
  rw [locate_eq_foldlM hfault, h.located]

theorem Ground.exists_names {root : Path} {directory : Place} (h : Ground tree root directory)
    (hfault : pathFault? root = none) : ∃ names, tree.names? root = some names := by
  simp only [names?, h.locate_eq hfault, h.isDirectory, Option.some.injEq, exists_eq']

/-- A directory that is there is not made again. -/
theorem Ground.createDirectories_eq {root : Path} {directory : Place}
    (h : Ground tree root directory) (hfault : pathFault? root = none) :
    tree.createDirectories root = (.ok (), tree) := by
  rw [createDirectories, hfault]
  exact createAlong_of_foldlM h.located h.isDirectory

/-- Directories that are made are those of a tree that has whatever was there. -/
theorem ground_of_createDirectories {root : Path}
    (h : tree.createDirectories root = (.ok (), grown)) :
    tree.Extends grown ∧
      ∃ directory, Ground grown root directory ∧ grown.locate root = .ok directory := by
  obtain ⟨hfault, hcreated⟩ := of_createDirectories h
  obtain ⟨hextends, directory, hlocated, hdirectory⟩ :=
    createAlong_ok (entry?_nil tree) hcreated
  have hground : Ground grown root directory := ⟨hlocated, hdirectory⟩
  exact ⟨hextends, directory, hground, hground.locate_eq hfault⟩

/-- The directory of a path can be made, and holds nothing when it is. -/
structure Bare (files : FileTree) (root : Path) : Prop where
  created : (files.createDirectories root).1 = .ok ()
  empty : (files.createDirectories root).2.names? root = some []

/-- The directory of a path can be made, holds nothing when it is, and has room for names of up to
    this many bytes. -/
structure Fresh (files : FileTree) (root : Path) (size : Nat) : Prop extends Bare files root where
  size_le : root.childSize size ≤ maxPathSize

/-- A bare directory holds nothing in a tree that has all directories that are ever made. -/
theorem Bare.exists_ground {root : Path} (h : tree.Bare root) :
    ∃ prepared directory, tree.createDirectories root = (.ok (), prepared) ∧
      tree.Extends prepared ∧ Ground prepared root directory ∧
      ∀ name, prepared.entry? (directory ++ [name]) = none := by
  obtain ⟨hcreated, hempty⟩ := h
  cases hcreate : tree.createDirectories root with
  | mk result prepared =>
    rw [hcreate] at hcreated hempty
    cases hcreated
    obtain ⟨hextends, directory, hground, hlocate⟩ := ground_of_createDirectories hcreate
    refine ⟨prepared, directory, rfl, hextends, hground, fun name => ?_⟩
    exact entry?_of_not_mem_names? hempty hlocate hground.isDirectory List.not_mem_nil

/-- A name that is one segment of a path, and no dots. -/
structure PlainName (name : String) : Prop where
  no_slash : '/' ∉ name.toList
  two_lt_size : 2 < name.utf8ByteSize

theorem GoodName.plain {name : String} (h : GoodName name) : PlainName name :=
  ⟨h.no_slash, h.two_lt_size⟩

variable {root : Path} {directory : Place} {name : String} {content : Bytes}

theorem Ground.changes_createDirectories (h : Ground prepared root directory)
    (hwithin : tree.KeepsDirectories prepared) :
    Changes prepared ∅ tree (tree.createDirectories root).2 := by
  unfold createDirectories
  split
  · exact .refl hwithin ∅
  · exact changes_createAlong hwithin h.located h.isDirectory

/-- Wherever the directory is there, a name in it is at the place of the name. -/
theorem Ground.place_of_locate (h : Ground prepared root directory) (hname : PlainName name)
    (hwithin : tree.KeepsDirectories prepared)
    (hlocate : tree.locate (root.child name) = .ok place) : place = directory ++ [name] := by
  unfold locate at hlocate
  split at hlocate
  · cases hlocate
  · rw [Path.segments_child hname.no_slash, List.foldlM_append] at hlocate
    cases hstem : root.stem.foldlM tree.follow [] with
    | error fault =>
      rw [hstem] at hlocate
      cases hlocate
    | ok own =>
      have hown := foldlM_follow_of_keepsDirectories hwithin hstem
      rw [foldlM_stem_of_directory h.located] at hown
      obtain rfl := Except.ok.inj hown
      rw [hstem] at hlocate
      change [name].foldlM tree.follow directory = _ at hlocate
      rw [List.foldlM_cons] at hlocate
      cases hfollow : tree.follow directory name with
      | error fault =>
        rw [hfollow] at hlocate
        cases hlocate
      | ok next =>
        rw [hfollow] at hlocate
        cases hlocate
        have hprepared := follow_of_keepsDirectories hwithin hfollow
        simp only [follow, h.isDirectory] at hprepared
        have hne (short : String) (hshort : short.utf8ByteSize ≤ 2) : name ≠ short := by
          rintro rfl
          exact absurd hname.two_lt_size (Nat.not_lt.mpr hshort)
        rw [if_neg (not_or.mpr ⟨hne "" (by decide), hne "." (by decide)⟩),
          if_neg (hne ".." (by decide))] at hprepared
        split at hprepared
        · cases hprepared
        · exact (Except.ok.inj hprepared).symm

/-- What is read under a name stays as long as the name's place is not touched. -/
theorem Changes.read (h : Changes prepared touched tree grown)
    (hground : Ground prepared root directory) (hname : PlainName name)
    (hwithin : tree.KeepsDirectories prepared) (hplace : directory ++ [name] ∉ touched)
    (hread : tree.read (root.child name) = .ok content) :
    grown.read (root.child name) = .ok content := by
  obtain ⟨place, hlocate, hentry⟩ := of_read hread
  obtain rfl := hground.place_of_locate hname hwithin hlocate
  have hgrown := locate_of_keepsDirectories h.keeps hlocate
  simp only [FileTree.read, hgrown, h.stays _ hplace _ hentry]

/-! ## Files of the directory -/

section Files

variable (hground : Ground prepared root directory) (hname : PlainName name)
  (hwithin : tree.KeepsDirectories prepared)

include hground hname hwithin

theorem Ground.changes_write (h : tree.write (root.child name) content = .ok grown) :
    Changes prepared {directory ++ [name]} tree grown ∧
      grown.read (root.child name) = .ok content := by
  obtain ⟨place, hlocate, hplace, rfl⟩ := of_write h
  obtain rfl := hground.place_of_locate hname hwithin hlocate
  have hchanges := changes_put hwithin hplace content
  have hgrown := locate_of_keepsDirectories hchanges.keeps hlocate
  refine ⟨hchanges, ?_⟩
  simp only [FileTree.read, hgrown]
  rw [entry?_put_self tree _ (by simp)]

theorem Ground.changes_remove (h : tree.remove (root.child name) = .ok grown) :
    Changes prepared {directory ++ [name]} tree grown := by
  obtain ⟨place, hlocate, hplace, rfl⟩ := of_remove h
  obtain rfl := hground.place_of_locate hname hwithin hlocate
  exact changes_erase hwithin hplace

theorem Ground.changes_rename {target : String} (htarget : PlainName target)
    (hcontent : tree.read (root.child name) = .ok content)
    (h : tree.rename (root.child name) (root.child target) = .ok grown) :
    Changes prepared {directory ++ [name], directory ++ [target]} tree grown ∧
      grown.read (root.child target) = .ok content := by
  obtain ⟨own, rest, hread, hremove, hwrite⟩ := of_rename h
  obtain rfl := Except.ok.inj (hcontent.symm.trans hread)
  have hrest := hground.changes_remove hname hwithin hremove
  obtain ⟨hchanges, hgrown⟩ := hground.changes_write htarget hrest.within hwrite
  refine ⟨(hrest.mono ?_).trans (hchanges.mono ?_), hgrown⟩
  · exact Set.singleton_subset_iff.mpr (Set.mem_insert _ _)
  · exact Set.subset_insert _ _

/-- A file is written under one name and then moved to another. -/
theorem Ground.changes_write_rename {written : FileTree} {target : String}
    (htarget : PlainName target) (hwrite : tree.write (root.child name) content = .ok written)
    (hrename : written.rename (root.child name) (root.child target) = .ok grown) :
    Changes prepared {directory ++ [name], directory ++ [target]} tree grown ∧
      grown.read (root.child target) = .ok content := by
  obtain ⟨hwritten, hread⟩ := hground.changes_write hname hwithin hwrite
  obtain ⟨hmoved, hgrown⟩ := hground.changes_rename hname hwritten.within htarget hread hrename
  exact ⟨(hwritten.mono (Set.singleton_subset_iff.mpr (Set.mem_insert _ _))).trans hmoved, hgrown⟩

end Files

/-! ## A long way -/

/-- A path to one name, with steps before it that lead nowhere. -/
def roundabout (steps : Nat) : Path :=
  ⟨List.replicate steps "." ++ ["data"]⟩

theorem stem_roundabout (steps : Nat) :
    (roundabout steps).stem = List.replicate steps "." ++ ["data"] := by
  rw [Path.stem, roundabout, if_neg]
  simp

theorem size_text_roundabout (steps : Nat) :
    (roundabout steps).text.utf8ByteSize = 2 * steps + 4 := by
  have hdot : ".".utf8ByteSize = 1 := rfl
  have hslash : "/".utf8ByteSize = 1 := rfl
  simp only [Path.text, roundabout]
  induction steps with
  | zero => rfl
  | succ steps ih =>
    cases steps with
    | zero => rfl
    | succ steps =>
      rw [List.replicate_succ, List.cons_append] at ih
      rw [List.replicate_succ, List.replicate_succ, List.cons_append, List.cons_append,
        String.intercalate_cons_cons]
      simp only [String.utf8ByteSize_append, hdot, hslash, ih]
      omega

theorem childSize_roundabout (steps size : Nat) :
    (roundabout steps).childSize size = 2 * steps + 4 + 1 + size := by
  have htext := size_text_roundabout steps
  rw [Path.text, roundabout] at htext
  rw [Path.childSize, stem_roundabout, if_neg (by simp), htext]

theorem pathFault?_roundabout {steps : Nat} (h : 2 * steps + 4 ≤ maxPathSize) :
    pathFault? (roundabout steps) = none := by
  rw [pathFault?, size_text_roundabout, if_neg, if_neg (Nat.not_lt.mpr h)]
  simp [roundabout]

theorem follow_dot (tree : FileTree) : tree.follow [] "." = .ok [] := by
  rw [follow, entry?_nil]
  rfl

theorem locate_roundabout (tree : FileTree) {steps : Nat} (h : 2 * steps + 4 ≤ maxPathSize) :
    tree.locate (roundabout steps) = tree.locate ⟨["data"]⟩ := by
  rw [locate_eq_foldlM (pathFault?_roundabout h), locate_eq_foldlM rfl, roundabout]
  clear h
  induction steps with
  | zero => rfl
  | succ steps ih =>
    rw [List.replicate_succ, List.cons_append, List.foldlM_cons, follow_dot]
    exact ih

theorem createDirectories_roundabout (tree : FileTree) {steps : Nat}
    (h : 2 * steps + 4 ≤ maxPathSize) :
    tree.createDirectories (roundabout steps) = tree.createDirectories ⟨["data"]⟩ := by
  have hname : pathFault? ⟨["data"]⟩ = none := rfl
  rw [createDirectories, createDirectories, pathFault?_roundabout h, hname, roundabout]
  clear h
  induction steps with
  | zero => rfl
  | succ steps ih =>
    rw [List.replicate_succ, List.cons_append, createAlong, follow_dot]
    simp only [entry?_nil]
    exact ih

/-- It leads to nothing in an empty tree, but its directory can be made. -/
theorem bare_roundabout {steps : Nat} (h : 2 * steps + 4 ≤ maxPathSize) :
    FileTree.empty.exists? (roundabout steps) = .ok false ∧
      FileTree.empty.Bare (roundabout steps) := by
  refine ⟨?_, ?_, ?_⟩
  · rw [exists?, locate_roundabout _ h]
    rfl
  · rw [createDirectories_roundabout _ h]
    rfl
  · rw [createDirectories_roundabout _ h, names?, locate_roundabout _ h]
    rfl

end ShardVault.FileTree

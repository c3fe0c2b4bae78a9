import ShardVault.FileTree
import ShardVault.Proofs.FileTree

/-!
Paths of children.  The path of a name in a directory goes through the directory's own segments,
but for an empty one at their end, and then to the name (`locate_child`).
-/

namespace ShardVault

namespace Path

/-- The segments that lead to the directory of the children of a path. -/
def stem (path : Path) : List String :=
  if path.segments.getLast? = some "" then path.segments.dropLast else path.segments

theorem segments_child {path : Path} {name : String} (h : '/' ∉ name.toList) :
    (path.child name).segments = path.stem ++ [name] := by
  have hname := segments_ofText h
  have hrelative : (ofText name).isAbsolute = false := by
    rw [isAbsolute, hname]
    split
    · rename_i heq
      cases heq
    · rfl
  rw [child, join, if_neg (by simp [hrelative]), stem]
  split
  · rw [hname]
  · rw [hname]

theorem stem_subset (path : Path) : path.stem ⊆ path.segments := by
  intro segment hsegment
  unfold stem at hsegment
  split at hsegment
  · exact (List.dropLast_sublist _).subset hsegment
  · exact hsegment

/-- The bytes of the path of a child whose name has this many. -/
def childSize (path : Path) (size : Nat) : Nat :=
  if path.stem = [] then size else ("/".intercalate path.stem).utf8ByteSize + 1 + size

theorem childSize_le_childSize (path : Path) {size more : Nat} (h : size ≤ more) :
    path.childSize size ≤ path.childSize more := by
  unfold childSize
  split <;> omega

private theorem size_intercalate_concat {segments : List String} (h : segments ≠ [])
    (name : String) :
    ("/".intercalate (segments ++ [name])).utf8ByteSize =
      ("/".intercalate segments).utf8ByteSize + 1 + name.utf8ByteSize := by
  have hslash : "/".utf8ByteSize = 1 := rfl
  induction segments with
  | nil => exact absurd rfl h
  | cons first rest ih =>
    cases rest with
    | nil =>
      rw [List.singleton_append, String.intercalate_cons_cons, String.intercalate_singleton,
        String.intercalate_singleton]
      simp only [String.utf8ByteSize_append, hslash]
    | cons second rest =>
      have hrest := ih (List.cons_ne_nil second rest)
      rw [List.cons_append] at hrest
      rw [List.cons_append, List.cons_append, String.intercalate_cons_cons,
        String.intercalate_cons_cons]
      simp only [String.utf8ByteSize_append, hslash, hrest]
      omega

theorem size_text_child (path : Path) {name : String} (h : '/' ∉ name.toList) :
    (path.child name).text.utf8ByteSize = path.childSize name.utf8ByteSize := by
  rw [text, segments_child h, childSize]
  split
  · rename_i hnil
    rw [hnil, List.nil_append, String.intercalate_singleton]
  · rename_i hne
    exact size_intercalate_concat hne name

end Path

namespace FileTree

variable {tree : FileTree} {path : Path} {name : String} {directory : Place}

/-- The name of a file that can be in any directory whose path leaves room for it. -/
structure GoodName (name : String) : Prop where
  no_slash : '/' ∉ name.toList
  no_nul : '\x00' ∉ name.toList
  two_lt_size : 2 < name.utf8ByteSize
  size_le : name.utf8ByteSize ≤ maxNameSize

/-- A path leads somewhere or nowhere, but is not refused, and has room for a child with a name of
    this many bytes. -/
structure HasRoom (path : Path) (size : Nat) : Prop where
  fault : pathFault? path = none
  size_le : path.childSize size ≤ maxPathSize

theorem HasRoom.of_le {size more : Nat} (h : HasRoom path more) (hsize : size ≤ more) :
    HasRoom path size where
  fault := h.fault
  size_le := Nat.le_trans (path.childSize_le_childSize hsize) h.size_le

theorem locate_eq_foldlM (h : pathFault? path = none) :
    tree.locate path = path.segments.foldlM tree.follow [] := by
  rw [locate, h]

/-- Below a path that is not refused the path of a name is refused only for its length. -/
theorem pathFault?_child_eq (hname : GoodName name) (hpath : pathFault? path = none) :
    pathFault? (path.child name) =
      if maxPathSize < path.childSize name.utf8ByteSize then some .nameTooLong else none := by
  unfold pathFault? at hpath ⊢
  split at hpath
  · cases hpath
  · rename_i hnul
    rw [if_neg, path.size_text_child hname.no_slash]
    rw [Path.segments_child hname.no_slash, List.any_append, Bool.or_eq_true, not_or]
    constructor
    · intro hstem
      obtain ⟨segment, hsegment, hcontains⟩ := List.any_eq_true.mp hstem
      exact hnul (List.any_eq_true.mpr ⟨segment, path.stem_subset hsegment, hcontains⟩)
    · simpa using hname.no_nul

theorem pathFault?_child (hname : GoodName name) (hpath : HasRoom path name.utf8ByteSize) :
    pathFault? (path.child name) = none := by
  rw [pathFault?_child_eq hname hpath.fault, if_neg (Nat.not_lt.mpr hpath.size_le)]

/-- A path that has no room for a name leads nowhere with it. -/
theorem locate_child_of_no_room (hname : GoodName name) (hpath : pathFault? path = none)
    (hsize : maxPathSize < path.childSize name.utf8ByteSize) :
    tree.locate (path.child name) = .error .nameTooLong := by
  rw [locate, pathFault?_child_eq hname hpath, if_pos hsize]

/-- Following a path is following its stem, and then perhaps staying there. -/
theorem foldlM_segments (tree : FileTree) (path : Path) :
    path.segments.foldlM tree.follow [] = path.stem.foldlM tree.follow [] ∨
      path.segments.foldlM tree.follow [] =
        (path.stem.foldlM tree.follow [] >>= fun place => tree.follow place "") := by
  by_cases hlast : path.segments.getLast? = some ""
  · right
    obtain ⟨start, hstart⟩ := List.getLast?_eq_some_iff.mp hlast
    have hstem : path.stem = start := by
      rw [Path.stem, if_pos hlast, hstart, List.dropLast_concat]
    rw [hstem, hstart, List.foldlM_append]
    simp only [List.foldlM_cons, List.foldlM_nil, bind_pure]
  · left
    rw [Path.stem, if_neg hlast]

/-- A directory's path leads to its children's stem. -/
theorem foldlM_stem_of_directory (h : path.segments.foldlM tree.follow [] = .ok directory) :
    path.stem.foldlM tree.follow [] = .ok directory := by
  rcases foldlM_segments tree path with hsame | hstay
  · rw [← hsame, h]
  · rw [h] at hstay
    cases hstem : path.stem.foldlM tree.follow [] with
    | error fault =>
      rw [hstem] at hstay
      cases hstay
    | ok place =>
      rw [hstem] at hstay
      have hfollow : tree.follow place "" = .ok directory := hstay.symm
      have hplace := entry?_of_follow_eq_ok hfollow
      rw [follow, hplace] at hfollow
      exact hfollow

/-- A child is in the directory that the path leads to. -/
theorem locate_child (hname : GoodName name) (hpath : HasRoom path name.utf8ByteSize)
    (h : path.segments.foldlM tree.follow [] = .ok directory)
    (hdirectory : tree.entry? directory = some .directory) :
    tree.locate (path.child name) = .ok (directory ++ [name]) := by
  rw [locate_eq_foldlM (pathFault?_child hname hpath), Path.segments_child hname.no_slash,
    List.foldlM_append, foldlM_stem_of_directory h]
  change [name].foldlM tree.follow directory = _
  rw [List.foldlM_cons, follow_name hdirectory hname.two_lt_size hname.size_le]
  rfl

/-- Where nothing is called so once the directory is made, nothing is called so before. -/
theorem exists?_child_of_createAlong {grown : FileTree} (hname : GoodName name)
    (hpath : HasRoom path name.utf8ByteSize)
    (hcreated : tree.createAlong [] path.segments = (.ok (), grown))
    (h : path.segments.foldlM grown.follow [] = .ok directory)
    (hnone : grown.entry? (directory ++ [name]) = none) :
    tree.exists? (path.child name) = .ok false := by
  obtain ⟨hextends, -⟩ := createAlong_ok (entry?_nil tree) hcreated
  have hlocate : tree.locate (path.child name) =
      (path.stem.foldlM tree.follow [] >>= fun place => tree.follow place name) := by
    rw [locate_eq_foldlM (pathFault?_child hname hpath), Path.segments_child hname.no_slash,
      List.foldlM_append]
    simp only [List.foldlM_cons, List.foldlM_nil, bind_pure]
  have hmissing {place : Place} (hplace : tree.entry? place = none) (segment : String) :
      tree.follow place segment = .error .notFound := by
    rw [follow, hplace]
  rcases foldlM_follow_of_createAlong (entry?_nil tree) hcreated with
    hnowhere | ⟨target, htarget, hentry⟩
  · have hchild : tree.locate (path.child name) = .error .notFound := by
      rw [hlocate]
      rcases foldlM_segments tree path with hsame | hstay
      · rw [← hsame, hnowhere]
        rfl
      · rw [hnowhere] at hstay
        cases hstem : path.stem.foldlM tree.follow [] with
        | error fault =>
          rw [hstem] at hstay
          cases hstay
          rfl
        | ok place =>
          rw [hstem] at hstay
          have hfollow : tree.follow place "" = .error .notFound := hstay.symm
          apply hmissing
          cases hplace : tree.entry? place with
          | none => rfl
          | some entry => cases entry <;> simp [follow, hplace] at hfollow
    rw [exists?, hchild]
  · rcases hentry with hentry | hentry
    · have hchild : tree.locate (path.child name) = .error .notFound := by
        rw [hlocate, foldlM_stem_of_directory htarget]
        exact hmissing hentry name
      rw [exists?, hchild]
    · have hsame : target = directory := by
        have hgrown := foldlM_follow_of_keepsDirectories hextends.keepsDirectories htarget
        rw [h] at hgrown
        exact (Except.ok.inj hgrown).symm
      subst hsame
      rw [exists?, locate_child hname hpath htarget hentry]
      cases hheld : tree.entry? (target ++ [name]) with
      | none => simp only [hheld, Option.isSome_none]
      | some entry =>
        rw [hextends _ _ hheld] at hnone
        cases hnone

end FileTree

end ShardVault

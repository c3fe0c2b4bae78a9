/-!
Paths.  A path is the list of its segments, the runs of characters between slashes, so its text is
kept as it was given: empty segments, single dots and double dots are segments like others.  An
absolute path begins with an empty segment.
-/

namespace ShardVault

/-- A path to a file or a directory. -/
structure Path where
  segments : List String
deriving DecidableEq, Repr

namespace Path

/-- The runs of characters between slashes.  There is one more than there are slashes. -/
def split : List Char → List (List Char)
  | [] => [[]]
  | c :: rest =>
    if c = '/' then [] :: split rest
    else
      match split rest with
      | [] => [[c]]
      | first :: more => (c :: first) :: more

theorem split_of_no_slash {name : List Char} (h : '/' ∉ name) : split name = [name] := by
  induction name with
  | nil => rfl
  | cons c rest ih =>
    simp only [List.mem_cons, not_or] at h
    simp only [split, if_neg (Ne.symm h.1), ih h.2]

/-- The path of a text. -/
def ofText (text : String) : Path :=
  ⟨(split text.toList).map String.ofList⟩

/-- A text without slashes is one segment. -/
theorem segments_ofText {name : String} (h : '/' ∉ name.toList) :
    (ofText name).segments = [name] := by
  simp [ofText, split_of_no_slash h]

/-- The text of a path. -/
def text (path : Path) : String :=
  "/".intercalate path.segments

/-- Whether a path begins at the top directory wherever it is used. -/
def isAbsolute (path : Path) : Bool :=
  match path.segments with
  | "" :: _ :: _ => true
  | _ => false

/-- The path that leads along one path and from there along another.  An absolute path leaves
    nothing of the first. -/
def join (path next : Path) : Path :=
  if next.isAbsolute then next
  else if path.segments.getLast? = some "" then ⟨path.segments.dropLast ++ next.segments⟩
  else ⟨path.segments ++ next.segments⟩

/-- The path of a name in the directory of a path. -/
def child (path : Path) (name : String) : Path :=
  path.join (ofText name)

end Path

end ShardVault

import ShardVault.Proofs.Chunk.Mirror
import ShardVault.Proofs.Chunk.Store
import ShardVault.Proofs.FileTree.Making

/-!
Stores that fail.  A call to keep a chunk in a directory puts the chunk's file in its place, or
leaves the files as they are, but for directories on the way to the root (`outcome_storeChunk`).  No
temporary file stays behind, so this holds of every call of a run, and as puts are counted no two of
them use one temporary name (`store_atomic`).
-/

namespace ShardVault.ChunkDirectory

open FileTree (Ground HasRoom PlainName MadeAlong)

/-! ## Without a trace -/

section Aside

variable {tree made written : FileTree} {root : Path} {place : Place} {temporary target : String}
  {data : Bytes}

/-- A file that is written where there was none is removed without a trace. -/
theorem remove_written (hground : Ground made root place) (htemporary : PlainName temporary)
    (hfree : made.entry? (place ++ [temporary]) = none)
    (hwrite : made.write (root.child temporary) data = .ok written) :
    written.remove (root.child temporary) = .ok made := by
  obtain ⟨own, hlocate, hdirectory, rfl⟩ := FileTree.of_write hwrite
  obtain rfl := hground.place_of_locate htemporary (.refl made) hlocate
  have hwritten := FileTree.locate_of_keepsDirectories
    (FileTree.keepsDirectories_put hdirectory data) hlocate
  simp only [FileTree.remove, hwritten]
  rw [FileTree.entry?_put_self made _ (by simp), FileTree.erase_put_of_none hfree]

theorem discard_of_none (hground : Ground made root place) (htemporary : PlainName temporary)
    (hfree : made.entry? (place ++ [temporary]) = none) :
    discard made (root.child temporary) = made := by
  unfold discard
  split
  · rename_i rest hremove
    unfold FileTree.remove at hremove
    split at hremove
    · cases hremove
    · rename_i own hlocate
      obtain rfl := hground.place_of_locate htemporary (.refl made) hlocate
      rw [hfree] at hremove
      cases hremove
  · rfl

/-- In a directory that is made, where the temporary file is not there, writing aside leaves the
    bytes under the target's name and nothing else, or it fails and leaves nothing. -/
theorem writeAside_eq (hcreate : tree.createDirectories root = (.ok (), made))
    (hground : Ground made root place) (htemporary : PlainName temporary)
    (htarget : PlainName target) (hfree : made.entry? (place ++ [temporary]) = none)
    (data : Bytes) :
    let run := writeAside tree root (root.child temporary) (root.child target) data
    (∃ fault, run = (.error fault, made)) ∨
      made.entry? (place ++ [target]) ≠ some .directory ∧
        run = (.ok (), made.put (place ++ [target]) (.file data)) := by
  intro run
  cases hwrite : made.write (root.child temporary) data with
  | error fault =>
    refine .inl ⟨fault, ?_⟩
    simp only [run, writeAside, hcreate, hwrite, discard_of_none hground htemporary hfree]
  | ok written =>
    have hremove := remove_written hground htemporary hfree hwrite
    cases hrename : written.rename (root.child temporary) (root.child target) with
    | error fault =>
      refine .inl ⟨fault, ?_⟩
      simp only [run, writeAside, hcreate, hwrite, hrename, discard, hremove]
    | ok renamed =>
      have hread := (hground.changes_write htemporary (.refl made) hwrite).2
      obtain ⟨content, rest, hcontent, hrest, hmoved⟩ := FileTree.of_rename hrename
      obtain rfl := Except.ok.inj (hread.symm.trans hcontent)
      obtain rfl := Except.ok.inj (hremove.symm.trans hrest)
      obtain ⟨own, hlocate, hdirectory, rfl⟩ := FileTree.of_write hmoved
      obtain rfl := hground.place_of_locate htarget (.refl _) hlocate
      exact .inr ⟨hdirectory, by simp only [run, writeAside, hcreate, hwrite, hrename]⟩

end Aside

/-! ## Directories without temporary files -/

/-- In the root, once it is made, nothing has the name of a temporary file. -/
def Tidy (root : Path) (files : FileTree) : Prop :=
  ∀ digest writer put, temporaryName digest writer put ∉
    ((files.createDirectories root).2.names? root).getD []

section Tidiness

variable {files made : FileTree} {root : Path} {place : Place}

/-- A root is tidy if it holds nothing but what is in chunks' places, be it files or directories, or
    if it cannot be made. -/
theorem tidy_of_chunks (h : ∀ name ∈ ((files.createDirectories root).2.names? root).getD [],
    ∃ digest : Digest, name = digest.hex) : Tidy root files := by
  intro own writer put htemporary
  obtain ⟨digest, hname⟩ := h _ htemporary
  exact temporaryName_ne_hex own writer put digest hname

theorem tidy_iff (hcreate : files.createDirectories root = (.ok (), made))
    (hground : Ground made root place) :
    Tidy root files ↔
      ∀ digest writer put, made.entry? (place ++ [temporaryName digest writer put]) = none := by
  have hfault := (FileTree.of_createDirectories hcreate).1
  have hlocate := hground.locate_eq hfault
  obtain ⟨names, hnames⟩ := hground.exists_names hfault
  simp only [Tidy, hcreate, hnames, Option.getD_some,
    FileTree.mem_names?_iff hnames hlocate hground.isDirectory, Option.not_isSome_iff_eq_none]

theorem Tidy.createDirectories (h : Tidy root files) :
    Tidy root (files.createDirectories root).2 := by
  rwa [Tidy, FileTree.createDirectories_again]

/-- A chunk's file is no temporary one. -/
theorem Tidy.put (h : Tidy root files) (hcreate : files.createDirectories root = (.ok (), made))
    (hground : Ground made root place) {digest : Digest}
    (hfree : made.entry? (place ++ [digest.hex]) ≠ some .directory) (data : Bytes) :
    Tidy root (made.put (place ++ [digest.hex]) (.file data)) := by
  have hgrown := hground.of_keepsDirectories (FileTree.keepsDirectories_put hfree data)
  have hagain := hgrown.createDirectories_eq (FileTree.of_createDirectories hcreate).1
  rw [tidy_iff hagain hgrown]
  intro own writer put
  have hne := temporaryName_ne_hex own writer put digest
  rw [FileTree.entry?_put_of_ne made _ (by simpa using hne)]
  exact (tidy_iff hcreate hground).mp h own writer put

/-- Nothing in a tidy root has the name of a temporary file, whether or not the root is there. -/
theorem Tidy.not_mem_names (h : Tidy root files) (digest : Digest) (writer : UInt32)
    (put : UInt64) : temporaryName digest writer put ∉ (files.names? root).getD [] := by
  cases hnames : files.names? root with
  | none => exact List.not_mem_nil
  | some names =>
    have hsame : files.createDirectories root = (.ok (), files) := by
      unfold FileTree.names? at hnames
      split at hnames
      · cases hnames
      · rename_i place hlocate
        split at hnames
        · rename_i hdirectory
          unfold FileTree.locate at hlocate
          split at hlocate
          · cases hlocate
          · rename_i hfault
            exact Ground.createDirectories_eq ⟨hlocate, hdirectory⟩ hfault
        · cases hnames
    have htidy := h digest writer put
    rwa [hsame, hnames] at htidy

end Tidiness

/-! ## One call -/

section Call

variable (storage : Storage ChunkDirectory) (data : Bytes) (claim : String)

/-- The directory after one more put. -/
def counted (directory : ChunkDirectory) : ChunkDirectory :=
  { directory with puts := directory.puts + 1 }

/-- A put leaves the chunk's file in its place, in the root that it may have made, or it fails and
    leaves what there is of the root. -/
theorem put_cases_of_tidy (htidy : Tidy storage.chunks.root storage.files) (digest : Digest) :
    (∃ place made, storage.files.createDirectories storage.chunks.root = (.ok (), made) ∧
        Ground made storage.chunks.root place ∧
        made.entry? (place ++ [digest.hex]) ≠ some .directory ∧
        ChunkBackend.put storage digest data =
          (.ok (), ⟨storage.chunks.counted, made.put (place ++ [digest.hex]) (.file data)⟩)) ∨
      ∃ fault, ChunkBackend.put storage digest data = (.error (.ofFile fault),
        ⟨storage.chunks.counted, (storage.files.createDirectories storage.chunks.root).2⟩) := by
  cases hcreate : storage.files.createDirectories storage.chunks.root with
  | mk result made =>
    cases result with
    | error fault =>
      right
      refine ⟨fault, ?_⟩
      simp only [ChunkBackend.put, writeAside, hcreate]
      rfl
    | ok _ =>
      obtain ⟨-, place, hground, -⟩ := FileTree.ground_of_createDirectories hcreate
      have hfree := (tidy_iff hcreate hground).mp htidy digest storage.chunks.writer
        storage.chunks.puts
      rcases writeAside_eq hcreate hground (goodName_temporaryName digest _ _).plain
        (goodName_hex digest).plain hfree data with ⟨fault, hrun⟩ | ⟨hplace, hrun⟩
      · right
        refine ⟨fault, ?_⟩
        simp only [ChunkBackend.put, temporaryPath, path, hrun]
        rfl
      · left
        refine ⟨place, made, rfl, hground, hplace, ?_⟩
        simp only [ChunkBackend.put, temporaryPath, path, hrun]
        rfl

/-- In a root that is made and has room for names, a put fails only if a directory is in the chunk's
    place. -/
theorem directory_of_put_error {storage : Storage ChunkDirectory} {digest : Digest}
    {cause : StorageError} (htidy : Tidy storage.chunks.root storage.files)
    (hput : (ChunkBackend.put storage digest data).1 = .error cause) :
    let made := (storage.files.createDirectories storage.chunks.root).2
    ∀ place, made.locate storage.chunks.root = .ok place →
      made.entry? place = some .directory → HasRoom storage.chunks.root maxName →
      made.entry? (place ++ [digest.hex]) = some .directory := by
  intro made place hlocate hdirectory hroom
  have hground : Ground made storage.chunks.root place :=
    ⟨(FileTree.locate_eq_foldlM hroom.fault).symm.trans hlocate, hdirectory⟩
  have hcreate : storage.files.createDirectories storage.chunks.root = (.ok (), made) := by
    rw [← FileTree.createDirectories_again]
    exact hground.createDirectories_eq hroom.fault
  have hfree := (tidy_iff hcreate hground).mp htidy digest storage.chunks.writer
    storage.chunks.puts
  by_contra hchunk
  rw [put_eq storage hcreate hground hroom (by simp [hfree]) hchunk] at hput
  cases hput

/-- What a call to keep a chunk comes to, with what it leaves. -/
inductive Outcome : Except StorageError StoreStatus × Storage ChunkDirectory → Prop
  /-- The claim does not spell the digest, and nothing at all changes. -/
  | refused : claim ≠ (Digest.of data).hex → Outcome (.ok .failure, storage)
  /-- Besides the root that may have been made, the file that the digest names has the bytes. -/
  | kept {place : Place} {made : FileTree} : claim = (Digest.of data).hex →
      MadeAlong storage.chunks.root storage.files made →
      made.locate storage.chunks.root = .ok place → made.entry? place = some .directory →
      made.entry? (place ++ [claim]) ≠ some .directory →
      Outcome (.ok .success, ⟨storage.chunks.counted, made.put (place ++ [claim]) (.file data)⟩)
  /-- Nothing changes but that directories on the way to the root may have been made.  If all of
      them are, and leave room for names, a directory is in the chunk's place. -/
  | failed {made : FileTree} {reason : String} : claim = (Digest.of data).hex →
      MadeAlong storage.chunks.root storage.files made →
      (∀ place, made.locate storage.chunks.root = .ok place →
        made.entry? place = some .directory → HasRoom storage.chunks.root maxName →
        made.entry? (place ++ [claim]) = some .directory) →
      Outcome (.error (.io reason), ⟨storage.chunks.counted, made⟩)

variable {storage}

/-- Every call to keep a chunk in a tidy root comes to one of the outcomes, and leaves the root
    tidy. -/
theorem outcome_storeChunk (htidy : Tidy storage.chunks.root storage.files) :
    let run := storage.storeChunk data claim
    Outcome storage data claim run ∧ run.2.chunks.root = storage.chunks.root ∧
      Tidy storage.chunks.root run.2.files := by
  intro run
  have hmade := FileTree.madeAlong_createDirectories storage.files storage.chunks.root
  by_cases hclaim : claim = (Digest.of data).hex
  · subst hclaim
    have hrun : run = _ := storage.storeChunk_of_true data
    rcases put_cases_of_tidy storage data htidy (Digest.of data) with
      ⟨place, made, hcreate, hground, hfree, hput⟩ | ⟨fault, hput⟩
    · have hlocate := hground.locate_eq (FileTree.of_createDirectories hcreate).1
      rw [hput] at hrun
      rw [hcreate] at hmade
      rw [hrun]
      exact ⟨.kept rfl hmade hlocate hground.isDirectory hfree, rfl,
        htidy.put hcreate hground hfree data⟩
    · have hplace := directory_of_put_error data htidy (congrArg Prod.fst hput)
      rw [hput] at hrun
      rw [hrun]
      exact ⟨.failed rfl hmade hplace, rfl, htidy.createDirectories⟩
  · have hrun : run = (.ok .failure, storage) := storage.storeChunk_of_false data hclaim
    rw [hrun]
    exact ⟨.refused hclaim, rfl, htidy⟩

end Call

end ShardVault.ChunkDirectory

namespace ShardVault

/-! ## Calls one after the other -/

namespace Storage

variable {κ : Type} [ChunkBackend κ]

/-- What calls to keep chunks leave, made one after the other. -/
def storeAll (storage : Storage κ) (calls : List (Bytes × String)) : Storage κ :=
  calls.foldl (fun storage (data, claim) => (storage.storeChunk data claim).2) storage

theorem storeAll_cons (storage : Storage κ) (data : Bytes) (claim : String)
    (rest : List (Bytes × String)) :
    storage.storeAll ((data, claim) :: rest) = (storage.storeChunk data claim).2.storeAll rest :=
  rfl

end Storage

/-! ## Names of temporary files -/

/-- A directory of chunks, with the names that the temporary files of its puts have had. -/
structure LoggedDirectory where
  directory : ChunkDirectory
  names : List String

/-- The storage without the names. -/
def Storage.unlogged (storage : Storage LoggedDirectory) : Storage ChunkDirectory :=
  ⟨storage.chunks.directory, storage.files⟩

instance : ChunkBackend LoggedDirectory where
  put storage digest data :=
    let directory := storage.chunks.directory
    let name := ChunkDirectory.temporaryName digest directory.writer directory.puts
    let (result, files) := ChunkDirectory.writeAside storage.files directory.root
      (directory.root.child name) (directory.path digest) data
    (result.mapError StorageError.ofFile,
      ⟨⟨directory.counted, storage.chunks.names ++ [name]⟩, files⟩)
  get? storage := ChunkBackend.get? storage.unlogged
  contains storage := ChunkBackend.contains storage.unlogged
  putTime chunks := ChunkBackend.putTime chunks.directory
  getTime chunks := ChunkBackend.getTime chunks.directory

namespace LoggedDirectory

open ChunkDirectory (temporaryName)

/-- A put is that of the directory, and adds the name of its temporary file. -/
theorem put_eq (storage : Storage LoggedDirectory) (digest : Digest) (data : Bytes) :
    let directory := storage.chunks.directory
    let run := ChunkBackend.put storage.unlogged digest data
    ChunkBackend.put storage digest data = (run.1, ⟨⟨directory.counted, storage.chunks.names ++
      [temporaryName digest directory.writer directory.puts]⟩, run.2.files⟩) := by
  intro directory run
  cases haside : ChunkDirectory.writeAside storage.files directory.root
    (directory.temporaryPath digest) (directory.path digest) data with
  | mk result files =>
    have hrun : run = (result.mapError .ofFile, ⟨directory.counted, files⟩) := by
      simp only [run, ChunkBackend.put, Storage.unlogged, haside, directory]
      rfl
    rw [ChunkDirectory.temporaryPath] at haside
    rw [hrun]
    simp only [ChunkBackend.put, haside, directory]

theorem directory_put (storage : Storage ChunkDirectory) (digest : Digest) (data : Bytes) :
    (ChunkBackend.put storage digest data).2.chunks = storage.chunks.counted := by
  simp only [ChunkBackend.put]
  rfl

/-- The names make no difference to a call. -/
theorem storeChunk_unlogged (storage : Storage LoggedDirectory) (data : Bytes) (claim : String) :
    storage.unlogged.storeChunk data claim =
      ((storage.storeChunk data claim).1, (storage.storeChunk data claim).2.unlogged) := by
  by_cases hclaim : claim = (Digest.of data).hex
  · rw [hclaim, Storage.storeChunk_of_true, Storage.storeChunk_of_true, put_eq]
    have hchunks := directory_put storage.unlogged (Digest.of data) data
    cases hput : ChunkBackend.put storage.unlogged (Digest.of data) data with
    | mk result after =>
      rw [hput] at hchunks
      obtain ⟨chunks, files⟩ := after
      obtain rfl : chunks = storage.chunks.directory.counted := hchunks
      cases result <;> rfl
  · rw [Storage.storeChunk_of_false _ _ hclaim, Storage.storeChunk_of_false _ _ hclaim]

theorem storeAll_unlogged (storage : Storage LoggedDirectory) (calls : List (Bytes × String)) :
    storage.unlogged.storeAll calls = (storage.storeAll calls).unlogged := by
  induction calls generalizing storage with
  | nil => rfl
  | cons call rest ih =>
    obtain ⟨data, claim⟩ := call
    rw [Storage.storeAll_cons, Storage.storeAll_cons, storeChunk_unlogged, ih]

/-- The digests of the chunks that come to be put. -/
def putDigests (calls : List (Bytes × String)) : List Digest :=
  calls.filterMap fun (data, claim) =>
    if claim = (Digest.of data).hex then some (Digest.of data) else none

/-- The names of the temporary files of puts, from a number on. -/
def namesFrom (writer : UInt32) : UInt64 → List Digest → List String
  | _, [] => []
  | put, digest :: rest => temporaryName digest writer put :: namesFrom writer (put + 1) rest

/-- Each put adds one name, under the next number. -/
theorem names_storeAll (storage : Storage LoggedDirectory) (calls : List (Bytes × String)) :
    (storage.storeAll calls).chunks.names = storage.chunks.names ++
      namesFrom storage.chunks.directory.writer storage.chunks.directory.puts
        (putDigests calls) := by
  induction calls generalizing storage with
  | nil => exact (List.append_nil _).symm
  | cons call rest ih =>
    obtain ⟨data, claim⟩ := call
    rw [Storage.storeAll_cons, ih]
    by_cases hclaim : claim = (Digest.of data).hex
    · have hchunks : (storage.storeChunk data claim).2.chunks =
          ⟨storage.chunks.directory.counted, storage.chunks.names ++
            [temporaryName (Digest.of data) storage.chunks.directory.writer
              storage.chunks.directory.puts]⟩ := by
        rw [hclaim, Storage.storeChunk_of_true, put_eq]
        cases (ChunkBackend.put storage.unlogged (Digest.of data) data).1 <;> rfl
      have hput : putDigests ((data, claim) :: rest) = Digest.of data :: putDigests rest :=
        List.filterMap_cons_some (if_pos hclaim)
      rw [hchunks, hput, namesFrom, List.append_assoc]
      rfl
    · have hput : putDigests ((data, claim) :: rest) = putDigests rest :=
        List.filterMap_cons_none (if_neg hclaim)
      rw [Storage.storeChunk_of_false _ _ hclaim, hput]

/-- Another put has another name for its temporary file. -/
theorem eq_of_temporaryName_eq {digest other : Digest} {writer : UInt32} {put next : UInt64}
    (h : temporaryName digest writer put = temporaryName other writer next) : put = next := by
  have hlength (own : Digest) : own.hex.toList.length = 64 := by
    rw [Digest.hex, Hex.text, String.toList_ofList, Hex.length_encode, Vector.length_toList]
  have hlists := congrArg String.toList h
  simp only [temporaryName, String.toList_append] at hlists
  have hdigits := (List.append_inj (List.append_cancel_right hlists) (by simp [hlength])).2
  rw [Decimal.text, Decimal.text, String.toList_ofList, String.toList_ofList] at hdigits
  have hvalue := congrArg Decimal.value hdigits
  rw [Decimal.value_digits, Decimal.value_digits] at hvalue
  exact UInt64.toNat_inj.mp hvalue

theorem of_mem_namesFrom {writer : UInt32} {put : UInt64} {digests : List Digest} {name : String}
    (h : name ∈ namesFrom writer put digests) :
    ∃ digest, ∃ number < digests.length,
      name = temporaryName digest writer (put + UInt64.ofNat number) := by
  induction digests generalizing put with
  | nil => cases h
  | cons digest rest ih =>
    rcases List.mem_cons.mp h with rfl | hrest
    · exact ⟨digest, 0, Nat.succ_pos _, congrArg _ (UInt64.add_zero put).symm⟩
    · obtain ⟨other, number, hnumber, rfl⟩ := ih hrest
      refine ⟨other, number + 1, Nat.succ_lt_succ hnumber, ?_⟩
      rw [UInt64.ofNat_add, UInt64.add_assoc, UInt64.add_comm 1]
      rfl

/-- No two puts have the same name, as long as they can be counted. -/
theorem nodup_namesFrom {writer : UInt32} {put : UInt64} {digests : List Digest}
    (h : digests.length ≤ UInt64.size) : (namesFrom writer put digests).Nodup := by
  induction digests generalizing put with
  | nil => exact .nil
  | cons digest rest ih =>
    rw [List.length_cons] at h
    refine List.nodup_cons.mpr ⟨fun hagain => ?_, ih (by omega)⟩
    obtain ⟨other, number, hnumber, hname⟩ := of_mem_namesFrom hagain
    have hput := congrArg UInt64.toNat (eq_of_temporaryName_eq hname)
    rw [UInt64.toNat_add, UInt64.toNat_add, UInt64.toNat_ofNat'] at hput
    have hone : (1 : UInt64).toNat = 1 := rfl
    have hsize : UInt64.size = 18446744073709551616 := rfl
    have hlt := put.toNat_lt
    omega

theorem length_namesFrom (writer : UInt32) (put : UInt64) (digests : List Digest) :
    (namesFrom writer put digests).length = digests.length := by
  induction digests generalizing put with
  | nil => rfl
  | cons digest rest ih => rw [namesFrom, List.length_cons, ih, List.length_cons]

theorem length_putDigests (calls : List (Bytes × String)) :
    (putDigests calls).length =
      calls.countP fun (data, claim) => decide (claim = (Digest.of data).hex) := by
  rw [putDigests, List.length_filterMap_eq_countP]
  congr 1
  funext ⟨data, claim⟩
  by_cases hclaim : claim = (Digest.of data).hex <;> simp [hclaim]

end LoggedDirectory

namespace ChunkDirectory

/-- Every call of a run starts with a tidy root. -/
theorem tidy_storeAll {storage : Storage ChunkDirectory}
    (htidy : Tidy storage.chunks.root storage.files) (calls : List (Bytes × String)) :
    (storage.storeAll calls).chunks.root = storage.chunks.root ∧
      Tidy storage.chunks.root (storage.storeAll calls).files := by
  induction calls generalizing storage with
  | nil => exact ⟨rfl, htidy⟩
  | cons call rest ih =>
    obtain ⟨data, claim⟩ := call
    obtain ⟨-, hroot, hafter⟩ := outcome_storeChunk data claim htidy
    rw [← hroot] at hafter
    rw [Storage.storeAll_cons, ← hroot]
    exact ih hafter

/-- Calls to keep chunks in a directory whose root, once it is made, holds no temporary file.  Each
    is refused and changes nothing, or keeps the chunk and changes nothing else but that the root is
    made, or fails and changes nothing but that directories on the way to the root are made.  No
    temporary file is left by any of them.  Of fewer than `2 ^ 64` calls no two have used the same
    name for one, or the name of a chunk. -/
theorem store_atomic (directory : ChunkDirectory) (files : FileTree)
    (htidy : Tidy directory.root files) (calls : List (Bytes × String)) :
    let start : Storage ChunkDirectory := ⟨directory, files⟩
    let logged := Storage.storeAll ⟨(⟨directory, []⟩ : LoggedDirectory), files⟩ calls
    (∀ before data claim later, calls = before ++ (data, claim) :: later →
      let storage := start.storeAll before
      let run := storage.storeChunk data claim
      Outcome storage data claim run ∧ storage.chunks.root = directory.root ∧
        ∀ digest writer put, temporaryName digest writer put ∉
          (run.2.files.names? directory.root).getD []) ∧
      logged.unlogged = start.storeAll calls ∧
      logged.chunks.names.length =
        calls.countP (fun (data, claim) => decide (claim = (Digest.of data).hex)) ∧
      (calls.length < UInt64.size → logged.chunks.names.Nodup ∧
        ∀ name ∈ logged.chunks.names, ∀ digest : Digest, name ≠ digest.hex) := by
  intro start logged
  have hnames : logged.chunks.names = LoggedDirectory.namesFrom directory.writer directory.puts
      (LoggedDirectory.putDigests calls) := LoggedDirectory.names_storeAll _ calls
  refine ⟨?_, (LoggedDirectory.storeAll_unlogged _ calls).symm, ?_, fun hfew => ⟨?_, ?_⟩⟩
  · intro before data claim later _ storage run
    have hstart : Tidy start.chunks.root start.files := htidy
    obtain ⟨hroot, hbefore⟩ := tidy_storeAll hstart before
    rw [← hroot] at hbefore
    obtain ⟨houtcome, -, hafter⟩ := outcome_storeChunk data claim hbefore
    refine ⟨houtcome, hroot, ?_⟩
    rw [hroot] at hafter
    exact hafter.not_mem_names
  · rw [hnames, LoggedDirectory.length_namesFrom, LoggedDirectory.length_putDigests]
  · rw [hnames]
    apply LoggedDirectory.nodup_namesFrom
    rw [LoggedDirectory.length_putDigests]
    exact List.countP_le_length.trans (Nat.le_of_lt hfew)
  · intro name hname digest
    rw [hnames] at hname
    obtain ⟨own, number, -, rfl⟩ := LoggedDirectory.of_mem_namesFrom hname
    exact temporaryName_ne_hex own _ _ digest

/-- One chunk that is kept twice. -/
def repeatedCalls : List (Bytes × String) :=
  [([7], (Digest.of [7]).hex), ([7], (Digest.of [7]).hex)]

theorem tidy_sample : Tidy sample.root .empty := by
  apply tidy_of_chunks
  intro name hname
  cases hname

theorem store_atomic_sample :
    Tidy sample.root .empty ∧ repeatedCalls.length < UInt64.size ∧
      let start : Storage ChunkDirectory := ⟨sample, .empty⟩
      let logged := Storage.storeAll ⟨(⟨sample, []⟩ : LoggedDirectory), .empty⟩ repeatedCalls
      Outcome start [7] (Digest.of [7]).hex (start.storeChunk [7] (Digest.of [7]).hex) ∧
        logged.chunks.names.length = 2 ∧ logged.chunks.names.Nodup := by
  obtain ⟨hcalls, -, hlength, hnames⟩ := store_atomic sample .empty tidy_sample repeatedCalls
  refine ⟨tidy_sample, by decide, (hcalls [] _ _ _ rfl).1, ?_, (hnames (by decide)).1⟩
  rw [hlength]
  simp [repeatedCalls]

/-- A root that ends in a dot is not made, but the directory on the way to it is. -/
theorem storeChunk_leaves_directory :
    let root : Path := ⟨["a", "b", "."]⟩
    let run := Storage.storeChunk ⟨(⟨root, 1, 0⟩ : ChunkDirectory), .empty⟩ [7] (Digest.of [7]).hex
    Tidy root .empty ∧ FileTree.empty.exists? root = .ok false ∧ run.1 = .error (.io "<os>") ∧
      FileTree.empty.entry? ["a"] = none ∧ run.2.files.entry? ["a"] = some .directory := by
  intro root run
  have hcreate : FileTree.empty.createDirectories root =
      (.error .notFound, FileTree.empty.put ["a"] .directory) := rfl
  have hnames : (FileTree.empty.put ["a"] .directory).names? root = none := rfl
  have hrun : run = (.error (.io "<os>"), ⟨⟨root, 1, 1⟩, FileTree.empty.put ["a"] .directory⟩) := by
    have hput := Storage.storeChunk_of_true ⟨(⟨root, 1, 0⟩ : ChunkDirectory), .empty⟩ [7]
    simp only [ChunkBackend.put, writeAside, hcreate] at hput
    exact hput
  refine ⟨?_, rfl, congrArg Prod.fst hrun, rfl, ?_⟩
  · apply tidy_of_chunks
    rw [hcreate, hnames]
    exact fun name hname => (List.not_mem_nil hname).elim
  · rw [hrun]
    exact FileTree.entry?_put_self _ _ (by simp)

end ChunkDirectory

end ShardVault

import ShardVault.Proofs.Chunk.Directory

/-!
Chunks in a directory and chunks in memory.  A directory that can be made and holds nothing at
first is a map from digests to bytes (`Mirrors`), so whatever is done, also by somebody who
overwrites and removes chunks unchecked, the answers are those of chunks in memory, and the names
in the directory spell the digests of these (`trace_agrees`).
-/

namespace ShardVault

/-! ## Operations -/

/-- Chunks that somebody can get at without asking the chunk store. -/
class Exposed (κ : Type) where
  /-- Puts bytes under a digest, whatever digest they have. -/
  overwrite : Storage κ → Digest → Bytes → Except FileFault Unit × Storage κ
  /-- Removes what is under a digest, and tells whether there was something. -/
  remove : Storage κ → Digest → Except FileFault Bool × Storage κ

instance : Exposed MemoryChunks where
  overwrite storage digest data :=
    (.ok (), { storage with chunks := storage.chunks.insert digest data })
  remove storage digest :=
    (.ok (storage.chunks.get? digest).isSome,
      { storage with chunks := storage.chunks.erase digest })

instance : Exposed ChunkDirectory where
  overwrite storage digest data :=
    match storage.files.createDirectories storage.chunks.root with
    | (.error fault, files) => (.error fault, { storage with files })
    | (.ok (), files) =>
      match files.write (storage.chunks.path digest) data with
      | .error fault => (.error fault, { storage with files })
      | .ok written => (.ok (), { storage with files := written })
  remove storage digest :=
    match storage.files.remove (storage.chunks.path digest) with
    | .ok rest => (.ok true, { storage with files := rest })
    | .error .notFound => (.ok false, storage)
    | .error fault => (.error fault, storage)

namespace Storage

/-- What is done to chunks, through the chunk store or past it. -/
inductive Operation
  | store (data : Bytes) (claim : String)
  | retrieve (hash : String)
  | contains (hash : String)
  | overwrite (digest : Digest) (data : Bytes)
  | remove (digest : Digest)

/-- What an operation is answered with. -/
inductive Answer
  | stored (result : Except StorageError StoreStatus)
  | retrieved (result : Except StorageError (Option Bytes))
  | found (result : Except StorageError Bool)
  | overwritten (result : Except FileFault Unit)
  | removed (result : Except FileFault Bool)

variable {κ : Type} [ChunkBackend κ] [Exposed κ]

/-- Does an operation: the answer, and what is left. -/
def act (storage : Storage κ) : Operation → Answer × Storage κ
  | .store data claim =>
    let (result, next) := storage.storeChunk data claim
    (.stored result, next)
  | .retrieve hash => (.retrieved (storage.retrieveChunk hash), storage)
  | .contains hash => (.found (storage.containsChunk hash), storage)
  | .overwrite digest data =>
    let (result, next) := Exposed.overwrite storage digest data
    (.overwritten result, next)
  | .remove digest =>
    let (result, next) := Exposed.remove storage digest
    (.removed result, next)

/-- Does one operation after the other: after each, its answer and what is left. -/
def trace (storage : Storage κ) : List Operation → List (Answer × Storage κ)
  | [] => []
  | operation :: rest => act storage operation :: trace (act storage operation).2 rest

end Storage

namespace ChunkDirectory

open FileTree (Ground GoodName HasRoom)
open Storage (Operation Answer act trace)

/-! ## The directory as a map -/

/-- The chunks in a directory are those of a map: under every digest of it there is a file, and
    there is nothing else.  The directory is there as soon as there is a chunk. -/
structure Mirrors (kept : Storage ChunkDirectory) (prepared : FileTree) (place : Place)
    (chunks : MemoryChunks) : Prop where
  room : HasRoom kept.chunks.root maxName
  created : kept.files.createAlong [] kept.chunks.root.segments = (.ok (), prepared)
  ground : Ground prepared kept.chunks.root place
  chunk : ∀ digest : Digest, prepared.entry? (place ++ [digest.hex]) =
    (chunks.get? digest).map .file
  other : ∀ name, (∀ digest : Digest, name ≠ digest.hex) →
    prepared.entry? (place ++ [name]) = none
  settled : ∀ digest, chunks.get? digest ≠ none → prepared = kept.files

variable {directory : ChunkDirectory} {kept : Storage ChunkDirectory} {files prepared : FileTree}
  {place : Place} {chunks : MemoryChunks} {held : Storage MemoryChunks}

/-- A fresh directory holds no chunks. -/
theorem exists_mirrors_of_fresh (h : files.Fresh directory.root maxName) :
    ∃ prepared place, Mirrors ⟨directory, files⟩ prepared place .empty := by
  obtain ⟨prepared, place, hcreate, -, hground, hnone⟩ := h.exists_ground
  obtain ⟨hfault, hmade⟩ := FileTree.of_createDirectories hcreate
  refine ⟨prepared, place, ⟨hfault, h.size_le⟩, hmade, hground, ?_, ?_, ?_⟩
  · intro digest
    rw [hnone, MemoryChunks.get?_empty, Option.map_none]
  · intro name _
    exact hnone name
  · intro digest hsome
    exact absurd (MemoryChunks.get?_empty digest) hsome

theorem Mirrors.createDirectories (h : Mirrors kept prepared place chunks) :
    kept.files.createDirectories kept.chunks.root = (.ok (), prepared) := by
  rw [FileTree.createDirectories, h.room.fault]
  exact h.created

theorem Mirrors.locate_path (h : Mirrors kept prepared place chunks) (digest : Digest) :
    prepared.locate (kept.chunks.path digest) = .ok (place ++ [digest.hex]) :=
  FileTree.locate_child (goodName_hex digest) (h.room.of_le (utf8ByteSize_hex_le digest))
    h.ground.located h.ground.isDirectory

theorem Mirrors.entry?_ne_directory (h : Mirrors kept prepared place chunks) (digest : Digest) :
    prepared.entry? (place ++ [digest.hex]) ≠ some .directory := by
  rw [h.chunk]
  cases chunks.get? digest <;> simp

theorem Mirrors.entry?_temporary (h : Mirrors kept prepared place chunks) (digest : Digest)
    (writer : UInt32) (put : UInt64) :
    prepared.entry? (place ++ [temporaryName digest writer put]) = none := by
  exact h.other _ (temporaryName_ne_hex digest writer put)

/-- The directory is made, or there is nothing at the end of its path and there are no chunks. -/
theorem Mirrors.made_or_empty (h : Mirrors kept prepared place chunks) :
    prepared = kept.files ∨
      kept.files.names? kept.chunks.root = none ∧ ∀ digest, chunks.get? digest = none := by
  have hlocate : kept.files.locate kept.chunks.root =
      kept.chunks.root.segments.foldlM kept.files.follow [] :=
    FileTree.locate_eq_foldlM h.room.fault
  -- what has chunks is made
  have hunmade (hnames : kept.files.names? kept.chunks.root = none) (digest : Digest) :
      chunks.get? digest = none := by
    by_contra hsome
    obtain rfl := h.settled digest hsome
    rw [h.ground.located] at hlocate
    simp only [FileTree.names?, hlocate, h.ground.isDirectory] at hnames
    cases hnames
  rcases FileTree.foldlM_follow_of_createAlong (FileTree.entry?_nil _) h.created with
    hnowhere | ⟨target, htarget, hentry⟩
  · rw [hnowhere] at hlocate
    have hnames : kept.files.names? kept.chunks.root = none := by
      simp only [FileTree.names?, hlocate]
    exact .inr ⟨hnames, hunmade hnames⟩
  · rw [htarget] at hlocate
    rcases hentry with hentry | hentry
    · have hnames : kept.files.names? kept.chunks.root = none := by
        simp only [FileTree.names?, hlocate, hentry]
      exact .inr ⟨hnames, hunmade hnames⟩
    · have hcreated := FileTree.createAlong_of_foldlM htarget hentry
      exact .inl (Prod.mk.inj (h.created.symm.trans hcreated)).2

/-- What is read under a digest is what the map has. -/
theorem Mirrors.read_path (h : Mirrors kept prepared place chunks) (digest : Digest) :
    kept.files.read (kept.chunks.path digest) =
      match chunks.get? digest with
      | some data => .ok data
      | none => .error .notFound := by
  cases hget : chunks.get? digest with
  | some data =>
    obtain rfl := h.settled digest (by simp [hget])
    simp only [FileTree.read, h.locate_path, h.chunk, hget, Option.map_some]
  | none =>
    apply FileTree.read_of_exists?_eq_false
    apply FileTree.exists?_child_of_createAlong (goodName_hex digest)
      (h.room.of_le (utf8ByteSize_hex_le digest)) h.created h.ground.located
    rw [h.chunk, hget, Option.map_none]

theorem Mirrors.exists?_path (h : Mirrors kept prepared place chunks) (digest : Digest) :
    kept.files.exists? (kept.chunks.path digest) = .ok (chunks.get? digest).isSome := by
  cases hget : chunks.get? digest with
  | some data =>
    have hread := h.read_path digest
    rw [hget] at hread
    exact FileTree.exists?_of_read hread
  | none =>
    apply FileTree.exists?_child_of_createAlong (goodName_hex digest)
      (h.room.of_le (utf8ByteSize_hex_le digest)) h.created h.ground.located
    rw [h.chunk, hget, Option.map_none]

/-- The names in the directory are those of the digests in the map. -/
theorem Mirrors.mem_names?_iff (h : Mirrors kept prepared place chunks) (name : String) :
    name ∈ (kept.files.names? kept.chunks.root).getD [] ↔
      ∃ digest, (chunks.get? digest).isSome ∧ name = Digest.hex digest := by
  rcases h.made_or_empty with rfl | ⟨hnames, hnone⟩
  · have hlocate := h.ground.locate_eq h.room.fault
    obtain ⟨names, hnames⟩ := h.ground.exists_names h.room.fault
    rw [hnames, Option.getD_some, FileTree.mem_names?_iff hnames hlocate h.ground.isDirectory]
    constructor
    · intro hsome
      by_contra hdigest
      have hother := h.other name fun digest heq => hdigest ⟨digest, ?_, heq⟩
      · rw [hother] at hsome
        cases hsome
      · rwa [heq, h.chunk, Option.isSome_map] at hsome
    · rintro ⟨digest, hsome, rfl⟩
      rwa [h.chunk, Option.isSome_map]
  · simp [hnames, hnone]

/-! ## Changes -/

/-- A directory that is there mirrors a map if its files are those of the map. -/
theorem mirrors_of_ground (directory : ChunkDirectory) (room : HasRoom directory.root maxName)
    (ground : Ground files directory.root place)
    (chunk : ∀ digest : Digest, files.entry? (place ++ [digest.hex]) =
      (chunks.get? digest).map .file)
    (other : ∀ name, (∀ digest : Digest, name ≠ digest.hex) →
      files.entry? (place ++ [name]) = none) :
    Mirrors ⟨directory, files⟩ files place chunks where
  room := room
  created := FileTree.createAlong_of_foldlM ground.located ground.isDirectory
  ground := ground
  chunk := chunk
  other := other
  settled _ _ := rfl

/-- The place of another name is another one. -/
theorem concat_ne_concat {name name' : String} (h : name ≠ name') (place : Place) :
    place ++ [name] ≠ place ++ [name'] := by
  simpa using h

/-- With a chunk put in, however many puts there were, the directory mirrors the map with it. -/
theorem Mirrors.put (h : Mirrors kept prepared place chunks) (puts : UInt64) (digest : Digest)
    (data : Bytes) :
    let grown := prepared.put (place ++ [digest.hex]) (.file data)
    Mirrors ⟨{ kept.chunks with puts }, grown⟩ grown place (chunks.insert digest data) := by
  intro grown
  have hkeeps : prepared.KeepsDirectories grown :=
    FileTree.keepsDirectories_put (h.entry?_ne_directory digest) data
  refine mirrors_of_ground { kept.chunks with puts } h.room
    (h.ground.of_keepsDirectories hkeeps) ?_ ?_
  · intro own
    by_cases hown : own = digest
    · rw [hown, MemoryChunks.get?_insert_self, FileTree.entry?_put_self _ _ (by simp),
        Option.map_some]
    · have hhex : own.hex ≠ digest.hex := fun heq => hown (Digest.hex_injective heq)
      rw [MemoryChunks.get?_insert_of_ne _ _ hown,
        FileTree.entry?_put_of_ne _ _ (concat_ne_concat hhex place), h.chunk]
  · intro name hname
    rw [FileTree.entry?_put_of_ne _ _ (concat_ne_concat (hname digest) place), h.other name hname]

theorem Mirrors.erase (h : Mirrors kept kept.files place chunks) (digest : Digest) :
    Mirrors ⟨kept.chunks, kept.files.erase (place ++ [digest.hex])⟩
      (kept.files.erase (place ++ [digest.hex])) place (chunks.erase digest) := by
  have hkeeps := FileTree.keepsDirectories_erase (h.entry?_ne_directory digest)
  apply mirrors_of_ground kept.chunks h.room (h.ground.of_keepsDirectories hkeeps)
  · intro own
    by_cases hown : own = digest
    · rw [hown, MemoryChunks.get?_erase_self, FileTree.entry?_erase_self _ (by simp),
        Option.map_none]
    · have hhex : own.hex ≠ digest.hex := fun heq => hown (Digest.hex_injective heq)
      rw [MemoryChunks.get?_erase_of_ne _ hown,
        FileTree.entry?_erase_of_ne _ (concat_ne_concat hhex place), h.chunk]
  · intro name hname
    rw [FileTree.entry?_erase_of_ne _ (concat_ne_concat (hname digest) place), h.other name hname]

/-- Without a chunk that is not there the map is the same. -/
theorem Mirrors.erase_of_none (h : Mirrors kept prepared place chunks) {digest : Digest}
    (hnone : chunks.get? digest = none) : Mirrors kept prepared place (chunks.erase digest) := by
  rwa [MemoryChunks.erase_of_none hnone]

/-! ## Single operations -/

theorem overwrite_memory (held : Storage MemoryChunks) (digest : Digest) (data : Bytes) :
    Exposed.overwrite held digest data =
      (.ok (), { held with chunks := held.chunks.insert digest data }) :=
  rfl

theorem remove_memory (held : Storage MemoryChunks) (digest : Digest) :
    Exposed.remove held digest =
      (.ok (held.chunks.get? digest).isSome, { held with chunks := held.chunks.erase digest }) :=
  rfl

/-- The temporary file of a put leaves no trace. -/
theorem Mirrors.put_eq (h : Mirrors kept prepared place chunks) (digest : Digest) (data : Bytes) :
    ChunkBackend.put kept digest data =
      (.ok (), ⟨{ kept.chunks with puts := kept.chunks.puts + 1 },
        prepared.put (place ++ [digest.hex]) (.file data)⟩) := by
  have htemporary := h.entry?_temporary digest kept.chunks.writer kept.chunks.puts
  rw [ChunkDirectory.put_eq kept h.createDirectories h.ground h.room (by simp [htemporary])
    (h.entry?_ne_directory digest), FileTree.erase_put_of_none htemporary]

theorem Mirrors.storeChunk_eq (h : Mirrors kept prepared place chunks) (data : Bytes) :
    kept.storeChunk data (Digest.of data).hex =
      (.ok .success, ⟨{ kept.chunks with puts := kept.chunks.puts + 1 },
        prepared.put (place ++ [(Digest.of data).hex]) (.file data)⟩) := by
  simp only [Storage.storeChunk_of_true, h.put_eq]

theorem Mirrors.get?_eq (h : Mirrors kept prepared place chunks) (digest : Digest) :
    ChunkBackend.get? kept digest = .ok (chunks.get? digest) := by
  simp only [ChunkBackend.get?, h.read_path]
  cases chunks.get? digest <;> rfl

theorem Mirrors.contains_eq (h : Mirrors kept prepared place chunks) (digest : Digest) :
    ChunkBackend.contains kept digest = .ok (chunks.get? digest).isSome := by
  simp only [ChunkBackend.contains, h.exists?_path]
  rfl

theorem Mirrors.overwrite_eq (h : Mirrors kept prepared place chunks) (digest : Digest)
    (data : Bytes) :
    Exposed.overwrite kept digest data =
      (.ok (), ⟨kept.chunks, prepared.put (place ++ [digest.hex]) (.file data)⟩) := by
  have hwrite := FileTree.write_eq_ok (h.locate_path digest) (h.entry?_ne_directory digest) data
  simp only [Exposed.overwrite, h.createDirectories, hwrite]

theorem Mirrors.remove_of_some (h : Mirrors kept kept.files place chunks) {digest : Digest}
    {data : Bytes} (hget : chunks.get? digest = some data) :
    Exposed.remove kept digest =
      (.ok true, ⟨kept.chunks, kept.files.erase (place ++ [digest.hex])⟩) := by
  have hremove : kept.files.remove (kept.chunks.path digest) =
      .ok (kept.files.erase (place ++ [digest.hex])) := by
    simp only [FileTree.remove, h.locate_path, h.chunk, hget, Option.map_some]
  simp only [Exposed.remove, hremove]

theorem Mirrors.remove_of_none (h : Mirrors kept prepared place chunks) {digest : Digest}
    (hget : chunks.get? digest = none) : Exposed.remove kept digest = (.ok false, kept) := by
  have hread := h.read_path digest
  rw [hget] at hread
  have hremove := FileTree.remove_of_read_eq_notFound hread
  simp only [Exposed.remove, hremove]

/-! ## Runs -/

/-- An operation is answered as in memory, and the directory mirrors the memory after it. -/
theorem Mirrors.act (h : Mirrors kept prepared place held.chunks) (operation : Operation) :
    (act kept operation).1 = (act held operation).1 ∧
      (act kept operation).2.chunks.root = kept.chunks.root ∧
      ∃ prepared, Mirrors (act kept operation).2 prepared place (act held operation).2.chunks := by
  cases operation with
  | store data claim =>
    by_cases hclaim : claim = (Digest.of data).hex
    · subst hclaim
      simp only [Storage.act, h.storeChunk_eq, Storage.storeChunk_memory, if_true, true_and]
      exact ⟨_, h.put _ (Digest.of data) data⟩
    · simp only [Storage.act, Storage.storeChunk_of_false _ _ hclaim, true_and]
      exact ⟨prepared, h⟩
  | retrieve hash =>
    have hsame : kept.retrieveChunk hash = held.retrieveChunk hash :=
      Storage.retrieveChunk_congr h.get?_eq hash
    exact ⟨congrArg Answer.retrieved hsame, rfl, prepared, h⟩
  | contains hash =>
    have hsame : kept.containsChunk hash = held.containsChunk hash :=
      Storage.containsChunk_congr h.contains_eq hash
    exact ⟨congrArg Answer.found hsame, rfl, prepared, h⟩
  | overwrite digest data =>
    simp only [Storage.act, h.overwrite_eq, overwrite_memory, true_and]
    exact ⟨_, h.put kept.chunks.puts digest data⟩
  | remove digest =>
    cases hget : held.chunks.get? digest with
    | some data =>
      obtain rfl := h.settled digest (by simp [hget])
      simp only [Storage.act, h.remove_of_some hget, remove_memory, hget, Option.isSome_some,
        true_and]
      exact ⟨_, h.erase digest⟩
    | none =>
      simp only [Storage.act, h.remove_of_none hget, remove_memory, hget, Option.isSome_none,
        true_and]
      exact ⟨prepared, h.erase_of_none hget⟩

/-- An operation on chunks in a directory, and the same on chunks in memory: the answers are the
    same, the names in the directory are the spellings of the digests in memory, and no others, the
    bytes under them are the same, and there is no temporary file. -/
structure Agree (directory : ChunkDirectory) (onDisk : Answer × Storage ChunkDirectory)
    (inMemory : Answer × Storage MemoryChunks) : Prop where
  answer : onDisk.1 = inMemory.1
  names : ∀ name, name ∈ (onDisk.2.files.names? directory.root).getD [] ↔
    ∃ digest, (inMemory.2.chunks.get? digest).isSome ∧ name = Digest.hex digest
  bytes : ∀ digest data, onDisk.2.files.read (directory.path digest) = .ok data ↔
    inMemory.2.chunks.get? digest = some data
  temporary : ∀ digest writer put, temporaryName digest writer put ∉
    (onDisk.2.files.names? directory.root).getD []

theorem Mirrors.agree {onDisk : Answer × Storage ChunkDirectory}
    {inMemory : Answer × Storage MemoryChunks}
    (h : Mirrors onDisk.2 prepared place inMemory.2.chunks)
    (hroot : onDisk.2.chunks.root = directory.root) (hanswer : onDisk.1 = inMemory.1) :
    Agree directory onDisk inMemory where
  answer := hanswer
  names := hroot ▸ h.mem_names?_iff
  bytes digest data := by
    have hread := h.read_path digest
    rw [path, hroot] at hread
    rw [path, hread]
    cases inMemory.2.chunks.get? digest <;> simp
  temporary digest writer put hmem := by
    rw [← hroot, h.mem_names?_iff] at hmem
    obtain ⟨own, -, heq⟩ := hmem
    exact temporaryName_ne_hex digest writer put own heq

theorem Mirrors.trace (held : Storage MemoryChunks)
    (h : Mirrors kept prepared place held.chunks) (hroot : kept.chunks.root = directory.root)
    (operations : List Operation) :
    List.Forall₂ (Agree directory) (trace kept operations) (trace held operations) := by
  induction operations generalizing kept prepared held with
  | nil => exact .nil
  | cons operation rest ih =>
    obtain ⟨hanswer, hsame, next, hnext⟩ := h.act operation
    have hroot' := hsame.trans hroot
    exact .cons (hnext.agree hroot' hanswer) (ih _ hnext hroot')

/-- Whatever is done to chunks in a directory that can be made and holds nothing at first, every
    answer is the one that chunks in memory give, also after chunks are overwritten or removed
    unchecked.  After each operation the names in the directory are the spellings of the digests in
    memory, with the same bytes, and there is no temporary file. -/
theorem trace_agrees (directory : ChunkDirectory) (files other : FileTree)
    (hfresh : files.Fresh directory.root maxName) (operations : List Operation) :
    List.Forall₂ (Agree directory) (trace ⟨directory, files⟩ operations)
      (trace ⟨MemoryChunks.empty, other⟩ operations) := by
  obtain ⟨prepared, place, hmirrors⟩ := exists_mirrors_of_fresh hfresh
  exact hmirrors.trace ⟨.empty, other⟩ rfl operations

/-- Chunks in a directory right below the top one. -/
def sample : ChunkDirectory :=
  ⟨⟨["chunks"]⟩, 1, 0⟩

/-- Calls with a text that spells no digest, then a chunk that is stored, overwritten and
    removed. -/
def sampleOperations : List Operation :=
  [.retrieve "", .store [1] "", .store [1] (Digest.of [1]).hex, .contains (Digest.of [1]).hex,
    .overwrite (Digest.of [1]) [], .remove (Digest.of [1]), .contains (Digest.of [1]).hex]

theorem trace_agrees_sample :
    FileTree.empty.Fresh sample.root maxName ∧
      (trace ⟨sample, .empty⟩ sampleOperations).map Prod.fst =
        [.retrieved (.error (.ofSpelling (.length 0))), .stored (.ok .failure),
          .stored (.ok .success), .found (.ok true), .overwritten (.ok ()), .removed (.ok true),
          .found (.ok false)] := by
  have hfresh : FileTree.empty.Fresh sample.root maxName := ⟨⟨by rfl, by rfl⟩, by decide⟩
  have hanswers : (trace ⟨sample, .empty⟩ sampleOperations).map Prod.fst =
      (trace ⟨MemoryChunks.empty, .empty⟩ sampleOperations).map Prod.fst := by
    rw [← List.forall₂_eq_eq_eq, List.forall₂_map_left_iff, List.forall₂_map_right_iff]
    exact (trace_agrees sample .empty .empty hfresh sampleOperations).imp fun _ _ h => h.answer
  have hclaim : "" ≠ (Digest.of [1]).hex := by
    intro heq
    have hsize := (Digest.of [1]).utf8ByteSize_hex
    rw [← heq] at hsize
    cases hsize
  have hspelling : Digest.parse "" = .error (.length 0) := rfl
  refine ⟨hfresh, hanswers.trans ?_⟩
  simp [sampleOperations, trace, act, Storage.storeChunk_memory, hclaim, overwrite_memory,
    remove_memory, Storage.retrieveChunk, hspelling, Storage.containsChunk, Digest.parse_hex,
    ChunkBackend.contains]

/-- A put fails if the directory cannot be made. -/
theorem put_of_not_made {fault : FileFault}
    (h : (kept.files.createDirectories kept.chunks.root).1 = .error fault) (digest : Digest)
    (data : Bytes) : (ChunkBackend.put kept digest data).1 = .error (.ofFile fault) := by
  cases hcreate : kept.files.createDirectories kept.chunks.root with
  | mk result made =>
    rw [hcreate] at h
    obtain rfl : result = .error fault := h
    simp only [ChunkBackend.put, writeAside, hcreate]
    rfl

/-- A put fails if the path of the directory leaves no room for a temporary file. -/
theorem put_of_no_room (hcreated : (kept.files.createDirectories kept.chunks.root).1 = .ok ())
    (digest : Digest)
    (hsize : FileTree.maxPathSize < kept.chunks.root.childSize
      (temporaryName digest kept.chunks.writer kept.chunks.puts).utf8ByteSize) (data : Bytes) :
    (ChunkBackend.put kept digest data).1 = .error (.ofFile .nameTooLong) := by
  cases hcreate : kept.files.createDirectories kept.chunks.root with
  | mk result made =>
    rw [hcreate] at hcreated
    obtain rfl : result = .ok () := hcreated
    have hlocate : made.locate (kept.chunks.temporaryPath digest) = .error .nameTooLong :=
      FileTree.locate_child_of_no_room (goodName_temporaryName _ _ _)
        (FileTree.of_createDirectories hcreate).1 hsize
    simp only [ChunkBackend.put, writeAside, hcreate, FileTree.write, hlocate]
    rfl

/-- A chunk that cannot be put is refused, though chunks in memory take it. -/
theorem not_agree_of_put_error {cause : StorageError} {data : Bytes}
    (h : (ChunkBackend.put kept (Digest.of data) data).1 = .error cause)
    (held : Storage MemoryChunks) :
    ¬ List.Forall₂ (Agree directory) (trace kept [.store data (Digest.of data).hex])
      (trace held [.store data (Digest.of data).hex]) := by
  intro hagree
  have hanswer := (List.forall₂_cons.mp hagree).1.answer
  simp only [act, Storage.storeChunk_of_true] at hanswer
  generalize ChunkBackend.put kept (Digest.of data) data = outcome at h hanswer
  obtain ⟨result, after⟩ := outcome
  obtain rfl : result = .error cause := h
  cases hanswer

/-- A chunk that chunks in memory take is refused below a root that is absent and cannot be made,
    and below one that can be made, but whose path leaves no room for a temporary file. -/
theorem trace_disagrees :
    let dotted : ChunkDirectory := ⟨⟨["a", "b", "."]⟩, 1, 0⟩
    let long : ChunkDirectory := ⟨FileTree.roundabout 2012, 1, 0⟩
    let operations : List Operation := [.store [7] (Digest.of [7]).hex]
    (FileTree.empty.exists? dotted.root = .ok false ∧
      ¬ List.Forall₂ (Agree dotted) (trace ⟨dotted, .empty⟩ operations)
        (trace ⟨MemoryChunks.empty, .empty⟩ operations)) ∧
    FileTree.empty.exists? long.root = .ok false ∧
      ¬ List.Forall₂ (Agree long) (trace ⟨long, .empty⟩ operations)
        (trace ⟨MemoryChunks.empty, .empty⟩ operations) := by
  intro dotted long operations
  obtain ⟨habsent, hbare⟩ :=
    FileTree.bare_roundabout (show 2 * 2012 + 4 ≤ FileTree.maxPathSize by decide)
  have hroot : long.root = FileTree.roundabout 2012 := rfl
  clear_value long
  rw [← hroot] at habsent hbare
  have hsize : FileTree.maxPathSize <
      long.root.childSize (temporaryName (Digest.of [7]) long.writer long.puts).utf8ByteSize := by
    have hending : ".tmp".utf8ByteSize = 4 := rfl
    rw [hroot, FileTree.childSize_roundabout, FileTree.maxPathSize]
    simp only [temporaryName, String.utf8ByteSize_append, Digest.utf8ByteSize_hex]
    omega
  have hput : (ChunkBackend.put (⟨long, .empty⟩ : Storage ChunkDirectory) (Digest.of [7]) [7]).1 =
      .error (.ofFile .nameTooLong) :=
    put_of_no_room hbare.created (Digest.of [7]) hsize [7]
  exact ⟨⟨rfl, not_agree_of_put_error (put_of_not_made rfl _ _) _⟩, habsent,
    not_agree_of_put_error hput _⟩

end ChunkDirectory

end ShardVault

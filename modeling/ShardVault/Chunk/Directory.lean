import ShardVault.Chunk.Backend

/-!
Chunks in a directory: one file for a chunk, named by the digest's spelling.  A chunk is written
to a temporary file, which then takes the chunk's name, so no file under a chunk's name is ever
half written; a temporary file whose chunk could not be kept is removed.
-/

namespace ShardVault

/-- A directory of chunks. -/
structure ChunkDirectory where
  root : Path
  /-- Tells the temporary files of this writer from those of others. -/
  writer : UInt32
  /-- How many puts there were; tells the temporary files of this writer apart. -/
  puts : UInt64
deriving DecidableEq, Repr

namespace ChunkDirectory

/-- The path of a chunk. -/
def path (directory : ChunkDirectory) (digest : Digest) : Path :=
  directory.root.child digest.hex

/-- The name of the temporary file of a put. -/
def temporaryName (digest : Digest) (writer : UInt32) (put : UInt64) : String :=
  "." ++ digest.hex ++ "." ++ Decimal.text writer.toNat ++ "." ++ Decimal.text put.toNat ++
    ".tmp"

/-- The path of the temporary file of the next put. -/
def temporaryPath (directory : ChunkDirectory) (digest : Digest) : Path :=
  directory.root.child (temporaryName digest directory.writer directory.puts)

/-- The files without a temporary file, if it is there. -/
def discard (files : FileTree) (temporary : Path) : FileTree :=
  match files.remove temporary with
  | .ok rest => rest
  | .error _ => files

/-- Writes a temporary file and gives it the target's name. -/
def writeAside (files : FileTree) (root temporary target : Path) (data : Bytes) :
    Except FileFault Unit × FileTree :=
  match files.createDirectories root with
  | (.error fault, files) => (.error fault, files)
  | (.ok (), files) =>
    match files.write temporary data with
    | .error fault => (.error fault, discard files temporary)
    | .ok written =>
      match written.rename temporary target with
      | .error fault => (.error fault, discard written temporary)
      | .ok renamed => (.ok (), renamed)

end ChunkDirectory

instance : ChunkBackend ChunkDirectory where
  put storage digest data :=
    let directory := storage.chunks
    let (result, files) := ChunkDirectory.writeAside storage.files directory.root
      (directory.temporaryPath digest) (directory.path digest) data
    (result.mapError StorageError.ofFile,
      ⟨{ directory with puts := directory.puts + 1 }, files⟩)
  get? storage digest :=
    match storage.files.read (storage.chunks.path digest) with
    | .ok data => .ok (some data)
    | .error .notFound => .ok none
    | .error fault => .error (.ofFile fault)
  contains storage digest :=
    (storage.files.exists? (storage.chunks.path digest)).mapError StorageError.ofFile
  putTime _ := 0
  getTime _ := 0

end ShardVault

import ShardVault.Error
import ShardVault.FileTree
import ShardVault.Record

/-!
The documents of the files: for every file one document in a directory, named by the file's
digest.  A document is written once.  It is written to a temporary file, which then takes the
document's name, so no document is ever half written.
-/

namespace ShardVault

/-- A directory of documents. -/
structure Documents where
  root : Path
deriving DecidableEq, Repr

namespace Documents

/-- The path of the document of a file. -/
def path (documents : Documents) (fileHash : String) : Path :=
  documents.root.child (fileHash ++ ".json")

/-- The path of the temporary file of a document. -/
def temporaryPath (documents : Documents) (fileHash : String) : Path :=
  documents.root.child (fileHash ++ ".json.tmp")

/-- Writes a document where there is none. -/
def write (documents : Documents) (files : FileTree) (record : FileRecord) :
    Except FileFault Unit × FileTree :=
  match files.createDirectories documents.root with
  | (.error fault, files) => (.error fault, files)
  | (.ok (), files) =>
    let temporary := documents.temporaryPath record.fileHash
    match files.write temporary (Bytes.ofText record.document) with
    | .error fault => (.error fault, files)
    | .ok written =>
      match written.rename temporary (documents.path record.fileHash) with
      | .error fault => (.error fault, written)
      | .ok renamed => (.ok (), renamed)

/-- Makes sure that a file has a document: its path, and whether it was there before. -/
def persist (documents : Documents) (files : FileTree) (record : FileRecord) :
    Except StorageError (Path × Bool) × FileTree :=
  let path := documents.path record.fileHash
  match files.exists? path with
  | .error fault => (.error (.ofFile fault), files)
  | .ok true => (.ok (path, true), files)
  | .ok false =>
    let (result, files) := documents.write files record
    match result with
    | .error fault => (.error (.ofFile fault), files)
    | .ok () => (.ok (path, false), files)

/-- The record in the document of a file. -/
def load (documents : Documents) (files : FileTree) (fileHash : String) :
    Except StorageError FileRecord :=
  match files.readText (documents.path fileHash) with
  | .error .notFound => .error (.fileNotFound fileHash)
  | .error fault => .error (.ofFile fault)
  | .ok text =>
    match FileRecord.ofDocument? fileHash text with
    | some record => .ok record
    | none => .error (.serialization "malformed document")

end Documents

end ShardVault

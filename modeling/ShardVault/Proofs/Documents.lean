import ShardVault.Documents
import ShardVault.Proofs.Bytes
import ShardVault.Proofs.Digest
import ShardVault.Proofs.FileTree.Change
import ShardVault.Proofs.Record

/-!
The documents as a map.  In a directory that can be made and holds no documents at first, the
documents are a map from digests to texts to which entries are only added: a record that is new is
added to it (`Holds.persist_new`), one that is not changes nothing (`Holds.persist_old`), and a
record is loaded as it was first given (`Holds.load`).  Where others may have left files, a record
is persisted if its own document is not there (`Vacant.persist`).
-/

namespace ShardVault.Documents

open FileTree (HasRoom GoodName)

/-! ## Names -/

/-- The bytes of the name of a document. -/
def documentName : Nat := 69

/-- The bytes of the name of a temporary file, the longest that a file of a document has. -/
def maxName : Nat := 73

theorem goodName_of_digest (digest : Digest) {ending : String} (hslash : '/' ∉ ending.toList)
    (hnul : '\x00' ∉ ending.toList) (hsize : ending.utf8ByteSize ≤ 100) :
    GoodName (digest.hex ++ ending) where
  no_slash := by
    rw [String.toList_append, List.mem_append, not_or]
    exact ⟨Digest.not_mem_hex (by decide) digest, hslash⟩
  no_nul := by
    rw [String.toList_append, List.mem_append, not_or]
    exact ⟨Digest.not_mem_hex (by decide) digest, hnul⟩
  two_lt_size := by
    rw [String.utf8ByteSize_append, Digest.utf8ByteSize_hex]
    omega
  size_le := by
    rw [String.utf8ByteSize_append, Digest.utf8ByteSize_hex, FileTree.maxNameSize]
    omega

theorem goodName_document (digest : Digest) : GoodName (digest.hex ++ ".json") :=
  goodName_of_digest digest (by decide) (by decide) (by decide)

theorem goodName_temporary (digest : Digest) : GoodName (digest.hex ++ ".json.tmp") :=
  goodName_of_digest digest (by decide) (by decide) (by decide)

theorem utf8ByteSize_document (digest : Digest) :
    (digest.hex ++ ".json").utf8ByteSize = documentName := by
  rw [String.utf8ByteSize_append, Digest.utf8ByteSize_hex]
  rfl

theorem utf8ByteSize_temporary (digest : Digest) :
    (digest.hex ++ ".json.tmp").utf8ByteSize = maxName := by
  rw [String.utf8ByteSize_append, Digest.utf8ByteSize_hex]
  rfl

theorem document_ne_temporary (fileHash other : String) :
    fileHash ++ ".json" ≠ other ++ ".json.tmp" := by
  intro h
  have hlast := congrArg (fun name : String => name.toList.getLast?) h
  simp [String.toList_append] at hlast

/-! ## The directory -/

/-- Making the directory of the documents gives a tree in which it is at a place. -/
structure Opens (documents : Documents) (files prepared : FileTree) (directory : Place) :
    Prop where
  room : HasRoom documents.root maxName
  created : files.createAlong [] documents.root.segments = (.ok (), prepared)
  located : documents.root.segments.foldlM prepared.follow [] = .ok directory
  isDirectory : prepared.entry? directory = some .directory

/-- The documents are those of a map: for every digest with a text there is a file of it, and there
    is no other file of a document.  The directory is there as soon as there is a document. -/
structure Holds (documents : Documents) (files prepared : FileTree) (directory : Place)
    (texts : Digest → Option String) : Prop where
  opens : documents.Opens files prepared directory
  document : ∀ digest : Digest, prepared.entry? (directory ++ [digest.hex ++ ".json"]) =
    (texts digest).map fun text => .file (Bytes.ofText text)
  temporary : ∀ digest : Digest, prepared.entry? (directory ++ [digest.hex ++ ".json.tmp"]) = none
  settled : ∀ digest, texts digest ≠ none → prepared = files

variable {documents : Documents} {files prepared grown : FileTree} {directory : Place}
  {texts : Digest → Option String}

theorem Opens.createDirectories (h : documents.Opens files prepared directory) :
    files.createDirectories documents.root = (.ok (), prepared) := by
  rw [FileTree.createDirectories, h.room.fault]
  exact h.created

/-- What keeps the directories keeps this one. -/
theorem Opens.of_keepsDirectories (h : documents.Opens files prepared directory)
    (hkeeps : prepared.KeepsDirectories grown) : documents.Opens grown grown directory where
  room := h.room
  created := FileTree.createAlong_of_foldlM
    (FileTree.foldlM_follow_of_keepsDirectories hkeeps h.located) (hkeeps _ h.isDirectory)
  located := FileTree.foldlM_follow_of_keepsDirectories hkeeps h.located
  isDirectory := hkeeps _ h.isDirectory

theorem Opens.locate_path (h : documents.Opens files prepared directory)
    (hkeeps : prepared.KeepsDirectories grown) (digest : Digest) :
    grown.locate (documents.path digest.hex) = .ok (directory ++ [digest.hex ++ ".json"]) := by
  have hgrown := h.of_keepsDirectories hkeeps
  have hsize : (digest.hex ++ ".json").utf8ByteSize ≤ maxName := by
    rw [utf8ByteSize_document]
    decide
  exact FileTree.locate_child (goodName_document digest) (h.room.of_le hsize)
    hgrown.located hgrown.isDirectory

theorem Opens.locate_temporaryPath (h : documents.Opens files prepared directory)
    (hkeeps : prepared.KeepsDirectories grown) (digest : Digest) :
    grown.locate (documents.temporaryPath digest.hex) =
      .ok (directory ++ [digest.hex ++ ".json.tmp"]) := by
  have hgrown := h.of_keepsDirectories hkeeps
  exact FileTree.locate_child (goodName_temporary digest)
    (h.room.of_le (Nat.le_of_eq (utf8ByteSize_temporary digest)))
    hgrown.located hgrown.isDirectory

/-- A directory that can be made is opened by making it. -/
theorem opens_of_createDirectories
    (hsize : documents.root.childSize maxName ≤ FileTree.maxPathSize)
    (hcreated : files.createDirectories documents.root = (.ok (), prepared)) :
    ∃ directory, documents.Opens files prepared directory := by
  obtain ⟨hfault, hmade⟩ := FileTree.of_createDirectories hcreated
  obtain ⟨-, directory, hground, -⟩ := FileTree.ground_of_createDirectories hcreated
  exact ⟨directory, ⟨hfault, hsize⟩, hmade, hground.located, hground.isDirectory⟩

/-- A fresh directory holds no documents. -/
theorem exists_holds_of_fresh (h : files.Fresh documents.root maxName) :
    ∃ prepared directory, documents.Holds files prepared directory fun _ => none := by
  obtain ⟨prepared, directory, hcreate, -, hground, hnone⟩ := h.exists_ground
  obtain ⟨hfault, hmade⟩ := FileTree.of_createDirectories hcreate
  refine ⟨prepared, directory, ?_, ?_, ?_, ?_⟩
  · exact ⟨⟨hfault, h.size_le⟩, hmade, hground.located, hground.isDirectory⟩
  · intro digest
    exact hnone (digest.hex ++ ".json")
  · intro digest
    exact hnone (digest.hex ++ ".json.tmp")
  · intro digest hsome
    exact absurd rfl hsome

/-! ## Persisting and loading -/

/-- A write makes a temporary file, and then the document in its place. -/
theorem Opens.write_eq (h : documents.Opens files prepared directory) {record : FileRecord}
    {digest : Digest} (hrecord : record.fileHash = digest.hex)
    (htemporary : prepared.entry? (directory ++ [digest.hex ++ ".json.tmp"]) ≠ some .directory)
    (hdocument : prepared.entry? (directory ++ [digest.hex ++ ".json"]) ≠ some .directory) :
    let text := Entry.file (Bytes.ofText record.document)
    let temporary := directory ++ [digest.hex ++ ".json.tmp"]
    documents.write files record =
      (.ok (), ((prepared.put temporary text).erase temporary).put
        (directory ++ [digest.hex ++ ".json"]) text) := by
  intro text temporary
  have hne : directory ++ [digest.hex ++ ".json"] ≠ temporary := by
    simp [temporary, document_ne_temporary digest.hex digest.hex]
  obtain ⟨hwrite, hrename⟩ := FileTree.write_rename_eq_ok
    (fun hkeeps => h.locate_temporaryPath hkeeps digest) (fun hkeeps => h.locate_path hkeeps digest)
    htemporary hdocument hne (Bytes.ofText record.document)
  simp only [Documents.write, h.createDirectories, hrecord, hwrite, hrename]
  rfl

/-- A write makes the document, in place of a file if there is one, leaves no temporary file, and
    changes nothing else. -/
theorem Opens.write (h : documents.Opens files prepared directory) {record : FileRecord}
    {digest : Digest} (hrecord : record.fileHash = digest.hex)
    (htemporary : prepared.entry? (directory ++ [digest.hex ++ ".json.tmp"]) ≠ some .directory)
    (hdocument : prepared.entry? (directory ++ [digest.hex ++ ".json"]) ≠ some .directory) :
    ∃ written, documents.write files record = (.ok (), written) ∧
      written.entry? (directory ++ [digest.hex ++ ".json"]) =
        some (.file (Bytes.ofText record.document)) ∧
      written.entry? (directory ++ [digest.hex ++ ".json.tmp"]) = none ∧
      ∀ place ≠ directory ++ [digest.hex ++ ".json"],
        place ≠ directory ++ [digest.hex ++ ".json.tmp"] →
          written.entry? place = prepared.entry? place := by
  let text := Entry.file (Bytes.ofText record.document)
  let temporary := directory ++ [digest.hex ++ ".json.tmp"]
  let place := directory ++ [digest.hex ++ ".json"]
  let rest := (prepared.put temporary text).erase temporary
  have hne : place ≠ temporary := by
    simp [place, temporary, document_ne_temporary digest.hex digest.hex]
  refine ⟨rest.put place text, h.write_eq hrecord htemporary hdocument, ?_, ?_, ?_⟩
  · exact FileTree.entry?_put_self rest _ (by simp [place])
  · rw [FileTree.entry?_put_of_ne rest _ hne.symm,
      FileTree.entry?_erase_self _ (by simp [temporary])]
  · intro other hother hother'
    rw [FileTree.entry?_put_of_ne rest _ hother, FileTree.entry?_erase_of_ne _ hother',
      FileTree.entry?_put_of_ne prepared _ hother']

/-- Where there is no document once the directory is made, there is none before. -/
theorem Opens.exists?_path (h : documents.Opens files prepared directory) {digest : Digest}
    (hnone : prepared.entry? (directory ++ [digest.hex ++ ".json"]) = none) :
    files.exists? (documents.path digest.hex) = .ok false := by
  have hsize : (digest.hex ++ ".json").utf8ByteSize ≤ maxName := by
    rw [utf8ByteSize_document]
    decide
  exact FileTree.exists?_child_of_createAlong (goodName_document digest)
    (h.room.of_le hsize) h.created h.located hnone

theorem Holds.exists?_path (h : documents.Holds files prepared directory texts) {digest : Digest}
    (hnone : texts digest = none) : files.exists? (documents.path digest.hex) = .ok false := by
  apply h.opens.exists?_path
  rw [h.document, hnone, Option.map_none]

/-- The record of a file without a document gets one, and nothing else is written. -/
theorem Holds.persist_eq (h : documents.Holds files prepared directory texts) {digest : Digest}
    (hnone : texts digest = none) {record : FileRecord} (hrecord : record.fileHash = digest.hex) :
    documents.persist files record =
      (.ok (documents.path record.fileHash, false),
        prepared.put (directory ++ [digest.hex ++ ".json"])
          (.file (Bytes.ofText record.document))) := by
  have hdocument : prepared.entry? (directory ++ [digest.hex ++ ".json"]) = none := by
    rw [h.document, hnone, Option.map_none]
  have hwrite := h.opens.write_eq hrecord (by simp [h.temporary digest]) (by simp [hdocument])
  simp only [persist, hrecord, h.exists?_path hnone, hwrite,
    FileTree.erase_put_of_none (h.temporary digest)]

/-- With the document of a file that had none, the other documents stay. -/
theorem Holds.put (h : documents.Holds files prepared directory texts) {digest : Digest}
    (hnone : texts digest = none) (text : String) :
    let grown := prepared.put (directory ++ [digest.hex ++ ".json"]) (.file (Bytes.ofText text))
    documents.Holds grown grown directory
      (fun other => if other = digest then some text else texts other) := by
  intro grown
  have hdocument : prepared.entry? (directory ++ [digest.hex ++ ".json"]) = none := by
    rw [h.document, hnone, Option.map_none]
  have hkeeps : prepared.KeepsDirectories grown :=
    FileTree.keepsDirectories_put (by simp [hdocument]) _
  refine ⟨h.opens.of_keepsDirectories hkeeps, ?_, ?_, fun _ _ => rfl⟩
  · intro other
    by_cases hother : other = digest
    · subst hother
      rw [FileTree.entry?_put_self prepared _ (by simp), if_pos rfl, Option.map_some]
    · rw [FileTree.entry?_put_of_ne prepared _ (by simpa [String.append_left_inj] using hother),
        h.document, if_neg hother]
  · intro other
    rw [FileTree.entry?_put_of_ne prepared _ (by simpa using
      (document_ne_temporary digest.hex other.hex).symm), h.temporary]

/-- The record of a file without a document gets one, and the other documents stay. -/
theorem Holds.persist_new (h : documents.Holds files prepared directory texts) {digest : Digest}
    (hnone : texts digest = none) (record : FileRecord) (hrecord : record.fileHash = digest.hex) :
    ∃ written, documents.persist files record =
        (.ok (documents.path record.fileHash, false), written) ∧
      documents.Holds written written directory
        (fun other => if other = digest then some record.document else texts other) :=
  ⟨_, h.persist_eq hnone hrecord, h.put hnone record.document⟩

/-- A file that has a document keeps it, and nothing is written. -/
theorem Holds.persist_old (h : documents.Holds files prepared directory texts) {digest : Digest}
    {text : String} (htext : texts digest = some text) {record : FileRecord}
    (hrecord : record.fileHash = digest.hex) :
    documents.persist files record = (.ok (documents.path record.fileHash, true), files) := by
  obtain rfl := h.settled digest (by simp [htext])
  have hlocate := h.opens.locate_path (.refl _) digest
  have hexists : prepared.exists? (documents.path digest.hex) = .ok true := by
    simp only [FileTree.exists?, hlocate, h.document, htext, Option.map_some, Option.isSome_some]
  simp only [persist, hrecord, hexists]

/-- The record of a document that is read is loaded. -/
theorem load_of_read {record : FileRecord} {digest : Digest}
    (hrecord : record.fileHash = digest.hex)
    (h : files.read (documents.path digest.hex) = .ok (Bytes.ofText record.document)) :
    documents.load files digest.hex = .ok record := by
  have hdocument := record.ofDocument?_document
  rw [hrecord] at hdocument
  simp only [load, FileTree.readText, h, Bytes.text?_ofText, hdocument]

/-- A file with the document of a record has that record. -/
theorem Holds.load (h : documents.Holds files prepared directory texts) {record : FileRecord}
    {digest : Digest} (hrecord : record.fileHash = digest.hex)
    (htext : texts digest = some record.document) :
    documents.load files digest.hex = .ok record := by
  obtain rfl := h.settled digest (by simp [htext])
  have hlocate := h.opens.locate_path (.refl _) digest
  apply load_of_read hrecord
  simp only [FileTree.read, hlocate, h.document, htext, Option.map_some]

/-- A file without a document is not found. -/
theorem Holds.load_none (h : documents.Holds files prepared directory texts) {digest : Digest}
    (hnone : texts digest = none) :
    documents.load files digest.hex = .error (.fileNotFound digest.hex) := by
  have hread := FileTree.read_of_exists?_eq_false (h.exists?_path hnone)
  simp only [Documents.load, FileTree.readText, hread]

/-! ## One document -/

/-- The directory of the documents can be made, and when it is there is no document of the file,
    and no directory in the place of its temporary file. -/
structure Vacant (documents : Documents) (files : FileTree) (fileHash : String) : Prop where
  size_le : documents.root.childSize maxName ≤ FileTree.maxPathSize
  created : (files.createDirectories documents.root).1 = .ok ()
  document : (files.createDirectories documents.root).2.exists? (documents.path fileHash) =
    .ok false
  temporary : (files.createDirectories documents.root).2.read (documents.temporaryPath fileHash) ≠
    .error .isADirectory

/-- Where a file has no document a record is persisted, and its document is what is read then. -/
theorem Vacant.persist_read {digest : Digest} (h : documents.Vacant files digest.hex)
    (record : FileRecord) (hrecord : record.fileHash = digest.hex) :
    ∃ written, documents.persist files record =
        (.ok (documents.path record.fileHash, false), written) ∧
      written.read (documents.path digest.hex) = .ok (Bytes.ofText record.document) := by
  obtain ⟨hsize, hcreated, hdocument, htemporary⟩ := h
  cases hrun : files.createDirectories documents.root with
  | mk result prepared =>
    rw [hrun] at hcreated hdocument htemporary
    cases hcreated
    obtain ⟨directory, hopens⟩ := opens_of_createDirectories hsize hrun
    have hnone : prepared.entry? (directory ++ [digest.hex ++ ".json"]) = none := by
      simpa [FileTree.exists?, hopens.locate_path (.refl prepared)] using hdocument
    have hfile : prepared.entry? (directory ++ [digest.hex ++ ".json.tmp"]) ≠
        some .directory := by
      intro hdirectory
      simp [FileTree.read, hopens.locate_temporaryPath (.refl prepared), hdirectory] at htemporary
    obtain ⟨written, hwrite, hself, -, hothers⟩ :=
      hopens.write hrecord hfile (by simp [hnone])
    have hexists := hopens.exists?_path hnone
    have hkeeps : prepared.KeepsDirectories written := by
      intro place hentry
      rw [hothers, hentry]
      · rintro rfl
        rw [hnone] at hentry
        cases hentry
      · rintro rfl
        exact hfile hentry
    refine ⟨written, ?_, ?_⟩
    · simp only [Documents.persist, hrecord, hexists, hwrite]
    · simp only [FileTree.read, hopens.locate_path hkeeps, hself]

/-- Where a file has no document a record is persisted, and from then on it is there. -/
theorem Vacant.persist {digest : Digest} (h : documents.Vacant files digest.hex)
    {record : FileRecord} (hrecord : record.fileHash = digest.hex) :
    ∃ written, documents.persist files record =
        (.ok (documents.path record.fileHash, false), written) ∧
      documents.persist written record =
        (.ok (documents.path record.fileHash, true), written) := by
  obtain ⟨written, hpersist, hread⟩ := h.persist_read record hrecord
  refine ⟨written, hpersist, ?_⟩
  simp only [Documents.persist, hrecord, FileTree.exists?_of_read hread]

/-- A directory in the place of its temporary file keeps a record from being persisted. -/
theorem Opens.persist_of_blocked (h : documents.Opens files prepared directory)
    {record : FileRecord} {digest : Digest} (hrecord : record.fileHash = digest.hex)
    (hdocument : prepared.entry? (directory ++ [digest.hex ++ ".json"]) = none)
    (htemporary :
      prepared.entry? (directory ++ [digest.hex ++ ".json.tmp"]) = some .directory) :
    documents.persist files record = (.error (.ofFile .isADirectory), prepared) := by
  have hlocate := h.locate_temporaryPath (.refl prepared) digest
  have hwrite : documents.write files record = (.error .isADirectory, prepared) := by
    simp only [Documents.write, h.createDirectories, hrecord, FileTree.write, hlocate, htemporary]
  simp only [Documents.persist, hrecord, h.exists?_path hdocument, hwrite]

/-- There is no document in a fresh directory. -/
theorem vacant_of_fresh (h : files.Fresh documents.root maxName) (digest : Digest) :
    documents.Vacant files digest.hex := by
  obtain ⟨prepared, directory, hholds⟩ := exists_holds_of_fresh h
  have hcreate := hholds.opens.createDirectories
  have hdocument : prepared.entry? (directory ++ [digest.hex ++ ".json"]) = none :=
    hholds.document digest
  refine ⟨h.size_le, h.created, ?_, ?_⟩
  · simp [hcreate, FileTree.exists?, hholds.opens.locate_path (.refl prepared), hdocument]
  · simp [hcreate, FileTree.read, hholds.opens.locate_temporaryPath (.refl prepared),
      hholds.temporary]

/-! ## A directory at the top -/

/-- Documents in a directory right below the top one. -/
def sample : Documents :=
  ⟨⟨["metadata"]⟩⟩

theorem fresh_sample : FileTree.empty.Fresh sample.root maxName where
  size_le := by decide
  created := by rfl
  empty := by rfl

end ShardVault.Documents

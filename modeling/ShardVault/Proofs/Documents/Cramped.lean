import ShardVault.Proofs.Documents
import ShardVault.Proofs.FileTree.Making

/-!
Documents that cannot be written.  The path of a bare directory can be too long for the names of
temporary files, and then every record is refused, always in the same way (`persist_of_not_roomy`);
nor is there a new document in a directory that cannot be made (`persist_ne_new`).
-/

namespace ShardVault.Documents

open FileTree (maxPathSize)

variable {documents : Documents} {files : FileTree} {digest : Digest} {record : FileRecord}

/-- The paths of temporary files are not too long. -/
def Roomy (documents : Documents) : Prop :=
  documents.root.childSize maxName ≤ maxPathSize

instance : Decidable documents.Roomy :=
  inferInstanceAs (Decidable (_ ≤ _))

/-- What a record leaves that is refused for want of room: the directory is made, unless the path of
    the document is too long itself. -/
def refuse (documents : Documents) (files : FileTree) : FileTree :=
  if maxPathSize < documents.root.childSize documentName then files
  else (files.createDirectories documents.root).2

theorem bare_refuse (h : files.Bare documents.root) :
    (documents.refuse files).Bare documents.root := by
  have hagain := FileTree.createDirectories_again files documents.root
  unfold refuse
  split
  · exact h
  · exact ⟨by rw [hagain, h.created], by rw [hagain, h.empty]⟩

theorem refuse_refuse (files : FileTree) :
    documents.refuse (documents.refuse files) = documents.refuse files := by
  unfold refuse
  split
  · rfl
  · rw [FileTree.createDirectories_again]

/-- Without room every record is refused, and nothing but the directory is made. -/
theorem persist_of_not_roomy (h : files.Bare documents.root) (hroomy : ¬ documents.Roomy)
    (hrecord : record.fileHash = digest.hex) :
    documents.persist files record = (.error (.ofFile .nameTooLong), documents.refuse files) := by
  obtain ⟨prepared, directory, hcreate, -, hground, hnone⟩ := h.exists_ground
  obtain ⟨hfault, hmade⟩ := FileTree.of_createDirectories hcreate
  have htemporary : prepared.locate (documents.temporaryPath digest.hex) = .error .nameTooLong := by
    apply FileTree.locate_child_of_no_room (goodName_temporary digest) hfault
    rw [utf8ByteSize_temporary]
    exact Nat.lt_of_not_le hroomy
  have hwrite : documents.write files record = (.error .nameTooLong, prepared) := by
    simp only [write, hcreate, hrecord, FileTree.write, htemporary]
  rw [refuse, hcreate]
  split
  · rename_i hlong
    rw [← utf8ByteSize_document digest] at hlong
    have hlocate : files.locate (documents.path digest.hex) = .error .nameTooLong :=
      FileTree.locate_child_of_no_room (goodName_document digest) hfault hlong
    simp only [persist, hrecord, FileTree.exists?, hlocate]
  · rename_i hshort
    rw [← utf8ByteSize_document digest] at hshort
    have hexists : files.exists? (documents.path digest.hex) = .ok false :=
      FileTree.exists?_child_of_createAlong (goodName_document digest)
        ⟨hfault, Nat.le_of_not_lt hshort⟩ hmade hground.located (hnone _)
    simp only [persist, hrecord, hexists, hwrite]

/-- In a directory that cannot be made no record is persisted as new. -/
theorem persist_ne_new {fault : FileFault}
    (h : (files.createDirectories documents.root).1 = .error fault) (record : FileRecord)
    (path : Path) : (documents.persist files record).1 ≠ .ok (path, false) := by
  have hwrite : (documents.write files record).1 = .error fault := by
    cases hcreate : files.createDirectories documents.root with
    | mk result made =>
      rw [hcreate] at h
      obtain rfl : result = .error fault := h
      simp only [write, hcreate]
  cases hexists : files.exists? (documents.path record.fileHash) with
  | error fault => simp [persist, hexists]
  | ok existed => cases existed <;> simp [persist, hexists, hwrite]

/-- A path of 4028 bytes leaves no room. -/
theorem not_roomy_roundabout : ¬ (⟨FileTree.roundabout 2012⟩ : Documents).Roomy := by
  rw [Roomy, FileTree.childSize_roundabout]
  decide

end ShardVault.Documents

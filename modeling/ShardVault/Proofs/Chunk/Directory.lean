import ShardVault.Chunk.Directory
import ShardVault.Proofs.Chunk.Service
import ShardVault.Proofs.FileTree.Change

/-!
Chunks in a directory.  A put that fails leaves nothing but temporary files, whose names begin with
a dot, and one that succeeds also changes the chunk's own file (`put_cases`), so a chunk that was
put is there for good unless other bytes are put under its digest.
-/

namespace ShardVault.ChunkDirectory

open FileTree (Ground GoodName PlainName HasRoom Changes)

/-! ## Names -/

/-- A name that begins with a dot. -/
def IsHidden (name : String) : Prop :=
  name.toList.head? = some '.'

/-- The places of the hidden names in a directory. -/
def hidden (directory : Place) : Set Place :=
  {place | ∃ name, IsHidden name ∧ place = directory ++ [name]}

theorem isHidden_temporaryName (digest : Digest) (writer : UInt32) (put : UInt64) :
    IsHidden (temporaryName digest writer put) := by
  simp [IsHidden, temporaryName]

theorem not_isHidden_of_digest (digest : Digest) (ending : String) :
    ¬ IsHidden (digest.hex ++ ending) := by
  intro h
  have hdot : '.' ∉ digest.hex.toList := Digest.not_mem_hex (by decide) digest
  cases hhex : digest.hex.toList with
  | nil =>
    have hsize := digest.utf8ByteSize_hex
    rw [String.toList_eq_nil_iff.mp hhex] at hsize
    cases hsize
  | cons first rest =>
    rw [IsHidden, String.toList_append, hhex, List.cons_append, List.head?_cons] at h
    rw [hhex, Option.some.inj h] at hdot
    exact hdot List.mem_cons_self

theorem not_mem_hidden (directory place : Place) (digest : Digest) (ending : String) :
    place ++ [digest.hex ++ ending] ∉ hidden directory := by
  rintro ⟨name, hname, heq⟩
  obtain ⟨-, heq⟩ := List.append_inj' heq rfl
  obtain rfl := List.singleton_inj.mp heq
  exact not_isHidden_of_digest digest ending hname

theorem chunk_not_mem_hidden (directory place : Place) (digest : Digest) :
    place ++ [digest.hex] ∉ hidden directory := by
  rw [← String.append_empty (s := digest.hex)]
  exact not_mem_hidden directory place digest ""

/-- No temporary file has the name of a chunk. -/
theorem temporaryName_ne_hex (digest : Digest) (writer : UInt32) (put : UInt64) (other : Digest) :
    temporaryName digest writer put ≠ other.hex := by
  intro heq
  apply not_isHidden_of_digest other ""
  rw [String.append_empty, ← heq]
  exact isHidden_temporaryName digest writer put

/-- Of all chunks a put touches its own only. -/
theorem eq_of_mem_insert_hidden {directory : Place} {digest other : Digest}
    (h : directory ++ [other.hex] ∈ insert (directory ++ [digest.hex]) (hidden directory)) :
    other = digest := by
  rcases h with heq | hhidden
  · obtain ⟨-, hname⟩ := List.append_inj' heq rfl
    exact Digest.hex_injective (List.singleton_inj.mp hname)
  · exact absurd hhidden (chunk_not_mem_hidden directory directory other)

/-- The longest name that a file of a chunk has. -/
def maxName : Nat := 101

theorem goodName_hex (digest : Digest) : GoodName digest.hex where
  no_slash := Digest.not_mem_hex (by decide) digest
  no_nul := Digest.not_mem_hex (by decide) digest
  two_lt_size := by
    rw [Digest.utf8ByteSize_hex]
    decide
  size_le := by
    rw [Digest.utf8ByteSize_hex]
    decide

theorem utf8ByteSize_hex_le (digest : Digest) : digest.hex.utf8ByteSize ≤ maxName := by
  rw [Digest.utf8ByteSize_hex]
  decide

theorem utf8ByteSize_temporaryName_le (digest : Digest) (writer : UInt32) (put : UInt64) :
    (temporaryName digest writer put).utf8ByteSize ≤ maxName := by
  have hwriter : (Decimal.digits writer.toNat).length ≤ 10 := by
    have hlast : (Decimal.digits (UInt32.size - 1)).length = 10 := by
      simp [Decimal.digits, UInt32.size]
    exact hlast ▸ Decimal.length_digits_mono (Nat.le_pred_of_lt writer.toNat_lt)
  have hput : (Decimal.digits put.toNat).length ≤ 20 := by
    have hlast : (Decimal.digits (UInt64.size - 1)).length = 20 := by
      simp [Decimal.digits, UInt64.size]
    exact hlast ▸ Decimal.length_digits_mono (Nat.le_pred_of_lt put.toNat_lt)
  have hdot : ".".utf8ByteSize = 1 := rfl
  have hending : ".tmp".utf8ByteSize = 4 := rfl
  simp only [temporaryName, String.utf8ByteSize_append, Digest.utf8ByteSize_hex,
    Decimal.utf8ByteSize_text, hdot, hending, maxName]
  omega

theorem goodName_temporaryName (digest : Digest) (writer : UInt32) (put : UInt64) :
    GoodName (temporaryName digest writer put) := by
  have hnumber {c : Char} (hc : Decimal.isDigit c = false) (n : Nat) :
      c ∉ (Decimal.text n).toList := by
    intro hmem
    rw [Decimal.text, String.toList_ofList] at hmem
    rw [Decimal.isDigit_of_mem_digits hmem] at hc
    cases hc
  have hsize := utf8ByteSize_temporaryName_le digest writer put
  refine ⟨?_, ?_, ?_, Nat.le_trans hsize (by decide)⟩
  · have hhex : '/' ∉ digest.hex.toList := Digest.not_mem_hex (by decide) digest
    simp [temporaryName, hhex, hnumber (by decide : Decimal.isDigit '/' = false)]
  · have hhex : '\x00' ∉ digest.hex.toList := Digest.not_mem_hex (by decide) digest
    simp [temporaryName, hhex, hnumber (by decide : Decimal.isDigit '\x00' = false)]
  · simp only [temporaryName, String.utf8ByteSize_append, Digest.utf8ByteSize_hex]
    omega

/-! ## Putting -/

variable {prepared tree : FileTree} {root : Path} {directory : Place}

theorem changes_discard (hground : Ground prepared root directory)
    (hwithin : tree.KeepsDirectories prepared) {name : String} (hname : PlainName name) :
    Changes prepared {directory ++ [name]} tree (discard tree (root.child name)) := by
  unfold discard
  split
  · rename_i rest hremove
    exact hground.changes_remove hname hwithin hremove
  · exact .refl hwithin _

/-- Writing aside either fails, and touches the temporary file only, or leaves the bytes under the
    target's name. -/
theorem writeAside_cases (hground : Ground prepared root directory)
    (hwithin : tree.KeepsDirectories prepared) {temporary target : String}
    (htemporary : PlainName temporary) (htarget : PlainName target) (data : Bytes) :
    let run := writeAside tree root (root.child temporary) (root.child target) data
    ((∃ fault, run.1 = .error fault) ∧ Changes prepared {directory ++ [temporary]} tree run.2) ∨
      (run.1 = .ok () ∧
        Changes prepared {directory ++ [temporary], directory ++ [target]} tree run.2 ∧
        run.2.read (root.child target) = .ok data) := by
  intro run
  have hcreated := hground.changes_createDirectories hwithin
  cases hcreate : tree.createDirectories root with
  | mk result made =>
    rw [hcreate] at hcreated
    cases result with
    | error fault =>
      have hrun : run = (.error fault, made) := by simp only [run, writeAside, hcreate]
      rw [hrun]
      exact .inl ⟨⟨fault, rfl⟩, hcreated.mono (Set.empty_subset _)⟩
    | ok _ =>
      have hmade := hcreated.mono (Set.empty_subset {directory ++ [temporary]})
      cases hwrite : made.write (root.child temporary) data with
      | error fault =>
        have hrun : run = (.error fault, discard made (root.child temporary)) := by
          simp only [run, writeAside, hcreate, hwrite]
        rw [hrun]
        exact .inl ⟨⟨fault, rfl⟩,
          hmade.trans (changes_discard hground hcreated.within htemporary)⟩
      | ok written =>
        cases hrename : written.rename (root.child temporary) (root.child target) with
        | error fault =>
          have hrun : run = (.error fault, discard written (root.child temporary)) := by
            simp only [run, writeAside, hcreate, hwrite, hrename]
          have hwritten := (hground.changes_write htemporary hcreated.within hwrite).1
          rw [hrun]
          exact .inl ⟨⟨fault, rfl⟩, (hmade.trans hwritten).trans
            (changes_discard hground hwritten.within htemporary)⟩
        | ok renamed =>
          have hrun : run = (.ok (), renamed) := by
            simp only [run, writeAside, hcreate, hwrite, hrename]
          obtain ⟨hmoved, hread⟩ := hground.changes_write_rename htemporary hcreated.within
            htarget hwrite hrename
          rw [hrun]
          exact .inr ⟨rfl, (hcreated.mono (Set.empty_subset _)).trans hmoved, hread⟩

/-- A put either fails, and touches hidden files only, or leaves the bytes under the digest. -/
theorem put_cases (storage : Storage ChunkDirectory)
    (hground : Ground prepared storage.chunks.root directory)
    (hwithin : storage.files.KeepsDirectories prepared) (digest : Digest) (data : Bytes) :
    let run := ChunkBackend.put storage digest data
    run.2.chunks.root = storage.chunks.root ∧
      (((∃ cause, run.1 = .error cause) ∧
          Changes prepared (hidden directory) storage.files run.2.files) ∨
        (run.1 = .ok () ∧
          Changes prepared (insert (directory ++ [digest.hex]) (hidden directory)) storage.files
            run.2.files ∧
          run.2.files.read (storage.chunks.path digest) = .ok data)) := by
  have hhidden : {directory ++ [temporaryName digest storage.chunks.writer storage.chunks.puts]} ⊆
      hidden directory :=
    Set.singleton_subset_iff.mpr ⟨_, isHidden_temporaryName digest _ _, rfl⟩
  have hcases := writeAside_cases hground hwithin
    (goodName_temporaryName digest storage.chunks.writer storage.chunks.puts).plain
    (goodName_hex digest).plain data
  refine ⟨rfl, ?_⟩
  rcases hcases with ⟨⟨fault, hfault⟩, hchanges⟩ | ⟨hok, hchanges, hread⟩
  · refine .inl ⟨⟨.ofFile fault, ?_⟩, hchanges.mono hhidden⟩
    exact congrArg (Except.mapError StorageError.ofFile) hfault
  · refine .inr ⟨congrArg (Except.mapError StorageError.ofFile) hok, hchanges.mono ?_, hread⟩
    rw [Set.insert_subset_iff, Set.singleton_subset_iff]
    exact ⟨.inr (hhidden rfl), .inl rfl⟩

/-- In a directory that can be made and has room, where no directory is in the way, a put makes a
    temporary file, and then the chunk in its place. -/
theorem put_eq (storage : Storage ChunkDirectory)
    (hcreate : storage.files.createDirectories storage.chunks.root = (.ok (), prepared))
    (hground : Ground prepared storage.chunks.root directory)
    (hroom : HasRoom storage.chunks.root maxName) {digest : Digest}
    (htemporary : prepared.entry? (directory ++
      [temporaryName digest storage.chunks.writer storage.chunks.puts]) ≠ some .directory)
    (hchunk : prepared.entry? (directory ++ [digest.hex]) ≠ some .directory) (data : Bytes) :
    let temporary := directory ++ [temporaryName digest storage.chunks.writer storage.chunks.puts]
    ChunkBackend.put storage digest data =
      (.ok (), ⟨{ storage.chunks with puts := storage.chunks.puts + 1 },
        ((prepared.put temporary (.file data)).erase temporary).put (directory ++ [digest.hex])
          (.file data)⟩) := by
  intro temporary
  have hlocate {name : String} (hname : GoodName name) (hsize : name.utf8ByteSize ≤ maxName)
      {tree : FileTree} (hkeeps : prepared.KeepsDirectories tree) :
      tree.locate (storage.chunks.root.child name) = .ok (directory ++ [name]) := by
    have htree := hground.of_keepsDirectories hkeeps
    exact FileTree.locate_child hname (hroom.of_le hsize) htree.located htree.isDirectory
  have hne : directory ++ [digest.hex] ≠ temporary := by
    simp [temporary, (temporaryName_ne_hex digest _ _ digest).symm]
  obtain ⟨hwrite, hrename⟩ := FileTree.write_rename_eq_ok
    (hlocate (goodName_temporaryName digest storage.chunks.writer storage.chunks.puts)
      (utf8ByteSize_temporaryName_le _ _ _))
    (hlocate (goodName_hex digest) (utf8ByteSize_hex_le digest)) htemporary hchunk hne data
  have haside : writeAside storage.files storage.chunks.root
      (storage.chunks.temporaryPath digest) (storage.chunks.path digest) data =
        (.ok (), ((prepared.put temporary (.file data)).erase temporary).put
          (directory ++ [digest.hex]) (.file data)) := by
    simp only [writeAside, hcreate, temporaryPath, path, hwrite, hrename]
    rfl
  simp only [ChunkBackend.put, haside]
  rfl

/-- Where there is room and no directory in the way, a put succeeds. -/
theorem put_eq_ok (storage : Storage ChunkDirectory)
    (hground : Ground storage.files storage.chunks.root directory)
    (hroom : HasRoom storage.chunks.root maxName)
    (hfree : ∀ name, storage.files.entry? (directory ++ [name]) ≠ some .directory)
    (digest : Digest) (data : Bytes) :
    (ChunkBackend.put storage digest data).1 = .ok () := by
  have hcreate := hground.createDirectories_eq hroom.fault
  rw [put_eq storage hcreate hground hroom (hfree _) (hfree _)]

/-! ## Getting -/

/-- A chunk that is read under its digest is what a call for the digest gives. -/
theorem reply_of_read {storage : Storage ChunkDirectory} {data : Bytes}
    (h : storage.files.read (storage.chunks.path (Digest.of data)) = .ok data) :
    ChunkService.reply storage ⟨(Digest.of data).hex⟩ = some data := by
  have hget : ChunkBackend.get? storage (Digest.of data) = .ok (some data) := by
    simp only [ChunkBackend.get?, h]
  have hverifies : (Digest.of data).verifies data = true := Digest.verifies_iff.mpr rfl
  rw [ChunkService.reply_eq_some_iff]
  simp only [Storage.retrieveChunk, Digest.parse_hex, hget, hverifies, if_true]

end ShardVault.ChunkDirectory

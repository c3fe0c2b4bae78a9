import ShardVault.Proofs.Documents
import ShardVault.Proofs.FileTree.Change

/-!
What persisting a record changes.  Whether it succeeds or not, it touches the record's own document
and its temporary file only, and a document that is there is not touched (`persist_cases`).
-/

namespace ShardVault.Documents

open FileTree (Ground PlainName Changes)

variable {documents : Documents} {prepared tree : FileTree} {directory : Place} {digest : Digest}
  {record : FileRecord}

theorem not_mem_temporary (directory : Place) (fileHash : String) (digest : Digest) :
    directory ++ [fileHash ++ ".json"] ∉
      ({directory ++ [digest.hex ++ ".json.tmp"]} : Set Place) := by
  intro htemporary
  obtain ⟨-, hname⟩ := List.append_inj' htemporary rfl
  exact document_ne_temporary _ _ (List.singleton_inj.mp hname)

/-- To write a document touches no other. -/
theorem not_mem_written (directory : Place) {fileHash : String} (h : fileHash ≠ digest.hex) :
    directory ++ [fileHash ++ ".json"] ∉
      ({directory ++ [digest.hex ++ ".json.tmp"], directory ++ [digest.hex ++ ".json"]} :
        Set Place) := by
  rintro (htemporary | hdocument)
  · exact not_mem_temporary directory fileHash digest htemporary
  · obtain ⟨-, hname⟩ := List.append_inj' hdocument rfl
    exact h ((String.append_left_inj _).mp (List.singleton_inj.mp hname))

/-- Writing a document either fails, and touches the temporary file only, or leaves the document. -/
theorem write_cases (hground : Ground prepared documents.root directory)
    (hwithin : tree.KeepsDirectories prepared) (hrecord : record.fileHash = digest.hex) :
    let run := documents.write tree record
    ((∃ fault, run.1 = .error fault) ∧
        Changes prepared {directory ++ [digest.hex ++ ".json.tmp"]} tree run.2) ∨
      (run.1 = .ok () ∧
        Changes prepared
          {directory ++ [digest.hex ++ ".json.tmp"], directory ++ [digest.hex ++ ".json"]} tree
          run.2 ∧
        run.2.read (documents.path digest.hex) = .ok (Bytes.ofText record.document)) := by
  intro run
  have htemporary := (goodName_temporary digest).plain
  have hcreated := hground.changes_createDirectories hwithin
  cases hcreate : tree.createDirectories documents.root with
  | mk result made =>
    rw [hcreate] at hcreated
    cases result with
    | error fault =>
      have hrun : run = (.error fault, made) := by simp only [run, write, hcreate]
      rw [hrun]
      exact .inl ⟨⟨fault, rfl⟩, hcreated.mono (Set.empty_subset _)⟩
    | ok _ =>
      have hmade := hcreated.mono (Set.empty_subset {directory ++ [digest.hex ++ ".json.tmp"]})
      cases hwrite : made.write (documents.temporaryPath digest.hex)
          (Bytes.ofText record.document) with
      | error fault =>
        have hrun : run = (.error fault, made) := by
          simp only [run, write, hcreate, hrecord, hwrite]
        rw [hrun]
        exact .inl ⟨⟨fault, rfl⟩, hmade⟩
      | ok written =>
        cases hrename : written.rename (documents.temporaryPath digest.hex)
            (documents.path digest.hex) with
        | error fault =>
          have hrun : run = (.error fault, written) := by
            simp only [run, write, hcreate, hrecord, hwrite, hrename]
          have hwritten := (hground.changes_write htemporary hcreated.within hwrite).1
          rw [hrun]
          exact .inl ⟨⟨fault, rfl⟩, hmade.trans hwritten⟩
        | ok renamed =>
          have hrun : run = (.ok (), renamed) := by
            simp only [run, write, hcreate, hrecord, hwrite, hrename]
          obtain ⟨hmoved, hread⟩ := hground.changes_write_rename htemporary hcreated.within
            (goodName_document digest).plain hwrite hrename
          rw [hrun]
          exact .inr ⟨rfl, (hcreated.mono (Set.empty_subset _)).trans hmoved, hread⟩

/-- Persisting a record fails, and touches its temporary file only; or there is a document already,
    and nothing changes; or there is none, and then there is the record's. -/
theorem persist_cases (hground : Ground prepared documents.root directory)
    (hwithin : tree.KeepsDirectories prepared) (hrecord : record.fileHash = digest.hex) :
    let run := documents.persist tree record
    let path := documents.path digest.hex
    ((∃ cause, run.1 = .error cause) ∧
        Changes prepared {directory ++ [digest.hex ++ ".json.tmp"]} tree run.2) ∨
      (run = (.ok (path, true), tree) ∧
        tree.entry? (directory ++ [digest.hex ++ ".json"]) ≠ none) ∨
      (run.1 = .ok (path, false) ∧ tree.exists? path = .ok false ∧
        Changes prepared
          {directory ++ [digest.hex ++ ".json.tmp"], directory ++ [digest.hex ++ ".json"]} tree
          run.2 ∧
        run.2.read path = .ok (Bytes.ofText record.document)) := by
  intro run path
  cases hexists : tree.exists? path with
  | error fault =>
    have hrun : run = (.error (.ofFile fault), tree) := by
      simp only [run, persist, hrecord, path, hexists]
    rw [hrun]
    exact .inl ⟨⟨_, rfl⟩, .refl hwithin _⟩
  | ok existed =>
    cases existed with
    | true =>
      refine .inr (.inl ⟨by simp only [run, persist, hrecord, path, hexists], ?_⟩)
      unfold FileTree.exists? at hexists
      split at hexists
      · rename_i place hplace
        rw [hground.place_of_locate (goodName_document digest).plain hwithin hplace,
          Except.ok.injEq, Option.isSome_iff_ne_none] at hexists
        exact hexists
      · cases hexists
      · cases hexists
    | false =>
      have hcases := write_cases hground hwithin hrecord
      cases hwrite : documents.write tree record with
      | mk result written =>
        rw [hwrite] at hcases
        rcases hcases with ⟨⟨fault, hfault⟩, hchanges⟩ | ⟨hok, hchanges, hread⟩
        · obtain rfl : result = .error fault := hfault
          have hrun : run = (.error (.ofFile fault), written) := by
            simp only [run, persist, hrecord, path, hexists, hwrite]
          rw [hrun]
          exact .inl ⟨⟨_, rfl⟩, hchanges⟩
        · obtain rfl : result = .ok () := hok
          have hrun : run = (.ok (path, false), written) := by
            simp only [run, persist, hrecord, path, hexists, hwrite]
          rw [hrun]
          exact .inr (.inr ⟨rfl, rfl, hchanges, hread⟩)

end ShardVault.Documents

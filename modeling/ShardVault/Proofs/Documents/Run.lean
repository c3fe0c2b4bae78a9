import Mathlib.Data.List.Induction
import Mathlib.Data.List.Perm.Basic
import ShardVault.Proofs.Documents.Cramped

/-!
Runs of calls to documents whose directory is bare at first.  However many files they mix, the
documents are a write-once map that loses nothing if there is room for them (`persist_run`), and
they are the same in whatever order records are persisted, if no file has two
(`after_perm_of_bare`).
-/

namespace ShardVault.Documents

/-- A call to the documents. -/
inductive Call
  | persist (digest : Digest) (stripes : List StripeRecord)
  | load (digest : Digest)

/-- The record that a call gives. -/
def Call.record? : Call → Option FileRecord
  | .persist digest stripes => some ⟨digest.hex, stripes⟩
  | .load _ => none

/-- The records that calls give, in order. -/
def recorded (calls : List Call) : List FileRecord :=
  calls.filterMap Call.record?

/-- What a call leaves. -/
def step (documents : Documents) (files : FileTree) : Call → FileTree
  | .persist digest stripes => (documents.persist files ⟨digest.hex, stripes⟩).2
  | .load _ => files

/-- What calls leave. -/
def after (documents : Documents) (files : FileTree) (calls : List Call) : FileTree :=
  calls.foldl documents.step files

/-! ## The first record of a file -/

/-- The first of records that is of a file. -/
def first? (records : List FileRecord) (digest : Digest) : Option FileRecord :=
  records.find? fun record => decide (record.fileHash = digest.hex)

/-- The documents of the first records. -/
def texts (records : List FileRecord) (digest : Digest) : Option String :=
  (first? records digest).map FileRecord.document

variable {documents : Documents} {files tree prepared : FileTree} {directory : Place}
  {records : List FileRecord} {record first : FileRecord} {digest : Digest}

theorem fileHash_of_first? (h : first? records digest = some record) :
    record.fileHash = digest.hex := by
  have hfound := List.find?_some h
  exact of_decide_eq_true hfound

theorem mem_of_first? (h : first? records digest = some record) : record ∈ records :=
  List.mem_of_find?_eq_some h

theorem first?_concat (records : List FileRecord) (record : FileRecord) (digest : Digest) :
    first? (records ++ [record]) digest =
      (first? records digest).or (if record.fileHash = digest.hex then some record else none) := by
  rw [first?, List.find?_append, List.find?_singleton, ← first?]
  simp only [decide_eq_true_eq]

theorem texts_concat_of_new (hnew : first? records digest = none)
    (hrecord : record.fileHash = digest.hex) :
    texts (records ++ [record]) = fun other =>
      if other = digest then some record.document else texts records other := by
  funext other
  by_cases hother : other = digest
  · rw [hother, if_pos rfl, texts, first?_concat, hnew, if_pos hrecord, Option.none_or,
      Option.map_some]
  · have hne : record.fileHash ≠ other.hex := by
      rw [hrecord]
      exact fun heq => hother (Digest.hex_injective heq.symm)
    rw [if_neg hother, texts, first?_concat, if_neg hne, Option.or_none, texts]

theorem texts_concat_of_old (hold : first? records digest = some first)
    (hrecord : record.fileHash = digest.hex) : texts (records ++ [record]) = texts records := by
  funext other
  by_cases hother : other = digest
  · rw [hother, texts, first?_concat, hold, Option.some_or, texts, hold]
  · have hne : record.fileHash ≠ other.hex := by
      rw [hrecord]
      exact fun heq => hother (Digest.hex_injective heq.symm)
    rw [texts, first?_concat, if_neg hne, Option.or_none, texts]

/-! ## One call -/

/-- A record is persisted as new if it is the first of its file, and then its document is all that
    comes to be; otherwise nothing changes. -/
theorem Holds.persist_cases (h : documents.Holds tree prepared directory (texts records))
    (record : FileRecord) (hrecord : record.fileHash = digest.hex) :
    let run := documents.persist tree record
    let grown := prepared.put (directory ++ [digest.hex ++ ".json"])
      (.file (Bytes.ofText record.document))
    (first? records digest = none ∧ run = (.ok (documents.path digest.hex, false), grown) ∧
        documents.Holds grown grown directory (texts (records ++ [record]))) ∨
      ∃ first, first? records digest = some first ∧
        run = (.ok (documents.path digest.hex, true), tree) ∧
        documents.Holds tree prepared directory (texts (records ++ [record])) := by
  intro run grown
  cases hfirst : first? records digest with
  | none =>
    have hnone : texts records digest = none := by rw [texts, hfirst, Option.map_none]
    refine .inl ⟨rfl, ?_, ?_⟩
    · rw [← hrecord]
      exact h.persist_eq hnone hrecord
    · rw [texts_concat_of_new hfirst hrecord]
      exact h.put hnone record.document
  | some first =>
    have hsome : texts records digest = some first.document := by
      rw [texts, hfirst, Option.map_some]
    refine .inr ⟨first, rfl, ?_, ?_⟩
    · rw [← hrecord]
      exact h.persist_old hsome hrecord
    · rw [texts_concat_of_old hfirst hrecord]
      exact h

/-- What is loaded is the first record of a file. -/
theorem Holds.load_first? (h : documents.Holds tree prepared directory (texts records))
    (digest : Digest) :
    documents.load tree digest.hex =
      match first? records digest with
      | some first => .ok first
      | none => .error (.fileNotFound digest.hex) := by
  cases hfirst : first? records digest with
  | none => exact h.load_none (by rw [texts, hfirst, Option.map_none])
  | some first =>
    exact h.load (fileHash_of_first? hfirst) (by rw [texts, hfirst, Option.map_some])

/-- A new document is a file at its place.  All other files are those that were there, and none
    of them is temporary. -/
theorem Holds.file_put_iff (h : documents.Holds tree prepared directory (texts records))
    (hnew : first? records digest = none) (text : String) :
    let grown := prepared.put (directory ++ [digest.hex ++ ".json"]) (.file (Bytes.ofText text))
    ∃ place, grown.locate (documents.path digest.hex) = .ok place ∧
      grown.entry? place = some (.file (Bytes.ofText text)) ∧
      (∀ other ≠ place, ∀ content,
        grown.entry? other = some (.file content) ↔ tree.entry? other = some (.file content)) ∧
      ∀ own : Digest, grown.exists? (documents.temporaryPath own.hex) = .ok false := by
  intro grown
  have hgrown := h.put (by rw [texts, hnew, Option.map_none]) text
  refine ⟨directory ++ [digest.hex ++ ".json"], hgrown.opens.locate_path (.refl grown) digest,
    FileTree.entry?_put_self prepared _ (by simp), fun other hother content => ?_, fun own => ?_⟩
  · rw [FileTree.entry?_put_of_ne prepared _ hother]
    exact FileTree.file_iff_of_createAlong h.opens.created
  · have hlocate := hgrown.opens.locate_temporaryPath (.refl grown) own
    have hnone : grown.entry? (directory ++ [own.hex ++ ".json.tmp"]) = none :=
      hgrown.temporary own
    simp only [FileTree.exists?, hlocate, hnone, Option.isSome_none]

/-! ## Runs -/

theorem recorded_concat_persist (calls : List Call) (digest : Digest)
    (stripes : List StripeRecord) :
    recorded (calls ++ [.persist digest stripes]) = recorded calls ++ [⟨digest.hex, stripes⟩] := by
  rw [recorded, List.filterMap_append]
  rfl

theorem recorded_concat_load (calls : List Call) (digest : Digest) :
    recorded (calls ++ [.load digest]) = recorded calls := by
  rw [recorded, List.filterMap_append]
  exact List.append_nil _

/-- After any calls the documents are those of the first records. -/
theorem holds_after (h : documents.Holds files prepared directory fun _ => none)
    (calls : List Call) :
    ∃ prepared, documents.Holds (documents.after files calls) prepared directory
      (texts (recorded calls)) := by
  -- from the last call back, since a record is new or not by all before it
  induction calls using List.reverseRecOn with
  | nil => exact ⟨prepared, h⟩
  | append_singleton calls call ih =>
    obtain ⟨made, hholds⟩ := ih
    rw [after, List.foldl_concat, ← after]
    cases call with
    | persist digest stripes =>
      rw [recorded_concat_persist, step]
      rcases hholds.persist_cases ⟨digest.hex, stripes⟩ rfl with
        ⟨-, hrun, hgrown⟩ | ⟨-, -, hrun, hsame⟩
      · rw [hrun]
        exact ⟨_, hgrown⟩
      · rw [hrun]
        exact ⟨made, hsame⟩
    | load digest =>
      rw [recorded_concat_load]
      exact ⟨made, hholds⟩

/-- Whatever calls came before: a record is persisted as new exactly if it is the first of its
    file, and the first record is what is loaded, whatever texts it holds.  A record that is not
    new changes nothing.  A new one makes its document, changes no other file and leaves no
    temporary one. -/
theorem persist_run (documents : Documents) (files : FileTree)
    (hfresh : files.Fresh documents.root maxName) (calls : List Call) :
    let tree := documents.after files calls
    let first := first? (recorded calls)
    (∀ digest, documents.load tree digest.hex =
      match first digest with
      | some record => .ok record
      | none => .error (.fileNotFound digest.hex)) ∧
    ∀ digest stripes,
      let run := documents.persist tree ⟨digest.hex, stripes⟩
      run.1 = .ok (documents.path digest.hex, (first digest).isSome) ∧
        (first digest ≠ none → run.2 = tree) ∧
        (first digest = none → ∃ place,
          run.2.locate (documents.path digest.hex) = .ok place ∧
            FileTree.entry? run.2 place =
              some (.file (Bytes.ofText (FileRecord.document ⟨digest.hex, stripes⟩))) ∧
            (∀ other ≠ place, ∀ content, FileTree.entry? run.2 other = some (.file content) ↔
              tree.entry? other = some (.file content)) ∧
            ∀ own : Digest, run.2.exists? (documents.temporaryPath own.hex) = .ok false) := by
  intro tree first
  obtain ⟨prepared, directory, hnone⟩ := exists_holds_of_fresh hfresh
  obtain ⟨made, hholds⟩ := holds_after hnone calls
  refine ⟨hholds.load_first?, fun digest stripes => ?_⟩
  intro run
  rcases hholds.persist_cases ⟨digest.hex, stripes⟩ rfl with
    ⟨hnew, hrun, -⟩ | ⟨old, hold, hrun, -⟩
  · have hrun : run = _ := hrun
    have hnew' : first digest = none := hnew
    rw [hrun, hnew']
    exact ⟨rfl, fun hold => absurd rfl hold, fun _ => hholds.file_put_iff hnew _⟩
  · have hrun : run = _ := hrun
    have hold' : first digest = some old := hold
    rw [hrun, hold']
    exact ⟨rfl, fun _ => rfl, nofun⟩

/-- A load, a record whose texts hold quotes, backslashes, control characters and characters that
    take four bytes, and another record of the same file. -/
def sampleCalls : List Call :=
  [.load (Digest.of []), .persist (Digest.of []) [⟨"\"\\\n", [⟨"𝄞"⟩, ⟨""⟩]⟩, ⟨"\t", []⟩],
    .persist (Digest.of []) []]

theorem persist_run_sample :
    FileTree.empty.Fresh sample.root maxName ∧
      sample.load (sample.after .empty sampleCalls) (Digest.of []).hex =
        .ok ⟨(Digest.of []).hex, [⟨"\"\\\n", [⟨"𝄞"⟩, ⟨""⟩]⟩, ⟨"\t", []⟩]⟩ := by
  have hload := (persist_run sample .empty fresh_sample sampleCalls).1 (Digest.of [])
  have hfirst : first? (recorded sampleCalls) (Digest.of []) =
      some ⟨(Digest.of []).hex, [⟨"\"\\\n", [⟨"𝄞"⟩, ⟨""⟩]⟩, ⟨"\t", []⟩]⟩ := by
    simp [recorded, sampleCalls, Call.record?, first?]
  rw [hfirst] at hload
  exact ⟨fresh_sample, hload⟩

/-- Not even the first record is persisted as new below a root that is absent and cannot be made,
    nor below one that can be made, but whose path leaves no room for a temporary file. -/
theorem persist_run_not_new :
    let dotted : Documents := ⟨⟨["a", "b", "."]⟩⟩
    let long : Documents := ⟨FileTree.roundabout 2012⟩
    let record : FileRecord := ⟨(Digest.of []).hex, []⟩
    (FileTree.empty.exists? dotted.root = .ok false ∧
      ∀ path, (dotted.persist .empty record).1 ≠ .ok (path, false)) ∧
    FileTree.empty.exists? long.root = .ok false ∧
      ∀ path, (long.persist .empty record).1 ≠ .ok (path, false) := by
  intro dotted long record
  obtain ⟨habsent, hbare⟩ :=
    FileTree.bare_roundabout (show 2 * 2012 + 4 ≤ FileTree.maxPathSize by decide)
  have hpersist : long.persist .empty record = _ :=
    persist_of_not_roomy hbare not_roomy_roundabout rfl
  refine ⟨⟨rfl, persist_ne_new rfl record⟩, habsent, fun path h => ?_⟩
  rw [hpersist] at h
  cases h

/-! ## Runs in another order -/

/-- A tree with the documents of records put in a directory. -/
def fill (prepared : FileTree) (directory : Place) (records : List FileRecord) : FileTree :=
  records.foldl (fun tree record => tree.put (directory ++ [record.fileHash ++ ".json"])
    (.file (Bytes.ofText record.document))) prepared

/-- No file has two records. -/
def OneEach (records : List FileRecord) : Prop :=
  ∀ record ∈ records, ∀ other ∈ records, record.fileHash = other.fileHash → record = other

theorem OneEach.of_append {records more : List FileRecord} (h : OneEach (records ++ more)) :
    OneEach records :=
  fun record hrecord other hother =>
    h record (List.mem_append_left _ hrecord) other (List.mem_append_left _ hother)

theorem OneEach.perm {records records' : List FileRecord} (h : OneEach records)
    (hperm : records.Perm records') : OneEach records' :=
  fun record hrecord other hother =>
    h record (hperm.mem_iff.mpr hrecord) other (hperm.mem_iff.mpr hother)

/-- Documents of different files can be put in either order. -/
theorem fill_perm {records records' : List FileRecord} (hone : OneEach records)
    (hperm : records.Perm records') (prepared : FileTree) (directory : Place) :
    fill prepared directory records = fill prepared directory records' := by
  apply hperm.foldl_eq'
  intro record hrecord other hother tree
  by_cases hsame : record.fileHash = other.fileHash
  · rw [hone record hrecord other hother hsame]
  · refine FileTree.put_comm tree ?_ _ _
    simpa [String.append_left_inj] using hsame

/-- If no file has two records, what calls leave is the directory filled with the documents of
    all records; it is there as soon as there is one. -/
theorem holds_fill (h : documents.Holds files prepared directory fun _ => none)
    (calls : List Call) (hone : OneEach (recorded calls)) :
    documents.Holds (documents.after files calls) (fill prepared directory (recorded calls))
        directory (texts (recorded calls)) ∧
      (recorded calls = [] → documents.after files calls = files) := by
  -- from the last call back, as in `holds_after`
  induction calls using List.reverseRecOn with
  | nil => exact ⟨h, fun _ => rfl⟩
  | append_singleton calls call ih =>
    rw [after, List.foldl_concat, ← after]
    cases call with
    | persist digest stripes =>
      rw [recorded_concat_persist] at hone ⊢
      obtain ⟨hholds, -⟩ := ih hone.of_append
      rw [fill, List.foldl_concat, ← fill, step]
      refine ⟨?_, fun hnil => absurd hnil (by simp)⟩
      rcases hholds.persist_cases ⟨digest.hex, stripes⟩ rfl with
        ⟨-, hrun, hgrown⟩ | ⟨first, hfirst, hrun, hsame⟩
      · rw [hrun]
        exact hgrown
      · -- the first record of the file is this one, and its document is there
        have hown : first = ⟨digest.hex, stripes⟩ :=
          hone first (List.mem_append_left _ (mem_of_first? hfirst)) _
            (List.mem_append_right _ List.mem_cons_self) (fileHash_of_first? hfirst)
        have hentry := hholds.document digest
        rw [texts, hfirst, hown, Option.map_some, Option.map_some] at hentry
        rw [hrun, FileTree.put_of_entry? (by simp) hentry]
        exact hsame
    | load digest =>
      rw [recorded_concat_load] at hone ⊢
      exact ih hone

theorem exists_digest_of_mem_recorded {calls : List Call} (h : record ∈ recorded calls) :
    ∃ digest : Digest, record.fileHash = digest.hex := by
  obtain ⟨call, -, hrecord⟩ := List.mem_filterMap.mp h
  cases call with
  | persist digest stripes =>
    cases hrecord
    exact ⟨digest, rfl⟩
  | load digest => cases hrecord

theorem after_eq_fill (h : documents.Holds files prepared directory fun _ => none)
    {calls : List Call} (hone : OneEach (recorded calls)) (hne : recorded calls ≠ []) :
    documents.after files calls = fill prepared directory (recorded calls) := by
  obtain ⟨record, hrecord⟩ := List.exists_mem_of_ne_nil _ hne
  obtain ⟨digest, hdigest⟩ := exists_digest_of_mem_recorded hrecord
  refine ((holds_fill h calls hone).1.settled digest ?_).symm
  rw [texts, ne_eq, Option.map_eq_none_iff, first?, List.find?_eq_none]
  exact fun hnone => hnone record hrecord (by simpa using hdigest)

/-- Calls that give the same records, in whatever order, leave the same files, if no file has two
    of the records. -/
theorem after_perm (hfresh : files.Fresh documents.root maxName) {calls calls' : List Call}
    (hperm : (recorded calls).Perm (recorded calls')) (hone : OneEach (recorded calls)) :
    documents.after files calls = documents.after files calls' := by
  obtain ⟨prepared, directory, hnone⟩ := exists_holds_of_fresh hfresh
  have hone' := hone.perm hperm
  by_cases hnil : recorded calls = []
  · have hnil' : recorded calls' = [] := by
      rw [hnil] at hperm
      exact hperm.nil_eq.symm
    rw [(holds_fill hnone calls hone).2 hnil, (holds_fill hnone calls' hone').2 hnil']
  · have hnil' : recorded calls' ≠ [] := fun hnil' => hnil (by rwa [hnil', List.perm_nil] at hperm)
    rw [after_eq_fill hnone hone hnil, after_eq_fill hnone hone' hnil',
      fill_perm hone hperm]

/-- Without room the directory stays bare, and is made by the first record at most. -/
theorem after_of_not_roomy (h : files.Bare documents.root) (hroomy : ¬ documents.Roomy)
    (calls : List Call) :
    (documents.after files calls).Bare documents.root ∧
      documents.after files calls =
        if recorded calls = [] then files else documents.refuse files := by
  induction calls using List.reverseRecOn with
  | nil => exact ⟨h, rfl⟩
  | append_singleton calls call ih =>
    obtain ⟨hbare, hafter⟩ := ih
    rw [after, List.foldl_concat, ← after]
    cases call with
    | persist digest stripes =>
      have hstep : documents.step (documents.after files calls) (.persist digest stripes) =
          documents.refuse (documents.after files calls) :=
        congrArg Prod.snd (persist_of_not_roomy hbare hroomy rfl)
      rw [hstep, recorded_concat_persist, if_neg (by simp)]
      refine ⟨bare_refuse hbare, ?_⟩
      rw [hafter]
      split
      · rfl
      · exact refuse_refuse files
    | load digest =>
      rw [recorded_concat_load]
      exact ⟨hbare, hafter⟩

/-- Calls that give the same records, in whatever order, leave the same files, if no file has two
    of the records. -/
theorem after_perm_of_bare (h : files.Bare documents.root) {calls calls' : List Call}
    (hperm : (recorded calls).Perm (recorded calls')) (hone : OneEach (recorded calls)) :
    documents.after files calls = documents.after files calls' := by
  by_cases hroomy : documents.Roomy
  · exact after_perm ⟨h, hroomy⟩ hperm hone
  · have hnil : recorded calls = [] ↔ recorded calls' = [] := by
      rw [← List.length_eq_zero_iff, hperm.length_eq, List.length_eq_zero_iff]
    rw [(after_of_not_roomy h hroomy calls).2, (after_of_not_roomy h hroomy calls').2]
    simp only [hnil]

end ShardVault.Documents

import Mathlib.Data.List.Dedup
import ShardVault.Registry

/-!
The registry over many registrations.  Whatever entries are registered, every file has the first
that was made for it, and all that the registry tells, of one file or of all, follows from that
(`registerAll_first_wins`).
-/

namespace ShardVault.Registry

/-! ## One registration -/

theorem get?_empty (fileHash : String) : Registry.empty.get? fileHash = none := by
  simp [empty, get?]

theorem contains_eq_isSome (registry : Registry) (fileHash : String) :
    registry.contains fileHash = (registry.get? fileHash).isSome := by
  simp [contains, get?]

/-- A file keeps the entry that it has. -/
theorem get?_register (registry : Registry) (file : RegisteredFile) (fileHash : String) :
    (registry.register file).2.get? fileHash =
      (registry.get? fileHash).or (if file.fileHash = fileHash then some file else none) := by
  by_cases hthere : registry.files.contains file.fileHash
  · rw [register, if_pos hthere]
    by_cases hown : file.fileHash = fileHash
    · obtain ⟨held, hheld⟩ := Option.isSome_iff_exists.mp
        ((registry.contains_eq_isSome file.fileHash).symm.trans hthere)
      rw [← hown, hheld, Option.some_or]
    · rw [if_neg hown, Option.or_none]
  · rw [register, if_neg hthere]
    by_cases hown : file.fileHash = fileHash
    · have hnone : registry.get? file.fileHash = none := by
        rw [← Option.not_isSome_iff_eq_none, ← contains_eq_isSome]
        exact hthere
      rw [← hown, if_pos rfl, hnone, Option.none_or]
      simp [get?]
    · rw [if_neg hown, Option.or_none]
      simp [get?, Std.ExtTreeMap.getElem?_insert, hown]

/-- An entry is added unless its file has one. -/
theorem register_fst (registry : Registry) (file : RegisteredFile) :
    (registry.register file).1 = !(registry.get? file.fileHash).isSome := by
  rw [← contains_eq_isSome, register, contains]
  cases registry.files.contains file.fileHash <;> rfl

/-- There is one more entry exactly if one was added. -/
theorem size_register (registry : Registry) (file : RegisteredFile) :
    (registry.register file).2.size = registry.size + (registry.register file).1.toNat := by
  rw [register]
  cases hthere : registry.files.contains file.fileHash with
  | true => rfl
  | false =>
    change (registry.files.insert file.fileHash file).size = _
    rw [Std.ExtTreeMap.size_insert, hthere]
    rfl

/-! ## All entries -/

theorem length_list (registry : Registry) : registry.list.length = registry.size := by
  rw [list, List.length_map, Std.ExtTreeMap.length_toList, size]

theorem isEmpty_iff (registry : Registry) : registry.isEmpty = true ↔ registry.list = [] := by
  rw [isEmpty, ← Std.ExtTreeMap.isEmpty_toList, List.isEmpty_iff, list, List.map_eq_nil_iff]

/-- The first of entries that was made for a file. -/
def earliest? (files : List RegisteredFile) (fileHash : String) : Option RegisteredFile :=
  files.find? fun file => decide (file.fileHash = fileHash)

theorem earliest?_concat (files : List RegisteredFile) (file : RegisteredFile)
    (fileHash : String) :
    earliest? (files ++ [file]) fileHash =
      (earliest? files fileHash).or (if file.fileHash = fileHash then some file else none) := by
  rw [earliest?, List.find?_append, List.find?_singleton, ← earliest?]
  simp only [decide_eq_true_eq]

theorem fileHash_of_earliest? {files : List RegisteredFile} {fileHash : String}
    {file : RegisteredFile} (h : earliest? files fileHash = some file) :
    file.fileHash = fileHash :=
  of_decide_eq_true (List.find?_some h :)

theorem isSome_earliest?_iff {files : List RegisteredFile} {fileHash : String} :
    (earliest? files fileHash).isSome ↔ fileHash ∈ files.map RegisteredFile.fileHash := by
  rw [earliest?, List.find?_isSome, List.mem_map]
  simp only [decide_eq_true_eq]

/-- What a registry tells if the first of these entries that was made for a file is the file's. -/
structure FirstWins (files : List RegisteredFile) (registry : Registry) : Prop where
  get?_eq : ∀ fileHash, registry.get? fileHash = earliest? files fileHash
  contains_iff : ∀ fileHash, registry.contains fileHash = true ↔ (registry.get? fileHash).isSome
  mem_list_iff : ∀ file, file ∈ registry.list ↔ earliest? files file.fileHash = some file
  nodup_list : (registry.list.map RegisteredFile.fileHash).Nodup
  size_eq : registry.size = (files.map RegisteredFile.fileHash).dedup.length
  isEmpty_iff : registry.isEmpty = true ↔ files = []

section Observers

variable {registry : Registry} {files : List RegisteredFile}
  (h : ∀ fileHash, registry.get? fileHash = earliest? files fileHash)

include h

/-- Every entry is filed under the file that it is for. -/
theorem fileHash_of_mem_toList {fileHash : String} {file : RegisteredFile}
    (hmem : (fileHash, file) ∈ registry.files.toList) : file.fileHash = fileHash := by
  have hget : registry.get? fileHash = some file :=
    Std.ExtTreeMap.mem_toList_iff_getElem?_eq_some.mp hmem
  exact fileHash_of_earliest? ((h fileHash).symm.trans hget)

theorem map_fileHash_list : registry.list.map RegisteredFile.fileHash = registry.files.keys := by
  rw [list, List.map_map, ← Std.ExtTreeMap.map_fst_toList_eq_keys]
  apply List.map_congr_left
  rintro ⟨fileHash, file⟩ hmem
  exact fileHash_of_mem_toList h hmem

theorem mem_list_iff_earliest? {file : RegisteredFile} :
    file ∈ registry.list ↔ earliest? files file.fileHash = some file := by
  rw [← h, list, List.mem_map]
  constructor
  · rintro ⟨⟨fileHash, own⟩, hmem, rfl⟩
    rw [fileHash_of_mem_toList h hmem]
    exact Std.ExtTreeMap.mem_toList_iff_getElem?_eq_some.mp hmem
  · intro hget
    exact ⟨(file.fileHash, file), Std.ExtTreeMap.mem_toList_iff_getElem?_eq_some.mpr hget, rfl⟩

/-- The files with entries are those that entries were made for. -/
theorem mem_map_fileHash_list_iff {fileHash : String} :
    fileHash ∈ registry.list.map RegisteredFile.fileHash ↔
      fileHash ∈ files.map RegisteredFile.fileHash := by
  have hsome : (earliest? files fileHash).isSome ↔
      fileHash ∈ files.map RegisteredFile.fileHash := isSome_earliest?_iff
  rw [← hsome, Option.isSome_iff_exists, List.mem_map]
  constructor
  · rintro ⟨file, hmem, rfl⟩
    exact ⟨file, (mem_list_iff_earliest? h).mp hmem⟩
  · rintro ⟨file, hfirst⟩
    have hown := fileHash_of_earliest? hfirst
    exact ⟨file, (mem_list_iff_earliest? h).mpr (hown ▸ hfirst), hown⟩

theorem firstWins_of_get? : FirstWins files registry := by
  have hnodup : (registry.list.map RegisteredFile.fileHash).Nodup := by
    rw [map_fileHash_list h]
    exact Std.ExtTreeMap.nodup_keys
  have hperm : (registry.list.map RegisteredFile.fileHash).Perm
      (files.map RegisteredFile.fileHash).dedup := by
    rw [List.perm_ext_iff_of_nodup hnodup (List.nodup_dedup _)]
    intro fileHash
    rw [mem_map_fileHash_list_iff h, List.mem_dedup]
  refine ⟨h, fun fileHash => by rw [contains_eq_isSome], fun file => mem_list_iff_earliest? h,
    hnodup, ?_, ?_⟩
  · rw [← registry.length_list, ← hperm.length_eq, List.length_map]
  · rw [registry.isEmpty_iff, ← List.map_eq_nil_iff (f := RegisteredFile.fileHash),
      ← List.map_eq_nil_iff (f := RegisteredFile.fileHash) (l := files),
      List.eq_nil_iff_forall_not_mem, List.eq_nil_iff_forall_not_mem]
    simp only [mem_map_fileHash_list_iff h]

end Observers

/-! ## Many registrations -/

/-- Registers entries one after the other: whether each was added, and the registry after them. -/
def registerAll (registry : Registry) : List RegisteredFile → List Bool × Registry
  | [] => ([], registry)
  | file :: rest =>
    let (added, registry) := registry.register file
    let (answers, registry) := registerAll registry rest
    (added :: answers, registry)

theorem length_registerAll (registry : Registry) (files : List RegisteredFile) :
    (registry.registerAll files).1.length = files.length := by
  induction files generalizing registry with
  | nil => rfl
  | cons file rest ih => exact congrArg (· + 1) (ih _)

theorem registerAll_append (registry : Registry) (earlier later : List RegisteredFile) :
    registry.registerAll (earlier ++ later) =
      let (before, registry) := registry.registerAll earlier
      let (after, registry) := registry.registerAll later
      (before ++ after, registry) := by
  induction earlier generalizing registry with
  | nil => rfl
  | cons file rest ih =>
    simp only [List.cons_append, registerAll, ih]

/-- The answers to the first registrations do not depend on the later ones. -/
theorem registerAll_take (registry : Registry) (files : List RegisteredFile) (count : Nat) :
    (registry.registerAll (files.take count)).1 = (registry.registerAll files).1.take count := by
  rcases Nat.le_total count files.length with hle | hge
  · have happend := congrArg Prod.fst
      (registry.registerAll_append (files.take count) (files.drop count))
    have hlength : (registry.registerAll (files.take count)).1.length = count := by
      rw [length_registerAll, List.length_take, Nat.min_eq_left hle]
    rw [List.take_append_drop] at happend
    rw [happend]
    exact (List.take_left' hlength).symm
  · rw [List.take_of_length_le hge, List.take_of_length_le]
    rwa [length_registerAll]

/-- As many entries are added as answers say so. -/
theorem size_registerAll (registry : Registry) (files : List RegisteredFile) :
    (registry.registerAll files).2.size =
      registry.size + (registry.registerAll files).1.count true := by
  induction files generalizing registry with
  | nil => rfl
  | cons file rest ih =>
    simp only [registerAll]
    rw [ih, size_register, List.count_cons]
    cases (registry.register file).1 with
    | true => exact Nat.add_right_comm _ 1 _
    | false => rfl

section FirstEntries

variable {registry : Registry} {earlier : List RegisteredFile}
  (h : ∀ fileHash, registry.get? fileHash = earliest? earlier fileHash)

include h

theorem get?_register_concat (file : RegisteredFile) (fileHash : String) :
    (registry.register file).2.get? fileHash = earliest? (earlier ++ [file]) fileHash := by
  rw [get?_register, h, earliest?_concat]

/-- The first entries stay the files' own, whatever is registered after them. -/
theorem get?_registerAll (files : List RegisteredFile) (fileHash : String) :
    (registry.registerAll files).2.get? fileHash = earliest? (earlier ++ files) fileHash := by
  induction files generalizing registry earlier with
  | nil =>
    rw [List.append_nil]
    exact h fileHash
  | cons file rest ih =>
    have hrest := ih (get?_register_concat h file)
    rwa [List.append_assoc, List.singleton_append] at hrest

/-- An entry is added exactly if none was made for its file before. -/
theorem getElem?_registerAll (files : List RegisteredFile) (index : Nat) :
    (registry.registerAll files).1[index]? = files[index]?.map fun file =>
      decide (file.fileHash ∉ (earlier ++ files.take index).map RegisteredFile.fileHash) := by
  induction files generalizing registry earlier index with
  | nil => rfl
  | cons file rest ih =>
    cases index with
    | zero =>
      have hadded : (registry.register file).1 =
          decide (file.fileHash ∉ earlier.map RegisteredFile.fileHash) := by
        rw [register_fst, h, Bool.eq_iff_iff, Bool.not_eq_true', decide_eq_true_iff,
          ← isSome_earliest?_iff, Bool.not_eq_true]
      simp [registerAll, hadded]
    | succ index =>
      have hrest := ih (get?_register_concat h file) index
      rwa [List.append_assoc, List.singleton_append] at hrest

end FirstEntries

/-- Whatever entries are registered in an empty registry, an entry is added exactly if it is the
    first for its file, and after each registration the registry has just the first entries, as
    many as were added.  In another order the same files have entries, and as many are added. -/
theorem registerAll_first_wins (files : List RegisteredFile) :
    let (answers, registry) := Registry.empty.registerAll files
    (∀ index, answers[index]? = files[index]?.map fun file =>
        decide (∀ earlier ∈ files.take index, earlier.fileHash ≠ file.fileHash)) ∧
      (∀ count,
        let (given, registry) := Registry.empty.registerAll (files.take count)
        given = answers.take count ∧ FirstWins (files.take count) registry ∧
          registry.size = given.count true) ∧
      ∀ reordered, files.Perm reordered →
        let (answers', registry') := Registry.empty.registerAll reordered
        (∀ fileHash, registry'.contains fileHash = registry.contains fileHash) ∧
          answers'.count true = answers.count true := by
  have hempty : ∀ fileHash, Registry.empty.get? fileHash = earliest? [] fileHash :=
    fun fileHash => get?_empty fileHash
  have hsize (files : List RegisteredFile) : (Registry.empty.registerAll files).2.size =
      (Registry.empty.registerAll files).1.count true := by
    rw [size_registerAll]
    exact Nat.zero_add _
  have hfirst (files : List RegisteredFile) :
      FirstWins files (Registry.empty.registerAll files).2 :=
    firstWins_of_get? (get?_registerAll hempty files)
  refine ⟨fun index => ?_, fun count => ⟨registerAll_take _ files count, hfirst _, hsize _⟩,
    fun reordered hperm => ⟨fun fileHash => ?_, ?_⟩⟩
  · rw [getElem?_registerAll hempty, List.nil_append]
    simp only [List.mem_map, not_exists, not_and, ne_eq]
  · have hhashes := hperm.map RegisteredFile.fileHash
    rw [contains_eq_isSome, contains_eq_isSome, (hfirst reordered).get?_eq, (hfirst files).get?_eq,
      Bool.eq_iff_iff, isSome_earliest?_iff, isSome_earliest?_iff, hhashes.mem_iff]
  · have hhashes := (hperm.map RegisteredFile.fileHash).dedup
    rw [← hsize, ← hsize, (hfirst reordered).size_eq, (hfirst files).size_eq, hhashes.length_eq]

end ShardVault.Registry

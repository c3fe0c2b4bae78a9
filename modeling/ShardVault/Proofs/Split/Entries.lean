import ShardVault.Proofs.Code.Shard
import ShardVault.Proofs.Registry
import ShardVault.Proofs.Split.Stored
import ShardVault.Proofs.Stripe

/-!
The entries of contents.  Of all contents with one digest the first that is registered has the
entry, and it tells how many stripes and chunks there are of that content (`Registers`).
-/

namespace ShardVault

/-- An entry but for its time. -/
def RegisteredFile.timeless (file : RegisteredFile) : RegisteredFile :=
  { file with storedAt := .epoch }

namespace Splitter

variable (splitter : Splitter)

/-- The first of contents that has a digest. -/
def first? (contents : List Bytes) (fileHash : String) : Option Bytes :=
  contents.find? fun content => decide ((Digest.of content).hex = fileHash)

/-- The digests of contents, as the names of their files. -/
def hashes (contents : List Bytes) : List String :=
  contents.map fun content => (Digest.of content).hex

/-- The entry of a content but for its time. -/
def entryOf (content : Bytes) : RegisteredFile :=
  entry (splitter.record content) content.length .epoch

/-- The registry has the entries of the first contents, whenever they were made. -/
def Registers (contents : List Bytes) (registry : Registry) : Prop :=
  ∀ fileHash, (registry.get? fileHash).map RegisteredFile.timeless =
    (first? contents fileHash).map splitter.entryOf

variable {splitter} {contents : List Bytes} {content : Bytes} {registry : Registry}
  {fileHash : String}

theorem first?_concat (contents : List Bytes) (content : Bytes) (fileHash : String) :
    first? (contents ++ [content]) fileHash =
      (first? contents fileHash).or
        (if (Digest.of content).hex = fileHash then some content else none) := by
  rw [first?, List.find?_append, List.find?_singleton, ← first?]
  simp only [decide_eq_true_eq]

theorem hex_of_first? (h : first? contents fileHash = some content) :
    (Digest.of content).hex = fileHash := by
  have hfound := List.find?_some h
  exact of_decide_eq_true hfound

theorem isSome_first?_iff : (first? contents fileHash).isSome ↔ fileHash ∈ hashes contents := by
  rw [first?, List.find?_isSome, hashes, List.mem_map]
  simp

theorem hashes_concat (contents : List Bytes) (content : Bytes) :
    hashes (contents ++ [content]) = hashes contents ++ [(Digest.of content).hex] := by
  rw [hashes, List.map_append]
  rfl

/-- Among contents with digests of their own the order does not matter. -/
theorem first?_perm {contents' : List Bytes} (hperm : contents.Perm contents')
    (hdistinct : Set.InjOn Digest.of {content | content ∈ contents}) (fileHash : String) :
    first? contents fileHash = first? contents' fileHash := by
  cases hfirst : first? contents fileHash with
  | none =>
    have hnone := List.find?_eq_none.mp hfirst
    refine (List.find?_eq_none.mpr fun content hcontent => ?_).symm
    exact hnone content (hperm.mem_iff.mpr hcontent)
  | some content =>
    have hhash := hex_of_first? hfirst
    have hmem : content ∈ contents := List.mem_of_find?_eq_some hfirst
    have hthere : fileHash ∈ hashes contents' := by
      rw [← hhash]
      exact List.mem_map_of_mem (hperm.mem_iff.mp hmem)
    obtain ⟨other, hother⟩ := Option.isSome_iff_exists.mp (isSome_first?_iff.mpr hthere)
    have hmem' : other ∈ contents := hperm.mem_iff.mpr (List.mem_of_find?_eq_some hother)
    have hdigest : Digest.of content = Digest.of other :=
      Digest.hex_injective (hhash.trans (hex_of_first? hother).symm)
    rw [hother, hdistinct hmem hmem' hdigest]

theorem registers_empty : splitter.Registers [] .empty := by
  intro fileHash
  rw [Registry.get?_empty, first?, List.find?_nil, Option.map_none, Option.map_none]

/-- A content that is registered has the entry of its digest, unless another has it already. -/
theorem Registers.concat (h : splitter.Registers contents registry) (content : Bytes)
    (now : Instant) :
    splitter.Registers (contents ++ [content])
      (registry.register (entry (splitter.record content) content.length now)).2 := by
  intro fileHash
  have hown : (entry (splitter.record content) content.length now).fileHash =
    (Digest.of content).hex := rfl
  rw [Registry.get?_register, first?_concat, Option.map_or, Option.map_or, h fileHash, hown]
  by_cases hcontent : (Digest.of content).hex = fileHash
  · rw [if_pos hcontent, if_pos hcontent]
    rfl
  · rw [if_neg hcontent, if_neg hcontent, Option.map_none, Option.map_none]

theorem Registers.contains_iff (h : splitter.Registers contents registry) :
    registry.contains fileHash ↔ fileHash ∈ hashes contents := by
  have hsome := congrArg Option.isSome (h fileHash)
  rw [Option.isSome_map, Option.isSome_map] at hsome
  rw [Registry.contains_eq_isSome, hsome, isSome_first?_iff]

theorem Registers.get? (h : splitter.Registers contents registry)
    (hfirst : first? contents fileHash = some content) :
    ∃ file, registry.get? fileHash = some file ∧ file.timeless = splitter.entryOf content := by
  have hentry := h fileHash
  rw [hfirst, Option.map_some] at hentry
  exact Option.map_eq_some_iff.mp hentry

/-! ## Counts -/

theorem length_stripes_record (content : Bytes) :
    (splitter.record content).stripes.length =
      (content.length + splitter.stripeSize - 1) / splitter.stripeSize := by
  rw [record, FileRecord.new, List.length_map, Stripe.length_segment splitter.stripeSize_pos]

/-- Every stripe has as many chunks as the scheme makes shards. -/
theorem chunkCount_record (content : Bytes) :
    (splitter.record content).chunkCount =
      splitter.scheme.n * (splitter.record content).stripes.length := by
  have hstripe : ∀ stripe ∈ (splitter.record content).stripes,
      stripe.chunks.length = splitter.scheme.n := by
    intro stripe hstripe
    obtain ⟨bytes, -, rfl⟩ := List.mem_map.mp hstripe
    rw [recordOf, List.length_map, requests, List.length_map, Scheme.length_encode]
  rw [FileRecord.chunkCount, List.length_flatMap, List.map_congr_left hstripe, List.map_const',
    List.sum_replicate, smul_eq_mul, Nat.mul_comm]

end Splitter

end ShardVault

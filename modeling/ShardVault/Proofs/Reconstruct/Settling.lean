import ShardVault.Proofs.Reconstruct.Mixed

/-!
Calls that end in any order.  Which chunks of a stripe are kept depends on the order: those of the
first `k` calls that gave bytes with the digests recorded (`getElem?_slots_iff`).  What a stripe
comes to from them does not (`collect_settling`).
-/

namespace ShardVault.Reconstructor

/-! ## The first replies -/

section First

variable {hashes : List String}

/-- Among the first replies that count is one with fewer before it that count. -/
theorem mem_take_verifiedReplies {needed : Nat} {replies : List (Nat × Option Bytes)}
    {index : Nat} {data : Bytes} :
    (index, data) ∈ (verifiedReplies hashes replies).take needed ↔
      ∃ before after, replies = before ++ (index, some data) :: after ∧
        hashes[index]? = some (Digest.of data).hex ∧
        (verifiedReplies hashes before).length < needed := by
  constructor
  · intro h
    obtain ⟨earlier, later, htake⟩ := List.append_of_mem h
    have hlength := congrArg List.length htake
    rw [List.length_take, List.length_append, List.length_cons] at hlength
    have hverified : verifiedReplies hashes replies = earlier ++ ((index, data) :: later ++
        (verifiedReplies hashes replies).drop needed) := by
      rw [← List.append_assoc, ← htake, List.take_append_drop]
    obtain ⟨before, rest, rfl, hbefore, hrest⟩ := List.filterMap_eq_append_iff.mp hverified
    -- calls that do not count may stand between
    obtain ⟨skipped, ⟨own, given⟩, after, rfl, hskipped, hreply, -⟩ :=
      List.filterMap_eq_cons_iff.mp hrest
    obtain ⟨held, hheld, heq⟩ := Option.map_eq_some_iff.mp hreply
    obtain ⟨rfl, hhash⟩ := Option.filter_eq_some_iff.mp hheld
    cases heq
    refine ⟨before ++ skipped, after, by rw [List.append_assoc], of_decide_eq_true hhash, ?_⟩
    rw [verifiedReplies, List.filterMap_append, hbefore,
      List.filterMap_eq_nil_iff.mpr hskipped, List.append_nil]
    omega
  · rintro ⟨before, after, rfl, hhash, hfew⟩
    have hverified : verifiedReplies hashes (before ++ (index, some data) :: after) =
        verifiedReplies hashes before ++ (index, data) :: verifiedReplies hashes after := by
      rw [verifiedReplies, List.filterMap_append]
      congr 1
      simp [Option.filter, hhash, verifiedReplies]
    rw [hverified, List.take_append, List.take_of_length_le (Nat.le_of_lt hfew),
      List.take_cons (Nat.sub_pos_of_lt hfew)]
    exact List.mem_append_right _ List.mem_cons_self

end First

end ShardVault.Reconstructor

namespace ShardVault

/-! ## Calls that end -/

/-- How a call to fetch a chunk ended. -/
inductive FetchOutcome
  | answered (response : GetChunkResponse)
  | failed (cause : ServiceError)
  | timedOut
deriving DecidableEq, Repr

/-- The bytes that a call has given. -/
def FetchOutcome.data? : FetchOutcome → Option Bytes
  | .answered response => response.chunkData
  | .failed _ => none
  | .timedOut => none

/-- A call gives bytes only in an answer. -/
theorem FetchOutcome.data?_eq_some_iff {outcome : FetchOutcome} {data : Bytes} :
    outcome.data? = some data ↔ outcome = .answered ⟨some data⟩ := by
  cases outcome with
  | answered response =>
    obtain ⟨given⟩ := response
    simp [data?]
  | failed cause => simp [data?]
  | timedOut => simp [data?]

/-- What a reconstructor sees of a call that has ended. -/
def FetchOutcome.reply (call : Nat × FetchOutcome) : Nat × Option Bytes :=
  (call.1, call.2.data?)

/-- Whether a call has given bytes with the digest recorded for its position. -/
def FetchOutcome.counts (hashes : List String) (call : Nat × FetchOutcome) : Bool :=
  call.2.data?.any fun data => decide (hashes[call.1]? = some (Digest.of data).hex)

theorem FetchOutcome.length_verifiedReplies (hashes : List String)
    (calls : List (Nat × FetchOutcome)) :
    (Reconstructor.verifiedReplies hashes (calls.map reply)).length =
      calls.countP (counts hashes) := by
  rw [Reconstructor.verifiedReplies, List.length_filterMap_eq_countP, List.countP_map]
  congr 1
  funext call
  rw [Function.comp_apply, reply, counts, Option.isSome_map, Option.isSome_filter]

/-- The calls for the chunks of a stripe with how they ended, in the order in which they did.  Each
    of them ends once. -/
structure Settling (count : Nat) where
  ends : List (Nat × FetchOutcome)
  perm : (ends.map Prod.fst).Perm (List.range count)

namespace Settling

/-- The client whose calls for a stripe of so many chunks end so. -/
def client {κ : Type} {count : Nat} (settling : Settling count) : ChunkClient κ where
  store storage _ requests := (requests.map fun _ => .timedOut, storage)
  fetch _ _ requests :=
    if requests.length = count then settling.ends.map FetchOutcome.reply
    else (List.range requests.length).map (·, none)
  length_store _ _ _ := List.length_map _
  fetch_perm _ _ requests := by
    split
    · rename_i hcount
      rw [List.map_map, hcount]
      exact settling.perm
    · rw [List.map_map]
      exact .of_eq (List.map_id _)

variable {hashes : List String} (settling : Settling hashes.length) (k : Nat)

/-- What the slots of the chunks with these digests hold once `k` calls have counted, or else all
    have ended. -/
def slots : List (Option Bytes) :=
  Reconstructor.collected hashes k (settling.ends.map FetchOutcome.reply)

theorem perm_reply :
    ((settling.ends.map FetchOutcome.reply).map Prod.fst).Perm (List.range hashes.length) := by
  rw [List.map_map]
  exact settling.perm

theorem length_slots : (settling.slots k).length = hashes.length :=
  Reconstructor.length_collected k

/-- A slot holds what its own call gave, if that has the digest recorded for it, and fewer than `k`
    calls that count ended before it. -/
theorem getElem?_slots_iff {position : Nat} {data : Bytes} :
    (settling.slots k)[position]? = some (some data) ↔
      ∃ before after, settling.ends = before ++ (position, .answered ⟨some data⟩) :: after ∧
        hashes[position]? = some (Digest.of data).hex ∧
        before.countP (FetchOutcome.counts hashes) < k := by
  rw [slots, Reconstructor.getElem?_collected_iff k settling.perm_reply,
    Reconstructor.mem_take_verifiedReplies]
  constructor
  · rintro ⟨before, after, hends, hhash, hfew⟩
    obtain ⟨earlier, rest, hsplit, rfl, hrest⟩ := List.map_eq_append_iff.mp hends
    obtain ⟨⟨own, outcome⟩, later, rfl, hcall, -⟩ := List.map_eq_cons_iff.mp hrest
    obtain ⟨rfl, hdata⟩ := Prod.mk.inj hcall
    obtain rfl := FetchOutcome.data?_eq_some_iff.mp hdata
    rw [FetchOutcome.length_verifiedReplies] at hfew
    exact ⟨earlier, later, hsplit, hhash, hfew⟩
  · rintro ⟨before, after, hends, hhash, hfew⟩
    refine ⟨before.map FetchOutcome.reply, after.map FetchOutcome.reply, ?_, hhash, ?_⟩
    · rw [hends, List.map_append, List.map_cons]
      rfl
    · rw [FetchOutcome.length_verifiedReplies]
      exact hfew

/-- As many slots are filled as there are calls that count, but no more than `k`. -/
theorem countP_slots :
    (settling.slots k).countP Option.isSome =
      min k (settling.ends.countP (FetchOutcome.counts hashes)) := by
  rw [slots, Reconstructor.countP_collected k settling.perm_reply,
    FetchOutcome.length_verifiedReplies]

/-- Bytes in a slot came with an answer and have the digest recorded. -/
theorem of_getElem?_slots {position : Nat} {data : Bytes}
    (h : (settling.slots k)[position]? = some (some data)) :
    (position, .answered ⟨some data⟩) ∈ settling.ends ∧
      hashes[position]? = some (Digest.of data).hex := by
  obtain ⟨before, after, hends, hhash, -⟩ := (settling.getElem?_slots_iff k).mp h
  refine ⟨?_, hhash⟩
  rw [hends]
  exact List.mem_append_right _ List.mem_cons_self

end Settling

namespace Reconstructor

/-! ## What a stripe comes to -/

/-- A stripe comes back from the slots of calls for its shards if at least `k` of the calls count,
    and otherwise their number is told, whatever their order. -/
theorem reconstructStripe_slots (reconstructor : Reconstructor) (stripe : Bytes)
    (settling : Settling (reconstructor.scheme.stripeRecord stripe).chunkHashes.length)
    (hdistinct : ∀ position data, (position, .answered ⟨some data⟩) ∈ settling.ends →
      ∀ shard ∈ reconstructor.scheme.encode stripe,
        Digest.of data = Digest.of shard.data → data = shard.data) :
    let scheme := reconstructor.scheme
    let record := scheme.stripeRecord stripe
    let counted := settling.ends.countP (FetchOutcome.counts record.chunkHashes)
    reconstructor.reconstructStripe record (settling.slots scheme.k) =
      if counted < scheme.k then .error (.insufficientShards counted scheme.k)
      else .ok stripe := by
  intro scheme record counted
  have hlength := scheme.length_chunkHashes_stripeRecord stripe
  have hslots := settling.length_slots scheme.k
  have hhash (position : Nat) (data : Bytes)
      (h : (settling.slots scheme.k)[position]? = some (some data)) :=
    (settling.of_getElem?_slots scheme.k h).2
  have hhold : scheme.HoldShards stripe (verified record (settling.slots scheme.k)) := by
    refine holdShards_verified (hslots.trans hlength) fun data hdata => ?_
    obtain ⟨position, hposition⟩ := List.mem_iff_getElem?.mp hdata
    exact hdistinct position data (settling.of_getElem?_slots scheme.k hposition).1
  rw [verified_eq_self hslots hhash] at hhold
  rw [reconstructStripe_of_shards rfl hlength hhold hhash, settling.countP_slots]
  by_cases hfew : counted < scheme.k
  · rw [Nat.min_eq_right (Nat.le_of_lt hfew), if_pos hfew]
  · rw [Nat.min_eq_left (Nat.not_lt.mp hfew), if_neg (Nat.lt_irrefl _), if_neg hfew]

/-- Calls for the chunks of any stripe, ending in any order and any way.  A slot holds what its own
    call gave, exactly if that has the digest recorded and fewer than `k` calls that count ended
    before.  So `min k` slots are filled, none of which reconstruction leaves out; and a stripe
    comes to the same from the slots, whichever of the calls for its shards ended first. -/
theorem collect_settling (record : StripeRecord) (settling : Settling record.chunkHashes.length)
    (k : Nat) :
    let hashes := record.chunkHashes
    let slots := settling.slots k
    let counted := settling.ends.countP (FetchOutcome.counts hashes)
    (∀ {κ : Type} (reconstructor : Reconstructor) (client : ChunkClient κ) (storage : Storage κ)
      (index : Nat), reconstructor.scheme.k = k →
      client.fetch storage index (hashes.map fun hash => ⟨hash⟩) =
        settling.ends.map FetchOutcome.reply →
      reconstructor.fetchShards client storage index record = slots) ∧
    slots.length = hashes.length ∧
    (∀ position data, slots[position]? = some (some data) ↔
      ∃ before after, settling.ends = before ++ (position, .answered ⟨some data⟩) :: after ∧
        hashes[position]? = some (Digest.of data).hex ∧
        before.countP (FetchOutcome.counts hashes) < k) ∧
    slots.countP Option.isSome = min k counted ∧
    verified record slots = slots ∧
    (∀ (reconstructor : Reconstructor) (stripe : Bytes), reconstructor.scheme.k = k →
      record = reconstructor.scheme.stripeRecord stripe →
      (∀ position data, (position, .answered ⟨some data⟩) ∈ settling.ends →
        ∀ shard ∈ reconstructor.scheme.encode stripe,
          Digest.of data = Digest.of shard.data → data = shard.data) →
      reconstructor.reconstructStripe record slots =
        (if counted < k then .error (.insufficientShards counted k) else .ok stripe) ∧
      ∀ other : Settling hashes.length, other.ends.Perm settling.ends →
        reconstructor.reconstructStripe record (other.slots k) =
          reconstructor.reconstructStripe record slots) := by
  intro hashes slots counted
  refine ⟨?_, settling.length_slots k, fun position data => ?_, settling.countP_slots k, ?_, ?_⟩
  · intro κ reconstructor client storage index hk hfetch
    rw [fetchShards, hfetch, hk]
    rfl
  · exact settling.getElem?_slots_iff k
  · exact verified_eq_self (settling.length_slots k) fun position data hslot =>
      (settling.of_getElem?_slots k hslot).2
  · rintro reconstructor stripe rfl rfl hdistinct
    have hstripe := reconstructStripe_slots reconstructor stripe settling hdistinct
    refine ⟨hstripe, fun other hperm => ?_⟩
    have hother := reconstructStripe_slots reconstructor stripe other
      fun position data hdata => hdistinct position data (hperm.mem_iff.mp hdata)
    rw [hstripe, hother, hperm.countP_eq]

/-! ## Three calls -/

/-- The calls for three shards, which are all answered with the shards. -/
def answeredCalls : List (Nat × FetchOutcome) :=
  [(2, .answered ⟨some [11]⟩), (0, .answered ⟨some [7]⟩), (1, .answered ⟨some [1]⟩)]

/-- The calls for three shards, in an order that they can end in. -/
def settled (calls : List (Nat × FetchOutcome)) (h : calls.Perm answeredCalls) :
    Settling (Scheme.twoOfThree.stripeRecord [7]).chunkHashes.length where
  ends := calls
  perm := by
    rw [Scheme.length_chunkHashes_stripeRecord]
    exact (h.map _).trans (by decide)

theorem digests_twoOfThree {position : Nat} {data : Bytes}
    (h : (position, .answered ⟨some data⟩) ∈ answeredCalls) :
    ∀ shard ∈ Scheme.twoOfThree.encode [7],
      Digest.of data = Digest.of shard.data → data = shard.data := by
  have hfirst : Digest.of [1] ≠ Digest.of [7] := Digest.of_ne_of_finish (by decide +kernel)
  have hthird : Digest.of [1] ≠ Digest.of [11] := Digest.of_ne_of_finish (by decide +kernel)
  have hother : Digest.of [11] ≠ Digest.of [7] := Digest.of_ne_of_finish (by decide +kernel)
  rw [Scheme.encode_twoOfThree]
  intro shard hshard
  simp only [answeredCalls, List.mem_cons, List.not_mem_nil, or_false, Prod.mk.injEq,
    FetchOutcome.answered.injEq, GetChunkResponse.mk.injEq, Option.some.injEq] at h
  simp only [List.mem_cons, List.not_mem_nil, or_false] at hshard
  rcases h with ⟨-, rfl⟩ | ⟨-, rfl⟩ | ⟨-, rfl⟩ <;> rcases hshard with rfl | rfl | rfl <;>
    simp [hfirst, hfirst.symm, hthird, hthird.symm, hother, hother.symm]

theorem collect_settling_sample :
    let reconstructor : Reconstructor := ⟨.twoOfThree, .sample⟩
    let record := Scheme.twoOfThree.stripeRecord [7]
    let settling := settled answeredCalls (.refl _)
    let other := settled answeredCalls.reverse (List.reverse_perm _)
    reconstructor.fetchShards settling.client ⟨(), .empty⟩ 0 record = settling.slots 2 ∧
      reconstructor.reconstructStripe record (settling.slots 2) = .ok [7] ∧
      reconstructor.reconstructStripe record (other.slots 2) = .ok [7] := by
  intro reconstructor record settling other
  obtain ⟨hfetch, -, -, -, -, hstripe⟩ := collect_settling record settling 2
  obtain ⟨hfirst, horder⟩ := hstripe reconstructor [7] rfl rfl fun _ _ h => digests_twoOfThree h
  have hcounted : settling.ends.countP (FetchOutcome.counts record.chunkHashes) = 3 := by
    have hhashes := Scheme.twoOfThree.chunkHashes_stripeRecord [7]
    rw [Scheme.encode_twoOfThree] at hhashes
    simp [settling, settled, answeredCalls, FetchOutcome.counts, FetchOutcome.data?, record,
      hhashes]
  rw [hcounted] at hfirst
  have hok : reconstructor.reconstructStripe record (settling.slots 2) = .ok [7] := hfirst
  refine ⟨hfetch reconstructor settling.client ⟨(), .empty⟩ 0 rfl (if_pos ?_), hok, ?_⟩
  · rw [List.length_map]
  · rw [horder other (List.reverse_perm _), hok]

end Reconstructor

end ShardVault

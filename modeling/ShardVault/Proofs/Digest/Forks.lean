import Mathlib.Data.List.Induction
import ShardVault.Proofs.Digest.Incremental

/-!
Hashers that are copied.  Hashers are made, fed, copied and finished in any order, and are numbered
as they are made.  What a hasher finishes with is the digest of the bytes fed along its own line:
what its ancestors had read when the copies were made, and then its own pieces (`run_of_legal`).
What is done to any other hasher leaves it as it is.
-/

namespace ShardVault.Hasher

/-! ## Actions -/

/-- One thing done with hashers. -/
inductive Action
  | new
  | update (number : Nat) (piece : Bytes)
  | clone (number : Nat)
  /-- Asks for the digest of a hasher, which is gone then. -/
  | finalize (number : Nat)
deriving DecidableEq, Repr

namespace Action

/-- Whether an action makes a hasher. -/
def makes : Action → Bool
  | new => true
  | clone _ => true
  | _ => false

/-- The hasher that an action needs. -/
def needed? : Action → Option Nat
  | new => none
  | update number _ => some number
  | clone number => some number
  | finalize number => some number

/-- The hasher that an action changes.  Copying changes none. -/
def changed? : Action → Option Nat
  | update number _ => some number
  | finalize number => some number
  | _ => none

end Action

/-- The hashers made so far by their numbers; those that are gone have left their place empty. -/
abbrev Bench := List (Option Hasher)

namespace Bench

/-- The hasher of a number, if there is one. -/
def hasher? (bench : Bench) (number : Nat) : Option Hasher :=
  bench[number]?.join

/-- Does one action: the digest that was asked for, and the hashers after it.  It cannot be done
    without the hasher that it needs. -/
def act (bench : Bench) : Action → Option (Option Digest × Bench)
  | .new => some (none, bench ++ [some Hasher.new])
  | .update number piece =>
    (bench.hasher? number).map fun hasher =>
      (none, bench.set number (some (hasher.update piece)))
  | .clone number =>
    (bench.hasher? number).map fun hasher => (none, bench ++ [some hasher])
  | .finalize number =>
    (bench.hasher? number).map fun hasher => (some hasher.finish, bench.set number none)

end Bench

/-- Does one more action; its answer goes behind the others. -/
def next : List (Option Digest) × Bench → Action → Option (List (Option Digest) × Bench)
  | (answers, bench), action =>
    (bench.act action).map fun (answer, bench) => (answers ++ [answer], bench)

/-- Does actions in order, beginning with no hashers: the answer of each, and the hashers in the
    end. -/
def run (actions : List Action) : Option (List (Option Digest) × Bench) :=
  actions.foldlM next ([], [])

/-! ## Lines of hashers -/

/-- How many hashers actions make. -/
def made (actions : List Action) : Nat :=
  actions.countP Action.makes

/-- The bytes along the line of a hasher, from actions with the latest first.  Where the hasher was
    made as a copy its line goes on with the hasher that was copied. -/
def line : List Action → Nat → Bytes
  | [], _ => []
  | .new :: earlier, number => if number = made earlier then [] else line earlier number
  | .update own piece :: earlier, number =>
    if number = own then line earlier number ++ piece else line earlier number
  | .clone own :: earlier, number =>
    if number = made earlier then line earlier own else line earlier number
  | .finalize _ :: earlier, number => line earlier number

/-- The bytes fed to a hasher and, before that, to its ancestors. -/
def fed (actions : List Action) (number : Nat) : Bytes :=
  line actions.reverse number

/-- The hasher was made and is not gone. -/
def Alive (actions : List Action) (number : Nat) : Prop :=
  number < made actions ∧ .finalize number ∉ actions

instance (actions : List Action) (number : Nat) : Decidable (Alive actions number) :=
  inferInstanceAs (Decidable (_ ∧ _))

/-- Every action is done with a hasher that is there. -/
def Legal (actions : List Action) : Prop :=
  ∀ (index : Nat) (h : index < actions.length), ∀ number ∈ actions[index].needed?,
    Alive (actions.take index) number

instance (actions : List Action) : Decidable (Legal actions) :=
  inferInstanceAs (Decidable (∀ (index : Nat) (_ : index < _), _))

/-- The hasher has read these bytes, and has counted them. -/
structure Knows (hasher : Hasher) (bytes : Bytes) : Prop where
  read : hasher.HasRead bytes
  counted : hasher.bytesProcessed = UInt64.ofNat bytes.length

theorem knows_new : Hasher.new.Knows [] :=
  ⟨hasRead_new, rfl⟩

theorem Knows.update {hasher : Hasher} {bytes : Bytes} (h : hasher.Knows bytes) (piece : Bytes) :
    (hasher.update piece).Knows (bytes ++ piece) where
  read := h.read.update piece
  counted := by
    rw [Hasher.update, h.counted, List.length_append, UInt64.ofNat_add]

/-- The count is right as long as it fits. -/
theorem Knows.toNat_bytesProcessed {hasher : Hasher} {bytes : Bytes} (h : hasher.Knows bytes)
    (hlength : bytes.length < UInt64.size) : hasher.bytesProcessed.toNat = bytes.length := by
  rw [h.counted, UInt64.toNat_ofNat_of_lt' hlength]

/-! ## One action -/

namespace Bench

theorem hasher?_concat (bench : Bench) (held : Option Hasher) (number : Nat) :
    hasher? (bench ++ [held]) number =
      if number = bench.length then held else bench.hasher? number := by
  rw [hasher?, hasher?]
  split
  · rename_i hnumber
    rw [hnumber, List.getElem?_concat_length]
    rfl
  · rename_i hnumber
    rcases Nat.lt_or_gt_of_ne hnumber with hlt | hgt
    · rw [List.getElem?_append_left hlt]
    · have hlength : (bench ++ [held]).length ≤ number := by
        rw [List.length_append, List.length_singleton]
        exact hgt
      rw [List.getElem?_eq_none hlength, List.getElem?_eq_none (Nat.le_of_lt hgt)]

theorem lt_length_of_hasher? {bench : Bench} {number : Nat} {hasher : Hasher}
    (h : bench.hasher? number = some hasher) : number < bench.length := by
  rw [hasher?, Option.join_eq_some_iff] at h
  exact (List.getElem?_eq_some_iff.mp h).1

theorem hasher?_set {bench : Bench} {own : Nat} (hown : own < bench.length)
    (held : Option Hasher) (number : Nat) :
    hasher? (bench.set own held) number =
      if number = own then held else bench.hasher? number := by
  rw [hasher?, hasher?]
  split
  · rename_i hnumber
    rw [hnumber, List.getElem?_set_self hown]
    rfl
  · rename_i hnumber
    rw [List.getElem?_set_ne (Ne.symm hnumber)]

/-- An action that does not change a hasher leaves it as it is. -/
theorem hasher?_act {bench after : Bench} {action : Action} {answer : Option Digest}
    (h : bench.act action = some (answer, after)) {number : Nat} (hnumber : number < bench.length)
    (haction : action.changed? ≠ some number) :
    after.hasher? number = bench.hasher? number ∧ bench.length ≤ after.length := by
  have hne : number ≠ bench.length := Nat.ne_of_lt hnumber
  cases action with
  | new =>
    cases h
    rw [hasher?_concat, if_neg hne, List.length_append]
    exact ⟨rfl, Nat.le_add_right _ _⟩
  | clone own =>
    obtain ⟨hasher, -, hact⟩ := Option.map_eq_some_iff.mp h
    cases hact
    rw [hasher?_concat, if_neg hne, List.length_append]
    exact ⟨rfl, Nat.le_add_right _ _⟩
  | update own piece =>
    obtain ⟨hasher, hown, hact⟩ := Option.map_eq_some_iff.mp h
    cases hact
    have hother : number ≠ own := fun heq => haction (congrArg some heq.symm)
    rw [hasher?_set (lt_length_of_hasher? hown), if_neg hother, List.length_set]
    exact ⟨rfl, Nat.le_refl _⟩
  | finalize own =>
    obtain ⟨hasher, hown, hact⟩ := Option.map_eq_some_iff.mp h
    cases hact
    have hother : number ≠ own := fun heq => haction (congrArg some heq.symm)
    rw [hasher?_set (lt_length_of_hasher? hown), if_neg hother, List.length_set]
    exact ⟨rfl, Nat.le_refl _⟩

end Bench

theorem made_concat (actions : List Action) (action : Action) :
    made (actions ++ [action]) = made actions + if action.makes then 1 else 0 := by
  rw [made, List.countP_append, List.countP_singleton, made]

theorem fed_concat (actions : List Action) (action : Action) (number : Nat) :
    fed (actions ++ [action]) number =
      match action with
      | .new => if number = made actions then [] else fed actions number
      | .update own piece =>
        if number = own then fed actions number ++ piece else fed actions number
      | .clone own => if number = made actions then fed actions own else fed actions number
      | .finalize _ => fed actions number := by
  have hmade : made actions.reverse = made actions := List.countP_reverse
  rw [fed, List.reverse_append, List.reverse_singleton, List.singleton_append]
  cases action <;> simp only [line, hmade, fed]

theorem legal_concat_iff {actions : List Action} {action : Action} :
    Legal (actions ++ [action]) ↔
      Legal actions ∧ ∀ number ∈ action.needed?, Alive actions number := by
  have hlength : (actions ++ [action]).length = actions.length + 1 := by
    rw [List.length_append, List.length_singleton]
  constructor
  · intro h
    constructor
    · intro index hindex
      have hown := h index (by omega)
      rwa [List.getElem_append_left hindex,
        List.take_append_of_le_length (Nat.le_of_lt hindex)] at hown
    · have hlast := h actions.length (by omega)
      rwa [List.getElem_concat_length rfl, List.take_left] at hlast
  · rintro ⟨hactions, haction⟩ index hindex
    rcases Nat.lt_or_ge index actions.length with hlt | hge
    · rw [List.getElem_append_left hlt, List.take_append_of_le_length (Nat.le_of_lt hlt)]
      exact hactions index hlt
    · have hlast : index = actions.length := by omega
      subst hlast
      rw [List.getElem_concat_length rfl, List.take_left]
      exact haction

/-- The hashers are those that actions have left, and each knows the bytes of its line. -/
structure Tracks (actions : List Action) (bench : Bench) : Prop where
  length : bench.length = made actions
  lt_made : ∀ number, .finalize number ∈ actions → number < made actions
  alive_iff : ∀ number, Alive actions number ↔ ∃ hasher, bench.hasher? number = some hasher
  knows : ∀ number hasher, bench.hasher? number = some hasher → hasher.Knows (fed actions number)

theorem tracks_nil : Tracks [] [] where
  length := rfl
  lt_made := by simp
  alive_iff := by simp [Alive, made, Bench.hasher?]
  knows := by simp [Bench.hasher?]

namespace Tracks

variable {actions : List Action} {bench : Bench} (h : Tracks actions bench)

include h

/-- An action that makes a hasher which knows the bytes that its line begins with. -/
theorem concat_of_makes {action : Action} (hmakes : action.makes = true) {hasher : Hasher}
    {bytes : Bytes} (hknows : hasher.Knows bytes)
    (hfed : ∀ number, fed (actions ++ [action]) number =
      if number = made actions then bytes else fed actions number) :
    Tracks (actions ++ [action]) (bench ++ [some hasher]) := by
  have hmade : made (actions ++ [action]) = made actions + 1 := by
    rw [made_concat, if_pos hmakes]
  have haction (number : Nat) :
      .finalize number ∈ actions ++ [action] ↔ .finalize number ∈ actions := by
    have hne : .finalize number ≠ action := by
      rintro rfl
      cases hmakes
    simp [hne]
  refine ⟨?_, ?_, ?_, ?_⟩
  · rw [List.length_append, h.length, hmade, List.length_singleton]
  · intro number hnumber
    have hlt := h.lt_made number ((haction number).mp hnumber)
    omega
  · intro number
    rw [Bench.hasher?_concat, h.length, Alive, hmade, haction]
    split
    · rename_i heq
      have hfresh : .finalize number ∉ actions := fun hmem => by
        have hlt := h.lt_made number hmem
        omega
      exact ⟨fun _ => ⟨hasher, rfl⟩, fun _ => ⟨by omega, hfresh⟩⟩
    · rename_i hne
      rw [← h.alive_iff, Alive]
      exact and_congr_left fun _ => by omega
  · intro number own hown
    rw [Bench.hasher?_concat, h.length] at hown
    rw [hfed]
    split at hown
    · rename_i heq
      cases hown
      rw [if_pos heq]
      exact hknows
    · rename_i hne
      rw [if_neg hne]
      exact h.knows number own hown

theorem concat_update {number : Nat} {hasher : Hasher}
    (hhasher : bench.hasher? number = some hasher) (piece : Bytes) :
    Tracks (actions ++ [.update number piece])
      (bench.set number (some (hasher.update piece))) := by
  have hlt := Bench.lt_length_of_hasher? hhasher
  have hmade : made (actions ++ [.update number piece]) = made actions := made_concat _ _
  refine ⟨?_, ?_, ?_, ?_⟩
  · rw [List.length_set, h.length, hmade]
  · intro own hown
    rw [hmade]
    exact h.lt_made own (by simpa using hown)
  · intro own
    have halive : Alive (actions ++ [.update number piece]) own ↔ Alive actions own := by
      simp [Alive, hmade]
    rw [halive, h.alive_iff, Bench.hasher?_set hlt]
    split
    · rename_i heq
      rw [heq, hhasher]
      simp
    · rfl
  · intro own other hother
    rw [Bench.hasher?_set hlt] at hother
    simp only [fed_concat]
    split at hother
    · rename_i heq
      cases hother
      rw [if_pos heq, heq]
      exact (h.knows number hasher hhasher).update piece
    · rename_i hne
      rw [if_neg hne]
      exact h.knows own other hother

theorem concat_finalize {number : Nat} {hasher : Hasher}
    (hhasher : bench.hasher? number = some hasher) :
    Tracks (actions ++ [.finalize number]) (bench.set number none) := by
  have hlt := Bench.lt_length_of_hasher? hhasher
  have hmade : made (actions ++ [.finalize number]) = made actions := made_concat _ _
  have hmem (own : Nat) : .finalize own ∈ actions ++ [.finalize number] ↔
      .finalize own ∈ actions ∨ own = number := by simp
  refine ⟨?_, ?_, ?_, ?_⟩
  · rw [List.length_set, h.length, hmade]
  · intro own hown
    rw [hmade]
    rcases (hmem own).mp hown with hown | rfl
    · exact h.lt_made own hown
    · rw [← h.length]
      exact hlt
  · intro own
    rw [Bench.hasher?_set hlt, Alive, hmade, hmem]
    split
    · rename_i heq
      simp [heq]
    · rename_i hne
      rw [← h.alive_iff, Alive]
      simp [hne]
  · intro own other hother
    rw [Bench.hasher?_set hlt] at hother
    simp only [fed_concat]
    split at hother
    · cases hother
    · exact h.knows own other hother

/-- Every action whose hasher is there can be done; one that asks for a digest is given that of the
    bytes along the line. -/
theorem concat {action : Action} (haction : ∀ number ∈ action.needed?, Alive actions number) :
    ∃ answer after, bench.act action = some (answer, after) ∧ Tracks (actions ++ [action]) after ∧
      ∀ number, action = .finalize number → answer = some (Digest.of (fed actions number)) := by
  cases action with
  | new =>
    exact ⟨_, _, rfl, h.concat_of_makes rfl knows_new fun number => fed_concat _ _ _,
      fun number heq => by cases heq⟩
  | update own piece =>
    obtain ⟨hasher, hhasher⟩ := (h.alive_iff own).mp (haction own rfl)
    exact ⟨_, _, by rw [Bench.act, hhasher]; rfl, h.concat_update hhasher piece,
      fun number heq => by cases heq⟩
  | clone own =>
    obtain ⟨hasher, hhasher⟩ := (h.alive_iff own).mp (haction own rfl)
    exact ⟨_, _, by rw [Bench.act, hhasher]; rfl,
      h.concat_of_makes rfl (h.knows own hasher hhasher) fun number => fed_concat _ _ _,
      fun number heq => by cases heq⟩
  | finalize own =>
    obtain ⟨hasher, hhasher⟩ := (h.alive_iff own).mp (haction own rfl)
    refine ⟨_, _, by rw [Bench.act, hhasher]; rfl, h.concat_finalize hhasher, ?_⟩
    intro number heq
    cases heq
    rw [(h.knows own hasher hhasher).read.finish]

end Tracks

/-! ## Runs -/

theorem run_concat {actions : List Action} {answers : List (Option Digest)} {bench after : Bench}
    {action : Action} {answer : Option Digest} (h : run actions = some (answers, bench))
    (hact : bench.act action = some (answer, after)) :
    run (actions ++ [action]) = some (answers ++ [answer], after) := by
  rw [run] at h
  simp [run, List.foldlM_append, h, next, hact]

/-- Legal actions can be done, and their hashers know their lines. -/
theorem tracks_run {actions : List Action} (h : Legal actions) :
    ∃ answers bench, run actions = some (answers, bench) ∧ Tracks actions bench ∧
      answers.length = actions.length ∧
      ∀ index number, actions[index]? = some (.finalize number) →
        answers[index]? = some (some (Digest.of (fed (actions.take index) number))) := by
  induction actions using List.reverseRecOn with
  | nil => exact ⟨[], [], rfl, tracks_nil, rfl, fun index number hindex => by simp at hindex⟩
  | append_singleton actions action ih =>
    obtain ⟨hactions, haction⟩ := legal_concat_iff.mp h
    obtain ⟨answers, bench, hrun, htracks, hlength, hanswers⟩ := ih hactions
    obtain ⟨answer, after, hact, hafter, hanswer⟩ := htracks.concat haction
    refine ⟨answers ++ [answer], after, run_concat hrun hact, hafter, by simp [hlength], ?_⟩
    intro index number hindex
    rcases Nat.lt_or_ge index actions.length with hlt | hge
    · rw [List.getElem?_append_left hlt] at hindex
      rw [List.getElem?_append_left (by omega), hanswers index number hindex,
        List.take_append_of_le_length (Nat.le_of_lt hlt)]
    · have hlast : index = actions.length := by
        have hbound := (List.getElem?_eq_some_iff.mp hindex).1
        rw [List.length_append, List.length_singleton] at hbound
        omega
      subst hlast
      rw [List.getElem?_concat_length] at hindex
      rw [← hlength, List.getElem?_concat_length, hanswer number (Option.some.inj hindex),
        hlength, List.take_left]

/-- A hasher that later actions do not change is what it was before them. -/
theorem hasher?_run_append {earlier later : List Action} {number : Nat}
    (hnumber : number < made earlier) (hlater : ∀ action ∈ later, action.changed? ≠ some number)
    (h : Legal (earlier ++ later)) :
    ∃ answers before answers' after, run earlier = some (answers, before) ∧
      run (earlier ++ later) = some (answers', after) ∧
      after.hasher? number = before.hasher? number ∧ number < after.length := by
  induction later using List.reverseRecOn with
  | nil =>
    rw [List.append_nil] at h ⊢
    obtain ⟨answers, bench, hrun, htracks, -⟩ := tracks_run h
    exact ⟨answers, bench, answers, bench, hrun, hrun, rfl, by rw [htracks.length]; exact hnumber⟩
  | append_singleton later action ih =>
    rw [List.forall_mem_append, List.forall_mem_singleton] at hlater
    rw [← List.append_assoc] at h
    rw [← List.append_assoc]
    obtain ⟨hinitial, hneeded⟩ := legal_concat_iff.mp h
    obtain ⟨answers, before, answers', bench, hearlier, hrun, hsame, hlt⟩ :=
      ih hlater.1 hinitial
    obtain ⟨_, _, hown, htracks, -⟩ := tracks_run hinitial
    rw [hrun] at hown
    cases hown
    obtain ⟨answer, after, hact, -⟩ := htracks.concat hneeded
    obtain ⟨hkept, hlength⟩ := Bench.hasher?_act hact hlt hlater.2
    exact ⟨answers, before, answers' ++ [answer], after, hearlier,
      run_concat hrun hact, hkept.trans hsame, Nat.lt_of_lt_of_le hlt hlength⟩

/-- Actions can be done as long as each is done with a hasher that is there.  Whoever asks for the
    digest of a hasher is given that of the bytes fed along its line; the hashers that are there in
    the end would give the digests of theirs, and have counted them as far as a count can go.  What
    is not done to a hasher itself does not change it, be it done to copies of it or to
    ancestors. -/
theorem run_of_legal {actions : List Action} (h : Legal actions) :
    ∃ answers bench, run actions = some (answers, bench) ∧
      (∀ index number, actions[index]? = some (.finalize number) →
        answers[index]? = some (some (Digest.of (fed (actions.take index) number)))) ∧
      (∀ number, Alive actions number → ∃ hasher, bench.hasher? number = some hasher ∧
        hasher.finish = Digest.of (fed actions number) ∧
        ((fed actions number).length < UInt64.size →
          hasher.bytesProcessed.toNat = (fed actions number).length)) ∧
      ∀ earlier later number, actions = earlier ++ later → Alive earlier number →
        (∀ action ∈ later, action.changed? ≠ some number) →
        ∃ answers' before, run earlier = some (answers', before) ∧
          bench.hasher? number = before.hasher? number := by
  obtain ⟨answers, bench, hrun, htracks, -, hanswers⟩ := tracks_run h
  refine ⟨answers, bench, hrun, hanswers, ?_, ?_⟩
  · intro number halive
    obtain ⟨hasher, hhasher⟩ := (htracks.alive_iff number).mp halive
    have hknows := htracks.knows number hasher hhasher
    exact ⟨hasher, hhasher, hknows.read.finish, hknows.toNat_bytesProcessed⟩
  · intro earlier later number hactions halive hlater
    subst hactions
    obtain ⟨answers', before, _, after, hearlier, hafter, hsame, -⟩ :=
      hasher?_run_append halive.1 hlater h
    rw [hrun] at hafter
    cases hafter
    exact ⟨answers', before, hearlier, hsame⟩

/-- A copy taken in the middle of a run: what is fed to either of the two is not fed to the other,
    and the one that is finished has its own digest. -/
theorem run_of_legal_sample :
    Legal [.new, .update 0 [1], .clone 0, .update 1 [2], .update 0 [3], .finalize 1] ∧
      ∃ answers bench hasher,
        run [.new, .update 0 [1], .clone 0, .update 1 [2], .update 0 [3], .finalize 1] =
          some (answers, bench) ∧
        answers[5]? = some (some (Digest.of [1, 2])) ∧ bench.hasher? 0 = some hasher ∧
        hasher.finish = Digest.of [1, 3] ∧ hasher.bytesProcessed.toNat = 2 := by
  have hlegal :
      Legal [.new, .update 0 [1], .clone 0, .update 1 [2], .update 0 [3], .finalize 1] := by
    decide
  obtain ⟨answers, bench, hrun, hanswers, hhashers, -⟩ := run_of_legal hlegal
  obtain ⟨hasher, hhasher, hfinish, hcount⟩ := hhashers 0 (by decide)
  exact ⟨hlegal, answers, bench, hasher, hrun, hanswers 5 1 rfl, hhasher, hfinish,
    hcount (by decide)⟩

end ShardVault.Hasher

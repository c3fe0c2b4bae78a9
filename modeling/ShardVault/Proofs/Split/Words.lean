import ShardVault.Proofs.Split.Endings
import ShardVault.Proofs.Text.Listing
import ShardVault.Split.Service

/-!
What the words of a split tell.  A service answers a request with a report or an error, or in words.
The words tell what kind of answer it is and which stripes have chunks that are not stored; what is
said of these chunks comes after the first colon, and is never taken for something else
(`SplitService.splitFile_tells`).
-/

namespace ShardVault

/-! ## Kinds of answers -/

/-- What the words of an answer tell. -/
inductive SplitKind
  /-- The file of this digest is stored. -/
  | stored (fileHash : String)
  /-- Chunks of the stripes at these positions are not stored. -/
  | unstored (stripes : List Nat)
  /-- Something else went wrong. -/
  | failed
deriving DecidableEq, Repr

namespace SplitKind

/-- The kind of an answer; there is none if the split broke off. -/
def of? : Except (Stop ServiceError) SplitReport → Option SplitKind
  | .ok report => some (.stored report.fileHash)
  | .error .crash => none
  | .error (.refused (.storage (.splitFailed failures))) =>
    some (.unstored (failures.map StripeFailure.stripeIndex))
  | .error (.refused _) => some .failed

/-- The part of a message before its first colon. -/
def heading (message : String) : String :=
  String.ofList (message.toList.takeWhile (· ≠ ':'))

/-- A message tells that an answer is of a kind. -/
def Tells (message : String) : SplitKind → Prop
  | stored fileHash => message = "File split and stored successfully: " ++ fileHash
  | unstored stripes =>
    heading message =
      "File split failed for stripe(s) " ++ ", ".intercalate (stripes.map Decimal.text)
  | failed => ∃ reason, message = "File split failed: " ++ reason

/-- What the messages of a kind begin with. -/
def opening : SplitKind → String
  | stored _ => "File split and stored successfully"
  | unstored stripes =>
    "File split failed for stripe(s) " ++ ", ".intercalate (stripes.map Decimal.text)
  | failed => "File split failed"

theorem opening_unstored (stripes : List Nat) :
    (unstored stripes).opening =
      "File split failed for stripe(s) " ++ ", ".intercalate (stripes.map Decimal.text) :=
  rfl

theorem colon_not_mem_opening (kind : SplitKind) : ':' ∉ kind.opening.toList := by
  cases kind with
  | stored fileHash =>
    change ':' ∉ "File split and stored successfully".toList
    decide
  | unstored stripes =>
    rw [opening_unstored, String.toList_append, List.mem_append, not_or]
    exact ⟨by decide, Decimal.colon_not_mem_intercalate stripes⟩
  | failed =>
    change ':' ∉ "File split failed".toList
    decide

/-- What begins with the opening of a kind and goes on with a colon has it as its heading. -/
theorem heading_opening_append (kind : SplitKind) (rest : String) :
    heading (kind.opening ++ ": " ++ rest) = kind.opening := by
  have hall : ∀ c ∈ kind.opening.toList, decide (c ≠ ':') = true := by
    intro c hc
    rw [decide_eq_true_iff]
    rintro rfl
    exact kind.colon_not_mem_opening hc
  have hstop : (": ".toList ++ rest.toList).takeWhile (fun c => decide (c ≠ ':')) = [] := rfl
  rw [heading, String.toList_append, String.toList_append, List.append_assoc,
    List.takeWhile_append_of_pos hall, hstop, List.append_nil, String.ofList_toList]

/-- The heading of a message is the opening of its kind. -/
theorem Tells.heading_eq {message : String} {kind : SplitKind} (h : kind.Tells message) :
    heading message = kind.opening := by
  cases kind with
  | stored fileHash =>
    have hcolon : ("File split and stored successfully: " : String) =
      "File split and stored successfully" ++ ": " := by decide
    rw [show message = _ from h, hcolon]
    exact heading_opening_append (stored fileHash) fileHash
  | unstored stripes => exact h
  | failed =>
    obtain ⟨reason, hreason⟩ := h
    have hcolon : ("File split failed: " : String) = "File split failed" ++ ": " := by decide
    rw [hreason, hcolon]
    exact heading_opening_append failed reason

theorem getElem?_opening_unstored (stripes : List Nat) {index : Nat} (h : index < 32) :
    (unstored stripes).opening.toList[index]? =
      "File split failed for stripe(s) ".toList[index]? := by
  have hlength : "File split failed for stripe(s) ".toList.length = 32 := by decide
  rw [opening_unstored, String.toList_append]
  exact List.getElem?_append_left (Nat.lt_of_lt_of_eq h hlength.symm)

/-- Kinds have openings of their own; only the digest of a file comes later. -/
theorem eq_of_opening_eq {kind kind' : SplitKind} (h : kind.opening = kind'.opening) :
    kind = kind' ∨ ∃ fileHash fileHash', kind = stored fileHash ∧ kind' = stored fileHash' := by
  -- the twelfth character tells what is stored, and the eighteenth what else went wrong
  have hstored (stripes : List Nat) (fileHash : String) :
      opening (.unstored stripes) ≠ opening (.stored fileHash) := by
    intro heq
    have hchar := getElem?_opening_unstored stripes (show 11 < 32 by decide)
    rw [heq] at hchar
    change "File split and stored successfully".toList[11]? = _ at hchar
    exact absurd hchar (by decide)
  have hfailed (stripes : List Nat) : opening (.unstored stripes) ≠ opening .failed := by
    intro heq
    have hchar := getElem?_opening_unstored stripes (show 17 < 32 by decide)
    rw [heq] at hchar
    change "File split failed".toList[17]? = _ at hchar
    exact absurd hchar (by decide)
  have hopenings : "File split and stored successfully" ≠ "File split failed" := by decide
  cases kind with
  | stored fileHash =>
    cases kind' with
    | stored fileHash' => exact .inr ⟨_, _, rfl, rfl⟩
    | unstored stripes => exact absurd h.symm (hstored stripes fileHash)
    | failed => exact absurd h hopenings
  | unstored stripes =>
    cases kind' with
    | stored fileHash => exact absurd h (hstored stripes fileHash)
    | unstored stripes' =>
      exact .inl (congrArg unstored
        (Decimal.intercalate_text_injective ((String.append_right_inj _).mp h)))
    | failed => exact absurd h (hfailed stripes)
  | failed =>
    cases kind' with
    | stored fileHash => exact absurd h.symm hopenings
    | unstored stripes => exact absurd h.symm (hfailed stripes)
    | failed => exact .inl rfl

/-- A message tells of one kind. -/
theorem Tells.unique {message : String} {kind kind' : SplitKind} (h : kind.Tells message)
    (h' : kind'.Tells message) : kind = kind' := by
  rcases eq_of_opening_eq (h.heading_eq.symm.trans h'.heading_eq) with
    heq | ⟨fileHash, fileHash', rfl, rfl⟩
  · exact heq
  · exact congrArg stored ((String.append_right_inj _).mp (h.symm.trans h'))

/-- Failures are announced with the positions of their stripes. -/
theorem words_splitFailed (failures : List StripeFailure) :
    SplitService.words (.error (.refused (.storage (.splitFailed failures)))) =
      some ⟨(unstored (failures.map StripeFailure.stripeIndex)).opening ++ ": " ++
        (StorageError.splitFailed failures).message⟩ := by
  rw [opening_unstored, List.map_map]
  rfl

theorem words_refused {e : ServiceError} (h : ∀ failures, e ≠ .storage (.splitFailed failures)) :
    SplitService.words (.error (.refused e)) = some ⟨"File split failed: " ++ e.message⟩ := by
  cases e with
  | unavailable reason => rfl
  | storage cause =>
    cases cause with
    | splitFailed failures => exact absurd rfl (h failures)
    | _ => rfl

theorem of?_refused {e : ServiceError} (h : ∀ failures, e ≠ .storage (.splitFailed failures)) :
    of? (.error (.refused e)) = some failed := by
  cases e with
  | unavailable reason => rfl
  | storage cause =>
    cases cause with
    | splitFailed failures => exact absurd rfl (h failures)
    | _ => rfl

/-- The words of an answer tell of its kind. -/
theorem tells_of_words {outcome : Except (Stop ServiceError) SplitReport}
    {response : SplitFileResponse} (h : SplitService.words outcome = some response) :
    ∃ kind, of? outcome = some kind ∧ kind.Tells response.message := by
  rcases outcome with (e | _) | report
  · by_cases hfailed : ∃ failures, e = .storage (.splitFailed failures)
    · obtain ⟨failures, rfl⟩ := hfailed
      rw [words_splitFailed] at h
      obtain rfl := Option.some.inj h
      exact ⟨_, rfl, heading_opening_append _ _⟩
    · have hne : ∀ failures, e ≠ .storage (.splitFailed failures) :=
        fun failures he => hfailed ⟨failures, he⟩
      rw [words_refused hne] at h
      obtain rfl := Option.some.inj h
      exact ⟨failed, of?_refused hne, _, rfl⟩
  · cases h
  · obtain rfl := Option.some.inj h
    exact ⟨stored report.fileHash, rfl, rfl⟩

end SplitKind

namespace SplitService

variable {κ : Type}

/-- There are words for every answer that there is. -/
theorem words_eq_none_iff {outcome : Except (Stop ServiceError) SplitReport} :
    words outcome = none ↔ outcome = .error .crash := by
  constructor
  · intro h
    rcases outcome with (e | _) | report
    · rcases e with reason | cause
      · cases h
      · cases cause <;> cases h
    · rfl
    · cases h
  · rintro rfl
    rfl

/-- The message of an answer tells of its kind and of no other. -/
theorem tells_iff {service : SplitService κ} {now : Instant} {storage : Storage κ}
    {registry : Registry} {request : SplitFileRequest} {response : SplitFileResponse}
    (h : (service.splitFile now storage registry request).1 = some response) (kind : SplitKind) :
    SplitKind.of? (service.split now storage registry request).1 = some kind ↔
      kind.Tells response.message := by
  have hwords : words (service.split now storage registry request).1 = some response := h
  obtain ⟨own, hown, htells⟩ := SplitKind.tells_of_words hwords
  rw [hown, Option.some_inj]
  exact ⟨fun heq => heq ▸ htells, htells.unique⟩

/-- The kind of an answer is settled by the stripes with calls that failed, if there are any. -/
theorem kind_split (service : SplitService κ) (now : Instant) (storage : Storage κ)
    (registry : Registry) (request : SplitFileRequest) :
    let kind := SplitKind.of? (service.split now storage registry request).1
    let failed := Splitter.failedStripes
      (service.splitter.endings service.client storage request.content)
    (failed ≠ [] ∧ kind = some (.unstored failed)) ∨
      (failed = [] ∧ (kind = some (.stored (Digest.of request.content).hex) ∨
        kind = some .failed ∨ kind = none)) := by
  intro kind failed
  have hkind : kind = SplitKind.of? ((service.splitter.split service.client now storage registry
    request.content).1.mapError (Stop.map .storage)) := rfl
  rcases service.splitter.split_endings service.client now storage registry request.content with
    ⟨hne, failures, hresult, hindexes⟩ | ⟨hnone, ⟨report, hresult, hhash⟩ | ⟨stop, hresult, hstop⟩⟩
  · rw [hresult] at hkind
    have hunstored : kind = some (.unstored (failures.map StripeFailure.stripeIndex)) := hkind
    rw [hindexes] at hunstored
    exact .inl ⟨hne, hunstored⟩
  · rw [hresult] at hkind
    have hstored : kind = some (.stored report.fileHash) := hkind
    rw [hhash] at hstored
    exact .inr ⟨hnone, .inl hstored⟩
  · rw [hresult] at hkind
    refine .inr ⟨hnone, .inr ?_⟩
    cases stop with
    | crash => exact .inr hkind
    | refused cause =>
      refine .inl (hkind.trans (SplitKind.of?_refused fun failures he => ?_))
      exact hstop failures (congrArg Stop.refused (ServiceError.storage.inj he))

/-- Stripes are named exactly if there are stripes with calls that failed, and then it is these. -/
theorem unstored_iff (service : SplitService κ) (now : Instant) (storage : Storage κ)
    (registry : Registry) (request : SplitFileRequest) (stripes : List Nat) :
    SplitKind.of? (service.split now storage registry request).1 = some (.unstored stripes) ↔
      stripes ≠ [] ∧ stripes = Splitter.failedStripes
        (service.splitter.endings service.client storage request.content) := by
  rcases service.kind_split now storage registry request with ⟨hne, hown⟩ | ⟨hnone, hown⟩
  · rw [hown, Option.some_inj]
    constructor
    · intro h
      cases h
      exact ⟨hne, rfl⟩
    · rintro ⟨-, rfl⟩
      rfl
  · rw [hnone]
    constructor
    · intro h
      rcases hown with hown | hown | hown <;> cases hown.symm.trans h
    · rintro ⟨hne, heq⟩
      exact absurd heq hne

/-- What is stored is stored under its digest. -/
theorem fileHash_of_stored {service : SplitService κ} {now : Instant} {storage : Storage κ}
    {registry : Registry} {request : SplitFileRequest} {fileHash : String}
    (h : SplitKind.of? (service.split now storage registry request).1 = some (.stored fileHash)) :
    fileHash = (Digest.of request.content).hex := by
  rcases service.kind_split now storage registry request with
    ⟨-, hown⟩ | ⟨-, hown | hown | hown⟩ <;> cases hown.symm.trans h
  rfl

/-- Words change what the report would change, and there are none only if the split breaks off.
    Their message tells of a kind exactly if the answer is of it: that the file is stored, under its
    digest; or which stripes have chunks that are not stored, and these are the ones with calls that
    failed, in order; or that something else went wrong.  So answers with one message are of one
    kind. -/
theorem splitFile_tells (service : SplitService κ) (now : Instant) (storage : Storage κ)
    (registry : Registry) (request : SplitFileRequest) :
    let answer := service.split now storage registry request
    let inWords := service.splitFile now storage registry request
    let kind := SplitKind.of? answer.1
    let endings := service.splitter.endings service.client storage request.content
    inWords.2 = answer.2 ∧
      (inWords.1 = none ↔ answer.1 = .error .crash) ∧
      (∀ response, inWords.1 = some response →
        ∀ told, kind = some told ↔ told.Tells response.message) ∧
      (∀ fileHash, kind = some (.stored fileHash) → fileHash = (Digest.of request.content).hex) ∧
      (∀ stripes, kind = some (.unstored stripes) →
        stripes.Pairwise (· < ·) ∧ ∀ index, index ∈ stripes ↔
          ∃ ended, endings[index]? = some ended ∧ ∃ outcome ∈ ended, outcome ≠ .success) ∧
      ((∃ stripes, kind = some (.unstored stripes)) ↔
        ∃ ended ∈ endings, ∃ outcome ∈ ended, outcome ≠ .success) ∧
      ∀ (κ' : Type) (service' : SplitService κ') (now' : Instant) (storage' : Storage κ')
        (registry' : Registry) (request' : SplitFileRequest)
        (response response' : SplitFileResponse),
        inWords.1 = some response →
        (service'.splitFile now' storage' registry' request').1 = some response' →
        response.message = response'.message →
        kind = SplitKind.of? (service'.split now' storage' registry' request').1 := by
  intro answer inWords kind endings
  have hwords : inWords.1 = words answer.1 := rfl
  have hunstored := service.unstored_iff now storage registry request
  refine ⟨rfl, ?_, fun response => tells_iff, fun fileHash => fileHash_of_stored,
    fun stripes hkind => ?_, ?_, ?_⟩
  · rw [hwords, words_eq_none_iff]
  · obtain ⟨-, rfl⟩ := (hunstored stripes).mp hkind
    exact ⟨Splitter.ascending_failedStripes endings, fun index => Splitter.mem_failedStripes⟩
  · rw [← Splitter.failedStripes_ne_nil_iff]
    constructor
    · rintro ⟨stripes, hkind⟩
      obtain ⟨hne, rfl⟩ := (hunstored stripes).mp hkind
      exact hne
    · intro hne
      exact ⟨_, (hunstored _).mpr ⟨hne, rfl⟩⟩
  · intro κ' service' now' storage' registry' request' response response' hresponse hresponse'
      hmessage
    have hwords' : words (service'.split now' storage' registry' request').1 = some response' :=
      hresponse'
    obtain ⟨own, hown, htells⟩ := SplitKind.tells_of_words hwords'
    rw [← hmessage] at htells
    exact ((tells_iff hresponse own).mpr htells).trans hown.symm

end SplitService

end ShardVault

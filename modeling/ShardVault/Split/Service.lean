import ShardVault.Split

/-!
The splitting service.  It splits the content of a request and answers with a report or an error, or
in words.
-/

namespace ShardVault

/-- What splits contents on request: a splitter with its way to chunk storage. -/
structure SplitService (κ : Type) where
  splitter : Splitter
  client : ChunkClient κ

namespace SplitService

variable {κ : Type}

/-- Splits the content of a request: a report, or an error with all that failed. -/
def split (service : SplitService κ) (now : Instant) (storage : Storage κ) (registry : Registry)
    (request : SplitFileRequest) :
    Except (Stop ServiceError) SplitReport × Storage κ × Registry :=
  let (result, storage, registry) :=
    service.splitter.split service.client now storage registry request.content
  (result.mapError (Stop.map .storage), storage, registry)

/-- An answer in words; there are none if the split broke off. -/
def words : Except (Stop ServiceError) SplitReport → Option SplitFileResponse
  | .ok report => SplitFileResponse.of? (.ok report)
  | .error .crash => SplitFileResponse.of? (.error .crash)
  | .error (.refused (.storage cause)) => SplitFileResponse.of? (.error (.refused cause))
  | .error (.refused (.unavailable reason)) =>
    some ⟨"File split failed: " ++ (ServiceError.unavailable reason).message⟩

/-- Splits the content of a request and answers in words. -/
def splitFile (service : SplitService κ) (now : Instant) (storage : Storage κ)
    (registry : Registry) (request : SplitFileRequest) :
    Option SplitFileResponse × Storage κ × Registry :=
  let (outcome, storage, registry) := service.split now storage registry request
  (words outcome, storage, registry)

end SplitService

end ShardVault

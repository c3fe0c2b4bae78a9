import ShardVault.Chunk.Backend

/-!
A backend under impaired conditions: its puts and gets take time, and then may fail whatever they
were asked.
-/

namespace ShardVault

/-- The conditions that a backend works under; times are in milliseconds. -/
structure Conditions where
  putDelay : Nat
  getDelay : Nat
  putFault : Option String
  getFault : Option String
deriving DecidableEq, Repr

/-- Nothing is slow, and nothing fails. -/
def Conditions.fair : Conditions :=
  ⟨0, 0, none, none⟩

/-- A backend and its conditions. -/
structure Impaired (κ : Type) where
  chunks : κ
  conditions : Conditions

/-- The storage of the backend alone. -/
def Storage.unimpaired {κ : Type} (storage : Storage (Impaired κ)) : Storage κ :=
  ⟨storage.chunks.chunks, storage.files⟩

/-- The storage of a backend, under conditions. -/
def Storage.impaired {κ : Type} (storage : Storage κ) (conditions : Conditions) :
    Storage (Impaired κ) :=
  ⟨⟨storage.chunks, conditions⟩, storage.files⟩

instance {κ : Type} [ChunkBackend κ] : ChunkBackend (Impaired κ) where
  put storage digest data :=
    match storage.chunks.conditions.putFault with
    | some reason => (.error (.io reason), storage)
    | none =>
      let (result, inner) := ChunkBackend.put storage.unimpaired digest data
      (result, inner.impaired storage.chunks.conditions)
  get? storage digest :=
    match storage.chunks.conditions.getFault with
    | some reason => .error (.io reason)
    | none => ChunkBackend.get? storage.unimpaired digest
  contains storage digest := ChunkBackend.contains storage.unimpaired digest
  putTime backend := backend.conditions.putDelay + ChunkBackend.putTime backend.chunks
  getTime backend := backend.conditions.getDelay + ChunkBackend.getTime backend.chunks

end ShardVault

import ShardVault.Proofs.Json.Codec
import ShardVault.Proofs.Json.RoundTrip
import ShardVault.Record

/-!
Records in documents.  A record is read back from its JSON form and from its document
(`ofDocument?_document`), whatever texts it holds.
-/

namespace ShardVault

open Json (decode?_encode decode_record)

instance : Json.LawfulCodec ChunkRecord where
  decode?_encode _ _ := decode_record rfl (by decide) rfl

instance : Json.LawfulCodec StripeRecord where
  decode?_encode stripe _ := by
    have hstripe := decode?_encode stripe.stripeHash trivial
    have hchunks := decode?_encode stripe.chunks fun _ _ => trivial
    exact decode_record rfl (by decide) (by simp [Json.required, hstripe, hchunks])

namespace FileRecord

/-- The record of a file is read back from its document. -/
theorem ofDocument?_document (record : FileRecord) :
    ofDocument? record.fileHash record.document = some record := by
  have hstripes := decode?_encode record.stripes fun _ _ => trivial
  rw [ofDocument?, document, Json.parse_render Json.Layout.blank_indented, Option.bind_eq_bind,
    Option.bind_some]
  exact decode_record rfl (by decide) (by simp [Json.required, hstripes])

end FileRecord

end ShardVault

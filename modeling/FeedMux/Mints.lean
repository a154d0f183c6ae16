import FeedMux.Config
import FeedMux.Library.Base58

/-!
# Mints as texts

A mint is the base58 text of a 32-byte key, at least 32 characters long.
-/

namespace FeedMux
open FeedMux.Library

/-- The `bs58` crate encodes with the Bitcoin alphabet. -/
def Bs58.IsBase58 (bs58 : Bs58) : Prop := ∀ bytes, bs58.encode bytes = base58Encode bytes

theorem Bs58.IsBase58.length_encode {bs58 : Bs58} (hb : bs58.IsBase58) (key : Pubkey) :
    32 ≤ (bs58.encode key.bytes).toList.length := by
  have h := length_le_base58Encode key.bytes
  rwa [← hb, key.length_eq] at h

/-- Decoding is inverse to encoding, and accepts nothing but encodings. -/
structure Bs58.Inverse (bs58 : Bs58) : Prop where
  decode_encode : ∀ bytes, bs58.decode (bs58.encode bytes) = .ok bytes
  encode_decode : ∀ text bytes, bs58.decode text = .ok bytes → bs58.encode bytes = text

def base58Codec : Bs58 := ⟨base58Encode, base58Decode⟩

theorem base58Codec_isBase58 : base58Codec.IsBase58 := fun _ => rfl

theorem base58Codec_inverse : base58Codec.Inverse where
  decode_encode _ := base58Decode_eq_ok.mpr rfl
  encode_decode _ _ h := base58Decode_eq_ok.mp h

end FeedMux

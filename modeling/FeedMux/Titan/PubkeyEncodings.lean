import FeedMux.Titan.RowKeys

/-!
# Public keys on the wire (`src/titan_quote.rs`, `src/config.rs`)

A key is sent as a binary, as an array of integers or as a base58 text between
blanks. The three are read as the same text, and nothing else is read as a key
(`pubkey_encodings`).
-/

namespace FeedMux.Titan
open FeedMux.Library

/-! ## Base58 texts -/

theorem alphabet_graphic : ∀ c ∈ base58Alphabet, 0x20 < c.toNat ∧ c.toNat < 0x80 := by
  unfold base58Alphabet
  simp

theorem encode_not_whitespace {bs58 : Bs58} (hb : bs58.IsBase58) (bytes : Bytes) :
    ∀ c ∈ (bs58.encode bytes).toList, isWhitespace c = false := by
  intro c hc
  rw [hb] at hc
  obtain ⟨hlow, hhigh⟩ := alphabet_graphic c (base58Encode_mem hc)
  exact isWhitespace_graphic hlow hhigh

/-- The base58 text of the key, between blanks. -/
def IsTextOf (bs58 : Bs58) (key : Pubkey) (text : String) : Prop :=
  ∃ front back : String, text = front ++ bs58.encode key.bytes ++ back ∧
    (∀ c ∈ front.toList, isWhitespace c) ∧ ∀ c ∈ back.toList, isWhitespace c

theorem isTextOf_iff {bs58 : Bs58} (hb : bs58.IsBase58) (key : Pubkey) (text : String) :
    IsTextOf bs58 key text ↔ String.ofList (trim text.toList) = bs58.encode key.bytes := by
  rw [trim_eq]
  constructor
  · rintro ⟨front, back, rfl, hfront, hback⟩
    rw [String.toList_append, String.toList_append, strip_append_right hback,
      strip_append_left hfront, strip_eq_self (encode_not_whitespace hb _), String.ofList_toList]
  · intro h
    obtain ⟨front, back, htext, hfront, hback⟩ := exists_strip isWhitespace text.toList
    refine ⟨String.ofList front, String.ofList back, ?_, ?_, ?_⟩
    · rw [← h, ← String.toList_inj]
      simp only [String.toList_append, String.toList_ofList, List.append_assoc]
      exact htext
    · rwa [String.toList_ofList]
    · rwa [String.toList_ofList]

/-- A wallet is read from a text exactly if the text is one of it. -/
theorem parseWalletPubkey_eq_ok {bs58 : Bs58} (hb : bs58.IsBase58) (hi : bs58.Inverse)
    (text : String) (key : Pubkey) :
    parseWalletPubkey bs58 text = .ok key ↔ IsTextOf bs58 key text := by
  rw [isTextOf_iff hb]
  unfold parseWalletPubkey
  constructor
  · intro h
    dsimp only at h
    split at h
    · cases h
    · split at h
      · cases h
      · rename_i decoded hdec
        split at h
        · obtain rfl := Except.ok.inj h
          exact (hi.encode_decode _ _ hdec).symm
        · cases h
  · intro h
    have hlen := hb.length_encode key
    have hne : (trim text.toList).isEmpty = false := by
      rw [← h, String.toList_ofList] at hlen
      rw [List.isEmpty_eq_false_iff]
      intro hnil
      rw [hnil] at hlen
      simp at hlen
    simp only [hne, h, hi.decode_encode, key.length_eq, Bool.false_eq_true, ↓reduceIte,
      ↓reduceDIte]

/-! ## The three encodings -/

/-- The value is the key in one of its encodings. -/
inductive Encodes (bs58 : Bs58) (key : Pubkey) : Value → Prop where
  | binary : Encodes bs58 key (.binary key.bytes)
  | array (items : List Value)
      (h : List.Forall₂ (fun item b => valueAsU64 item = some b.toUInt64) items key.bytes) :
    Encodes bs58 key (.array items)
  | text (text : String) (h : IsTextOf bs58 key text) : Encodes bs58 key (.string (.valid text))

theorem valueAsU8_eq_some (item : Value) (b : UInt8) :
    valueAsU8 item = some b ↔ valueAsU64 item = some b.toUInt64 := by
  have hbyte : ∀ n : UInt64, (if n.toNat < 256 then some n.toUInt8 else none) = some b ↔
      n = b.toUInt64 := by
    intro n
    rw [Option.ite_none_right_eq_some, Option.some.injEq, ← UInt8.toNat_inj, ← UInt64.toNat_inj,
      UInt64.toNat_toUInt8, UInt8.toNat_toUInt64]
    have hb := b.toNat_lt
    omega
  unfold valueAsU8
  cases valueAsU64 item with
  | none => simp
  | some n => rw [Option.bind_some, hbyte, Option.some.injEq]

theorem pubkey_eq_some {bytes : Bytes} {key : Pubkey} :
    (if h : bytes.length = 32 then some (Pubkey.mk bytes h) else none) = some key ↔
      bytes = key.bytes := by
  constructor
  · intro h
    split at h
    · obtain rfl := Option.some.inj h
      rfl
    · cases h
  · rintro rfl
    exact dif_pos key.length_eq

theorem pubkeyBytes_array (bs58 : Bs58) (items : List Value) (key : Pubkey) :
    pubkeyBytes bs58 (.array items) = some key ↔
      List.Forall₂ (fun item b => valueAsU64 item = some b.toUInt64) items key.bytes := by
  simp only [← valueAsU8_eq_some, ← mapM_eq_some_iff]
  have hread : pubkeyBytes bs58 (.array items) = if items.length = 32 then
      (items.mapM valueAsU8).bind fun bytes =>
        if h : bytes.length = 32 then some ⟨bytes, h⟩ else none
      else none := rfl
  rw [hread, Option.ite_none_right_eq_some, Option.bind_eq_some_iff]
  constructor
  · rintro ⟨-, bytes, hbytes, hkey⟩
    rw [hbytes, pubkey_eq_some.mp hkey]
  · intro h
    have hlen := (mapM_eq_some_iff.mp h).length_eq
    exact ⟨hlen.trans key.length_eq, key.bytes, h, pubkey_eq_some.mpr rfl⟩

theorem pubkeyBytes_text {bs58 : Bs58} (hb : bs58.IsBase58) (hi : bs58.Inverse)
    (text : String) (key : Pubkey) :
    pubkeyBytes bs58 (.string (.valid text)) = some key ↔ IsTextOf bs58 key text := by
  have hread : pubkeyBytes bs58 (.string (.valid text)) =
      (parseWalletPubkey bs58 (String.ofList (trim text.toList))).toOption := by
    simp only [pubkeyBytes, Utf8String.asStr, Option.bind_eq_bind, Option.bind_some]
  have hok : ∀ r : Except String Pubkey, r.toOption = some key ↔ r = .ok key := by
    intro r
    cases r <;> simp [Except.toOption]
  rw [hread, hok, parseWalletPubkey_eq_ok hb hi, isTextOf_iff hb, isTextOf_iff hb,
    String.toList_ofList, trim_eq, trim_eq, strip_strip]

/-- One case for each encoding, and nothing else is read. -/
theorem pubkeyBytes_iff {bs58 : Bs58} (hb : bs58.IsBase58) (hi : bs58.Inverse) (value : Value)
    (key : Pubkey) : pubkeyBytes bs58 value = some key ↔ Encodes bs58 key value := by
  constructor
  · intro h
    cases value with
    | binary bytes =>
      obtain rfl := pubkey_eq_some.mp h
      exact .binary
    | array items => exact .array items ((pubkeyBytes_array bs58 items key).mp h)
    | string s =>
      cases s with
      | valid text => exact .text text ((pubkeyBytes_text hb hi text key).mp h)
      | invalid bytes => cases h
    | nil | boolean | integer | f32 | f64 | map | ext => cases h
  · intro h
    cases h with
    | binary => exact pubkey_eq_some.mpr rfl
    | array items h => exact (pubkeyBytes_array bs58 items key).mpr h
    | text text h => exact (pubkeyBytes_text hb hi text key).mpr h

/-- **Keys.** A value is read as a text exactly if it encodes a key in one of the
three ways, and then as the base58 text of that key. -/
theorem pubkey_encodings (bs58 : Bs58) (hb : bs58.IsBase58) (hi : bs58.Inverse) (value : Value)
    (text : String) :
    valueAsPubkeyBase58 bs58 value = some text ↔
      ∃ key : Pubkey, Encodes bs58 key value ∧ text = bs58.encode key.bytes := by
  unfold valueAsPubkeyBase58
  rw [Option.map_eq_some_iff]
  refine exists_congr fun key => ?_
  rw [pubkeyBytes_iff hb hi, eq_comm]

theorem pubkey_encodings_sample :
    valueAsPubkeyBase58 base58Codec
        (.string (.valid (" " ++ base58Encode (lowKey 7).bytes ++ "\n"))) =
      some (base58Encode (lowKey 7).bytes) :=
  (pubkey_encodings base58Codec base58Codec_isBase58 base58Codec_inverse _ _).mpr
    ⟨lowKey 7, .text _ ⟨" ", "\n", rfl, by simp [isWhitespace], by simp [isWhitespace]⟩, rfl⟩

end FeedMux.Titan

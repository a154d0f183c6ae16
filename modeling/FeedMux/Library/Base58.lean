import FeedMux.Library.Bytes
import FeedMux.Library.Positional

/-!
# Base58

The Bitcoin alphabet: a leading zero byte is a `1`, and the rest is one number,
written most significant digit first. An encoding is never shorter than its
input (`length_le_base58Encode`). Encoding changes the base of a numeral, so that
decoding undoes it (`base58Decode_eq_ok`).
-/

namespace FeedMux.Library

def base58Alphabet : List Char :=
  "123456789ABCDEFGHJKLMNPQRSTUVWXYZabcdefghijkmnopqrstuvwxyz".toList

/-- The number that the bytes write, most significant first. -/
def fromBeBytes (bytes : Bytes) : Nat := bytes.foldl (fun n b => 256 * n + b.toNat) 0

def leadingZeros (bytes : Bytes) : Nat := (bytes.takeWhile (· == 0)).length

def base58Encode (bytes : Bytes) : String :=
  String.ofList (List.replicate (leadingZeros bytes) '1' ++
    (Nat.digits 58 (fromBeBytes bytes)).reverse.map fun d => base58Alphabet.getD d '1')

theorem le_foldl_fromBeBytes (bytes : Bytes) (n : Nat) :
    n * 256 ^ bytes.length ≤ bytes.foldl (fun n b => 256 * n + b.toNat) n := by
  induction bytes generalizing n with
  | nil => simp
  | cons b bytes ih =>
    refine le_trans ?_ (ih (256 * n + b.toNat))
    rw [List.length_cons, Nat.pow_succ, Nat.mul_comm (256 ^ _), ← Nat.mul_assoc]
    exact Nat.mul_le_mul_right _ (by omega)

theorem fromBeBytes_zero_cons (bytes : Bytes) : fromBeBytes (0 :: bytes) = fromBeBytes bytes := rfl

/-- The digits and the leading ones make up for every byte. -/
theorem length_le_digits (bytes : Bytes) :
    bytes.length ≤ leadingZeros bytes + (Nat.digits 58 (fromBeBytes bytes)).length := by
  induction bytes with
  | nil => simp
  | cons b bytes ih =>
    by_cases hb : b = 0
    · subst hb
      rw [fromBeBytes_zero_cons, List.length_cons]
      have hz : leadingZeros (0 :: bytes) = leadingZeros bytes + 1 := by simp [leadingZeros]
      omega
    · have hpos : 1 ≤ b.toNat := by
        have hne : b.toNat ≠ 0 := fun h => hb (UInt8.toNat_inj.mp h)
        omega
      have hlow : 256 ^ bytes.length ≤ fromBeBytes (b :: bytes) := by
        refine le_trans ?_ (le_foldl_fromBeBytes bytes (256 * 0 + b.toNat))
        exact Nat.le_mul_of_pos_left _ (by omega)
      have hhigh : fromBeBytes (b :: bytes) <
          58 ^ (Nat.digits 58 (fromBeBytes (b :: bytes))).length :=
        Nat.lt_base_pow_length_digits (by decide)
      have hpow : 58 ^ bytes.length < 58 ^ (Nat.digits 58 (fromBeBytes (b :: bytes))).length :=
        lt_of_le_of_lt ((Nat.pow_le_pow_left (by decide) _).trans hlow) hhigh
      have hlen := (Nat.pow_lt_pow_iff_right (by decide)).mp hpow
      rw [List.length_cons]
      omega

theorem length_le_base58Encode (bytes : Bytes) :
    bytes.length ≤ (base58Encode bytes).toList.length := by
  have h := length_le_digits bytes
  simp only [base58Encode, String.toList_ofList, List.length_append, List.length_replicate,
    List.length_map, List.length_reverse]
  exact h

/-! ## Decoding -/

def base58Digit (c : Char) : Option Nat := base58Alphabet.idxOf? c

def base58Char (d : Nat) : Char := base58Alphabet.getD d '1'

theorem base58Digit_char : ∀ d < 58, base58Digit (base58Char d) = some d := by
  decide +kernel

theorem base58Digit_eq_some {c : Char} {d : Nat} (h : base58Digit c = some d) :
    d < 58 ∧ base58Char d = c := by
  obtain ⟨hlt, hget, -⟩ := List.idxOf?_eq_some_iff.mp h
  refine ⟨hlt, ?_⟩
  rw [base58Char, List.getD_eq_getElem _ _ hlt]
  exact hget

theorem base58Char_mem {d : Nat} (h : d < 58) : base58Char d ∈ base58Alphabet := by
  have hlen : base58Alphabet.length = 58 := by decide +kernel
  rw [base58Char, List.getD_eq_getElem _ _ (by omega)]
  exact List.getElem_mem _

def byteNumeral (bytes : Bytes) : Numeral 256 where
  digits := bytes.map UInt8.toNat
  lt_base := by
    intro d hd
    obtain ⟨b, -, rfl⟩ := List.mem_map.mp hd
    exact b.toNat_lt

def Numeral.toBytes (n : Numeral 256) : Bytes := n.digits.map UInt8.ofNat

theorem toBytes_byteNumeral (bytes : Bytes) : (byteNumeral bytes).toBytes = bytes := by
  rw [Numeral.toBytes, byteNumeral, List.map_map]
  conv_rhs => rw [← List.map_id bytes]
  refine List.map_congr_left ?_
  intro b _
  exact UInt8.ofNat_toNat

theorem byteNumeral_toBytes (n : Numeral 256) : byteNumeral n.toBytes = n := by
  ext1
  calc (n.digits.map UInt8.ofNat).map UInt8.toNat
      = n.digits.map fun d => (UInt8.ofNat d).toNat := List.map_map
    _ = n.digits.map id :=
        List.map_congr_left fun d hd => UInt8.toNat_ofNat_of_lt' (n.lt_base d hd)
    _ = n.digits := List.map_id _

theorem zeros_byteNumeral (bytes : Bytes) : (byteNumeral bytes).zeros = leadingZeros bytes := by
  have hzero : (fun d : Nat => d == 0) ∘ UInt8.toNat = fun b => b == 0 := by
    funext b
    exact Bool.eq_iff_iff.mpr (by simp [← UInt8.toNat_inj])
  rw [Numeral.zeros, byteNumeral, List.takeWhile_map, hzero, List.length_map, leadingZeros]

theorem value_byteNumeral (bytes : Bytes) : (byteNumeral bytes).value = fromBeBytes bytes := by
  change Nat.ofDigits 256 (bytes.map UInt8.toNat).reverse = fromBeBytes bytes
  unfold fromBeBytes
  induction bytes using List.reverseRecOn with
  | nil => rfl
  | append_singleton bytes b ih =>
    rw [List.map_append, List.reverse_append, List.foldl_append, ← ih]
    simp only [List.map_cons, List.map_nil, List.reverse_singleton, List.singleton_append,
      Nat.ofDigits_cons, List.foldl_cons, List.foldl_nil]
    omega

/-- Base58 has more than one digit. -/
theorem one_lt_58 : 1 < 58 := by decide

theorem one_lt_256 : 1 < 256 := by decide

/-- The crate's decoder, but for the texts of its errors. -/
def base58Decode (text : String) : Except String Bytes :=
  match text.toList.mapM base58Digit with
  | none => .error "invalid character"
  | some digits =>
    if h : ∀ d ∈ digits, d < 58 then .ok ((Numeral.mk digits h).rebase one_lt_256).toBytes
    else .error "invalid character"

theorem base58Encode_eq (bytes : Bytes) :
    (base58Encode bytes).toList =
      ((byteNumeral bytes).rebase one_lt_58).digits.map base58Char := by
  rw [base58Encode, String.toList_ofList, Numeral.rebase, Numeral.write, zeros_byteNumeral,
    value_byteNumeral, List.map_append, List.map_replicate]
  rfl

/-- The digits of a text are its characters, one by one. -/
theorem digits_eq_some_iff {text : List Char} {digits : List Nat} :
    text.mapM base58Digit = some digits ↔
      (∀ d ∈ digits, d < 58) ∧ text = digits.map base58Char := by
  rw [mapM_eq_some_iff]
  constructor
  · intro h
    induction h with
    | nil => exact ⟨List.forall_mem_nil _, rfl⟩
    | cons hd _ ih =>
      obtain ⟨hlt, hchar⟩ := base58Digit_eq_some hd
      exact ⟨List.forall_mem_cons.mpr ⟨hlt, ih.1⟩, by rw [List.map_cons, hchar, ← ih.2]⟩
  · rintro ⟨hlt, rfl⟩
    rw [List.forall₂_map_left_iff, List.forall₂_same]
    intro d hd
    exact base58Digit_char d (hlt d hd)

theorem base58Decode_eq_ok {text : String} {bytes : Bytes} :
    base58Decode text = .ok bytes ↔ base58Encode bytes = text := by
  unfold base58Decode
  constructor
  · intro h
    split at h
    · cases h
    · rename_i digits hdigits
      obtain ⟨hlt, htext⟩ := digits_eq_some_iff.mp hdigits
      rw [dif_pos hlt] at h
      obtain rfl := Except.ok.inj h
      rw [← String.toList_inj, base58Encode_eq, byteNumeral_toBytes, Numeral.rebase_rebase, htext]
  · rintro rfl
    have hlt := Numeral.lt_base ((byteNumeral bytes).rebase one_lt_58)
    rw [digits_eq_some_iff.mpr ⟨hlt, base58Encode_eq bytes⟩]
    refine (dif_pos hlt).trans ?_
    rw [Numeral.rebase_rebase, toBytes_byteNumeral]

theorem base58Encode_mem {bytes : Bytes} {c : Char} (h : c ∈ (base58Encode bytes).toList) :
    c ∈ base58Alphabet := by
  rw [base58Encode_eq] at h
  obtain ⟨d, hd, rfl⟩ := List.mem_map.mp h
  exact base58Char_mem (Numeral.lt_base _ d hd)

end FeedMux.Library

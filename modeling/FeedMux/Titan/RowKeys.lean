import FeedMux.Library.Utf8
import FeedMux.Mints
import FeedMux.RedisFanout
import FeedMux.Titan.Quote

/-!
# Keys of hop-1 rows (`src/titan_quote.rs`, `src/redis_fanout.rs`)

A row is filed under a pair label and a size. The label of SOL and USDC is
written out; any other mint is shortened to its first four characters, so that
mints which agree in these share a label. `row_keys_eq_iff` says when two rows
share a key.
-/

namespace FeedMux.Titan
open FeedMux.Library

/-- Pair and size can be read off a key, whatever the pair. -/
theorem hop1RowKey_inj {pair pair' : String} {size size' : UInt64} :
    MuxKeys.hop1RowKey pair size = MuxKeys.hop1RowKey pair' size' ↔
      pair = pair' ∧ size = size' := by
  constructor
  · intro h
    have hcolon : (':' : Char).isDigit = false := by decide
    have hlist := congrArg String.toList h
    rw [MuxKeys.hop1RowKey_toList, MuxKeys.hop1RowKey_toList] at hlist
    have hrest := List.append_cancel_left hlist
    obtain ⟨hpair, hsize⟩ := (append_sep_inj (notMem_repr hcolon _) (notMem_repr hcolon _)).mp hrest
    exact ⟨String.toList_inj.mp hpair,
      UInt64.toNat_inj.mp (Nat.repr_inj.mp (String.toList_inj.mp hsize))⟩
  · rintro ⟨rfl, rfl⟩
    rfl

/-! ## Labels -/

/-- The pairs whose label is written out. -/
def IsNamedPair (inputMint outputMint : String) : Prop :=
  (inputMint = solMint ∧ outputMint = usdcMint) ∨ (inputMint = usdcMint ∧ outputMint = solMint)

/-- Long enough to be shortened. -/
def IsLong (mint : String) : Prop := 8 < mint.toList.length

theorem shortMint_long {mint : String} (h : IsLong mint) :
    (shortMint mint).toList = mint.toList.take 4 ++ ['…'] := by
  have hsize := length_le_utf8ByteSize mint
  unfold IsLong at h
  rw [shortMint, if_neg (by omega), String.toList_append, String.toList_ofList]
  rfl

/-- The label of any other pair: four characters of either mint. -/
theorem unnamed_label {inputMint outputMint : String} (hi : IsLong inputMint)
    (ho : IsLong outputMint) (h : ¬ IsNamedPair inputMint outputMint) :
    (mintPairLabel inputMint outputMint).1.toList =
      inputMint.toList.take 4 ++ ('…' :: '-' :: (outputMint.toList.take 4 ++ ['…'])) := by
  unfold IsNamedPair at h
  push Not at h
  rw [mintPairLabel, if_neg (by tauto), if_neg (by tauto)]
  simp only [toString, String.toList_append, shortMint_long hi, shortMint_long ho]
  simp

theorem named_label {inputMint outputMint : String} (h : IsNamedPair inputMint outputMint) :
    '…' ∉ (mintPairLabel inputMint outputMint).1.toList := by
  rcases h with ⟨rfl, rfl⟩ | ⟨rfl, rfl⟩ <;> decide

theorem named_label_inj {inputMint outputMint inputMint' outputMint' : String}
    (h : IsNamedPair inputMint outputMint) (h' : IsNamedPair inputMint' outputMint')
    (hl : (mintPairLabel inputMint outputMint).1 = (mintPairLabel inputMint' outputMint').1) :
    inputMint = inputMint' ∧ outputMint = outputMint' := by
  rcases h with ⟨rfl, rfl⟩ | ⟨rfl, rfl⟩ <;> rcases h' with ⟨rfl, rfl⟩ | ⟨rfl, rfl⟩
  · exact ⟨rfl, rfl⟩
  · exact absurd hl (by decide)
  · exact absurd hl (by decide)
  · exact ⟨rfl, rfl⟩

/-- Neither pair is named, and four characters of either mint agree. -/
structure SameShort (inputMint outputMint inputMint' outputMint' : String) : Prop where
  unnamed : ¬ IsNamedPair inputMint outputMint
  unnamed' : ¬ IsNamedPair inputMint' outputMint'
  input : inputMint.toList.take 4 = inputMint'.toList.take 4
  output : outputMint.toList.take 4 = outputMint'.toList.take 4

section
variable {inputMint outputMint inputMint' outputMint' : String} (hi : IsLong inputMint)
  (ho : IsLong outputMint) (hi' : IsLong inputMint') (ho' : IsLong outputMint')
include hi ho hi' ho'

theorem unnamed_label_inj (h : ¬ IsNamedPair inputMint outputMint)
    (h' : ¬ IsNamedPair inputMint' outputMint') :
    (mintPairLabel inputMint outputMint).1 = (mintPairLabel inputMint' outputMint').1 ↔
      inputMint.toList.take 4 = inputMint'.toList.take 4 ∧
        outputMint.toList.take 4 = outputMint'.toList.take 4 := by
  unfold IsLong at hi hi'
  rw [← String.toList_inj, unnamed_label hi ho h, unnamed_label hi' ho' h']
  constructor
  · intro heq
    have hlen : (inputMint.toList.take 4).length = (inputMint'.toList.take 4).length := by
      simp only [List.length_take]
      omega
    obtain ⟨hin, hrest⟩ := List.append_inj heq hlen
    simp only [List.cons.injEq, true_and, List.append_cancel_right_eq] at hrest
    exact ⟨hin, hrest⟩
  · rintro ⟨hin, hout⟩
    rw [hin, hout]

/-- **Labels.** Two pairs share one if they are the same or look the same. -/
theorem label_eq_iff :
    (mintPairLabel inputMint outputMint).1 = (mintPairLabel inputMint' outputMint').1 ↔
      (inputMint = inputMint' ∧ outputMint = outputMint') ∨
        SameShort inputMint outputMint inputMint' outputMint' := by
  constructor
  · intro hl
    by_cases h : IsNamedPair inputMint outputMint
    · by_cases h' : IsNamedPair inputMint' outputMint'
      · exact .inl (named_label_inj h h' hl)
      · have hdots := named_label h
        rw [hl, unnamed_label hi' ho' h'] at hdots
        exact absurd (by simp) hdots
    · by_cases h' : IsNamedPair inputMint' outputMint'
      · have hdots := named_label h'
        rw [← hl, unnamed_label hi ho h] at hdots
        exact absurd (by simp) hdots
      · obtain ⟨hin, hout⟩ := (unnamed_label_inj hi ho hi' ho' h h').mp hl
        exact .inr ⟨h, h', hin, hout⟩
  · rintro (⟨rfl, rfl⟩ | hs)
    · rfl
    · exact (unnamed_label_inj hi ho hi' ho' hs.unnamed hs.unnamed').mpr ⟨hs.input, hs.output⟩

end

theorem isLong_mint {bs58 : Bs58} (hb : bs58.IsBase58) (key : Pubkey) :
    IsLong (bs58.encode key.bytes) := by
  have h := hb.length_encode key
  unfold IsLong
  omega

/-- The key under which the row of a quote is written. -/
def rowKeyOf (bs58 : Bs58) (input output : Pubkey) (size : UInt64) : String :=
  MuxKeys.hop1RowKey (mintPairLabel (bs58.encode input.bytes) (bs58.encode output.bytes)).1 size

/-- **Row keys.** Two quotes share a key exactly when their sizes are equal and
their mints are, or are other than SOL and USDC and start alike. -/
theorem row_keys_eq_iff (bs58 : Bs58) (hb : bs58.IsBase58) (input output input' output' : Pubkey)
    (size size' : UInt64) :
    rowKeyOf bs58 input output size = rowKeyOf bs58 input' output' size' ↔
      size = size' ∧
        ((bs58.encode input.bytes = bs58.encode input'.bytes ∧
            bs58.encode output.bytes = bs58.encode output'.bytes) ∨
          SameShort (bs58.encode input.bytes) (bs58.encode output.bytes)
            (bs58.encode input'.bytes) (bs58.encode output'.bytes)) := by
  unfold rowKeyOf
  rw [hop1RowKey_inj, label_eq_iff (isLong_mint hb input) (isLong_mint hb output)
    (isLong_mint hb input') (isLong_mint hb output'), and_comm]

/-- A key of zeros but for its last byte. -/
def lowKey (last : UInt8) : Pubkey := ⟨List.replicate 31 0 ++ [last], rfl⟩

theorem row_keys_sample :
    rowKeyOf base58Codec (lowKey 1) (lowKey 2) 5 ≠
      rowKeyOf base58Codec (lowKey 3) (lowKey 2) 7 := by
  intro h
  have hsize := ((row_keys_eq_iff base58Codec base58Codec_isBase58 (lowKey 1) (lowKey 2) (lowKey 3)
    (lowKey 2) 5 7).mp h).1
  exact absurd hsize (by decide)

theorem lowKey_texts :
    base58Codec.encode (lowKey 1).bytes = "11111111111111111111111111111112" ∧
      base58Codec.encode (lowKey 2).bytes = "11111111111111111111111111111113" ∧
      base58Codec.encode (lowKey 3).bytes = "11111111111111111111111111111114" := by
  refine ⟨?_, ?_, ?_⟩ <;> decide +kernel

/-- Two input mints that start alike share their row. -/
theorem row_keys_collide :
    (base58Codec.encode (lowKey 1).bytes, base58Codec.encode (lowKey 2).bytes, (5 : UInt64)) ≠
        (base58Codec.encode (lowKey 3).bytes, base58Codec.encode (lowKey 2).bytes, 5) ∧
      rowKeyOf base58Codec (lowKey 1) (lowKey 2) 5 =
        rowKeyOf base58Codec (lowKey 3) (lowKey 2) 5 := by
  obtain ⟨h1, h2, h3⟩ := lowKey_texts
  unfold rowKeyOf
  rw [h1, h2, h3]
  exact ⟨by decide, by decide +kernel⟩

end FeedMux.Titan

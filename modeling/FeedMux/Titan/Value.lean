import FeedMux.Config

/-!
# MessagePack values (`rmpv::Value`) and how the Titan code reads them

The accessors of `src/titan_quote.rs`: the first entry of a map under a string
key, unsigned integers, and public keys in their three encodings.
-/

namespace FeedMux.Titan
open FeedMux.Library

inductive Utf8String where
  | valid (text : String)
  | invalid (bytes : Bytes)
  deriving DecidableEq, Repr

def Utf8String.asStr : Utf8String → Option String
  | .valid text => some text
  | .invalid _ => none

inductive Integer where
  | posInt (n : UInt64)
  | negInt (n : Int64)
  deriving DecidableEq

/-- Negative numbers have no `u64` value. -/
def Integer.asU64 : Integer → Option UInt64
  | .posInt n => some n
  | .negInt n => if 0 ≤ n then some n.toUInt64 else none

inductive Value where
  | nil
  | boolean (b : Bool)
  | integer (n : Integer)
  | f32 (bits : UInt32)
  | f64 (bits : UInt64)
  | string (s : Utf8String)
  | binary (bytes : Bytes)
  | array (items : List Value)
  | map (entries : List (Value × Value))
  | ext (tag : Int8) (bytes : Bytes)

def mapKeyStr : Value → Option String
  | .string s => s.asStr
  | _ => none

def valueAsMap : Value → Option (List (Value × Value))
  | .map entries => some entries
  | _ => none

def valueAsArray : Value → Option (List Value)
  | .array items => some items
  | _ => none

def valueAsU64 : Value → Option UInt64
  | .integer n => n.asU64
  | _ => none

def valueAsU32 (value : Value) : Option UInt32 :=
  (valueAsU64 value).bind fun n => if n.toNat < 2 ^ 32 then some n.toUInt32 else none

def valueAsString : Value → Option String
  | .string s => s.asStr
  | _ => none

def mapContainsKey (value : Value) (key : String) : Bool :=
  match valueAsMap value with
  | some entries => entries.any fun e => mapKeyStr e.1 == some key
  | none => false

def mapGet (value : Value) (key : String) : Option Value := do
  let entries ← valueAsMap value
  let e ← entries.find? fun e => mapKeyStr e.1 == some key
  return e.2

/-- A key that a value does not contain has no value. -/
theorem not_mapContainsKey {value : Value} {key : String} (h : mapContainsKey value key = false) :
    mapGet value key = none := by
  unfold mapContainsKey at h
  unfold mapGet
  cases hm : valueAsMap value with
  | none => rfl
  | some entries =>
    rw [hm] at h
    have hf : entries.find? (fun e => mapKeyStr e.1 == some key) = none :=
      List.find?_eq_none.mpr (by simpa using h)
    simp [hf]

def valueAsU8 (value : Value) : Option UInt8 :=
  (valueAsU64 value).bind fun n => if n.toNat < 256 then some n.toUInt8 else none

/-- A binary or an integer array of 32, or a base58 text. -/
def pubkeyBytes (bs58 : Bs58) : Value → Option Pubkey
  | .binary bytes => if h : bytes.length = 32 then some ⟨bytes, h⟩ else none
  | .array items =>
    if items.length = 32 then do
      let bytes ← items.mapM valueAsU8
      if h : bytes.length = 32 then return ⟨bytes, h⟩ else none
    else none
  | .string s => do
    let text ← s.asStr
    (parseWalletPubkey bs58 (String.ofList (trim text.toList))).toOption
  | _ => none

def valueAsPubkeyBase58 (bs58 : Bs58) (value : Value) : Option String :=
  (pubkeyBytes bs58 value).map fun key => bs58.encode key.bytes

end FeedMux.Titan

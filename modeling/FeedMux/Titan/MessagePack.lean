import FeedMux.Titan.Value

/-!
# MessagePack bytes

The shortest bytes of a value. `decodeAmong` decodes the bytes of the messages it
is given, as `rmpv` does, and no others; it stands in for `rmpv` in the samples.
-/

namespace FeedMux.Titan
open FeedMux.Library

def beBytes (size n : Nat) : Bytes := (leBytes size n).reverse

/-- A number after the first tag whose size fits it. -/
def tagged (tags : List (UInt8 × Nat)) (n : Nat) : Bytes :=
  match tags.find? fun tag => n < 256 ^ tag.2 with
  | some (tag, size) => tag :: beBytes size n
  | none => []

/-- A small length is part of the tag. -/
def lengthBytes (fixed : UInt8) (limit : Nat) (tags : List (UInt8 × Nat)) (n : Nat) : Bytes :=
  if n < limit then [fixed + UInt8.ofNat n] else tagged tags n

def Integer.packed : Integer → Bytes
  | .posInt n => lengthBytes 0 128 [(0xcc, 1), (0xcd, 2), (0xce, 4), (0xcf, 8)] n.toNat
  | .negInt n =>
    let i := n.toInt
    if -32 ≤ i then beBytes 1 (256 + i).toNat
    else if -2 ^ 7 ≤ i then 0xd0 :: beBytes 1 (2 ^ 8 + i).toNat
    else if -2 ^ 15 ≤ i then 0xd1 :: beBytes 2 (2 ^ 16 + i).toNat
    else if -2 ^ 31 ≤ i then 0xd2 :: beBytes 4 (2 ^ 32 + i).toNat
    else 0xd3 :: beBytes 8 (2 ^ 64 + i).toNat

def Utf8String.bytes : Utf8String → Bytes
  | .valid text => text.toUTF8.data.toList
  | .invalid bytes => bytes

def extHead (tag : Int8) (n : Nat) : Bytes :=
  let fixed : List (Nat × UInt8) := [(1, 0xd4), (2, 0xd5), (4, 0xd6), (8, 0xd7), (16, 0xd8)]
  (match fixed.lookup n with
    | some short => [short]
    | none => tagged [(0xc7, 1), (0xc8, 2), (0xc9, 4)] n) ++ [tag.toUInt8]

mutual
def Value.packed : Value → Bytes
  | .nil => [0xc0]
  | .boolean false => [0xc2]
  | .boolean true => [0xc3]
  | .integer n => n.packed
  | .f32 bits => 0xca :: beBytes 4 bits.toNat
  | .f64 bits => 0xcb :: beBytes 8 bits.toNat
  | .string s =>
    lengthBytes 0xa0 32 [(0xd9, 1), (0xda, 2), (0xdb, 4)] s.bytes.length ++ s.bytes
  | .binary bytes => tagged [(0xc4, 1), (0xc5, 2), (0xc6, 4)] bytes.length ++ bytes
  | .array items => lengthBytes 0x90 16 [(0xdc, 2), (0xdd, 4)] items.length ++ packedItems items
  | .map entries =>
    lengthBytes 0x80 16 [(0xde, 2), (0xdf, 4)] entries.length ++ packedEntries entries
  | .ext tag bytes => extHead tag bytes.length ++ bytes

def packedItems : List Value → Bytes
  | [] => []
  | v :: items => v.packed ++ packedItems items

def packedEntries : List (Value × Value) → Bytes
  | [] => []
  | (key, v) :: entries => key.packed ++ v.packed ++ packedEntries entries
end

def decodeAmong (messages : List Value) (data : Bytes) : Option Value :=
  messages.find? fun message => message.packed == data

@[simp] theorem decodeAmong_head (message : Value) (others : List Value) :
    decodeAmong (message :: others) message.packed = some message := by
  simp [decodeAmong]

theorem decodeAmong_tail {message other : Value} (h : other.packed ≠ message.packed)
    (others : List Value) :
    decodeAmong (other :: others) message.packed = decodeAmong others message.packed := by
  rw [decodeAmong, List.find?_cons_of_neg (by simpa using h)]
  rfl

def textKey (text : String) : Value := .string (.valid text)

def number (n : UInt64) : Value := .integer (.posInt n)

example : (Value.map [(textKey "Error", .array [number 300, .nil])]).packed =
    [0x81, 0xa5, 0x45, 0x72, 0x72, 0x6f, 0x72, 0x92, 0xcd, 0x01, 0x2c, 0xc0] := by decide +kernel

example : (Value.integer (.negInt (-33))).packed = [0xd0, 0xdf] := by decide

end FeedMux.Titan

import FeedMux.Titan.Registry

/-!
# Hop-1 quotes (`src/titan_quote.rs`)

`parseStreamDataHop1` reads a quote off a StreamData message: the best route
and its first leg, filed under the size of the stream.
-/

namespace FeedMux.Titan
open FeedMux.Library

def solMint := "So11111111111111111111111111111111111111112"
def usdcMint := "EPjFWdd5AufqSSqeM2qN1xzybapC8G4wEGGkZwyTDt1v"

structure Hop1Leg where
  label : String
  ammKey : String
  inputMint : String
  outputMint : String
  inAmount : UInt64
  outAmount : UInt64
  contextSlot : Option UInt64
  deriving DecidableEq, Repr

structure ParsedHop1Quote where
  pair : String
  base : String
  mid : String
  sizeLamports : UInt64
  provider : String
  routeInAmount : UInt64
  routeOutAmount : UInt64
  slippageBps : UInt16
  quoteId : Option String
  streamId : UInt32
  streamSeq : UInt32
  hop1 : Hop1Leg
  deriving DecidableEq, Repr

/-- Mints are base58 texts, so their first four bytes are four characters. -/
def shortMint (mint : String) : String :=
  if mint.utf8ByteSize ≤ 8 then mint else String.ofList (mint.toList.take 4) ++ "…"

def mintPairLabel (inputMint outputMint : String) : String × String × String :=
  if inputMint = solMint ∧ outputMint = usdcMint then ("SOL-USDC", "SOL", "USDC")
  else if inputMint = usdcMint ∧ outputMint = solMint then ("USDC-SOL", "USDC", "SOL")
  else
    (s!"{shortMint inputMint}-{shortMint outputMint}", shortMint inputMint, shortMint outputMint)

/-- The last element with the greatest key. -/
def maxByKey {α : Type*} (key : α → UInt64) (l : List α) : Option α :=
  l.foldl (fun best a =>
    match best with
    | none => some a
    | some b => if key b ≤ key a then some a else some b) none

/-- Provider, route and output amount of an entry that may win. -/
def eligible (e : Value × Value) : Option (String × Value × UInt64) := do
  let provider ← mapKeyStr e.1
  let out ← (mapGet e.2 "outAmount").bind valueAsU64
  return (provider, e.2, out)

/-- The entry that `metadata.ExpectedWinner` names. -/
def expectedWinner (entries : List (Value × Value)) (swapQuotes : Value) :
    Option (String × Value) := do
  let metadata ← mapGet swapQuotes "metadata"
  let winner ← (mapGet metadata "ExpectedWinner").bind valueAsString
  let e ← entries.find? fun e => mapKeyStr e.1 == some winner
  return (winner, e.2)

def selectBestRoute (quotesMap swapQuotes : Value) : Option (String × Value) := do
  let entries ← valueAsMap quotesMap
  if entries.isEmpty then none
  else
    expectedWinner entries swapQuotes <|>
      (maxByKey (fun e => e.2.2) (entries.filterMap eligible)).map fun e => (e.1, e.2.1)

def u64At (value : Value) (key : String) : Option UInt64 := (mapGet value key).bind valueAsU64

/-- The first step, or for a direct route the whole route. -/
def extractHop1Leg (bs58 : Bs58) (route : Value) : Hop1Leg :=
  match ((mapGet route "steps").bind valueAsArray).bind List.head? with
  | some first =>
    let pubkeyAt key := ((mapGet first key).bind (valueAsPubkeyBase58 bs58)).getD ""
    { label := ((mapGet first "label").bind valueAsString).getD "unknown"
      ammKey := pubkeyAt "ammKey"
      inputMint := pubkeyAt "inputMint"
      outputMint := pubkeyAt "outputMint"
      inAmount := (u64At first "inAmount").getD 0
      outAmount := (u64At first "outAmount").getD 0
      contextSlot := u64At first "contextSlot" }
  | none =>
    { label := "direct"
      ammKey := ""
      inputMint := ""
      outputMint := ""
      inAmount := (u64At route "inAmount").getD 0
      outAmount := (u64At route "outAmount").getD 0
      contextSlot := u64At route "contextSlot" }

def parseStreamDataHop1 (bs58 : Bs58) (streamData : Option Value) (reg : TitanStreamRegistry) :
    Option ParsedHop1Quote := do
  let streamData ← streamData
  let streamId ← (mapGet streamData "id").bind valueAsU32
  let streamSeq := ((mapGet streamData "seq").bind valueAsU32).getD 0
  let payload ← mapGet streamData "payload"
  let swapQuotes ← mapGet payload "SwapQuotes"
  let inputMint ← (mapGet swapQuotes "inputMint").bind (valueAsPubkeyBase58 bs58)
  let outputMint ← (mapGet swapQuotes "outputMint").bind (valueAsPubkeyBase58 bs58)
  let amount := (u64At swapQuotes "amount").getD 0
  let quoteId := (mapGet swapQuotes "id").bind valueAsString
  let quotesMap ← mapGet swapQuotes "quotes"
  let (provider, route) ← selectBestRoute quotesMap swapQuotes
  let sizeLamports := (reg.sizeForStream streamId).getD amount
  let (pair, base, mid) := mintPairLabel inputMint outputMint
  let hop1 := extractHop1Leg bs58 route
  let routeOutAmount ← u64At route "outAmount"
  return {
    pair, base, mid, sizeLamports, provider
    routeInAmount := (u64At route "inAmount").getD amount
    routeOutAmount
    slippageBps := ((u64At route "slippageBps").map UInt64.toUInt16).getD 0
    quoteId, streamId, streamSeq, hop1 }

end FeedMux.Titan

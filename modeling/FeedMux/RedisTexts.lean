import FeedMux.Freshness
import FeedMux.Library.Json
import FeedMux.Library.TextStore

/-!
# The texts in Redis (`src/redis_fanout.rs`, `src/titan_quote.rs`)

Redis keeps texts: counters as decimal numbers, rows, boards and hits as JSON.
Whatever texts it held before, reading a key later gives the text of what the
store of numbers and documents has there, and that text determines it
(`texts_follow`).
-/

namespace FeedMux
open FeedMux.Library FeedMux.Library.KeyValue FeedMux.Titan

/-! ## Documents as JSON -/

namespace Titan

/-- A field that is left out when it has no value. -/
def optionalField {α : Type} (key : String) (json : α → Json) (value : Option α) :
    List (String × Json) := (value.map fun v => (key, json v)).toList

def optionalText : Option String → Json
  | none => .null
  | some text => .str text

def Hop1Leg.toJson (leg : Hop1Leg) : Json :=
  .obj ([("label", .str leg.label), ("amm_key", .str leg.ammKey),
    ("input_mint", .str leg.inputMint), ("output_mint", .str leg.outputMint),
    ("in_amount", .num leg.inAmount.toNat), ("out_amount", .num leg.outAmount.toNat)] ++
    optionalField "context_slot" (fun slot : UInt64 => .num slot.toNat) leg.contextSlot)

def TitanHop1Row.toJson (row : TitanHop1Row) : Json :=
  .obj [("schema", .str row.schema), ("pair", .str row.pair), ("base", .str row.base),
    ("mid", .str row.mid), ("size_lamports", .num row.sizeLamports.toNat),
    ("ts_ms", .num row.tsMs.toNat), ("provider", .str row.provider),
    ("route_in_amount", .num row.routeInAmount.toNat),
    ("route_out_amount", .num row.routeOutAmount.toNat),
    ("slippage_bps", .num row.slippageBps.toNat), ("quote_id", optionalText row.quoteId),
    ("stream_id", .num row.streamId.toNat), ("stream_seq", .num row.streamSeq.toNat),
    ("hop1", row.hop1.toJson)]

def SizeBoardPin.toJson (pin : SizeBoardPin) : Json :=
  .obj ([("size_lamports", .num pin.sizeLamports.toNat),
    ("hop1_age_ms", .num pin.hop1AgeMs.toNat), ("hop1_fresh_ms", .num pin.hop1FreshMs.toNat),
    ("provider", .str pin.provider), ("venue_label", .str pin.venueLabel),
    ("route_in_amount", .num pin.routeInAmount.toNat),
    ("route_out_amount", .num pin.routeOutAmount.toNat)] ++
    optionalField "status" Json.str pin.status)

def TitanSizeBoardDoc.toJson (doc : TitanSizeBoardDoc) : Json :=
  .obj [("schema", .str doc.schema), ("pair", .str doc.pair), ("base", .str doc.base),
    ("mid", .str doc.mid), ("updated_ms", .num doc.updatedMs.toNat),
    ("pins", .arr (doc.pins.map SizeBoardPin.toJson))]

theorem optionalText_inj {v w : Option String} (h : optionalText v = optionalText w) : v = w := by
  cases v <;> cases w <;> simp_all [optionalText]

theorem optionalField_inj {α : Type} {key : String} {json : α → Json}
    (hj : Function.Injective json) {v w : Option α}
    (h : optionalField key json v = optionalField key json w) : v = w := by
  unfold optionalField at h
  cases v with
  | none => cases w <;> simp_all
  | some a =>
    cases w with
    | none => simp at h
    | some b =>
      have hab : json a = json b := by simpa using h
      rw [hj hab]

theorem u64_inj : Function.Injective fun n : UInt64 => Json.num n.toNat := by
  intro n m h
  simpa [UInt64.toNat_inj] using h

theorem Hop1Leg.toJson_inj {leg leg' : Hop1Leg} (h : leg.toJson = leg'.toJson) : leg = leg' := by
  obtain ⟨label, ammKey, inputMint, outputMint, inAmount, outAmount, contextSlot⟩ := leg
  obtain ⟨label', ammKey', inputMint', outputMint', inAmount', outAmount', contextSlot'⟩ := leg'
  simp only [toJson, List.cons_append, List.nil_append, Json.obj.injEq, List.cons.injEq,
    Prod.mk.injEq, Json.str.injEq, Json.num.injEq, Nat.cast_inj, UInt64.toNat_inj,
    true_and] at h
  obtain ⟨rfl, rfl, rfl, rfl, rfl, rfl, hslot⟩ := h
  rw [optionalField_inj u64_inj hslot]

theorem TitanHop1Row.toJson_inj {row row' : TitanHop1Row} (h : row.toJson = row'.toJson) :
    row = row' := by
  obtain ⟨schema, pair, base, mid, size, ts, provider, amountIn, amountOut, slippage, quote,
    stream, seq, hop⟩ := row
  obtain ⟨schema', pair', base', mid', size', ts', provider', amountIn', amountOut', slippage',
    quote', stream', seq', hop'⟩ := row'
  simp only [toJson, Json.obj.injEq, List.cons.injEq, Prod.mk.injEq, Json.str.injEq,
    Json.num.injEq, Nat.cast_inj, UInt64.toNat_inj, UInt32.toNat_inj, UInt16.toNat_inj,
    true_and, and_true] at h
  obtain ⟨rfl, rfl, rfl, rfl, rfl, rfl, rfl, rfl, rfl, rfl, hquote, rfl, rfl, hhop⟩ := h
  rw [optionalText_inj hquote, Hop1Leg.toJson_inj hhop]

theorem SizeBoardPin.toJson_inj : Function.Injective SizeBoardPin.toJson := by
  intro pin pin' h
  obtain ⟨size, age, fresh, provider, label, amountIn, amountOut, status⟩ := pin
  obtain ⟨size', age', fresh', provider', label', amountIn', amountOut', status'⟩ := pin'
  simp only [toJson, List.cons_append, List.nil_append, Json.obj.injEq, List.cons.injEq,
    Prod.mk.injEq, Json.str.injEq, Json.num.injEq, Nat.cast_inj, UInt64.toNat_inj,
    true_and] at h
  obtain ⟨rfl, rfl, rfl, rfl, rfl, rfl, rfl, hstatus⟩ := h
  rw [optionalField_inj (fun _ _ => Json.str.inj) hstatus]

theorem TitanSizeBoardDoc.toJson_inj {doc doc' : TitanSizeBoardDoc}
    (h : doc.toJson = doc'.toJson) : doc = doc' := by
  obtain ⟨schema, pair, base, mid, updatedMs, pins⟩ := doc
  obtain ⟨schema', pair', base', mid', updatedMs', pins'⟩ := doc'
  simp only [toJson, Json.obj.injEq, List.cons.injEq, Prod.mk.injEq, Json.str.injEq,
    Json.num.injEq, Json.arr.injEq, Nat.cast_inj, UInt64.toNat_inj, true_and, and_true] at h
  obtain ⟨rfl, rfl, rfl, rfl, rfl, hpins⟩ := h
  rw [SizeBoardPin.toJson_inj.list_map hpins]

def TitanDocument.toJson : TitanDocument → Json
  | .hop1Row row => row.toJson
  | .sizeBoard doc => doc.toJson

end Titan

/-! ## The texts -/

/-- `json!` sorts the keys. -/
def shredHitJson (vault : String) (slot : UInt64) (fecSetIndex : UInt32) (src : String)
    (tsMs : UInt64) : Json :=
  .obj [("fec_set_index", .num fecSetIndex.toNat), ("schema", .str "mux.shred.hit.v1"),
    ("slot", .num slot.toNat), ("src", .str src), ("ts_ms", .num tsMs.toNat),
    ("vault", .str vault)]

def documentText : Document TitanDocument → String
  | .text json => json
  | .shredHit vault slot fecSetIndex src tsMs =>
    (shredHitJson vault slot fecSetIndex src tsMs).text
  | .row doc => doc.toJson.text

def numberText (n : Int) : String := (Json.num n).text

/-- A decimal number without leading zeros. -/
def readNumber (text : String) : Option Int :=
  match Json.read text with
  | some (.num n) => if numberText n = text then some n else none
  | _ => none

def redisTexts : Rendering (Document TitanDocument) where
  number := numberText
  read := readNumber
  doc := documentText
  read_number n := by simp [readNumber, numberText]
  number_of_read text n h := by
    unfold readNumber at h
    split at h
    · split at h
      · obtain rfl := Option.some.inj h
        assumption
      · cases h
    · cases h

/-! ## What the process writes -/

def emptyBoardJson : Json := .obj [("schema", .str "mux.titan.size_board.v1"), ("pins", .arr [])]

theorem emptyBoard_text : emptyBoard = emptyBoardJson.text := by decide

/-- The JSON of a value that the process writes. -/
def writtenJson : Value (Document TitanDocument) → Json
  | .int n => .num n
  | .doc (.text _) => emptyBoardJson
  | .doc (.shredHit vault slot fecSetIndex src tsMs) =>
    shredHitJson vault slot fecSetIndex src tsMs
  | .doc (.row doc) => doc.toJson

/-- Its only literal text is that of the empty board. -/
def Written : Value (Document TitanDocument) → Prop
  | .doc (.text json) => json = emptyBoard
  | _ => True

theorem written_text {v : Value (Document TitanDocument)} (h : Written v) :
    v.text redisTexts = (writtenJson v).text := by
  cases v with
  | int n => rfl
  | doc d =>
    cases d with
    | text json => exact (show json = emptyBoard from h).trans emptyBoard_text
    | shredHit vault slot fecSetIndex src tsMs => rfl
    | row doc => rfl

theorem writtenJson_doc (d : Document TitanDocument) :
    ∃ fields, writtenJson (.doc d) = .obj fields := by
  cases d with
  | text json => exact ⟨_, rfl⟩
  | shredHit vault slot fecSetIndex src tsMs => exact ⟨_, rfl⟩
  | row doc => cases doc <;> exact ⟨_, rfl⟩

theorem written_plain {v : Value (Document TitanDocument)} (h : Written v) :
    v.Plain redisTexts := by
  cases v with
  | int n => trivial
  | doc d =>
    obtain ⟨fields, hfields⟩ := writtenJson_doc d
    have htext : documentText d = (Json.obj fields).text := hfields ▸ written_text h
    show readNumber (documentText d) = none
    rw [htext, readNumber, Json.read_text]

def fifthKey : Json → Option String
  | .obj fields => (fields.map Prod.fst)[4]?
  | _ => none

/-- Rows, boards and hits have different fields. -/
def keyOf : Document TitanDocument → Option String
  | .text _ => none
  | .shredHit .. => some "ts_ms"
  | .row (.hop1Row _) => some "size_lamports"
  | .row (.sizeBoard _) => some "updated_ms"

theorem fifthKey_written (d : Document TitanDocument) :
    fifthKey (writtenJson (.doc d)) = keyOf d := by
  rcases d with _ | _ | (_ | _) <;> rfl

theorem document_inj {d d' : Document TitanDocument} (hd : Written (.doc d))
    (hd' : Written (.doc d')) (h : writtenJson (.doc d) = writtenJson (.doc d')) : d = d' := by
  have hkey := congrArg fifthKey h
  rw [fifthKey_written, fifthKey_written] at hkey
  rcases d with json | ⟨vault, slot, index, src, ts⟩ | (row | board) <;>
    rcases d' with json' | ⟨vault', slot', index', src', ts'⟩ | (row' | board') <;>
    simp [keyOf] at hkey
  · rw [show json = _ from hd, show json' = _ from hd']
  · simp only [writtenJson, shredHitJson, Json.obj.injEq, List.cons.injEq, Prod.mk.injEq,
      Json.str.injEq, Json.num.injEq, Nat.cast_inj, UInt64.toNat_inj, UInt32.toNat_inj,
      true_and, and_true] at h
    obtain ⟨rfl, rfl, rfl, rfl, rfl⟩ := h
    rfl
  · rw [TitanHop1Row.toJson_inj h]
  · rw [TitanSizeBoardDoc.toJson_inj h]

/-- The text of a value tells which value it is. -/
theorem written_inj {v w : Value (Document TitanDocument)} (hv : Written v) (hw : Written w)
    (h : v.text redisTexts = w.text redisTexts) : v = w := by
  rw [written_text hv, written_text hw, Json.text_inj] at h
  cases v with
  | int n =>
    cases w with
    | int m => rw [Json.num.inj h]
    | doc d =>
      obtain ⟨fields, hfields⟩ := writtenJson_doc d
      rw [hfields] at h
      cases h
  | doc d =>
    obtain ⟨fields, hfields⟩ := writtenJson_doc d
    cases w with
    | int m =>
      rw [hfields] at h
      cases h
    | doc d' => rw [document_inj hv hw h]

/-- The command stores such a value. -/
def StoresWritten : RedisCmd TitanDocument → Prop
  | .set _ v | .setEx _ v _ => Written v
  | .incr _ _ | .del _ => True

theorem writes_plain {c : RedisCmd TitanDocument} (h : StoresWritten c) :
    c.Plain redisTexts := by
  cases c with
  | set k v => exact written_plain h
  | setEx k v ttlSecs => exact written_plain h
  | incr k n => trivial
  | del k => trivial

section
variable (fanout : RedisFanout)

theorem boot_written : ∀ c ∈ (fanout.resetTitanStateAtBoot :
    List (RedisCall TitanDocument)).flatten, StoresWritten c := by
  refine RedisFanout.forall_calls ?_
  simp [RedisFanout.setInt, StoresWritten, Written]

theorem titan_written (op : TitanOp TitanDocument) :
    ∀ c ∈ (op.calls fanout).flatten, StoresWritten c := by
  cases op with
  | upstreamUp up =>
    refine RedisFanout.forall_calls ?_
    cases up <;> simp [RedisFanout.setInt, StoresWritten, Written]
  | decodeError =>
    refine RedisFanout.forall_calls ?_
    simp [StoresWritten]
  | message outcome nowMs =>
    cases outcome <;> refine RedisFanout.forall_calls ?_ <;>
      simp [RedisFanout.setInt, RedisFanout.setMs, StoresWritten, Written]
  | hop1 row pair sizeLamports ttlSecs =>
    refine RedisFanout.forall_calls ?_
    simp [StoresWritten, Written]
  | sizeBoard board =>
    refine RedisFanout.forall_calls ?_
    simp [StoresWritten, Written]

theorem triton_written (op : TritonOp) :
    ∀ c ∈ (op.calls fanout : List (RedisCall TitanDocument)).flatten, StoresWritten c := by
  cases op <;> refine RedisFanout.forall_calls ?_ <;>
    simp [RedisFanout.setInt, RedisFanout.setMs, StoresWritten, Written]

theorem shred_written (op : ShredOp) :
    ∀ c ∈ (op.calls fanout : List (RedisCall TitanDocument)).flatten, StoresWritten c := by
  cases op <;> refine RedisFanout.forall_calls ?_ <;>
    simp [RedisFanout.setInt, RedisFanout.setMs, StoresWritten, Written]

theorem heartbeat_written (nowMs : UInt64) :
    ∀ c ∈ (fanout.heartbeat nowMs : List (RedisCall TitanDocument)).flatten,
      StoresWritten c := by
  refine RedisFanout.forall_calls ?_
  simp [RedisFanout.setInt, RedisFanout.setMs, StoresWritten, Written]

theorem commands_written (traces : TaskTraces TitanDocument) (task : RedisTask) :
    ∀ c ∈ traces.commands fanout task, StoresWritten c := by
  have hall {ι : Type} {f : ι → List (RedisCall TitanDocument)} {ops : List ι}
      (hf : ∀ op, ∀ c ∈ (f op).flatten, StoresWritten c) :
      ∀ c ∈ (ops.flatMap f).flatten, StoresWritten c := by
    intro c hc
    obtain ⟨call, hcall, hc⟩ := List.mem_flatten.mp hc
    obtain ⟨op, -, hcall⟩ := List.mem_flatMap.mp hcall
    exact hf op c (List.mem_flatten.mpr ⟨call, hcall, hc⟩)
  cases task with
  | titan => exact hall (titan_written fanout)
  | triton => exact hall (triton_written fanout)
  | shred => exact hall (shred_written fanout)
  | heartbeat => exact hall (heartbeat_written fanout)

end

/-- The texts in Redis after the boot reset and a schedule of the tasks' commands. -/
def laterTexts (fanout : RedisFanout) (bootAt : Nat) (trace : TimedTrace TitanDocument)
    (texts : TextStore String) : TextStore String :=
  execTexts redisTexts texts
    ((bootCmds fanout bootAt ++ trace.cmds).map fun e : Nat × RedisCmd TitanDocument =>
      (e.1, e.2.text redisTexts))

/-- **Texts in Redis.** Whatever texts Redis held and whatever the schedule, a key
reads at any time as the text of what the store of numbers and documents has
there. Of what the process writes, the text tells which value it is, and reads as
its JSON. -/
theorem texts_follow (fanout : RedisFanout) (traces : TaskTraces TitanDocument)
    (trace : TimedTrace TitanDocument)
    (h : Interleaves (traces.commands fanout) trace.schedule) (texts : TextStore String)
    (bootAt now : Nat) (key : String) :
    let before := ofTexts redisTexts .text texts
    readTextAt now (laterTexts fanout bootAt trace texts) key =
        (readAt now (laterRedis fanout bootAt trace before) key).map (Value.text redisTexts) ∧
      (∀ e ∈ bootCmds fanout bootAt ++ trace.cmds, StoresWritten e.2) ∧
      (∀ v w, Written v → Written w → v.text redisTexts = w.text redisTexts → v = w) ∧
      ∀ v, Written v → Json.read (v.text redisTexts) = some (writtenJson v) := by
  intro before
  have hwritten : ∀ e ∈ bootCmds fanout bootAt ++ trace.cmds, StoresWritten e.2 := by
    intro e he
    rcases List.mem_append.mp he with he | he
    · obtain ⟨c, hc, rfl⟩ := List.mem_map.mp he
      exact boot_written fanout c hc
    · obtain ⟨⟨t, task, c⟩, hmem, rfl⟩ := List.mem_map.mp he
      exact commands_written fanout traces task c (h.mem (List.mem_map_of_mem hmem))
  refine ⟨?_, hwritten, fun v w hv hw => written_inj hv hw, fun v hv => ?_⟩
  swap
  · rw [written_text hv, Json.read_text]
  have hbefore : Represents redisTexts before texts := represents_ofTexts (fun _ => rfl) texts
  exact (hbefore.run fun e he => writes_plain (hwritten e he)).readAt now key

/-! A text that is no number does not count, and a hit is its JSON. -/

def textTraces : TaskTraces TitanDocument where
  titan := []
  triton := []
  shred := [.hit ⟨⟨List.replicate 32 0, rfl⟩, "vault"⟩ 7 3 "203.0.113.7:9000" 60 8000]
  heartbeat := [8000]

def textFanout : RedisFanout := ⟨"feed:350", false, true⟩

/-- The reset at boot leaves the count of the hits alone. -/
def textTrace : TimedTrace TitanDocument :=
  (oneByOne RedisTask.all (textTraces.commands textFanout)).map fun e => (8000, e)

def earlierTexts : TextStore String := fun key =>
  if key = MuxKeys.shredVaultHits then some ⟨"41", none⟩
  else if key = MuxKeys.metaHeartbeatMs then some ⟨"junk", none⟩
  else none

theorem texts_follow_sample :
    let read := readTextAt 9000 (laterTexts textFanout 0 textTrace earlierTexts)
    read MuxKeys.shredVaultHits = some "42" ∧ read MuxKeys.metaHeartbeatMs = some "8000" ∧
      read MuxKeys.shredHit = some (shredHitJson "vault" 7 3 "203.0.113.7:9000" 8000).text := by
  intro read
  have hread (key : String) := (texts_follow textFanout textTraces textTrace
    (interleaves_at _ 8000) earlierTexts 0 9000 key).1
  refine ⟨(hread _).trans ?_, (hread _).trans ?_, (hread _).trans ?_⟩ <;> decide +kernel

end FeedMux

import FeedMux.Library.Interleaving
import FeedMux.RedisFanout

/-!
# The Redis operations of the tasks (`src/redis_fanout.rs`, `src/lib.rs`)

Four tasks write to Redis after the boot reset: the Titan loop, the Triton
gRPC loop, the shred loop and the heartbeat. Every key has at most one owner
among them, so their commands commute under every schedule (`tasks_commute`).
-/

namespace FeedMux
open FeedMux.Library FeedMux.Library.KeyValue

/-- Calls are made: not a dry run, and there is a connection. -/
def RedisFanout.writes (fanout : RedisFanout) : Bool := !fanout.dryRun && fanout.connected

theorem RedisFanout.calls_of_writes {δ : Type} {fanout : RedisFanout} (h : fanout.writes = true)
    (cs : List (RedisCall δ)) : fanout.calls cs = cs := by
  unfold RedisFanout.writes at h
  unfold RedisFanout.calls
  cases hd : fanout.dryRun <;> cases hc : fanout.connected <;> simp_all

theorem RedisFanout.calls_of_not_writes {δ : Type} {fanout : RedisFanout}
    (h : fanout.writes = false) (cs : List (RedisCall δ)) : fanout.calls cs = [] := by
  unfold RedisFanout.writes at h
  unfold RedisFanout.calls
  cases hd : fanout.dryRun <;> cases hc : fanout.connected <;> simp_all

theorem RedisFanout.writes_of {fanout : RedisFanout} (hd : fanout.dryRun = false)
    (hc : fanout.connected = true) : fanout.writes = true := by
  rw [RedisFanout.writes, hd, hc]
  rfl

inductive RedisTask where
  | titan
  | triton
  | shred
  | heartbeat
  deriving DecidableEq, Repr

inductive TitanOp (δ : Type) where
  | upstreamUp (up : Bool)
  | decodeError
  | message (outcome : TitanMessageOutcome) (nowMs : UInt64)
  | hop1 (row : δ) (pair : String) (sizeLamports ttlSecs : UInt64)
  | sizeBoard (board : δ)
  deriving DecidableEq, Repr

inductive TritonOp where
  | upstreamUp (up : Bool)
  | frame (nowMs : UInt64)
  deriving DecidableEq, Repr

inductive ShredOp where
  | resetAtBoot
  | upstreamUp (up : Bool)
  | frame (ts : UInt64)
  | deshred (txCount : Nat) (ts : UInt64)
  | hit (vaultHit : Shred.VaultHit) (slot : UInt64) (fecSetIndex : UInt32) (src : String)
      (ttlSecs ts : UInt64)

section
variable {δ : Type} (fanout : RedisFanout)

def TitanOp.calls : TitanOp δ → List (RedisCall δ)
  | .upstreamUp up => fanout.setTitanUpstreamUp up
  | .decodeError => fanout.recordTitanDecodeError
  | .message outcome nowMs => fanout.recordTitanMessage outcome nowMs
  | .hop1 row pair sizeLamports ttlSecs => fanout.publishTitanHop1 row pair sizeLamports ttlSecs
  | .sizeBoard board => fanout.publishTitanSizeBoard board

def TritonOp.calls : TritonOp → List (RedisCall δ)
  | .upstreamUp up => fanout.setTritonUpstreamUp up
  | .frame nowMs => fanout.recordTritonFrame nowMs

def ShredOp.calls : ShredOp → List (RedisCall δ)
  | .resetAtBoot => fanout.resetShredStateAtBoot
  | .upstreamUp up => fanout.setShredUpstreamUp up
  | .frame ts => fanout.recordShredFrame ts
  | .deshred txCount ts => fanout.recordShredDeshred txCount ts
  | .hit vaultHit slot fecSetIndex src ttlSecs ts =>
    fanout.publishShredHit vaultHit slot fecSetIndex src ttlSecs ts

/-- The operations of each task, in its own order; a heartbeat is its clock. -/
structure TaskTraces (δ : Type) where
  titan : List (TitanOp δ)
  triton : List TritonOp
  shred : List ShredOp
  heartbeat : List UInt64

def TaskTraces.calls (traces : TaskTraces δ) : RedisTask → List (RedisCall δ)
  | .titan => traces.titan.flatMap (TitanOp.calls fanout)
  | .triton => traces.triton.flatMap (TritonOp.calls fanout)
  | .shred => traces.shred.flatMap (ShredOp.calls fanout)
  | .heartbeat => traces.heartbeat.flatMap fanout.heartbeat

/-- The individual Redis commands of each task. -/
def TaskTraces.commands (traces : TaskTraces δ) (task : RedisTask) : List (RedisCmd δ) :=
  (traces.calls fanout task).flatten

end

/-! ## Who owns a key -/

namespace MuxKeys

def titanTask : List String :=
  [titanFrames, titanDecoded, titanErrors, titanHop1Served, titanSizeBoard, titanFellThrough,
    titanPairsLive, titanLastFrameMs, titanFreshestMs, metaTitanUp]

def tritonTask : List String := [metaTritonUp, tritonFrames, tritonLastFrameMs]

def shredTask : List String :=
  [metaShredUp, shredShreds, shredTxsDeshredded, shredVaultHits, shredLastMs, shredLastHitMs,
    shredHit]

/-- The task that writes a key once the process has booted. -/
def owner (key : String) : Option RedisTask :=
  if hop1Prefix <+: key.toList ∨ key ∈ titanTask then some .titan
  else if key ∈ tritonTask then some .triton
  else if key ∈ shredTask then some .shred
  else if key = metaHeartbeatMs then some .heartbeat
  else none

theorem owner_titan : ∀ key ∈ titanTask, owner key = some .titan := by decide

theorem owner_triton : ∀ key ∈ tritonTask, owner key = some .triton := by decide

theorem owner_shred : ∀ key ∈ shredTask, owner key = some .shred := by decide

theorem owner_heartbeat : owner metaHeartbeatMs = some .heartbeat := by decide

/-- No task owns the counter of proxy sessions. -/
theorem owner_served : owner titanServed = none := by decide

end MuxKeys

section
variable {δ : Type} {fanout : RedisFanout}

/-- The guard lets all calls through or none. -/
theorem RedisFanout.mem_calls {cs : List (RedisCall δ)} {call : RedisCall δ}
    (h : call ∈ fanout.calls cs) : call ∈ cs := by
  unfold RedisFanout.calls at h
  split at h
  · cases h
  · exact h

/-- All commands behind the guard satisfy what the commands of the calls satisfy. -/
theorem RedisFanout.forall_calls {cs : List (RedisCall δ)} {P : RedisCmd δ → Prop}
    (h : ∀ c ∈ cs.flatten, P c) : ∀ c ∈ (fanout.calls cs).flatten, P c := by
  intro c hc
  obtain ⟨call, hcall, hc⟩ := List.mem_flatten.mp hc
  exact h c (List.mem_flatten.mpr ⟨call, RedisFanout.mem_calls hcall, hc⟩)

theorem RedisFanout.calls_owned {keys : List String} {task : RedisTask}
    (hk : ∀ key ∈ keys, MuxKeys.owner key = some task) {cs : List (RedisCall δ)}
    (h : ∀ c ∈ cs.flatten, c.key ∈ keys) :
    ∀ c ∈ (fanout.calls cs).flatten, MuxKeys.owner c.key = some task :=
  RedisFanout.forall_calls fun c hc => hk c.key (h c hc)

/-- Calls that do nothing to a flag but set it to this value. -/
def SetsOnly (key : String) (up : Bool) (calls : List (RedisCall δ)) : Prop :=
  ∀ c ∈ calls.flatten, c.key = key → c = RedisFanout.setInt key (flag up)

theorem SetsOnly.sets {key : String} {up : Bool} {calls : List (RedisCall δ)}
    (h : SetsOnly key up calls) (hm : RedisFanout.setInt key (flag up) ∈ calls.flatten)
    (redis : Redis δ) : counter (redis.after calls) key = some (flag up) :=
  counter_eq_some.mpr ⟨none, exec_set h hm redis⟩

/-- A flag that is set by calls which name every key once. -/
theorem SetsOnly.of_nodup {key : String} {up : Bool} {calls : List (RedisCall δ)}
    (hn : (calls.flatten.map Cmd.key).Nodup)
    (hm : RedisFanout.setInt key (flag up) ∈ calls.flatten) : SetsOnly key up calls :=
  fun _ hc hk => List.inj_on_of_nodup_map hn hc hm hk

theorem after_append (redis : Redis δ) (calls more : List (RedisCall δ)) :
    redis.after (calls ++ more) = (redis.after calls).after more := by
  unfold Redis.after
  rw [List.flatten_append, exec_append]

/-- Operation after operation. -/
theorem after_flatMap {ι : Type} (f : ι → List (RedisCall δ)) (ops : List ι) (redis : Redis δ) :
    redis.after (ops.flatMap f) = ops.foldl (fun redis op => redis.after (f op)) redis := by
  induction ops generalizing redis with
  | nil => rfl
  | cons op ops ih => rw [List.flatMap_cons, after_append, ih, List.foldl_cons]

/-- Calls on other keys leave a counter alone. -/
theorem after_frame {calls : List (RedisCall δ)} {key : String}
    (h : ∀ c ∈ calls.flatten, c.key ≠ key) (redis : Redis δ) :
    counter (redis.after calls) key = counter redis key := by
  unfold counter Redis.after
  rw [exec_frame h]

/-- The keys an operation writes, besides that of a row. -/
def TitanOp.fixedKeys : TitanOp δ → List String
  | .upstreamUp up => MuxKeys.metaTitanUp :: if up then [] else [MuxKeys.titanPairsLive]
  | .decodeError | .message .rpcError _ => [MuxKeys.titanErrors]
  | .message .quotePublished _ =>
    [MuxKeys.titanFrames, MuxKeys.titanDecoded, MuxKeys.titanLastFrameMs,
      MuxKeys.titanFreshestMs, MuxKeys.titanPairsLive, MuxKeys.metaTitanUp]
  | .message .unhandled _ => [MuxKeys.titanFellThrough]
  | .hop1 .. => [MuxKeys.titanHop1Served]
  | .sizeBoard _ => [MuxKeys.titanSizeBoard]

theorem TitanOp.key_mem (op : TitanOp δ) : ∀ c ∈ (op.calls fanout).flatten,
    c.key ∈ op.fixedKeys ∨ MuxKeys.hop1Prefix <+: c.key.toList := by
  cases op with
  | upstreamUp up =>
    apply RedisFanout.forall_calls
    cases up <;> simp [RedisFanout.setInt, Cmd.key, TitanOp.fixedKeys]
  | decodeError =>
    apply RedisFanout.forall_calls
    simp [Cmd.key, TitanOp.fixedKeys]
  | message outcome nowMs =>
    cases outcome <;> apply RedisFanout.forall_calls <;>
      simp [RedisFanout.setMs, RedisFanout.setInt, Cmd.key, TitanOp.fixedKeys]
  | hop1 row pair sizeLamports ttlSecs =>
    apply RedisFanout.forall_calls
    simp [Cmd.key, TitanOp.fixedKeys, MuxKeys.hop1RowKey_startsWith]
  | sizeBoard board =>
    apply RedisFanout.forall_calls
    simp [Cmd.key, TitanOp.fixedKeys]

theorem TitanOp.fixedKeys_subset (op : TitanOp δ) :
    ∀ key ∈ op.fixedKeys, key ∈ MuxKeys.titanTask := by
  cases op with
  | upstreamUp up => cases up <;> simp [TitanOp.fixedKeys, MuxKeys.titanTask]
  | message outcome nowMs => cases outcome <;> simp [TitanOp.fixedKeys, MuxKeys.titanTask]
  | _ => simp [TitanOp.fixedKeys, MuxKeys.titanTask]

/-- Operations that do not name a key leave it alone. -/
theorem TitanOp.frame {op : TitanOp δ} {key : String} (hrow : ¬ MuxKeys.hop1Prefix <+: key.toList)
    (hk : key ∉ op.fixedKeys) : ∀ c ∈ (op.calls fanout).flatten, c.key ≠ key := by
  rintro c hc rfl
  exact (op.key_mem c hc).elim hk hrow

def MuxKeys.titanFlags : List String := [titanPairsLive, metaTitanUp]

/-- Only marks and counted quotes touch the flags. -/
theorem TitanOp.flag_mem {op : TitanOp δ} {key : String} (hk : key ∈ MuxKeys.titanFlags)
    (h : key ∈ op.fixedKeys) :
    (∃ up, op = .upstreamUp up) ∨ ∃ nowMs, op = .message .quotePublished nowMs := by
  have hother : ∀ other ∈ [MuxKeys.titanErrors, MuxKeys.titanFellThrough, MuxKeys.titanHop1Served,
      MuxKeys.titanSizeBoard], other ∉ MuxKeys.titanFlags := by decide
  simp only [List.forall_mem_cons, List.not_mem_nil, false_implies, implies_true,
    and_true] at hother
  obtain ⟨herrors, hfell, hserved, hboard⟩ := hother
  cases op with
  | upstreamUp up => exact .inl ⟨up, rfl⟩
  | decodeError => exact absurd (List.mem_singleton.mp h ▸ hk) herrors
  | hop1 row pair sizeLamports ttlSecs => exact absurd (List.mem_singleton.mp h ▸ hk) hserved
  | sizeBoard board => exact absurd (List.mem_singleton.mp h ▸ hk) hboard
  | message outcome nowMs =>
    cases outcome with
    | quotePublished => exact .inr ⟨nowMs, rfl⟩
    | rpcError => exact absurd (List.mem_singleton.mp h ▸ hk) herrors
    | unhandled => exact absurd (List.mem_singleton.mp h ▸ hk) hfell

/-- Counting a quote sets the flags it names. -/
theorem TitanOp.quote_sets {key : String}
    (hk : key ∈ MuxKeys.titanFlags) (nowMs : UInt64) :
    SetsOnly key true ((TitanOp.message .quotePublished nowMs : TitanOp δ).calls fanout) := by
  refine RedisFanout.forall_calls (SetsOnly.of_nodup ?_ ?_)
  · show List.Nodup [MuxKeys.titanFrames, MuxKeys.titanDecoded, MuxKeys.titanLastFrameMs,
      MuxKeys.titanFreshestMs, MuxKeys.titanPairsLive, MuxKeys.metaTitanUp]
    decide
  · simp only [MuxKeys.titanFlags, List.mem_cons, List.not_mem_nil, or_false] at hk
    rcases hk with rfl | rfl <;> simp [flag]

theorem TitanOp.owned (op : TitanOp δ) :
    ∀ c ∈ (op.calls fanout).flatten, MuxKeys.owner c.key = some .titan := by
  intro c hc
  rcases op.key_mem c hc with hk | hrow
  · exact MuxKeys.owner_titan c.key (op.fixedKeys_subset c.key hk)
  · exact if_pos (.inl hrow)

theorem TritonOp.owned (op : TritonOp) :
    ∀ c ∈ (op.calls fanout : List (RedisCall δ)).flatten, MuxKeys.owner c.key = some .triton := by
  cases op <;> apply RedisFanout.calls_owned MuxKeys.owner_triton <;>
    simp [RedisFanout.setMs, RedisFanout.setInt, Cmd.key, MuxKeys.tritonTask]

theorem ShredOp.owned (op : ShredOp) :
    ∀ c ∈ (op.calls fanout : List (RedisCall δ)).flatten, MuxKeys.owner c.key = some .shred := by
  cases op <;> apply RedisFanout.calls_owned MuxKeys.owner_shred <;>
    simp [RedisFanout.setMs, RedisFanout.setInt, Cmd.key, MuxKeys.shredTask]

theorem heartbeat_owned (nowMs : UInt64) :
    ∀ c ∈ (fanout.heartbeat nowMs : List (RedisCall δ)).flatten,
      MuxKeys.owner c.key = some .heartbeat := by
  apply RedisFanout.forall_calls
  simp [RedisFanout.setMs, RedisFanout.setInt, Cmd.key, MuxKeys.owner_heartbeat]

theorem forall_flatMap_flatten {ι : Type} {f : ι → List (RedisCall δ)} {P : RedisCmd δ → Prop}
    (h : ∀ i, ∀ c ∈ (f i).flatten, P c) (is : List ι) : ∀ c ∈ (is.flatMap f).flatten, P c := by
  intro c hc
  obtain ⟨call, hcall, hc⟩ := List.mem_flatten.mp hc
  obtain ⟨i, _, hi⟩ := List.mem_flatMap.mp hcall
  exact h i c (List.mem_flatten.mpr ⟨call, hi, hc⟩)

/-- Every task writes its own keys only. -/
theorem TaskTraces.owned (traces : TaskTraces δ) (task : RedisTask) :
    ∀ c ∈ traces.commands fanout task, MuxKeys.owner c.key = some task := by
  cases task with
  | titan => exact forall_flatMap_flatten TitanOp.owned traces.titan
  | triton => exact forall_flatMap_flatten TritonOp.owned traces.triton
  | shred => exact forall_flatMap_flatten ShredOp.owned traces.shred
  | heartbeat => exact forall_flatMap_flatten heartbeat_owned traces.heartbeat

theorem TaskTraces.disjoint (traces : TaskTraces δ) :
    ∀ i j, i ≠ j → ∀ c ∈ traces.commands fanout i, ∀ d ∈ traces.commands fanout j,
      c.key ≠ d.key := by
  intro i j hij c hc d hd hk
  have hi := traces.owned i c hc
  rw [hk, traces.owned j d hd] at hi
  exact hij (Option.some.inj hi).symm

end

/-- The four tasks in some order. -/
def RedisTask.all : List RedisTask := [.titan, .triton, .shred, .heartbeat]

theorem RedisTask.mem_all : ∀ task, task ∈ RedisTask.all := by
  intro task
  cases task <;> decide

/-- **Non-interference.** Under every schedule of the individual commands of the
four tasks, Redis ends up as if they had run one after another in any order,
and the counter of proxy sessions is never written. -/
theorem tasks_commute {δ : Type} (fanout : RedisFanout) (redis : Redis δ)
    (traces : TaskTraces δ) (trace : List (RedisTask × RedisCmd δ))
    (h : Interleaves (traces.commands fanout) trace) (order : List RedisTask)
    (horder : order.Perm RedisTask.all) :
    let boot := redis.after fanout.resetTitanStateAtBoot
    (∀ key, exec boot (trace.map Prod.snd) key =
        exec boot (order.flatMap (traces.commands fanout)) key) ∧
      ∀ c ∈ trace.map Prod.snd, c.key ≠ MuxKeys.titanServed := by
  intro boot
  constructor
  · intro key
    have hd : order.Nodup := horder.nodup_iff.mpr (by decide)
    have hall : ∀ task, task ∈ order := fun task => horder.mem_iff.mpr task.mem_all
    have hone := oneByOne_interleaves (traces.commands fanout) hd hall
    rw [exec_interleaving traces.disjoint h hone, oneByOne_steps]
  · intro c hc hk
    obtain ⟨e, he, rfl⟩ := List.mem_map.mp hc
    have howned := traces.owned e.1 e.2 (h.mem he)
    rw [hk, MuxKeys.owner_served] at howned
    cases howned

/-! Both pipelines are split up by commands of other tasks. -/

def sampleTraces : TaskTraces Unit where
  titan := [.hop1 () "SOL-USDC" 5 2]
  triton := [.frame 3]
  shred := [.upstreamUp false]
  heartbeat := [7]

def sampleTrace : List (RedisTask × RedisCmd Unit) :=
  [(.triton, .incr MuxKeys.tritonFrames 1),
    (.titan, .setEx (MuxKeys.hop1RowKey "SOL-USDC" 5) (.doc (.row ())) 2),
    (.heartbeat, RedisFanout.setMs MuxKeys.metaHeartbeatMs 7),
    (.triton, RedisFanout.setMs MuxKeys.tritonLastFrameMs 3),
    (.shred, RedisFanout.setInt MuxKeys.metaShredUp 0),
    (.titan, .incr MuxKeys.titanHop1Served 1),
    (.triton, RedisFanout.setInt MuxKeys.metaTritonUp 1)]

theorem tasks_commute_sample :
    let fanout : RedisFanout := ⟨"feed:350", false, true⟩
    let boot := Redis.after (fun _ => none) fanout.resetTitanStateAtBoot
    (∀ key, exec boot (sampleTrace.map Prod.snd) key =
        exec boot ([RedisTask.shred, .titan, .heartbeat, .triton].flatMap
          (sampleTraces.commands fanout)) key) ∧
      ∀ c ∈ sampleTrace.map Prod.snd, c.key ≠ MuxKeys.titanServed := by
  intro fanout boot
  refine tasks_commute fanout (fun _ => none) sampleTraces sampleTrace ?_ _ (by decide)
  intro task
  cases task <;> rfl

end FeedMux

import FeedMux.Freshness

/-!
# A wake and the hit it announces (`run_udp_loop` in `src/upstream/triton_shred.rs`)

The shred task stores a hit under a key with a time to live, and then publishes a
wake for it. Whoever receives the wake and reads the key later, whatever all
tasks have done by then, finds the announced hit or a later one, and within the
time to live does find one (`wake_then_read`). All of this is about a Redis that
answers every command: a failure is only logged, and the wake is published anyway.
-/

namespace FeedMux
open FeedMux.Library FeedMux.Library.KeyValue FeedMux.Shred FeedMux.Titan FeedMux.Upstream

/-- What a task sends to Redis: a command, or the wake for a hit. Other events of
the channel are left out. -/
inductive Sent where
  | cmd (c : RedisCmd TitanDocument)
  | wake (wake : Wake)
  deriving DecidableEq

def Sent.cmd? : Sent → Option (RedisCmd TitanDocument)
  | .cmd c => some c
  | .wake _ => none

def Sent.wake? : Sent → Option Wake
  | .cmd _ => none
  | .wake w => some w

/-- The wake that follows an operation. -/
def ShredOp.wake? : ShredOp → Option Wake
  | .hit vaultHit slot fecSetIndex src _ _ => some ⟨vaultHit.vaultB58, slot, fecSetIndex, src⟩
  | .resetAtBoot | .upstreamUp _ | .frame _ | .deshred .. => none

/-- The commands of an operation have been answered before its wake is published. -/
def ShredOp.sent (fanout : RedisFanout) (op : ShredOp) : List Sent :=
  (op.calls fanout).flatten.map .cmd ++ op.wake?.toList.map .wake

def TaskTraces.sent (fanout : RedisFanout) (traces : TaskTraces TitanDocument) :
    RedisTask → List Sent
  | .shred => traces.shred.flatMap (ShredOp.sent fanout)
  | task => (traces.commands fanout task).map .cmd

/-! ## The wakes are those of the loop -/

def FeedPayload.wake? (payload : FeedPayload) : Option Wake :=
  match payload.data with
  | some (.shredWake wake) => some wake
  | _ => none

theorem udpOps_wakes (cfg : UdpConfig) (st : UdpState) (d : Datagram) :
    (udpOps cfg st d).filterMap ShredOp.wake? =
      (udpStep cfg st d).2.wakes.filterMap FeedPayload.wake? := by
  have hframe : ShredOp.wake? (.frame d.nowMs) = none := rfl
  rw [udpStep_wakes, udpOps, List.filterMap_cons_none hframe]
  cases (udpStep cfg st d).2.batch with
  | none => rfl
  | some batch =>
    simp only [Option.toList_some, List.flatMap_singleton, batchOps, List.filterMap_map]
    rw [List.filterMap_cons_none rfl, List.filterMap_map]
    rfl

theorem loop_wakes (cfg : UdpConfig) (st : UdpState) (ds : List Datagram) :
    (udpLoopOps cfg st ds).filterMap ShredOp.wake? =
      ((runs (udpStep cfg) st ds).2.flatMap UdpOutput.wakes).filterMap FeedPayload.wake? := by
  induction ds generalizing st with
  | nil => rfl
  | cons d ds ih =>
    rw [udpLoopOps, List.filterMap_append, udpOps_wakes, ih, runs_cons, List.flatMap_cons,
      List.filterMap_append]

/-! ## Wakes never get ahead of hits -/

/-- The document that a command stores as the hit. -/
def hitOf? : RedisCmd TitanDocument → Option (Document TitanDocument)
  | .setEx key (.doc doc) _ => if key = MuxKeys.shredHit then some doc else none
  | _ => none

theorem hitOf_key {c : RedisCmd TitanDocument} {doc : Document TitanDocument}
    (h : hitOf? c = some doc) : c.key = MuxKeys.shredHit := by
  unfold hitOf? at h
  split at h
  · split at h
    · assumption
    · cases h
  · cases h

/-- The wake that goes with a document. -/
def announces : Document TitanDocument → Option Wake
  | .shredHit vault slot fecSetIndex src _ => some ⟨vault, slot, fecSetIndex, src⟩
  | _ => none

def cmdsOf (sent : List Sent) : List (RedisCmd TitanDocument) := sent.filterMap Sent.cmd?

def hitsOf (sent : List Sent) : List (Document TitanDocument) := (cmdsOf sent).filterMap hitOf?

def wakesOf (sent : List Sent) : List Wake := sent.filterMap Sent.wake?

theorem cmdsOf_append (sent more : List Sent) :
    cmdsOf (sent ++ more) = cmdsOf sent ++ cmdsOf more :=
  List.filterMap_append

theorem hitsOf_append (sent more : List Sent) :
    hitsOf (sent ++ more) = hitsOf sent ++ hitsOf more := by
  rw [hitsOf, cmdsOf_append, List.filterMap_append]
  rfl

theorem wakesOf_append (sent more : List Sent) :
    wakesOf (sent ++ more) = wakesOf sent ++ wakesOf more := List.filterMap_append

theorem cmdsOf_cmd (c : RedisCmd TitanDocument) (sent : List Sent) :
    cmdsOf (.cmd c :: sent) = c :: cmdsOf sent := rfl

theorem cmdsOf_wake (w : Wake) (sent : List Sent) : cmdsOf (.wake w :: sent) = cmdsOf sent := rfl

theorem cmdsOf_cmds (cmds : List (RedisCmd TitanDocument)) : cmdsOf (cmds.map .cmd) = cmds := by
  rw [cmdsOf, List.filterMap_map]
  exact List.filterMap_some

theorem wakesOf_cmds (cmds : List (RedisCmd TitanDocument)) : wakesOf (cmds.map .cmd) = [] := by
  rw [wakesOf, List.filterMap_map]
  exact List.filterMap_eq_nil_iff.mpr fun _ _ => rfl

theorem cmdsOf_wakes (wakes : List Wake) : cmdsOf (wakes.map .wake) = [] := by
  rw [cmdsOf, List.filterMap_map]
  exact List.filterMap_eq_nil_iff.mpr fun _ _ => rfl

theorem wakesOf_wakes (wakes : List Wake) : wakesOf (wakes.map .wake) = wakes := by
  rw [wakesOf, List.filterMap_map]
  exact List.filterMap_some

/-- Only commands on the key store a hit. -/
theorem hitsOf_keyCmds (sent : List Sent) :
    ((cmdsOf sent).filter fun c => c.key = MuxKeys.shredHit).filterMap hitOf? = hitsOf sent := by
  rw [hitsOf, List.filterMap_filter]
  refine List.filterMap_congr fun c _ => ?_
  by_cases hk : c.key = MuxKeys.shredHit
  · simp [hk]
  · cases c with
    | setEx key value ttl => cases value <;> simp_all [hitOf?, Cmd.key]
    | _ => simp [hk, hitOf?]

theorem sent_cmds (fanout : RedisFanout) (ops : List ShredOp) :
    cmdsOf (ops.flatMap (ShredOp.sent fanout)) =
      (ops.flatMap (ShredOp.calls fanout)).flatten := by
  induction ops with
  | nil => rfl
  | cons op ops ih =>
    rw [List.flatMap_cons, cmdsOf_append, ih, ShredOp.sent, cmdsOf_append, cmdsOf_cmds,
      cmdsOf_wakes, List.append_nil, List.flatMap_cons, List.flatten_append]

section
variable {fanout : RedisFanout} (hw : fanout.writes = true)
include hw

theorem op_hits (op : ShredOp) :
    (op.calls fanout : List (RedisCall TitanDocument)).flatten.filterMap hitOf? =
      op.hitDoc?.toList := by
  cases op with
  | resetAtBoot =>
    rw [ShredOp.calls, RedisFanout.resetShredStateAtBoot, RedisFanout.calls_of_writes hw]
    rfl
  | upstreamUp up =>
    rw [ShredOp.calls, RedisFanout.setShredUpstreamUp, RedisFanout.calls_of_writes hw]
    rfl
  | frame ts =>
    rw [ShredOp.calls, RedisFanout.recordShredFrame, RedisFanout.calls_of_writes hw]
    rfl
  | deshred txCount ts =>
    rw [ShredOp.calls, RedisFanout.recordShredDeshred, RedisFanout.calls_of_writes hw]
    rfl
  | hit vaultHit slot fecSetIndex src ttl ts =>
    rw [ShredOp.calls, RedisFanout.publishShredHit, RedisFanout.calls_of_writes hw]
    simp [hitOf?, ShredOp.hitDoc?, RedisFanout.setMs, RedisFanout.setInt]

omit hw in
theorem op_announced (op : ShredOp) :
    op.wake?.toList.map some = (op.hitDoc?.toList).map announces := by
  cases op <;> rfl

theorem op_sent (op : ShredOp) : hitsOf (op.sent fanout) = op.hitDoc?.toList ∧
    wakesOf (op.sent fanout) = op.wake?.toList := by
  unfold ShredOp.sent
  rw [hitsOf_append, hitsOf, hitsOf, cmdsOf_cmds, cmdsOf_wakes, op_hits hw, wakesOf_append,
    wakesOf_cmds, wakesOf_wakes]
  exact ⟨List.append_nil _, rfl⟩

/-- An operation in progress has not published its wake, or stored its hit before. -/
theorem op_part {op : ShredOp} {sent : List Sent} (h : sent <+: op.sent fanout) :
    wakesOf sent = [] ∨ hitsOf sent = op.hitDoc?.toList := by
  rcases part_of_append h with hearly | ⟨wakes, hwakes, rfl⟩
  · have hnone : wakesOf sent <+: wakesOf ((op.calls fanout).flatten.map .cmd) :=
      hearly.filterMap Sent.wake?
    rw [wakesOf_cmds] at hnone
    exact .inl (List.prefix_nil.mp hnone)
  · have hnone : cmdsOf wakes <+: cmdsOf (op.wake?.toList.map .wake) := hwakes.filterMap Sent.cmd?
    rw [cmdsOf_wakes] at hnone
    rw [hitsOf_append, hitsOf, hitsOf, cmdsOf_cmds, List.prefix_nil.mp hnone, op_hits hw]
    exact .inr (List.append_nil _)

/-- At any moment the wakes published are those of the first hits stored. -/
theorem never_ahead {ops : List ShredOp} {sent : List Sent}
    (h : sent <+: ops.flatMap (ShredOp.sent fanout)) :
    (wakesOf sent).map some <+: (hitsOf sent).map announces := by
  induction ops generalizing sent with
  | nil =>
    obtain rfl := List.prefix_nil.mp h
    exact List.nil_prefix
  | cons op ops ih =>
    obtain ⟨hhits, hwakes⟩ := op_sent hw op
    rw [List.flatMap_cons] at h
    rcases part_of_append h with hop | ⟨more, hmore, rfl⟩
    · rcases op_part hw hop with hnone | hstored
      · rw [hnone]
        exact List.nil_prefix
      · have hpublished : wakesOf sent <+: wakesOf (op.sent fanout) := hop.filterMap Sent.wake?
        rw [hstored, ← op_announced, ← hwakes]
        exact hpublished.map some
    · rw [wakesOf_append, hitsOf_append, List.map_append, List.map_append, hhits, hwakes,
        op_announced]
      exact (List.prefix_append_right_inj _).mpr (ih hmore)

end

/-! ## A schedule, and a moment of it -/

/-- What the tasks send, with the times at which Redis handles it. -/
abbrev SentTrace := List (Nat × RedisTask × Sent)

namespace SentTrace

def schedule (trace : SentTrace) : List (RedisTask × Sent) := trace.map Prod.snd

/-- What one task has sent. -/
def own (trace : SentTrace) (task : RedisTask) : List Sent :=
  (trace.schedule.filter fun e => e.1 = task).map Prod.snd

def cmds (trace : SentTrace) : TimedCmds String (Document TitanDocument) :=
  trace.filterMap fun e => e.2.2.cmd?.map fun c => (e.1, c)

theorem own_append (trace more : SentTrace) (task : RedisTask) :
    own (trace ++ more) task = own trace task ++ own more task := by
  simp [own, schedule]

theorem cmds_cmd (t : Nat) (task : RedisTask) (c : RedisCmd TitanDocument) (trace : SentTrace) :
    cmds ((t, task, .cmd c) :: trace) = (t, c) :: cmds trace := rfl

theorem cmds_wake (t : Nat) (task : RedisTask) (w : Wake) (trace : SentTrace) :
    cmds ((t, task, .wake w) :: trace) = cmds trace := rfl

theorem own_own (t : Nat) (task : RedisTask) (sent : Sent) (trace : SentTrace) :
    own ((t, task, sent) :: trace) task = sent :: own trace task := by
  simp [own, schedule]

theorem own_other (t : Nat) (sent : Sent) {other task : RedisTask} (h : other ≠ task)
    (trace : SentTrace) : own ((t, other, sent) :: trace) task = own trace task := by
  simp [own, schedule, h]

theorem mem_own {trace : SentTrace} {task : RedisTask} {c : RedisCmd TitanDocument}
    (h : c ∈ cmdsOf (trace.own task)) : ∃ t, (t, task, .cmd c) ∈ trace := by
  obtain ⟨sent, hsent, hc⟩ := List.mem_filterMap.mp h
  obtain ⟨e, he, rfl⟩ := List.mem_map.mp hsent
  obtain ⟨he, htask⟩ := List.mem_filter.mp he
  obtain ⟨⟨t, other, sent⟩, hmem, rfl⟩ := List.mem_map.mp he
  obtain rfl : other = task := of_decide_eq_true htask
  cases sent with
  | wake w => cases hc
  | cmd c' =>
    obtain rfl := Option.some.inj hc
    exact ⟨t, hmem⟩

theorem times_sublist (trace : SentTrace) :
    (trace.cmds.map Prod.fst).Sublist (trace.map Prod.fst) := by
  induction trace with
  | nil => exact List.Sublist.refl _
  | cons e trace ih =>
    obtain ⟨t, task, sent⟩ := e
    cases sent with
    | cmd c => exact ih.cons_cons t
    | wake w => exact ih.cons t

/-- The hit that a step of the schedule stores. -/
def hit? (e : Nat × RedisTask × Sent) : Option (Document TitanDocument) :=
  if e.2.1 = .shred then e.2.2.cmd?.bind hitOf? else none

theorem own_hits (trace : SentTrace) : hitsOf (trace.own .shred) = trace.filterMap hit? := by
  induction trace with
  | nil => rfl
  | cons e trace ih =>
    obtain ⟨t, task, sent⟩ := e
    by_cases ht : task = .shred
    · subst ht
      rw [own_own, List.filterMap_cons, ← ih]
      cases sent with
      | wake w => rfl
      | cmd c => exact List.filterMap_cons
    · rw [own_other _ _ ht, ih]
      simp [hit?, ht]

/-- The commands on a key that the other tasks do not use are its owner's. -/
theorem own_keyCmds {trace : SentTrace} {key : String} {task : RedisTask}
    (h : ∀ e ∈ trace, e.2.1 ≠ task → ∀ c, e.2.2 = .cmd c → c.key ≠ key) :
    (trace.cmds.map Prod.snd).filter (fun c => c.key = key) =
      (cmdsOf (trace.own task)).filter fun c => c.key = key := by
  induction trace with
  | nil => rfl
  | cons e trace ih =>
    obtain ⟨t, other, sent⟩ := e
    have hrest := ih fun e he => h e (List.mem_cons_of_mem _ he)
    have hhead := h (t, other, sent) List.mem_cons_self
    by_cases ho : other = task
    · subst ho
      cases sent with
      | cmd c => rw [cmds_cmd, own_own, List.map_cons, cmdsOf_cmd, List.filter_cons,
          List.filter_cons, hrest]
      | wake w => rw [cmds_wake, own_own, cmdsOf_wake, hrest]
    · rw [own_other _ _ ho, ← hrest]
      cases sent with
      | cmd c =>
        have hkey : ¬ c.key = key := hhead ho c rfl
        rw [cmds_cmd, List.map_cons, List.filter_cons_of_neg (by simpa using hkey)]
      | wake w => rw [cmds_wake]

end SentTrace

section
variable {platform : Platform} {config : Config} {fanout : RedisFanout} {binds : Bool}
  {traces : TaskTraces TitanDocument} {trace rest : SentTrace}

theorem sent_commands (traces : TaskTraces TitanDocument) (task : RedisTask) :
    cmdsOf (traces.sent fanout task) = traces.commands fanout task := by
  cases task with
  | shred => exact sent_cmds fanout traces.shred
  | _ => exact cmdsOf_cmds _

variable (h : Interleaves (traces.sent fanout) (trace ++ rest).schedule)
include h

/-- What a task has sent by the moment. -/
theorem own_start (task : RedisTask) : trace.own task <+: traces.sent fanout task := by
  rw [← h task]
  exact ⟨rest.own task, (SentTrace.own_append ..).symm⟩

theorem mem_commands {e : Nat × RedisTask × Sent} (he : e ∈ trace) {c : RedisCmd TitanDocument}
    (hc : e.2.2 = .cmd c) : c ∈ traces.commands fanout e.2.1 := by
  have hsent : e.2 ∈ (trace ++ rest).schedule :=
    List.mem_map_of_mem (List.mem_append_left _ he)
  rw [← sent_commands]
  exact List.mem_filterMap.mpr ⟨e.2.2, h.mem hsent, by rw [hc]; rfl⟩

/-- The commands on the hit by the moment: those of the shred task. -/
theorem hit_keyCmds : (trace.cmds.map Prod.snd).filter (fun c => c.key = MuxKeys.shredHit) =
    (cmdsOf (trace.own .shred)).filter fun c => c.key = MuxKeys.shredHit := by
  refine SentTrace.own_keyCmds fun e he hne c hc hkey => ?_
  have howner := traces.owned e.2.1 c (mem_commands h he hc)
  rw [hkey, show MuxKeys.owner MuxKeys.shredHit = some .shred from by decide] at howner
  exact hne (Option.some.inj howner).symm

variable (hs : Started platform config fanout binds traces) (hw : fanout.writes = true)
include hs hw

/-- Once a hit is stored the commands on it are a deletion, if any, and the first of
the hits of the process. -/
theorem hit_history (hne : hitsOf (trace.own .shred) ≠ []) :
    hitsOf (trace.own .shred) <+: hitsPublished traces.shred ∧
      ∃ reset, reset <+: [.del MuxKeys.shredHit] ∧
        (trace.cmds.map Prod.snd).filter (fun c => c.key = MuxKeys.shredHit) =
          reset ++ (hitsOf (trace.own .shred)).map (hitCmd config.shredHitTtlSecs) := by
  have hstart := ((own_start h .shred).filterMap Sent.cmd?).filter
    fun c => c.key = MuxKeys.shredHit
  change (cmdsOf (trace.own .shred)).filter _ <+: (cmdsOf (traces.sent fanout .shred)).filter _
    at hstart
  rw [sent_commands, hs.hitCmds hw] at hstart
  have hhits := hitsOf_keyCmds (trace.own .shred)
  rw [hit_keyCmds h]
  generalize hreset : (if shredBound platform config fanout binds = true then
    [Cmd.del MuxKeys.shredHit] else []) = reset at hstart
  have hdel : reset <+: [.del MuxKeys.shredHit] := by
    rw [← hreset]
    split
    · exact List.prefix_refl _
    · exact List.nil_prefix
  have hnone : reset.filterMap hitOf? = [] := by
    have hfilter := hdel.filterMap hitOf?
    exact List.prefix_nil.mp hfilter
  rcases part_of_append hstart with hearly | ⟨more, hmore, hkey⟩
  · have hfilter := hearly.filterMap hitOf?
    rw [hhits, hnone] at hfilter
    exact absurd (List.prefix_nil.mp hfilter) hne
  · obtain ⟨hits, hstored, rfl⟩ := List.prefix_map_iff.mp hmore
    have hall : hitsOf (trace.own .shred) = hits := by
      rw [← hhits, hkey, List.filterMap_append, hnone, List.nil_append, List.filterMap_map]
      exact List.filterMap_some
    rw [hall]
    exact ⟨hstored, reset, hdel, hkey⟩

/-- What is read is the last hit stored by the moment, while its time to live runs. -/
theorem hit_read (hne : hitsOf (trace.own .shred) ≠ []) :
    ∃ doc t, (hitsOf (trace.own .shred)).getLast? = some doc ∧
      lastCmd MuxKeys.shredHit trace.cmds = some (t, hitCmd config.shredHitTtlSecs doc) ∧
      ∀ (redis : TimedRedis TitanDocument) (bootAt now : Nat)
          (value : KeyValue.Value (Document TitanDocument)),
        readAt now (execTimed redis (bootCmds fanout bootAt ++ trace.cmds)) MuxKeys.shredHit =
            some value ↔
          value = .doc doc ∧ now ≤ t + max config.shredHitTtlSecs.toNat 1 * ticksPerSecond := by
  obtain ⟨-, reset, hreset, hkey⟩ := hit_history h hs hw hne
  obtain ⟨doc, hdoc⟩ := Option.isSome_iff_exists.mp (List.getLast?_isSome.mpr hne)
  have hlast := lastCmd_snd MuxKeys.shredHit trace.cmds
  rw [hkey, List.getLast?_append, List.getLast?_map, hdoc, Option.map_some, Option.some_or,
    Option.map_eq_some_iff] at hlast
  obtain ⟨⟨t, c⟩, hl, hc⟩ := hlast
  obtain rfl : c = hitCmd config.shredHitTtlSecs doc := hc
  refine ⟨doc, t, hdoc, hl, fun redis bootAt now value => ?_⟩
  have hleased : ∀ e ∈ bootCmds fanout bootAt ++ trace.cmds, e.2.key = MuxKeys.shredHit →
      (∃ v ttl, e.2 = .setEx MuxKeys.shredHit v ttl) ∨ e.2 = .del MuxKeys.shredHit := by
    intro e he hekey
    rcases List.mem_append.mp he with he | he
    · exact absurd hekey (lastCmd_eq_none.mp (boot_keeps_hit fanout bootAt) e he)
    · have hmem : e.2 ∈ reset ++ (hitsOf (trace.own .shred)).map
          (hitCmd config.shredHitTtlSecs) := by
        rw [← hkey]
        exact List.mem_filter.mpr ⟨List.mem_map_of_mem he, by simpa using hekey⟩
      rcases List.mem_append.mp hmem with hmem | hmem
      · exact .inr (List.mem_singleton.mp (hreset.subset hmem))
      · obtain ⟨d, -, hd⟩ := List.mem_map.mp hmem
        exact .inl ⟨_, _, hd.symm⟩
  exact readAt_lease hleased (by rw [lastCmd_append, hl, Option.some_or]; rfl) redis now value

/-- The command that stored a hit, after as many others. -/
theorem hit_stored {k : Nat} {doc : Document TitanDocument}
    (hk : (hitsOf (trace.own .shred))[k]? = some doc) :
    ∃ earlier stored between,
      trace = earlier ++ (stored, .shred, .cmd (hitCmd config.shredHitTtlSecs doc)) :: between ∧
        (hitsOf (SentTrace.own earlier .shred)).length = k := by
  rw [SentTrace.own_hits] at hk
  obtain ⟨earlier, ⟨stored, task, sent⟩, between, hcut, hlen, hhit⟩ := filterMap_at hk
  rw [← SentTrace.own_hits] at hlen
  by_cases ht : task = .shred
  · subst ht
    cases sent with
    | wake w => cases hhit
    | cmd c =>
      have hof : hitOf? c = some doc := hhit
      have hmem : ((stored, .shred, .cmd c) : Nat × RedisTask × Sent) ∈ trace := by
        rw [hcut]
        simp
      have hcommand : c ∈ (traces.commands fanout .shred).filter
          fun c => c.key = MuxKeys.shredHit :=
        List.mem_filter.mpr ⟨mem_commands h hmem rfl, by simp [hitOf_key hof]⟩
      rw [hs.hitCmds hw] at hcommand
      rcases List.mem_append.mp hcommand with hdel | hset
      · split at hdel
        · rw [List.mem_singleton.mp hdel] at hof
          cases hof
        · cases hdel
      · obtain ⟨d, -, rfl⟩ := List.mem_map.mp hset
        obtain rfl : d = doc := Option.some.inj hof
        exact ⟨earlier, stored, between, hcut, hlen⟩
  · simp [SentTrace.hit?, ht] at hhit

end

/-- A wake of the task is one that the loop publishes for some datagrams. -/
theorem Started.wake_published {platform : Platform} {config : Config} {fanout : RedisFanout}
    {binds : Bool} {traces : TaskTraces TitanDocument}
    (hs : Started platform config fanout binds traces) {op : ShredOp} (hop : op ∈ traces.shred)
    {wake : Wake} (hwake : op.wake? = some wake) :
    ∃ cfg ∈ spawnShred platform config fanout, ∃ ds, wake ∈
      ((runs (udpStep cfg) (.start {}) ds).2.flatMap UdpOutput.wakes).filterMap
        FeedPayload.wake? := by
  have hshred := hs.shred
  cases hspawn : spawnShred platform config fanout with
  | none =>
    rw [hspawn] at hshred
    rw [hshred] at hop
    cases hop
  | some cfg =>
    rw [hspawn] at hshred
    obtain ⟨-, ds, hrun⟩ := hshred
    have hmem := hrun.subset hop
    refine ⟨cfg, rfl, ds, ?_⟩
    rw [← loop_wakes]
    unfold runUdpLoop at hmem
    split at hmem
    · simp only [List.cons_append, List.nil_append, List.mem_cons] at hmem
      rcases hmem with rfl | rfl | hmem
      · cases hwake
      · cases hwake
      · exact List.mem_filterMap.mpr ⟨op, hmem, hwake⟩
    · rw [List.mem_singleton.mp hmem] at hwake
      cases hwake

/-- **A wake and a later read.** Once the tasks have started, under every schedule
of theirs, while Redis answers every command: who receives the `k`-th wake of the
shred loop and reads the key at any later moment reads the `k`-th hit, stored before
that wake, or a later one, and does read one within the time to live. -/
theorem wake_then_read (platform : Platform) (config : Config) (hd : config.dryRun = false)
    (hu : config.redisUrl.isSome) (binds : Bool) (traces : TaskTraces TitanDocument)
    (hs : Started platform config (.connect config true) binds traces) (at_ : Nat) (wake : Wake)
    (before after rest : SentTrace)
    (h : Interleaves (traces.sent (.connect config true))
      ((before ++ (at_, .shred, .wake wake) :: after) ++ rest : SentTrace).schedule)
    (hsorted : ((before ++ (at_, .shred, .wake wake) :: after : SentTrace).map
      Prod.fst).Pairwise (· ≤ ·))
    (redis : TimedRedis TitanDocument) (bootAt now : Nat) :
    let read := readAt now (execTimed redis (bootCmds (.connect config true) bootAt ++
      (before ++ (at_, .shred, .wake wake) :: after : SentTrace).cmds)) MuxKeys.shredHit
    let hits : List (Document TitanDocument) := hitsPublished traces.shred
    let k := (wakesOf (before.own .shred)).length
    (∃ cfg ∈ spawnShred platform config (.connect config true), ∃ ds, wake ∈
        ((runs (udpStep cfg) (.start {}) ds).2.flatMap UdpOutput.wakes).filterMap
          FeedPayload.wake?) ∧
      ∃ (doc : _) (stored : Nat) (earlier between : SentTrace),
        hits[k]? = some doc ∧ announces doc = some wake ∧
        before = earlier ++
          (stored, .shred, .cmd (hitCmd config.shredHitTtlSecs doc)) :: between ∧
        (hitsOf (SentTrace.own earlier .shred)).length = k ∧
        (∀ value, read = some value → ∃ j : Nat, k ≤ j ∧ ∃ later, hits[j]? = some later ∧
          value = .doc later) ∧
        (now ≤ stored + max config.shredHitTtlSecs.toNat 1 * ticksPerSecond →
          read.isSome) := by
  intro read hits k
  let trace : SentTrace := before ++ (at_, .shred, .wake wake) :: after
  have hw : (RedisFanout.connect config true).writes = true := by
    refine RedisFanout.writes_of hd ?_
    simp [RedisFanout.connect, hd, hu]
  have hown : trace.own .shred =
      (before.own .shred ++ [.wake wake]) ++ SentTrace.own after .shred := by
    rw [SentTrace.own_append, SentTrace.own_own, List.append_assoc]
    rfl
  have hsent : trace.own .shred <+: traces.shred.flatMap (ShredOp.sent (.connect config true)) :=
    own_start h .shred
  constructor
  · have hmem : Sent.wake wake ∈ traces.shred.flatMap (ShredOp.sent (.connect config true)) := by
      refine hsent.subset ?_
      rw [hown]
      simp
    obtain ⟨op, hop, hw'⟩ := List.mem_flatMap.mp hmem
    refine hs.wake_published hop ?_
    simpa [ShredOp.sent] using hw'
  · -- The wake is the `k`-th, so by then the `k`-th hit is stored.
    have hahead := never_ahead hw ((List.prefix_append _ _).trans (hown ▸ hsent))
    have hhits : hitsOf (before.own .shred ++ [.wake wake]) = hitsOf (before.own .shred) := by
      rw [hitsOf_append]
      exact List.append_nil _
    obtain ⟨ahead, hahead⟩ := hahead
    have hk : ((hitsOf (before.own .shred)).map announces)[(wakesOf (before.own .shred)).length]? =
        some (some wake) := by
      rw [← hhits, ← hahead, wakesOf_append]
      simp [wakesOf, Sent.wake?]
    rw [List.getElem?_map, Option.map_eq_some_iff] at hk
    obtain ⟨doc, hdoc, hannounces⟩ := hk
    have hmem : doc ∈ hitsOf (before.own .shred) := List.mem_of_getElem? hdoc
    have hall : hitsOf (trace.own .shred) =
        hitsOf (before.own .shred) ++ hitsOf (SentTrace.own after .shred) := by
      rw [hown, hitsOf_append, hhits]
    have hfirst : hitsOf (before.own .shred) <+: hitsOf (trace.own .shred) :=
      ⟨_, hall.symm⟩
    have hne : hitsOf (trace.own .shred) ≠ [] := by
      rw [hall]
      exact List.append_ne_nil_of_left_ne_nil (List.ne_nil_of_mem hmem) _
    obtain ⟨hstart, reset, hreset, hkey⟩ := hit_history h hs hw hne
    obtain ⟨last, t, hlast, hl, hread⟩ := hit_read h hs hw hne
    have hbefore : Interleaves (traces.sent (.connect config true))
        (before ++ ((at_, .shred, .wake wake) :: after ++ rest)).schedule := by
      rwa [← List.append_assoc]
    obtain ⟨earlier, stored, between, hcut, hlen⟩ := hit_stored hbefore hs hw hdoc
    have hstored : (stored, .shred, .cmd (hitCmd config.shredHitTtlSecs doc)) ∈ before := by
      rw [hcut]
      simp
    refine ⟨doc, stored, earlier, between, getElem?_of_start (hfirst.trans hstart) hdoc,
      hannounces, hcut, hlen, ?_, ?_⟩
    · intro value hvalue
      obtain ⟨rfl, -⟩ := (hread redis bootAt now value).mp hvalue
      rw [List.getLast?_eq_getElem?] at hlast
      refine ⟨_, ?_, last, getElem?_of_start hstart hlast, rfl⟩
      have hlt := (List.getElem?_eq_some_iff.mp (getElem?_of_start hfirst hdoc)).1
      exact Nat.le_sub_one_of_lt hlt
    · intro hnow
      have hlater : stored ≤ t := by
        have htimes := hsorted.sublist (SentTrace.times_sublist trace)
        refine lastCmd_latest htimes hl (e := (stored, hitCmd config.shredHitTtlSecs doc)) ?_ rfl
        exact List.mem_filterMap.mpr ⟨_, List.mem_append_left _ hstored, rfl⟩
      rw [show read = some (.doc last) from (hread redis bootAt now _).mpr ⟨rfl, by omega⟩]
      rfl

/-! A set with the vault is completed; its wake is the last thing sent. -/

def wakeTrace : SentTrace :=
  (oneByOne RedisTask.all (hitTraces.sent (.connect (shredConfig true) true))).map
    fun e => (1000, e)

def sampleWake : Wake := ⟨base58Encode straddledVault.bytes, 7, 3, "203.0.113.7:9000"⟩

/-- The wake is received and the key is read two seconds later. -/
theorem wake_then_read_sample :
    (readAt 3000 (execTimed earlierHit (bootCmds (.connect (shredConfig true) true) 0 ++
      wakeTrace.cmds)) MuxKeys.shredHit).isSome := by
  have hsplit : wakeTrace = wakeTrace.dropLast ++ [(1000, .shred, .wake sampleWake)] := by
    decide +kernel
  have hschedule : (wakeTrace ++ [] : SentTrace).schedule =
      oneByOne RedisTask.all (hitTraces.sent (.connect (shredConfig true) true)) := by
    rw [List.append_nil, SentTrace.schedule, wakeTrace, List.map_map]
    exact List.map_id _
  have hone : Interleaves (hitTraces.sent (.connect (shredConfig true) true))
      ((wakeTrace.dropLast ++ (1000, .shred, .wake sampleWake) :: []) ++ [] :
        SentTrace).schedule := by
    rw [← hsplit, hschedule]
    exact oneByOne_interleaves _ (by decide) RedisTask.mem_all
  have hsorted : ((wakeTrace.dropLast ++ (1000, .shred, .wake sampleWake) :: [] : SentTrace).map
      Prod.fst).Pairwise (· ≤ ·) := by
    rw [← hsplit]
    decide +kernel
  obtain ⟨-, doc, stored, earlier, between, -, -, hcut, -, -, hsome⟩ := wake_then_read shredPlatform
    (shredConfig true) rfl rfl true hitTraces hitTraces_started 1000 sampleWake
    wakeTrace.dropLast [] [] hone hsorted earlierHit 0 3000
  have htime : ∀ e ∈ wakeTrace.dropLast, e.1 = 1000 := by decide +kernel
  have hstored : stored = 1000 := by
    refine htime (stored, .shred, .cmd (hitCmd (shredConfig true).shredHitTtlSecs doc)) ?_
    rw [hcut]
    simp
  rw [← hsplit] at hsome
  refine hsome ?_
  rw [hstored]
  decide

end FeedMux

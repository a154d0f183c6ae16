import FeedMux.Freshness

/-!
# The size board and its rows (`src/titan_quote.rs`, `src/redis_fanout.rs`)

A published quote stores its row before the board that shows it. So who reads the
board and then the row behind one of its pins finds that row or a later one, as
long as its time to live runs (`board_then_row`). This is about a Redis that answers
every command: where storing a row fails, the board may still show it.
-/

namespace FeedMux
open FeedMux.Library FeedMux.Library.KeyValue FeedMux.Titan FeedMux.Upstream

/-! ## What a document shows -/

def hop1KeyOf (row : TitanHop1Row) : String := MuxKeys.hop1RowKey row.pair row.sizeLamports

/-- The pins of the board are of rows published by these operations. -/
def Backed (ops : List (TitanOp TitanDocument)) (board : TitanSizeBoard) : Prop :=
  ∀ (size : UInt64) (pin : SizeBoardPin), board.pins[size]? = some pin →
    ∃ row, (hop1KeyOf row, row) ∈ rowsPublished ops ∧ pin = pinOf row

/-- A pin of a document is empty, or of a row that has aged. -/
def DocBacked (ops : List (TitanOp TitanDocument)) (doc : TitanSizeBoardDoc) : Prop :=
  ∀ pin ∈ doc.pins, (∃ unsubscribed, pin = emptyPin pin.sizeLamports unsubscribed) ∨
    ∃ row, (hop1KeyOf row, row) ∈ rowsPublished ops ∧ pin = (pinOf row).aged doc.updatedMs

theorem rowsPublished_append (ops more : List (TitanOp TitanDocument)) :
    rowsPublished (ops ++ more) = rowsPublished ops ++ rowsPublished more :=
  List.filterMap_append

section
variable {ops : List (TitanOp TitanDocument)} {board : TitanSizeBoard}

theorem Backed.later (h : Backed ops board) (more : List (TitanOp TitanDocument)) :
    Backed (ops ++ more) board := by
  intro size pin hpin
  obtain ⟨row, hrow, rfl⟩ := h size pin hpin
  exact ⟨row, by rw [rowsPublished_append]; exact List.mem_append_left _ hrow, rfl⟩

theorem Backed.doc (h : Backed ops board) (order : IterationOrder) (now : UInt64)
    (pair base mid : String) :
    DocBacked ops (buildSizeBoardDocWithPair board order now pair base mid) := by
  intro pin hpin
  rcases mem_doc.mp hpin with ⟨size, filed, hfiled, rfl⟩ | ⟨size, -, -, rfl⟩
  · obtain ⟨row, hrow, rfl⟩ := h size filed hfiled
    exact .inr ⟨row, hrow, rfl⟩
  · exact .inl ⟨_, rfl⟩

theorem Backed.record (h : Backed ops board) {row : TitanHop1Row}
    (hrow : (hop1KeyOf row, row) ∈ rowsPublished ops) : Backed ops (board.record row) := by
  intro size pin hpin
  unfold TitanSizeBoard.record at hpin
  simp only [Std.ExtTreeMap.getElem?_insert] at hpin
  split at hpin
  · obtain rfl := Option.some.inj hpin
    exact ⟨row, hrow, rfl⟩
  · exact h size pin hpin

/-- Every document among the operations is backed by those before it. -/
def DocsBacked (done ops : List (TitanOp TitanDocument)) : Prop :=
  ∀ pre doc post, ops = pre ++ .sizeBoard (.sizeBoard doc) :: post → DocBacked (done ++ pre) doc

theorem docsBacked_append {done more : List (TitanOp TitanDocument)} (h : DocsBacked done ops)
    (h' : DocsBacked (done ++ ops) more) : DocsBacked done (ops ++ more) := by
  intro pre doc post hsplit
  rcases List.append_eq_append_iff.mp hsplit with ⟨rest, rfl, hmore⟩ | ⟨rest, rfl, hrest⟩
  · rw [← List.append_assoc]
    exact h' rest doc post hmore
  · cases rest with
    | nil =>
      rw [List.nil_append] at hrest
      have hdoc := h' [] doc post hrest.symm
      simpa using hdoc
    | cons op rest =>
      obtain ⟨rfl, -⟩ := List.cons.inj hrest
      exact h pre doc rest rfl

theorem docsBacked_one {done : List (TitanOp TitanDocument)} {doc : TitanSizeBoardDoc}
    (h : DocBacked done doc) : DocsBacked done [.sizeBoard (.sizeBoard doc)] := by
  intro pre doc' post hsplit
  cases pre with
  | nil =>
    cases hsplit
    rwa [List.append_nil]
  | cons op pre => simp at hsplit

theorem docsBacked_of_none {done : List (TitanOp TitanDocument)}
    (h : ∀ doc, .sizeBoard doc ∉ ops) : DocsBacked done ops := by
  rintro pre doc post rfl
  exact absurd (by simp) (h (.sizeBoard doc))

end

/-! ## What the loop stores -/

section
variable {cfg : TitanLive.LoopConfig} {st : TitanState} {done : List (TitanOp TitanDocument)}

/-- A frame publishes its row before its document. -/
theorem frame_backed (h : Backed done st.board) (frame : TitanFrame) :
    DocsBacked done (frameOps cfg.env st frame) ∧
      Backed (done ++ frameOps cfg.env st frame)
        (handleTitanServerMessage cfg.env st frame).1.board := by
  unfold frameOps
  cases hq : quoteOf cfg.env st frame with
  | none =>
    rw [(handle_no_quote hq).1]
    refine ⟨docsBacked_of_none ?_, h.later _⟩
    cases (handleTitanServerMessage cfg.env st frame).2.kind <;> simp [answerOps]
  | some quote =>
    let row := rowOf quote frame.clock.rowMs
    let publish : TitanOp TitanDocument :=
      .hop1 (.hop1Row row) quote.pair quote.sizeLamports cfg.env.hop1TtlSecs
    have hrow : (hop1KeyOf row, row) ∈ rowsPublished (done ++ [publish]) := by
      rw [rowsPublished_append]
      exact List.mem_append_right _ List.mem_cons_self
    have hrecord : Backed (done ++ [publish]) (st.board.record row) :=
      (h.later [publish]).record hrow
    rw [handle_quote hq]
    constructor
    · have hpublish : DocsBacked done [publish] := docsBacked_of_none (by simp [publish])
      have hdoc : DocsBacked (done ++ [publish])
          [.sizeBoard (.sizeBoard (docOf st.board quote frame.clock))] :=
        docsBacked_one (hrecord.doc _ _ _ _ _)
      have hmessage : DocsBacked ((done ++ [publish]) ++
          [.sizeBoard (.sizeBoard (docOf st.board quote frame.clock))])
          [.message .quotePublished frame.clock.doneMs] := docsBacked_of_none (by simp)
      rw [List.append_assoc] at hmessage
      exact docsBacked_append hpublish (docsBacked_append hdoc (by rwa [List.append_assoc]))
    · have hrest := hrecord.later [.sizeBoard (.sizeBoard (docOf st.board quote frame.clock)),
        .message .quotePublished frame.clock.doneMs]
      rwa [List.append_assoc] at hrest

/-- One event of a session. -/
theorem step_backed (h : Backed done st.board) (event : TitanLive.SessionEvent) :
    DocsBacked done (TitanLive.sessionStep cfg st event).2 ∧
      Backed (done ++ (TitanLive.sessionStep cfg st event).2)
        (TitanLive.sessionStep cfg st event).1.board := by
  cases event with
  | connectFailed => exact ⟨docsBacked_of_none (by simp [TitanLive.sessionStep]), h.later _⟩
  | connected =>
    refine ⟨docsBacked_of_none (by simp [TitanLive.sessionStep]), ?_⟩
    intro size pin hpin
    simp [TitanLive.sessionStep, startSession, TitanSizeBoard.clear,
      TitanSizeBoard.initHuntSizes] at hpin
  | handshake script snapshotMs order =>
    have hpins : (subscribeHuntStreams cfg.wallet script cfg.ladder st).st.board.pins =
        st.board.pins := (subscribeFrom_frame ..).2.1
    have hboard : Backed done (subscribeHuntStreams cfg.wallet script cfg.ladder st).st.board := by
      intro size pin hpin
      rw [hpins] at hpin
      exact h size pin hpin
    unfold TitanLive.sessionStep
    simp only
    cases (subscribeHuntStreams cfg.wallet script cfg.ladder st).result with
    | error e => exact ⟨docsBacked_of_none (by simp), hboard.later _⟩
    | ok u => exact ⟨docsBacked_one (hboard.doc _ _ _ _ _), hboard.later _⟩
  | frame frame => exact frame_backed h frame
  | disconnected => exact ⟨docsBacked_of_none (by simp [TitanLive.sessionStep]), h.later _⟩

theorem run_backed (h : Backed done st.board) (events : List TitanLive.SessionEvent) :
    DocsBacked done (TitanLive.opsFrom cfg st events) := by
  induction events generalizing st done with
  | nil => exact docsBacked_of_none (by simp [TitanLive.opsFrom])
  | cons event events ih =>
    rw [TitanLive.opsFrom_cons]
    obtain ⟨hdocs, hboard⟩ := step_backed h event
    exact docsBacked_append hdocs (ih hboard)

/-- The documents of the loop show nothing but rows that it published before. -/
theorem loop_backed (cfg : TitanLive.LoopConfig) (sessions : List TitanLive.Session) :
    DocsBacked [] (TitanLive.loopOps cfg sessions) := by
  refine run_backed ?_ _
  intro size pin hpin
  simp at hpin

end
/-! ## What has been executed -/

/-- The rows published under a key, in order. -/
def publishedUnder (key : String) (ops : List (TitanOp TitanDocument)) :
    List (String × TitanHop1Row) :=
  (rowsPublished ops).filter fun entry => entry.1 = key

/-- The commands of a task that have been executed. -/
def TimedTrace.own (trace : TimedTrace TitanDocument) (task : RedisTask) :
    List (RedisCmd TitanDocument) :=
  (trace.schedule.filter fun e => e.1 = task).map Prod.snd

/-- The commands of an operation. -/
def opCmds (fanout : RedisFanout) (op : TitanOp TitanDocument) : List (RedisCmd TitanDocument) :=
  (op.calls fanout).flatten

theorem calls_flatten (fanout : RedisFanout) (ops : List (TitanOp TitanDocument)) :
    (ops.flatMap (TitanOp.calls fanout)).flatten = ops.flatMap (opCmds fanout) := by
  rw [List.flatMap_def, List.flatten_flatten, List.map_map]
  rfl

theorem titan_commands (fanout : RedisFanout) (traces : TaskTraces TitanDocument) :
    traces.commands fanout .titan = traces.titan.flatMap (opCmds fanout) :=
  calls_flatten fanout traces.titan

theorem TimedTrace.own_append (trace more : TimedTrace TitanDocument) (task : RedisTask) :
    TimedTrace.own (trace ++ more) task = trace.own task ++ more.own task := by
  simp [TimedTrace.own, TimedTrace.schedule]

theorem TimedTrace.mem_own {trace : TimedTrace TitanDocument} {task : RedisTask}
    {c : RedisCmd TitanDocument} (h : c ∈ trace.own task) : ∃ t, (t, task, c) ∈ trace := by
  obtain ⟨⟨other, c⟩, he, rfl⟩ := List.mem_map.mp h
  obtain ⟨he, htask⟩ := List.mem_filter.mp he
  obtain ⟨⟨t, e⟩, hmem, heq⟩ := List.mem_map.mp he
  obtain rfl : e = (other, c) := heq
  obtain rfl : other = task := by simpa using htask
  exact ⟨t, hmem⟩

section
variable {fanout : RedisFanout} {traces : TaskTraces TitanDocument}
  {trace rest : TimedTrace TitanDocument}
  (h : Interleaves (traces.commands fanout) (trace ++ rest : TimedTrace TitanDocument).schedule)
include h

theorem own_started (task : RedisTask) : trace.own task <+: traces.commands fanout task := by
  rw [← h task]
  exact ⟨rest.own task, (TimedTrace.own_append ..).symm⟩

/-- The commands executed on a key are those of its owner. -/
theorem keyCmds_own {key : String} {task : RedisTask} (ho : MuxKeys.owner key = some task) :
    (trace.cmds.map Prod.snd).filter (fun c => c.key = key) =
      (trace.own task).filter fun c => c.key = key := by
  rw [TimedTrace.cmds_snd]
  have hown : Interleaves trace.own trace.schedule := fun _ => rfl
  refine hown.filter_own fun other hne c hc => ?_
  rw [decide_eq_false_iff_not]
  rintro rfl
  rw [traces.owned other c ((own_started h other).subset hc)] at ho
  exact hne (Option.some.inj ho)

end

/-- Only the board's own operation writes its key. -/
theorem boardCmd {fanout : RedisFanout} {op : TitanOp TitanDocument} {c : RedisCmd TitanDocument}
    (hc : c ∈ opCmds fanout op) (hkey : c.key = MuxKeys.titanSizeBoard) :
    ∃ doc, op = .sizeBoard doc ∧ c = .set MuxKeys.titanSizeBoard (.doc (.row doc)) := by
  have hrow : ¬ MuxKeys.hop1Prefix <+: MuxKeys.titanSizeBoard.toList := by decide
  have hfixed : MuxKeys.titanSizeBoard ∈ op.fixedKeys := by
    rcases op.key_mem c hc with hmem | hmem
    · rwa [hkey] at hmem
    · rw [hkey] at hmem
      exact absurd hmem hrow
  cases op with
  | sizeBoard doc =>
    refine ⟨doc, rfl, ?_⟩
    obtain ⟨call, hcall, hc⟩ := List.mem_flatten.mp hc
    have hcs := RedisFanout.mem_calls hcall
    simp only [List.mem_singleton] at hcs
    subst hcs
    exact List.mem_singleton.mp hc
  | upstreamUp up => cases up <;> simp +decide at hfixed
  | message outcome nowMs => cases outcome <;> simp +decide [TitanOp.fixedKeys] at hfixed
  | decodeError | hop1 doc pair sizeLamports ttlSecs =>
    simp +decide [TitanOp.fixedKeys] at hfixed

/-! ## Reading the board -/

section
variable {fanout : RedisFanout} (hw : fanout.writes = true) {traces : TaskTraces TitanDocument}
  {trace rest : TimedTrace TitanDocument}
  (h : Interleaves (traces.commands fanout) (trace ++ rest : TimedTrace TitanDocument).schedule)
include h

/-- A command on the board is one that the Titan task has executed. -/
theorem board_set {e : Nat × RedisCmd TitanDocument} (he : e ∈ trace.cmds)
    (hkey : e.2.key = MuxKeys.titanSizeBoard) :
    e.2 ∈ trace.own .titan ∧ ∃ doc, e.2 = .set MuxKeys.titanSizeBoard (.doc (.row doc)) := by
  have howner : MuxKeys.owner MuxKeys.titanSizeBoard = some .titan := by decide
  have hown : e.2 ∈ trace.own .titan := by
    have hmem : e.2 ∈ (trace.cmds.map Prod.snd).filter fun c => c.key = MuxKeys.titanSizeBoard :=
      List.mem_filter.mpr ⟨List.mem_map_of_mem he, by simpa using hkey⟩
    rw [keyCmds_own h howner] at hmem
    exact (List.mem_filter.mp hmem).1
  refine ⟨hown, ?_⟩
  have hcmd := (own_started h .titan).subset hown
  rw [titan_commands] at hcmd
  obtain ⟨op, -, hc⟩ := List.mem_flatMap.mp hcmd
  obtain ⟨doc, -, heq⟩ := boardCmd hc hkey
  exact ⟨doc, heq⟩

include hw in
/-- A document that is read was stored by an operation, after all of those before it. -/
theorem board_read {redis : TimedRedis TitanDocument} {bootAt now : Nat} {doc : TitanSizeBoardDoc}
    (hread : readAt now (laterRedis fanout bootAt trace redis) MuxKeys.titanSizeBoard =
      some (.doc (.row (.sizeBoard doc)))) :
    ∃ pre post, traces.titan = pre ++ .sizeBoard (.sizeBoard doc) :: post ∧
      pre.flatMap (opCmds fanout) <+: trace.own .titan := by
  have hreset : ∀ c ∈ (fanout.resetTitanStateAtBoot : List (RedisCall TitanDocument)).flatten,
      c.key = MuxKeys.titanSizeBoard →
        c = .set MuxKeys.titanSizeBoard (.doc (.text emptyBoard)) := by
    apply RedisFanout.forall_calls
    simp +decide
  have hboot : (lastCmd MuxKeys.titanSizeBoard (bootCmds fanout bootAt :
      TimedCmds _ (Document TitanDocument))).map Prod.snd =
      some (.set MuxKeys.titanSizeBoard (.doc (.text emptyBoard))) := by
    rw [lastCmd_snd, bootCmds_snd, RedisFanout.resetTitanStateAtBoot,
      RedisFanout.calls_of_writes hw]
    rfl
  have hset : ∀ e ∈ bootCmds fanout bootAt ++ trace.cmds, e.2.key = MuxKeys.titanSizeBoard →
      ∃ v, e.2 = .set MuxKeys.titanSizeBoard v := by
    intro e he hkey
    rcases List.mem_append.mp he with he | he
    · obtain ⟨c, hc, rfl⟩ := List.mem_map.mp he
      exact ⟨_, hreset c hc hkey⟩
    · obtain ⟨-, doc, heq⟩ := board_set h he hkey
      exact ⟨_, heq⟩
  rw [laterRedis, readAt_set hset, lastCmd_append] at hread
  cases hl : lastCmd MuxKeys.titanSizeBoard trace.cmds with
  | none =>
    rw [hl, Option.none_or] at hread
    rcases hread with ⟨t, hstored⟩ | ⟨hnone, -⟩
    · rw [hstored] at hboot
      cases hboot
    · rw [hnone] at hboot
      cases hboot
  | some e =>
    rw [hl, Option.some_or] at hread
    rcases hread with ⟨t, hstored⟩ | ⟨hnone, -⟩
    · obtain rfl := Option.some.inj hstored
      obtain ⟨hmem, hkey⟩ := mem_of_lastCmd hl
      obtain ⟨hown, -⟩ := board_set h hmem hkey
      have hstart := own_started h .titan
      rw [titan_commands] at hstart
      obtain ⟨pre, op, post, hops, hop, hpre⟩ := block_of_part hstart hown
      obtain ⟨stored, rfl, heq⟩ := boardCmd hop hkey
      cases heq
      exact ⟨pre, post, hops, hpre⟩
    · cases hnone

end

/-! ## Reading a row -/

section
variable {platform : Platform} {config : Config} {fanout : RedisFanout} {binds : Bool}
  {traces : TaskTraces TitanDocument} {trace rest : TimedTrace TitanDocument}
  {pre post : List (TitanOp TitanDocument)}
  (h : Interleaves (traces.commands fanout) (trace ++ rest : TimedTrace TitanDocument).schedule)
  (hs : Started platform config fanout binds traces) (hw : fanout.writes = true)
  {key : String} (hk : MuxKeys.hop1Prefix <+: key.toList)

include hs in
/-- What the Titan task has stored as the board is backed by what it did before. -/
theorem Started.doc_backed {doc : TitanSizeBoardDoc}
    (hops : traces.titan = pre ++ .sizeBoard (.sizeBoard doc) :: post) : DocBacked pre doc := by
  have htitan := hs.titan
  cases hspawn : spawnTitan platform config fanout with
  | none =>
    simp only [hspawn] at htitan
    simp [htitan] at hops
  | some cfg =>
    simp only [hspawn] at htitan
    obtain ⟨sessions, more, hmore⟩ := htitan
    refine loop_backed cfg sessions pre doc (post ++ more) ?_
    rw [← hmore, hops]
    simp

include hs hw hk in
theorem Started.rowCmds (hpre : pre <+: traces.titan) :
    (pre.flatMap (opCmds fanout)).filter (fun c => c.key = key) =
      (publishedUnder key pre).map (rowCmd config.titanHop1TtlSecs) := by
  rw [← calls_flatten]
  exact ops_rowCmds hk hw fun op hop => hs.filesRow op (hpre.subset hop)

include h hs hw hk in
/-- The commands executed on the key of a row are the first of those that publish
under it. -/
theorem row_history : ∃ rows, rows <+: publishedUnder key traces.titan ∧
    (trace.own .titan).filter (fun c => c.key = key) =
      rows.map (rowCmd config.titanHop1TtlSecs) := by
  have hstart := (own_started h .titan).filter fun c => c.key = key
  rw [titan_commands, hs.rowCmds hw hk (List.prefix_refl _)] at hstart
  obtain ⟨rows, hrows, heq⟩ := List.prefix_map_iff.mp hstart
  exact ⟨rows, hrows, heq⟩

include h hk in
/-- What is read is the last row stored, while its time to live runs. -/
theorem row_read {rows : List (String × TitanHop1Row)} {last : String × TitanHop1Row}
    (hrows : (trace.own .titan).filter (fun c => c.key = key) =
      (rows ++ [last]).map (rowCmd config.titanHop1TtlSecs))
    (hlast : last.1 = key) :
    ∃ t, lastCmd key trace.cmds = some (t, rowCmd config.titanHop1TtlSecs last) ∧
      ∀ (redis : TimedRedis TitanDocument) (bootAt now : Nat)
          (value : KeyValue.Value (Document TitanDocument)),
        readAt now (laterRedis fanout bootAt trace redis) key = some value ↔
          value = .doc (.row (.hop1Row last.2)) ∧
            now ≤ t + max config.titanHop1TtlSecs.toNat 1 * ticksPerSecond := by
  have howner : MuxKeys.owner key = some .titan := if_pos (.inl hk)
  have hcmds := keyCmds_own h howner
  have hl := lastCmd_snd key trace.cmds
  rw [hcmds, hrows, List.map_append, List.map_singleton, List.getLast?_concat,
    Option.map_eq_some_iff] at hl
  obtain ⟨⟨t, c⟩, hl, rfl⟩ := hl
  refine ⟨t, hl, fun redis bootAt now value => ?_⟩
  have hleased : ∀ e ∈ bootCmds fanout bootAt ++ trace.cmds, e.2.key = key →
      (∃ v ttl, e.2 = .setEx key v ttl) ∨ e.2 = .del key := by
    intro e he hkey
    rcases List.mem_append.mp he with he | he
    · exact absurd hkey (lastCmd_eq_none.mp (boot_frame fanout hk bootAt) e he)
    · have hmem : e.2 ∈ (rows ++ [last]).map (rowCmd config.titanHop1TtlSecs) := by
        rw [← hrows, ← hcmds]
        exact List.mem_filter.mpr ⟨List.mem_map_of_mem he, by simpa using hkey⟩
      obtain ⟨entry, -, heq⟩ := List.mem_map.mp hmem
      rw [← heq] at hkey ⊢
      obtain rfl : entry.1 = key := hkey
      exact .inl ⟨_, _, rfl⟩
  obtain rfl := hlast
  exact readAt_lease hleased (by rw [lastCmd_append, hl, Option.some_or]; rfl) redis now value

end

theorem publishedUnder_start {key : String} {ops more : List (TitanOp TitanDocument)}
    (h : ops <+: more) : publishedUnder key ops <+: publishedUnder key more :=
  (h.filterMap TitanOp.row?).filter _

/-- **The board and then a row.** Under every schedule of the tasks, once started,
while every command succeeds: who reads a board document of this process, and at that
moment or later the key of the row behind one of its pins, reads that row or a later
one of the key, and while the row's time to live runs does read one. A pin without a
row is empty. -/
theorem board_then_row (platform : Platform) (config : Config) (hd : config.dryRun = false)
    (hu : config.redisUrl.isSome) (binds : Bool) (traces : TaskTraces TitanDocument)
    (hs : Started platform config (.connect config true) binds traces)
    (before after rest : TimedTrace TitanDocument)
    (h : Interleaves (traces.commands (.connect config true))
      ((before ++ after) ++ rest : TimedTrace TitanDocument).schedule)
    (hsorted : ((before ++ after : TimedTrace TitanDocument).map Prod.fst).Pairwise (· ≤ ·))
    (redis : TimedRedis TitanDocument) (bootAt seenAt now : Nat) (doc : TitanSizeBoardDoc)
    (hboard : readAt seenAt (laterRedis (.connect config true) bootAt before redis)
      MuxKeys.titanSizeBoard = some (.doc (.row (.sizeBoard doc)))) :
    let later := laterRedis (.connect config true) bootAt
      (before ++ after : TimedTrace TitanDocument) redis
    ∀ pin ∈ doc.pins, (∃ unsubscribed, pin = emptyPin pin.sizeLamports unsubscribed) ∨
      ∃ (row : TitanHop1Row) (i stored : Nat), pin = (pinOf row).aged doc.updatedMs ∧
        (publishedUnder (hop1KeyOf row) traces.titan)[i]? = some (hop1KeyOf row, row) ∧
        (stored, .titan, rowCmd config.titanHop1TtlSecs (hop1KeyOf row, row)) ∈ before ∧
        (∀ value, readAt now later (hop1KeyOf row) = some value → ∃ j, i ≤ j ∧ ∃ newer,
          (publishedUnder (hop1KeyOf row) traces.titan)[j]? = some (hop1KeyOf row, newer) ∧
            value = .doc (.row (.hop1Row newer))) ∧
        (now ≤ stored + max config.titanHop1TtlSecs.toNat 1 * ticksPerSecond →
          (readAt now later (hop1KeyOf row)).isSome) := by
  intro later pin hpin
  let trace : TimedTrace TitanDocument := before ++ after
  have hw : (RedisFanout.connect config true).writes = true := by
    refine RedisFanout.writes_of hd ?_
    simp [RedisFanout.connect, hd, hu]
  have hbefore : Interleaves (traces.commands (.connect config true))
      (before ++ (after ++ rest) : TimedTrace TitanDocument).schedule := by
    rwa [← List.append_assoc]
  obtain ⟨pre, post, hops, hexecuted⟩ := board_read hw hbefore hboard
  refine (hs.doc_backed hops pin hpin).imp_right ?_
  rintro ⟨row, hrow, rfl⟩
  have hk : MuxKeys.hop1Prefix <+: (hop1KeyOf row).toList := MuxKeys.hop1RowKey_startsWith ..
  have hpre : pre <+: traces.titan := ⟨_, hops.symm⟩
  have hmem : (hop1KeyOf row, row) ∈ publishedUnder (hop1KeyOf row) pre :=
    List.mem_filter.mpr ⟨hrow, by simp⟩
  obtain ⟨i, hi⟩ := List.getElem?_of_mem hmem
  -- The commands of the operations before the document, and so the row, are executed.
  have hpreCmds := hs.rowCmds hw hk hpre
  obtain ⟨stored, hstored⟩ : ∃ stored,
      (stored, .titan, rowCmd config.titanHop1TtlSecs (hop1KeyOf row, row)) ∈ before := by
    refine TimedTrace.mem_own (hexecuted.subset ?_)
    have hfiltered := List.mem_map_of_mem (f := rowCmd config.titanHop1TtlSecs) hmem
    rw [← hpreCmds] at hfiltered
    exact (List.mem_filter.mp hfiltered).1
  obtain ⟨rows, hrows, hhistory⟩ := row_history h hs hw hk
  have hlen : i < rows.length := by
    have hstart : pre.flatMap (opCmds (.connect config true)) <+: trace.own .titan :=
      hexecuted.trans ⟨_, (TimedTrace.own_append ..).symm⟩
    have hle := (hstart.filter fun c => c.key = hop1KeyOf row).length_le
    rw [hpreCmds, hhistory, List.length_map, List.length_map] at hle
    exact (List.getElem?_eq_some_iff.mp hi).1.trans_le hle
  have hne : rows ≠ [] := List.ne_nil_of_length_pos (Nat.zero_lt_of_lt hlen)
  obtain ⟨rows, last, rfl⟩ := (List.eq_nil_or_concat' rows).resolve_left hne
  rw [List.length_append, List.length_singleton] at hlen
  have hlatest : (publishedUnder (hop1KeyOf row) traces.titan)[rows.length]? = some last :=
    getElem?_of_start hrows List.getElem?_concat_length
  have hlast : last.1 = hop1KeyOf row := by
    simpa using (List.mem_filter.mp (List.mem_of_getElem? hlatest)).2
  obtain ⟨t, hl, hread⟩ := row_read h hk hhistory hlast
  refine ⟨row, i, stored, rfl, getElem?_of_start (publishedUnder_start hpre) hi, hstored, ?_, ?_⟩
  · intro value hvalue
    obtain ⟨rfl, -⟩ := (hread redis bootAt now value).mp hvalue
    refine ⟨rows.length, Nat.le_of_lt_succ hlen, last.2, ?_, rfl⟩
    rw [hlatest, ← hlast]
  · intro hnow
    have hstoredCmd : (stored, rowCmd config.titanHop1TtlSecs (hop1KeyOf row, row)) ∈
        trace.cmds := List.mem_map.mpr ⟨_, List.mem_append_left _ hstored, rfl⟩
    have htimes : (trace.cmds.map Prod.fst).Pairwise (· ≤ ·) := by
      rw [TimedTrace.cmds, List.map_map]
      exact hsorted
    have hlater : stored ≤ t := lastCmd_latest htimes hl hstoredCmd rfl
    rw [(hread redis bootAt now _).mpr ⟨rfl, by omega⟩]
    rfl

/-! The board after the quote of a session, and the row behind its pin. -/

def shownDoc : KeyValue.Value (Document TitanDocument) → Option TitanSizeBoardDoc
  | .doc (.row (.sizeBoard doc)) => some doc
  | _ => none

def quotedPin (doc : TitanSizeBoardDoc) : Option SizeBoardPin :=
  doc.pins.find? fun pin => pin.provider = "provider"

/-- The row can be read for two seconds. -/
theorem board_then_row_sample :
    ∃ row, (readAt 3000 (laterRedis (.connect rowConfig true) 0 rowTrace (fun _ => none))
      (hop1KeyOf row)).isSome := by
  let later := laterRedis (.connect rowConfig true) 0 rowTrace (fun _ => none)
  have hone : Interleaves (rowTraces.commands (.connect rowConfig true))
      ((rowTrace ++ []) ++ [] : TimedTrace TitanDocument).schedule := by
    rw [List.append_nil, List.append_nil]
    exact interleaves_at _ 1000
  have htimes : ∀ e ∈ rowTrace, e.1 = 1000 := by
    intro e he
    obtain ⟨_, -, rfl⟩ := List.mem_map.mp he
    rfl
  have hsorted : ((rowTrace ++ [] : TimedTrace TitanDocument).map Prod.fst).Pairwise (· ≤ ·) := by
    rw [List.append_nil, rowTrace, List.map_map]
    exact List.pairwise_map.mpr (List.pairwise_of_forall fun _ _ => le_refl _)
  have hshown : (((readAt 1000 later MuxKeys.titanSizeBoard).bind shownDoc).bind
      quotedPin).isSome := by decide +kernel
  obtain ⟨pin, hpin⟩ := Option.isSome_iff_exists.mp hshown
  obtain ⟨doc, hdoc, hquoted⟩ := Option.bind_eq_some_iff.mp hpin
  obtain ⟨value, hvalue, hvalueDoc⟩ := Option.bind_eq_some_iff.mp hdoc
  have hread : readAt 1000 later MuxKeys.titanSizeBoard =
      some (.doc (.row (.sizeBoard doc))) := by
    rw [hvalue]
    unfold shownDoc at hvalueDoc
    split at hvalueDoc
    · rw [Option.some.inj hvalueDoc]
    · cases hvalueDoc
  rcases board_then_row rowPlatform rowConfig rfl rfl false rowTraces rowTraces_started
    rowTrace [] [] hone hsorted (fun _ => none) 0 1000 3000 doc hread pin
    (List.mem_of_find?_eq_some hquoted) with
    ⟨unsubscribed, hempty⟩ | ⟨row, i, stored, -, -, hstored, -, hlives⟩
  · have hprovider := List.find?_some hquoted
    rw [hempty] at hprovider
    simp [emptyPin] at hprovider
  · refine ⟨row, ?_⟩
    rw [List.append_nil] at hlives
    obtain rfl : stored = 1000 := htimes _ hstored
    exact hlives (by decide)

end FeedMux

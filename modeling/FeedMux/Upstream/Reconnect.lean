import FeedMux.Upstream.Triton

/-!
# Delays after healthy sessions

A healthy session is one that received data, or for Titan stayed connected for
at least the threshold. In both live loops the delay after it is the initial
one exactly when the session left through `Ok`, or nothing came before it. A
transport error, a stream error or a failed send keeps the grown delay.
-/

namespace FeedMux.Upstream
open FeedMux.Library FeedMux.Titan

/-- A session in a run of one of the two loops. -/
inductive LiveRun where
  | titan (cfg : TitanLive.LoopConfig) (pre : List TitanLive.Session) (s : TitanLive.Session)
      (post : List TitanLive.Session)
  | triton (cfg : TritonLive.LoopConfig) (pre : List TritonLive.Session) (s : TritonLive.Session)
      (post : List TritonLive.Session)

namespace LiveRun

/-- It received data, or for Titan stayed connected for the threshold. -/
def Healthy : LiveRun → Prop
  | .titan cfg _ s _ => TitanLive.Healthy cfg s
  | .triton cfg _ s _ => TritonLive.Healthy cfg s

/-- The delay waited after the session, if the loop reconnects. -/
def delayAfter : LiveRun → Option Duration
  | .titan cfg pre s post =>
    let rounds := (runs (TitanLive.runLiveRound cfg) .start (pre ++ s :: post)).2
    rounds[pre.length]?.map TitanLive.Round.delay
  | .triton cfg pre s post =>
    let rounds := (runs (TritonLive.runLiveRound cfg) (some liveBackoff) (pre ++ s :: post)).2
    rounds[pre.length]?.join.bind TritonLive.Round.delay

/-- No send fails, and reading ends without a transport or stream error. -/
def EndsWell : LiveRun → Prop
  | .titan cfg _ s _ => TitanLive.SendsSucceed cfg s ∧ TitanLive.EndsGently s.reads
  | .triton _ _ s _ => TritonLive.StreamEnds s.reads

def IsFirst : LiveRun → Prop
  | .titan _ pre _ _ => pre = []
  | .triton _ pre _ _ => pre = []

end LiveRun

/-- **Delays after healthy sessions**, at every place of every run of either loop. -/
theorem healthy_delay_iff (run : LiveRun) (delay : Duration) (h : run.Healthy)
    (hdelay : run.delayAfter = some delay) :
    delay = .fromSecs 5 ↔ run.EndsWell ∨ run.IsFirst := by
  cases run with
  | titan cfg pre s post =>
    obtain ⟨round, hround, hiff⟩ := TitanLive.delay_after_healthy cfg pre post h
    obtain ⟨round', hround', rfl⟩ := Option.map_eq_some_iff.mp hdelay
    obtain rfl := Option.some.inj (hround.symm.trans hround')
    exact hiff
  | triton cfg pre s post =>
    obtain ⟨round, hround, hd⟩ := Option.bind_eq_some_iff.mp hdelay
    exact TritonLive.delay_after_healthy cfg pre post h (Option.join_eq_some_iff.mp hround) hd

/-! Two sessions each: one that cannot connect, and one that receives data. -/

def titanSample : TitanLive.LoopConfig := ⟨sampleEnv, sampleWallet, [5, 7], true⟩

def titanRefused : TitanLive.Session where
  request := none
  connect := some (.io .other)
  getInfoGranted := true
  getInfoSend := none
  rungs := sampleScript
  snapshotMs := 1
  order := sampleClock.order
  reads := []
  connectedFor := .fromSecs 0
  elapsed := .fromSecs 0
  connectedFor_le := le_refl _

def titanSession (last : TitanLive.Read) : TitanLive.Session :=
  { titanRefused with connect := none, reads := [.binary ⟨[], sampleClock⟩, last] }

def tritonRefused : TritonLive.Session :=
  { TritonLive.sampleSession [] with connect := some "refused" }

def slotUpdate : TritonLive.Read :=
  .update ⟨some .slot, []⟩ 1 "2025-01-01T00:00:00+00:00" true none

def tritonSession (reads : List TritonLive.Read) : TritonLive.Session :=
  TritonLive.sampleSession (slotUpdate :: reads)

theorem titanSession_healthy (last : TitanLive.Read) :
    TitanLive.Healthy titanSample (titanSession last) :=
  ⟨⟨rfl, rfl⟩, .inl ⟨⟨fun _ => rfl, fun _ _ _ => rfl⟩,
    by simp [titanSession, TitanLive.framesRead]⟩⟩

theorem tritonSession_healthy (reads : List TritonLive.Read) :
    TritonLive.Healthy TritonLive.sampleConfig (tritonSession reads) :=
  ⟨rfl, _, _, _, _, _, _, rfl⟩

/-- The session after one that could not connect. -/
def titanRun (last : TitanLive.Read) : LiveRun :=
  .titan titanSample [titanRefused] (titanSession last) []

def tritonRun (reads : List TritonLive.Read) : LiveRun :=
  .triton TritonLive.sampleConfig [tritonRefused] (tritonSession reads) []

theorem closed_session_waits_initial : (titanRun .close).delayAfter = some (.fromSecs 5) := by
  obtain ⟨delay, hdelay⟩ : ∃ delay, (titanRun .close).delayAfter = some delay := ⟨_, rfl⟩
  have hends : (titanRun .close).EndsWell := ⟨⟨fun _ => rfl, fun _ _ _ => rfl⟩, trivial⟩
  rw [hdelay, (healthy_delay_iff (titanRun .close) delay (titanSession_healthy _) hdelay).mpr
    (.inl hends)]

/-- A transport error or a stream error after data keeps the doubled delay. -/
theorem broken_sessions_wait_longer :
    ((titanRun (.failure (.io .other))).Healthy ∧
      (titanRun (.failure (.io .other))).delayAfter = some (.fromSecs 10)) ∧
      (tritonRun [.failure "reset"]).Healthy ∧
      (tritonRun [.failure "reset"]).delayAfter = some (.fromSecs 10) :=
  ⟨⟨titanSession_healthy _, by decide⟩, tritonSession_healthy _, by decide⟩

end FeedMux.Upstream

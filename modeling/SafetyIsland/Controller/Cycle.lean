import SafetyIsland.Controller.Ingress

namespace SafetyIsland

open Ieee Supervision

-- A source that has been seen and is no older than its timeout.
structure Fresh (watch : SourceWatch) (timeout : Float) (now : WallTime) : Prop where
  seen  : watch.ever = true
  young : ¬watch.ageSec now.seconds > timeout

theorem Fresh.of_not_stale {watch : SourceWatch} {timeout : Float} {now : WallTime}
    (he : watch.ever = true) (hs : watch.stale now.seconds timeout = false) :
    Fresh watch timeout now :=
  ⟨he, (SourceWatch.not_stale_iff he).mp hs⟩

-- The vehicle feedback and the selected source.
structure Inputs.AllFresh (cfg : Config) (now : WallTime) (i : Inputs) : Prop where
  odometry      : Fresh i.watchOdom cfg.params.sourceTimeoutEgo now
  acceleration  : Fresh i.watchAccel cfg.params.sourceTimeoutEgo now
  steering      : Fresh i.watchSteering cfg.params.sourceTimeoutSteering now
  operationMode : Fresh i.watchOpmode cfg.params.sourceTimeoutOpmode now
  selected      : Fresh (i.selected cfg).watch (i.selected cfg).timeout now
  heartbeat     : i.watchHeartbeat.ever = true →
    Fresh i.watchHeartbeat cfg.params.sourceTimeoutHeartbeat now

namespace Controller

variable {cfg : Config} {c c' : Controller} {channel : SiChannel} {clock : TickClock}
variable {follower : FollowerResult}

section

variable (cfg c) (decision : Decision) (source : SelectedSource) (control : ControlMsg)
variable (now : WallTime)

@[simp]
theorem publishApprovedRequest_toInputs :
    (c.publishApprovedRequest cfg decision source control now).toInputs = c.toInputs := by
  unfold publishApprovedRequest
  split_ifs <;> rfl

@[simp]
theorem publishApprovedRequest_supervision :
    (c.publishApprovedRequest cfg decision source control now).supervision = c.supervision := by
  unfold publishApprovedRequest
  split_ifs <;> rfl

@[simp]
theorem publishApprovedRequest_reenable :
    (c.publishApprovedRequest cfg decision source control now).reenable = c.reenable := by
  unfold publishApprovedRequest
  split_ifs <;> rfl

@[simp]
theorem publishApprovedRequest_siFaultEventsSeen :
    (c.publishApprovedRequest cfg decision source control now).siFaultEventsSeen =
      c.siFaultEventsSeen := by
  unfold publishApprovedRequest
  split_ifs <;> rfl

@[simp]
theorem publishApprovedRequest_outSeq :
    (c.publishApprovedRequest cfg decision source control now).outSeq = c.outSeq + 1 := by
  unfold publishApprovedRequest
  split_ifs <;> rfl

@[simp]
theorem publishApprovedRequest_published :
    (c.publishApprovedRequest cfg decision source control now).published =
      c.published ++ [c.publication cfg decision source control now] := by
  unfold publishApprovedRequest
  split_ifs <;> rfl

end

-- The state after the supervision of the sources and of the fault input.
def checked (cfg : Config) (channel : SiChannel) (clock : TickClock) (c : Controller) :
    Controller :=
  (c.superviseSources cfg clock).superviseFaultInput cfg channel clock

@[simp]
theorem superviseSources_toInputs : (c.superviseSources cfg clock).toInputs = c.toInputs := by
  unfold superviseSources
  split <;> simp

@[simp]
theorem superviseSources_toOutputs : (c.superviseSources cfg clock).toOutputs = c.toOutputs := by
  unfold superviseSources
  split <;> simp

@[simp]
theorem checked_toInputs : (c.checked cfg channel clock).toInputs = c.toInputs := by
  unfold checked superviseFaultInput
  split <;> simp

@[simp]
theorem checked_toOutputs : (c.checked cfg channel clock).toOutputs = c.toOutputs := by
  unfold checked superviseFaultInput
  split <;> simp

-- A pending press that is not too old, with every checked source fresh, clears the latch.
structure Clears (cfg : Config) (channel : SiChannel) (now : WallTime) (c : Controller) : Prop where
  latched : c.supervision.latched = true
  pending : c.reenable.pending = true
  young   : ¬now.seconds - c.reenable.requestedAt > cfg.params.reenableWindowS
  fresh   : c.allSourcesFresh cfg channel now.seconds = true

def expired (cfg : Config) (now : WallTime) (c : Controller) : Controller :=
  { c with reenable := c.reenable.expireIfOld now.seconds cfg.params.reenableWindowS }

def cleared (c : Controller) : Controller :=
  { c with
    supervision := { c.supervision with latched := false, reason := "" }
    reenable    := { c.reenable with pending := false } }

theorem clears_iff_expired (hl : c.supervision.latched = true) :
    Clears cfg channel clock.now c ↔
      (c.expired cfg clock.now).reenable.pending = true ∧
      c.allSourcesFresh cfg channel clock.now.seconds = true := by
  rw [expired, ReenableRequest.expireIfOld_pending]
  exact ⟨fun h => ⟨⟨h.pending, h.young⟩, h.fresh⟩, fun ⟨⟨hp, hy⟩, hf⟩ => ⟨hl, hp, hy, hf⟩⟩

theorem reenableStep_of_clears (h : Clears cfg channel clock.now c) :
    c.reenableStep cfg channel clock = (c.cleared, false) := by
  have ⟨hp, hf⟩ := (clears_iff_expired h.latched).mp h
  rw [expired] at hp
  have he := ReenableRequest.expireIfOld_of_pending hp
  simp [reenableStep, SupervisionState.stopThisTick, cleared, h.latched, h.pending, hf, he]

theorem reenableStep_of_not_clears (hl : c.supervision.latched = true)
    (h : ¬Clears cfg channel clock.now c) :
    c.reenableStep cfg channel clock = (c.expired cfg clock.now, true) := by
  have hs : ((c.expired cfg clock.now).reenable.pending &&
      c.allSourcesFresh cfg channel clock.now.seconds) = false := by
    rwa [clears_iff_expired hl, ← Bool.and_eq_true, Bool.not_eq_true] at h
  simp only [expired] at hs
  simp only [reenableStep, hl, if_true, SupervisionState.stopThisTick_of_latched, hs,
    Bool.and_false, Bool.false_eq_true, if_false]
  rfl

theorem reenableStep_of_not_latched (h : c.supervision.latched = false) :
    c.reenableStep cfg channel clock = (c, false) := by
  simp [reenableStep, h]

-- The ways into the decision of a tick: the latch is open, or this tick opens it.
inductive Resumes (cfg : Config) (channel : SiChannel) (now : WallTime) (c : Controller) :
    Controller → Prop
  | unlatched : c.supervision.latched = false → Resumes cfg channel now c c
  | clears    : Clears cfg channel now c → Resumes cfg channel now c c.cleared

-- What the decision of a tick can do.
inductive Decides (cfg : Config) (clock : TickClock) (c : Controller) : Controller → Prop
  | hold : Decides cfg clock c (c.publishHold cfg clock)
  | command (hm : cfg.supervisionMode = .vpControl) (hc : c.hasVpCmd = true)
    (hs : c.feedbackSeen = true) :
    Decides cfg clock c
      ({ c with
        acceptedSourceSession := c.currentVpCmd.session
        acceptedSourceCycle   := c.currentVpCmd.cycle }.publishApprovedRequest cfg .normal
          .vpCommand (vpToControl c.currentVpCmd clock.command) clock.publish)
  | follow (lat : LateralMsg) (lon : LongitudinalMsg) (hm : cfg.supervisionMode = .siControl)
    (hd : c.processData = true)
    (hv : followerViolation cfg (candidate lat lon clock.command) = none) :
    Decides cfg clock c
      (c.publishApprovedRequest cfg .normal .follower (candidate lat lon clock.command)
        clock.publish)
  | violation (lat : LateralMsg) (lon : LongitudinalMsg) (why : String)
    (hm : cfg.supervisionMode = .siControl) (hd : c.processData = true)
    (hv : followerViolation cfg (candidate lat lon clock.command) = some why) :
    Decides cfg clock c
      ((c.latchFault cfg ("follower " ++ why) clock.follower).publishSiStop cfg clock.stop.wall
        clock)

theorem decideCycle_decides (h : c.decideCycle cfg clock follower = some c') :
    Decides cfg clock c c' := by
  unfold decideCycle at h
  split at h
  case isTrue hm =>
    split at h
    case isTrue => cases h; exact .hold
    case isFalse hc =>
      split at h
      case isTrue => cases h; exact .hold
      case isFalse hs =>
        cases h
        exact .command hm (by simpa using hc) (by simpa using hs)
  case isFalse hm =>
    have hm : cfg.supervisionMode = .siControl := by
      cases hc : cfg.supervisionMode <;> simp_all
    split at h
    case h_1 => cases h; exact .hold
    case h_2 hd =>
      have hd : c.processData = true := by
        simp only [Inputs.createInputData] at hd
        split_ifs at hd with hp
        simpa using hp
      split at h
      case h_1 => cases h; exact .hold
      case h_2 => cases h
      case h_3 lat lon =>
        cases h
        simp only [publishControlCommand]
        split
        case h_1 why hv => exact .violation lat lon why hm hd hv
        case h_2 hv => exact .follow lat lon hm hd hv

-- What a control tick can do.
inductive Ticks (cfg : Config) (channel : SiChannel) (clock : TickClock) (c : Controller) :
    Controller → Prop
  | stops (hl : (c.checked cfg channel clock).supervision.latched = true)
    (hn : ¬Clears cfg channel clock.now (c.checked cfg channel clock)) :
    Ticks cfg channel clock c
      (((c.checked cfg channel clock).expired cfg clock.now).publishSiStop cfg clock.now clock)
  | decides {c₂ c' : Controller}
    (hr : Resumes cfg channel clock.now (c.checked cfg channel clock) c₂)
    (hd : Decides cfg clock c₂ c') : Ticks cfg channel clock c c'

theorem callbackTimerControl_eq :
    c.callbackTimerControl cfg channel clock follower =
      let (c₂, stop) := (c.checked cfg channel clock).reenableStep cfg channel clock
      if stop then some (c₂.publishSiStop cfg clock.now clock)
      else c₂.decideCycle cfg clock follower :=
  rfl

theorem callbackTimerControl_of_stops
    (hl : (c.checked cfg channel clock).supervision.latched = true)
    (hn : ¬Clears cfg channel clock.now (c.checked cfg channel clock)) :
    c.callbackTimerControl cfg channel clock follower =
      some (((c.checked cfg channel clock).expired cfg clock.now).publishSiStop cfg clock.now
        clock) := by
  rw [callbackTimerControl_eq, reenableStep_of_not_clears hl hn]
  rfl

theorem callbackTimerControl_of_clears
    (hc : Clears cfg channel clock.now (c.checked cfg channel clock)) :
    c.callbackTimerControl cfg channel clock follower =
      (c.checked cfg channel clock).cleared.decideCycle cfg clock follower := by
  rw [callbackTimerControl_eq, reenableStep_of_clears hc]
  rfl

theorem callbackTimerControl_of_not_latched
    (hl : (c.checked cfg channel clock).supervision.latched = false) :
    c.callbackTimerControl cfg channel clock follower =
      (c.checked cfg channel clock).decideCycle cfg clock follower := by
  rw [callbackTimerControl_eq, reenableStep_of_not_latched hl]
  rfl

theorem callbackTimerControl_ticks
    (h : c.callbackTimerControl cfg channel clock follower = some c') :
    Ticks cfg channel clock c c' := by
  by_cases hl : (c.checked cfg channel clock).supervision.latched = true
  case neg =>
    rw [Bool.not_eq_true] at hl
    rw [callbackTimerControl_of_not_latched hl] at h
    exact .decides (.unlatched hl) (decideCycle_decides h)
  case pos =>
    by_cases hc : Clears cfg channel clock.now (c.checked cfg channel clock)
    case pos =>
      rw [callbackTimerControl_of_clears hc] at h
      exact .decides (.clears hc) (decideCycle_decides h)
    case neg =>
      rw [callbackTimerControl_of_stops hl hc] at h
      cases h
      exact .stops hl hc

theorem Resumes.not_latched {now : WallTime} (h : Resumes cfg channel now c c') :
    c'.supervision.latched = false := by
  cases h
  case unlatched h => exact h
  case clears => rfl

theorem Resumes.toInputs_eq {now : WallTime} (h : Resumes cfg channel now c c') :
    c'.toInputs = c.toInputs := by
  cases h <;> rfl

theorem Resumes.toOutputs_eq {now : WallTime} (h : Resumes cfg channel now c c') :
    c'.toOutputs = c.toOutputs := by
  cases h <;> rfl

theorem Decides.toInputs_eq (h : Decides cfg clock c c') : c'.toInputs = c.toInputs := by
  cases h <;> simp [publishHold, publishSiStop]

theorem Ticks.toInputs_eq (h : Ticks cfg channel clock c c') : c'.toInputs = c.toInputs := by
  cases h
  case stops => simp [publishSiStop, expired]
  case decides hr hd => rw [hd.toInputs_eq, hr.toInputs_eq, checked_toInputs]

theorem eq_publication {c₂ : Controller} {d : Decision} {s : SelectedSource} {m : ControlMsg}
    {now : WallTime} {l : List Published} {p : Published}
    (h : (c₂.publishApprovedRequest cfg d s m now).published = c.published ++ l)
    (ho : c₂.published = c.published) (hm : p ∈ l) : p = c₂.publication cfg d s m now := by
  rw [publishApprovedRequest_published, ho, List.append_cancel_left_eq] at h
  rw [← h] at hm
  exact List.mem_singleton.mp hm

theorem allSourcesFresh_iff {i : Inputs} {now : Float} :
    i.allSourcesFresh cfg channel now = true ↔
      (i.feedbackSeen = true ∧ (i.selected cfg).watch.ever = true) ∧
      (∀ check ∈ i.feedback cfg ++ [i.selected cfg],
        check.watch.stale now check.timeout = false) ∧
      (cfg.x5h && channel.fault) = false := by
  have ht : (i.selected cfg).timeout = cfg.params.sourceTimeoutCandidate := by
    unfold Inputs.selected
    split <;> rfl
  simp only [Inputs.allSourcesFresh, Inputs.feedbackSeen, Inputs.feedback, List.any_cons,
    List.any_nil, List.cons_append, List.nil_append, List.forall_mem_cons, List.not_mem_nil, ht]
  grind

theorem supervisorStaleReason_isSome {i : Inputs} {now : Float} {check : SourceCheck}
    (hm : check ∈ i.feedback cfg ++ [i.selected cfg])
    (hs : check.watch.stale now check.timeout = true) :
    (i.supervisorStaleReason cfg now).isSome = true := by
  rw [Inputs.supervisorStaleReason, List.findSome?_isSome_iff]
  exact ⟨check, hm, by simp [hs]⟩

theorem not_stale_of_supervisorStaleReason {i : Inputs} {now : Float} {check : SourceCheck}
    (hm : check ∈ i.feedback cfg ++ [i.selected cfg])
    (h : i.supervisorStaleReason cfg now = none) :
    check.watch.stale now check.timeout = false := by
  by_contra hs
  have := supervisorStaleReason_isSome hm (by simpa using hs)
  simp [h] at this

theorem checked_latched_of_stale {r : String × Float}
    (h : c.supervisorStaleReason cfg clock.now.seconds = some r) :
    (c.checked cfg channel clock).supervision.latched = true := by
  have hl : (c.superviseSources cfg clock).supervision.latched = true := by
    simp [superviseSources, h]
  unfold checked superviseFaultInput
  split
  case isTrue => simp
  case isFalse => exact hl

theorem fresh_of_not_latched
    (h : (c.checked cfg channel clock).supervision.latched = false) :
    c.supervisorStaleReason cfg clock.now.seconds = none := by
  by_contra hn
  have ⟨r, hr⟩ := Option.ne_none_iff_exists'.mp hn
  have : (c.checked cfg channel clock).supervision.latched = true := checked_latched_of_stale hr
  simp [h] at this

theorem allFresh_of_not_stale {i : Inputs} {now : WallTime}
    (hs : ∀ check ∈ i.feedback cfg ++ [i.selected cfg],
      check.watch.stale now.seconds check.timeout = false)
    (hf : i.feedbackSeen = true) (he : (i.selected cfg).watch.ever = true) :
    i.AllFresh cfg now := by
  simp only [Inputs.feedbackSeen, Bool.and_eq_true] at hf
  simp only [Inputs.feedback, List.cons_append, List.nil_append, List.forall_mem_cons] at hs
  have ⟨ho, ha, hst, hop, hh, hsel, _⟩ := hs
  exact {
    odometry      := .of_not_stale hf.1.1.1 ho
    acceleration  := .of_not_stale hf.1.1.2 ha
    steering      := .of_not_stale hf.1.2 hst
    operationMode := .of_not_stale hf.2 hop
    selected      := .of_not_stale he hsel
    heartbeat     := fun he => .of_not_stale he hh
  }

theorem Resumes.not_stale
    {c₂ : Controller} (h : Resumes cfg channel clock.now (c.checked cfg channel clock) c₂)
    {check : SourceCheck}
    (hm : check ∈ c.feedback cfg ++ [c.selected cfg]) :
    check.watch.stale clock.now.seconds check.timeout = false := by
  cases h
  case unlatched hl => exact not_stale_of_supervisorStaleReason hm (fresh_of_not_latched hl)
  case clears hc =>
    have hf := hc.fresh
    rw [checked_toInputs, allSourcesFresh_iff] at hf
    exact hf.2.1 check hm

theorem Clears.allFresh {now : WallTime} (h : Clears cfg channel now c) :
    c.AllFresh cfg now := by
  have hf := h.fresh
  rw [allSourcesFresh_iff] at hf
  exact allFresh_of_not_stale hf.2.1 hf.1.1 hf.1.2

theorem Clears.level {now : WallTime} (h : Clears cfg channel now c) :
    (cfg.x5h && channel.fault) = false :=
  (allSourcesFresh_iff.mp h.fresh).2.2

theorem not_stale_of_allFresh {i : Inputs} {now : WallTime} (h : i.AllFresh cfg now)
    {check : SourceCheck} (hm : check ∈ i.feedback cfg ++ [i.selected cfg]) :
    check.watch.stale now.seconds check.timeout = false := by
  have fresh {watch : SourceWatch} {timeout : Float} (h : Fresh watch timeout now) :
      watch.stale now.seconds timeout = false :=
    (SourceWatch.not_stale_iff h.seen).mpr h.young
  simp only [Inputs.feedback, List.cons_append, List.nil_append, List.mem_cons, List.not_mem_nil,
    or_false] at hm
  rcases hm with rfl | rfl | rfl | rfl | rfl | rfl
  case inl                     => exact fresh h.odometry
  case inr.inl                 => exact fresh h.acceleration
  case inr.inr.inl             => exact fresh h.steering
  case inr.inr.inr.inl         => exact fresh h.operationMode
  case inr.inr.inr.inr.inr     => exact fresh h.selected
  case inr.inr.inr.inr.inl =>
    cases he : i.watchHeartbeat.ever
    case true => exact fresh (h.heartbeat he)
    case false =>
      have hn : ¬0 ≤ i.watchHeartbeat.lastArrival := by simpa [SourceWatch.ever] using he
      simp [SourceWatch.stale, hn]

-- A latched state whose next tick has a press to answer and finds every checked source fresh, with
-- every edge of the fault input counted.
structure Answered (cfg : Config) (channel : SiChannel) (now : WallTime) (c : Controller) :
    Prop where
  latched : c.supervision.latched = true
  pending : c.reenable.pending = true
  young   : ¬now.seconds - c.reenable.requestedAt > cfg.params.reenableWindowS
  fresh   : c.AllFresh cfg now
  level   : (cfg.x5h && channel.fault) = false
  counted : cfg.x5h = true → channel.faultEvents = c.siFaultEventsSeen

theorem Answered.checked (h : Answered cfg channel clock.now c) :
    c.checked cfg channel clock = c := by
  have hs : c.supervisorStaleReason cfg clock.now.seconds = none := by
    rw [Inputs.supervisorStaleReason, List.findSome?_eq_none_iff]
    intro check hm
    simp [not_stale_of_allFresh h.fresh hm]
  have hc : c.superviseSources cfg clock = c := by simp [superviseSources, hs]
  rw [Controller.checked, hc, superviseFaultInput, if_neg fun hn => hn.2 (h.counted hn.1)]

theorem Answered.clears (h : Answered cfg channel clock.now c) :
    Clears cfg channel clock.now (c.checked cfg channel clock) := by
  rw [h.checked]
  refine ⟨h.latched, h.pending, h.young, allSourcesFresh_iff.mpr ⟨⟨?seen, h.fresh.selected.seen⟩,
    fun _ hm => not_stale_of_allFresh h.fresh hm, h.level⟩⟩
  simp [Inputs.feedbackSeen, h.fresh.odometry.seen, h.fresh.acceleration.seen,
    h.fresh.steering.seen, h.fresh.operationMode.seen]

end Controller
end SafetyIsland

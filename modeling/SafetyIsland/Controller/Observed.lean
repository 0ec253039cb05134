import SafetyIsland.Controller.Latching

namespace SafetyIsland

open Ieee Supervision Transition

-- The sources that are checked at a tick.
abbrev Inputs.watched (cfg : Config) (i : Inputs) : List SourceCheck :=
  i.feedback cfg ++ [i.selected cfg]

-- A system together with a history that its steps never read: what the last tick found stale.
structure Observed extends System where
  stale : List SourceCheck

namespace Observed

def init : Observed where
  toSystem := .init
  stale    := []

def step [Libm Float] (cfg : Config) (o : Observed) (e : Event) : Option Observed :=
  (o.toSystem.step cfg e).map fun s =>
    { s with
      stale := match e with
        | .tick clock _ => (o.controller.watched cfg).filter
            fun check => check.watch.stale clock.now.seconds check.timeout
        | _ => o.stale }

theorem step_toSystem [Libm Float] {cfg : Config} {o o' : Observed} {e : Event}
    (h : o.step cfg e = some o') : o.toSystem.step cfg e = some o'.toSystem := by
  have ⟨s, hs, h⟩ := Option.map_eq_some_iff.mp h
  rw [hs, ← h]

end Observed

-- The fault events. A source becomes stale at the first tick that finds this sample of it stale.
inductive Fault [Libm Float] (cfg : Config) (o : Observed) : Event → Prop
  | ingress {msg : Message} {clock : CallbackClock} {why : String}
    (h : o.controller.ingest cfg clock msg = .error why) : Fault cfg o (.receive msg clock)
  | edge {data : List UInt8} (hx : cfg.x5h = true) (h : o.channel.rises data = true) :
    Fault cfg o (.siRx data)
  | source {clock : TickClock} {follower : FollowerResult} {check : SourceCheck}
    (hm : check ∈ o.controller.watched cfg)
    (hs : check.watch.stale clock.now.seconds check.timeout = true) (hn : check ∉ o.stale) :
    Fault cfg o (.tick clock follower)
  | follower {clock : TickClock} {lat : LateralMsg} {lon : LongitudinalMsg} {c : Controller}
    {why : String} (hm : cfg.supervisionMode = .siControl)
    (hr : Controller.Resumes cfg o.channel clock.now
      (o.controller.checked cfg o.channel clock) c)
    (hd : c.processData = true)
    (hv : Controller.followerViolation cfg (Controller.candidate lat lon clock.command) = some why) :
    Fault cfg o (.tick clock (.output lat lon))

namespace Controller

-- A press is pending on an episode that is latched for this very reason.
structure Repeats (c : Controller) (why : String) : Prop where
  latched : c.supervision.latched = true
  pending : c.reenable.pending = true
  reason  : c.supervision.reason = why

variable {cfg : Config} {c c₁ c₂ c' : Controller} {channel : SiChannel} {clock : TickClock}

theorem latchFault_pending_of_not_repeats {why : String} {clock : ClockReading}
    (h : ¬c.Repeats why) : (c.latchFault cfg why clock).reenable.pending = false := by
  by_contra hp
  have ⟨hl, hr, hp⟩ := (latchFault_pending cfg c why clock).mp (by simpa using hp)
  exact h ⟨hl, hp, hr⟩

theorem Faulted.not_pending (h : Faulted c c') (hp : c.reenable.pending = false) :
    c'.reenable.pending = false := by
  by_contra hp'
  rw [Bool.not_eq_false] at hp'
  rw [h.pending hp', hp] at hp'
  cases hp'

theorem Ticks.of_checked (hl : (c.checked cfg channel clock).supervision.latched = true)
    (hp : (c.checked cfg channel clock).reenable.pending = false)
    (h : Ticks cfg channel clock c c') :
    ∃ n, Stopped n c.published c' ∧ c'.reenable.pending = false := by
  have hc : ¬Clears cfg channel clock.now (c.checked cfg channel clock) := fun hc => by
    simp [hc.pending] at hp
  cases h
  case decides hr _ =>
    cases hr
    case unlatched hn _ => simp [hn] at hl
    case clears h _ => exact absurd h hc
  case stops =>
    refine ⟨_, publishSiStop_stopped hl rfl (by simp [expired]), ?_⟩
    rw [publishSiStop, publishApprovedRequest_reenable]
    by_contra hp'
    simp [expired, ReenableRequest.expireIfOld_pending, hp] at hp'

theorem callbackTimerControl_of_resumes {follower : FollowerResult}
    (h : Resumes cfg channel clock.now (c.checked cfg channel clock) c₂) :
    c.callbackTimerControl cfg channel clock follower = c₂.decideCycle cfg clock follower := by
  cases h
  case unlatched hl => exact callbackTimerControl_of_not_latched hl
  case clears hc => exact callbackTimerControl_of_clears hc

theorem decideCycle_of_violation {lat : LateralMsg} {lon : LongitudinalMsg} {why : String}
    (hm : cfg.supervisionMode = .siControl) (hd : c.processData = true)
    (hv : followerViolation cfg (candidate lat lon clock.command) = some why) :
    c.decideCycle cfg clock (.output lat lon) =
      some ((c.latchFault cfg ("follower " ++ why) clock.follower).publishSiStop cfg
        clock.stop.wall clock) := by
  simp [decideCycle, hm, Inputs.createInputData, hd, publishControlCommand, hv]

theorem ingest_error_ne [Libm Float] {clock : CallbackClock} {msg : Message} {why : String}
    (h : c.ingest cfg clock msg = .error why) : why ≠ "si fault input" := by
  cases msg
  case trajectory =>
    simp only [ingest, callbackTrajectory] at h
    repeat' split at h
    all_goals cases h
    all_goals decide
  case drivingReference =>
    simp only [ingest, callbackDrivingReference] at h
    repeat' split at h
    all_goals cases h
    all_goals decide
  case drivingCommand =>
    simp only [ingest, callbackDrivingCommand] at h
    repeat' split at h
    all_goals cases h
    all_goals decide
  all_goals cases h

theorem staleReason_mem {i : Inputs} {now : Float} {r : String × Float}
    (h : i.supervisorStaleReason cfg now = some r) :
    ∃ check ∈ i.watched cfg, check.watch.stale now check.timeout = true ∧ r.1 = check.name := by
  have ⟨check, hm, hc⟩ := List.exists_of_findSome?_eq_some h
  refine ⟨check, hm, ?_⟩
  split_ifs at hc with hs
  cases hc
  exact ⟨hs, rfl⟩

theorem staleReason_ne {i : Inputs} {now : Float} {r : String × Float}
    (h : i.supervisorStaleReason cfg now = some r) : r.1 ≠ "si fault input" := by
  have ⟨check, hm, _, hr⟩ := staleReason_mem h
  rw [hr]
  simp only [Inputs.watched, Inputs.feedback, Inputs.selected, List.cons_append, List.nil_append,
    List.mem_cons, List.not_mem_nil, or_false] at hm
  rcases hm with rfl | rfl | rfl | rfl | rfl | rfl
  case inr.inr.inr.inr.inr => split <;> simp
  all_goals simp

end Controller
end SafetyIsland

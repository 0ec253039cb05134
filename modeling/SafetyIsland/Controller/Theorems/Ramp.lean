import SafetyIsland.Controller.Latching
import SafetyIsland.Supervision.Ramp

namespace SafetyIsland

open Ieee Supervision Transition

namespace Event

def latches : Event → List ClockReading
  | .receive _ clock => [clock.latch]
  | .siRx _          => []
  | .tick clock _    => [clock.stale, clock.siFault, clock.follower]

def stop : Event → Option SteadyTime
  | .tick clock _ => some clock.stop.steady
  | _             => none

def steady (e : Event) : List SteadyTime :=
  e.latches.map ClockReading.steady ++ e.stop.toList

end Event

def Steady (es : List Event) : Prop :=
  (es.flatMap Event.steady).Pairwise (· ≤ ·)

instance (es : List Event) : Decidable (Steady es) :=
  inferInstanceAs (Decidable (List.Pairwise _ _))

theorem stop_sublist (es : List Event) :
    (es.filterMap Event.stop).Sublist (es.flatMap Event.steady) := by
  induction es
  case nil => exact .slnil
  case cons e es ih =>
    have hs : e.stop.toList.Sublist e.steady := List.sublist_append_right _ _
    rw [List.flatMap_cons]
    cases h : e.stop
    case none =>
      rw [List.filterMap_cons_none h]
      exact ih.trans (List.sublist_append_right _ _)
    case some t =>
      rw [List.filterMap_cons_some h]
      rw [h] at hs
      exact hs.append ih

namespace Steady

variable {e : Event} {es : List Event}

theorem stops (h : Steady es) : (es.filterMap Event.stop).Pairwise (· ≤ ·) :=
  h.sublist (stop_sublist es)

theorem latch_le {latch : ClockReading} (h : Steady (e :: es)) (hm : latch ∈ e.latches) :
    ∀ t ∈ (e :: es).filterMap Event.stop, latch.steady ≤ t := by
  intro t ht
  have hm : latch.steady ∈ e.latches.map ClockReading.steady := List.mem_map_of_mem hm
  unfold Steady at h
  rw [List.flatMap_cons, Event.steady, List.append_assoc, List.pairwise_append] at h
  refine h.2.2 _ hm t ?_
  rw [List.mem_filterMap] at ht
  obtain ⟨f, hf, hs⟩ := ht
  cases hf
  case head => exact List.mem_append_left _ (by simp [hs])
  case tail hf =>
    refine List.mem_append_right _ ((stop_sublist es).subset ?_)
    exact List.mem_filterMap.mpr ⟨f, hf, hs⟩

end Steady

section

variable {α β : Type} {R : α → β → Prop} {xs : List α} {ys : List β}

theorem exists_of_forall₂ (h : List.Forall₂ R xs ys) {y : β} (hy : y ∈ ys) : ∃ x ∈ xs, R x y := by
  induction h
  case nil => cases hy
  case cons hr _ ih =>
    cases hy
    case head => exact ⟨_, List.mem_cons_self, hr⟩
    case tail hy =>
      have ⟨x, hx, h⟩ := ih hy
      exact ⟨x, List.mem_cons_of_mem _ hx, h⟩

theorem pairwise_of_forall₂ {P : α → α → Prop} {S : β → β → Prop} (h : List.Forall₂ R xs ys)
    (hp : xs.Pairwise P)
    (hs : ∀ x ∈ xs, ∀ x' y y', P x x' → R x y → R x' y' → S y y') : ys.Pairwise S := by
  induction h
  case nil => exact .nil
  case cons hr hf ih =>
    rw [List.pairwise_cons] at hp ⊢
    refine ⟨fun y' hy' => ?_, ih hp.2 fun x hx => hs x (List.mem_cons_of_mem _ hx)⟩
    have ⟨x', hx', hr'⟩ := exists_of_forall₂ hf hy'
    exact hs _ List.mem_cons_self x' _ y' (hp.1 x' hx') hr hr'

end

namespace Published

def speed (p : Published) : Float32 :=
  p.approved.control.longitudinal.velocity

def lastNormal (l : List Published) : Option ControlMsg :=
  (l.reverse.find? fun p => p.approved.decision = Decision.normal.toUInt8).map (·.approved.control)

end Published

def Outputs.approved (o : Outputs) : Option ControlMsg :=
  if o.hasApproved then some o.lastApproved else none

-- The origin of the ramp of an episode that starts with these inputs.
def Inputs.captured (cfg : Config) (i : Inputs) (latch : ClockReading) : StopRamp :=
  .start (if i.hasOdometry then i.currentOdometry.linear.x else 0) i.watchOdom latch.wall.seconds
    cfg.params.sourceTimeoutEgo latch.steady

structure Published.Stops (cfg : Config) (ramp : StopRamp) (approved : Option ControlMsg)
    (now : SteadyTime) (p : Published) : Prop where
  decision     : p.approved.decision = Decision.siStop.toUInt8
  speed        : p.speed = narrow
    (ramp.velocity (widen cfg.params.stopDecelMps2) cfg.params.maxAbsVelocityMps now)
  acceleration : p.approved.control.longitudinal.acceleration = -cfg.params.stopDecelMps2
  steering     : ∀ m ∈ approved,
    p.approved.control.lateral.steeringTireAngle = m.lateral.steeringTireAngle

namespace Controller

variable {cfg : Config} {c c' : Controller} {channel : SiChannel} {clock : TickClock}

-- A tick that stops: one more output, from a ramp and an approved command.
structure Ramps (cfg : Config) (clock : TickClock) (ramp : StopRamp)
    (approved : Option ControlMsg) (c c' : Controller) : Prop where
  ramp_eq     : c'.stopRamp = ramp
  approved_eq : c'.approved = approved
  output      : ∃ p, c'.published = c.published ++ [p] ∧
    p.Stops cfg ramp approved clock.stop.steady

theorem publishSiStop_ramps {now : WallTime} (hl : c.supervision.latched = true) :
    Ramps cfg clock c.stopRamp c.approved c (c.publishSiStop cfg now clock) where
  ramp_eq     := rfl
  approved_eq := rfl
  output      := by
    rw [publishSiStop, publishApprovedRequest_published]
    refine ⟨_, rfl, rfl, ?_, ?_, ?_⟩
    case refine_1 => simp [Published.speed, publication, stoppedPayload, hl]
    case refine_2 => simp [publication, stoppedPayload, stopControl]
    case refine_3 =>
      intro m hm
      cases ha : c.hasApproved <;> simp only [Outputs.approved, ha] at hm
      case false => cases hm
      case true =>
        cases hm
        simp [publication, stoppedPayload, stopControl, ha]

theorem latchFault_captured {why : String} {latch : ClockReading}
    (hl : c.supervision.latched = false) :
    (c.latchFault cfg why latch).stopRamp = c.captured cfg latch := by
  simp [latchFault, hl, Inputs.captured]

theorem superviseSources_stopRamp (hl : c.supervision.latched = true) :
    (c.superviseSources cfg clock).stopRamp = c.stopRamp := by
  unfold superviseSources
  split
  case h_1 => exact latchFault_stopRamp _ _ _ _ hl
  case h_2 => rfl

theorem superviseFaultInput_stopRamp (hl : c.supervision.latched = true) :
    (c.superviseFaultInput cfg channel clock).stopRamp = c.stopRamp := by
  unfold superviseFaultInput
  split
  case isTrue =>
    exact latchFault_stopRamp cfg { c with siFaultEventsSeen := channel.faultEvents } _ _ hl
  case isFalse => rfl

theorem checked_stopRamp (hl : c.supervision.latched = true) :
    (c.checked cfg channel clock).stopRamp = c.stopRamp :=
  (superviseFaultInput_stopRamp (superviseSources_faulted.latched hl).1).trans
    (superviseSources_stopRamp hl)

theorem checked_captured (hl : c.supervision.latched = false)
    (hl' : (c.checked cfg channel clock).supervision.latched = true) :
    ∃ latch ∈ [clock.stale, clock.siFault],
      (c.checked cfg channel clock).stopRamp = c.captured cfg latch := by
  unfold checked at hl' ⊢
  cases hs : c.supervisorStaleReason cfg clock.now.seconds
  case some reason =>
    have hc : c.superviseSources cfg clock = c.latchFault cfg reason.1 clock.stale := by
      simp [superviseSources, hs]
    rw [hc]
    refine ⟨clock.stale, by simp, ?_⟩
    rw [superviseFaultInput_stopRamp (latchFault_latched ..), latchFault_captured hl]
  case none =>
    have hc : c.superviseSources cfg clock = c := by simp [superviseSources, hs]
    rw [hc] at hl' ⊢
    unfold superviseFaultInput at hl' ⊢
    split at hl'
    case isFalse => simp [hl] at hl'
    case isTrue h =>
      rw [if_pos h]
      exact ⟨clock.siFault, by simp,
        @latchFault_captured cfg { c with siFaultEventsSeen := channel.faultEvents } _ _ hl⟩

theorem Ramps.of_eq {c₁ : Controller} {ramp ramp' : StopRamp} {a a' : Option ControlMsg}
    (h : Ramps cfg clock ramp a c₁ c') (hr : ramp = ramp') (ha : a = a')
    (hp : c₁.published = c.published) : Ramps cfg clock ramp' a' c c' where
  ramp_eq     := hr ▸ h.ramp_eq
  approved_eq := ha ▸ h.approved_eq
  output      := hr ▸ ha ▸ hp ▸ h.output

theorem stops_ramps (hl : (c.checked cfg channel clock).supervision.latched = true) :
    Ramps cfg clock (c.checked cfg channel clock).stopRamp c.approved c
      (((c.checked cfg channel clock).expired cfg clock.now).publishSiStop cfg clock.now clock) := by
  have hr := @publishSiStop_ramps cfg ((c.checked cfg channel clock).expired cfg clock.now) clock
    clock.now hl
  have ho : (c.checked cfg channel clock).toOutputs = c.toOutputs := checked_toOutputs
  exact hr.of_eq rfl (congrArg Outputs.approved ho) (congrArg Outputs.published ho)

theorem Decides.captures (h : Decides cfg clock c c') (hl : c.supervision.latched = false)
    (hl' : c'.supervision.latched = true) :
    Ramps cfg clock (c.captured cfg clock.follower) c.approved c c' := by
  cases h
  case violation lat lon why hm hd hv =>
    have hr := @publishSiStop_ramps cfg (c.latchFault cfg ("follower " ++ why) clock.follower) clock
      clock.stop.wall (latchFault_latched ..)
    have ho : (c.latchFault cfg ("follower " ++ why) clock.follower).toOutputs = c.toOutputs :=
      latchFault_toOutputs ..
    exact hr.of_eq (latchFault_captured hl) (congrArg Outputs.approved ho)
      (congrArg Outputs.published ho)
  all_goals simp [publishHold, hl] at hl'

theorem Ticks.ramps (h : Ticks cfg channel clock c c') (hl : c.supervision.latched = true)
    (hl' : c'.supervision.latched = true)
    (hf : c'.supervision.faultId = c.supervision.faultId) :
    Ramps cfg clock c.stopRamp c.approved c c' := by
  have hl₁ : (c.checked cfg channel clock).supervision.latched = true :=
    (checked_faulted.latched hl).1
  cases h
  case stops => exact (stops_ramps hl₁).of_eq (checked_stopRamp hl) rfl rfl
  case decides hr hd =>
    cases hr
    case unlatched hn => simp [hl₁] at hn
    case clears hc =>
      rcases (Ticks.of_clears hl hc (.decides (.clears hc) hd)).output with hp | hs
      case inl => simp [hp.unlatched] at hl'
      case inr => exact absurd (hs.faultId.symm.trans hf) (Nat.succ_ne_self _)

theorem Ticks.captures (h : Ticks cfg channel clock c c') (hl' : c'.supervision.latched = true)
    (hn : c.supervision.latched = false ∨ c'.supervision.faultId ≠ c.supervision.faultId) :
    ∃ latch ∈ [clock.stale, clock.siFault, clock.follower],
      Ramps cfg clock (c.captured cfg latch) c.approved c c' := by
  have ho : (c.checked cfg channel clock).toOutputs = c.toOutputs := checked_toOutputs
  have hi : (c.checked cfg channel clock).toInputs = c.toInputs := checked_toInputs
  cases h
  case stops hl₁ hc =>
    cases hl : c.supervision.latched
    case false =>
      have ⟨latch, hm, hr⟩ := checked_captured hl hl₁
      exact ⟨latch, by grind, (stops_ramps hl₁).of_eq hr rfl rfl⟩
    case true =>
      have hf : (c.checked cfg channel clock).supervision.faultId = c.supervision.faultId :=
        (checked_faulted.latched hl).2
      exact absurd (by simpa [publishSiStop, expired] using hf) (hn.resolve_left (by simp [hl]))
  case decides c₂ hr hd =>
    have hi₂ : c₂.toInputs = c.toInputs := hr.toInputs_eq.trans hi
    have ho₂ : c₂.toOutputs = c.toOutputs := hr.toOutputs_eq.trans ho
    exact ⟨clock.follower, by simp, (hd.captures hr.not_latched hl').of_eq
      (congrArg (Inputs.captured cfg · clock.follower) hi₂) (congrArg Outputs.approved ho₂)
      (congrArg Outputs.published ho₂)⟩

section

variable [Libm Float] {clock : CallbackClock} {msg : Message}

theorem receive_approved : (c.receive cfg clock msg).approved = c.approved := by
  unfold receive
  split
  case h_2 => rw [latchFault_toOutputs]
  case h_1 h => cases ingest_accepts h <;> rfl

theorem receive_stopRamp (hl : c.supervision.latched = true) :
    (c.receive cfg clock msg).stopRamp = c.stopRamp := by
  unfold receive
  split
  case h_2 => exact latchFault_stopRamp _ _ _ _ hl
  case h_1 h => cases ingest_accepts h <;> rfl

theorem receive_captures (hl : c.supervision.latched = false)
    (hl' : (c.receive cfg clock msg).supervision.latched = true) :
    (c.receive cfg clock msg).stopRamp = c.captured cfg clock.latch := by
  unfold receive at hl' ⊢
  split
  case h_2 => exact latchFault_captured hl
  case h_1 c₁ h =>
    rw [h] at hl'
    have hs : c₁.supervision.latched = c.supervision.latched := by
      cases ingest_accepts h <;> rfl
    exact absurd (hl.symm.trans (hs.symm.trans hl')) Bool.false_ne_true

end
end Controller

theorem Published.lastNormal_append {l : List Published} {p : Published} :
    lastNormal (l ++ [p]) =
      if p.approved.decision = Decision.normal.toUInt8 then some p.approved.control
      else lastNormal l := by
  rw [lastNormal, List.reverse_append, List.reverse_singleton, List.singleton_append,
    List.find?_cons]
  split_ifs with h <;> simp [h, lastNormal]

-- The command that is kept is the one of the last NORMAL output.
def Outputs.Keeps (o : Outputs) : Prop :=
  o.approved = Published.lastNormal o.published

namespace Controller

variable {cfg : Config} {c c' : Controller} {channel : SiChannel} {clock : TickClock}

theorem publishApprovedRequest_keeps {decision : Decision} {source : SelectedSource}
    {control : ControlMsg} {now : WallTime} (h : c.Keeps) :
    (c.publishApprovedRequest cfg decision source control now).Keeps := by
  unfold Outputs.Keeps at *
  rw [publishApprovedRequest_published, Published.lastNormal_append, ← h]
  cases decision
  case normal => rfl
  all_goals rfl

theorem Ticks.keeps_approved (ht : Ticks cfg channel clock c c') (h : c.Keeps) : c'.Keeps := by
  have ho : (c.checked cfg channel clock).toOutputs = c.toOutputs := checked_toOutputs
  cases ht
  case stops => exact publishApprovedRequest_keeps (ho ▸ h : Outputs.Keeps _)
  case decides c₂ hr hd =>
    have h₂ : c₂.Keeps := hr.toOutputs_eq ▸ ho ▸ h
    cases hd
    case hold => exact publishApprovedRequest_keeps h₂
    case command => exact publishApprovedRequest_keeps h₂
    case follow => exact publishApprovedRequest_keeps h₂
    case violation =>
      refine publishApprovedRequest_keeps ?_
      rw [latchFault_toOutputs]
      exact h₂

end Controller

namespace System

section

variable {cfg : Config} {s s₀ s₁ s' : System} {e e₀ : Event} {es es₀ : List Event}

structure Ramped (cfg : Config) (ramp : StopRamp) (approved : Option ControlMsg) (s : System)
    (es : List Event) (s' : System) : Prop where
  stopRamp    : s'.controller.stopRamp = ramp
  approved_eq : s'.controller.approved = approved
  outputs     : ∃ ps, s'.controller.published = s.controller.published ++ ps ∧
    List.Forall₂ (Published.Stops cfg ramp approved) (es.filterMap Event.stop) ps

namespace Ramped

variable {ramp : StopRamp} {approved : Option ControlMsg}

theorem of_tick {clock : TickClock} {follower : FollowerResult}
    (h : Controller.Ramps cfg clock ramp approved s.controller s'.controller) :
    Ramped cfg ramp approved s [.tick clock follower] s' where
  stopRamp    := h.ramp_eq
  approved_eq := h.approved_eq
  outputs     := by
    have ⟨p, hp, hs⟩ := h.output
    exact ⟨[p], hp, .cons hs .nil⟩

theorem of_silent (hr : s'.controller.stopRamp = ramp) (ha : s'.controller.approved = approved)
    (hp : s'.controller.published = s.controller.published) (he : e.stop = none) :
    Ramped cfg ramp approved s [e] s' where
  stopRamp    := hr
  approved_eq := ha
  outputs     := ⟨[], by simp [hp], by simp [he]⟩

theorem append {es' : List Event} (h : Ramped cfg ramp approved s es s₁)
    (h' : Ramped cfg ramp approved s₁ es' s') : Ramped cfg ramp approved s (es ++ es') s' where
  stopRamp    := h'.stopRamp
  approved_eq := h'.approved_eq
  outputs     := by
    have ⟨ps, hp, hs⟩ := h.outputs
    have ⟨ps', hp', hs'⟩ := h'.outputs
    refine ⟨ps ++ ps', by rw [hp', hp, List.append_assoc], ?_⟩
    rw [List.filterMap_append]
    exact List.rel_append hs hs'

end Ramped

-- What the stops of an episode have in common: the speed that the odometry gave at the latch edge is
-- valid or the whole ramp is at zero, and neither the braking nor the steering changes.
structure Holds (cfg : Config) (i : Inputs) (latch : ClockReading) (approved : Option ControlMsg)
    (p : Published) : Prop where
  decision     : p.approved.decision = Decision.siStop.toUInt8
  nonneg       : 0 ≤ p.speed
  le           : 0 ≤ i.currentOdometry.linear.x → p.speed ≤ narrow i.currentOdometry.linear.x
  zero         : i.watchOdom.ever = false ∨
    i.watchOdom.stale latch.wall.seconds cfg.params.sourceTimeoutEgo = true ∨
    i.currentOdometry.linear.x < 0 ∨ ¬i.currentOdometry.linear.x ≤ cfg.params.maxAbsVelocityMps →
    p.speed = 0
  acceleration : p.approved.control.longitudinal.acceleration = -cfg.params.stopDecelMps2
  steering     : ∀ m ∈ approved,
    p.approved.control.lateral.steeringTireAngle = m.lateral.steeringTireAngle

theorem captured_v0Mps (cfg : Config) (i : Inputs) (latch : ClockReading) :
    (i.captured cfg latch).v0Mps = 0 ∨
    i.watchOdom.ever = true ∧
      i.watchOdom.stale latch.wall.seconds cfg.params.sourceTimeoutEgo = false ∧
      (i.captured cfg latch).v0Mps = i.currentOdometry.linear.x := by
  cases he : i.watchOdom.ever
  case false => exact .inl (by simp [Inputs.captured, StopRamp.start, he])
  case true =>
    cases hs : i.watchOdom.stale latch.wall.seconds cfg.params.sourceTimeoutEgo
    case true => exact .inl (by simp [Inputs.captured, StopRamp.start, hs])
    case false =>
      cases ho : i.hasOdometry
      case false => exact .inl (by simp [Inputs.captured, StopRamp.start, ho])
      case true => exact .inr ⟨rfl, rfl, by simp [Inputs.captured, StopRamp.start, he, hs, ho]⟩

theorem holds_of_stops {i : Inputs} {latch : ClockReading} {approved : Option ControlMsg}
    {now : SteadyTime} {p : Published} (hd : 0 ≤ cfg.params.stopDecelMps2)
    (hn : latch.steady ≤ now) (h : p.Stops cfg (i.captured cfg latch) approved now) :
    Holds cfg i latch approved p := by
  have hm := cfg.params.velocityFinite.1
  have hd := widen_nonneg hd
  have he : 0 ≤ Clock.durationSeconds latch.steady now := Clock.durationSeconds_nonneg hn
  have hz : (0 : Float) ≤ 0 := by decide
  have hs : p.speed = narrow (stopRampVelocity (i.captured cfg latch).v0Mps
    (widen cfg.params.stopDecelMps2) (Clock.durationSeconds latch.steady now)
    cfg.params.maxAbsVelocityMps) := h.speed
  refine ⟨h.decision, ?nonneg, ?le, ?zero, h.acceleration, h.steering⟩
  case nonneg =>
    rw [hs, ← narrow_zero]
    exact narrow_mono (stopRampVelocity_nonneg ..)
  case le =>
    intro hx
    rw [hs]
    refine narrow_mono ?_
    rcases captured_v0Mps cfg i latch with hv | ⟨_, _, hv⟩
    case inl => rwa [hv, stopRampVelocity_of_invalid hm hd he (.inl hz)]
    case inr =>
      rw [hv]
      exact stopRampVelocity_le hm hx hd he
  case zero =>
    intro hi
    have hv : (i.captured cfg latch).v0Mps ≤ 0 ∨
        ¬(i.captured cfg latch).v0Mps ≤ cfg.params.maxAbsVelocityMps := by
      rcases captured_v0Mps cfg i latch with hv | ⟨hev, hst, hv⟩
      case inl => exact .inl (hv ▸ hz)
      case inr =>
        rw [hv]
        rcases hi with hi | hi | hi | hi
        case inl => simp [hev] at hi
        case inr.inl => simp [hst] at hi
        case inr.inr.inl => exact .inl (flt_le hi)
        case inr.inr.inr => exact .inr hi
    rw [hs, stopRampVelocity_of_invalid hm hd he hv, narrow_zero]

-- A later stop of an episode is not faster.
theorem speed_anti {i : Inputs} {latch : ClockReading} {approved : Option ControlMsg}
    {now now' : SteadyTime} {p p' : Published} (hd : 0 ≤ cfg.params.stopDecelMps2)
    (hn : latch.steady ≤ now) (hn' : now ≤ now')
    (h : p.Stops cfg (i.captured cfg latch) approved now)
    (h' : p'.Stops cfg (i.captured cfg latch) approved now') : p.speed ≥ p'.speed := by
  rw [h.speed, h'.speed]
  exact narrow_mono (stopRampVelocity_anti cfg.params.velocityFinite.1 (widen_nonneg hd)
    (Clock.durationSeconds_nonneg hn) (Clock.durationSeconds_mono hn hn'))

variable [Libm Float]

theorem step_keeps_approved (h : s.step cfg e = some s') (hk : s.controller.Keeps) : s'.controller.Keeps := by
  cases e
  case tick => exact (step_tick h).1.keeps_approved hk
  case siRx => cases h; exact hk
  case receive =>
    cases h
    unfold Outputs.Keeps
    rw [Controller.receive_approved, Controller.receive_published]
    exact hk

theorem run_keeps_approved (h : Run (System.step cfg) .init es s) : s.controller.Keeps :=
  h.invariant (P := fun s => s.controller.Keeps) (fun he _ hk => step_keeps_approved he hk) rfl

theorem step_ramped (h : s.step cfg e = some s') (hl : s.controller.supervision.latched = true)
    (hs : Stops s.controller.supervision.faultId s e s') :
    Ramped cfg s.controller.stopRamp s.controller.approved s [e] s' := by
  cases e
  case tick => exact .of_tick ((step_tick h).1.ramps hl hs.1 hs.2.1)
  case siRx => cases h; exact .of_silent rfl rfl rfl rfl
  case receive =>
    cases h
    exact .of_silent (Controller.receive_stopRamp hl) Controller.receive_approved
      Controller.receive_published rfl

theorem step_captures (h : s.step cfg e = some s') (hl' : s'.controller.supervision.latched = true)
    (hn : s.controller.supervision.latched = false ∨
      s'.controller.supervision.faultId ≠ s.controller.supervision.faultId) :
    ∃ latch ∈ e.latches,
      Ramped cfg (s.controller.captured cfg latch) s.controller.approved s [e] s' := by
  cases e
  case tick =>
    have ⟨latch, hm, hr⟩ := (step_tick h).1.captures hl' hn
    exact ⟨latch, hm, .of_tick hr⟩
  case siRx =>
    cases h
    exact absurd rfl (hn.resolve_left (by simpa using hl'))
  case receive msg clock =>
    cases h
    cases hl : s.controller.supervision.latched
    case false =>
      exact ⟨clock.latch, List.mem_singleton_self _, .of_silent (Controller.receive_captures hl hl')
        Controller.receive_approved Controller.receive_published rfl⟩
    case true =>
      rcases step_of_latched (e := .receive msg clock) hl rfl with hs | ⟨_, _, h, _⟩
      case inl => exact absurd hs.2.1 (hn.resolve_left (by simp [hl]))
      case inr => cases h

theorem along_ramped {n : ℕ} (h : Along (System.step cfg) (Stops n) s es s')
    (hl : s.controller.supervision.latched = true) (hf : s.controller.supervision.faultId = n) :
    Ramped cfg s.controller.stopRamp s.controller.approved s es s' := by
  induction h
  case nil => exact ⟨rfl, rfl, [], by simp, .nil⟩
  case cons he q _ ih =>
    have hr := step_ramped he hl (hf ▸ q)
    have ht := ih q.1 q.2.1
    rw [hr.stopRamp, hr.approved_eq] at ht
    exact hr.append ht

theorem along_stops (h : Run (System.step cfg) s es s') (hp : ∀ e ∈ es, e.isPress = false)
    (hl : s.controller.supervision.latched = true) (hr : s.controller.reenable.pending = false) :
    Along (System.step cfg) (Stops s.controller.supervision.faultId) s es s' := by
  have ha : Along (System.step cfg) (fun _ e _ => e.isPress = false) s es s' :=
    .of_run h fun e he _ _ => hp e he
  refine ha.strengthen (P := fun t => t.controller.supervision.latched = true ∧
    t.controller.supervision.faultId = s.controller.supervision.faultId ∧
    t.controller.reenable.pending = false) ?_ ⟨hl, rfl, hr⟩
  rintro t e t' he hpress ⟨hl, hf, hr⟩
  rcases step_of_latched hl he with hs | ⟨_, _, _, hre⟩
  case inr => exact absurd (hr.symm.trans hre.pending) Bool.false_ne_true
  case inl =>
    rw [hf] at hs
    refine ⟨⟨hs.1, hs.2.1, ?_⟩, hs⟩
    by_contra hpend
    rw [Bool.not_eq_false] at hpend
    rcases step_reenable he hpend with heq | ⟨_, rfl, _⟩
    case inl => exact Bool.false_ne_true (hr.symm.trans (heq ▸ hpend))
    case inr => cases hpress

theorem stop_ramp (hr : Run (System.step cfg) .init es₀ s₀) (he : s₀.step cfg e₀ = some s₁)
    (hl : s₁.controller.supervision.latched = true)
    (hn : s₀.controller.supervision.latched = false ∨
      s₁.controller.supervision.faultId ≠ s₀.controller.supervision.faultId)
    (h : Along (System.step cfg) (Stops s₁.controller.supervision.faultId) s₁ es s')
    (ho : Steady (e₀ :: es)) (hd : 0 ≤ cfg.params.stopDecelMps2) :
    ∃ latch ∈ e₀.latches, ∃ ps, s'.controller.published = s₀.controller.published ++ ps ∧
      (ps.map Published.speed).Pairwise (· ≥ ·) ∧
      ∀ p ∈ ps, Holds cfg s₀.controller.toInputs latch
        (Published.lastNormal s₀.controller.published) p := by
  have ⟨latch, hm, hr₁⟩ := step_captures he hl hn
  have ha := along_ramped h hl rfl
  rw [hr₁.stopRamp, hr₁.approved_eq] at ha
  have ⟨ps, hp, hs⟩ := (hr₁.append ha).outputs
  have hk : s₀.controller.approved = _ := run_keeps_approved hr
  rw [hk] at hs
  refine ⟨latch, hm, ps, hp, ?pairwise, ?holds⟩
  case pairwise =>
    rw [List.pairwise_map]
    exact pairwise_of_forall₂ hs ho.stops fun t ht t' p p' hle h h' =>
      speed_anti hd (ho.latch_le hm t ht) hle h h'
  case holds =>
    intro p hp
    have ⟨t, ht, hst⟩ := exists_of_forall₂ hs hp
    exact holds_of_stops hd (ho.latch_le hm t ht) hst

end

open Sample in
-- A command out of its range latches. Between two stops a slower odometry and another bad command are
-- received, which do not touch the ramp.
theorem stop_ramp_command :
    let cfg := config .vpControl .vp
    let slower := .odometry { (default : OdometryMsg) with linear := ⟨3, 0, 0⟩ }
    let es₀ := feedback 1 ++ [message 1 (command 1 0.25)]
    let e₀ := message 1 (command 2 0.9)
    let es := [tick 1 .notReady, message 2 slower, message 2 (command 2 (0 / 0)), tick 2 .notReady]
    let s₀ := after cfg es₀
    let s' := after cfg (es₀ ++ [e₀] ++ es)
    ∃ latch ∈ e₀.latches, ∃ ps, s'.controller.published = s₀.controller.published ++ ps ∧
      ps.length = 2 ∧ (ps.map Published.speed).Pairwise (· ≥ ·) ∧
      ∀ p ∈ ps, Holds cfg s₀.controller.toInputs latch
        (Published.lastNormal s₀.controller.published) p := by
  intro cfg slower es₀ e₀ es s₀ s'
  let s₁ := after cfg (es₀ ++ [e₀])
  have he : s₀.step cfg e₀ = some s₁ := step_after (by decide +kernel)
  have hl : s₁.controller.supervision.latched = true := by decide +kernel
  have hn : s₀.controller.supervision.latched = false := by decide +kernel
  have h : Run (System.step cfg) s₁ es s' := run_after_append (by decide +kernel)
  have hs := along_stops h (by decide) hl (by decide +kernel)
  have h₀ : s₀.controller.published.length = 0 := by decide +kernel
  have h₂ : s'.controller.published.length = 2 := by decide +kernel
  obtain ⟨latch, hm, ps, hps, hmono, hh⟩ := stop_ramp (run_after (by decide +kernel)) he hl (.inl hn)
    hs (by decide +kernel) (by decide +kernel)
  rw [hps, List.length_append, h₀, Nat.zero_add] at h₂
  exact ⟨latch, hm, ps, hps, h₂, hmono, hh⟩

open Sample in
-- The float of the payload can be above the double of the odometry that it is rounded from.
theorem exceeds_captured :
    let cfg := config .vpControl .vp
    let odometry := .odometry { (default : OdometryMsg) with linear := ⟨5.0000003, 0, 0⟩ }
    let es₀ := [message 1 odometry, message 1 acceleration, message 1 (steering 0),
      message 1 operationMode, message 1 (command 1 0.25)]
    let e₀ := message 1 (command 2 0.9)
    let s₀ := after cfg es₀
    let s₁ := after cfg (es₀ ++ [e₀])
    let s' := after cfg (es₀ ++ [e₀] ++ [tick 1 .notReady])
    Run (System.step cfg) .init es₀ s₀ ∧ s₀.step cfg e₀ = some s₁ ∧
    s₁.step cfg (tick 1 .notReady) = some s' ∧ Steady [e₀, tick 1 .notReady] ∧
    0 ≤ cfg.params.stopDecelMps2 ∧ s₀.controller.supervision.latched = false ∧
    s₁.controller.supervision.latched = true ∧ s'.controller.supervision.latched = true ∧
    s₀.controller.currentOdometry.linear.x = 5.0000003 ∧ s₀.controller.published = [] ∧
    ∃ p ∈ s'.controller.published,
      p.approved.decision = Decision.siStop.toUInt8 ∧ 5.0000003 < widen p.speed := by
  intro cfg odometry es₀ e₀ s₀ s₁ s'
  exact ⟨run_after (by decide +kernel), step_after (by decide +kernel),
    step_after (by decide +kernel), by decide +kernel, by decide +kernel, by decide +kernel,
    by decide +kernel, by decide +kernel, by decide +kernel, by decide +kernel, by decide +kernel⟩

end System
end SafetyIsland

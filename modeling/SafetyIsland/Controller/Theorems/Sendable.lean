import SafetyIsland.Can.Range
import SafetyIsland.Controller.Theorems.Gate
import SafetyIsland.Controller.Theorems.Ramp
import SafetyIsland.Controller.Theorems.Trajectory

namespace SafetyIsland

open Can Ieee Supervision Transition

-- The supervision parameters bound what the frames can hold.
structure Params.InRange (p : Params) : Prop where
  steering : p.maxSteeringRad ≤ 2147
  follower : p.followerMaxSteerRad + 1e-3 ≤ 2147
  velocity : p.maxAbsVelocityMps ≤ 2147483
  accel    : p.maxAbsAccelMps2 ≤ 2147483
  braking  : 0 ≤ p.stopDecelMps2
  decel    : p.stopDecelMps2 ≤ 2147483

def angleFits (x : Float32) : Bool :=
  (scaleToI32 x (.ofNat 1000000)).isSome

def speedFits (x : Float32) : Bool :=
  (scaleToI32 x (.ofNat 1000)).isSome

-- A payload whose numbers are finite and that the encoder takes in every mode of the CAN output.
structure ControlMsg.Sendable (m : ControlMsg) : Prop where
  angle        : IsFinite m.lateral.steeringTireAngle
  rate         : IsFinite m.lateral.steeringTireRotationRate
  velocity     : IsFinite m.longitudinal.velocity
  acceleration : IsFinite m.longitudinal.acceleration
  encoded      : ∀ mode sequence, mode.usesCan = true →
    (encodeControlCommand m mode sequence).isOk = true

theorem ControlMsg.sendable_iff {m : ControlMsg} : m.Sendable ↔
    angleFits m.lateral.steeringTireAngle = true ∧
    angleFits m.lateral.steeringTireRotationRate = true ∧
    speedFits m.longitudinal.velocity = true ∧ speedFits m.longitudinal.acceleration = true := by
  constructor
  case mp =>
    intro h
    exact (CommandFields.encode_isOk rfl).mp (h.encoded .canOnly 0 rfl)
  case mpr =>
    rintro ⟨ha, hr, hv, hc⟩
    exact ⟨isFinite_of_isSome ha, isFinite_of_isSome hr, isFinite_of_isSome hv,
      isFinite_of_isSome hc, fun mode sequence hm =>
        (CommandFields.encode_isOk hm).mpr ⟨ha, hr, hv, hc⟩⟩

theorem angleFits_of_le {x : Float32} (hx : IsFinite x) (h : |rat x| ≤ (2147 : ℕ)) :
    angleFits x = true := by
  refine scaleToI32_isSome hx le_rfl ?_
  push_cast at h ⊢
  linarith

theorem speedFits_of_le {x : Float32} (hx : IsFinite x) (h : |rat x| ≤ (2147483 : ℕ)) :
    speedFits x = true := by
  refine scaleToI32_isSome hx (by norm_num) ?_
  push_cast at h ⊢
  linarith

theorem rat_le_angle {b : Float} (h : b ≤ 2147) (hb : IsFinite b) : rat b ≤ (2147 : ℕ) := by
  obtain ⟨hf, hr⟩ := @exact_ofNat 2147 (by decide)
  exact hr ▸ (hb.le_iff hf).mp h

theorem rat_le_speed {b : Float} (h : b ≤ 2147483) (hb : IsFinite b) : rat b ≤ (2147483 : ℕ) := by
  obtain ⟨hf, hr⟩ := @exact_ofNat 2147483 (by decide)
  exact hr ▸ (hb.le_iff hf).mp h

theorem angleFits_narrow {x b : Float} (h : x.abs ≤ b) (hb : IsFinite b) (hm : b ≤ 2147) :
    angleFits (narrow x) = true := by
  obtain ⟨hx, hle⟩ := abs_le_bound h hb
  obtain ⟨hf, hr⟩ := hx.narrow_abs_le (by decide) (hle.trans (rat_le_angle hm hb))
  exact angleFits_of_le hf hr

theorem speedFits_narrow {x b : Float} (h : x.abs ≤ b) (hb : IsFinite b) (hm : b ≤ 2147483) :
    speedFits (narrow x) = true := by
  obtain ⟨hx, hle⟩ := abs_le_bound h hb
  obtain ⟨hf, hr⟩ := hx.narrow_abs_le (by decide) (hle.trans (rat_le_speed hm hb))
  exact speedFits_of_le hf hr

theorem angleFits_widen {x : Float32} {b : Float} (h : (widen x).abs ≤ b) (hb : IsFinite b)
    (hm : b ≤ 2147) : angleFits x = true := by
  obtain ⟨hx, hle⟩ := abs_le_bound h hb
  have hf := isFinite_widen.mp hx
  rw [hf.widen.2] at hle
  exact angleFits_of_le hf (hle.trans (rat_le_angle hm hb))

theorem speedFits_widen {x : Float32} {b : Float} (h : (widen x).abs ≤ b) (hb : IsFinite b)
    (hm : b ≤ 2147483) : speedFits x = true := by
  obtain ⟨hx, hle⟩ := abs_le_bound h hb
  have hf := isFinite_widen.mp hx
  rw [hf.widen.2] at hle
  exact speedFits_of_le hf (hle.trans (rat_le_speed hm hb))

theorem abs_le_of_between {x b : Float} (h₀ : 0 ≤ x) (h : x ≤ b) (hb : IsFinite b) : x.abs ≤ b := by
  have hx := isFinite_of_le_of_le h₀ h isFinite_zero hb
  rw [hx.abs.1.le_iff hb, hx.abs.2, abs_of_nonneg (rat_nonneg h₀ hx)]
  exact (hx.le_iff hb).mp h

theorem speedFits_braking {p : Params} (hp : p.InRange) : speedFits (-p.stopDecelMps2) = true := by
  have hu : Stored.unpack (2147483 : Float32) = .finite .positive 8589932 (-2) (by decide) := rfl
  have hb : IsFinite (2147483 : Float32) := by
    rw [IsFinite, hu]
    rfl
  have hr : rat (2147483 : Float32) = 2147483 := by
    rw [rat, hu, toRat, signed]
    norm_num
  have hf := isFinite_of_le_of_le32 hp.braking hp.decel (by decide) hb
  obtain ⟨_, _, h₀⟩ := le_iff32.mp hp.braking
  obtain ⟨_, _, h₁⟩ := le_iff32.mp hp.decel
  rw [hf.val_eq, hb.val_eq, WithBotTop.coe_le_coe, hr] at h₁
  have hz : val (0 : Float32) = ((0 : ℚ) : Ext) := rfl
  rw [hf.val_eq, hz, WithBotTop.coe_le_coe] at h₀
  obtain ⟨hn, hnr⟩ := hf.neg32
  refine speedFits_of_le hn ?_
  rw [hnr, abs_neg, abs_of_nonneg h₀]
  exact_mod_cast h₁

theorem speedFits_zero : speedFits 0 = true := by
  decide

theorem speedFits_ramp {p : Params} (hp : p.InRange) {ramp : StopRamp} {now : SteadyTime}
    (h : ramp.startedAt ≤ now) :
    speedFits (narrow (ramp.velocity (widen p.stopDecelMps2) p.maxAbsVelocityMps now)) = true := by
  have hm := p.velocityFinite.1
  have hd := widen_nonneg hp.braking
  have he := Clock.durationSeconds_nonneg h
  rw [StopRamp.velocity]
  rcases stopRampVelocity_cases ramp.v0Mps (widen p.stopDecelMps2)
    (Clock.durationSeconds ramp.startedAt now) p.maxAbsVelocityMps with hz | ⟨hv, hpos, hr⟩
  case inl => rw [hz, narrow_zero, speedFits_zero]
  case inr =>
    obtain ⟨fv, _⟩ := finite_of_ramp_pos hm hv hd he hpos
    by_cases hn : 0 ≤ ramp.v0Mps
    case pos =>
      have hle := fle_trans (stopRampVelocity_le hm hn hd he) hv
      exact speedFits_narrow (abs_le_of_between (stopRampVelocity_nonneg ..) hle hm) hm hp.velocity
    case neg =>
      have hle : ramp.v0Mps ≤ 0 := by
        rw [fv.le_iff isFinite_zero, rat_zero]
        rw [isFinite_zero.le_iff fv, rat_zero] at hn
        exact (not_le.mp hn).le
      rw [stopRampVelocity_of_invalid hm hd he (.inl hle), narrow_zero, speedFits_zero]

namespace Controller

variable {cfg : Config} {c c' c₁ : Controller} {channel : SiChannel} {clock : TickClock}
  {follower : FollowerResult}

-- The steering that a stop repeats before any command was approved.
def ReportFits (c : Controller) : Prop :=
  c.hasApproved = false → c.hasSteering = true →
    angleFits c.currentSteering.steeringTireAngle = true

theorem stoppedPayload_sendable_iff {now : WallTime} {steady : SteadyTime}
    (hp : cfg.params.InRange) (ha : ∀ m ∈ c.approved, m.Sendable)
    (hs : c.supervision.latched = true → c.stopRamp.startedAt ≤ steady) :
    (c.stoppedPayload cfg now steady).Sendable ↔ c.ReportFits := by
  have hv : speedFits (c.stoppedPayload cfg now steady).longitudinal.velocity = true := by
    cases hl : c.supervision.latched
    case false => simpa [stoppedPayload, hl, stopControl] using speedFits_zero
    case true => simpa [stoppedPayload, hl] using speedFits_ramp hp (hs hl)
  have hc : speedFits (c.stoppedPayload cfg now steady).longitudinal.acceleration = true := by
    simpa [stoppedPayload, stopControl] using speedFits_braking hp
  have hz : angleFits (default : ControlMsg).lateral.steeringTireAngle = true := by decide
  have hzr : angleFits (default : ControlMsg).lateral.steeringTireRotationRate = true := by decide
  constructor
  case mp =>
    intro h hn hr
    simpa [stoppedPayload, stopControl, hn, hr] using (ControlMsg.sendable_iff.mp h).1
  case mpr =>
    intro hr
    rw [ControlMsg.sendable_iff]
    cases hap : c.hasApproved
    case true =>
      have hm : c.lastApproved ∈ c.approved := by simp [Outputs.approved, hap]
      obtain ⟨h₁, h₂, _⟩ := ControlMsg.sendable_iff.mp (ha c.lastApproved hm)
      refine ⟨?_, ?_, hv, hc⟩
      · simpa [stoppedPayload, stopControl, hap] using h₁
      · simpa [stoppedPayload, stopControl, hap] using h₂
    case false =>
      cases hst : c.hasSteering
      case true =>
        refine ⟨?_, ?_, hv, hc⟩
        · simpa [stoppedPayload, stopControl, hap, hst] using hr hap hst
        · simpa [stoppedPayload, stopControl, hap, hst] using hzr
      case false =>
        refine ⟨?_, ?_, hv, hc⟩
        · simpa [stoppedPayload, stopControl, hap, hst] using hz
        · simpa [stoppedPayload, stopControl, hap, hst] using hzr

-- The ramp of a latch that is closed is the one of before the tick, or the tick has captured it.
def Captured (clock : TickClock) (c c₁ : Controller) : Prop :=
  c₁.supervision.latched = true →
    c.supervision.latched = true ∧ c₁.stopRamp = c.stopRamp ∨
    ∃ latch ∈ [clock.stale, clock.siFault, clock.follower], c₁.stopRamp.startedAt = latch.steady

-- The one payload of a tick: a stopped one, VisionPilot's command, or a candidate of the follower.
inductive HandsOn (cfg : Config) (clock : TickClock) (follower : FollowerResult) (c : Controller) :
    Controller → Prop
  | stopped (d : Decision) (now : WallTime) (c₁ : Controller) (hd : d ≠ .normal)
    (hi : c₁.toInputs = c.toInputs) (ho : c₁.toOutputs = c.toOutputs) (hr : Captured clock c c₁) :
    HandsOn cfg clock follower c (c₁.publishApprovedRequest cfg d cfg.selectedSource
      (c₁.stoppedPayload cfg now clock.stop.steady) clock.publish)
  | command (c₁ : Controller) (hm : cfg.supervisionMode = .vpControl) (hc : c.hasVpCmd = true)
    (hp : c₁.published = c.published) (hl : c₁.supervision.latched = false) :
    HandsOn cfg clock follower c (c₁.publishApprovedRequest cfg .normal .vpCommand
      (vpToControl c.currentVpCmd clock.command) clock.publish)
  | follow (lat : LateralMsg) (lon : LongitudinalMsg) (c₁ : Controller)
    (hm : cfg.supervisionMode = .siControl) (hf : follower = .output lat lon)
    (hv : followerViolation cfg (candidate lat lon clock.command) = none)
    (hp : c₁.published = c.published) (hl : c₁.supervision.latched = false) :
    HandsOn cfg clock follower c (c₁.publishApprovedRequest cfg .normal .follower
      (candidate lat lon clock.command) clock.publish)

theorem HandsOn.of_eq {c₂ : Controller} (h : HandsOn cfg clock follower c₂ c')
    (hl : c₂.supervision.latched = false) (hi : c₂.toInputs = c.toInputs)
    (ho : c₂.toOutputs = c.toOutputs) : HandsOn cfg clock follower c c' := by
  have hpub := congrArg Outputs.published ho
  cases h
  case stopped d now c₁ hd hi' ho' hr =>
    refine .stopped d now c₁ hd (hi'.trans hi) (ho'.trans ho) fun hl₁ => .inr ?_
    exact (hr hl₁).resolve_left fun hn => by simp [hl] at hn
  case command c₁ hm hc hp hl₁ =>
    have he : c₂.currentVpCmd = c.currentVpCmd := congrArg Inputs.currentVpCmd hi
    rw [he]
    exact .command c₁ hm (hi ▸ hc) (hp.trans hpub) hl₁
  case follow lat lon c₁ hm hf hv hp hl₁ => exact .follow lat lon c₁ hm hf hv (hp.trans hpub) hl₁

theorem decideCycle_handsOn (hl : c.supervision.latched = false)
    (h : c.decideCycle cfg clock follower = some c') : HandsOn cfg clock follower c c' := by
  have hold : HandsOn cfg clock follower c (c.publishHold cfg clock) :=
    .stopped .hold clock.stop.wall c (by decide) rfl rfl fun hn => by simp [hl] at hn
  unfold decideCycle at h
  split at h
  case isTrue hm =>
    split at h
    case isTrue =>
      cases h
      exact hold
    case isFalse hc =>
      split at h
      case isTrue =>
        cases h
        exact hold
      case isFalse =>
        cases h
        exact .command _ hm (by simpa using hc) rfl hl
  case isFalse hm =>
    have hm : cfg.supervisionMode = .siControl := by
      cases hc : cfg.supervisionMode <;> simp_all
    split at h
    case h_1 =>
      cases h
      exact hold
    case h_2 =>
      split at h
      case h_1 =>
        cases h
        exact hold
      case h_2 => cases h
      case h_3 lat lon =>
        cases h
        simp only [publishControlCommand]
        split
        case h_1 why hv =>
          refine .stopped .siStop clock.stop.wall _ (by decide) (latchFault_toInputs ..)
            (latchFault_toOutputs ..) fun _ => .inr ⟨clock.follower, by simp, ?_⟩
          rw [latchFault_captured hl]
          rfl
        case h_2 hv => exact .follow lat lon c hm rfl hv rfl hl

theorem callbackTimerControl_handsOn
    (h : c.callbackTimerControl cfg channel clock follower = some c') :
    HandsOn cfg clock follower c c' := by
  have hi : (c.checked cfg channel clock).toInputs = c.toInputs := checked_toInputs
  have ho : (c.checked cfg channel clock).toOutputs = c.toOutputs := checked_toOutputs
  by_cases hl : (c.checked cfg channel clock).supervision.latched = true
  case neg =>
    rw [Bool.not_eq_true] at hl
    rw [callbackTimerControl_of_not_latched hl] at h
    exact (decideCycle_handsOn hl h).of_eq hl hi ho
  case pos =>
    by_cases hc : Clears cfg channel clock.now (c.checked cfg channel clock)
    case pos =>
      rw [callbackTimerControl_of_clears hc] at h
      exact (decideCycle_handsOn rfl h).of_eq rfl hi ho
    case neg =>
      rw [callbackTimerControl_of_stops hl hc] at h
      cases h
      refine .stopped .siStop clock.now ((c.checked cfg channel clock).expired cfg clock.now)
        (by decide) hi ho fun _ => ?_
      cases hlc : c.supervision.latched
      case true => exact .inl ⟨rfl, checked_stopRamp hlc⟩
      case false =>
        obtain ⟨latch, hm, hr⟩ := checked_captured hlc hl
        refine .inr ⟨latch, by grind, ?_⟩
        change (c.checked cfg channel clock).stopRamp.startedAt = _
        rw [hr]
        rfl

-- The rate of the follower that a tick of SI_CONTROL runs.
def RateFits (cfg : Config) (follower : FollowerResult) : Prop :=
  cfg.supervisionMode = .siControl → ∀ lat lon, follower = .output lat lon →
    angleFits lat.steeringTireRotationRate = true

-- What the ingress and the envelope leave unchecked of an output.
def OutputFits (cfg : Config) (c : Controller) (follower : FollowerResult) (p : Published) : Prop :=
  if p.approved.decision = Decision.normal.toUInt8 then RateFits cfg follower else c.ReportFits

end Controller

-- The stamps do not matter to the encoder.
def Published.Sendable (p : Published) : Prop :=
  p.approved.control.Sendable ∧ ∀ m ∈ p.can, m.Sendable

namespace Controller

variable {cfg : Config} {c c' c₁ : Controller} {channel : SiChannel} {clock : TickClock}
  {follower : FollowerResult}

theorem publication_sendable_iff {d : Decision} {source : SelectedSource} {m : ControlMsg}
    {now : WallTime} : (c.publication cfg d source m now).Sendable ↔ m.Sendable := by
  constructor
  case mp => exact fun h => h.1
  case mpr =>
    intro h
    refine ⟨h, fun n hn => ?_⟩
    simp only [publication] at hn
    split_ifs at hn
    · cases hn
      rw [ControlMsg.sendable_iff] at h ⊢
      exact h
    · cases hn

theorem command_sendable {cmd : DrivingCommandMsg} {now : WallTime} (hp : cfg.params.InRange)
    (h : cmd.WithinLimits cfg.params) : (vpToControl cmd now).Sendable := by
  have hv := cfg.params.velocityFinite.1
  have hz : angleFits 0 = true := by decide
  exact ControlMsg.sendable_iff.mpr
    ⟨angleFits_narrow h.steering cfg.params.steeringFinite.1 hp.steering, hz,
      speedFits_narrow (abs_le_of_between h.forward h.speed hv) hv hp.velocity,
      speedFits_narrow h.accel cfg.params.accelFinite.1 hp.accel⟩

theorem candidate_sendable_iff {lat : LateralMsg} {lon : LongitudinalMsg} {now : WallTime}
    (hp : cfg.params.InRange) (h : followerViolation cfg (candidate lat lon now) = none) :
    (candidate lat lon now).Sendable ↔ angleFits lat.steeringTireRotationRate = true := by
  obtain ⟨ha, hv, hc⟩ := envelopeViolation_eq_none.mp h
  have hv := speedFits_widen hv cfg.params.velocityFinite.1 hp.velocity
  have hc := speedFits_widen hc cfg.params.accelFinite.1 hp.accel
  have ha := angleFits_widen ha cfg.params.followerFinite hp.follower
  rw [ControlMsg.sendable_iff]
  exact ⟨fun h => h.2.1, fun hr => ⟨ha, hr, hv, hc⟩⟩

theorem publishApprovedRequest_stopRamp {d : Decision} {source : SelectedSource} {m : ControlMsg}
    {now : WallTime} : (c.publishApprovedRequest cfg d source m now).stopRamp = c.stopRamp := by
  unfold publishApprovedRequest
  split_ifs <;> rfl

theorem HandsOn.captured (h : HandsOn cfg clock follower c c') : Captured clock c c' := by
  intro hl
  cases h
  case stopped d now c₁ hd hi ho hr =>
    rw [publishApprovedRequest_supervision] at hl
    rw [publishApprovedRequest_stopRamp]
    exact hr hl
  case command c₁ hm hc hp hn => simp [hn] at hl
  case follow lat lon c₁ hm hf hv hp hn => simp [hn] at hl

theorem HandsOn.output (h : HandsOn cfg clock follower c c') (hp : cfg.params.InRange)
    (hv : c.Valid cfg)
    (hs : c.supervision.latched = true → c.stopRamp.startedAt ≤ clock.stop.steady)
    (hc : ∀ latch ∈ [clock.stale, clock.siFault, clock.follower],
      latch.steady ≤ clock.stop.steady) :
    ∃ p, c'.published = c.published ++ [p] ∧
      ((∀ m ∈ c.approved, m.Sendable) → (p.Sendable ↔ OutputFits cfg c follower p)) := by
  cases h
  case stopped d now c₁ hd hi ho hr =>
    have hpub : c₁.published = c.published := congrArg Outputs.published ho
    have happ : c₁.approved = c.approved := congrArg Outputs.approved ho
    refine ⟨_, by rw [publishApprovedRequest_published, hpub], fun ha => ?_⟩
    have hn : d.toUInt8 ≠ Decision.normal.toUInt8 := by
      cases d
      case normal => exact absurd rfl hd
      all_goals decide
    have hfits : c₁.ReportFits ↔ c.ReportFits := by
      rw [ReportFits, ReportFits, show c₁.hasApproved = c.hasApproved from
        congrArg Outputs.hasApproved ho, hi]
    rw [publication_sendable_iff, stoppedPayload_sendable_iff hp (happ ▸ ha), hfits]
    · exact (iff_of_eq (if_neg hn)).symm
    · intro hl
      obtain ⟨hl, hr⟩ | ⟨latch, hm, hr⟩ := hr hl
      · exact hr ▸ hs hl
      · exact hr ▸ hc latch hm
  case command c₁ hm hcmd hpub hl =>
    refine ⟨_, by rw [publishApprovedRequest_published, hpub], fun ha => ?_⟩
    rw [publication_sendable_iff]
    exact iff_of_true (command_sendable hp (hv.limits hcmd))
      ((iff_of_eq (if_pos rfl)).mpr fun hn => by simp [hm] at hn)
  case follow lat lon c₁ hm hf hvi hpub hl =>
    refine ⟨_, by rw [publishApprovedRequest_published, hpub], fun ha => ?_⟩
    rw [publication_sendable_iff, candidate_sendable_iff hp hvi]
    refine Iff.trans ?_ (iff_of_eq (if_pos rfl)).symm
    constructor
    case mp =>
      rintro hr - lat' lon' he
      rw [hf] at he
      cases he
      exact hr
    case mpr => exact fun hr => hr hm lat lon hf

-- The tick ends in its decision and not in the stop of a closed latch.
def Passes (cfg : Config) (channel : SiChannel) (clock : TickClock) (c : Controller) : Prop :=
  (c.checked cfg channel clock).supervision.latched = true →
    Clears cfg channel clock.now (c.checked cfg channel clock)

-- What a decision approves: a command of VisionPilot, or an output of the follower in its envelope.
def Admits (cfg : Config) (clock : TickClock) (follower : FollowerResult) (c : Controller) : Prop :=
  match cfg.supervisionMode with
  | .vpControl => c.hasVpCmd = true ∧ c.feedbackSeen = true
  | .siControl => c.processData = true ∧ ∃ lat lon, follower = .output lat lon ∧
      followerViolation cfg (candidate lat lon clock.command) = none

structure Approves (cfg : Config) (channel : SiChannel) (clock : TickClock)
    (follower : FollowerResult) (c : Controller) : Prop where
  passes : c.Passes cfg channel clock
  admits : c.Admits cfg clock follower

theorem decision_of_published {d : Decision} {source : SelectedSource} {m : ControlMsg}
    {now : WallTime} {p : Published} (ho : c₁.published = c.published)
    (hp : (c₁.publishApprovedRequest cfg d source m now).published = c.published ++ [p]) :
    p.approved.decision = Decision.normal.toUInt8 ↔ d = .normal := by
  rw [publishApprovedRequest_published, ho] at hp
  have hp := List.singleton_inj.mp (List.append_cancel_left hp)
  have hd : p.approved.decision = d.toUInt8 := by
    rw [← hp]
    rfl
  rw [hd]
  cases d <;> decide

theorem decideCycle_admits {p : Published} (h : c.decideCycle cfg clock follower = some c')
    (hp : c'.published = c.published ++ [p]) :
    p.approved.decision = Decision.normal.toUInt8 ↔ c.Admits cfg clock follower := by
  have hold (hp : (c.publishHold cfg clock).published = c.published ++ [p]) :
      ¬p.approved.decision = Decision.normal.toUInt8 := by
    rw [decision_of_published rfl hp]
    decide
  unfold decideCycle at h
  unfold Admits
  split at h
  case isTrue hm =>
    simp only [hm]
    split at h
    case isTrue hn =>
      cases h
      exact iff_of_false (hold hp) fun ha => by simp [ha.1] at hn
    case isFalse hn =>
      split at h
      case isTrue hs =>
        cases h
        exact iff_of_false (hold hp) fun ha => by simp [ha.2] at hs
      case isFalse hs =>
        cases h
        exact iff_of_true ((decision_of_published rfl hp).mpr rfl)
          ⟨by simpa using hn, by simpa using hs⟩
  case isFalse hm =>
    have hm : cfg.supervisionMode = .siControl := by
      cases hc : cfg.supervisionMode <;> simp_all
    simp only [hm]
    split at h
    case h_1 hi =>
      cases h
      exact iff_of_false (hold hp) fun ha => by simp [Inputs.createInputData, ha.1] at hi
    case h_2 hi =>
      have hd : c.processData = true := by
        simp only [Inputs.createInputData] at hi
        split_ifs at hi with hd
        simpa using hd
      split at h
      case h_1 =>
        cases h
        exact iff_of_false (hold hp) fun ha => by simp at ha
      case h_2 => cases h
      case h_3 lat lon =>
        cases h
        simp only [publishControlCommand] at hp
        split at hp
        case h_1 why hv =>
          refine iff_of_false ?_ fun ha => ?_
          · rw [decision_of_published (congrArg Outputs.published (latchFault_toOutputs ..)) hp]
            decide
          · obtain ⟨-, lat', lon', he, hn⟩ := ha
            cases he
            simp [hv] at hn
        case h_2 hv =>
          exact iff_of_true ((decision_of_published rfl hp).mpr rfl) ⟨hd, lat, lon, rfl, hv⟩

theorem callbackTimerControl_approves {p : Published}
    (h : c.callbackTimerControl cfg channel clock follower = some c')
    (hp : c'.published = c.published ++ [p]) :
    p.approved.decision = Decision.normal.toUInt8 ↔ c.Approves cfg channel clock follower := by
  have hi : (c.checked cfg channel clock).toInputs = c.toInputs := checked_toInputs
  have ho : (c.checked cfg channel clock).published = c.published :=
    congrArg Outputs.published checked_toOutputs
  have admits {c₂ : Controller} (he : c₂.toInputs = c.toInputs) :
      c₂.Admits cfg clock follower ↔ c.Admits cfg clock follower := by
    rw [Admits, Admits, he]
  by_cases hl : (c.checked cfg channel clock).supervision.latched = true
  case neg =>
    rw [callbackTimerControl_of_not_latched (by simpa using hl)] at h
    rw [decideCycle_admits h (ho ▸ hp), admits hi]
    exact ⟨fun ha => ⟨fun hn => absurd hn hl, ha⟩, Approves.admits⟩
  case pos =>
    by_cases hc : Clears cfg channel clock.now (c.checked cfg channel clock)
    case pos =>
      rw [callbackTimerControl_of_clears hc] at h
      have hp : c'.published = (c.checked cfg channel clock).cleared.published ++ [p] :=
        hp.trans (congrArg (· ++ [p]) ho.symm)
      have hi : (c.checked cfg channel clock).cleared.toInputs = c.toInputs := hi
      rw [decideCycle_admits h hp, admits hi]
      exact ⟨fun ha => ⟨fun _ => hc, ha⟩, Approves.admits⟩
    case neg =>
      rw [callbackTimerControl_of_stops hl hc] at h
      cases h
      refine iff_of_false ?_ fun ha => hc (ha.passes hl)
      have ho : ((c.checked cfg channel clock).expired cfg clock.now).published = c.published := ho
      rw [decision_of_published ho hp]
      decide

end Controller

namespace Published

variable {l : List Published} {m : ControlMsg}

theorem exists_of_lastNormal (h : lastNormal l = some m) : ∃ p ∈ l, p.approved.control = m := by
  obtain ⟨p, hp, rfl⟩ := Option.map_eq_some_iff.mp h
  exact ⟨p, List.mem_reverse.mp (List.mem_of_find?_eq_some hp), rfl⟩

end Published

namespace System

variable [Libm Float] {cfg : Config} {s s' : System} {e : Event} {es : List Event}
  {clock : TickClock} {follower : FollowerResult}

-- The number that a tick repeats unchecked can be sent: the follower's rate when the tick approves,
-- and else the steering report.
def Fits (cfg : Config) (s : System) (e : Event) (_ : System) : Prop :=
  ∀ clock follower, e = .tick clock follower →
    (s.controller.Approves cfg s.channel clock follower → Controller.RateFits cfg follower) ∧
    (¬s.controller.Approves cfg s.channel clock follower → s.controller.ReportFits)

-- The ramp of a closed latch was captured at an event of the past.
def Started (es : List Event) (c : Controller) : Prop :=
  c.supervision.latched = true →
    ∃ e ∈ es, ∃ latch ∈ e.latches, c.stopRamp.startedAt = latch.steady

omit [Libm Float] in
theorem Started.past {c : Controller} (h : Started es c)
    (hs : SafetyIsland.Steady (es ++ [.tick clock follower])) :
    (c.supervision.latched = true → c.stopRamp.startedAt ≤ clock.stop.steady) ∧
    ∀ latch ∈ [clock.stale, clock.siFault, clock.follower], latch.steady ≤ clock.stop.steady := by
  unfold SafetyIsland.Steady at hs
  rw [List.flatMap_append, List.pairwise_append] at hs
  have hstop : clock.stop.steady ∈ [Event.tick clock follower].flatMap Event.steady := by
    simp [Event.steady, Event.stop]
  constructor
  case left =>
    intro hl
    obtain ⟨e, he, latch, hm, hr⟩ := h hl
    rw [hr]
    refine hs.2.2 _ (List.mem_flatMap.mpr ⟨e, he, ?_⟩) _ hstop
    exact List.mem_append_left _ (List.mem_map_of_mem hm)
  case right =>
    intro latch hm
    have hp := hs.2.1
    simp only [List.flatMap_cons, List.flatMap_nil, List.append_nil, Event.steady, Event.stop,
      Event.latches, Option.toList] at hp
    rw [List.pairwise_append] at hp
    exact hp.2.2 _ (List.mem_map_of_mem hm) _ (by simp)

omit [Libm Float] in
theorem Started.weaken {c : Controller} (h : Started es c) : Started (es ++ [e]) c := by
  intro hl
  obtain ⟨e', he, hr⟩ := h hl
  exact ⟨e', List.mem_append_left _ he, hr⟩

theorem step_started (h : s.step cfg e = some s') (hs : Started es s.controller) :
    Started (es ++ [e]) s'.controller := by
  cases e
  case receive msg clock =>
    cases h
    intro hl
    cases hlc : s.controller.supervision.latched
    case true =>
      change ∃ e ∈ es ++ [Event.receive msg clock], ∃ latch ∈ Event.latches e,
        (s.controller.receive cfg clock msg).stopRamp.startedAt = latch.steady
      rw [Controller.receive_stopRamp hlc]
      exact hs.weaken hlc
    case false =>
      refine ⟨.receive msg clock, by simp, clock.latch, by simp [Event.latches], ?_⟩
      change (s.controller.receive cfg clock msg).stopRamp.startedAt = _
      rw [Controller.receive_captures hlc hl]
      rfl
  case siRx =>
    cases h
    exact hs.weaken
  case tick clock follower =>
    obtain ⟨c, hc, h⟩ := Option.bind_eq_some_iff.mp h
    cases h
    intro hl
    obtain ⟨hls, hr⟩ | ⟨latch, hm, hr⟩ := (Controller.callbackTimerControl_handsOn hc).captured hl
    case inl =>
      rw [hr]
      exact hs.weaken hls
    case inr => exact ⟨.tick clock follower, by simp, latch, hm, hr⟩

theorem step_sends (he : s.step cfg e = some s') (hp : cfg.params.InRange)
    (hv : s.controller.Valid cfg) (hs : Started es s.controller)
    (ht : SafetyIsland.Steady (es ++ [e])) :
    ∃ l, s'.controller.published = s.controller.published ++ l ∧
      ((∀ m ∈ s.controller.approved, m.Sendable) →
        ((∀ p ∈ l, p.Sendable) ↔ Fits cfg s e s')) := by
  cases e
  case receive msg clock =>
    cases he
    refine ⟨[], by rw [List.append_nil]; exact Controller.receive_published, ?_⟩
    exact fun _ => iff_of_true (by simp) fun _ _ h => by cases h
  case siRx =>
    cases he
    refine ⟨[], (List.append_nil _).symm, ?_⟩
    exact fun _ => iff_of_true (by simp) fun _ _ h => by cases h
  case tick clock follower =>
    obtain ⟨c, hc, h⟩ := Option.bind_eq_some_iff.mp he
    cases h
    have hpast := hs.past ht
    obtain ⟨p, hpub, hi⟩ :=
      (Controller.callbackTimerControl_handsOn hc).output hp hv hpast.1 hpast.2
    refine ⟨[p], hpub, fun ha => ?_⟩
    have hn := Controller.callbackTimerControl_approves hc hpub
    rw [List.forall_mem_singleton, hi ha]
    constructor
    case mp =>
      intro hf clock' follower' h
      cases h
      exact ⟨fun ha => (if_pos (hn.mpr ha)).mp hf, fun ha => (if_neg (mt hn.mp ha)).mp hf⟩
    case mpr =>
      intro hf
      unfold Controller.OutputFits
      split_ifs with h
      · exact (hf clock follower rfl).1 (hn.mp h)
      · exact (hf clock follower rfl).2 (mt hn.mpr h)

-- Sending and fitting, along the run.
structure Sends (cfg : Config) (es : List Event) (s : System) : Prop where
  run     : Run (System.step cfg) .init es s
  started : Started es s.controller
  fits    : SafetyIsland.Steady es → ((∀ p ∈ s.controller.published, p.Sendable) ↔
    Along (System.step cfg) (Fits cfg) .init es s)

theorem Sends.step (h : Sends cfg es s) (hp : cfg.params.InRange) (he : s.step cfg e = some s') :
    Sends cfg (es ++ [e]) s' := by
  refine ⟨h.run.append (.single he trivial), step_started he h.started, fun ht => ?_⟩
  have ih := h.fits (ht.sublist (by simp [List.flatMap_append]))
  obtain ⟨l, hl, hf⟩ := step_sends he hp (run_valid h.run) h.started ht
  have approved (h₀ : ∀ p ∈ s.controller.published, p.Sendable) :
      ∀ m ∈ s.controller.approved, m.Sendable := by
    have hk : s.controller.approved = _ := run_keeps_approved h.run
    intro m hm
    obtain ⟨p, hp, rfl⟩ := Published.exists_of_lastNormal (hk ▸ hm)
    exact (h₀ p hp).1
  rw [hl, List.forall_mem_append]
  constructor
  case mp =>
    rintro ⟨h₀, h₁⟩
    exact (ih.mp h₀).append (.single he ((hf (approved h₀)).mp h₁))
  case mpr =>
    intro ha
    obtain ⟨s₁, h₁, h₂⟩ := ha.split
    cases h₁.deterministic h.run
    have h₀ := ih.mpr h₁
    refine ⟨h₀, (hf (approved h₀)).mpr ?_⟩
    cases h₂
    case cons he' q h₂ =>
      cases he.symm.trans he'
      exact q

theorem sends_iff_fits (hp : cfg.params.InRange) (hr : Run (System.step cfg) .init es s)
    (ht : SafetyIsland.Steady es) :
    (∀ p ∈ s.controller.published, p.Sendable) ↔
      Along (System.step cfg) (Fits cfg) .init es s := by
  have h : Sends cfg es s := by
    refine hr.history (P := Sends cfg) (fun he _ h => h.step hp he) ⟨.nil, ?_, ?_⟩
    case refine_1 => exact fun hl => by cases hl
    case refine_2 => exact fun _ => iff_of_true (fun _ hm => by cases hm) .nil
  exact h.fits ht

end System

namespace Sample

theorem inRange : (Params.declared 1.5).InRange where
  steering := by decide +kernel
  follower := by decide +kernel
  velocity := by decide +kernel
  accel    := by decide +kernel
  braking  := by decide +kernel
  decel    := by decide +kernel

end Sample

namespace System

open Sample in
theorem sends_iff_fits_command :
    let cfg := config .vpControl .vp
    let es := feedback 1 ++ [message 1 (command 1 0.25), tick 1 .notReady]
    (∀ p ∈ (after cfg es).controller.published, p.Sendable) ↔
      Along (System.step cfg) (Fits cfg) .init es (after cfg es) :=
  sends_iff_fits inRange (run_after (by decide +kernel)) (by decide +kernel)

-- A run in which the encoder drops a payload with the decision `d`.
def Drops (cfg : Config) (d : Decision) (es : List Event) : Prop :=
  cfg.params.InRange ∧ SafetyIsland.Steady es ∧
  Run (System.step cfg) .init es (Sample.after cfg es) ∧
  ∃ p ∈ (Sample.after cfg es).controller.published, p.approved.decision = d.toUInt8 ∧
    ¬p.Sendable ∧ ∀ mode sequence, mode.usesCan = true →
      (encodeControlCommand p.approved.control mode sequence).isOk = false

theorem Drops.of_unfit {d : Decision} (hp : cfg.params.InRange) (ht : SafetyIsland.Steady es)
    (hr : Run (System.step cfg) .init es (Sample.after cfg es))
    (h : ∃ p ∈ (Sample.after cfg es).controller.published, p.approved.decision = d.toUInt8 ∧
      (angleFits p.approved.control.lateral.steeringTireAngle &&
        angleFits p.approved.control.lateral.steeringTireRotationRate) = false) :
    Drops cfg d es := by
  obtain ⟨p, hm, hd, hf⟩ := h
  refine ⟨hp, ht, hr, p, hm, hd, fun hs => ?_, fun mode sequence hu => ?_⟩
  · obtain ⟨ha, hr, -⟩ := ControlMsg.sendable_iff.mp hs.1
    simp [ha, hr] at hf
  · rw [← Bool.not_eq_true, encodeControlCommand, CommandFields.encode_isOk hu]
    rintro ⟨ha, hr, -⟩
    rw [Bool.and_eq_false_iff] at hf
    rcases hf with hf | hf
    · exact absurd (hf.symm.trans ha) (by decide)
    · exact absurd (hf.symm.trans hr) (by decide)

-- Before the first approval a tick repeats a report that is no number, and a stop repeats the
-- infinite rate that a tick has approved.
open Sample in
theorem stop_unsendable :
    Drops (config .vpControl .vp) .hold [message 1 (steering (0 / 0)), tick 1 .notReady] ∧
    Drops (config .siControl .autoware) .siStop
      (feedback 1 ++ [message 1 (trajectory 1),
        tick 1 (.output { (default : LateralMsg) with steeringTireRotationRate := 1 / 0 } default),
        tick 3 .notReady]) := by
  constructor
  case left =>
    exact .of_unfit inRange (by decide +kernel) (run_after (by decide +kernel)) (by decide +kernel)
  case right =>
    exact .of_unfit inRange (by decide +kernel) (run_after (by decide +kernel)) (by decide +kernel)

end System
end SafetyIsland

import SafetyIsland.Controller.Cycle

namespace SafetyIsland

open Ieee Supervision Transition

-- The payload of an approved request, with VisionPilot's bounds as the floats they are sent as.
def ControlMsg.InEnvelope (cfg : Config) (m : ControlMsg) : Prop :=
  let p := cfg.params
  let angle := m.lateral.steeringTireAngle
  let velocity := m.longitudinal.velocity
  let acceleration := m.longitudinal.acceleration
  (IsFinite angle ∧ IsFinite velocity ∧ IsFinite acceleration) ∧
  match cfg.supervisionMode with
  | .vpControl =>
    angle.abs ≤ narrow p.maxSteeringRad ∧ 0 ≤ velocity ∧ velocity ≤ narrow p.maxAbsVelocityMps ∧
    acceleration.abs ≤ narrow p.maxAbsAccelMps2
  | .siControl =>
    (widen angle).abs ≤ p.followerMaxSteerRad + 1e-3 ∧ (widen velocity).abs ≤ p.maxAbsVelocityMps ∧
    (widen acceleration).abs ≤ p.maxAbsAccelMps2

namespace Controller

variable {cfg : Config} {c c' c₂ : Controller} {channel : SiChannel} {clock : TickClock}

theorem feedbackSeen_of_processData (hv : c.Valid cfg) (hd : c.processData = true) :
    c.feedbackSeen = true := by
  simp only [Inputs.processData, Bool.and_eq_true] at hd
  simp only [Inputs.feedbackSeen, ← hv.odometry, ← hv.accel, ← hv.steering, ← hv.opmode]
  simp [hd]

theorem inEnvelope_command (hm : cfg.supervisionMode = .vpControl) {cmd : DrivingCommandMsg}
    (hl : cmd.WithinLimits cfg.params) (now : WallTime) :
    (vpToControl cmd now).InEnvelope cfg := by
  have ⟨fs, hs⟩ := narrow_abs_le hl.steering cfg.params.steeringFinite.1
    cfg.params.steeringFinite.2
  have ⟨fa, ha⟩ := narrow_abs_le hl.accel cfg.params.accelFinite.1 cfg.params.accelFinite.2
  have h₀ := narrow_mono hl.forward
  have hv := narrow_mono hl.speed
  have fv : IsFinite (narrow cmd.targetSpeedMps) :=
    isFinite_of_le_of_le32 h₀ hv (by decide) cfg.params.velocityFinite.2
  rw [ControlMsg.InEnvelope, hm]
  exact ⟨⟨fs, fv, fa⟩, hs, h₀, hv, ha⟩

theorem inEnvelope_follow (hm : cfg.supervisionMode = .siControl) {m : ControlMsg}
    (hv : followerViolation cfg m = none) : m.InEnvelope cfg := by
  have ⟨hs, hsp, ha⟩ := envelopeViolation_eq_none.mp hv
  have fs := (abs_le_bound hs cfg.params.followerFinite).1
  have fv := (abs_le_bound hsp cfg.params.velocityFinite.1).1
  have fa := (abs_le_bound ha cfg.params.accelFinite.1).1
  rw [ControlMsg.InEnvelope, hm]
  exact ⟨⟨isFinite_widen.mp fs, isFinite_widen.mp fv, isFinite_widen.mp fa⟩, hs, hsp, ha⟩

theorem selected_ever (hv : c.Valid cfg) (hd : c.processData = true)
    (hm : cfg.supervisionMode = .siControl) : (c.selected cfg).watch.ever = true := by
  simp only [Inputs.processData, Bool.and_eq_true] at hd
  simp [Inputs.selected, hm, ← hv.trajectory, hd]

theorem Ticks.normal (hv : c.Valid cfg) (h : Ticks cfg channel clock c c')
    {l : List Published} (hp : c'.published = c.published ++ l) {p : Published} (hm : p ∈ l)
    (hn : p.approved.decision = Decision.normal.toUInt8) :
    c'.supervision.latched = false ∧ p.approved.faultId = 0 ∧ c.AllFresh cfg clock.now ∧
    p.approved.control.InEnvelope cfg := by
  cases h
  case stops =>
    rw [eq_publication hp (by simp [expired]) hm] at hn
    cases hn
  case decides c₂ hr hd =>
    have hl := hr.not_latched
    have hi : c₂.toInputs = c.toInputs := hr.toInputs_eq.trans checked_toInputs
    have ho : c₂.published = c.published := by rw [hr.toOutputs_eq, checked_toOutputs]
    cases hd
    case hold =>
      rw [eq_publication hp ho hm] at hn
      cases hn
    case violation =>
      rw [eq_publication hp (by simp [ho]) hm] at hn
      cases hn
    case command hmode hc hs =>
      rw [hi] at hc hs
      have he : (c.selected cfg).watch.ever = true := by
        simp [Inputs.selected, hmode, ← hv.command, hc]
      rw [eq_publication hp ho hm]
      refine ⟨by simpa using hl, by simp [publication, hl],
        allFresh_of_not_stale (fun _ => hr.not_stale) hs he, ?_⟩
      rw [hi]
      exact inEnvelope_command hmode (hv.limits hc) _
    case follow hmode hd hvi =>
      rw [hi] at hd
      rw [eq_publication hp ho hm]
      exact ⟨by simpa using hl, by simp [publication, hl],
        allFresh_of_not_stale (fun _ => hr.not_stale) (feedbackSeen_of_processData hv hd)
          (selected_ever hv hd hmode),
        inEnvelope_follow hmode hvi⟩

theorem callbackTimerControl_of_stale {s : SiChannel} {f : FollowerResult} {check : SourceCheck}
    (hm : check ∈ c.feedback cfg ++ [c.selected cfg])
    (hs : check.watch.stale clock.now.seconds check.timeout = true) :
    ∃ c', c.callbackTimerControl cfg s clock f = some c' ∧
      c'.supervision.latched = true ∧ ∃ p, c'.published = c.published ++ [p] ∧
      p.approved.decision = Decision.siStop.toUInt8 ∧
      p.approved.faultId = .ofNat c'.supervision.faultId := by
  have ⟨r, hr⟩ := Option.isSome_iff_exists.mp (supervisorStaleReason_isSome hm hs)
  have hl : (c.checked cfg s clock).supervision.latched = true := checked_latched_of_stale hr
  have hn : ¬Clears cfg s clock.now (c.checked cfg s clock) := by
    intro hc
    have hf := hc.fresh
    rw [checked_toInputs, allSourcesFresh_iff] at hf
    simp [hf.2.1 check hm] at hs
  let c₁ := (c.checked cfg s clock).expired cfg clock.now
  have ho : c₁.published = c.published := congrArg Outputs.published checked_toOutputs
  have hp := publishApprovedRequest_published cfg c₁ .siStop cfg.selectedSource
    (c₁.stoppedPayload cfg clock.now clock.stop.steady) clock.publish
  have h₁ : c₁.supervision.latched = true := hl
  refine ⟨_, callbackTimerControl_of_stops hl hn, by simpa [publishSiStop] using h₁, _,
    hp.trans (congrArg (· ++ [_]) ho), rfl, ?_⟩
  rw [publishSiStop, publishApprovedRequest_supervision]
  exact if_pos h₁

end Controller

namespace System

section

variable {cfg : Config} {s s' : System} {es : List Event} [Libm Float]

theorem step_valid {e : Event} (hv : s.controller.Valid cfg) (h : s.step cfg e = some s') :
    s'.controller.Valid cfg := by
  cases e
  case receive => cases h; exact Controller.receive_valid hv
  case siRx => cases h; exact hv
  case tick =>
    have ⟨c, hc, h⟩ := Option.bind_eq_some_iff.mp h
    cases h
    rwa [(Controller.callbackTimerControl_ticks hc).toInputs_eq]

theorem run_valid (hr : Run (System.step cfg) .init es s) : s.controller.Valid cfg :=
  hr.invariant (P := fun s => s.controller.Valid cfg) (fun h _ hv => step_valid hv h) .init

theorem gate_sound (hr : Run (System.step cfg) .init es s) (clock : TickClock)
    (follower : FollowerResult) :
    (∀ {s' l p}, s.step cfg (.tick clock follower) = some s' →
      s'.controller.published = s.controller.published ++ l → p ∈ l →
      p.approved.decision = Decision.normal.toUInt8 →
      s'.controller.supervision.latched = false ∧ p.approved.faultId = 0 ∧
      s.controller.AllFresh cfg clock.now ∧ p.approved.control.InEnvelope cfg) ∧
    (∀ check ∈ s.controller.feedback cfg ++ [s.controller.selected cfg],
      check.watch.stale clock.now.seconds check.timeout = true →
      ∃ s' p, s.step cfg (.tick clock follower) = some s' ∧
        s'.controller.supervision.latched = true ∧
        s'.controller.published = s.controller.published ++ [p] ∧
        p.approved.decision = Decision.siStop.toUInt8 ∧
        p.approved.faultId = .ofNat s'.controller.supervision.faultId) := by
  constructor
  case left =>
    intro s' l p h hp hm hn
    have ⟨c, hc, h⟩ := Option.bind_eq_some_iff.mp h
    cases h
    exact (Controller.callbackTimerControl_ticks hc).normal (run_valid hr) hp hm hn
  case right =>
    intro check hm hs
    have ⟨c, hc, hl, p, hp, hd, hf⟩ :=
      Controller.callbackTimerControl_of_stale (s := s.channel) (f := follower) hm hs
    exact ⟨{ s with controller := c }, p, Option.bind_eq_some_iff.mpr ⟨c, hc, rfl⟩, hl, hp, hd, hf⟩

end

open Sample in
theorem gate_sound_command :
    let cfg := config .vpControl .vp
    let s := after cfg (feedback 1 ++ [message 1 (command 1 0.25)])
    let s' := after cfg (feedback 1 ++ [message 1 (command 1 0.25)] ++ [tick 1 .notReady])
    s'.controller.published ≠ [] ∧ ∀ p ∈ s'.controller.published,
      p.approved.decision = Decision.normal.toUInt8 ∧
      s'.controller.supervision.latched = false ∧ p.approved.faultId = 0 ∧
      s.controller.AllFresh cfg (second 1).wall ∧ p.approved.control.InEnvelope cfg := by
  intro cfg s s'
  have h₀ : s.controller.published = [] := by decide +kernel
  have hn : ∀ p ∈ s'.controller.published, p.approved.decision = Decision.normal.toUInt8 := by
    decide +kernel
  refine ⟨by decide +kernel, fun p hm => ⟨hn p hm, ?_⟩⟩
  exact (gate_sound (run_after (by decide)) (clock 1) _).1 (step_after (by decide))
    (by rw [h₀, List.nil_append]) hm (hn p hm)

end System
end SafetyIsland

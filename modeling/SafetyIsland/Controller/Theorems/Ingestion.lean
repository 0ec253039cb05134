import SafetyIsland.Controller.Ingress

namespace SafetyIsland

open Ieee Supervision

namespace Controller

variable {cfg : Config} {c c' : Controller} {clock : CallbackClock}

theorem callbackTrajectory_of_accepts {msg : Option TrajectoryMsgRaw} {stamp : TimeMsg}
    {points : List TrajectoryPointMsg} (h : AcceptsTrajectory cfg c msg stamp points) :
    c.callbackTrajectory cfg msg clock = .ok (c.storeTrajectory stamp points clock.now) := by
  unfold callbackTrajectory
  simp only [h.selected, h.runnable, h.finite, h.identity, ne_eq, not_true_eq_false, or_self,
    if_false, Bool.not_true, Bool.false_eq_true]
  rfl

-- What a message that is not stored may still change: the latch with its reason and ramp, the
-- pending press, and the count of ignored references.
def Unstored (c c' : Controller) : Prop :=
  ∃ supervision stopRamp reenable vpReferenceRejects, c' =
    { c with
      supervision        := supervision
      stopRamp           := stopRamp
      reenable           := reenable
      vpReferenceRejects := vpReferenceRejects }

theorem Unstored.refl : Unstored c c :=
  ⟨_, _, _, _, rfl⟩

theorem Unstored.latchFault {why : String} {clock : ClockReading} :
    Unstored c (c.latchFault cfg why clock) := by
  unfold Controller.latchFault
  split_ifs <;> exact ⟨_, _, _, _, rfl⟩

theorem Unstored.ignoreReference : Unstored c c.ignoreReference :=
  ⟨_, _, _, _, rfl⟩

theorem receive_eq [Libm Float] {msg : Message} (h : c.ingest cfg clock msg = .ok c') :
    c.receive cfg clock msg = c' := by
  simp only [receive, h]

theorem receive_unstored [Libm Float] {msg : Message} {why : String}
    (h : c.ingest cfg clock msg = .error why) : Unstored c (c.receive cfg clock msg) := by
  simp only [receive, h]
  exact .latchFault

theorem receive_trajectory [Libm Float] (msg : Option TrajectoryMsgRaw) :
    (∃ stamp points, AcceptsTrajectory cfg c msg stamp points ∧
      c.receive cfg clock (.trajectory msg) = c.storeTrajectory stamp points clock.now) ∨
    (∀ stamp points, ¬AcceptsTrajectory cfg c msg stamp points) ∧
      Unstored c (c.receive cfg clock (.trajectory msg)) := by
  cases h : c.ingest cfg clock (.trajectory msg)
  case ok c' =>
    rw [receive_eq h]
    rcases callbackTrajectory_ok h with ⟨stamp, points, ha, rfl⟩ | ⟨hn, rfl⟩
    case inl => exact .inl ⟨stamp, points, ha, rfl⟩
    case inr => exact .inr ⟨hn, .refl⟩
  case error why =>
    refine .inr ⟨fun stamp points ha => ?_, receive_unstored h⟩
    cases h.symm.trans (callbackTrajectory_of_accepts ha)

theorem receive_drivingReference [Libm Float] (msg : Option DrivingReferenceMsg) :
    (∃ r horizon ego points, msg = some r ∧ AcceptsReference cfg c r horizon ego points ∧
      c.receive cfg clock (.drivingReference msg) = c.storeReference r points clock.now) ∨
    (∀ r horizon ego points, msg = some r → ¬AcceptsReference cfg c r horizon ego points) ∧
      Unstored c (c.receive cfg clock (.drivingReference msg)) := by
  cases h : c.ingest cfg clock (.drivingReference msg)
  case ok c' =>
    rw [receive_eq h]
    rcases callbackDrivingReference_ok h with ⟨r, horizon, ego, points, hm, ha, rfl⟩ | ⟨hn, hc⟩
    case inl => exact .inl ⟨r, horizon, ego, points, hm, ha, rfl⟩
    case inr =>
      refine .inr ⟨hn, ?_⟩
      rcases hc with rfl | rfl
      case inl => exact .refl
      case inr => exact .ignoreReference
  case error why =>
    refine .inr ⟨fun r horizon ego points hm ha => ?_, receive_unstored h⟩
    cases hm
    cases h.symm.trans (callbackDrivingReference_of_accepts ha)

theorem receive_drivingCommand [Libm Float] (msg : DrivingCommandMsg) :
    AcceptsCommand cfg c msg ∧
      c.receive cfg clock (.drivingCommand msg) = c.storeCommand msg clock.now ∨
    ¬AcceptsCommand cfg c msg ∧ Unstored c (c.receive cfg clock (.drivingCommand msg)) := by
  cases h : c.ingest cfg clock (.drivingCommand msg)
  case ok c' =>
    rw [receive_eq h]
    rcases callbackDrivingCommand_ok h with ⟨ha, rfl⟩ | ⟨hn, rfl⟩
    case inl => exact .inl ⟨ha, rfl⟩
    case inr => exact .inr ⟨hn, .refl⟩
  case error why =>
    refine .inr ⟨fun ha => ?_, receive_unstored h⟩
    cases h.symm.trans (callbackDrivingCommand_of_accepts ha)

-- A message of the three ingress paths replaces the identity, the watch and the payload together
-- with its own content, or it replaces none of them.
theorem ingress_atomic [Libm Float] (cfg : Config) (c : Controller) (clock : CallbackClock) :
    (∀ msg, let c' := c.receive cfg clock (.trajectory msg)
      (∃ stamp points, AcceptsTrajectory cfg c msg stamp points ∧
        c'.autowareTrajectoryIdentity ≠ c.autowareTrajectoryIdentity ∧
        c' = { c with
          currentTrajectory          := { stamp := stamp, points := points }
          hasTrajectory              := true
          autowareTrajectoryIdentity := .note stamp
          watchCandidate             := .note clock.now.seconds }) ∨
      (∀ stamp points, ¬AcceptsTrajectory cfg c msg stamp points) ∧ Unstored c c') ∧
    (∀ msg, let c' := c.receive cfg clock (.drivingReference msg)
      (∃ r horizon ego points, msg = some r ∧ AcceptsReference cfg c r horizon ego points ∧
        c'.vpCandidateIdentity ≠ c.vpCandidateIdentity ∧
        c' = { c with
          currentTrajectory     :=
            { stamp := r.sourceStamp, points := points.map referencePoint }
          hasTrajectory         := true
          vpCandidateIdentity   := c.vpCandidateIdentity.note r.session r.cycle r.sourceStamp
          acceptedSourceSession := r.session
          acceptedSourceCycle   := r.cycle
          watchCandidate        := .note clock.now.seconds }) ∨
      (∀ r horizon ego points, msg = some r → ¬AcceptsReference cfg c r horizon ego points) ∧
        Unstored c c') ∧
    ∀ msg, let c' := c.receive cfg clock (.drivingCommand msg)
      AcceptsCommand cfg c msg ∧
        c'.vpCandidateIdentity ≠ c.vpCandidateIdentity ∧
        c' = { c with
          vpCandidateIdentity := c.vpCandidateIdentity.note msg.session msg.cycle msg.sourceStamp
          currentVpCmd        := msg
          hasVpCmd            := true
          watchVpCmd          := .note clock.now.seconds } ∨
      ¬AcceptsCommand cfg c msg ∧ Unstored c c' := by
  refine ⟨fun msg => ?_, fun msg => ?_, fun msg => ?_⟩
  case refine_1 =>
    rcases receive_trajectory msg with ⟨stamp, points, ha, hc⟩ | hn
    case inl =>
      refine .inl ⟨stamp, points, ha, ?_, hc⟩
      rw [hc]
      exact AutowareTrajectoryIdentity.note_ne ha.identity
    case inr => exact .inr hn
  case refine_2 =>
    rcases receive_drivingReference msg with ⟨r, horizon, ego, points, hm, ha, hc⟩ | hn
    case inl =>
      refine .inl ⟨r, horizon, ego, points, hm, ha, ?_, hc⟩
      rw [hc]
      exact VpCandidateIdentity.note_ne ha.identity
    case inr => exact .inr hn
  case refine_3 =>
    rcases receive_drivingCommand msg with ⟨ha, hc⟩ | hn
    case inl =>
      refine .inl ⟨ha, ?_, hc⟩
      rw [hc]
      exact VpCandidateIdentity.note_ne ha.identity
    case inr => exact .inr hn

end Controller

namespace DrivingReferenceMsg

-- VisionPilot marks the reference usable, and its horizon has samples.
structure MarkedUsable (msg : DrivingReferenceMsg) (horizon : List Float) : Prop where
  valid   : msg.valid = true
  path    : msg.pathValid = true
  stamped : msg.hasSourceStamp = true
  samples : 2 ≤ msg.speedHorizonMps.length
  buffer  : msg.speedHorizonMps.buffer = some horizon

def Malformed (msg : DrivingReferenceMsg) (horizon : List Float) : Prop :=
  ¬IsFinite msg.pathA ∨ ¬IsFinite msg.pathB ∨ ¬IsFinite msg.pathC ∨ ¬IsFinite msg.pathXMaxM ∨
  ¬IsFinite msg.horizonDtS ∨ (∃ v ∈ horizon, ¬IsFinite v) ∨
  VpReference.kMaxHorizon < msg.speedHorizonMps.length

theorem Malformed.not_finite {msg : DrivingReferenceMsg} {horizon : List Float}
    (h : msg.Malformed horizon) (hl : msg.speedHorizonMps.length ≤ VpReference.kMaxHorizon) :
    Controller.finiteReference msg horizon = false := by
  by_contra hf
  simp only [Controller.finiteReference, Bool.not_eq_false, Bool.and_eq_true, List.all_eq_true] at hf
  have ⟨⟨⟨⟨⟨ha, hb⟩, hc⟩, hx⟩, hd⟩, hv⟩ := hf
  rcases h with h | h | h | h | h | ⟨v, hm, h⟩ | h
  case inr.inr.inr.inr.inr.inl => exact h (hv v hm)
  case inr.inr.inr.inr.inr.inr => omega
  all_goals exact h (by assumption)

end DrivingReferenceMsg

namespace Controller

variable {cfg : Config} {c : Controller} {clock : CallbackClock} {msg : DrivingReferenceMsg}
variable {horizon : List Float}

def StopsOn [Libm Float] (cfg : Config) (c : Controller) (clock : CallbackClock)
    (msg : DrivingReferenceMsg) : Prop :=
  let c' := c.receive cfg clock (.drivingReference (some msg))
  c'.supervision.latched = true ∧ c'.vpReferenceRejects = c.vpReferenceRejects

theorem stopsOn_of_error [Libm Float] (why : String)
    (h : c.callbackDrivingReference cfg (some msg) clock = .error why) :
    c.StopsOn cfg clock msg := by
  have h : c.ingest cfg clock (.drivingReference (some msg)) = .error why := h
  simp only [StopsOn, receive, h]
  exact ⟨latchFault_latched .., by rw [latchFault_toInputs]⟩

theorem not_stopsOn_of_ignored [Libm Float]
    (h : c.callbackDrivingReference cfg (some msg) clock = .ok c.ignoreReference) :
    ¬c.StopsOn cfg clock msg := by
  have h : c.ingest cfg clock (.drivingReference (some msg)) = .ok c.ignoreReference := h
  simp only [StopsOn, receive_eq h, not_and]
  intro _ hr
  have := congrArg UInt64.toBitVec hr
  simp [ignoreReference] at this

-- A malformed reference that is marked usable stops the vehicle exactly when its horizon is too long
-- or the two lengths that decide on its usability are positive numbers.
theorem stopsOn_malformed_iff [Libm Float]
    (hm : cfg.supervisionMode = .siControl) (hs : cfg.startup.trajectorySource = .vp)
    (hu : msg.MarkedUsable horizon) (hf : msg.Malformed horizon) :
    c.StopsOn cfg clock msg ↔
      VpReference.kMaxHorizon < msg.speedHorizonMps.length ∨
      (0.0 < msg.pathXMaxM ∧ 0.0 < msg.horizonDtS) := by
  have hsel : ¬(cfg.supervisionMode ≠ .siControl ∨ cfg.startup.trajectorySource ≠ .vp) := by
    simp [hm, hs]
  by_cases hl : VpReference.kMaxHorizon < msg.speedHorizonMps.length
  case pos =>
    refine iff_of_true (stopsOn_of_error "invalid vp driving reference" ?_) (.inl hl)
    simp [callbackDrivingReference, hsel, boundedHorizon, hl]
  case neg =>
    have hb : boundedHorizon msg = some horizon := by
      have := hu.samples
      simp [boundedHorizon, hl, hu.buffer]
      omega
    have hlen : ¬msg.speedHorizonMps.length < 2 := by have := hu.samples; omega
    by_cases hp : 0.0 < msg.pathXMaxM ∧ 0.0 < msg.horizonDtS
    case pos =>
      refine iff_of_true (stopsOn_of_error "non-finite vp driving reference" ?_) (.inr hp)
      simp [callbackDrivingReference, hsel, hb, VpReference.referenceReason, hu.valid, hu.path,
        hu.stamped, hp, hlen, hf.not_finite (by omega)]
    case neg =>
      refine iff_of_false (not_stopsOn_of_ignored ?_) (by simp [hl, hp])
      have hr : VpReference.referenceReason msg.valid msg.pathValid msg.hasSourceStamp
          msg.speedHorizonMps.length msg.horizonDtS msg.pathXMaxM ≠ .none := by
        rcases not_and_or.mp hp with hx | hd
        case inl => simp [VpReference.referenceReason, hu.valid, hu.path, hu.stamped, hx]
        case inr =>
          simp only [VpReference.referenceReason, hu.valid, hu.path, hu.stamped, hd]
          split_ifs <;> simp_all
      simp [callbackDrivingReference, hsel, hb, hr]

def MalformedStops [Libm Float] : Prop :=
  ∀ (cfg : Config) (c : Controller) (clock : CallbackClock) (msg : DrivingReferenceMsg)
    (horizon : List Float), cfg.supervisionMode = .siControl →
    cfg.startup.trajectorySource = .vp → msg.MarkedUsable horizon → msg.Malformed horizon →
    c.StopsOn cfg clock msg

end Controller

namespace Sample

theorem reference_markedUsable (a xMax dt : Float) : (reference a xMax dt).MarkedUsable [5, 5] :=
  ⟨rfl, rfl, rfl, le_rfl, rfl⟩

end Sample

open Sample in
theorem Controller.stopsOn_malformed_iff_curvature :
    let cfg := config .siControl .vp
    let msg := reference (0 / 0) 2 0.1
    Controller.init.StopsOn cfg ⟨(second 1).wall, second 1⟩ msg ↔
      VpReference.kMaxHorizon < msg.speedHorizonMps.length ∨
      (0.0 < msg.pathXMaxM ∧ 0.0 < msg.horizonDtS) :=
  Controller.stopsOn_malformed_iff (by decide) (by decide) (reference_markedUsable ..)
    (.inl (by decide +kernel))

open Sample in
-- A length of the path that is not a number is ignored as no path.
theorem Controller.malformedStops_fails : ¬MalformedStops := by
  intro h
  have hs := h (config .siControl .vp) .init ⟨(second 1).wall, second 1⟩ (reference 0 (0 / 0) 0.1)
    [5, 5] (by decide) (by decide) (reference_markedUsable ..)
    (.inr (.inr (.inr (.inl (by decide +kernel)))))
  exact absurd hs.1 (by decide +kernel)

end SafetyIsland

import SafetyIsland.Controller.Step

namespace SafetyIsland

open Ieee Supervision

-- A command that the ingress of VP_CONTROL lets through.
structure DrivingCommandMsg.WithinLimits (p : Params) (cmd : DrivingCommandMsg) : Prop where
  steering : cmd.steeringTireAngleRad.abs ≤ p.maxSteeringRad
  forward  : 0 ≤ cmd.targetSpeedMps
  speed    : cmd.targetSpeedMps ≤ p.maxAbsVelocityMps
  accel    : cmd.accelerationMps2.abs ≤ p.maxAbsAccelMps2

-- The flags agree with the watches, and what is stored passed its checks.
structure Inputs.Valid (cfg : Config) (i : Inputs) : Prop where
  odometry   : i.hasOdometry = i.watchOdom.ever
  accel      : i.hasAccel = i.watchAccel.ever
  steering   : i.hasSteering = i.watchSteering.ever
  opmode     : i.hasOperationMode = i.watchOpmode.ever
  trajectory : i.hasTrajectory = i.watchCandidate.ever
  command    : i.hasVpCmd = i.watchVpCmd.ever
  limits     : i.hasVpCmd = true → i.currentVpCmd.WithinLimits cfg.params

theorem Inputs.Valid.init {cfg : Config} : Controller.init.Valid cfg where
  odometry   := by decide
  accel      := by decide
  steering   := by decide
  opmode     := by decide
  trajectory := by decide
  command    := by decide
  limits     := nofun

namespace Controller

variable {cfg : Config} {c c' : Controller} {clock : CallbackClock}

structure AcceptsCommand (cfg : Config) (c : Controller) (msg : DrivingCommandMsg) : Prop where
  valid    : msg.valid = true
  stamped  : msg.hasSourceStamp = true
  identity : c.vpCandidateIdentity.check msg.session msg.cycle msg.sourceStamp = .accept
  finite   : ¬(!msg.steeringTireAngleRad.isFinite ∨ !msg.targetSpeedMps.isFinite ∨
    !msg.accelerationMps2.isFinite)
  steering : ¬msg.steeringTireAngleRad.abs > cfg.params.maxSteeringRad
  speed    : ¬(msg.targetSpeedMps < 0 ∨ msg.targetSpeedMps > cfg.params.maxAbsVelocityMps)
  accel    : ¬msg.accelerationMps2.abs > cfg.params.maxAbsAccelMps2

structure AcceptsTrajectory (cfg : Config) (c : Controller) (msg : Option TrajectoryMsgRaw)
    (stamp : TimeMsg) (points : List TrajectoryPointMsg) : Prop where
  selected : cfg.supervisionMode = .siControl ∧ cfg.startup.trajectorySource = .autoware
  runnable : runnablePoints msg = some (stamp, points)
  finite   : points.all finitePoint = true
  identity : c.autowareTrajectoryIdentity.check stamp = .accept

structure AcceptsReference [Libm Float] (cfg : Config) (c : Controller) (msg : DrivingReferenceMsg)
    (horizon : List Float) (ego : VpReference.Pose2D Float)
    (points : List (VpReference.Point Float)) : Prop where
  selected  : cfg.supervisionMode = .siControl ∧ cfg.startup.trajectorySource = .vp
  bounded   : boundedHorizon msg = some horizon
  usable    : VpReference.referenceReason msg.valid msg.pathValid msg.hasSourceStamp
    msg.speedHorizonMps.length msg.horizonDtS msg.pathXMaxM = .none
  finite    : finiteReference msg horizon = true
  identity  : c.vpCandidateIdentity.check msg.session msg.cycle msg.sourceStamp = .accept
  sameFrame : c.egoHistory.find msg.sourceStamp.sec msg.sourceStamp.nanosec = some ego
  converted : VpReference.convert msg.pathA msg.pathB msg.pathC msg.pathXMaxM ego horizon
    msg.horizonDtS = some points

def storeCommand (c : Controller) (msg : DrivingCommandMsg) (now : WallTime) : Controller :=
  { c with
    vpCandidateIdentity := c.vpCandidateIdentity.note msg.session msg.cycle msg.sourceStamp
    currentVpCmd        := msg
    hasVpCmd            := true
    watchVpCmd          := .note now.seconds }

def storeTrajectory (c : Controller) (stamp : TimeMsg) (points : List TrajectoryPointMsg)
    (now : WallTime) : Controller :=
  { c with
    currentTrajectory          := { stamp := stamp, points := points }
    hasTrajectory              := true
    autowareTrajectoryIdentity := .note stamp
    watchCandidate             := .note now.seconds }

def storeReference [Libm Float] (c : Controller) (msg : DrivingReferenceMsg)
    (points : List (VpReference.Point Float)) (now : WallTime) : Controller :=
  { c with
    currentTrajectory     := { stamp := msg.sourceStamp, points := points.map referencePoint }
    hasTrajectory         := true
    vpCandidateIdentity   := c.vpCandidateIdentity.note msg.session msg.cycle msg.sourceStamp
    acceptedSourceSession := msg.session
    acceptedSourceCycle   := msg.cycle
    watchCandidate        := .note now.seconds }

theorem callbackDrivingCommand_ok {msg : DrivingCommandMsg}
    (h : c.callbackDrivingCommand cfg msg clock = .ok c') :
    AcceptsCommand cfg c msg ∧ c' = c.storeCommand msg clock.now ∨
    ¬AcceptsCommand cfg c msg ∧ c' = c := by
  unfold callbackDrivingCommand at h
  split at h
  case isTrue hv => cases h; exact .inr ⟨fun ha => by simp [ha.valid] at hv, rfl⟩
  case isFalse hv =>
    split at h
    case isTrue hs => cases h; exact .inr ⟨fun ha => by simp [ha.stamped] at hs, rfl⟩
    case isFalse hs =>
      split at h
      case h_1 hi => cases h; exact .inr ⟨fun ha => by simp [ha.identity] at hi, rfl⟩
      case h_3 => cases h
      case h_2 hi =>
        split at h
        case isTrue => cases h
        case isFalse hf =>
          split at h
          case isTrue => cases h
          case isFalse hst =>
            split at h
            case isTrue => cases h
            case isFalse hsp =>
              split at h <;> cases h
              case isFalse ha =>
                exact .inl ⟨⟨by simpa using hv, by simpa using hs, hi, hf, hst, hsp, ha⟩, rfl⟩

theorem callbackTrajectory_ok {msg : Option TrajectoryMsgRaw}
    (h : c.callbackTrajectory cfg msg clock = .ok c') :
    (∃ stamp points, AcceptsTrajectory cfg c msg stamp points ∧
      c' = c.storeTrajectory stamp points clock.now) ∨
    (∀ stamp points, ¬AcceptsTrajectory cfg c msg stamp points) ∧ c' = c := by
  unfold callbackTrajectory at h
  split at h
  case isTrue hm =>
    cases h
    exact .inr ⟨fun _ _ ha => by simp [ha.selected] at hm, rfl⟩
  case isFalse hm =>
    have hsel : cfg.supervisionMode = .siControl ∧ cfg.startup.trajectorySource = .autoware := by
      simpa using hm
    split at h
    case h_1 => cases h
    case h_2 stamp points hr =>
      split at h
      case isTrue => cases h
      case isFalse hf =>
        split at h <;> cases h
        case h_1 hi =>
          refine .inr ⟨fun _ _ ha => ?_, rfl⟩
          have hs := hr.symm.trans ha.runnable
          rw [Option.some.injEq, Prod.mk.injEq] at hs
          simp [hs.1, ha.identity] at hi
        case h_2 hi => exact .inl ⟨stamp, points, ⟨hsel, hr, by simpa using hf, hi⟩, rfl⟩

theorem callbackDrivingReference_ok [Libm Float] {msg : Option DrivingReferenceMsg}
    (h : c.callbackDrivingReference cfg msg clock = .ok c') :
    (∃ r horizon ego points, msg = some r ∧ AcceptsReference cfg c r horizon ego points ∧
      c' = c.storeReference r points clock.now) ∨
    (∀ r horizon ego points, msg = some r → ¬AcceptsReference cfg c r horizon ego points) ∧
      (c' = c ∨ c' = c.ignoreReference) := by
  unfold callbackDrivingReference at h
  split at h
  case isTrue hm =>
    cases h
    exact .inr ⟨fun _ _ _ _ _ ha => by simp [ha.selected] at hm, .inl rfl⟩
  case isFalse hm =>
    have hsel : cfg.supervisionMode = .siControl ∧ cfg.startup.trajectorySource = .vp := by
      simpa using hm
    split at h
    case h_1 => cases h
    case h_2 r =>
      split at h
      case h_1 => cases h
      case h_2 horizon hb =>
        split at h
        case isTrue hu =>
          cases h
          refine .inr ⟨fun _ _ _ _ he ha => ?_, .inr rfl⟩
          cases he
          exact hu ha.usable
        case isFalse hu =>
          split at h
          case isTrue => cases h
          case isFalse hf =>
            split at h
            case h_1 hi =>
              cases h
              refine .inr ⟨fun _ _ _ _ he ha => ?_, .inl rfl⟩
              cases he
              simp [ha.identity] at hi
            case h_3 => cases h
            case h_2 hi =>
              split at h
              case h_1 hs =>
                cases h
                refine .inr ⟨fun _ _ _ _ he ha => ?_, .inr rfl⟩
                cases he
                simp [ha.sameFrame] at hs
              case h_2 ego hs =>
                split at h <;> cases h
                case h_1 hc =>
                  refine .inr ⟨fun _ _ _ _ he ha => ?_, .inr rfl⟩
                  cases he
                  have hh := hb.symm.trans ha.bounded
                  have he := hs.symm.trans ha.sameFrame
                  rw [Option.some.injEq] at hh he
                  simp [hh, he, ha.converted] at hc
                case h_2 points hc =>
                  exact .inl ⟨r, horizon, ego, points, rfl,
                    ⟨hsel, hb, by simpa using hu, by simpa using hf, hi, hs, hc⟩, rfl⟩

theorem callbackDrivingCommand_of_accepts {msg : DrivingCommandMsg}
    (h : AcceptsCommand cfg c msg) :
    c.callbackDrivingCommand cfg msg clock = .ok (c.storeCommand msg clock.now) := by
  unfold callbackDrivingCommand
  simp only [h.valid, h.stamped, h.identity, h.finite, h.steering, h.speed, h.accel, if_false,
    Bool.not_true, Bool.false_eq_true]
  rfl

theorem callbackDrivingReference_of_accepts [Libm Float] {msg : DrivingReferenceMsg}
    {horizon : List Float} {ego : VpReference.Pose2D Float}
    {points : List (VpReference.Point Float)}
    (h : AcceptsReference cfg c msg horizon ego points) :
    c.callbackDrivingReference cfg (some msg) clock = .ok (c.storeReference msg points clock.now) := by
  unfold callbackDrivingReference
  simp only [h.selected, h.bounded, h.usable, h.finite, h.identity, h.sameFrame, h.converted,
    if_false, Bool.not_true, Bool.false_eq_true, ne_eq, not_true_eq_false, or_self]
  rfl

inductive Accepts [Libm Float] (cfg : Config) (c : Controller) (clock : CallbackClock) :
    Message → Controller → Prop
  | steering (msg : SteeringReportMsg) :
    Accepts cfg c clock (.steeringStatus msg) (c.callbackSteeringStatus msg clock)
  | operationMode (msg : OperationModeStateMsg) :
    Accepts cfg c clock (.operationModeState msg) (c.callbackOperationModeState msg clock)
  | odometry (msg : OdometryMsg) (history : VpReference.EgoHistory) :
    Accepts cfg c clock (.odometry msg)
      { c with
        currentOdometry := msg
        hasOdometry     := true
        watchOdom       := .note clock.now.seconds
        egoHistory      := history }
  | acceleration (msg : AccelMsg) :
    Accepts cfg c clock (.acceleration msg) (c.callbackAcceleration msg clock)
  | heartbeat : Accepts cfg c clock .heartbeat (c.callbackHeartbeat clock)
  | press : Accepts cfg c clock (.reenable true) { c with reenable := .request clock.now.seconds }
  | command {msg : DrivingCommandMsg} (ha : AcceptsCommand cfg c msg) :
    Accepts cfg c clock (.drivingCommand msg) (c.storeCommand msg clock.now)
  | trajectory {msg : Option TrajectoryMsgRaw} {stamp : TimeMsg} {points : List TrajectoryPointMsg}
    (ha : AcceptsTrajectory cfg c msg stamp points) :
    Accepts cfg c clock (.trajectory msg) (c.storeTrajectory stamp points clock.now)
  | reference {msg : DrivingReferenceMsg} {horizon : List Float} {ego : VpReference.Pose2D Float}
    {points : List (VpReference.Point Float)}
    (ha : AcceptsReference cfg c msg horizon ego points) :
    Accepts cfg c clock (.drivingReference (some msg)) (c.storeReference msg points clock.now)
  | ignored (msg : Message) (rejects : UInt64) :
    Accepts cfg c clock msg { c with vpReferenceRejects := rejects }

theorem ingest_accepts [Libm Float] {msg : Message} (h : c.ingest cfg clock msg = .ok c') :
    Accepts cfg c clock msg c' := by
  cases msg
  case steeringStatus => cases h; exact .steering _
  case operationModeState => cases h; exact .operationMode _
  case acceleration => cases h; exact .acceleration _
  case heartbeat => cases h; exact .heartbeat
  case odometry =>
    cases h
    unfold callbackOdometry
    simp only
    split <;> exact .odometry _ _
  case reenable data =>
    cases h
    unfold callbackReenable
    split
    case isTrue hd => rw [hd]; exact .press
    case isFalse => exact .ignored _ _
  case trajectory =>
    rcases callbackTrajectory_ok h with ⟨_, _, ha, rfl⟩ | ⟨_, rfl⟩
    case inl => exact .trajectory ha
    case inr => exact .ignored _ _
  case drivingReference =>
    rcases callbackDrivingReference_ok h with ⟨_, _, _, _, rfl, ha, rfl⟩ | ⟨_, rfl | rfl⟩
    case inl => exact .reference ha
    all_goals exact .ignored _ _
  case drivingCommand =>
    rcases callbackDrivingCommand_ok h with ⟨ha, rfl⟩ | ⟨_, rfl⟩
    case inl => exact .command ha
    case inr => exact .ignored _ _

theorem AcceptsCommand.withinLimits {msg : DrivingCommandMsg} (h : AcceptsCommand cfg c msg) :
    msg.WithinLimits cfg.params := by
  have hf := h.finite
  simp only [Bool.not_eq_true', not_or, Bool.not_eq_false] at hf
  have fs : IsFinite msg.steeringTireAngleRad := hf.1
  have fv : IsFinite msg.targetSpeedMps := hf.2.1
  have fa : IsFinite msg.accelerationMps2 := hf.2.2
  have ⟨hn, hv⟩ := not_or.mp h.speed
  exact {
    steering := le_of_not_lt cfg.params.steeringFinite.1.isNumber fs.abs.1.isNumber h.steering
    forward  := le_of_not_lt fv.isNumber isFinite_zero.isNumber hn
    speed    := le_of_not_lt cfg.params.velocityFinite.1.isNumber fv.isNumber hv
    accel    := le_of_not_lt cfg.params.accelFinite.1.isNumber fa.abs.1.isNumber h.accel
  }

theorem Accepts.valid [Libm Float] {msg : Message} (hv : c.Valid cfg)
    (h : Accepts cfg c clock msg c') : c'.Valid cfg := by
  have hn := (SourceWatch.ever_note clock.now).symm
  cases h
  case steering => exact { hv with steering := hn }
  case operationMode => exact { hv with opmode := hn }
  case odometry => exact { hv with odometry := hn }
  case acceleration => exact { hv with accel := hn }
  case trajectory => exact { hv with trajectory := hn }
  case reference => exact { hv with trajectory := hn }
  case command ha => exact { hv with command := hn, limits := fun _ => ha.withinLimits }
  case heartbeat => exact { hv with }
  case ignored => exact { hv with }
  case press => exact hv

theorem receive_valid [Libm Float] {msg : Message} (hv : c.Valid cfg) :
    (c.receive cfg clock msg).Valid cfg := by
  unfold receive
  split
  case h_1 h => exact (ingest_accepts h).valid hv
  case h_2 => rwa [latchFault_toInputs]

end Controller
end SafetyIsland

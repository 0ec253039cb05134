import SafetyIsland.Longitudinal.System

namespace SafetyIsland.Longitudinal

open Fallible UniverseUtils MotionUtils LongitudinalUtils CppMath

section

variable {α : Type} [CppMath α]

-- The indices of the control data are indices of points.
structure ControlData.InRange (d : ControlData α) : Prop where
  nearest : d.nearestIdx < d.interpolatedTraj.length
  target  : d.targetIdx < d.interpolatedTraj.length

namespace State

-- What `getControlData` returns, and what it changes.
structure Observed (p : Params α) (s : State α) (now : Call → α) (d : ControlData α)
    (s' : State α) : Prop where
  dt      : d.dt = (s.getDt p now).1
  motion  : d.currentMotion = s.currentMotion
  inRange : d.isFarFromTrajectory = false → d.InRange
  frame   : s' =
    { s with
      prevControlTime := now .controlTime
      pidVel          := s'.pidVel
      prevShift       := s'.prevShift
      lpfPitch        := s'.lpfPitch }
  pid     : s'.pidVel = s.pidVel ∨ s'.pidVel = s.pidVel.reset

variable {p : Params α} {s : State α} {now : Call → α} {pose : PoseMsg α} {d : ControlData α}
  {traj : List (TrajectoryPoint α)} {nearest target : TrajectoryPoint α} [Slerp α]

theorem calcInterpolated_returns (h : traj ≠ []) :
    Returns (calcInterpolatedTrajPointAndSegment p traj pose) fun r => r.2 + 1 ≤ traj.length := by
  refine .ite (fun hl => ?_) fun _ => lerpTrajectoryPoint_returns h
  exact (vectorAt_returns (hl ▸ Nat.one_pos)).bind fun _ _ => .pure hl.ge

theorem insertTarget_returns {idx : ℕ} {distance : α} (h : traj ≠ []) :
    Returns (insertTarget p idx distance nearest traj) fun r => r.1 ≠ [] := by
  refine .ite (fun _ => ?_) fun _ => .pure h
  have hr := removeOverlapPoints_ne_nil h 0
  refine (findTrajectoryPoseAfterDistance_returns hr).bind fun _ _ => ?_
  refine (calcInterpolated_returns hr).bind fun r hs => ?_
  refine (insertAt_returns hs).bind fun ys hy => .pure ?_
  exact List.ne_nil_of_length_eq_add_one hy

theorem nearControlData_returns (h : d.interpolatedTraj ≠ []) :
    Returns (s.nearControlData p now pose d nearest) fun r =>
      r.1.InRange ∧ r.1.dt = d.dt ∧ r.1.currentMotion = d.currentMotion ∧
      r.2 = { s with pidVel := r.2.pidVel, prevShift := r.2.prevShift, lpfPitch := r.2.lpfPitch } ∧
      (r.2.pidVel = s.pidVel ∨ r.2.pidVel = s.pidVel.reset) := by
  refine (insertTarget_returns h).bind fun r hr => ?_
  have hr := removeOverlapPoints_ne_nil hr 0
  refine (findFirstNearestIndex_returns hr).bind fun nearestIdx hn => ?_
  refine (findFirstNearestIndex_returns hr).bind fun targetIdx ht => ?_
  refine (vectorAt_returns ht).bind fun targetPoint _ => ?_
  refine (vectorAt_returns hn).bind fun nearestPoint _ => ?_
  refine (calcStopDistance_returns hr).bind fun stopDist _ => ?_
  refine (getPitchByTraj_returns ht).bind fun trajPitch _ => .pure ?_
  refine ⟨⟨hn, ht⟩, rfl, rfl, rfl, ?_⟩
  dsimp only
  split
  · exact .inr rfl
  · exact .inl rfl

theorem getControlData_returns :
    Returns (s.getControlData p now pose) fun r => Observed p s now r.1 r.2 := by
  refine .ite (fun _ => .pure ?_) fun he => ?_
  · exact ⟨rfl, rfl, fun h => (Bool.false_ne_true h.symm).elim, rfl, .inl rfl⟩
  · have he : s.trajectory ≠ [] := fun h => he (List.isEmpty_iff.mpr h)
    refine (calcInterpolated_returns he).bind fun r hr => ?_
    refine (insertAt_returns hr).bind fun ys hy => ?_
    refine .ite (fun _ => .pure ?_) fun _ => ?_
    · exact ⟨rfl, rfl, fun h => (Bool.false_ne_true h.symm).elim, rfl, .inl rfl⟩
    · refine (nearControlData_returns (List.ne_nil_of_length_eq_add_one hy)).mono ?_
      rintro ⟨d', s'⟩ ⟨hi, hd, hm, hf, hp⟩
      exact ⟨hd, hm, fun _ => hi, hf, hp⟩

-- The parts of the controller whose parameters the constructor has set.
structure Equipped (s : State α) : Prop where
  pid        : s.pidVel.params ≠ none
  smoothStop : s.smoothStop.params ≠ none

-- The parameters of the two parts stay as they are.
structure SameParams (s s' : State α) : Prop where
  pid        : s'.pidVel.params = s.pidVel.params
  smoothStop : s'.smoothStop.params = s.smoothStop.params

omit [CppMath α] [Slerp α] in
theorem SameParams.trans {s₁ s₂ s₃ : State α} (h₁ : s₁.SameParams s₂) (h₂ : s₂.SameParams s₃) :
    s₁.SameParams s₃ :=
  ⟨h₂.pid.trans h₁.pid, h₂.smoothStop.trans h₁.smoothStop⟩

omit [CppMath α] [Slerp α] in
theorem Equipped.of_same {s s' : State α} (h : s.Equipped) (hs : s.SameParams s') : s'.Equipped :=
  ⟨hs.pid ▸ h.pid, hs.smoothStop ▸ h.smoothStop⟩

omit [CppMath α] [Slerp α] in
theorem SameParams.refl (s : State α) : s.SameParams s :=
  ⟨rfl, rfl⟩

-- How a cycle finds its raw command.
inductive IsRaw (p : Params α) (s : State α) (dt : α) : Motion α → Prop
  | emergency : s.controlState = .emergency → IsRaw p s dt (s.calcEmergencyCtrlCmd p dt)
  | driving (raw : Motion α) : s.controlState = .drive → IsRaw p s dt (s.limitRawCmd p raw dt)
  | stopping {q : SmoothStop.Params α} {acc : α} :
    s.controlState = .stopping → s.smoothStop.params = some q →
    acc ∈ [q.strongStopAcc, q.weakStopAcc, s.smoothStop.strongAcc, q.weakAcc] →
    IsRaw p s dt (s.limitRawCmd p ⟨p.stoppedState.vel, acc⟩ dt)

omit [Slerp α] in
theorem applyVelocityFeedback_returns (h : s.Equipped) :
    Returns (s.applyVelocityFeedback p now d target) fun r =>
      r.2 = { s with lpfVelError := r.2.lpfVelError, pidVel := r.2.pidVel } ∧ s.SameParams r.2 :=
  (PIDController.calculate_returns h.pid).bind fun _ hc => .pure ⟨rfl, hc, rfl⟩

omit [Slerp α] in
theorem minAccBeforeStop_returns {n : ℕ} {found : α × ℕ} (h : n ≤ traj.length) :
    Returns (minAccBeforeStop traj n found) fun _ => True := by
  induction n generalizing found with
  | zero => exact .pure trivial
  | succ n ih =>
    refine (vectorAt_returns h).bind fun _ _ => ?_
    exact .ite (fun _ => .pure trivial) fun _ => ih (Nat.le_of_succ_le h)

omit [Slerp α] in
theorem keepBrakeBeforeStop_returns {motion : Motion α} {idx : ℕ} :
    Returns (keepBrakeBeforeStop p d motion idx) fun _ => True := by
  refine .ite (fun _ => .pure trivial) fun _ => ?_
  split
  case h_1 => exact .pure trivial
  case h_2 stopIdx hz =>
    refine (minAccBeforeStop_returns (searchZeroVelocityIndex_lt hz)).bind fun _ _ => ?_
    exact .ite (fun _ => .pure trivial) fun _ => .pure trivial

omit [Slerp α] in
theorem rawDriveCmd_returns (h : s.Equipped) :
    Returns (s.rawDriveCmd p now d target) fun r =>
      r.2 = { s with lpfVelError := r.2.lpfVelError, pidVel := r.2.pidVel } ∧ s.SameParams r.2 :=
  (applyVelocityFeedback_returns h).bind fun _ hr =>
    keepBrakeBeforeStop_returns.bind fun _ _ => .pure hr

omit [Slerp α] in
theorem rawStoppingCmd_returns {q : SmoothStop.Params α} (h : s.smoothStop.params = some q) :
    Returns (s.rawStoppingCmd p now d) fun r =>
      r.2 = { s with smoothStop := r.2.smoothStop } ∧ s.SameParams r.2 ∧
      r.2.smoothStop.strongAcc = s.smoothStop.strongAcc ∧ r.1.vel = p.stoppedState.vel ∧
      r.1.acc ∈ [q.strongStopAcc, q.weakStopAcc, s.smoothStop.strongAcc, q.weakAcc] :=
  (SmoothStop.calculate_returns h).bind fun _ hc => .pure ⟨rfl, ⟨rfl, hc.1⟩, hc.2.1, rfl, hc.2.2⟩

omit [Slerp α] in
theorem limitRawCmd_eq {s' : State α} {raw : Motion α} {dt : α}
    (h : s'.prevRawCtrlCmd = s.prevRawCtrlCmd) : s'.limitRawCmd p raw dt = s.limitRawCmd p raw dt := by
  rw [limitRawCmd, limitRawCmd, h]

omit [Slerp α] in
theorem rawCtrlCmd_returns (h : s.Equipped) (hs : s.controlState ≠ .stopped) :
    Returns (s.rawCtrlCmd p now d target) fun r =>
      IsRaw p s d.dt r.1 ∧ s.SameParams r.2 ∧
      r.2.smoothStop.strongAcc = s.smoothStop.strongAcc ∧
      r.2 =
        { s with
          lpfVelError := r.2.lpfVelError
          pidVel      := r.2.pidVel
          smoothStop  := r.2.smoothStop } := by
  rw [rawCtrlCmd]
  split
  case h_1 hc => exact .pure ⟨.emergency hc, .refl s, rfl, rfl⟩
  case h_2 hc =>
    refine (rawDriveCmd_returns h).bind fun r hr => .pure ?_
    obtain ⟨hf, hs⟩ := hr
    refine ⟨?_, hs, ?_, ?_⟩
    · rw [limitRawCmd_eq (s := s) (by rw [hf])]
      exact .driving _ hc
    · rw [hf]
    · dsimp only
      rw [hf]
  case h_3 hc =>
    obtain ⟨q, hq⟩ := Option.ne_none_iff_exists'.mp h.smoothStop
    refine (rawStoppingCmd_returns hq).bind fun r hr => .pure ?_
    obtain ⟨⟨vel, acc⟩, s'⟩ := r
    obtain ⟨hf, hs, hst, rfl, hm⟩ := hr
    refine ⟨?_, hs, hst, ?_⟩
    · rw [limitRawCmd_eq (s := s) (by rw [hf])]
      exact .stopping hc hq hm
    · dsimp only at hf ⊢
      rw [hf]
  case h_4 hc => exact absurd hc hs

-- How a cycle finds its command before the last limit, and the raw command that it stores.
inductive IsPedal (p : Params α) (s : State α) (d : ControlData α) : Motion α → Motion α → Prop
  | stopped : s.controlState = .stopped → IsPedal p s d p.stoppedState ⟨0.0, 0.0⟩
  | driven {raw : Motion α} (filtered : α) : s.controlState ≠ .stopped → IsRaw p s d.dt raw →
    IsPedal p s d
      ⟨raw.vel, applySlopeCompensation p (raw.acc - filtered * p.accFeedbackGain) d.slopeAngle
        d.shift⟩ raw

omit [Slerp α] in
theorem pedalPosition_returns (h : s.Equipped) :
    Returns (s.pedalPosition p now d target) fun r =>
      IsPedal p s d r.1 r.2.prevRawCtrlCmd ∧ s.SameParams r.2 ∧
      r.2.smoothStop.strongAcc = s.smoothStop.strongAcc ∧
      r.2 =
        { s with
          lpfVelError    := r.2.lpfVelError
          pidVel         := r.2.pidVel
          smoothStop     := r.2.smoothStop
          lpfAccError    := r.2.lpfAccError
          prevRawCtrlCmd := r.2.prevRawCtrlCmd } := by
  refine .ite (fun hc => .pure ⟨.stopped hc, ⟨rfl, rfl⟩, rfl, rfl⟩) fun hc => ?_
  refine (rawCtrlCmd_returns h hc).bind fun r hr => .pure ?_
  obtain ⟨hr, hs, hst, hf⟩ := hr
  refine ⟨?_, ⟨hs.pid, hs.smoothStop⟩, hst, ?_⟩
  · exact .driven _ hc hr
  · dsimp only
    rw [hf]

omit [Slerp α] in
theorem storeAccelCmd_eq (accel : α) :
    s.storeAccelCmd p now accel = { s with ctrlCmdVec := (s.storeAccelCmd p now accel).ctrlCmdVec } := by
  rw [storeAccelCmd]
  split
  · split <;> rfl
  · rfl

-- What the command of a cycle is computed from, and what the computation changes.
structure Commanded (p : Params α) (s : State α) (d : ControlData α) (cmd : Motion α)
    (s' : State α) : Prop where
  pedal  : ∃ pedal, IsPedal p s d pedal s'.prevRawCtrlCmd ∧ cmd =
    { pedal with acc := applyDiffLimitFilter pedal.acc s.prevCtrlCmd.acc d.dt p.maxAccCmdDiff }
  same   : s.SameParams s'
  strong : s'.smoothStop.strongAcc = s.smoothStop.strongAcc
  frame  : s' =
    { s with
      lpfVelError    := s'.lpfVelError
      pidVel         := s'.pidVel
      smoothStop     := s'.smoothStop
      lpfAccError    := s'.lpfAccError
      prevRawCtrlCmd := s'.prevRawCtrlCmd
      ctrlCmdVec     := s'.ctrlCmdVec }

omit [Slerp α] in
theorem calcCtrlCmd_returns (h : s.Equipped) (hd : d.InRange) :
    Returns (s.calcCtrlCmd p now d) fun r => Commanded p s d r.1 r.2 := by
  refine (vectorAt_returns hd.target).bind fun target _ => ?_
  refine (pedalPosition_returns h).bind fun r hr => .pure ?_
  obtain ⟨hp, hs, hst, hf⟩ := hr
  dsimp only
  rw [storeAccelCmd_eq]
  refine ⟨⟨r.1, hp, ?_⟩, ⟨hs.pid, hs.smoothStop⟩, hst, ?_⟩
  · rw [hf]
  · dsimp only
    rw [hf]

omit [Slerp α] in
theorem updateControlState_returns (hd : d.InRange) :
    Returns (s.updateControlState p now d) fun s' => ∃ v,
      s' = (s.recorded p now d).transitState p now ((s.recordRunning p now d).conditions p now d v) d :=
  (vectorAt_returns hd.nearest).bind fun _ _ => .pure ⟨_, rfl⟩

-- The control data that a cycle works with.
structure Reads (p : Params α) (s : State α) (now : Call → α) (input : InputData α)
    (d : ControlData α) (s' : State α) : Prop where
  data     : (s.setInput input).getControlData p now input.currentPose = .ok (d, s')
  observed : Observed p (s.setInput input) now d s'

-- The two kinds of cycles.
inductive Cycle (p : Params α) (s : State α) (now : Call → α) (input : InputData α) :
    LongitudinalCmd α × State α → Prop
  | far {d : ControlData α} {s₁ : State α} :
    Reads p s now input d s₁ → d.isFarFromTrajectory = true →
    Cycle p s now input (s₁.runFar p now d)
  | near {d : ControlData α} {s₁ s₂ : State α} {v : α} {cmd : Motion α} :
    Reads p s now input d s₁ → d.isFarFromTrajectory = false →
    Commanded p ((s₁.recorded p now d).transitState p now
      ((s₁.recordRunning p now d).conditions p now d v) d) d cmd s₂ →
    Cycle p s now input (s₂.createCtrlCmdMsg p now cmd d.currentMotion.vel)

section

variable {c : Conditions}

omit [Slerp α] in
theorem recorded_frame : s.recorded p now d =
    { s with
      lastRunningTime           := (s.recorded p now d).lastRunningTime
      prevVehicleIsUnderControl := (s.recorded p now d).prevVehicleIsUnderControl
      underControlStartingTime  := (s.recorded p now d).underControlStartingTime
      prevKeepStoppedCondition  := (s.recorded p now d).prevKeepStoppedCondition } := by
  rw [recorded, forgetKeepStopped, recordUnderControl, recordRunning]
  split_ifs <;> rfl

omit [Slerp α] in
theorem transitState_frame : s.transitState p now c d =
    { s with
      controlState             := (s.transitState p now c d).controlState
      pidVel                   := (s.transitState p now c d).pidVel
      lpfVelError              := (s.transitState p now c d).lpfVelError
      lpfAccError              := (s.transitState p now c d).lpfAccError
      smoothStop               := (s.transitState p now c d).smoothStop
      prevCtrlCmd              := (s.transitState p now c d).prevCtrlCmd
      prevKeepStoppedCondition := (s.transitState p now c d).prevKeepStoppedCondition } := by
  rw [transitState]
  split
  · rw [updateDrive]
    split_ifs <;> rfl
  · rw [updateStopping]
    split_ifs <;> rfl
  · rw [updateStopped]
    split_ifs <;> rfl
  · rw [updateEmergency]
    split_ifs <;> rfl

omit [Slerp α] in
theorem transitState_sameParams : s.SameParams (s.transitState p now c d) := by
  rw [transitState]
  split
  · rw [updateDrive]
    split_ifs <;> exact ⟨rfl, rfl⟩
  · rw [updateStopping]
    split_ifs <;> exact ⟨rfl, rfl⟩
  · rw [updateStopped]
    split_ifs <;> exact ⟨rfl, rfl⟩
  · rw [updateEmergency]
    split_ifs <;> exact ⟨rfl, rfl⟩

omit [Slerp α] in
theorem transitState_prevCtrlCmd (p : Params α) (s : State α) (now : Call → α) (c : Conditions)
    (d : ControlData α) :
    (s.transitState p now c d).prevCtrlCmd = s.prevCtrlCmd ∨
    (s.transitState p now c d).prevCtrlCmd =
      { s.prevCtrlCmd with acc := stdMax 0.0 s.prevRawCtrlCmd.acc } := by
  rw [transitState]
  split
  · rw [updateDrive]
    split_ifs <;> exact .inl rfl
  · rw [updateStopping]
    split_ifs
    · exact .inl rfl
    · exact .inl rfl
    · exact .inr rfl
    · exact .inl rfl
  · rw [updateStopped]
    split_ifs <;> exact .inl rfl
  · rw [updateEmergency]
    split_ifs <;> exact .inl rfl

end

omit [Slerp α] in
theorem setTrajectory_frame (msg : List (TrajectoryPoint α)) :
    s.setTrajectory msg = { s with trajectory := (s.setTrajectory msg).trajectory } := by
  rw [setTrajectory]
  split_ifs <;> rfl

omit [Slerp α] in
theorem setInput_frame (input : InputData α) : s.setInput input =
    { s with
      trajectory           := (s.setInput input).trajectory
      currentMotion        := (s.setInput input).currentMotion
      currentOperationMode := (s.setInput input).currentOperationMode } := by
  rw [setInput, setTrajectory_frame]

omit [Slerp α] in
theorem Observed.sameParams {s' : State α} (h : Observed p s now d s') : s.SameParams s' where
  pid        := by
    rcases h.pid with hp | hp <;> rw [hp]
    rfl
  smoothStop := by rw [h.frame]

omit [Slerp α] in
theorem setInput_sameParams (input : InputData α) : s.SameParams (s.setInput input) := by
  rw [setInput_frame]
  exact ⟨rfl, rfl⟩

omit [Slerp α] in
theorem recorded_sameParams : s.SameParams (s.recorded p now d) := by
  rw [recorded_frame]
  exact ⟨rfl, rfl⟩

variable {input : InputData α}

theorem run_returns (p : Params α) (now : Call → α) (input : InputData α) (h : s.Equipped) :
    Returns (s.run p now input) (Cycle p s now input) := by
  refine getControlData_returns.with_eq.bind fun r hr => ?_
  obtain ⟨d, s₁⟩ := r
  obtain ⟨he, ho⟩ := hr
  have hs : s.SameParams s₁ := (setInput_sameParams input).trans ho.sameParams
  refine .ite (fun hf => .pure ?_) fun hf => ?_
  · exact .far ⟨he, ho⟩ hf
  · have hf : d.isFarFromTrajectory = false := by simpa using hf
    have hd := ho.inRange hf
    refine (updateControlState_returns hd).bind fun s₂ hu => ?_
    obtain ⟨v, rfl⟩ := hu
    refine (calcCtrlCmd_returns (h.of_same ?_) hd).bind fun r hc =>
      .pure (.near ⟨he, ho⟩ hf hc)
    exact (hs.trans recorded_sameParams).trans transitState_sameParams

theorem Cycle.sameParams {r : LongitudinalCmd α × State α} (h : Cycle p s now input r) :
    s.SameParams r.2 := by
  cases h
  case far d s₁ ho _ =>
    have hs := (setInput_sameParams input).trans ho.observed.sameParams
    rw [runFar]
    split_ifs <;> exact ⟨hs.pid, hs.smoothStop⟩
  case near ho _ hc =>
    have hs := (setInput_sameParams input).trans ho.observed.sameParams
    have hs := ((hs.trans recorded_sameParams).trans transitState_sameParams).trans hc.same
    exact ⟨hs.pid, hs.smoothStop⟩

theorem step_run {s' : State α} (h : s.Equipped) (hs : s.step p (.run input now) = some s') :
    ∃ cmd, s.run p now input = .ok (cmd, s') ∧ Cycle p s now input (cmd, s') := by
  obtain ⟨⟨cmd, s₁⟩, hr, hc⟩ := run_returns p now input h
  rw [step, hr] at hs
  obtain rfl := Option.some.inj hs
  exact ⟨cmd, hr, hc⟩

theorem step_sameParams {e : Event α} {s' : State α} (h : s.Equipped)
    (hs : s.step p e = some s') : s.SameParams s' := by
  cases e
  case run =>
    obtain ⟨cmd, -, hc⟩ := step_run h hs
    exact hc.sameParams
  case sync =>
    obtain rfl := Option.some.inj hs
    exact ⟨rfl, rfl⟩

omit [Slerp α] in
theorem declared_equipped (t strongAcc weakAccTime : α) (opMode : OperationModeStateMsg) :
    (State.declared t (.declared strongAcc weakAccTime) opMode).Equipped :=
  ⟨Option.some_ne_none _, Option.some_ne_none _⟩

theorem equipped_of_run {s' : State α} {es : List (Event α)} (h : s.Equipped)
    (hr : Transition.Run (State.step p) s es s') : s'.Equipped :=
  hr.invariant (fun hs _ he => he.of_same (step_sameParams he hs)) h

-- The controller answers every sequence of calls.
theorem run_of_equipped (es : List (Event α)) (h : s.Equipped) :
    ∃ s', Transition.Run (State.step p) s es s' := by
  induction es generalizing s with
  | nil => exact ⟨s, .nil⟩
  | cons e es ih =>
    have hn : ∃ s', s.step p e = some s' := by
      cases e
      case run input now =>
        obtain ⟨r, hr, -⟩ := run_returns p now input h
        exact ⟨r.2, by rw [step, hr]; rfl⟩
      case sync => exact ⟨_, rfl⟩
    obtain ⟨s₁, h₁⟩ := hn
    obtain ⟨s', hr⟩ := ih (h.of_same (step_sameParams h h₁))
    exact ⟨s', .cons h₁ trivial hr⟩

-- None of the faults of a cycle is ever reached: not with an empty trajectory, which is not taken
-- over, nor with values that are no numbers, nor after any other sequence of calls.
theorem declared_answers (p : Params α) (t strongAcc weakAccTime : α)
    (opMode : OperationModeStateMsg) (es : List (Event α)) :
    ∃ s, Transition.Run (State.step p) (.declared t (.declared strongAcc weakAccTime) opMode) es s ∧
      ∀ now input, ∃ cmd s', s.run p now input = .ok (cmd, s') := by
  have hd : (State.declared t (.declared strongAcc weakAccTime) opMode).Equipped :=
    declared_equipped ..
  obtain ⟨s, hr⟩ := run_of_equipped (p := p) es hd
  refine ⟨s, hr, fun now input => ?_⟩
  obtain ⟨⟨cmd, s'⟩, h, -⟩ := run_returns p now input (equipped_of_run hd hr)
  exact ⟨cmd, s', h⟩

end State
end
end SafetyIsland.Longitudinal

import SafetyIsland.Longitudinal.Cycle

namespace SafetyIsland.Longitudinal

open Transition UniverseUtils

section

variable {α : Type} [CppMath α]

def InputData.isUnderControl (input : InputData α) : Bool :=
  input.currentOperationMode.isAutowareControlEnabled &&
    input.currentOperationMode.mode == operationModeStateAutonomous

namespace State

variable {p : Params α} {s s' s₀ s₁ s₂ : State α} {now : Call → α} {input : InputData α}
  {d : ControlData α} {v : α} {cmd : Motion α} {r : LongitudinalCmd α × State α} {e : Event α}
  {es : List (Event α)} [Slerp α]

theorem Reads.unchanged (h : Reads p s now input d s₁) :
    s₁.controlState = s.controlState ∧ s₁.isUnderControl = input.isUnderControl ∧
      s₁.prevKeepStoppedCondition = s.prevKeepStoppedCondition ∧
      s₁.isSteerConverged = s.isSteerConverged ∧ d.currentMotion.vel = input.currentVel := by
  have hm : d.currentMotion = (s.setInput input).currentMotion := h.observed.motion
  rw [h.observed.frame, hm]
  have hs := setInput_frame (s := s) input
  refine ⟨?_, rfl, ?_, ?_, rfl⟩ <;> rw [hs]

omit [Slerp α] in
theorem recorded_unchanged (p : Params α) (s : State α) (now : Call → α) (d : ControlData α) :
    (s.recorded p now d).controlState = s.controlState ∧
      (s.recorded p now d).isUnderControl = s.isUnderControl ∧
      (s.recorded p now d).isSteerConverged = s.isSteerConverged := by
  rw [recorded_frame]
  exact ⟨rfl, rfl, rfl⟩

omit [Slerp α] in
theorem recorded_prevKeepStoppedCondition : (s.recorded p now d).prevKeepStoppedCondition =
    if s.controlState = .stopped then s.prevKeepStoppedCondition else none := by
  rw [recorded, forgetKeepStopped, recordUnderControl, recordRunning]
  split_ifs <;> simp_all

-- The control state and the stored condition of a cycle that commands.
omit [Slerp α] in
theorem Commanded.unchanged (h : Commanded p s d cmd s') :
    s'.controlState = s.controlState ∧
      s'.prevKeepStoppedCondition = s.prevKeepStoppedCondition := by
  rw [h.frame]
  exact ⟨rfl, rfl⟩

theorem Cycle.controlState_eq (h : Cycle p s now input r) :
    (∃ d s₁, Reads p s now input d s₁ ∧ d.isFarFromTrajectory = true ∧
      r.2.prevKeepStoppedCondition = s.prevKeepStoppedCondition ∧
      r.2.controlState =
        if p.enableLargeTrackingErrorEmergency then .emergency else s.controlState) ∨
    ∃ d s₁ c, Reads p s now input d s₁ ∧ d.isFarFromTrajectory = false ∧
      c.departureFromStopped = departureFromStopped p d.stopDist ∧
      r.2.controlState = ((s₁.recorded p now d).transitState p now c d).controlState ∧
      r.2.prevKeepStoppedCondition =
        ((s₁.recorded p now d).transitState p now c d).prevKeepStoppedCondition := by
  cases h
  case far d s₁ hr hf =>
    refine .inl ⟨d, s₁, hr, hf, ?_, ?_⟩
    · rw [runFar]
      split_ifs <;> exact hr.unchanged.2.2.1
    · rw [runFar]
      split_ifs
      · rfl
      · exact hr.unchanged.1
  case near d s₁ s₂ v cmd hr hf hc =>
    exact .inr ⟨d, s₁, _, hr, hf, rfl, hc.unchanged.1, hc.unchanged.2⟩

theorem Cycle.of_emergency (h : Cycle p s now input r) (he : s.controlState = .emergency)
    (hu : input.isUnderControl = true) :
    r.2.controlState = .emergency ∨ r.2.controlState = .stopped := by
  rcases h.controlState_eq with ⟨d, s₁, -, -, -, hc⟩ | ⟨d, s₁, c, hr, -, -, hc, -⟩
  · rw [hc, he]
    split_ifs <;> exact .inl rfl
  · obtain ⟨hs, hi, -⟩ := recorded_unchanged p s₁ now d
    have hs := hs.trans (hr.unchanged.1.trans he)
    have hi := hi.trans (hr.unchanged.2.1.trans hu)
    rw [hc, transitState]
    simp only [hs]
    rw [updateEmergency, hi]
    split_ifs
    · exact .inr rfl
    · simp_all
    · exact .inl hs

theorem emergency_ends_stopped (hr : Run (step p) s es s') (hq : s.Equipped)
    (he : s.controlState = .emergency)
    (hu : ∀ input now, Event.run input now ∈ es → input.isUnderControl = true) :
    s'.controlState = .emergency ∨ ∃ es₁ es₂ s₁, es = es₁ ++ es₂ ∧ Run (step p) s es₁ s₁ ∧
      s₁.controlState = .stopped ∧ Run (step p) s₁ es₂ s' := by
  induction hr
  case nil => exact .inl he
  case cons s s₁ s' e es hs _ hr ih =>
    have hq' := hq.of_same (step_sameParams hq hs)
    have hn : s₁.controlState = .emergency ∨ s₁.controlState = .stopped := by
      cases e
      case run input now =>
        obtain ⟨cmd, -, hc⟩ := step_run hq hs
        exact hc.of_emergency he (hu input now List.mem_cons_self)
      case sync =>
        obtain rfl := Option.some.inj hs
        exact .inl he
    rcases hn with hn | hn
    · refine (ih hq' hn fun i n hi => hu i n (List.mem_cons_of_mem _ hi)).imp_right ?_
      rintro ⟨es₁, es₂, s₂, rfl, h₁, hc, h₂⟩
      exact ⟨e :: es₁, es₂, s₂, rfl, .cons hs trivial h₁, hc, h₂⟩
    · exact .inr ⟨[e], es, s₁, rfl, .single hs trivial, hn, hr⟩

-- An emergency of a reachable state: as long as the autonomous mode is in control, the controller
-- does not drive again without having stopped.
theorem emergency_drives_after_stop (t strongAcc weakAccTime : α) (opMode : OperationModeStateMsg)
    {es₀ : List (Event α)}
    (h₀ : Run (step p) (.declared t (.declared strongAcc weakAccTime) opMode) es₀ s)
    (hr : Run (step p) s es s') (he : s.controlState = .emergency)
    (hu : ∀ input now, Event.run input now ∈ es → input.isUnderControl = true) :
    s'.controlState = .emergency ∨ ∃ es₁ es₂ s₁, es = es₁ ++ es₂ ∧ Run (step p) s es₁ s₁ ∧
      s₁.controlState = .stopped ∧ Run (step p) s₁ es₂ s' :=
  emergency_ends_stopped hr (equipped_of_run (declared_equipped ..) h₀) he hu

-- A cycle that finds enough room before the next stop to depart.
def Departs (p : Params α) (s : State α) (now : Call → α) (input : InputData α) : Prop :=
  ∃ d s₁, Reads p s now input d s₁ ∧ d.isFarFromTrajectory = false ∧
    departureFromStopped p d.stopDist = true

theorem Reads.deterministic {d' : ControlData α} (h : Reads p s now input d s₁)
    (h' : Reads p s now input d' s₂) : d = d' := by
  have he := h.data.symm.trans h'.data
  exact congrArg Prod.fst (Except.ok.inj he)

-- What a cycle does in the stopped state.
inductive StoppedCycle (p : Params α) (s : State α) (now : Call → α) (input : InputData α)
    (s' : State α) : Prop
  | held : ¬Departs p s now input → s'.prevKeepStoppedCondition = s.prevKeepStoppedCondition →
    s'.controlState ≠ .drive → StoppedCycle p s now input s'
  | kept : Departs p s now input →
    s'.prevKeepStoppedCondition = some (s.currentKeepStoppedCondition input.currentVel) →
    s'.controlState = .stopped → StoppedCycle p s now input s'
  | departed : Departs p s now input →
    (p.enableKeepStoppedUntilSteerConvergence = true →
      s.prevKeepStoppedCondition = some false ∧
      s.currentKeepStoppedCondition input.currentVel = false) →
    s'.controlState = .drive → StoppedCycle p s now input s'

omit [Slerp α] in
theorem keepStoppedCondition_eq_false :
    s.keepStoppedCondition v = false ↔
      s.prevKeepStoppedCondition = some false ∧ s.currentKeepStoppedCondition v = false := by
  rw [keepStoppedCondition]
  cases s.prevKeepStoppedCondition <;> simp [and_comm]

omit [Slerp α] in
theorem updateStopped_departing {c : Conditions} (h : c.departureFromStopped = true) :
    (s.updateStopped p c v).prevKeepStoppedCondition = some (s.currentKeepStoppedCondition v) ∧
    ((s.updateStopped p c v).controlState = s.controlState ∨
      (s.updateStopped p c v).controlState = .drive ∧
      (p.enableKeepStoppedUntilSteerConvergence = true →
        s.prevKeepStoppedCondition = some false ∧ s.currentKeepStoppedCondition v = false)) := by
  rw [updateStopped, if_pos h]
  dsimp only
  split
  case isTrue => exact ⟨rfl, .inl rfl⟩
  case isFalse hk =>
    refine ⟨rfl, .inr ⟨rfl, fun he => ?_⟩⟩
    rw [he, Bool.true_and, Bool.not_eq_true] at hk
    exact keepStoppedCondition_eq_false.mp hk

theorem Cycle.of_stopped (h : Cycle p s now input r) (hs : s.controlState = .stopped) :
    StoppedCycle p s now input r.2 := by
  rcases h.controlState_eq with ⟨d, s₁, hr, hf, hk, hc⟩ | ⟨d, s₁, c, hr, hf, hd, hc, hk⟩
  · refine .held ?_ hk ?_
    · rintro ⟨d', s₂, hr', hf', -⟩
      rw [hr.deterministic hr', hf'] at hf
      exact Bool.false_ne_true hf
    · rw [hc, hs]
      split_ifs <;> decide
  · obtain ⟨hu, -, hk₀, hi₀, hv⟩ := hr.unchanged
    obtain ⟨hs', -, hi⟩ := recorded_unchanged p s₁ now d
    have hs' := hs'.trans (hu.trans hs)
    have hk₁ : (s₁.recorded p now d).prevKeepStoppedCondition = s₁.prevKeepStoppedCondition :=
      recorded_prevKeepStoppedCondition.trans (if_pos (hu.trans hs))
    have hv' : (s₁.recorded p now d).currentKeepStoppedCondition d.currentMotion.vel =
        s.currentKeepStoppedCondition input.currentVel := by
      rw [currentKeepStoppedCondition, currentKeepStoppedCondition, hi, hi₀, hv]
    have ht : (s₁.recorded p now d).transitState p now c d =
        (s₁.recorded p now d).updateStopped p c d.currentMotion.vel := by
      rw [transitState]
      simp only [hs']
    rw [ht] at hc hk
    rcases hb : c.departureFromStopped with - | -
    case false =>
      rw [updateStopped, if_neg (by rw [hb]; decide)] at hc hk
      refine .held ?_ (hk.trans (hk₁.trans hk₀)) (by rw [hc, hs']; decide)
      rintro ⟨d', s₂, hr', -, hd'⟩
      rw [← hr.deterministic hr', ← hd, hb] at hd'
      exact Bool.false_ne_true hd'
    case true =>
      have hdep : Departs p s now input := ⟨d, s₁, hr, hf, hd ▸ hb⟩
      obtain ⟨hku, hcu⟩ := updateStopped_departing (p := p) (s := s₁.recorded p now d)
        (v := d.currentMotion.vel) hb
      rw [hv', hk₁, hk₀] at hcu
      rw [hv'] at hku
      rcases hcu with hcu | ⟨hcu, hrel⟩
      · exact .kept hdep (hk.trans hku) (hc.trans (hcu.trans hs'))
      · exact .departed hdep hrel (hc.trans hcu)

theorem Cycle.enters_stopped (h : Cycle p s now input r) (hs : s.controlState ≠ .stopped)
    (hs' : r.2.controlState = .stopped) : r.2.prevKeepStoppedCondition = none := by
  rcases h.controlState_eq with ⟨d, s₁, -, -, -, hc⟩ | ⟨d, s₁, c, hr, -, -, hc, hk⟩
  · rw [hc] at hs'
    split at hs'
    · exact absurd hs' (by decide)
    · exact absurd hs' hs
  · have hn : s₁.controlState ≠ .stopped := fun h => hs (hr.unchanged.1.symm.trans h)
    have hk₁ : (s₁.recorded p now d).prevKeepStoppedCondition = none :=
      recorded_prevKeepStoppedCondition.trans (if_neg hn)
    have hn' : (s₁.recorded p now d).controlState ≠ .stopped :=
      fun h => hn ((recorded_unchanged p s₁ now d).1.symm.trans h)
    rw [hk, ← hk₁, transitState]
    split
    · rw [updateDrive]
      split_ifs <;> rfl
    · rw [updateStopping]
      split_ifs <;> rfl
    · exact absurd ‹_› hn'
    · rw [updateEmergency]
      split_ifs <;> rfl

-- The last cycle of this stay in the stopped state that found room to depart, and its condition.
def LastDeparture (p : Params α) (s₀ : State α) (es : List (Event α)) (s : State α) (b : Bool) :
    Prop :=
  ∃ es₁ input now es₂ s₁ s₂, es = es₁ ++ .run input now :: es₂ ∧ Run (step p) s₀ es₁ s₁ ∧
    s₁.controlState = .stopped ∧ s₁.step p (.run input now) = some s₂ ∧ Departs p s₁ now input ∧
    s₁.currentKeepStoppedCondition input.currentVel = b ∧
    Along (step p) (fun s e _ => s.controlState = .stopped ∧
      ∀ input now, e = .run input now → ¬Departs p s now input) s₂ es₂ s

theorem LastDeparture.step {b : Bool} (h : LastDeparture p s₀ es s b) (hs : s.step p e = some s')
    (hc : s.controlState = .stopped)
    (hn : ∀ input now, e = .run input now → ¬Departs p s now input) :
    LastDeparture p s₀ (es ++ [e]) s' b := by
  obtain ⟨es₁, i, n, es₂, s₁, s₂, rfl, hr, hs₁, he, hd, hb, hl⟩ := h
  refine ⟨es₁, i, n, es₂ ++ [e], s₁, s₂, by simp, hr, hs₁, he, hd, hb, ?_⟩
  exact hl.append (.single hs ⟨hc, hn⟩)

-- What the stored condition says about the run so far.
def Remembers (p : Params α) (s₀ : State α) (es : List (Event α)) (s : State α) : Prop :=
  s.Equipped ∧ Run (step p) s₀ es s ∧ (s.controlState = .stopped →
    ∀ b, s.prevKeepStoppedCondition = some b → LastDeparture p s₀ es s b)

theorem Remembers.step (h : Remembers p s₀ es s) (hs : s.step p e = some s') :
    Remembers p s₀ (es ++ [e]) s' := by
  obtain ⟨hq, hr, hm⟩ := h
  refine ⟨hq.of_same (step_sameParams hq hs), hr.append (.single hs trivial), fun hs' b hb => ?_⟩
  cases e
  case sync c =>
    obtain rfl := Option.some.inj hs
    exact (hm hs' b hb).step hs hs' fun i n he => by cases he
  case run input now =>
    obtain ⟨cmd, -, hc⟩ := step_run hq hs
    by_cases hst : s.controlState = .stopped
    case neg =>
      rw [hc.enters_stopped hst hs'] at hb
      cases hb
    case pos =>
      cases hc.of_stopped hst
      case held hd hk _ =>
        refine (hm hst b (hk ▸ hb)).step hs hst fun i n he => ?_
        cases he
        exact hd
      case kept hd hk _ =>
        rw [hk] at hb
        exact ⟨es, input, now, [], s, s', rfl, hr, hst, hs, hd, Option.some.inj hb, .nil⟩
      case departed hdr =>
        rw [hdr] at hs'
        cases hs'

-- The vehicle only departs when it has been found ready twice in a row: in this cycle, and in the
-- last cycle of the same stop that found room to depart.
theorem departs_twice_ready (t strongAcc weakAccTime : α) (opMode : OperationModeStateMsg)
    (hr : Run (step p) (.declared t (.declared strongAcc weakAccTime) opMode) es s)
    (hs : s.step p (.run input now) = some s') (hst : s.controlState = .stopped)
    (hd : s'.controlState = .drive) (hp : p.enableKeepStoppedUntilSteerConvergence = true) :
    Departs p s now input ∧ s.currentKeepStoppedCondition input.currentVel = false ∧
      LastDeparture p (.declared t (.declared strongAcc weakAccTime) opMode) es s false := by
  have h₀ : Remembers p (.declared t (.declared strongAcc weakAccTime) opMode) []
      (.declared t (.declared strongAcc weakAccTime) opMode) :=
    ⟨declared_equipped .., .nil, fun _ b hb => by cases hb⟩
  obtain ⟨hq, -, hm⟩ := hr.history (fun hs _ hm => hm.step hs) h₀
  obtain ⟨cmd, -, hc⟩ := step_run hq hs
  cases hc.of_stopped hst
  case held hn => exact absurd hd hn
  case kept hn =>
    rw [hn] at hd
    cases hd
  case departed hdep hrel _ =>
    obtain ⟨hk, hcur⟩ := hrel hp
    exact ⟨hdep, hcur, hm hst false hk⟩

end State
end

namespace State

-- The ego leaves its trajectory, comes back at some speed, and stands still.
theorem emergency_drives_after_stop_axis :
    let far := [.run (axisInput 1 3 (-10)) fun _ => 101]
    let es := [.run (axisInput 1 3 0) fun _ => 102, .run (axisInput 0 3 0) fun _ => 103]
    (after axisStep axisStart far).controlState = .emergency ∧
    (after axisStep (after axisStep axisStart far) es).controlState = .stopped ∧
    ∃ es₁ es₂ s₁, es = es₁ ++ es₂ ∧ Run axisStep (after axisStep axisStart far) es₁ s₁ ∧
      s₁.controlState = .stopped ∧
      Run axisStep s₁ es₂ (after axisStep (after axisStep axisStart far) es) := by
  intro far es
  have he : (after axisStep axisStart far).controlState = .emergency := by decide +kernel
  have hs : (after axisStep (after axisStep axisStart far) es).controlState = .stopped := by
    decide +kernel
  have hu : ∀ input now, Event.run input now ∈ es → input.isUnderControl = true := by
    intro input now hm
    simp only [es, List.mem_cons, Event.run.injEq, List.not_mem_nil, or_false] at hm
    rcases hm with ⟨rfl, -⟩ | ⟨rfl, -⟩ <;> rfl
  exact ⟨he, hs, (@emergency_drives_after_stop ℚ axisMath (@Params.declared ℚ axisMath .after) _ _
    _ axisSlerp 100 0 0 _ far (run_after (by decide +kernel)) (run_after (by decide +kernel)) he
    hu).resolve_left fun h => absurd (hs.symm.trans h) (by decide)⟩

-- The lateral controller has converged; the first cycle with room waits, the second one departs.
theorem departs_twice_ready_axis :
    let es := [.sync true, .run (axisInput 0 3 0) fun _ => 101]
    (after axisStep axisStart es).controlState = .stopped ∧
    (after axisStep axisStart (es ++ [.run (axisInput 0 3 0) fun _ => 102])).controlState = .drive ∧
    @LastDeparture ℚ axisMath axisSlerp (@Params.declared ℚ axisMath .after) axisStart es
      (after axisStep axisStart es) false := by
  intro es
  have hst : (after axisStep axisStart es).controlState = .stopped := by decide +kernel
  have hd : (after axisStep axisStart (es ++ [.run (axisInput 0 3 0) fun _ => 102])).controlState =
      .drive := by decide +kernel
  have hr : Run axisStep axisStart es (after axisStep axisStart es) :=
    run_after (by decide +kernel)
  exact ⟨hst, hd, (@departs_twice_ready ℚ axisMath _ _ _ _ _ _ axisSlerp 100 0 0 _ hr
    (step_after (by decide +kernel)) hst hd rfl).2.2⟩

end State
end SafetyIsland.Longitudinal

import SafetyIsland.Controller.Latching

namespace SafetyIsland

open Ieee Supervision Transition

-- The surfaces of one output agree: the legacy control and the CAN payload are the approved one up to
-- stamps, the legacy topic follows its policy, and CAN carries every output.
structure Published.Faithful (cfg : Config) (p : Published) : Prop where
  legacy   : ∀ m ∈ p.legacyDds, m.EqUpToStamps p.approved.control
  can      : ∀ m ∈ p.can, m.EqUpToStamps p.approved.control
  onLegacy : p.legacyDds.isSome = true ↔ cfg.outputMode.usesDds = true ∧
    (cfg.startup.legacyControlCmd = .always ∨ p.approved.decision = Decision.siStop.toUInt8)
  onCan    : p.can.isSome = true ↔ cfg.outputMode.usesCan = true ∧ cfg.canOutput = true

-- The payload and the source identity are those of a command.
structure Published.Carries (p : Published) (cmd : DrivingCommandMsg) : Prop where
  steering : p.approved.control.lateral.steeringTireAngle = narrow cmd.steeringTireAngleRad
  speed    : p.approved.control.longitudinal.velocity = narrow cmd.targetSpeedMps
  accel    : p.approved.control.longitudinal.acceleration = narrow cmd.accelerationMps2
  session  : p.approved.sourceSession = cmd.session
  cycle    : p.approved.sourceCycle = cmd.cycle

namespace Controller

variable {cfg : Config} {c c' : Controller} {channel : SiChannel} {clock : TickClock}

theorem publication_faithful {d : Decision} {s : SelectedSource} {m : ControlMsg} {now : WallTime} :
    (c.publication cfg d s m now).Faithful cfg where
  legacy   := by
    simp only [publication]
    split_ifs <;> simp [ControlMsg.EqUpToStamps, ControlMsg.unstamped]
  can      := by
    simp only [publication]
    split_ifs <;> simp [ControlMsg.EqUpToStamps, ControlMsg.unstamped]
  onLegacy := by
    have hd : d.toUInt8 = Decision.siStop.toUInt8 ↔ d = .siStop := by cases d <;> decide
    simp only [publication, hd]
    split_ifs with h
    case pos => simpa using h.symm
    case neg => simpa [and_comm] using h
  onCan    := by
    simp only [publication]
    split_ifs with h
    case pos => simpa using h
    case neg => simpa using h

theorem Ticks.publishes (h : Ticks cfg channel clock c c') :
    ∃ c₁ d s m, c₁.published = c.published ∧ c₁.outSeq = c.outSeq ∧
      c' = Controller.publishApprovedRequest cfg c₁ d s m clock.publish := by
  cases h
  case stops => exact ⟨_, _, _, _, by simp [expired], by simp [expired], rfl⟩
  case decides c₂ hr hd =>
    have ho : c₂.toOutputs = c.toOutputs := hr.toOutputs_eq.trans checked_toOutputs
    have hp : c₂.published = c.published := by rw [ho]
    have hs : c₂.outSeq = c.outSeq := by rw [ho]
    cases hd
    case hold => exact ⟨_, _, _, _, hp, hs, rfl⟩
    case command => exact ⟨_, _, _, _, by exact hp, by exact hs, rfl⟩
    case follow => exact ⟨_, _, _, _, hp, hs, rfl⟩
    case violation => exact ⟨_, _, _, _, by simpa using hp, by simpa using hs, rfl⟩

-- The outputs so far are numbered from 1 without a gap.
structure Sequenced (cfg : Config) (n : ℕ) (c : Controller) : Prop where
  next     : c.outSeq = .ofNat n
  numbers  : c.published.map (·.approved.outputSequence) = (List.range n).map (.ofNat <| · + 1)
  faithful : ∀ p ∈ c.published, p.Faithful cfg

theorem Sequenced.init : Sequenced cfg 0 .init where
  next         := rfl
  numbers      := rfl
  faithful _ h := absurd h List.not_mem_nil

theorem Sequenced.congr {n : ℕ} (h : Sequenced cfg n c) (hs : c'.outSeq = c.outSeq)
    (hp : c'.published = c.published) : Sequenced cfg n c' where
  next     := hs.trans h.next
  numbers  := by rw [hp, h.numbers]
  faithful := by rw [hp]; exact h.faithful

theorem Sequenced.tick {n : ℕ} (hn : Sequenced cfg n c) (h : Ticks cfg channel clock c c') :
    Sequenced cfg (n + 1) c' := by
  have ⟨c₁, d, s, m, hp, hs, he⟩ := h.publishes
  have hq : c₁.outSeq + 1 = .ofNat (n + 1) := by rw [hs, hn.next]; simp
  rw [he]
  exact {
    next     := by rw [publishApprovedRequest_outSeq, hq]
    numbers  := by
      rw [publishApprovedRequest_published, hp, List.map_append, hn.numbers, List.range_succ,
        List.map_append]
      simp [Controller.publication, hq]
    faithful := by
      rw [publishApprovedRequest_published, hp]
      intro p hm
      rcases List.mem_append.mp hm with hm | hm
      case inl => exact hn.faithful p hm
      case inr => exact List.mem_singleton.mp hm ▸ publication_faithful
  }

theorem Accepts.command_eq [Libm Float] {clock : CallbackClock} {msg : Message}
    (h : Accepts cfg c clock msg c')
    (hn : ∀ cmd, msg = .drivingCommand cmd → ¬AcceptsCommand cfg c cmd) :
    c'.hasVpCmd = c.hasVpCmd ∧ c'.currentVpCmd = c.currentVpCmd := by
  cases h
  case command ha => exact absurd ha (hn _ rfl)
  all_goals exact ⟨rfl, rfl⟩

-- What a control tick of SI_CONTROL uses of the reference that was stored last.
def reference (c : Controller) : Bool × TrajectoryMsg × UInt32 × UInt64 :=
  (c.hasTrajectory, c.currentTrajectory, c.acceptedSourceSession, c.acceptedSourceCycle)

theorem Accepts.reference_eq [Libm Float] {clock : CallbackClock} {msg : Message}
    (hs : cfg.startup.trajectorySource = .vp) (h : Accepts cfg c clock msg c')
    (hn : ∀ r horizon ego points, msg = .drivingReference (some r) →
      ¬AcceptsReference cfg c r horizon ego points) :
    c'.reference = c.reference := by
  cases h
  case trajectory ha =>
    have := ha.selected.2
    simp [hs] at this
  case reference ha => exact absurd ha (hn _ _ _ _ rfl)
  all_goals rfl

theorem Ticks.reference_eq (hm : cfg.supervisionMode = .siControl)
    (h : Ticks cfg channel clock c c') : c'.reference = c.reference := by
  have same (c₁ : Controller) (hi : c₁.toInputs = c.toInputs) (ho : c₁.toOutputs = c.toOutputs)
      (d : Decision) (s : SelectedSource) (m : ControlMsg) (now : WallTime) :
      (c₁.publishApprovedRequest cfg d s m now).reference = c.reference := by
    simp only [reference, publishApprovedRequest_toInputs, hi]
    unfold publishApprovedRequest
    split_ifs <;> simp [ho]
  cases h
  case stops =>
    exact same ((c.checked cfg channel clock).expired cfg clock.now) checked_toInputs
      checked_toOutputs _ _ _ _
  case decides c₂ hr hd =>
    have hi : c₂.toInputs = c.toInputs := hr.toInputs_eq.trans checked_toInputs
    have ho : c₂.toOutputs = c.toOutputs := hr.toOutputs_eq.trans checked_toOutputs
    cases hd
    case hold => exact same c₂ hi ho _ _ _ _
    case command hv _ _ => simp [hm] at hv
    case follow => exact same c₂ hi ho _ _ _ _
    case violation => exact same _ (by simpa using hi) (by simpa using ho) _ _ _ _

theorem Ticks.normal_command (hm : cfg.supervisionMode = .vpControl)
    (h : Ticks cfg channel clock c c') {p : Published} (hp : c'.published = c.published ++ [p])
    (hn : p.approved.decision = Decision.normal.toUInt8) :
    c.hasVpCmd = true ∧ p.Carries c.currentVpCmd := by
  have hq := List.mem_singleton_self p
  cases h
  case stops =>
    rw [eq_publication hp (by simp [expired]) hq] at hn
    cases hn
  case decides c₂ hr hd =>
    have hi : c₂.toInputs = c.toInputs := hr.toInputs_eq.trans checked_toInputs
    have ho : c₂.published = c.published := by rw [hr.toOutputs_eq, checked_toOutputs]
    cases hd
    case hold =>
      rw [eq_publication hp ho hq] at hn
      cases hn
    case violation hs _ _ => simp [hm] at hs
    case follow hs _ _ => simp [hm] at hs
    case command hc _ =>
      rw [hi] at hc
      rw [eq_publication hp ho hq, hi]
      exact ⟨hc, rfl, rfl, rfl, rfl, rfl⟩

theorem Ticks.normal_reference (hm : cfg.supervisionMode = .siControl)
    (h : Ticks cfg channel clock c c') {p : Published} (hp : c'.published = c.published ++ [p])
    (hn : p.approved.decision = Decision.normal.toUInt8) :
    c.hasTrajectory = true ∧ p.approved.sourceSession = c.acceptedSourceSession ∧
    p.approved.sourceCycle = c.acceptedSourceCycle := by
  have hq := List.mem_singleton_self p
  cases h
  case stops =>
    rw [eq_publication hp (by simp [expired]) hq] at hn
    cases hn
  case decides c₂ hr hd =>
    have hi : c₂.toInputs = c.toInputs := hr.toInputs_eq.trans checked_toInputs
    have ho : c₂.toOutputs = c.toOutputs := hr.toOutputs_eq.trans checked_toOutputs
    have hp₂ : c₂.published = c.published := by rw [ho]
    cases hd
    case hold =>
      rw [eq_publication hp hp₂ hq] at hn
      cases hn
    case violation =>
      rw [eq_publication hp (by simp [hp₂]) hq] at hn
      cases hn
    case command hs _ _ => simp [hm] at hs
    case follow hd _ =>
      rw [hi] at hd
      rw [eq_publication hp hp₂ hq]
      simp only [Inputs.processData, Bool.and_eq_true] at hd
      exact ⟨hd.1.1.2, by simp [publication, ho], by simp [publication, ho]⟩

end Controller

namespace System

section

variable {cfg : Config} {s s' t : System} {e : Event} {es : List Event} [Libm Float]

theorem step_sequenced {n : ℕ} (h : s.step cfg e = some s')
    (hn : s.controller.Sequenced cfg n) :
    s'.controller.Sequenced cfg (if e.isTick then n + 1 else n) := by
  cases e
  case tick => exact hn.tick (step_tick h).1
  case siRx => cases h; exact hn
  case receive msg clock =>
    cases h
    exact hn.congr Controller.receive_outSeq Controller.receive_published

theorem run_sequenced (h : Run (System.step cfg) s es s') {n : ℕ}
    (hn : s.controller.Sequenced cfg n) :
    s'.controller.Sequenced cfg (n + es.countP Event.isTick) := by
  induction h generalizing n
  case nil => exact hn
  case cons e es he _ _ ih =>
    have hs := ih (step_sequenced he hn)
    rw [List.countP_cons]
    split_ifs at hs ⊢ <;> simpa [Nat.add_assoc, Nat.add_comm, Nat.add_left_comm] using hs

-- The step receives a command that the ingress stores.
def TakesCommand (cfg : Config) (s : System) (e : Event) (_ : System) : Prop :=
  ∃ cmd clock, e = .receive (.drivingCommand cmd) clock ∧ s.controller.AcceptsCommand cfg cmd

-- The step receives a reference that the ingress stores, with the points of its conversion.
def TakesReference (cfg : Config) (s : System) (e : Event) (_ : System) : Prop :=
  ∃ msg clock horizon ego points, e = .receive (.drivingReference (some msg)) clock ∧
    s.controller.AcceptsReference cfg msg horizon ego points

theorem step_command (h : s.step cfg e = some s') (hn : ¬TakesCommand cfg s e s') :
    s'.controller.hasVpCmd = s.controller.hasVpCmd ∧
    s'.controller.currentVpCmd = s.controller.currentVpCmd := by
  cases e
  case tick => rw [(step_tick h).1.toInputs_eq]; exact ⟨rfl, rfl⟩
  case siRx => cases h; exact ⟨rfl, rfl⟩
  case receive msg clock =>
    cases h
    simp only [Controller.receive]
    split
    case h_2 => simp
    case h_1 h =>
      refine (Controller.ingest_accepts h).command_eq fun cmd hm ha => hn ⟨cmd, clock, ?_, ha⟩
      rw [hm]

theorem step_reference (hm : cfg.supervisionMode = .siControl)
    (hs : cfg.startup.trajectorySource = .vp) (h : s.step cfg e = some s')
    (hn : ¬TakesReference cfg s e s') : s'.controller.reference = s.controller.reference := by
  cases e
  case tick => exact (step_tick h).1.reference_eq hm
  case siRx => cases h; rfl
  case receive msg clock =>
    cases h
    simp only [Controller.receive]
    split
    case h_2 => simp [Controller.reference]
    case h_1 h =>
      refine (Controller.ingest_accepts h).reference_eq hs fun r horizon ego points hr ha =>
        hn ⟨r, clock, horizon, ego, points, ?_, ha⟩
      rw [hr]

theorem run_command (hr : Run (System.step cfg) .init es s) (hc : s.controller.hasVpCmd = true) :
    ∃ s₁ cmd clock s₂, Along.Last (System.step cfg) (TakesCommand cfg) .init es s s₁
      (.receive (.drivingCommand cmd) clock) s₂ ∧ s.controller.currentVpCmd = cmd := by
  have same {s s' : System} {es : List Event}
      (ha : Along (System.step cfg) (fun s e s' => ¬TakesCommand cfg s e s') s es s') :
      s'.controller.hasVpCmd = s.controller.hasVpCmd ∧
      s'.controller.currentVpCmd = s.controller.currentVpCmd :=
    ha.relation (R := fun (s s' : System) => s'.controller.hasVpCmd = s.controller.hasVpCmd ∧
      s'.controller.currentVpCmd = s.controller.currentVpCmd) (fun _ => ⟨rfl, rfl⟩)
      (fun h₁ h₂ => ⟨h₂.1.trans h₁.1, h₂.2.trans h₁.2⟩) step_command
  rcases hr.since_last (TakesCommand cfg) with ha | ⟨s₁, e, s₂, hl⟩
  case inl =>
    rw [(same ha).1] at hc
    cases hc
  case inr =>
    have ⟨es₁, es₂, _, _, hs, ⟨cmd, clock, he, hacc⟩, ha⟩ := hl
    subst he
    refine ⟨s₁, cmd, clock, s₂, hl, ?_⟩
    rw [(same ha).2]
    cases hs
    simp only [Controller.receive, Controller.ingest,
      Controller.callbackDrivingCommand_of_accepts hacc]
    rfl

theorem run_reference (hm : cfg.supervisionMode = .siControl)
    (hv : cfg.startup.trajectorySource = .vp) (hr : Run (System.step cfg) .init es s)
    (ht : s.controller.hasTrajectory = true) :
    ∃ s₁ msg clock horizon ego points s₂, Along.Last (System.step cfg) (TakesReference cfg) .init es s s₁
      (.receive (.drivingReference (some msg)) clock) s₂ ∧
      s₁.controller.AcceptsReference cfg msg horizon ego points ∧
      s.controller.reference =
        (true, ⟨msg.sourceStamp, points.map Controller.referencePoint⟩, msg.session, msg.cycle) := by
  have same {s s' : System} {es : List Event}
      (ha : Along (System.step cfg) (fun s e s' => ¬TakesReference cfg s e s') s es s') :
      s'.controller.reference = s.controller.reference :=
    ha.relation (R := fun (s s' : System) => s'.controller.reference = s.controller.reference)
      (fun _ => rfl) (fun h₁ h₂ => h₂.trans h₁) (step_reference hm hv)
  rcases hr.since_last (TakesReference cfg) with ha | ⟨s₁, e, s₂, hl⟩
  case inl =>
    have := congrArg Prod.fst (same ha)
    simp only [Controller.reference, ht] at this
    cases this
  case inr =>
    have ⟨es₁, es₂, _, _, hs, ⟨msg, clock, horizon, ego, points, he, hacc⟩, ha⟩ := hl
    subst he
    refine ⟨s₁, msg, clock, horizon, ego, points, s₂, hl, hacc, ?_⟩
    rw [same ha]
    cases hs
    simp only [Controller.receive, Controller.ingest,
      Controller.callbackDrivingReference_of_accepts hacc]
    rfl

theorem output_identity (hr : Run (System.step cfg) .init es s) :
    s.controller.published.map (·.approved.outputSequence) =
      (List.range (es.countP Event.isTick)).map (.ofNat <| · + 1) ∧
    (∀ p ∈ s.controller.published, p.Faithful cfg) ∧
    ∀ {clock follower s'}, s.step cfg (.tick clock follower) = some s' →
      ∃ p, s'.controller.published = s.controller.published ++ [p] ∧ p.Faithful cfg ∧
        p.approved.outputSequence = .ofNat (es.countP Event.isTick + 1) ∧
        (p.approved.decision = Decision.normal.toUInt8 →
          (cfg.supervisionMode = .vpControl →
            ∃ s₁ cmd clock s₂, Along.Last (System.step cfg) (TakesCommand cfg) .init es s s₁
              (.receive (.drivingCommand cmd) clock) s₂ ∧ p.Carries cmd) ∧
          (cfg.supervisionMode = .siControl → cfg.startup.trajectorySource = .vp →
            ∃ s₁ msg clock horizon ego points s₂,
              Along.Last (System.step cfg) (TakesReference cfg) .init es s s₁
                (.receive (.drivingReference (some msg)) clock) s₂ ∧
              s₁.controller.AcceptsReference cfg msg horizon ego points ∧
              s.controller.currentTrajectory =
                ⟨msg.sourceStamp, points.map Controller.referencePoint⟩ ∧
              p.approved.sourceSession = msg.session ∧ p.approved.sourceCycle = msg.cycle)) := by
  have hn : s.controller.Sequenced cfg (es.countP Event.isTick) := by
    simpa using run_sequenced hr Controller.Sequenced.init
  refine ⟨hn.numbers, hn.faithful, ?_⟩
  intro clock follower s' h
  have ht := (step_tick h).1
  obtain ⟨c₁, d, src, m, hp, hs, he⟩ := ht.publishes
  have hp' : s'.controller.published =
      s.controller.published ++ [c₁.publication cfg d src m clock.publish] := by
    rw [he, Controller.publishApprovedRequest_published, hp]
  refine ⟨_, hp', Controller.publication_faithful, ?_, fun hd => ⟨fun hm => ?_, fun hm hv => ?_⟩⟩
  case refine_1 => simp [Controller.publication, hs, hn.next]
  case refine_2 =>
    obtain ⟨hc, carries⟩ := ht.normal_command hm hp' hd
    obtain ⟨s₁, cmd, clock, s₂, hl, heq⟩ := run_command hr hc
    exact ⟨s₁, cmd, clock, s₂, hl, heq ▸ carries⟩
  case refine_3 =>
    obtain ⟨hc, hsession, hcycle⟩ := ht.normal_reference hm hp' hd
    obtain ⟨s₁, msg, clock, horizon, ego, points, s₂, hl, ha, heq⟩ := run_reference hm hv hr hc
    simp only [Controller.reference, Prod.mk.injEq] at heq
    exact ⟨s₁, msg, clock, horizon, ego, points, s₂, hl, ha, heq.2.1,
      hsession.trans heq.2.2.1, hcycle.trans heq.2.2.2⟩

end

open Sample in
theorem output_identity_command :
    let cfg := config .vpControl .vp
    let es := feedback 1 ++ [message 1 (command 1 0.25)]
    ∃ p, (after cfg (es ++ [tick 1 .notReady])).controller.published = [p] ∧
      p.Faithful cfg ∧ p.approved.outputSequence = 1 ∧
      ∃ s₁ cmd clock s₂, Along.Last (System.step cfg) (TakesCommand cfg) .init es (after cfg es) s₁
        (.receive (.drivingCommand cmd) clock) s₂ ∧ p.Carries cmd := by
  intro cfg es
  have h₀ : (after cfg es).controller.published = [] := by decide +kernel
  have hd : ∀ p ∈ (after cfg (es ++ [tick 1 .notReady])).controller.published,
      p.approved.decision = Decision.normal.toUInt8 := by decide +kernel
  have hr : Run (System.step cfg) .init es (after cfg es) := run_after (by decide +kernel)
  have ht : (after cfg es).step cfg (tick 1 .notReady) = some (after cfg (es ++ [tick 1 .notReady])) :=
    step_after (by decide +kernel)
  have hc : UInt64.ofNat (es.countP Event.isTick + 1) = 1 := by decide +kernel
  have ⟨p, hp, hf, hs, hn⟩ := (output_identity hr).2.2 ht
  rw [h₀, List.nil_append] at hp
  exact ⟨p, hp, hf, hs.trans hc, (hn (hd p (by simp [hp]))).1 (by decide)⟩

end System
end SafetyIsland

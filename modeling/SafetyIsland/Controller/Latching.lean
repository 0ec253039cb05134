import SafetyIsland.Controller.Cycle

namespace SafetyIsland

open Ieee Supervision Transition

namespace Controller

variable {cfg : Config} {c c₁ c₂ c' : Controller} {channel : SiChannel} {clock : TickClock}

-- What any number of faults, one after the other, does to the latch and to a pending press.
inductive Faulted (c c' : Controller) : Prop
  | unchanged (hs : c'.supervision = c.supervision) (hr : c'.reenable = c.reenable)
  | latches (hl : c.supervision.latched = false) (hl' : c'.supervision.latched = true)
    (hf : c'.supervision.faultId = c.supervision.faultId + 1) (hp : c'.reenable.pending = false)
  | continues (hl : c.supervision.latched = true) (hl' : c'.supervision.latched = true)
    (hf : c'.supervision.faultId = c.supervision.faultId)
    (hp : c'.reenable = c.reenable ∨ c'.reenable.pending = false)

namespace Faulted

theorem latchFault (why : String) (clock : ClockReading) :
    Faulted c (c.latchFault cfg why clock) := by
  have hl' := latchFault_latched cfg c why clock
  have hf := latchFault_faultId cfg c why clock
  cases hl : c.supervision.latched <;> simp only [hl] at hf
  case false =>
    refine .latches hl hl' hf ?_
    by_contra hp
    rw [Bool.not_eq_false, latchFault_pending, hl] at hp
    exact Bool.false_ne_true hp.1
  case true =>
    refine .continues hl hl' hf ?_
    by_cases hp : (c.latchFault cfg why clock).reenable.pending = true
    case pos => rw [latchFault_reenable_of_pending cfg c why clock hp]; exact .inl rfl
    case neg => exact .inr (by simpa using hp)

theorem trans (h₁ : Faulted c c₁) (h₂ : Faulted c₁ c₂) : Faulted c c₂ := by
  cases h₁
  case unchanged hs hr =>
    cases h₂
    case unchanged hs' hr' => exact .unchanged (hs'.trans hs) (hr'.trans hr)
    case latches hl hl' hf hp => exact .latches (hs ▸ hl) hl' (hs ▸ hf) hp
    case continues hl hl' hf hp => exact .continues (hs ▸ hl) hl' (hs ▸ hf) (hr ▸ hp)
  case latches hl hl' hf hp =>
    cases h₂
    case unchanged hs' hr' => exact .latches hl (hs' ▸ hl') (hs' ▸ hf) (hr' ▸ hp)
    case latches hl₂ _ _ _ => simp [hl₂] at hl'
    case continues hl₂ hf₂ hp₂ =>
      exact .latches hl hl₂ (hf₂.trans hf) (hp₂.elim (· ▸ hp) id)
  case continues hl hl' hf hp =>
    cases h₂
    case unchanged hs' hr' => exact .continues hl (hs' ▸ hl') (hs' ▸ hf) (hr' ▸ hp)
    case latches hl₂ _ _ _ => simp [hl₂] at hl'
    case continues hl₂ hf₂ hp₂ =>
      exact .continues hl hl₂ (hf₂.trans hf) (hp₂.elim (fun h => h ▸ hp) .inr)

theorem latched (h : Faulted c c') (hl : c.supervision.latched = true) :
    c'.supervision.latched = true ∧ c'.supervision.faultId = c.supervision.faultId := by
  cases h
  case unchanged hs _ => rw [hs]; exact ⟨hl, rfl⟩
  case latches hl₂ _ _ _ => simp [hl] at hl₂
  case continues hl' hf _ => exact ⟨hl', hf⟩

theorem pending (h : Faulted c c') (hp : c'.reenable.pending = true) : c'.reenable = c.reenable := by
  cases h
  case unchanged hr => exact hr
  case latches hp' => simp [hp] at hp'
  case continues hp' => exact hp'.elim id (by simp [hp])

end Faulted

theorem superviseSources_faulted : Faulted c (c.superviseSources cfg clock) := by
  unfold superviseSources
  split
  case h_1 => exact .latchFault _ _
  case h_2 => exact .unchanged rfl rfl

theorem superviseFaultInput_faulted : Faulted c (c.superviseFaultInput cfg channel clock) := by
  unfold superviseFaultInput
  split
  case isTrue =>
    have h : Faulted c { c with siFaultEventsSeen := channel.faultEvents } := .unchanged rfl rfl
    exact h.trans (.latchFault _ _)
  case isFalse => exact .unchanged rfl rfl

theorem checked_faulted : Faulted c (c.checked cfg channel clock) :=
  superviseSources_faulted.trans superviseFaultInput_faulted

-- The output of a tick that is latched at its end: one SI_STOP with the id of the episode `n`, after
-- the earlier outputs `l`.
structure Stopped (n : ℕ) (l : List Published) (c' : Controller) : Prop where
  latched   : c'.supervision.latched = true
  faultId   : c'.supervision.faultId = n
  published : ∃ p, c'.published = l ++ [p] ∧ p.approved.decision = Decision.siStop.toUInt8 ∧
    p.approved.faultId = .ofNat n

-- The output of a tick that is not: one NORMAL or HOLD without a fault.
structure Passed (n : ℕ) (l : List Published) (c' : Controller) : Prop where
  unlatched : c'.supervision.latched = false
  faultId   : c'.supervision.faultId = n
  published : ∃ p, c'.published = l ++ [p] ∧
    (p.approved.decision = Decision.normal.toUInt8 ∨
      p.approved.decision = Decision.hold.toUInt8) ∧
    p.approved.faultId = 0

section

variable {n : ℕ} {l : List Published}

theorem publishApprovedRequest_passed {d : Decision} {s : SelectedSource} {m : ControlMsg}
    {now : WallTime} (hl : c.supervision.latched = false) (hf : c.supervision.faultId = n)
    (ho : c.published = l) (hd : d = .normal ∨ d = .hold) :
    Passed n l (c.publishApprovedRequest cfg d s m now) where
  unlatched := by simpa using hl
  faultId   := by simpa using hf
  published := by
    rw [publishApprovedRequest_published, ho]
    refine ⟨_, rfl, ?_, by simp [publication, hl]⟩
    rcases hd with rfl | rfl
    case inl => exact .inl rfl
    case inr => exact .inr rfl

theorem publishSiStop_stopped {now : WallTime} (hl : c.supervision.latched = true)
    (hf : c.supervision.faultId = n) (ho : c.published = l) :
    Stopped n l (c.publishSiStop cfg now clock) where
  latched   := by simpa [publishSiStop] using hl
  faultId   := by simpa [publishSiStop] using hf
  published := by
    rw [publishSiStop, publishApprovedRequest_published, ho]
    refine ⟨_, rfl, rfl, ?_⟩
    rw [publication, hl, hf, if_pos rfl]

theorem Decides.outcome (hl : c.supervision.latched = false) (hf : c.supervision.faultId = n)
    (ho : c.published = l) (h : Decides cfg clock c c') :
    Passed n l c' ∧ c'.reenable = c.reenable ∨
    Stopped (n + 1) l c' ∧ c'.reenable.pending = false := by
  cases h
  case hold =>
    exact .inl ⟨publishApprovedRequest_passed hl hf ho (.inr rfl), by simp [publishHold]⟩
  case command => exact .inl ⟨publishApprovedRequest_passed hl hf ho (.inl rfl), by simp⟩
  case follow => exact .inl ⟨publishApprovedRequest_passed hl hf ho (.inl rfl), by simp⟩
  case violation lat lon why _ _ _ =>
    have hi := latchFault_faultId cfg c ("follower " ++ why) clock.follower
    rw [hl, if_neg Bool.false_ne_true, hf] at hi
    refine .inr ⟨publishSiStop_stopped (latchFault_latched ..) hi (by simpa using ho), ?_⟩
    by_contra hp
    rw [Bool.not_eq_false, publishSiStop, publishApprovedRequest_reenable, latchFault_pending,
      hl] at hp
    exact Bool.false_ne_true hp.1

end

-- A tick that clears the latch: a press is pending and young, every checked source and the level of
-- the fault input is fresh, and the press is used up.
structure Reopened (cfg : Config) (channel : SiChannel) (now : WallTime) (c c' : Controller) :
    Prop where
  pending  : c.reenable.pending = true
  young    : ¬now.seconds - c.reenable.requestedAt > cfg.params.reenableWindowS
  fresh    : c.AllFresh cfg now
  level    : (cfg.x5h && channel.fault) = false
  consumed : c'.reenable.pending = false
  output   : Passed c.supervision.faultId c.published c' ∨
    Stopped (c.supervision.faultId + 1) c.published c'

theorem Ticks.of_clears (hl : c.supervision.latched = true)
    (hc : Clears cfg channel clock.now (c.checked cfg channel clock))
    (h : Ticks cfg channel clock c c') : Reopened cfg channel clock.now c c' := by
  let c₁ := c.checked cfg channel clock
  have hf : Faulted c c₁ := checked_faulted
  have ho : c₁.published = c.published := by rw [checked_toOutputs]
  cases h
  case stops hn => exact absurd hc hn
  case decides hr hd =>
    cases hr
    case unlatched hn => simp [hc.latched] at hn
    case clears =>
      have hr : c₁.reenable = c.reenable := hf.pending hc.pending
      have hi' : c₁.toInputs = c.toInputs := checked_toInputs
      have out := hd.outcome (c := c₁.cleared) rfl (hf.latched hl).2 ho
      exact {
        pending  := hr ▸ hc.pending
        young    := hr ▸ hc.young
        fresh    := hi' ▸ hc.allFresh
        level    := hc.level
        consumed := out.elim (fun h => h.2 ▸ rfl) (·.2)
        output   := out.imp (·.1) (·.1)
      }

theorem Ticks.of_latched (hl : c.supervision.latched = true) (h : Ticks cfg channel clock c c') :
    Stopped c.supervision.faultId c.published c' ∧
      (c'.reenable = c.reenable ∨ c'.reenable.pending = false) ∨
    Reopened cfg channel clock.now c c' := by
  let c₁ := c.checked cfg channel clock
  have hf : Faulted c c₁ := checked_faulted
  have ho : c₁.published = c.published := by rw [checked_toOutputs]
  have ⟨hl₁, hi⟩ := hf.latched hl
  by_cases hc : Clears cfg channel clock.now c₁
  case pos => exact .inr (h.of_clears hl hc)
  case neg =>
    cases h
    case decides hr _ =>
      cases hr
      case unlatched hn _ => simp [c₁, hn] at hl₁
      case clears h _ => exact absurd h hc
    case stops =>
      refine .inl ⟨publishSiStop_stopped hl₁ hi ho, ?_⟩
      rw [publishSiStop, publishApprovedRequest_reenable]
      by_cases hp : (c₁.expired cfg clock.now).reenable.pending = true
      case neg => exact .inr (by simpa using hp)
      case pos =>
        have he : (c₁.expired cfg clock.now).reenable = c₁.reenable :=
          ReenableRequest.expireIfOld_of_pending hp
        exact .inl (he.trans (hf.pending (he ▸ hp)))

theorem Ticks.of_not_latched (hl : c.supervision.latched = false)
    (h : Ticks cfg channel clock c c') :
    Passed c.supervision.faultId c.published c' ∧ c'.reenable = c.reenable ∨
    Stopped (c.supervision.faultId + 1) c.published c' ∧ c'.reenable.pending = false := by
  let c₁ := c.checked cfg channel clock
  have hf : Faulted c c₁ := checked_faulted
  have ho : c₁.published = c.published := by rw [checked_toOutputs]
  cases hf
  case continues hn _ _ _ => simp [hl] at hn
  case latches hl₁ hi hp =>
    have hc : ¬Clears cfg channel clock.now c₁ := fun h => by simp [h.pending] at hp
    cases h
    case decides hr _ =>
      cases hr
      case unlatched hn _ => simp [c₁, hn] at hl₁
      case clears h _ => exact absurd h hc
    case stops =>
      refine .inr ⟨publishSiStop_stopped hl₁ hi ho, ?_⟩
      rw [publishSiStop, publishApprovedRequest_reenable]
      by_contra hp'
      simp [expired, ReenableRequest.expireIfOld_pending, c₁, hp] at hp'
  case unchanged hs hr =>
    have hl₁ : c₁.supervision.latched = false := hs ▸ hl
    cases h
    case stops hn _ => simp [c₁, hl₁] at hn
    case decides c₂ hr' hd =>
      cases hr'
      case clears hc => simp [c₁, hc.latched] at hl₁
      case unlatched => exact hr ▸ hd.outcome hl₁ (by rw [hs]) ho

theorem receive_faulted [Libm Float] (cfg : Config) (c : Controller) (clock : CallbackClock)
    (msg : Message) :
    Faulted c (c.receive cfg clock msg) ∨
    msg = .reenable true ∧ c.receive cfg clock msg =
      { c with reenable := .request clock.now.seconds } := by
  unfold receive
  split
  case h_2 => exact .inl (.latchFault _ _)
  case h_1 h =>
    cases ingest_accepts h
    case press => exact .inr ⟨rfl, rfl⟩
    all_goals exact .inl (.unchanged rfl rfl)

theorem receive_published [Libm Float] {clock : CallbackClock} {msg : Message} :
    (c.receive cfg clock msg).published = c.published := by
  unfold receive
  split
  case h_2 => simp
  case h_1 h => cases ingest_accepts h <;> rfl

theorem receive_outSeq [Libm Float] {clock : CallbackClock} {msg : Message} :
    (c.receive cfg clock msg).outSeq = c.outSeq := by
  unfold receive
  split
  case h_2 => simp
  case h_1 h => cases ingest_accepts h <;> rfl

end Controller

namespace System

variable {cfg : Config} {s s' : System} {e : Event} {es : List Event} [Libm Float]

-- A step that keeps the episode `n`: a tick publishes its one SI_STOP, nothing else publishes.
def Stops (n : ℕ) (s : System) (e : Event) (s' : System) : Prop :=
  s'.controller.supervision.latched = true ∧ s'.controller.supervision.faultId = n ∧
  match e with
  | .tick _ _ => ∃ p, s'.controller.published = s.controller.published ++ [p] ∧
      p.approved.decision = Decision.siStop.toUInt8 ∧ p.approved.faultId = .ofNat n
  | _ => s'.controller.published = s.controller.published

theorem step_tick {clock : TickClock} {follower : FollowerResult}
    (h : s.step cfg (.tick clock follower) = some s') :
    Controller.Ticks cfg s.channel clock s.controller s'.controller ∧ s'.channel = s.channel := by
  have ⟨c, hc, h⟩ := Option.bind_eq_some_iff.mp h
  cases h
  exact ⟨Controller.callbackTimerControl_ticks hc, rfl⟩

theorem step_of_latched (hl : s.controller.supervision.latched = true)
    (h : s.step cfg e = some s') :
    Stops s.controller.supervision.faultId s e s' ∨ ∃ clock follower, e = .tick clock follower ∧
      s.controller.Reopened cfg s.channel clock.now s'.controller := by
  cases e
  case tick clock follower =>
    rcases (step_tick h).1.of_latched hl with ⟨hs, _⟩ | hr
    case inl => exact .inl ⟨hs.latched, hs.faultId, hs.published⟩
    case inr => exact .inr ⟨clock, follower, rfl, hr⟩
  case siRx => cases h; exact .inl ⟨hl, rfl, rfl⟩
  case receive msg clock =>
    cases h
    refine .inl ?_
    rcases s.controller.receive_faulted cfg clock msg with hf | ⟨_, hr⟩
    case inl =>
      have ⟨hl', hi⟩ := hf.latched hl
      exact ⟨hl', hi, Controller.receive_published⟩
    case inr => exact ⟨by simpa [hr] using hl, by simp [hr], Controller.receive_published⟩

theorem step_edge (h : s.step cfg e = some s') (hl' : s'.controller.supervision.latched = true)
    (hn : s.controller.supervision.latched = false ∨
      s'.controller.supervision.faultId ≠ s.controller.supervision.faultId) :
    s'.controller.supervision.faultId = s.controller.supervision.faultId + 1 ∧
    s'.controller.reenable.pending = false := by
  cases hl : s.controller.supervision.latched
  case true =>
    have hn := hn.resolve_left (by simp [hl])
    rcases step_of_latched hl h with hs | ⟨_, _, _, hr⟩
    case inl => exact absurd hs.2.1 hn
    case inr =>
      refine ⟨?_, hr.consumed⟩
      rcases hr.output with hp | hs
      case inl => exact absurd hp.faultId hn
      case inr => exact hs.faultId
  case false =>
    cases e
    case tick =>
      rcases (step_tick h).1.of_not_latched hl with ⟨hp, _⟩ | ⟨hs, hp⟩
      case inl => simp [hp.unlatched] at hl'
      case inr => exact ⟨hs.faultId, hp⟩
    case siRx => cases h; simp [hl] at hl'
    case receive msg clock =>
      cases h
      rcases s.controller.receive_faulted cfg clock msg with hf | ⟨_, hr⟩
      case inr => simp [hr, hl] at hl'
      case inl =>
        cases hf
        case unchanged hs _ => simp [hs, hl] at hl'
        case latches hf hp => exact ⟨hf, hp⟩
        case continues hl₂ _ _ _ => simp [hl] at hl₂

theorem step_reenable (h : s.step cfg e = some s') (hp : s'.controller.reenable.pending = true) :
    s'.controller.reenable = s.controller.reenable ∨ ∃ clock, e = .receive (.reenable true) clock ∧
      s'.controller.reenable = .request clock.now.seconds := by
  cases e
  case siRx => cases h; exact .inl rfl
  case receive msg clock =>
    cases h
    rcases s.controller.receive_faulted cfg clock msg with hf | ⟨hm, hr⟩
    case inl => exact .inl (hf.pending hp)
    case inr => exact .inr ⟨clock, by rw [hm], by simp [hr]⟩
  case tick =>
    refine .inl ?_
    cases hl : s.controller.supervision.latched
    case false =>
      rcases (step_tick h).1.of_not_latched hl with ⟨_, hr⟩ | ⟨_, hn⟩
      case inl => exact hr
      case inr => simp [hp] at hn
    case true =>
      rcases (step_tick h).1.of_latched hl with ⟨_, hr⟩ | hr
      case inl => exact hr.resolve_right (by simp [hp])
      case inr => simp [hr.consumed] at hp

theorem run_reenable (h : Run (System.step cfg) s es s')
    (hp : s'.controller.reenable.pending = true) :
    s'.controller.reenable = s.controller.reenable ∨ ∃ clock,
      .receive (.reenable true) clock ∈ es ∧
      s'.controller.reenable = .request clock.now.seconds := by
  induction h
  case nil => exact .inl rfl
  case cons he _ _ ih =>
    rcases ih hp with hr | ⟨clock, hm, hr⟩
    case inr => exact .inr ⟨clock, List.mem_cons_of_mem _ hm, hr⟩
    case inl =>
      rcases step_reenable he (hr ▸ hp) with hs | ⟨clock, rfl, hs⟩
      case inl => exact .inl (hr.trans hs)
      case inr => exact .inr ⟨clock, List.mem_cons_self, hr.trans hs⟩

end System
end SafetyIsland

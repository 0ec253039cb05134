import SafetyIsland.Controller.Latching

namespace SafetyIsland

open Ieee Supervision Transition

-- The ids of the outputs so far: a SI_STOP has the id of an episode up to the current one, and every
-- other output has the id 0.
inductive Published.Numbered (n : ℕ) (p : Published) : Prop
  | stop (k : ℕ) (hk : 0 < k) (hn : k ≤ n) (hd : p.approved.decision = Decision.siStop.toUInt8)
    (hf : p.approved.faultId = .ofNat k)
  | other (hd : p.approved.decision = Decision.normal.toUInt8 ∨
      p.approved.decision = Decision.hold.toUInt8) (hf : p.approved.faultId = 0)

structure Controller.Numbered (c : Controller) : Prop where
  episode : c.supervision.latched = true → 0 < c.supervision.faultId
  outputs : ∀ p ∈ c.published, p.Numbered c.supervision.faultId

namespace Published.Numbered

variable {n m : ℕ} {p : Published}

theorem mono (h : p.Numbered n) (hm : n ≤ m) : p.Numbered m := by
  cases h
  case stop k hk hn hd hf => exact .stop k hk (hn.trans hm) hd hf
  case other hd hf => exact .other hd hf

theorem faultId_eq_zero_iff (h : p.Numbered n) (hw : n < 2 ^ 32) :
    p.approved.faultId = 0 ↔ p.approved.decision ≠ Decision.siStop.toUInt8 := by
  cases h
  case stop k hk hn hd hf =>
    have hz : UInt32.ofNat k ≠ 0 := by
      intro hz
      have := congrArg UInt32.toNat hz
      rw [UInt32.toNat_ofNat_of_lt' (by simp [UInt32.size]; omega)] at this
      simp at this
      omega
    simp [hd, hf, hz]
  case other hd hf =>
    rcases hd with hd | hd
    case inl => simp [hd, hf]; decide
    case inr => simp [hd, hf]; decide

theorem faultId_lt (h : p.Numbered n) (hm : n < m) (hw : m < 2 ^ 32) :
    p.approved.faultId < .ofNat m := by
  have hm' : (UInt32.ofNat m).toNat = m :=
    UInt32.toNat_ofNat_of_lt' (by simp [UInt32.size]; omega)
  rw [UInt32.lt_iff_toNat_lt, hm']
  cases h
  case other hf => simp [hf]; omega
  case stop k _ hn _ hf =>
    rw [hf, UInt32.toNat_ofNat_of_lt' (by simp [UInt32.size]; omega)]
    omega

end Published.Numbered

namespace Controller.Numbered

variable {c c' : Controller} {n : ℕ}

theorem init : Controller.init.Numbered where
  episode h := absurd h Bool.false_ne_true
  outputs _ h := absurd h List.not_mem_nil

theorem silent (h : c.Numbered) (hp : c'.published = c.published)
    (hf : c.supervision.faultId ≤ c'.supervision.faultId)
    (hl : c'.supervision.latched = true → 0 < c'.supervision.faultId) : c'.Numbered where
  episode := hl
  outputs p hm := (h.outputs p (hp ▸ hm)).mono hf

theorem stopped (h : c.Numbered) (hs : c'.Stopped n c.published)
    (hf : c.supervision.faultId ≤ n) (hn : 0 < n) : c'.Numbered where
  episode _ := hs.faultId ▸ hn
  outputs p hm := by
    have ⟨q, hp, hd, hi⟩ := hs.published
    rw [hs.faultId]
    rw [hp, List.mem_append, List.mem_singleton] at hm
    rcases hm with hm | rfl
    case inl => exact (h.outputs p hm).mono hf
    case inr => exact .stop n hn le_rfl hd hi

theorem passed (h : c.Numbered) (hs : c'.Passed c.supervision.faultId c.published) :
    c'.Numbered where
  episode hl := by simp [hs.unlatched] at hl
  outputs p hm := by
    have ⟨q, hp, hd, hi⟩ := hs.published
    rw [hs.faultId]
    rw [hp, List.mem_append, List.mem_singleton] at hm
    rcases hm with hm | rfl
    case inl => exact h.outputs p hm
    case inr => exact .other hd hi

end Controller.Numbered

namespace System

section

variable {cfg : Config} {s s₀ s₁ s' : System} {e e₀ : Event} {es es₀ : List Event} [Libm Float]

theorem tick_numbered {clock : TickClock} {follower : FollowerResult}
    (h : s.step cfg (.tick clock follower) = some s') (hn : s.controller.Numbered) :
    s'.controller.Numbered ∧
    s.controller.supervision.faultId ≤ s'.controller.supervision.faultId := by
  have ht := (step_tick h).1
  have next {n : ℕ} (hs : s'.controller.Stopped n s.controller.published)
      (hf : s.controller.supervision.faultId ≤ n) (hp : 0 < n) :
      s'.controller.Numbered ∧
      s.controller.supervision.faultId ≤ s'.controller.supervision.faultId :=
    ⟨hn.stopped hs hf hp, hs.faultId ▸ hf⟩
  cases hl : s.controller.supervision.latched
  case false =>
    rcases ht.of_not_latched hl with ⟨hp, _⟩ | ⟨hs, _⟩
    case inl => exact ⟨hn.passed hp, hp.faultId.ge⟩
    case inr => exact next hs (by omega) (by omega)
  case true =>
    rcases ht.of_latched hl with ⟨hs, _⟩ | hr
    case inl => exact next hs le_rfl (hn.episode hl)
    case inr =>
      rcases hr.output with hp | hs
      case inl => exact ⟨hn.passed hp, hp.faultId.ge⟩
      case inr => exact next hs (by omega) (by omega)

theorem step_numbered (h : s.step cfg e = some s') (hn : s.controller.Numbered) :
    s'.controller.Numbered ∧
    s.controller.supervision.faultId ≤ s'.controller.supervision.faultId := by
  cases e
  case tick => exact tick_numbered h hn
  case siRx => cases h; exact ⟨hn, le_rfl⟩
  case receive msg clock =>
    cases h
    have hp : (s.controller.receive cfg clock msg).published = s.controller.published :=
      Controller.receive_published
    rcases s.controller.receive_faulted cfg clock msg with hf | ⟨_, hr⟩
    case inr => exact ⟨hn.silent hp (by simp [hr]) (by simpa [hr] using hn.episode), by simp [hr]⟩
    case inl =>
      cases hf
      case unchanged hs _ => exact ⟨hn.silent hp (by rw [hs]) (hs ▸ hn.episode), by simp [hs]⟩
      case latches hf _ => exact ⟨hn.silent hp (by simp [hf]) (fun _ => by simp [hf]), by simp [hf]⟩
      case continues hl _ hf _ =>
        exact ⟨hn.silent hp hf.ge (fun _ => hf ▸ hn.episode hl), by simp [hf]⟩

theorem run_numbered (h : Run (System.step cfg) s es s') (hn : s.controller.Numbered) :
    s'.controller.Numbered ∧
    s.controller.supervision.faultId ≤ s'.controller.supervision.faultId := by
  induction h
  case nil => exact ⟨hn, le_rfl⟩
  case cons he _ _ ih =>
    have ⟨hn₁, hf₁⟩ := step_numbered he hn
    have ⟨hn', hf'⟩ := ih hn₁
    exact ⟨hn', hf₁.trans hf'⟩

theorem latched_tick_returns {clock : TickClock} {follower : FollowerResult}
    (hl : s.controller.supervision.latched = true)
    (h : s.step cfg (.tick clock follower) = none) :
    s.controller.reenable.pending = true ∧ s.controller.AllFresh cfg clock.now := by
  let c := s.controller.checked cfg s.channel clock
  have hf : s.controller.Faulted c := Controller.checked_faulted
  by_cases hc : Controller.Clears cfg s.channel clock.now c
  case pos =>
    have hi : c.toInputs = s.controller.toInputs := Controller.checked_toInputs
    exact ⟨hf.pending hc.pending ▸ hc.pending, hi ▸ hc.allFresh⟩
  case neg => simp [step, Controller.callbackTimerControl_of_stops (hf.latched hl).1 hc] at h

-- A tick that ends an episode, after a press that was made since its latch edge.
structure Ends (cfg : Config) (s₁ : System) (es : List Event) (clock : TickClock) (s s' : System) :
    Prop where
  stops    : Along (System.step cfg) (Stops s₁.controller.supervision.faultId) s₁ es s
  reopened : s.controller.Reopened cfg s.channel clock.now s'.controller
  pressed  : ∃ press, .receive (.reenable true) press ∈ es ∧
    s.controller.reenable = .request press.now.seconds

theorem latch_episode (hr : Run (System.step cfg) .init es₀ s₀) (he : s₀.step cfg e₀ = some s₁)
    (hl : s₁.controller.supervision.latched = true)
    (hn : s₀.controller.supervision.latched = false ∨
      s₁.controller.supervision.faultId ≠ s₀.controller.supervision.faultId)
    (h : Run (System.step cfg) s₁ es s') (hw : s'.controller.supervision.faultId < 2 ^ 32) :
    0 < UInt32.ofNat s₁.controller.supervision.faultId ∧
    (∀ p ∈ s₀.controller.published,
      p.approved.faultId < .ofNat s₁.controller.supervision.faultId) ∧
    (∀ p ∈ s'.controller.published,
      p.approved.faultId = 0 ↔ p.approved.decision ≠ Decision.siStop.toUInt8) ∧
    (Along (System.step cfg) (Stops s₁.controller.supervision.faultId) s₁ es s' ∨
      ∃ es₁ clock follower es₂ t t', es = es₁ ++ .tick clock follower :: es₂ ∧
        t.step cfg (.tick clock follower) = some t' ∧ Ends cfg s₁ es₁ clock t t' ∧
        Run (System.step cfg) t' es₂ s') ∧
    (s'.controller.supervision.latched = true → ∀ clock follower,
      s'.step cfg (.tick clock follower) = none →
      s'.controller.reenable.pending = true ∧ s'.controller.AllFresh cfg clock.now) ∧
    (s'.controller.supervision.latched = true → ∀ clock follower t,
      s'.step cfg (.tick clock follower) = some t →
      Controller.Clears cfg s'.channel clock.now (s'.controller.checked cfg s'.channel clock) →
      s'.controller.Reopened cfg s'.channel clock.now t.controller) ∧
    (∀ clock, s'.controller.Answered cfg s'.channel clock.now →
      Controller.Clears cfg s'.channel clock.now
        (s'.controller.checked cfg s'.channel clock)) := by
  have ⟨hi, hp⟩ := step_edge he hl hn
  have ⟨hn₀, _⟩ := run_numbered hr .init
  have ⟨hn₁, hf₁⟩ := step_numbered he hn₀
  have ⟨hn', hf'⟩ := run_numbered h hn₁
  have hw₁ := hf'.trans_lt hw
  refine ⟨?pos, fun p hm => (hn₀.outputs p hm).faultId_lt (by omega) hw₁,
    fun p hm => (hn'.outputs p hm).faultId_eq_zero_iff hw, ?_,
    fun hl _ _ => latched_tick_returns hl,
    fun hl _ _ _ ht hc => (step_tick ht).1.of_clears hl hc, fun _ ha => ha.clears⟩
  case pos => rw [UInt32.lt_iff_toNat_lt, UInt32.toNat_ofNat_of_lt' hw₁, hi]; simp
  -- the first step that leaves the episode is a tick that clears the latch
  rcases h.until_first (Stops s₁.controller.supervision.faultId) with
    ha | ⟨es₁, e, es₂, t, t', rfl, ha, ht, _, hs, h₂⟩
  case inl => exact .inl ha
  case inr =>
    have ⟨hl, hf⟩ := ha.invariant (P := fun s => s.controller.supervision.latched = true ∧
      s.controller.supervision.faultId = s₁.controller.supervision.faultId)
      (fun _ q _ => ⟨q.1, q.2.1⟩) ⟨hl, rfl⟩
    rcases step_of_latched hl ht with hs' | ⟨clock, follower, rfl, hre⟩
    case inl => exact absurd (hf ▸ hs') hs
    case inr =>
      refine .inr ⟨es₁, clock, follower, es₂, t, t', rfl, ht, ⟨ha, hre, ?_⟩, h₂⟩
      rcases run_reenable ha.run hre.pending with heq | hpress
      case inr => exact hpress
      case inl => simp [← heq, hre.pending] at hp

end

open Sample in
-- The odometry is lost for a second, all sources come back, and a press clears the latch at the next
-- tick.
theorem latch_episode_odometry :
    let cfg := config .vpControl .vp
    let es₀ := feedback 1 ++ [message 1 (command 1 0.25)]
    let es := feedback 2 ++ [message 2 (command 2 0.25), message 2 (.reenable true)]
    let s₁ := after cfg (es₀ ++ [tick 2 .notReady])
    let s' := after cfg (es₀ ++ [tick 2 .notReady] ++ es)
    Along (System.step cfg) (Stops s₁.controller.supervision.faultId) s₁ es s' ∧
    s'.controller.Reopened cfg s'.channel (second 2).wall
      (after cfg (es₀ ++ [tick 2 .notReady] ++ es ++ [tick 2 .notReady])).controller := by
  intro cfg es₀ es s₁ s'
  have he : (after cfg es₀).step cfg (tick 2 .notReady) = some s₁ := step_after (by decide +kernel)
  have hl : s₁.controller.supervision.latched = true := by decide +kernel
  have hn : (after cfg es₀).controller.supervision.latched = false := by decide +kernel
  have hl' : s'.controller.supervision.latched = true := by decide +kernel
  have h : Run (System.step cfg) s₁ es s' := run_after_append (by decide +kernel)
  have ht : s'.step cfg (tick 2 .notReady) =
    some (after cfg (es₀ ++ [tick 2 .notReady] ++ es ++ [tick 2 .notReady])) :=
      step_after (by decide +kernel)
  obtain ⟨_, _, _, ends, _, clears, _⟩ :=
    latch_episode (run_after (by decide +kernel)) he hl (.inl hn) h (by decide +kernel)
  constructor
  case left =>
    refine ends.resolve_right ?_
    rintro ⟨es₁, clock, follower, es₂, -, -, heq, -⟩
    have hm : Event.tick clock follower ∈ es := by simp [heq]
    have hn : ∀ e ∈ es, e.isTick = false := by decide +kernel
    cases hn _ hm
  case right =>
    exact clears hl' _ _ _ ht ⟨by decide +kernel, by decide +kernel, by decide +kernel,
      by decide +kernel⟩

end System
end SafetyIsland

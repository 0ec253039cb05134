import SafetyIsland.Controller.Observed

namespace SafetyIsland

open Ieee Supervision Transition

theorem WallTime.young {q q' t t' : WallTime} {window : Float} (hq : q ≤ q') (ht : t ≤ t')
    (h : ¬t'.seconds - q.seconds > window) : ¬t.seconds - q'.seconds > window := by
  have h₁ := fsub_le_fsub_right ht t.finite t'.finite q'.finite
  have h₂ := fsub_le_fsub_left hq q.finite q'.finite t'.finite
  exact not_lt_of_le_of_not_lt (fle_trans h₁ h₂) h

def Inputs.lost (cfg : Config) (i : Inputs) (now : WallTime) : List String :=
  ((i.watched cfg).filter fun check => check.watch.stale now.seconds check.timeout).map (·.name)

namespace Controller

variable {cfg : Config} {c c' : Controller} {channel : SiChannel} {clock : TickClock}

structure Steady (cfg : Config) (channel : SiChannel) (now : WallTime) (c : Controller) : Prop where
  source : ∀ {r}, c.supervisorStaleReason cfg now.seconds = some r → c.supervision.reason = r.1
  input  : cfg.x5h = true → channel.faultEvents ≠ c.siFaultEventsSeen →
    c.supervision.reason = "si fault input"

theorem latchFault_eq {why : String} {clock : ClockReading} (hl : c.supervision.latched = true)
    (hr : c.supervision.reason = why) : c.latchFault cfg why clock = c := by
  simp [latchFault, hl, hr]

theorem checked_of_steady (hl : c.supervision.latched = true)
    (hs : Steady cfg channel clock.now c) :
    ∃ seen, c.checked cfg channel clock = { c with siFaultEventsSeen := seen } := by
  have h₁ : c.superviseSources cfg clock = c := by
    unfold superviseSources
    split
    case h_1 h => exact latchFault_eq hl (hs.source h)
    case h_2 => rfl
  rw [checked, h₁, superviseFaultInput]
  split
  case isTrue h => exact ⟨_, latchFault_eq hl (hs.input h.1 h.2)⟩
  case isFalse => exact ⟨_, rfl⟩

theorem Ticks.keeps {q : WallTime} (hl : c.supervision.latched = true)
    (hq : c.reenable = .request q.seconds) (hs : Steady cfg channel clock.now c)
    (hy : ¬clock.now.seconds - q.seconds > cfg.params.reenableWindowS)
    (hf : c.allSourcesFresh cfg channel clock.now.seconds = false)
    (h : Ticks cfg channel clock c c') :
    c'.supervision.latched = true ∧ c'.reenable = .request q.seconds := by
  have ⟨seen, hc⟩ := checked_of_steady hl hs
  cases h
  case stops =>
    rw [hc]
    simp only [publishSiStop, publishApprovedRequest_supervision, publishApprovedRequest_reenable]
    refine ⟨hl, ?_⟩
    simp only [expired, hq]
    exact ReenableRequest.expireIfOld_of_pending
      (ReenableRequest.expireIfOld_pending.mpr ⟨rfl, hy⟩)
  case decides hr _ =>
    rw [hc] at hr
    cases hr
    case unlatched hn _ => simp [hl] at hn
    case clears h _ => simp [h.fresh] at hf

theorem Ticks.reopens {q : WallTime} (hl : c.supervision.latched = true)
    (hq : c.reenable = .request q.seconds) (hs : Steady cfg channel clock.now c)
    (hy : ¬clock.now.seconds - q.seconds > cfg.params.reenableWindowS)
    (hf : c.allSourcesFresh cfg channel clock.now.seconds = true)
    (h : Ticks cfg channel clock c c') : Reopened cfg channel clock.now c c' := by
  have ⟨seen, hc⟩ := checked_of_steady hl hs
  refine h.of_clears hl ?_
  rw [hc]
  exact ⟨hl, by rw [hq]; rfl, by rw [hq]; exact hy, hf⟩

end Controller

namespace System

def Recovering [Libm Float] (cfg : Config) (lost : List String) (s : System) (e : Event) : Prop :=
  match e with
  | .receive msg clock => (s.controller.ingest cfg clock msg).isOk = true
  | .siRx data         => cfg.x5h = true → s.channel.rises data = false
  | .tick clock _      => (∀ name ∈ s.controller.lost cfg clock.now, name ∈ lost) ∧
    s.controller.allSourcesFresh cfg s.channel clock.now.seconds = false

def Steady (cfg : Config) (s : System) (e : Event) (_ : System) : Prop :=
  match e with
  | .tick clock _ => s.controller.Steady cfg s.channel clock.now
  | _             => True

def OnePress [Libm Float] (cfg : Config) (Q : System → Event → System → Prop) : Prop :=
  ∀ {es₀ es press clock follower} {s s₁ s₂ s₃ : System},
    Run (System.step cfg) .init es₀ s → s.controller.supervision.latched = true →
    s.step cfg (.receive (.reenable true) press) = some s₁ →
    Along (System.step cfg)
      (fun t e t' => Recovering cfg (s.controller.lost cfg press.now) t e ∧ Q t e t') s₁ es s₂ →
    Ordered (.receive (.reenable true) press :: (es ++ [.tick clock follower])) →
    s₂.controller.allSourcesFresh cfg s₂.channel clock.now.seconds = true →
    ¬clock.now.seconds - press.now.seconds > cfg.params.reenableWindowS →
    s₂.step cfg (.tick clock follower) = some s₃ → Q s₂ (.tick clock follower) s₃ →
    s₂.controller.Reopened cfg s₂.channel clock.now s₃.controller

section

variable {cfg : Config} {s s' : System} {es : List Event} [Libm Float]

theorem run_keeps {lost : List String} {q now : WallTime}
    (h : Along (System.step cfg)
      (fun s e s' => Recovering cfg lost s e ∧ Steady cfg s e s') s es s')
    (hl : s.controller.supervision.latched = true) (hq : s.controller.reenable = .request q.seconds)
    (ho : (q :: es.filterMap Event.now ++ [now]).Pairwise (· ≤ ·))
    (hy : ¬now.seconds - q.seconds > cfg.params.reenableWindowS) :
    s'.controller.supervision.latched = true ∧ ∃ q' : WallTime,
      s'.controller.reenable = .request q'.seconds ∧
      ¬now.seconds - q'.seconds > cfg.params.reenableWindowS := by
  induction h generalizing q
  case nil => exact ⟨hl, q, hq, hy⟩
  case cons s s₁ s' e es he hs _ ih =>
    rw [List.cons_append, List.pairwise_cons] at ho
    obtain ⟨hle, ho⟩ := ho
    cases e
    case siRx =>
      rw [← Option.some.inj he] at ih
      exact ih hl hq (List.pairwise_cons.mpr ⟨hle, ho⟩) hy
    case tick clock follower =>
      simp only [List.filterMap_cons, Event.now, List.cons_append, List.pairwise_cons] at ho
      have ht : clock.now ≤ now := ho.1 now (by simp)
      have ⟨hl₁, hq₁⟩ := (step_tick he).1.keeps hl hq hs.2 (WallTime.young q.le_refl ht hy) hs.1.2
      exact ih hl₁ hq₁ (List.pairwise_cons.mpr ⟨fun t hm => hle t (List.mem_cons_of_mem _ hm), ho.2⟩) hy
    case receive msg clock =>
      simp only [List.filterMap_cons, Event.now, List.cons_append, List.pairwise_cons] at ho
      have hkeep := List.pairwise_cons.mpr ⟨fun t hm => hle t (List.mem_cons_of_mem _ hm), ho.2⟩
      rw [← Option.some.inj he] at ih
      cases hi : s.controller.ingest cfg clock msg
      case error => simp [Recovering, hi, Except.isOk, Except.toBool] at hs
      case ok c =>
        simp only [Controller.receive, hi] at ih
        cases Controller.ingest_accepts hi
        case press =>
          exact ih hl rfl (List.pairwise_cons.mpr ho)
            (WallTime.young (hle clock.now List.mem_cons_self) now.le_refl hy)
        all_goals exact ih hl hq hkeep hy

theorem onePress_of_steady (cfg : Config) : OnePress cfg (Steady cfg) := by
  intro es₀ es press clock follower s s₁ s₂ s₃ _ hl hp h ho hf hy ht hs
  have hs₁ : { s with controller := { s.controller with
      reenable := .request press.now.seconds } } = s₁ := Option.some.inj hp
  have ho' : (press.now :: es.filterMap Event.now ++ [clock.now]).Pairwise (· ≤ ·) := by
    simpa [Ordered, Event.now] using ho
  have ⟨hl₂, q, hq, hy₂⟩ := run_keeps h (by rw [← hs₁]; exact hl) (by rw [← hs₁]) ho' hy
  exact (step_tick ht).1.reopens hl₂ hq hs hy₂ hf

end

open Sample

-- Odometry and acceleration are lost. The odometry comes back first, so the reason of the latch
-- becomes the acceleration, and the press is gone when the acceleration is back too.
theorem onePress_fails : ¬OnePress (config .vpControl .vp) fun _ _ _ => True := by
  intro h
  let cfg := config .vpControl .vp
  let es₀ := stopped [steering 0]
  let press := message 2 (.reenable true)
  let es₁ := es₀ ++ [press]
  let es₂ := es₁ ++ [message 2 odometry]
  let es₃ := es₂ ++ [tick 2 .notReady]
  let es₄ := es₃ ++ [message 2 acceleration]
  have h₀ : Run (System.step cfg) .init es₀ (after cfg es₀) := run_after (by decide +kernel)
  have h₁ : (after cfg es₀).step cfg press = some (after cfg es₁) := step_after (by decide +kernel)
  have h₂ : (after cfg es₁).step cfg (message 2 odometry) = some (after cfg es₂) :=
    step_after (by decide +kernel)
  have h₃ : (after cfg es₂).step cfg (tick 2 .notReady) = some (after cfg es₃) :=
    step_after (by decide +kernel)
  have h₄ : (after cfg es₃).step cfg (message 2 acceleration) = some (after cfg es₄) :=
    step_after (by decide +kernel)
  have h₅ : (after cfg es₄).step cfg (tick 2 .notReady) =
      some (after cfg (es₄ ++ [tick 2 .notReady])) := step_after (by decide +kernel)
  let lost := (after cfg es₀).controller.lost cfg (second 2).wall
  have r₂ : Recovering cfg lost (after cfg es₁) (message 2 odometry) := by
    change Except.isOk _ = true
    decide +kernel
  have r₃ : Recovering cfg lost (after cfg es₂) (tick 2 .notReady) := by
    change (∀ name ∈ _, name ∈ lost) ∧ _ = false
    decide +kernel
  have r₄ : Recovering cfg lost (after cfg es₃) (message 2 acceleration) := by
    change Except.isOk _ = true
    decide +kernel
  have ha : Along (System.step cfg) (fun t e _ => Recovering cfg lost t e ∧ True) (after cfg es₁)
      [message 2 odometry, tick 2 .notReady, message 2 acceleration] (after cfg es₄) :=
    .cons h₂ ⟨r₂, trivial⟩ <| .cons h₃ ⟨r₃, trivial⟩ <| .single h₄ ⟨r₄, trivial⟩
  have hp : (after cfg es₄).controller.reenable.pending = false := by decide +kernel
  have hr := h h₀ (by decide +kernel) h₁ ha (by decide +kernel) (by decide +kernel)
    (by decide +kernel) h₅ trivial
  rw [hr.pending] at hp
  cases hp

-- The odometry alone is lost, and a tick after the press still finds it stale.
theorem onePress_of_steady_odometry :
    let cfg := config .vpControl .vp
    let es := stopped [steering 0, acceleration] ++ [message 2 (.reenable true), tick 2 .notReady,
      message 2 odometry]
    (after cfg es).controller.Reopened cfg (after cfg es).channel (second 2).wall
      (after cfg (es ++ [tick 2 .notReady])).controller := by
  intro cfg es
  let es₀ := stopped [steering 0, acceleration]
  let press := message 2 (.reenable true)
  let es₁ := es₀ ++ [press]
  let es₂ := es₁ ++ [tick 2 .notReady]
  have h₀ : Run (System.step cfg) .init es₀ (after cfg es₀) := run_after (by decide +kernel)
  have h₁ : (after cfg es₀).step cfg press = some (after cfg es₁) := step_after (by decide +kernel)
  have h₂ : (after cfg es₁).step cfg (tick 2 .notReady) = some (after cfg es₂) :=
    step_after (by decide +kernel)
  have h₃ : (after cfg es₂).step cfg (message 2 odometry) =
      some (after cfg (es₂ ++ [message 2 odometry])) := step_after (by decide +kernel)
  have h₄ : (after cfg es).step cfg (tick 2 .notReady) =
      some (after cfg (es ++ [tick 2 .notReady])) := step_after (by decide +kernel)
  let lost := (after cfg es₀).controller.lost cfg (second 2).wall
  have r₂ : Recovering cfg lost (after cfg es₁) (tick 2 .notReady) := by
    change (∀ name ∈ _, name ∈ lost) ∧ _ = false
    decide +kernel
  have r₃ : Recovering cfg lost (after cfg es₂) (message 2 odometry) := by
    change Except.isOk _ = true
    decide +kernel
  have hr : ∀ r ∈ (after cfg es₁).controller.supervisorStaleReason cfg (second 2).wall.seconds,
      (after cfg es₁).controller.supervision.reason = r.1 := by decide +kernel
  have hf : (after cfg es).controller.supervisorStaleReason cfg (second 2).wall.seconds = none := by
    decide +kernel
  have s₂ : Steady cfg (after cfg es₁) (tick 2 .notReady) (after cfg es₂) := ⟨hr _, nofun⟩
  have s₄ : Steady cfg (after cfg es) (tick 2 .notReady) (after cfg (es ++ [tick 2 .notReady])) :=
    ⟨fun h => absurd (hf.symm.trans h) nofun, nofun⟩
  have ha : Along (System.step cfg) (fun t e t' => Recovering cfg lost t e ∧ Steady cfg t e t')
      (after cfg es₁) [tick 2 .notReady, message 2 odometry] (after cfg es) :=
    .cons h₂ ⟨r₂, s₂⟩ <| .single h₃ ⟨r₃, trivial⟩
  exact onePress_of_steady cfg h₀ (by decide +kernel) h₁ ha (by decide +kernel) (by decide +kernel)
    (by decide +kernel) h₄ s₄

end System
end SafetyIsland

import SafetyIsland.Controller.Observed

namespace SafetyIsland

open Ieee Supervision Transition

namespace Controller

variable {cfg : Config} {c c' : Controller} {clock : CallbackClock}

theorem not_repeats_latchFault {why text : String} {clock : ClockReading} (hn : why ≠ text) :
    ¬(c.latchFault cfg why clock).Repeats text := fun h =>
  hn ((latchFault_reason cfg c why clock).symm.trans h.reason)

end Controller

namespace System

variable {cfg : Config} {s s' : System} {e : Event}

-- A fault event that has happened and is not answered: the latch is closed without a pending press,
-- or an edge of the fault input is counted that the next tick will close it for.
inductive Held (cfg : Config) (s : System) : Prop
  | latched (hl : s.controller.supervision.latched = true)
    (hp : s.controller.reenable.pending = false)
  | edge (hx : cfg.x5h = true) (he : s.channel.faultEvents ≠ s.controller.siFaultEventsSeen)
    (hr : ¬s.controller.Repeats "si fault input")

theorem Held.receive [Libm Float] {msg : Message} {clock : CallbackClock}
    (hp : Event.isPress (.receive msg clock) = false) (h : Held cfg s) :
    Held cfg { s with controller := s.controller.receive cfg clock msg } := by
  cases h
  case latched hl hpend =>
    rcases s.controller.receive_faulted cfg clock msg with hf | ⟨rfl, _⟩
    case inl => exact .latched (hf.latched hl).1 (hf.not_pending hpend)
    case inr => cases hp
  case edge hx he hr =>
    refine .edge hx ?seen ?reason
    case seen =>
      simp only [Controller.receive]
      split
      case h_1 h => cases Controller.ingest_accepts h <;> exact he
      case h_2 => simpa using he
    case reason =>
      simp only [Controller.receive]
      split
      case h_2 h => exact Controller.not_repeats_latchFault (Controller.ingest_error_ne h)
      case h_1 h =>
        cases Controller.ingest_accepts h
        case press => cases hp
        all_goals exact fun h => hr ⟨h.latched, h.pending, h.reason⟩

theorem Held.checked {clock : TickClock} (h : Held cfg s) :
    (s.controller.checked cfg s.channel clock).supervision.latched = true ∧
    (s.controller.checked cfg s.channel clock).reenable.pending = false := by
  cases h
  case latched hl hp =>
    have hf : s.controller.Faulted (s.controller.checked cfg s.channel clock) :=
      Controller.checked_faulted
    exact ⟨(hf.latched hl).1, hf.not_pending hp⟩
  case edge hx he hr =>
    have hr₁ : ¬(s.controller.superviseSources cfg clock).Repeats "si fault input" := by
      unfold Controller.superviseSources
      split
      case h_1 h => exact Controller.not_repeats_latchFault (Controller.staleReason_ne h)
      case h_2 => exact hr
    have hs₁ : (s.controller.superviseSources cfg clock).siFaultEventsSeen =
        s.controller.siFaultEventsSeen := by
      unfold Controller.superviseSources
      split <;> simp
    rw [Controller.checked, Controller.superviseFaultInput, if_pos ⟨hx, hs₁ ▸ he⟩]
    exact ⟨Controller.latchFault_latched .., Controller.latchFault_pending_of_not_repeats
      fun h => hr₁ ⟨h.latched, h.pending, h.reason⟩⟩

theorem tick_of_checked [Libm Float] {clock : TickClock} {follower : FollowerResult}
    (hl : (s.controller.checked cfg s.channel clock).supervision.latched = true)
    (hp : (s.controller.checked cfg s.channel clock).reenable.pending = false)
    (hs : s.step cfg (.tick clock follower) = some s') :
    Held cfg s' ∧ ∃ n, s'.controller.Stopped n s.controller.published := by
  have ⟨n, hs, hp'⟩ := (step_tick hs).1.of_checked hl hp
  exact ⟨.latched hs.latched hp', n, hs⟩

theorem Held.tick [Libm Float] {clock : TickClock} {follower : FollowerResult}
    (h : Held cfg s) (hs : s.step cfg (.tick clock follower) = some s') :
    Held cfg s' ∧ ∃ n, s'.controller.Stopped n s.controller.published :=
  tick_of_checked h.checked.1 h.checked.2 hs

end System

namespace Observed

-- Every fault event that a step handles differs from the one that is latched while a press is
-- pending, and the counter of the edges does not come round to the value that is seen.
def Distinct [Libm Float] (cfg : Config) (o : Observed) (e : Event) (_ : Observed) : Prop :=
  match e with
  | .receive msg clock => ∀ {why}, o.controller.ingest cfg clock msg = .error why →
      ¬o.controller.Repeats why
  | .siRx data => cfg.x5h = true → o.channel.rises data = true →
      (o.channel.rx data).faultEvents ≠ o.controller.siFaultEventsSeen ∧
      ¬o.controller.Repeats "si fault input"
  | .tick clock _ => ∀ {check reason}, check ∈ o.controller.watched cfg →
      check.watch.stale clock.now.seconds check.timeout = true → check ∉ o.stale →
      o.controller.supervisorStaleReason cfg clock.now.seconds = some reason →
      ¬o.controller.Repeats reason.1

instance decidableRepeats (c : Controller) (why : String) : Decidable (c.Repeats why) :=
  decidable_of_iff (c.supervision.latched = true ∧ c.reenable.pending = true ∧
    c.supervision.reason = why)
    ⟨fun h => ⟨h.1, h.2.1, h.2.2⟩, fun h => ⟨h.latched, h.pending, h.reason⟩⟩

instance decidableDistinct [Libm Float] (cfg : Config) (o : Observed) (e : Event)
    (o' : Observed) : Decidable (Distinct cfg o e o') :=
  match e with
  | .receive msg clock =>
    match h : o.controller.ingest cfg clock msg with
    | .ok _ => isTrue fun h' => by cases h.symm.trans h'
    | .error why => decidable_of_iff (¬o.controller.Repeats why)
      ⟨fun hn why' h' => by cases h.symm.trans h'; exact hn, fun hd => hd h⟩
  | .siRx data => inferInstanceAs (Decidable (cfg.x5h = true → o.channel.rises data = true →
      (o.channel.rx data).faultEvents ≠ o.controller.siFaultEventsSeen ∧
      ¬o.controller.Repeats "si fault input"))
  | .tick clock _ => decidable_of_iff (∀ check ∈ o.controller.watched cfg,
      check.watch.stale clock.now.seconds check.timeout = true → check ∉ o.stale →
      ∀ reason ∈ o.controller.supervisorStaleReason cfg clock.now.seconds,
        ¬o.controller.Repeats reason.1)
      ⟨fun h _ _ hm hs hn hr => h _ hm hs hn _ hr, fun h _ hm hs hn _ hr => h hm hs hn hr⟩

variable {cfg : Config} {o o' : Observed} {e : Event} {es : List Event} [Libm Float]

theorem held_siRx {data : List UInt8} (hd : Distinct cfg o (.siRx data) o')
    (h : o.step cfg (.siRx data) = some o')
    (hh : o.Held cfg ∨ cfg.x5h = true ∧ o.channel.rises data = true) : o'.Held cfg := by
  have hs : { o.toSystem with channel := o.channel.rx data } = o'.toSystem :=
    Option.some.inj (step_toSystem h)
  rw [← hs]
  cases hr : o.channel.rises data
  case false =>
    have hf := o.channel.rx_faultEvents data
    simp only [hr, Bool.false_eq_true, if_false, and_false, or_false] at hf hh
    cases hh
    case latched hl hp => exact .latched hl hp
    case edge hx he hn => exact .edge hx (by rwa [hf]) hn
  case true =>
    cases hx : cfg.x5h
    case true => exact .edge hx (hd hx hr).1 (hd hx hr).2
    case false =>
      simp only [hx, Bool.false_eq_true, false_and, or_false] at hh
      cases hh
      case latched hl hp => exact .latched hl hp
      case edge hx' _ _ => simp [hx] at hx'

theorem held_step (hp : e.isPress = false) (hd : Distinct cfg o e o') (h : o.step cfg e = some o')
    (hh : o.Held cfg) : o'.Held cfg := by
  cases e
  case tick => exact (hh.tick (step_toSystem h)).1
  case siRx => exact held_siRx hd h (.inl hh)
  case receive msg clock =>
    have hs : { o.toSystem with controller := o.controller.receive cfg clock msg } = o'.toSystem :=
      Option.some.inj (step_toSystem h)
    exact hs ▸ hh.receive hp

theorem held_run (h : Along (Observed.step cfg) (Distinct cfg) o es o')
    (hp : ∀ e ∈ es, e.isPress = false) (hh : o.Held cfg) : o'.Held cfg := by
  induction h
  case nil => exact hh
  case cons e es he hd _ ih =>
    exact ih (fun e hm => hp e (List.mem_cons_of_mem _ hm))
      (held_step (hp e List.mem_cons_self) hd he hh)

theorem held_of_fault (hf : Fault cfg o e) (hd : Distinct cfg o e o') (h : o.step cfg e = some o') :
    o'.Held cfg ∧ (e.isTick = true → ∃ n, o'.controller.Stopped n o.controller.published) := by
  have hs := step_toSystem h
  cases hf
  case edge hx hr => exact ⟨held_siRx hd h (.inr ⟨hx, hr⟩), nofun⟩
  case ingress hi =>
    have hc := Option.some.inj hs
    refine ⟨?_, nofun⟩
    rw [← hc, Controller.receive, hi]
    exact .latched (Controller.latchFault_latched ..)
      (Controller.latchFault_pending_of_not_repeats (hd hi))
  case source clock follower check hm hst hn =>
    obtain ⟨r, hr⟩ := Option.isSome_iff_exists.mp (Controller.supervisorStaleReason_isSome hm hst)
    have h₁ : o.controller.superviseSources cfg clock =
        o.controller.latchFault cfg r.1 clock.stale := by
      simp [Controller.superviseSources, hr]
    have hf : (o.controller.superviseSources cfg clock).Faulted
        (o.controller.checked cfg o.channel clock) := Controller.superviseFaultInput_faulted
    rw [h₁] at hf
    have ht := System.tick_of_checked (hf.latched (Controller.latchFault_latched ..)).1
      (hf.not_pending (Controller.latchFault_pending_of_not_repeats (hd hm hst hn hr))) hs
    exact ⟨ht.1, fun _ => ht.2⟩
  case follower clock lat lon c why hm hr hdata hv =>
    have ho : c.published = o.controller.published := by
      rw [hr.toOutputs_eq, Controller.checked_toOutputs]
    obtain ⟨c', hc, h'⟩ := Option.bind_eq_some_iff.mp hs
    rw [Controller.callbackTimerControl_of_resumes hr,
      Controller.decideCycle_of_violation hm hdata hv] at hc
    have hc' : o'.controller = c' := (congrArg System.controller (Option.some.inj h')).symm
    rw [Option.some.injEq, ← hc'] at hc
    have hdec := Controller.Decides.violation lat lon why hm hdata hv
    rw [hc] at hdec
    rcases hdec.outcome hr.not_latched rfl ho with ⟨hp, _⟩ | ⟨hst, hp⟩
    case inl =>
      have hl := hp.unlatched
      rw [← hc] at hl
      simp [Controller.publishSiStop] at hl
    case inr => exact ⟨.latched hst.latched hp, fun _ => ⟨_, hst⟩⟩

end Observed

theorem Controller.Stopped.not_normal {c' : Controller} {n : ℕ} {l : List Published} {p : Published}
    (h : c'.Stopped n l) (hp : c'.published = l ++ [p]) :
    p.approved.decision ≠ Decision.normal.toUInt8 := by
  have ⟨q, hq, hd, _⟩ := h.published
  rw [hp, List.append_cancel_left_eq, List.singleton_inj] at hq
  rw [hq, hd]
  decide

section

variable [Libm Float]

-- In every run whose steps satisfy `Q`, no tick publishes NORMAL from a fault event on, its own tick
-- included, until another press is received.
def NeedsPress (cfg : Config) (Q : Observed → Event → Observed → Prop) : Prop :=
  ∀ {es₁ es₂ e clock follower} {o o₁ o₂ o₃ : Observed},
    Along (Observed.step cfg) Q .init es₁ o → o.step cfg e = some o₁ → Q o e o₁ → Fault cfg o e →
    Along (Observed.step cfg) Q o₁ es₂ o₂ → (∀ e ∈ es₂, e.isPress = false) →
    o₂.step cfg (.tick clock follower) = some o₃ →
    ∀ p, o₁.controller.published = o.controller.published ++ [p] ∨
        o₃.controller.published = o₂.controller.published ++ [p] →
      p.approved.decision ≠ Decision.normal.toUInt8

theorem needsPress_of_distinct (cfg : Config) : NeedsPress cfg (Observed.Distinct cfg) := by
  intro es₁ es₂ e clock follower o o₁ o₂ o₃ _ he hd hf h₂ hp ht p hpub
  have ⟨hh, hs⟩ := Observed.held_of_fault hf hd he
  rcases hpub with hpub | hpub
  case inr =>
    have ⟨_, n, hs⟩ := (Observed.held_run h₂ hp hh).tick (Observed.step_toSystem ht)
    exact hs.not_normal hpub
  case inl =>
    cases e
    case tick =>
      have ⟨n, hs⟩ := hs rfl
      exact hs.not_normal hpub
    case siRx =>
      have hc := Option.some.inj (Observed.step_toSystem he)
      rw [← hc] at hpub
      simp at hpub
    case receive =>
      have hc := Option.some.inj (Observed.step_toSystem he)
      rw [← hc, Controller.receive_published] at hpub
      simp at hpub

end

theorem Fault.of_not_ok [Libm Float] {cfg : Config} {o : Observed} {msg : Message}
    {clock : CallbackClock} (h : (o.controller.ingest cfg clock msg).isOk = false) :
    Fault cfg o (.receive msg clock) := by
  cases hi : o.controller.ingest cfg clock msg
  case error => exact .ingress hi
  case ok => simp [hi, Except.isOk, Except.toBool] at h

open Sample in
-- The fault of the second bad command repeats the reason of the first one, so the press that answered
-- the first one clears the latch.
theorem needsPress_fails : ¬NeedsPress (config .vpControl .vp) fun _ _ _ => True := by
  intro h
  let cfg := config .vpControl .vp
  let bad := message 1 (command 2 2)
  let es := feedback 1 ++ [message 1 (command 1 0.25), bad, message 1 (.reenable true)]
  let at' (es : List Event) := Transition.after (Observed.step cfg) .init es
  have h₁ : Run (Observed.step cfg) .init es (at' es) := run_after (by decide +kernel)
  have h₂ : (at' es).step cfg bad = some (at' (es ++ [bad])) := step_after (by decide +kernel)
  have h₃ : (at' (es ++ [bad])).step cfg (tick 1 .notReady) =
      some (at' (es ++ [bad] ++ [tick 1 .notReady])) := step_after (by decide +kernel)
  have hf : Fault cfg (at' es) bad := .of_not_ok (by decide +kernel)
  have ho : (at' (es ++ [bad])).controller.published = [] := by decide +kernel
  have hl : (at' (es ++ [bad] ++ [tick 1 .notReady])).controller.published.length = 1 := by
    decide +kernel
  have hn : ∀ p ∈ (at' (es ++ [bad] ++ [tick 1 .notReady])).controller.published,
      p.approved.decision = Decision.normal.toUInt8 := by decide +kernel
  have ⟨p, hp⟩ := List.length_eq_one_iff.mp hl
  have hm : p ∈ (at' (es ++ [bad] ++ [tick 1 .notReady])).controller.published := by
    rw [hp]
    exact List.mem_singleton_self p
  have h₀ : Run (Observed.step cfg) (at' (es ++ [bad])) [] (at' (es ++ [bad])) := .nil
  exact h h₁ h₂ trivial hf h₀ (by simp) h₃ p (.inr (by rw [ho, hp, List.nil_append])) (hn p hm)

open Sample in
-- A bad command, a press that answers it, a fault with another reason, a good command, and the next
-- tick.
theorem needsPress_of_distinct_command :
    let cfg := config .vpControl .vp
    let es₁ := feedback 1 ++ [message 1 (command 1 0.25), message 1 (command 2 2),
      message 1 (.reenable true)]
    let es := es₁ ++ [message 1 (command 2 (0 / 0))]
    let es₂ := [message 1 (command 3 0.25)]
    (Transition.after (Observed.step cfg) .init es₁).controller.reenable.pending = true ∧
    ∃ p, (Transition.after (Observed.step cfg) .init
        (es ++ es₂ ++ [tick 1 .notReady])).controller.published = [p] ∧
      p.approved.decision ≠ Decision.normal.toUInt8 := by
  intro cfg es₁ es es₂
  let at' (es : List Event) := Transition.after (Observed.step cfg) .init es
  let bad := message 1 (command 2 (0 / 0))
  have h₁ : Along (Observed.step cfg) (Observed.Distinct cfg) .init es₁ (at' es₁) :=
    along_after (by decide +kernel)
  have he : (at' es₁).step cfg bad = some (at' es) := step_after (by decide +kernel)
  have hd : Observed.Distinct cfg (at' es₁) bad (at' es) := by decide +kernel
  have hf : Fault cfg (at' es₁) bad := .of_not_ok (by decide +kernel)
  have h₂ : Along (Observed.step cfg) (Observed.Distinct cfg) (at' es) es₂ (at' (es ++ es₂)) :=
    .single (step_after (by decide +kernel)) (by decide +kernel)
  have h₃ : (at' (es ++ es₂)).step cfg (tick 1 .notReady) =
      some (at' (es ++ es₂ ++ [tick 1 .notReady])) := step_after (by decide +kernel)
  have ho : (at' (es ++ es₂)).controller.published = [] := by decide +kernel
  have hl : (at' (es ++ es₂ ++ [tick 1 .notReady])).controller.published.length = 1 := by
    decide +kernel
  obtain ⟨p, hp⟩ := List.length_eq_one_iff.mp hl
  exact ⟨by decide +kernel, p, hp, needsPress_of_distinct cfg h₁ he hd hf h₂ (by decide) h₃ p
    (.inr (by rw [ho, hp, List.nil_append]))⟩

end SafetyIsland

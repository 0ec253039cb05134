import SafetyIsland.Controller.Observed

namespace SafetyIsland

open Ieee Supervision Transition

namespace SiChannel

variable {c : SiChannel} {data : List UInt8} {ds : List (List UInt8)}

theorem rx_fault (c : SiChannel) (data : List UInt8) :
    (c.rx data).fault = if parse data = .faultSet then true
      else if parse data = .faultClear then false else c.fault := by
  unfold rx
  split <;> simp_all

theorem rx_of_fault (hf : c.fault = true) (hd : parse data ≠ .faultClear) :
    (c.rx data).fault = true ∧ (c.rx data).faultEvents = c.faultEvents := by
  rw [rx_fault, rx_faultEvents]
  simp [rises, hf, hd]

theorem foldl_rx_of_fault (hf : c.fault = true) (hd : ∀ d ∈ ds, parse d ≠ .faultClear) :
    (ds.foldl rx c).fault = true ∧ (ds.foldl rx c).faultEvents = c.faultEvents := by
  induction ds generalizing c
  case nil => exact ⟨hf, rfl⟩
  case cons d ds ih =>
    have ⟨hf', he⟩ := rx_of_fault hf (hd d List.mem_cons_self)
    have ⟨hfs, hes⟩ := ih hf' fun d' hm => hd d' (List.mem_cons_of_mem _ hm)
    exact ⟨hfs, hes.trans he⟩

theorem foldl_rx_of_unrecognised (hd : ∀ d ∈ ds, parse d ≠ .faultSet ∧ parse d ≠ .faultClear) :
    (ds.foldl rx c).fault = c.fault ∧ (ds.foldl rx c).faultEvents = c.faultEvents := by
  induction ds generalizing c
  case nil => exact ⟨rfl, rfl⟩
  case cons d ds ih =>
    have ⟨hs, hc⟩ := hd d List.mem_cons_self
    have ⟨hfs, hes⟩ := ih (c := c.rx d) fun d' hm => hd d' (List.mem_cons_of_mem _ hm)
    rw [rx_fault, if_neg hs, if_neg hc] at hfs
    rw [rx_faultEvents] at hes
    exact ⟨hfs, by simpa [rises, hs] using hes⟩

def edges : SiChannel → List (List UInt8) → ℕ
  | _, []      => 0
  | c, d :: ds => (if c.rises d then 1 else 0) + (c.rx d).edges ds

theorem foldl_rx_faultEvents :
    (ds.foldl rx c).faultEvents = c.faultEvents + .ofNat (c.edges ds) := by
  induction ds generalizing c
  case nil => simp [edges]
  case cons d ds ih =>
    rw [List.foldl_cons, ih, rx_faultEvents, edges]
    split_ifs
    case pos => simp [UInt32.add_assoc]
    case neg => simp

theorem rx_rises (hf : c.fault = false) (hr : (c.rx data).fault = true) : c.rises data = true := by
  rw [rx_fault] at hr
  by_cases hp : parse data = .faultSet
  case pos => simp [rises, hf, hp]
  case neg => simp [hp, hf] at hr

theorem edges_pos (hf : c.fault = false) (hr : (ds.foldl rx c).fault = true) : 0 < c.edges ds := by
  induction ds generalizing c
  case nil => simp [hf] at hr
  case cons d ds ih =>
    rw [edges]
    cases hd : (c.rx d).fault
    case true => simp [rx_rises hf hd]
    case false => exact Nat.add_pos_right _ (ih hd hr)

end SiChannel

namespace Controller

variable {cfg : Config} {c c' : Controller} {channel : SiChannel} {clock : TickClock}

-- What a latch under another name keeps out of the way of the fault input.
def OtherReason (c : Controller) : Prop :=
  c.supervision.latched = true → c.supervision.reason ≠ "si fault input"

theorem OtherReason.of_not_latched (h : c.supervision.latched = false) : c.OtherReason :=
  fun hl => absurd (hl.symm.trans h) Bool.true_eq_false.mp

theorem OtherReason.latchFault {why : String} {clock : ClockReading} (h : why ≠ "si fault input") :
    (c.latchFault cfg why clock).OtherReason := by
  intro _
  rwa [latchFault_reason]

theorem OtherReason.superviseSources (h : c.OtherReason) :
    (c.superviseSources cfg clock).OtherReason := by
  unfold Controller.superviseSources
  split
  case h_1 hs => exact .latchFault (staleReason_ne hs)
  case h_2 => exact h

theorem superviseSources_siFaultEventsSeen :
    (c.superviseSources cfg clock).siFaultEventsSeen = c.siFaultEventsSeen := by
  unfold superviseSources
  split <;> simp

theorem checked_of_edge (hx : cfg.x5h = true) (he : channel.faultEvents ≠ c.siFaultEventsSeen) :
    (c.checked cfg channel clock).supervision.latched = true ∧
    (c.OtherReason → (c.checked cfg channel clock).reenable.pending = false) := by
  have hs : (c.superviseSources cfg clock).siFaultEventsSeen = c.siFaultEventsSeen :=
    superviseSources_siFaultEventsSeen
  rw [← hs] at he
  simp only [checked, superviseFaultInput, hx, he, ne_eq, not_false_eq_true, and_self, if_true]
  refine ⟨latchFault_latched .., fun h => ?_⟩
  by_contra hp
  rw [Bool.not_eq_false, latchFault_pending] at hp
  exact h.superviseSources hp.1 hp.2.1

theorem checked_siFaultEventsSeen (hx : cfg.x5h = true) :
    (c.checked cfg channel clock).siFaultEventsSeen = channel.faultEvents := by
  unfold checked superviseFaultInput
  split
  case isTrue => simp
  case isFalse h =>
    simp only [hx, true_and, ne_eq, not_not] at h
    exact h.symm

theorem not_clears_of_level (hx : cfg.x5h = true) (hf : channel.fault = true) :
    ¬Clears cfg channel clock.now (c.checked cfg channel clock) := fun hc => by
  have := hc.level
  simp [hx, hf] at this

def episode (c : Controller) : ℕ :=
  if c.supervision.latched then c.supervision.faultId else c.supervision.faultId + 1

theorem Faulted.faultId (h : Faulted c c') (hl : c'.supervision.latched = true) :
    c'.supervision.faultId = c.episode := by
  cases hc : c.supervision.latched
  case true => simp [episode, hc, (h.latched hc).2]
  case false =>
    cases h
    case unchanged hs _ => simp [hs, hc] at hl
    case latches hf _ => simp [episode, hc, hf]
    case continues hl _ _ _ => simp [hc] at hl

theorem tick_stops (follower : FollowerResult)
    (hl : (c.checked cfg channel clock).supervision.latched = true)
    (hn : ¬Clears cfg channel clock.now (c.checked cfg channel clock)) :
    ∃ c', c.callbackTimerControl cfg channel clock follower = some c' ∧
      c'.Stopped c.episode c.published := by
  rw [callbackTimerControl_of_stops hl hn]
  exact ⟨_, rfl, publishSiStop_stopped hl (checked_faulted.faultId hl) (by simp [expired])⟩

theorem Ticks.siFaultEventsSeen (hx : cfg.x5h = true) (h : Ticks cfg channel clock c c') :
    c'.siFaultEventsSeen = channel.faultEvents := by
  cases h
  case stops => simp [publishSiStop, expired, checked_siFaultEventsSeen hx]
  case decides c₂ hr hd =>
    have h₂ : c₂.siFaultEventsSeen = channel.faultEvents := by
      rw [← checked_siFaultEventsSeen hx]
      cases hr <;> rfl
    cases hd <;> simp [publishHold, publishSiStop, h₂]

theorem Decides.otherReason (hl : c.supervision.latched = false) (h : Decides cfg clock c c') :
    c'.OtherReason := by
  cases h
  case violation why _ _ _ =>
    have hr : "follower " ++ why ≠ "si fault input" := fun hc => by
      have := congrArg String.toList hc
      simp [String.toList_append] at this
    intro _
    simpa [publishSiStop] using hr
  all_goals exact .of_not_latched (by simpa [publishHold] using hl)

theorem receive_siFaultEventsSeen [Libm Float] {clock : CallbackClock} {msg : Message} :
    (c.receive cfg clock msg).siFaultEventsSeen = c.siFaultEventsSeen := by
  unfold receive
  split
  case h_2 => simp
  case h_1 h => cases ingest_accepts h <;> rfl

theorem OtherReason.receive [Libm Float] {clock : CallbackClock} {msg : Message}
    (h : c.OtherReason) : (c.receive cfg clock msg).OtherReason := by
  unfold Controller.receive
  split
  case h_2 hi => exact .latchFault (ingest_error_ne hi)
  case h_1 hi => cases ingest_accepts hi <;> exact h

end Controller

-- A system with the number of rising edges since the last tick read the edge counter, which its steps
-- never read.
structure Counted extends System where
  edges : ℕ

-- The events of the two tasks. The poll task may also run in the middle of a tick, between the
-- tick's reading of the edge counter and its reading of the level.
inductive Moment
  | receive (msg : Message) (clock : CallbackClock)
  | siRx (data : List UInt8)
  | tick (clock : TickClock) (follower : FollowerResult) (inside : List (List UInt8))

namespace Moment

def isTick : Moment → Bool
  | tick .. => true
  | _       => false

def isPress : Moment → Bool
  | receive (.reenable true) _ => true
  | _                          => false

def ofEvent : Event → Moment
  | .receive msg clock   => receive msg clock
  | .siRx data           => siRx data
  | .tick clock follower => tick clock follower []

end Moment

namespace Counted

def init : Counted where
  toSystem := .init
  edges    := 0

-- The channel that a tick reads: the edge counter of its begin and the level of its middle.
def read (o : Counted) (inside : List (List UInt8)) : SiChannel :=
  { o.channel with fault := (inside.foldl SiChannel.rx o.channel).fault }

def step [Libm Float] (cfg : Config) (o : Counted) : Moment → Option Counted
  | .receive msg clock          => some { o with controller := o.controller.receive cfg clock msg }
  | .siRx data                  => some { o with
      channel := o.channel.rx data
      edges   := o.edges + o.channel.edges [data] }
  | .tick clock follower inside => do
    let c ← o.controller.callbackTimerControl cfg (o.read inside) clock follower
    return {
      controller := c
      channel    := inside.foldl SiChannel.rx o.channel
      edges      := o.channel.edges inside }

-- The edge counter has not come round since it was last read.
def Few (_ : Counted) (_ : Moment) (o : Counted) : Prop :=
  o.edges < 2 ^ 32

-- The controller has counted every edge up to the last reading, and a level of 1 is an edge that is
-- latched or not yet counted.
structure Aware (o : Counted) : Prop where
  counted : o.channel.faultEvents = o.controller.siFaultEventsSeen + .ofNat o.edges
  level   : o.channel.fault = true → o.controller.supervision.latched = true ∨ 0 < o.edges

variable {cfg : Config} {o o' : Counted} {m : Moment} {ms : List Moment}

theorem Aware.init : Aware init where
  counted := by decide
  level   := nofun

theorem Aware.uncounted (h : o.Aware) (hw : o.edges < 2 ^ 32) (he : 0 < o.edges) :
    o.channel.faultEvents ≠ o.controller.siFaultEventsSeen := by
  rw [h.counted]
  intro hc
  have := congrArg UInt32.toNat hc
  simp at this
  omega

theorem Aware.checked_latched (hx : cfg.x5h = true) (h : o.Aware) (hw : o.edges < 2 ^ 32)
    (hf : o.channel.fault = true) {inside : List (List UInt8)} {clock : TickClock} :
    (o.controller.checked cfg (o.read inside) clock).supervision.latched = true := by
  rcases h.level hf with hl | he
  case inl => exact (Controller.checked_faulted.latched hl).1
  case inr => exact (Controller.checked_of_edge hx (h.uncounted hw he)).1

-- The next tick publishes SI_STOP in the episode of now, with these datagrams in its middle.
def NextTickStops [Libm Float] (cfg : Config) (o : Counted) (inside : List (List UInt8)) : Prop :=
  ∀ clock follower, ∃ o', o.step cfg (.tick clock follower inside) = some o' ∧
    o'.controller.Stopped o.controller.episode o.controller.published

theorem nextTickStops [Libm Float] {inside : List (List UInt8)}
    (hl : ∀ clock, (o.controller.checked cfg (o.read inside) clock).supervision.latched = true)
    (hn : ∀ clock, ¬Controller.Clears cfg (o.read inside) clock.now
      (o.controller.checked cfg (o.read inside) clock)) : o.NextTickStops cfg inside := by
  intro clock follower
  have ⟨c', hc, hs⟩ := Controller.tick_stops follower (hl clock) (hn clock)
  exact ⟨_, by rw [step, hc]; rfl, hs⟩

theorem step_tick [Libm Float] {clock : TickClock} {follower : FollowerResult}
    {inside : List (List UInt8)} (h : o.step cfg (.tick clock follower inside) = some o') :
    o.controller.callbackTimerControl cfg (o.read inside) clock follower = some o'.controller ∧
    o'.channel = inside.foldl SiChannel.rx o.channel ∧ o'.edges = o.channel.edges inside := by
  have ⟨c, hc, h⟩ := Option.bind_eq_some_iff.mp h
  cases h
  exact ⟨hc, rfl, rfl⟩

theorem Aware.step [Libm Float] (hx : cfg.x5h = true) (hw : o.edges < 2 ^ 32) (ha : o.Aware)
    (h : o.step cfg m = some o') : o'.Aware := by
  cases m
  case receive msg clock =>
    cases h
    refine ⟨?counted, fun hf => (ha.level hf).imp_left fun hl => ?level⟩
    case counted => rw [Controller.receive_siFaultEventsSeen]; exact ha.counted
    case level =>
      rcases o.controller.receive_faulted cfg clock msg with hf | ⟨_, hr⟩
      case inl => exact (hf.latched hl).1
      case inr => rwa [hr]
  case siRx data =>
    cases h
    refine ⟨?counted, fun hf => ?level⟩
    case counted =>
      have hr : ([data].foldl SiChannel.rx o.channel).faultEvents = _ :=
        SiChannel.foldl_rx_faultEvents
      rw [List.foldl_cons, List.foldl_nil] at hr
      rw [hr, ha.counted, UInt32.add_assoc, UInt32.ofNat_add]
    case level =>
      cases hc : o.channel.fault
      case true => exact (ha.level hc).imp_right fun he => Nat.add_pos_left he _
      case false => exact .inr (Nat.add_pos_right _ (SiChannel.edges_pos hc hf))
  case tick clock follower inside =>
    have ⟨ht, hch, he⟩ := step_tick h
    refine ⟨?counted, fun hf => ?level⟩
    case counted =>
      rw [hch, he, (Controller.callbackTimerControl_ticks ht).siFaultEventsSeen hx]
      exact SiChannel.foldl_rx_faultEvents
    case level =>
      rw [he]
      rw [hch] at hf
      cases hc : o.channel.fault
      case false => exact .inr (SiChannel.edges_pos hc hf)
      case true =>
        have hl : (o.controller.checked cfg (o.read inside) clock).supervision.latched = true :=
          ha.checked_latched hx hw hc
        have ⟨c', ht', hs⟩ :=
          Controller.tick_stops follower hl (Controller.not_clears_of_level hx hf)
        rw [ht, Option.some.injEq] at ht'
        exact .inl (ht' ▸ hs.latched)

theorem along_aware [Libm Float] (hx : cfg.x5h = true)
    (h : Along (Counted.step cfg) Few o ms o') (hw : o.edges < 2 ^ 32) (ha : o.Aware) :
    o'.Aware ∧ o'.edges < 2 ^ 32 :=
  h.invariant (P := fun (o : Counted) => o.Aware ∧ o.edges < 2 ^ 32)
    (fun hs q p => ⟨p.1.step hx p.2 hs, q⟩) ⟨ha, hw⟩

-- A rising edge while SI is not latched, between two ticks or in the middle of one.
inductive RisesUnlatched (cfg : Config) (o : Counted) : Moment → Prop
  | between {data : List UInt8} (hl : o.controller.supervision.latched = false)
    (hr : o.channel.rises data = true) : RisesUnlatched cfg o (.siRx data)
  | inside {clock : TickClock} {follower : FollowerResult} {inside : List (List UInt8)}
    (hl : (o.controller.checked cfg (o.read inside) clock).supervision.latched = false)
    (hr : 0 < o.channel.edges inside) : RisesUnlatched cfg o (.tick clock follower inside)

-- An edge that the next tick counts, while no fault is latched under the name of the fault input.
structure Waiting (o : Counted) : Prop where
  edge  : 0 < o.edges
  other : o.controller.OtherReason

theorem RisesUnlatched.waiting [Libm Float] (hr : RisesUnlatched cfg o m)
    (h : o.step cfg m = some o') : o'.Waiting := by
  cases hr
  case between hl hr =>
    cases h
    exact ⟨Nat.add_pos_right _ (by simp [SiChannel.edges, hr]), .of_not_latched hl⟩
  case inside hl hr =>
    have ⟨ht, _, he⟩ := step_tick h
    rw [Controller.callbackTimerControl_of_not_latched hl] at ht
    exact ⟨he ▸ hr, (Controller.decideCycle_decides ht).otherReason hl⟩

theorem Waiting.along [Libm Float] (h : Along (Counted.step cfg) Few o ms o')
    (ht : ∀ m ∈ ms, m.isTick = false) (hw : o.Waiting) : o'.Waiting := by
  induction h
  case nil => exact hw
  case cons o o₁ o' m ms hs _ _ ih =>
    refine ih (fun m hm => ht m (List.mem_cons_of_mem _ hm)) ?_
    cases m
    case tick => simpa [Moment.isTick] using ht _ List.mem_cons_self
    case receive => cases hs; exact ⟨hw.edge, hw.other.receive⟩
    case siRx => cases hs; exact ⟨Nat.add_pos_left hw.edge _, hw.other⟩

theorem Waiting.nextTickStops [Libm Float] (hx : cfg.x5h = true) (h : o.Waiting) (ha : o.Aware)
    (hw : o.edges < 2 ^ 32) (inside : List (List UInt8)) : o.NextTickStops cfg inside := by
  have he : (o.read inside).faultEvents ≠ o.controller.siFaultEventsSeen := ha.uncounted hw h.edge
  refine Counted.nextTickStops (fun _ => (Controller.checked_of_edge hx he).1) fun clock hc => ?_
  exact Bool.false_ne_true (((Controller.checked_of_edge hx he).2 h.other).symm.trans hc.pending)

-- On the controller a step acts as a step of the system, with the channel that a tick reads.
theorem step_system [Libm Float] (h : o.step cfg m = some o') :
    ∃ e channel channel', e.isTick = m.isTick ∧ e.isPress = m.isPress ∧
      (System.mk o.controller channel).step cfg e = some ⟨o'.controller, channel'⟩ := by
  cases m
  case receive msg clock =>
    cases h
    refine ⟨.receive msg clock, o.channel, o.channel, rfl, ?_, rfl⟩
    cases msg
    case reenable data => cases data <;> rfl
    all_goals rfl
  case siRx data => cases h; exact ⟨.siRx data, o.channel, _, rfl, rfl, rfl⟩
  case tick clock follower inside =>
    refine ⟨.tick clock follower, o.read inside, o.read inside, rfl, rfl, ?_⟩
    simp [System.step, (step_tick h).1]

def Stops (n : ℕ) (o : Counted) (m : Moment) (o' : Counted) : Prop :=
  o'.controller.supervision.latched = true ∧
  if m.isTick then o'.controller.Stopped n o.controller.published
  else o'.controller.published = o.controller.published

structure Held (n : ℕ) (o : Counted) : Prop where
  latched : o.controller.supervision.latched = true
  faultId : o.controller.supervision.faultId = n
  pending : o.controller.reenable.pending = false

theorem Held.of_edge [Libm Float] (h : o.step cfg m = some o')
    (hl : o'.controller.supervision.latched = true)
    (hn : o.controller.supervision.latched = false ∨
      o'.controller.supervision.faultId ≠ o.controller.supervision.faultId) :
    Held o'.controller.supervision.faultId o' := by
  have ⟨_, _, _, _, _, hs⟩ := step_system h
  exact ⟨hl, rfl, (System.step_edge hs hl hn).2⟩

theorem Held.step [Libm Float] {n : ℕ} (hh : Held n o) (hp : m.isPress = false)
    (h : o.step cfg m = some o') : Stops n o m o' ∧ Held n o' := by
  have ⟨e, channel, _, ht, hp', hs⟩ := step_system h
  have hpend : o'.controller.reenable.pending = false := by
    by_contra hc
    rw [Bool.not_eq_false] at hc
    rcases System.step_reenable hs hc with hr | ⟨_, rfl, _⟩
    case inl => exact Bool.false_ne_true (hh.pending.symm.trans (hr ▸ hc))
    case inr => simp [Event.isPress, hp] at hp'
  rcases System.step_of_latched (s := ⟨o.controller, channel⟩) hh.latched hs with ⟨hl, hf, hout⟩ | ⟨_, _, _, hr⟩
  case inr => exact absurd (hh.pending.symm.trans hr.pending) Bool.false_ne_true
  case inl =>
    have hf : o'.controller.supervision.faultId = n := hf.trans hh.faultId
    refine ⟨⟨hl, ?_⟩, hl, hf, hpend⟩
    rw [← ht]
    cases e
    case tick => exact ⟨hl, hf, hh.faultId ▸ hout⟩
    case receive => exact hout
    case siRx => exact hout

theorem Held.along [Libm Float] {n : ℕ} (hh : Held n o) (h : Run (Counted.step cfg) o ms o')
    (hp : ∀ m ∈ ms, m.isPress = false) : Along (Counted.step cfg) (Stops n) o ms o' := by
  induction h
  case nil => exact .nil
  case cons hs _ _ ih =>
    have ⟨hst, hh'⟩ := hh.step (hp _ List.mem_cons_self) hs
    exact .cons hs hst (ih hh' fun m hm => hp m (List.mem_cons_of_mem _ hm))

theorem fault_input [Libm Float] (hx : cfg.x5h = true)
    (h : Along (Counted.step cfg) Few .init ms o) :
    (∀ m o₁ ms₁ o', RisesUnlatched cfg o m → o.step cfg m = some o₁ → Few o m o₁ →
      Along (Counted.step cfg) Few o₁ ms₁ o' → (∀ m ∈ ms₁, m.isTick = false) →
      ∀ inside, o'.NextTickStops cfg inside) ∧
    (∀ inside, o.channel.fault = true → (o.read inside).fault = true →
      o.NextTickStops cfg inside) ∧
    (∀ ds : List (List UInt8),
      o.channel.fault = true ∧ (∀ d ∈ ds, SiChannel.parse d ≠ .faultClear) ∨
      (∀ d ∈ ds, SiChannel.parse d ≠ .faultSet ∧ SiChannel.parse d ≠ .faultClear) →
      (ds.foldl SiChannel.rx o.channel).fault = o.channel.fault ∧
      (ds.foldl SiChannel.rx o.channel).faultEvents = o.channel.faultEvents) ∧
    (∀ m o₁ ms₁ o', o.step cfg m = some o₁ → o₁.controller.supervision.latched = true →
      (o.controller.supervision.latched = false ∨
        o₁.controller.supervision.faultId ≠ o.controller.supervision.faultId) →
      Run (Counted.step cfg) o₁ ms₁ o' → (∀ m ∈ ms₁, m.isPress = false) →
      Along (Counted.step cfg) (Stops o₁.controller.supervision.faultId) o₁ ms₁ o') := by
  have ⟨ha, hw⟩ := along_aware hx h (by decide) .init
  refine ⟨fun m o₁ ms₁ o' hr hs hf h₁ ht inside => ?edge, fun inside hf hf' => ?level,
    fun ds hd => ?repeated, fun m o₁ ms₁ o' hs hl hn h₁ hp => (Held.of_edge hs hl hn).along h₁ hp⟩
  case edge =>
    have ⟨ha', hw'⟩ := along_aware hx h₁ hf (ha.step hx hw hs)
    exact ((hr.waiting hs).along h₁ ht).nextTickStops hx ha' hw' inside
  case level =>
    exact nextTickStops (fun _ => ha.checked_latched hx hw hf) fun _ =>
      Controller.not_clears_of_level hx hf'
  case repeated =>
    rcases hd with ⟨hf, hd⟩ | hd
    case inl =>
      have ⟨hf', he⟩ := SiChannel.foldl_rx_of_fault hf hd
      exact ⟨hf'.trans hf.symm, he⟩
    case inr => exact SiChannel.foldl_rx_of_unrecognised hd

instance decidableFew (o : Counted) (m : Moment) (o' : Counted) : Decidable (Few o m o') :=
  inferInstanceAs (Decidable (o'.edges < 2 ^ 32))

open Sample in
-- The level rises and falls between two ticks, the first of them a NORMAL one, and all sources are
-- fresh.
theorem fault_input_pulse :
    let cfg := { config .vpControl .vp with x5h := true }
    let ms := (feedback 1 ++ [message 1 (command 1 0.25), tick 1 .notReady]).map Moment.ofEvent
    let pulse : List Moment :=
      [.siRx (SiChannel.bytes "fault=1"), .siRx (SiChannel.bytes "fault=0\n")]
    let o := Transition.after (Counted.step cfg) .init (ms ++ pulse)
    o.controller.published.map (·.approved.decision) = [Decision.normal.toUInt8] ∧
    o.controller.allSourcesFresh cfg o.channel (second 1).wall.seconds = true ∧
    o.NextTickStops cfg [] := by
  intro cfg ms pulse o
  let at' (ms : List Moment) := Transition.after (Counted.step cfg) .init ms
  let rise : Moment := .siRx (SiChannel.bytes "fault=1")
  let fall : Moment := .siRx (SiChannel.bytes "fault=0\n")
  have hr : Along (Counted.step cfg) Few .init ms (at' ms) := along_after (by decide +kernel)
  have h₁ : (at' ms).step cfg rise = some (at' (ms ++ [rise])) := step_after (by decide +kernel)
  have h₂ : (at' (ms ++ [rise])).step cfg fall = some (at' (ms ++ [rise] ++ [fall])) :=
    step_after (by decide +kernel)
  have edge := (fault_input rfl hr).1
  refine ⟨by decide +kernel, by decide +kernel, ?_⟩
  exact edge _ _ _ _ (.between (by decide +kernel) (by decide +kernel)) h₁ (by decide +kernel)
    (.single h₂ (by decide +kernel)) (by simp [fall, Moment.isTick]) []

end Counted
end SafetyIsland

import SafetyIsland.Can.Link
import SafetyIsland.Can.ZephyrCan
import SafetyIsland.Transition.Run

namespace SafetyIsland.Can

open Transition

inductive Backend
  | socketCan
  | udpTunnel
  | zephyr

-- What the platform does in a send: the results of `write`, that of `sendto`, or the driver.
structure Outcome where
  written : ℕ → Bool
  sent    : Bool
  drivers : ℕ → ZephyrCan.Driver

def UdpTunnel.carried (datagram : Option (List UInt8)) : List CanFrame :=
  match datagram.map unpackCanUdpTunnel with
  | some (.ok batch) => batch.frames
  | _                => []

namespace Backend

-- The frames that are handed over in the classic format, and the context of the driver.
def transport (outcome : Outcome) (c : ZephyrCan) : Backend → Transport (ZephyrCan × List HandedFrame)
  | socketCan => {
    canSendBatch frames :=
      let (handed, ok) := (SocketCan.transport false outcome.written).canSendBatch frames
      ((c, handed.1.map (⟨·, true⟩)), ok)
    canSendFd frame :=
      let (_, ok) := (SocketCan.transport false outcome.written).canSendFd frame
      ((c, []), ok) }
  | udpTunnel => {
    canSendBatch frames :=
      let (datagram, ok) := (UdpTunnel.transport outcome.sent).canSendBatch frames
      ((c, (UdpTunnel.carried datagram).map (⟨·, true⟩)), ok)
    canSendFd frame :=
      let (_, ok) := (UdpTunnel.transport outcome.sent).canSendFd frame
      ((c, []), ok) }
  | zephyr => ZephyrCan.transport outcome.drivers c

theorem transport_handed {backend : Backend} {outcome : Outcome} {c c' : ZephyrCan}
    {b : ClassicBatch} {handed : List HandedFrame} {ok : Bool}
    (h : (backend.transport outcome c).canSendBatch b.frames = ((c', handed), ok)) :
    Handed b.frames handed ok := by
  have hh := (Prod.ext_iff.mp (Prod.ext_iff.mp h).1).2
  have ho := (Prod.ext_iff.mp h).2
  dsimp only at hh ho
  rw [← hh, ← ho]
  cases backend
  case socketCan =>
    let r := (SocketCan.transport false outcome.written).canSendBatch b.frames
    have hr : (SocketCan.transport false outcome.written).canSendBatch b.frames = (r.1, r.2) := rfl
    have ⟨n, hn, hok⟩ := SocketCan.transport_frames hr
    refine ⟨n, [], ?_, nofun, hok⟩
    change r.1.1.map _ = _
    rw [hn, List.append_nil]
  case udpTunnel =>
    let r := (UdpTunnel.transport outcome.sent).canSendBatch b.frames
    have hr : (UdpTunnel.transport outcome.sent).canSendBatch b.frames = (r.1, r.2) := rfl
    have ⟨hok, hd⟩ := UdpTunnel.transport_frames hr
    change Handed _ ((UdpTunnel.carried r.1).map _) r.2
    rw [hok, hd]
    cases outcome.sent
    case false => exact ⟨0, [], rfl, nofun, by simp [ClassicBatch.frames]⟩
    case true =>
      refine ⟨3, [], ?_, nofun, by simp [ClassicBatch.frames]⟩
      simp only [UdpTunnel.carried, if_true, Option.map_some, ClassicBatch.unpackCanUdpTunnel_wire]
      rfl
  case zephyr =>
    exact ZephyrCan.canSendBatch_handed outcome.drivers b.frames 0 c b.frames_classic

end Backend

theorem Handed.status {b : ClassicBatch} {handed : List HandedFrame} {ok : Bool}
    (h : Handed b.frames handed ok) : ∀ f ∈ handed, f.frame.id = statusId →
      statusSequence f.frame = b.sequence ∧ (f.completed = true → ok = true) := by
  intro f hf hid
  obtain ⟨n, rest, hh, hr, hok⟩ := h
  rw [hh] at hf
  have hs : f.frame ∈ b.frames → statusSequence f.frame = b.sequence := by
    intro hm
    simp only [ClassicBatch.frames, List.mem_cons, List.not_mem_nil, or_false] at hm
    rcases hm with hm | hm | hm
    case inl => simp [hm, kLateralCommandCanId, statusId] at hid
    case inr.inl => simp [hm, kLongitudinalCommandCanId, statusId] at hid
    case inr.inr => rw [hm]; rfl
  rcases List.mem_append.mp hf with hf | hf
  case inr => exact ⟨hs (hr f hf).1, fun hc => absurd hc (by simp [(hr f hf).2])⟩
  case inl =>
    obtain ⟨frame, hm, he⟩ := List.mem_map.mp hf
    rw [← he] at hid hs ⊢
    refine ⟨hs (List.mem_of_mem_take hm), fun _ => hok.mpr ?_⟩
    by_contra hn
    have ha : (b.frames.take n).any (·.id = statusId) = true := by
      rw [List.any_eq_true]
      exact ⟨frame, hm, by simpa using hid⟩
    rw [ClassicBatch.any_status] at ha
    simp [ClassicBatch.frames] at ha hn
    omega

-- A frame that is on its way, of the attempt with this number.
structure Attempt where
  index  : ℕ
  handed : HandedFrame
deriving DecidableEq

-- A sender with the context of its driver, what `send` returned for the commands that use CAN, and the
-- frames that were handed over: those that are still to be transmitted, and those that were.
structure Sender where
  output      : ControlCommandCanOutput
  context     : ZephyrCan
  reports     : List Bool
  inFlight    : List Attempt
  transmitted : List Attempt
deriving DecidableEq

namespace Sender

-- A frame is transmitted at any time after it was handed over. A completion is late when it is
-- reported after the wait.
inductive Event
  | send (msg : ControlMsg) (mode : OutputMode) (outcome : Outcome)
  | transmit (i : ℕ)
  | complete (error : ℤ)

def init (canInit : Bool) : Sender where
  output      := ControlCommandCanOutput.new.init canInit false
  context     := .init
  reports     := []
  inFlight    := []
  transmitted := []

def send (backend : Backend) (msg : ControlMsg) (mode : OutputMode) (outcome : Outcome)
    (s : Sender) : Sender :=
  let (output, handed, ok) := s.output.send (backend.transport outcome s.context) msg mode
  let attempts := handed.elim [] fun (_, handed) => handed.map (⟨s.reports.length, ·⟩)
  { s with
    output   := output
    context  := handed.elim s.context Prod.fst
    reports  := if mode.usesCan then s.reports ++ [ok] else s.reports
    inFlight := s.inFlight ++ attempts }

def step (backend : Backend) (s : Sender) : Event → Option Sender
  | .send msg mode outcome => some (s.send backend msg mode outcome)
  | .transmit i            => do
    let attempt ← s.inFlight[i]?
    return { s with
      inFlight    := s.inFlight.eraseIdx i
      transmitted := s.transmitted ++ [attempt] }
  | .complete error        =>
    if s.context.awaited then some { s with context := s.context.canTxDoneCallback error } else none

def IsStatus (a : Attempt) : Prop :=
  a.handed.frame.id = statusId

def successes (s : Sender) (index : ℕ) : ℕ :=
  (s.reports.take index).count true

-- No two commands have status frames transmitted with one sequence, within 65535 successful sends.
def Unique (s : Sender) : Prop :=
  ∀ x ∈ s.transmitted, ∀ y ∈ s.transmitted, IsStatus x → IsStatus y → x.index < y.index →
    ((s.reports.take y.index).drop x.index).count true ≤ 65535 →
    statusSequence x.handed.frame ≠ statusSequence y.handed.frame

instance decidableIsStatus : DecidablePred IsStatus := fun a =>
  inferInstanceAs (Decidable (a.handed.frame.id = statusId))

instance decidableUnique : DecidablePred Unique := fun s =>
  inferInstanceAs (Decidable (∀ x ∈ s.transmitted, ∀ y ∈ s.transmitted, _))

-- A status frame is only transmitted when its completion was reported in time and without an error.
def InTime (s : Sender) (e : Event) (_ : Sender) : Prop :=
  ∀ i a, e = .transmit i → s.inFlight[i]? = some a → IsStatus a → a.handed.completed = true

structure Numbered (s : Sender) : Prop where
  classic  : s.output.fdActive = false
  next     : s.output.sequence = .ofNat (s.reports.count true)
  bound    : ∀ a ∈ s.inFlight ++ s.transmitted, a.index < s.reports.length
  sequence : ∀ a ∈ s.inFlight ++ s.transmitted, IsStatus a →
    statusSequence a.handed.frame = .ofNat (s.successes a.index)
  reported : ∀ a ∈ s.inFlight ++ s.transmitted, IsStatus a → a.handed.completed = true →
    s.reports[a.index]? = some true
  inTime   : ∀ a ∈ s.transmitted, IsStatus a → a.handed.completed = true

variable {backend : Backend} {s s' : Sender} {e : Event}

theorem Numbered.init {canInit : Bool} : (init canInit).Numbered where
  classic  := by cases canInit <;> rfl
  next     := rfl
  bound    := nofun
  sequence := nofun
  reported := nofun
  inTime   := nofun

theorem Numbered.report {sequence : UInt16} (h : s.Numbered) (context : ZephyrCan)
    (handed : List HandedFrame) (ok : Bool)
    (hs : sequence = if ok then s.output.sequence + 1 else s.output.sequence)
    (hh : ∀ f ∈ handed, f.frame.id = statusId →
      statusSequence f.frame = s.output.sequence ∧ (f.completed = true → ok = true)) :
    Numbered { s with
      output   := { s.output with sequence := sequence }
      context  := context
      reports  := s.reports ++ [ok]
      inFlight := s.inFlight ++ handed.map (⟨s.reports.length, ·⟩) } := by
  have split {a : Attempt}
      (ha : a ∈ (s.inFlight ++ handed.map (⟨s.reports.length, ·⟩)) ++ s.transmitted) :
      a ∈ s.inFlight ++ s.transmitted ∨ ∃ f ∈ handed, ⟨s.reports.length, f⟩ = a := by
    simp only [List.mem_append, List.mem_map] at ha ⊢
    rcases ha with (ha | ha) | ha
    case inl.inl => exact .inl (.inl ha)
    case inl.inr => exact .inr ha
    case inr => exact .inl (.inr ha)
  refine { h with next := ?next, bound := ?bound, sequence := ?sequence, reported := ?reported }
  case next =>
    rw [hs, List.count_append]
    cases ok
    case false => exact h.next
    case true => exact (congrArg (· + 1) h.next).trans (UInt16.ofNat_add _ _).symm
  case bound =>
    intro a ha
    rw [List.length_append, List.length_singleton]
    rcases split ha with ha | ⟨f, hf, rfl⟩
    case inl => exact Nat.lt_succ_of_lt (h.bound a ha)
    case inr => exact Nat.lt_succ_self _
  case sequence =>
    intro a ha hst
    rcases split ha with ha | ⟨f, hf, rfl⟩
    case inl =>
      rw [successes, List.take_append_of_le_length (h.bound a ha).le]
      exact h.sequence a ha hst
    case inr =>
      rw [successes, List.take_left' rfl, (hh f hf hst).1]
      exact h.next
  case reported =>
    intro a ha hst hc
    rcases split ha with ha | ⟨f, hf, rfl⟩
    case inl =>
      rw [List.getElem?_append_left (h.bound a ha)]
      exact h.reported a ha hst hc
    case inr => exact getElem?_concat_eq_some.mpr (.inr ⟨rfl, (hh f hf hst).2 hc⟩)

theorem Numbered.send {msg : ControlMsg} {mode : OutputMode} {outcome : Outcome} (h : s.Numbered) :
    (s.send backend msg mode outcome).Numbered := by
  have hs := ControlCommandCanOutput.sends (backend.transport outcome s.context) msg mode h.classic
  unfold Sender.send
  generalize s.output.send (backend.transport outcome s.context) msg mode = r at hs
  cases hs
  case unused hm => simpa [hm] using h
  case fails hm =>
    have hr := h.report s.context [] false rfl nofun
    simpa [hm] using hr
  case rejected b handed he ht =>
    have hh := (Backend.transport_handed ht).status
    rw [he.sequence_eq] at hh
    simpa [he.usesCan] using h.report _ _ false rfl hh
  case sent b handed he ht =>
    have hh := (Backend.transport_handed ht).status
    rw [he.sequence_eq] at hh
    simpa [he.usesCan] using h.report _ _ true rfl hh

theorem Numbered.step (h : s.Numbered) (hs : s.step backend e = some s') (hq : InTime s e s') :
    s'.Numbered := by
  cases e
  case send msg mode outcome =>
    cases hs
    exact h.send
  case transmit i =>
    have ⟨a, ha, hs⟩ := Option.bind_eq_some_iff.mp hs
    cases hs
    have hm {x : Attempt} (hx : x ∈ s.inFlight.eraseIdx i ++ (s.transmitted ++ [a])) :
        x ∈ s.inFlight ++ s.transmitted := by
      simp only [List.mem_append, List.mem_singleton] at hx ⊢
      rcases hx with hx | hx | hx
      case inl => exact .inl (List.mem_of_mem_eraseIdx hx)
      case inr.inl => exact .inr hx
      case inr.inr => exact .inl (hx ▸ List.mem_of_getElem? ha)
    refine { h with
      bound := fun x hx => h.bound x (hm hx)
      sequence := fun x hx => h.sequence x (hm hx)
      reported := fun x hx => h.reported x (hm hx)
      inTime := fun x hx hst => ?_ }
    rcases List.mem_append.mp hx with hx | hx
    case inl => exact h.inTime x hx hst
    case inr =>
      rw [List.mem_singleton.mp hx] at hst ⊢
      exact hq i a rfl ha hst
  case complete error =>
    simp only [Sender.step] at hs
    split at hs
    case isTrue =>
      cases hs
      exact { h with }
    case isFalse => cases hs

theorem Numbered.unique (h : s.Numbered) : s.Unique := by
  intro x hx y hy hsx hsy hlt hw he
  have hmx := List.mem_append_right s.inFlight hx
  have hmy := List.mem_append_right s.inFlight hy
  rw [h.sequence x hmx hsx, h.sequence y hmy hsy] at he
  have hrx := h.reported x hmx hsx (h.inTime x hx hsx)
  -- The sends from the one attempt to the other, the first of which succeeded.
  have hcount : s.successes y.index = s.successes x.index +
      ((s.reports.take y.index).drop x.index).count true := by
    rw [successes, successes, ← List.count_append, ← min_eq_left hlt.le, ← List.take_take,
      min_eq_left hlt.le, List.take_append_drop]
  have hpos : 0 < ((s.reports.take y.index).drop x.index).count true := by
    rw [List.count_pos_iff, List.mem_iff_getElem?]
    exact ⟨0, by rw [List.getElem?_drop, Nat.add_zero, List.getElem?_take_of_lt hlt, hrx]⟩
  have hmod := congrArg UInt16.toNat he
  rw [UInt16.toNat_ofNat', UInt16.toNat_ofNat'] at hmod
  omega

theorem unwaited (hb : backend ≠ .zephyr) (outcome : Outcome) (c : ZephyrCan)
    (frames : List CanFrame) :
    ∀ f ∈ ((backend.transport outcome c).canSendBatch frames).1.2, f.completed = true := by
  intro f hf
  cases backend
  case zephyr => exact absurd rfl hb
  all_goals
    have ⟨_, _, he⟩ := List.mem_map.mp hf
    rw [← he]

theorem send_completed {msg : ControlMsg} {mode : OutputMode} {outcome : Outcome}
    (hb : backend ≠ .zephyr) (h : s.Numbered)
    (hc : ∀ a ∈ s.inFlight, a.handed.completed = true) :
    ∀ a ∈ (s.send backend msg mode outcome).inFlight, a.handed.completed = true := by
  have hs := ControlCommandCanOutput.sends (backend.transport outcome s.context) msg mode h.classic
  have hu {frames : List CanFrame} {handed : ZephyrCan × List HandedFrame} {ok : Bool}
      (ht : (backend.transport outcome s.context).canSendBatch frames = (handed, ok)) :
      ∀ f ∈ handed.2, f.completed = true := by
    have hf := unwaited hb outcome s.context frames
    rwa [ht] at hf
  unfold Sender.send
  generalize s.output.send (backend.transport outcome s.context) msg mode = r at hs
  intro a ha
  rcases List.mem_append.mp ha with ha | ha
  case inl => exact hc a ha
  case inr =>
    cases hs
    case unused => cases ha
    case fails => cases ha
    all_goals
      have ⟨f, hf, he⟩ := List.mem_map.mp ha
      rw [← he]
      exact hu ‹_› f hf

theorem inTime_of_unwaited {canInit : Bool} {es : List Event} (hb : backend ≠ .zephyr)
    (h : Run (step backend) (init canInit) es s) :
    Along (step backend) InTime (init canInit) es s := by
  refine h.of_invariant (P := fun s => s.Numbered ∧ ∀ a ∈ s.inFlight, a.handed.completed = true)
    (fun {s e s'} hs ⟨hn, hc⟩ => ?_) ⟨.init, nofun⟩
  have hq : InTime s e s' := fun i a _ ha _ => hc a (List.mem_of_getElem? ha)
  refine ⟨⟨hn.step hs hq, ?_⟩, hq⟩
  cases e
  case send msg mode outcome =>
    cases hs
    exact send_completed hb hn hc
  case transmit i =>
    have ⟨a, _, hs⟩ := Option.bind_eq_some_iff.mp hs
    cases hs
    exact fun x hx => hc x (List.mem_of_mem_eraseIdx hx)
  case complete error =>
    simp only [step] at hs
    split at hs
    case isTrue =>
      cases hs
      exact hc
    case isFalse => cases hs

-- While every transmitted status frame completes in time, no sequence is used twice, and only the
-- commands that were sent successfully have their status frames transmitted.
theorem unique_of_inTime {canInit : Bool} {es : List Event}
    (h : Along (step backend) InTime (init canInit) es s) :
    s.Unique ∧ ∀ x ∈ s.transmitted, IsStatus x → s.reports[x.index]? = some true := by
  have hn : s.Numbered := h.invariant (fun hs hq hn => hn.step hs hq) .init
  exact ⟨hn.unique, fun x hx hst =>
    hn.reported x (List.mem_append_right _ hx) hst (hn.inTime x hx hst)⟩

instance decidableInTime : ∀ s e s', Decidable (InTime s e s')
  | s, .transmit i, _ =>
    decidable_of_iff (∀ a ∈ s.inFlight[i]?, IsStatus a → a.handed.completed = true)
      ⟨fun h j a he ha => by
        cases he
        exact h a ha, fun h a ha => h i a rfl ha⟩
  | _, .send .., _ => .isTrue fun _ _ he => by cases he
  | _, .complete _, _ => .isTrue fun _ _ he => by cases he

-- A status frame whose completion is late and which is never transmitted, one that the driver does
-- not take, and two commands that are sent.
def failing : List Event :=
  let completes : ZephyrCan.Driver := ⟨0, some 0⟩
  let outcome (status : ZephyrCan.Driver) : Outcome :=
    ⟨fun _ => false, false, fun i => if i < 2 then completes else status⟩
  [.send default .canOnly (outcome ⟨0, none⟩), .complete 0,
    .send default .canOnly (outcome completes), .transmit 5,
    .send default .canOnly (outcome ⟨-5, none⟩),
    .send default .canOnly (outcome completes), .transmit 9]

theorem unique_of_inTime_zephyr :
    let s := after (step .zephyr) (init true) failing
    s.reports = [false, true, false, true] ∧
    s.transmitted.map (fun x => (x.index, statusSequence x.handed.frame)) = [(1, 0), (3, 1)] ∧
    s.Unique ∧ ∀ x ∈ s.transmitted, IsStatus x → s.reports[x.index]? = some true := by
  intro s
  have h : Along (step .zephyr) InTime (init true) failing s := along_after (by decide +kernel)
  exact ⟨by decide +kernel, by decide +kernel, unique_of_inTime h⟩

def late : List Event :=
  let completes : ZephyrCan.Driver := ⟨0, some 0⟩
  [.send default .canOnly ⟨fun _ => false, false, fun i => if i < 2 then completes else ⟨0, none⟩⟩,
    .transmit 2, .complete 0, .send default .canOnly ⟨fun _ => false, false, fun _ => completes⟩,
    .transmit 4]

def SequenceUnique : Prop :=
  ∀ (backend : Backend) (canInit : Bool) (es : List Event) (s : Sender),
    Run (step backend) (init canInit) es s → s.Unique

theorem sequenceUnique_fails : ¬SequenceUnique := by
  intro h
  exact absurd (h .zephyr true late _ (run_after (by decide +kernel))) (by decide +kernel)

end Sender
end SafetyIsland.Can

import SafetyIsland.Can.Link
import SafetyIsland.Can.Output
import SafetyIsland.Transition.Run

namespace SafetyIsland.Can

open Transition

-- A sender on a bus that carries its frames to the decoder, with the history of the commands that
-- were sent successfully.
structure CanPath (α : Type) where
  output : ControlCommandCanOutput
  link   : Link α
  sent   : List (ControlMsg × OutputMode)

namespace CanPath

inductive Event
  | send (msg : ControlMsg) (mode : OutputMode) (written : ℕ → Bool)
  | arrive (now : Float)
  | poll (now timeoutSec : Float)

section

variable {α : Type} [IntCast α] [Div α]

-- Right after `init`, in the classic format.
def init (canInit : Bool) : CanPath α where
  output := ControlCommandCanOutput.new.init canInit false
  link   := .init
  sent   := []

def send (p : CanPath α) (msg : ControlMsg) (mode : OutputMode) (written : ℕ → Bool) : CanPath α :=
  let (output, handed, ok) := p.output.send (SocketCan.transport false written) msg mode
  { output := output
    link   := p.link.hand (handed.elim [] Prod.fst)
    sent   := if mode.usesCan && ok then p.sent ++ [(msg, mode)] else p.sent }

def step (p : CanPath α) : Event → Option (CanPath α)
  | .send msg mode written => some (p.send msg mode written)
  | .arrive now            => (p.link.arrive now).map fun link => { p with link := link }
  | .poll now timeoutSec   => some { p with link := p.link.poll now timeoutSec }

-- The batches of the commands that were sent, of which the first ones arrived.
structure Flow (p : CanPath α) (done todo : List ClassicBatch) : Prop where
  classic     : p.output.fdActive = false
  next        : p.output.sequence = .ofNat p.sent.length
  carries     : p.link.Carries done todo
  length      : (done ++ todo).length = p.sent.length
  encodes     : ∀ {j} {b : ClassicBatch}, (done ++ todo)[j]? = some b →
    ∃ msg mode, p.sent[j]? = some (msg, mode) ∧ b.Encodes msg mode (.ofNat j)
  expected    : ∀ e ∈ p.link.decoder.expected, e = p.link.arrived % 65536
  broken      : p.link.broken = true → p.link.decoder.expected = none
  interrupted : ∀ k ∈ p.link.interrupted, k < p.link.arrived
  accepted    : p.link.accepted.map Prod.fst =
    (List.range p.link.arrived).filter (· ∉ p.link.interrupted)
  decoded     : ∀ {j c}, (j, c) ∈ p.link.accepted →
    ∃ b : ClassicBatch, done[j]? = some b ∧ c = b.decoded

variable {p p' : CanPath α} {done todo : List ClassicBatch} {e : Event}

theorem Flow.init {canInit : Bool} : (init canInit : CanPath α).Flow [] [] where
  classic     := by cases canInit <;> rfl
  next        := rfl
  carries     := .init
  length      := rfl
  encodes     := nofun
  expected    := nofun
  broken      := nofun
  interrupted := nofun
  accepted    := rfl
  decoded     := nofun

theorem Flow.fails {b : ClassicBatch} {n : ℕ} (h : p.Flow done todo) (hn : ¬3 ≤ n) :
    Flow { p with link := p.link.hand (b.frames.take n) } done todo := by
  have hc := h.carries.hand b n
  rw [if_neg hn, List.append_nil] at hc
  exact { h with carries := hc }

theorem Flow.succeeds {msg : ControlMsg} {mode : OutputMode} {b : ClassicBatch} {n : ℕ}
    (h : p.Flow done todo) (he : b.Encodes msg mode p.output.sequence) (hn : 3 ≤ n) :
    Flow {
      output := { p.output with sequence := p.output.sequence + 1 }
      link   := p.link.hand (b.frames.take n)
      sent   := p.sent ++ [(msg, mode)] } done (todo ++ [b]) := by
  have hc := h.carries.hand b n
  rw [if_pos hn] at hc
  refine { h with carries := hc, next := ?next, length := ?length, encodes := ?encodes }
  case next =>
    rw [h.next, List.length_append, List.length_singleton]
    exact (UInt16.ofNat_add _ _).symm
  case length =>
    rw [← List.append_assoc, List.length_append, h.length, List.length_append]
    rfl
  case encodes =>
    intro j b' hj
    rw [← List.append_assoc] at hj
    rcases lt_or_ge j p.sent.length with hlt | hge
    case inl =>
      rw [List.getElem?_append_left (h.length ▸ hlt)] at hj
      rw [List.getElem?_append_left hlt]
      exact h.encodes hj
    case inr =>
      rw [List.getElem?_append_right (h.length ▸ hge), h.length, List.getElem?_singleton] at hj
      split at hj
      case isFalse => cases hj
      case isTrue hj₀ =>
        have hj' : j = p.sent.length := by omega
        cases hj
        exact ⟨msg, mode, by simp [hj'], hj' ▸ h.next ▸ he⟩

theorem Flow.send {msg : ControlMsg} {mode : OutputMode} {written : ℕ → Bool}
    (h : p.Flow done todo) : ∃ todo', (p.send msg mode written).Flow done todo' := by
  have hs := ControlCommandCanOutput.sends (SocketCan.transport false written) msg mode h.classic
  have hnil : p.link.hand [] = p.link := by simp [Link.hand]
  unfold CanPath.send
  generalize p.output.send (SocketCan.transport false written) msg mode = r at hs
  cases hs
  case unused hm => exact ⟨todo, by simpa [hm, hnil] using h⟩
  case fails => exact ⟨todo, by simpa [hnil] using h⟩
  case rejected b handed he ht =>
    have ⟨n, hn, hok⟩ := SocketCan.transport_frames ht
    have hn₃ : ¬3 ≤ n := fun hle => Bool.false_ne_true (hok.mpr hle)
    exact ⟨todo, by simpa [hn] using h.fails hn₃⟩
  case sent b handed he ht =>
    have ⟨n, hn, hok⟩ := SocketCan.transport_frames ht
    exact ⟨todo ++ [b], by simpa [hn, he.usesCan] using h.succeeds he (hok.mp rfl)⟩

theorem Flow.fresh {b : ClassicBatch} (h : p.Flow done (b :: todo)) :
    p.link.decoder.Fresh b.status.toList ∧
      (b.sequence.toNat + 1) % 65536 = (p.link.arrived + 1) % 65536 := by
  have hj : (done ++ b :: todo)[p.link.arrived]? = some b := by simp [← h.carries.done]
  have ⟨_, _, _, he⟩ := h.encodes hj
  have hn : b.sequence.toNat = p.link.arrived % 65536 := by
    rw [he.sequence_eq, UInt16.toNat_ofNat']
  refine ⟨fun e hexp => ?_, by omega⟩
  rw [Link.u16Le_status, hn, h.expected e hexp, seqDelta]
  omega

theorem Flow.decoded_append {b : ClassicBatch} {j : ℕ} {c : DecodedControlCommand α}
    (h : p.Flow done todo) (hj : (j, c) ∈ p.link.accepted) :
    ∃ b' : ClassicBatch, (done ++ [b])[j]? = some b' ∧ c = b'.decoded := by
  have ⟨b', hb, hc⟩ := h.decoded hj
  exact ⟨b', List.getElem?_append_left (List.getElem?_eq_some_iff.mp hb).1 ▸ hb, hc⟩

theorem filter_range_succ (P : ℕ → Bool) (n : ℕ) :
    (List.range (n + 1)).filter P = (List.range n).filter P ++ if P n then [n] else [] := by
  rw [List.range_succ, List.filter_append, List.filter_singleton, Bool.cond_eq_ite]

theorem Flow.arrive {now : Float} {link : Link α} (h : p.Flow done todo)
    (ha : p.link.arrive now = some link) :
    ∃ done' todo', Flow { p with link := link } done' todo' := by
  have hbroken := Link.broken_of_arrive ha
  have hA := h.carries.arrives ha
  generalize ht : todo = todo₀ at hA
  cases hA
  case data he hh hc =>
    have ⟨ha, hi, _⟩ := Link.history_eq hh
    have hn : link.arrived = p.link.arrived := hc.done.symm.trans h.carries.done
    exact ⟨done, todo, { h with
      carries     := ht ▸ hc
      expected    := by rw [he, hn]; exact h.expected
      broken      := fun hb => he.trans (h.broken (hbroken hb))
      interrupted := by rw [hi, hn]; exact h.interrupted
      accepted    := by rw [ha, hi, hn]; exact h.accepted
      decoded     := by rw [ha]; exact h.decoded }⟩
  case interrupted b todo' hb hc he hh =>
    subst ht
    have ⟨ha, hi, _⟩ := Link.history_eq hh
    have hn : link.arrived = p.link.arrived + 1 := by
      simp [← hc.done, ← h.carries.done]
    have hnone := he.trans (h.broken hb)
    exact ⟨_, todo', { h with
      carries     := hc
      length      := List.append_cons done b todo' ▸ h.length
      encodes     := fun hj => h.encodes (List.append_cons done b todo' ▸ hj)
      expected    := by rw [hnone]; exact nofun
      broken      := fun _ => hnone
      interrupted := by
        rw [hi, hn]
        simp only [List.mem_append, List.mem_singleton]
        rintro k (hk | hk)
        case inl => exact Nat.lt_succ_of_lt (h.interrupted k hk)
        case inr => exact hk ▸ Nat.lt_succ_self _
      accepted    := by
        rw [ha, hi, hn, h.accepted, filter_range_succ, if_neg (by simp), List.append_nil]
        refine List.filter_congr fun k hk => ?_
        simp [(List.mem_range.mp hk).ne]
      decoded     := by
        rw [ha]
        exact h.decoded_append }⟩
  case stale b todo' hb hf hc he hh =>
    subst ht
    exact absurd h.fresh.1 hf
  case accepted b todo' hb hf hc he hh =>
    subst ht
    have ⟨ha, hi, _⟩ := Link.history_eq hh
    have hn : link.arrived = p.link.arrived + 1 := by
      simp [← hc.done, ← h.carries.done]
    exact ⟨_, todo', { h with
      carries     := hc
      length      := List.append_cons done b todo' ▸ h.length
      encodes     := fun hj => h.encodes (List.append_cons done b todo' ▸ hj)
      expected    := by rw [he, hn, h.fresh.2]; simp
      broken      := fun hb' => absurd (hbroken hb') (by simp [hb])
      interrupted := by
        rw [hi, hn]
        exact fun k hk => Nat.lt_succ_of_lt (h.interrupted k hk)
      accepted    := by
        have hni : p.link.arrived ∉ p.link.interrupted := fun hk => (h.interrupted _ hk).false
        rw [ha, hi, hn, List.map_append, h.accepted, filter_range_succ, if_pos (by simp [hni])]
        rfl
      decoded     := by
        rw [ha]
        intro j c hj
        rw [List.mem_append, List.mem_singleton, Prod.mk.injEq] at hj
        rcases hj with hj | ⟨hj, hcd⟩
        case inl => exact h.decoded_append hj
        case inr => exact ⟨b, by simp [hj, ← h.carries.done], hcd⟩ }⟩

theorem Flow.poll {now timeoutSec : Float} (h : p.Flow done todo) :
    Flow { p with link := p.link.poll now timeoutSec } done todo := by
  have ⟨hc, hp⟩ := (h.carries.polled : (p.link.poll now timeoutSec).Carries _ _ ∧ _)
  have hn : (p.link.poll now timeoutSec).arrived = p.link.arrived :=
    hc.done.symm.trans h.carries.done
  cases hp
  case reports hb he hh =>
    have ⟨ha, hi, _⟩ := Link.history_eq hh
    exact { h with
      carries     := hc
      expected    := by rw [he, hn]; exact h.expected
      broken      := by rw [he, hb]; exact h.broken
      interrupted := by rw [hi, hn]; exact h.interrupted
      accepted    := by rw [ha, hi, hn]; exact h.accepted
      decoded     := by rw [ha]; exact h.decoded }
  case stops hb he hh =>
    have ⟨ha, hi, _⟩ := Link.history_eq hh
    exact { h with
      carries     := hc
      expected    := by rw [he]; exact nofun
      broken      := fun _ => he
      interrupted := by rw [hi, hn]; exact h.interrupted
      accepted    := by rw [ha, hi, hn]; exact h.accepted
      decoded     := by rw [ha]; exact h.decoded }

theorem Flow.step (h : p.Flow done todo) (hs : p.step e = some p') :
    ∃ done' todo', p'.Flow done' todo' := by
  cases e
  case send msg mode written =>
    cases hs
    exact ⟨done, h.send⟩
  case arrive now =>
    have ⟨link, ha, hp⟩ := Option.map_eq_some_iff.mp hs
    exact hp ▸ h.arrive ha
  case poll now timeoutSec =>
    cases hs
    exact ⟨done, todo, h.poll⟩

theorem Flow.run {canInit : Bool} {es : List Event} (h : Run CanPath.step (.init canInit) es p) :
    ∃ done todo, p.Flow done todo :=
  h.invariant (P := fun p => ∃ done todo, p.Flow done todo) (fun hs _ ⟨_, _, hf⟩ => hf.step hs)
    ⟨[], [], .init⟩

-- The accepted commands are the ones that were sent, in order and once each, but for those that a
-- safe stop interrupted.
theorem exactly_once {canInit : Bool} {es : List Event} (h : Run CanPath.step (.init canInit) es p) :
    p.link.accepted.map Prod.fst =
      (List.range p.link.arrived).filter (· ∉ p.link.interrupted) ∧
    (∀ j c, (j, c) ∈ p.link.accepted → ∃ msg mode, ∃ b : ClassicBatch, p.sent[j]? = some (msg, mode) ∧
      encodeControlCommand msg mode (.ofNat j) = .ok b.frames ∧ c = b.decoded ∧
      c.sequence = j % 65536) ∧
    p.link.arrived ≤ p.sent.length ∧
    (p.link.queue = [] → p.link.arrived = p.sent.length) := by
  have ⟨done, todo, hf⟩ := Flow.run h
  refine ⟨hf.accepted, fun j c hj => ?_, ?_, fun hq => ?_⟩
  case refine_1 =>
    have ⟨b, hb, hc⟩ := hf.decoded hj
    have hlt := (List.getElem?_eq_some_iff.mp hb).1
    have ⟨msg, mode, hs, he⟩ := hf.encodes (List.getElem?_append_left hlt ▸ hb)
    refine ⟨msg, mode, b, hs, he.encoded, hc, ?_⟩
    have hseq : (b.decoded : DecodedControlCommand α).sequence = b.sequence.toNat :=
      Link.u16Le_status b
    rw [hc, hseq, he.sequence_eq, UInt16.toNat_ofNat']
  case refine_2 =>
    rw [← hf.length, ← hf.carries.done, List.length_append]
    exact Nat.le_add_right ..
  case refine_3 =>
    have ⟨_, hs, _⟩ := hf.carries.stream
    rw [hq] at hs
    cases hs
    rw [← hf.length, ← hf.carries.done, List.append_nil]

end

-- A send that hands over one frame, and another attempt.
def retry : List Event :=
  [.send default .canOnly (· < 1), .send default .canOnly fun _ => true] ++
    .replicate 4 (.arrive 1)

theorem exactly_once_retry :
    let p : CanPath Float := after CanPath.step (.init true) retry
    p.link.accepted.map Prod.fst = [0] ∧ p.link.arrived = p.sent.length ∧
    ∀ j c, (j, c) ∈ p.link.accepted → c.sequence = j % 65536 := by
  intro p
  have hr : Run CanPath.step (.init true) retry p := run_after (by decide +kernel)
  have ⟨ha, hc, _, hq⟩ := exactly_once hr
  refine ⟨ha.trans (by decide +kernel), hq (by decide +kernel), fun j c hj => ?_⟩
  have ⟨_, _, _, _, _, _, hs⟩ := hc j c hj
  exact hs

end CanPath
end SafetyIsland.Can

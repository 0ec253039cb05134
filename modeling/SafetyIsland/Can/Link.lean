import SafetyIsland.Can.Datagram
import SafetyIsland.Can.RoundTrip

namespace SafetyIsland.Can

theorem getElem?_concat_eq_some {β : Type} {bs : List β} {b b' : β} {j : ℕ} :
    (bs ++ [b])[j]? = some b' ↔ bs[j]? = some b' ∨ j = bs.length ∧ b = b' := by
  rcases lt_trichotomy j bs.length with hlt | rfl | hgt
  case inl => simp [List.getElem?_append_left hlt, hlt.ne]
  case inr.inl => simp
  case inr.inr =>
    have hn : j - bs.length ≠ 0 := by omega
    simp [List.getElem?_append_right hgt.le, List.getElem?_eq_none hgt.le, hgt.ne', hn]

namespace ClassicBatch

def decoded {α : Type} [IntCast α] [Div α] (b : ClassicBatch) : DecodedControlCommand α :=
  .assemble b.lateral.toList b.longitudinal.toList b.status.toList

end ClassicBatch

-- Where the frames that arrived so far end: between two batches, or in the middle of one.
inductive Phase
  | idle
  | lateral (b : ClassicBatch)
  | longitudinal (b : ClassicBatch)

-- The frames on their way, when the ones before them end in a phase: the rest of that batch or not,
-- then any number of batches, each cut off after any of its frames. The list is that of the batches
-- whose status frame is on its way.
inductive Stream : Phase → List CanFrame → List ClassicBatch → Prop
  | nil {phase : Phase} : Stream phase [] []
  | lateral {phase : Phase} {b : ClassicBatch} {frames : List CanFrame} {bs : List ClassicBatch} :
    Stream (.lateral b) frames bs →
    Stream phase (.classic lateralId b.lateral :: frames) bs
  | longitudinal {b : ClassicBatch} {frames : List CanFrame} {bs : List ClassicBatch} :
    Stream (.longitudinal b) frames bs →
    Stream (.lateral b) (.classic longitudinalId b.longitudinal :: frames) bs
  | status {b : ClassicBatch} {frames : List CanFrame} {bs : List ClassicBatch} :
    Stream .idle frames bs →
    Stream (.longitudinal b) (.classic statusId b.status :: frames) (b :: bs)

theorem Stream.hand {phase : Phase} {frames : List CanFrame} {bs : List ClassicBatch}
    (h : Stream phase frames bs) (b : ClassicBatch) (n : ℕ) :
    Stream phase (frames ++ b.frames.take n) (bs ++ if 3 ≤ n then [b] else []) := by
  induction h
  case nil =>
    match n with
    | 0     => exact .nil
    | 1     => exact .lateral .nil
    | 2     => exact .lateral (.longitudinal .nil)
    | n + 3 =>
      have ht : b.frames.take (n + 3) = b.frames := List.take_of_length_le (by simp [ClassicBatch.frames])
      simp only [ht, List.nil_append, Nat.le_add_left, if_true]
      exact .lateral (.longitudinal (.status .nil))
  case lateral ih => exact .lateral ih
  case longitudinal ih => exact .longitudinal ih
  case status ih => exact .status ih

-- A bus that keeps the order of its frames and loses none, with the decoder at its end. The rest is
-- a history that no step reads: how many status frames arrived, whether the decoder went to its safe
-- stop since the last lateral frame, and which status frames were accepted, with their commands,
-- those since the last safe stop also in `epoch`.
structure Link (α : Type) where
  decoder     : ControlCommandDecoder α
  queue       : List CanFrame
  arrived     : ℕ
  broken      : Bool
  interrupted : List ℕ
  accepted    : List (ℕ × DecodedControlCommand α)
  epoch       : List ℕ

namespace Link

section

variable {α : Type} [IntCast α] [Div α]

def init : Link α where
  decoder     := .init
  queue       := []
  arrived     := 0
  broken      := false
  interrupted := []
  accepted    := []
  epoch       := []

def hand (l : Link α) (frames : List CanFrame) : Link α :=
  { l with queue := l.queue ++ frames }

def note (l : Link α) (frame : CanFrame) (event : DecoderEvent) : Link α :=
  if frame.id = statusId then { l with
    arrived     := l.arrived + 1
    interrupted := if l.broken then l.interrupted ++ [l.arrived] else l.interrupted
    accepted    := if event = .accepted then l.accepted ++ [(l.arrived, l.decoder.command)]
      else l.accepted
    epoch       := if event = .accepted then l.epoch ++ [l.arrived] else l.epoch }
  else if frame.id = lateralId then { l with broken := false }
  else l

def arrive (l : Link α) (now : Float) : Option (Link α) :=
  match l.queue with
  | []             => none
  | frame :: queue =>
    let (decoder, event) := l.decoder.feedFrame frame now
    some ({ l with queue := queue, decoder := decoder }.note frame event)

def poll (l : Link α) (now timeoutSec : Float) : Link α :=
  let (decoder, _) := l.decoder.pollWatchdog now timeoutSec
  if decoder.inSafeStop && !l.decoder.inSafeStop then
    { l with decoder := decoder, broken := true, epoch := [] }
  else { l with decoder := decoder }

-- What is pending in a phase.
inductive Held (broken : Bool) : Phase → ControlCommandDecoder α → Prop
  | idle {d : ControlCommandDecoder α} : Held broken .idle d
  | lateral {d : ControlCommandDecoder α} {b : ClassicBatch}
    (hl : d.lateral = if broken then none else some b.lateral.toList) :
    Held broken (.lateral b) d
  | longitudinal {d : ControlCommandDecoder α} {b : ClassicBatch}
    (hl : d.lateral = if broken then none else some b.lateral.toList)
    (hg : broken = false → d.longitudinal = some b.longitudinal.toList) :
    Held broken (.longitudinal b) d

-- The batches whose status frame arrived, and those whose status frame is on its way.
structure Carries (l : Link α) (done todo : List ClassicBatch) : Prop where
  stream : ∃ phase, Stream phase l.queue todo ∧ Held l.broken phase l.decoder
  done   : done.length = l.arrived

def history (l : Link α) : List (ℕ × DecodedControlCommand α) × List ℕ × List ℕ :=
  (l.accepted, l.interrupted, l.epoch)

inductive Arrives (l : Link α) (done : List ClassicBatch) : List ClassicBatch → Link α → Prop
  | data {todo : List ClassicBatch} {l' : Link α} (hc : l'.Carries done todo)
    (he : l'.decoder.expected = l.decoder.expected) (hh : l'.history = l.history) :
    Arrives l done todo l'
  | interrupted {b : ClassicBatch} {todo : List ClassicBatch} {l' : Link α}
    (hb : l.broken = true) (hc : l'.Carries (done ++ [b]) todo)
    (he : l'.decoder.expected = l.decoder.expected)
    (hh : l'.history = (l.accepted, l.interrupted ++ [l.arrived], l.epoch)) :
    Arrives l done (b :: todo) l'
  | stale {b : ClassicBatch} {todo : List ClassicBatch} {l' : Link α}
    (hb : l.broken = false) (hf : ¬l.decoder.Fresh b.status.toList)
    (hc : l'.Carries (done ++ [b]) todo)
    (he : l'.decoder.expected = l.decoder.expected) (hh : l'.history = l.history) :
    Arrives l done (b :: todo) l'
  | accepted {b : ClassicBatch} {todo : List ClassicBatch} {l' : Link α}
    (hb : l.broken = false) (hf : l.decoder.Fresh b.status.toList)
    (hc : l'.Carries (done ++ [b]) todo)
    (he : l'.decoder.expected = some ((b.sequence.toNat + 1) % 65536))
    (hh : l'.history =
      (l.accepted ++ [(l.arrived, b.decoded)], l.interrupted, l.epoch ++ [l.arrived])) :
    Arrives l done (b :: todo) l'

variable {l l' : Link α} {done todo : List ClassicBatch} {now timeoutSec : Float}

omit [Div α] in
theorem Carries.init : (init : Link α).Carries [] [] :=
  ⟨⟨.idle, .nil, .idle⟩, rfl⟩

omit [IntCast α] [Div α] in
theorem Carries.hand (h : l.Carries done todo) (b : ClassicBatch) (n : ℕ) :
    (l.hand (b.frames.take n)).Carries done (todo ++ if 3 ≤ n then [b] else []) := by
  have ⟨phase, hs, hh⟩ := h.stream
  exact ⟨⟨phase, hs.hand b n, hh⟩, h.done⟩

theorem u16Le_status (b : ClassicBatch) : u16Le b.status.toList 2 = b.sequence.toNat := by
  have h := ClassicBatch.statusSequence_status (b := b)
  rw [Datagram.statusSequence] at h
  rw [u16Le, fromBytes_eq]
  exact_mod_cast h

theorem Carries.arrives (h : l.Carries done todo) (ha : l.arrive now = some l') :
    Arrives l done todo l' := by
  have ⟨phase, hs, hh⟩ := h.stream
  generalize hq : l.queue = queue at hs
  cases hs
  case nil => simp [arrive, hq] at ha
  case lateral b frames hs =>
    simp only [arrive, hq, ControlCommandDecoder.feedFrame_classic] at ha
    rw [ControlCommandDecoder.feed_lateral (by simp)] at ha
    cases ha
    exact .data ⟨⟨_, hs, .lateral rfl⟩, h.done⟩ rfl rfl
  case longitudinal b frames hs =>
    simp only [arrive, hq, ControlCommandDecoder.feedFrame_classic] at ha
    rw [ControlCommandDecoder.feed_longitudinal (by simp)] at ha
    cases ha
    cases hh
    case lateral hl => exact .data ⟨⟨_, hs, .longitudinal hl fun _ => rfl⟩, h.done⟩ rfl rfl
  case status b frames bs hs =>
    simp only [arrive, hq, ControlCommandDecoder.feedFrame_classic] at ha
    rw [ControlCommandDecoder.feed_status (by simp)] at ha
    have hc : ControlCommandDecoder.Commits _ b.status.toList now _ :=
      (l.decoder.noteTime now).commits
    generalize (l.decoder.noteTime now).commit b.status.toList now = r at ha hc
    cases ha
    have hdone : (done ++ [b]).length = l.arrived + 1 := by simp [h.done]
    cases hh
    case longitudinal hl hg =>
      cases hb : l.broken
      case true =>
        rw [hb] at hl
        cases hc
        case accepts hl' _ _ => simp [ControlCommandDecoder.noteTime, hl] at hl'
        case rejects =>
          refine .interrupted hb ⟨⟨.idle, hs, .idle⟩, hdone⟩ rfl ?_
          simp [note, history]
      case false =>
        rw [hb] at hl
        have hg := hg hb
        cases hc
        case rejects hf =>
          have hf := hf (by simp [ControlCommandDecoder.noteTime, hl])
            (by simp [ControlCommandDecoder.noteTime, hg])
          refine .stale hb hf ⟨⟨.idle, hs, .idle⟩, hdone⟩ rfl ?_
          simp [note, history]
        case accepts lateral longitudinal hl' hg' hf =>
          cases hl.symm.trans hl'
          cases hg.symm.trans hg'
          refine .accepted hb hf ⟨⟨.idle, hs, .idle⟩, hdone⟩ ?_ ?_
          case refine_1 => rw [← u16Le_status]; rfl
          case refine_2 =>
            simp only [note, history, CanFrame.classic_id, if_true]
            rfl

theorem broken_of_arrive (ha : l.arrive now = some l') (hb : l'.broken = true) :
    l.broken = true := by
  simp only [arrive] at ha
  split at ha
  case h_1 => cases ha
  case h_2 =>
    cases ha
    simp only [note] at hb
    split_ifs at hb
    all_goals exact hb

omit [IntCast α] [Div α] in
theorem history_eq {accepted : List (ℕ × DecodedControlCommand α)} {interrupted epoch : List ℕ}
    (h : l.history = (accepted, interrupted, epoch)) :
    l.accepted = accepted ∧ l.interrupted = interrupted ∧ l.epoch = epoch := by
  simpa [history] using h

inductive Polled (l : Link α) : Link α → Prop
  | reports {l' : Link α} (hb : l'.broken = l.broken)
    (he : l'.decoder.expected = l.decoder.expected) (hh : l'.history = l.history) : Polled l l'
  | stops {l' : Link α} (hb : l'.broken = true) (he : l'.decoder.expected = none)
    (hh : l'.history = (l.accepted, l.interrupted, [])) : Polled l l'

omit [IntCast α] [Div α] in
theorem Carries.polled (h : l.Carries done todo) :
    (l.poll now timeoutSec).Carries done todo ∧ l.Polled (l.poll now timeoutSec) := by
  have ⟨phase, hs, hh⟩ := h.stream
  have hp : l.decoder.Polls now timeoutSec _ := ControlCommandDecoder.polls
  unfold poll
  generalize l.decoder.pollWatchdog now timeoutSec = r at hp
  cases hp
  case reports =>
    have hsafe : (l.decoder.noteTime now).inSafeStop = l.decoder.inSafeStop := rfl
    simp only [hsafe, Bool.and_not_self, Bool.false_eq_true, if_false]
    refine ⟨⟨⟨phase, hs, ?_⟩, h.done⟩, .reports rfl rfl rfl⟩
    cases hh
    case idle => exact .idle
    case lateral hl => exact .lateral hl
    case longitudinal hl hg => exact .longitudinal hl hg
  case stops hsafe =>
    have hstop : (l.decoder.noteTime now).safeStop.inSafeStop = true := rfl
    simp only [hstop, hsafe, Bool.not_false, Bool.and_self, if_true]
    refine ⟨⟨⟨phase, hs, ?_⟩, h.done⟩, .stops rfl rfl rfl⟩
    cases hh
    case idle => exact .idle
    case lateral => exact .lateral rfl
    case longitudinal => exact .longitudinal rfl nofun

end

end Link
end SafetyIsland.Can

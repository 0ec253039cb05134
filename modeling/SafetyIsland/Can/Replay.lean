import SafetyIsland.Can.Bus
import SafetyIsland.Can.Payload
import SafetyIsland.Transition.Run

namespace SafetyIsland.Can

open Bytes Transition

inductive BusFrame
  | classic (canId : UInt32) (data : List UInt8) (dlc : ℕ) (extended : Bool)
  | fd (canId : UInt32) (data : List UInt8) (length : ℕ) (extended : Bool)

-- What the decoder makes of a frame on its own.
inductive Content
  | nothing
  | lateral (payload : List UInt8)
  | longitudinal (payload : List UInt8)
  | status (payload : List UInt8)
  | batch (lateral longitudinal status : List UInt8)

namespace BusFrame

def content : BusFrame → Content
  | classic canId data dlc extended =>
    if extended ∨ dlc ≠ 8 ∨ data.length < 8 then .nothing
    else if canId = lateralId then .lateral (data.take 8)
    else if canId = longitudinalId then .longitudinal (data.take 8)
    else if canId ≠ statusId then .nothing
    else .status (data.take 8)
  | fd canId data length extended =>
    if extended ∨ canId ≠ fdCommandId ∨ length ≠ fdPayloadLength ∨
        data.length < fdPayloadLength then .nothing
    else .batch (data.take 8) ((data.drop 8).take 8) ((data.drop 16).take 8)

end BusFrame

namespace Content

def data : Content → Part → Option (List UInt8)
  | lateral payload,      .lateral      => some payload
  | longitudinal payload, .longitudinal => some payload
  | _,                    _             => none

def commit : Content → Option (List UInt8)
  | status payload    => some payload
  | batch _ _ payload => some payload
  | _                 => none

end Content

-- What happens to a decoder: it is fed a frame, or its watchdog is polled.
inductive Input
  | frame (frame : BusFrame) (now : Float)
  | poll (now timeoutSec : Float)

section

variable {α : Type} [IntCast α] [Div α]

namespace ControlCommandDecoder

def receive (d : ControlCommandDecoder α) (now : Float) :
    BusFrame → ControlCommandDecoder α × DecoderEvent
  | .classic canId data dlc extended => d.feed canId data dlc extended now
  | .fd canId data length extended   => d.feedFd canId data length extended now

def input (d : ControlCommandDecoder α) : Input → ControlCommandDecoder α × DecoderEvent
  | .frame frame now     => d.receive now frame
  | .poll now timeoutSec => d.pollWatchdog now timeoutSec

def step (d : ControlCommandDecoder α) (i : Input) : Option (ControlCommandDecoder α) :=
  some (d.input i).1

def take (d : ControlCommandDecoder α) (now : Float) :
    Content → ControlCommandDecoder α × DecoderEvent
  | .nothing              => (d, .ignored)
  | .lateral payload      => ({ d with lateral := some payload }, .stored)
  | .longitudinal payload => ({ d with longitudinal := some payload }, .stored)
  | .status payload       => d.commit payload now
  | .batch lateral longitudinal status =>
    { d with lateral := some lateral, longitudinal := some longitudinal }.commit status now

variable {d d' : ControlCommandDecoder α} {frame : BusFrame} {now timeoutSec : Float}

theorem receive_eq : d.receive now frame = (d.noteTime now).take now frame.content := by
  cases frame
  case classic canId data dlc extended =>
    simp only [receive, feed, BusFrame.content]
    split_ifs <;> rfl
  case fd canId data length extended =>
    simp only [receive, feedFd, BusFrame.content]
    split_ifs with h
    case pos => rfl
    case neg =>
      have hlen : 24 ≤ data.length := by
        have : fdPayloadLength = 24 := rfl
        omega
      have ht : data.take fdPayloadLength = data.take 24 := rfl
      have h₁ : (data.take 24).take 8 = data.take 8 := by simp [List.take_take]
      have h₂ : ((data.take 24).drop 8).take 8 = (data.drop 8).take 8 := by
        simp [List.drop_take, List.take_take]
      have h₃ : ((data.take 24).drop 16).take 8 = (data.drop 16).take 8 := by
        simp [List.drop_take, List.take_take]
      have l₁ : (data.take 8).length = 8 := by simp; omega
      have l₂ : ((data.drop 8).take 8).length = 8 := by simp; omega
      have l₃ : ((data.drop 16).take 8).length = 8 := by simp; omega
      rw [ht, h₁, h₂, h₃, feed_lateral l₁, feed_longitudinal l₂, feed_status l₃]
      simp only [noteTime, take]
      cases d.anchor <;> rfl

def pending (d : ControlCommandDecoder α) : Part → Option (List UInt8)
  | .lateral      => d.lateral
  | .longitudinal => d.longitudinal
  | .status       => none

-- What a decoder does with a frame: it keeps its pending payloads, it takes in one of them, or it
-- ends the cycle.
inductive Receives (d : ControlCommandDecoder α) (now : Float) (content : Content) :
    ControlCommandDecoder α × DecoderEvent → Prop
  | ignores : content = .nothing → Receives d now content (d.noteTime now, .ignored)
  | lateral {payload : List UInt8} : content = .lateral payload →
    Receives d now content ({ d.noteTime now with lateral := some payload }, .stored)
  | longitudinal {payload : List UInt8} : content = .longitudinal payload →
    Receives d now content ({ d.noteTime now with longitudinal := some payload }, .stored)
  | accepts {lateral longitudinal status : List UInt8} : content.commit = some status →
    (content = .batch lateral longitudinal status ∨ content = .status status ∧
      d.lateral = some lateral ∧ d.longitudinal = some longitudinal) → d.Fresh status →
    Receives d now content ((d.noteTime now).accept lateral longitudinal status now, .accepted)
  | rejects {status : List UInt8} : content.commit = some status →
    Receives d now content ((d.noteTime now).clearPending, .rejected)

theorem receives : Receives d now frame.content (d.receive now frame) := by
  rw [receive_eq]
  cases hc : frame.content
  case nothing => exact .ignores rfl
  case lateral => exact .lateral rfl
  case longitudinal => exact .longitudinal rfl
  case status payload =>
    have h : Commits (d.noteTime now) payload now _ := commits
    rw [take]
    generalize (d.noteTime now).commit payload now = r at h ⊢
    cases h
    case accepts hl hg hf => exact .accepts rfl (.inr ⟨rfl, hl, hg⟩) hf
    case rejects => exact .rejects rfl
  case batch lateral longitudinal status =>
    let d₁ := { d.noteTime now with lateral := some lateral, longitudinal := some longitudinal }
    have h : Commits d₁ status now (d₁.commit status now) := commits
    change Receives d now _ (d₁.commit status now)
    generalize d₁.commit status now = r at h ⊢
    cases h
    case accepts hl hg hf =>
      cases hl
      cases hg
      exact .accepts rfl (.inl rfl) hf
    case rejects => exact .rejects rfl

def Stops (d : ControlCommandDecoder α) (_ : Input) (d' : ControlCommandDecoder α) : Prop :=
  d.inSafeStop = false ∧ d'.inSafeStop = true

-- A commit that is accepted or rejected, or the transition to the safe stop.
def Resets (d : ControlCommandDecoder α) (i : Input) (d' : ControlCommandDecoder α) : Prop :=
  (d.input i).2 = .accepted ∨ (d.input i).2 = .rejected ∨ Stops d i d'

def accepted (d : ControlCommandDecoder α) : List Input → List ℕ
  | []      => []
  | i :: is =>
    let (d', event) := d.input i
    if event = .accepted then d'.command.sequence :: accepted d' is else accepted d' is

variable {i : Input} {is : List Input}

theorem fromBytes_lt {bytes : List UInt8} : fromBytes bytes < 256 ^ bytes.length := by
  rw [fromBytes_eq]
  exact value_lt

theorem u16Le_lt {data : List UInt8} {offset : ℕ} : u16Le data offset < 65536 := by
  have hl : ((data.drop offset).take 2).length ≤ 2 := List.length_take_le ..
  calc u16Le data offset
    _ < 256 ^ ((data.drop offset).take 2).length := fromBytes_lt
    _ ≤ 256 ^ 2 := Nat.pow_le_pow_right (by decide) hl

theorem unwrap {x sequence : ℕ} (hs : sequence < 65536)
    (h : 0 ≤ seqDelta sequence ((x + 1) % 65536)) :
    ∃ y, y % 65536 = sequence ∧ x < y ∧ y ≤ x + 32768 := by
  rw [seqDelta] at h
  exists x + 1 + (seqDelta sequence ((x + 1) % 65536)).toNat
  rw [seqDelta]
  omega

theorem seqDelta_neg {e k sequence : ℕ} (hk : 1 ≤ k) (hk' : k ≤ 32768)
    (h : (sequence + k) % 65536 = e) : seqDelta sequence e < 0 := by
  rw [seqDelta]
  omega

theorem input_expected : (d.input i).2 ≠ .accepted ∧ (d.input i).1.expected = d.expected ∨
    (d.input i).2 = .accepted ∧ (∃ payload, (d.input i).1.command.sequence = u16Le payload 2 ∧
      d.Fresh payload ∧ (d.input i).1.expected = some ((u16Le payload 2 + 1) % 65536)) ∨
    Stops d i (d.input i).1 ∧ (d.input i).1.expected = none := by
  cases i
  case frame frame now =>
    have h : Receives d now frame.content (d.receive now frame) := receives
    simp only [input]
    generalize d.receive now frame = r at h
    cases h
    case accepts status _ _ hf => exact .inr (.inl ⟨rfl, status, rfl, hf, rfl⟩)
    all_goals exact .inl ⟨nofun, rfl⟩
  case poll now timeoutSec =>
    have h : Polls d now timeoutSec _ := polls
    rw [input]
    generalize d.pollWatchdog now timeoutSec = r at h
    cases h
    case reports he => exact .inl ⟨he, rfl⟩
    case stops hs => exact .inr (.inr ⟨⟨hs, rfl⟩, rfl⟩)

theorem expected_lt (h : Run step (.init : ControlCommandDecoder α) is d) :
    ∀ e ∈ d.expected, e < 65536 := by
  refine h.invariant (P := fun d => ∀ e ∈ d.expected, e < 65536)
    (fun {d i _} hs _ ih e he => ?_) nofun
  cases hs
  rcases input_expected (d := d) (i := i) with ⟨_, heq⟩ | ⟨_, _, _, _, heq⟩ | ⟨_, heq⟩
  case inl => exact ih e (heq ▸ he)
  case inr.inl =>
    cases heq.symm.trans he
    omega
  case inr.inr => cases heq.symm.trans he

-- Without a safe stop, the accepted sequences are those of ever greater numbers. The induction is on
-- the run, and `x` is the number of the last accepted command before it.
theorem accepted_after {x : ℕ} (h : Along step (fun d i d' => ¬Stops d i d') d is d')
    (hx : d.expected = some ((x + 1) % 65536)) :
    ∃ u : List ℕ, u.map (· % 65536) = d.accepted is ∧
      (x :: u).IsChain fun a b => a < b ∧ b ≤ a + 32768 := by
  induction h generalizing x
  case nil => exact ⟨[], rfl, .singleton x⟩
  case cons d _ d' i is hs hn _ ih =>
    cases hs
    rw [accepted]
    rcases input_expected (d := d) (i := i) with ⟨ha, heq⟩ | ⟨ha, payload, hc, hf, heq⟩ | ⟨hs, _⟩
    case inl => simpa [ha] using ih (heq.trans hx)
    case inr.inr => exact absurd hs hn
    case inr.inl =>
      have ⟨y, hy, hlt, hle⟩ := unwrap u16Le_lt (hf _ hx)
      have hm : (u16Le payload 2 + 1) % 65536 = (y + 1) % 65536 := by omega
      have ⟨u, hu, hchain⟩ := ih (x := y) (heq.trans (congrArg some hm))
      refine ⟨y :: u, ?_, .cons_cons ⟨hlt, hle⟩ hchain⟩
      simp [ha, hu, hy, hc]

theorem accepted_numbers (h : Along step (fun d i d' => ¬Stops d i d') d is d')
    (hlt : ∀ e ∈ d.expected, e < 65536) :
    ∃ u : List ℕ, u.map (· % 65536) = d.accepted is ∧
      u.IsChain fun a b => a < b ∧ b ≤ a + 32768 := by
  induction h
  case nil => exact ⟨[], rfl, .nil⟩
  case cons d _ d' i is hs hn h ih =>
    cases hs
    cases he : d.expected
    case some e =>
      have hm : (e + 65535 + 1) % 65536 = e := by
        have := hlt e he
        omega
      have ⟨u, hu, hchain⟩ := accepted_after (.cons rfl hn h) (he.trans (congrArg some hm.symm))
      exact ⟨u, hu, hchain.of_cons⟩
    case none =>
      rw [accepted]
      rcases input_expected (d := d) (i := i) with ⟨ha, heq⟩ | ⟨ha, payload, hc, _, heq⟩ | ⟨hs, _⟩
      case inl => simpa [ha] using ih (by simp [heq, he])
      case inr.inr => exact absurd hs hn
      case inr.inl =>
        have ⟨u, hu, hchain⟩ := accepted_after h heq
        refine ⟨u16Le payload 2 :: u, ?_, hchain⟩
        simp [ha, hu, hc, Nat.mod_eq_of_lt u16Le_lt]

-- A frame that carries the payload of a part.
def Carries (part : Part) (i : Input) (payload : List UInt8) : Prop :=
  ∃ frame now, i = .frame frame now ∧ frame.content.data part = some payload

omit [IntCast α] [Div α] in
theorem poll_ne (d : ControlCommandDecoder α) (now timeoutSec : Float) :
    (d.pollWatchdog now timeoutSec).2 ≠ .accepted ∧
    (d.pollWatchdog now timeoutSec).2 ≠ .rejected := by
  simp only [pollWatchdog]
  split
  case isTrue => simp
  case isFalse =>
    split
    case h_1 => simp
    case h_2 => split_ifs <;> simp

theorem pending_input (part : Part) :
    Resets d i (d.input i).1 ∧ (d.input i).1.pending part = none ∨
    ¬Resets d i (d.input i).1 ∧ (∃ payload, Carries part i payload ∧
      (d.input i).1.pending part = some payload) ∨
    ¬Resets d i (d.input i).1 ∧ (∀ payload, ¬Carries part i payload) ∧
      (d.input i).1.pending part = d.pending part := by
  cases i
  case poll now timeoutSec =>
    have ⟨ha, hr⟩ := d.poll_ne now timeoutSec
    have h : Polls d now timeoutSec (d.pollWatchdog now timeoutSec) := polls
    simp only [Resets, input, ha, hr, false_or]
    generalize d.pollWatchdog now timeoutSec = r at h
    cases h
    case stops hs => exact .inl ⟨⟨hs, rfl⟩, by cases part <;> rfl⟩
    case reports =>
      refine .inr (.inr ⟨fun hs => ?_, nofun, by cases part <;> rfl⟩)
      exact Bool.false_ne_true (hs.1.symm.trans hs.2)
  case frame frame now =>
    have hcarries {payload : List UInt8} : Carries part (.frame frame now) payload ↔
        frame.content.data part = some payload := by
      simp [Carries]
    have h : Receives d now frame.content (d.receive now frame) := receives
    simp only [hcarries, Resets, input]
    generalize d.receive now frame = r at h
    -- a frame that does not commit leaves the safe stop alone
    have hn {d' : ControlCommandDecoder α} {e : DecoderEvent} (ha : e ≠ .accepted)
        (hr : e ≠ .rejected) (hs : d'.inSafeStop = d.inSafeStop) :
        ¬(e = .accepted ∨ e = .rejected ∨ Stops d (.frame frame now) d') :=
      not_or.mpr ⟨ha, not_or.mpr ⟨hr, fun h =>
        Bool.false_ne_true (h.1.symm.trans (hs.symm.trans h.2))⟩⟩
    cases h
    case accepts => exact .inl ⟨.inl rfl, by cases part <;> rfl⟩
    case rejects => exact .inl ⟨.inr (.inl rfl), by cases part <;> rfl⟩
    case ignores hc =>
      refine .inr (.inr ⟨?_, ?_, by cases part <;> rfl⟩)
      case refine_1 => exact hn nofun nofun rfl
      case refine_2 => simp [hc, Content.data]
    case lateral payload hc =>
      rw [hc]
      cases part
      case lateral => exact .inr (.inl ⟨hn nofun nofun rfl, payload, rfl, rfl⟩)
      all_goals exact .inr (.inr ⟨hn nofun nofun rfl, nofun, rfl⟩)
    case longitudinal payload hc =>
      rw [hc]
      cases part
      case longitudinal => exact .inr (.inl ⟨hn nofun nofun rfl, payload, rfl, rfl⟩)
      all_goals exact .inr (.inr ⟨hn nofun nofun rfl, nofun, rfl⟩)

def Matters (part : Part) (d : ControlCommandDecoder α) (i : Input) (d' : ControlCommandDecoder α) :
    Prop :=
  Resets d i d' ∨ ∃ payload, Carries part i payload

theorem pending_along {part : Part}
    (h : Along step (fun d i d' => ¬Matters part d i d') d is d') :
    d'.pending part = d.pending part := by
  induction h
  case nil => rfl
  case cons d _ _ i _ hs hn _ ih =>
    cases hs
    rw [ih]
    rcases pending_input (d := d) (i := i) part with ⟨hr, _⟩ | ⟨_, ⟨payload, hc, _⟩⟩ | ⟨_, _, he⟩
    case inl => exact absurd (.inl hr) hn
    case inr.inl => exact absurd (.inr ⟨payload, hc⟩) hn
    case inr.inr => exact he

theorem pending_last {part : Part} {payload : List UInt8}
    (h : Run step (.init : ControlCommandDecoder α) is d) (hp : d.pending part = some payload) :
    ∃ d₁ i d₂, Along.Last step (Matters part) .init is d d₁ i d₂ ∧ ¬Resets d₁ i d₂ ∧
      Carries part i payload := by
  rcases h.since_last (Matters part) with ha | ⟨d₁, i, d₂, hl⟩
  case inl =>
    rw [pending_along ha] at hp
    cases part <;> cases hp
  case inr =>
    refine ⟨d₁, i, d₂, hl, ?_⟩
    have ⟨_, _, _, _, hs, hm, ha⟩ := hl
    cases hs
    rw [pending_along ha] at hp
    rcases pending_input (d := d₁) (i := i) part with ⟨_, hn⟩ | ⟨hr, p, hc, he⟩ | ⟨hr, hc, _⟩
    case inl => cases hn.symm.trans hp
    case inr.inl =>
      cases he.symm.trans hp
      exact ⟨hr, hc⟩
    case inr.inr => exact absurd hm (not_or.mpr ⟨hr, not_exists.mpr hc⟩)

-- Every payload that a commit of the classic frames uses is the last of its part.
def Latest (is : List Input) (d : ControlCommandDecoder α) (part : Part) (payload : List UInt8) :
    Prop :=
  ∃ d₁ i d₂, Along.Last step (Matters part) .init is d d₁ i d₂ ∧ ¬Resets d₁ i d₂ ∧
    Carries part i payload

theorem replay_protection (h : Run step (.init : ControlCommandDecoder α) is d) :
    (∀ is' d', Along step (fun d i d' => ¬Stops d i d') d is' d' →
      ∃ u : List ℕ, u.map (· % 65536) = d.accepted is' ∧
        u.IsChain fun a b => a < b ∧ b ≤ a + 32768) ∧
    ∀ frame now, let (d', event) := d.receive now frame
      (∀ e ∈ d.expected, ∀ status ∈ frame.content.commit, ∀ k, 1 ≤ k → k ≤ 32768 →
        (u16Le status 2 + k) % 65536 = e → event = .rejected) ∧
      (event = .accepted → ∃ lateral longitudinal status,
        d'.command = .assemble lateral longitudinal status ∧
        (frame.content = .batch lateral longitudinal status ∨ frame.content = .status status ∧
          Latest is d .lateral lateral ∧ Latest is d .longitudinal longitudinal)) ∧
      (event = .rejected → d'.lateral = none ∧ d'.longitudinal = none ∧ d'.command = d.command ∧
        d'.hasCommand = d.hasCommand ∧ d'.expected = d.expected ∧
        (d.anchor.isSome → d'.anchor = d.anchor)) := by
  refine ⟨fun is' d' ha => accepted_numbers ha (expected_lt h), fun frame now => ?_⟩
  have hr : Receives d now frame.content (d.receive now frame) := receives
  generalize d.receive now frame = r at hr
  cases hr
  case ignores hc => simp [hc, Content.commit]
  case lateral hc => simp [hc, Content.commit]
  case longitudinal hc => simp [hc, Content.commit]
  case rejects =>
    refine ⟨fun _ _ _ _ _ _ _ _ => rfl, by simp, fun _ => ⟨rfl, rfl, rfl, rfl, rfl, fun ha => ?_⟩⟩
    obtain ⟨a, ha⟩ := Option.isSome_iff_exists.mp ha
    simp [noteTime, clearPending, ha]
  case accepts lateral longitudinal status hs hc hf =>
    refine ⟨fun e he status' hs' k hk hk' hm => ?_, fun _ => ?_, by simp⟩
    case refine_1 =>
      cases hs.symm.trans hs'
      exact absurd (hf e he) (seqDelta_neg hk hk' hm).not_ge
    case refine_2 =>
      refine ⟨lateral, longitudinal, status, rfl, hc.imp id fun hc => ⟨hc.1, ?_, ?_⟩⟩
      case refine_1 => exact pending_last h hc.2.1
      case refine_2 => exact pending_last h hc.2.2

end ControlCommandDecoder
end

namespace Sample

def data (canId : UInt32) : BusFrame :=
  .classic canId [1, 0, 0, 0, 0, 0, 0, 0] 8 false

def status (sequence : UInt8) : BusFrame :=
  .classic statusId [0, 0, sequence, 0, 0, 0, 0, 0] 8 false

end Sample

open Sample ControlCommandDecoder in
-- The sequence 7 is accepted, and the sequence 5 is then rejected with both payloads pending.
theorem replay_protection_stale :
    let is := [.frame (data lateralId) 0, .frame (data longitudinalId) 0, .frame (status 7) 0,
      .frame (data lateralId) 1, .frame (data longitudinalId) 1]
    ∃ d : ControlCommandDecoder Float, Run step .init is d ∧ d.lateral.isSome ∧
      d.longitudinal.isSome ∧ d.expected = some 8 ∧ (d.receive 1 (status 5)).2 = .rejected := by
  intro is
  have hs : (exec step (init : ControlCommandDecoder Float) is).isSome := rfl
  have hr : Run step init is (after step init is) := run_after hs
  have he : (after step (init : ControlCommandDecoder Float) is).expected = some 8 := by
    decide +kernel
  exact ⟨_, hr, by decide +kernel, by decide +kernel, he, ((replay_protection hr).2 (status 5) 1).1
    8 he [0, 0, 5, 0, 0, 0, 0, 0] (by decide +kernel) 3 (by decide) (by decide) (by decide +kernel)⟩

end SafetyIsland.Can

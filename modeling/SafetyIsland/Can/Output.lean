import SafetyIsland.Can.Datagram
import SafetyIsland.Can.RoundTrip

namespace SafetyIsland.Can

-- A platform: what a call hands over, and whether it reports success.
structure Transport (β : Type) where
  canSendBatch : List CanFrame → β × Bool
  canSendFd    : CanFdFrame → β × Bool

structure ControlCommandCanOutput where
  initialized : Bool
  fdActive    : Bool
  sequence    : UInt16
deriving DecidableEq

namespace ControlCommandCanOutput

def new : ControlCommandCanOutput where
  initialized := false
  fdActive    := false
  sequence    := 0

def init (canInit canFdActive : Bool) (o : ControlCommandCanOutput) : ControlCommandCanOutput :=
  { o with
    initialized := canInit
    fdActive    := canInit && canFdActive }

def send {β : Type} (transport : Transport β) (msg : ControlMsg) (mode : OutputMode)
    (o : ControlCommandCanOutput) : ControlCommandCanOutput × Option β × Bool :=
  let advanced := { o with sequence := o.sequence + 1 }
  if !mode.usesCan then (o, none, true)
  else if !o.initialized then (o, none, false)
  else if o.fdActive then
    match encodeControlCommandFd msg mode o.sequence with
    | .error _         => (o, none, false)
    | .ok none         => (advanced, none, true)
    | .ok (some frame) =>
      let (handed, ok) := transport.canSendFd frame
      if !ok then (o, some handed, false) else (advanced, some handed, true)
  else
    match encodeControlCommand msg mode o.sequence with
    | .error _   => (o, none, false)
    | .ok frames =>
      let (handed, ok) := transport.canSendBatch frames
      if !ok then (o, some handed, false) else (advanced, some handed, true)

end ControlCommandCanOutput

namespace CanFrame

-- The frame as `memcpy` of its `dlc` bytes makes it.
def wired (frame : CanFrame) : CanFrame :=
  { frame with data := .ofFn fun i => if i < frame.dlc.toNat then frame.data[i] else 0 }

@[simp]
theorem wired_classic {id : UInt32} {data : Vector UInt8 8} :
    (classic id data).wired = classic id data := by
  have hd : (classic id data).dlc.toNat = 8 := rfl
  simp only [wired, hd, Fin.is_lt, if_true]
  rw [classic, CanFrame.mk.injEq]
  exact ⟨rfl, rfl, rfl, Vector.ofFn_getElem⟩

end CanFrame

namespace SocketCan

-- What gets on the bus, where the socket is open and `written` is the result of its `write`.
def canSend (written : Bool) (frame : CanFrame) : Option CanFrame :=
  if frame.dlc > 8 ∨ frame.extended then none
  else if written then some frame.wired else none

def canSendBatch (written : ℕ → Bool) : ℕ → List CanFrame → List CanFrame × Bool
  | _,     []              => ([], true)
  | index, frame :: frames =>
    match canSend (written index) frame with
    | none      => ([], false)
    | some wire =>
      let (handed, ok) := canSendBatch written (index + 1) frames
      (wire :: handed, ok)

def canSendFd (canFdEnabled written : Bool) (frame : CanFdFrame) : Option CanFdFrame :=
  if !canFdEnabled then none
  else if frame.length > 64 ∨ frame.id > 0x7FF then none
  else if written then some frame else none

def transport (canFdEnabled : Bool) (written : ℕ → Bool) :
    Transport (List CanFrame × List CanFdFrame) where
  canSendBatch frames :=
    let (handed, ok) := canSendBatch written 0 frames
    ((handed, []), ok)
  canSendFd frame :=
    let handed := canSendFd canFdEnabled (written 0) frame
    (([], handed.toList), handed.isSome)

end SocketCan

namespace UdpTunnel

def canSendBatch (sent : Bool) (frames : List CanFrame) : Option (List UInt8) × Bool :=
  let sequence := match frames with
    | [_, _, status] => statusSequence status
    | _              => 0
  match packCanUdpTunnel ⟨sequence, frames⟩ with
  | .error _     => (none, false)
  | .ok datagram => if sent then (some datagram, true) else (none, false)

def transport (sent : Bool) : Transport (Option (List UInt8)) where
  canSendBatch := canSendBatch sent
  canSendFd _  := (none, false)

end UdpTunnel

namespace ClassicBatch

theorem frames_classic (b : ClassicBatch) :
    ∀ frame ∈ b.frames, ∃ id data, frame = .classic id data := by
  intro frame hf
  simp only [frames, List.mem_cons, List.not_mem_nil, or_false] at hf
  rcases hf with h | h | h <;> exact ⟨_, _, h⟩

theorem any_status (b : ClassicBatch) (n : ℕ) :
    (b.frames.take n).any (·.id = statusId) = decide (3 ≤ n) := by
  match n with
  | 0     => rfl
  | 1     => rfl
  | 2     => rfl
  | n + 3 => simp [frames, kCommandStatusCanId, statusId]

structure Encodes (b : ClassicBatch) (msg : ControlMsg) (mode : OutputMode) (sequence : UInt16) :
    Prop where
  usesCan     : mode.usesCan = true
  encoded     : encodeControlCommand msg mode sequence = .ok b.frames
  sequence_eq : b.sequence = sequence

theorem exists_encodes {msg : ControlMsg} {mode : OutputMode} {sequence : UInt16}
    {frames : List CanFrame} (hm : mode.usesCan = true)
    (h : encodeControlCommand msg mode sequence = .ok frames) :
    ∃ b : ClassicBatch, frames = b.frames ∧ b.Encodes msg mode sequence := by
  have ⟨_, lateral, longitudinal, status, hfs, he⟩ := CommandFields.encode_ok hm h
  let b : ClassicBatch := ⟨lateral.data, longitudinal.data, status.data⟩
  have hf : frames = b.frames := by
    rw [hfs, he.lateral_eq, he.longitudinal_eq, he.status_eq]
    rfl
  have hs : Datagram.statusSequence b.status.toList = sequence.toNat := by
    have hp : b.status.toList = _ := he.status_data
    have hl : [mode.toUInt8, (commandFields msg).flags].length = 2 := rfl
    rw [hp, Datagram.statusSequence, List.append_assoc, List.drop_left' hl,
      List.take_left' Bytes.digits_length, Bytes.value_digits_of_lt sequence.toNat_lt]
  rw [statusSequence_status, Nat.cast_inj] at hs
  exact ⟨b, hf, hm, hf ▸ h, UInt16.toNat_inj.mp hs⟩

end ClassicBatch

namespace SocketCan

theorem canSend_classic {ok : Bool} {id : UInt32} {data : Vector UInt8 8} :
    canSend ok (.classic id data) = if ok then some (.classic id data) else none := by
  simp [canSend]

theorem canSendBatch_classic (written : ℕ → Bool) (frames : List CanFrame) (index : ℕ)
    (h : ∀ frame ∈ frames, ∃ id data, frame = .classic id data) :
    ∃ n, (canSendBatch written index frames).1 = frames.take n ∧
      ((canSendBatch written index frames).2 = true ↔ frames.length ≤ n) := by
  induction frames generalizing index
  case nil => exact ⟨0, rfl, by simp [canSendBatch]⟩
  case cons frame frames ih =>
    have ⟨id, data, he⟩ := h frame List.mem_cons_self
    cases hw : written index
    case false =>
      refine ⟨0, ?_, ?_⟩ <;> simp [canSendBatch, he, canSend_classic, hw]
    case true =>
      have ⟨n, hn, hok⟩ := ih (index + 1) fun f hf => h f (List.mem_cons_of_mem _ hf)
      refine ⟨n + 1, ?_, ?_⟩ <;> simp [canSendBatch, he, canSend_classic, hw, hn, hok]

theorem transport_frames {written : ℕ → Bool} {b : ClassicBatch} {handed : List CanFrame × List CanFdFrame}
    {canFdEnabled ok : Bool}
    (h : (transport canFdEnabled written).canSendBatch b.frames = (handed, ok)) :
    ∃ n, handed = (b.frames.take n, []) ∧ (ok = true ↔ 3 ≤ n) := by
  have ⟨n, hn, hok⟩ := canSendBatch_classic written b.frames 0 b.frames_classic
  have ho : (canSendBatch written 0 b.frames).2 = ok := (Prod.ext_iff.mp h).2
  exact ⟨n, (Prod.ext_iff.mp h).1.symm.trans (Prod.ext hn rfl), ho ▸ hok⟩

end SocketCan

theorem UdpTunnel.transport_frames {sent ok : Bool} {b : ClassicBatch}
    {handed : Option (List UInt8)}
    (h : (UdpTunnel.transport sent).canSendBatch b.frames = (handed, ok)) :
    ok = sent ∧ handed = if sent then some b.wire else none := by
  have hp : packCanUdpTunnel ⟨statusSequence (.classic kCommandStatusCanId b.status), b.frames⟩ =
      .ok b.wire := ClassicBatch.packCanUdpTunnel_toCanBatch
  simp only [UdpTunnel.transport, UdpTunnel.canSendBatch, ClassicBatch.frames] at h hp
  rw [hp] at h
  cases sent <;> cases h <;> exact ⟨rfl, rfl⟩

namespace ControlCommandCanOutput

variable {β : Type} {o : ControlCommandCanOutput}

inductive Sends (transport : Transport β) (msg : ControlMsg) (mode : OutputMode)
    (o : ControlCommandCanOutput) : ControlCommandCanOutput × Option β × Bool → Prop
  | unused : mode.usesCan = false → Sends transport msg mode o (o, none, true)
  | fails : mode.usesCan = true → Sends transport msg mode o (o, none, false)
  | rejected {b : ClassicBatch} {handed : β} (he : b.Encodes msg mode o.sequence)
    (ht : transport.canSendBatch b.frames = (handed, false)) :
    Sends transport msg mode o (o, some handed, false)
  | sent {b : ClassicBatch} {handed : β} (he : b.Encodes msg mode o.sequence)
    (ht : transport.canSendBatch b.frames = (handed, true)) :
    Sends transport msg mode o ({ o with sequence := o.sequence + 1 }, some handed, true)

theorem sends (transport : Transport β) (msg : ControlMsg) (mode : OutputMode)
    (h : o.fdActive = false) :
    Sends transport msg mode o (o.send transport msg mode) := by
  simp only [send]
  split
  case isTrue hm => exact .unused (Bool.not_eq_true' _ ▸ hm)
  case isFalse hm =>
    have hm : mode.usesCan = true := by simpa using hm
    split
    case isTrue => exact .fails hm
    case isFalse =>
      rw [if_neg (by simp [h])]
      split
      case h_1 => exact .fails hm
      case h_2 frames hf =>
        have ⟨b, hb, he⟩ := ClassicBatch.exists_encodes hm hf
        rw [hb]
        split
        case isTrue hok  => exact .rejected he (Prod.ext rfl (by simpa using hok))
        case isFalse hok => exact .sent he (Prod.ext rfl (by simpa using hok))

end ControlCommandCanOutput
end SafetyIsland.Can

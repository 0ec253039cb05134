import SafetyIsland.Can.UdpTunnel

namespace SafetyIsland.Can

open Bytes

namespace Datagram

open Struct

def MAGIC : List UInt8 := [0x43, 0x54]
def VERSION : ℤ := 1
def FLAG_CLASSIC_BATCH : ℤ := 0x01
def DATAGRAM_SIZE : ℕ := 48
def LATERAL_ID : ℤ := 0x100
def LONGITUDINAL_ID : ℤ := 0x101
def STATUS_ID : ℤ := 0x102

-- `<2sBBHH`, `<IB8s`, and all of a datagram.
def HEADER : List Code := [.raw 2, .uint 1, .uint 1, .uint 2, .uint 2]
def FRAME : List Code := [.uint 4, .uint 1, .raw 8]
def DATAGRAM : List Code := HEADER ++ (List.replicate 3 FRAME).flatten ++ [.uint 1]

structure TunnelFrame where
  canId : ℤ
  dlc   : ℤ
  data  : List UInt8
deriving DecidableEq, Inhabited

structure TunnelBatch where
  sequence : ℤ
  frames   : List TunnelFrame
deriving DecidableEq

def statusSequence (data : List UInt8) : ℤ :=
  Bytes.value ((data.drop 2).take 2)

def expected : List ℤ := [LATERAL_ID, LONGITUDINAL_ID, STATUS_ID]

def frameError (canId : ℤ) : String :=
  "frame must be classic 0x" ++ .ofList ((Nat.toDigits 16 canId.toNat).leftpad 3 '0') ++ " DLC 8"

def pack (batch : TunnelBatch) : Except String (List UInt8) :=
  let frames := batch.frames
  if frames.length ≠ 3 then .error "batch must contain three frames"
  else
    let bad := (frames.zip expected).find? fun (frame, canId) =>
      frame.canId ≠ canId ∨ frame.dlc ≠ 8 ∨ frame.data.length ≠ 8
    match bad with
    | some (_, canId) => .error (frameError canId)
    | none =>
      if statusSequence (frames.getD 2 default).data ≠ batch.sequence then
        .error "batch sequence must match 0x102"
      else
        let packedFrames := frames.mapM fun frame =>
          Struct.pack FRAME [.int frame.canId, .int frame.dlc, .raw frame.data]
        let header := Struct.pack HEADER
          [.raw MAGIC, .int VERSION, .int FLAG_CLASSIC_BATCH, .int batch.sequence, .int 0]
        match header, packedFrames with
        | some header, some packedFrames => .ok (header ++ packedFrames.flatten ++ [0])
        | _,           _                 => .error "struct.error"

-- The frames of the values between the header and the trailer.
def tunnelFrames (raw : List Value) : List TunnelFrame :=
  (List.range 3).filterMap fun index =>
    match (raw.drop (index * 3)).take 3 with
    | [.int canId, .int dlc, .raw data] => some ⟨canId, dlc, data⟩
    | _                                 => none

def unpack (datagram : List UInt8) : Except String TunnelBatch :=
  if datagram.length ≠ DATAGRAM_SIZE then .error "datagram length must be 48"
  else
    match Struct.unpack DATAGRAM datagram with
    | some (.raw magic :: .int version :: .int flags :: .int sequence :: .int reserved :: rest) =>
      if magic ≠ MAGIC then .error "invalid magic"
      else if version ≠ VERSION then .error "unsupported version"
      else if flags ≠ FLAG_CLASSIC_BATCH then .error "unsupported flags"
      else if reserved ≠ 0 ∨ rest.getLast? ≠ some (.int 0) then
        .error "reserved bytes must be zero"
      else
        let frames := tunnelFrames rest.dropLast
        let bad := (frames.zip expected).find? fun (frame, canId) =>
          frame.canId ≠ canId ∨ frame.dlc ≠ 8
        match bad with
        | some (_, canId) => .error (frameError canId)
        | none =>
          if statusSequence (frames.getD 2 default).data ≠ sequence then
            .error "batch sequence must match 0x102"
          else .ok ⟨sequence, frames⟩
    | _ => .error "struct.error"

end Datagram

def CanFrame.toTunnel (frame : CanFrame) : Datagram.TunnelFrame where
  canId := frame.id.toNat
  dlc   := frame.dlc.toNat
  data  := frame.data.toList

-- The batch as the gateway sees it.
def CanBatch.toTunnel (batch : CanBatch) : Datagram.TunnelBatch where
  sequence := batch.sequence.toNat
  frames   := batch.frames.map CanFrame.toTunnel

namespace ClassicBatch

open Datagram Struct

variable {b : ClassicBatch} {batch : TunnelBatch} {data : List UInt8}

theorem toTunnel_eq : b.toCanBatch.toTunnel = {
    sequence := b.sequence.toNat
    frames   := [⟨LATERAL_ID, 8, b.lateral.toList⟩, ⟨LONGITUDINAL_ID, 8, b.longitudinal.toList⟩,
      ⟨STATUS_ID, 8, b.status.toList⟩] } :=
  rfl

-- The values of a datagram.
def values (b : ClassicBatch) : List Value :=
  [.raw MAGIC, .int VERSION, .int FLAG_CLASSIC_BATCH, .int b.sequence.toNat, .int 0,
    .int LATERAL_ID, .int 8, .raw b.lateral.toList,
    .int LONGITUDINAL_ID, .int 8, .raw b.longitudinal.toList,
    .int STATUS_ID, .int 8, .raw b.status.toList, .int 0]

theorem pack_header :
    Struct.pack HEADER [.raw MAGIC, .int VERSION, .int FLAG_CLASSIC_BATCH,
      .int b.sequence.toNat, .int 0] = some b.header := by
  have hs : (b.sequence.toNat : ℤ) < 65536 := by have := b.sequence.toNat_lt; omega
  simp [Struct.pack, HEADER, MAGIC, VERSION, FLAG_CLASSIC_BATCH, Code.encode, hs, header, digits]

theorem pack_frame (id : UInt32) (data : Vector UInt8 8) :
    Struct.pack FRAME [.int id.toNat, .int 8, .raw data.toList] =
      some (CanFrame.classic id data).wire := by
  have hs : (id.toNat : ℤ) < 4294967296 := by have := id.toNat_lt; omega
  simp [Struct.pack, FRAME, Code.encode, hs, CanFrame.classic, CanFrame.wire, digits]

theorem pack_values : Struct.pack DATAGRAM b.values = some b.wire := by
  have h₀ := pack_frame kLateralCommandCanId b.lateral
  have h₁ := pack_frame kLongitudinalCommandCanId b.longitudinal
  have h₂ := pack_frame kCommandStatusCanId b.status
  have ht : Struct.pack [.uint 1] [.int 0] = some [0] := rfl
  have h := pack_append (pack_header (b := b)) (pack_append h₀ (pack_append h₁ (pack_append h₂ ht)))
  rw [← wire_eq] at h
  exact h

theorem statusSequence_status : Datagram.statusSequence b.status.toList = b.sequence.toNat := by
  have hd : (b.status.toList.drop 2).take 2 = [b.status[2], b.status[3]] := by
    rw [List.drop_eq_getElem_cons (by simp), List.take_succ_cons,
      List.drop_eq_getElem_cons (by simp), List.take_succ_cons, List.take_zero]
    rfl
  rw [Datagram.statusSequence, sequence, or_uint16, hd]

theorem pack_toTunnel : Datagram.pack b.toCanBatch.toTunnel = .ok b.wire := by
  have h₀ : Struct.pack FRAME [.int LATERAL_ID, .int 8, .raw b.lateral.toList] = _ :=
    pack_frame kLateralCommandCanId b.lateral
  have h₁ : Struct.pack FRAME [.int LONGITUDINAL_ID, .int 8, .raw b.longitudinal.toList] = _ :=
    pack_frame kLongitudinalCommandCanId b.longitudinal
  have h₂ : Struct.pack FRAME [.int STATUS_ID, .int 8, .raw b.status.toList] = _ :=
    pack_frame kCommandStatusCanId b.status
  simp [Datagram.pack, toTunnel_eq, expected, statusSequence_status, pack_header, h₀, h₁, h₂,
    wire_eq]

theorem values_fits : List.Forall₂ Code.Fits DATAGRAM b.values := by
  have int (k n : ℕ) (h : n < 256 ^ k) : Code.Fits (.uint k) (.int n) := .uint h
  have frame (id : UInt32) (data : Vector UInt8 8) :
      List.Forall₂ Code.Fits FRAME [.int id.toNat, .int 8, .raw data.toList] :=
    .cons (int 4 _ id.toNat_lt) (.cons (int 1 8 (by decide)) (.cons (.raw (by simp)) .nil))
  have header : List.Forall₂ Code.Fits HEADER [.raw MAGIC, .int VERSION, .int FLAG_CLASSIC_BATCH,
      .int b.sequence.toNat, .int 0] :=
    .cons (.raw rfl) (.cons (int 1 1 (by decide)) (.cons (int 1 1 (by decide))
      (.cons (int 2 _ b.sequence.toNat_lt) (.cons (int 2 0 (by decide)) .nil))))
  have trailer : List.Forall₂ Code.Fits [.uint 1] [.int 0] := .cons (int 1 0 (by decide)) .nil
  exact List.rel_append header (List.rel_append (frame kLateralCommandCanId b.lateral)
    (List.rel_append (frame kLongitudinalCommandCanId b.longitudinal)
      (List.rel_append (frame kCommandStatusCanId b.status) trailer)))

theorem unpack_values : Struct.unpack DATAGRAM b.wire = some b.values := by
  have ⟨bs, hp, hu⟩ := pack_spec (values_fits (b := b))
  rw [pack_values, Option.some.injEq] at hp
  exact hp ▸ hu

theorem unpack_wire : Datagram.unpack b.wire = .ok b.toCanBatch.toTunnel := by
  simp [Datagram.unpack, unpack_values, values, DATAGRAM_SIZE, statusSequence_status, expected,
    tunnelFrames, List.range, List.range.loop, toTunnel_eq]

theorem exists_toList {bs : List UInt8} (h : bs.length = 8) : ∃ v : Vector UInt8 8, v.toList = bs :=
  ⟨⟨bs.toArray, by simpa using h⟩, rfl⟩

theorem frame_of_fits {fmt : List Code} {vs : List Value}
    (h : List.Forall₂ Code.Fits (FRAME ++ fmt) vs) :
    ∃ (canId dlc : ℤ) (data : Vector UInt8 8) (vs' : List Value),
      vs = .int canId :: .int dlc :: .raw data.toList :: vs' ∧ List.Forall₂ Code.Fits fmt vs' := by
  rcases h with _ | ⟨hid, _ | ⟨hdlc, _ | ⟨hdata, hf⟩⟩⟩
  cases hid
  case uint n _ =>
    cases hdlc
    case uint l _ =>
      cases hdata
      case raw bs hb =>
        obtain ⟨data, rfl⟩ := exists_toList hb
        exact ⟨n, l, data, _, rfl, hf⟩

theorem exists_of_unpack (h : Datagram.unpack data = .ok batch) :
    ∃ b : ClassicBatch, data = b.wire := by
  unfold Datagram.unpack at h
  split_ifs at h with hl
  split at h
  case h_2 => cases h
  case h_1 magic version flags sequence reserved rest hv =>
    split_ifs at h with h₁ h₂ h₃ h₄
    simp only [ne_eq, not_not, not_or] at h₁ h₂ h₃ h₄
    have ⟨hf, hp⟩ := unpack_spec hv
    rcases hf with _ | ⟨_, _ | ⟨_, _ | ⟨_, _ | ⟨_, _ | ⟨_, hf⟩⟩⟩⟩⟩
    obtain ⟨i₀, l₀, lateral, _, rfl, hf₀⟩ := frame_of_fits hf
    obtain ⟨i₁, l₁, longitudinal, _, rfl, hf₁⟩ := frame_of_fits hf₀
    obtain ⟨i₂, l₂, status, _, rfl, hf₂⟩ := frame_of_fits hf₁
    rcases hf₂ with _ | ⟨_, _ | _⟩
    let b : ClassicBatch := ⟨lateral, longitudinal, status⟩
    have hs : Datagram.statusSequence status.toList = b.sequence.toNat :=
      statusSequence_status (b := b)
    simp [tunnelFrames, List.range, List.range.loop, expected, hs] at h h₄
    split at h
    case h_1 => cases h
    case h_2 hbad =>
      split_ifs at h with h₅
      simp at hbad
      have ⟨⟨hi₀, hl₀⟩, ⟨hi₁, hl₁⟩, hi₂, hl₂⟩ := hbad
      refine ⟨b, Option.some.inj (hp.symm.trans ?_)⟩
      rw [h₁, h₂, h₃, h₄.1, h₄.2, hi₀, hl₀, hi₁, hl₁, hi₂, hl₂, ← h₅]
      exact pack_values

theorem unpack_iff :
    Datagram.unpack data = .ok batch ↔
      ∃ b : ClassicBatch, data = b.wire ∧ batch = b.toCanBatch.toTunnel := by
  constructor
  case mp =>
    intro h
    have ⟨b, hb⟩ := exists_of_unpack h
    rw [hb, unpack_wire, Except.ok.injEq] at h
    exact ⟨b, hb, h.symm⟩
  case mpr =>
    intro ⟨b, hd, hb⟩
    rw [hd, hb, unpack_wire]

theorem pack_iff :
    Datagram.pack batch = .ok data ↔
      ∃ b : ClassicBatch, batch = b.toCanBatch.toTunnel ∧ data = b.wire := by
  constructor
  case mpr =>
    intro ⟨b, hb, hd⟩
    rw [hb, hd, pack_toTunnel]
  case mp =>
    intro h
    suffices hb : ∃ b : ClassicBatch, batch = b.toCanBatch.toTunnel by
      have ⟨b, hb⟩ := hb
      rw [hb, pack_toTunnel, Except.ok.injEq] at h
      exact ⟨b, hb, h.symm⟩
    have ⟨sequence, frames⟩ := batch
    simp only [Datagram.pack] at h
    split at h
    case isTrue => cases h
    case isFalse hl =>
      rw [ne_eq, not_not, List.length_eq_three] at hl
      obtain ⟨⟨i₀, l₀, d₀⟩, ⟨i₁, l₁, d₁⟩, ⟨i₂, l₂, d₂⟩, rfl⟩ := hl
      split at h
      case h_1 => cases h
      case h_2 hbad =>
        split at h
        case isTrue => cases h
        case isFalse hs =>
          simp [expected] at hbad hs
          have ⟨⟨hi₀, hl₀, hd₀⟩, ⟨hi₁, hl₁, hd₁⟩, hi₂, hl₂, hd₂⟩ := hbad
          obtain ⟨lateral, rfl⟩ := exists_toList hd₀
          obtain ⟨longitudinal, rfl⟩ := exists_toList hd₁
          obtain ⟨status, rfl⟩ := exists_toList hd₂
          refine ⟨⟨lateral, longitudinal, status⟩, ?_⟩
          rw [toTunnel_eq, hi₀, hl₀, hi₁, hl₁, hi₂, hl₂, ← hs]
          simp only [TunnelBatch.mk.injEq, and_true]
          exact statusSequence_status (b := ⟨lateral, longitudinal, status⟩)

end ClassicBatch

-- The two implementations of the tunnel's format agree on every datagram and on every batch.
theorem tunnel_codecs_agree :
    (∀ data, (unpackCanUdpTunnel data).isOk = true ↔ WellFormed data) ∧
    (∀ data, (Datagram.unpack data).isOk = true ↔ WellFormed data) ∧
    (∀ data batch, unpackCanUdpTunnel data = .ok batch →
      Datagram.unpack data = .ok batch.toTunnel) ∧
    (∀ batch, (packCanUdpTunnel batch).isOk = true ↔
      ∃ data, unpackCanUdpTunnel data = .ok batch) ∧
    (∀ batch, (Datagram.pack batch).isOk = true ↔ ∃ data, Datagram.unpack data = .ok batch) ∧
    (∀ batch data, packCanUdpTunnel batch = .ok data ↔ unpackCanUdpTunnel data = .ok batch) ∧
    (∀ batch data, Datagram.pack batch = .ok data ↔ Datagram.unpack data = .ok batch) ∧
    (∀ batch data, packCanUdpTunnel batch = .ok data → Datagram.pack batch.toTunnel = .ok data) ∧
    (∀ batch data, Datagram.pack batch = .ok data →
      ∃ canBatch, canBatch.toTunnel = batch ∧ packCanUdpTunnel canBatch = .ok data) := by
  have isOk {α : Type} {r : Except String α} : r.isOk = true ↔ ∃ a, r = .ok a := by
    cases r <;> simp [Except.isOk, Except.toBool]
  have pack₁ (batch : CanBatch) (data : List UInt8) :
      packCanUdpTunnel batch = .ok data ↔ unpackCanUdpTunnel data = .ok batch := by
    rw [ClassicBatch.packCanUdpTunnel_iff, ClassicBatch.unpackCanUdpTunnel_iff]
    exact exists_congr fun _ => and_comm
  have pack₂ (batch : Datagram.TunnelBatch) (data : List UInt8) :
      Datagram.pack batch = .ok data ↔ Datagram.unpack data = .ok batch := by
    rw [ClassicBatch.pack_iff, ClassicBatch.unpack_iff]
    exact exists_congr fun _ => and_comm
  refine ⟨fun data => ?cpp, fun data => ?python, fun data batch h => ?same,
    fun batch => ?range₁, fun batch => ?range₂, pack₁, pack₂, fun batch data h => ?bytes, fun batch data h => ?back⟩
  case cpp =>
    rw [isOk, ClassicBatch.wellFormed_iff]
    simp only [ClassicBatch.unpackCanUdpTunnel_iff]
    constructor
    case mp =>
      rintro ⟨_, b, hd, _⟩
      exact ⟨b, hd⟩
    case mpr =>
      rintro ⟨b, hd⟩
      exact ⟨_, b, hd, rfl⟩
  case python =>
    rw [isOk, ClassicBatch.wellFormed_iff]
    simp only [ClassicBatch.unpack_iff]
    constructor
    case mp =>
      rintro ⟨_, b, hd, _⟩
      exact ⟨b, hd⟩
    case mpr =>
      rintro ⟨b, hd⟩
      exact ⟨_, b, hd, rfl⟩
  case same =>
    obtain ⟨b, rfl, rfl⟩ := ClassicBatch.unpackCanUdpTunnel_iff.mp h
    exact ClassicBatch.unpack_wire
  case bytes =>
    obtain ⟨b, rfl, rfl⟩ := ClassicBatch.packCanUdpTunnel_iff.mp h
    exact ClassicBatch.pack_toTunnel
  case back =>
    obtain ⟨b, rfl, rfl⟩ := ClassicBatch.pack_iff.mp h
    exact ⟨b.toCanBatch, rfl, ClassicBatch.packCanUdpTunnel_toCanBatch⟩
  case range₁ => simp only [isOk, pack₁]
  case range₂ => simp only [isOk, pack₂]

end SafetyIsland.Can

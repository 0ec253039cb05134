import SafetyIsland.Bytes.Struct
import SafetyIsland.Can.Decoder

namespace SafetyIsland.Can

open Bytes

def kCanUdpTunnelDatagramSize : ℕ := 48
def kCanUdpTunnelMagic0 : UInt8 := 0x43
def kCanUdpTunnelMagic1 : UInt8 := 0x54
def kCanUdpTunnelVersion : UInt8 := 1
def kCanUdpTunnelFlagClassicBatch : UInt8 := 0x01

-- The frames and the sequence that are packed, and that are unpacked.
structure CanBatch where
  sequence : UInt16
  frames   : List CanFrame
deriving DecidableEq

-- A byte of a buffer, which is only read inside of it.
def byte (src : List UInt8) (i : ℕ) : UInt8 :=
  src.getD i 0

def writeU16LeBytes (bytes : List UInt8) (dest : ℕ) (value : UInt16) : List UInt8 :=
  Bytes.write bytes dest [value.toUInt8, (value >>> 8).toUInt8]

def writeU32LeBytes (bytes : List UInt8) (dest : ℕ) (value : UInt32) : List UInt8 :=
  Bytes.write bytes dest
    [value.toUInt8, (value >>> 8).toUInt8, (value >>> 16).toUInt8, (value >>> 24).toUInt8]

def readU16LeBytes (src : List UInt8) : UInt16 :=
  (byte src 0).toUInt16 ||| (byte src 1).toUInt16 <<< 8

def readU32LeBytes (src : List UInt8) : UInt32 :=
  (byte src 0).toUInt32 ||| (byte src 1).toUInt32 <<< 8 ||| (byte src 2).toUInt32 <<< 16 |||
    (byte src 3).toUInt32 <<< 24

def statusSequence (frame : CanFrame) : UInt16 :=
  frame.data[2].toUInt16 ||| frame.data[3].toUInt16 <<< 8

def writeWireFrame (bytes : List UInt8) (dest : ℕ) (frame : CanFrame) : List UInt8 :=
  let bytes := writeU32LeBytes bytes dest frame.id
  let bytes := Bytes.write bytes (dest + 4) [frame.dlc]
  Bytes.write bytes (dest + 5) frame.data.toList

def readWireFrame (src : List UInt8) : CanFrame where
  id       := readU32LeBytes src
  dlc      := byte src 4
  extended := false
  data     := .ofFn fun i => byte src (5 + i)

-- A batch without frames stands for the null pointer.
def packCanUdpTunnel (batch : CanBatch) : Except String (List UInt8) :=
  match batch.frames with
  | [frame0, frame1, frame2] =>
    if frame0.id ≠ kLateralCommandCanId ∨ frame0.dlc ≠ 8 ∨ frame0.extended then
      .error "frame 0 must be classic 0x100 DLC 8"
    else if frame1.id ≠ kLongitudinalCommandCanId ∨ frame1.dlc ≠ 8 ∨ frame1.extended then
      .error "frame 1 must be classic 0x101 DLC 8"
    else if frame2.id ≠ kCommandStatusCanId ∨ frame2.dlc ≠ 8 ∨ frame2.extended then
      .error "frame 2 must be classic 0x102 DLC 8"
    else if statusSequence frame2 ≠ batch.sequence then
      .error "batch sequence must match 0x102"
    else
      let bytes := List.replicate kCanUdpTunnelDatagramSize 0
      let bytes := Bytes.write bytes 0 [kCanUdpTunnelMagic0]
      let bytes := Bytes.write bytes 1 [kCanUdpTunnelMagic1]
      let bytes := Bytes.write bytes 2 [kCanUdpTunnelVersion]
      let bytes := Bytes.write bytes 3 [kCanUdpTunnelFlagClassicBatch]
      let bytes := writeU16LeBytes bytes 4 batch.sequence
      let bytes := Bytes.write bytes 6 [0]
      let bytes := Bytes.write bytes 7 [0]
      let bytes := writeWireFrame bytes 8 frame0
      let bytes := writeWireFrame bytes 21 frame1
      let bytes := writeWireFrame bytes 34 frame2
      .ok (Bytes.write bytes 47 [0])
  | _ => .error "batch must contain three frames"

def unpackCanUdpTunnel (data : List UInt8) : Except String CanBatch :=
  if data.length ≠ kCanUdpTunnelDatagramSize then .error "datagram length must be 48"
  else if byte data 0 ≠ kCanUdpTunnelMagic0 ∨ byte data 1 ≠ kCanUdpTunnelMagic1 then
    .error "invalid magic"
  else if byte data 2 ≠ kCanUdpTunnelVersion then .error "unsupported version"
  else if byte data 3 ≠ kCanUdpTunnelFlagClassicBatch then .error "unsupported flags"
  else if byte data 6 ≠ 0 ∨ byte data 7 ≠ 0 ∨ byte data 47 ≠ 0 then
    .error "reserved bytes must be zero"
  else
    let sequence := readU16LeBytes (data.drop 4)
    let frame0 := readWireFrame (data.drop 8)
    let frame1 := readWireFrame (data.drop 21)
    let frame2 := readWireFrame (data.drop 34)
    if frame0.id ≠ kLateralCommandCanId ∨ frame0.dlc ≠ 8 then
      .error "frame 0 must be classic 0x100 DLC 8"
    else if frame1.id ≠ kLongitudinalCommandCanId ∨ frame1.dlc ≠ 8 then
      .error "frame 1 must be classic 0x101 DLC 8"
    else if frame2.id ≠ kCommandStatusCanId ∨ frame2.dlc ≠ 8 then
      .error "frame 2 must be classic 0x102 DLC 8"
    else if statusSequence frame2 ≠ sequence then .error "batch sequence must match 0x102"
    else .ok ⟨sequence, [frame0, frame1, frame2]⟩

section

variable {src rest : List UInt8}

theorem readU16LeBytes_eq (h : 2 ≤ src.length) : (readU16LeBytes src).toNat = value (src.take 2) := by
  match src, h with
  | a :: b :: _, _ => exact or_uint16 a b

theorem readU16LeBytes_inj {src' : List UInt8} (h : 2 ≤ src.length) (h' : 2 ≤ src'.length) :
    readU16LeBytes src = readU16LeBytes src' ↔ src.take 2 = src'.take 2 := by
  rw [← UInt16.toNat_inj, readU16LeBytes_eq h, readU16LeBytes_eq h', value_inj (by simp; omega)]

theorem take_two (h : 2 ≤ src.length) : src.take 2 = [byte src 0, byte src 1] := by
  match src, h with
  | _ :: _ :: _, _ => rfl

theorem take_eight (h : 8 ≤ src.length) :
    src.take 8 = src.take 2 ++ [byte src 2, byte src 3] ++ (src.drop 4).take 2 ++
      [byte src 6, byte src 7] := by
  match src, h with
  | _ :: _ :: _ :: _ :: _ :: _ :: _ :: _ :: _, _ => rfl

theorem readU32LeBytes_eq (h : 4 ≤ src.length) : (readU32LeBytes src).toNat = value (src.take 4) := by
  match src, h with
  | a :: b :: c :: d :: _, _ => exact or_uint32 a b c d

end

namespace CanFrame

variable {frame : CanFrame} {src rest : List UInt8}

def classic (id : UInt32) (data : Vector UInt8 8) : CanFrame where
  id       := id
  dlc      := 8
  extended := false
  data     := data

@[simp]
theorem classic_id {id : UInt32} {data : Vector UInt8 8} : (classic id data).id = id := rfl

@[simp]
theorem classic_dlc {id : UInt32} {data : Vector UInt8 8} : (classic id data).dlc = 8 := rfl

@[simp]
theorem classic_extended {id : UInt32} {data : Vector UInt8 8} :
    (classic id data).extended = false := rfl

-- The bytes of a frame in a datagram.
def wire (frame : CanFrame) : List UInt8 :=
  digits 4 frame.id.toNat ++ [frame.dlc] ++ frame.data.toList

@[simp]
theorem wire_length : frame.wire.length = 13 := by
  simp [wire]

theorem readWireFrame_wire (h : frame.extended = false) :
    readWireFrame (frame.wire ++ rest) = frame := by
  have hid : readU32LeBytes (frame.wire ++ rest) = frame.id := by
    apply UInt32.toNat_inj.mp
    rw [readU32LeBytes_eq (by simp; omega), wire, List.append_assoc, List.append_assoc,
      List.take_left' digits_length, value_digits_of_lt frame.id.toNat_lt]
  have hdlc : byte (frame.wire ++ rest) 4 = frame.dlc := by
    simp [byte, wire]
  have hdata : (Vector.ofFn fun i : Fin 8 => byte (frame.wire ++ rest) (5 + i)) = frame.data := by
    ext i hi
    have hle : ¬5 + i < 4 := by omega
    have hsub : 5 + i - 4 = i + 1 := by omega
    simp [byte, wire, List.getElem?_append, hle, hsub, hi]
  cases frame
  simp_all [readWireFrame]

@[simp]
theorem readWireFrame_classic {id : UInt32} {data : Vector UInt8 8} :
    readWireFrame ((classic id data).wire ++ rest) = classic id data :=
  readWireFrame_wire rfl

theorem wire_readWireFrame (h : 13 ≤ src.length) :
    (readWireFrame src).wire ++ src.drop 13 = src := by
  have hid : digits 4 (readWireFrame src).id.toNat = src.take 4 := by
    rw [readWireFrame, readU32LeBytes_eq (by omega)]
    exact digits_value_of_length (by rw [List.length_take]; omega)
  have hdlc : [(readWireFrame src).dlc] = (src.drop 4).take 1 := by
    have h₄ : 4 < src.length := by omega
    rw [List.drop_eq_getElem_cons h₄, List.take_succ_cons, List.take_zero]
    simp [readWireFrame, byte, h₄]
  have hdata : (readWireFrame src).data.toList = (src.drop 5).take 8 := by
    apply List.ext_getElem
    case hl => simp; omega
    case h =>
      intro i hi _
      have hi : 5 + i < src.length := by simp at hi; omega
      simp [readWireFrame, byte, hi]
  have h₅ : src.drop 5 = (src.drop 4).drop 1 := by rw [List.drop_drop]
  have h₁₃ : src.drop 13 = (src.drop 5).drop 8 := by rw [List.drop_drop]
  rw [wire, hid, hdlc, hdata, h₁₃, List.append_assoc, List.append_assoc, List.take_append_drop, h₅,
    List.take_append_drop, List.take_append_drop]

theorem readWireFrame_take_iff (h : 13 ≤ src.length) {j : UInt8} :
    src.take 5 = [j, 1, 0, 0, 8] ↔
      (readWireFrame src).id.toNat = 0x100 + j.toNat ∧ (readWireFrame src).dlc = 8 := by
  have hw : src.take 5 = digits 4 (readWireFrame src).id.toNat ++ [(readWireFrame src).dlc] := by
    conv_lhs => rw [← wire_readWireFrame h, wire, List.append_assoc]
    exact List.take_left' (by simp)
  have hj : [j, 1, 0, 0, 8] = digits 4 (0x100 + j.toNat) ++ [8] := by
    have := j.toNat_lt
    simp only [digits, List.cons_append, List.nil_append, List.cons.injEq, and_true]
    refine ⟨?_, ?_, ?_, ?_⟩ <;> apply UInt8.toNat_inj.mp <;> simp <;> omega
  rw [hw, hj]
  constructor
  case mp =>
    intro he
    obtain ⟨hd, hb⟩ := List.append_inj he (by simp)
    rw [digits_inj (UInt32.toNat_lt _) (by have := j.toNat_lt; omega)] at hd
    exact ⟨hd, by simpa using hb⟩
  case mpr =>
    rintro ⟨hd, hb⟩
    rw [hd, hb]

theorem readWireFrame_eq_classic {id : UInt32} (hi : (readWireFrame src).id = id)
    (hd : (readWireFrame src).dlc = 8) :
    readWireFrame src = classic id (readWireFrame src).data := by
  rw [classic, ← hi, ← hd]
  rfl

theorem statusSequence_readWireFrame : statusSequence (readWireFrame src) =
    readU16LeBytes (src.drop 7) := by
  simp [statusSequence, readWireFrame, readU16LeBytes, byte]

end CanFrame

-- A datagram, byte by byte.
structure WellFormed (data : List UInt8) : Prop where
  length   : data.length = 48
  magic    : data.take 2 = [0x43, 0x54]
  version  : byte data 2 = 1
  flag     : byte data 3 = 1
  reserved : byte data 6 = 0 ∧ byte data 7 = 0
  trailer  : byte data 47 = 0
  frames   : ∀ j : Fin 3, (data.drop (8 + 13 * j)).take 5 = [.ofNat j, 1, 0, 0, 8]
  sequence : (data.drop 4).take 2 = (data.drop 41).take 2

-- The payloads of a batch that can be sent through the tunnel.
structure ClassicBatch where
  lateral      : Vector UInt8 8
  longitudinal : Vector UInt8 8
  status       : Vector UInt8 8

namespace ClassicBatch

def frames (b : ClassicBatch) : List CanFrame :=
  [.classic kLateralCommandCanId b.lateral, .classic kLongitudinalCommandCanId b.longitudinal,
    .classic kCommandStatusCanId b.status]

def sequence (b : ClassicBatch) : UInt16 :=
  b.status[2].toUInt16 ||| b.status[3].toUInt16 <<< 8

def toCanBatch (b : ClassicBatch) : CanBatch where
  sequence := b.sequence
  frames   := b.frames

def header (b : ClassicBatch) : List UInt8 :=
  [0x43, 0x54, 1, 1] ++ digits 2 b.sequence.toNat ++ [0, 0]

-- The one datagram of a batch.
def wire (b : ClassicBatch) : List UInt8 :=
  b.header ++ b.frames.flatMap CanFrame.wire ++ [0]

variable {b : ClassicBatch} {batch : CanBatch} {data : List UInt8}

@[simp]
theorem header_length : b.header.length = 8 := by
  simp [header]

@[simp]
theorem wire_length : b.wire.length = 48 := by
  simp [wire, frames]

theorem wire_eq : b.wire = b.header ++
    ((CanFrame.classic kLateralCommandCanId b.lateral).wire ++
      ((CanFrame.classic kLongitudinalCommandCanId b.longitudinal).wire ++
        ((CanFrame.classic kCommandStatusCanId b.status).wire ++ [0]))) := by
  simp [wire, frames]

theorem writeWireFrame_fill {done : List UInt8} {dest n k : ℕ} {frame : CanFrame}
    (hd : done.length = dest) (hn : 13 + k = n) :
    writeWireFrame (done ++ .replicate n 0) dest frame =
      (done ++ frame.wire) ++ .replicate k 0 := by
  have h₄ := digits_length (k := 4) (n := frame.id.toNat)
  rw [writeWireFrame, writeU32LeBytes, ← digits_uint32, write_fill hd (k := k + 9) (by simp; omega),
    write_fill (by simp [hd]) (k := k + 8) (by simp; omega),
    write_fill (by simp [hd]) (k := k) (by simp; omega)]
  simp [CanFrame.wire]

theorem packCanUdpTunnel_toCanBatch : packCanUdpTunnel b.toCanBatch = .ok b.wire := by
  have hs : statusSequence (.classic kCommandStatusCanId b.status) = b.sequence := rfl
  simp only [packCanUdpTunnel, toCanBatch, frames, hs, CanFrame.classic_id, CanFrame.classic_dlc,
    CanFrame.classic_extended, ne_eq, not_true_eq_false, Bool.false_eq_true, or_self, if_false,
    writeU16LeBytes, ← digits_uint16]
  rw [kCanUdpTunnelDatagramSize, ← List.nil_append (List.replicate _ _),
    write_fill (by simp) (k := 47) (by simp), write_fill (by simp) (k := 46) (by simp),
    write_fill (by simp) (k := 45) (by simp), write_fill (by simp) (k := 44) (by simp),
    write_fill (by simp) (k := 42) (by simp), write_fill (by simp) (k := 41) (by simp),
    write_fill (by simp) (k := 40) (by simp), writeWireFrame_fill (by simp) (k := 27) (by simp),
    writeWireFrame_fill (by simp) (k := 14) (by simp),
    writeWireFrame_fill (by simp) (k := 1) (by simp), write_fill (by simp) (k := 0) (by simp)]
  simp [wire, header, frames, kCanUdpTunnelMagic0, kCanUdpTunnelMagic1, kCanUdpTunnelVersion,
    kCanUdpTunnelFlagClassicBatch]

theorem unpackCanUdpTunnel_wire : unpackCanUdpTunnel b.wire = .ok b.toCanBatch := by
  have h₈ : b.wire.drop 8 = (CanFrame.classic kLateralCommandCanId b.lateral).wire ++
      ((CanFrame.classic kLongitudinalCommandCanId b.longitudinal).wire ++
        ((CanFrame.classic kCommandStatusCanId b.status).wire ++ [0])) := by
    rw [wire_eq, List.drop_left' header_length]
  have h₂₁ : b.wire.drop 21 = (CanFrame.classic kLongitudinalCommandCanId b.longitudinal).wire ++
        ((CanFrame.classic kCommandStatusCanId b.status).wire ++ [0]) := by
    rw [← List.drop_drop (i := 13) (j := 8), h₈, List.drop_left' CanFrame.wire_length]
  have h₃₄ : b.wire.drop 34 = (CanFrame.classic kCommandStatusCanId b.status).wire ++ [0] := by
    rw [← List.drop_drop (i := 13) (j := 21), h₂₁, List.drop_left' CanFrame.wire_length]
  have h₄₇ : b.wire.drop 47 = [0] := by
    rw [← List.drop_drop (i := 13) (j := 34), h₃₄, List.drop_left' CanFrame.wire_length]
  have h₄ : readU16LeBytes (b.wire.drop 4) = b.sequence := by
    have ht : (b.wire.drop 4).take 2 = digits 2 b.sequence.toNat := by
      rw [wire_eq, header, digits_uint16]
      rfl
    apply UInt16.toNat_inj.mp
    rw [readU16LeBytes_eq (by simp), ht, value_digits_of_lt b.sequence.toNat_lt]
  have hb : byte b.wire 0 = 0x43 ∧ byte b.wire 1 = 0x54 ∧ byte b.wire 2 = 1 ∧ byte b.wire 3 = 1 ∧
      byte b.wire 6 = 0 ∧ byte b.wire 7 = 0 := by
    rw [wire_eq, header, digits_uint16]
    exact ⟨rfl, rfl, rfl, rfl, rfl, rfl⟩
  have hb₄₇ : byte b.wire 47 = 0 := by
    have hd : byte b.wire 47 = byte (b.wire.drop 47) 0 := by simp [byte]
    rw [hd, h₄₇]
    rfl
  have hs : statusSequence (.classic kCommandStatusCanId b.status) = b.sequence := rfl
  simp [unpackCanUdpTunnel, kCanUdpTunnelDatagramSize, kCanUdpTunnelMagic0, kCanUdpTunnelMagic1,
    kCanUdpTunnelVersion, kCanUdpTunnelFlagClassicBatch, h₄, h₈, h₂₁, h₃₄, hb₄₇, hb, hs, toCanBatch,
    frames]

theorem wire_injective : Function.Injective wire := by
  intro b b' h
  have hu : unpackCanUdpTunnel b.wire = .ok b.toCanBatch := unpackCanUdpTunnel_wire
  rw [h, unpackCanUdpTunnel_wire, Except.ok.injEq, toCanBatch, toCanBatch, CanBatch.mk.injEq] at hu
  have hf := hu.2
  simp only [frames, CanFrame.classic, List.cons.injEq, CanFrame.mk.injEq, true_and, and_true] at hf
  have ⟨hl, hg, hs⟩ := hf
  cases b
  cases b'
  exact (ClassicBatch.mk.injEq ..).mpr ⟨hl.symm, hg.symm, hs.symm⟩

theorem wellFormed_of_unpack (h : unpackCanUdpTunnel data = .ok batch) : WellFormed data := by
  simp only [unpackCanUdpTunnel] at h
  split_ifs at h with h₁ h₂ h₃ h₄ h₅ h₆ h₇ h₈ h₉
  simp only [ne_eq, not_not, not_or, kCanUdpTunnelDatagramSize] at h₁ h₂ h₃ h₄ h₅ h₆ h₇ h₈ h₉
  have long (n : ℕ) (hn : n ≤ 34) : 13 ≤ (data.drop n).length := by rw [List.length_drop]; omega
  exact {
    length   := h₁
    magic    := by rw [take_two (by omega), h₂.1, h₂.2]; rfl
    version  := h₃
    flag     := h₄
    reserved := ⟨h₅.1, h₅.2.1⟩
    trailer  := h₅.2.2
    frames   := fun
      | 0 => (CanFrame.readWireFrame_take_iff (long 8 (by omega))).mpr ⟨by rw [h₆.1]; rfl, h₆.2⟩
      | 1 => (CanFrame.readWireFrame_take_iff (long 21 (by omega))).mpr ⟨by rw [h₇.1]; rfl, h₇.2⟩
      | 2 => (CanFrame.readWireFrame_take_iff (long 34 (by omega))).mpr ⟨by rw [h₈.1]; rfl, h₈.2⟩
    sequence := by
      rw [CanFrame.statusSequence_readWireFrame, List.drop_drop] at h₉
      rw [← readU16LeBytes_inj (by simp; omega) (by simp; omega)]
      exact h₉.symm
  }

theorem exists_wire (h : WellFormed data) : ∃ b : ClassicBatch, data = b.wire := by
  have long (n : ℕ) (hn : n ≤ 34) : 13 ≤ (data.drop n).length := by
    rw [List.length_drop, h.length]
    omega
  let b : ClassicBatch := {
    lateral      := (readWireFrame (data.drop 8)).data
    longitudinal := (readWireFrame (data.drop 21)).data
    status       := (readWireFrame (data.drop 34)).data }
  have frame (n : ℕ) (hn : n ≤ 34) (j : UInt8) (hj : (data.drop n).take 5 = [j, 1, 0, 0, 8])
      (id : UInt32) (hid : id.toNat = 0x100 + j.toNat) :
      data.drop n =
        (CanFrame.classic id (readWireFrame (data.drop n)).data).wire ++ data.drop (n + 13) := by
    have ⟨hi, hd⟩ := (CanFrame.readWireFrame_take_iff (long n hn)).mp hj
    rw [← CanFrame.readWireFrame_eq_classic (UInt32.toNat_inj.mp (hi.trans hid.symm)) hd,
      ← List.drop_drop, CanFrame.wire_readWireFrame (long n hn)]
  have hheader : data.take 8 = b.header := by
    have hs : b.sequence = readU16LeBytes (data.drop 4) := by
      rw [(readU16LeBytes_inj (by simp [h.length]) (by simp [h.length])).mpr h.sequence]
      exact CanFrame.statusSequence_readWireFrame.trans (by rw [List.drop_drop])
    have h₂ : (data.drop 4).take 2 = digits 2 b.sequence.toNat := by
      rw [hs, readU16LeBytes_eq (by simp [h.length])]
      exact (digits_value_of_length (by simp [h.length])).symm
    rw [header, ← h₂, take_eight (by simp [h.length]), h.magic, h.version, h.flag, h.reserved.1,
      h.reserved.2]
    rfl
  have htrailer : data.drop 47 = [0] := by
    have hl : 47 < data.length := by simp [h.length]
    have ht := h.trailer
    simp only [byte, List.getD_eq_getElem?_getD, List.getElem?_eq_getElem hl, Option.getD_some] at ht
    rw [List.drop_eq_getElem_cons hl, ht, List.drop_eq_nil_of_le (by simp [h.length])]
  refine ⟨b, ?_⟩
  calc data
    _ = data.take 8 ++ data.drop 8 := by simp
    _ = b.wire := by
      rw [wire_eq, hheader, frame 8 (by omega) 0 (h.frames 0) kLateralCommandCanId rfl,
        frame 21 (by omega) 1 (h.frames 1) kLongitudinalCommandCanId rfl,
        frame 34 (by omega) 2 (h.frames 2) kCommandStatusCanId rfl, htrailer]

theorem unpackCanUdpTunnel_iff :
    unpackCanUdpTunnel data = .ok batch ↔ ∃ b : ClassicBatch, data = b.wire ∧ batch = b.toCanBatch := by
  constructor
  case mp =>
    intro h
    have ⟨b, hb⟩ := exists_wire (wellFormed_of_unpack h)
    rw [hb, unpackCanUdpTunnel_wire, Except.ok.injEq] at h
    exact ⟨b, hb, h.symm⟩
  case mpr =>
    intro ⟨b, hd, hb⟩
    rw [hd, hb, unpackCanUdpTunnel_wire]

theorem wellFormed_iff : WellFormed data ↔ ∃ b : ClassicBatch, data = b.wire := by
  refine ⟨exists_wire, fun ⟨b, hb⟩ => ?_⟩
  exact wellFormed_of_unpack (unpackCanUdpTunnel_iff.mpr ⟨b, hb, rfl⟩)

theorem packCanUdpTunnel_iff :
    packCanUdpTunnel batch = .ok data ↔ ∃ b : ClassicBatch, batch = b.toCanBatch ∧ data = b.wire := by
  constructor
  case mpr =>
    intro ⟨b, hb, hd⟩
    rw [hb, hd, packCanUdpTunnel_toCanBatch]
  case mp =>
    intro h
    suffices hb : ∃ b : ClassicBatch, batch = b.toCanBatch by
      have ⟨b, hb⟩ := hb
      rw [hb, packCanUdpTunnel_toCanBatch, Except.ok.injEq] at h
      exact ⟨b, hb, h.symm⟩
    have ⟨sequence, frames⟩ := batch
    simp only [packCanUdpTunnel] at h
    split at h
    case h_2 => cases h
    case h_1 frame0 frame1 frame2 =>
      split_ifs at h with h₀ h₁ h₂ hs
      simp only [ne_eq, not_or, not_not, Bool.not_eq_true] at h₀ h₁ h₂ hs
      refine ⟨⟨frame0.data, frame1.data, frame2.data⟩, ?_⟩
      have eq {frame : CanFrame} {id : UInt32}
          (h : frame.id = id ∧ frame.dlc = 8 ∧ frame.extended = false) :
          frame = .classic id frame.data := by
        rw [CanFrame.classic, ← h.1, ← h.2.1, ← h.2.2]
      rw [toCanBatch, ClassicBatch.frames, ← eq h₀, ← eq h₁, ← eq h₂, ← hs]
      rfl

end ClassicBatch

end SafetyIsland.Can

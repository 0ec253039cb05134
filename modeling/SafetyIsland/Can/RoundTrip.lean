import SafetyIsland.Can.Bus
import SafetyIsland.Can.Payload

namespace SafetyIsland.Can

open Bytes

def truncated (x : ℚ) : ℤ :=
  if 0 ≤ x then ⌊x⌋ else ⌈x⌉

-- `scale_to_i32` on exact numbers. A number that is not finite is none.
def scaleExactToI32 (value : Option ℚ) (scale : ℕ) : Option Int32 := do
  let scaled := (← value) * scale
  if scaled < -2147483648 - 1 / 2 ∨ scaled > 2147483647 + 1 / 2 then none
  else
    let rounded := truncated (if scaled ≥ 0 then scaled + 1 / 2 else scaled - 1 / 2)
    if rounded < -2147483648 ∨ rounded > 2147483647 then none else some (.ofInt rounded)

-- The nearest integer, and the one away from zero of two.
def roundAway (x : ℚ) : ℤ :=
  if 0 ≤ x then ⌊x + 1 / 2⌋ else -⌊-x + 1 / 2⌋

section

variable {x : ℚ}

theorem roundAway_error : |(roundAway x : ℚ) - x| ≤ 1 / 2 := by
  rw [abs_le, roundAway]
  split_ifs
  case pos =>
    have h₁ := Int.floor_le (x + 1 / 2)
    have h₂ := Int.lt_floor_add_one (x + 1 / 2)
    constructor <;> linarith
  case neg =>
    have h₁ := Int.floor_le (-x + 1 / 2)
    have h₂ := Int.lt_floor_add_one (-x + 1 / 2)
    push_cast
    constructor <;> linarith

theorem roundAway_nearest (k : ℤ) : |(roundAway x : ℚ) - x| ≤ |(k : ℚ) - x| := by
  have he := roundAway_error (x := x)
  by_cases hk : k = roundAway x
  case pos => rw [hk]
  case neg =>
    have hd : (1 : ℚ) ≤ |(k : ℚ) - roundAway x| := by
      exact_mod_cast Int.one_le_abs (sub_ne_zero.mpr hk)
    have ht := abs_sub_le (k : ℚ) x (roundAway x)
    rw [abs_sub_comm x] at ht
    linarith

theorem truncated_eq : truncated (if x ≥ 0 then x + 1 / 2 else x - 1 / 2) = roundAway x := by
  rw [roundAway, truncated]
  split_ifs with h₁ h₂ h₂
  case pos => rfl
  case neg => linarith
  case pos => linarith
  case neg =>
    rw [← Int.ceil_neg]
    congr 1
    ring

end

def Fits (value : Option ℚ) (scale : ℕ) : Prop :=
  ∃ x, value = some x ∧ -2147483648 ≤ roundAway (x * scale) ∧ roundAway (x * scale) ≤ 2147483647

theorem scaleExactToI32_iff {value : Option ℚ} {scale : ℕ} {y : Int32} :
    scaleExactToI32 value scale = some y ↔
      Fits value scale ∧ ∃ x, value = some x ∧ y.toInt = roundAway (x * scale) := by
  cases value
  case none => simp [scaleExactToI32, Fits]
  case some x =>
    have ⟨h₁, h₂⟩ := abs_le.mp (roundAway_error (x := x * scale))
    simp only [scaleExactToI32, bind, Option.bind_some, truncated_eq, Fits, Option.some.injEq,
      exists_eq_left']
    generalize roundAway (x * scale) = m at h₁ h₂
    split_ifs with h h'
    case pos =>
      -- The check before the rounding only rejects what rounds out of range.
      refine ⟨nofun, fun ⟨⟨hm, hm'⟩, _⟩ => ?_⟩
      have hm : (-2147483648 : ℚ) ≤ m := by exact_mod_cast hm
      have hm' : (m : ℚ) ≤ 2147483647 := by exact_mod_cast hm'
      rcases h with h | h <;> linarith
    case pos =>
      refine ⟨nofun, fun ⟨⟨hm, hm'⟩, _⟩ => ?_⟩
      omega
    case neg =>
      rw [not_or, not_lt, gt_iff_lt, not_lt] at h'
      have hi : (Int32.ofInt m).toInt = m :=
        Int32.toInt_ofInt_of_le (by omega) (by omega)
      rw [Option.some.injEq, ← Int32.toInt_inj, hi]
      exact ⟨fun he => ⟨h', he.symm⟩, fun he => he.2.symm⟩

theorem scaleExactToI32_isSome {value : Option ℚ} {scale : ℕ} :
    (scaleExactToI32 value scale).isSome = true ↔ Fits value scale := by
  rw [Option.isSome_iff_exists]
  constructor
  case mp => exact fun ⟨_, h⟩ => (scaleExactToI32_iff.mp h).1
  case mpr =>
    intro h
    have ⟨x, hv, h₁, h₂⟩ := h
    refine ⟨.ofInt (roundAway (x * scale)), scaleExactToI32_iff.mpr ⟨h, x, hv, ?_⟩⟩
    exact Int32.toInt_ofInt_of_le (by omega) (by omega)

structure Nearest (scale : ℕ) (value : Option ℚ) (decoded : ℚ) : Prop where
  finite  : value.isSome = true
  error   : ∀ x ∈ value, |decoded - x| ≤ 1 / (2 * scale)
  nearest : ∀ x ∈ value, ∀ k : ℤ, |decoded - x| ≤ |k / scale - x|

theorem nearest_of_scaled {value : Option ℚ} {scale : ℕ} (hs : 0 < scale) {y : Int32}
    (h : scaleExactToI32 value scale = some y) : Nearest scale value (y.toInt / (scale : ℤ)) := by
  have ⟨_, x, hv, hy⟩ := scaleExactToI32_iff.mp h
  subst hv
  have hs : (0 : ℚ) < scale := by exact_mod_cast hs
  have unscale (k : ℤ) : |(k : ℚ) / scale - x| = |(k : ℚ) - x * scale| / scale := by
    rw [← abs_of_pos hs, ← abs_div, abs_of_pos hs, sub_div, mul_div_cancel_right₀ x hs.ne']
  rw [hy, Int.cast_natCast]
  refine ⟨rfl, fun _ hx => ?_, fun _ hx k => ?_⟩
  all_goals
    cases hx
    rw [unscale]
  case refine_1 =>
    rw [one_div, mul_inv, ← one_div, ← div_eq_mul_inv]
    exact div_le_div_of_nonneg_right roundAway_error hs.le
  case refine_2 =>
    rw [unscale]
    exact div_le_div_of_nonneg_right (roundAway_nearest k) hs.le

namespace ControlCommandDecoder

variable {α : Type} [IntCast α] [Div α] {d : ControlCommandDecoder α} {now : Float}

def feedFrames (d : ControlCommandDecoder α) (frames : List CanFrame) (now : Float) :
    ControlCommandDecoder α × DecoderEvent :=
  frames.foldl (fun r frame => r.1.feedFrame frame now) (d, .ignored)

def feedFdFrame (d : ControlCommandDecoder α) (frame : CanFdFrame) (now : Float) :
    ControlCommandDecoder α × DecoderEvent :=
  d.feedFd frame.id (frame.data.take frame.length.toNat) frame.length.toNat false now

theorem feedFrame_classic {id : UInt32} {data : Vector UInt8 8} :
    d.feedFrame (.classic id data) now = d.feed id data.toList 8 false now :=
  rfl

def loaded (d : ControlCommandDecoder α) (lateral longitudinal : List UInt8) (now : Float) :
    ControlCommandDecoder α :=
  { d.noteTime now with lateral := some lateral, longitudinal := some longitudinal }

theorem feedFrames_classic {lateral longitudinal status : Vector UInt8 8} :
    d.feedFrames [.classic lateralId lateral, .classic longitudinalId longitudinal,
      .classic statusId status] now =
      (d.loaded lateral.toList longitudinal.toList now).commit status.toList now := by
  simp only [feedFrames, List.foldl_cons, List.foldl_nil, feedFrame_classic]
  rw [feed_lateral (by simp), feed_longitudinal (by simp), feed_status (by simp)]
  cases h : d.anchor <;> simp [loaded, noteTime, h]

theorem feedFd_payloads {lateral longitudinal status : List UInt8} (hl : lateral.length = 8)
    (hg : longitudinal.length = 8) (hs : status.length = 8) :
    d.feedFd fdCommandId (lateral ++ longitudinal ++ status) 24 false now =
      (d.loaded lateral longitudinal now).commit status now := by
  have hn : (lateral ++ longitudinal ++ status).length = 24 := by simp [hl, hg, hs]
  have h₁ : (lateral ++ longitudinal ++ status).take 8 = lateral := by
    rw [List.append_assoc, List.take_left' hl]
  have h₂ : ((lateral ++ longitudinal ++ status).drop 8).take 8 = longitudinal := by
    rw [List.append_assoc, List.drop_left' hl, List.take_left' hg]
  have h₃ : ((lateral ++ longitudinal ++ status).drop 16).take 8 = status := by
    rw [List.drop_left' (by simp [hl, hg]), List.take_of_length_le hs.le]
  simp only [feedFd, fdPayloadLength, hn, List.take_of_length_le hn.le, h₁, h₂, h₃,
    Bool.false_eq_true, ne_eq, not_true_eq_false, lt_irrefl, or_self, if_false]
  rw [feed_lateral hl, feed_longitudinal hg, feed_status hs]
  cases h : d.anchor <;> simp [loaded, noteTime, h]

theorem commit_accepted {lateral longitudinal status : List UInt8}
    (h : ((d.loaded lateral longitudinal now).commit status now).2 = .accepted) :
    ((d.loaded lateral longitudinal now).commit status now).1.command =
      .assemble lateral longitudinal status := by
  have hc : Commits (d.loaded lateral longitudinal now) status now _ := commits
  generalize (d.loaded lateral longitudinal now).commit status now = r at h hc ⊢
  cases hc
  case rejects => cases h
  case accepts l g hl hg _ =>
    cases hl
    cases hg
    rfl

theorem commit_loaded (h : d.expected = none) {lateral longitudinal status : List UInt8} :
    ((d.loaded lateral longitudinal now).commit status now).2 = .accepted := by
  simp [commit, loaded, noteTime, h]

end ControlCommandDecoder

structure Decoded (msg : CommandFields (Option ℚ)) (mode : OutputMode) (sequence : UInt16)
    (command : DecodedControlCommand ℚ) : Prop where
  angle               : Nearest 1000000 msg.steeringTireAngle command.steeringTireAngle
  rate                : Nearest 1000000 msg.steeringTireRotationRate
    command.steeringTireRotationRate
  velocity            : Nearest 1000 msg.velocity command.velocity
  acceleration        : Nearest 1000 msg.acceleration command.acceleration
  steeringRateDefined : command.steeringRateDefined = msg.steeringRateDefined
  accelerationDefined : command.accelerationDefined = msg.accelerationDefined
  jerkDefined         : command.jerkDefined = msg.jerkDefined
  outputMode          : command.outputMode = mode.toUInt8
  sequence            : command.sequence = sequence.toNat

namespace CommandFields

variable {msg : CommandFields (Option ℚ)} {mode : OutputMode} {sequence : UInt16} {scaled : Scaled}
  {lateral longitudinal status : CanFrame}

theorem validityFlags_bits (a b c : Bool) :
    (validityFlags a b c &&& 0x01 != 0) = a ∧ (validityFlags a b c &&& 0x02 != 0) = b ∧
      (validityFlags a b c &&& 0x04 != 0) = c := by
  revert a b c
  decide

theorem Encoded.decoded
    (h : Encoded scaleExactToI32 msg mode sequence scaled lateral longitudinal status) :
    Decoded msg mode sequence (.assemble lateral.payload longitudinal.payload status.payload) := by
  have hangle : i32Le lateral.payload 0 = scaled.angle.toInt :=
    h.lateral_data ▸ i32Le_digits [] _ rfl
  have hrate : i32Le lateral.payload 4 = scaled.rate.toInt := by
    rw [h.lateral_data, ← List.append_nil (digits 4 scaled.rate.toUInt32.toNat)]
    exact i32Le_digits _ _ (by simp)
  have hvelocity : i32Le longitudinal.payload 0 = scaled.velocity.toInt :=
    h.longitudinal_data ▸ i32Le_digits [] _ rfl
  have hacceleration : i32Le longitudinal.payload 4 = scaled.acceleration.toInt := by
    rw [h.longitudinal_data, ← List.append_nil (digits 4 scaled.acceleration.toUInt32.toNat)]
    exact i32Le_digits _ _ (by simp)
  have hsequence : u16Le status.payload 2 = sequence.toNat := by
    rw [h.status_data, List.append_assoc]
    exact u16Le_digits _ _ rfl
  have hmode : status.payload.getD 0 0 = mode.toUInt8 := by rw [h.status_data]; rfl
  have hflags : status.payload.getD 1 0 = msg.flags := by rw [h.status_data]; rfl
  have ⟨hrateDefined, haccelerationDefined, hjerkDefined⟩ :=
    validityFlags_bits msg.steeringRateDefined msg.accelerationDefined msg.jerkDefined
  simp only [DecodedControlCommand.assemble, hangle, hrate, hvelocity, hacceleration, hsequence,
    hmode, hflags]
  exact {
    angle               := nearest_of_scaled (by decide) h.angle
    rate                := nearest_of_scaled (by decide) h.rate
    velocity            := nearest_of_scaled (by decide) h.velocity
    acceleration        := nearest_of_scaled (by decide) h.acceleration
    steeringRateDefined := hrateDefined
    accelerationDefined := haccelerationDefined
    jerkDefined         := hjerkDefined
    outputMode          := rfl
    sequence            := rfl }

theorem Encoded.feedFrames
    (h : Encoded scaleExactToI32 msg mode sequence scaled lateral longitudinal status)
    (d : ControlCommandDecoder ℚ) (now : Float) :
    d.feedFrames [lateral, longitudinal, status] now =
      (d.loaded lateral.payload longitudinal.payload now).commit status.payload now := by
  conv_lhs => rw [h.lateral_eq, h.longitudinal_eq, h.status_eq]
  exact ControlCommandDecoder.feedFrames_classic

theorem feedFrames_accepted (hm : mode.usesCan = true) {frames : List CanFrame}
    (h : msg.encode scaleExactToI32 mode sequence = .ok frames) {d : ControlCommandDecoder ℚ}
    (hd : d.expected = none) (now : Float) : (d.feedFrames frames now).2 = .accepted := by
  obtain ⟨scaled, lateral, longitudinal, status, rfl, he⟩ := encode_ok hm h
  rw [he.feedFrames]
  exact ControlCommandDecoder.commit_loaded hd

-- The two formats carry the same command, and the decoder recovers it.
theorem encode_decode (hm : mode.usesCan = true) :
    ((msg.encode scaleExactToI32 mode sequence).isOk = true ↔
      Fits msg.steeringTireAngle 1000000 ∧ Fits msg.steeringTireRotationRate 1000000 ∧
      Fits msg.velocity 1000 ∧ Fits msg.acceleration 1000) ∧
    ∀ frames, msg.encode scaleExactToI32 mode sequence = .ok frames →
      ∃ frame, msg.encodeFd scaleExactToI32 mode sequence = .ok (some frame) ∧
      ∀ (d : ControlCommandDecoder ℚ) (now : Float),
        d.feedFdFrame frame now = d.feedFrames frames now ∧
        ((d.feedFrames frames now).2 = .accepted →
          Decoded msg mode sequence (d.feedFrames frames now).1.command) := by
  refine ⟨by simp only [encode_isOk hm, scaleExactToI32_isSome], fun frames h => ?_⟩
  obtain ⟨scaled, lateral, longitudinal, status, rfl, he⟩ := encode_ok hm h
  have ⟨frame, hfd, hid, hlength, hdata⟩ := he.encodeFd h
  refine ⟨frame, hfd, fun d now => ?_⟩
  have hclassic : d.feedFrames [lateral, longitudinal, status] now =
      (d.loaded lateral.payload longitudinal.payload now).commit status.payload now :=
    he.feedFrames d now
  have hfdFrame : d.feedFdFrame frame now =
      (d.loaded lateral.payload longitudinal.payload now).commit status.payload now := by
    rw [ControlCommandDecoder.feedFdFrame, hid, hlength]
    exact hdata ▸ ControlCommandDecoder.feedFd_payloads (by simp) (by simp) (by simp)
  refine ⟨hfdFrame.trans hclassic.symm, fun haccepted => ?_⟩
  rw [hclassic] at haccepted ⊢
  rw [ControlCommandDecoder.commit_accepted haccepted]
  exact he.decoded

-- Half a unit of the steering angle, at the last sequence before the wrap. A decoder that expects no
-- number accepts the command.
theorem encode_decode_tie :
    let msg : CommandFields (Option ℚ) := {
      stamp                    := ⟨1, 0⟩
      steeringTireAngle        := some (-1 / 2000000)
      steeringTireRotationRate := some 0
      steeringRateDefined      := false
      velocity                 := some (5 / 2)
      acceleration             := some 0
      accelerationDefined      := true
      jerkDefined              := false }
    ∃ frames frame, msg.encode scaleExactToI32 .canOnly 65535 = .ok frames ∧
      msg.encodeFd scaleExactToI32 .canOnly 65535 = .ok (some frame) ∧
      ∀ (d : ControlCommandDecoder ℚ) (now : Float),
        d.feedFdFrame frame now = d.feedFrames frames now ∧
        (d.expected = none → (d.feedFrames frames now).2 = .accepted ∧
          Decoded msg .canOnly 65535 (d.feedFrames frames now).1.command) := by
  intro msg
  have ⟨hok, hframes⟩ := @encode_decode msg .canOnly 65535 rfl
  have hfits : (msg.encode scaleExactToI32 .canOnly 65535).isOk = true :=
    hok.mpr ⟨⟨_, rfl, by decide +kernel⟩, ⟨_, rfl, by decide +kernel⟩, ⟨_, rfl, by decide +kernel⟩,
      ⟨_, rfl, by decide +kernel⟩⟩
  cases hr : msg.encode scaleExactToI32 .canOnly 65535
  case error =>
    rw [hr] at hfits
    cases hfits
  case ok frames =>
    obtain ⟨frame, hfd, hd⟩ := hframes frames hr
    refine ⟨frames, frame, rfl, hfd, fun d now => ⟨(hd d now).1, fun hn => ?_⟩⟩
    have ha := feedFrames_accepted rfl hr hn now
    exact ⟨ha, (hd d now).2 ha⟩

end CommandFields
end SafetyIsland.Can

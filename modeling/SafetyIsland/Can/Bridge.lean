import SafetyIsland.Can.Replay

namespace SafetyIsland.Can

structure BridgeConfig where
  slew         : Float
  defaultAccel : Float
  brakeAccel   : Float
  timeoutSec   : Float
  -- whether the bus carries CAN-FD frames
  fd           : Bool

structure AckermannControl where
  steer        : Float
  steerSpeed   : Float
  speed        : Float
  acceleration : Float
  jerk         : Float
deriving DecidableEq

def stopSpeed : Float := 0.2

def mapAckermann (command : DecodedControlCommand Float) (lastSteer : Float) (cfg : BridgeConfig)
    (safeStop : Bool) : AckermannControl :=
  if safeStop then
    { steer        := lastSteer
      steerSpeed   := cfg.slew
      speed        := 0
      acceleration := cfg.brakeAccel
      jerk         := 0 }
  else
    let steer := -command.steeringTireAngle
    let steerSpeed :=
      if command.steeringRateDefined then command.steeringTireRotationRate.abs else cfg.slew
    let acceleration := if command.accelerationDefined then command.acceleration else cfg.defaultAccel
    if command.velocity.abs ≤ stopSpeed ∧ acceleration < 0 then
      { steer        := steer
        steerSpeed   := steerSpeed
        speed        := 0
        acceleration := if -cfg.brakeAccel < acceleration then -cfg.brakeAccel else acceleration
        jerk         := 0 }
    else
      { steer        := steer
        steerSpeed   := steerSpeed
        speed        := command.velocity
        acceleration := acceleration
        jerk         := 0 }

structure CanMessage where
  arbitrationId : UInt32
  data          : List UInt8
  dlc           : ℕ
  isExtendedId  : Bool
  isErrorFrame  : Bool
  isRemoteFrame : Bool
  isFd          : Bool

-- One iteration of the main loop: the time at its start, and what the bus delivers within the
-- 50 ms of the wait, with the time at which the decoder is fed.
structure Iteration where
  now : Float
  msg : Option (CanMessage × Float)

structure Bridge where
  decoder   : ControlCommandDecoder Float
  lastSteer : Float

namespace Bridge

def init : Bridge where
  decoder   := .init
  lastSteer := 0

def frame (cfg : BridgeConfig) (msg : CanMessage) : Option BusFrame :=
  if msg.isErrorFrame ∨ msg.isRemoteFrame then none
  else if cfg.fd then
    if msg.isFd then some (.fd msg.arbitrationId msg.data msg.dlc msg.isExtendedId) else none
  else if !msg.isFd then some (.classic msg.arbitrationId msg.data msg.dlc msg.isExtendedId)
  else none

def decode (cfg : BridgeConfig) (s : Bridge) (it : Iteration) :
    ControlCommandDecoder Float × DecoderEvent :=
  let decoder := (s.decoder.pollWatchdog it.now cfg.timeoutSec).1
  match it.msg with
  | none             => (decoder, .ignored)
  | some (msg, time) =>
    match frame cfg msg with
    | none       => (decoder, .ignored)
    | some frame => decoder.receive time frame

def iterate (cfg : BridgeConfig) (s : Bridge) (it : Iteration) : Bridge × Option AckermannControl :=
  let (decoder, event) := s.decode cfg it
  if decoder.inSafeStop then
    ({ s with decoder := decoder }, some (mapAckermann decoder.command s.lastSteer cfg true))
  else if event = .accepted then
    let lastSteer := -decoder.command.steeringTireAngle
    (⟨decoder, lastSteer⟩, some (mapAckermann decoder.command lastSteer cfg false))
  else ({ s with decoder := decoder }, none)

def after (cfg : BridgeConfig) (its : List Iteration) : Bridge :=
  its.foldl (fun s it => (s.iterate cfg it).1) init

def accepts (cfg : BridgeConfig) (s : Bridge) (it : Iteration) :
    Option (DecodedControlCommand Float × Float) :=
  let (decoder, event) := s.decode cfg it
  if event = .accepted then it.msg.map fun (_, time) => (decoder.command, time) else none

def lastAccepted (cfg : BridgeConfig) (its : List Iteration) :
    Option (DecodedControlCommand Float × Float) :=
  (its.foldl (fun p it => ((p.1.iterate cfg it).1, p.1.accepts cfg it <|> p.2)) (init, none)).2

end Bridge

namespace ControlCommandDecoder

variable {d : ControlCommandDecoder Float} {now timeoutSec : Float} {frame : BusFrame}

theorem poll_anchor : (d.pollWatchdog now timeoutSec).1.anchor = (d.noteTime now).anchor := by
  have h : Polls d now timeoutSec (d.pollWatchdog now timeoutSec) := polls
  generalize d.pollWatchdog now timeoutSec = r at h ⊢
  cases h <;> rfl

theorem poll_inSafeStop (h : d.inSafeStop = true) :
    (d.pollWatchdog now timeoutSec).1.inSafeStop = true := by
  have hn : (d.noteTime now).inSafeStop = true := h
  rw [pollWatchdog, if_pos hn]
  exact hn

theorem poll_age : (d.pollWatchdog now timeoutSec).1.inSafeStop = true ∨
    ∃ anchor, (d.noteTime now).anchor = some anchor ∧ now - anchor ≤ timeoutSec := by
  have ⟨anchor, ha⟩ : ∃ anchor, (d.noteTime now).anchor = some anchor := by
    cases h : d.anchor <;> simp [noteTime, h]
  by_cases hs : (d.noteTime now).inSafeStop = true
  case pos => exact .inl (poll_inSafeStop hs)
  case neg =>
    by_cases hle : now - anchor ≤ timeoutSec
    case pos => exact .inr ⟨anchor, ha, hle⟩
    case neg =>
      left
      simp only [pollWatchdog, hs, ha, hle, if_false]
      rfl

theorem receive_anchor (now : Float) (frame : BusFrame) (ha : d.anchor.isSome) :
    (d.receive now frame).2 = .accepted ∧ (d.receive now frame).1.anchor = some now ∧
      (d.receive now frame).1.inSafeStop = false ∨
    (d.receive now frame).2 ≠ .accepted ∧ (d.receive now frame).1.anchor = d.anchor ∧
      (d.receive now frame).1.inSafeStop = d.inSafeStop := by
  have ⟨anchor, ha⟩ := Option.isSome_iff_exists.mp ha
  have hn : (d.noteTime now).anchor = d.anchor := by simp [noteTime, ha]
  have h : Receives d now frame.content (d.receive now frame) := receives
  generalize d.receive now frame = r at h
  cases h
  case accepts => exact .inl ⟨rfl, rfl, rfl⟩
  all_goals exact .inr ⟨by simp, hn, rfl⟩

end ControlCommandDecoder

namespace Bridge

variable {cfg : BridgeConfig} {s : Bridge} {it : Iteration} {its : List Iteration}

-- What an iteration does to the decoder.
inductive Decodes (cfg : BridgeConfig) (s : Bridge) (it : Iteration) : Prop
  | accepted (time : Float) (hd : (s.decode cfg it).2 = .accepted)
    (ha : s.accepts cfg it = some ((s.decode cfg it).1.command, time))
    (ht : (s.decode cfg it).1.anchor = some time) (hs : (s.decode cfg it).1.inSafeStop = false)
  | other (hd : (s.decode cfg it).2 ≠ .accepted) (ha : s.accepts cfg it = none)
    (ht : (s.decode cfg it).1.anchor = (s.decoder.noteTime it.now).anchor)
    (hs : (s.decode cfg it).1.inSafeStop =
      (s.decoder.pollWatchdog it.now cfg.timeoutSec).1.inSafeStop)

theorem decodes : Decodes cfg s it := by
  have ha : (s.decoder.pollWatchdog it.now cfg.timeoutSec).1.anchor =
    (s.decoder.noteTime it.now).anchor := ControlCommandDecoder.poll_anchor
  have hsome : (s.decoder.pollWatchdog it.now cfg.timeoutSec).1.anchor.isSome := by
    rw [ha]
    cases h : s.decoder.anchor <;> simp [ControlCommandDecoder.noteTime, h]
  cases hm : it.msg
  case none =>
    have hd : s.decode cfg it = ((s.decoder.pollWatchdog it.now cfg.timeoutSec).1, .ignored) := by
      simp [decode, hm]
    refine .other ?_ ?_ ?_ ?_ <;> simp [accepts, hd, ha]
  case some msg =>
    obtain ⟨msg, time⟩ := msg
    cases hf : frame cfg msg
    case none =>
      have hd : s.decode cfg it = ((s.decoder.pollWatchdog it.now cfg.timeoutSec).1, .ignored) := by
        simp [decode, hm, hf]
      refine .other ?_ ?_ ?_ ?_ <;> simp [accepts, hd, ha]
    case some frame =>
      have hd : s.decode cfg it =
          (s.decoder.pollWatchdog it.now cfg.timeoutSec).1.receive time frame := by
        simp [decode, hm, hf]
      rcases ControlCommandDecoder.receive_anchor time frame hsome with
        ⟨he, ht, hs⟩ | ⟨he, ht, hs⟩
      case inl =>
        rw [← hd] at he ht hs
        exact .accepted time he (by simp [accepts, he, hm]) ht hs
      case inr =>
        rw [← hd] at he ht hs
        exact .other he (by simp [accepts, he]) (ht.trans ha) hs

theorem after_append : after cfg (its ++ [it]) = ((after cfg its).iterate cfg it).1 := by
  simp [after]

theorem lastAccepted_append : lastAccepted cfg (its ++ [it]) =
    ((after cfg its).accepts cfg it <|> lastAccepted cfg its) := by
  have hf : (its.foldl (fun p it => ((p.1.iterate cfg it).1, p.1.accepts cfg it <|> p.2))
      (init, none)).1 = after cfg its := by
    induction its using List.reverseRecOn
    case nil => rfl
    case append_singleton its it ih =>
      rw [List.foldl_concat, after_append, ← ih]
  rw [lastAccepted, lastAccepted, List.foldl_concat, hf]

-- The steering that a safe stop holds.
def heldSteer (cfg : BridgeConfig) (its : List Iteration) : Float :=
  (lastAccepted cfg its).elim 0 fun (command, _) => -command.steeringTireAngle

-- The time that the watchdog counts from: the last accepted command, or the first iteration.
def since (cfg : BridgeConfig) (its : List Iteration) : Option Float :=
  match lastAccepted cfg its with
  | some (_, time) => some time
  | none           => its.head?.map Iteration.now

theorem iterate_decoder : (s.iterate cfg it).1.decoder = (s.decode cfg it).1 := by
  simp only [iterate]
  split_ifs <;> rfl

theorem iterate_of_inSafeStop (h : (s.decode cfg it).1.inSafeStop = true) :
    s.iterate cfg it = ({ s with decoder := (s.decode cfg it).1 },
      some (mapAckermann (s.decode cfg it).1.command s.lastSteer cfg true)) := by
  simp only [iterate, h, if_true]

theorem iterate_of_accepted (h : (s.decode cfg it).1.inSafeStop = false)
    (hd : (s.decode cfg it).2 = .accepted) :
    let lastSteer := -(s.decode cfg it).1.command.steeringTireAngle
    s.iterate cfg it = (⟨(s.decode cfg it).1, lastSteer⟩,
      some (mapAckermann (s.decode cfg it).1.command lastSteer cfg false)) := by
  simp only [iterate, h, hd, Bool.false_eq_true, if_false, if_true]

structure Remembers (cfg : BridgeConfig) (its : List Iteration) (s : Bridge) : Prop where
  lastSteer : s.lastSteer = heldSteer cfg its
  anchor    : s.decoder.anchor = since cfg its

theorem after_remembers : Remembers cfg its (after cfg its) := by
  induction its using List.reverseRecOn
  case nil => exact ⟨rfl, rfl⟩
  case append_singleton its it ih =>
    rw [after_append]
    have hd : Decodes cfg (after cfg its) it := decodes
    have hla : lastAccepted cfg (its ++ [it]) = _ := lastAccepted_append
    cases hd
    case accepted time hd ha ht hs =>
      replace hla : lastAccepted cfg (its ++ [it]) = some _ := hla.trans (by rw [ha]; rfl)
      refine ⟨?_, ?_⟩
      case refine_1 => rw [iterate_of_accepted hs hd, heldSteer, hla]; rfl
      case refine_2 => rw [iterate_decoder, ht, since, hla]
    case other hd ha ht hs =>
      replace hla : lastAccepted cfg (its ++ [it]) = lastAccepted cfg its :=
        hla.trans (by rw [ha]; rfl)
      refine ⟨?_, ?_⟩
      case refine_1 =>
        rw [heldSteer, hla, ← heldSteer, ← ih.lastSteer]
        simp only [iterate, hd, if_false]
        split_ifs <;> rfl
      case refine_2 =>
        rw [iterate_decoder, ht, since, hla, ControlCommandDecoder.noteTime]
        simp only
        rw [ih.anchor, since]
        cases lastAccepted cfg its
        case some => rfl
        case none => cases its <;> rfl

-- What the loop does in each iteration, after any other ones.
theorem actuation (cfg : BridgeConfig) (its : List Iteration) (it : Iteration) :
    let s := after cfg its
    let s' := (s.iterate cfg it).1
    ((s.decoder.pollWatchdog it.now cfg.timeoutSec).1.inSafeStop = true ∨
      ∃ time, (since cfg its <|> some it.now) = some time ∧ it.now - time ≤ cfg.timeoutSec) ∧
    (s.decoder.inSafeStop = true → s.accepts cfg it = none → s'.decoder.inSafeStop = true) ∧
    (∀ control ∈ (s.iterate cfg it).2,
      (∃ command time, s.accepts cfg it = some (command, time) ∧ s'.decoder.inSafeStop = false ∧
        control = mapAckermann command s'.lastSteer cfg false) ∨
      s.accepts cfg it = none ∧ s'.decoder.inSafeStop = true ∧
        control = mapAckermann s'.decoder.command (heldSteer cfg its) cfg true ∧
        control.steer = heldSteer cfg its) ∧
    ((s.iterate cfg it).2.isSome = true ↔
      (s.accepts cfg it).isSome = true ∨ s'.decoder.inSafeStop = true) := by
  intro s s'
  have hr : Remembers cfg its s := after_remembers
  have hs' : s'.decoder = (s.decode cfg it).1 := iterate_decoder
  have hd : Decodes cfg s it := decodes
  refine ⟨?age, ?stays, ?applied, ?always⟩
  case age =>
    rcases s.decoder.poll_age with hs | ⟨anchor, ha, hle⟩
    case inl => exact .inl hs
    case inr => exact .inr ⟨anchor, (hr.anchor ▸ ha), hle⟩
  case stays =>
    intro hs hn
    rw [hs']
    cases hd
    case accepted time hd ha ht hs' => simp [hn] at ha
    case other hd ha ht hs' => exact hs'.trans (ControlCommandDecoder.poll_inSafeStop hs)
  case applied =>
    intro control hc
    rw [hs']
    cases hd
    case accepted time hd ha ht hs =>
      left
      rw [iterate_of_accepted hs hd, Option.mem_some_iff] at hc
      have hl : s' = ⟨_, _⟩ := congrArg Prod.fst (iterate_of_accepted hs hd)
      exact ⟨_, time, ha, hs, by rw [← hc, hl]⟩
    case other hd ha ht hs =>
      right
      by_cases hs : (s.decode cfg it).1.inSafeStop = true
      case pos =>
        rw [iterate_of_inSafeStop hs, Option.mem_some_iff] at hc
        rw [← hr.lastSteer]
        exact ⟨ha, hs, hc.symm, hc ▸ rfl⟩
      case neg => simp [iterate, hs, hd] at hc
  case always =>
    rw [hs']
    cases hd
    case accepted time hd ha ht hs => simp [iterate_of_accepted hs hd, ha]
    case other hd ha ht hs =>
      by_cases hs : (s.decode cfg it).1.inSafeStop = true
      case pos => simp [iterate_of_inSafeStop hs, hs]
      case neg => simp [iterate, hs, hd, ha]

end Bridge
end SafetyIsland.Can

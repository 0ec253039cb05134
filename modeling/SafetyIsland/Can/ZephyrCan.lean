import SafetyIsland.Can.Output

namespace SafetyIsland.Can

structure HandedFrame where
  frame     : CanFrame
  completed : Bool
deriving DecidableEq

-- The frames of a list are handed over up to some point, where one more may be handed over without a
-- completion.
def Handed (frames : List CanFrame) (handed : List HandedFrame) (ok : Bool) : Prop :=
  ∃ n rest, handed = (frames.take n).map (⟨·, true⟩) ++ rest ∧
    (∀ h ∈ rest, h.frame ∈ frames ∧ h.completed = false) ∧ (ok = true ↔ frames.length ≤ n)

inductive CanSendState
  | idle
  | waiting
  | timedOut
deriving DecidableEq

-- The context of the sends with the count of its semaphore, and whether the driver still has to
-- report the completion of a frame that it accepted.
structure ZephyrCan where
  done    : Bool
  state   : CanSendState
  error   : ℤ
  awaited : Bool
deriving DecidableEq

namespace ZephyrCan

def init : ZephyrCan where
  done    := false
  state   := .idle
  error   := 0
  awaited := false

-- What the driver does with a frame: the result of its `can_send`, and the completion that it
-- reports within the 10 ms of the wait.
structure Driver where
  ret        : ℤ
  completion : Option ℤ

def canTxDoneCallback (error : ℤ) (c : ZephyrCan) : ZephyrCan :=
  { c with
    error   := error
    done    := true
    awaited := false }

def inRange (frame : CanFrame) : Bool :=
  frame.dlc ≤ 8 && if frame.extended then frame.id ≤ 0x1FFFFFFF else frame.id ≤ 0x7FF

def wait (driver : Driver) (frame : CanFrame) (c : ZephyrCan) : ZephyrCan × HandedFrame × Bool :=
  match driver.completion with
  | none       => ({ c with state := .timedOut, awaited := true }, ⟨frame, false⟩, false)
  | some error =>
    let c := { c.canTxDoneCallback error with done := false, state := .idle }
    (c, ⟨frame, error = 0⟩, error = 0)

def recover (c : ZephyrCan) : ZephyrCan :=
  if c.state = .timedOut ∧ c.done then { c with done := false, state := .idle } else c

def canSend (driver : Driver) (frame : CanFrame) (c : ZephyrCan) :
    ZephyrCan × Option HandedFrame × Bool :=
  if !inRange frame then (c, none, false)
  else
    let c := c.recover
    if c.state ≠ .idle then (c, none, false)
    else
      let c := { c with state := .waiting, error := 0, done := false }
      if driver.ret ≠ 0 then ({ c with state := .idle }, none, false)
      else
        let (c, handed, ok) := c.wait driver frame.wired
        (c, some handed, ok)

-- The frames until one is not sent. `drivers` are those of the calls from that one on.
def canSendBatch (drivers : ℕ → Driver) : ℕ → List CanFrame → ZephyrCan →
    ZephyrCan × List HandedFrame × Bool
  | _,     [],              c => (c, [], true)
  | index, frame :: frames, c =>
    let (c, handed, ok) := c.canSend (drivers index) frame
    if !ok then (c, handed.toList, false)
    else
      let (c, rest, ok) := canSendBatch drivers (index + 1) frames c
      (c, handed.toList ++ rest, ok)

def transport (drivers : ℕ → Driver) (c : ZephyrCan) : Transport (ZephyrCan × List HandedFrame) where
  canSendBatch frames :=
    let (c, handed, ok) := canSendBatch drivers 0 frames c
    ((c, handed), ok)
  canSendFd _ := ((c, []), false)

variable {driver : Driver} {c : ZephyrCan}

inductive Sends (frame : CanFrame) : Option HandedFrame × Bool → Prop
  | refused : Sends frame (none, false)
  | failed : Sends frame (some ⟨frame, false⟩, false)
  | sent : Sends frame (some ⟨frame, true⟩, true)

theorem wait_sends {frame : CanFrame} :
    Sends frame (some (c.wait driver frame).2.1, (c.wait driver frame).2.2) := by
  unfold wait
  split
  case h_1 => exact .failed
  case h_2 error _ =>
    by_cases he : error = 0
    case pos => simpa [he] using .sent
    case neg => simpa [he] using .failed

theorem canSend_sends (driver : Driver) (c : ZephyrCan) (id : UInt32) (data : Vector UInt8 8) :
    Sends (.classic id data) (c.canSend driver (.classic id data)).2 := by
  simp only [canSend, CanFrame.wired_classic]
  split
  case isTrue => exact .refused
  case isFalse =>
    split
    case isTrue => exact .refused
    case isFalse =>
      split
      case isTrue => exact .refused
      case isFalse => exact wait_sends

theorem canSendBatch_handed (drivers : ℕ → Driver) (frames : List CanFrame) (index : ℕ)
    (c : ZephyrCan) (h : ∀ frame ∈ frames, ∃ id data, frame = .classic id data) :
    Handed frames (canSendBatch drivers index frames c).2.1
      (canSendBatch drivers index frames c).2.2 := by
  induction frames generalizing index c
  case nil => exact ⟨0, [], rfl, nofun, by simp [canSendBatch]⟩
  case cons frame frames ih =>
    obtain ⟨id, data, rfl⟩ := h frame List.mem_cons_self
    have hs := canSend_sends (drivers index) c id data
    unfold canSendBatch
    generalize c.canSend (drivers index) (.classic id data) = r at hs
    obtain ⟨c', r⟩ := r
    cases hs
    case refused => exact ⟨0, [], rfl, nofun, by simp⟩
    case failed => exact ⟨0, [_], rfl, by simp, by simp⟩
    case sent =>
      have ⟨n, rest, hn, hr, hok⟩ := ih (index + 1) c' fun f hf => h f (List.mem_cons_of_mem _ hf)
      refine ⟨n + 1, rest, ?_, fun x hx => ?_, ?_⟩
      case refine_1 => simp [hn]
      case refine_2 => exact ⟨List.mem_cons_of_mem _ (hr x hx).1, (hr x hx).2⟩
      case refine_3 => simp [hok]

end ZephyrCan
end SafetyIsland.Can

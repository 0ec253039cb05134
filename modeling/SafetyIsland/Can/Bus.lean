import SafetyIsland.Can.Decoder

namespace SafetyIsland.Can

-- A command with the frames that the encoder makes of it.
structure Batch where
  msg          : ControlMsg
  mode         : OutputMode
  sequence     : UInt16
  lateral      : CanFrame
  longitudinal : CanFrame
  status       : CanFrame
  encoded      : encodeControlCommand msg mode sequence = .ok [lateral, longitudinal, status]

inductive Part
  | lateral
  | longitudinal
  | status
deriving DecidableEq

namespace Part

def index : Part → ℕ
  | lateral      => 0
  | longitudinal => 1
  | status       => 2

def id : Part → UInt32
  | lateral      => lateralId
  | longitudinal => longitudinalId
  | status       => statusId

end Part

namespace Batch

def frame (b : Batch) : Part → CanFrame
  | .lateral      => b.lateral
  | .longitudinal => b.longitudinal
  | .status       => b.status

def payload (b : Batch) (part : Part) : List UInt8 :=
  (b.frame part).data.toList

theorem frame_header (b : Batch) (part : Part) : (b.frame part).header = (part.id, 8, false) := by
  have ⟨h₁, h₂, h₃⟩ := CommandFields.encode_header b.encoded
  cases part
  case lateral      => exact h₁
  case longitudinal => exact h₂
  case status       => exact h₃

theorem payload_length (b : Batch) (part : Part) : (b.payload part).length = 8 := by
  simp [payload]

end Batch

-- The place of a frame on the bus: the number of its batch and its part there.
structure Slot where
  cycle : ℕ
  part  : Part
deriving DecidableEq

def Slot.rank (s : Slot) : ℕ :=
  3 * s.cycle + s.part.index

def slots (n : ℕ) : List Slot :=
  (List.range n).flatMap fun i => [⟨i, .lateral⟩, ⟨i, .longitudinal⟩, ⟨i, .status⟩]

theorem slots_pairwise (n : ℕ) : (slots n).Pairwise (·.rank < ·.rank) := by
  rw [slots, List.pairwise_flatMap]
  constructor
  case left => simp [Slot.rank, Part.index]
  case right =>
    refine List.pairwise_lt_range.imp fun h => ?_
    simp [Slot.rank, Part.index]
    omega

-- What happens at the receiver: a frame arrives, or the watchdog is polled.
inductive Arrival
  | frame (slot : Slot) (now : Float)
  | poll (now timeoutSec : Float)

def Arrival.slot? : Arrival → Option Slot
  | frame slot _ => some slot
  | poll ..      => none

def received (es : List Arrival) : List Slot :=
  es.filterMap Arrival.slot?

-- The frames that arrive are those of some number of batches, in order, without the lost ones.
def Delivery (es : List Arrival) : Prop :=
  ∃ n, (received es).Sublist (slots n)

theorem received_append {es₁ es₂ : List Arrival} :
    received (es₁ ++ es₂) = received es₁ ++ received es₂ :=
  List.filterMap_append

theorem Delivery.before {es es' : List Arrival} {slot : Slot} {now : Float}
    (h : Delivery (es ++ .frame slot now :: es')) : ∀ s ∈ received es, s.rank < slot.rank := by
  have ⟨n, hn⟩ := h
  have hp := (slots_pairwise n).sublist hn
  rw [received_append, List.pairwise_append] at hp
  exact fun s hs => hp.2.2 s hs slot (by simp [received, Arrival.slot?])

theorem Delivery.earlier {es es' : List Arrival} (h : Delivery (es ++ es')) : Delivery es := by
  have ⟨n, hn⟩ := h
  rw [received_append] at hn
  exact ⟨n, (List.sublist_append_left ..).trans hn⟩

section

variable {α : Type} [IntCast α] [Div α]

namespace ControlCommandDecoder

def feedFrame (d : ControlCommandDecoder α) (frame : CanFrame) (now : Float) :
    ControlCommandDecoder α × DecoderEvent :=
  d.feed frame.id frame.data.toList frame.dlc.toNat frame.extended now

def arrival (sent : ℕ → Batch) (d : ControlCommandDecoder α) :
    Arrival → ControlCommandDecoder α × DecoderEvent
  | .frame slot now      => d.feedFrame ((sent slot.cycle).frame slot.part) now
  | .poll now timeoutSec => d.pollWatchdog now timeoutSec

def arrivals (sent : ℕ → Batch) (es : List Arrival) : ControlCommandDecoder α :=
  es.foldl (fun d e => (d.arrival sent e).1) .init

variable {d : ControlCommandDecoder α} {b : Batch} {now : Float} {sent : ℕ → Batch}

theorem feedFrame_part (part : Part) :
    d.feedFrame (b.frame part) now = d.feed part.id (b.payload part) 8 false now := by
  have h := b.frame_header part
  simp only [CanFrame.header, Prod.mk.injEq] at h
  rw [feedFrame, h.1, h.2.1, h.2.2]
  rfl

theorem feedFrame_lateral : d.feedFrame (b.frame .lateral) now =
    ({ d.noteTime now with lateral := some (b.payload .lateral) }, .stored) := by
  rw [feedFrame_part, Part.id, feed_lateral (b.payload_length _)]

theorem feedFrame_longitudinal : d.feedFrame (b.frame .longitudinal) now =
    ({ d.noteTime now with longitudinal := some (b.payload .longitudinal) }, .stored) := by
  rw [feedFrame_part, Part.id, feed_longitudinal (b.payload_length _)]

theorem feedFrame_status : d.feedFrame (b.frame .status) now =
    (d.noteTime now).commit (b.payload .status) now := by
  rw [feedFrame_part, Part.id, feed_status (b.payload_length _)]

@[simp]
theorem arrivals_append {es : List Arrival} {e : Arrival} :
    (arrivals sent (es ++ [e]) : ControlCommandDecoder α) =
      ((arrivals sent es).arrival sent e).1 := by
  simp [arrivals]

end ControlCommandDecoder

end

-- A pending payload is that of the last frame of its part that arrived, and no commit arrived since
-- its batch was sent.
def Pending (sent : ℕ → Batch) (seen : List Slot) (part : Part) (held : Option (List UInt8)) :
    Prop :=
  ∀ payload ∈ held, ∃ i, IsGreatest {k | ⟨k, part⟩ ∈ seen} i ∧
    payload = (sent i).payload part ∧ ∀ k, i ≤ k → ⟨k, .status⟩ ∉ seen

namespace Pending

variable {sent : ℕ → Batch} {seen : List Slot} {part : Part} {held : Option (List UInt8)} {n : ℕ}

theorem none : Pending sent seen part none :=
  nofun

theorem arrived (h : ∀ s ∈ seen, s.rank < Slot.rank ⟨n, part⟩) (hp : part ≠ .status) :
    Pending sent (seen ++ [⟨n, part⟩]) part (some ((sent n).payload part)) := by
  intro payload hh
  refine ⟨n, ⟨by simp, fun k hk => ?_⟩, (Option.some.inj hh).symm, fun k hk hs => ?_⟩
  case refine_1 =>
    rcases List.mem_append.mp hk with hk | hk
    case inl =>
      have := h _ hk
      simp only [Slot.rank] at this
      omega
    case inr => simp_all
  case refine_2 =>
    rcases List.mem_append.mp hs with hs | hs
    case inl =>
      have := h _ hs
      cases part <;> simp [Slot.rank, Part.index] at this hp <;> omega
    case inr => simp_all

theorem other {part' : Part} (h : Pending sent seen part held) (hp : part' ≠ part)
    (hs : part' ≠ .status) : Pending sent (seen ++ [⟨n, part'⟩]) part held := by
  intro payload hh
  have ⟨i, hg, he, hn⟩ := h payload hh
  exists i
  simpa [hp.symm, hs.symm] using ⟨hg, he, hn⟩

end Pending

section

variable {α : Type} [IntCast α] [Div α]

namespace ControlCommandDecoder

variable {sent : ℕ → Batch} {es : List Arrival}

-- Both pending payloads are accounted for by the frames that arrived.
structure Assembles (d : ControlCommandDecoder α) (sent : ℕ → Batch) (seen : List Slot) : Prop where
  lateral      : Pending sent seen .lateral d.lateral
  longitudinal : Pending sent seen .longitudinal d.longitudinal

variable {d : ControlCommandDecoder α} {seen : List Slot} {now timeoutSec : Float} {n : ℕ}

omit [IntCast α] [Div α] in
theorem Assembles.poll (h : d.Assembles sent seen) :
    (d.pollWatchdog now timeoutSec).1.Assembles sent seen := by
  have hp : Polls d now timeoutSec _ := d.polls
  generalize d.pollWatchdog now timeoutSec = r at hp ⊢
  cases hp
  case reports => exact ⟨h.lateral, h.longitudinal⟩
  case stops   => exact ⟨.none, .none⟩

theorem Assembles.lateral_arrived (h : d.Assembles sent seen)
    (hb : ∀ s ∈ seen, s.rank < Slot.rank ⟨n, .lateral⟩) :
    (d.feedFrame ((sent n).frame .lateral) now).1.Assembles sent (seen ++ [⟨n, .lateral⟩]) := by
  rw [feedFrame_lateral]
  exact ⟨.arrived hb nofun, h.longitudinal.other nofun nofun⟩

theorem Assembles.longitudinal_arrived (h : d.Assembles sent seen)
    (hb : ∀ s ∈ seen, s.rank < Slot.rank ⟨n, .longitudinal⟩) :
    (d.feedFrame ((sent n).frame .longitudinal) now).1.Assembles sent
      (seen ++ [⟨n, .longitudinal⟩]) := by
  rw [feedFrame_longitudinal]
  exact ⟨h.lateral.other nofun nofun, .arrived hb nofun⟩

theorem Assembles.status_arrived :
    (d.feedFrame ((sent n).frame .status) now).1.Assembles sent (seen ++ [⟨n, .status⟩]) := by
  rw [feedFrame_status]
  have hc : Commits _ ((sent n).payload .status) now _ := (d.noteTime now).commits
  generalize (d.noteTime now).commit _ now = r at hc ⊢
  cases hc <;> exact ⟨.none, .none⟩

theorem arrivals_assembles (h : Delivery es) :
    (arrivals sent es : ControlCommandDecoder α).Assembles sent (received es) := by
  induction es using List.reverseRecOn
  case nil => exact ⟨.none, .none⟩
  case append_singleton es e ih =>
    have hd := ih h.earlier
    rw [arrivals_append, received_append]
    cases e
    case poll =>
      have hr {now timeoutSec : Float} : received [.poll now timeoutSec] = [] := rfl
      rw [hr, List.append_nil]
      exact hd.poll
    case frame slot now =>
      obtain ⟨n, part⟩ := slot
      have hb := h.before
      cases part
      case lateral      => exact hd.lateral_arrived hb
      case longitudinal => exact hd.longitudinal_arrived hb
      case status       => exact .status_arrived

-- An accepted command takes its status from the batch of its commit, and its other parts from the
-- last frames of their kind that arrived, with no commit between.
theorem accepted_parts {slot : Slot} {es' : List Arrival}
    (h : Delivery (es ++ .frame slot now :: es'))
    (ha : ((arrivals sent es : ControlCommandDecoder α).arrival sent (.frame slot now)).2 =
      .accepted) :
    ∃ n i j, slot = ⟨n, .status⟩ ∧ i ≤ n ∧ j ≤ n ∧
      (arrivals sent (es ++ [.frame slot now]) : ControlCommandDecoder α).command =
        .assemble ((sent i).payload .lateral) ((sent j).payload .longitudinal)
          ((sent n).payload .status) ∧
      IsGreatest {k | ⟨k, .lateral⟩ ∈ received es} i ∧
      IsGreatest {k | ⟨k, .longitudinal⟩ ∈ received es} j ∧
      (i = n ↔ ⟨n, .lateral⟩ ∈ received es) ∧ (j = n ↔ ⟨n, .longitudinal⟩ ∈ received es) ∧
      ∀ k, min i j ≤ k → ⟨k, .status⟩ ∉ received es := by
  have hp := (arrivals_assembles h.earlier : (arrivals sent es : ControlCommandDecoder α).Assembles ..)
  have hb := h.before
  rw [arrivals_append]
  obtain ⟨n, part⟩ := slot
  cases part
  case lateral =>
    simp only [arrival] at ha
    rw [feedFrame_lateral] at ha
    cases ha
  case longitudinal =>
    simp only [arrival] at ha
    rw [feedFrame_longitudinal] at ha
    cases ha
  case status =>
    simp only [arrival] at ha ⊢
    rw [feedFrame_status] at ha ⊢
    generalize hd : (arrivals sent es : ControlCommandDecoder α).noteTime now = d at ha ⊢
    have hc : Commits d ((sent n).payload .status) now _ := d.commits
    generalize d.commit _ now = r at hc ha ⊢
    cases hc
    case rejects => cases ha
    case accepts lateral longitudinal hl hg _ =>
      subst hd
      have ⟨i, hi, hpi, hni⟩ := hp.lateral lateral hl
      have ⟨j, hj, hpj, hnj⟩ := hp.longitudinal longitudinal hg
      have hin : i ≤ n := by
        have := hb _ hi.1
        simp only [Slot.rank, Part.index] at this
        omega
      have hjn : j ≤ n := by
        have := hb _ hj.1
        simp only [Slot.rank, Part.index] at this
        omega
      refine ⟨n, i, j, rfl, hin, hjn, by rw [← hpi, ← hpj]; rfl, hi, hj, ⟨?_, ?_⟩, ⟨?_, ?_⟩, ?_⟩
      case refine_1 => exact fun h => h ▸ hi.1
      case refine_2 => exact fun h => hin.antisymm (hi.2 h)
      case refine_3 => exact fun h => h ▸ hj.1
      case refine_4 => exact fun h => hjn.antisymm (hj.2 h)
      case refine_5 =>
        intro k hk
        rcases min_le_iff.mp hk with hk | hk
        case inl => exact hni k hk
        case inr => exact hnj k hk

end ControlCommandDecoder
end

namespace Sample

def command (angle velocity : Float32) : ControlMsg :=
  { (default : ControlMsg) with
    lateral      := { (default : LateralMsg) with steeringTireAngle := angle }
    longitudinal := { (default : LongitudinalMsg) with velocity := velocity } }

def first : Batch where
  msg          := command 0.25 1
  mode         := .canOnly
  sequence     := 0
  lateral      := (CanFrame.empty 0x100).writeI32Le 0 250000
  longitudinal := (CanFrame.empty 0x101).writeI32Le 0 1000
  status       := (CanFrame.empty 0x102).write 0 1 |>.write 1 8
  encoded      := by decide +kernel

def second : Batch where
  msg          := command 0.5 2
  mode         := .canOnly
  sequence     := 1
  lateral      := (CanFrame.empty 0x100).writeI32Le 0 500000
  longitudinal := (CanFrame.empty 0x101).writeI32Le 0 2000
  status       := (CanFrame.empty 0x102).write 0 1 |>.write 1 8 |>.writeU16Le 2 1
  encoded      := by decide +kernel

def sent (n : ℕ) : Batch :=
  if n = 0 then first else second

-- The first commit is lost, and with it the steering frame of the second batch.
def arrived : List Arrival :=
  [.frame ⟨0, .lateral⟩ 1, .frame ⟨0, .longitudinal⟩ 1, .frame ⟨1, .longitudinal⟩ 1.15]

theorem delivery : Delivery (arrived ++ [.frame ⟨1, .status⟩ 1.15]) :=
  ⟨2, by decide⟩

end Sample

open Sample ControlCommandDecoder in
theorem accepted_parts_torn :
    ∃ n i j, Slot.mk 1 .status = ⟨n, .status⟩ ∧ i ≤ n ∧ j ≤ n ∧
      (arrivals sent (arrived ++ [.frame ⟨1, .status⟩ 1.15]) : ControlCommandDecoder Float).command =
        .assemble ((sent i).payload .lateral) ((sent j).payload .longitudinal)
          ((sent n).payload .status) ∧
      IsGreatest {k | ⟨k, .lateral⟩ ∈ received arrived} i ∧
      IsGreatest {k | ⟨k, .longitudinal⟩ ∈ received arrived} j ∧
      (i = n ↔ ⟨n, .lateral⟩ ∈ received arrived) ∧
      (j = n ↔ ⟨n, .longitudinal⟩ ∈ received arrived) ∧
      ∀ k, min i j ≤ k → ⟨k, .status⟩ ∉ received arrived :=
  accepted_parts delivery (by decide +kernel)

-- Every accepted command is that of one batch.
def NoTorn : Prop :=
  ∀ (sent : ℕ → Batch) (es es' : List Arrival) (slot : Slot) (now : Float),
    Delivery (es ++ .frame slot now :: es') →
    ((ControlCommandDecoder.arrivals sent es : ControlCommandDecoder Float).arrival sent
      (.frame slot now)).2 = .accepted →
    ∃ n, (ControlCommandDecoder.arrivals sent (es ++ [.frame slot now]) :
        ControlCommandDecoder Float).command =
      .assemble ((sent n).payload .lateral) ((sent n).payload .longitudinal)
        ((sent n).payload .status)

open Sample in
theorem noTorn_fails : ¬NoTorn := by
  intro h
  have ⟨n, hn⟩ := h sent arrived [] ⟨1, .status⟩ 1.15 delivery (by decide +kernel)
  cases n
  case zero => exact absurd hn (by decide +kernel)
  case succ n =>
    rw [show sent (n + 1) = second from rfl] at hn
    exact absurd hn (by decide +kernel)

end SafetyIsland.Can

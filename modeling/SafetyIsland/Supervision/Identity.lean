import SafetyIsland.Messages

namespace SafetyIsland

abbrev SourceStamp := TimeMsg

namespace SourceStamp

def valid (s : SourceStamp) : Bool :=
  s.sec ≥ 0 && s.nanosec < 1000000000

def later (a b : SourceStamp) : Bool :=
  a.sec > b.sec || (a.sec == b.sec && a.nanosec > b.nanosec)

end SourceStamp

inductive CandidateCheck
  | accept
  | duplicate
  | regression
  | invalidStamp
deriving DecidableEq

-- The retired sessions are a ring of 16 entries of which `retiredCount` are filled.
structure VpCandidateIdentity where
  seen            : Bool
  session         : UInt32
  cycle           : UInt64
  stamp           : SourceStamp
  retiredSessions : Vector UInt32 16
  retiredCount    : ℕ
  retiredNext     : Fin 16
deriving DecidableEq

namespace VpCandidateIdentity

def init : VpCandidateIdentity where
  seen            := false
  session         := 0
  cycle           := 0
  stamp           := default
  retiredSessions := .replicate 16 0
  retiredCount    := 0
  retiredNext     := 0

def retired (i : VpCandidateIdentity) (session : UInt32) : Bool :=
  (i.retiredSessions.toList.take i.retiredCount).contains session

def check (i : VpCandidateIdentity) (session : UInt32) (cycle : UInt64) (stamp : SourceStamp) :
    CandidateCheck :=
  if !stamp.valid then .invalidStamp
  else if !i.seen then .accept
  else if i.retired session then .regression
  else if session = i.session ∧ cycle ≤ i.cycle then
    if cycle = i.cycle ∧ stamp = i.stamp then .duplicate else .regression
  else if stamp = i.stamp then .duplicate
  else if stamp.later i.stamp then .accept
  else .regression

def note (i : VpCandidateIdentity) (session : UInt32) (cycle : UInt64) (stamp : SourceStamp) :
    VpCandidateIdentity :=
  let retires := i.seen && session ≠ i.session
  { seen            := true
    session         := session
    cycle           := cycle
    stamp           := stamp
    retiredSessions :=
      if retires then i.retiredSessions.set i.retiredNext i.session else i.retiredSessions
    retiredCount    := if retires ∧ i.retiredCount < 16 then i.retiredCount + 1 else i.retiredCount
    retiredNext     := if retires then i.retiredNext + 1 else i.retiredNext }

end VpCandidateIdentity

structure AutowareTrajectoryIdentity where
  seen  : Bool
  stamp : SourceStamp
deriving DecidableEq

namespace AutowareTrajectoryIdentity

def init : AutowareTrajectoryIdentity where
  seen  := false
  stamp := default

def check (i : AutowareTrajectoryIdentity) (stamp : SourceStamp) : CandidateCheck :=
  if !stamp.valid then .invalidStamp
  else if !i.seen || stamp.later i.stamp then .accept
  else if stamp = i.stamp then .duplicate
  else .regression

def note (stamp : SourceStamp) : AutowareTrajectoryIdentity where
  seen  := true
  stamp := stamp

end AutowareTrajectoryIdentity
section

variable {stamp : SourceStamp} {session : UInt32} {cycle : UInt64}

theorem SourceStamp.later_irrefl (s : SourceStamp) : s.later s = false := by
  simp [SourceStamp.later]

theorem AutowareTrajectoryIdentity.note_ne {i : AutowareTrajectoryIdentity}
    (h : i.check stamp = .accept) : note stamp ≠ i := by
  rintro rfl
  unfold check at h
  split_ifs at h with hv hl
  simp [note, SourceStamp.later_irrefl] at hl

theorem VpCandidateIdentity.later_of_accept {i : VpCandidateIdentity} (hs : i.seen = true)
    (h : i.check session cycle stamp = .accept) : stamp.later i.stamp = true := by
  unfold check at h
  split_ifs at h with _ hn _ _ _ _ hl
  case pos => simp [hs] at hn
  case pos => exact hl

theorem VpCandidateIdentity.note_ne {i : VpCandidateIdentity}
    (h : i.check session cycle stamp = .accept) : i.note session cycle stamp ≠ i := by
  intro he
  have hs : i.seen = true := he ▸ rfl
  have hl := later_of_accept hs h
  rw [← he] at hl
  simp [note, SourceStamp.later_irrefl] at hl

end

end SafetyIsland

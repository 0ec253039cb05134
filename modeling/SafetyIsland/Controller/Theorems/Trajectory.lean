import SafetyIsland.Controller.Cycle
import SafetyIsland.Mpc.TrajectoryBuffer

namespace SafetyIsland

open Ieee Mpc Transition

namespace SourceStamp

variable {a b c : SourceStamp}

theorem later_iff : a.later b = true ↔ b.sec.toInt < a.sec.toInt ∨
    a.sec.toInt = b.sec.toInt ∧ b.nanosec.toNat < a.nanosec.toNat := by
  simp [later, Int32.lt_iff_toInt_lt, UInt32.lt_iff_toNat_lt, Int32.toInt_inj]

theorem later_trans (h₁ : a.later b = true) (h₂ : b.later c = true) : a.later c = true := by
  rw [later_iff] at h₁ h₂ ⊢
  omega

theorem eq_or_later (h : ¬b.later a = true) : a = b ∨ a.later b = true := by
  rw [later_iff] at h ⊢
  by_cases he : a.sec.toInt = b.sec.toInt ∧ a.nanosec.toNat = b.nanosec.toNat
  · left
    obtain ⟨⟩ := a
    obtain ⟨⟩ := b
    simpa [Int32.toInt_inj, UInt32.toNat_inj] using he
  · right
    omega

theorem valid_iff : a.valid = true ↔ 0 ≤ a.sec.toInt ∧ a.nanosec.toNat < 1000000000 := by
  simp [valid, Int32.le_iff_toInt_le, UInt32.lt_iff_toNat_lt]

theorem toDouble_le_of_later (ha : a.valid = true) (hb : b.valid = true)
    (h : a.later b = true) : Clock.toDouble b ≤ Clock.toDouble a := by
  rw [valid_iff] at ha hb
  rw [later_iff] at h
  refine Clock.toDouble_mono hb.1 ?_
  rw [Clock.nanoPerSec]
  omega

end SourceStamp

theorem AutowareTrajectoryIdentity.valid_of_accept {i : AutowareTrajectoryIdentity}
    {stamp : SourceStamp} (h : i.check stamp = .accept) : stamp.valid = true := by
  unfold check at h
  split_ifs at h with hv
  all_goals simpa using hv

theorem AutowareTrajectoryIdentity.later_of_accept {i : AutowareTrajectoryIdentity}
    {stamp : SourceStamp} (hs : i.seen = true) (h : i.check stamp = .accept) :
    stamp.later i.stamp = true := by
  unfold check at h
  split_ifs at h with _ hl
  simpa [hs] using hl

theorem VpCandidateIdentity.valid_of_accept {i : VpCandidateIdentity} {session : UInt32}
    {cycle : UInt64} {stamp : SourceStamp} (h : i.check session cycle stamp = .accept) :
    stamp.valid = true := by
  unfold check at h
  split_ifs at h with hv
  all_goals simpa using hv

-- The identity of the selected source is never behind the trajectory that is held.
structure Inputs.Traced (cfg : Config) (i : Inputs) : Prop where
  valid    : i.hasTrajectory = true → SourceStamp.valid i.currentTrajectory.stamp = true
  autoware : i.hasTrajectory = true → cfg.startup.trajectorySource = .autoware →
    i.autowareTrajectoryIdentity.seen = true ∧
    ¬SourceStamp.later i.currentTrajectory.stamp i.autowareTrajectoryIdentity.stamp = true
  vp       : i.hasTrajectory = true → cfg.startup.trajectorySource = .vp →
    i.vpCandidateIdentity.seen = true ∧
    ¬SourceStamp.later i.currentTrajectory.stamp i.vpCandidateIdentity.stamp = true

-- The trajectory is the same as before, or one that is later than it.
inductive Inputs.Progress (i i' : Inputs) : Prop
  | same (hh : i'.hasTrajectory = i.hasTrajectory)
    (ht : i'.currentTrajectory = i.currentTrajectory)
  | later (hh : i'.hasTrajectory = true)
    (ht : i.hasTrajectory = true →
      SourceStamp.later i'.currentTrajectory.stamp i.currentTrajectory.stamp = true)

theorem SourceStamp.later_of_later_of_not {a b c : SourceStamp} (h : a.later b = true)
    (hn : ¬c.later b = true) : a.later c = true := by
  rw [later_iff] at h hn ⊢
  omega

theorem Inputs.Traced.init {cfg : Config} : Controller.init.Traced cfg where
  valid    := nofun
  autoware := nofun
  vp       := nofun

namespace Controller

variable [Libm Float] {cfg : Config} {c c' : Controller} {clock : CallbackClock}

theorem Accepts.traced {msg : Message} (ht : c.Traced cfg) (h : Accepts cfg c clock msg c') :
    c'.Traced cfg ∧ c.Progress c'.toInputs := by
  cases h
  case trajectory stamp _ ha =>
    have hvp : cfg.startup.trajectorySource ≠ .vp := by simp [ha.selected.2]
    refine ⟨⟨fun _ => AutowareTrajectoryIdentity.valid_of_accept ha.identity,
      fun _ _ => ⟨rfl, ?_⟩, fun _ h => absurd h hvp⟩, ?_⟩
    · exact fun h => Bool.false_ne_true ((SourceStamp.later_irrefl _).symm.trans h)
    · refine .later rfl fun hh => ?_
      obtain ⟨hs, hn⟩ := ht.autoware hh ha.selected.2
      exact SourceStamp.later_of_later_of_not
        (AutowareTrajectoryIdentity.later_of_accept hs ha.identity) hn
  case reference ha =>
    have hau : cfg.startup.trajectorySource ≠ .autoware := by simp [ha.selected.2]
    refine ⟨⟨fun _ => VpCandidateIdentity.valid_of_accept ha.identity,
      fun _ h => absurd h hau, fun _ _ => ⟨rfl, ?_⟩⟩, ?_⟩
    · exact fun h => Bool.false_ne_true ((SourceStamp.later_irrefl _).symm.trans h)
    · refine .later rfl fun hh => ?_
      obtain ⟨hs, hn⟩ := ht.vp hh ha.selected.2
      exact SourceStamp.later_of_later_of_not
        (VpCandidateIdentity.later_of_accept hs ha.identity) hn
  case command ha =>
    refine ⟨⟨ht.valid, ht.autoware, fun hh hsrc => ⟨rfl, fun h => ?_⟩⟩, .same rfl rfl⟩
    obtain ⟨hs, hn⟩ := ht.vp hh hsrc
    exact hn (SourceStamp.later_trans h (VpCandidateIdentity.later_of_accept hs ha.identity))
  all_goals exact ⟨{ ht with }, .same rfl rfl⟩

end Controller
section

variable [Libm Float] {cfg : Config} {d : Duration}

theorem System.step_traced {s s' : System} {e : Event} (h : s.step cfg e = some s')
    (ht : s.controller.Traced cfg) :
    s'.controller.Traced cfg ∧ s.controller.Progress s'.controller.toInputs := by
  cases e
  case receive msg clock =>
    cases h
    dsimp only
    unfold Controller.receive
    split
    case h_1 h => exact (Controller.ingest_accepts h).traced ht
    case h_2 => exact ⟨by rwa [Controller.latchFault_toInputs], .same (by simp) (by simp)⟩
  case siRx =>
    cases h
    exact ⟨ht, .same rfl rfl⟩
  case tick =>
    obtain ⟨c, hc, h⟩ := Option.bind_eq_some_iff.mp h
    cases h
    have hi := (Controller.callbackTimerControl_ticks hc).toInputs_eq
    dsimp only
    exact ⟨by rwa [hi], .same (by rw [hi]) (by rw [hi])⟩

-- The controller together with the trajectory history of its lateral controller.
structure Follower where
  system  : System
  history : TrajectoryHistory

inductive FollowerEvent
  | system (e : Event)
  | follow

namespace Follower

def init : Follower where
  system  := .init
  history := .init

def isReady (input : InputData) : Bool :=
  3 ≤ input.currentTrajectory.points.length && isValidTrajectory input.currentTrajectory

def input (s : Follower) : Option InputData :=
  s.system.controller.createInputData.filter isReady

def step (cfg : Config) (d : Duration) (s : Follower) : FollowerEvent → Option Follower
  | .system e => (s.system.step cfg e).map fun system => { s with system := system }
  | .follow   =>
    match s.input with
    | none       => some s
    | some input => (s.history.setTrajectory d input.currentTrajectory).map fun history =>
      { s with history := history }

-- The buffer holds no trajectory that is later than the one of the controller.
structure Behind (cfg : Config) (d : Duration) (s : Follower) : Prop where
  traced        : s.system.controller.Traced cfg
  chronological : s.history.Chronological d
  valid         : ∀ m ∈ s.history.trajectoryBuffer, SourceStamp.valid m.stamp = true
  increasing    : s.history.trajectoryBuffer.Pairwise fun a c =>
    SourceStamp.later c.stamp a.stamp = true
  held          : s.history.trajectoryBuffer ≠ [] → s.system.controller.hasTrajectory = true
  notLater      : ∀ m ∈ s.history.trajectoryBuffer,
    ¬SourceStamp.later m.stamp s.system.controller.currentTrajectory.stamp = true

omit [Libm Float] in
theorem Behind.init : init.Behind cfg d where
  traced        := .init
  chronological := .init d
  valid         := by simp [Follower.init, TrajectoryHistory.init]
  increasing    := .nil
  held          := by simp [Follower.init, TrajectoryHistory.init]
  notLater      := by simp [Follower.init, TrajectoryHistory.init]

variable {s s' : Follower} {input : InputData}

theorem Behind.system {e : Event} (h : s.Behind cfg d)
    (hs : s.step cfg d (.system e) = some s') : s'.Behind cfg d := by
  obtain ⟨system, he, rfl⟩ := Option.map_eq_some_iff.mp hs
  obtain ⟨ht, hp⟩ := System.step_traced he h.traced
  cases hp
  case same hh hc => exact { h with
    traced   := ht
    held hb  := hh.trans (h.held hb)
    notLater := by rw [hc]; exact h.notLater }
  case later hh hl => exact { h with
    traced          := ht
    held _          := hh
    notLater m hm hx := by
      have hl := hl (h.held (List.ne_nil_of_mem hm))
      exact h.notLater m hm (SourceStamp.later_trans hx hl) }

omit [Libm Float] in
theorem input_eq (h : s.input = some input) :
    s.system.controller.hasTrajectory = true ∧
    input.currentTrajectory = s.system.controller.currentTrajectory ∧
    3 ≤ input.currentTrajectory.points.length ∧
    isValidTrajectory input.currentTrajectory = true := by
  rw [Follower.input, Option.filter_eq_some_iff] at h
  obtain ⟨h, hr⟩ := h
  rw [Inputs.createInputData] at h
  split_ifs at h with hp
  cases h
  rw [Inputs.processData] at hp
  simp only [isReady, Bool.and_eq_true, decide_eq_true_eq] at hr
  simp at hp
  exact ⟨hp.1.1.2, rfl, hr⟩

omit [Libm Float] in
theorem Behind.fresh (h : s.Behind cfg d)
    (hn : ¬∃ back ∈ s.history.trajectoryBuffer.getLast?,
      back.stamp = s.system.controller.currentTrajectory.stamp) :
    ∀ m ∈ s.history.trajectoryBuffer,
      SourceStamp.later s.system.controller.currentTrajectory.stamp m.stamp = true := by
  intro m hm
  rcases List.eq_nil_or_concat' s.history.trajectoryBuffer with hb | ⟨b, back, hb⟩
  · simp [hb] at hm
  · have hback : back ∈ s.history.trajectoryBuffer := by simp [hb]
    have hl := (SourceStamp.eq_or_later (h.notLater back hback)).resolve_left fun he =>
      hn ⟨back, by simp [hb], he.symm⟩
    rw [hb] at hm
    rcases List.mem_append.mp hm with hm | hm
    · have hi := h.increasing
      rw [hb] at hi
      exact SourceStamp.later_trans hl ((List.pairwise_append.mp hi).2.2 m hm back (by simp))
    · rwa [List.mem_singleton.mp hm]

omit [Libm Float] in
theorem Behind.admissible (h : s.Behind cfg d)
    (ht : s.system.controller.hasTrajectory = true) :
    s.history.Admissible d s.system.controller.currentTrajectory := by
  by_cases hn : ∃ back ∈ s.history.trajectoryBuffer.getLast?,
      back.stamp = s.system.controller.currentTrajectory.stamp
  case pos => exact .inl hn
  case neg =>
    have hf := h.fresh hn
    refine .inr (.inl ⟨fun newest hm => ?_, fun hm => ?_⟩)
    · have hm := List.mem_of_getLast? hm
      exact SourceStamp.toDouble_le_of_later (h.traced.valid ht) (h.valid newest hm) (hf newest hm)
    · obtain ⟨m, hm, he⟩ := List.mem_map.mp hm
      have hl := hf m hm
      rw [he, SourceStamp.later_irrefl] at hl
      cases hl

theorem step_follow (hi : s.input = some input) :
    s.step cfg d .follow = (s.history.receive d s.system.controller.currentTrajectory).map
      fun history => { s with history := history } := by
  obtain ⟨-, hc, hp, hv⟩ := input_eq hi
  rw [step, hi]
  dsimp only
  rw [TrajectoryHistory.setTrajectory, if_neg (by omega), if_neg (by simp [hv]), hc]
  rfl

theorem Behind.follow (h : s.Behind cfg d) (hi : s.input = some input) :
    ∃ history, s.step cfg d .follow = some { s with history := history } ∧
      Behind cfg d { s with history := history } ∧
      history.currentTrajectory = s.system.controller.currentTrajectory ∧
      ∃ back ∈ history.trajectoryBuffer.getLast?, back.stamp = history.currentTrajectory.stamp := by
  obtain ⟨ht, -⟩ := input_eq hi
  have hr := TrajectoryHistory.receive_eq h.chronological.ready d
    s.system.controller.currentTrajectory
  have hch := h.chronological.receive (h.admissible ht) hr
  refine ⟨_, by rw [step_follow hi, hr, Option.map_some], ?_⟩
  split_ifs at hch ⊢ with hn
  case pos => exact ⟨{ h with chronological := hch }, rfl, hn⟩
  case neg =>
    have hf := h.fresh hn
    have hsub := List.dropWhile_suffix (pops d s.system.controller.currentTrajectory)
      (l := s.history.trajectoryBuffer ++ [s.system.controller.currentTrajectory])
    have hmem : ∀ m ∈ (s.history.trajectoryBuffer ++ [s.system.controller.currentTrajectory]),
        m ∈ s.history.trajectoryBuffer ∨ m = s.system.controller.currentTrajectory := by simp
    refine ⟨{ h with
      chronological := hch
      valid m hm    := ?_
      increasing    := ?_
      held _        := ht
      notLater m hm := ?_ }, rfl, _, ?_, rfl⟩
    · rcases hmem m (hsub.subset hm) with hm | rfl
      · exact h.valid m hm
      · exact h.traced.valid ht
    · refine List.Pairwise.sublist hsub.sublist ?_
      simpa [List.pairwise_append, h.increasing] using hf
    · rcases hmem m (hsub.subset hm) with hm | rfl
      · exact h.notLater m hm
      · exact fun h => Bool.false_ne_true ((SourceStamp.later_irrefl _).symm.trans h)
    · rw [TrajectoryHistory.dropWhile_snoc, List.getLast?_concat]
      rfl

-- What the buffer holds once the lateral controller has run.
structure Recorded (d : Duration) (s : Follower) : Prop where
  increasing : s.history.trajectoryBuffer.Pairwise fun a c =>
    SourceStamp.later c.stamp a.stamp = true
  newest     : ∃ back ∈ s.history.trajectoryBuffer.getLast?,
    back.stamp = s.system.controller.currentTrajectory.stamp
  window     : ∀ back ∈ s.history.trajectoryBuffer.getLast?, ∀ m ∈ s.history.trajectoryBuffer,
    0.0 ≤ seconds back - seconds m ∧ seconds back - seconds m < d.seconds

theorem Behind.follow_unchanged (h : s.Behind cfg d)
    (hn : ∃ back ∈ s.history.trajectoryBuffer.getLast?,
      back.stamp = s.system.controller.currentTrajectory.stamp)
    (hs : s.step cfg d .follow = some s') :
    s'.history.trajectoryBuffer = s.history.trajectoryBuffer := by
  rcases hi : s.input with - | input
  · rw [step, hi] at hs
    cases hs
    rfl
  · rw [step_follow hi, TrajectoryHistory.receive_eq h.chronological.ready, if_pos hn] at hs
    cases hs
    rfl

theorem Behind.step {e : FollowerEvent} (h : s.Behind cfg d) (hs : s.step cfg d e = some s') :
    s'.Behind cfg d := by
  cases e
  case system => exact h.system hs
  case follow =>
    rcases hi : s.input with - | input
    · rw [Follower.step, hi] at hs
      cases hs
      exact h
    · obtain ⟨history, hf, hb, -⟩ := h.follow hi
      cases hf.symm.trans hs
      exact hb

theorem run_behind {es : List FollowerEvent} (hr : Run (step cfg d) init es s) : s.Behind cfg d :=
  hr.invariant (fun hs _ h => h.step hs) .init

-- Whenever the lateral controller runs, the buffer holds strictly increasing stamps inside the window
-- that ends at the trajectory of the controller, and it stays as it is until that one changes.
theorem history_recorded {es : List FollowerEvent} (hr : Run (step cfg d) init es s)
    (hi : s.input.isSome = true) :
    ∃ s', s.step cfg d .follow = some s' ∧ s'.Recorded d ∧
      ∀ es' s'', Along (step cfg d) (fun _ _ s₁ => s₁.system.controller.currentTrajectory =
          s'.system.controller.currentTrajectory) s' es' s'' →
        s''.history.trajectoryBuffer = s'.history.trajectoryBuffer := by
  obtain ⟨input, hi⟩ := Option.isSome_iff_exists.mp hi
  obtain ⟨history, hf, hb, hc, hn⟩ := (run_behind hr).follow hi
  rw [hc] at hn
  refine ⟨_, hf, ⟨hb.increasing, hn, fun back hback m hm => ?_⟩, fun es' s'' ha => ?_⟩
  · exact pops_eq_false_iff.mp (hb.chronological.window back hback m hm)
  · refine (ha.invariant (P := fun s₁ => s₁.Behind cfg d ∧
      s₁.system.controller.currentTrajectory = s.system.controller.currentTrajectory ∧
      s₁.history.trajectoryBuffer = history.trajectoryBuffer) (fun {s₁ e s₂} hs hq h => ?_)
      ⟨hb, rfl, rfl⟩).2.2
    obtain ⟨h, hcur, hbuf⟩ := h
    refine ⟨h.step hs, hq, ?_⟩
    cases e
    case system =>
      obtain ⟨system, he, rfl⟩ := Option.map_eq_some_iff.mp hs
      exact hbuf
    case follow => exact (h.follow_unchanged (by rwa [hbuf, hcur]) hs).trans hbuf

end Follower
end

namespace Sample

def trajectory (n : Fin 8) : Message :=
  let point : TrajectoryPointMsg :=
    { timeFromStart := default, pose := ⟨⟨0, 0, 0⟩, ⟨0, 0, 0, 1⟩⟩, longitudinalVelocityMps := 5,
      lateralVelocityMps := 0, accelerationMps2 := 0, headingRateRps := 0, frontWheelAngleRad := 0,
      rearWheelAngleRad := 0 }
  .trajectory (some ⟨stamp n, ⟨3, some [point, point, point], by simp⟩⟩)

-- The follower on the trajectory of the second `m`, after it has run on the one of the second `n`.
def followed (n m : Fin 8) : List FollowerEvent :=
  (feedback n ++ [message n (trajectory n)]).map .system ++
    [.follow, .system (message m (trajectory m))]

def follower (n m : Fin 8) : Follower :=
  Transition.after (Follower.step (config .siControl .autoware) newTrajDurationTime) .init
    (followed n m)

end Sample

open Sample in
theorem Follower.history_recorded_second :
    ∃ s', (follower 1 2).step (config .siControl .autoware) newTrajDurationTime .follow = some s' ∧
      s'.Recorded newTrajDurationTime ∧
      ∀ es' s'', Along (step (config .siControl .autoware) newTrajDurationTime)
          (fun _ _ s₁ => s₁.system.controller.currentTrajectory =
            s'.system.controller.currentTrajectory) s' es' s'' →
        s''.history.trajectoryBuffer = s'.history.trajectoryBuffer :=
  Follower.history_recorded (run_after (by decide +kernel)) (by decide +kernel)

end SafetyIsland

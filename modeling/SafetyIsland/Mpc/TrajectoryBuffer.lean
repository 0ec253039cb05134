import SafetyIsland.Stamp
import SafetyIsland.Transition.Run

namespace SafetyIsland.Mpc

open Ieee Transition

namespace TrajectoryBufferPolicy

def isDuplicateStamp (back sample : TimeMsg) : Bool :=
  back.sec == sample.sec && back.nanosec == sample.nanosec

def shouldPopFront (backMinusFrontSec durationSec : Float) : Bool :=
  if backMinusFrontSec < 0.0 then true else decide (backMinusFrontSec ≥ durationSec)

end TrajectoryBufferPolicy

open TrajectoryBufferPolicy

-- `m_new_traj_duration_time`, which is declared as 1 s.
structure Duration where
  seconds : Float
  pos     : 0 < seconds

def newTrajDurationTime : Duration :=
  ⟨1.0, by decide +kernel⟩

-- The members of the lateral controller that `setTrajectory` writes.
structure TrajectoryHistory where
  currentTrajectory          : TrajectoryMsg
  trajectoryBuffer           : List TrajectoryMsg
  hasReceivedFirstTrajectory : Bool
deriving DecidableEq

-- The loop that trims the front, which has no result if it reads an empty buffer.
def trim (d : Duration) (received : Bool) : List TrajectoryMsg → Option (List TrajectoryMsg)
  | []            => none
  | front :: rest =>
    let back := rest.getLastD front
    let timeDiff := Clock.toDouble back.stamp - Clock.toDouble front.stamp
    let firstTrajectoryDurationTime := 5.0
    let durationTime := if received then d.seconds else firstTrajectoryDurationTime
    if !shouldPopFront timeDiff durationTime then some (front :: rest) else trim d received rest

def isValidTrajectory (msg : TrajectoryMsg) : Bool :=
  msg.points.all fun p =>
    p.pose.position.x.isFinite && p.pose.position.y.isFinite &&
    p.pose.orientation.w.isFinite && p.pose.orientation.x.isFinite &&
    p.pose.orientation.y.isFinite && p.pose.orientation.z.isFinite &&
    p.longitudinalVelocityMps.isFinite && p.lateralVelocityMps.isFinite &&
    p.headingRateRps.isFinite && p.frontWheelAngleRad.isFinite && p.rearWheelAngleRad.isFinite

namespace TrajectoryHistory

def init : TrajectoryHistory where
  currentTrajectory          := default
  trajectoryBuffer           := []
  hasReceivedFirstTrajectory := false

def updateBuffer (d : Duration) (s : TrajectoryHistory) : Option TrajectoryHistory :=
  let alreadyBuffered := s.trajectoryBuffer.getLast?.any fun back =>
    isDuplicateStamp back.stamp s.currentTrajectory.stamp
  if alreadyBuffered then some s
  else (trim d s.hasReceivedFirstTrajectory (s.trajectoryBuffer ++ [s.currentTrajectory])).map
    fun buffer => { s with trajectoryBuffer := buffer, hasReceivedFirstTrajectory := true }

def setTrajectory (d : Duration) (s : TrajectoryHistory) (msg : TrajectoryMsg) :
    Option TrajectoryHistory :=
  let s := { s with currentTrajectory := msg }
  if msg.points.length < 3 then some s
  else if !isValidTrajectory msg then some s
  else s.updateBuffer d

-- A call with a trajectory that is not rejected before the buffer.
def receive (d : Duration) (s : TrajectoryHistory) (msg : TrajectoryMsg) :
    Option TrajectoryHistory :=
  { s with currentTrajectory := msg }.updateBuffer d

end TrajectoryHistory

def seconds (m : TrajectoryMsg) : Float :=
  Clock.toDouble m.stamp

def pops (d : Duration) (newest m : TrajectoryMsg) : Bool :=
  shouldPopFront (seconds newest - seconds m) d.seconds

variable {d : Duration} {b : List TrajectoryMsg} {m newest : TrajectoryMsg}
variable {s s' : TrajectoryHistory}

theorem isFinite_seconds (m : TrajectoryMsg) : IsFinite (seconds m) :=
  Clock.isFinite_toDouble m.stamp

theorem isDuplicateStamp_eq (a c : TimeMsg) : isDuplicateStamp a c = decide (a = c) := by
  cases a
  cases c
  rw [Bool.eq_iff_iff]
  simp [isDuplicateStamp]

theorem shouldPopFront_eq_false_iff {x y : Float} (hx : IsNumber x) (hy : IsNumber y) :
    shouldPopFront x y = false ↔ 0.0 ≤ x ∧ x < y := by
  rw [shouldPopFront]
  have h₀ : IsNumber (0.0 : Float) := by decide +kernel
  split_ifs with h
  case pos =>
    simp only [false_iff, not_and]
    exact fun h' => absurd h (not_lt_of_le h')
  case neg =>
    rw [decide_eq_false_iff_not]
    constructor
    · intro hn
      refine ⟨le_of_not_lt hx h₀ h, lt_iff.mpr ⟨hx, hy, not_le.mp fun hle => hn ?_⟩⟩
      exact le_iff.mpr ⟨hy, hx, hle⟩
    · exact fun h' hle => not_lt_of_le hle h'.2

theorem isNumber_sub (a c : TrajectoryMsg) : IsNumber (seconds a - seconds c) :=
  ((isFinite_seconds a).sub (isFinite_seconds c)).1

theorem not_pops_self {c : TrajectoryMsg} {durationSec : Float} (hd : 0 < durationSec)
    (h : seconds m = seconds c) : shouldPopFront (seconds m - seconds c) durationSec = false := by
  have hv : val (seconds m - seconds c) = ((0 : ℚ) : Ext) :=
    h ▸ val_sub_self (isFinite_seconds m)
  have hn := isNumber_sub m c
  have h₀ : IsNumber (0.0 : Float) ∧ val (0.0 : Float) = ((0 : ℚ) : Ext) := by decide +kernel
  rw [shouldPopFront_eq_false_iff hn (lt_iff.mp hd).2.1]
  constructor
  · exact le_iff.mpr ⟨h₀.1, hn, (h₀.2.trans hv.symm).le⟩
  · refine flt_of_le_of_lt (le_iff.mpr ⟨hn, isFinite_zero.isNumber, ?_⟩) hd
    rw [hv, val_zero]

theorem pops_eq_false_iff :
    pops d newest m = false ↔ 0.0 ≤ seconds newest - seconds m ∧
      seconds newest - seconds m < d.seconds :=
  shouldPopFront_eq_false_iff (isNumber_sub ..) (lt_iff.mp d.pos).2.1

theorem pops_self (d : Duration) (m : TrajectoryMsg) : pops d m m = false :=
  not_pops_self d.pos rfl

theorem trim_cons (d : Duration) (f : TrajectoryMsg) (rest : List TrajectoryMsg) :
    trim d true (f :: rest) =
      if pops d (rest.getLastD f) f then trim d true rest else some (f :: rest) := by
  cases h : pops d (rest.getLastD f) f
  all_goals
    rw [pops] at h
    simp only [seconds] at h
    rw [trim]
    simp only [if_true, h]
    rfl

theorem trim_eq (d : Duration) (b : List TrajectoryMsg) (m : TrajectoryMsg) :
    trim d true (b ++ [m]) = some ((b ++ [m]).dropWhile (pops d m)) := by
  induction b
  case nil => simp [trim_cons, pops_self]
  case cons f b ih =>
    rw [List.cons_append, trim_cons, List.dropWhile_cons, ih, List.getLastD_concat]
    split_ifs <;> rfl

theorem trim_first (d : Duration) (m : TrajectoryMsg) : trim d false [m] = some [m] := by
  have h : shouldPopFront (seconds m - seconds m) 5.0 = false :=
    not_pops_self (by decide +kernel) rfl
  simp only [seconds] at h
  simp [trim, h]

namespace TrajectoryHistory

def Ready (s : TrajectoryHistory) : Prop :=
  s.hasReceivedFirstTrajectory = false → s.trajectoryBuffer = []

theorem receive_eq (h : s.Ready) (d : Duration) (m : TrajectoryMsg) :
    s.receive d m = some
      (if ∃ back ∈ s.trajectoryBuffer.getLast?, back.stamp = m.stamp then
        { s with currentTrajectory := m }
      else
        { currentTrajectory          := m
          trajectoryBuffer           := (s.trajectoryBuffer ++ [m]).dropWhile (pops d m)
          hasReceivedFirstTrajectory := true }) := by
  have hdup : s.trajectoryBuffer.getLast?.any (fun back => isDuplicateStamp back.stamp m.stamp) =
      decide (∃ back ∈ s.trajectoryBuffer.getLast?, back.stamp = m.stamp) := by
    cases s.trajectoryBuffer.getLast? <;> simp [isDuplicateStamp_eq]
  have htrim : trim d s.hasReceivedFirstTrajectory (s.trajectoryBuffer ++ [m]) =
      some ((s.trajectoryBuffer ++ [m]).dropWhile (pops d m)) := by
    cases hf : s.hasReceivedFirstTrajectory
    case true  => exact trim_eq d s.trajectoryBuffer m
    case false =>
      rw [h hf]
      simp [trim_first, pops_self]
  rw [TrajectoryHistory.receive, updateBuffer]
  dsimp only
  rw [hdup, htrim]
  by_cases hd : ∃ back ∈ s.trajectoryBuffer.getLast?, back.stamp = m.stamp
  case pos => rw [if_pos (decide_eq_true hd), if_pos hd]
  case neg => rw [if_neg (by simpa using hd), if_neg hd, Option.map_some]

theorem Ready.receive (h : s.Ready) (hr : s.receive d m = some s') : s'.Ready := by
  rw [receive_eq h, Option.some.injEq] at hr
  subst hr
  split_ifs
  · exact h
  · exact nofun

theorem Ready.init : init.Ready := fun _ => rfl

theorem exists_run (h : s.Ready) (d : Duration) (ms : List TrajectoryMsg) :
    ∃ s', Run (receive d) s ms s' := by
  induction ms generalizing s
  case nil => exact ⟨s, .nil⟩
  case cons m ms ih =>
    have hr := receive_eq h d m
    obtain ⟨s', hs'⟩ := ih (h.receive hr)
    exact ⟨s', .cons hr trivial hs'⟩

-- Every sample is in the window that ends at the newest one, and none is there twice.
structure Bounded (d : Duration) (s : TrajectoryHistory) : Prop where
  window : ∀ newest ∈ s.trajectoryBuffer.getLast?, ∀ m ∈ s.trajectoryBuffer,
    seconds m ≤ seconds newest ∧ seconds newest - seconds m ≤ d.seconds
  nodup  : (s.trajectoryBuffer.map (·.stamp)).Nodup

-- The trajectory repeats the newest stamp, or it is not older and its stamp is not in the buffer, or
-- the buffer has no sample in the window that ends at it.
def Admissible (d : Duration) (s : TrajectoryHistory) (m : TrajectoryMsg) : Prop :=
  (∃ newest ∈ s.trajectoryBuffer.getLast?, newest.stamp = m.stamp) ∨
  (∀ newest ∈ s.trajectoryBuffer.getLast?, seconds newest ≤ seconds m) ∧
    m.stamp ∉ s.trajectoryBuffer.map (·.stamp) ∨
  ∀ f ∈ s.trajectoryBuffer, pops d m f = true

-- The buffer is sorted by time, and its front is in the window.
structure Chronological (d : Duration) (s : TrajectoryHistory) : Prop where
  ready  : s.Ready
  sorted : s.trajectoryBuffer.Pairwise fun a c => seconds a ≤ seconds c
  nodup  : (s.trajectoryBuffer.map (·.stamp)).Nodup
  window : ∀ newest ∈ s.trajectoryBuffer.getLast?, ∀ m ∈ s.trajectoryBuffer,
    pops d newest m = false

theorem Chronological.bounded (h : s.Chronological d) : s.Bounded d where
  nodup  := h.nodup
  window := by
    intro newest hn m hm
    have hw := pops_eq_false_iff.mp (h.window newest hn m hm)
    refine ⟨?_, flt_le hw.2⟩
    obtain ⟨b, hb⟩ := List.getLast?_eq_some_iff.mp hn
    rw [hb] at hm
    have hs := hb ▸ h.sorted
    rcases List.mem_append.mp hm with hm | hm
    · exact (List.pairwise_append.mp hs).2.2 m hm newest (by simp)
    · rw [List.mem_singleton.mp hm]
      exact fle_refl (isFinite_seconds newest)

theorem Chronological.init (d : Duration) : init.Chronological d where
  ready   := Ready.init
  sorted  := .nil
  nodup   := .nil
  window  := by simp [TrajectoryHistory.init]

theorem pops_mono {m f g : TrajectoryMsg} (hf : pops d m f = false) (hfg : seconds f ≤ seconds g)
    (hg : seconds g ≤ seconds m) : pops d m g = false := by
  have h := pops_eq_false_iff.mp hf
  have hm := isFinite_seconds m
  have hsub := fsub_le_fsub_left hfg (isFinite_seconds f) (isFinite_seconds g) hm
  refine pops_eq_false_iff.mpr ⟨?_, flt_of_le_of_lt hsub h.2⟩
  have hself := (pops_eq_false_iff.mp (pops_self d g)).1
  exact fle_trans hself (fsub_le_fsub_right hg (isFinite_seconds g) hm (isFinite_seconds g))

theorem not_pops_of_mem_dropWhile {l : List TrajectoryMsg} {g : TrajectoryMsg}
    (hs : l.Pairwise fun a c => seconds a ≤ seconds c) (hl : ∀ f ∈ l, seconds f ≤ seconds m)
    (hg : g ∈ l.dropWhile (pops d m)) : pops d m g = false := by
  induction l
  case nil => simp at hg
  case cons f l ih =>
    have hp := List.pairwise_cons.mp hs
    rw [List.dropWhile_cons] at hg
    split_ifs at hg with hf
    case pos => exact ih hp.2 (fun f hf => hl f (List.mem_cons_of_mem _ hf)) hg
    case neg =>
      have hf : pops d m f = false := by simpa using hf
      rcases List.mem_cons.mp hg with rfl | hmem
      · exact hf
      · exact pops_mono hf (hp.1 g hmem) (hl g hg)

theorem dropWhile_snoc (d : Duration) (b : List TrajectoryMsg) (m : TrajectoryMsg) :
    (b ++ [m]).dropWhile (pops d m) = b.dropWhile (pops d m) ++ [m] := by
  induction b
  case nil => simp [pops_self]
  case cons f b ih =>
    rw [List.cons_append, List.dropWhile_cons, List.dropWhile_cons, ih]
    split_ifs <;> rfl

theorem Chronological.receive (h : s.Chronological d) (ha : s.Admissible d m)
    (hr : s.receive d m = some s') : s'.Chronological d := by
  have hready := h.ready.receive hr
  rw [receive_eq h.ready, Option.some.injEq] at hr
  subst hr
  split_ifs with hd
  case pos => exact ⟨h.ready, h.sorted, h.nodup, h.window⟩
  case neg =>
    rw [if_neg hd] at hready
    rcases ha with ha | ⟨hle, hnew⟩ | hp
    case inl => exact absurd ha hd
    case inr.inr =>
      have : (s.trajectoryBuffer ++ [m]).dropWhile (pops d m) = [m] := by
        rw [List.dropWhile_append_of_pos hp]
        simp [pops_self]
      exact ⟨hready, by simp [this], by simp [this], by simp [this, pops_self]⟩
    case inr.inl =>
      have hall : ∀ f ∈ s.trajectoryBuffer, seconds f ≤ seconds m := by
        intro f hf
        obtain ⟨newest, hn⟩ := Option.isSome_iff_exists.mp
          (List.getLast?_isSome.mpr (List.ne_nil_of_mem hf))
        exact fle_trans (h.bounded.window newest hn f hf).1 (hle newest hn)
      have hsub : ((s.trajectoryBuffer ++ [m]).dropWhile (pops d m)).Sublist
          (s.trajectoryBuffer ++ [m]) := (List.dropWhile_suffix _).sublist
      have hsorted : (s.trajectoryBuffer ++ [m]).Pairwise fun a c => seconds a ≤ seconds c := by
        simpa [List.pairwise_append, h.sorted] using hall
      have hnodup : ((s.trajectoryBuffer ++ [m]).map (·.stamp)).Nodup := by
        rw [List.map_append, List.nodup_append]
        exact ⟨h.nodup, by simp, by simpa using hnew⟩
      refine ⟨hready, hsorted.sublist hsub, hnodup.sublist (hsub.map _), fun newest hn g hg => ?_⟩
      have hm : m = newest := by simpa [dropWhile_snoc] using hn
      subst hm
      refine not_pops_of_mem_dropWhile hsorted (fun f hf => ?_) hg
      rcases List.mem_append.mp hf with hf | hf
      · exact hall f hf
      · rw [List.mem_singleton.mp hf]
        exact fle_refl (isFinite_seconds m)

theorem mem_dropWhile {l : List TrajectoryMsg} {p : TrajectoryMsg → Bool} {f : TrajectoryMsg}
    (hf : f ∈ l) (hp : p f = false) : f ∈ l.dropWhile p := by
  rw [← List.takeWhile_append_dropWhile (p := p) (l := l), List.mem_append] at hf
  refine hf.resolve_left fun h => ?_
  simp [List.mem_takeWhile_imp h] at hp

theorem Bounded.admissible (hready : s.Ready) (hr : s.receive d m = some s')
    (h : s'.Bounded d) : s.Admissible d m := by
  rw [receive_eq hready, Option.some.injEq] at hr
  subst hr
  split_ifs at h with hd
  case pos => exact .inl hd
  case neg =>
    by_cases hp : ∀ f ∈ s.trajectoryBuffer, pops d m f = true
    case pos => exact .inr (.inr hp)
    case neg =>
      push Not at hp
      obtain ⟨f, hf, hpf⟩ := hp
      refine .inr (.inl ⟨fun newest hn => ?_, fun hmem => ?_⟩)
      · have hb := List.ne_nil_of_mem (mem_dropWhile hf (by simpa using hpf))
        have hlast : newest ∈ s.trajectoryBuffer.dropWhile (pops d m) := by
          rw [← List.takeWhile_append_dropWhile (p := pops d m) (l := s.trajectoryBuffer),
            List.getLast?_append_of_ne_nil _ hb] at hn
          exact List.mem_of_getLast? hn
        refine (h.window m (by simp [dropWhile_snoc]) newest ?_).1
        simp [dropWhile_snoc, hlast]
      · obtain ⟨g, hg, hgm⟩ := List.mem_map.mp hmem
        have hpg : pops d m g = false := not_pops_self d.pos (by rw [seconds, seconds, hgm])
        have hg := List.mem_map_of_mem (f := (·.stamp)) (mem_dropWhile hg hpg)
        have hn := h.nodup
        dsimp only at hn
        rw [dropWhile_snoc, List.map_append, List.nodup_append] at hn
        exact hn.2.2 _ hg _ (List.mem_singleton.mpr rfl) hgm

-- Every run of calls has a result, and every state of it is bounded if and only if every call of it
-- is admissible.
theorem bounded_iff (d : Duration) (ms : List TrajectoryMsg) :
    ∃ s, Run (receive d) init ms s ∧
      (Along (receive d) (fun _ _ s' => s'.Bounded d) init ms s ↔
        Along (receive d) (fun s m _ => s.Admissible d m) init ms s) := by
  obtain ⟨s, hr⟩ := exists_run Ready.init d ms
  refine ⟨s, hr, fun h => ?_, fun h => ?_⟩
  · exact h.strengthen (fun hr hb hs => ⟨hs.receive hr, hb.admissible hs hr⟩) Ready.init
  · refine h.strengthen (fun hr ha hs => ?_) (Chronological.init d)
    have hc := hs.receive ha hr
    exact ⟨hc, hc.bounded⟩

end TrajectoryHistory

namespace Sample

def oldest : TrajectoryMsg := ⟨⟨0, 500000000⟩, []⟩
def ahead : TrajectoryMsg := ⟨⟨0, 900000000⟩, []⟩
def behind : TrajectoryMsg := ⟨⟨0, 600000000⟩, []⟩

end Sample

open TrajectoryHistory Mpc.Sample

theorem receive_keeps {f : TrajectoryMsg} {fs : List TrajectoryMsg} (hs : s.Ready)
    (hb : s.trajectoryBuffer = f :: fs) (hf : pops d m f = false)
    (hd : ∀ back ∈ s.trajectoryBuffer.getLast?, back.stamp ≠ m.stamp) :
    s.receive d m = some ⟨m, f :: fs ++ [m], true⟩ := by
  rw [receive_eq hs, if_neg (by simpa using hd), hb, List.cons_append, List.dropWhile_cons]
  simp [hf]

theorem oscillation_grows (n : ℕ) :
    ∃ ms s, (∀ m ∈ ms, m ∈ [oldest, ahead, behind]) ∧ Run (receive newTrajDurationTime) init ms s ∧
      n ≤ s.trajectoryBuffer.length ∧ ∃ fs, s.trajectoryBuffer = oldest :: fs ∧
        ∀ back ∈ s.trajectoryBuffer.getLast?, back.stamp ≠ ahead.stamp := by
  have hahead : pops newTrajDurationTime ahead oldest = false := by decide +kernel
  have hbehind : pops newTrajDurationTime behind oldest = false := by decide +kernel
  induction n
  case zero =>
    exact ⟨[oldest], ⟨oldest, [oldest], true⟩, by simp, .single (by decide +kernel) trivial,
      by simp, [], rfl, by simp [oldest, ahead]⟩
  case succ n ih =>
    obtain ⟨ms, s, hms, hr, hn, fs, hb, hl⟩ := ih
    have hs : s.Ready := hr.invariant (fun h _ hs => hs.receive h) Ready.init
    have h₁ := receive_keeps hs hb hahead hl
    have hs₁ := hs.receive h₁
    have h₂ := receive_keeps hs₁ rfl hbehind (by
      rw [List.getLast?_concat]
      rintro _ ⟨⟩
      decide)
    refine ⟨ms ++ [ahead, behind], _, ?_, hr.append (.cons h₁ trivial (.single h₂ trivial)), ?_,
      fs ++ [ahead] ++ [behind], rfl, ?_⟩
    · simpa [or_imp, forall_and] using hms
    · simp [hb] at hn ⊢
      omega
    · rw [List.getLast?_concat]
      rintro _ ⟨⟩
      decide

-- The sample of 0.9 s is later than the newest one, and the buffer has no bound.
theorem later_sample_stays :
    (∃ s, Run (receive newTrajDurationTime) init [oldest, ahead, behind] s ∧
      s.trajectoryBuffer = [oldest, ahead, behind] ∧ seconds behind < seconds ahead) ∧
    ∀ n, ∃ ms s, (∀ m ∈ ms, m ∈ [oldest, ahead, behind]) ∧
      Run (receive newTrajDurationTime) init ms s ∧ n ≤ s.trajectoryBuffer.length := by
  refine ⟨⟨⟨behind, [oldest, ahead, behind], true⟩, ?_, rfl, by decide +kernel⟩, fun n => ?_⟩
  · rw [run_iff_exec]
    decide +kernel
  · obtain ⟨ms, s, hm, hr, hn, -⟩ := oscillation_grows n
    exact ⟨ms, s, hm, hr, hn⟩

end SafetyIsland.Mpc

import SafetyIsland.Interpolation

namespace SafetyIsland.MPCUtils

open Fallible Interpolation OnReal

-- What the normalization of angles uses of the mathematical library.
class Angular (α : Type) where
  pi       : α
  fmod     : α → α → α
  copysign : α → α → α

noncomputable instance angularReal : Angular ℝ where
  pi           := Real.pi
  fmod x y     := x - y * (if 0 ≤ x / y then (⌊x / y⌋ : ℝ) else (⌈x / y⌉ : ℝ))
  copysign x y := if y < 0 then -|x| else |x|

structure MPCTrajectory (α : Type) where
  x            : List α
  y            : List α
  z            : List α
  yaw          : List α
  vx           : List α
  k            : List α
  smoothK      : List α
  relativeTime : List α

section

variable {α : Type}

def MPCTrajectory.size (t : MPCTrajectory α) : ℕ :=
  if t.x.length = t.y.length ∧ t.x.length = t.z.length ∧ t.x.length = t.yaw.length ∧
    t.x.length = t.vx.length ∧ t.x.length = t.k.length ∧ t.x.length = t.smoothK.length ∧
    t.x.length = t.relativeTime.length
  then t.x.length
  else 0

def MPCTrajectory.cleared : MPCTrajectory α :=
  ⟨[], [], [], [], [], [], [], []⟩

variable [Scalar α]

-- The indices are below the size.
def calcDistance2d [Libm α] (trajectory : MPCTrajectory α) (idx1 idx2 : ℕ) : α :=
  let dx := trajectory.x.getD idx1 0.0 - trajectory.x.getD idx2 0.0
  let dy := trajectory.y.getD idx1 0.0 - trajectory.y.getD idx2 0.0
  Libm.hypot dx dy

def calcMPCTrajectoryArcLength [Libm α] (trajectory : MPCTrajectory α) : List α :=
  let push (s : α × List α) (i : ℕ) : α × List α :=
    let dist := s.1 + calcDistance2d trajectory i (i - 1)
    (dist, s.2 ++ [dist])
  ((List.range' 1 (trajectory.size - 1)).foldl push (0.0, [0.0])).2

def normalizeRadian [Angular α] (rad : α) : α :=
  let minRad := 0.0 - Angular.pi
  let maxRad := minRad + 2.0 * Angular.pi
  let value := Angular.fmod rad (2.0 * Angular.pi)
  if minRad ≤ value ∧ value < maxRad then value
  else value - Angular.copysign (2.0 * Angular.pi) value

-- The angles after `previous`, each one next to the one before it.
def monotonicAfter [Angular α] : α → List α → List α
  | _, []                  => []
  | previous, angle :: angles =>
    let angle := previous + normalizeRadian (angle - previous)
    angle :: monotonicAfter angle angles

def convertEulerAngleToMonotonic [Angular α] : List α → List α
  | []              => []
  | angle :: angles => angle :: monotonicAfter angle angles

-- `for (s = first; cond(s); s = next(s)) output.push_back(s)`
def collect (cond : α → Bool) (next : α → α) : ℕ → α → Except Failure (List α)
  | 0, _        => .error .running
  | fuel + 1, s =>
    if cond s then do
      return s :: (← collect cond next fuel (next s))
    else .ok []

def outputArcLength (fuel : ℕ) (arcLength : List α) (resampleIntervalDist : α) (nearestSegIdx : ℕ)
    (egoOffsetToSegment : α) : Except Failure (List α) := do
  let back := arcLength.getLastD 0.0
  let ego := (← vectorAt arcLength nearestSegIdx) + egoOffsetToSegment
  let backward ← collect (fun s => 0.0 ≤ s) (fun s => s - resampleIntervalDist) fuel
    (stdClamp ego 0.0 (back - 1e-6))
  let forward ← collect (fun s => s < back) (fun s => s + resampleIntervalDist) fuel
    (stdMax ego 0.0 + resampleIntervalDist)
  return backward.reverse ++ forward

def resampleMPCTrajectoryByDistance [Libm α] [Angular α] (fuel : ℕ) (input : MPCTrajectory α)
    (resampleIntervalDist : α) (nearestSegIdx : ℕ) (egoOffsetToSegment : α) :
    Except Failure (Bool × MPCTrajectory α) := do
  if input.size = 0 then
    return (true, .cleared)
  let arc := calcMPCTrajectoryArcLength input
  if arc.isEmpty then
    return (false, .cleared)
  let output ← outputArcLength fuel arc resampleIntervalDist nearestSegIdx egoOffsetToSegment
  let x ← spline arc input.x output
  let y ← spline arc input.y output
  let z ← spline arc input.z output
  let yaw ← spline arc (convertEulerAngleToMonotonic input.yaw) output
  let vx ← lerp arc input.vx output
  let k ← spline arc input.k output
  let smoothK ← spline arc input.smoothK output
  let relativeTime ← lerp arc input.relativeTime output
  return (true, ⟨x, y, z, yaw, vx, k, smoothK, relativeTime⟩)

theorem length_monotonicAfter [Angular α] (previous : α) (angles : List α) :
    (monotonicAfter previous angles).length = angles.length := by
  induction angles generalizing previous with
  | nil => rfl
  | cons angle angles ih => exact congrArg (· + 1) (ih _)

theorem length_convertEulerAngleToMonotonic [Angular α] (angles : List α) :
    (convertEulerAngleToMonotonic angles).length = angles.length := by
  cases angles with
  | nil => rfl
  | cons angle angles => exact congrArg (· + 1) (length_monotonicAfter _ _)

-- Every pass pushes one distance behind the ones before it.
omit [Scalar α] in
theorem foldl_push {β γ : Type} (step : β → γ → β) (value : β → γ → α) (as : List γ) (b : β)
    (xs : List α) :
    ∃ ys, (as.foldl (fun (s : β × List α) c => (step s.1 c, s.2 ++ [value s.1 c])) (b, xs)).2 = xs ++ ys ∧
      ys.length = as.length := by
  induction as generalizing b xs with
  | nil => exact ⟨[], by simp, rfl⟩
  | cons c cs ih =>
    obtain ⟨ys, hy, hl⟩ := ih (step b c) (xs ++ [value b c])
    exact ⟨value b c :: ys, by simpa using hy, congrArg (· + 1) hl⟩

theorem arcLength_eq [Libm α] (t : MPCTrajectory α) :
    ∃ ys, calcMPCTrajectoryArcLength t = 0.0 :: ys ∧ ys.length = t.size - 1 := by
  obtain ⟨ys, hy, hl⟩ := foldl_push (fun d i => d + calcDistance2d t i (i - 1))
    (fun d i => d + calcDistance2d t i (i - 1)) (List.range' 1 (t.size - 1)) (0.0 : α) [0.0]
  exact ⟨ys, hy, hl.trans List.length_range'⟩

theorem length_arcLength [Libm α] {t : MPCTrajectory α} (h : 0 < t.size) :
    (calcMPCTrajectoryArcLength t).length = t.size := by
  obtain ⟨ys, hy, hl⟩ := arcLength_eq t
  rw [hy, List.length_cons, hl]
  omega

end

-- `n` numbers at a distance of `d`.
noncomputable def progression (first d : ℝ) (n : ℕ) : List ℝ :=
  (List.range n).map fun i : ℕ => first + i * d

section

variable {first s d : ℝ} {n m i fuel : ℕ}

@[simp] theorem length_progression : (progression first d n).length = n := by
  simp [progression]

theorem progression_succ :
    progression first d (n + 1) = first :: progression (first + d) d n := by
  rw [progression, progression, List.range_succ_eq_map, List.map_cons, List.map_map]
  congr 1
  · simp
  · refine List.map_congr_left fun i _ => ?_
    push_cast [Function.comp_apply, Nat.succ_eq_add_one]
    ring

theorem progression_append :
    progression first d n ++ progression (first + n * d) d m = progression first d (n + m) := by
  rw [progression, progression, progression, List.range_add, List.map_append, List.map_map]
  congr 1
  refine List.map_congr_left fun i _ => ?_
  push_cast [Function.comp_apply]
  ring

theorem reverse_progression :
    (progression s (-d) (n + 1)).reverse = progression (s - n * d) d (n + 1) := by
  apply List.ext_getElem
  case hl => simp
  case h =>
    intro i h _
    have hi : i ≤ n := by simpa [Nat.lt_succ_iff] using h
    simp only [progression, List.getElem_reverse, List.getElem_map, List.getElem_range,
      List.length_map, List.length_range]
    rw [show n + 1 - 1 - i = n - i by omega, Nat.cast_sub hi]
    ring

theorem collect_progression {cond : ℝ → Bool} (h : ∀ i : ℕ, cond (s + i * d) = true ↔ i < n)
    (hf : n < fuel) : collect cond (· + d) fuel s = .ok (progression s d n) := by
  induction n generalizing s fuel with
  | zero =>
    obtain ⟨fuel, rfl⟩ := Nat.exists_eq_succ_of_ne_zero hf.ne'
    have := h 0
    simp_all [collect, progression]
  | succ n ih =>
    obtain ⟨fuel, rfl⟩ := Nat.exists_eq_succ_of_ne_zero (Nat.ne_zero_of_lt hf)
    have hc : cond s = true := by simpa using (h 0).mpr n.succ_pos
    have hn : ∀ i : ℕ, cond (s + d + i * d) = true ↔ i < n := by
      intro i
      have := h (i + 1)
      push_cast at this
      rw [show s + d + i * d = s + (i + 1) * d by ring, this, Nat.succ_lt_succ_iff]
    rw [collect, if_pos hc, ih hn (Nat.lt_of_succ_lt_succ hf), progression_succ]
    rfl

end

-- Numbers that begin within a step of zero and end within a step of `total`.
structure Covers (total d : ℝ) (first : ℝ) (k : ℕ) : Prop where
  nonneg : 0 ≤ first
  start  : first < d
  pos    : 0 < k
  below  : ∀ i < k, first + i * d < total
  finish : total ≤ first + k * d

section

variable {d raw total : ℝ} {fuel : ℕ}

theorem backward (hd : 0 < d) {s : ℝ} (hs : 0 ≤ s) :
    ∃ n : ℕ, 0 ≤ s - n * d ∧ s - n * d < d ∧ ∀ fuel > n + 1,
      collect (fun s => decide (0 ≤ s)) (fun s => s - d) fuel s = .ok (progression s (-d) (n + 1)) := by
  have hle := Nat.floor_le (div_nonneg hs hd.le)
  have hlt := Nat.lt_floor_add_one (s / d)
  rw [le_div_iff₀ hd] at hle
  rw [div_lt_iff₀ hd] at hlt
  refine ⟨⌊s / d⌋₊, by linarith, by linarith, fun fuel hf => ?_⟩
  simp only [sub_eq_add_neg]
  refine collect_progression (fun i => ?_) hf
  rw [decide_eq_true_iff, Nat.lt_succ_iff, Nat.le_floor_iff (div_nonneg hs hd.le), le_div_iff₀ hd]
  constructor <;> intro h <;> linarith

theorem forward (hd : 0 < d) (s total : ℝ) :
    ∃ m : ℕ, (∀ i : ℕ, i < m ↔ s + i * d < total) ∧ ∀ fuel > m,
      collect (fun s => decide (s < total)) (fun s => s + d) fuel s = .ok (progression s d m) := by
  have hm : ∀ i : ℕ, i < ⌈(total - s) / d⌉₊ ↔ s + i * d < total := by
    intro i
    rw [Nat.lt_ceil, lt_div_iff₀ hd]
    constructor <;> intro h <;> linarith
  refine ⟨⌈(total - s) / d⌉₊, hm, fun fuel hf => ?_⟩
  exact collect_progression (fun i => by rw [decide_eq_true_iff, hm]) hf

theorem joined (hd : 1e-6 ≤ d) (ht : 1e-6 ≤ total) {m : ℕ}
    (hm : ∀ i : ℕ, i < m ↔ max raw 0 + d + i * d < total) :
    max raw 0 = max 0 (min raw (total - 1e-6)) ∨
    m = 0 ∧ max 0 (min raw (total - 1e-6)) = total - 1e-6 := by
  rcases le_or_gt raw (total - 1e-6) with h | h
  · exact .inl (by rw [min_eq_left h, max_comm])
  · refine .inr ⟨?_, by rw [min_eq_right h.le, max_eq_right (by linarith)]⟩
    by_contra hne
    have := (hm 0).mp (Nat.pos_of_ne_zero hne)
    have := le_max_left raw 0
    push_cast at *
    linarith

theorem outputArcLength_eq {arc : List ℝ} {nearest : ℕ} (offset : ℝ) (hn : nearest < arc.length)
    (hd : 1e-6 ≤ d) (ht : 1e-6 ≤ arc.getLastD 0) :
    ∃ first k, Covers (arc.getLastD 0) d first k ∧
      (∃ j < k, first + j * d = max 0 (min (arc[nearest] + offset) (arc.getLastD 0 - 1e-6))) ∧
      ∃ passes, ∀ fuel > passes,
        outputArcLength fuel arc d nearest offset = .ok (progression first d k) := by
  have h0 : (0.0 : ℝ) = 0 := by norm_num
  have he : (0 : ℝ) < 1e-6 := by norm_num
  have hpos : 0 < d := he.trans_le hd
  generalize htotal : arc.getLastD 0 = total at ht
  obtain ⟨n, hn₀, hn₁, hb⟩ := backward hpos (le_max_left 0 (min (arc[nearest] + offset) (total - 1e-6)))
  obtain ⟨m, hm, hf⟩ := forward hpos (max (arc[nearest] + offset) 0 + d) total
  have hj := joined hd ht hm
  have hlt : max 0 (min (arc[nearest] + offset) (total - 1e-6)) < total :=
    max_lt (by linarith) ((min_le_right _ _).trans_lt (by linarith))
  have hend := (hm m).not.mp (lt_irrefl m)
  generalize hego : max 0 (min (arc[nearest] + offset) (total - 1e-6)) = ego at *
  refine ⟨ego - n * d, n + 1 + m, ?_, ⟨n, by omega, by ring⟩, max (n + 1) m, fun fuel hfuel => ?_⟩
  case refine_1 => exact {
    nonneg := hn₀
    start  := hn₁
    pos    := by omega
    below  := by
      intro i hi
      rcases Nat.lt_or_ge i (n + 1) with h | h
      · have : (i : ℝ) * d ≤ n * d := by gcongr; omega
        linarith
      · obtain ⟨i, rfl⟩ := Nat.exists_eq_add_of_le h
        have := (hm i).mp (by omega)
        obtain hj | ⟨rfl, -⟩ := hj
        · push_cast
          linarith
        · omega
    finish := by
      push_cast
      obtain hj | ⟨rfl, hj⟩ := hj
      · linarith
      · push_cast
        linarith
  }
  case refine_2 =>
    have happ : progression (ego - n * d) d (n + 1) ++
        progression (max (arc[nearest] + offset) 0 + d) d m = progression (ego - n * d) d (n + 1 + m) := by
      obtain hj | ⟨rfl, -⟩ := hj
      · have hs : ego + d = ego - n * d + (n + 1 : ℕ) * d := by
          push_cast
          ring
        rw [hj, hs, progression_append]
      · simp [progression]
    rw [outputArcLength, vectorAt_eq hn]
    simp only [ok_bind, h0, htotal, stdClamp_real (show (0 : ℝ) ≤ total - 1e-6 by linarith), stdMax_real]
    rw [hego, hb fuel (max_lt_iff.mp hfuel).1, hf fuel (max_lt_iff.mp hfuel).2]
    simp only [ok_bind, reverse_progression, happ]
    rfl

end

-- The samples of a path whose length is `total`, around the arc length of the ego.
structure WellFormed (arc : List ℝ) (d ego : ℝ) (samples : List ℝ) : Prop where
  nonempty   : samples ≠ []
  increasing : samples.Pairwise (· < ·)
  inRange    : ∀ s ∈ samples, 0 ≤ s ∧ s < arc.getLastD 0
  ego        : max 0 (min ego (arc.getLastD 0 - 1e-6)) ∈ samples
  gaps       : samples.IsChain fun s t => t - s = d
  -- Less than a step is left before the first sample and at most a step from the last one on.
  start      : samples.headD 0 < d
  finish     : arc.getLastD 0 - samples.getLastD 0 ≤ d
  accepted   : validateKeys arc samples = .ok samples
  lerp       : ∀ values, values.length = arc.length →
    ∃ out, lerp arc values samples = .ok out ∧ out.length = samples.length
  spline     : ∀ values, values.length = arc.length →
    ∃ out, spline arc values samples = .ok out ∧ out.length = samples.length

section

variable {arc : List ℝ} {first d total ego : ℝ} {k : ℕ}

theorem mem_progression {s : ℝ} : s ∈ progression first d k ↔ ∃ i < k, first + i * d = s := by
  simp [progression]

theorem progression_gaps : (progression first d k).IsChain fun s t => t - s = d := by
  rw [List.isChain_iff_getElem]
  intro i h
  simp only [progression, List.getElem_map, List.getElem_range]
  push_cast
  ring

theorem progression_sorted (hd : 0 < d) : (progression first d k).Pairwise (· < ·) := by
  rw [progression, List.pairwise_map]
  refine List.pairwise_lt_range.imp fun h => ?_
  gcongr

theorem headD_progression (hk : 0 < k) : (progression first d k).headD 0 = first := by
  obtain ⟨k, rfl⟩ := Nat.exists_eq_succ_of_ne_zero hk.ne'
  rw [progression_succ]
  rfl

theorem getLastD_progression (hk : 0 < k) :
    (progression first d k).getLastD 0 = first + (k - 1 : ℕ) * d := by
  rw [List.getLastD_eq_getLast?, List.getLast?_eq_getElem?, length_progression,
    List.getElem?_eq_getElem (by rw [length_progression]; omega)]
  simp [progression]

theorem Covers.wellFormed (hc : Covers (arc.getLastD 0) d first k) (hd : 0 < d)
    (hl : 2 ≤ arc.length) (hs : arc.Pairwise (· < ·)) (hh : arc.headD 0 = 0)
    (he : ∃ j < k, first + j * d = max 0 (min ego (arc.getLastD 0 - 1e-6))) :
    WellFormed arc d ego (progression first d k) := by
  have hne : progression first d k ≠ [] :=
    List.ne_nil_of_length_pos (by rw [length_progression]; exact hc.pos)
  have hlast : (progression first d k).getLastD 0 < arc.getLastD 0 := by
    rw [getLastD_progression hc.pos]
    exact hc.below _ (Nat.sub_lt hc.pos one_pos)
  have hle : ∀ s ∈ progression first d k, 0 ≤ s ∧ s < arc.getLastD 0 := by
    intro s hm
    obtain ⟨i, hi, rfl⟩ := mem_progression.mp hm
    have := hc.nonneg
    exact ⟨by positivity, hc.below i hi⟩
  have hk : validateKeys arc (progression first d k) = .ok (progression first d k) :=
    validateKeys_eq hl hs hne ((progression_sorted hd).imp le_of_lt)
      (by rw [hh, headD_progression hc.pos]; exact hc.nonneg) hlast.le
  exact {
    nonempty   := hne
    increasing := progression_sorted hd
    inRange    := hle
    ego        := mem_progression.mpr he
    gaps       := progression_gaps
    start      := by rw [headD_progression hc.pos]; exact hc.start
    finish     := by
      have := hc.finish
      rw [getLastD_progression hc.pos, Nat.cast_pred hc.pos]
      linarith
    accepted   := hk
    lerp       := fun _ hv => lerp_ok hk (fun s hm => (hle s hm).2.le) hl hv
    spline     := fun _ hv => spline_ok hk hl hv
  }

theorem headD_arcLength (t : MPCTrajectory ℝ) : (calcMPCTrajectoryArcLength t).headD 0 = 0 := by
  obtain ⟨ys, hy, -⟩ := arcLength_eq t
  rw [hy]
  norm_num

end

theorem MPCTrajectory.size_eq {α : Type} {t : MPCTrajectory α} (h : 0 < t.size) :
    t.x.length = t.size ∧ t.y.length = t.size ∧ t.z.length = t.size ∧ t.yaw.length = t.size ∧
    t.vx.length = t.size ∧ t.k.length = t.size ∧ t.smoothK.length = t.size ∧
    t.relativeTime.length = t.size := by
  rw [size] at h ⊢
  split_ifs at h ⊢ with hs
  · obtain ⟨h₁, h₂, h₃, h₄, h₅, h₆, h₇⟩ := hs
    exact ⟨rfl, h₁.symm, h₂.symm, h₃.symm, h₄.symm, h₅.symm, h₆.symm, h₇.symm⟩
  · exact absurd h (lt_irrefl 0)

theorem WellFormed.resample {input : MPCTrajectory ℝ} {d ego : ℝ} {samples : List ℝ}
    (hw : WellFormed (calcMPCTrajectoryArcLength input) d ego samples) (hs : 0 < input.size)
    (nearest : ℕ) (offset : ℝ) :
    ∃ output : MPCTrajectory ℝ, output.size = samples.length ∧ ∀ fuel,
      outputArcLength fuel (calcMPCTrajectoryArcLength input) d nearest offset = .ok samples →
      resampleMPCTrajectoryByDistance fuel input d nearest offset = .ok (true, output) := by
  obtain ⟨h₁, h₂, h₃, h₄, h₅, h₆, h₇, h₈⟩ := input.size_eq hs
  have hl := length_arcLength hs
  obtain ⟨x, hx, lx⟩ := hw.spline input.x (h₁.trans hl.symm)
  obtain ⟨y, hy, ly⟩ := hw.spline input.y (h₂.trans hl.symm)
  obtain ⟨z, hz, lz⟩ := hw.spline input.z (h₃.trans hl.symm)
  obtain ⟨yaw, hyaw, lyaw⟩ := hw.spline (convertEulerAngleToMonotonic input.yaw)
    ((length_convertEulerAngleToMonotonic _).trans (h₄.trans hl.symm))
  obtain ⟨vx, hvx, lvx⟩ := hw.lerp input.vx (h₅.trans hl.symm)
  obtain ⟨k, hk, lk⟩ := hw.spline input.k (h₆.trans hl.symm)
  obtain ⟨smoothK, hsk, lsk⟩ := hw.spline input.smoothK (h₇.trans hl.symm)
  obtain ⟨time, ht, lt⟩ := hw.lerp input.relativeTime (h₈.trans hl.symm)
  refine ⟨⟨x, y, z, yaw, vx, k, smoothK, time⟩, ?_, fun fuel ho => ?_⟩
  case refine_1 => simp [MPCTrajectory.size, lx, ly, lz, lyaw, lvx, lk, lsk, lt]
  case refine_2 =>
    have hne : (calcMPCTrajectoryArcLength input).isEmpty = false := by
      rw [List.isEmpty_eq_false_iff]
      exact List.ne_nil_of_length_pos (by omega)
    rw [resampleMPCTrajectoryByDistance, if_neg hs.ne']
    simp only [hne, ho, hx, hy, hz, hyaw, hvx, hk, hsk, ht, ok_bind]
    rfl

section

variable {input : MPCTrajectory ℝ} {d : ℝ} {nearest : ℕ}

theorem outputArcLength_wellFormed (offset : ℝ) (hs : 2 ≤ input.size)
    (hi : (calcMPCTrajectoryArcLength input).Pairwise (· < ·))
    (ht : 1e-6 ≤ (calcMPCTrajectoryArcLength input).getLastD 0) (hn : nearest < input.size)
    (hd : 1e-6 ≤ d) :
    ∃ samples passes,
      WellFormed (calcMPCTrajectoryArcLength input) d
        ((calcMPCTrajectoryArcLength input).getD nearest 0 + offset) samples ∧
      ∀ fuel > passes,
        outputArcLength fuel (calcMPCTrajectoryArcLength input) d nearest offset = .ok samples := by
  have hl := length_arcLength (show 0 < input.size by omega)
  have hn' : nearest < (calcMPCTrajectoryArcLength input).length := hl ▸ hn
  have hd' : 0 < d := lt_of_lt_of_le (by norm_num) hd
  obtain ⟨first, k, hc, he, passes, hf⟩ := outputArcLength_eq offset hn' hd ht
  have hw := hc.wellFormed hd' (hl ▸ hs) hi (headD_arcLength input) he
  refine ⟨progression first d k, passes, ?_, hf⟩
  rwa [List.getD_eq_getElem _ _ hn']

end

-- The loops end, and what they sample is well formed.
theorem resample_wellFormed (input : MPCTrajectory ℝ) (d offset : ℝ) (nearest : ℕ)
    (hs : 2 ≤ input.size) (hi : (calcMPCTrajectoryArcLength input).Pairwise (· < ·))
    (ht : 1e-6 ≤ (calcMPCTrajectoryArcLength input).getLastD 0) (hn : nearest < input.size)
    (hd : 1e-6 ≤ d) :
    ∃ samples output passes,
      WellFormed (calcMPCTrajectoryArcLength input) d
        ((calcMPCTrajectoryArcLength input).getD nearest 0 + offset) samples ∧
      output.size = samples.length ∧
      ∀ fuel > passes,
        outputArcLength fuel (calcMPCTrajectoryArcLength input) d nearest offset = .ok samples ∧
        resampleMPCTrajectoryByDistance fuel input d nearest offset = .ok (true, output) := by
  obtain ⟨samples, passes, hw, hf⟩ := outputArcLength_wellFormed offset hs hi ht hn hd
  obtain ⟨output, ho, hr⟩ := hw.resample (by omega) nearest offset
  exact ⟨samples, output, passes, hw, ho, fun fuel h => ⟨hf fuel h, hr fuel (hf fuel h)⟩⟩

-- Two points one metre apart.
noncomputable def metre : MPCTrajectory ℝ :=
  ⟨[0, 1], [0, 0], [0, 0], [0, 0], [5, 5], [0, 0], [0, 0], [0, 0.2]⟩

theorem arcLength_metre : calcMPCTrajectoryArcLength metre = [0, 1] := by
  norm_num [calcMPCTrajectoryArcLength, calcDistance2d, metre, MPCTrajectory.size, Libm.hypot]

theorem resample_wellFormed_beyond :
    ∃ samples output passes,
      WellFormed (calcMPCTrajectoryArcLength metre) 0.25
        ((calcMPCTrajectoryArcLength metre).getD 1 0 + 3) samples ∧
      output.size = samples.length ∧
      ∀ fuel > passes,
        outputArcLength fuel (calcMPCTrajectoryArcLength metre) 0.25 1 3 = .ok samples ∧
        resampleMPCTrajectoryByDistance fuel metre 0.25 1 3 = .ok (true, output) :=
  resample_wellFormed metre 0.25 3 1 (by decide) (by simp [arcLength_metre])
    (by norm_num [arcLength_metre]) (by decide) (by norm_num)

end SafetyIsland.MPCUtils

import SafetyIsland.Mpc.Filter

namespace SafetyIsland.Mpc

open Exact Signal PowerSeries

namespace Butterworth2dFilter

def exact (f : Butterworth2dFilter ℝ) : Butterworth2dFilter Exact where
  y1 := number f.y1
  y2 := number f.y2
  u1 := number f.u1
  u2 := number f.u2
  a1 := number f.a1
  a2 := number f.a2
  b0 := number f.b0
  b1 := number f.b1
  b2 := number f.b2

def response (f : Butterworth2dFilter ℝ) : ℕ → ℝ
  | 0     => f.b0
  | 1     => f.b1 + f.a1 * f.b0
  | 2     => f.b2 + f.a1 * (f.b1 + f.a1 * f.b0) + f.a2 * f.b0
  | n + 3 => f.a1 * f.response (n + 2) + f.a2 * f.response (n + 1)

-- The largest answer at the `n`-th tick to inputs that are bounded by one.
noncomputable def gain (f : Butterworth2dFilter ℝ) (n : ℕ) : ℝ :=
  ∑ k ∈ Finset.range (n + 1), |f.response k|

structure AtRest (f : Butterworth2dFilter ℝ) : Prop where
  y1 : f.y1 = 0
  y2 : f.y2 = 0
  u1 : f.u1 = 0
  u2 : f.u2 = 0

def next (f : Butterworth2dFilter ℝ) (u0 : ℝ) : Butterworth2dFilter ℝ :=
  { f with
    y2 := f.y1
    y1 := f.b2 * f.u2 + f.b1 * f.u1 + f.b0 * u0 + f.a2 * f.y2 + f.a1 * f.y1
    u2 := f.u1
    u1 := u0 }

theorem filter_exact (f : Butterworth2dFilter ℝ) (u0 : ℝ) :
    f.exact.filter (number u0) = (number (f.next u0).y1, (f.next u0).exact) :=
  rfl

def after (f : Butterworth2dFilter ℝ) (u : ℕ → ℝ) : ℕ → Butterworth2dFilter ℝ
  | 0     => f
  | n + 1 => (f.after u n).next (u n)

variable {f : Butterworth2dFilter ℝ} {u : ℕ → ℝ}

noncomputable def recursive (f : Butterworth2dFilter ℝ) : Recursive ℝ :=
  .secondOrder f.b0 f.b1 f.b2 f.a1 f.a2

theorem coeff_impulse (f : Butterworth2dFilter ℝ) (n : ℕ) :
    coeff n f.recursive.impulse = f.response n := by
  have ⟨h₀, h₁, h₂⟩ := Recursive.secondOrder_answers_iff.mp f.recursive.answers_impulse
  induction n using response.induct with
  | case1 => simpa [response, recursive] using h₀
  | case2 =>
    rw [h₁, h₀]
    simp [coeff_one, response]
  | case3 =>
    rw [h₂ 0, h₁, h₀]
    simp [coeff_one, response]
  | case4 n ih₂ ih₁ =>
    show coeff (n + 1 + 2) f.recursive.impulse = _
    rw [h₂ (n + 1)]
    simp [coeff_one, response, ←ih₁, ←ih₂]

theorem after_eq (f : Butterworth2dFilter ℝ) (u : ℕ → ℝ) (n : ℕ) :
    f.after u n = { f with
      y1 := (f.after u n).y1
      y2 := (f.after u n).y2
      u1 := (f.after u n).u1
      u2 := (f.after u n).u2 } := by
  induction n with
  | zero      => rfl
  | succ n ih => rw [after, ih]; rfl

-- The signal of the answers to `u`.
noncomputable def answer (f : Butterworth2dFilter ℝ) (u : ℕ → ℝ) : PowerSeries ℝ :=
  .mk fun n => (f.after u (n + 1)).y1

theorem after_succ_y1 (n : ℕ) :
    (f.after u (n + 1)).y1 = f.b2 * (f.after u n).u2 + f.b1 * (f.after u n).u1 + f.b0 * u n +
      f.a2 * (f.after u n).y2 + f.a1 * (f.after u n).y1 := by
  rw [after, after_eq]
  rfl

theorem recursive_answers (hr : f.AtRest) : f.recursive.Answers (.mk u) (f.answer u) := by
  rw [recursive, Recursive.secondOrder_answers_iff]
  simp only [answer, coeff_mk]
  refine ⟨?_, ?_, fun n => ?_⟩
  · rw [after_succ_y1]
    simp [after, hr.y1, hr.y2, hr.u1, hr.u2]
  · rw [after_succ_y1 1]
    simp [after, next, hr.y1, hr.u1]
    ring
  · rw [after_succ_y1 (n + 2)]
    simp only [after, next]
    ring

theorem coeff_answer (hr : f.AtRest) (n : ℕ) :
    (f.after u (n + 1)).y1 = coeff n (f.recursive.impulse * .mk u) := by
  rw [←(recursive_answers hr).eq_mul, answer, coeff_mk]

theorem abs_answer_le_iff {l m : ℝ} (hl : 0 ≤ l) (hr : f.AtRest) :
    (∀ u : ℕ → ℝ, (∀ k, |u k| ≤ l) → ∀ n, |(f.after u (n + 1)).y1| ≤ m) ↔
      ∀ n, f.gain n * l ≤ m := by
  simp only [gain, ←coeff_impulse]
  apply Iff.trans _ (bounded_answer_iff hl)
  constructor
  case mp =>
    intro h u hu n
    have hn := h (fun k => coeff k u) hu n
    rwa [coeff_answer hr, PowerSeries.ext fun k => coeff_mk k fun k => coeff k u] at hn
  case mpr =>
    intro h u hu n
    rw [coeff_answer hr]
    exact h (.mk u) (by simpa using hu) n

-- A tick reads every coefficient, so its answer is a number only if they all are.
theorem exists_exact {f : Butterworth2dFilter Exact} {y y₁ y₂ u u₁ u₂ : ℝ} (h₁ : f.y1 = number y₁)
    (h₂ : f.y2 = number y₂) (h₃ : f.u1 = number u₁) (h₄ : f.u2 = number u₂)
    (h : f.output (number u) = number y) : ∃ g : Butterworth2dFilter ℝ, f = g.exact := by
  have ⟨h, ha₁⟩ := exists_number_of_add h
  have ⟨_, h⟩ := h
  have ⟨h, ha₂⟩ := exists_number_of_add h
  have ⟨_, h⟩ := h
  have ⟨h, hb₀⟩ := exists_number_of_add h
  have ⟨_, h⟩ := h
  have ⟨hb₂, hb₁⟩ := exists_number_of_add h
  have ⟨a₁, ha₁⟩ := (exists_number_of_mul ha₁.choose_spec).1
  have ⟨a₂, ha₂⟩ := (exists_number_of_mul ha₂.choose_spec).1
  have ⟨b₀, hb₀⟩ := (exists_number_of_mul hb₀.choose_spec).1
  have ⟨b₁, hb₁⟩ := (exists_number_of_mul hb₁.choose_spec).1
  have ⟨b₂, hb₂⟩ := (exists_number_of_mul hb₂.choose_spec).1
  exists ⟨y₁, y₂, u₁, u₂, a₁, a₂, b₀, b₁, b₂⟩
  cases f
  simp_all [exact]

theorem AtRest.of_initialized {libc : Libc Exact} {dt fCutoffHz : Exact}
    (h : initialized libc dt fCutoffHz = f.exact) : f.AtRest where
  y1 := (number.inj (congrArg Butterworth2dFilter.y1 h).symm).trans (by norm_num)
  y2 := (number.inj (congrArg Butterworth2dFilter.y2 h).symm).trans (by norm_num)
  u1 := (number.inj (congrArg Butterworth2dFilter.u1 h).symm).trans (by norm_num)
  u2 := (number.inj (congrArg Butterworth2dFilter.u2 h).symm).trans (by norm_num)

end Butterworth2dFilter

def saturate (lim v : ℝ) : ℝ :=
  max (-lim) (min v lim)

variable {lim v : ℝ}

theorem clamp_number (hl : 0 ≤ lim) :
    stdClamp (number v) (-number lim) (number lim) = number (saturate lim v) := by
  simp only [stdClamp, number_neg, number_lt, saturate]
  split_ifs
  case pos h     => rw [min_eq_left (by linarith), max_eq_left h.le]
  case pos h₁ h₂ => rw [min_eq_right h₂.le, max_eq_right (by linarith)]
  case neg h₁ h₂ => rw [min_eq_left (not_lt.mp h₂), max_eq_right (not_lt.mp h₁)]

theorem abs_saturate_le (hl : 0 ≤ lim) : |saturate lim v| ≤ lim :=
  abs_le.mpr ⟨le_max_left _ _, max_le (by linarith) (min_le_right _ _)⟩

theorem saturate_eq (hv : |v| ≤ lim) : saturate lim v = v := by
  have ⟨h₁, h₂⟩ := abs_le.mp hv
  rw [saturate, min_eq_left h₂, max_eq_right h₁]

namespace Steering

variable {m : Steering Exact} {f : Butterworth2dFilter ℝ} {u : ℕ → ℝ}

theorem within_number {angle : ℝ} :
    Within (number lim) (number angle) ↔ |angle| ≤ lim + 1e-3 := by
  simp [Within, abs_le]

theorem stateAt_exact (hl : 0 ≤ lim) (hm : m.steerLim = number lim)
    (hf : m.lpfSteeringCmd = f.exact) (n : ℕ) :
    (m.stateAt (fun k => number (u k)) n).steerLim = number lim ∧
    (m.stateAt (fun k => number (u k)) n).lpfSteeringCmd =
      (f.after (fun k => saturate lim (u k)) n).exact := by
  induction n with
  | zero      => exact ⟨hm, hf⟩
  | succ n ih =>
    have ⟨hm, hf⟩ := ih
    simp only [stateAt, calculateMPC, hm, hf, clamp_number hl, Butterworth2dFilter.filter_exact]
    exact ⟨trivial, rfl⟩

theorem angleAt_exact (hl : 0 ≤ lim) (hm : m.steerLim = number lim)
    (hf : m.lpfSteeringCmd = f.exact) (n : ℕ) :
    m.angleAt (fun k => number (u k)) n =
      number (f.after (fun k => saturate lim (u k)) (n + 1)).y1 := by
  have ⟨hm, hf⟩ := stateAt_exact (u := u) hl hm hf n
  simp only [angleAt, calculateMPC, hm, hf, clamp_number hl, Butterworth2dFilter.filter_exact]
  rfl

theorem exists_number_of_within {angle : Exact} (h : Within (number lim) angle) :
    ∃ y, angle = number y := by
  match angle, h with
  | number y, _ => exists y

variable {libc : Libc Exact} {ctrlPeriod steeringLpfCutoffHz : ℝ} {delayStep : ℕ}

theorem exists_exact_of_within (hl : 0 ≤ lim)
    (h : Within (number lim)
      ((initial libc (number ctrlPeriod) (number steeringLpfCutoffHz) (number lim) delayStep).angleAt
        (fun _ => number 0) 0)) :
    ∃ f : Butterworth2dFilter ℝ,
      .initialized libc (number ctrlPeriod) (number steeringLpfCutoffHz) = f.exact := by
  have ⟨y, hy⟩ := exists_number_of_within h
  simp only [angleAt, stateAt, initial, calculateMPC, clamp_number hl] at hy
  exact Butterworth2dFilter.exists_exact rfl rfl rfl rfl hy

-- The angles stay within the bound for every sequence of optimiser outputs exactly when the
-- coefficients exist and their gain is small enough.
theorem stays_within_iff (libc : Libc Exact) (ctrlPeriod steeringLpfCutoffHz : ℝ) {lim : ℝ}
    (delayStep : ℕ) (hl : 0 ≤ lim) :
    (∀ (uex0 : ℕ → ℝ) (n : ℕ), Within (number lim)
      ((initial libc (number ctrlPeriod) (number steeringLpfCutoffHz) (number lim) delayStep).angleAt
        (fun k => number (uex0 k)) n)) ↔
    ∃ f : Butterworth2dFilter ℝ,
      .initialized libc (number ctrlPeriod) (number steeringLpfCutoffHz) = f.exact ∧
      ∀ n, f.gain n * lim ≤ lim + 1e-3 := by
  constructor
  case mp =>
    intro h
    have ⟨f, hf⟩ := exists_exact_of_within hl (h (fun _ => 0) 0)
    refine ⟨f, hf, (Butterworth2dFilter.abs_answer_le_iff hl (.of_initialized hf)).mp ?_⟩
    intro u hu n
    have hw := h u n
    rw [angleAt_exact hl rfl hf, within_number] at hw
    simpa only [saturate_eq (hu _)] using hw
  case mpr =>
    intro ⟨f, hf, hg⟩ u n
    rw [angleAt_exact hl rfl hf, within_number]
    exact (Butterworth2dFilter.abs_answer_le_iff hl (.of_initialized hf)).mpr hg _
      (fun k => abs_saturate_le hl) n

namespace Sample

noncomputable def realLibc : Libc Exact where
  tan
    | number x  => number (Real.tan x)
    | undefined => undefined
  sqrt
    | number x  => number (Real.sqrt x)
    | undefined => undefined

-- The library as it answers for a cutoff of 3 Hz at the default control period.
def doubleLibc : Libc Float where
  tan x  := if x == 1.413716694115407 then 6.313751514675041 else 0.0
  sqrt x := if x == 2.0 then 1.4142135623730951 else 0.0

def steering : Steering Float :=
  .initial doubleLibc 0.15 3.0 0.7 0

end Sample

theorem stays_within_iff_default :
    (∀ (uex0 : ℕ → ℝ) (n : ℕ), Within (number 0.7)
      ((initial Sample.realLibc (number 0.15) (number 3) (number 0.7) 0).angleAt
        (fun k => number (uex0 k)) n)) ↔
    ∃ f : Butterworth2dFilter ℝ,
      .initialized Sample.realLibc (number 0.15) (number 3) = f.exact ∧
      ∀ n, f.gain n * 0.7 ≤ 0.7 + 1e-3 :=
  stays_within_iff Sample.realLibc 0.15 3 0 (by norm_num)

-- Two saturated ticks already leave the bound, and the gate refuses the angle.
theorem saturated_overshoots :
    ¬Within 0.7 (Sample.steering.angleAt (fun _ => 0.7) 1) ∧
    Supervision.envelopeViolation (Sample.steering.angleAt (fun _ => 0.7) 1) 0.0 0.0
      { maxSteeringRad := 0.7 + 1e-3, maxAbsVelocityMps := 60.0, maxAbsAccelMps2 := 6.0 } =
      some "steering out of range" := by
  simp only [Within]
  decide +kernel

end Steering
end SafetyIsland.Mpc

import SafetyIsland.Reference.Selection

namespace SafetyIsland.VpReference

open OnReal

section

variable {knots speeds : List ℝ} {s t hold dt : ℝ} {lo hi fuel i j : ℕ}

theorem bisect_succ (knots : List ℝ) (s : ℝ) (fuel lo hi : ℕ) :
    bisect knots s (fuel + 1) lo hi =
      if lo + 1 < hi then
        if knots.getD ((lo + hi) / 2) 0 < s then bisect knots s fuel ((lo + hi) / 2) hi
        else bisect knots s fuel lo ((lo + hi) / 2)
      else (lo, hi) := by
  rw [bisect]
  norm_num

-- The two knots of an interval that the arc length lies in.
structure Bracket (knots : List ℝ) (s : ℝ) (lo hi : ℕ) : Prop where
  lt    : lo < hi
  below : knots.getD lo 0 < s
  above : s ≤ knots.getD hi 0

namespace Bracket

-- Each round keeps the bracket and halves it, so that the fuel is never used up.
theorem bisect (b : Bracket knots s lo hi) (hf : hi ≤ lo + fuel + 1) :
    Bracket knots s (bisect knots s fuel lo hi).1 (bisect knots s fuel lo hi).2 ∧
    (VpReference.bisect knots s fuel lo hi).2 = (VpReference.bisect knots s fuel lo hi).1 + 1 ∧
    (VpReference.bisect knots s fuel lo hi).2 ≤ hi := by
  induction fuel generalizing lo hi
  case zero =>
    have := b.lt
    exact ⟨b, by simp [VpReference.bisect]; omega, le_rfl⟩
  case succ fuel ih =>
    rw [bisect_succ]
    split_ifs with h hm
    case pos => exact ih ⟨by omega, hm, b.above⟩ (by omega)
    case neg =>
      have hb : Bracket knots s lo ((lo + hi) / 2) := ⟨by omega, b.below, not_lt.mp hm⟩
      obtain ⟨b', h₁, h₂⟩ := ih hb (by omega)
      exact ⟨b', h₁, by omega⟩
    case neg =>
      have := b.lt
      exact ⟨b, by omega, le_rfl⟩

-- More fuel changes nothing: the loop has ended by its own condition.
theorem bisect_fuel (b : Bracket knots s lo hi) (hf : hi ≤ lo + fuel + 1) (n : ℕ) :
    VpReference.bisect knots s (fuel + n) lo hi = VpReference.bisect knots s fuel lo hi := by
  induction fuel generalizing lo hi
  case zero =>
    have := b.lt
    cases n
    case zero   => rfl
    case succ n => rw [Nat.zero_add, bisect_succ, if_neg (by omega)]; rfl
  case succ fuel ih =>
    rw [Nat.add_right_comm, bisect_succ, bisect_succ]
    split_ifs with h hm
    case pos => exact ih ⟨by omega, hm, b.above⟩ (by omega)
    case neg => exact ih ⟨by omega, b.below, not_lt.mp hm⟩ (by omega)
    case neg => rfl

theorem unique (hk : knots.Pairwise (· ≤ ·)) (b : Bracket knots s i (i + 1))
    (b' : Bracket knots s j (j + 1)) (hi : i + 1 < knots.length) (hj : j + 1 < knots.length) :
    i = j := by
  by_contra hne
  rcases Nat.lt_or_gt_of_ne hne with h | h
  · have := getD_mono hk (Nat.succ_le_of_lt h) (by omega)
    linarith [b.above, b'.below]
  · have := getD_mono hk (Nat.succ_le_of_lt h) (by omega)
    linarith [b'.above, b.below]

end Bracket

-- The share of the gap between two knots that lies before `s`.
noncomputable def fraction (knots : List ℝ) (s : ℝ) (lo hi : ℕ) : ℝ :=
  let seg := knots.getD hi 0 - knots.getD lo 0
  if seg ≤ 1e-9 then 0 else (s - knots.getD lo 0) / seg

theorem Bracket.fraction_nonneg (b : Bracket knots s lo hi) : 0 ≤ fraction knots s lo hi := by
  have := b.below
  have := b.above
  rw [fraction]
  split_ifs
  · exact le_rfl
  · exact div_nonneg (by linarith) (by linarith)

theorem Bracket.fraction_le_one (b : Bracket knots s lo hi) : fraction knots s lo hi ≤ 1 := by
  have := b.below
  have := b.above
  rw [fraction]
  split_ifs
  · exact zero_le_one
  · exact (div_le_one (by linarith)).mpr (by linarith)

theorem fraction_mono (h : s ≤ t) : fraction knots s lo hi ≤ fraction knots t lo hi := by
  rw [fraction, fraction]
  split_ifs with hg
  · exact le_rfl
  · have : (0 : ℝ) < knots.getD hi 0 - knots.getD lo 0 := by linarith [not_le.mp hg]
    gcongr

theorem sampleSpatial_nonpos (h : s ≤ 0) :
    sampleSpatial knots speeds s hold dt = (max 0 (speeds.headD 0), 0) := by
  rw [sampleSpatial, if_pos (by norm_num; exact h)]
  norm_num

theorem sampleSpatial_beyond (h₀ : 0 < s) (h : knots.getLastD 0 ≤ s) :
    sampleSpatial knots speeds s hold dt =
      (max 0 hold,
        (knots.length - 1 : ℕ) * dt + (s - knots.getLastD 0) / max hold 0.3) := by
  rw [sampleSpatial, if_neg (by norm_num; exact h₀), if_pos (by norm_num; simpa using h)]
  norm_num

theorem sampleSpatial_between (h₀ : 0 < s) (h : s < knots.getLastD 0)
    (hb : bisect knots s knots.length 0 (knots.length - 1) = (lo, hi)) :
    sampleSpatial knots speeds s hold dt =
      (max 0 (speeds.getD lo 0 * (1 - fraction knots s lo hi) +
          speeds.getD hi 0 * fraction knots s lo hi),
        (lo + fraction knots s lo hi) * dt) := by
  rw [sampleSpatial, if_neg (by norm_num; exact h₀), if_neg (by norm_num; simpa using h), hb]
  norm_num [fraction]

-- The arithmetic with another division.
@[reducible] noncomputable def withDiv (div : ℝ → ℝ → ℝ) : Scalar ℝ :=
  { scalarReal with toDiv := ⟨div⟩ }

theorem bisect_withDiv (div : ℝ → ℝ → ℝ) (knots : List ℝ) (s : ℝ) (fuel lo hi : ℕ) :
    @bisect ℝ (withDiv div) knots s fuel lo hi = bisect knots s fuel lo hi := by
  induction fuel generalizing lo hi
  case zero         => rfl
  case succ fuel ih => simp only [bisect, ih]

theorem sampleSpatial_withDiv {div : ℝ → ℝ → ℝ} (h : ∀ x y, 1e-9 < y → div x y = x / y)
    (knots speeds : List ℝ) (s hold dt : ℝ) :
    @sampleSpatial ℝ (withDiv div) knots speeds s hold dt =
      sampleSpatial knots speeds s hold dt := by
  have hmax : (1e-9 : ℝ) < max hold 0.3 := lt_max_of_lt_right (by norm_num)
  rw [← stdMax_real] at hmax
  simp only [sampleSpatial, bisect_withDiv]
  refine ite_congr rfl (fun _ => rfl) fun _ => ite_congr rfl (fun _ => ?_) fun _ => ?_
  · exact congrArg (fun q => (stdMax 0.0 hold, ((knots.length - 1 : ℕ) : ℝ) * dt + q))
      (h _ _ hmax)
  · generalize bisect knots s knots.length 0 (knots.length - 1) = b
    exact congrArg (fun f => (stdMax 0.0 (speeds.getD b.1 0.0 * (1.0 - f) +
        speeds.getD b.2 0.0 * f), ((b.1 : ℝ) + f) * dt))
      (ite_congr rfl (fun _ => rfl) fun hg => h _ _ (not_le.mp hg))

-- The arc lengths that the trapezoid rule gives for a horizon, as `convert` builds them.
noncomputable def scheduleKnots (dt : ℝ) (h : List ℝ) : List ℝ :=
  0.0 :: arcKnots dt 0.0 h

theorem arcKnots_cons (dt s v w : ℝ) (vs : List ℝ) :
    arcKnots dt s (v :: w :: vs) =
      (s + 1 / 2 * (v + w) * dt) :: arcKnots dt (s + 1 / 2 * (v + w) * dt) (w :: vs) := by
  rw [arcKnots]
  norm_num

theorem length_arcKnots (dt s : ℝ) (h : List ℝ) : (arcKnots dt s h).length = h.length - 1 := by
  induction h generalizing s
  case nil => rfl
  case cons v vs ih =>
    cases vs
    case nil        => rfl
    case cons w vs => simp [arcKnots_cons, ih]

theorem arcKnots_sorted (hdt : 0 ≤ dt) (s : ℝ) {h : List ℝ} (hn : ∀ v ∈ h, 0 ≤ v) :
    (s :: arcKnots dt s h).Pairwise (· ≤ ·) := by
  induction h generalizing s
  case nil => simp [arcKnots]
  case cons v vs ih =>
    cases vs
    case nil        => simp [arcKnots]
    case cons w vs =>
      have hv : 0 ≤ v := hn v (by simp)
      have hw : 0 ≤ w := hn w (by simp)
      have hs : s ≤ s + 1 / 2 * (v + w) * dt := le_add_of_nonneg_right (by positivity)
      have hk := ih (s + 1 / 2 * (v + w) * dt) fun x hx => hn x (List.mem_cons_of_mem _ hx)
      rw [arcKnots_cons]
      refine List.pairwise_cons.mpr ⟨fun x hx => ?_, hk⟩
      rcases List.mem_cons.mp hx with rfl | hx
      · exact hs
      · exact hs.trans (List.rel_of_pairwise_cons hk hx)

theorem length_scheduleKnots (hl : 1 ≤ speeds.length) :
    (scheduleKnots dt speeds).length = speeds.length := by
  simp [scheduleKnots, length_arcKnots]
  omega

theorem scheduleKnots_sorted (hdt : 0 ≤ dt) (hn : ∀ v ∈ speeds, 0 ≤ v) :
    (scheduleKnots dt speeds).Pairwise (· ≤ ·) :=
  arcKnots_sorted hdt _ hn

theorem scheduleKnots_head : (scheduleKnots dt speeds).getD 0 0 = 0 := by
  norm_num [scheduleKnots]

theorem getLastD_eq_getD (knots : List ℝ) :
    knots.getLastD 0 = knots.getD (knots.length - 1) 0 := by
  simp [List.getLastD_eq_getLast?, List.getLast?_eq_getElem?]

theorem Bracket.ends (h₀ : knots.getD 0 0 ≤ 0) (hs : 0 < s) (h : s < knots.getLastD 0) :
    Bracket knots s 0 (knots.length - 1) where
  lt    := by
    rw [getLastD_eq_getD] at h
    refine Nat.pos_of_ne_zero fun he => ?_
    rw [he] at h
    linarith
  below := by linarith
  above := getLastD_eq_getD knots ▸ h.le

theorem exists_bracket (h₀ : knots.getD 0 0 ≤ 0) (hs : 0 < s) (h : s < knots.getLastD 0) :
    ∃ lo, lo + 1 < knots.length ∧ Bracket knots s lo (lo + 1) ∧
      bisect knots s knots.length 0 (knots.length - 1) = (lo, lo + 1) := by
  have b := Bracket.ends h₀ hs h
  have hf : knots.length - 1 ≤ 0 + knots.length + 1 := by omega
  obtain ⟨b', h₁, h₂⟩ := b.bisect hf
  have := b.lt
  exact ⟨(bisect knots s knots.length 0 (knots.length - 1)).1, by omega, h₁ ▸ b', Prod.ext rfl h₁⟩

theorem Bracket.time_mem (b : Bracket knots s lo hi) (hdt : 0 ≤ dt) :
    lo * dt ≤ (lo + fraction knots s lo hi) * dt ∧
    (lo + fraction knots s lo hi) * dt ≤ (lo + 1) * dt := by
  have := b.fraction_nonneg
  have := b.fraction_le_one
  constructor <;> gcongr
  linarith

theorem time_nonneg (h₀ : knots.getD 0 0 ≤ 0) (hdt : 0 ≤ dt) (s : ℝ) :
    0 ≤ (sampleSpatial knots speeds s hold dt).2 := by
  rcases le_or_gt s 0 with hs | hs
  · rw [sampleSpatial_nonpos hs]
  rcases le_or_gt (knots.getLastD 0) s with h | h
  · rw [sampleSpatial_beyond hs h]
    have : 0 < max hold 0.3 := lt_max_of_lt_right (by norm_num)
    have := sub_nonneg.mpr h
    positivity
  · obtain ⟨lo, -, b, hb⟩ := exists_bracket h₀ hs h
    rw [sampleSpatial_between hs h hb]
    exact (by positivity : 0 ≤ lo * dt).trans (b.time_mem hdt).1

theorem time_mono (hk : knots.Pairwise (· ≤ ·)) (h₀ : knots.getD 0 0 ≤ 0) (hdt : 0 ≤ dt) :
    Monotone fun s => (sampleSpatial knots speeds s hold dt).2 := by
  intro s t hst
  dsimp only
  rcases le_or_gt s 0 with hs | hs
  · rw [sampleSpatial_nonpos hs]
    exact time_nonneg h₀ hdt t
  have ht : 0 < t := hs.trans_le hst
  have hpos : 0 < max hold 0.3 := lt_max_of_lt_right (by norm_num)
  rcases le_or_gt (knots.getLastD 0) s with h | h
  · rw [sampleSpatial_beyond hs h, sampleSpatial_beyond ht (h.trans hst)]
    dsimp only
    gcongr
  obtain ⟨i, hi, b, hb⟩ := exists_bracket h₀ hs h
  rw [sampleSpatial_between hs h hb]
  rcases le_or_gt (knots.getLastD 0) t with h' | h'
  · rw [sampleSpatial_beyond ht h']
    have hle : ((i + 1 : ℕ) : ℝ) ≤ (knots.length - 1 : ℕ) := by exact_mod_cast (by omega)
    have hd : 0 ≤ (t - knots.getLastD 0) / max hold 0.3 :=
      div_nonneg (sub_nonneg.mpr h') hpos.le
    calc (i + fraction knots s i (i + 1)) * dt
      _ ≤ (i + 1) * dt                         := (b.time_mem hdt).2
      _ ≤ (knots.length - 1 : ℕ) * dt          := by push_cast at hle ⊢; gcongr
      _ ≤ _                                    := le_add_of_nonneg_right hd
  · obtain ⟨j, hj, b', hb'⟩ := exists_bracket h₀ ht h'
    rw [sampleSpatial_between ht h' hb']
    rcases lt_trichotomy i j with hij | rfl | hij
    · have hle : ((i + 1 : ℕ) : ℝ) ≤ j := by exact_mod_cast hij
      calc (i + fraction knots s i (i + 1)) * dt
        _ ≤ (i + 1) * dt := (b.time_mem hdt).2
        _ ≤ j * dt       := by push_cast at hle; gcongr
        _ ≤ _            := (b'.time_mem hdt).1
    · have : fraction knots s i (i + 1) ≤ fraction knots t i (i + 1) := fraction_mono hst
      dsimp only
      gcongr
    · have := getD_mono hk (Nat.succ_le_of_lt hij) (by omega)
      linarith [b.below, b'.above]

theorem Bracket.speed_mem (b : Bracket knots s lo hi) (hlo : 0 ≤ speeds.getD lo 0) :
    max 0 (speeds.getD lo 0 * (1 - fraction knots s lo hi) +
        speeds.getD hi 0 * fraction knots s lo hi) ∈
      Set.Icc (min (speeds.getD lo 0) (speeds.getD hi 0))
        (max (speeds.getD lo 0) (speeds.getD hi 0)) := by
  have h₀ := b.fraction_nonneg
  have h₁ := sub_nonneg.mpr b.fraction_le_one
  rw [mul_comm _ (1 - _), mul_comm _ (fraction ..)]
  constructor
  · exact (Convex.min_le_combo _ _ h₁ h₀ (by ring)).trans (le_max_right _ _)
  · exact max_le (hlo.trans (le_max_left _ _)) (Convex.combo_le_max _ _ h₁ h₀ (by ring))

theorem getD_nonneg (hn : ∀ v ∈ speeds, 0 ≤ v) (i : ℕ) : 0 ≤ speeds.getD i 0 := by
  rcases lt_or_ge i speeds.length with h | h
  · rw [List.getD_eq_getElem _ _ h]
    exact hn _ (List.getElem_mem h)
  · rw [List.getD_eq_default _ _ h]

-- What the sampling of a schedule with the knots `knots` does.
structure Sampled (knots speeds : List ℝ) (hold dt : ℝ) : Prop where
  -- The search has ended when its fuel has, and at the only pair of neighbours around `s`.
  halts   : ∀ s, 0 < s → s < knots.getLastD 0 → ∀ n,
    bisect knots s (knots.length + n) 0 (knots.length - 1) =
      bisect knots s knots.length 0 (knots.length - 1)
  between : ∀ s, 0 < s → s < knots.getLastD 0 → ∃ lo,
    bisect knots s knots.length 0 (knots.length - 1) = (lo, lo + 1) ∧
    lo + 1 < knots.length ∧ Bracket knots s lo (lo + 1) ∧
    (∀ i, i + 1 < knots.length → Bracket knots s i (i + 1) → i = lo) ∧
    (sampleSpatial knots speeds s hold dt).1 ∈
      Set.Icc (min (speeds.getD lo 0) (speeds.getD (lo + 1) 0))
        (max (speeds.getD lo 0) (speeds.getD (lo + 1) 0))
  time    : Monotone fun s => (sampleSpatial knots speeds s hold dt).2
  -- The result does not depend on what a division by at most `1e-9` would give.
  divides : ∀ div : ℝ → ℝ → ℝ, (∀ x y, 1e-9 < y → div x y = x / y) → ∀ s,
    @sampleSpatial ℝ (withDiv div) knots speeds s hold dt = sampleSpatial knots speeds s hold dt

theorem samples_schedule (hn : ∀ v ∈ speeds, 0 ≤ v) (hl : 2 ≤ speeds.length) (hdt : 0 < dt) :
    (scheduleKnots dt speeds).length = speeds.length ∧
    Sampled (scheduleKnots dt speeds) speeds (speeds.getLastD 0) dt := by
  have hk := scheduleKnots_sorted hdt.le hn
  have h₀ : (scheduleKnots dt speeds).getD 0 0 ≤ 0 := scheduleKnots_head.le
  refine ⟨length_scheduleKnots (by omega), ?_⟩
  constructor
  case halts   => exact fun s hs h => (Bracket.ends h₀ hs h).bisect_fuel (by omega)
  case time    => exact time_mono hk h₀ hdt.le
  case divides => exact fun div hd s => sampleSpatial_withDiv hd ..
  case between =>
    intro s hs h
    obtain ⟨lo, hlo, b, hb⟩ := exists_bracket h₀ hs h
    refine ⟨lo, hb, hlo, b, fun i hi b' => b'.unique hk b hi hlo, ?_⟩
    rw [sampleSpatial_between hs h hb]
    exact b.speed_mem (getD_nonneg hn _)

theorem samples_schedule_stopping :
    (scheduleKnots 1 [2, 0, 0, 1]).length = [2, 0, 0, (1 : ℝ)].length ∧
    Sampled (scheduleKnots 1 [2, 0, 0, 1]) [2, 0, 0, 1] ([2, 0, 0, (1 : ℝ)].getLastD 0) 1 :=
  samples_schedule (by norm_num) (by decide) one_pos

end
end SafetyIsland.VpReference

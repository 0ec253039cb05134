import SafetyIsland.Reference.Densify
import SafetyIsland.Reference.Schedule

namespace SafetyIsland.VpReference

open OnReal

section

variable {α : Type} [Scalar α] [Libm α]

-- The selected points, with the ego in front of them if they begin too far away from it.
def led (ego : Pose2D α) (selected : List (Pose2D α)) : List (Pose2D α) :=
  let front := selected.headD ego
  if Libm.hypot (front.x - ego.x) (front.y - ego.y) > 0.5 then (ego :: selected).take kMaxPoints
  else selected

-- The speeds and the times of points at the given arc lengths.
def scheduled (h : List α) (dt : α) (lengths : List α) : List (α × α) :=
  lengths.map fun l =>
    sampleSpatial (0.0 :: arcKnots dt 0.0 h) h (l + kSpeedLeadM) (h.getLastD 0.0) dt

def fallback (h : List α) (dt : α) : α :=
  (h.getLastD 0.0 - h.headD 0.0) / stdMax (dt * ((h.length - 1 : ℕ) : α)) dt

def assembled (selected : List (Pose2D α)) (samples : List (α × α)) (accels : List α) :
    List (Point α) :=
  (selected.zip (samples.zip accels)).map fun (p, (v, t), acc) =>
    { x := p.x, y := p.y, yaw := p.yaw, velocityMps := v, timeFromStartS := t, accelerationMps2 := acc }

-- `convert` with the vector that it writes to, as the caller has left it.
def convertInto (a b c xMaxM : α) (ego : Pose2D α) (horizon : List α) (dt : α)
    (_out : List (Point α)) : Bool × List (Point α) :=
  let out : List (Point α) := []
  if ¬(0.0 : α) < xMaxM ∨ horizon.length < 2 ∨ ¬(0.0 : α) < dt then (false, out)
  else
    match samplePath a b c ego (stdMin xMaxM kExtentCapM) kMaxSamples 0.0 [] with
    | none       => (false, out)
    | some world =>
      let world := resample world kResampleStepM kExtentCapM
      let full := cumulativeArcLengths world
      if selectIndices full kExtentCapM kMaxPoints = [] then (false, out)
      else
        let selected := led ego ((chooseIndices full).filterMap (world[·]?))
        let h := horizon.map (stdMax 0.0)
        let samples := scheduled h dt (cumulativeArcLengths selected)
        let speeds := samples.map (·.1)
        let times := samples.map (·.2)
        let accels := accelerations speeds times (fallback h dt)
        if ¬(speeds ++ times ++ accels).all Scalar.isFinite then
          let out := []
          (false, out)
        else
          let out := out ++ assembled selected samples accels
          if out.length < kMinFollowerPoints then
            let out := []
            (false, out)
          else (true, out)

-- What `convert` hands on for a densified path.
def handedOn (ego : Pose2D α) (horizon : List α) (dt : α) (world : List (Pose2D α)) :
    Option (List (Point α)) :=
  let selected := led ego ((chooseIndices (cumulativeArcLengths world)).filterMap (world[·]?))
  let h := horizon.map (stdMax 0.0)
  let samples := scheduled h dt (cumulativeArcLengths selected)
  let speeds := samples.map (·.1)
  let times := samples.map (·.2)
  let accels := accelerations speeds times (fallback h dt)
  if ¬(speeds ++ times ++ accels).all Scalar.isFinite then none
  else if (assembled selected samples accels).length < kMinFollowerPoints then none
  else some (assembled selected samples accels)

theorem convert_eq (a b c xMaxM : α) (ego : Pose2D α) (horizon : List α) (dt : α) :
    convert a b c xMaxM ego horizon dt =
      if ¬(0.0 : α) < xMaxM ∨ horizon.length < 2 ∨ ¬(0.0 : α) < dt then none
      else (samplePath a b c ego (stdMin xMaxM kExtentCapM) kMaxSamples 0.0 []).bind fun world =>
        let world := resample world kResampleStepM kExtentCapM
        if selectIndices (cumulativeArcLengths world) kExtentCapM kMaxPoints = [] then none
        else handedOn ego horizon dt world :=
  rfl

theorem convertInto_eq (a b c xMaxM : α) (ego : Pose2D α) (horizon : List α) (dt : α)
    (out : List (Point α)) :
    convertInto a b c xMaxM ego horizon dt out =
      match convert a b c xMaxM ego horizon dt with
      | none     => (false, [])
      | some out => (true, out) := by
  rw [convertInto, convert_eq]
  split
  case isTrue => rfl
  case isFalse =>
    dsimp only
    cases samplePath a b c ego (stdMin xMaxM kExtentCapM) kMaxSamples 0.0 [] with
    | none => rfl
    | some world =>
      simp only [Option.bind_some, handedOn, List.nil_append]
      split
      case isTrue => rfl
      case isFalse =>
        split
        case isTrue => rfl
        case isFalse =>
          split
          case isTrue  => rfl
          case isFalse => rfl

end

section

variable {ego : Pose2D ℝ} {pts world : List (Pose2D ℝ)} {a b : Pose2D ℝ} {stepM : ℝ}

-- How far a point lies ahead of the ego, in the direction of the ego.
noncomputable def ahead (ego p : Pose2D ℝ) : ℝ :=
  (p.x - ego.x) * Real.cos ego.yaw + (p.y - ego.y) * Real.sin ego.yaw

abbrev Advances (ego : Pose2D ℝ) (pts : List (Pose2D ℝ)) : Prop :=
  pts.Pairwise fun p q => ahead ego p < ahead ego q

theorem samplePath_advances {a b c xLimit : ℝ} {fuel : ℕ} {x : ℝ} {world path : List (Pose2D ℝ)}
    (h : samplePath a b c ego xLimit fuel x world = some path) (hw : Advances ego world)
    (hx : ∀ p ∈ world, ahead ego p < x) : Advances ego path := by
  induction fuel generalizing x world with
  | zero => exact Option.some.inj h ▸ hw
  | succ fuel ih =>
    rw [samplePath] at h
    split at h
    case isFalse => exact Option.some.inj h ▸ hw
    case isTrue =>
      dsimp only at h
      rw [if_neg (by simp [Scalar.isFinite])] at h
      have hp {y yaw : ℝ} : ahead ego
          { x   := ego.x + x * Libm.cos ego.yaw - y * Libm.sin ego.yaw
            y   := ego.y + x * Libm.sin ego.yaw + y * Libm.cos ego.yaw
            yaw := yaw } = x := by
        simp only [ahead, Libm.cos, Libm.sin]
        linear_combination x * Real.cos_sq_add_sin_sq ego.yaw
      refine ih h ?_ ?_
      · rw [Advances, List.pairwise_append]
        refine ⟨hw, List.pairwise_singleton _ _, fun p hp' q hq => ?_⟩
        rw [List.mem_singleton.mp hq, hp]
        exact hx p hp'
      · intro p hm
        have : x < x + kPathSpacingM := by norm_num [kPathSpacingM]
        rcases List.mem_append.mp hm with hm | hm
        · exact (hx p hm).trans this
        · rwa [List.mem_singleton.mp hm, hp]

-- The fuel is enough: the loop ends by its own condition.
theorem samplePath_fuel {a b c xLimit : ℝ} {fuel : ℕ} {x : ℝ} {world : List (Pose2D ℝ)}
    (h : xLimit + 1e-9 < x + fuel) (n : ℕ) :
    samplePath a b c ego xLimit (fuel + n) x world = samplePath a b c ego xLimit fuel x world := by
  induction fuel generalizing x world with
  | zero =>
    cases n with
    | zero => rfl
    | succ n =>
      rw [Nat.cast_zero, add_zero] at h
      rw [Nat.zero_add, samplePath.eq_2, if_neg (not_le.mpr h)]
      rfl
  | succ fuel ih =>
    have hs : (1.0 : ℝ) = 1 := by norm_num
    rw [Nat.add_right_comm, samplePath, samplePath, kPathSpacingM]
    split
    case isFalse => rfl
    case isTrue =>
      dsimp only
      split
      case isTrue  => rfl
      case isFalse =>
        refine ih ?_
        push_cast at h
        rw [hs]
        linarith

theorem samplePath_kMaxSamples (a b c xMaxM : ℝ) (n : ℕ) :
    samplePath a b c ego (stdMin xMaxM kExtentCapM) (kMaxSamples + n) 0.0 [] =
      samplePath a b c ego (stdMin xMaxM kExtentCapM) kMaxSamples 0.0 [] := by
  refine samplePath_fuel ?_ n
  have hle : min xMaxM kExtentCapM ≤ 25.0 := min_le_right _ _
  rw [stdMin_real]
  refine (add_le_add_left hle _).trans_lt ?_
  norm_num [kMaxSamples]

theorem ahead_samplePoint {n k : ℕ} {dyaw : ℝ} :
    ahead ego (samplePoint a b dyaw n k) =
      ahead ego a + (k / n : ℝ) * (ahead ego b - ahead ego a) := by
  simp only [ahead, samplePoint, natCast_real]
  ring

theorem samplePoint_lt {n k l : ℕ} (dyaw : ℝ) (hab : ahead ego a < ahead ego b) (hn : 0 < n)
    (h : k < l) : ahead ego (samplePoint a b dyaw n k) < ahead ego (samplePoint a b dyaw n l) := by
  have hpos : (0 : ℝ) < n := by exact_mod_cast hn
  have := sub_pos.mpr hab
  rw [ahead_samplePoint, ahead_samplePoint]
  gcongr

theorem samplePoint_le {n k : ℕ} {dyaw : ℝ} (hab : ahead ego a < ahead ego b) (h : k ≤ n) :
    ahead ego (samplePoint a b dyaw n k) ≤ ahead ego b := by
  have hle : (k / n : ℝ) ≤ 1 := div_le_one_of_le₀ (by exact_mod_cast h) n.cast_nonneg
  have := mul_le_of_le_one_left (sub_pos.mpr hab).le hle
  rw [ahead_samplePoint]
  linarith

theorem densifyFrom_advances {bs : List (Pose2D ℝ)} (h : Advances ego (a :: bs)) :
    Advances ego (a :: densifyFrom stepM a bs) := by
  induction bs generalizing a with
  | nil => exact h
  | cons b bs ih =>
    have hab : ahead ego a < ahead ego b := List.rel_of_pairwise_cons h List.mem_cons_self
    have hrest := ih (List.Pairwise.of_cons h)
    have hb : ∀ p ∈ densifyFrom stepM b bs, ahead ego b < ahead ego p :=
      fun p hp => List.rel_of_pairwise_cons hrest hp
    rw [densifyFrom]
    dsimp only
    split
    case isTrue =>
      exact List.pairwise_cons.mpr ⟨fun p hp => hab.trans (hb p hp), List.Pairwise.of_cons hrest⟩
    case isFalse =>
      have hn := le_max_left 1 (Scalar.ceilToInt (stdMin
        (Libm.hypot (b.x - a.x) (b.y - a.y) / stepM) 1.0e6))
      generalize max 1 (Scalar.ceilToInt (stdMin
        (Libm.hypot (b.x - a.x) (b.y - a.y) / stepM) 1.0e6)) = n at hn
      have hn : 0 < n.toNat := by omega
      refine List.pairwise_cons.mpr ⟨fun p hp => ?_, List.pairwise_append.mpr
        ⟨?_, List.Pairwise.of_cons hrest, fun p hp q hq => ?_⟩⟩
      · rcases List.mem_append.mp hp with hp | hp
        · obtain ⟨k, hk, rfl⟩ := List.mem_map.mp hp
          have := samplePoint_lt (wrapAngle (b.yaw - a.yaw)) hab hn (List.mem_range'_1.mp hk).1
          rwa [ahead_samplePoint, Nat.cast_zero, zero_div, zero_mul, add_zero] at this
        · exact hab.trans (hb p hp)
      · have hr : (List.range' 1 n.toNat).Pairwise (· < ·) := List.pairwise_lt_range' ..
        exact List.pairwise_map.mpr (hr.imp (samplePoint_lt _ hab hn))
      · obtain ⟨k, hk, rfl⟩ := List.mem_map.mp hp
        have := (List.mem_range'_1.mp hk).2
        exact (samplePoint_le hab (by omega)).trans_lt (hb q hq)

theorem densify_advances (h : Advances ego pts) : Advances ego (densify pts stepM) := by
  match pts with
  | [] | [_]    => exact h
  | a :: b :: bs => exact densifyFrom_advances h

end

section

variable {l : List ℕ} {s : List ℝ}

theorem destutter_sorted (hs : l.Pairwise (· ≤ ·)) : (l.destutter (· ≠ ·)).Pairwise (· < ·) := by
  have hle := (hs.sublist (l.destutter_sublist (· ≠ ·))).isChain
  have hne := l.isChain_destutter (· ≠ ·)
  rw [List.isChain_iff_getElem] at hle hne
  refine List.isChain_iff_pairwise.mp (List.isChain_iff_getElem.mpr fun i hi => ?_)
  exact lt_of_le_of_ne (hle i hi) (hne i hi)

theorem chooseIndices_sorted (s : List ℝ) : (chooseIndices s).Pairwise (· < ·) :=
  (destutter_sorted (List.pairwise_insertionSort _ _)).sublist (List.take_sublist _ _)

theorem length_chooseIndices_le (s : List ℝ) : (chooseIndices s).length ≤ kMaxPoints :=
  List.length_take_le _ _

theorem pairwise_pick {α : Type} {r : α → α → Prop} {xs : List α} (hx : xs.Pairwise r)
    (hl : l.Pairwise (· < ·)) : (l.filterMap (xs[·]?)).Pairwise r := by
  rw [List.pairwise_filterMap]
  refine hl.imp ?_
  intro i j hij x hx' y hy'
  obtain ⟨hi, rfl⟩ := List.getElem?_eq_some_iff.mp hx'
  obtain ⟨hj, rfl⟩ := List.getElem?_eq_some_iff.mp hy'
  exact List.pairwise_iff_getElem.mp hx i j hi hj hij

end

section

variable {ego : Pose2D ℝ} {selected : List (Pose2D ℝ)} {h horizon : List ℝ} {dt : ℝ}

theorem length_led_le (hl : selected.length ≤ kMaxPoints) : (led ego selected).length ≤ kMaxPoints := by
  rw [led]
  split
  case isTrue  => exact List.length_take_le _ _
  case isFalse => exact hl

theorem led_distinct (hs : Advances ego selected) :
    (led ego selected).IsChain fun p q => p.position ≠ q.position := by
  have hchain : selected.IsChain fun p q => p.position ≠ q.position := by
    refine (hs.imp fun hlt he => ?_).isChain
    obtain ⟨hx, hy⟩ := Complex.ext_iff.mp he
    simp only [Pose2D.position] at hx hy
    rw [ahead, ahead, hx, hy] at hlt
    exact lt_irrefl _ hlt
  rw [led]
  split
  case isFalse => exact hchain
  case isTrue hd =>
    refine List.IsChain.take ?_ _
    cases selected with
    | nil => exact .singleton _
    | cons p ps =>
      refine .cons_cons (fun he => ?_) hchain
      rw [List.headD_cons, hypot_eq, he, dist_self] at hd
      norm_num at hd

theorem led_near (hne : led ego selected ≠ []) :
    ∃ p ∈ (led ego selected).head?, Libm.hypot (p.x - ego.x) (p.y - ego.y) ≤ 0.5 := by
  by_cases hd : Libm.hypot ((selected.headD ego).x - ego.x) ((selected.headD ego).y - ego.y) > 0.5
  case pos =>
    rw [led, if_pos hd]
    refine ⟨ego, rfl, ?_⟩
    rw [hypot_eq, dist_self]
    norm_num
  case neg =>
    rw [led, if_neg hd] at hne ⊢
    obtain ⟨p, ps, rfl⟩ := List.exists_cons_of_ne_nil hne
    exact ⟨p, rfl, not_lt.mp hd⟩

theorem clamped_nonneg : ∀ v ∈ horizon.map (stdMax 0.0), (0 : ℝ) ≤ v := by
  intro v hv
  obtain ⟨x, -, rfl⟩ := List.mem_map.mp hv
  rw [stdMax_real]
  norm_num

theorem speed_bounds (hn : ∀ v ∈ h, 0 ≤ v) (hne : h ≠ []) (s : ℝ) :
    0 ≤ (sampleSpatial (scheduleKnots dt h) h s (h.getLastD 0) dt).1 ∧
    ∃ v ∈ h, (sampleSpatial (scheduleKnots dt h) h s (h.getLastD 0) dt).1 ≤ v := by
  have hl := List.length_pos_iff.mpr hne
  have hget (i : ℕ) (hi : i < h.length) : h.getD i 0 ∈ h := by
    rw [List.getD_eq_getElem _ _ hi]
    exact List.getElem_mem hi
  have hmax (v : ℝ) (hv : v ∈ h) : 0 ≤ max 0 v ∧ ∃ w ∈ h, max 0 v ≤ w :=
    ⟨le_max_left _ _, v, hv, (max_eq_right (hn v hv)).le⟩
  rcases le_or_gt s 0 with hs | hs
  · rw [sampleSpatial_nonpos hs]
    refine hmax _ ?_
    obtain ⟨v, vs, rfl⟩ := List.exists_cons_of_ne_nil hne
    exact List.mem_cons_self
  rcases le_or_gt ((scheduleKnots dt h).getLastD 0) s with hk | hk
  · rw [sampleSpatial_beyond hs hk]
    refine hmax _ ?_
    rw [getLastD_eq_getD]
    exact hget _ (by omega)
  · obtain ⟨lo, hlo, b, hb⟩ := exists_bracket scheduleKnots_head.le hs hk
    rw [length_scheduleKnots hl] at hlo
    rw [sampleSpatial_between hs hk hb]
    obtain ⟨-, hle⟩ := b.speed_mem (getD_nonneg hn lo)
    refine ⟨le_max_left _ _, ?_⟩
    rcases le_max_iff.mp hle with hle | hle
    · exact ⟨_, hget lo (by omega), hle⟩
    · exact ⟨_, hget (lo + 1) hlo, hle⟩

end

-- What `convert` promises of the points that it hands on.
structure WellConverted (ego : Pose2D ℝ) (horizon : List ℝ) (out : List (Point ℝ)) : Prop where
  atLeast  : 3 ≤ out.length
  atMost   : out.length ≤ 13
  distinct : out.IsChain fun p q => (p.x, p.y) ≠ (q.x, q.y)
  -- The arc lengths that the controller interpolates over.
  keys     : (cumulativeArcLengths (out.map fun p => ⟨p.x, p.y, p.yaw⟩)).Pairwise (· < ·)
  near     : ∃ p ∈ out.head?, Libm.hypot (p.x - ego.x) (p.y - ego.y) ≤ 0.5
  times    : (out.map (·.timeFromStartS)).Pairwise (· ≤ ·)
  speeds   : ∀ p ∈ out, 0 ≤ p.velocityMps ∧ ∃ v ∈ horizon, p.velocityMps ≤ max 0 v
  stopped  : (∀ v ∈ horizon, v ≤ 0) → ∀ p ∈ out, p.velocityMps = 0 ∧ p.accelerationMps2 = 0

section

variable {ego : Pose2D ℝ} {world selected : List (Pose2D ℝ)} {samples : List (ℝ × ℝ)}
  {accels h horizon : List ℝ} {dt : ℝ} {out : List (Point ℝ)}

theorem length_accelerations (speeds times : List ℝ) (f : ℝ) :
    (accelerations speeds times f).length = speeds.length := by
  rw [accelerations]
  dsimp only
  split
  case isTrue h  => exact h.symm
  case isFalse h => simp

theorem assembled_parts (hs : samples.length = selected.length)
    (ha : accels.length = selected.length) :
    (assembled selected samples accels).map (fun p => (⟨p.x, p.y, p.yaw⟩ : Pose2D ℝ)) = selected ∧
    (assembled selected samples accels).map (fun p => (p.velocityMps, p.timeFromStartS)) = samples ∧
    (assembled selected samples accels).map (·.accelerationMps2) = accels := by
  have hz : (samples.zip accels).length = selected.length := by
    rw [List.length_zip, hs, ha, min_self]
  have hsnd : (selected.zip (samples.zip accels)).map Prod.snd = samples.zip accels :=
    List.map_snd_zip hz.le
  rw [assembled, List.map_map, List.map_map, List.map_map]
  refine ⟨List.map_fst_zip hz.ge, ?_, ?_⟩
  · calc _ = ((selected.zip (samples.zip accels)).map Prod.snd).map Prod.fst := by
            rw [List.map_map]
            rfl
      _ = samples := by rw [hsnd, List.map_fst_zip (hs.trans ha.symm).le]
  · calc _ = ((selected.zip (samples.zip accels)).map Prod.snd).map Prod.snd := by
            rw [List.map_map]
            rfl
      _ = accels := by rw [hsnd, List.map_snd_zip (ha.trans hs.symm).le]

theorem cumulativeArcLengths_strict {ps : List (Pose2D ℝ)}
    (h : ps.IsChain fun p q => p.position ≠ q.position) : (cumulativeArcLengths ps).Pairwise (· < ·) := by
  have hfrom (ps : List (Pose2D ℝ)) (s : ℝ) (p : Pose2D ℝ)
      (h : (p :: ps).IsChain fun p q => p.position ≠ q.position) :
      (s :: cumulativeArcLengthsFrom s p ps).IsChain (· < ·) := by
    induction ps generalizing s p with
    | nil => exact .singleton _
    | cons q qs ih =>
      obtain ⟨hpq, hqs⟩ := List.isChain_cons_cons.mp h
      rw [cumulativeArcLengthsFrom_cons]
      exact .cons_cons (lt_add_of_pos_right s (dist_pos.mpr hpq)) (ih _ _ hqs)
  cases ps with
  | nil => exact .nil
  | cons p ps => exact List.isChain_iff_pairwise.mp (hfrom ps _ p h)

theorem accelerations_zero {speeds times : List ℝ} (hs : ∀ v ∈ speeds, v = 0) :
    ∀ a ∈ accelerations speeds times 0, a = 0 := by
  have hget (i : ℕ) : speeds.getD i 0.0 = 0 := by
    rcases lt_or_ge i speeds.length with h | h
    · rw [List.getD_eq_getElem _ _ h]
      exact hs _ (List.getElem_mem h)
    · rw [List.getD_eq_default _ _ h]
      norm_num
  intro a ha
  rw [accelerations] at ha
  dsimp only at ha
  split at ha
  case isTrue => exact List.mem_singleton.mp ha
  case isFalse =>
    obtain ⟨i, -, rfl⟩ := List.mem_map.mp ha
    simp only [hget]
    split_ifs <;> norm_num

theorem clamped_zero (h : ∀ v ∈ horizon, v ≤ 0) : ∀ v ∈ horizon.map (stdMax 0.0), v = (0 : ℝ) := by
  intro v hv
  obtain ⟨x, hx, rfl⟩ := List.mem_map.mp hv
  rw [stdMax_real]
  norm_num
  exact h x hx

theorem fallback_zero (hz : ∀ v ∈ h, v = 0) : fallback h dt = 0 := by
  have hlast : h.getLastD 0.0 = 0 := by
    rw [List.getLastD_eq_getLast?]
    rcases hl : h.getLast? with - | v
    · norm_num
    · exact hz v (List.mem_of_getLast? hl)
  have hhead : h.headD 0.0 = 0 := by
    cases h with
    | nil => norm_num
    | cons v vs => exact hz v List.mem_cons_self
  rw [fallback, hlast, hhead, sub_zero, zero_div]

theorem length_scheduled (lengths : List ℝ) : (scheduled h dt lengths).length = lengths.length :=
  List.length_map _

theorem scheduled_bounds (hn : ∀ v ∈ h, 0 ≤ v) (hne : h ≠ []) {lengths : List ℝ} :
    ∀ s ∈ scheduled h dt lengths, 0 ≤ s.1 ∧ ∃ v ∈ h, s.1 ≤ v := by
  intro s hs
  obtain ⟨l, -, rfl⟩ := List.mem_map.mp hs
  have h0 : h.getLastD 0.0 = h.getLastD 0 := congrArg h.getLastD (by norm_num)
  rw [h0]
  exact speed_bounds hn hne _

theorem scheduled_times (hn : ∀ v ∈ h, 0 ≤ v) (hdt : 0 ≤ dt) {lengths : List ℝ}
    (hl : lengths.Pairwise (· ≤ ·)) : ((scheduled h dt lengths).map (·.2)).Pairwise (· ≤ ·) := by
  rw [scheduled, List.map_map, List.pairwise_map]
  refine hl.imp fun hle => ?_
  exact time_mono (scheduleKnots_sorted hdt hn) scheduleKnots_head.le hdt (by gcongr)

theorem wellConverted_assembled (hd : selected.IsChain fun p q => p.position ≠ q.position)
    (hmax : selected.length ≤ kMaxPoints)
    (hnear : ∃ p ∈ selected.head?, Libm.hypot (p.x - ego.x) (p.y - ego.y) ≤ 0.5)
    (hh : horizon ≠ []) (hdt : 0 < dt)
    (hs : samples = scheduled (horizon.map (stdMax 0.0)) dt (cumulativeArcLengths selected))
    (ha : accels = accelerations (samples.map (·.1)) (samples.map (·.2))
      (fallback (horizon.map (stdMax 0.0)) dt))
    (hmin : kMinFollowerPoints ≤ (assembled selected samples accels).length) :
    WellConverted ego horizon (assembled selected samples accels) := by
  have hn : ∀ v ∈ horizon.map (stdMax 0.0), (0 : ℝ) ≤ v := clamped_nonneg
  have hne : horizon.map (stdMax 0.0) ≠ [] := by simpa using hh
  have hls : samples.length = selected.length := by
    rw [hs, length_scheduled, length_cumulativeArcLengths]
  have hla : accels.length = selected.length := by
    rw [ha, length_accelerations, List.length_map, hls]
  obtain ⟨hp, hst, hac⟩ := assembled_parts hls hla
  generalize assembled selected samples accels = out at *
  have hlen : out.length = selected.length := by rw [← hp, List.length_map]
  have hspeed : ∀ p ∈ out, 0 ≤ p.velocityMps ∧ ∃ v ∈ horizon.map (stdMax 0.0), p.velocityMps ≤ v := by
    intro p hm
    have hm : (p.velocityMps, p.timeFromStartS) ∈ samples := hst ▸ List.mem_map_of_mem hm
    exact scheduled_bounds hn hne _ (hs ▸ hm)
  constructor
  case atLeast  => exact hmin
  case atMost   => exact hlen.trans_le hmax
  case distinct =>
    rw [← hp, List.isChain_map] at hd
    refine hd.imp fun p q hpq he => hpq ?_
    obtain ⟨hx, hy⟩ := Prod.mk.inj he
    exact Complex.ext hx hy
  case keys     => exact hp ▸ cumulativeArcLengths_strict hd
  case near     =>
    obtain ⟨p, hp', hle⟩ := hnear
    rw [← hp, List.head?_map] at hp'
    obtain ⟨r, hr, rfl⟩ := Option.map_eq_some_iff.mp hp'
    exact ⟨r, hr, hle⟩
  case times    =>
    have he : out.map (·.timeFromStartS) = samples.map (·.2) := by
      rw [← hst, List.map_map]
      rfl
    rw [he, hs]
    exact scheduled_times hn hdt.le (cumulativeArcLengths_sorted _)
  case speeds   =>
    intro p hm
    obtain ⟨h₀, v, hv, hle⟩ := hspeed p hm
    obtain ⟨x, hx, rfl⟩ := List.mem_map.mp hv
    refine ⟨h₀, x, hx, hle.trans_eq ?_⟩
    rw [stdMax_real]
    norm_num
  case stopped  =>
    intro hz p hm
    have hz := clamped_zero hz
    have hstop : ∀ s ∈ samples.map (·.1), s = 0 := by
      intro s hm
      obtain ⟨r, hr, rfl⟩ := List.mem_map.mp hm
      obtain ⟨h₀, v, hv, hle⟩ := scheduled_bounds hn hne _ (hs ▸ hr)
      exact le_antisymm (hle.trans_eq (hz v hv)) h₀
    obtain ⟨h₀, v, hv, hle⟩ := hspeed p hm
    refine ⟨le_antisymm (hle.trans_eq (hz v hv)) h₀, ?_⟩
    rw [fallback_zero hz] at ha
    exact accelerations_zero hstop _ (ha ▸ hac ▸ List.mem_map_of_mem hm)

theorem wellConverted (hw : Advances ego world) (hh : horizon ≠ []) (hdt : 0 < dt)
    (ho : handedOn ego horizon dt world = some out) : WellConverted ego horizon out := by
  rw [handedOn] at ho
  split at ho
  case isTrue => cases ho
  case isFalse =>
    split at ho
    case isTrue => cases ho
    case isFalse hmin =>
      obtain rfl := Option.some.inj ho
      have hpick := pairwise_pick hw (chooseIndices_sorted (cumulativeArcLengths world))
      have hlen : ((chooseIndices (cumulativeArcLengths world)).filterMap (world[·]?)).length ≤ kMaxPoints :=
        (List.length_filterMap_le _ _).trans (length_chooseIndices_le _)
      refine wellConverted_assembled (led_distinct hpick) (length_led_le hlen) (led_near fun he => ?_) hh hdt
        rfl rfl (not_lt.mp hmin)
      rw [he] at hmin
      exact hmin (Nat.succ_pos 2)

theorem handedOn_isSome : (handedOn ego horizon dt world).isSome = true ↔
    kMinFollowerPoints ≤ (led ego (picked world)).length := by
  rw [handedOn, picked]
  generalize led ego ((chooseIndices (cumulativeArcLengths world)).filterMap (world[·]?)) = selected
  set samples := scheduled (horizon.map (stdMax 0.0)) dt (cumulativeArcLengths selected) with hs
  have hl : samples.length = selected.length := by
    rw [hs, length_scheduled, length_cumulativeArcLengths]
  generalize ha : accelerations (samples.map (·.1)) (samples.map (·.2)) _ = accels
  have hla : accels.length = selected.length := by
    rw [← ha, length_accelerations, List.length_map, hl]
  have hlen : (assembled selected samples accels).length = selected.length := by
    rw [← congrArg List.length (assembled_parts hl hla).1, List.length_map]
  rw [if_neg (by simp [Scalar.isFinite]), hlen]
  split
  case isTrue h  => simpa using h
  case isFalse h => simpa using h

end

-- In exact arithmetic, whatever the vector has held before.
theorem convert_wellConverted (a b c xMaxM : ℝ) (ego : Pose2D ℝ) (horizon : List ℝ) (dt : ℝ)
    (out : List (Point ℝ)) :
    ((convertInto a b c xMaxM ego horizon dt out).1 = true →
      WellConverted ego horizon (convertInto a b c xMaxM ego horizon dt out).2) ∧
    ((convertInto a b c xMaxM ego horizon dt out).1 = false →
      (convertInto a b c xMaxM ego horizon dt out).2 = []) := by
  rw [convertInto_eq]
  rcases hc : convert a b c xMaxM ego horizon dt with - | out
  case none => exact ⟨fun h => (Bool.false_ne_true h).elim, fun _ => rfl⟩
  case some =>
    refine ⟨fun _ => ?_, fun h => (Bool.false_ne_true h.symm).elim⟩
    rw [convert_eq] at hc
    split at hc
    case isTrue => cases hc
    case isFalse hv =>
      obtain ⟨world, hs, hc⟩ := Option.bind_eq_some_iff.mp hc
      dsimp only at hc
      split at hc
      case isTrue => cases hc
      case isFalse =>
        have hpath := samplePath_advances hs .nil (by simp)
        have hcap : (0 : ℝ) < kExtentCapM := by norm_num [kExtentCapM]
        have hworld : Advances ego (resample world kResampleStepM kExtentCapM) :=
          (densify_advances hpath).sublist (resample_isPrefix hcap _).sublist
        push Not at hv
        have hdt : 0 < dt := (by norm_num : (0 : ℝ) = 0.0).trans_lt hv.2.2
        exact wellConverted hworld (List.ne_nil_of_length_pos (by omega)) hdt hc

theorem samplePath_straight : samplePath 0 0 0 (onAxis 0) (stdMin 1 kExtentCapM) kMaxSamples 0.0 [] =
    some [onAxis 0, onAxis 1] := by
  have hlim : stdMin (1 : ℝ) kExtentCapM = 1 := by
    rw [stdMin_real]
    norm_num [kExtentCapM]
  have hstep {x : ℝ} {fuel : ℕ} {world : List (Pose2D ℝ)} (h : x ≤ 1) :
      samplePath 0 0 0 (onAxis 0) 1 (fuel + 1) x world =
        samplePath 0 0 0 (onAxis 0) 1 fuel (x + 1) (world ++ [onAxis x]) := by
    have hle : x ≤ 1 + 1e-9 := by linarith [show (0 : ℝ) < 1e-9 by norm_num]
    have hs : (kPathSpacingM : ℝ) = 1 := by norm_num [kPathSpacingM]
    rw [samplePath, if_pos hle, hs]
    simp [onAxis, Scalar.isFinite, Libm.sin, Libm.cos, Libm.atan, wrapAngle_zero]
  have h0 : (0.0 : ℝ) = 0 := by norm_num
  rw [hlim, h0, kMaxSamples, hstep zero_le_one, zero_add, hstep le_rfl, samplePath, if_neg (by norm_num)]
  rfl

theorem densify_straight : densify [onAxis 0, onAxis 1] kResampleStepM =
    [onAxis 0, onAxis 0.25, onAxis 0.5, onAxis 0.75, onAxis 1] := by
  have hn : max 1 (Scalar.ceilToInt (stdMin ((1 : ℝ) / kResampleStepM) 1.0e6)) = 4 := by
    have h : stdMin ((1 : ℝ) / kResampleStepM) 1.0e6 = (4 : ℤ) := by
      rw [stdMin_real]
      norm_num [kResampleStepM]
    rw [h]
    show max 1 ⌈((4 : ℤ) : ℝ)⌉ = 4
    rw [Int.ceil_intCast]
    rfl
  have hh : Libm.hypot ((onAxis 1).x - (onAxis 0).x) ((onAxis 1).y - (onAxis 0).y) = (1 : ℝ) := by
    rw [hypot_onAxis zero_le_one, sub_zero]
  rw [densify, densifyFrom, hh]
  dsimp only
  rw [hn, if_neg (by norm_num), densifyFrom]
  norm_num [samplePoint, onAxis, wrapAngle_zero, show Int.toNat 4 = 4 from rfl, List.range'_succ]

theorem arcs_straight : cumulativeArcLengths
    [onAxis 0, onAxis 0.25, onAxis 0.5, onAxis 0.75, onAxis 1] =
    [0, 0.25, 0.5, 0.75, (1 : ℝ)] := by
  norm_num [cumulativeArcLengths, cumulativeArcLengthsFrom, onAxis, Libm.hypot]

theorem selectIndices_straight :
    selectIndices [0, 0.25, 0.5, 0.75, (1 : ℝ)] kExtentCapM kMaxPoints = [0, 1, 2, 3, 4] := by
  have hf : ∀ k < 5, nearestIndex [0, 0.25, 0.5, 0.75, (1 : ℝ)]
      (target [0, 0.25, 0.5, 0.75, (1 : ℝ)] kExtentCapM kMaxPoints k) = k := by
    have ht (k : ℕ) : target [0, 0.25, 0.5, 0.75, (1 : ℝ)] kExtentCapM kMaxPoints k = k / 4 := by
      norm_num [target, extent, kExtentCapM, wanted, kMaxPoints]
    intro k hk
    rw [ht]
    interval_cases k <;> norm_num [nearestIndex_eq, lowerBound, List.findIdx_cons]
  rw [selectIndices_eq (by simp) (by decide) (by norm_num [extent, kExtentCapM])]
  exact (climb_congr hf).trans (by decide)

theorem chooseIndices_straight :
    chooseIndices [0, 0.25, 0.5, 0.75, (1 : ℝ)] = [0, 1, 2, 3, 4] := by
  have h0 : (0.0 : ℝ) = 0 := by norm_num
  have he : min kExtentCapM ([0, 0.25, 0.5, 0.75, (1 : ℝ)].getLastD 0) = 1 := by norm_num [kExtentCapM]
  have hf : (kNearArcsM.filter fun want => (0 : ℝ) < want ∧ want < 1) = [0.25, 0.5] := by
    norm_num [kNearArcsM]
  have hn : [(0.25 : ℝ), 0.5].map (nearestIndex [0, 0.25, 0.5, 0.75, (1 : ℝ)]) = [1, 2] := by
    norm_num [nearestIndex_eq, lowerBound, List.findIdx_cons]
  simp only [chooseIndices, stdMin_real, h0, he, hf, hn, selectIndices_straight]
  decide

-- One metre of the road ahead.
theorem convert_wellConverted_straight :
    (convertInto 0 0 0 1 (onAxis 0) [5, 5] 0.1 []).1 = true ∧
    WellConverted (onAxis 0) [5, 5] (convertInto 0 0 0 1 (onAxis 0) [5, 5] 0.1 []).2 := by
  have hr : resample [onAxis 0, onAxis 1] kResampleStepM kExtentCapM =
      [onAxis 0, onAxis 0.25, onAxis 0.5, onAxis 0.75, onAxis 1] := by
    have hl : lowerBound [0, 0.25, 0.5, 0.75, (1 : ℝ)] kExtentCapM = 5 := by
      norm_num [lowerBound, List.findIdx_cons, kExtentCapM]
    rw [resample_eq (by norm_num [kExtentCapM]), densify_straight, arcs_straight, hl]
    rfl
  have hc : (convert 0 0 0 1 (onAxis 0) [5, 5] (0.1 : ℝ)).isSome = true := by
    rw [convert_eq, if_neg (by norm_num), samplePath_straight, Option.bind_some, hr]
    dsimp only
    rw [arcs_straight, selectIndices_straight, if_neg (List.cons_ne_nil _ _), handedOn_isSome, picked,
      arcs_straight, chooseIndices_straight]
    have hhead : Libm.hypot ((onAxis 0).x - (onAxis 0).x) ((onAxis 0).y - (onAxis 0).y) ≤ (0.5 : ℝ) := by
      norm_num [onAxis, Libm.hypot]
    change kMinFollowerPoints ≤ (led (onAxis 0) [onAxis 0, onAxis 0.25, onAxis 0.5, onAxis 0.75, onAxis 1]).length
    rw [led, List.headD_cons, if_neg (not_lt.mpr hhead)]
    decide
  have h : (convertInto 0 0 0 1 (onAxis 0) [5, 5] 0.1 []).1 = true := by
    rw [convertInto_eq]
    obtain ⟨out, ho⟩ := Option.isSome_iff_exists.mp hc
    rw [ho]
  exact ⟨h, (convert_wellConverted 0 0 0 1 (onAxis 0) [5, 5] 0.1 []).1 h⟩

end SafetyIsland.VpReference

import SafetyIsland.Fallible.Vector
import SafetyIsland.Reference.Real

namespace SafetyIsland.Interpolation

open Fallible OnReal

variable {α : Type}

def isEmptyMessage : String :=
  "Interpolation: Points is empty."

section

variable [Scalar α]

def isIncreasing (x : List α) : Except Failure Bool :=
  if x.isEmpty then .error (.exit isEmptyMessage)
  else .ok ((x.zip x.tail).all fun p => ¬p.2 ≤ p.1)

def isNotDecreasing (x : List α) : Except Failure Bool :=
  if x.isEmpty then .error (.exit isEmptyMessage)
  else .ok ((x.zip x.tail).all fun p => ¬p.2 < p.1)

def setLast (xs : List α) (x : α) : List α :=
  xs.set (xs.length - 1) x

def validateKeys (baseKeys queryKeys : List α) : Except Failure (List α) := do
  if baseKeys.isEmpty ∨ queryKeys.isEmpty then
    throw (.exit isEmptyMessage)
  let n := baseKeys.length
  if n < 2 then
    throw (.exit s!"Interpolation: The size of points is less than 2. base_keys.size() = {n}")
  if ¬(← isIncreasing baseKeys) ∨ ¬(← isNotDecreasing queryKeys) then
    throw (.exit "Interpolation: Either base_keys or query_keys is not sorted.")
  let front := baseKeys.headD 0.0
  let back := baseKeys.getLastD 0.0
  if queryKeys.headD 0.0 < front - 1e-3 ∨ back + 1e-3 < queryKeys.getLastD 0.0 then
    throw (.exit "Interpolation: query_keys is out of base_keys")
  let keys := queryKeys.set 0 (stdMax (queryKeys.headD 0.0) front)
  return setLast keys (stdMin (keys.getLastD 0.0) back)

def validateKeysAndValues (baseKeys baseValues : List α) : Except Failure Unit := do
  if baseKeys.isEmpty ∨ baseValues.isEmpty then
    throw (.exit isEmptyMessage)
  let n := baseKeys.length
  let m := baseValues.length
  if n < 2 ∨ m < 2 then
    throw (.exit (s!"Interpolation: The size of points is less than 2. base_keys.size() = {n}, " ++
      s!"base_values.size() = {m}"))
  if n ≠ m then
    throw (.exit "Interpolation: The size of base_keys and base_values are not the same.")

def lerpRatio (srcVal dstVal ratio : α) : α :=
  srcVal + (dstVal - srcVal) * ratio

-- `while (base_keys.at(key_index + 1) < query_key) ++key_index`
def advance (baseKeys : List α) (queryKey : α) (keyIndex : ℕ) : Except Failure ℕ :=
  match h : baseKeys[keyIndex + 1]? with
  | none     => .error .outOfRange
  | some key =>
    if key < queryKey then advance baseKeys queryKey (keyIndex + 1) else .ok keyIndex
termination_by baseKeys.length - keyIndex
decreasing_by
  have := (List.getElem?_eq_some_iff.mp h).1
  omega

-- The loop over the query keys, with the index that it carries along.
def lerpFrom (baseKeys baseValues : List α) : ℕ → List α → Except Failure (List α)
  | _, []                           => .ok []
  | keyIndex, queryKey :: queryKeys => do
    let keyIndex ← advance baseKeys queryKey keyIndex
    let srcVal ← vectorAt baseValues keyIndex
    let dstVal ← vectorAt baseValues (keyIndex + 1)
    let lower ← vectorAt baseKeys keyIndex
    let upper ← vectorAt baseKeys (keyIndex + 1)
    let ratio := (queryKey - lower) / (upper - lower)
    return lerpRatio srcVal dstVal ratio :: (← lerpFrom baseKeys baseValues keyIndex queryKeys)

def lerp (baseKeys baseValues queryKeys : List α) : Except Failure (List α) := do
  let validatedQueryKeys ← validateKeys baseKeys queryKeys
  validateKeysAndValues baseKeys baseValues
  lerpFrom baseKeys baseValues 0 validatedQueryKeys

-- `xs.segment(i, n)`
def segment (xs : List α) (i n : ℕ) : List α :=
  (xs.drop i).take n

-- The differences of neighbours.
def differences (xs : List α) : List α :=
  List.zipWith (· - ·) xs.tail xs.dropLast

def solveTridiagonalMatrixAlgorithm (a b c d : List α) : List α :=
  let n := d.length
  if n = 1 then List.zipWith (· / ·) d b
  else
    let zeros : List α := List.replicate n 0.0
    let forward (s : List α × List α) (i : ℕ) : List α × List α :=
      let (cPrime, dPrime) := s
      let m := 1.0 / (b.getD i 0.0 - a.getD (i - 1) 0.0 * cPrime.getD (i - 1) 0.0)
      (cPrime.set i (if i < n - 1 then c.getD i 0.0 * m else 0.0),
        dPrime.set i ((d.getD i 0.0 - a.getD (i - 1) 0.0 * dPrime.getD (i - 1) 0.0) * m))
    let (cPrime, dPrime) := (List.range' 1 (n - 1)).foldl forward
      (zeros.set 0 (c.getD 0 0.0 / b.getD 0 0.0), zeros.set 0 (d.getD 0 0.0 / b.getD 0 0.0))
    let back (x : List α) (i : ℕ) : List α :=
      x.set i (dPrime.getD i 0.0 - cPrime.getD i 0.0 * x.getD (i + 1) 0.0)
    (List.range (n - 1)).reverse.foldl back (zeros.set (n - 1) (dPrime.getD (n - 1) 0.0))

structure SplineInterpolation (α : Type) where
  a        : List α
  b        : List α
  c        : List α
  d        : List α
  baseKeys : List α

def calcSplineCoefficients (baseKeys baseValues : List α) : Except Failure (SplineInterpolation α) := do
  validateKeysAndValues baseKeys baseValues
  let x := baseKeys
  let y := baseValues
  let n := x.length
  if n = 2 then
    return {
      a        := [0.0]
      b        := [0.0]
      c        := [(y.getD 1 0.0 - y.getD 0 0.0) / (x.getD 1 0.0 - x.getD 0 0.0)]
      d        := [y.getD 0 0.0]
      baseKeys := baseKeys
    }
  let h := differences x
  let a := segment h 1 (n - 3)
  let b := (List.zipWith (· + ·) (segment h 0 (n - 2)) (segment h 1 (n - 2))).map (2.0 * ·)
  let c := segment h 1 (n - 3)
  let slope := List.zipWith (· / ·) (differences y) h
  let d := (List.zipWith (· - ·) (segment slope 1 (n - 2)) (segment slope 0 (n - 2))).map (6.0 * ·)
  let v := 0.0 :: solveTridiagonalMatrixAlgorithm a b c d ++ [0.0]
  return {
    a        := List.zipWith (fun dv h => dv / 6.0 / h) (differences v) h
    b        := v.dropLast.map (· / 2.0)
    c        := List.zipWith (· - ·) slope
      (List.zipWith (fun h v => h * v / 6.0) h
        (List.zipWith (fun v₀ v₁ => 2.0 * v₀ + v₁) v.dropLast v.tail))
    d        := y.dropLast
    baseKeys := baseKeys
  }

namespace SplineInterpolation

-- The distance to `std::lower_bound`, minus one, within the segments.
def getIndex (s : SplineInterpolation α) (key : α) : ℕ :=
  min ((s.baseKeys.takeWhile (· < key)).length - 1) (s.baseKeys.length - 2)

def getSplineInterpolatedValues (s : SplineInterpolation α) (queryKeys : List α) :
    Except Failure (List α) := do
  let _ ← validateKeys s.baseKeys queryKeys
  return queryKeys.map fun key =>
    let idx := s.getIndex key
    let dx := key - s.baseKeys.getD idx 0.0
    s.a.getD idx 0.0 * dx * dx * dx + s.b.getD idx 0.0 * dx * dx + s.c.getD idx 0.0 * dx +
      s.d.getD idx 0.0

end SplineInterpolation

def spline (baseKeys baseValues queryKeys : List α) : Except Failure (List α) := do
  let interpolator ← calcSplineCoefficients baseKeys baseValues
  interpolator.getSplineInterpolatedValues queryKeys

end

theorem all_zip_tail {r : α → α → Prop} [DecidableRel r] {xs : List α} (h : xs.IsChain r) :
    ((xs.zip xs.tail).all fun p => r p.1 p.2) = true := by
  induction xs with
  | nil => rfl
  | cons x xs ih =>
    cases xs with
    | nil => rfl
    | cons y ys =>
      obtain ⟨hxy, hys⟩ := List.isChain_cons_cons.mp h
      simpa [hxy] using ih hys

section

variable {xs baseKeys baseValues queryKeys : List ℝ} {q : ℝ} {i : ℕ}

theorem isIncreasing_eq (hne : xs ≠ []) (h : xs.Pairwise (· < ·)) : isIncreasing xs = .ok true := by
  rw [isIncreasing, if_neg (by simpa using hne)]
  simpa using all_zip_tail h.isChain

theorem isNotDecreasing_eq (hne : xs ≠ []) (h : xs.Pairwise (· ≤ ·)) :
    isNotDecreasing xs = .ok true := by
  rw [isNotDecreasing, if_neg (by simpa using hne)]
  simpa using all_zip_tail h.isChain

theorem setLast_getLastD (xs : List ℝ) : setLast xs (xs.getLastD 0) = xs := by
  obtain rfl | ⟨ys, y, rfl⟩ := xs.eq_nil_or_concat
  case inl => rfl
  case inr => simp [setLast]

theorem set_headD (xs : List ℝ) : xs.set 0 (xs.headD 0) = xs := by
  cases xs <;> rfl

theorem validateKeys_eq (hb : 2 ≤ baseKeys.length) (hbs : baseKeys.Pairwise (· < ·))
    (hq : queryKeys ≠ []) (hqs : queryKeys.Pairwise (· ≤ ·))
    (hlo : baseKeys.headD 0 ≤ queryKeys.headD 0) (hhi : queryKeys.getLastD 0 ≤ baseKeys.getLastD 0) :
    validateKeys baseKeys queryKeys = .ok queryKeys := by
  have hne : baseKeys ≠ [] := List.ne_nil_of_length_pos (by omega)
  have h0 : (0.0 : ℝ) = 0 := by norm_num
  have he : (0 : ℝ) ≤ 1e-3 := by norm_num
  have hrange : ¬(queryKeys.headD 0 < baseKeys.headD 0 - 1e-3 ∨
      baseKeys.getLastD 0 + 1e-3 < queryKeys.getLastD 0) := by
    rintro (h | h) <;> linarith only [h, he, hlo, hhi]
  rw [validateKeys, if_neg (by simp [hne, hq])]
  simp only [isIncreasing_eq hne hbs, isNotDecreasing_eq hq hqs, h0, ok_bind,
    hb.not_gt, hrange, stdMax_real, stdMin_real, max_eq_left hlo, set_headD, min_eq_left hhi,
    setLast_getLastD, if_false, not_true_eq_false, or_self]
  rfl

theorem validateKeysAndValues_eq (hb : 2 ≤ baseKeys.length)
    (hv : baseValues.length = baseKeys.length) : validateKeysAndValues baseKeys baseValues = .ok () := by
  have hne : baseKeys ≠ [] := List.ne_nil_of_length_pos (by omega)
  have hne' : baseValues ≠ [] := List.ne_nil_of_length_pos (by omega)
  rw [validateKeysAndValues, if_neg (by simp [hne, hne'])]
  simp only [hv, hb.not_gt, or_self, if_false, ne_eq, not_true_eq_false]
  rfl

theorem advance_ok (hq : q ≤ baseKeys.getLastD 0) (hi : i + 1 < baseKeys.length) :
    ∃ j, advance baseKeys q i = .ok j ∧ j + 1 < baseKeys.length := by
  fun_induction advance baseKeys q i
  case case1 h          => exact absurd (List.getElem?_eq_none_iff.mp h) (by omega)
  case case2 i k h hk ih =>
    refine ih ?_
    obtain ⟨hlt, rfl⟩ := List.getElem?_eq_some_iff.mp h
    by_contra hge
    have hlast : baseKeys.getLastD 0 = baseKeys[i + 1] := by
      rw [List.getLastD_eq_getLast?, List.getLast?_eq_getElem?]
      have : baseKeys.length - 1 = i + 1 := by omega
      simp [this, hlt]
    linarith
  case case3 i _ _ _     => exact ⟨i, rfl, hi⟩

theorem lerpFrom_ok (hq : ∀ q ∈ queryKeys, q ≤ baseKeys.getLastD 0) (hi : i + 1 < baseKeys.length)
    (hv : baseValues.length = baseKeys.length) :
    ∃ out, lerpFrom baseKeys baseValues i queryKeys = .ok out ∧ out.length = queryKeys.length := by
  induction queryKeys generalizing i with
  | nil => exact ⟨[], rfl, rfl⟩
  | cons q qs ih =>
    obtain ⟨j, hj, hlt⟩ := advance_ok (hq q List.mem_cons_self) hi
    obtain ⟨out, ho, hl⟩ := ih (fun q h => hq q (List.mem_cons_of_mem _ h)) hlt
    rw [lerpFrom]
    simp only [hj, ho, ok_bind, vectorAt_eq hlt, vectorAt_eq (Nat.lt_of_succ_lt hlt),
      vectorAt_eq (hv ▸ hlt), vectorAt_eq (hv ▸ Nat.lt_of_succ_lt hlt)]
    exact ⟨_, rfl, congrArg (· + 1) hl⟩

theorem lerp_ok (hk : validateKeys baseKeys queryKeys = .ok queryKeys)
    (hq : ∀ q ∈ queryKeys, q ≤ baseKeys.getLastD 0) (hb : 2 ≤ baseKeys.length)
    (hv : baseValues.length = baseKeys.length) :
    ∃ out, lerp baseKeys baseValues queryKeys = .ok out ∧ out.length = queryKeys.length := by
  rw [lerp]
  simp only [hk, validateKeysAndValues_eq hb hv, ok_bind]
  exact lerpFrom_ok hq hb hv

theorem calcSplineCoefficients_ok (hb : 2 ≤ baseKeys.length)
    (hv : baseValues.length = baseKeys.length) :
    ∃ s, calcSplineCoefficients baseKeys baseValues = .ok s ∧ s.baseKeys = baseKeys := by
  rw [calcSplineCoefficients]
  simp only [validateKeysAndValues_eq hb hv, ok_bind]
  split
  case isTrue  => exact ⟨_, rfl, rfl⟩
  case isFalse => exact ⟨_, rfl, rfl⟩

theorem spline_ok (hk : validateKeys baseKeys queryKeys = .ok queryKeys)
    (hb : 2 ≤ baseKeys.length) (hv : baseValues.length = baseKeys.length) :
    ∃ out, spline baseKeys baseValues queryKeys = .ok out ∧ out.length = queryKeys.length := by
  obtain ⟨s, hs, rfl⟩ := calcSplineCoefficients_ok hb hv
  rw [spline, hs, ok_bind, SplineInterpolation.getSplineInterpolatedValues, hk]
  exact ⟨_, rfl, List.length_map _⟩

end

end SafetyIsland.Interpolation

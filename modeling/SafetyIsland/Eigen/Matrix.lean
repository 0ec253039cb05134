import Mathlib.Data.Matrix.Mul
import Mathlib.LinearAlgebra.Matrix.Notation
import Mathlib.Algebra.BigOperators.Fin
import Mathlib.Algebra.BigOperators.Intervals
import Mathlib.Tactic.Ring

namespace SafetyIsland.Eigen

-- A matrix of dynamic size, whose coefficients outside of its size are never read.
structure MatrixXd (K : Type) where
  rows  : ℕ
  cols  : ℕ
  coeff : ℕ → ℕ → K

-- The numerals that the coefficients are written with.
scoped instance atLeastTwo_two : Nat.AtLeastTwo 2 := ⟨le_rfl⟩
scoped instance atLeastTwo_ten : Nat.AtLeastTwo 10 := ⟨by decide⟩

namespace MatrixXd

open Matrix

section

variable {K : Type} [Ring K]

def constant (rows cols : ℕ) (v : K) : MatrixXd K where
  rows  := rows
  cols  := cols
  coeff _ _ := v

def zero (rows cols : ℕ) : MatrixXd K :=
  constant rows cols 0

def identity (n : ℕ) : MatrixXd K where
  rows := n
  cols := n
  coeff i j := if i = j then 1 else 0

instance : Add (MatrixXd K) where
  add a b := { a with coeff := fun i j => a.coeff i j + b.coeff i j }

instance : Sub (MatrixXd K) where
  sub a b := { a with coeff := fun i j => a.coeff i j - b.coeff i j }

instance : Mul (MatrixXd K) where
  mul a b :=
    { rows  := a.rows
      cols  := b.cols
      coeff := fun i j => ∑ k ∈ Finset.range a.cols, a.coeff i k * b.coeff k j }

def smul (c : K) (a : MatrixXd K) : MatrixXd K :=
  { a with coeff := fun i j => c * a.coeff i j }

def transpose (a : MatrixXd K) : MatrixXd K where
  rows := a.cols
  cols := a.rows
  coeff i j := a.coeff j i

-- `a(i, j) = v`
def set (a : MatrixXd K) (i j : ℕ) (v : K) : MatrixXd K :=
  { a with coeff := fun r c => if r = i ∧ c = j then v else a.coeff r c }

-- `a(i, j) += v`
def addAt (a : MatrixXd K) (i j : ℕ) (v : K) : MatrixXd K :=
  a.set i j (a.coeff i j + v)

-- `a.block(i, j, p, q)`
def block (a : MatrixXd K) (i j p q : ℕ) : MatrixXd K where
  rows := p
  cols := q
  coeff r c := a.coeff (i + r) (j + c)

-- `a.block(i, j, b.rows(), b.cols()) = b`
def setBlock (a : MatrixXd K) (i j : ℕ) (b : MatrixXd K) : MatrixXd K :=
  { a with
    coeff := fun r c =>
      if (i ≤ r ∧ r < i + b.rows) ∧ j ≤ c ∧ c < j + b.cols then b.coeff (r - i) (c - j)
      else a.coeff r c }

-- `a.block(i, j, b.rows(), b.cols()) += b`
def addBlock (a : MatrixXd K) (i j : ℕ) (b : MatrixXd K) : MatrixXd K :=
  a.setBlock i j (a.block i j b.rows b.cols + b)

-- `a.triangularView<Eigen::Upper>() = b`
def setUpper (a b : MatrixXd K) : MatrixXd K :=
  { a with coeff := fun i j => if i ≤ j then b.coeff i j else a.coeff i j }

-- `a.triangularView<Eigen::Lower>() = b`
def setLower (a b : MatrixXd K) : MatrixXd K :=
  { a with coeff := fun i j => if j ≤ i then b.coeff i j else a.coeff i j }

-- A matrix from its coefficients.
def of {p q : ℕ} (a : Matrix (Fin p) (Fin q) K) : MatrixXd K where
  rows := p
  cols := q
  coeff i j := if h : i < p ∧ j < q then a ⟨i, h.1⟩ ⟨j, h.2⟩ else 0

-- A column vector.
def column (n : ℕ) (v : ℕ → K) : MatrixXd K where
  rows := n
  cols := 1
  coeff i _ := v i

def toMatrix (a : MatrixXd K) (p q : ℕ) : Matrix (Fin p) (Fin q) K :=
  Matrix.of fun i j => a.coeff i j

end

section Blocks

variable {K : Type} {a b : MatrixXd K} {i j r c d n p q : ℕ} {v : K}

@[simp] theorem block_coeff : (a.block i j p q).coeff r c = a.coeff (i + r) (j + c) := rfl

@[simp] theorem block_rows : (a.block i j p q).rows = p := rfl

@[simp] theorem block_cols : (a.block i j p q).cols = q := rfl

theorem set_coeff : (a.set i j v).coeff r c = if r = i ∧ c = j then v else a.coeff r c := rfl

theorem setBlock_idem : (a.setBlock i j b).setBlock i j b = a.setBlock i j b := by
  simp only [setBlock, mk.injEq, true_and]
  ext r c
  split_ifs <;> rfl

theorem setBlock_coeff_of_ne (hb : b.rows = d) (hr : r < d) (hi : i ≠ n) :
    (a.setBlock (n * d) j b).coeff (i * d + r) c = a.coeff (i * d + r) c := by
  apply if_neg
  intro h
  have hd : (i * d + r) / d = i := by
    rw [Nat.mul_comm, Nat.mul_add_div (Nat.zero_lt_of_lt hr), Nat.div_eq_of_lt hr, Nat.add_zero]
  have hn : (i * d + r) / d = n := by
    apply Nat.div_eq_of_lt_le h.1.1
    rw [Nat.succ_mul]
    exact hb ▸ h.1.2
  exact hi (hd.symm.trans hn)

theorem setBlock_coeff_row (hb : b.rows = d) (hr : r < d) :
    (a.setBlock (n * d) j b).coeff (n * d + r) c =
      if j ≤ c ∧ c < j + b.cols then b.coeff r (c - j) else a.coeff (n * d + r) c := by
  have hi : n * d ≤ n * d + r ∧ n * d + r < n * d + b.rows := by omega
  simp [setBlock, hi]

end Blocks

section Coefficients

variable {K : Type} [Ring K] {a b : MatrixXd K} {i j r c d n : ℕ} {v : K}

@[simp] theorem coeff_zero : (zero n d : MatrixXd K).coeff i j = 0 := rfl

@[simp] theorem add_coeff : (a + b).coeff i j = a.coeff i j + b.coeff i j := rfl

@[simp] theorem add_cols : (a + b).cols = a.cols := rfl

@[simp] theorem add_rows : (a + b).rows = a.rows := rfl

@[simp] theorem sub_coeff : (a - b).coeff i j = a.coeff i j - b.coeff i j := rfl

@[simp] theorem sub_rows : (a - b).rows = a.rows := rfl

@[simp] theorem mul_cols : (a * b).cols = b.cols := rfl

@[simp] theorem mul_rows : (a * b).rows = a.rows := rfl

theorem mul_coeff :
    (a * b).coeff i j = ∑ k ∈ Finset.range a.cols, a.coeff i k * b.coeff k j := rfl

@[simp] theorem smul_coeff : (a.smul v).coeff i j = v * a.coeff i j := rfl

theorem addAt_coeff :
    (a.addAt i j v).coeff r c = a.coeff r c + if r = i ∧ c = j then v else 0 := by
  rw [addAt, set_coeff]
  split_ifs with h
  · rw [h.1, h.2]
  · rw [add_zero]

theorem addBlock_coeff :
    (a.addBlock i j b).coeff r c = a.coeff r c +
      if (i ≤ r ∧ r < i + b.rows) ∧ j ≤ c ∧ c < j + b.cols then b.coeff (r - i) (c - j) else 0 := by
  by_cases h : (i ≤ r ∧ r < i + b.rows) ∧ j ≤ c ∧ c < j + b.cols
  · simp [addBlock, setBlock, h, Nat.add_sub_cancel' h.1.1, Nat.add_sub_cancel' h.2.1]
  · simp only [addBlock, setBlock, add_rows, add_cols, block_rows, block_cols, h]
    simp

theorem setBlock_eq_addBlock
    (h : ∀ r c, r < b.rows → c < b.cols → a.coeff (i + r) (j + c) = 0) :
    a.setBlock i j b = a.addBlock i j b := by
  rw [addBlock, setBlock, setBlock, mk.injEq]
  refine ⟨rfl, rfl, ?_⟩
  ext r c
  by_cases hw : (i ≤ r ∧ r < i + b.rows) ∧ j ≤ c ∧ c < j + b.cols
  · have hz := h (r - i) (c - j) (by omega) (by omega)
    simp only [add_rows, add_cols, block_rows, block_cols, add_coeff, block_coeff, hw, hz]
    simp
  · simp only [add_rows, add_cols, block_rows, block_cols, hw, if_false]

end Coefficients

section Forms

variable {K : Type} [CommRing K] {a b : MatrixXd K} {m n p : ℕ} {u v w : ℕ → K}

def vec (n : ℕ) (u : ℕ → K) : Fin n → K :=
  fun i => u i

theorem toMatrix_mul (h : a.cols = p) : (a * b).toMatrix m n = a.toMatrix m p * b.toMatrix p n := by
  ext i j
  simp only [toMatrix, Matrix.of_apply, mul_coeff, h, Matrix.mul_apply]
  exact Finset.sum_range _

-- The bilinear form of the leading `n` rows and columns.
def bilin (n : ℕ) (a : MatrixXd K) (u v : ℕ → K) : K :=
  vec n u ⬝ᵥ a.toMatrix n n *ᵥ vec n v

-- The leading `n` rows and columns are symmetric.
def Symm (n : ℕ) (a : MatrixXd K) : Prop :=
  ∀ ⦃i j⦄, i < n → j < n → a.coeff i j = a.coeff j i

theorem bilin_eq_sum :
    bilin n a u v =
      ∑ i ∈ Finset.range n, ∑ j ∈ Finset.range n, u i * a.coeff i j * v j := by
  simp only [bilin, dotProduct, mulVec, vec, toMatrix, of_apply, Finset.mul_sum, ←mul_assoc]
  rw [Finset.sum_range]
  exact Finset.sum_congr rfl fun i _ =>
    (Finset.sum_range fun j => u i * a.coeff i j * v j).symm

theorem bilin_add_left : bilin n a (u + w) v = bilin n a u v + bilin n a w v := by
  simp only [bilin_eq_sum, ←Finset.sum_add_distrib, Pi.add_apply, add_mul]

theorem bilin_add_right : bilin n a v (u + w) = bilin n a v u + bilin n a v w := by
  simp only [bilin_eq_sum, ←Finset.sum_add_distrib, Pi.add_apply, mul_add]

theorem bilin_sub_left : bilin n a (u - w) v = bilin n a u v - bilin n a w v := by
  simp only [bilin_eq_sum, ←Finset.sum_sub_distrib, Pi.sub_apply, sub_mul]

theorem bilin_sub_right : bilin n a v (u - w) = bilin n a v u - bilin n a v w := by
  simp only [bilin_eq_sum, ←Finset.sum_sub_distrib, Pi.sub_apply, mul_sub]

theorem bilin_add : bilin n (a + b) u v = bilin n a u v + bilin n b u v := by
  simp only [bilin_eq_sum, ←Finset.sum_add_distrib, add_coeff, mul_add, add_mul]

theorem Symm.bilin_comm (h : Symm n a) : bilin n a u v = bilin n a v u := by
  rw [bilin_eq_sum, bilin_eq_sum, Finset.sum_comm]
  apply Finset.sum_congr rfl
  intro i hi
  apply Finset.sum_congr rfl
  intro j hj
  rw [h (Finset.mem_range.mp hi) (Finset.mem_range.mp hj)]
  ring

theorem Symm.add (ha : Symm n a) (hb : Symm n b) : Symm n (a + b) := by
  intro i j hi hj
  rw [add_coeff, add_coeff, ha hi hj, hb hi hj]

theorem Symm.bilin_self_add (h : Symm n a) :
    bilin n a (u + v) (u + v) = bilin n a u u + 2 * bilin n a v u + bilin n a v v := by
  rw [bilin_add_left, bilin_add_right, bilin_add_right, h.bilin_comm (u := u) (v := v)]
  ring

theorem Symm.bilin_self_sub (h : Symm n a) :
    bilin n a (u - v) (u - v) = bilin n a u u - 2 * bilin n a v u + bilin n a v v := by
  rw [bilin_sub_left, bilin_sub_right, bilin_sub_right, h.bilin_comm (u := u) (v := v)]
  ring

-- The linear map of `n` columns.
def apply (n : ℕ) (a : MatrixXd K) (u : ℕ → K) (i : ℕ) : K :=
  ∑ j ∈ Finset.range n, a.coeff i j * u j

theorem vec_apply : vec m (apply n a u) = a.toMatrix m n *ᵥ vec n u := by
  ext i
  simp only [vec, apply, mulVec, dotProduct, toMatrix, of_apply]
  exact Finset.sum_range _

theorem apply_mul (h : a.cols = p) : apply n (a * b) u = apply p a (apply n b u) := by
  ext i
  simp only [apply, mul_coeff, h, Finset.sum_mul, Finset.mul_sum, ←mul_assoc]
  exact Finset.sum_comm

theorem coeff_eq_bilin {i j : ℕ} (hi : i < n) (hj : j < n) :
    a.coeff i j = bilin n a (Pi.single i 1) (Pi.single j 1) := by
  rw [bilin_eq_sum, Finset.sum_eq_single_of_mem i (Finset.mem_range.mpr hi),
    Finset.sum_eq_single_of_mem j (Finset.mem_range.mpr hj)]
  · simp
  · intro c _ hc
    simp [hc]
  · intro r _ hr
    simp [hr]

theorem bilin_conj (hb : b.rows = m) (ha : a.cols = m) :
    bilin n (b.transpose * (a * b)) u v = bilin m a (apply n b u) (apply n b v) := by
  have hm : (b.transpose * (a * b)).toMatrix n n =
      (b.toMatrix m n).transpose * (a.toMatrix m m * b.toMatrix m n) := by
    rw [toMatrix_mul (a := b.transpose) hb, toMatrix_mul ha]
    rfl
  rw [bilin, bilin, hm, vec_apply, vec_apply, ←mulVec_mulVec, ←mulVec_mulVec,
    mulVec_transpose, dotProduct_comm, ←dotProduct_mulVec, dotProduct_comm]

theorem sum_mul_apply : ∑ i ∈ Finset.range n, u i * apply n a v i = bilin n a u v := by
  simp only [bilin_eq_sum, apply, Finset.mul_sum, mul_assoc]

theorem bilin_congr (h : ∀ i j, i < n → j < n → a.coeff i j = b.coeff i j) :
    bilin n a u v = bilin n b u v := by
  rw [bilin_eq_sum, bilin_eq_sum]
  apply Finset.sum_congr rfl
  intro i hi
  apply Finset.sum_congr rfl
  intro j hj
  rw [h i j (Finset.mem_range.mp hi) (Finset.mem_range.mp hj)]

theorem Symm.conj (h : Symm m a) (hb : b.rows = m) (ha : a.cols = m) :
    Symm n (b.transpose * (a * b)) := by
  intro i j hi hj
  rw [coeff_eq_bilin hi hj, coeff_eq_bilin hj hi, bilin_conj hb ha, bilin_conj hb ha, h.bilin_comm]

theorem Symm.bilin_setLower (h : Symm n b) (hu : ∀ i j, i ≤ j → a.coeff i j = b.coeff i j) :
    bilin n (a.setLower a.transpose) u v = bilin n b u v := by
  apply bilin_congr
  intro i j hi hj
  simp only [setLower, transpose]
  split_ifs with hij
  · rw [hu j i hij, h hj hi]
  · exact hu i j (by omega)

theorem sum_window {i : ℕ} (h : i + p ≤ n) (g : ℕ → K) :
    ∑ r ∈ Finset.range n, (if i ≤ r ∧ r < i + p then g r else 0) =
      ∑ k ∈ Finset.range p, g (i + k) := by
  have hw : {r ∈ Finset.range n | i ≤ r ∧ r < i + p} = Finset.Ico i (i + p) := by
    ext r
    simp only [Finset.mem_filter, Finset.mem_range, Finset.mem_Ico]
    omega
  rw [←Finset.sum_filter, hw, Finset.sum_Ico_eq_sum_range, Nat.add_sub_cancel_left]

theorem bilin_addBlock {i : ℕ} (hr : b.rows = p) (hc : b.cols = p) (h : i + p ≤ n) :
    bilin n (a.addBlock i i b) u v =
      bilin n a u v + bilin p b (fun k => u (i + k)) (fun k => v (i + k)) := by
  simp only [bilin_eq_sum, addBlock_coeff, hr, hc, mul_add, add_mul, Finset.sum_add_distrib]
  congr 1
  calc
    _ = ∑ r ∈ Finset.range n, (if i ≤ r ∧ r < i + p then
          ∑ c ∈ Finset.range n, (if i ≤ c ∧ c < i + p then
            u r * b.coeff (r - i) (c - i) * v c else 0) else 0) := by
      apply Finset.sum_congr rfl
      intro r _
      by_cases hi : i ≤ r ∧ r < i + p <;> simp [hi, mul_ite, ite_mul]
    _ = _ := by
      rw [sum_window h]
      simp only [sum_window h, Nat.add_sub_cancel_left]

theorem Symm.addBlock {i : ℕ} (ha : Symm n a) (hb : Symm p b) (hr : b.rows = p)
    (hc : b.cols = p) : Symm n (a.addBlock i i b) := by
  intro r c hrn hcn
  rw [addBlock_coeff, addBlock_coeff, ha hrn hcn, hr, hc]
  congr 1
  apply if_ctx_congr and_comm
  · intro h
    exact hb (by omega) (by omega)
  · exact fun _ => rfl

theorem bilin_addAt {i j : ℕ} {x : K} (hi : i < n) (hj : j < n) :
    bilin n (a.addAt i j x) u v = bilin n a u v + u i * x * v j := by
  simp only [bilin_eq_sum, addAt_coeff, mul_add, add_mul, Finset.sum_add_distrib]
  congr 1
  rw [Finset.sum_eq_single_of_mem i (Finset.mem_range.mpr hi),
    Finset.sum_eq_single_of_mem j (Finset.mem_range.mpr hj)]
  · simp
  · intro c _ hc
    simp [hc]
  · intro r _ hr
    simp [hr]

theorem Symm.addAt_self {i : ℕ} {x : K} (h : Symm n a) : Symm n (a.addAt i i x) := by
  intro r c hr hc
  rw [addAt_coeff, addAt_coeff, h hr hc]
  congr 1
  exact if_congr and_comm rfl rfl

theorem Symm.addAt_pair {i j : ℕ} {x : K} (h : Symm n a) :
    Symm n ((a.addAt i j x).addAt j i x) := by
  intro r c hr hc
  simp only [addAt_coeff, h hr hc, and_comm (a := c = _)]
  ring

theorem bilin_foldl_addBlock {f : ℕ → MatrixXd K} {k : ℕ} (hr : ∀ i, (f i).rows = p)
    (hc : ∀ i, (f i).cols = p) (h : ∀ i < k, i + p ≤ n) :
    bilin n ((List.range k).foldl (fun a i => a.addBlock i i (f i)) a) u v =
      bilin n a u v +
        ∑ i ∈ Finset.range k, bilin p (f i) (fun j => u (i + j)) (fun j => v (i + j)) := by
  induction k with
  | zero      => simp
  | succ k ih =>
    rw [List.range_succ, List.foldl_append, List.foldl_cons, List.foldl_nil,
      bilin_addBlock (hr k) (hc k) (h k (Nat.lt_succ_self k)),
      ih (fun i hi => h i (Nat.lt_succ_of_lt hi)), Finset.sum_range_succ, add_assoc]

theorem Symm.foldl_addBlock {f : ℕ → MatrixXd K} (ha : Symm n a) (hr : ∀ i, (f i).rows = p)
    (hc : ∀ i, (f i).cols = p) (hs : ∀ i, Symm p (f i)) (l : List ℕ) :
    Symm n (l.foldl (fun a i => a.addBlock i i (f i)) a) := by
  induction l generalizing a with
  | nil         => exact ha
  | cons i l ih => exact ih $ ha.addBlock (hs i) (hr i) (hc i)

theorem bilin_two {b₀₀ b₀₁ b₁₀ b₁₁ : K} :
    bilin 2 (of !![b₀₀, b₀₁; b₁₀, b₁₁]) u v =
      u 0 * b₀₀ * v 0 + u 0 * b₀₁ * v 1 + (u 1 * b₁₀ * v 0 + u 1 * b₁₁ * v 1) := by
  simp [bilin_eq_sum, Finset.sum_range_succ, of]

theorem bilin_three {b₀₀ b₀₁ b₀₂ b₁₀ b₁₁ b₁₂ b₂₀ b₂₁ b₂₂ : K} :
    bilin 3 (of !![b₀₀, b₀₁, b₀₂; b₁₀, b₁₁, b₁₂; b₂₀, b₂₁, b₂₂]) u v =
      u 0 * b₀₀ * v 0 + u 0 * b₀₁ * v 1 + u 0 * b₀₂ * v 2 +
      (u 1 * b₁₀ * v 0 + u 1 * b₁₁ * v 1 + u 1 * b₁₂ * v 2) +
      (u 2 * b₂₀ * v 0 + u 2 * b₂₁ * v 1 + u 2 * b₂₂ * v 2) := by
  simp [bilin_eq_sum, Finset.sum_range_succ, of]

theorem bilin_smul {x : K} : bilin n (a.smul x) u v = x * bilin n a u v := by
  simp only [bilin_eq_sum, smul_coeff, Finset.mul_sum]
  apply Finset.sum_congr rfl
  intro i _
  apply Finset.sum_congr rfl
  intro j _
  ring

theorem symm_of_transpose {a : Matrix (Fin p) (Fin p) K} (h : a.transpose = a) : Symm p (of a) := by
  intro i j hi hj
  simp only [of, hi, hj, and_self, dif_pos]
  exact congrFun (congrFun h ⟨j, hj⟩) ⟨i, hi⟩

theorem Symm.smul {x : K} (h : Symm n a) : Symm n (a.smul x) := by
  intro i j hi hj
  rw [smul_coeff, smul_coeff, h hi hj]

end Forms
end MatrixXd
end SafetyIsland.Eigen

import SafetyIsland.Bytes.Basic

namespace Bytes

-- Bytes by their address.
abbrev Memory := ℕ → UInt8

namespace Memory

def store (m : Memory) (a : ℕ) (bs : List UInt8) : Memory :=
  fun x => if a ≤ x ∧ x < a + bs.length then bs.getD (x - a) 0 else m x

def load (m : Memory) (a k : ℕ) : List UInt8 :=
  (List.range k).map fun i => m (a + i)

variable {m : Memory} {a k : ℕ} {bs : List UInt8}

theorem load_store : (m.store a bs).load a bs.length = bs := by
  apply List.ext_getElem
  case hl => simp [load]
  case h =>
    intro i _ hi
    simp [load, store, hi]

theorem load_store_of_length (h : bs.length = k) : (m.store a bs).load a k = bs :=
  h ▸ load_store

theorem load_store_of_disjoint {b : ℕ} (h : b + k ≤ a ∨ a + bs.length ≤ b) :
    (m.store a bs).load b k = m.load b k := by
  apply List.map_congr_left
  intro i hi
  have hi := List.mem_range.mp hi
  have hn : ¬(a ≤ b + i ∧ b + i < a + bs.length) := by omega
  simp only [store, hn, if_false]

end Memory

-- Rounding up to a multiple of `align`, on words of `w` bits.
def roundUp (w x align : ℕ) : ℕ :=
  (x + (align - 1)) % 2 ^ w &&& (2 ^ w - 1 - (align - 1))

section

variable {w k x : ℕ}

theorem and_complement (hk : k ≤ w) (hx : x < 2 ^ w) :
    x &&& (2 ^ w - 1 - (2 ^ k - 1)) = x / 2 ^ k * 2 ^ k := by
  have hp : 0 < 2 ^ k := Nat.two_pow_pos k
  have hle : 2 ^ k ≤ 2 ^ w := Nat.pow_le_pow_right two_pos hk
  have hc : 2 ^ w - 1 - (2 ^ k - 1) = 2 ^ w - (2 ^ k - 1 + 1) := by omega
  apply Nat.eq_of_testBit_eq
  intro i
  rw [hc, Nat.testBit_and, Nat.testBit_two_pow_sub_succ (by omega), Nat.testBit_two_pow_sub_one,
    Nat.testBit_mul_two_pow, Nat.testBit_div_two_pow]
  rcases lt_or_ge i k with hi | hi
  case inl => simp [hi, hi.not_ge]
  case inr =>
    have hs : i - k + k = i := by omega
    simp only [hi, hi.not_gt, hs, decide_true, decide_false, Bool.not_false, Bool.and_true,
      Bool.true_and]
    rcases lt_or_ge i w with hw | hw
    case inl => simp [hw]
    case inr =>
      have hb : x.testBit i = false :=
        Nat.testBit_lt_two_pow (hx.trans_le (Nat.pow_le_pow_right two_pos hw))
      simp [hb]

theorem roundUp_spec (h : x + (2 ^ k - 1) < 2 ^ w) :
    x ≤ roundUp w x (2 ^ k) ∧ roundUp w x (2 ^ k) ≤ x + (2 ^ k - 1) ∧ 2 ^ k ∣ roundUp w x (2 ^ k) := by
  have hp : 0 < 2 ^ k := Nat.two_pow_pos k
  have hk : k ≤ w := (Nat.pow_le_pow_iff_right (by decide : 1 < 2)).mp (by omega)
  rw [roundUp, Nat.mod_eq_of_lt h, and_complement hk h]
  have hd := Nat.div_add_mod (x + (2 ^ k - 1)) (2 ^ k)
  have hm := Nat.mod_lt (x + (2 ^ k - 1)) hp
  rw [Nat.mul_comm]
  exact ⟨by omega, by omega, Nat.dvd_mul_right _ _⟩

end

end Bytes

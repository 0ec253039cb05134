import Mathlib

namespace Bytes

-- The number that bytes stand for, the lowest byte first.
def value (bs : List UInt8) : ℕ :=
  Nat.ofDigits 256 (bs.map UInt8.toNat)

-- The `k` lowest bytes of a number, the lowest first.
def digits : ℕ → ℕ → List UInt8
  | 0,     _ => []
  | k + 1, n => .ofNat n :: digits k (n / 256)

variable {bs : List UInt8} {b : UInt8} {k n : ℕ}

@[simp]
theorem value_nil : value [] = 0 := rfl

@[simp]
theorem value_cons : value (b :: bs) = b.toNat + 256 * value bs := by
  simp [value, Nat.ofDigits_cons]

theorem value_lt : value bs < 256 ^ bs.length := by
  have h := Nat.ofDigits_lt_base_pow_length (b := 256) (l := bs.map UInt8.toNat) (by decide) ?_
  case refine_1 =>
    intro x hx
    have ⟨b, _, hb⟩ := List.mem_map.mp hx
    exact hb ▸ b.toNat_lt
  rwa [List.length_map] at h

@[simp]
theorem digits_length : (digits k n).length = k := by
  induction k generalizing n
  case zero => rfl
  case succ ih => simp [digits, ih]

theorem value_digits : value (digits k n) = n % 256 ^ k := by
  induction k generalizing n
  case zero => simp [digits, Nat.mod_one]
  case succ k ih =>
    have hm : n % 256 ^ (k + 1) = n % 256 + 256 * (n / 256 % 256 ^ k) := by
      rw [pow_succ', Nat.mod_mul]
    rw [digits, value_cons, ih, UInt8.toNat_ofNat', hm]

theorem value_digits_of_lt (h : n < 256 ^ k) : value (digits k n) = n := by
  rw [value_digits, Nat.mod_eq_of_lt h]

theorem digits_value : digits bs.length (value bs) = bs := by
  induction bs
  case nil => rfl
  case cons b bs ih =>
    have hb := b.toNat_lt
    have hq : value (b :: bs) / 256 = value bs := by rw [value_cons]; omega
    have hr : UInt8.ofNat (value (b :: bs)) = b := by
      apply UInt8.toNat_inj.mp
      rw [UInt8.toNat_ofNat', value_cons]
      omega
    rw [List.length_cons, digits, hq, hr, ih]

theorem digits_value_of_length (h : bs.length = k) : digits k (value bs) = bs :=
  h ▸ digits_value

theorem digits_inj {m : ℕ} (hm : m < 256 ^ k) (hn : n < 256 ^ k) : digits k m = digits k n ↔ m = n := by
  refine ⟨fun h => ?_, congrArg _⟩
  rw [← value_digits_of_lt hm, h, value_digits_of_lt hn]

theorem value_inj {as : List UInt8} (hl : as.length = bs.length) : value as = value bs ↔ as = bs := by
  refine ⟨fun h => ?_, congrArg _⟩
  have ha : digits as.length (value as) = as := digits_value
  rw [← ha, h, hl, digits_value]

theorem digits_uint16 (x : UInt16) : digits 2 x.toNat = [x.toUInt8, (x >>> 8).toUInt8] := by
  simp only [digits, List.cons.injEq, and_true]
  constructor
  case left => apply UInt8.toNat_inj.mp; simp
  case right => apply UInt8.toNat_inj.mp; simp [Nat.shiftRight_eq_div_pow]

theorem digits_uint32 (x : UInt32) :
    digits 4 x.toNat =
      [x.toUInt8, (x >>> 8).toUInt8, (x >>> 16).toUInt8, (x >>> 24).toUInt8] := by
  simp only [digits, List.cons.injEq, and_true]
  refine ⟨?_, ?_, ?_, ?_⟩
  all_goals
    apply UInt8.toNat_inj.mp
    simp [Nat.shiftRight_eq_div_pow, Nat.div_div_eq_div_mul]

theorem or_shift {a x i : ℕ} (h : a < 2 ^ i) : a ||| x <<< i = a + 2 ^ i * x := by
  rw [Nat.lor_comm, ← Nat.shiftLeft_add_eq_or_of_lt h, Nat.shiftLeft_eq, add_comm, mul_comm]

theorem or_uint16 (a b : UInt8) : (a.toUInt16 ||| b.toUInt16 <<< 8).toNat = value [a, b] := by
  have ha := a.toNat_lt
  have hb := b.toNat_lt
  have h₁ : b.toNat <<< 8 < 2 ^ 16 := by rw [Nat.shiftLeft_eq]; omega
  simp only [UInt16.toNat_or, UInt16.toNat_shiftLeft, UInt8.toNat_toUInt16, UInt16.reduceToNat,
    Nat.reduceMod, Nat.mod_eq_of_lt h₁]
  rw [or_shift ha]
  simp

theorem or_uint32 (a b c d : UInt8) :
    (a.toUInt32 ||| b.toUInt32 <<< 8 ||| c.toUInt32 <<< 16 ||| d.toUInt32 <<< 24).toNat =
      value [a, b, c, d] := by
  have ha := a.toNat_lt
  have hb := b.toNat_lt
  have hc := c.toNat_lt
  have hd := d.toNat_lt
  have h₁ : b.toNat <<< 8 < 2 ^ 32 := by rw [Nat.shiftLeft_eq]; omega
  have h₂ : c.toNat <<< 16 < 2 ^ 32 := by rw [Nat.shiftLeft_eq]; omega
  have h₃ : d.toNat <<< 24 < 2 ^ 32 := by rw [Nat.shiftLeft_eq]; omega
  simp only [UInt32.toNat_or, UInt32.toNat_shiftLeft, UInt8.toNat_toUInt32, UInt32.reduceToNat,
    Nat.reduceMod, Nat.mod_eq_of_lt h₁, Nat.mod_eq_of_lt h₂, Nat.mod_eq_of_lt h₃]
  rw [or_shift ha, or_shift (i := 16) (by omega), or_shift (i := 24) (by omega)]
  simp only [value_cons, value_nil]
  omega

-- A copy of bytes into a buffer.
def write (buffer : List UInt8) (dest : ℕ) (src : List UInt8) : List UInt8 :=
  buffer.take dest ++ src ++ buffer.drop (dest + src.length)

theorem write_fill {done src : List UInt8} {dest : ℕ} (hd : done.length = dest)
    (hn : src.length + k = n) :
    write (done ++ .replicate n 0) dest src = (done ++ src) ++ .replicate k 0 := by
  have hk : n - src.length = k := by omega
  simp [write, ← hd, hk]

end Bytes

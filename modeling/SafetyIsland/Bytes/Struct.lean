import SafetyIsland.Bytes.Basic

namespace Struct

open Bytes

-- The codes of a little-endian format without padding: a run of `n` raw bytes, and an unsigned
-- integer of `k` bytes.
inductive Code
  | raw (n : ℕ)
  | uint (k : ℕ)

inductive Value
  | raw (bs : List UInt8)
  | int (i : ℤ)
deriving DecidableEq

namespace Code

def size : Code → ℕ
  | raw n  => n
  | uint k => k

-- Raw bytes are cut or padded with zeros to their place, an integer must fit.
def encode : Code → Value → Option (List UInt8)
  | raw n,  .raw bs => some (bs.take n ++ .replicate (n - bs.length) 0)
  | uint k, .int i  => if 0 ≤ i ∧ i < 256 ^ k then some (digits k i.toNat) else none
  | _,      _       => none

def decode : Code → List UInt8 → Value
  | raw _,  bs => .raw bs
  | uint _, bs => .int (value bs)

-- The values that a code decodes to.
inductive Fits : Code → Value → Prop
  | raw {n : ℕ} {bs : List UInt8} : bs.length = n → Fits (raw n) (.raw bs)
  | uint {k n : ℕ} : n < 256 ^ k → Fits (uint k) (.int n)

variable {c : Code} {v : Value} {bs : List UInt8}

theorem decode_fits (h : bs.length = c.size) : c.Fits (c.decode bs) := by
  cases c
  case raw => exact .raw h
  case uint k =>
    cases (h : bs.length = k)
    exact .uint value_lt

theorem encode_of_decode (h : bs.length = c.size) : c.encode (c.decode bs) = some bs := by
  cases c
  case raw n =>
    rw [size] at h
    simp [encode, decode, ← h]
  case uint k =>
    have hv : value bs < 256 ^ k := by
      cases (h : bs.length = k)
      exact value_lt
    have hi : 0 ≤ (value bs : ℤ) ∧ (value bs : ℤ) < 256 ^ k := ⟨by omega, by exact_mod_cast hv⟩
    simp only [encode, decode, hi, and_self, if_true, Int.toNat_natCast, Option.some.injEq]
    exact digits_value_of_length h

theorem Fits.encode (h : c.Fits v) :
    ∃ bs, c.encode v = some bs ∧ bs.length = c.size ∧ c.decode bs = v := by
  cases h
  case raw n bs hn => exact ⟨bs, by simp [Code.encode, ← hn], hn, rfl⟩
  case uint k n hn =>
    have hi : 0 ≤ (n : ℤ) ∧ (n : ℤ) < 256 ^ k := ⟨by omega, by exact_mod_cast hn⟩
    refine ⟨digits k n, ?_, digits_length, ?_⟩
    case refine_1 => simp [Code.encode, hi]
    case refine_2 => rw [decode, value_digits_of_lt hn]

end Code

def calcsize (fmt : List Code) : ℕ :=
  (fmt.map Code.size).sum

def pack : List Code → List Value → Option (List UInt8)
  | [],      []      => some []
  | c :: cs, v :: vs => do return (← c.encode v) ++ (← pack cs vs)
  | _,       _       => none

def split : List Code → List UInt8 → List Value
  | [],      _  => []
  | c :: cs, bs => c.decode (bs.take c.size) :: split cs (bs.drop c.size)

def unpack (fmt : List Code) (bs : List UInt8) : Option (List Value) :=
  if bs.length = calcsize fmt then some (split fmt bs) else none

variable {fmt fmt' : List Code} {vs vs' : List Value} {bs bs' : List UInt8}

theorem split_spec (h : bs.length = calcsize fmt) :
    List.Forall₂ Code.Fits fmt (split fmt bs) ∧ pack fmt (split fmt bs) = some bs := by
  induction fmt generalizing bs
  case nil =>
    cases List.length_eq_zero_iff.mp h
    exact ⟨.nil, rfl⟩
  case cons c cs ih =>
    simp only [calcsize, List.map_cons, List.sum_cons] at h
    have ht : (bs.take c.size).length = c.size := by rw [List.length_take]; omega
    have hd : (bs.drop c.size).length = calcsize cs := by rw [List.length_drop, calcsize]; omega
    have ⟨hf, hp⟩ := ih hd
    refine ⟨.cons (Code.decode_fits ht) hf, ?_⟩
    simp [split, pack, Code.encode_of_decode ht, hp]

theorem unpack_spec (h : unpack fmt bs = some vs) :
    List.Forall₂ Code.Fits fmt vs ∧ pack fmt vs = some bs := by
  unfold unpack at h
  split_ifs at h with hs
  cases h
  exact split_spec hs

theorem pack_spec (h : List.Forall₂ Code.Fits fmt vs) :
    ∃ bs, pack fmt vs = some bs ∧ unpack fmt bs = some vs := by
  suffices hs : ∃ bs, pack fmt vs = some bs ∧ bs.length = calcsize fmt ∧ split fmt bs = vs by
    have ⟨bs, hp, hl, hv⟩ := hs
    exact ⟨bs, hp, by rw [unpack, if_pos hl, hv]⟩
  induction h
  case nil => exact ⟨[], rfl, rfl, rfl⟩
  case cons c v cs vs hc _ ih =>
    have ⟨b, he, hb, hd⟩ := hc.encode
    have ⟨bs, hp, hl, hv⟩ := ih
    refine ⟨b ++ bs, by simp [pack, he, hp], ?_, ?_⟩
    case refine_1 => simp [calcsize, hb, hl]
    case refine_2 => rw [split, ← hb, List.take_left, List.drop_left, hd, hv]

theorem pack_append (h : pack fmt vs = some bs) (h' : pack fmt' vs' = some bs') :
    pack (fmt ++ fmt') (vs ++ vs') = some (bs ++ bs') := by
  induction fmt generalizing vs bs
  case nil =>
    cases vs
    case nil => cases h; exact h'
    case cons => cases h
  case cons c cs ih =>
    cases vs
    case nil => cases h
    case cons v vs =>
      simp only [pack, bind, Option.bind_eq_some_iff] at h
      have ⟨b, he, bs', hp, h⟩ := h
      cases h
      simp [pack, he, ih hp]

end Struct

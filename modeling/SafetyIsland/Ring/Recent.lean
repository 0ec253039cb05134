import Mathlib

namespace Ring

variable {α : Type} {n next count k : ℕ}

-- The cell of a ring of `n` cells that was written `k` writes before the newest one, where `next` is
-- the cell that is written next.
def slot (n next k : ℕ) : ℕ :=
  if k < next then next - 1 - k else next + n - 1 - k

theorem slot_lt (hn : next < n) (hk : k < n) : slot n next k < n := by
  unfold slot
  split_ifs <;> omega

theorem slot_slot (hn : next < n) (hk : k < n) : slot n next (slot n next k) = k := by
  unfold slot
  split_ifs <;> omega

theorem slot_succ (hn : next < n) (hk : k + 1 < n) :
    slot n ((next + 1) % n) (k + 1) = slot n next k ∧ slot n next k ≠ next := by
  unfold slot
  rcases Nat.lt_or_ge (next + 1) n with h | h
  case inl =>
    rw [Nat.mod_eq_of_lt h]
    split_ifs <;> omega
  case inr =>
    rw [show next + 1 = n by omega, Nat.mod_self]
    split_ifs <;> omega

theorem slot_zero (hn : next < n) : slot n ((next + 1) % n) 0 = next := by
  unfold slot
  rcases Nat.lt_or_ge (next + 1) n with h | h
  case inl =>
    rw [Nat.mod_eq_of_lt h]
    split_ifs <;> omega
  case inr =>
    rw [show next + 1 = n by omega, Nat.mod_self]
    split_ifs <;> omega

-- A ring of `n` cells, of which `count` are filled, holds the newest entries of a history that lists
-- the newest entry first.
structure Recalls (cells : Vector α n) (count next : ℕ) (history : List α) : Prop where
  bound  : next < n
  filled : count = min history.length n
  start  : history.length < n → next = history.length
  cell   : ∀ k < count, cells[slot n next k]? = history[k]?

namespace Recalls

variable {cells : Vector α n} {history : List α} {x : α}

theorem empty (hn : 0 < n) : Recalls cells 0 0 [] where
  bound    := hn
  filled   := by simp
  start _  := rfl
  cell _ h := absurd h (Nat.not_lt_zero _)

theorem push (h : Recalls cells count next history) :
    Recalls (cells.set next x h.bound) (if count < n then count + 1 else count) ((next + 1) % n)
      (x :: history) where
  bound  := Nat.mod_lt _ (Nat.zero_lt_of_lt h.bound)
  filled := by
    have hf := h.filled
    rw [List.length_cons]
    split_ifs <;> omega
  start hl := by
    rw [List.length_cons] at hl ⊢
    rw [h.start (by omega), Nat.mod_eq_of_lt hl]
  cell k hk := by
    have hf := h.filled
    cases k
    case zero => simp [slot_zero h.bound]
    case succ k =>
      have hk : k < count ∧ k + 1 < n := by split_ifs at hk <;> omega
      have ⟨hs, hne⟩ := slot_succ h.bound hk.2
      rw [hs, List.getElem?_cons_succ, ← h.cell k hk.1]
      simp [hne.symm]

theorem slot_lt_count (h : Recalls cells count next history) (hk : k < count) :
    slot n next k < count := by
  have hf := h.filled
  rcases Nat.lt_or_ge history.length n with hl | hl
  case inl =>
    have := h.start hl
    unfold slot
    split_ifs <;> omega
  case inr =>
    have := slot_lt h.bound (show k < n by omega)
    omega

theorem mem_iff (h : Recalls cells count next history) :
    x ∈ cells.toList.take count ↔ x ∈ history.take n := by
  have hf := h.filled
  simp only [List.mem_iff_getElem?, List.getElem?_take]
  constructor
  case mp =>
    rintro ⟨k, hk⟩
    have hkc : k < count := by by_contra hc; simp [hc] at hk
    have hkn : k < n := by omega
    exists slot n next k
    have hs := h.slot_lt_count hkc
    rw [if_pos (by omega), ← h.cell _ hs, slot_slot h.bound hkn]
    simpa [hkc] using hk
  case mpr =>
    rintro ⟨k, hk⟩
    have hkn : k < n := by by_contra hc; simp [hc] at hk
    rw [if_pos hkn] at hk
    have hkc : k < count := by
      have := (List.getElem?_eq_some_iff.mp hk).1
      omega
    exists slot n next k
    rw [if_pos (h.slot_lt_count hkc)]
    simpa [h.cell k hkc] using hk

theorem map_range (h : Recalls cells count next history) {read : ℕ → α}
    (hr : ∀ k < count, cells[slot n next k]? = some (read k)) :
    (List.range count).map read = history.take n := by
  have hf := h.filled
  apply List.ext_getElem?
  intro k
  rw [List.getElem?_map, List.getElem?_take]
  rcases Nat.lt_or_ge k count with hk | hk
  case inl =>
    rw [List.getElem?_range hk, if_pos (by omega), ← h.cell k hk, hr k hk]
    rfl
  case inr =>
    rw [List.getElem?_eq_none (by simpa using hk), Option.map_none]
    split_ifs
    case pos => exact (List.getElem?_eq_none (by omega)).symm
    case neg => rfl

end Recalls
end Ring

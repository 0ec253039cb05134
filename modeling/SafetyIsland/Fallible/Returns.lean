import Mathlib.Logic.Basic
import Mathlib.Tactic.Common

namespace Fallible

universe u

variable {ε : Type u} {α β : Type}

-- The computation does not fail, and what it returns satisfies `P`.
def Returns (m : Except ε α) (P : α → Prop) : Prop :=
  ∃ a, m = .ok a ∧ P a

namespace Returns

variable {m : Except ε α} {f : α → Except ε β} {P P' : α → Prop} {Q : β → Prop} {a : α}

theorem ok (h : P a) : Returns (.ok a : Except ε α) P :=
  ⟨a, rfl, h⟩

theorem pure (h : P a) : Returns (pure a : Except ε α) P :=
  ⟨a, rfl, h⟩

theorem bind (h : Returns m P) (hf : ∀ a, P a → Returns (f a) Q) : Returns (m >>= f) Q := by
  obtain ⟨a, rfl, ha⟩ := h
  exact hf a ha

theorem map {g : α → β} (h : Returns m fun a => Q (g a)) : Returns (g <$> m) Q := by
  obtain ⟨a, rfl, ha⟩ := h
  exact ⟨g a, rfl, ha⟩

theorem mono (h : Returns m P) (hp : ∀ a, P a → P' a) : Returns m P' := by
  obtain ⟨a, rfl, ha⟩ := h
  exact ⟨a, rfl, hp a ha⟩

theorem of_eq (h : Returns m P) (he : m = .ok a) : P a := by
  obtain ⟨b, hb, hp⟩ := h
  cases hb.symm.trans he
  exact hp

theorem with_eq (h : Returns m P) : Returns m fun a => m = .ok a ∧ P a := by
  obtain ⟨a, he, ha⟩ := h
  exact ⟨a, he, he, ha⟩

theorem ite {c : Prop} [Decidable c] {m₁ m₂ : Except ε α} (h₁ : c → Returns m₁ P)
    (h₂ : ¬c → Returns m₂ P) : Returns (if c then m₁ else m₂) P := by
  split
  case isTrue hc  => exact h₁ hc
  case isFalse hc => exact h₂ hc

-- The rule of a loop that keeps an invariant.
theorem foldlM {γ : Type} {step : β → γ → Except ε β} {cs : List γ} {b : β} (h₀ : Q b)
    (hs : ∀ c ∈ cs, ∀ b, Q b → Returns (step b c) Q) : Returns (cs.foldlM step b) Q := by
  induction cs generalizing b with
  | nil => exact pure h₀
  | cons c cs ih =>
    rw [List.foldlM_cons]
    exact (hs c List.mem_cons_self b h₀).bind fun b hb =>
      ih hb fun d hd => hs d (List.mem_cons_of_mem c hd)

end Returns

@[simp] theorem ok_bind (a : α) (f : α → Except ε β) : Except.ok a >>= f = f a := rfl

end Fallible

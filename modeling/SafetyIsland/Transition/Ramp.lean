import Mathlib
import SafetyIsland.Transition.Run

namespace Transition.Along

section

variable {σ ε K : Type} [Field K] [LinearOrder K] [IsStrictOrderedRing K]
variable {step : σ → ε → Option σ} {Q : σ → ε → σ → Prop} {s s' : σ} {es : List ε}
variable {counted : ε → Bool} {f g : σ → K} {floor rate width rate' : K}

-- A step that is counted brings a quantity down towards a floor, the others leave it alone.
def Falls (counted : ε → Bool) (f : σ → K) (floor rate : K) (s : σ) (e : ε) (s' : σ) : Prop :=
  f s' ≤ if counted e then max floor (f s - rate) else f s

-- A quantity that is brought down towards another one, which it may exceed by a width.
def Follows (counted : ε → Bool) (f g : σ → K) (width rate : K) (s : σ) (e : ε) (s' : σ) : Prop :=
  g s' ≤ if counted e then max (f s' + width) (g s - rate) else g s

theorem max_sub_succ {x : K} (n : ℕ) (h : 0 ≤ rate) :
    max floor (max floor (x - n * rate) - rate) ≤ max floor (x - (n + 1 : ℕ) * rate) := by
  refine max_le (le_max_left _ _) ?_
  rw [← max_sub_sub_right]
  refine max_le_max (sub_le_self _ h) (le_of_eq ?_)
  push_cast
  ring

theorem falls (h : Along step Q s es s') (hr : 0 ≤ rate)
    (hs : ∀ {s e s'}, Q s e s' → Falls counted f floor rate s e s') :
    f s' ≤ max floor (f s - es.countP counted * rate) := by
  refine h.history (P := fun es s' => f s' ≤ max floor (f s - es.countP counted * rate)) ?_ ?_
  · intro es s₁ e s₂ _ q ih
    have hf := hs q
    rw [List.countP_append, List.countP_singleton]
    rw [Falls] at hf
    split_ifs at hf ⊢
    · exact hf.trans ((max_le_max le_rfl (sub_le_sub_right ih _)).trans (max_sub_succ _ hr))
    · exact hf.trans ih
  · simp

theorem follows (h : Along step Q s es s') (hr : 0 ≤ rate) (hr' : rate ≤ rate')
    (hs : ∀ {s e s'}, Q s e s' →
      Falls counted f floor rate s e s' ∧ Follows counted f g width rate' s e s') :
    g s' ≤ max (max floor (f s - es.countP counted * rate) + width)
      (g s - es.countP counted * rate') := by
  refine (h.history (P := fun es s' => f s' ≤ max floor (f s - es.countP counted * rate) ∧
    g s' ≤ max (max floor (f s - es.countP counted * rate) + width)
      (g s - es.countP counted * rate')) ?_ (by simp)).2
  intro es s₁ e s₂ _ q ih
  obtain ⟨hf, hg⟩ := hs q
  obtain ⟨ihf, ihg⟩ := ih
  rw [List.countP_append, List.countP_singleton]
  rw [Falls] at hf
  rw [Follows] at hg
  split_ifs at hf hg ⊢
  case neg => exact ⟨hf.trans ihf, hg.trans ihg⟩
  case pos =>
    have hn : max floor (max floor (f s - es.countP counted * rate) - rate) ≤
        max floor (f s - (es.countP counted + 1 : ℕ) * rate) := max_sub_succ _ hr
    have hf' := hf.trans ((max_le_max le_rfl (sub_le_sub_right ihf _)).trans hn)
    refine ⟨hf', hg.trans (max_le ?_ ?_)⟩
    · exact (add_le_add hf' le_rfl).trans (le_max_left _ _)
    · -- the lower of the two rates keeps the followed bound ahead
      have hd : max floor (f s - es.countP counted * rate) - rate' ≤
          max floor (f s - (es.countP counted + 1 : ℕ) * rate) :=
        (sub_le_sub_left hr' _).trans ((le_max_right _ _).trans hn)
      refine (sub_le_sub_right ihg _).trans ?_
      rw [← max_sub_sub_right]
      refine max_le_max ?_ (le_of_eq ?_)
      · linarith
      · push_cast
        ring

end
end Transition.Along

import Mathlib

namespace Transition

variable {σ ε : Type}

-- A run of a step that may end the process: the events in order and the states between them, where
-- every step that is taken satisfies `Q`.
inductive Along (step : σ → ε → Option σ) (Q : σ → ε → σ → Prop) : σ → List ε → σ → Prop
  | nil  {s : σ} : Along step Q s [] s
  | cons {s s₁ s' : σ} {e : ε} {es : List ε} :
    step s e = some s₁ → Q s e s₁ → Along step Q s₁ es s' → Along step Q s (e :: es) s'

-- A run without a condition on its steps.
abbrev Run (step : σ → ε → Option σ) : σ → List ε → σ → Prop :=
  Along step fun _ _ _ => True

namespace Along

variable {step : σ → ε → Option σ} {Q Q' : σ → ε → σ → Prop}
variable {s s₁ s₂ s' : σ} {e : ε} {es es₁ es₂ : List ε}

theorem single (h : step s e = some s') (q : Q s e s') : Along step Q s [e] s' :=
  cons h q nil

theorem of_single (h : Along step Q s [e] s') : step s e = some s' := by
  cases h
  case cons he _ h =>
    cases h
    exact he

theorem weaken (hq : ∀ {s e s'}, step s e = some s' → Q s e s' → Q' s e s')
    (h : Along step Q s es s') : Along step Q' s es s' := by
  induction h
  case nil => exact nil
  case cons he q _ ih => exact cons he (hq he q) ih

theorem run (h : Along step Q s es s') : Run step s es s' :=
  h.weaken fun _ _ => trivial

theorem of_run (h : Run step s es s') (hq : ∀ e ∈ es, ∀ s s', Q s e s') :
    Along step Q s es s' := by
  induction h
  case nil => exact nil
  case cons e es he _ _ ih =>
    exact cons he (hq e List.mem_cons_self _ _) (ih fun f hf => hq f (List.mem_cons_of_mem _ hf))

theorem and (h : Along step Q s es s') (h' : Along step Q' s es s') :
    Along step (fun s e s' => Q s e s' ∧ Q' s e s') s es s' := by
  induction h
  case nil => exact nil
  case cons he q _ ih =>
    cases h'
    case cons he' q' h' =>
      cases he.symm.trans he'
      exact cons he ⟨q, q'⟩ (ih h')

theorem append (h₁ : Along step Q s es₁ s₁) (h₂ : Along step Q s₁ es₂ s₂) :
    Along step Q s (es₁ ++ es₂) s₂ := by
  induction h₁
  case nil => exact h₂
  case cons he q _ ih => exact cons he q (ih h₂)

theorem split (h : Along step Q s (es₁ ++ es₂) s') :
    ∃ s₁, Along step Q s es₁ s₁ ∧ Along step Q s₁ es₂ s' := by
  induction es₁ generalizing s
  case nil => exact ⟨s, nil, h⟩
  case cons ih =>
    cases h
    case cons he q h =>
      have ⟨s₁, h₁, h₂⟩ := ih h
      exact ⟨s₁, cons he q h₁, h₂⟩

theorem deterministic (h₁ : Along step Q s es s₁) (h₂ : Along step Q' s es s₂) : s₁ = s₂ := by
  induction h₁
  case nil => cases h₂; rfl
  case cons he _ _ ih =>
    cases h₂
    case cons he' _ h₂ =>
      rw [he, Option.some.injEq] at he'
      exact ih (he' ▸ h₂)

-- The rule for an invariant: what every step preserves holds at the end of a run.
theorem invariant {P : σ → Prop} (hs : ∀ {s e s'}, step s e = some s' → Q s e s' → P s → P s')
    (h : Along step Q s es s') (h₀ : P s) : P s' := by
  induction h
  case nil => exact h₀
  case cons he q _ ih => exact ih (hs he q h₀)

-- The rule for an invariant that also depends on the events so far.
theorem history {P : List ε → σ → Prop}
    (hs : ∀ {es s e s'}, step s e = some s' → Q s e s' → P es s → P (es ++ [e]) s')
    (h : Along step Q s es s') (h₀ : P [] s) : P es s' := by
  suffices hg : ∀ past, P past s → P (past ++ es) s' from hg [] h₀
  clear h₀
  induction h
  case nil =>
    intro past hp
    rwa [List.append_nil]
  case cons e es he q _ ih =>
    intro past hp
    rw [List.append_cons]
    exact ih _ (hs he q hp)

theorem strengthen {P : σ → Prop}
    (hs : ∀ {s e s'}, step s e = some s' → Q s e s' → P s → P s' ∧ Q' s e s')
    (h : Along step Q s es s') (h₀ : P s) : Along step Q' s es s' := by
  induction h
  case nil => exact nil
  case cons he q _ ih => exact cons he (hs he q h₀).2 (ih (hs he q h₀).1)

theorem of_invariant {P : σ → Prop}
    (hs : ∀ {s e s'}, step s e = some s' → P s → P s' ∧ Q s e s') (h : Run step s es s')
    (h₀ : P s) : Along step Q s es s' :=
  h.strengthen (fun he _ => hs he) h₀

-- The rule for a relation between the two ends of a run.
theorem relation {R : σ → σ → Prop} (refl : ∀ s, R s s)
    (trans : ∀ {a b c}, R a b → R b c → R a c)
    (hs : ∀ {s e s'}, step s e = some s' → Q s e s' → R s s')
    (h : Along step Q s es s') : R s s' := by
  induction h
  case nil => exact refl _
  case cons he q _ ih => exact trans (hs he q) ih

theorem until_first (Q' : σ → ε → σ → Prop) (h : Along step Q s es s') :
    Along step Q' s es s' ∨
    ∃ es₁ e es₂ s₁ s₂, es = es₁ ++ e :: es₂ ∧ Along step Q' s es₁ s₁ ∧ step s₁ e = some s₂ ∧
      Q s₁ e s₂ ∧ ¬Q' s₁ e s₂ ∧ Along step Q s₂ es₂ s' := by
  induction h
  case nil => exact .inl nil
  case cons s s₁ s' e es he q h ih =>
    by_cases q' : Q' s e s₁
    case neg => exact .inr ⟨[], e, es, s, s₁, rfl, nil, he, q, q', h⟩
    case pos =>
      rcases ih with ha | ⟨es₁, f, es₂, t₁, t₂, rfl, ha, hf, qf, qf', hr⟩
      case inl => exact .inl (cons he q' ha)
      case inr => exact .inr ⟨e :: es₁, f, es₂, t₁, t₂, rfl, cons he q' ha, hf, qf, qf', hr⟩

-- The step from `s₁` to `s₂` is the last one of a run that satisfies `P`.
def Last (step : σ → ε → Option σ) (P : σ → ε → σ → Prop) (s : σ) (es : List ε) (s' s₁ : σ) (e : ε)
    (s₂ : σ) : Prop :=
  ∃ es₁ es₂, es = es₁ ++ e :: es₂ ∧ Run step s es₁ s₁ ∧ step s₁ e = some s₂ ∧ P s₁ e s₂ ∧
    Along step (fun s e s' => ¬P s e s') s₂ es₂ s'

theorem since_last (P : σ → ε → σ → Prop) (h : Along step Q s es s') :
    Along step (fun s e s' => ¬P s e s') s es s' ∨ ∃ s₁ e s₂, Last step P s es s' s₁ e s₂ := by
  induction h
  case nil => exact .inl nil
  case cons s s₁ s' e es he q h ih =>
    rcases ih with ha | ⟨t₁, f, t₂, es₁, es₂, rfl, hr, hf, pf, ha⟩
    case inr => exact .inr ⟨t₁, f, t₂, e :: es₁, es₂, rfl, cons he trivial hr, hf, pf, ha⟩
    case inl =>
      by_cases p : P s e s₁
      case pos => exact .inr ⟨s, e, s₁, [], es, rfl, nil, he, p, ha⟩
      case neg => exact .inl (cons he p ha)

end Along

-- The state after a list of events.
def exec (step : σ → ε → Option σ) : σ → List ε → Option σ
  | s, []      => some s
  | s, e :: es => (step s e).bind (exec step · es)

theorem run_iff_exec {step : σ → ε → Option σ} {s s' : σ} {es : List ε} :
    Run step s es s' ↔ exec step s es = some s' := by
  constructor
  case mp =>
    intro h
    induction h
    case nil => rfl
    case cons he _ _ ih => rw [exec, he, Option.bind_some, ih]
  case mpr =>
    induction es generalizing s
    case nil =>
      intro h
      cases h
      exact .nil
    case cons ih =>
      intro h
      have ⟨_, he, h⟩ := Option.bind_eq_some_iff.mp h
      exact .cons he trivial (ih h)

-- The state after a list of events, if every step satisfies a condition.
def execIf (step : σ → ε → Option σ) (Q : σ → ε → σ → Prop) [∀ s e s', Decidable (Q s e s')] :
    σ → List ε → Option σ
  | s, []      => some s
  | s, e :: es => (step s e).bind fun s' => if Q s e s' then execIf step Q s' es else none

theorem along_of_execIf {step : σ → ε → Option σ} {Q : σ → ε → σ → Prop}
    [∀ s e s', Decidable (Q s e s')] {s s' : σ} {es : List ε}
    (h : execIf step Q s es = some s') : Along step Q s es s' := by
  induction es generalizing s
  case nil =>
    cases h
    exact .nil
  case cons ih =>
    have ⟨s₁, he, h⟩ := Option.bind_eq_some_iff.mp h
    split_ifs at h with q
    exact .cons he q (ih h)

-- The state after concrete events, which is meaningful when none of them ends the process.
def after (step : σ → ε → Option σ) (s : σ) (es : List ε) : σ :=
  (exec step s es).getD s

section

variable {step : σ → ε → Option σ} {s : σ} {e : ε} {es es' : List ε}

theorem run_after (h : (exec step s es).isSome) : Run step s es (after step s es) := by
  rw [run_iff_exec, after, Option.getD_eq_iff.mpr (.inl (Option.some_get h).symm)]
  exact (Option.some_get h).symm

theorem along_after {Q : σ → ε → σ → Prop} [∀ s e s', Decidable (Q s e s')]
    (h : (execIf step Q s es).isSome) : Along step Q s es (after step s es) := by
  obtain ⟨s', hs⟩ := Option.isSome_iff_exists.mp h
  have ha := along_of_execIf hs
  have he : after step s es = s' := by simp [after, run_iff_exec.mp ha.run]
  rwa [he]

theorem run_after_append (h : (exec step s (es ++ es')).isSome) :
    Run step (after step s es) es' (after step s (es ++ es')) := by
  have ⟨s₁, h₁, h₂⟩ := (run_after h).split
  have hs : after step s es = s₁ := by simp [after, run_iff_exec.mp h₁]
  rwa [hs]

theorem step_after (h : (exec step s (es ++ [e])).isSome) :
    step (after step s es) e = some (after step s (es ++ [e])) := by
  exact (run_after_append h).of_single

end

end Transition

import SafetyIsland.Transition.Run

namespace SafetyIsland.Pthread

open Transition

inductive Position
  -- It does not use the mutex, or its last call returned without it.
  | outside
  -- It has read a null handle, and is before `taskENTER_CRITICAL`.
  | entering
  -- It is inside of the critical section, before the second look at the handle.
  | creating
  -- It is before `taskEXIT_CRITICAL`.
  | leaving
  -- It is before the handle is read for good.
  | loading
  -- It waits for a semaphore.
  | taking (semaphore : ℕ)
  -- Its call of `pthread_mutex_lock` returned zero.
  | holding
  -- It is before `xSemaphoreGive`.
  | giving (semaphore : ℕ)
deriving DecidableEq

-- One mutex and the threads that use it. The kernel runs on one core, where a critical section
-- keeps all other threads from running.
structure Mutex (ι : Type) where
  -- The word of the mutex: the handle of a semaphore, or null.
  mutex      : Option ℕ
  -- The semaphores that were created for it, with the thread that has taken them.
  semaphores : List (Option ι)
  critical   : Option ι
  position   : ι → Position

-- A step of a thread, and whether the kernel call in it succeeds, where it can fail: the creation
-- of a semaphore for want of memory, and a wait because it is aborted.
structure Turn (ι : Type) where
  thread   : ι
  succeeds : Bool

namespace Mutex

variable {ι : Type} [DecidableEq ι]

def initializer : Mutex ι where
  mutex      := none
  semaphores := []
  critical   := none
  position _ := .outside

def goto (s : Mutex ι) (i : ι) (p : Position) : Mutex ι :=
  { s with position := Function.update s.position i p }

def xSemaphoreCreateMutex (s : Mutex ι) : Bool → Mutex ι
  | true  => { s with mutex := some s.semaphores.length, semaphores := s.semaphores ++ [none] }
  | false => { s with mutex := none }

def step (s : Mutex ι) (t : Turn ι) : Option (Mutex ι) :=
  if s.critical.any (· ≠ t.thread) then none
  else
    match s.position t.thread with
    | .outside  => some (s.goto t.thread (if s.mutex = none then .entering else .loading))
    | .entering => some ({ s with critical := some t.thread }.goto t.thread .creating)
    | .creating =>
      let s := if s.mutex = none then s.xSemaphoreCreateMutex t.succeeds else s
      some (s.goto t.thread .leaving)
    | .leaving  => some ({ s with critical := none }.goto t.thread .loading)
    | .loading  =>
      match s.mutex with
      | none   => some (s.goto t.thread .outside)
      | some h => some (s.goto t.thread (.taking h))
    | .taking h =>
      if t.succeeds = false then some (s.goto t.thread .outside)
      else if s.semaphores[h]? = some none then
        some ({ s with semaphores := s.semaphores.set h (some t.thread) }.goto t.thread .holding)
      else none
    | .holding  =>
      match s.mutex with
      | none   => some (s.goto t.thread .outside)
      | some h => some (s.goto t.thread (.giving h))
    | .giving h =>
      if s.semaphores[h]? = some (some t.thread) then
        some ({ s with semaphores := s.semaphores.set h none }.goto t.thread .outside)
      else some (s.goto t.thread .outside)

-- The thread that has the mutex, as far as its users can tell.
def owner (s : Mutex ι) : Option ι :=
  s.semaphores.head?.join

-- What all interleavings keep: one semaphore at most, whose taker is the one thread between its two
-- calls, and at most one thread in the critical section.
structure Sound (s : Mutex ι) : Prop where
  handle   : s.mutex = if s.semaphores = [] then none else some 0
  single   : s.semaphores.length ≤ 1
  critical : ∀ i, s.critical = some i ↔ s.position i = .creating ∨ s.position i = .leaving
  waiting  : ∀ i h, s.position i = .taking h ∨ s.position i = .giving h →
    h = 0 ∧ s.semaphores ≠ []
  owner    : ∀ i, s.owner = some i ↔ s.position i = .holding ∨ s.position i = .giving 0

omit [DecidableEq ι] in
theorem sound_initializer : (initializer : Mutex ι).Sound := by
  constructor <;> simp [initializer, Mutex.owner]

variable {s s' : Mutex ι} {t : Turn ι} {i : ι} {p : Position}

@[simp, grind =] theorem goto_mutex : (s.goto i p).mutex = s.mutex := rfl

@[simp, grind =] theorem goto_semaphores : (s.goto i p).semaphores = s.semaphores := rfl

@[simp, grind =] theorem goto_critical : (s.goto i p).critical = s.critical := rfl

@[grind =] theorem goto_position (j : ι) : (s.goto i p).position j = if j = i then p else s.position j :=
  Function.update_apply ..

omit [DecidableEq ι] in
theorem Sound.cases (h : s.Sound) :
    s.semaphores = [] ∧ s.mutex = none ∨ ∃ o, s.semaphores = [o] ∧ s.mutex = some 0 := by
  have hh := h.handle
  cases hs : s.semaphores with
  | nil => exact .inl ⟨rfl, by rwa [if_pos hs] at hh⟩
  | cons o l =>
    have hl := h.single
    rw [hs, List.length_cons] at hl
    have hn : l = [] := List.length_eq_zero_iff.mp (by omega)
    exact .inr ⟨o, by rw [hn], by rwa [if_neg (by rw [hs]; exact List.cons_ne_nil o l)] at hh⟩

omit [DecidableEq ι] in
theorem Sound.empty (h : s.Sound) (hm : s.mutex = none) : s.semaphores = [] := by
  rcases h.cases with ⟨he, -⟩ | ⟨o, -, hs⟩
  · exact he
  · rw [hm] at hs
    cases hs

theorem Sound.goto (h : s.Sound)
    (hc : p = .creating ∨ p = .leaving ↔ s.position i = .creating ∨ s.position i = .leaving)
    (ho : p = .holding ∨ p = .giving 0 ↔ s.position i = .holding ∨ s.position i = .giving 0)
    (hw : ∀ n, p = .taking n ∨ p = .giving n → n = 0 ∧ s.semaphores ≠ []) :
    (s.goto i p).Sound where
  handle       := h.handle
  single       := h.single
  critical j   := by
    rw [goto_position]
    split_ifs with hj
    · rw [hj, hc]
      exact h.critical i
    · exact h.critical j
  waiting j n  := by
    rw [goto_position]
    split_ifs
    · exact hw n
    · exact h.waiting j n
  owner j      := by
    rw [goto_position]
    split_ifs with hj
    · rw [hj, ho]
      exact h.owner i
    · exact h.owner j

omit [DecidableEq ι] in
theorem Sound.create (h : s.Sound) (hm : s.mutex = none) (b : Bool) :
    (s.xSemaphoreCreateMutex b).Sound := by
  have he := h.empty hm
  have hw (i : ι) (n : ℕ) : ¬(s.position i = .taking n ∨ s.position i = .giving n) :=
    fun hn => (h.waiting i n hn).2 he
  have ho := h.owner
  have hc := h.critical
  cases b <;> constructor <;> simp_all [xSemaphoreCreateMutex, Mutex.owner]

theorem Sound.enter (h : s.Sound) (hp : s.position i = .entering) (hc : s.critical = none) :
    ({ s with critical := some i }.goto i .creating).Sound where
  handle      := h.handle
  single      := h.single
  critical j  := by
    have hj := h.critical j
    rw [goto_position]
    grind
  waiting j n := by
    have hj := h.waiting j n
    rw [goto_position]
    grind
  owner j     := by
    have hj := h.owner j
    rw [goto_position]
    change s.owner = some j ↔ _
    grind

theorem Sound.leave (h : s.Sound) (hp : s.position i = .leaving) :
    ({ s with critical := none }.goto i .loading).Sound where
  handle      := h.handle
  single      := h.single
  critical j  := by
    have hi := h.critical i
    have hj := h.critical j
    rw [goto_position]
    grind
  waiting j n := by
    have hj := h.waiting j n
    rw [goto_position]
    grind
  owner j     := by
    have hj := h.owner j
    rw [goto_position]
    change s.owner = some j ↔ _
    grind

theorem Sound.take (h : s.Sound) (hp : s.position i = .taking 0) (hs : s.semaphores = [none]) :
    ({ s with semaphores := [some i] }.goto i .holding).Sound where
  handle      := by
    have hh := h.handle
    rwa [if_neg (by simp [hs])] at hh
  single      := le_rfl
  critical j  := by
    have hj := h.critical j
    rw [goto_position]
    grind
  waiting j n := by
    have hj := h.waiting j n
    rw [goto_position]
    grind
  owner j     := by
    have hj := h.owner j
    rw [Mutex.owner, hs] at hj
    rw [goto_position]
    change some i = some j ↔ _
    grind

theorem Sound.give (h : s.Sound) (hp : s.position i = .giving 0) (hs : s.semaphores = [some i]) :
    ({ s with semaphores := [none] }.goto i .outside).Sound where
  handle      := by
    have hh := h.handle
    rwa [if_neg (by simp [hs])] at hh
  single      := le_rfl
  critical j  := by
    have hj := h.critical j
    rw [goto_position]
    grind
  waiting j n := by
    have hj := h.waiting j n
    rw [goto_position]
    grind
  owner j     := by
    have hj := h.owner j
    rw [Mutex.owner, hs] at hj
    rw [goto_position]
    change none = some j ↔ _
    grind

-- What a step does, with the guard of each kind.
inductive Moves (s : Mutex ι) (i : ι) : Mutex ι → Prop
  | calls {p : Position} : s.position i = .outside → p = .entering ∨ p = .loading →
    Moves s i (s.goto i p)
  | enters : s.position i = .entering → s.critical = none →
    Moves s i ({ s with critical := some i }.goto i .creating)
  | creates (b : Bool) : s.position i = .creating → s.mutex = none →
    Moves s i ((s.xSemaphoreCreateMutex b).goto i .leaving)
  | finds : s.position i = .creating → s.mutex = some 0 → Moves s i (s.goto i .leaving)
  | leaves : s.position i = .leaving → Moves s i ({ s with critical := none }.goto i .loading)
  | fails : s.position i = .loading → s.mutex = none → Moves s i (s.goto i .outside)
  | loads : s.position i = .loading → s.mutex = some 0 → s.semaphores ≠ [] →
    Moves s i (s.goto i (.taking 0))
  | aborts : s.position i = .taking 0 → Moves s i (s.goto i .outside)
  | takes : s.position i = .taking 0 → s.semaphores = [none] →
    Moves s i ({ s with semaphores := [some i] }.goto i .holding)
  | unlocks : s.position i = .holding → s.semaphores ≠ [] → Moves s i (s.goto i (.giving 0))
  | gives : s.position i = .giving 0 → s.semaphores = [some i] →
    Moves s i ({ s with semaphores := [none] }.goto i .outside)

theorem Sound.moves (h : s.Sound) (hs : s.step t = some s') : Moves s t.thread s' := by
  rw [Mutex.step] at hs
  by_cases hc : s.critical.any (· ≠ t.thread) = true
  case pos =>
    rw [if_pos hc] at hs
    cases hs
  rw [if_neg hc] at hs
  have hcr : s.critical = none ∨ s.critical = some t.thread := by
    cases hk : s.critical <;> simp_all
  have hcases := h.cases
  have hw := h.waiting t.thread
  have ho := h.owner t.thread
  split at hs
  case h_1 hp =>
    obtain rfl := Option.some.inj hs
    refine .calls hp ?_
    split_ifs <;> simp
  case h_2 hp =>
    obtain rfl := Option.some.inj hs
    have hn := (h.critical t.thread).not.mpr (by simp [hp])
    exact .enters hp (hcr.resolve_right hn)
  case h_3 hp =>
    obtain rfl := Option.some.inj hs
    split_ifs with hm
    · exact .creates _ hp hm
    · obtain ⟨-, hm'⟩ | ⟨o, -, hm'⟩ := hcases
      · exact absurd hm' hm
      · exact .finds hp hm'
  case h_4 hp =>
    obtain rfl := Option.some.inj hs
    exact .leaves hp
  case h_5 hp =>
    obtain ⟨-, hm⟩ | ⟨o, hl, hm⟩ := hcases
    · rw [hm] at hs
      obtain rfl := Option.some.inj hs
      exact .fails hp hm
    · rw [hm] at hs
      obtain rfl := Option.some.inj hs
      exact .loads hp hm (by simp [hl])
  case h_6 n hp =>
    obtain ⟨rfl, hl⟩ := hw n (.inl hp)
    obtain ⟨he, -⟩ | ⟨o, hl', -⟩ := hcases
    · exact absurd he hl
    split_ifs at hs with hb hf
    · obtain rfl := Option.some.inj hs
      exact .aborts hp
    · obtain rfl := Option.some.inj hs
      rw [hl'] at hf ⊢
      obtain rfl : o = none := by simpa using hf
      exact .takes hp hl'
  case h_7 hp =>
    obtain ⟨he, -⟩ | ⟨o, hl', hm⟩ := hcases
    · have hh := ho.mpr (.inl hp)
      rw [Mutex.owner, he] at hh
      cases hh
    · rw [hm] at hs
      obtain rfl := Option.some.inj hs
      exact .unlocks hp (by simp [hl'])
  case h_8 n hp =>
    obtain ⟨rfl, hl⟩ := hw n (.inr hp)
    have hh := ho.mpr (.inr hp)
    obtain ⟨he, -⟩ | ⟨o, hl', -⟩ := hcases
    · exact absurd he hl
    obtain rfl : o = some t.thread := by simpa [Mutex.owner, hl'] using hh
    rw [hl', if_pos (by rfl)] at hs
    obtain rfl := Option.some.inj hs
    exact .gives hp hl'

theorem Sound.step (h : s.Sound) (hs : s.step t = some s') : s'.Sound := by
  cases h.moves hs
  case calls hp hq =>
    rcases hq with rfl | rfl <;> exact h.goto (by simp [hp]) (by simp [hp]) (by simp)
  case enters hp hc   => exact h.enter hp hc
  case creates b hp hm =>
    refine (h.create hm b).goto ?_ ?_ (by simp) <;>
      cases b <;> simp [xSemaphoreCreateMutex, hp]
  case finds hp _     => exact h.goto (by simp [hp]) (by simp [hp]) (by simp)
  case leaves hp      => exact h.leave hp
  case fails hp _     => exact h.goto (by simp [hp]) (by simp [hp]) (by simp)
  case loads hp _ hl  => exact h.goto (by simp [hp]) (by simp [hp]) (by simp_all)
  case aborts hp      => exact h.goto (by simp [hp]) (by simp [hp]) (by simp)
  case takes hp hl    => exact h.take hp hl
  case unlocks hp hl  => exact h.goto (by simp [hp]) (by simp [hp]) (by simp_all)
  case gives hp hl    => exact h.give hp hl

theorem sound_of_run {ts : List (Turn ι)} (h : Run Mutex.step initializer ts s) : s.Sound :=
  h.invariant (fun hs _ hi => hi.step hs) sound_initializer

-- A lock as it is meant: it has an owner, or it is free for one.
inductive LockStep (i : ι) : Option ι → Option ι → Prop
  | keep {o : Option ι} : LockStep i o o
  | acquire : LockStep i none (some i)
  | release : LockStep i (some i) none

theorem Sound.lockStep (h : s.Sound) (hs : s.step t = some s') :
    LockStep t.thread s.owner s'.owner := by
  cases h.moves hs
  case creates b _ hm =>
    have he : s.owner = none := by rw [Mutex.owner, h.empty hm]; rfl
    have he' : ((s.xSemaphoreCreateMutex b).goto t.thread .leaving).owner = none := by
      cases b <;> simp [Mutex.owner, xSemaphoreCreateMutex, h.empty hm]
    rw [he, he']
    exact .keep
  case takes _ hl =>
    rw [Mutex.owner, hl]
    exact .acquire
  case gives _ hl =>
    rw [Mutex.owner, hl]
    exact .release
  all_goals exact .keep

-- Whatever the interleaving, however many creations fail and waits are aborted: the word gets one
-- semaphore at most, one thread at most has the mutex, its call to unlock gives it back, and nobody
-- else takes it before.
theorem mutual_exclusion {ts : List (Turn ι)} (h : Run Mutex.step initializer ts s) :
    s.semaphores.length ≤ 1 ∧
    (∀ i j, s.position i = .holding → s.position j = .holding → i = j) ∧
    (∀ i n, s.position i = .giving n → s.semaphores[n]? = some (some i)) ∧
    Along Mutex.step (fun s t s' => LockStep t.thread s.owner s'.owner) initializer ts s := by
  have hs := sound_of_run h
  refine ⟨hs.single, fun i j hi hj => ?_, fun i n hi => ?_, ?_⟩
  · have hi' := (hs.owner i).mpr (.inl hi)
    have hj' := (hs.owner j).mpr (.inl hj)
    exact Option.some.inj (hi'.symm.trans hj')
  · obtain ⟨rfl, hl⟩ := hs.waiting i n (.inr hi)
    have ho := (hs.owner i).mpr (.inr hi)
    rcases hs.cases with ⟨he, -⟩ | ⟨o, he, -⟩
    · exact absurd he hl
    · rw [Mutex.owner, he] at ho
      rw [he]
      exact congrArg some ho
  · exact Along.of_invariant (fun he hi => ⟨hi.step he, hi.lockStep he⟩) h sound_initializer

theorem Sound.exists_step (h : s.Sound) (hi : s.position i ≠ .outside) :
    ∃ j s', s.position j ≠ .outside ∧ s.step ⟨j, true⟩ = some s' := by
  have hstep {j : ι} (hc : ¬s.critical.any (· ≠ j) = true) (hp : s.position j ≠ .outside)
      (ht : ∀ n, s.position j = .taking n → s.semaphores[n]? = some none) :
      ∃ j s', s.position j ≠ .outside ∧ s.step ⟨j, true⟩ = some s' := by
    refine ⟨j, ?_⟩
    simp only [Mutex.step, if_neg hc]
    cases hq : s.position j
    case outside  => exact absurd hq hp
    case taking n => exact ⟨_, by simp, by simp [ht n hq]; rfl⟩
    case loading  => cases s.mutex <;> exact ⟨_, by simp, rfl⟩
    case holding  => cases s.mutex <;> exact ⟨_, by simp, rfl⟩
    case giving n =>
      by_cases hg : s.semaphores[n]? = some (some j)
      · exact ⟨_, by simp, if_pos hg⟩
      · exact ⟨_, by simp, if_neg hg⟩
    all_goals exact ⟨_, by simp, rfl⟩
  cases hc : s.critical with
  | some j =>
    have hp := (h.critical j).mp hc
    refine hstep (j := j) (by simp [hc]) (by rcases hp with hp | hp <;> simp [hp]) fun n hn => ?_
    rcases hp with hp | hp <;> rw [hp] at hn <;> cases hn
  | none =>
    by_cases ht : ∀ n, s.position i = .taking n → s.semaphores[n]? = some none
    · exact hstep (by simp [hc]) hi ht
    · push Not at ht
      obtain ⟨n, hn, hs⟩ := ht
      obtain ⟨rfl, hl⟩ := h.waiting i n (.inl hn)
      obtain ⟨he, -⟩ | ⟨o, he, -⟩ := h.cases
      · exact absurd he hl
      cases o with
      | none   => exact absurd (by rw [he]; rfl) hs
      | some j =>
        have ho := (h.owner j).mp (by rw [Mutex.owner, he]; rfl)
        refine hstep (j := j) (by simp [hc]) (by rcases ho with ho | ho <;> simp [ho]) fun n hn => ?_
        rcases ho with ho | ho <;> rw [ho] at hn <;> cases hn

-- Two threads find no semaphore. The first one creates it and takes it, the second one waits.
def race : List (Turn Bool) :=
  [false, true, false, false, false, true, true, true, false, false, true].map (⟨·, true⟩)

theorem mutual_exclusion_race :
    (after Mutex.step initializer race).position false = .holding ∧
    (after Mutex.step initializer race).position true = .taking 0 ∧
    (after Mutex.step initializer race).semaphores.length ≤ 1 :=
  ⟨by decide, by decide, (mutual_exclusion (run_after (by decide))).1⟩

-- No interleaving is stuck: while a thread is in a call, or has the mutex, one of these threads can
-- go on, without the help of an aborted wait.
theorem never_deadlocks {ts : List (Turn ι)} (h : Run Mutex.step initializer ts s)
    (hi : s.position i ≠ .outside) :
    ∃ j s', s.position j ≠ .outside ∧ s.step ⟨j, true⟩ = some s' :=
  (sound_of_run h).exists_step hi

theorem never_deadlocks_race :
    ∃ j s', (after Mutex.step initializer race).position j ≠ .outside ∧
      (after Mutex.step initializer race).step ⟨j, true⟩ = some s' :=
  never_deadlocks (i := true) (run_after (by decide)) (by decide)

end Mutex
end SafetyIsland.Pthread

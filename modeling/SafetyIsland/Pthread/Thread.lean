import Mathlib.Tactic.Simps.Basic
import SafetyIsland.Transition.Run

namespace SafetyIsland.Pthread

open Transition

inductive Port
  | x5h
  | s32z2
deriving DecidableEq

-- What a created thread consists of: its bookkeeping, the semaphore of its end, the control block of
-- its task, and the storage of its thread-local variables.
inductive Part
  | info
  | done
  | tcb
  | tls
deriving DecidableEq

inductive Task
  -- It runs the start routine.
  | entry
  -- The start routine has returned.
  | returned
  -- It has given `done`, and is before `vTaskSuspend(NULL)`.
  | given
  -- It is suspended, by itself or by `pthread_cancel`.
  | suspended
  | deleted
deriving DecidableEq

inductive Call
  | idle
  -- `pthread_cancel`, before each of its effects.
  | clearing
  | giving
  | suspending
  | cancelCleaning
  | cancelDeleting
  -- `pthread_join`, before each of its effects.
  | waiting
  | checking
  | joinCleaning
  | joinDeleting
  | freeingTcb
  | deletingDone
  | freeingInfo
  -- It has returned. The handle is not used again.
  | joined
deriving DecidableEq

structure Thread where
  port      : Port
  -- The task was created in memory of the application, which `info->tcb` points to.
  ownsTcb   : Bool
  task      : Task
  call      : Call
  -- `info->task != NULL`
  hasTask   : Bool
  -- The binary semaphore is given.
  doneGiven : Bool
  -- The parts that are not freed.
  live      : Part → Bool
  -- Some part was used or freed after it had been freed.
  fault     : Bool

inductive Event
  -- The start routine goes on, or returns.
  | work
  | finish
  -- The next step of the task behind the start routine.
  | task
  -- The owner begins a call.
  | cancel
  | join
  -- The next step of the call of the owner. The wait for `done` may be aborted.
  | owner (aborted : Bool)
deriving DecidableEq

-- A step of the task, or one of the owner whose wait is not aborted.
def Event.GoesOn (e : Event) : Prop :=
  e = .task ∨ e = .owner false

namespace Thread

def touch (t : Thread) (p : Part) : Thread :=
  { t with fault := t.fault || !t.live p }

def free (t : Thread) (p : Part) : Thread :=
  { t.touch p with live := Function.update t.live p false }

def give (t : Thread) : Thread :=
  { (t.touch .info).touch .done with doneGiven := true }

def vTaskSuspend (t : Thread) : Thread :=
  { t.touch .tcb with task := .suspended }

-- The kernel frees a control block of its own.
def vTaskDelete (t : Thread) : Thread :=
  let t := { t.touch .tcb with task := .deleted }
  if t.ownsTcb then t else t.free .tcb

-- The storage hangs off the control block.
def x5h_emutls_task_cleanup (t : Thread) : Thread :=
  (t.touch .tcb).free .tls

def freeTcb (t : Thread) : Thread :=
  if t.ownsTcb then (t.touch .info).free .tcb else t.touch .info

@[simps] def goto (t : Thread) (c : Call) : Thread :=
  { t with call := c }

def created (port : Port) (ownsTcb : Bool) : Thread where
  port      := port
  ownsTcb   := ownsTcb
  task      := .entry
  call      := .idle
  hasTask   := true
  doneGiven := false
  live _    := true
  fault     := false

structure Allocations where
  info : Bool
  done : Bool
  tcb  : Bool
  task : Bool

-- The thread, or the parts that are left of it when it cannot be created.
def pthread_create (port : Port) (hasStack : Bool) (a : Allocations) : Except (List Part) Thread :=
  if a.info = false then .error []
  else
    let parts := [Part.info]
    if a.done = false then .error (parts.erase .info)
    else
      let parts := parts ++ [.done]
      let (ok, parts) :=
        if hasStack then
          if a.tcb then
            let parts := parts ++ [.tcb]
            if a.task then (true, parts) else (false, parts.erase .tcb)
          else (false, parts)
        else (a.task, parts)
      if ok then .ok (created port hasStack) else .error ((parts.erase .done).erase .info)

-- The start routine uses its thread-local variables.
def work (t : Thread) : Option Thread :=
  if t.task = .entry then some ((t.touch .tcb).touch .tls) else none

def finish (t : Thread) : Option Thread :=
  if t.task = .entry then some { t.touch .tcb with task := .returned } else none

def runTask (t : Thread) : Option Thread :=
  match t.task with
  | .returned => some { (t.touch .tcb).give with task := .given }
  | .given    => some t.vTaskSuspend
  | _         => none

def cancel (t : Thread) : Option Thread :=
  if t.call = .idle then
    let t := t.touch .info
    some (if t.hasTask then t.goto .clearing else t)
  else none

def join (t : Thread) : Option Thread :=
  if t.call = .idle then some (t.goto .waiting) else none

def runOwner (t : Thread) (aborted : Bool) : Option Thread :=
  match t.call with
  | .idle | .joined  => none
  | .clearing        => some ({ t.touch .info with hasTask := false }.goto .giving)
  | .giving          =>
    some (t.give.goto (if t.port = .x5h then .suspending else .cancelDeleting))
  | .suspending      => some (t.vTaskSuspend.goto .cancelCleaning)
  | .cancelCleaning  => some (t.x5h_emutls_task_cleanup.goto .cancelDeleting)
  | .cancelDeleting  => some (t.vTaskDelete.goto .idle)
  | .waiting         =>
    let t := (t.touch .info).touch .done
    if aborted then some (if t.port = .x5h then t else t.goto .checking)
    else if t.doneGiven then some ({ t with doneGiven := false }.goto .checking)
    else none
  | .checking        =>
    let t := t.touch .info
    some (t.goto (if t.hasTask then if t.port = .x5h then .joinCleaning else .joinDeleting
      else .freeingTcb))
  | .joinCleaning    => some ((t.touch .info).x5h_emutls_task_cleanup.goto .joinDeleting)
  | .joinDeleting    => some ((t.touch .info).vTaskDelete.goto .freeingTcb)
  | .freeingTcb      => some (t.freeTcb.goto .deletingDone)
  | .deletingDone    => some (((t.touch .info).free .done).goto .freeingInfo)
  | .freeingInfo     => some ((t.free .info).goto .joined)

def step (t : Thread) : Event → Option Thread
  | .work          => t.work
  | .finish        => t.finish
  | .task          => t.runTask
  | .cancel        => t.cancel
  | .join          => t.join
  | .owner aborted => t.runOwner aborted

def needed (t : Thread) : Part → Bool
  | .info => t.call ≠ .joined
  | .done => t.call ≠ .freeingInfo ∧ t.call ≠ .joined
  | .tcb  =>
    if t.ownsTcb then t.call ≠ .deletingDone ∧ t.call ≠ .freeingInfo ∧ t.call ≠ .joined
    else t.task ≠ .deleted
  | .tls  => t.port = .x5h → t.task ≠ .deleted ∧ t.call ≠ .cancelDeleting ∧ t.call ≠ .joinDeleting

def ended (t : Thread) : Prop :=
  t.task = .given ∨ t.task = .suspended

-- What the owner may rely on, from where it is.
def Phase (t : Thread) : Prop :=
  match t.call with
  | .idle | .waiting =>
    t.hasTask ∧ t.task ≠ .deleted ∧ (t.doneGiven ↔ t.ended) ∨
      ¬t.hasTask ∧ t.task = .deleted ∧ t.doneGiven
  | .clearing        => t.hasTask ∧ t.task ≠ .deleted ∧ (t.doneGiven ↔ t.ended)
  | .giving          => ¬t.hasTask ∧ t.task ≠ .deleted
  | .suspending      => t.port = .x5h ∧ ¬t.hasTask ∧ t.task ≠ .deleted ∧ t.doneGiven
  | .cancelCleaning  => t.port = .x5h ∧ ¬t.hasTask ∧ t.task = .suspended ∧ t.doneGiven
  | .cancelDeleting  =>
    ¬t.hasTask ∧ t.task ≠ .deleted ∧ t.doneGiven ∧ (t.port = .x5h → t.task = .suspended)
  | .checking        => t.hasTask ∧ t.ended ∨ ¬t.hasTask ∧ t.task = .deleted
  | .joinCleaning    => t.port = .x5h ∧ t.ended
  | .joinDeleting    => t.ended
  | _                => t.task = .deleted

structure Sound (t : Thread) : Prop where
  fault : t.fault = false
  live  : t.live = t.needed
  phase : t.Phase

theorem pthread_create_cases (port : Port) (hasStack : Bool) (a : Allocations) :
    pthread_create port hasStack a = .error [] ∨
      pthread_create port hasStack a = .ok (created port hasStack) := by
  obtain ⟨info, done, tcb, task⟩ := a
  cases hasStack <;> cases info <;> cases done <;> cases tcb <;> cases task <;>
    first | exact .inl rfl | exact .inr rfl

theorem eq_created {port : Port} {hasStack : Bool} {a : Allocations} {t : Thread}
    (h : pthread_create port hasStack a = .ok t) : t = created port hasStack := by
  rcases pthread_create_cases port hasStack a with hc | hc <;> rw [hc] at h <;> cases h
  rfl

theorem sound_created (port : Port) (ownsTcb : Bool) : (created port ownsTcb).Sound where
  fault := rfl
  live  := by
    funext p
    cases p <;> simp [created, needed]
  phase := by simp [created, Phase, ended]

variable {t t' : Thread} {p : Part}

theorem touch_of_live (h : t.live p = true) : t.touch p = t := by
  rw [touch, h, Bool.not_true, Bool.or_false]

theorem Sound.live_of (h : t.Sound) (hn : t.needed p = true) : t.live p = true := by
  rw [h.live, hn]

theorem Sound.touch (h : t.Sound) (hn : t.needed p = true) : t.touch p = t :=
  touch_of_live (h.live_of hn)

theorem Sound.needed_tcb (h : t.Sound) (ht : t.task ≠ .deleted) : t.needed .tcb = true := by
  have hp := h.phase
  cases hc : t.call <;> simp_all [Phase, needed]

theorem Sound.work (h : t.Sound) (hs : t.work = some t') : t' = t := by
  rw [Thread.work] at hs
  split_ifs at hs with ht
  obtain rfl := Option.some.inj hs
  have hp := h.phase
  have htls : t.needed .tls = true := by
    cases hc : t.call <;> simp_all [Phase, needed, ended]
  rw [h.touch (h.needed_tcb (by simp [ht])), h.touch htls]

theorem Sound.finish (h : t.Sound) (hs : t.finish = some t') : t'.Sound := by
  rw [Thread.finish] at hs
  split_ifs at hs with ht
  obtain rfl := Option.some.inj hs
  rw [h.touch (h.needed_tcb (by simp [ht]))]
  have hp := h.phase
  refine ⟨h.fault, ?_, ?_⟩
  · funext p
    change t.live p = _
    rw [h.live]
    cases p <;> simp [needed, ht]
  · cases hc : t.call <;> simp_all [Phase, ended]

theorem Sound.runTask (h : t.Sound) (hs : t.runTask = some t') : t'.Sound := by
  have hp := h.phase
  rw [Thread.runTask] at hs
  split at hs
  case h_1 ht =>
    obtain rfl := Option.some.inj hs
    have hi : t.needed .info = true := by cases hc : t.call <;> simp_all [Phase, needed]
    have hd : t.needed .done = true := by cases hc : t.call <;> simp_all [Phase, needed]
    rw [h.touch (h.needed_tcb (by simp [ht])), give, h.touch hi, h.touch hd]
    refine ⟨h.fault, ?_, ?_⟩
    · funext p
      change t.live p = _
      rw [h.live]
      cases p <;> simp [needed, ht]
    · cases hc : t.call <;> simp_all [Phase, ended]
  case h_2 ht =>
    obtain rfl := Option.some.inj hs
    rw [vTaskSuspend, h.touch (h.needed_tcb (by simp [ht]))]
    refine ⟨h.fault, ?_, ?_⟩
    · funext p
      change t.live p = _
      rw [h.live]
      cases p <;> simp [needed, ht]
    · cases hc : t.call <;> simp_all [Phase, ended]
  case h_3 => cases hs

theorem Sound.cancel (h : t.Sound) (hs : t.cancel = some t') : t'.Sound := by
  have hp := h.phase
  rw [Thread.cancel] at hs
  split_ifs at hs with hc
  simp only [h.touch (p := .info) (by simp [needed, hc])] at hs
  obtain rfl := Option.some.inj hs
  split_ifs with ht
  · refine ⟨h.fault, ?_, ?_⟩
    · funext p
      change t.live p = _
      rw [h.live]
      cases p <;> simp [needed, hc]
    · simp_all [Phase, ended]
  · exact h

theorem Sound.join (h : t.Sound) (hs : t.join = some t') : t'.Sound := by
  have hp := h.phase
  rw [Thread.join] at hs
  split_ifs at hs with hc
  obtain rfl := Option.some.inj hs
  refine ⟨h.fault, ?_, ?_⟩
  · funext p
    change t.live p = _
    rw [h.live]
    cases p <;> simp [needed, hc]
  · simpa [Phase, ended, hc] using hp

theorem Sound.vTaskDelete_eq (h : t.Sound) (ht : t.task ≠ .deleted) :
    t.vTaskDelete = { t with
      task := .deleted
      live := if t.ownsTcb then t.live else Function.update t.live .tcb false } := by
  have htcb := h.live_of (h.needed_tcb ht)
  rw [Thread.vTaskDelete, touch_of_live htcb]
  cases ho : t.ownsTcb
  · simp [free, Thread.touch, htcb, ho]
  · simp [ho]

theorem Sound.of_parts (hf : t.fault = false) (hl : ∀ p, t.live p = t.needed p) (hp : t.Phase) :
    t.Sound :=
  ⟨hf, funext hl, hp⟩

section Cancel

theorem Sound.clearing (h : t.Sound) (hc : t.call = .clearing) :
    ({ t.touch .info with hasTask := false }.goto .giving).Sound := by
  have hp := h.phase
  rw [h.touch (by simp [needed, hc])]
  refine .of_parts h.fault (fun p => ?_) ?_
  case refine_1 => cases p <;> simp [h.live, needed, hc]
  case refine_2 => simp_all [Phase]

theorem Sound.giving (h : t.Sound) (hc : t.call = .giving) :
    (t.give.goto (if t.port = .x5h then .suspending else .cancelDeleting)).Sound := by
  have hp := h.phase
  have hl := h.live
  rw [give, h.touch (by simp [needed, hc]), h.touch (by simp [needed, hc])]
  refine .of_parts h.fault (fun p => ?_) ?_
  case refine_1 => cases p <;> simp_all [needed, Phase] <;> split_ifs <;> simp_all
  case refine_2 =>
    simp only [Phase, goto_call]
    split_ifs <;> simp_all [Phase]

theorem Sound.suspending (h : t.Sound) (hc : t.call = .suspending) :
    (t.vTaskSuspend.goto .cancelCleaning).Sound := by
  have hp := h.phase
  have hl := h.live
  have ht : t.task ≠ .deleted := by simp_all [Phase]
  rw [vTaskSuspend, h.touch (h.needed_tcb ht)]
  refine .of_parts h.fault (fun p => ?_) ?_
  case refine_1 => cases p <;> simp_all [needed]
  case refine_2 => simp_all [Phase]

theorem Sound.cancelCleaning (h : t.Sound) (hc : t.call = .cancelCleaning) :
    (t.x5h_emutls_task_cleanup.goto .cancelDeleting).Sound := by
  have hp := h.phase
  have hl := h.live
  have ht : t.task ≠ .deleted := by simp_all [Phase]
  rw [x5h_emutls_task_cleanup, h.touch (h.needed_tcb ht), free, h.touch (by simp [needed, hc, ht])]
  refine .of_parts h.fault (fun p => ?_) ?_
  case refine_1 => cases p <;> simp_all [needed, Phase]
  case refine_2 => simp_all [Phase]

theorem Sound.cancelDeleting (h : t.Sound) (hc : t.call = .cancelDeleting) :
    (t.vTaskDelete.goto .idle).Sound := by
  have hp := h.phase
  have hl := h.live
  have ht : t.task ≠ .deleted := by simp_all [Phase]
  rw [h.vTaskDelete_eq ht]
  refine .of_parts h.fault (fun p => ?_) ?_
  case refine_1 => cases p <;> cases ho : t.ownsTcb <;> simp_all [needed]
  case refine_2 => simp_all [Phase]

end Cancel

section Join

theorem Sound.waiting (h : t.Sound) (hc : t.call = .waiting) (hd : t.doneGiven = true) :
    ({ t with doneGiven := false }.goto .checking).Sound := by
  have hp := h.phase
  have hl := h.live
  refine .of_parts h.fault (fun p => ?_) ?_
  case refine_1 => cases p <;> simp_all [needed]
  case refine_2 =>
    simp_all [Phase, ended]
    grind

theorem Sound.checking (h : t.Sound) (hc : t.call = .checking) :
    (t.goto (if t.hasTask then if t.port = .x5h then .joinCleaning else .joinDeleting
      else .freeingTcb)).Sound := by
  have hp := h.phase
  have hl := h.live
  refine .of_parts h.fault (fun p => ?_) ?_
  case refine_1 => cases p <;> simp_all [needed, Phase] <;> split_ifs <;> simp_all [ended]
  case refine_2 =>
    simp only [Phase, goto_call]
    split_ifs <;> simp_all [Phase, ended]

theorem ended.not_deleted (h : t.ended) : t.task ≠ .deleted := by
  rcases h with ht | ht <;> simp [ht]

theorem Sound.joinCleaning (h : t.Sound) (hc : t.call = .joinCleaning) :
    ((t.touch .info).x5h_emutls_task_cleanup.goto .joinDeleting).Sound := by
  have hp := h.phase
  have hl := h.live
  have ht : t.task ≠ .deleted := by
    simp only [Phase, hc] at hp
    exact hp.2.not_deleted
  rw [h.touch (by simp [needed, hc]), x5h_emutls_task_cleanup, h.touch (h.needed_tcb ht), free,
    h.touch (by simp [needed, hc, ht])]
  refine .of_parts h.fault (fun p => ?_) ?_
  case refine_1 => cases p <;> simp_all [needed, Phase]
  case refine_2 => simp_all [Phase, ended]

theorem Sound.joinDeleting (h : t.Sound) (hc : t.call = .joinDeleting) :
    ((t.touch .info).vTaskDelete.goto .freeingTcb).Sound := by
  have hp := h.phase
  have hl := h.live
  have ht : t.task ≠ .deleted := by
    simp only [Phase, hc] at hp
    exact hp.not_deleted
  rw [h.touch (by simp [needed, hc]), h.vTaskDelete_eq ht]
  refine .of_parts h.fault (fun p => ?_) ?_
  case refine_1 => cases p <;> cases ho : t.ownsTcb <;> simp_all [needed]
  case refine_2 => simp_all [Phase]

theorem Sound.freeingTcb (h : t.Sound) (hc : t.call = .freeingTcb) :
    (t.freeTcb.goto .deletingDone).Sound := by
  have hp := h.phase
  have hl := h.live
  have ht : t.task = .deleted := by simpa [Phase, hc] using hp
  rw [freeTcb, h.touch (by simp [needed, hc])]
  cases ho : t.ownsTcb
  case false =>
    refine .of_parts h.fault (fun p => ?_) ?_
    case refine_1 => cases p <;> simp_all [needed]
    case refine_2 => simp_all [Phase]
  case true  =>
    rw [if_pos rfl, free, h.touch (by simp [needed, hc, ho])]
    refine .of_parts h.fault (fun p => ?_) ?_
    case refine_1 => cases p <;> simp_all [needed]
    case refine_2 => simp_all [Phase]

theorem Sound.deletingDone (h : t.Sound) (hc : t.call = .deletingDone) :
    (((t.touch .info).free .done).goto .freeingInfo).Sound := by
  have hp := h.phase
  have hl := h.live
  rw [h.touch (by simp [needed, hc]), free, h.touch (by simp [needed, hc])]
  refine .of_parts h.fault (fun p => ?_) ?_
  case refine_1 => cases p <;> simp_all [needed, Phase]
  case refine_2 => simp_all [Phase]

theorem Sound.freeingInfo (h : t.Sound) (hc : t.call = .freeingInfo) :
    ((t.free .info).goto .joined).Sound := by
  have hp := h.phase
  have hl := h.live
  rw [free, h.touch (by simp [needed, hc])]
  refine .of_parts h.fault (fun p => ?_) ?_
  case refine_1 => cases p <;> simp_all [needed, Phase]
  case refine_2 => simp_all [Phase]

end Join

theorem Sound.runOwner {aborted : Bool} (h : t.Sound) (hs : t.runOwner aborted = some t')
    (ha : t.port = .x5h ∨ aborted = false) : t'.Sound := by
  cases hc : t.call
  all_goals simp only [Thread.runOwner, hc] at hs
  case idle | joined => cases hs
  case waiting =>
    simp only [h.touch (p := .info) (by simp [needed, hc]),
      h.touch (p := .done) (by simp [needed, hc])] at hs
    split_ifs at hs with hb hx hd
    · cases hs
      exact h
    · exact absurd hb (by simpa [hx] using ha)
    · cases hs
      exact h.waiting hc hd
  case checking =>
    rw [h.touch (p := .info) (by simp [needed, hc])] at hs
    cases hs
    exact h.checking hc
  case clearing =>
    cases hs
    exact h.clearing hc
  case giving =>
    cases hs
    exact h.giving hc
  case suspending =>
    cases hs
    exact h.suspending hc
  case cancelCleaning =>
    cases hs
    exact h.cancelCleaning hc
  case cancelDeleting =>
    cases hs
    exact h.cancelDeleting hc
  case joinCleaning =>
    cases hs
    exact h.joinCleaning hc
  case joinDeleting =>
    cases hs
    exact h.joinDeleting hc
  case freeingTcb =>
    cases hs
    exact h.freeingTcb hc
  case deletingDone =>
    cases hs
    exact h.deletingDone hc
  case freeingInfo =>
    cases hs
    exact h.freeingInfo hc

section Fields

@[simp] theorem touch_port : (t.touch p).port = t.port := rfl
@[simp] theorem touch_task : (t.touch p).task = t.task := rfl
@[simp] theorem touch_call : (t.touch p).call = t.call := rfl
@[simp] theorem touch_hasTask : (t.touch p).hasTask = t.hasTask := rfl
@[simp] theorem touch_doneGiven : (t.touch p).doneGiven = t.doneGiven := rfl
@[simp] theorem touch_ownsTcb : (t.touch p).ownsTcb = t.ownsTcb := rfl

@[simp] theorem free_port : (t.free p).port = t.port := rfl
@[simp] theorem free_task : (t.free p).task = t.task := rfl
@[simp] theorem free_call : (t.free p).call = t.call := rfl

@[simp] theorem freeTcb_port : t.freeTcb.port = t.port := by
  rw [freeTcb]
  split_ifs <;> rfl

@[simp] theorem freeTcb_task : t.freeTcb.task = t.task := by
  rw [freeTcb]
  split_ifs <;> rfl

@[simp] theorem vTaskDelete_port : t.vTaskDelete.port = t.port := by
  simp only [vTaskDelete]
  split_ifs <;> rfl

@[simp] theorem vTaskDelete_task : t.vTaskDelete.task = .deleted := by
  simp only [vTaskDelete]
  split_ifs <;> rfl

end Fields

theorem step_port {e : Event} (hs : t.step e = some t') : t'.port = t.port := by
  cases e <;> simp only [Thread.step, Thread.work, Thread.finish, Thread.runTask, Thread.cancel,
    Thread.join, Thread.runOwner] at hs
  all_goals
    split at hs <;> (try split_ifs at hs) <;> cases hs <;>
      simp [give, vTaskSuspend, x5h_emutls_task_cleanup]

theorem Sound.step {e : Event} (h : t.Sound) (hs : t.step e = some t')
    (ha : t.port = .x5h ∨ e ≠ .owner true) : t'.Sound := by
  cases e
  case work => rwa [h.work hs]
  case finish => exact h.finish hs
  case task => exact h.runTask hs
  case cancel => exact h.cancel hs
  case join => exact h.join hs
  case owner aborted => exact h.runOwner hs (ha.imp_right fun hn => by simpa using hn)

-- No call of `pthread_cancel` has been made, and the start routine has not returned.
def Untouched (t : Thread) : Prop :=
  t.task = .entry ∧ t.hasTask = true ∧ t.doneGiven = false ∧ (t.call = .idle ∨ t.call = .waiting)

theorem Untouched.step {e : Event} (h : t.Untouched) (hs : t.step e = some t')
    (ha : t.port = .x5h ∨ e ≠ .owner true) (hf : e ≠ .finish) (hc : e ≠ .cancel) :
    t'.Untouched := by
  obtain ⟨ht, hh, hd, hcall⟩ := h
  cases e
  case work =>
    simp only [Thread.step, Thread.work, ht, if_true] at hs
    obtain rfl := Option.some.inj hs
    exact ⟨ht, hh, hd, hcall⟩
  case finish => exact absurd rfl hf
  case cancel => exact absurd rfl hc
  case task   => simp [Thread.step, Thread.runTask, ht] at hs
  case join   =>
    simp only [Thread.step, Thread.join] at hs
    split_ifs at hs
    obtain rfl := Option.some.inj hs
    exact ⟨ht, hh, hd, .inr rfl⟩
  case owner aborted =>
    rcases hcall with hcall | hcall
    · simp [Thread.step, Thread.runOwner, hcall] at hs
    · simp only [Thread.step, Thread.runOwner, hcall, touch_doneGiven, hd] at hs
      simp only [Bool.false_eq_true, if_false] at hs
      split_ifs at hs with hb hx
      · obtain rfl := Option.some.inj hs
        exact ⟨ht, hh, hd, .inr hcall⟩
      · exact absurd hb (by rcases ha with ha | ha <;> simp_all)

-- What is known after any events: the thread is sound, and it is untouched unless one of them
-- touched it.
theorem sound_of_run {port : Port} {ownsTcb : Bool} {es : List Event}
    (h : Run step (created port ownsTcb) es t) (ha : port = .x5h ∨ .owner true ∉ es) :
    t.Sound ∧ (.finish ∉ es → .cancel ∉ es → t.Untouched) := by
  have key := h.history (P := fun es t => t.port = port ∧
    ((port = .x5h ∨ .owner true ∉ es) →
      t.Sound ∧ (.finish ∉ es → .cancel ∉ es → t.Untouched))) (fun {es t e t'} hs _ hp => ?_)
    ⟨rfl, fun _ => ⟨sound_created .., fun _ _ => ⟨rfl, rfl, rfl, .inl rfl⟩⟩⟩
  · exact key.2 ha
  · refine ⟨(step_port hs).trans hp.1, fun ha => ?_⟩
    have ha₁ : port = .x5h ∨ .owner true ∉ es := ha.imp_right fun hn hm => hn (by simp [hm])
    have ha₂ : t.port = .x5h ∨ e ≠ .owner true := by
      rw [hp.1]
      exact ha.imp_right fun hn he => hn (by simp [he])
    obtain ⟨hs₁, hu⟩ := hp.2 ha₁
    refine ⟨hs₁.step hs ha₂, fun hf hc => ?_⟩
    rw [List.mem_append, List.mem_singleton, not_or] at hf hc
    exact (hu hf.1 hc.1).step hs ha₂ (Ne.symm hf.2) (Ne.symm hc.2)

-- The steps that are left until the join has returned: those of the owner, and of the task.
def ownerLeft (t : Thread) : ℕ :=
  match t.call with
  | .waiting      => 7
  | .checking     => 6
  | .joinCleaning => 5
  | .joinDeleting => 4
  | .freeingTcb   => 3
  | .deletingDone => 2
  | .freeingInfo  => 1
  | _             => 0

def taskLeft (t : Thread) : ℕ :=
  match t.task with
  | .returned => 2
  | .given    => 1
  | _         => 0

-- The owner joins a thread whose start routine has ended.
structure Joins (t : Thread) : Prop where
  call : t.ownerLeft ≠ 0 ∨ t.call = .joined
  task : t.task ≠ .entry

theorem Joins.step {e : Event} (h : t.Joins) (hs : t.step e = some t') (he : e.GoesOn) :
    t'.Joins ∧ t'.ownerLeft + t'.taskLeft < t.ownerLeft + t.taskLeft := by
  obtain ⟨hc, ht⟩ := h
  rcases he with rfl | rfl
  case inl =>
    simp only [Thread.step, Thread.runTask] at hs
    split at hs
    case h_1 hr =>
      obtain rfl := Option.some.inj hs
      refine ⟨⟨hc, by simp⟩, ?_⟩
      simp only [taskLeft, hr]
      exact Nat.add_lt_add_left (by decide) _
    case h_2 hr =>
      obtain rfl := Option.some.inj hs
      refine ⟨⟨hc, by simp [vTaskSuspend]⟩, ?_⟩
      simp only [taskLeft, hr, vTaskSuspend]
      exact Nat.add_lt_add_left (by decide) _
    case h_3 => cases hs
  case inr =>
    simp only [Thread.step, Thread.runOwner] at hs
    split at hs
    case h_1 hk => cases hs
    case h_2 hk => cases hs
    case h_3 hk => simp [ownerLeft, hk] at hc
    case h_4 hk => simp [ownerLeft, hk] at hc
    case h_5 hk => simp [ownerLeft, hk] at hc
    case h_6 hk => simp [ownerLeft, hk] at hc
    case h_7 hk => simp [ownerLeft, hk] at hc
    case h_8 hk =>
      simp only [Bool.false_eq_true, if_false] at hs
      split_ifs at hs
      obtain rfl := Option.some.inj hs
      exact ⟨⟨by simp [ownerLeft], ht⟩, by simp [ownerLeft, taskLeft, hk]⟩
    case h_9 hk =>
      obtain rfl := Option.some.inj hs
      refine ⟨⟨?_, ht⟩, ?_⟩
      · left
        simp only [ownerLeft, goto_call]
        split_ifs <;> simp
      · simp only [ownerLeft, taskLeft, goto_call, goto_task, touch_task, hk]
        split_ifs <;> simp
    case h_10 hk =>
      obtain rfl := Option.some.inj hs
      exact ⟨⟨by simp [ownerLeft], ht⟩,
        by simp [ownerLeft, taskLeft, hk, x5h_emutls_task_cleanup]⟩
    case h_11 hk =>
      obtain rfl := Option.some.inj hs
      refine ⟨⟨by simp [ownerLeft], by simp⟩, ?_⟩
      simp [ownerLeft, taskLeft, hk]
      omega
    case h_12 hk =>
      obtain rfl := Option.some.inj hs
      exact ⟨⟨by simp [ownerLeft], by simpa using ht⟩, by simp [ownerLeft, taskLeft, hk]⟩
    case h_13 hk =>
      obtain rfl := Option.some.inj hs
      exact ⟨⟨by simp [ownerLeft], ht⟩, by simp [ownerLeft, taskLeft, hk]⟩
    case h_14 hk =>
      obtain rfl := Option.some.inj hs
      exact ⟨⟨by simp, ht⟩, by simp [ownerLeft, taskLeft, hk]⟩

theorem Joins.exists_step (h : t.Joins) (hs : t.Sound) :
    t.call = .joined ∨ ∃ e t', e.GoesOn ∧ t.step e = some t' := by
  have hgo (e : Event) (hg : e.GoesOn) (hs : (t.step e).isSome) :
      ∃ e t', e.GoesOn ∧ t.step e = some t' :=
    ⟨e, _, hg, Option.some_get hs |>.symm⟩
  have howner (ho : (t.runOwner false).isSome) : ∃ e t', e.GoesOn ∧ t.step e = some t' :=
    hgo (.owner false) (.inr rfl) ho
  have hp := hs.phase
  obtain ⟨hc, ht⟩ := h
  cases hk : t.call
  case joined => exact .inl rfl
  case waiting =>
    right
    cases hd : t.doneGiven
    case true => exact howner (by simp [runOwner, hk, hd])
    case false =>
      have hr : t.task = .returned := by
        simp only [Phase, hk, hd, ended] at hp
        cases hq : t.task <;> simp_all
      exact hgo .task (.inl rfl) (by simp [Thread.step, Thread.runTask, hr])
  case checking => exact .inr (howner (by simp [runOwner, hk]))
  case joinCleaning => exact .inr (howner (by simp [runOwner, hk]))
  case joinDeleting => exact .inr (howner (by simp [runOwner, hk]))
  case freeingTcb => exact .inr (howner (by simp [runOwner, hk]))
  case deletingDone => exact .inr (howner (by simp [runOwner, hk]))
  case freeingInfo => exact .inr (howner (by simp [runOwner, hk]))
  all_goals simp [ownerLeft, hk] at hc

-- A join of a thread whose start routine has ended returns: as long as it has not, the task or the
-- owner can go on, and neither does so forever, whoever of the two is scheduled.
theorem join_returns {port : Port} {hasStack : Bool} {a : Allocations} {t₀ : Thread}
    {es es' : List Event} (h₀ : pthread_create port hasStack a = .ok t₀) (h : Run step t₀ es t)
    (ha : port = .x5h ∨ .owner true ∉ es) (hj : t.Joins) (hr : Run step t es' t') (he : ∀ e ∈ es', e.GoesOn) :
    es'.length ≤ 9 ∧ (t'.call = .joined ∨ ∃ e t'', e.GoesOn ∧ t'.step e = some t'') := by
  have hle : t.ownerLeft + t.taskLeft ≤ 9 := by
    have ho : t.ownerLeft ≤ 7 := by
      rw [ownerLeft]
      split <;> omega
    have hk : t.taskLeft ≤ 2 := by
      rw [taskLeft]
      split <;> omega
    omega
  obtain rfl := eq_created h₀
  obtain ⟨hs, -⟩ := sound_of_run h ha
  have hal : Along step (fun _ e _ => e.GoesOn) t es' t' := .of_run hr fun e hm _ _ => he e hm
  have key := hal.history (P := fun es t' => t'.Sound ∧ t'.Joins ∧
    es.length + (t'.ownerLeft + t'.taskLeft) ≤ t.ownerLeft + t.taskLeft)
    (fun {es t e t'} hst hg hp => ?_) ⟨hs, hj, by simp⟩
  · obtain ⟨hs', hj', hl⟩ := key
    exact ⟨by omega, hj'.exists_step hs'⟩
  · obtain ⟨hs₁, hj₁, hl⟩ := hp
    obtain ⟨hj₂, hlt⟩ := hj₁.step hst hg
    refine ⟨hs₁.step hst (.inr ?_), hj₂, ?_⟩
    · rcases hg with rfl | rfl <;> simp
    · rw [List.length_append, List.length_singleton]
      omega

-- The joiner waits before the start routine returns, and its first wait is aborted.
def waited : List Event :=
  [.join, .owner true, .work, .finish]

theorem join_returns_waited :
    ∃ e t', e.GoesOn ∧ (after step (created .x5h false) waited).step e = some t' := by
  have hr : Run step (created .x5h false) waited (after step (created .x5h false) waited) :=
    run_after (by decide)
  have h₀ : pthread_create .x5h false ⟨true, true, true, true⟩ = .ok (created .x5h false) := rfl
  have h := join_returns h₀ hr (.inl rfl) ⟨.inl (by decide), by decide⟩ .nil (by simp)
  exact h.2.resolve_left (by decide)

-- Where the join does not wait again, the aborted wait deletes a running task under its feet.
example : (after step (created .s32z2 true)
    [.join, .owner true, .owner false, .owner false, .owner false]).task = .deleted := by decide

end Thread
end SafetyIsland.Pthread

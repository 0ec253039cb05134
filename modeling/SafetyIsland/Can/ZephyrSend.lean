import SafetyIsland.Can.ZephyrCan
import SafetyIsland.Transition.Run

namespace SafetyIsland.Can

open Transition

-- What the driver reports to the callback: the number of a frame that it accepted, and the error.
structure Completion where
  number : ℕ
  error  : ℤ
deriving DecidableEq

-- The statement of `can_send` that its caller executes next. `loadError` also has the completion that
-- ended the wait.
inductive Statement
  | outside
  | loadState (frame : CanFrame)
  | takeLate (frame : CanFrame)
  | storeIdle (frame : CanFrame)
  | exchange (frame : CanFrame)
  | clearError (frame : CanFrame)
  | initDone (frame : CanFrame)
  | hand (frame : CanFrame)
  | storeRefused
  | wait (number : ℕ)
  | storeTimedOut
  | loadError (completion : Completion)
  | storeDone (error : ℤ)
  | ret (ok : Bool)
deriving DecidableEq

-- The context of the sends, where the semaphore is the completion that gave it, and the driver: the
-- frames that it accepted so far, the numbers of those that it has not reported, and the callbacks
-- between their two statements.
structure ZephyrSend where
  next      : Statement
  state     : CanSendState
  done      : Option Completion
  error     : ℤ
  accepted  : List CanFrame
  pending   : List ℕ
  callbacks : List Completion
deriving DecidableEq

inductive SendEvent
  | call (frame : CanFrame)
  -- a statement of the caller that has one outcome
  | advance
  -- the answers of the driver's `can_send`
  | accept
  | refuse
  -- the outcomes of the wait
  | take
  | timeout
  | ret (ok : Bool)
  -- the two statements of the callback
  | report (completion : Completion)
  | give (completion : Completion)
deriving DecidableEq

namespace ZephyrSend

def init : ZephyrSend where
  next      := .outside
  state     := .idle
  done      := none
  error     := 0
  accepted  := []
  pending   := []
  callbacks := []

def advance (s : ZephyrSend) : Option ZephyrSend :=
  match s.next with
  | .loadState frame =>
    some { s with next := if s.state = .timedOut then .takeLate frame else .exchange frame }
  | .takeLate frame =>
    if s.done.isSome then some { s with done := none, next := .storeIdle frame }
    else some { s with next := .ret false }
  | .storeIdle frame  => some { s with state := .idle, next := .exchange frame }
  | .exchange frame   =>
    if s.state = .idle then some { s with state := .waiting, next := .clearError frame }
    else some { s with next := .ret false }
  | .clearError frame => some { s with error := 0, next := .initDone frame }
  | .initDone frame   => some { s with done := none, next := .hand frame }
  | .storeRefused     => some { s with state := .idle, next := .ret false }
  | .storeTimedOut    => some { s with state := .timedOut, next := .ret false }
  | .loadError _      => some { s with next := .storeDone s.error }
  | .storeDone error  => some { s with state := .idle, next := .ret (error = 0) }
  | _                 => none

def step (s : ZephyrSend) : SendEvent → Option ZephyrSend
  | .call frame =>
    if s.next = .outside then
      some { s with next := if ZephyrCan.inRange frame then .loadState frame else .ret false }
    else none
  | .advance => s.advance
  | .accept =>
    match s.next with
    | .hand frame =>
      some { s with
        next     := .wait s.accepted.length
        accepted := s.accepted ++ [frame.wired]
        pending  := s.accepted.length :: s.pending }
    | _ => none
  | .refuse =>
    match s.next with
    | .hand _ => some { s with next := .storeRefused }
    | _       => none
  | .take =>
    match s.next, s.done with
    | .wait _, some completion => some { s with done := none, next := .loadError completion }
    | _,       _               => none
  | .timeout =>
    match s.next, s.done with
    | .wait _, none => some { s with next := .storeTimedOut }
    | _,       _    => none
  | .ret ok => if s.next = .ret ok then some { s with next := .outside } else none
  | .report completion =>
    if completion.number ∈ s.pending then
      some { s with
        error     := completion.error
        pending   := s.pending.erase completion.number
        callbacks := completion :: s.callbacks }
    else none
  | .give completion =>
    if completion ∈ s.callbacks then
      some { s with
        done      := s.done <|> some completion
        callbacks := s.callbacks.erase completion }
    else none

def outstanding (s : ZephyrSend) : List ℕ :=
  s.pending ++ s.callbacks.map Completion.number

variable {s s' : ZephyrSend} {e : SendEvent} {es : List SendEvent}

inductive Steps (s : ZephyrSend) : SendEvent → ZephyrSend → Prop
  | call {frame} (hn : s.next = .outside) (hf : ZephyrCan.inRange frame = true) :
    Steps s (.call frame) { s with next := .loadState frame }
  | invalid {frame} (hn : s.next = .outside) (hf : ZephyrCan.inRange frame = false) :
    Steps s (.call frame) { s with next := .ret false }
  | late {frame} (hn : s.next = .loadState frame) (hs : s.state = .timedOut) :
    Steps s .advance { s with next := .takeLate frame }
  | current {frame} (hn : s.next = .loadState frame) (hs : s.state ≠ .timedOut) :
    Steps s .advance { s with next := .exchange frame }
  | takeLate {frame completion} (hn : s.next = .takeLate frame) (hd : s.done = some completion) :
    Steps s .advance { s with done := none, next := .storeIdle frame }
  | stillPending {frame} (hn : s.next = .takeLate frame) (hd : s.done = none) :
    Steps s .advance { s with next := .ret false }
  | storeIdle {frame} (hn : s.next = .storeIdle frame) :
    Steps s .advance { s with state := .idle, next := .exchange frame }
  | exchange {frame} (hn : s.next = .exchange frame) (hs : s.state = .idle) :
    Steps s .advance { s with state := .waiting, next := .clearError frame }
  | busy {frame} (hn : s.next = .exchange frame) (hs : s.state ≠ .idle) :
    Steps s .advance { s with next := .ret false }
  | clearError {frame} (hn : s.next = .clearError frame) :
    Steps s .advance { s with error := 0, next := .initDone frame }
  | initDone {frame} (hn : s.next = .initDone frame) :
    Steps s .advance { s with done := none, next := .hand frame }
  | accept {frame} (hn : s.next = .hand frame) :
    Steps s .accept { s with
      next     := .wait s.accepted.length
      accepted := s.accepted ++ [frame.wired]
      pending  := s.accepted.length :: s.pending }
  | refuse {frame} (hn : s.next = .hand frame) : Steps s .refuse { s with next := .storeRefused }
  | storeRefused (hn : s.next = .storeRefused) :
    Steps s .advance { s with state := .idle, next := .ret false }
  | take {number completion} (hn : s.next = .wait number) (hd : s.done = some completion) :
    Steps s .take { s with done := none, next := .loadError completion }
  | timeout {number} (hn : s.next = .wait number) (hd : s.done = none) :
    Steps s .timeout { s with next := .storeTimedOut }
  | storeTimedOut (hn : s.next = .storeTimedOut) :
    Steps s .advance { s with state := .timedOut, next := .ret false }
  | loadError {completion} (hn : s.next = .loadError completion) :
    Steps s .advance { s with next := .storeDone s.error }
  | storeDone {error} (hn : s.next = .storeDone error) :
    Steps s .advance { s with state := .idle, next := .ret (error = 0) }
  | ret {ok} (hn : s.next = .ret ok) : Steps s (.ret ok) { s with next := .outside }
  | report {completion} (hc : completion.number ∈ s.pending) :
    Steps s (.report completion) { s with
      error     := completion.error
      pending   := s.pending.erase completion.number
      callbacks := completion :: s.callbacks }
  | give {completion} (hc : completion ∈ s.callbacks) :
    Steps s (.give completion) { s with
      done      := s.done <|> some completion
      callbacks := s.callbacks.erase completion }

theorem steps_of_advance (h : s.advance = some s') : Steps s .advance s' := by
  unfold advance at h
  split at h
  case h_1 hn =>
    cases h
    split_ifs with hs
    case pos => exact .late hn hs
    case neg => exact .current hn hs
  case h_2 hn =>
    split_ifs at h with hd
    case pos =>
      cases h
      exact .takeLate hn (Option.some_get hd).symm
    case neg =>
      cases h
      exact .stillPending hn (Option.not_isSome_iff_eq_none.mp hd)
  case h_3 hn => cases h; exact .storeIdle hn
  case h_4 hn =>
    split_ifs at h with hs
    case pos => cases h; exact .exchange hn hs
    case neg => cases h; exact .busy hn hs
  case h_5 hn => cases h; exact .clearError hn
  case h_6 hn => cases h; exact .initDone hn
  case h_7 hn => cases h; exact .storeRefused hn
  case h_8 hn => cases h; exact .storeTimedOut hn
  case h_9 hn => cases h; exact .loadError hn
  case h_10 hn => cases h; exact .storeDone hn
  case h_11 => cases h

theorem steps (h : s.step e = some s') : Steps s e s' := by
  cases e
  case advance => exact steps_of_advance h
  case call frame =>
    simp only [step] at h
    split_ifs at h with hn hf
    case pos => cases h; exact .call hn hf
    case neg => cases h; exact .invalid hn (Bool.eq_false_iff.mpr hf)
  case accept =>
    simp only [step] at h
    split at h
    case h_1 hn => cases h; exact .accept hn
    case h_2 => cases h
  case refuse =>
    simp only [step] at h
    split at h
    case h_1 hn => cases h; exact .refuse hn
    case h_2 => cases h
  case take =>
    simp only [step] at h
    split at h
    case h_1 hn hd => cases h; exact .take hn hd
    case h_2 => cases h
  case timeout =>
    simp only [step] at h
    split at h
    case h_1 hn hd => cases h; exact .timeout hn hd
    case h_2 => cases h
  case ret ok =>
    simp only [step] at h
    split_ifs at h with hn
    cases h
    exact .ret hn
  case report completion =>
    simp only [step] at h
    split_ifs at h with hc
    cases h
    exact .report hc
  case give completion =>
    simp only [step] at h
    split_ifs at h with hc
    cases h
    exact .give hc

-- The last accepted frame still has to be completed, or its completion to be taken.
def tracks (s : ZephyrSend) : Bool :=
  match s.next with
  | .takeLate _ | .wait _ | .storeTimedOut => true
  | .outside | .loadState _ | .ret _       => s.state = .timedOut
  | _                                      => false

inductive Flight (s : ZephyrSend) : Bool → Prop
  | quiet (hp : s.pending = []) (hc : s.callbacks = []) : Flight s false
  | pending {number} (hn : number + 1 = s.accepted.length) (hp : s.pending = [number])
    (hc : s.callbacks = []) (hd : s.done = none) : Flight s true
  | reported {completion} (hn : completion.number + 1 = s.accepted.length) (hp : s.pending = [])
    (hc : s.callbacks = [completion]) (hd : s.done = none) (he : s.error = completion.error) :
    Flight s true
  | given {completion} (hn : completion.number + 1 = s.accepted.length) (hp : s.pending = [])
    (hc : s.callbacks = []) (hd : s.done = some completion) (he : s.error = completion.error) :
    Flight s true

-- What the caller relies on at its next statement.
def Control (s : ZephyrSend) : Prop :=
  match s.next with
  | .outside | .loadState _ | .ret _ => s.state ≠ .waiting
  | .takeLate _                      => s.state = .timedOut
  | .exchange _                      => s.state = .idle
  | .hand _                          => s.done = none
  | .wait number                     => number + 1 = s.accepted.length
  | .loadError completion            =>
    completion.number + 1 = s.accepted.length ∧ s.error = completion.error
  | _                                => True

structure Sound (s : ZephyrSend) : Prop where
  flight  : s.Flight s.tracks
  control : s.Control

theorem init_sound : Sound init where
  flight  := .quiet rfl rfl
  control := nofun

namespace Flight

theorem frame {next : Statement} {state : CanSendState} {b : Bool} (h : s.Flight b) :
    { s with next := next, state := state }.Flight b := by
  cases h
  case quiet hp hc => exact .quiet hp hc
  case pending hn hp hc hd => exact .pending hn hp hc hd
  case reported hn hp hc hd he => exact .reported hn hp hc hd he
  case given hn hp hc hd he => exact .given hn hp hc hd he

theorem pending_eq (h : s.Flight false) : s.pending = [] := by
  cases h
  case quiet hp _ => exact hp

theorem callbacks_eq (h : s.Flight false) : s.callbacks = [] := by
  cases h
  case quiet _ hc => exact hc

theorem of_done {completion : Completion} (h : s.Flight true) (hd : s.done = some completion) :
    completion.number + 1 = s.accepted.length ∧ s.pending = [] ∧ s.callbacks = [] ∧
      s.error = completion.error := by
  cases h
  case pending hd' => simp [hd] at hd'
  case reported hd' _ => simp [hd] at hd'
  case given hn hp hc hd' he =>
    cases hd.symm.trans hd'
    exact ⟨hn, hp, hc, he⟩

theorem outstanding_length {b : Bool} (h : s.Flight b) : s.outstanding.length ≤ 1 := by
  cases h <;> simp [outstanding, *]

theorem done_iff (h : s.Flight true) : s.done = none ↔ s.outstanding ≠ [] := by
  cases h <;> simp [outstanding, *]

theorem report {completion : Completion} {b : Bool} (h : s.Flight b)
    (hr : completion.number ∈ s.pending) :
    b = true ∧ { s with
      error     := completion.error
      pending   := s.pending.erase completion.number
      callbacks := completion :: s.callbacks }.Flight true := by
  cases h
  case pending hn hp hc hd =>
    rw [hp, List.mem_singleton] at hr
    refine ⟨rfl, @Flight.reported _ completion (hr ▸ hn) ?_ ?_ hd rfl⟩
    case refine_1 => simp [hp, hr]
    case refine_2 => simp [hc]
  all_goals simp [*] at hr

theorem give {completion : Completion} {b : Bool} (h : s.Flight b)
    (hg : completion ∈ s.callbacks) :
    b = true ∧ { s with
      done      := s.done <|> some completion
      callbacks := s.callbacks.erase completion }.Flight true := by
  cases h
  case reported hn hp hc hd he =>
    rw [hc, List.mem_singleton] at hg
    refine ⟨rfl, @Flight.given _ completion (hg ▸ hn) hp ?_ ?_ (hg ▸ he)⟩
    case refine_1 => simp [hc, hg]
    case refine_2 => simp [hd]
  all_goals simp [*] at hg

end Flight

theorem Control.of_driver {done : Option Completion} {error : ℤ} {pending : List ℕ}
    {callbacks : List Completion} (h : s.Control) (ht : s.tracks = true) :
    { s with done := done, error := error, pending := pending, callbacks := callbacks }.Control := by
  cases hn : s.next <;> simp_all [Control, tracks]

theorem Steps.sound (hs : Steps s e s') (h : s.Sound) : s'.Sound := by
  have hf := h.flight
  have hc := h.control
  cases hs
  case call frame hn _ =>
    simp only [tracks, Control, hn] at hf hc
    exact ⟨hf.frame, hc⟩
  case invalid hn _ =>
    simp only [tracks, Control, hn] at hf hc
    exact ⟨hf.frame, hc⟩
  case late hn hs =>
    simp only [tracks, hn, hs, decide_true] at hf
    exact ⟨hf.frame, hs⟩
  case current hn hs =>
    simp only [tracks, Control, hn, hs, decide_false] at hf hc
    refine ⟨hf.frame, ?_⟩
    simp only [Control]
    cases hst : s.state <;> simp_all
  case takeLate hn hd =>
    simp only [tracks, hn] at hf
    have ⟨_, hp, hc, _⟩ := hf.of_done hd
    exact ⟨.quiet hp hc, trivial⟩
  case stillPending hn hd =>
    simp only [tracks, Control, hn] at hf hc
    refine ⟨?_, ?_⟩
    case refine_1 => simpa [tracks, hc] using hf.frame
    case refine_2 => simp [Control, hc]
  case storeIdle hn =>
    simp only [tracks, hn] at hf
    exact ⟨hf.frame, rfl⟩
  case exchange hn hs =>
    simp only [tracks, hn] at hf
    exact ⟨hf.frame, trivial⟩
  case busy hn hs =>
    simp only [Control, hn] at hc
    exact absurd hc hs
  case clearError hn =>
    simp only [tracks, hn] at hf
    exact ⟨.quiet hf.pending_eq hf.callbacks_eq, trivial⟩
  case initDone hn =>
    simp only [tracks, hn] at hf
    exact ⟨.quiet hf.pending_eq hf.callbacks_eq, rfl⟩
  case accept hn =>
    simp only [tracks, Control, hn] at hf hc
    refine ⟨@Flight.pending _ s.accepted.length ?_ ?_ hf.callbacks_eq hc, ?_⟩
    case refine_1 => simp
    case refine_2 => simp [hf.pending_eq]
    case refine_3 => simp [Control]
  case refuse hn =>
    simp only [tracks, hn] at hf
    exact ⟨hf.frame, trivial⟩
  case storeRefused hn =>
    simp only [tracks, hn] at hf
    exact ⟨hf.frame, nofun⟩
  case take hn hd =>
    simp only [tracks, hn] at hf
    have ⟨hl, hp, hc, he⟩ := hf.of_done hd
    exact ⟨.quiet hp hc, hl, he⟩
  case timeout hn hd =>
    simp only [tracks, hn] at hf
    exact ⟨hf.frame, trivial⟩
  case storeTimedOut hn =>
    simp only [tracks, hn] at hf
    exact ⟨hf.frame, nofun⟩
  case loadError hn =>
    simp only [tracks, hn] at hf
    exact ⟨hf.frame, trivial⟩
  case storeDone hn =>
    simp only [tracks, hn] at hf
    exact ⟨hf.frame, nofun⟩
  case ret hn =>
    simp only [tracks, Control, hn] at hf hc
    exact ⟨hf.frame, hc⟩
  case report hr =>
    have ⟨ht, hf⟩ := hf.report hr
    exact ⟨ht.symm ▸ hf, hc.of_driver ht⟩
  case give hg =>
    have ⟨ht, hf⟩ := hf.give hg
    exact ⟨ht.symm ▸ hf, hc.of_driver ht⟩

theorem sound (h : Run step init es s) : s.Sound :=
  h.invariant (fun he _ hs => (steps he).sound hs) init_sound

def remaining (s : ZephyrSend) : ℕ :=
  match s.next with
  | .outside       => 0
  | .ret _         => 1
  | .storeRefused  => 2
  | .storeTimedOut => 2
  | .storeDone _   => 2
  | .loadError _   => 3
  | .wait _        => 4
  | .hand _        => 5
  | .initDone _    => 6
  | .clearError _  => 7
  | .exchange _    => 8
  | .storeIdle _   => 9
  | .takeLate _    => 10
  | .loadState _   => 11

end ZephyrSend

def SendEvent.isCall : SendEvent → Bool
  | .call _ => true
  | _       => false

def SendEvent.ofCall : SendEvent → Bool
  | .call _ | .report _ | .give _ => false
  | _                             => true

namespace ZephyrSend

variable {s s' : ZephyrSend} {e : SendEvent} {es : List SendEvent}

theorem Steps.remaining_lt (h : Steps s e s') (he : e.ofCall) : s'.remaining < s.remaining := by
  cases h <;> simp_all [remaining, SendEvent.ofCall]

theorem exists_step (h : s.next ≠ .outside) : ∃ e s', e.ofCall ∧ s.step e = some s' := by
  cases hn : s.next
  case outside => exact absurd hn h
  case hand frame => exact ⟨.accept, _, rfl, by simp only [step, hn]; rfl⟩
  case ret ok => exact ⟨.ret ok, _, rfl, by simp only [step, hn, if_true]; rfl⟩
  case wait number =>
    cases hd : s.done
    case none => exact ⟨.timeout, _, rfl, by simp only [step, hn, hd]; rfl⟩
    case some => exact ⟨.take, _, rfl, by simp only [step, hn, hd]; rfl⟩
  case takeLate frame =>
    cases hd : s.done
    case none => exact ⟨.advance, _, rfl, by simp only [step, advance, hn, hd]; rfl⟩
    case some => exact ⟨.advance, _, rfl, by simp only [step, advance, hn, hd]; rfl⟩
  case exchange frame =>
    by_cases hs : s.state = .idle
    case pos => exact ⟨.advance, _, rfl, by simp only [step, advance, hn, hs, if_true]; rfl⟩
    case neg => exact ⟨.advance, _, rfl, by simp only [step, advance, hn, hs, if_false]; rfl⟩
  all_goals exact ⟨.advance, _, rfl, by simp only [step, advance, hn]; rfl⟩

def Completed (completion : Completion) (es : List SendEvent) : Prop :=
  [.accept, .report completion, .give completion, .take].Sublist es

-- What a call of `can_send` did so far, when `past` are the frames that were accepted before.
def Called (past : List CanFrame) (frame : CanFrame) (es : List SendEvent) (s : ZephyrSend) : Prop :=
  match s.next with
  | .loadState f | .takeLate f | .storeIdle f | .exchange f | .clearError f | .initDone f | .hand f =>
    f = frame ∧ s.accepted = past
  | .wait _ =>
    s.accepted = past ++ [frame.wired] ∧ [.accept].Sublist es ∧
    (∀ completion ∈ s.callbacks, [.accept, .report completion].Sublist es) ∧
    ∀ completion ∈ s.done, [.accept, .report completion, .give completion].Sublist es
  | .loadError completion => s.accepted = past ++ [frame.wired] ∧ Completed completion es
  | .storeDone error =>
    s.accepted = past ++ [frame.wired] ∧
    ∃ completion, completion.number = past.length ∧ completion.error = error ∧
      Completed completion es
  | .ret true =>
    s.accepted = past ++ [frame.wired] ∧
    ∃ completion, completion.number = past.length ∧ completion.error = 0 ∧ Completed completion es
  | _ => True

variable {past : List CanFrame} {frame : CanFrame}

theorem Called.of_driver {done : Option Completion} {error : ℤ} {pending : List ℕ}
    {callbacks : List Completion} (h : Called past frame es s) (hn : ∀ number, s.next ≠ .wait number) :
    Called past frame (es ++ [e])
      { s with done := done, error := error, pending := pending, callbacks := callbacks } := by
  have hle : ∀ {l}, List.Sublist l es → List.Sublist l (es ++ [e]) :=
    fun h => h.trans (List.sublist_append_left _ _)
  cases hs : s.next <;> simp only [Called, hs] at h ⊢
  case wait number => exact absurd hs (hn number)
  case loadError => exact ⟨h.1, hle h.2⟩
  case storeDone =>
    have ⟨ha, completion, hl, he, hc⟩ := h
    exact ⟨ha, completion, hl, he, hle hc⟩
  case ret ok =>
    cases ok
    case false => trivial
    case true =>
      have ⟨ha, completion, hl, he, hc⟩ := h
      exact ⟨ha, completion, hl, he, hle hc⟩
  all_goals exact h

theorem Steps.called (hs : Steps s e s') (h : s.Sound) (hc : Called past frame es s)
    (he : ∀ f, e ≠ .call f) : Called past frame (es ++ [e]) s' := by
  have hle : ∀ {l}, List.Sublist l es → List.Sublist l (es ++ [e]) :=
    fun h => h.trans (List.sublist_append_left _ _)
  cases hs
  case call => exact absurd rfl (he _)
  case invalid => exact absurd rfl (he _)
  case late hn _ => simpa only [Called, hn] using hc
  case current hn _ => simpa only [Called, hn] using hc
  case takeLate hn _ => simpa only [Called, hn] using hc
  case stillPending => trivial
  case storeIdle hn => simpa only [Called, hn] using hc
  case exchange hn _ => simpa only [Called, hn] using hc
  case busy => trivial
  case clearError hn => simpa only [Called, hn] using hc
  case initDone hn => simpa only [Called, hn] using hc
  case accept hn =>
    have hf := h.flight
    have hd := h.control
    simp only [Called, tracks, Control, hn] at hc hf hd
    obtain ⟨rfl, rfl⟩ := hc
    refine ⟨rfl, List.sublist_append_right _ _, ?_, ?_⟩
    case refine_1 => simp [hf.callbacks_eq]
    case refine_2 => simp [hd]
  case refuse => trivial
  case storeRefused => trivial
  case take hn hd =>
    simp only [Called, hn] at hc
    have ⟨ha, _, _, hg⟩ := hc
    exact ⟨ha, (hg _ hd).append (List.Sublist.refl [SendEvent.take])⟩
  case timeout => trivial
  case storeTimedOut => trivial
  case loadError completion hn =>
    have hl := h.control
    simp only [Called, Control, hn] at hc hl
    refine ⟨hc.1, completion, ?_, hl.2.symm, hle hc.2⟩
    simpa [hc.1] using hl.1
  case storeDone error hn =>
    simp only [Called, hn] at hc
    by_cases he : error = 0
    case neg => simp [Called, he]
    case pos =>
      have ⟨ha, completion, hl, hz, hcs⟩ := hc
      simp only [Called, he, decide_true]
      exact ⟨ha, completion, hl, hz.trans he, hle hcs⟩
  case ret => trivial
  case report completion hr =>
    by_cases hw : ∃ number, s.next = .wait number
    case neg => exact hc.of_driver fun number hn => hw ⟨number, hn⟩
    case pos =>
      have ⟨number, hn⟩ := hw
      simp only [Called, hn] at hc ⊢
      have ⟨ha, hac, hcb, hd⟩ := hc
      refine ⟨ha, hle hac, fun c hm => ?_, fun c hm => hle (hd c hm)⟩
      cases hm
      case head => exact hac.append (List.Sublist.refl [SendEvent.report completion])
      case tail hm => exact hle (hcb c hm)
  case give completion hg =>
    by_cases hw : ∃ number, s.next = .wait number
    case neg => exact hc.of_driver fun number hn => hw ⟨number, hn⟩
    case pos =>
      have ⟨number, hn⟩ := hw
      simp only [Called, hn] at hc ⊢
      have ⟨ha, hac, hcb, hd⟩ := hc
      refine ⟨ha, hle hac, fun c hm => hle (hcb c (List.mem_of_mem_erase hm)), fun c hm => ?_⟩
      cases hsd : s.done
      case some c' =>
        rw [hsd] at hm hd
        exact hle (hd c hm)
      case none =>
        rw [hsd] at hm
        cases hm
        exact (hcb completion hg).append (List.Sublist.refl [SendEvent.give completion])

def Inside (_ : ZephyrSend) (e : SendEvent) (_ : ZephyrSend) : Prop :=
  ∀ frame, e ≠ .call frame

theorem inside (h : e.isCall = false := by rfl) : Inside s e s' := by
  rintro frame rfl
  simp [SendEvent.isCall] at h

-- A call that returns `ok` from `s` to `s'`, with the events between its two ends.
def Returns (frame : CanFrame) (ok : Bool) (s : ZephyrSend) (es : List SendEvent) (s' : ZephyrSend) :
    Prop :=
  ∃ s₁ s₂, s.step (.call frame) = some s₁ ∧ Along step Inside s₁ es s₂ ∧
    s₂.step (.ret ok) = some s'

theorem Returns.completed (h : Returns frame true s es s') (hs : s.Sound) :
    s'.accepted = s.accepted ++ [frame.wired] ∧
    ∃ completion, completion.number = s.accepted.length ∧ completion.error = 0 ∧
      Completed completion es := by
  have ⟨s₁, s₂, hc, ha, hr⟩ := h
  have hcalled : s₂.Sound ∧ Called s.accepted frame es s₂ := by
    refine ha.history (P := fun es t => t.Sound ∧ Called s.accepted frame es t) ?step ?start
    case step =>
      rintro es t e t' he hi ⟨ht, hc⟩
      exact ⟨(steps he).sound ht, (steps he).called ht hc hi⟩
    case start =>
      refine ⟨(steps hc).sound hs, ?_⟩
      cases steps hc
      case call => exact ⟨rfl, rfl⟩
      case invalid => trivial
  cases steps hr
  case ret hn => simpa only [Called, hn] using hcalled.2

-- The last frame timed out and is not completed, and the caller is about to find that out.
structure Blocked (past : List CanFrame) (s : ZephyrSend) : Prop where
  next     : s.next = .outside ∨ (∃ frame, s.next = .loadState frame) ∨
    (∃ frame, s.next = .takeLate frame) ∨ s.next = .ret false
  state    : s.state = .timedOut
  done     : s.done = none
  accepted : s.accepted = past

-- An event that neither reaches the driver nor the semaphore, and is no success.
def Harmless (s : ZephyrSend) (e : SendEvent) (s' : ZephyrSend) : Prop :=
  e ≠ .accept ∧ e ≠ .refuse ∧ e ≠ .ret true ∧ s'.done = s.done

theorem Steps.blocked (h : Steps s e s') (hb : Blocked past s) (he : ∀ c, e ≠ .give c) :
    Blocked past s' ∧ Harmless s e s' := by
  have ⟨hnext, hs, hd, ha⟩ := hb
  cases h
  case call frame hn _ => exact ⟨⟨.inr (.inl ⟨frame, rfl⟩), hs, hd, ha⟩, nofun, nofun, nofun, rfl⟩
  case invalid => exact ⟨⟨.inr (.inr (.inr rfl)), hs, hd, ha⟩, nofun, nofun, nofun, rfl⟩
  case late frame _ _ =>
    exact ⟨⟨.inr (.inr (.inl ⟨frame, rfl⟩)), hs, hd, ha⟩, nofun, nofun, nofun, rfl⟩
  case current hs' => exact absurd hs hs'
  case takeLate hd' => simp [hd] at hd'
  case stillPending => exact ⟨⟨.inr (.inr (.inr rfl)), hs, hd, ha⟩, nofun, nofun, nofun, rfl⟩
  case ret ok hn =>
    refine ⟨⟨.inl rfl, hs, hd, ha⟩, nofun, nofun, ?_, rfl⟩
    rintro ⟨⟩
    simp [hn] at hnext
  case report => exact ⟨⟨hnext, hs, hd, ha⟩, nofun, nofun, nofun, rfl⟩
  case give => exact absurd rfl (he _)
  all_goals simp [*] at hnext

theorem Sound.harmless (h : s.Sound) (hn : s.next = .outside) (hs : s.state = .timedOut)
    (ho : s.outstanding ≠ []) (hr : Along step (fun _ e _ => ∀ c, e ≠ .give c) s es s') :
    Along step Harmless s es s' := by
  have hf := h.flight
  simp only [tracks, hn, hs, decide_true] at hf
  exact hr.strengthen (P := Blocked s.accepted) (fun he hg hb => (steps he).blocked hb hg)
    ⟨.inl hn, hs, hf.done_iff.mpr ho, rfl⟩

def early (s : ZephyrSend) : Bool :=
  match s.next with
  | .loadState _ | .takeLate _ | .storeIdle _ | .exchange _ | .clearError _ | .initDone _ | .hand _ =>
    true
  | _ => false

theorem Steps.early (h : Steps s e s') (hs : s.Sound) (he : s.early = true) (ho : s.outstanding = [])
    (hc : ∀ f, e ≠ .call f) :
    (s'.early = true ∧ s'.outstanding = []) ∨ e = .accept ∨ e = .refuse := by
  have ⟨hp, hcb⟩ : s.pending = [] ∧ s.callbacks = [] := by simpa [outstanding] using ho
  cases h
  case call => exact absurd rfl (hc _)
  case invalid => exact absurd rfl (hc _)
  case accept => exact .inr (.inl rfl)
  case refuse => exact .inr (.inr rfl)
  case late => exact .inl ⟨rfl, ho⟩
  case current => exact .inl ⟨rfl, ho⟩
  case takeLate => exact .inl ⟨rfl, ho⟩
  case storeIdle => exact .inl ⟨rfl, ho⟩
  case exchange => exact .inl ⟨rfl, ho⟩
  case clearError => exact .inl ⟨rfl, ho⟩
  case initDone => exact .inl ⟨rfl, ho⟩
  case stillPending hn hd =>
    have hf := hs.flight
    simp only [tracks, hn] at hf
    exact absurd ho (hf.done_iff.mp hd)
  case busy hn hi =>
    have hi' := hs.control
    simp only [Control, hn] at hi'
    exact absurd hi' hi
  case report hr => simp [hp] at hr
  case give hg => simp [hcb] at hg
  all_goals simp [ZephyrSend.early, *] at he

theorem Returns.handed {ok : Bool} (h : Returns frame ok s es s') (hs : s.Sound)
    (ho : s.outstanding = []) (hf : ZephyrCan.inRange frame = true) :
    .accept ∈ es ∨ .refuse ∈ es := by
  have ⟨s₁, s₂, hc, ha, hr⟩ := h
  have he : s₂.Sound ∧ (s₂.early = true ∧ s₂.outstanding = [] ∨ .accept ∈ es ∨ .refuse ∈ es) := by
    refine ha.history (P := fun es t => t.Sound ∧
      (t.early = true ∧ t.outstanding = [] ∨ .accept ∈ es ∨ .refuse ∈ es)) ?step ?start
    case step =>
      rintro es t e t' he hi ⟨ht, hp⟩
      refine ⟨(steps he).sound ht, ?_⟩
      rcases hp with ⟨hp, ho⟩ | hp | hp
      case inl =>
        rcases (steps he).early ht hp ho hi with h | rfl | rfl
        case inl => exact .inl h
        case inr.inl => exact .inr (.inl (List.mem_concat_self))
        case inr.inr => exact .inr (.inr (List.mem_concat_self))
      case inr.inl => exact .inr (.inl (List.mem_append_left _ hp))
      case inr.inr => exact .inr (.inr (List.mem_append_left _ hp))
    case start =>
      refine ⟨(steps hc).sound hs, .inl ?_⟩
      cases steps hc
      case call => exact ⟨rfl, ho⟩
      case invalid hf' => exact absurd hf (Bool.eq_false_iff.mp hf')
  rcases he.2 with ⟨hp, _⟩ | hp
  case inr => exact hp
  case inl =>
    cases steps hr
    case ret hn => simp [early, hn] at hp

-- The state of a run, and what can happen next.
theorem completion_accounting (h : Run step init es s) :
    -- at most one accepted frame is outstanding
    s.outstanding.length ≤ 1 ∧
    -- a completion is taken for the frame that it is of, which is the last one
    (∀ number completion, s.next = .wait number → s.done = some completion →
      completion.number = number ∧ number + 1 = s.accepted.length) ∧
    (∀ frame completion, s.next = .takeLate frame → s.done = some completion →
      completion.number + 1 = s.accepted.length) ∧
    (∀ completion, s.next = .loadError completion → s.error = completion.error) ∧
    -- a call that returns true has completed its frame in its wait
    (∀ frame es' s', Returns frame true s es' s' → s'.accepted = s.accepted ++ [frame.wired] ∧
      ∃ completion, completion.number = s.accepted.length ∧ completion.error = 0 ∧
        Completed completion es') ∧
    -- the calls until a frame that timed out is completed
    (s.next = .outside → s.state = .timedOut → s.outstanding ≠ [] → ∀ es' s',
      Along step (fun _ e _ => ∀ c, e ≠ .give c) s es' s' → Along step Harmless s es' s') ∧
    -- the first call after that
    (∀ frame ok es' s', s.outstanding = [] → ZephyrCan.inRange frame = true →
      Returns frame ok s es' s' → .accept ∈ es' ∨ .refuse ∈ es') ∧
    -- a call ends
    (s.next ≠ .outside → ∃ e s', e.ofCall ∧ s.step e = some s') ∧
    (∀ e s', s.step e = some s' → e.ofCall → s'.remaining < s.remaining) := by
  have hs : s.Sound := sound h
  refine ⟨hs.flight.outstanding_length, ?waits, ?late, ?errors, ?returns, ?blocked, ?handed, ?progress,
    ?ends⟩
  case waits =>
    intro number completion hn hd
    have hf := hs.flight
    have hc := hs.control
    simp only [tracks, Control, hn] at hf hc
    have hl := (hf.of_done hd).1
    exact ⟨by omega, hc⟩
  case late =>
    intro frame completion hn hd
    have hf := hs.flight
    simp only [tracks, hn] at hf
    exact (hf.of_done hd).1
  case errors =>
    intro completion hn
    have hc := hs.control
    simp only [Control, hn] at hc
    exact hc.2
  case returns => exact fun frame es' s' hr => hr.completed hs
  case blocked => exact fun hn ht ho es' s' hr => hs.harmless hn ht ho hr
  case handed => exact fun frame ok es' s' ho hf hr => hr.handed hs ho hf
  case progress => exact exists_step
  case ends => exact fun e s' he => (steps he).remaining_lt

def lateCall : List SendEvent :=
  [.call (.classic 0x100 (Vector.replicate 8 0)), .advance, .advance, .advance, .advance, .accept,
    .timeout, .advance, .ret false]

def retry : List SendEvent :=
  [.call (.classic 0x100 (Vector.replicate 8 0)), .advance, .advance, .ret false]

theorem completion_accounting_late :
    Along step Harmless (after step init lateCall) retry (after step init (lateCall ++ retry)) :=
  have h := completion_accounting (@run_after _ _ step init lateCall (by decide))
  h.2.2.2.2.2.1 (by decide) (by decide) (by decide) retry _
    (.of_run (run_after_append (by decide)) (by simp [retry]))

theorem Steps.step (h : Steps s e s') : s.step e = some s' := by
  cases h <;> simp [ZephyrSend.step, advance, *]

def context (s : ZephyrSend) : ZephyrCan where
  done    := s.done.isSome
  state   := s.state
  error   := s.error
  awaited := s.outstanding ≠ []

theorem context_callback {completion : Completion} (h : s.Flight true)
    (hp : completion.number ∈ s.pending) :
    ∃ s', Along step Inside s [.report completion, .give completion] s' ∧
      s'.context = s.context.canTxDoneCallback completion.error := by
  cases h
  case pending number hn hp' hc hd =>
    have hm : completion ∈ completion :: s.callbacks := List.mem_cons_self
    refine ⟨_, .cons (Steps.report hp).step inside (.single (Steps.give hm).step inside), ?_⟩
    rw [hp', List.mem_singleton] at hp
    simp [context, outstanding, ZephyrCan.canTxDoneCallback, hp', hp, hc, hd]
  all_goals simp [*] at hp

theorem exists_ret_of_exchange (driver : ZephyrCan.Driver) (hn : s.next = .exchange frame)
    (hf : ZephyrCan.inRange frame = true) (hs : s.state = .idle) (hp : s.pending = [])
    (hc : s.callbacks = []) :
    ∃ es s₁ s', Along step Inside s es s₁ ∧
      s₁.step (.ret (s.context.canSend driver frame).2.2) = some s' ∧
      s'.context = (s.context.canSend driver frame).1 := by
  have hx := (Steps.exchange hn hs).step
  have hi : s.context.state = .idle := hs
  have hr : driver.ret ≠ 0 ∨ driver.ret = 0 ∧
      (driver.completion = none ∨ ∃ error, driver.completion = some error) := by
    cases driver.completion <;> grind
  rcases hr with hr | ⟨hr, hd | ⟨error, hd⟩⟩
  case inl =>
    have hv : s.context.canSend driver frame =
        ({ s.context with state := .idle, error := 0, done := false }, none, false) := by
      simp [ZephyrCan.canSend, ZephyrCan.recover, hf, hi, hr]
    rw [hv]
    refine ⟨_, _, _, .cons hx inside (.cons (Steps.clearError rfl).step inside
      (.cons (Steps.initDone rfl).step inside (.cons (Steps.refuse rfl).step inside
      (.single (Steps.storeRefused rfl).step inside)))), (Steps.ret rfl).step, ?_⟩
    simp [context, outstanding, hp, hc]
  case inr.inl =>
    have hv : s.context.canSend driver frame =
        ({ s.context with state := .timedOut, error := 0, done := false, awaited := true },
          some ⟨frame.wired, false⟩, false) := by
      simp [ZephyrCan.canSend, ZephyrCan.recover, ZephyrCan.wait, hf, hi, hr, hd]
    rw [hv]
    refine ⟨_, _, _, .cons hx inside (.cons (Steps.clearError rfl).step inside
      (.cons (Steps.initDone rfl).step inside (.cons (Steps.accept rfl).step inside
      (.cons (Steps.timeout rfl rfl).step inside
      (.single (Steps.storeTimedOut rfl).step inside))))), (Steps.ret rfl).step, ?_⟩
    simp [context, outstanding, hp, hc]
  case inr.inr =>
    have hv : s.context.canSend driver frame =
        ({ s.context with state := .idle, error := error, done := false, awaited := false },
          some ⟨frame.wired, decide (error = 0)⟩, decide (error = 0)) := by
      simp [ZephyrCan.canSend, ZephyrCan.recover, ZephyrCan.wait, ZephyrCan.canTxDoneCallback, hf, hi,
        hr, hd]
    rw [hv]
    refine ⟨_, _, _, .cons hx inside (.cons (Steps.clearError rfl).step inside
      (.cons (Steps.initDone rfl).step inside (.cons (Steps.accept rfl).step inside
      (.cons (@Steps.report _ ⟨s.accepted.length, error⟩ List.mem_cons_self).step inside
      (.cons (Steps.give List.mem_cons_self).step inside
      (.cons (Steps.take rfl rfl).step inside (.cons (Steps.loadError rfl).step inside
      (.single (Steps.storeDone rfl).step inside)))))))), (Steps.ret rfl).step, ?_⟩
    simp [context, outstanding, hp, hc]

-- Each send of `ZephyrCan` is a call in which the driver answers as its parameter says.
theorem exists_returns (driver : ZephyrCan.Driver) (h : s.Sound) (hn : s.next = .outside) :
    ∃ es s', Returns frame (s.context.canSend driver frame).2.2 s es s' ∧
      s'.context = (s.context.canSend driver frame).1 := by
  by_cases hf : ZephyrCan.inRange frame = true
  case neg =>
    have hv : s.context.canSend driver frame = (s.context, none, false) := by
      simp [ZephyrCan.canSend, hf]
    rw [hv]
    exact ⟨_, _, ⟨_, _, (Steps.invalid hn (Bool.eq_false_iff.mpr hf)).step, .nil,
      (Steps.ret rfl).step⟩, rfl⟩
  case pos =>
    have hcall := (Steps.call hn hf).step
    have hfl := h.flight
    have hct := h.control
    simp only [tracks, Control, hn] at hfl hct
    by_cases hs : s.state = .timedOut
    case neg =>
      simp only [hs, decide_false] at hfl
      have hi : s.state = .idle := by cases h : s.state <;> simp_all
      obtain ⟨es, s₁, s', ha, hr, hx⟩ := exists_ret_of_exchange (s := { s with next := .exchange frame })
        driver rfl hf hi hfl.pending_eq hfl.callbacks_eq
      have hl : Steps { s with next := .loadState frame } .advance _ := .current rfl hs
      exact ⟨_, s', ⟨_, s₁, hcall, .cons hl.step inside ha, hr⟩, hx⟩
    case pos =>
      simp only [hs, decide_true] at hfl
      have hl : Steps { s with next := .loadState frame } .advance _ := .late rfl hs
      cases hd : s.done
      case none =>
        have hv : s.context.canSend driver frame = (s.context, none, false) := by
          simp [ZephyrCan.canSend, ZephyrCan.recover, context, hf, hs, hd]
        rw [hv]
        have ht : Steps { s with next := .takeLate frame } .advance _ := .stillPending rfl hd
        exact ⟨_, _, ⟨_, _, hcall, .cons hl.step inside (.single ht.step inside), (Steps.ret rfl).step⟩, rfl⟩
      case some completion =>
        obtain ⟨_, hp, hc, _⟩ := hfl.of_done hd
        obtain ⟨es, s₁, s', ha, hr, hx⟩ := exists_ret_of_exchange
          (s := { s with state := .idle, done := none, next := .exchange frame })
          driver rfl hf rfl hp hc
        have hv : s.context.canSend driver frame =
            { s with state := .idle, done := none, next := .exchange frame }.context.canSend driver
              frame := by
          simp [ZephyrCan.canSend, ZephyrCan.recover, context, outstanding, hf, hs, hd, hp, hc]
        have ht : Steps { s with next := .takeLate frame } .advance _ := .takeLate rfl hd
        rw [hv]
        exact ⟨_, s', ⟨_, s₁, hcall, .cons hl.step inside (.cons ht.step inside
          (.cons (Steps.storeIdle rfl).step inside ha)), hr⟩, hx⟩

end ZephyrSend
end SafetyIsland.Can

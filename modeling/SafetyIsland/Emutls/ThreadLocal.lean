import SafetyIsland.Emutls.Cleanup

namespace SafetyIsland.Emutls

open Bytes Transition

variable {image : Image}

-- The context whose storage an event changes.
def Event.context : Event image → Option Context
  | .load _ c _ | .assign c | .grow c _ | .release c | .value c _ => some c
  | .cleanup t | .freeNext t                                      => some (.task t)
  | .write ..                                                     => none

-- An image with one variable.
abbrev Image.single : Image where
  count    := 1
  controls := fun _ => {
    size        := 4
    align       := 16
    templ       := some [1, 2, 3, 4]
    powerOfTwo  := ⟨4, rfl⟩
    addressable := by decide
    template    := by simp }
  few      := by decide

namespace State

-- The pointer that an event passes to `free`.
def frees (s : State image) : Event image → Option ℕ
  | .release c =>
    match s.progress c with
    | .replaced _ _ old => old
    | _                 => none
  | .freeNext t =>
    match s.progress (.task t) with
    | .cleaning arr i =>
      if i < arr.slot.length then
        let val := arr.slot.getD i 0
        if val ≠ 0 then some (backPointer s.memory val) else none
      else some arr.base
    | _ => none
  | _ => none

-- A block that `malloc` returns is apart from all live ones.
def Assumed (s : State image) (_ : Event image) (s' : State image) : Prop :=
  ∀ b, s'.live = b :: s.live → b.Fresh s.live

instance decidableAssumed (s : State image) (e : Event image) (s' : State image) :
    Decidable (Assumed s e s') :=
  decidable_of_iff (∀ b ∈ s'.live.head?, s'.live.tail = s.live → b.Fresh s.live) <| by
    rw [Assumed]
    cases s'.live
    all_goals simp [eq_comm]

-- A task is not cleaned up inside of an access.
def Parked (t : ℕ) (s : State image) (e : Event image) (_ : State image) : Prop :=
  e = .cleanup t → s.progress (.task t) = .outside

-- What holds of the addresses that were returned since the last cleanup of their context.
structure ThreadLocal (s : State image) : Prop where
  stable   : ∀ r ∈ s.returned, ∀ r' ∈ s.returned,
    r.context = r'.context → r.var = r'.var → r.address = r'.address
  disjoint : ∀ r ∈ s.returned, ∀ r' ∈ s.returned, (r.context = r'.context → r.var ≠ r'.var) →
    r.address + (image.controls r.var).size ≤ r'.address ∨
    r'.address + (image.controls r'.var).size ≤ r.address
  aligned  : ∀ r ∈ s.returned, (∃ k, max (image.controls r.var).align sizeofPointer = 2 ^ k) ∧
    max (image.controls r.var).align sizeofPointer ∣ r.address
  inside   : ∀ r ∈ s.returned, ∃ b ∈ s.live, b.owner = r.context ∧
    b.base + sizeofPointer ≤ r.address ∧
    r.address + (image.controls r.var).size ≤ b.base + b.size ∧
    backPointer s.memory r.address = b.base

-- What a step does to the addresses and the blocks.
structure Faithful (s : State image) (e : Event image) (s' : State image) : Prop where
  kept    : ∀ r ∈ s.returned, (∀ t, e = .cleanup t → r.context ≠ .task t) → r ∈ s'.returned
  first   : ∀ r, s'.returned = r :: s.returned →
    (∀ r' ∈ s.returned, r'.context = r.context → r'.var ≠ r.var) →
    s'.memory.load r.address (image.controls r.var).size = (image.controls r.var).contents
  freed   : ∀ p, s.frees e = some p → ∃ b ∈ s.live, b.base = p ∧ e.context = some b.owner ∧
    ∀ b', b' ∈ s'.live ↔ b' ∈ s.live ∧ b' ≠ b
  unfreed : s.frees e = none → ∀ b ∈ s.live, b ∈ s'.live

instance decidableParked (t : ℕ) (s : State image) (e : Event image) (s' : State image) :
    Decidable (Parked t s e s') :=
  inferInstanceAs (Decidable (e = .cleanup t → s.progress (.task t) = .outside))

-- What the cleanup of a task does: it takes the array of the task, and gives back all of its blocks
-- and no other one.
structure Cleans (t : ℕ) (s : State image) : Prop where
  idle     : s.arrays (.task t) = none → s.step (.cleanup t) = some s
  starts   : ∀ arr s', s.arrays (.task t) = some arr → s.step (.cleanup t) = some s' →
    s'.arrays (.task t) = none ∧ s'.progress (.task t) = .cleaning arr 0 ∧ s'.live = s.live ∧
    ∀ r, r ∈ s'.returned ↔ r ∈ s.returned ∧ r.context ≠ .task t
  ends     : ∀ s', s.step (.freeNext t) = some s' → s'.progress (.task t) = .outside →
    s'.arrays (.task t) = none ∧ ∀ b ∈ s'.live, b.owner ≠ .task t
  complete : s.progress (.task t) = .outside →
    ∃ n s', Run step s (.cleanup t :: .replicate n (.freeNext t)) s' ∧
      s'.progress (.task t) = .outside ∧ s'.arrays (.task t) = none ∧
      ∀ b, b ∈ s'.live ↔ b ∈ s.live ∧ b.owner ≠ .task t

-- No access and no cleanup gets stuck.
structure Finishes (s : State image) : Prop where
  access  : ∀ c v base raw, s.progress c = .outside → base ≠ 0 → raw ≠ 0 →
    ∃ es s' a, Run step s es s' ∧ (∀ e ∈ es, e.context = some c) ∧
      s'.returned = ⟨c, v, a⟩ :: s.returned
  cleanup : ∀ t arr i, s.progress (.task t) = .cleaning arr i →
    ∃ n s', Run step s (.replicate n (.freeNext t)) s' ∧
      s'.progress (.task t) = .outside ∧ s'.arrays (.task t) = none

variable {s s' : State image} {c : Context} {e : Event image} {v : Fin image.count}

theorem write_cases {address : ℕ} {byte : UInt8} (hs : s.write address byte = some s') :
    ∃ r ∈ s.returned, r.address ≤ address ∧ address < r.address + (image.controls r.var).size ∧
      s' = { s with memory := s.memory.store address [byte] } := by
  simp only [State.write] at hs
  split_ifs at hs with hr
  cases hs
  have ⟨r, hm, hr⟩ := List.any_eq_true.mp hr
  have ⟨hle, hlt⟩ := of_decide_eq_true hr
  exact ⟨r, hm, hle, hlt, rfl⟩

theorem Sound.block (h : s.Sound) {r : Returned image} (hr : r ∈ s.returned) :
    ∃ b ∈ s.live, b.owner = r.context ∧ b.use = .value r.var r.address ∧
      s.Placed b r.var r.address := by
  have ⟨b, hb, ho, hu⟩ := ((h.owns _).values _ _).mpr ((h.returned r).mp hr).2
  exact ⟨b, hb, ho, hu, h.placed b hb _ _ hu⟩

theorem Sound.write {address : ℕ} {byte : UInt8} (h : s.Sound)
    (hs : s.write address byte = some s') : s'.Sound := by
  obtain ⟨r, hr, hle, hlt, rfl⟩ := write_cases hs
  have ⟨b, hb, _, hu, hp⟩ := h.block hr
  refine ⟨h.heap, h.indices, fun b' hb' w a hu' => ?_, fun c => ?_, h.returned⟩
  case refine_1 =>
    have hp' := h.placed b' hb' w a hu'
    refine { hp' with pointer := Eq.trans ?_ hp'.pointer }
    have habove := hp.above
    have hbelow := hp.below
    have habove' := hp'.above
    have hbelow' := hp'.below
    refine backPointer_store_of_disjoint (by omega) ?_
    rw [List.length_singleton]
    by_cases he : b' = b
    case pos =>
      cases hu.symm.trans (he ▸ hu')
      exact .inl hle
    case neg =>
      rcases h.heap.apart_of_ne hb' hb he with ha | ha <;> omega
  case refine_2 => exact (h.owns c).frame rfl rfl rfl fun _ _ => Iff.rfl

theorem Sound.step (h : s.Sound) (hs : s.step e = some s') (ha : Assumed s e s') : s'.Sound := by
  cases e
  case load     => exact h.load hs
  case assign   => exact h.assign hs
  case grow     => exact h.grow hs ha
  case release  => exact h.release hs
  case value    => exact h.value hs ha
  case cleanup  =>
    cases hs
    exact h.cleanup
  case freeNext => exact h.freeNext hs
  case write    => exact h.write hs

theorem Sound.along {m : Memory} {es : List (Event image)}
    (h : Along State.step Assumed (State.init m) es s) : s.Sound :=
  h.invariant (fun hs ha h => h.step hs ha) .init

theorem slot_unique {a a' : ℕ} (h : s.Slot c v a) (h' : s.Slot c v a') : a = a' := by
  have ⟨_, arr, i, j, hh, _, hv, hj⟩ := h
  have ⟨_, arr', i', j', hh', _, hv', hj'⟩ := h'
  cases hh.symm.trans hh'
  have he : j = j' := by omega
  exact Option.some.inj (hj.symm.trans (he ▸ hj'))

theorem Sound.threadLocal (h : s.Sound) : s.ThreadLocal where
  stable r hr r' hr' hc hv := by
    have hs := ((h.returned r).mp hr).2
    have hs' := ((h.returned r').mp hr').2
    rw [hc, hv] at hs
    exact slot_unique hs hs'
  disjoint r hr r' hr' hne := by
    have ⟨b, hb, ho, hu, hp⟩ := h.block hr
    have ⟨b', hb', ho', hu', hp'⟩ := h.block hr'
    have hbb : b ≠ b' := by
      rintro rfl
      exact hne (ho.symm.trans ho') (Use.value.inj (hu.symm.trans hu')).1
    have habove := hp.above
    have hbelow := hp.below
    have habove' := hp'.above
    have hbelow' := hp'.below
    rcases h.heap.apart_of_ne hb hb' hbb with ha | ha
    case inl => left; omega
    case inr => right; omega
  aligned r hr := by
    have ⟨_, _, _, _, hp⟩ := h.block hr
    rw [← Control.alignment_eq]
    exact ⟨Control.alignment_powerOfTwo _, hp.aligned⟩
  inside r hr := by
    have ⟨b, hb, ho, _, hp⟩ := h.block hr
    exact ⟨b, hb, ho, hp.above, hp.below.le, hp.pointer⟩

theorem Faithful.of_quiet (hr : s'.returned = s.returned) (hf : s.frees e = none)
    (hl : ∀ b ∈ s.live, b ∈ s'.live) : Faithful s e s' where
  kept    := fun _ hm _ => hr ▸ hm
  first   := fun _ he => (List.cons_ne_self _ _ (hr.symm.trans he).symm).elim
  freed   := fun _ he => nomatch hf.symm.trans he
  unfreed := fun _ => hl

theorem Faithful.of_free {b : Block image} {p : Progress image} (h : s.Sound) (hb : b ∈ s.live)
    (hf : s.frees e = some b.base) (he : e.context = some b.owner) :
    Faithful s e ((s.free b.base).goto c p) where
  kept    := fun _ hm _ => hm
  first   := fun _ he => (List.cons_ne_self _ _ he.symm).elim
  freed   := fun _ he' => by
    cases hf.symm.trans he'
    exact ⟨b, hb, rfl, he, fun _ => h.heap.mem_free hb⟩
  unfreed := fun hn => nomatch hf.symm.trans hn

theorem load_cases {nesting : ℕ} (hs : s.load nesting c v = some s') :
    ∃ p, Plain (s.progress c) ∧ Plain p ∧ s' = s.goto c p := by
  simp only [State.load] at hs
  split at hs
  case h_2 => cases hs
  case h_1 hp =>
    have h₀ : Plain (s.progress c) := hp ▸ .outside
    split_ifs at hs
    all_goals cases hs
    case pos => exact ⟨_, h₀, .unassigned, rfl⟩
    case neg => exact ⟨_, h₀, .assigned, rfl⟩

theorem assign_cases (hs : s.assign c = some s') :
    ∃ loc nextIndex p, Plain (s.progress c) ∧ Plain p ∧
      s' = { s with loc := loc, nextIndex := nextIndex }.goto c p := by
  simp only [State.assign] at hs
  split at hs
  case h_2 => cases hs
  case h_1 w hp =>
    split_ifs at hs
    all_goals
      cases hs
      exact ⟨_, _, _, by rw [hp]; exact .unassigned, .assigned, rfl⟩

theorem Faithful.release (h : s.Sound) (hs : s.release c = some s') :
    Faithful s (.release c) s' := by
  obtain ⟨v, idx, old, hp, rfl⟩ := release_cases hs
  have hf : s.frees (.release c) = old := by rw [frees, hp]
  cases old
  case none => exact .of_quiet rfl hf fun _ hb => hb
  case some o =>
    have ⟨b, hb, ho, _, he⟩ := (h.owns c).arrays o (.inr ⟨v, idx, hp⟩)
    cases he
    exact .of_free h hb hf (congrArg some ho.symm)

theorem Faithful.value {raw : ℕ} (h : s.Sound) (hs : s.value c raw = some s') :
    Faithful s (.value c raw) s' := by
  obtain ⟨v, arr, hp, hne, ha, ⟨a, ha₀, hj, rfl⟩ | ⟨hz, rfl⟩⟩ := value_cases h hs
  case inl =>
    refine ⟨fun _ hm _ => List.mem_cons_of_mem _ hm, fun r he hr => ?_, nofun, fun _ _ hb => hb⟩
    cases he
    have hplain : Plain (s.progress c) := by rw [hp]; exact .assigned
    have hh : s.holding c = some (arr, 0) := by rw [holding_of_plain hplain, ha]; rfl
    have hv : s.loc v = s.loc v - 1 + 1 := by omega
    have hm : ⟨c, v, a⟩ ∈ s.returned := (h.returned _).mpr
      ⟨ha.trans_ne nofun, ha₀, arr, 0, s.loc v - 1, hh, Nat.zero_le _, hv, hj⟩
    exact absurd rfl (hr _ hm rfl)
  case inr =>
    refine ⟨fun _ hm _ => List.mem_cons_of_mem _ hm, fun r he _ => ?_, nofun,
      fun _ _ hb => List.mem_cons_of_mem _ hb⟩
    cases he
    exact Memory.load_store_of_length (image.controls v).contents_length

theorem Faithful.cleanup {t : ℕ} : Faithful s (.cleanup t) (s.cleanup t) := by
  rcases cleanup_cases (s := s) (t := t) with ⟨_, he⟩ | ⟨arr, _, he⟩
  case inl => exact he.symm ▸ .of_quiet rfl rfl fun _ hb => hb
  case inr =>
    rw [he]
    refine ⟨fun r hm hr => ?_, fun r he => ?_, nofun, fun _ _ hb => hb⟩
    case refine_1 => exact List.mem_filter.mpr ⟨hm, decide_eq_true (hr t rfl)⟩
    case refine_2 =>
      have hle := s.returned.length_filter_le (·.context ≠ Context.task t)
      have hlen : (s.returned.filter (·.context ≠ Context.task t)).length =
        s.returned.length + 1 := congrArg List.length he
      omega

theorem Faithful.freeNext {t : ℕ} (h : s.Sound) (hs : s.freeNext t = some s') :
    Faithful s (.freeNext t) s' := by
  obtain ⟨arr, i, hp, ⟨val, hval, hj, rfl⟩ | ⟨hj, rfl⟩ | ⟨hlen, rfl⟩⟩ := freeNext_cases hs
  case inl =>
    have ⟨hlt, hget⟩ := List.getElem?_eq_some_iff.mp hj
    have ⟨b, hb, _, ho, _, _, he⟩ := h.next_block hp hval hj
    have hf : s.frees (.freeNext t) = some b.base := by simp [frees, hp, hlt, hget, hval, he]
    rw [← he]
    exact .of_free h hb hf (congrArg some ho.symm)
  case inr.inl =>
    have ⟨hlt, hget⟩ := List.getElem?_eq_some_iff.mp hj
    exact .of_quiet rfl (by simp [frees, hp, hlt, hget]) fun _ hb => hb
  case inr.inr =>
    have ⟨b, hb, ho, _, he⟩ := h.array_block hp
    have hf : s.frees (.freeNext t) = some b.base := by simp [frees, hp, hlen.not_gt, he]
    rw [← he]
    exact .of_free h hb hf (congrArg some ho.symm)

theorem Sound.faithful (h : s.Sound) (hs : s.step e = some s') : Faithful s e s' := by
  cases e
  case load =>
    obtain ⟨_, _, _, rfl⟩ := load_cases hs
    exact .of_quiet rfl rfl fun _ hb => hb
  case assign =>
    obtain ⟨_, _, _, _, _, rfl⟩ := assign_cases hs
    exact .of_quiet rfl rfl fun _ hb => hb
  case grow =>
    obtain ⟨_, _, _, _, rfl⟩ := grow_grown hs
    exact .of_quiet rfl rfl fun _ hb => List.mem_cons_of_mem _ hb
  case release  => exact .release h hs
  case value    => exact .value h hs
  case cleanup  =>
    cases hs
    exact .cleanup
  case freeNext => exact .freeNext h hs
  case write =>
    obtain ⟨_, _, _, _, rfl⟩ := write_cases hs
    exact .of_quiet rfl rfl fun _ hb => hb

-- Every array block of a context is known to it.
def Whole (s : State image) (c : Context) : Prop :=
  ∀ b ∈ s.live, b.owner = c → b.use = .array → s.Base c b.base

theorem Whole.mono (h : s.Whole c)
    (hl : ∀ b ∈ s'.live, b.owner = c → b.use = .array → b ∈ s.live)
    (hB : ∀ a, s.Base c a → s'.Base c a) : s'.Whole c :=
  fun b hb ho hu => hB _ (h b (hl b hb ho hu) ho hu)

theorem Whole.local {c' : Context} (h : s.Whole c) (hc : Local s s' c') (hne : c ≠ c') :
    s'.Whole c := by
  refine h.mono (fun b hb ho _ => (hc.live b (ho ▸ hne)).mp hb) fun a hB => ?_
  rwa [Base, holding_congr (hc.progress c hne) (hc.arrays c hne), hc.progress c hne]

theorem base_goto {p : Progress image} {a : ℕ} (h₀ : Plain (s.progress c)) (hp : Plain p) :
    (s.goto c p).Base c a ↔ s.Base c a := by
  rw [base_of_plain h₀, base_of_plain (by rwa [goto_progress])]
  rfl

theorem Sound.step_local (h : s.Sound) (hs : s.step e = some s') (hc : e.context = some c) :
    Local s s' c := by
  cases e
  all_goals cases hc
  case load =>
    obtain ⟨_, _, _, rfl⟩ := load_cases hs
    exact .goto
  case assign =>
    obtain ⟨_, _, _, _, _, rfl⟩ := assign_cases hs
    exact { Local.goto with }
  case grow =>
    obtain ⟨_, _, _, _, rfl⟩ := grow_grown hs
    exact .grown
  case release =>
    obtain ⟨v, idx, old, hp, rfl⟩ := release_cases hs
    cases old
    case none => exact .goto
    case some o =>
      have ⟨b, hb, ho, _, he⟩ := (h.owns c).arrays o (.inr ⟨v, idx, hp⟩)
      cases he
      exact .free h.heap hb ho
  case value =>
    obtain ⟨_, _, _, _, _, ⟨_, _, _, rfl⟩ | ⟨_, rfl⟩⟩ := value_cases h hs
    case inl => exact .giveBack
    case inr => exact .filled
  case cleanup t =>
    cases hs
    rcases cleanup_cases (s := s) (t := t) with ⟨_, he⟩ | ⟨arr, _, he⟩
    case inl =>
      rw [he]
      exact ⟨fun _ _ => rfl, fun _ _ => rfl, fun _ _ => Iff.rfl, fun _ _ => Iff.rfl⟩
    case inr =>
      rw [he]
      exact .emptied
  case freeNext =>
    obtain ⟨arr, i, hp, ⟨val, hval, hj, rfl⟩ | ⟨_, rfl⟩ | ⟨_, rfl⟩⟩ := freeNext_cases hs
    case inl =>
      have ⟨b, hb, _, ho, _, _, he⟩ := h.next_block hp hval hj
      exact he ▸ .free h.heap hb ho
    case inr.inl => exact .goto
    case inr.inr =>
      have ⟨b, hb, ho, _, he⟩ := h.array_block hp
      exact he ▸ .free h.heap hb ho

theorem Whole.grown {idx base size n : ℕ} (h : s.Whole c) (hp : Plain (s.progress c)) :
    (s.grown c v idx base size n).Whole c := by
  refine List.forall_mem_cons.mpr ⟨fun _ _ => base_grown.mpr (.inl rfl), fun b hb ho hu => ?_⟩
  exact base_grown.mpr (.inr ((base_of_plain hp).mp (h b hb ho hu)))

theorem Whole.release (h : s.Whole c) (hs : s.release c = some s') : s'.Whole c := by
  obtain ⟨v, idx, old, hp, rfl⟩ := release_cases hs
  intro b hb ho hu
  have hm : b ∈ s.live ∧ old ≠ some b.base := by
    cases old
    case none => exact ⟨hb, nofun⟩
    case some o =>
      have ⟨hm, hne⟩ := List.mem_filter.mp hb
      exact ⟨hm, fun he => of_decide_eq_true hne (Option.some.inj he).symm⟩
  rcases h b hm.1 ho hu with ⟨arr, i, hh, he⟩ | ⟨_, _, hr⟩
  case inl =>
    refine .inl ⟨arr, i, ?_, he⟩
    rw [holding_of_plain (by rw [goto_progress]; exact .assigned)]
    rw [holding_of_replaced hp] at hh
    cases old <;> exact hh
  case inr =>
    cases hp.symm.trans hr
    exact absurd rfl hm.2

theorem Whole.filled {raw : ℕ} {arr : EmutlsArray} (h : s.Whole c) (hp : Plain (s.progress c))
    (ha : s.arrays c = some arr) : (s.filled c v raw arr).Whole c := by
  refine List.forall_mem_cons.mpr ⟨nofun, fun b hb ho hu => ?_⟩
  have ⟨arr', ha', he⟩ := (base_of_plain hp).mp (h b hb ho hu)
  cases ha.symm.trans ha'
  exact .inl ⟨_, 0, holding_filled, he⟩

theorem Whole.emptied {t : ℕ} {arr : EmutlsArray} (h : s.Whole (.task t))
    (hp : s.progress (.task t) = .outside) (ha : s.arrays (.task t) = some arr) :
    (s.emptied t arr).Whole (.task t) := by
  intro b hb ho hu
  have ⟨arr', ha', he⟩ := (base_of_plain (by rw [hp]; exact .outside)).mp (h b hb ho hu)
  cases ha.symm.trans ha'
  exact .inl ⟨arr, 0, holding_of_cleaning goto_progress, he⟩

theorem base_of_cleaning {arr : EmutlsArray} {i a : ℕ} (hp : s.progress c = .cleaning arr i) :
    s.Base c a ↔ arr.base = a := by
  simp [Base, holding_of_cleaning hp, hp]

theorem Whole.freeNext {t : ℕ} (h : s.Whole (.task t)) (hs : s.freeNext t = some s') :
    s'.Whole (.task t) := by
  obtain ⟨arr, i, hp, ⟨val, _, _, rfl⟩ | ⟨_, rfl⟩ | ⟨_, rfl⟩⟩ := freeNext_cases hs
  case inl =>
    refine h.mono (fun b hb _ _ => List.mem_of_mem_filter hb) fun a hB => ?_
    exact (base_of_cleaning goto_progress).mpr ((base_of_cleaning hp).mp hB)
  case inr.inl =>
    refine h.mono (fun b hb _ _ => hb) fun a hB => ?_
    exact (base_of_cleaning goto_progress).mpr ((base_of_cleaning hp).mp hB)
  case inr.inr =>
    intro b hb ho hu
    have ⟨hm, hne⟩ := List.mem_filter.mp hb
    have he := (base_of_cleaning hp).mp (h b hm ho hu)
    exact absurd he.symm (of_decide_eq_true hne)

theorem Whole.step {t : ℕ} (h : s.Whole (.task t)) (hsound : s.Sound) (hs : s.step e = some s')
    (hq : Parked t s e s') : s'.Whole (.task t) := by
  by_cases hc : e.context = some (.task t)
  case neg =>
    cases he : e.context
    case some c => exact h.local (hsound.step_local hs he) fun hct => hc (hct ▸ he)
    case none =>
      cases e
      all_goals cases he
      case write =>
        obtain ⟨_, _, _, _, rfl⟩ := write_cases hs
        exact h
  case pos =>
    cases e
    all_goals cases hc
    case load =>
      obtain ⟨_, h₀, hp, rfl⟩ := load_cases hs
      exact h.mono (fun _ hb _ _ => hb) fun _ => (base_goto h₀ hp).mpr
    case assign =>
      obtain ⟨_, _, _, h₀, hp, rfl⟩ := assign_cases hs
      exact h.mono (fun _ hb _ _ => hb) fun _ => (base_goto h₀ hp).mpr
    case grow =>
      obtain ⟨_, _, _, hp, rfl⟩ := grow_grown hs
      exact h.grown (by rw [hp]; exact .assigned)
    case release => exact h.release hs
    case value =>
      obtain ⟨_, _, hp, _, ha, ⟨_, _, _, rfl⟩ | ⟨_, rfl⟩⟩ := value_cases hsound hs
      all_goals have h₀ : Plain (s.progress (.task t)) := by rw [hp]; exact .assigned
      case inl => exact h.mono (fun _ hb _ _ => hb) fun _ => (base_goto h₀ .outside).mpr
      case inr => exact h.filled h₀ ha
    case cleanup =>
      cases hs
      rcases cleanup_cases (s := s) (t := t) with ⟨_, he⟩ | ⟨arr, ha, he⟩
      case inl => rwa [he]
      case inr => exact he ▸ h.emptied (hq rfl) ha
    case freeNext => exact h.freeNext hs

-- The loop over the slots ends, by induction on the slots that are left.
theorem cleanup_finishes {t n i : ℕ} {arr : EmutlsArray}
    (hp : s.progress (.task t) = .cleaning arr i) (ha : s.arrays (.task t) = none)
    (hn : arr.slot.length - i = n) :
    ∃ n s', Run State.step s (.replicate n (.freeNext t)) s' ∧
      s'.progress (.task t) = .outside ∧ s'.arrays (.task t) = none := by
  induction n generalizing s i
  case zero =>
    have hlt : ¬i < arr.slot.length := by omega
    have hs : s.step (.freeNext t) = some ((s.free arr.base).goto (.task t) .outside) := by
      simp [State.step, State.freeNext, hp, hlt]
    exact ⟨1, _, .single hs trivial, goto_progress, ha⟩
  case succ n ih =>
    have hlt : i < arr.slot.length := by omega
    have hs : ∃ s₁ : State image, s.step (.freeNext t) = some (s₁.goto (.task t) (.cleaning arr (i + 1))) ∧
        s₁.arrays = s.arrays := by
      simp only [State.step, State.freeNext, hp, hlt, if_true]
      split_ifs
      all_goals exact ⟨_, rfl, rfl⟩
    obtain ⟨s₁, hs, ha₁⟩ := hs
    obtain ⟨k, s', hr, hp', ha'⟩ := ih (s := s₁.goto (.task t) (.cleaning arr (i + 1)))
      goto_progress ((congrFun ha₁ _).trans ha) (by omega)
    exact ⟨k + 1, s', .cons hs trivial hr, hp', ha'⟩

theorem value_returns {raw idx : ℕ} {arr : EmutlsArray} (hp : s.progress c = .assigned v idx)
    (ha : s.arrays c = some arr) (hi : idx ≤ arr.slot.length) (hr : raw ≠ 0) :
    ∃ s' a, s.step (.value c raw) = some s' ∧ s'.returned = ⟨c, v, a⟩ :: s.returned := by
  simp only [State.step, State.value, hp, ha, hi.not_gt, hr, if_false]
  split_ifs
  all_goals exact ⟨_, _, rfl, rfl⟩

theorem assigned_returns {base raw idx : ℕ} (hp : s.progress c = .assigned v idx)
    (hi : idx ≤ 2 ^ 28) (hb : base ≠ 0) (hr : raw ≠ 0) :
    ∃ es s' a, Run State.step s es s' ∧ (∀ e ∈ es, e.context = some c) ∧
      s'.returned = ⟨c, v, a⟩ :: s.returned := by
  by_cases hg : (s.arrays c).isSome ∧ ¬((s.arrays c).elim [] EmutlsArray.slot).length < idx
  case pos =>
    obtain ⟨arr, ha⟩ := Option.isSome_iff_exists.mp hg.1
    rw [ha] at hg
    obtain ⟨s', a, hs, he⟩ := value_returns hp ha (not_lt.mp hg.2) hr
    exact ⟨[.value c raw], s', a, .single hs trivial, by simp [Event.context], he⟩
  case neg =>
    have hcap := (capacity_spec hi).1
    have hs : ∃ n, s.step (.grow c base) =
        some (s.grown c v idx base (arrayRequest (capacity idx)) n) ∧
        idx ≤ ((s.arrays c).elim [] EmutlsArray.slot ++ .replicate n 0).length := by
      simp only [State.step, State.grow, hp, hg, hb, if_false]
      refine ⟨_, rfl, ?_⟩
      rw [List.length_append, List.length_replicate]
      omega
    obtain ⟨n, hs₁, hlen⟩ := hs
    have hp₁ : (s.grown c v idx base (arrayRequest (capacity idx)) n).progress c =
      .replaced v idx ((s.arrays c).map EmutlsArray.base) := goto_progress
    have hs₂ : ∃ s₁ : State image, (s.grown c v idx base (arrayRequest (capacity idx)) n).step (.release c) =
        some (s₁.goto c (.assigned v idx)) ∧ s₁.returned = s.returned ∧ s₁.arrays c =
          some ⟨base, (s.arrays c).elim [] EmutlsArray.slot ++ .replicate n 0⟩ := by
      simp only [State.step, State.release, hp₁]
      have ha : (s.grown c v idx base (arrayRequest (capacity idx)) n).arrays c =
        some ⟨base, (s.arrays c).elim [] EmutlsArray.slot ++ .replicate n 0⟩ :=
          setCurrentArray_arrays ..
      refine ⟨_, rfl, ?_⟩
      cases (s.arrays c).map EmutlsArray.base
      all_goals exact ⟨rfl, ha⟩
    obtain ⟨s₁, hs₂, hr₁, ha₁⟩ := hs₂
    obtain ⟨s', a, hs₃, he⟩ := value_returns (s := s₁.goto c (.assigned v idx)) goto_progress ha₁
      hlen hr
    refine ⟨[.grow c base, .release c, .value c raw], s', a,
      .cons hs₁ trivial (.cons hs₂ trivial (.single hs₃ trivial)), by simp [Event.context], ?_⟩
    exact he.trans (congrArg _ hr₁)

theorem Sound.access_finishes {base raw : ℕ} (h : s.Sound) (hp : s.progress c = .outside)
    (hb : base ≠ 0) (hr : raw ≠ 0) (v : Fin image.count) :
    ∃ es s' a, Run State.step s es s' ∧ (∀ e ∈ es, e.context = some c) ∧
      s'.returned = ⟨c, v, a⟩ :: s.returned := by
  have hfew := h.indices.le_few
  by_cases hv : s.loc v = 0
  case neg =>
    have hs : s.step (.load 0 c v) = some (s.goto c (.assigned v (s.loc v))) := by
      simp [State.step, State.load, hp, hv]
    obtain ⟨es, s', a, hrun, hc, he⟩ := assigned_returns (s := s.goto c (.assigned v (s.loc v)))
      goto_progress ((h.indices.le v).trans hfew) hb hr
    exact ⟨_, s', a, .cons hs trivial hrun, List.forall_mem_cons.mpr ⟨rfl, hc⟩, he⟩
  case pos =>
    have hlt := h.indices.lt hv
    have hcount := image.few
    have hs : s.step (.load 0 c v) = some (s.goto c (.unassigned v)) := by
      simp [State.step, State.load, hp, hv]
    have hs₁ : ∃ s₁ : State image, (s.goto c (.unassigned v)).step (.assign c) =
        some (s₁.goto c (.assigned v (s.nextIndex + 1))) ∧ s₁.returned = s.returned := by
      have hm : (s.nextIndex + 1) % 2 ^ 32 = s.nextIndex + 1 := Nat.mod_eq_of_lt (by omega)
      have hv' : (s.goto c (.unassigned v)).loc v = 0 := hv
      have hn : (s.goto c (.unassigned v)).nextIndex = s.nextIndex := rfl
      simp only [State.step, State.assign, goto_progress, hv', hn, hm, if_true]
      exact ⟨_, rfl, rfl⟩
    obtain ⟨s₁, hs₁, hr₁⟩ := hs₁
    obtain ⟨es, s', a, hrun, hc, he⟩ :=
      assigned_returns (s := s₁.goto c (.assigned v (s.nextIndex + 1))) goto_progress
        (by omega) hb hr
    refine ⟨_, s', a, .cons hs trivial (.cons hs₁ trivial hrun), ?_, he.trans (congrArg _ hr₁)⟩
    exact List.forall_mem_cons.mpr ⟨rfl, List.forall_mem_cons.mpr ⟨rfl, hc⟩⟩

theorem Sound.finishes (h : s.Sound) : s.Finishes where
  access  := fun _ v _ _ hp hb hr => h.access_finishes hp hb hr v
  cleanup := fun t _ _ hp => cleanup_finishes hp ((h.owns (.task t)).cleaning _ _ hp) rfl

theorem Sound.nothing_left {t : ℕ} (h : s.Sound) (hw : s.Whole (.task t))
    (hp : s.progress (.task t) = .outside) (ha : s.arrays (.task t) = none) :
    ∀ b ∈ s.live, b.owner ≠ .task t := by
  intro b hb ho
  have hplain : Plain (s.progress (.task t)) := by rw [hp]; exact .outside
  cases hu : b.use
  case array =>
    have ⟨_, ha', _⟩ := (base_of_plain hplain).mp (hw b hb ho hu)
    cases ha.symm.trans ha'
  case value v a =>
    have hs := ((h.owns _).values v a).mp ⟨b, hb, ho, hu⟩
    exact arrays_of_slot hplain hs ha

theorem Sound.cleanup_ends {t : ℕ} (h : s.Sound) (hw : s.Whole (.task t))
    (hs : s.step (.freeNext t) = some s') (hp : s'.progress (.task t) = .outside) :
    s'.arrays (.task t) = none ∧ ∀ b ∈ s'.live, b.owner ≠ .task t := by
  have ha : s'.arrays (.task t) = none := by
    obtain ⟨arr, i, hc, hcases⟩ := freeNext_cases hs
    have hn := (h.owns (.task t)).cleaning arr i hc
    obtain ⟨_, _, _, rfl⟩ | ⟨_, rfl⟩ | ⟨_, rfl⟩ := hcases
    all_goals exact hn
  exact ⟨ha, (h.freeNext hs).nothing_left (hw.step h hs nofun) hp ha⟩

theorem Sound.cleanup_run {t n : ℕ} (h : s.Sound) (hw : s.Whole (.task t))
    (hr : Run State.step s (.replicate n (.freeNext t)) s') :
    s'.Sound ∧ s'.Whole (.task t) ∧ ∀ b, b.owner ≠ .task t → (b ∈ s'.live ↔ b ∈ s.live) := by
  have ha : Along State.step (fun _ e _ => e = .freeNext t) s (.replicate n (.freeNext t)) s' :=
    .of_run hr fun _ he _ _ => (List.mem_replicate.mp he).2
  refine ha.invariant (P := fun s' => s'.Sound ∧ s'.Whole (.task t) ∧
    ∀ b, b.owner ≠ .task t → (b ∈ s'.live ↔ b ∈ s.live)) ?_ ⟨h, hw, fun _ _ => Iff.rfl⟩
  rintro s₁ _ s₂ hs rfl ⟨h₁, hw₁, hl⟩
  have hlocal := h₁.step_local hs rfl
  exact ⟨h₁.freeNext hs, hw₁.step h₁ hs nofun, fun b hb => (hlocal.live b hb).trans (hl b hb)⟩

theorem Sound.cleanup_complete {t : ℕ} (h : s.Sound) (hw : s.Whole (.task t))
    (hp : s.progress (.task t) = .outside) :
    ∃ n s', Run State.step s (.cleanup t :: .replicate n (.freeNext t)) s' ∧
      s'.progress (.task t) = .outside ∧ s'.arrays (.task t) = none ∧
      ∀ b, b ∈ s'.live ↔ b ∈ s.live ∧ b.owner ≠ .task t := by
  have hs : s.step (.cleanup t) = some (s.cleanup t) := rfl
  have hw₁ := hw.step h hs fun _ => hp
  rcases cleanup_cases (s := s) (t := t) with ⟨ha, he⟩ | ⟨arr, ha, he⟩
  case inl =>
    rw [he] at hs
    refine ⟨0, s, .single hs trivial, hp, ha, fun b => (and_iff_left_of_imp fun hb => ?_).symm⟩
    exact h.nothing_left hw hp ha b hb
  case inr =>
    have hclean : (s.cleanup t).progress (.task t) = .cleaning arr 0 := he ▸ goto_progress
    have hnone := (h.cleanup.owns (.task t)).cleaning _ _ hclean
    obtain ⟨n, s', hr, hp', ha'⟩ := cleanup_finishes hclean hnone rfl
    obtain ⟨h', hw', hl⟩ := h.cleanup.cleanup_run hw₁ hr
    refine ⟨n, s', .cons hs trivial hr, hp', ha', fun b => ?_⟩
    have hlive : (s.cleanup t).live = s.live := he ▸ rfl
    rw [hlive] at hl
    constructor
    case mp =>
      intro hb
      have ho := h'.nothing_left hw' hp' ha' b hb
      exact ⟨(hl b ho).mp hb, ho⟩
    case mpr => exact fun hb => (hl b hb.2).mpr hb.1

theorem Sound.cleans {t : ℕ} (h : s.Sound) (hw : s.Whole (.task t)) : s.Cleans t where
  idle ha := by simp [State.step, State.cleanup, ha]
  starts arr s' ha hs := by
    cases hs
    obtain ⟨hn, _⟩ | ⟨arr', ha', he⟩ := cleanup_cases (s := s) (t := t)
    case inl => cases ha.symm.trans hn
    case inr =>
      cases ha.symm.trans ha'
      rw [he]
      exact ⟨setCurrentArray_arrays .., goto_progress, rfl, fun r => by
        simp [State.emptied, State.goto, setCurrentArray]⟩
  ends _ hs hp := h.cleanup_ends hw hs hp
  complete := h.cleanup_complete hw

-- The main result: each context has its own variables, and a cleanup gives back all of them.
theorem thread_local {m : Memory} {es : List (Event image)}
    (h : Along State.step Assumed (init m) es s) :
    s.ThreadLocal ∧ s.Finishes ∧
    (∀ e s', s.step e = some s' → Assumed s e s' → Faithful s e s') ∧
    ∀ t, Along State.step (Parked t) (init m) es s → s.Cleans t ∧
      (s.progress (.task t) = .outside → s.arrays (.task t) = none →
        ∀ b ∈ s.live, b.owner ≠ .task t) := by
  have hs := Sound.along h
  refine ⟨hs.threadLocal, hs.finishes, fun _ _ he _ => hs.faithful he, fun t hq => ?_⟩
  have hw : s.Sound ∧ s.Whole (.task t) :=
    (h.and hq).invariant (P := fun s => s.Sound ∧ s.Whole (.task t))
      (fun he hq hi => ⟨hi.1.step he hq.1, hi.2.step hi.1 he hq.2⟩) ⟨.init, nofun⟩
  exact ⟨hs.cleans hw.2, hs.nothing_left hw.2⟩

-- A task and the code before the scheduler access the same variable, and the task is cleaned up.
theorem thread_local_single :
    let es : List (Event .single) := [.load 0 (.task 1) 0, .assign (.task 1), .grow (.task 1) 64,
      .release (.task 1), .value (.task 1) 128, .load 0 .boot 0, .grow .boot 256, .release .boot,
      .value .boot 512]
    ∃ s s' : State .single,
      Along State.step Assumed (init fun _ => 0) es s ∧
      s.returned = [⟨.boot, 0, 528⟩, ⟨.task 1, 0, 144⟩] ∧ s.ThreadLocal ∧ s.Cleans 1 ∧
      Along State.step Assumed (init fun _ => 0)
        (es ++ .cleanup 1 :: .replicate 9 (.freeNext 1)) s' ∧
      s'.returned = [⟨.boot, 0, 528⟩] ∧ s'.live.map Block.base = [512, 256] ∧
      ∀ b ∈ s'.live, b.owner ≠ .task 1 := by
  intro es
  let Q : State .single → Event .single → State .single → Prop :=
    fun s e s' => Assumed s e s' ∧ Parked 1 s e s'
  have hs : (execIf State.step Q (init fun _ => 0) es).map State.returned =
    some [⟨.boot, 0, 528⟩, ⟨.task 1, 0, 144⟩] := by decide +kernel
  have hs' : (execIf State.step Q (init fun _ => 0)
      (es ++ .cleanup 1 :: .replicate 9 (.freeNext 1))).map
        (fun s => (s.returned, s.live.map Block.base, s.progress (.task 1), s.arrays (.task 1))) =
    some ([⟨.boot, 0, 528⟩], [512, 256], .outside, none) := by decide +kernel
  obtain ⟨s, hs, hr⟩ := Option.map_eq_some_iff.mp hs
  obtain ⟨s', hs', hr'⟩ := Option.map_eq_some_iff.mp hs'
  simp only [Prod.mk.injEq] at hr'
  obtain ⟨hret, hlive, hp, ha⟩ := hr'
  have h := along_of_execIf hs
  have h' := along_of_execIf hs'
  obtain ⟨hlocal, _, _, hclean⟩ := thread_local (h.weaken fun _ q => q.1)
  obtain ⟨_, _, _, hclean'⟩ := thread_local (h'.weaken fun _ q => q.1)
  exact ⟨s, s', h.weaken fun _ q => q.1, hr, hlocal, (hclean 1 (h.weaken fun _ q => q.2)).1,
    h'.weaken fun _ q => q.1, hret, hlive,
    (hclean' 1 (h'.weaken fun _ q => q.2)).2 hp ha⟩

end SafetyIsland.Emutls.State

import SafetyIsland.Emutls.Access

namespace SafetyIsland.Emutls.State

open Bytes Transition

variable {image : Image} {s s' : State image} {c : Context} {t : ℕ} {v : Fin image.count}

theorem holding_of_arrays {arr : EmutlsArray} (h : s.Owns c) (ha : s.arrays c = some arr) :
    s.holding c = some (arr, 0) := by
  unfold holding
  split
  case h_1 arr' i hp => exact nomatch ha.symm.trans (h.cleaning arr' i hp)
  case h_2 => rw [ha]; rfl

theorem holding_of_cleaning {arr : EmutlsArray} {i : ℕ} (h : s.progress c = .cleaning arr i) :
    s.holding c = some (arr, i) := by
  rw [holding, h]

-- The state after a task has given up its array.
def emptied (s : State image) (t : ℕ) (arr : EmutlsArray) : State image :=
  { s with returned := s.returned.filter (·.context ≠ Context.task t) }
    |>.setCurrentArray (.task t) none
    |>.goto (.task t) (.cleaning arr 0)

theorem cleanup_cases : (s.arrays (.task t) = none ∧ s.cleanup t = s) ∨
    ∃ arr, s.arrays (.task t) = some arr ∧ s.cleanup t = s.emptied t arr := by
  unfold State.cleanup
  split
  case h_1 ha => exact .inl ⟨ha, rfl⟩
  case h_2 arr ha => exact .inr ⟨arr, ha, rfl⟩

theorem Owns.emptied {arr : EmutlsArray} (h : s.Owns (.task t))
    (ha : s.arrays (.task t) = some arr) : (s.emptied t arr).Owns (.task t) := by
  have hh : (s.emptied t arr).holding (.task t) = s.holding (.task t) := by
    rw [holding_of_arrays h ha]
    exact holding_of_cleaning goto_progress
  have hp : (s.emptied t arr).progress (.task t) = .cleaning arr 0 := goto_progress
  exact {
    values   := fun v a => (h.values v a).trans (slot_congr hh rfl).symm
    arrays   := fun a hB => h.arrays a (.inl (by simpa [Base, hp, hh] using hB))
    indexed  := fun arr' i j a he => h.indexed arr' i j a (hh ▸ he)
    assigned := by simp [hp]
    replaced := by simp [hp]
    swapped  := by simp [hp]
    cleaning := fun _ _ _ => setCurrentArray_arrays .. }

theorem Local.emptied {arr : EmutlsArray} : Local s (s.emptied t arr) (.task t) where
  progress := fun _ hc => goto_progress_of_ne hc
  arrays   := fun _ hc => setCurrentArray_arrays_of_ne hc
  live     := fun _ _ => Iff.rfl
  returned := fun r hr => by simp [State.emptied, State.goto, setCurrentArray, hr]

theorem Sound.cleanup (h : s.Sound) : (s.cleanup t).Sound := by
  rcases cleanup_cases (s := s) (t := t) with ⟨_, he⟩ | ⟨arr, ha, he⟩
  case inl => rwa [he]
  case inr =>
    rw [he]
    refine h.local .emptied rfl rfl h.heap (fun b hb v a hu => { h.placed b hb v a hu with })
      ((h.owns _).emptied ha) fun v a => iff_of_false ?_ fun hr => hr.1 ?_
    case refine_1 => simp [State.emptied, State.goto, setCurrentArray]
    case refine_2 => exact setCurrentArray_arrays ..

theorem freeNext_cases (hs : s.freeNext t = some s') : ∃ arr i,
    s.progress (.task t) = .cleaning arr i ∧
    ((∃ val, val ≠ 0 ∧ arr.slot[i]? = some val ∧ s' =
      (s.free (backPointer s.memory val)).goto (.task t) (.cleaning arr (i + 1))) ∨
    (arr.slot[i]? = some 0 ∧ s' = s.goto (.task t) (.cleaning arr (i + 1))) ∨
    (arr.slot.length ≤ i ∧ s' = (s.free arr.base).goto (.task t) .outside)) := by
  simp only [State.freeNext] at hs
  split at hs
  case h_2 => cases hs
  case h_1 arr i hp =>
    refine ⟨arr, i, hp, ?_⟩
    split_ifs at hs with hlt hval
    case pos =>
      cases hs
      exact .inl ⟨_, hval, by simp [hlt], rfl⟩
    case neg =>
      cases hs
      exact .inr (.inl ⟨by simpa [hlt] using hval, rfl⟩)
    case neg =>
      cases hs
      exact .inr (.inr ⟨not_lt.mp hlt, rfl⟩)

theorem Owns.advanced {arr : EmutlsArray} {i : ℕ} (h : s.Owns c)
    (hp : s.progress c = .cleaning arr i) (hp' : s'.progress c = .cleaning arr (i + 1))
    (ha : s'.arrays c = s.arrays c) (hloc : s'.loc = s.loc)
    (hl : ∀ b, b.owner = c → (b ∈ s'.live ↔
      b ∈ s.live ∧ ∀ v a, b.use = .value v a → s.loc v ≠ i + 1)) : s'.Owns c where
  values v a := by
    have hslot : s'.Slot c v a ↔ s.Slot c v a ∧ s.loc v ≠ i + 1 := by
      simp only [Slot, holding_of_cleaning hp, holding_of_cleaning hp', hloc]
      constructor
      case mp =>
        rintro ⟨hne, _, _, j, he, hij, hv, hj⟩
        cases he
        exact ⟨⟨hne, arr, i, j, rfl, by omega, hv, hj⟩, by omega⟩
      case mpr =>
        rintro ⟨⟨hne, _, _, j, he, hij, hv, hj⟩, hi⟩
        cases he
        exact ⟨hne, arr, i + 1, j, rfl, by omega, hv, hj⟩
    rw [hslot, ← h.values v a]
    constructor
    case mp =>
      rintro ⟨b, hb, ho, hu⟩
      obtain ⟨hb, hi⟩ := (hl b ho).mp hb
      exact ⟨⟨b, hb, ho, hu⟩, hi v a hu⟩
    case mpr =>
      rintro ⟨⟨b, hb, ho, hu⟩, hi⟩
      refine ⟨b, (hl b ho).mpr ⟨hb, fun w a' hu' => ?_⟩, ho, hu⟩
      cases hu.symm.trans hu'
      exact hi
  arrays a hB := by
    have hB : s.Base c a := by
      simp only [Base, holding_of_cleaning hp', hp'] at hB
      refine .inl ⟨arr, i, holding_of_cleaning hp, ?_⟩
      simpa using hB
    obtain ⟨b, hm, ho, hu, he⟩ := h.arrays a hB
    exact ⟨b, (hl b ho).mpr ⟨hm, fun w a' hu' => by cases hu.symm.trans hu'⟩, ho, hu, he⟩
  indexed arr' i' j a hh hj hne := by
    rw [holding_of_cleaning hp'] at hh
    cases hh
    exact hloc ▸ h.indexed arr i j a (holding_of_cleaning hp) hj hne
  assigned := by simp [hp']
  replaced := by simp [hp']
  swapped  := by simp [hp']
  cleaning := fun _ _ _ => ha.trans (h.cleaning arr i hp)

theorem Sound.next_block {arr : EmutlsArray} {i val : ℕ} (h : s.Sound)
    (hp : s.progress c = .cleaning arr i) (hval : val ≠ 0) (hj : arr.slot[i]? = some val) :
    ∃ b ∈ s.live, ∃ v, b.owner = c ∧ b.use = .value v val ∧ s.loc v = i + 1 ∧
      b.base = backPointer s.memory val := by
  have hh := holding_of_cleaning hp
  have ⟨v, hv⟩ := (h.owns c).indexed arr i i val hh hj hval
  have ⟨b, hb, ho, hu⟩ := ((h.owns c).values v val).mpr ⟨hval, arr, i, i, hh, le_rfl, hv, hj⟩
  exact ⟨b, hb, v, ho, hu, hv, (h.placed b hb v val hu).pointer.symm⟩

theorem slot_next {arr : EmutlsArray} {i a : ℕ} (hp : s.progress c = .cleaning arr i)
    (h : s.Slot c v a) (hv : s.loc v = i + 1) : a ≠ 0 ∧ arr.slot[i]? = some a := by
  have ⟨hne, _, _, j, he, _, hj, hs⟩ := h
  cases (holding_of_cleaning hp).symm.trans he
  have hij : j = i := by omega
  exact ⟨hne, hij ▸ hs⟩

theorem Sound.freeValue {arr : EmutlsArray} {i val : ℕ} (h : s.Sound)
    (hp : s.progress c = .cleaning arr i) (hval : val ≠ 0) (hj : arr.slot[i]? = some val) :
    ((s.free (backPointer s.memory val)).goto c (.cleaning arr (i + 1))).Sound := by
  have ⟨b₀, hb₀, v, ho, hu, hv, he⟩ := h.next_block hp hval hj
  rw [← he]
  refine h.local (.free h.heap hb₀ ho) rfl rfl (h.heap.filter _)
    (fun b hb v a hu => { h.placed b (List.mem_of_mem_filter hb) v a hu with })
    ((h.owns c).advanced hp goto_progress rfl rfl fun b hbo => ?_) fun w a => iff_of_false ?_ ?_
  case refine_1 =>
    refine (h.heap.mem_free hb₀).trans (and_congr_right fun hb => ?_)
    constructor
    case mp =>
      intro hne w a hu' hw
      have hs := ((h.owns c).values w a).mp ⟨b, hb, hbo, hu'⟩
      have ha : val = a := Option.some.inj (hj.symm.trans (slot_next hp hs hw).2)
      have hbase := (h.placed b hb w a hu').pointer.symm
      exact hne (h.heap.eq_of_base hb hb₀ (hbase.trans (ha ▸ he.symm)))
    case mpr =>
      rintro hn rfl
      exact hn v val hu hv
  case refine_2 =>
    intro hr
    exact ((h.returned ⟨c, w, a⟩).mp hr).1 ((h.owns c).cleaning arr i hp)
  case refine_3 => exact fun hr => hr.1 ((h.owns c).cleaning arr i hp)

theorem Sound.skipSlot {arr : EmutlsArray} {i : ℕ} (h : s.Sound)
    (hp : s.progress c = .cleaning arr i) (hj : arr.slot[i]? = some 0) :
    (s.goto c (.cleaning arr (i + 1))).Sound := by
  refine h.local .goto rfl rfl h.heap (fun b hb v a hu => { h.placed b hb v a hu with })
    ((h.owns c).advanced hp goto_progress rfl rfl fun b hbo => ?_) fun w a => iff_of_false ?_ ?_
  case refine_1 =>
    refine (and_iff_left_of_imp fun hb w a hu hw => ?_).symm
    have hs := ((h.owns c).values w a).mp ⟨b, hb, hbo, hu⟩
    have ⟨hne, ha⟩ := slot_next hp hs hw
    exact hne (Option.some.inj (ha.symm.trans hj))
  case refine_2 =>
    intro hr
    exact ((h.returned ⟨c, w, a⟩).mp hr).1 ((h.owns c).cleaning arr i hp)
  case refine_3 => exact fun hr => hr.1 ((h.owns c).cleaning arr i hp)

theorem Sound.array_block {arr : EmutlsArray} {i : ℕ} (h : s.Sound)
    (hp : s.progress c = .cleaning arr i) :
    ∃ b ∈ s.live, b.owner = c ∧ b.use = .array ∧ b.base = arr.base :=
  (h.owns c).arrays arr.base (.inl ⟨arr, i, holding_of_cleaning hp, rfl⟩)

theorem Sound.freeArray {arr : EmutlsArray} {i : ℕ} (h : s.Sound)
    (hp : s.progress c = .cleaning arr i) (hlen : arr.slot.length ≤ i) :
    ((s.free arr.base).goto c .outside).Sound := by
  have ⟨b₀, hb₀, ho, hu, he⟩ := h.array_block hp
  rw [← he]
  have hnone := (h.owns c).cleaning arr i hp
  have hh : ((s.free b₀.base).goto c .outside).holding c = none := by
    rw [holding_of_plain (by rw [goto_progress]; exact .outside)]
    exact congrArg _ hnone
  have hslot (w : Fin image.count) (a : ℕ) : ¬((s.free b₀.base).goto c .outside).Slot c w a := by
    rintro ⟨_, _, _, _, he, _⟩
    cases hh.symm.trans he
  have hempty (w : Fin image.count) (a : ℕ) : ¬s.Slot c w a := by
    rintro ⟨_, _, _, j, he, hij, _, hs⟩
    cases (holding_of_cleaning hp).symm.trans he
    have ⟨hlt, _⟩ := List.getElem?_eq_some_iff.mp hs
    omega
  refine h.local (.free h.heap hb₀ ho) rfl rfl (h.heap.filter _)
    (fun b hb v a hu => { h.placed b (List.mem_of_mem_filter hb) v a hu with }) {
      values   := fun w a => iff_of_false ?_ (hslot w a)
      arrays   := fun a hB => ?_
      indexed  := fun _ _ _ _ he => nomatch hh.symm.trans he
      assigned := by simp
      replaced := by simp
      swapped  := by simp
      cleaning := by simp } fun w a => iff_of_false ?_ fun hr => hr.1 hnone
  case refine_1 =>
    rintro ⟨b, hb, hbo, hu⟩
    exact hempty w a (((h.owns c).values w a).mp ⟨b, List.mem_of_mem_filter hb, hbo, hu⟩)
  case refine_2 => simp [Base, hh] at hB
  case refine_3 =>
    intro hr
    exact ((h.returned ⟨c, w, a⟩).mp hr).1 hnone

theorem Sound.freeNext (h : s.Sound) (hs : s.freeNext t = some s') : s'.Sound := by
  obtain ⟨arr, i, hp, ⟨val, hval, hj, rfl⟩ | ⟨hj, rfl⟩ | ⟨hlen, rfl⟩⟩ := freeNext_cases hs
  case inl => exact h.freeValue hp hval hj
  case inr.inl => exact h.skipSlot hp hj
  case inr.inr => exact h.freeArray hp hlen

end SafetyIsland.Emutls.State

import SafetyIsland.Emutls.Storage

namespace SafetyIsland.Emutls.State

open Bytes Transition

variable {image : Image} {s s' : State image} {c : Context} {v : Fin image.count}

theorem Plain.outside : Plain (.outside : Progress image) := ⟨nofun, nofun⟩

theorem Plain.unassigned : Plain (.unassigned v) := ⟨nofun, nofun⟩

theorem Plain.assigned {idx : ℕ} : Plain (.assigned v idx) := ⟨nofun, nofun⟩

theorem Sound.load {nesting : ℕ} (h : s.Sound) (hs : s.load nesting c v = some s') : s'.Sound := by
  simp only [State.load] at hs
  split at hs
  case h_2 => cases hs
  case h_1 hp =>
    have h₀ : Plain (s.progress c) := hp ▸ .outside
    split_ifs at hs with _ hv
    case pos =>
      cases hs
      exact h.goto h₀ .unassigned nofun
    case neg =>
      cases hs
      refine h.goto h₀ .assigned fun w idx he => ?_
      cases he
      exact ⟨rfl, hv⟩

theorem Indices.lt (h : Indices s.loc s.nextIndex) (hv : s.loc v = 0) : s.nextIndex < image.count := by
  rw [h.count]
  calc (Finset.univ.filter fun v => s.loc v ≠ 0).card
    _ < (Finset.univ : Finset (Fin image.count)).card :=
      Finset.card_lt_card (Finset.filter_ssubset.mpr ⟨v, Finset.mem_univ v, by simp [hv]⟩)
    _ = image.count := by simp

theorem Indices.le_few (h : Indices s.loc s.nextIndex) : s.nextIndex ≤ 2 ^ 28 := by
  have hle : s.nextIndex ≤ image.count := by
    rw [h.count]
    exact (Finset.card_filter_le ..).trans_eq (by simp)
  have := image.few
  omega

theorem Indices.next (h : Indices s.loc s.nextIndex) (hv : s.loc v = 0) :
    Indices (Function.update s.loc v (s.nextIndex + 1)) (s.nextIndex + 1) where
  count := by
    have hf : (Finset.univ.filter fun w => Function.update s.loc v (s.nextIndex + 1) w ≠ 0) =
        insert v (Finset.univ.filter fun w => s.loc w ≠ 0) := by
      ext w
      by_cases hw : w = v <;> simp [hw]
    rw [hf, Finset.card_insert_of_notMem (by simp [hv]), ← h.count]
  le w := by
    by_cases hw : w = v
    case pos => simp [hw]
    case neg => simpa [hw] using (h.le w).trans (Nat.le_succ _)
  inj w w' hw he := by
    have hlw := h.le w
    have hlw' := h.le w'
    by_cases hv₁ : w = v
    case pos =>
      by_cases hv₂ : w' = v
      case pos => exact hv₁.trans hv₂.symm
      case neg =>
        rw [hv₁, Function.update_self, Function.update_of_ne hv₂] at he
        omega
    case neg =>
      by_cases hv₂ : w' = v
      case pos =>
        rw [hv₂, Function.update_self, Function.update_of_ne hv₁] at he
        omega
      case neg =>
        rw [Function.update_of_ne hv₁] at hw he
        exact h.inj w w' hw (he.trans (Function.update_of_ne hv₂ ..))

theorem Sound.next (h : s.Sound) (hv : s.loc v = 0) : Sound { s with
    nextIndex := s.nextIndex + 1
    loc       := Function.update s.loc v (s.nextIndex + 1) } := by
  have hloc {w : Fin image.count} (hw : s.loc w ≠ 0) :
      Function.update s.loc v (s.nextIndex + 1) w = s.loc w := by
    have hne : w ≠ v := fun he => hw (he ▸ hv)
    exact Function.update_of_ne hne ..
  have hslot (c : Context) (w : Fin image.count) (a : ℕ) : Slot { s with
      nextIndex := s.nextIndex + 1
      loc       := Function.update s.loc v (s.nextIndex + 1) } c w a ↔ s.Slot c w a := by
    refine and_congr_right fun ha => exists_congr fun arr => exists_congr fun i =>
      exists_congr fun j => and_congr_right fun hh => and_congr_right fun _ =>
        and_congr_left fun hj => ?_
    have ⟨u, hu⟩ := (h.owns c).indexed arr i j a hh hj ha
    by_cases hw : w = v
    case neg => simp [hw]
    case pos =>
      have hle := h.indices.le u
      rw [hw, hv]
      simp only [Function.update_self]
      omega
  refine ⟨h.heap, h.indices.next hv, fun b hb w a hu => { h.placed b hb w a hu with },
    fun c => ?_, fun r => ?_⟩
  case refine_1 => exact {
    values   := fun w a => ((h.owns c).values w a).trans (hslot c w a).symm
    arrays   := (h.owns c).arrays
    indexed  := fun arr i j a hh hj ha => by
      have ⟨u, hu⟩ := (h.owns c).indexed arr i j a hh hj ha
      exact ⟨u, (hloc (by omega)).trans hu⟩
    assigned := fun w idx hp => by
      have ⟨hi, hne⟩ := (h.owns c).assigned w idx hp
      exact ⟨hi.trans (hloc hne).symm, fun h₀ => hne ((hloc hne).symm.trans h₀)⟩
    replaced := fun w idx old hp => by
      have ⟨hi, hne⟩ := (h.owns c).replaced w idx old hp
      exact ⟨hi.trans (hloc hne).symm, fun h₀ => hne ((hloc hne).symm.trans h₀)⟩
    swapped  := (h.owns c).swapped
    cleaning := (h.owns c).cleaning }
  case refine_2 => exact (h.returned r).trans (and_congr_right fun _ => (hslot ..).symm)

theorem Sound.assign (h : s.Sound) (hs : s.assign c = some s') : s'.Sound := by
  simp only [State.assign] at hs
  split at hs
  case h_2 => cases hs
  case h_1 w hp =>
    split_ifs at hs with hw
    case pos =>
      have hlt := h.indices.lt hw
      have hfew := image.few
      rw [Nat.mod_eq_of_lt (by omega)] at hs
      cases hs
      refine (h.next hw).goto (by rw [hp]; exact .unassigned) .assigned fun u idx he => ?_
      cases he
      simp
    case neg =>
      cases hs
      refine h.goto (by rw [hp]; exact .unassigned) .assigned fun u idx he => ?_
      cases he
      exact ⟨rfl, hw⟩

theorem getElem?_append_zeros {slot : List ℕ} {n j a : ℕ} (ha : a ≠ 0) :
    (slot ++ .replicate n 0)[j]? = some a ↔ slot[j]? = some a := by
  rcases lt_or_ge j slot.length with hj | hj
  case inl => rw [List.getElem?_append_left hj]
  case inr =>
    rw [List.getElem?_append_right hj, List.getElem?_eq_none hj, List.getElem?_replicate]
    split_ifs <;> simp [ha.symm]

@[simp]
theorem setCurrentArray_arrays {arr : Option EmutlsArray} :
    (s.setCurrentArray c arr).arrays c = arr :=
  Function.update_self ..

@[simp]
theorem setCurrentArray_arrays_of_ne {arr : Option EmutlsArray} {c' : Context} (h : c' ≠ c) :
    (s.setCurrentArray c arr).arrays c' = s.arrays c' :=
  Function.update_of_ne h ..

theorem arrays_of_slot {w : Fin image.count} {a : ℕ} (hp : Plain (s.progress c))
    (h : s.Slot c w a) : s.arrays c ≠ none := by
  have ⟨_, arr, i, j, hh, _⟩ := h
  rw [holding_of_plain hp] at hh
  intro he
  simp [he] at hh

-- The state after the new array is in place.
def grown (s : State image) (c : Context) (v : Fin image.count) (idx base size n : ℕ) : State image :=
  let slot := (s.arrays c).elim [] EmutlsArray.slot ++ .replicate n 0
  (s.malloc ⟨base, size, c, .array⟩).setCurrentArray c (some ⟨base, slot⟩)
    |>.goto c (.replaced v idx ((s.arrays c).map EmutlsArray.base))

theorem holding_grown {idx base size n : ℕ} : (s.grown c v idx base size n).holding c =
    some (⟨base, (s.arrays c).elim [] EmutlsArray.slot ++ .replicate n 0⟩, 0) := by
  simp [grown, holding, State.goto, setCurrentArray]

theorem slot_grown {idx base size n a : ℕ} {w : Fin image.count} (hp : Plain (s.progress c)) :
    (s.grown c v idx base size n).Slot c w a ↔ s.Slot c w a := by
  refine and_congr_right fun ha => ?_
  rw [holding_grown, holding_of_plain hp]
  have hl : (s.grown c v idx base size n).loc = s.loc := rfl
  rw [hl]
  cases s.arrays c
  case none => simp [List.getElem?_replicate, ha.symm]
  case some arr => simp [getElem?_append_zeros ha]

theorem base_of_plain {a : ℕ} (hp : Plain (s.progress c)) :
    s.Base c a ↔ ∃ arr, s.arrays c = some arr ∧ arr.base = a := by
  simp [Base, holding_of_plain hp, hp.replaced]

theorem base_grown {idx base size n a : ℕ} : (s.grown c v idx base size n).Base c a ↔
    base = a ∨ ∃ arr, s.arrays c = some arr ∧ arr.base = a := by
  rw [Base, holding_grown]
  simp [State.grown]

theorem Owns.grown {idx base size n : ℕ} (h : s.Owns c) (hh : Heap s.live)
    (hp : s.progress c = .assigned v idx)
    (hf : Block.Fresh s.live ⟨base, size, c, .array⟩) (hs : 0 < size) :
    (s.grown c v idx base size n).Owns c where
  values w a := by
    have hp : Plain (s.progress c) := by rw [hp]; exact .assigned
    rw [slot_grown hp, ← h.values w a]
    simp [State.grown, malloc, State.goto, setCurrentArray]
  arrays a hB := by
    have hp : Plain (s.progress c) := by rw [hp]; exact .assigned
    rw [base_grown, ← base_of_plain hp] at hB
    rcases hB with he | hB
    case inl => exact ⟨_, List.mem_cons_self, rfl, rfl, he⟩
    case inr =>
      have ⟨b, hm, ho⟩ := h.arrays a hB
      exact ⟨b, List.mem_cons_of_mem _ hm, ho⟩
  indexed arr i j a hj' hj ha := by
    have hp : Plain (s.progress c) := by rw [hp]; exact .assigned
    rw [holding_grown] at hj'
    cases hj'
    rw [getElem?_append_zeros ha] at hj
    cases ho : s.arrays c
    case none => simp [ho] at hj
    case some arr =>
      rw [ho] at hj
      exact h.indexed arr 0 j a (by rw [holding_of_plain hp, ho]; rfl) hj ha
  assigned := by simp [State.grown]
  replaced w idx' old hr := by
    simp only [State.grown, goto_progress, Progress.replaced.injEq] at hr
    obtain ⟨rfl, rfl, _⟩ := hr
    exact h.assigned v idx hp
  swapped w idx' old arr hr ha := by
    have hp : Plain (s.progress c) := by rw [hp]; exact .assigned
    simp only [State.grown, goto_progress, Progress.replaced.injEq] at hr
    have ⟨arr', ha', hb⟩ := Option.map_eq_some_iff.mp hr.2.2
    have ⟨b, hm, _, _, he⟩ := h.arrays old ((base_of_plain hp).mpr ⟨arr', ha', hb⟩)
    have hpos := (hh.positive b hm).2
    have hbase : arr.base = base := by
      have ha := Option.some.inj (ha.symm.trans (setCurrentArray_arrays ..))
      rw [ha]
    have hapart : base + size ≤ b.base ∨ b.base + b.size ≤ base := hf.apart b hm
    omega
  cleaning := by simp [State.grown]

theorem grow_grown {base : ℕ} (hs : s.grow c base = some s') : ∃ v idx n,
    s.progress c = .assigned v idx ∧
    s' = s.grown c v idx base (arrayRequest (capacity idx)) n := by
  simp only [State.grow] at hs
  split at hs
  case h_2 => cases hs
  case h_1 v idx hp =>
    split_ifs at hs
    cases hs
    exact ⟨v, idx, _, hp, rfl⟩

theorem arrayRequest_pos {idx : ℕ} (h : idx ≤ 2 ^ 28) : 0 < arrayRequest (capacity idx) := by
  have := capacity_spec h
  have hlt : 4 + capacity idx * 4 < 2 ^ 32 := by omega
  rw [arrayRequest, sizeofPointer, Nat.mod_eq_of_lt hlt]
  omega

theorem Local.grown {idx base size n : ℕ} : Local s (s.grown c v idx base size n) c where
  progress := fun _ hc => goto_progress_of_ne hc
  arrays   := fun _ hc => setCurrentArray_arrays_of_ne hc
  live     := fun _ hb => List.mem_cons.trans (or_iff_right fun he => hb (congrArg _ he))
  returned := fun _ _ => Iff.rfl

theorem Sound.grow {base : ℕ} (h : s.Sound) (hs : s.grow c base = some s')
    (hf : ∀ b, s'.live = b :: s.live → b.Fresh s.live) : s'.Sound := by
  obtain ⟨v, idx, n, hp, rfl⟩ := grow_grown hs
  have hplain : Plain (s.progress c) := by rw [hp]; exact .assigned
  have hfresh := hf _ rfl
  have hle : idx ≤ 2 ^ 28 := by
    rw [((h.owns c).assigned v idx hp).1]
    exact (h.indices.le v).trans h.indices.le_few
  refine h.local .grown rfl rfl (h.heap.malloc hfresh (arrayRequest_pos hle)) ?_
    ((h.owns c).grown h.heap hp hfresh (arrayRequest_pos hle)) fun w a => ?_
  case refine_1 =>
    refine List.forall_mem_cons.mpr ⟨nofun, fun b hb w a hu => { h.placed b hb w a hu with }⟩
  case refine_2 =>
    refine (h.returned ⟨c, w, a⟩).trans ?_
    rw [slot_grown hplain]
    refine and_congr_left fun hsl => iff_of_true ?_ ?_
    case refine_1 => exact arrays_of_slot hplain hsl
    case refine_2 => exact (setCurrentArray_arrays ..).trans_ne nofun

theorem holding_of_replaced {idx : ℕ} {old : Option ℕ}
    (hp : s.progress c = .replaced v idx old) : s.holding c = (s.arrays c).map (·, 0) := by
  rw [holding, hp]

theorem Owns.released {idx : ℕ} {old : Option ℕ} (h : s.Owns c)
    (hp : s.progress c = .replaced v idx old) (hp' : s'.progress c = .assigned v idx)
    (ha : s'.arrays c = s.arrays c) (hloc : s'.loc = s.loc)
    (hl : ∀ b, b.owner = c →
      (b ∈ s'.live ↔ b ∈ s.live ∧ ¬(b.use = .array ∧ old = some b.base))) : s'.Owns c := by
  have hplain : Plain (s'.progress c) := by rw [hp']; exact .assigned
  have hh : s'.holding c = s.holding c := by
    rw [holding_of_plain hplain, holding_of_replaced hp, ha]
  refine {
    values   := fun w a => ?values
    arrays   := fun a hB => ?arrays
    assigned := fun w idx' hi => ?assigned
    indexed  := by rw [hh, hloc]; exact h.indexed
    replaced := fun w idx' old' hr => (hplain.replaced _ _ _ hr).elim
    swapped  := fun w idx' old' arr hr => (hplain.replaced _ _ _ hr).elim
    cleaning := fun arr i hc => (hplain.cleaning _ _ hc).elim }
  case values =>
    rw [slot_congr hh hloc, ← h.values w a]
    refine exists_congr fun b => and_congr_left fun ⟨ho, hu⟩ => ?_
    rw [hl b ho, and_iff_left]
    exact fun hu' => nomatch hu.symm.trans hu'.1
  case assigned =>
    cases hp'.symm.trans hi
    rw [hloc]
    exact h.replaced v idx old hp
  case arrays =>
    have ⟨arr, ha', hbase⟩ := (base_of_plain hplain).mp hB
    rw [ha] at ha'
    have hB : s.Base c a := .inl ⟨arr, 0, by rw [holding_of_replaced hp, ha']; rfl, hbase⟩
    have ⟨b, hb, ho, hu, he⟩ := h.arrays a hB
    refine ⟨b, (hl b ho).mpr ⟨hb, fun hold => ?_⟩, ho, hu, he⟩
    exact h.swapped v idx b.base arr (hold.2 ▸ hp) ha' (hbase.trans he.symm)

theorem Local.free {b₀ : Block image} {p : Progress image} (h : Heap s.live) (hb₀ : b₀ ∈ s.live)
    (ho : b₀.owner = c) : Local s ((s.free b₀.base).goto c p) c where
  progress := fun _ hc => goto_progress_of_ne hc
  arrays   := fun _ _ => rfl
  live     := fun _ hb => (h.mem_free hb₀).trans (and_iff_left fun he => hb (he ▸ ho))
  returned := fun _ _ => Iff.rfl

theorem release_cases (hs : s.release c = some s') : ∃ v idx old,
    s.progress c = .replaced v idx old ∧ s' = (old.elim s s.free).goto c (.assigned v idx) := by
  simp only [State.release] at hs
  split at hs
  case h_2 => cases hs
  case h_1 v idx old hp =>
    cases hs
    exact ⟨v, idx, old, hp, rfl⟩

theorem Sound.release (h : s.Sound) (hs : s.release c = some s') : s'.Sound := by
  obtain ⟨v, idx, old, hp, rfl⟩ := release_cases hs
  have hc := h.owns c
  have hplain : Plain (.assigned v idx : Progress image) := .assigned
  cases old
  case none =>
    have hh : (s.goto c (.assigned v idx)).holding c = s.holding c := by
      rw [holding_of_replaced hp, holding_of_plain (by rwa [goto_progress])]
      rfl
    refine h.local .goto rfl rfl h.heap (fun b hb v a hu => { h.placed b hb v a hu with })
      (hc.released hp goto_progress rfl rfl fun _ _ => by simp [State.goto]) fun w a => ?_
    rw [Option.elim, slot_congr hh rfl]
    exact h.returned ⟨c, w, a⟩
  case some o =>
    have ⟨b₀, hb₀, ho, hu, he⟩ := hc.arrays o (.inr ⟨v, idx, hp⟩)
    cases he
    have hh : ((s.free b₀.base).goto c (.assigned v idx)).holding c = s.holding c := by
      rw [holding_of_replaced hp, holding_of_plain (by rwa [goto_progress])]
      rfl
    refine h.local (.free h.heap hb₀ ho) rfl rfl (h.heap.filter _)
      (fun b hb v a hu => { h.placed b (List.mem_of_mem_filter hb) v a hu with })
      (hc.released hp goto_progress rfl rfl fun _ _ => ?_) fun w a => ?_
    case refine_1 =>
      refine (h.heap.mem_free hb₀).trans (and_congr_right fun hm => not_congr ?_)
      constructor
      case mp => rintro rfl; exact ⟨hu, rfl⟩
      case mpr => exact fun hb => h.heap.eq_of_base hm hb₀ (Option.some.inj hb.2).symm
    case refine_2 =>
      rw [Option.elim, slot_congr hh rfl]
      exact h.returned ⟨c, w, a⟩

-- The state after a new value is in its slot.
def filled (s : State image) (c : Context) (v : Fin image.count) (raw : ℕ) (arr : EmutlsArray) :
    State image :=
  let val := (image.controls v).address raw
  s.allocValue c v raw
    |>.setCurrentArray c (some { arr with slot := arr.slot.set (s.loc v - 1) val })
    |>.giveBack c v val

theorem value_cases {raw : ℕ} (h : s.Sound) (hs : s.value c raw = some s') : ∃ v arr,
    s.progress c = .assigned v (s.loc v) ∧ s.loc v ≠ 0 ∧ s.arrays c = some arr ∧
    ((∃ a, a ≠ 0 ∧ arr.slot[s.loc v - 1]? = some a ∧ s' = s.giveBack c v a) ∨
    arr.slot[s.loc v - 1]? = some 0 ∧ s' = s.filled c v raw arr) := by
  simp only [State.value] at hs
  split at hs
  case h_2 => cases hs
  case h_1 v idx arr hp ha =>
    have ⟨hi, hne⟩ := (h.owns c).assigned v idx hp
    subst hi
    split_ifs at hs with hlen hval
    all_goals
      have hlt : s.loc v - 1 < arr.slot.length := by omega
      have hget : arr.slot[s.loc v - 1]? = some (arr.slot.getD (s.loc v - 1) 0) := by
        simp [hlt]
      cases hs
      refine ⟨v, arr, hp, hne, ha, ?_⟩
    case pos => exact .inl ⟨_, hval, hget, rfl⟩
    case neg => exact .inr ⟨hget.trans (by rw [not_not.mp hval]), rfl⟩

theorem giveBack_returned {a : ℕ} : (s.giveBack c v a).returned = ⟨c, v, a⟩ :: s.returned := rfl

theorem Local.giveBack {a : ℕ} : Local s (s.giveBack c v a) c where
  progress := fun _ hc => goto_progress_of_ne hc
  arrays   := fun _ _ => rfl
  live     := fun _ _ => Iff.rfl
  returned := fun _ hr => List.mem_cons.trans (or_iff_right fun he => hr (congrArg _ he))

theorem Sound.giveBack {a : ℕ} (h : s.Sound) (hp : Plain (s.progress c)) (hs : s.Slot c v a) :
    (s.giveBack c v a).Sound := by
  have hh : (s.giveBack c v a).holding c = s.holding c := holding_goto hp .outside
  refine h.local .giveBack rfl rfl h.heap (fun b hb v a hu => { h.placed b hb v a hu with })
    (((h.owns c).goto hp .outside nofun).frame rfl rfl rfl fun _ _ => Iff.rfl) fun w a' => ?_
  have hr := h.returned ⟨c, w, a'⟩
  rw [slot_congr hh rfl, giveBack_returned, List.mem_cons, hr]
  refine or_iff_right_of_imp fun he => ?_
  cases he
  exact ⟨arrays_of_slot hp hs, hs⟩

theorem backPointer_store_of_disjoint {m : Memory} {a b : ℕ} {bs : List UInt8}
    (ha : sizeofPointer ≤ a) (h : a ≤ b ∨ b + bs.length ≤ a - sizeofPointer) :
    backPointer (m.store b bs) a = backPointer m a := by
  rw [sizeofPointer] at ha h
  rw [backPointer, backPointer, sizeofPointer, Memory.load_store_of_disjoint (by omega)]

theorem backPointer_allocValue {m : Memory} {val raw : ℕ} {bs : List UInt8}
    (hv : sizeofPointer ≤ val) (hr : raw < 2 ^ 32) :
    backPointer ((m.store (val - sizeofPointer) (digits 4 raw)).store val bs) val = raw := by
  rw [backPointer_store_of_disjoint hv (.inl le_rfl), backPointer,
    Memory.load_store_of_length digits_length, value_digits_of_lt hr]

theorem holding_filled {raw : ℕ} {arr : EmutlsArray} : (s.filled c v raw arr).holding c = some
    ({ arr with slot := arr.slot.set (s.loc v - 1) ((image.controls v).address raw) }, 0) := by
  simp [filled, State.giveBack, holding, State.goto, setCurrentArray]

theorem slot_filled {raw a : ℕ} {arr : EmutlsArray} {w : Fin image.count} (h : s.Sound)
    (hp : Plain (s.progress c)) (hne : s.loc v ≠ 0) (ha : s.arrays c = some arr)
    (hz : arr.slot[s.loc v - 1]? = some 0) (hval : (image.controls v).address raw ≠ 0) :
    (s.filled c v raw arr).Slot c w a ↔
      (w = v ∧ a = (image.controls v).address raw) ∨ s.Slot c w a := by
  have ⟨hlt, _⟩ := List.getElem?_eq_some_iff.mp hz
  have hloc : (s.filled c v raw arr).loc = s.loc := rfl
  rw [Slot, Slot, holding_filled, holding_of_plain hp, ha, hloc]
  constructor
  case mp =>
    rintro ⟨hne', _, i, j, he, hij, hw, hj⟩
    cases he
    by_cases hjv : s.loc v - 1 = j
    case pos =>
      have hwv : w = v := h.indices.inj w v (by omega) (by omega)
      rw [← hjv, List.getElem?_set_self hlt, Option.some.injEq] at hj
      exact .inl ⟨hwv, hj.symm⟩
    case neg =>
      rw [List.getElem?_set_ne hjv] at hj
      exact .inr ⟨hne', arr, 0, j, rfl, hij, hw, hj⟩
  case mpr =>
    rintro (⟨rfl, rfl⟩ | ⟨hne', _, i, j, he, hij, hw, hj⟩)
    case inl =>
      exact ⟨hval, _, 0, s.loc w - 1, rfl, Nat.zero_le _, by omega, List.getElem?_set_self hlt⟩
    case inr =>
      cases he
      have hjv : s.loc v - 1 ≠ j := by
        rintro rfl
        exact hne' (Option.some.inj (hj.symm.trans hz))
      exact ⟨hne', _, 0, j, rfl, hij, hw, (List.getElem?_set_ne hjv).trans hj⟩

theorem Owns.filled {raw : ℕ} {arr : EmutlsArray} (h : s.Sound) (hp : Plain (s.progress c))
    (hne : s.loc v ≠ 0) (ha : s.arrays c = some arr) (hz : arr.slot[s.loc v - 1]? = some 0)
    (hval : (image.controls v).address raw ≠ 0) : (s.filled c v raw arr).Owns c where
  values w a := by
    rw [slot_filled h hp hne ha hz hval, ← (h.owns c).values w a]
    simp only [State.filled, State.giveBack, State.allocValue, malloc, State.goto, setCurrentArray,
      List.mem_cons, exists_eq_or_imp, true_and, Use.value.injEq]
    simp only [eq_comm]
  arrays a hB := by
    have hB : s.Base c a := by
      refine (base_of_plain hp).mpr ⟨arr, ha, ?_⟩
      rw [Base, holding_filled] at hB
      simpa [State.filled, State.giveBack] using hB
    obtain ⟨b, hm, ho⟩ := (h.owns c).arrays a hB
    exact ⟨b, List.mem_cons_of_mem _ hm, ho⟩
  indexed arr' i j a hh hj hne' := by
    rw [holding_filled] at hh
    cases hh
    by_cases hjv : s.loc v - 1 = j
    case pos => exact ⟨v, (by omega : s.loc v = j + 1)⟩
    case neg =>
      rw [List.getElem?_set_ne hjv] at hj
      exact (h.owns c).indexed arr 0 j a (by rw [holding_of_plain hp, ha]; rfl) hj hne'
  assigned := by simp [State.filled, State.giveBack]
  replaced := by simp [State.filled, State.giveBack]
  swapped  := by simp [State.filled, State.giveBack]
  cleaning := by simp [State.filled, State.giveBack]

theorem Local.filled {raw : ℕ} {arr : EmutlsArray} : Local s (s.filled c v raw arr) c where
  progress := fun _ hc => goto_progress_of_ne hc
  arrays   := fun _ hc => setCurrentArray_arrays_of_ne hc
  live     := fun _ hb => List.mem_cons.trans (or_iff_right fun he => hb (congrArg _ he))
  returned := fun _ hr => List.mem_cons.trans (or_iff_right fun he => hr (congrArg _ he))

theorem Placed.filled {raw a : ℕ} {arr : EmutlsArray} {b : Block image} {w : Fin image.count}
    (h : s.Placed b w a) (hf : raw + (image.controls v).request ≤ 2 ^ 32)
    (ha : b.base + b.size ≤ raw ∨ raw + (image.controls v).request ≤ b.base) :
    (s.filled c v raw arr).Placed b w a := by
  have ⟨hval, hend, _⟩ := Control.address_spec hf
  have habove := h.above
  have hbelow := h.below
  refine { h with pointer := Eq.trans ?_ h.pointer }
  have hlen := (image.controls v).contents_length
  have hword : (digits 4 raw).length = sizeofPointer := digits_length
  have h4 : sizeofPointer ≤ a := by omega
  simp only [State.filled, State.giveBack, State.allocValue, State.goto, setCurrentArray]
  rw [backPointer_store_of_disjoint h4 (by omega), backPointer_store_of_disjoint h4 (by omega)]
  rfl

theorem Sound.filled {raw : ℕ} {arr : EmutlsArray} (h : s.Sound) (hp : Plain (s.progress c))
    (hne : s.loc v ≠ 0) (ha : s.arrays c = some arr) (hz : arr.slot[s.loc v - 1]? = some 0)
    (hf : Block.Fresh s.live
      ⟨raw, (image.controls v).request, c, .value v ((image.controls v).address raw)⟩) :
    (s.filled c v raw arr).Sound := by
  have hpos : 0 < raw := hf.positive
  have hbound : raw + (image.controls v).request ≤ 2 ^ 32 := hf.bounded
  have ⟨hval, hend, hdvd⟩ := Control.address_spec hbound
  have hne₀ : (image.controls v).address raw ≠ 0 := by
    rw [sizeofPointer] at hval
    omega
  have hsize : 0 < (image.controls v).request := by
    rw [Control.request_eq, sizeofPointer]
    omega
  refine h.local .filled rfl rfl (h.heap.malloc hf hsize) ?placed (.filled h hp hne ha hz hne₀)
    fun w a => ?returned
  case placed =>
    refine List.forall_mem_cons.mpr ⟨?new, fun b hb w a hu => ?old⟩
    case new =>
      rintro w a hu
      cases hu
      exact ⟨hval, hend, hdvd, backPointer_allocValue (by omega) (by omega)⟩
    case old => exact (h.placed b hb w a hu).filled hbound (hf.apart b hb).symm
  case returned =>
    have harr : (s.filled c v raw arr).arrays c ≠ none := by
      exact (setCurrentArray_arrays ..).trans_ne nofun
    rw [slot_filled h hp hne ha hz hne₀, and_iff_right harr]
    refine List.mem_cons.trans (or_congr ?_ ?_)
    case refine_1 => simp
    case refine_2 =>
      refine (h.returned ⟨c, w, a⟩).trans (and_iff_right ?_)
      exact ha.trans_ne nofun

theorem Sound.value {raw : ℕ} (h : s.Sound) (hs : s.value c raw = some s')
    (hf : ∀ b, s'.live = b :: s.live → b.Fresh s.live) : s'.Sound := by
  obtain ⟨v, arr, hp, hne, ha, ⟨a, ha₀, hj, rfl⟩ | ⟨hz, rfl⟩⟩ := value_cases h hs
  all_goals have hplain : Plain (s.progress c) := by rw [hp]; exact .assigned
  case inl =>
    refine h.giveBack hplain ⟨ha₀, arr, 0, s.loc v - 1, ?_, Nat.zero_le _, by omega, hj⟩
    rw [holding_of_plain hplain, ha]
    rfl
  case inr => exact h.filled hplain hne ha hz (hf _ rfl)

end SafetyIsland.Emutls.State

import SafetyIsland.Emutls.Runtime

namespace SafetyIsland.Emutls

open Bytes Transition

variable {image : Image}

namespace Block

def Apart (b b' : Block image) : Prop :=
  b.base + b.size ≤ b'.base ∨ b'.base + b'.size ≤ b.base

instance symmApart : Std.Symm (@Apart image) where
  symm _ _ := Or.symm

instance decidableApart (b b' : Block image) : Decidable (b.Apart b') :=
  inferInstanceAs (Decidable (_ ∨ _))

-- A block that `malloc` may return.
structure Fresh (live : List (Block image)) (b : Block image) : Prop where
  positive : 0 < b.base
  bounded  : b.base + b.size ≤ 2 ^ 32
  apart    : ∀ b' ∈ live, b.Apart b'

instance decidableFresh (live : List (Block image)) (b : Block image) : Decidable (b.Fresh live) :=
  decidable_of_iff (0 < b.base ∧ b.base + b.size ≤ 2 ^ 32 ∧ ∀ b' ∈ live, b.Apart b')
    ⟨fun h => ⟨h.1, h.2.1, h.2.2⟩, fun h => ⟨h.1, h.2, h.3⟩⟩

end Block

namespace Control

theorem alignment_eq (obj : Control) : obj.alignment = max obj.align sizeofPointer := by
  unfold alignment
  split <;> omega

theorem alignment_powerOfTwo (obj : Control) : ∃ k, obj.alignment = 2 ^ k := by
  unfold alignment
  split
  case isTrue => exact obj.powerOfTwo
  case isFalse => exact ⟨2, rfl⟩

theorem request_eq (obj : Control) :
    obj.request = obj.size + obj.alignment + sizeofPointer := by
  have := obj.addressable
  rw [← alignment_eq] at this
  exact Nat.mod_eq_of_lt this

theorem contents_length (obj : Control) : obj.contents.length = obj.size := by
  unfold contents
  cases h : obj.templ
  case none => simp
  case some bytes => exact obj.template bytes h

-- The value and the word below it are inside of the block.
theorem address_spec {obj : Control} {raw : ℕ} (h : raw + obj.request ≤ 2 ^ 32) :
    raw + sizeofPointer ≤ obj.address raw ∧
    obj.address raw + obj.size < raw + obj.request ∧
    obj.alignment ∣ obj.address raw := by
  have ⟨k, hk⟩ := obj.alignment_powerOfTwo
  rw [request_eq] at h ⊢
  have hp : 0 < obj.alignment := hk ▸ Nat.two_pow_pos k
  have hlt : raw + sizeofPointer + (2 ^ k - 1) < 2 ^ 32 := by omega
  have ⟨hle, hub, hd⟩ := roundUp_spec hlt
  rw [address, hk] at *
  exact ⟨hle, by omega, hd⟩

end Control

theorem capacity_spec {idx : ℕ} (h : idx ≤ 2 ^ 28) : idx ≤ capacity idx ∧ capacity idx < idx + 8 := by
  have hlt : idx + (2 ^ 3 - 1) < 2 ^ 32 := by omega
  have hc : capacity idx = roundUp 32 idx (2 ^ 3) := rfl
  have ⟨hle, hub, _⟩ := roundUp_spec hlt
  rw [hc]
  exact ⟨hle, by omega⟩

namespace State

-- The array of a context, with the first slot that is not yet freed.
def holding (s : State image) (c : Context) : Option (EmutlsArray × ℕ) :=
  match s.progress c with
  | .cleaning arr i => some (arr, i)
  | _               => (s.arrays c).map (·, 0)

-- The value block at an address is in order.
structure Placed (s : State image) (b : Block image) (v : Fin image.count) (a : ℕ) : Prop where
  above   : b.base + sizeofPointer ≤ a
  below   : a + (image.controls v).size < b.base + b.size
  aligned : (image.controls v).alignment ∣ a
  pointer : backPointer s.memory a = b.base

-- A slot that holds a value.
def Slot (s : State image) (c : Context) (v : Fin image.count) (a : ℕ) : Prop :=
  a ≠ 0 ∧ ∃ arr i j, s.holding c = some (arr, i) ∧ i ≤ j ∧ s.loc v = j + 1 ∧ arr.slot[j]? = some a

-- The base of an array, or of one that is to be freed.
def Base (s : State image) (c : Context) (a : ℕ) : Prop :=
  (∃ arr i, s.holding c = some (arr, i) ∧ arr.base = a) ∨
  ∃ v idx, s.progress c = .replaced v idx (some a)

-- What a context has allocated, and where it stands.
structure Owns (s : State image) (c : Context) : Prop where
  values   : ∀ v a, (∃ b ∈ s.live, b.owner = c ∧ b.use = .value v a) ↔ s.Slot c v a
  arrays   : ∀ a, s.Base c a → ∃ b ∈ s.live, b.owner = c ∧ b.use = .array ∧ b.base = a
  indexed  : ∀ arr i j a, s.holding c = some (arr, i) → arr.slot[j]? = some a → a ≠ 0 →
    ∃ v, s.loc v = j + 1
  assigned : ∀ v idx, s.progress c = .assigned v idx → idx = s.loc v ∧ s.loc v ≠ 0
  replaced : ∀ v idx old, s.progress c = .replaced v idx old → idx = s.loc v ∧ s.loc v ≠ 0
  swapped  : ∀ v idx old arr, s.progress c = .replaced v idx (some old) → s.arrays c = some arr →
    arr.base ≠ old
  cleaning : ∀ arr i, s.progress c = .cleaning arr i → s.arrays c = none

-- The indices that are assigned to variables.
structure Indices (loc : Fin image.count → ℕ) (nextIndex : ℕ) : Prop where
  count : nextIndex = (Finset.univ.filter fun v => loc v ≠ 0).card
  le    : ∀ v, loc v ≤ nextIndex
  inj   : ∀ v v', loc v ≠ 0 → loc v = loc v' → v = v'

structure Heap (live : List (Block image)) : Prop where
  apart    : live.Pairwise Block.Apart
  positive : ∀ b ∈ live, 0 < b.base ∧ 0 < b.size
  bounded  : ∀ b ∈ live, b.base + b.size ≤ 2 ^ 32

structure Sound (s : State image) : Prop where
  heap     : Heap s.live
  indices  : Indices s.loc s.nextIndex
  placed   : ∀ b ∈ s.live, ∀ v a, b.use = .value v a → s.Placed b v a
  owns     : ∀ c, s.Owns c
  returned : ∀ r, r ∈ s.returned ↔ s.arrays r.context ≠ none ∧ s.Slot r.context r.var r.address

theorem Sound.init {m : Memory} : (init m : State image).Sound where
  heap     := ⟨.nil, nofun, nofun⟩
  indices  := ⟨by simp [State.init], by simp [State.init], by simp [State.init]⟩
  placed   := nofun
  returned := by simp [State.init]
  owns c   := {
    values   := by simp [State.init, Slot, holding]
    arrays   := by simp [State.init, Base, holding]
    indexed  := by simp [State.init, holding]
    assigned := nofun
    replaced := nofun
    swapped  := nofun
    cleaning := nofun }

variable {s s' : State image} {c : Context}

theorem Heap.apart_of_ne {live : List (Block image)} {b b' : Block image} (h : Heap live)
    (hb : b ∈ live) (hb' : b' ∈ live) (hne : b ≠ b') : b.Apart b' :=
  h.apart.forall hb hb' hne

theorem Heap.eq_of_base {live : List (Block image)} {b b' : Block image} (h : Heap live)
    (hb : b ∈ live) (hb' : b' ∈ live) (he : b.base = b'.base) : b = b' := by
  by_contra hne
  have hp := (h.positive b hb).2
  have hp' := (h.positive b' hb').2
  rcases h.apart_of_ne hb hb' hne with ha | ha <;> omega

theorem Heap.malloc {live : List (Block image)} {b : Block image} (h : Heap live)
    (hf : b.Fresh live) (hs : 0 < b.size) : Heap (b :: live) where
  apart    := List.pairwise_cons.mpr ⟨hf.apart, h.apart⟩
  positive := List.forall_mem_cons.mpr ⟨⟨hf.positive, hs⟩, h.positive⟩
  bounded  := List.forall_mem_cons.mpr ⟨hf.bounded, h.bounded⟩

theorem Heap.filter {live : List (Block image)} (h : Heap live) (p : Block image → Bool) :
    Heap (live.filter p) where
  apart    := h.apart.filter p
  positive := fun b hb => h.positive b (List.mem_of_mem_filter hb)
  bounded  := fun b hb => h.bounded b (List.mem_of_mem_filter hb)

theorem Heap.mem_free (h : Heap s.live) {b₀ b : Block image} (hb₀ : b₀ ∈ s.live) :
    b ∈ (s.free b₀.base).live ↔ b ∈ s.live ∧ b ≠ b₀ := by
  simp only [free, List.mem_filter, ne_eq, decide_not, Bool.not_eq_true', decide_eq_false_iff_not]
  refine and_congr_right fun hb => not_congr ⟨h.eq_of_base hb hb₀, fun he => he ▸ rfl⟩

theorem Owns.congr (h : s.Owns c) (hh : s'.holding c = s.holding c) (hl : s'.loc = s.loc)
    (hb : ∀ b, b.owner = c → (b ∈ s'.live ↔ b ∈ s.live)) (ha : s'.arrays c = s.arrays c)
    (hr : ∀ v idx old, s'.progress c = .replaced v idx old → s.progress c = .replaced v idx old)
    (hi : ∀ v idx, s'.progress c = .assigned v idx → idx = s.loc v ∧ s.loc v ≠ 0)
    (hc : ∀ arr i, s'.progress c = .cleaning arr i → s.progress c = .cleaning arr i) :
    s'.Owns c where
  values v a := by
    rw [Slot, hh, hl, ← Slot, ← h.values v a]
    exact exists_congr fun b => and_congr_left fun hbo => hb b hbo.1
  arrays a hB := by
    have hB : s.Base c a := by
      rw [Base, hh] at hB
      exact hB.imp id fun ⟨v, idx, hp⟩ => ⟨v, idx, hr _ _ _ hp⟩
    have ⟨b, hm, ho, hu⟩ := h.arrays a hB
    exact ⟨b, (hb b ho).mpr hm, ho, hu⟩
  indexed  := by rw [hh, hl]; exact h.indexed
  assigned := by rw [hl]; exact hi
  replaced := fun v idx old hp => hl ▸ h.replaced v idx old (hr _ _ _ hp)
  swapped  := fun v idx old arr hp hs => h.swapped v idx old arr (hr _ _ _ hp) (ha ▸ hs)
  cleaning := fun arr i hci => ha.trans (h.cleaning arr i (hc arr i hci))

theorem Owns.frame (h : s.Owns c) (hp : s'.progress c = s.progress c)
    (ha : s'.arrays c = s.arrays c) (hl : s'.loc = s.loc)
    (hb : ∀ b, b.owner = c → (b ∈ s'.live ↔ b ∈ s.live)) : s'.Owns c := by
  refine h.congr ?_ hl hb ha (fun _ _ _ hr => hp ▸ hr) (fun v idx hi => ?_) fun _ _ hc => hp ▸ hc
  case refine_1 => rw [holding, holding, hp, ha]
  case refine_2 => exact h.assigned v idx (hp ▸ hi)

theorem holding_congr (hp : s'.progress c = s.progress c) (ha : s'.arrays c = s.arrays c) :
    s'.holding c = s.holding c := by
  rw [holding, holding, hp, ha]

theorem slot_congr {v : Fin image.count} {a : ℕ} (hh : s'.holding c = s.holding c)
    (hl : s'.loc = s.loc) : s'.Slot c v a ↔ s.Slot c v a := by
  rw [Slot, Slot, hh, hl]

-- A step of one context leaves what the others have.
structure Local (s s' : State image) (c : Context) : Prop where
  progress : ∀ c' ≠ c, s'.progress c' = s.progress c'
  arrays   : ∀ c' ≠ c, s'.arrays c' = s.arrays c'
  live     : ∀ b, b.owner ≠ c → (b ∈ s'.live ↔ b ∈ s.live)
  returned : ∀ r, r.context ≠ c → (r ∈ s'.returned ↔ r ∈ s.returned)

theorem Sound.local (h : s.Sound) (hc : Local s s' c) (hloc : s'.loc = s.loc)
    (hnext : s'.nextIndex = s.nextIndex) (heap : Heap s'.live)
    (placed : ∀ b ∈ s'.live, ∀ v a, b.use = .value v a → s'.Placed b v a) (owns : s'.Owns c)
    (returned : ∀ v a, ⟨c, v, a⟩ ∈ s'.returned ↔ s'.arrays c ≠ none ∧ s'.Slot c v a) :
    s'.Sound := by
  refine ⟨heap, hloc ▸ hnext ▸ h.indices, placed, fun c' => ?_, fun ⟨c', v, a⟩ => ?_⟩
  case refine_1 =>
    by_cases he : c' = c
    case pos => exact he ▸ owns
    case neg =>
      exact (h.owns c').frame (hc.progress c' he) (hc.arrays c' he) hloc fun b hb =>
        hc.live b (hb ▸ he)
  case refine_2 =>
    by_cases he : c' = c
    case pos => exact he ▸ returned v a
    case neg =>
      have hh := holding_congr (hc.progress c' he) (hc.arrays c' he)
      rw [hc.returned ⟨c', v, a⟩ he, hc.arrays c' he, slot_congr hh hloc]
      exact h.returned ⟨c', v, a⟩

-- A context moves on without a change of what it has.
structure Plain (p : Progress image) : Prop where
  replaced : ∀ v idx old, p ≠ .replaced v idx old
  cleaning : ∀ arr i, p ≠ .cleaning arr i

theorem holding_of_plain (h : Plain (s.progress c)) :
    s.holding c = (s.arrays c).map (·, 0) := by
  unfold holding
  split
  case h_1 arr i hp => exact absurd hp (h.cleaning arr i)
  case h_2 => rfl

@[simp]
theorem goto_progress {p : Progress image} : (s.goto c p).progress c = p :=
  Function.update_self ..

@[simp]
theorem goto_progress_of_ne {p : Progress image} {c' : Context} (h : c' ≠ c) :
    (s.goto c p).progress c' = s.progress c' :=
  Function.update_of_ne h ..

theorem holding_goto {p : Progress image} (h₀ : Plain (s.progress c)) (hp : Plain p) :
    (s.goto c p).holding c = s.holding c := by
  rw [holding_of_plain h₀, holding_of_plain (by rwa [goto_progress])]
  rfl

theorem Owns.goto {p : Progress image} (h : s.Owns c) (h₀ : Plain (s.progress c)) (hp : Plain p)
    (hi : ∀ v idx, p = .assigned v idx → idx = s.loc v ∧ s.loc v ≠ 0) : (s.goto c p).Owns c := by
  refine h.congr (holding_goto h₀ hp) rfl (fun _ _ => Iff.rfl) rfl ?_ ?_ ?_
  all_goals rw [goto_progress]
  case refine_1 => exact fun v idx old he => (hp.replaced v idx old he).elim
  case refine_2 => exact hi
  case refine_3 => exact fun arr i he => (hp.cleaning arr i he).elim

theorem Local.goto {p : Progress image} : Local s (s.goto c p) c where
  progress := fun _ hc => goto_progress_of_ne hc
  arrays   := fun _ _ => rfl
  live     := fun _ _ => Iff.rfl
  returned := fun _ _ => Iff.rfl

theorem Sound.goto {p : Progress image} (h : s.Sound) (h₀ : Plain (s.progress c)) (hp : Plain p)
    (hi : ∀ v idx, p = .assigned v idx → idx = s.loc v ∧ s.loc v ≠ 0) : (s.goto c p).Sound := by
  refine h.local .goto rfl rfl h.heap (fun b hb v a hu => { h.placed b hb v a hu with })
    ((h.owns c).goto h₀ hp hi) fun v a => ?_
  rw [slot_congr (holding_goto h₀ hp) rfl]
  exact h.returned ⟨c, v, a⟩

end State
end SafetyIsland.Emutls

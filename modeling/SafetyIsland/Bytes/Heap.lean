import SafetyIsland.Bytes.Memory

namespace Bytes

structure Block where
  base : ℕ
  size : ℕ
deriving DecidableEq

namespace Block

def Has (b : Block) (x : ℕ) : Prop :=
  b.base ≤ x ∧ x < b.base + b.size

def Apart (b b' : Block) : Prop :=
  b.base + b.size ≤ b'.base ∨ b'.base + b'.size ≤ b.base

-- A block of an address space of `w` bits that may be handed out. The address after it exists as well.
structure Fresh (w align : ℕ) (live : List Block) (b : Block) : Prop where
  positive : 0 < b.base
  bounded  : b.base + b.size < 2 ^ w
  aligned  : align ∣ b.base
  apart    : ∀ b' ∈ live, b.Apart b'

end Block

-- The memory and the blocks that are handed out.
structure Heap where
  memory : Memory
  live   : List Block

-- The memory of the blocks is the same.
def Heap.Same (live : List Block) (m m' : Memory) : Prop :=
  ∀ b ∈ live, ∀ x, b.Has x → m' x = m x

-- An allocator answers a request with a fresh block that is large enough, or not at all. It may use the
-- memory outside of the blocks as it likes.
structure Allocator (w align : ℕ) where
  alloc        : Heap → ℕ → Option (Block × Memory)
  release      : Heap → ℕ → Memory
  fresh        : ∀ h n b m, alloc h n = some (b, m) → b.Fresh w align h.live ∧ n ≤ b.size
  keeps        : ∀ h n b m, alloc h n = some (b, m) → Heap.Same h.live h.memory m
  releaseKeeps : ∀ h base,
    Heap.Same (h.live.filter (·.base ≠ base)) h.memory (release h base)

namespace Allocator

variable {w align : ℕ}

-- The null pointer is zero.
def malloc (a : Allocator w align) (h : Heap) (n : ℕ) : ℕ × Heap :=
  match a.alloc h n with
  | none        => (0, h)
  | some (b, m) => (b.base, ⟨m, b :: h.live⟩)

def free (a : Allocator w align) (h : Heap) (base : ℕ) : Heap :=
  if base = 0 then h else ⟨a.release h base, h.live.filter (·.base ≠ base)⟩

end Allocator

namespace Heap

structure Sound (h : Heap) : Prop where
  apart    : h.live.Pairwise Block.Apart
  nonempty : ∀ b ∈ h.live, 0 < b.size
  positive : ∀ b ∈ h.live, 0 < b.base

variable {w align n : ℕ} {a : Allocator w align} {h h' : Heap} {b b' : Block}

theorem Same.refl (live : List Block) (m : Memory) : Same live m m :=
  fun _ _ _ _ => rfl

theorem Same.store {live : List Block} {m m' : Memory} {p : ℕ} {bs : List UInt8}
    (hs : Same live m m') (ha : ∀ b' ∈ live, b.Apart b') (hp : b.base ≤ p)
    (hl : p + bs.length ≤ b.base + b.size) : Same live m (m'.store p bs) := by
  intro b' hb' x hx
  have := ha b' hb'
  rw [← hs b' hb' x hx, Memory.store, if_neg]
  simp only [Block.Has, Block.Apart] at *
  omega

theorem Same.load {live : List Block} {m m' : Memory} {p k : ℕ} (hs : Same live m m')
    (hb : b ∈ live) (hp : b.base ≤ p) (hl : p + k ≤ b.base + b.size) : m'.load p k = m.load p k := by
  refine List.map_congr_left fun i hi => hs b hb _ ?_
  have := List.mem_range.mp hi
  exact ⟨by omega, by omega⟩

theorem Sound.base_ne (hs : h.Sound) (hf : b.Fresh w align h.live) (hb : 0 < b.size)
    (hm : b' ∈ h.live) : b'.base ≠ b.base := by
  have := hs.nonempty b' hm
  have := hf.apart b' hm
  rw [Block.Apart] at this
  omega

theorem Sound.memory (hs : h.Sound) (m : Memory) : Sound ⟨m, h.live⟩ where
  apart    := hs.apart
  nonempty := hs.nonempty
  positive := hs.positive

theorem Sound.cons (hs : h.Sound) (hf : b.Fresh w align h.live) (hb : 0 < b.size) (m : Memory) :
    Sound ⟨m, b :: h.live⟩ where
  apart    := List.pairwise_cons.mpr ⟨hf.apart, hs.apart⟩
  nonempty := List.forall_mem_cons.mpr ⟨hb, hs.nonempty⟩
  positive := List.forall_mem_cons.mpr ⟨hf.positive, hs.positive⟩

theorem Sound.free (hs : h.Sound) (base : ℕ) : (a.free h base).Sound := by
  rw [Allocator.free]
  split
  case isTrue  => exact hs
  case isFalse => exact {
    apart    := hs.apart.filter _
    nonempty := fun b hb => hs.nonempty b (List.mem_of_mem_filter hb)
    positive := fun b hb => hs.positive b (List.mem_of_mem_filter hb)
  }

end Heap

theorem Allocator.malloc_cases {w align : ℕ} (a : Allocator w align) (h : Heap) (n : ℕ) :
    a.malloc h n = (0, h) ∨
    ∃ b m, a.malloc h n = (b.base, ⟨m, b :: h.live⟩) ∧ b.Fresh w align h.live ∧ n ≤ b.size ∧
      Heap.Same h.live h.memory m := by
  rw [malloc]
  rcases hb : a.alloc h n with - | ⟨b, m⟩
  · exact .inl rfl
  · obtain ⟨hf, hn⟩ := a.fresh h n b m hb
    exact .inr ⟨b, m, rfl, hf, hn, a.keeps h n b m hb⟩

theorem Heap.Sound.malloc {w align : ℕ} {a : Allocator w align} {h : Heap} {n : ℕ} (hs : h.Sound)
    (hn : 0 < n) : (a.malloc h n).2.Sound := by
  obtain he | ⟨b, m, he, hf, hle, -⟩ := a.malloc_cases h n
  case inl => rwa [he]
  case inr => exact he ▸ hs.cons hf (hn.trans_le hle) m

end Bytes

import SafetyIsland.Bytes.Heap

namespace SafetyIsland.OperatorNew

open Bytes

-- `pvPortMalloc` and `vPortFree`, on addresses of 32 bits.
abbrev FreeRtos := Allocator 32 8

def sizeofPointer : ℕ := 4
def alignofMaxAlign : ℕ := 8
def SIZE_MAX : ℕ := 2 ^ 32 - 1
def kMallocHeader : ℕ := 8

-- An operator that throws, or one that returns a pointer, which may be null.
inductive Outcome
  | badAlloc
  | returns (p : ℕ)
deriving DecidableEq

section

variable (a : FreeRtos) (h : Heap)

def below (p k : ℕ) : ℕ :=
  (p + (2 ^ 32 - k)) % 2 ^ 32

def alignedAllocFromHeap (size alignment : ℕ) : ℕ × Heap :=
  let alignment := if alignment < alignofMaxAlign then alignofMaxAlign else alignment
  let (base, h) := a.malloc h ((size + alignment + sizeofPointer) % 2 ^ 32)
  if base = 0 then (0, h)
  else
    let raw := (base + sizeofPointer) % 2 ^ 32
    let aligned := roundUp 32 raw alignment
    let memory := h.memory.store (below aligned sizeofPointer) (digits 4 base)
    (aligned, { h with memory := memory })

def alignedFreeToHeap (p : ℕ) : Heap :=
  if p ≠ 0 then a.free h (value (h.memory.load (below p sizeofPointer) 4)) else h

def operatorNew (size : ℕ) : Outcome × Heap :=
  let (p, h) := a.malloc h (if size ≠ 0 then size else 1)
  if p = 0 then (.badAlloc, h) else (.returns p, h)

def operatorNewArray (size : ℕ) : Outcome × Heap :=
  operatorNew a h size

def operatorNewNothrow (size : ℕ) : ℕ × Heap :=
  a.malloc h (if size ≠ 0 then size else 1)

def operatorNewArrayNothrow (size : ℕ) : ℕ × Heap :=
  a.malloc h (if size ≠ 0 then size else 1)

def operatorDelete (p : ℕ) : Heap :=
  a.free h p

def malloc (size : ℕ) : ℕ × Heap :=
  if size > SIZE_MAX - kMallocHeader then (0, h)
  else
    let (raw, h) := a.malloc h ((size + kMallocHeader) % 2 ^ 32)
    if raw = 0 then (0, h)
    else
      let memory := h.memory.store raw (digits 4 size)
      ((raw + kMallocHeader) % 2 ^ 32, { h with memory := memory })

def free (ptr : ℕ) : Heap :=
  if ptr ≠ 0 then a.free h (below ptr kMallocHeader) else h

def calloc (nmemb size : ℕ) : ℕ × Heap :=
  let total := nmemb * size % 2 ^ 32
  if size ≠ 0 ∧ total / size ≠ nmemb then (0, h)
  else
    let (p, h) := malloc a h total
    if p ≠ 0 then (p, { h with memory := h.memory.store p (.replicate total 0) }) else (p, h)

def realloc (ptr size : ℕ) : ℕ × Heap :=
  if ptr = 0 then malloc a h size
  else if size = 0 then (0, free a h ptr)
  else
    let oldSize := value (h.memory.load (below ptr kMallocHeader) 4)
    let (np, h) := malloc a h size
    if np ≠ 0 then
      let count := if oldSize < size then oldSize else size
      let memory := h.memory.store np (h.memory.load ptr count)
      (np, free a { h with memory := memory } ptr)
    else (np, h)

def operatorNewAligned (size alignment : ℕ) : Outcome × Heap :=
  let (p, h) := alignedAllocFromHeap a h (if size ≠ 0 then size else 1) alignment
  if p = 0 then (.badAlloc, h) else (.returns p, h)

def operatorNewArrayAligned (size alignment : ℕ) : Outcome × Heap :=
  operatorNewAligned a h size alignment

def operatorNewAlignedNothrow (size alignment : ℕ) : ℕ × Heap :=
  alignedAllocFromHeap a h (if size ≠ 0 then size else 1) alignment

def operatorNewArrayAlignedNothrow (size alignment : ℕ) : ℕ × Heap :=
  alignedAllocFromHeap a h (if size ≠ 0 then size else 1) alignment

-- All forms of `operator delete` with an alignment.
def operatorDeleteAligned (p : ℕ) : Heap :=
  alignedFreeToHeap a h p

end

-- A call of one of the allocation functions. The alignment is a power of two.
inductive Request
  | new (size : UInt32)
  | newArray (size : UInt32)
  | newNothrow (size : UInt32)
  | newArrayNothrow (size : UInt32)
  | newAligned (size : UInt32) (log : Fin 32)
  | newArrayAligned (size : UInt32) (log : Fin 32)
  | newAlignedNothrow (size : UInt32) (log : Fin 32)
  | newArrayAlignedNothrow (size : UInt32) (log : Fin 32)
  | malloc (size : UInt32)
  | calloc (nmemb size : UInt32)
  | realloc (ptr : ℕ) (size : UInt32)

def returned (r : ℕ × Heap) : Outcome × Heap :=
  (.returns r.1, r.2)

def Request.call (a : FreeRtos) (h : Heap) : Request → Outcome × Heap
  | .new size                        => operatorNew a h size.toNat
  | .newArray size                   => operatorNewArray a h size.toNat
  | .newNothrow size                 => returned (operatorNewNothrow a h size.toNat)
  | .newArrayNothrow size            => returned (operatorNewArrayNothrow a h size.toNat)
  | .newAligned size log             => operatorNewAligned a h size.toNat (2 ^ log.val)
  | .newArrayAligned size log        => operatorNewArrayAligned a h size.toNat (2 ^ log.val)
  | .newAlignedNothrow size log      =>
    returned (operatorNewAlignedNothrow a h size.toNat (2 ^ log.val))
  | .newArrayAlignedNothrow size log =>
    returned (operatorNewArrayAlignedNothrow a h size.toNat (2 ^ log.val))
  | .malloc size                     => returned (OperatorNew.malloc a h size.toNat)
  | .calloc nmemb size               => returned (OperatorNew.calloc a h nmemb.toNat size.toNat)
  | .realloc ptr size                => returned (OperatorNew.realloc a h ptr size.toNat)

def Outcome.pointer : Outcome → ℕ
  | .badAlloc  => 0
  | .returns p => p

def Request.throws : Request → Bool
  | .new _ | .newArray _ | .newAligned _ _ | .newArrayAligned _ _ => true
  | _                                                             => false

-- A pointer to `size` bytes of a block, above the `hidden` bytes that the block begins with.
structure Placed (b : Block) (p size alignment hidden : ℕ) : Prop where
  hidden  : b.base + hidden ≤ p
  inside  : p + size ≤ b.base + b.size
  aligned : alignment ∣ p

-- A pointer into a fresh block, which `release` gives back as a whole.
structure Serves (a : FreeRtos) (release : Heap → ℕ → Heap) (h : Heap) (p size alignment hidden : ℕ)
    (h' : Heap) (b : Block) : Prop where
  nonnull : p ≠ 0
  fresh   : b.Fresh 32 8 h.live
  live    : h'.live = b :: h.live
  placed  : Placed b p size alignment hidden
  release : release h' p = a.free h' b.base
  same    : Heap.Same h.live h.memory h'.memory

def Allocates (a : FreeRtos) (release : Heap → ℕ → Heap) (h : Heap) (size alignment hidden p : ℕ)
    (h' : Heap) : Prop :=
  p = 0 ∧ h' = h ∨ ∃ b, Serves a release h p size alignment hidden h' b

structure Allocated (h : Heap) (b : Block) (ptr size : ℕ) : Prop where
  live    : b ∈ h.live
  bounded : b.base + b.size < 2 ^ 32
  placed  : Placed b ptr size 8 8
  base    : b.base + 8 = ptr
  header  : value (h.memory.load b.base 4) = size

-- What a call of `realloc` for a block that was allocated before leaves behind.
def Reallocates (a : FreeRtos) (h : Heap) (b : Block) (ptr old size p : ℕ) (h' : Heap) : Prop :=
  if size = 0 then p = 0 ∧ h' = a.free h b.base
  else p = 0 ∧ h' = h ∨
    ∃ b', b'.Fresh 32 8 h.live ∧ p ≠ 0 ∧ Allocated h' b' p size ∧
      h'.live = (b' :: h.live).filter (·.base ≠ b.base) ∧
      free a h' p = a.free h' b'.base ∧
      h'.memory.load p (min old size) = h.memory.load ptr (min old size)

def Mallocs (a : FreeRtos) (h : Heap) (size p : ℕ) (h' : Heap) : Prop :=
  Allocates a (free a) h size 8 8 p h' ∧ (p ≠ 0 → ∃ b, Allocated h' b p size)

def Request.Correct (a : FreeRtos) (h : Heap) (p : ℕ) (h' : Heap) : Request → Prop
  | .new size | .newArray size | .newNothrow size | .newArrayNothrow size =>
    Allocates a (operatorDelete a) h size.toNat 8 0 p h'
  | .newAligned size log | .newArrayAligned size log | .newAlignedNothrow size log
  | .newArrayAlignedNothrow size log =>
    Allocates a (operatorDeleteAligned a) h size.toNat (2 ^ log.val) 4 p h'
  | .malloc size       => Mallocs a h size.toNat p h'
  | .calloc nmemb size =>
    Mallocs a h (nmemb.toNat * size.toNat) p h' ∧
    (p ≠ 0 → h'.memory.load p (nmemb.toNat * size.toNat) =
      .replicate (nmemb.toNat * size.toNat) 0)
  | .realloc ptr size  =>
    if ptr = 0 then Mallocs a h size.toNat p h'
    else ∀ b old, Allocated h b ptr old → Reallocates a h b ptr old size.toNat p h'

def Request.Meets (r : Request) : Prop :=
  ∀ (a : FreeRtos) (h : Heap), h.Sound →
    ((r.call a h).1.pointer = 0 → ((r.call a h).1 = .badAlloc ↔ r.throws = true)) ∧
    r.Correct a h (r.call a h).1.pointer (r.call a h).2

-- The room for the alignment and for the back-pointer can be added without an overflow.
def Request.Fits : Request → Prop
  | .newAligned size log | .newArrayAligned size log | .newAlignedNothrow size log
  | .newArrayAlignedNothrow size log =>
    max size.toNat 1 + max (2 ^ log.val) alignofMaxAlign + sizeofPointer < 2 ^ 32
  | _ => True

section

variable {a : FreeRtos} {h h' : Heap} {b : Block} {p n size : ℕ}

theorem below_add {k : ℕ} (h₁ : p + k < 2 ^ 32) : below (p + k) k = p := by
  rw [below]
  omega

theorem Allocates.mono {release : Heap → ℕ → Heap} {alignment hidden : ℕ} (hle : size ≤ n)
    (ha : Allocates a release h n alignment hidden p h') :
    Allocates a release h size alignment hidden p h' := by
  refine ha.imp_right ?_
  rintro ⟨b, hb⟩
  have := hb.placed.inside
  exact ⟨b, { hb with placed := { hb.placed with inside := by omega } }⟩

theorem allocates_malloc (hle : size ≤ n) :
    Allocates a (operatorDelete a) h size 8 0 (a.malloc h n).1 (a.malloc h n).2 := by
  obtain he | ⟨b, m, he, hf, hn, hk⟩ := a.malloc_cases h n
  case inl => exact .inl (by simp [he])
  case inr =>
    rw [he]
    refine .inr ⟨b, ?_⟩
    exact {
      nonnull := hf.positive.ne'
      fresh   := hf
      live    := rfl
      placed  := ⟨by omega, by omega, hf.aligned⟩
      release := rfl
      same    := hk
    }

theorem malloc_cases (hs : size < 2 ^ 32) :
    malloc a h size = (0, h) ∨
    ∃ b m, malloc a h size = (b.base + 8, ⟨m, b :: h.live⟩) ∧ b.Fresh 32 8 h.live ∧
      size + 8 ≤ b.size ∧ Heap.Same h.live h.memory m ∧ value (m.load b.base 4) = size := by
  rw [malloc]
  split
  case isTrue => exact .inl rfl
  case isFalse hg =>
    have hw : (size + kMallocHeader) % 2 ^ 32 = size + 8 :=
      Nat.mod_eq_of_lt (by simp only [SIZE_MAX, kMallocHeader] at *; omega)
    rw [hw]
    obtain he | ⟨b, m, he, hf, hn, hk⟩ := a.malloc_cases h (size + 8)
    case inl => exact .inl (by simp [he])
    case inr =>
      have hb := hf.bounded
      have hl : (digits 4 size).length = 4 := digits_length
      have hr : (b.base + kMallocHeader) % 2 ^ 32 = b.base + 8 :=
        Nat.mod_eq_of_lt (by rw [kMallocHeader]; omega)
      refine .inr ⟨b, m.store b.base (digits 4 size), ?_, hf, hn, ?_, ?_⟩
      · simp only [he, if_neg hf.positive.ne', hr]
      · exact hk.store hf.apart le_rfl (by omega)
      · rw [Memory.load_store_of_length hl, value_digits_of_lt (by omega)]

-- The block that `malloc` has taken from the heap.
theorem allocated (hf : b.Fresh 32 8 h.live) (hn : size + 8 ≤ b.size) {m : Memory}
    (hv : value (m.load b.base 4) = size) : Allocated ⟨m, b :: h.live⟩ b (b.base + 8) size where
  live    := List.mem_cons_self
  bounded := hf.bounded
  placed  := ⟨le_rfl, by omega, hf.aligned.add (dvd_refl 8)⟩
  base    := rfl
  header  := hv

theorem free_add (hf : b.Fresh 32 8 h.live) (hn : size + 8 ≤ b.size) :
    free a h' (b.base + 8) = a.free h' b.base := by
  have := hf.bounded
  rw [free, if_pos (by omega), kMallocHeader, below_add (by omega)]

theorem mallocs (hf : b.Fresh 32 8 h.live) (hn : size + 8 ≤ b.size) {m : Memory}
    (hk : Heap.Same h.live h.memory m) (hv : value (m.load b.base 4) = size) :
    Mallocs a h size (b.base + 8) ⟨m, b :: h.live⟩ := by
  refine ⟨.inr ⟨b, ?_⟩, fun _ => ⟨b, allocated hf hn hv⟩⟩
  exact {
    nonnull := by omega
    fresh   := hf
    live    := rfl
    placed  := (allocated hf hn hv).placed
    release := free_add hf hn
    same    := hk
  }

theorem mallocs_null : Mallocs a h size 0 h :=
  ⟨.inl ⟨rfl, rfl⟩, fun hp => (hp rfl).elim⟩

theorem mallocs_malloc (hs : size < 2 ^ 32) :
    Mallocs a h size (malloc a h size).1 (malloc a h size).2 := by
  obtain he | ⟨b, m, he, hf, hn, hk, hv⟩ := malloc_cases (a := a) (h := h) hs
  case inl => exact he ▸ mallocs_null
  case inr => exact he ▸ mallocs hf hn hk hv

theorem mul_of_check {x y m : ℕ} (hy : ¬(y ≠ 0 ∧ x * y % m / y ≠ x)) :
    x * y % m = x * y := by
  obtain rfl | hp := Nat.eq_zero_or_pos y
  case inl => simp
  case inr =>
    have he : x * y % m / y = x := by
      by_contra hne
      exact hy ⟨hp.ne', hne⟩
    refine (Nat.mod_le _ _).antisymm ?_
    conv_lhs => rw [← he]
    exact Nat.div_mul_le_self _ _

theorem mallocs_calloc (nmemb size : ℕ) :
    Mallocs a h (nmemb * size) (calloc a h nmemb size).1 (calloc a h nmemb size).2 ∧
    ((calloc a h nmemb size).1 ≠ 0 → (calloc a h nmemb size).2.memory.load
      (calloc a h nmemb size).1 (nmemb * size) = .replicate (nmemb * size) 0) := by
  rw [calloc]
  split
  case isTrue => exact ⟨mallocs_null, fun hp => (hp rfl).elim⟩
  case isFalse hc =>
    have hw := mul_of_check hc
    have hlt : nmemb * size < 2 ^ 32 := hw ▸ Nat.mod_lt _ (Nat.two_pow_pos 32)
    rw [hw]
    generalize nmemb * size = total at hlt
    obtain he | ⟨b, m, he, hf, hn, hk, hv⟩ := malloc_cases (a := a) (h := h) hlt
    case inl => simpa [he] using mallocs_null
    case inr =>
      have hl : (List.replicate total (0 : UInt8)).length = total := List.length_replicate
      rw [he]
      simp only [if_pos (Nat.succ_ne_zero _)]
      refine ⟨mallocs hf hn (hk.store hf.apart (by omega) (by omega)) ?_, fun _ => ?_⟩
      · rw [Memory.load_store_of_disjoint (by omega), hv]
      · exact Memory.load_store_of_length hl

theorem Allocated.of_same (ha : Allocated h b p size) (hl : b ∈ h'.live)
    (hs : Heap.Same [b] h.memory h'.memory) : Allocated h' b p size where
  live    := hl
  bounded := ha.bounded
  placed  := ha.placed
  base    := ha.base
  header  := by
    have := ha.placed.inside
    have := ha.base
    rw [Heap.Same.load hs List.mem_cons_self le_rfl (by omega), ha.header]

theorem free_eq (hp : 0 < b.base) (ha : Allocated h b p size) : free a h' p = a.free h' b.base := by
  have := ha.base
  have := ha.bounded
  have := ha.placed.inside
  rw [free, if_pos (by omega), kMallocHeader, ← ha.base, below_add (by omega)]

theorem reallocates (hs : h.Sound) (ha : Allocated h b p n) (hn : size < 2 ^ 32) :
    Reallocates a h b p n size (realloc a h p size).1 (realloc a h p size).2 := by
  have hb := hs.positive b ha.live
  have hi := ha.placed.inside
  have hbase := ha.base
  have hbound := ha.bounded
  have hp : p ≠ 0 := by omega
  rw [Reallocates, realloc, if_neg hp]
  split
  case isTrue => exact ⟨rfl, free_eq hb ha⟩
  case isFalse =>
    have hheader : value (h.memory.load (below p kMallocHeader) 4) = n := by
      rw [← hbase, kMallocHeader, below_add (by omega), ha.header]
    have hcount : (if n < size then n else size) = min n size := by
      rw [min_def]
      split_ifs <;> omega
    simp only [hheader, hcount]
    obtain he | ⟨b', m, he, hf, hn', hk, hv⟩ := malloc_cases (a := a) (h := h) hn
    case inl => exact .inl (by simp [he])
    case inr =>
      have hne : b.base ≠ b'.base := hs.base_ne hf (by omega) ha.live
      have hold : m.load p (min n size) = h.memory.load p (min n size) :=
        hk.load ha.live (by omega) (by omega)
      have hl : (h.memory.load p (min n size)).length = min n size := by simp [Memory.load]
      rw [he]
      simp only [if_pos (Nat.succ_ne_zero _), hold]
      -- The new block with the old contents, before the old block is released.
      let copied : Heap := ⟨m.store (b'.base + 8) (h.memory.load p (min n size)), b' :: h.live⟩
      have hfree : free a copied p = ⟨a.release copied b.base, copied.live.filter (·.base ≠ b.base)⟩ := by
        rw [free_eq hb ha, Allocator.free, if_neg hb.ne']
      have hmem : b' ∈ copied.live.filter (·.base ≠ b.base) :=
        List.mem_filter.mpr ⟨List.mem_cons_self, by simpa using hne.symm⟩
      have hsame : Heap.Same [b'] copied.memory (a.release copied b.base) :=
        fun c hc x hx => a.releaseKeeps copied b.base c (List.mem_singleton.mp hc ▸ hmem) x hx
      have halloc : Allocated copied b' (b'.base + 8) size :=
        allocated hf hn' (by rw [Memory.load_store_of_disjoint (by omega), hv])
      refine .inr ⟨b', hf, by omega, ?_, ?_, ?_, ?_⟩
      · exact hfree ▸ halloc.of_same hmem hsame
      · exact congrArg Heap.live hfree
      · exact free_add hf hn'
      · refine (congrArg (fun c : Heap => c.memory.load (b'.base + 8) (min n size)) hfree).trans ?_
        refine (hsame.load List.mem_cons_self (by omega) (by omega)).trans ?_
        exact Memory.load_store_of_length hl

theorem used_alignment (log : ℕ) :
    (if 2 ^ log < alignofMaxAlign then alignofMaxAlign else 2 ^ log) = 2 ^ max log 3 := by
  have h3 : alignofMaxAlign = 2 ^ 3 := rfl
  have hlt : 2 ^ log < 2 ^ 3 ↔ log < 3 := Nat.pow_lt_pow_iff_right (by decide)
  simp only [h3, hlt]
  split
  case isTrue hl  => rw [max_eq_right hl.le]
  case isFalse hl => rw [max_eq_left (not_lt.mp hl)]

theorem max_alignment (log : ℕ) : max (2 ^ log) alignofMaxAlign = 2 ^ max log 3 := by
  rw [← used_alignment, max_comm]
  split
  case isTrue h  => exact max_eq_left h.le
  case isFalse h => exact max_eq_right (not_lt.mp h)

theorem allocates_aligned {log : ℕ} (hf : n + max (2 ^ log) alignofMaxAlign + sizeofPointer < 2 ^ 32) :
    Allocates a (operatorDeleteAligned a) h n (2 ^ log) 4
      (alignedAllocFromHeap a h n (2 ^ log)).1 (alignedAllocFromHeap a h n (2 ^ log)).2 := by
  rw [max_alignment] at hf
  rw [alignedAllocFromHeap]
  simp only [used_alignment]
  generalize hk : max log 3 = k at hf
  have hp : 8 ≤ 2 ^ k := Nat.pow_le_pow_right two_pos (hk ▸ le_max_right log 3 : 3 ≤ k)
  rw [Nat.mod_eq_of_lt hf]
  simp only [sizeofPointer] at *
  obtain he | ⟨b, m, he, hb, hn, hs⟩ := a.malloc_cases h (n + 2 ^ k + 4)
  case inl => exact .inl (by simp [he])
  case inr =>
    have hpos := hb.positive
    have hbound := hb.bounded
    obtain ⟨hlo, hhi, hdvd⟩ := roundUp_spec (w := 32) (x := b.base + 4) (k := k) (by omega)
    simp only [he, if_neg hpos.ne', Nat.mod_eq_of_lt (show b.base + 4 < 2 ^ 32 by omega)]
    generalize roundUp 32 (b.base + 4) (2 ^ k) = p at *
    obtain ⟨q, rfl⟩ : ∃ q, p = q + 4 := ⟨p - 4, by omega⟩
    have hbelow : below (q + 4) 4 = q := below_add (by omega)
    have hl : (digits 4 b.base).length = 4 := digits_length
    refine .inr ⟨b, ?_⟩
    exact {
      nonnull := by omega
      fresh   := hb
      live    := rfl
      placed  := ⟨by omega, by omega, (pow_dvd_pow 2 (hk ▸ le_max_left log 3)).trans hdvd⟩
      release := by
        rw [operatorDeleteAligned, alignedFreeToHeap, if_pos (by omega), sizeofPointer, hbelow,
          Memory.load_store_of_length hl, value_digits_of_lt (by omega)]
      same    := by
        rw [hbelow]
        exact hs.store hb.apart (by omega) (by omega)
    }

end

-- The least block that the wrapped sum asks for, on the empty heap.
def wrapped (n : ℕ) : FreeRtos where
  alloc h k    := if h.live = [] ∧ k = n ∧ 8 + n < 2 ^ 32 then some (⟨8, n⟩, h.memory) else none
  release h _  := h.memory
  fresh        := by
    intro h k b m he
    split at he
    case isTrue hc =>
      obtain ⟨hl, hk, hn⟩ := hc
      obtain ⟨rfl, rfl⟩ := Prod.mk.inj (Option.some.inj he)
      exact ⟨⟨Nat.succ_pos 7, hn, dvd_refl 8, by simp [hl]⟩, hk.le⟩
    case isFalse => cases he
  keeps        := by
    intro h k b m he
    split at he
    case isTrue  => exact (Prod.mk.inj (Option.some.inj he)).2 ▸ Heap.Same.refl _ _
    case isFalse => cases he
  releaseKeeps := fun _ _ => Heap.Same.refl _ _

theorem sound_empty (m : Memory) : Heap.Sound ⟨m, []⟩ where
  apart    := .nil
  nonempty := by simp
  positive := by simp

-- When the sum wraps, the block is too small for every address that it could be used at.
theorem not_allocates_aligned {n size log : ℕ} (hlog : log < 32) (hn : n < 2 ^ 32) (hs : n = max size 1)
    (hf : ¬n + max (2 ^ log) alignofMaxAlign + sizeofPointer < 2 ^ 32) (m : Memory) :
    ∃ a : FreeRtos, ∀ release, ¬Allocates a release ⟨m, []⟩ size (2 ^ log) 4
      (alignedAllocFromHeap a ⟨m, []⟩ n (2 ^ log)).1
      (alignedAllocFromHeap a ⟨m, []⟩ n (2 ^ log)).2 := by
  have hp : 2 ^ max log 3 ≤ 2 ^ 31 := Nat.pow_le_pow_right two_pos (by omega)
  have h1 := Nat.two_pow_pos log
  rw [max_alignment] at hf
  simp only [sizeofPointer] at hf
  obtain ⟨k, hk⟩ : ∃ k, n + 2 ^ max log 3 + 4 = k + 2 ^ 32 := ⟨n + 2 ^ max log 3 + 4 - 2 ^ 32, by omega⟩
  refine ⟨wrapped k, fun release hr => ?_⟩
  have hmod : (n + 2 ^ max log 3 + sizeofPointer) % 2 ^ 32 = k := by
    rw [sizeofPointer, hk, Nat.add_mod_right, Nat.mod_eq_of_lt (by omega)]
  have hm : (wrapped k).malloc ⟨m, []⟩ k = (8, ⟨m, [⟨8, k⟩]⟩) := by
    rw [Allocator.malloc, wrapped]
    simp [show 8 + k < 4294967296 by omega]
  have hlive : (alignedAllocFromHeap (wrapped k) ⟨m, []⟩ n (2 ^ log)).2.live = [⟨8, k⟩] := by
    rw [alignedAllocFromHeap]
    simp only [used_alignment, hmod, hm, if_neg (Nat.succ_ne_zero 7)]
  obtain ⟨-, he⟩ | ⟨b, hb⟩ := hr
  case inl => simp [he] at hlive
  case inr =>
    have hl := hb.live
    rw [hlive] at hl
    obtain ⟨rfl, -⟩ := List.cons.inj hl
    have hhid := hb.placed.hidden
    have hin := hb.placed.inside
    simp only at hhid hin
    omega

theorem request_eq (size : ℕ) : (if size ≠ 0 then size else 1) = max size 1 := by
  split <;> omega

-- The operators that throw do so in place of returning a null pointer.
def throwing (r : ℕ × Heap) : Outcome × Heap :=
  if r.1 = 0 then (.badAlloc, r.2) else (.returns r.1, r.2)

theorem throwing_spec (r : ℕ × Heap) :
    ((throwing r).1.pointer, (throwing r).2) = r ∧
    ((throwing r).1.pointer = 0 → (throwing r).1 = .badAlloc) := by
  rw [throwing]
  split
  case isTrue hr  => exact ⟨Prod.ext hr.symm rfl, fun _ => rfl⟩
  case isFalse hr => exact ⟨rfl, fun hp => (hr hp).elim⟩

namespace Request

-- The pointer and the heap of a call, with null in place of an exception.
def served (a : FreeRtos) (h : Heap) : Request → ℕ × Heap
  | .new size | .newArray size | .newNothrow size | .newArrayNothrow size =>
    a.malloc h (max size.toNat 1)
  | .newAligned size log | .newArrayAligned size log | .newAlignedNothrow size log
  | .newArrayAlignedNothrow size log =>
    alignedAllocFromHeap a h (max size.toNat 1) (2 ^ log.val)
  | .malloc size       => OperatorNew.malloc a h size.toNat
  | .calloc nmemb size => OperatorNew.calloc a h nmemb.toNat size.toNat
  | .realloc ptr size  => OperatorNew.realloc a h ptr size.toNat

theorem call_eq (a : FreeRtos) (h : Heap) (r : Request) :
    r.call a h = if r.throws then throwing (r.served a h) else returned (r.served a h) := by
  cases r <;> simp only [served, ← request_eq] <;> rfl

theorem call_spec (a : FreeRtos) (h : Heap) (r : Request) :
    ((r.call a h).1.pointer, (r.call a h).2) = r.served a h ∧
    ((r.call a h).1.pointer = 0 → ((r.call a h).1 = .badAlloc ↔ r.throws = true)) := by
  rw [call_eq]
  cases ht : r.throws
  case true  => exact (throwing_spec _).imp_right fun hb hp => ⟨fun _ => rfl, fun _ => hb hp⟩
  case false => exact ⟨rfl, fun _ => ⟨by simp [returned], by simp⟩⟩

theorem meets_of_correct {r : Request}
    (hc : ∀ a h, h.Sound → r.Correct a h (r.served a h).1 (r.served a h).2) : r.Meets := by
  intro a h hs
  obtain ⟨he, ht⟩ := r.call_spec a h
  have := hc a h hs
  rw [← he] at this
  exact ⟨ht, this⟩

theorem Meets.correct {r : Request} (hr : r.Meets) {a : FreeRtos} {h : Heap} (hs : h.Sound) :
    r.Correct a h (r.served a h).1 (r.served a h).2 := by
  rw [← (r.call_spec a h).1]
  exact (hr a h hs).2

-- The forms that take an alignment, with what they have in common.
theorem meets_aligned {r : Request} {size : UInt32} {log : Fin 32}
    (hc : ∀ a h p h', r.Correct a h p h' ↔
      Allocates a (operatorDeleteAligned a) h size.toNat (2 ^ log.val) 4 p h')
    (hv : ∀ a h, r.served a h = alignedAllocFromHeap a h (max size.toNat 1) (2 ^ log.val))
    (hf : r.Fits ↔ max size.toNat 1 + max (2 ^ log.val) alignofMaxAlign + sizeofPointer < 2 ^ 32) :
    r.Meets ↔ r.Fits := by
  rw [hf]
  constructor
  case mp =>
    intro hr
    by_contra hn
    have hlt := size.toNat_lt
    obtain ⟨a, ha⟩ := not_allocates_aligned log.isLt (by omega) rfl hn fun _ => 0
    refine ha (operatorDeleteAligned a) ?_
    rw [← hv, ← hc]
    exact hr.correct (sound_empty _)
  case mpr =>
    intro hn
    refine meets_of_correct fun a h _ => ?_
    rw [hc, hv]
    exact (allocates_aligned hn).mono (le_max_left _ _)

theorem correct_realloc (a : FreeRtos) {h : Heap} (hs : h.Sound) (ptr : ℕ) (size : UInt32) :
    (realloc ptr size).Correct a h (OperatorNew.realloc a h ptr size.toNat).1
      (OperatorNew.realloc a h ptr size.toNat).2 := by
  rw [Correct]
  split
  case isTrue hp  => exact hp ▸ mallocs_malloc size.toNat_lt
  case isFalse    => exact fun b old ha => reallocates hs ha size.toNat_lt

theorem meets_of_fits {r : Request} (hf : r.Fits) : r.Meets := by
  have hnew {size : UInt32} {a : FreeRtos} {h : Heap} :
      Allocates a (operatorDelete a) h size.toNat 8 0 (a.malloc h (max size.toNat 1)).1
        (a.malloc h (max size.toNat 1)).2 := allocates_malloc (le_max_left _ _)
  cases r with
  | new | newArray | newNothrow | newArrayNothrow => exact meets_of_correct fun _ _ _ => hnew
  | newAligned | newArrayAligned | newAlignedNothrow | newArrayAlignedNothrow =>
    exact (meets_aligned (fun _ _ _ _ => Iff.rfl) (fun _ _ => rfl) Iff.rfl).mpr hf
  | malloc size       => exact meets_of_correct fun _ _ _ => mallocs_malloc size.toNat_lt
  | calloc nmemb size => exact meets_of_correct fun _ _ _ => mallocs_calloc nmemb.toNat size.toNat
  | realloc ptr size  => exact meets_of_correct fun a _ hs => correct_realloc a hs ptr size

-- Every call is correct as long as the aligned forms have the room that they add.
theorem meets_iff (r : Request) : r.Meets ↔ r.Fits := by
  refine ⟨fun hm => ?_, meets_of_fits⟩
  cases r with
  | newAligned | newArrayAligned | newAlignedNothrow | newArrayAlignedNothrow =>
    exact (meets_aligned (fun _ _ _ _ => Iff.rfl) (fun _ _ => rfl) Iff.rfl).mp hm
  | _ => exact trivial

-- The largest size for an alignment of 16 bytes asks for a block of 19 bytes.
theorem aligned_size_wraps : ¬(newAlignedNothrow 4294967295 4).Meets := by
  intro hm
  have hf := (meets_aligned (fun _ _ _ _ => Iff.rfl) (fun _ _ => rfl) Iff.rfl).mp hm
  exact absurd hf (by rw [Fits]; decide)

end Request

-- What a program does with the heap. It also writes to the memory.
inductive Use
  | request (r : Request)
  | delete (p : ℕ)
  | deleteAligned (p : ℕ)
  | free (ptr : ℕ)
  | write (p : ℕ) (data : List UInt8)

def Use.next (a : FreeRtos) (h : Heap) : Use → Heap
  | .request r       => (r.call a h).2
  | .delete p        => operatorDelete a h p
  | .deleteAligned p => operatorDeleteAligned a h p
  | .free ptr        => OperatorNew.free a h ptr
  | .write p data    => { h with memory := h.memory.store p data }

def after (a : FreeRtos) (h : Heap) (us : List Use) : Heap :=
  us.foldl (Use.next a) h

section

variable {a : FreeRtos} {h : Heap} {us : List Use}

end

end SafetyIsland.OperatorNew

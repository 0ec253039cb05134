import SafetyIsland.Bytes.Memory
import SafetyIsland.Transition.Run

namespace SafetyIsland.Emutls

open Bytes

def sizeofPointer : ℕ := 4
def X5H_EMUTLS_GROW : ℕ := 8

-- The record of a variable, as the compiler emits it, without its word `loc`.
structure Control where
  size        : ℕ
  align       : ℕ
  templ       : Option (List UInt8)
  powerOfTwo  : ∃ k, align = 2 ^ k
  addressable : size + max align sizeofPointer + sizeofPointer < 2 ^ 32
  template    : ∀ bytes ∈ templ, bytes.length = size

-- The records of an image, of 16 bytes each.
structure Image where
  count    : ℕ
  controls : Fin count → Control
  few      : 16 * count ≤ 2 ^ 32

inductive Context
  | boot
  | task (t : ℕ)
deriving DecidableEq

structure EmutlsArray where
  base : ℕ
  slot : List ℕ
deriving DecidableEq

variable {image : Image}

-- What a block was allocated for: an array, or the value of a variable at an address.
inductive Use (image : Image)
  | array
  | value (v : Fin image.count) (address : ℕ)
deriving DecidableEq

structure Block (image : Image) where
  base  : ℕ
  size  : ℕ
  owner : Context
  use   : Use image
deriving DecidableEq

-- Where a context stands in `__emutls_get_address`, or in the cleanup of its array.
inductive Progress (image : Image)
  | outside
  | unassigned (v : Fin image.count)
  | assigned (v : Fin image.count) (idx : ℕ)
  | replaced (v : Fin image.count) (idx : ℕ) (old : Option ℕ)
  | cleaning (arr : EmutlsArray) (i : ℕ)
deriving DecidableEq

structure Returned (image : Image) where
  context : Context
  var     : Fin image.count
  address : ℕ
deriving DecidableEq

-- The blocks of the heap carry what they are for, and the addresses returned since the last cleanup of
-- their context are a history. No step reads either but a write by the program.
structure State (image : Image) where
  loc       : Fin image.count → ℕ
  nextIndex : ℕ
  arrays    : Context → Option EmutlsArray
  progress  : Context → Progress image
  memory    : Memory
  live      : List (Block image)
  returned  : List (Returned image)

def Control.alignment (obj : Control) : ℕ :=
  if obj.align > sizeofPointer then obj.align else sizeofPointer

def Control.request (obj : Control) : ℕ :=
  (obj.size + obj.alignment + sizeofPointer) % 2 ^ 32

def Control.address (obj : Control) (raw : ℕ) : ℕ :=
  roundUp 32 (raw + sizeofPointer) obj.alignment

def Control.contents (obj : Control) : List UInt8 :=
  obj.templ.getD (.replicate obj.size 0)

def capacity (idx : ℕ) : ℕ :=
  roundUp 32 idx X5H_EMUTLS_GROW

def arrayRequest (cap : ℕ) : ℕ :=
  (sizeofPointer + cap * sizeofPointer) % 2 ^ 32

-- The word below a value.
def backPointer (m : Memory) (val : ℕ) : ℕ :=
  Bytes.value (m.load (val - sizeofPointer) 4)

namespace State

def init (m : Memory) : State image where
  loc _      := 0
  nextIndex  := 0
  arrays _   := none
  progress _ := .outside
  memory     := m
  live       := []
  returned   := []

def goto (c : Context) (p : Progress image) (s : State image) : State image :=
  { s with progress := Function.update s.progress c p }

def setCurrentArray (c : Context) (arr : Option EmutlsArray) (s : State image) : State image :=
  { s with arrays := Function.update s.arrays c arr }

def malloc (b : Block image) (s : State image) : State image :=
  { s with live := b :: s.live }

def free (base : ℕ) (s : State image) : State image :=
  { s with live := s.live.filter (·.base ≠ base) }

-- `idx = obj->loc`
def load (nesting : ℕ) (c : Context) (v : Fin image.count) (s : State image) :
    Option (State image) :=
  match s.progress c with
  | .outside =>
    if nesting ≠ 0 then none
    else if s.loc v = 0 then some (s.goto c (.unassigned v))
    else some (s.goto c (.assigned v (s.loc v)))
  | _ => none

-- The critical section.
def assign (c : Context) (s : State image) : Option (State image) :=
  match s.progress c with
  | .unassigned v =>
    if s.loc v = 0 then
      let idx := (s.nextIndex + 1) % 2 ^ 32
      let s := { s with
        nextIndex := idx
        loc       := Function.update s.loc v idx }
      some (s.goto c (.assigned v idx))
    else some (s.goto c (.assigned v (s.loc v)))
  | _ => none

def grow (c : Context) (base : ℕ) (s : State image) : Option (State image) :=
  match s.progress c with
  | .assigned v idx =>
    let old := (s.arrays c).elim [] EmutlsArray.slot
    if (s.arrays c).isSome ∧ ¬old.length < idx then none
    else if base = 0 then none
    else
      let cap := capacity idx
      let slot := old ++ .replicate (cap - old.length) 0
      let s' := s.malloc ⟨base, arrayRequest cap, c, .array⟩
      some (s'.setCurrentArray c (some ⟨base, slot⟩)
        |>.goto c (.replaced v idx ((s.arrays c).map EmutlsArray.base)))
  | _ => none

-- `free(arr)`
def release (c : Context) (s : State image) : Option (State image) :=
  match s.progress c with
  | .replaced v idx old => some ((old.elim s s.free).goto c (.assigned v idx))
  | _                   => none

def giveBack (c : Context) (v : Fin image.count) (val : ℕ) (s : State image) : State image :=
  { s with returned := ⟨c, v, val⟩ :: s.returned }.goto c .outside

def allocValue (c : Context) (v : Fin image.count) (raw : ℕ) (s : State image) : State image :=
  let obj := image.controls v
  let val := obj.address raw
  let s := s.malloc ⟨raw, obj.request, c, .value v val⟩
  { s with
    memory := (s.memory.store (val - sizeofPointer) (digits 4 raw)).store val obj.contents }

def value (c : Context) (raw : ℕ) (s : State image) : Option (State image) :=
  match s.progress c, s.arrays c with
  | .assigned v idx, some arr =>
    if arr.slot.length < idx then none
    else
      let val := arr.slot.getD (idx - 1) 0
      if val ≠ 0 then some (s.giveBack c v val)
      else if raw = 0 then none
      else
        let val := (image.controls v).address raw
        some (s.allocValue c v raw
          |>.setCurrentArray c (some { arr with slot := arr.slot.set (idx - 1) val })
          |>.giveBack c v val)
  | _, _ => none

def cleanup (t : ℕ) (s : State image) : State image :=
  match s.arrays (.task t) with
  | none     => s
  | some arr =>
    { s with returned := s.returned.filter (·.context ≠ Context.task t) }
      |>.setCurrentArray (.task t) none
      |>.goto (.task t) (.cleaning arr 0)

def freeNext (t : ℕ) (s : State image) : Option (State image) :=
  match s.progress (.task t) with
  | .cleaning arr i =>
    if i < arr.slot.length then
      let val := arr.slot.getD i 0
      let s := if val ≠ 0 then s.free (backPointer s.memory val) else s
      some (s.goto (.task t) (.cleaning arr (i + 1)))
    else some ((s.free arr.base).goto (.task t) .outside)
  | _ => none

def write (address : ℕ) (byte : UInt8) (s : State image) : Option (State image) :=
  if s.returned.any fun r =>
      r.address ≤ address ∧ address < r.address + (image.controls r.var).size then
    some { s with memory := s.memory.store address [byte] }
  else none

end State

inductive Event (image : Image)
  | load (nesting : ℕ) (c : Context) (v : Fin image.count)
  | assign (c : Context)
  | grow (c : Context) (base : ℕ)
  | release (c : Context)
  | value (c : Context) (raw : ℕ)
  | cleanup (t : ℕ)
  | freeNext (t : ℕ)
  | write (address : ℕ) (byte : UInt8)
deriving DecidableEq

-- The steps of all contexts, in any order. Each does at most one thing that another context can see.
def State.step (s : State image) : Event image → Option (State image)
  | .load nesting c v   => s.load nesting c v
  | .assign c           => s.assign c
  | .grow c base        => s.grow c base
  | .release c          => s.release c
  | .value c raw        => s.value c raw
  | .cleanup t          => some (s.cleanup t)
  | .freeNext t         => s.freeNext t
  | .write address byte => s.write address byte

end SafetyIsland.Emutls

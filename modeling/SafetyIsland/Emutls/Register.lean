import SafetyIsland.Emutls.Runtime

namespace SafetyIsland.Emutls

-- The record of a common variable while the translation units register what they know of it. A
-- template is the bytes that can be read from its address on.
structure Record where
  size  : ℕ
  align : ℕ
  templ : Option (List UInt8)
deriving DecidableEq

structure Registration where
  size  : ℕ
  align : ℕ
  templ : Option (List UInt8)
deriving DecidableEq

def Registration.Covers (r : Registration) : Prop :=
  ∀ bytes ∈ r.templ, r.size ≤ bytes.length

namespace Record

def Covers (obj : Record) : Prop :=
  ∀ bytes ∈ obj.templ, obj.size ≤ bytes.length

def registerCommon (obj : Record) (r : Registration) : Record :=
  let obj :=
    if obj.size < r.size then { obj with size := r.size, templ := r.templ }
    else if obj.size = r.size ∧ obj.templ = none then { obj with templ := r.templ }
    else obj
  if obj.align < r.align then { obj with align := r.align } else obj

-- What `emutls_alloc_value` copies into a new value, unless it reads past the end of a template.
def firstContents (obj : Record) : Option (List UInt8) :=
  match obj.templ with
  | some bytes => if obj.size ≤ bytes.length then some (bytes.take obj.size) else none
  | none       => some (.replicate obj.size 0)

variable {obj : Record} {r : Registration} {rs : List Registration}

theorem registerCommon_size : (obj.registerCommon r).size = max obj.size r.size := by
  simp only [registerCommon]
  split_ifs <;> grind

theorem registerCommon_align : (obj.registerCommon r).align = max obj.align r.align := by
  simp only [registerCommon]
  split_ifs <;> simp_all <;> omega

theorem registerCommon_templ :
    (obj.registerCommon r).templ = obj.templ ∧ r.size ≤ obj.size ∨
    (obj.registerCommon r).templ = r.templ ∧ obj.size ≤ r.size := by
  simp only [registerCommon]
  split_ifs <;> simp_all <;> omega

theorem Covers.registerCommon (h : obj.Covers) (hr : r.Covers) :
    (obj.registerCommon r).Covers := by
  intro bytes hb
  rw [registerCommon_size]
  cases registerCommon_templ
  case inl ht =>
    rw [ht.1] at hb
    exact max_le (h bytes hb) (ht.2.trans (h bytes hb))
  case inr ht =>
    rw [ht.1] at hb
    exact max_le (ht.2.trans (hr bytes hb)) (hr bytes hb)

theorem Covers.firstContents (h : obj.Covers) :
    ∃ bytes, obj.firstContents = some bytes ∧ bytes.length = obj.size := by
  rw [Record.firstContents]
  cases ht : obj.templ with
  | none       => exact ⟨_, rfl, List.length_replicate⟩
  | some bytes =>
    have hb := h bytes ht
    exact ⟨bytes.take obj.size, if_pos hb, List.length_take_of_le hb⟩

theorem isGreatest_foldl {f : Record → ℕ} {g : Registration → ℕ}
    (hf : ∀ obj r, f (Record.registerCommon obj r) = max (f obj) (g r)) (obj : Record)
    (rs : List Registration) :
    IsGreatest (insert (f obj) {n | ∃ r ∈ rs, g r = n}) (f (rs.foldl registerCommon obj)) := by
  induction rs generalizing obj with
  | nil         => simp [IsGreatest, upperBounds]
  | cons r rs ih =>
    have ⟨hm, hu⟩ := ih (obj.registerCommon r)
    rw [hf] at hm hu
    constructor
    case left =>
      cases hm
      case inl hm =>
        cases max_choice (f obj) (g r) with
        | inl h => exact .inl (hm.trans h)
        | inr h => exact .inr ⟨r, List.mem_cons_self, h.symm.trans hm.symm⟩
      case inr hm =>
        have ⟨q, hq, h⟩ := hm
        exact .inr ⟨q, List.mem_cons_of_mem r hq, h⟩
    case right =>
      intro n hn
      have hmax := hu (.inl rfl)
      cases hn
      case inl hn =>
        rw [hn]
        exact (le_max_left _ _).trans hmax
      case inr hn =>
        have ⟨q, hq, h⟩ := hn
        cases hq with
        | head      => exact h ▸ (le_max_right _ _).trans hmax
        | tail _ hq => exact hu (.inr ⟨q, hq, h⟩)

theorem Covers.foldl (h : obj.Covers) (hr : ∀ r ∈ rs, r.Covers) :
    (rs.foldl Record.registerCommon obj).Covers := by
  induction rs generalizing obj with
  | nil         => exact h
  | cons r rs ih =>
    apply ih (h.registerCommon (hr r List.mem_cons_self))
    intro q hq
    exact hr q (List.mem_cons_of_mem r hq)

-- After any calls the size and the alignment are the greatest that were seen, the template covers
-- the size, and a new value is copied from within it.
theorem register_common (h : obj.Covers) (hr : ∀ r ∈ rs, r.Covers) :
    IsGreatest (insert obj.size {n | ∃ r ∈ rs, r.size = n})
      (rs.foldl registerCommon obj).size ∧
    IsGreatest (insert obj.align {n | ∃ r ∈ rs, r.align = n})
      (rs.foldl registerCommon obj).align ∧
    (∀ bytes ∈ (rs.foldl registerCommon obj).templ,
      (rs.foldl registerCommon obj).size ≤ bytes.length) ∧
    ∃ bytes, (rs.foldl registerCommon obj).firstContents = some bytes ∧
      bytes.length = (rs.foldl registerCommon obj).size :=
  ⟨isGreatest_foldl (fun _ _ => registerCommon_size) obj rs,
    isGreatest_foldl (fun _ _ => registerCommon_align) obj rs,
    h.foldl hr, (h.foldl hr).firstContents⟩

namespace Sample

-- A larger size without a template, after a smaller one with a template.
def calls : List Registration :=
  [⟨4, 4, some [1, 2, 3, 4]⟩, ⟨8, 8, none⟩, ⟨8, 4, some [1, 2, 3, 4, 5, 6, 7, 8]⟩]

end Sample

theorem register_common_mixed :
    IsGreatest (insert 1 {n | ∃ r ∈ Sample.calls, r.size = n})
      (Sample.calls.foldl registerCommon ⟨1, 1, none⟩).size ∧
    IsGreatest (insert 1 {n | ∃ r ∈ Sample.calls, r.align = n})
      (Sample.calls.foldl registerCommon ⟨1, 1, none⟩).align ∧
    (∀ bytes ∈ (Sample.calls.foldl registerCommon ⟨1, 1, none⟩).templ,
      (Sample.calls.foldl registerCommon ⟨1, 1, none⟩).size ≤ bytes.length) ∧
    ∃ bytes, (Sample.calls.foldl registerCommon ⟨1, 1, none⟩).firstContents = some bytes ∧
      bytes.length = (Sample.calls.foldl registerCommon ⟨1, 1, none⟩).size :=
  register_common (by simp [Covers] : Covers ⟨1, 1, none⟩)
    (by simp [Sample.calls, Registration.Covers])

def toControl (obj : Record) (h : obj.Covers) (hp : ∃ k, obj.align = 2 ^ k)
    (ha : obj.size + max obj.align sizeofPointer + sizeofPointer < 2 ^ 32) : Control where
  size        := obj.size
  align       := obj.align
  templ       := obj.templ.map (List.take obj.size)
  powerOfTwo  := hp
  addressable := ha
  template    := by
    intro bytes hb
    have ⟨t, ht, hb⟩ := Option.mem_map.mp hb
    rw [←hb]
    exact List.length_take_of_le (h t ht)

theorem toControl_contents (h : obj.Covers) (hp : ∃ k, obj.align = 2 ^ k)
    (ha : obj.size + max obj.align sizeofPointer + sizeofPointer < 2 ^ 32) :
    some (obj.toControl h hp ha).contents = obj.firstContents := by
  simp only [Control.contents, toControl, firstContents]
  cases ht : obj.templ with
  | none       => rfl
  | some bytes => simp [h bytes ht]

end Record
end SafetyIsland.Emutls

import SafetyIsland.Messages
import SafetyIsland.Reference.Convert
import SafetyIsland.Ring.Recent

namespace SafetyIsland.VpReference

structure EgoHistory.Entry where
  sec     : Int32
  nanosec : UInt32
  pose    : Pose2D Float
deriving DecidableEq

-- A ring of the last 400 ego poses, of which `count` are filled.
structure EgoHistory where
  entries : Vector EgoHistory.Entry 400
  next    : Fin 400
  count   : ℕ
deriving DecidableEq

namespace EgoHistory

def init : EgoHistory where
  entries := .replicate 400 ⟨0, 0, ⟨0, 0, 0⟩⟩
  next    := 0
  count   := 0

def note (h : EgoHistory) (sec : Int32) (nanosec : UInt32) (pose : Pose2D Float) : EgoHistory where
  entries := h.entries.set h.next ⟨sec, nanosec, pose⟩
  next    := h.next + 1
  count   := if h.count < 400 then h.count + 1 else h.count

-- The newest entry first.
def entry (h : EgoHistory) (k : ℕ) : Entry :=
  h.entries.get (Fin.ofNat 400 (h.next.val + 400 - 1 - k))

def find (h : EgoHistory) (sec : Int32) (nanosec : UInt32) : Option (Pose2D Float) :=
  (List.range h.count).findSome? fun k =>
    let e := h.entry k
    if e.sec = sec ∧ e.nanosec = nanosec then some e.pose else none

-- `find` as it is called: whether there is a match, and what is left in the pose of the caller.
def findInto (h : EgoHistory) (sec : Int32) (nanosec : UInt32) (out : Pose2D Float) :
    Bool × Pose2D Float :=
  match h.find sec nanosec with
  | some pose => (true, pose)
  | none      => (false, out)

-- The history after some calls of `note`, the oldest first.
def ofNotes (notes : List Entry) : EgoHistory :=
  notes.foldl (fun h e => h.note e.sec e.nanosec e.pose) init

def Entry.Matches (e : Entry) (sec : Int32) (nanosec : UInt32) : Prop :=
  e.sec = sec ∧ e.nanosec = nanosec

variable {h : EgoHistory} {notes history : List Entry} {sec : Int32} {nanosec : UInt32}
variable {out : Pose2D Float}

-- The ring holds the newest of the notes, the newest note first.
def Holds (h : EgoHistory) (history : List Entry) : Prop :=
  Ring.Recalls h.entries h.count h.next history

theorem Holds.init : EgoHistory.init.Holds [] where
  bound    := by decide
  filled   := rfl
  start _  := rfl
  cell _ h := absurd h (Nat.not_lt_zero _)

theorem Holds.note (hh : h.Holds history) (e : Entry) :
    (h.note e.sec e.nanosec e.pose).Holds (e :: history) := by
  have hp := Ring.Recalls.push (x := e) hh
  have hn : (h.next + 1).val = (h.next.val + 1) % 400 := by rw [Fin.val_add]; rfl
  rw [← hn] at hp
  exact hp

theorem holds_ofNotes : (ofNotes notes).Holds notes.reverse := by
  induction notes using List.reverseRecOn
  case nil => exact .init
  case append_singleton notes e ih =>
    rw [ofNotes, List.foldl_concat, List.reverse_concat]
    exact ih.note e

theorem entry_eq {k : ℕ} (hk : k < 400) :
    h.entries[Ring.slot 400 h.next k]? = some (h.entry k) := by
  have hb : h.next.val < 400 := h.next.isLt
  have hs : (h.next.val + 400 - 1 - k) % 400 = Ring.slot 400 h.next k := by
    unfold Ring.slot
    split_ifs <;> omega
  have hlt : Ring.slot 400 h.next k < 400 := hs ▸ Nat.mod_lt _ (by decide)
  have hi : Fin.ofNat 400 (h.next.val + 400 - 1 - k) = ⟨Ring.slot 400 h.next k, hlt⟩ :=
    Fin.ext hs
  rw [Vector.getElem?_eq_getElem hlt, EgoHistory.entry, hi]
  rfl

theorem Holds.find (hh : h.Holds history) : h.find sec nanosec =
    (history.take 400).findSome? fun e =>
      if e.sec = sec ∧ e.nanosec = nanosec then some e.pose else none := by
  have hf : h.count = min history.length 400 := hh.filled
  rw [← Ring.Recalls.map_range hh fun _ hk => entry_eq (by omega), List.findSome?_map]
  rfl

theorem find_recent (notes : List Entry) (sec : Int32) (nanosec : UInt32) (out : Pose2D Float) :
    let recent := notes.reverse.take 400
    let (found, pose) := (ofNotes notes).findInto sec nanosec out
    (found = true ↔ ∃ e ∈ recent, e.Matches sec nanosec) ∧
    (found = true → ∃ (k : ℕ) (e : Entry), recent[k]? = some e ∧ e.Matches sec nanosec ∧
      pose = e.pose ∧ ∀ j < k, ∀ e' ∈ recent[j]?, ¬e'.Matches sec nanosec) ∧
    (found = false → pose = out) := by
  intro recent
  have hfind : (ofNotes notes).find sec nanosec = recent.findSome? fun e =>
    if e.sec = sec ∧ e.nanosec = nanosec then some e.pose else none := holds_ofNotes.find
  rw [findInto, hfind]
  cases hr : recent.findSome? fun e =>
    if e.sec = sec ∧ e.nanosec = nanosec then some e.pose else none
  case none =>
    refine ⟨⟨nofun, ?_⟩, nofun, fun _ => rfl⟩
    rintro ⟨e, hm, he⟩
    have hn := List.findSome?_eq_none_iff.mp hr e hm
    simp [he.1, he.2] at hn
  case some pose =>
    obtain ⟨newer, e, older, hl, he, hn⟩ := List.findSome?_eq_some_iff.mp hr
    have hm : e.Matches sec nanosec ∧ e.pose = pose := by
      split_ifs at he with hm
      exact ⟨hm, Option.some.inj he⟩
    refine ⟨⟨fun _ => ⟨e, by simp [hl], hm.1⟩, fun _ => rfl⟩, fun _ => ?_, nofun⟩
    refine ⟨newer.length, e, by simp [hl], hm.1, hm.2.symm, fun j hj e' he' hm' => ?_⟩
    rw [hl, List.getElem?_append_left hj] at he'
    have hx := hn e' (List.mem_of_getElem? he')
    simp [hm'.1, hm'.2] at hx

end EgoHistory
end SafetyIsland.VpReference

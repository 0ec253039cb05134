import SafetyIsland.Reference.Real

namespace SafetyIsland

open Ieee OnReal

class Floor (α : Type) where
  floor : α → α

instance floorFloat : Floor Float where
  floor x :=
    let n := truncate x
    Float.ofInt (if x < Float.ofInt n then n - 1 else n)

noncomputable instance floorReal : Floor ℝ where
  floor x := ⌊x⌋

-- A timer that has a callback as long as it is active.
structure Timer (α : Type) where
  timerActive       : Bool
  periodMs          : ℕ
  lastExecutionTime : α

namespace Timer

section

variable {α : Type} [Scalar α] [Floor α]

structure Call (α : Type) where
  ready   : α
  current : α

def start (t : Timer α) (periodMs : ℕ) (now : α) : Timer α :=
  if t.timerActive then t
  else { timerActive := true, periodMs := periodMs, lastExecutionTime := now }

def stop (t : Timer α) : Timer α :=
  if t.timerActive then { timerActive := false, periodMs := 0, lastExecutionTime := 0.0 } else t

def isReady (t : Timer α) (currentTime : α) : Bool :=
  let elapsedMs := (currentTime - t.lastExecutionTime) * 1000.0
  t.timerActive && decide (elapsedMs ≥ (t.periodMs : α))

def advance (t : Timer α) (currentTime : α) : α :=
  let periodS := (t.periodMs : α) / 1000.0
  let last :=
    if currentTime - t.lastExecutionTime > 2.0 * periodS then
      let numPeriodsMissed := Floor.floor ((currentTime - t.lastExecutionTime) / periodS)
      t.lastExecutionTime + (numPeriodsMissed - 1.0) * periodS
    else t.lastExecutionTime
  last + periodS

-- The timer after a call, and whether the callback was called.
def execute (t : Timer α) (c : Call α) : Timer α × Bool :=
  if t.isReady c.ready then ({ t with lastExecutionTime := t.advance c.current }, true)
  else (t, false)

structure Entry (α : Type) where
  call   : Call α
  before : α
  fired  : Bool
  after  : α

def entry (t : Timer α) (c : Call α) : Entry α where
  call   := c
  before := t.lastExecutionTime
  fired  := (t.execute c).2
  after  := (t.execute c).1.lastExecutionTime

def log (t : Timer α) : List (Call α) → List (Entry α)
  | []      => []
  | c :: cs => t.entry c :: (t.execute c).1.log cs

def firings (t : Timer α) (cs : List (Call α)) : List (Entry α) :=
  (t.log cs).filter (·.fired)

end

inductive Nondecreasing : ℝ → List (Call ℝ) → Prop
  | nil  {s : ℝ} : Nondecreasing s []
  | cons {s : ℝ} {c : Call ℝ} {cs : List (Call ℝ)} :
    s ≤ c.ready → c.ready ≤ c.current → Nondecreasing c.current cs → Nondecreasing s (c :: cs)

section

local instance atLeastTwo_thousand : Nat.AtLeastTwo 1000 := ⟨by decide⟩

noncomputable def period (t : Timer ℝ) : ℝ :=
  t.periodMs / 1000

end

-- A timer that last fired on the `k`-th point of the grid from `origin`, no later than `s`.
structure OnGrid (t : Timer ℝ) (origin : ℝ) (k : ℕ) (s : ℝ) : Prop where
  active : t.timerActive = true
  last   : t.lastExecutionTime = origin + k * t.period
  le     : t.lastExecutionTime ≤ s

variable {t : Timer ℝ} {origin s : ℝ} {k : ℕ} {c : Call ℝ} {cs : List (Call ℝ)}

theorem isReady_iff (h : t.timerActive = true) (now : ℝ) :
    t.isReady now = true ↔ t.period ≤ now - t.lastExecutionTime := by
  simp only [isReady, h, Bool.true_and, decide_eq_true_eq, natCast_real, period]
  norm_num
  rw [div_le_iff₀ (by norm_num)]

theorem advance_eq (now : ℝ) :
    t.advance now =
      if now - t.lastExecutionTime > 2 * t.period then
        t.lastExecutionTime + ⌊(now - t.lastExecutionTime) / t.period⌋ * t.period
      else t.lastExecutionTime + t.period := by
  simp only [advance, natCast_real, period, Floor.floor]
  norm_num
  split_ifs <;> ring

theorem advance_spec (hp : 0 < t.period) {now : ℝ} (h : t.period ≤ now - t.lastExecutionTime) :
    ∃ n : ℕ, 0 < n ∧ t.advance now = t.lastExecutionTime + n * t.period ∧
      0 ≤ now - t.advance now ∧ now - t.advance now ≤ t.period := by
  rw [advance_eq]
  split_ifs with hm
  case pos =>
    have hf : 0 < ⌊(now - t.lastExecutionTime) / t.period⌋ :=
      Int.floor_pos.mpr $ (one_le_div hp).mpr h
    have ⟨n, hn⟩ := Int.eq_ofNat_of_zero_le hf.le
    have hl : (n : ℝ) * t.period ≤ now - t.lastExecutionTime := by
      rw [←le_div_iff₀ hp, ←Int.cast_natCast, ←hn]
      exact Int.floor_le _
    have hu : now - t.lastExecutionTime ≤ (n + 1) * t.period := by
      rw [←div_le_iff₀ hp, ←Int.cast_natCast, ←hn]
      exact (Int.lt_floor_add_one _).le
    refine ⟨n, by omega, by rw [hn]; rfl, ?_, ?_⟩ <;> rw [hn] <;> push_cast <;> linarith
  case neg =>
    refine ⟨1, Nat.zero_lt_one, by simp, ?_, ?_⟩ <;> linarith

theorem OnGrid.execute (hg : t.OnGrid origin k s) (hp : 0 < t.period) (hs : s ≤ c.ready)
    (hc : c.ready ≤ c.current) :
    ((t.execute c).2 = true ↔ t.period ≤ c.ready - t.lastExecutionTime) ∧
    ∃ n, (t.execute c).1.OnGrid origin (k + n) c.current ∧ (t.execute c).1.period = t.period ∧
      ((t.execute c).2 = true → 0 < n ∧ 0 ≤ c.current - (t.execute c).1.lastExecutionTime ∧
        c.current - (t.execute c).1.lastExecutionTime ≤ t.period) := by
  have hi := isReady_iff hg.active c.ready
  by_cases h : t.isReady c.ready = true
  case pos =>
    have hr := hi.mp h
    have ⟨n, hn, ha, h₀, h₁⟩ := advance_spec hp (show t.period ≤ c.current - _ by linarith)
    have he : t.execute c = ({ t with lastExecutionTime := t.advance c.current }, true) := if_pos h
    rw [he]
    refine ⟨⟨fun _ => hr, fun _ => rfl⟩, n, ⟨hg.active, ?_, sub_nonneg.mp h₀⟩, rfl,
      fun _ => ⟨hn, h₀, h₁⟩⟩
    rw [show t.advance c.current = _ from ha, hg.last]
    push_cast
    simp only [period]
    ring
  case neg =>
    have he : t.execute c = (t, false) := if_neg h
    rw [he]
    refine ⟨⟨by simp, fun hr => absurd (hi.mpr hr) h⟩, 0, ⟨hg.active, hg.last, ?_⟩, rfl, by simp⟩
    linarith [hg.le]

structure FiredAt (origin period : ℝ) (e : Entry ℝ) (k : ℕ) : Prop where
  after : e.after = origin + k * period
  early : 0 ≤ e.call.current - e.after
  late  : e.call.current - e.after ≤ period

theorem firings_of_fired (h : (t.execute c).2 = true) :
    t.firings (c :: cs) = t.entry c :: (t.execute c).1.firings cs :=
  List.filter_cons_of_pos h

theorem firings_of_not_fired (h : ¬(t.execute c).2 = true) :
    t.firings (c :: cs) = (t.execute c).1.firings cs :=
  List.filter_cons_of_neg h

theorem OnGrid.log_spec (hg : t.OnGrid origin k s) (hp : 0 < t.period) (hn : Nondecreasing s cs) :
    (∀ e ∈ t.log cs, e.fired = true ↔ t.period ≤ e.call.ready - e.before) ∧
    ∃ ks : List ℕ, (k :: ks).Pairwise (· < ·) ∧
      List.Forall₂ (FiredAt origin t.period) (t.firings cs) ks := by
  induction hn generalizing t k with
  | nil => exact ⟨by simp [Timer.log], [], List.pairwise_singleton _ _, .nil⟩
  | @cons s c cs hs hc _ ih =>
    have ⟨hf, n, hg', hp', hn⟩ := hg.execute hp hs hc
    have ⟨hl, ks, hk, hz⟩ := ih hg' (hp' ▸ hp)
    rw [hp'] at hl hz
    constructor
    case left =>
      intro e he
      cases he with
      | head      => exact hf
      | tail _ he => exact hl e he
    case right =>
      have ⟨hlt, hk⟩ := List.pairwise_cons.mp hk
      by_cases h : (t.execute c).2 = true
      case pos =>
        have ⟨hn, h₀, h₁⟩ := hn h
        refine ⟨(k + n) :: ks, ?_, ?_⟩
        · refine List.pairwise_cons.mpr ⟨?_, List.pairwise_cons.mpr ⟨hlt, hk⟩⟩
          intro j hj
          cases hj with
          | head      => omega
          | tail _ hj => exact (hlt j hj).trans_le' (Nat.le_add_right k n)
        · rw [firings_of_fired h]
          refine .cons ⟨?_, h₀, h₁⟩ hz
          rw [entry, hg'.last, hp']
      case neg =>
        refine ⟨ks, List.pairwise_cons.mpr ⟨fun j hj => ?_, hk⟩, ?_⟩
        · exact (hlt j hj).trans_le' (Nat.le_add_right k n)
        · rwa [firings_of_not_fired h]

theorem length_le_of_pairwise {x y : ℝ} {ks : List ℕ} (h : ks.Pairwise (· < ·))
    (hx : ∀ k ∈ ks, x ≤ k) (hy : ∀ k ∈ ks, (k : ℝ) ≤ y) : ks.length ≤ ⌊y - x⌋₊ + 1 := by
  have hlast : ∀ (k : ℕ) (ks : List ℕ), (k :: ks).Pairwise (· < ·) →
      ∃ j ∈ k :: ks, k + ks.length ≤ j := by
    intro k ks
    induction ks generalizing k with
    | nil         => exact fun _ => ⟨k, by simp⟩
    | cons l ks ih =>
      intro h
      have ⟨hk, h⟩ := List.pairwise_cons.mp h
      have ⟨j, hj, hle⟩ := ih l h
      have hl := hk l List.mem_cons_self
      refine ⟨j, List.mem_cons_of_mem k hj, ?_⟩
      rw [List.length_cons]
      omega
  cases ks with
  | nil       => exact Nat.zero_le _
  | cons k ks =>
    have ⟨j, hj, hle⟩ := hlast k ks h
    have hk := hx k List.mem_cons_self
    have hj := hy j hj
    have hc : ((k + ks.length : ℕ) : ℝ) ≤ j := Nat.cast_le.mpr hle
    push_cast at hc
    apply Nat.succ_le_succ
    apply Nat.le_floor
    linarith

theorem forall₂_filter {α β : Type} {r : α → β → Prop} {p : α → Bool} {as : List α} {bs : List β}
    (h : List.Forall₂ r as bs) :
    ∃ bs' : List β, bs'.Sublist bs ∧ (as.filter p).length = bs'.length ∧
      ∀ b ∈ bs', ∃ a, p a = true ∧ r a b := by
  induction h with
  | nil => exact ⟨[], .slnil, rfl, by simp⟩
  | @cons a b as bs hab _ ih =>
    have ⟨bs', hs, hl, hf⟩ := ih
    by_cases hp : p a = true
    case pos =>
      refine ⟨b :: bs', hs.cons_cons b, ?_, ?_⟩
      · rw [List.filter_cons_of_pos hp, List.length_cons, List.length_cons, hl]
      · intro b' hb
        cases hb with
        | head      => exact ⟨a, hp, hab⟩
        | tail _ hb => exact hf b' hb
    case neg =>
      refine ⟨bs', hs.cons b, ?_, hf⟩
      rw [List.filter_cons_of_neg hp, hl]

open Classical in
noncomputable def Entry.inWindow (a b : ℝ) (e : Entry ℝ) : Bool :=
  a ≤ e.call.current ∧ e.call.current ≤ b

noncomputable def firingsIn (t : Timer ℝ) (cs : List (Call ℝ)) (a b : ℝ) : List (Entry ℝ) :=
  (t.firings cs).filter (Entry.inWindow a b)

theorem length_firingsIn_le {ks : List ℕ} {p : ℝ} (hp : 0 < p) (hk : ks.Pairwise (· < ·))
    (hz : List.Forall₂ (FiredAt origin p) (t.firings cs) ks) (a w : ℝ) (hw : 0 ≤ w) :
    (t.firingsIn cs a (a + w)).length ≤ ⌊w / p⌋₊ + 2 := by
  have ⟨ks', hs, hl, hf⟩ := forall₂_filter (p := Entry.inWindow a (a + w)) hz
  rw [firingsIn, hl]
  have hb : ∀ k ∈ ks', (a - origin) / p - 1 ≤ k ∧ (k : ℝ) ≤ (a + w - origin) / p := by
    intro k hk
    have ⟨e, he, h⟩ := hf k hk
    have ⟨h₁, h₂⟩ := of_decide_eq_true he
    have hl := h.late
    have he := h.early
    rw [h.after] at hl he
    constructor
    case left =>
      rw [sub_le_iff_le_add, div_le_iff₀ hp]
      linarith
    case right =>
      rw [le_div_iff₀ hp]
      linarith
  have hc := length_le_of_pairwise (hk.sublist hs) (fun k hk => (hb k hk).1) (fun k hk => (hb k hk).2)
  have hd : (a + w - origin) / p - ((a - origin) / p - 1) = w / p + 1 := by
    field_simp
    ring
  rwa [hd, Nat.floor_add_one (div_nonneg hw hp.le)] at hc

def idle : Timer ℝ where
  timerActive       := false
  periodMs          := 0
  lastExecutionTime := 0

-- In exact arithmetic a started timer fires exactly when a period has passed, never leaves its
-- grid, skips what it has missed, and so cannot fire in a burst.
theorem cadence {periodMs : ℕ} (hp : 0 < periodMs) (hn : Nondecreasing origin cs) :
    (∀ e ∈ (idle.start periodMs origin).log cs,
      e.fired = true ↔ (periodMs : ℝ) / 1000 ≤ e.call.ready - e.before) ∧
    (∃ ks : List ℕ, (0 :: ks).Pairwise (· < ·) ∧
      List.Forall₂ (FiredAt origin (periodMs / 1000)) ((idle.start periodMs origin).firings cs) ks) ∧
    ∀ a w : ℝ, 0 ≤ w → ((idle.start periodMs origin).firingsIn cs a (a + w)).length ≤
      ⌊w / (periodMs / 1000 : ℝ)⌋₊ + 2 := by
  have hg : (idle.start periodMs origin).OnGrid origin 0 origin :=
    ⟨rfl, by simp [idle, start], le_rfl⟩
  have hp : 0 < (periodMs : ℝ) / 1000 := by positivity
  have ⟨hl, ks, hk, hz⟩ := hg.log_spec hp hn
  exact ⟨hl, ⟨ks, hk, hz⟩, length_firingsIn_le hp (List.pairwise_cons.mp hk).2 hz⟩

-- A call before the first period, a late one, two right after it, and one after several periods.
noncomputable def lateCalls : List (Call ℝ) :=
  [⟨0.1, 0.1⟩, ⟨0.5, 0.52⟩, ⟨0.53, 0.53⟩, ⟨0.54, 0.54⟩, ⟨1.4, 1.45⟩]

theorem cadence_late :
    (∀ e ∈ (idle.start 150 0).log lateCalls,
      e.fired = true ↔ ((150 : ℕ) : ℝ) / 1000 ≤ e.call.ready - e.before) ∧
    (∃ ks : List ℕ, (0 :: ks).Pairwise (· < ·) ∧ List.Forall₂ (FiredAt 0 ((150 : ℕ) / 1000))
      ((idle.start 150 0).firings lateCalls) ks) ∧
    ∀ a w : ℝ, 0 ≤ w → ((idle.start 150 0).firingsIn lateCalls a (a + w)).length ≤
      ⌊w / ((150 : ℕ) / 1000 : ℝ)⌋₊ + 2 := by
  refine cadence (by decide)
    (.cons ?_ ?_ (.cons ?_ ?_ (.cons ?_ ?_ (.cons ?_ ?_ (.cons ?_ ?_ .nil)))))
  all_goals norm_num

namespace Sample

-- A timer of 150 ms that was started at a time of today, and the time after it was first called.
def doubleTimer : Timer Float where
  timerActive       := true
  periodMs          := 150
  lastExecutionTime := 1700000000.0

def doubleTime : Float :=
  (doubleTimer.execute ⟨1700000000.2, 1700000000.2⟩).1.lastExecutionTime

end Sample

-- In doubles the sum is rounded, so that the first firing already leaves the grid.
theorem double_leaves_grid :
    (Sample.doubleTimer.execute ⟨1700000000.2, 1700000000.2⟩).2 = true ∧
    ∀ k : ℤ, rat Sample.doubleTime ≠ rat Sample.doubleTimer.lastExecutionTime + k * (150 / 1000) ∧
      rat Sample.doubleTime ≠
        rat Sample.doubleTimer.lastExecutionTime + k * rat (0.15 : Float) := by
  have h₁ : rat Sample.doubleTime = 3565158400314573 / 2097152 := by decide +kernel
  have h₀ : rat Sample.doubleTimer.lastExecutionTime = 1700000000 := by decide +kernel
  have hp : rat (0.15 : Float) = 5404319552844595 / 36028797018963968 := by decide +kernel
  refine ⟨by decide +kernel, fun k => ⟨?_, ?_⟩⟩ <;> intro h
  · rw [h₁, h₀] at h
    have hk : (k : ℚ) * 6291456 = 6291460 := by linarith
    have hk : k * 6291456 = 6291460 := by exact_mod_cast hk
    omega
  · rw [h₁, h₀, hp] at h
    have hk : (k : ℚ) * 5404319552844595 = 5404322988818432 := by linarith
    have hk : k * 5404319552844595 = 5404322988818432 := by exact_mod_cast hk
    omega

end Timer
end SafetyIsland

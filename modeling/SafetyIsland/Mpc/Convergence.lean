import SafetyIsland.Ieee.Infinite
import SafetyIsland.Messages

namespace SafetyIsland.Mpc

open Ieee

abbrev Solved := LateralMsg × WallTime

def expired (time : WallTime) (e : Solved) : Bool :=
  decide (time.seconds - e.2.seconds ≥ 1.0)

-- The loop erases the first entry and then steps on, so that it skips every other one. The index
-- `i` stands for the iterator, and the fuel bounds the number of rounds.
def removeOld (time : WallTime) : ℕ → ℕ → List Solved → List Solved
  | 0,        _, history => history
  | fuel + 1, i, history =>
    match history[i]? with
    | none   => history
    | some e => if expired time e then removeOld time fuel (i + 1) history.tail else history

structure SteeringHistory where
  mpcSteeringHistory : List Solved
  isMpcHistoryFilled : Bool

namespace SteeringHistory

def setSteeringToHistory (h : SteeringHistory) (steering : LateralMsg) (time : WallTime) :
    SteeringHistory :=
  match h.mpcSteeringHistory with
  | []          => { mpcSteeringHistory := [(steering, time)], isMpcHistoryFilled := false }
  | first :: es =>
    let history := first :: es ++ [(steering, time)]
    if expired time first then
      { mpcSteeringHistory := removeOld time history.length 0 history, isMpcHistoryFilled := true }
    else { mpcSteeringHistory := history, isMpcHistoryFilled := false }

end SteeringHistory

def angle (e : Solved) : Float :=
  widen e.1.steeringTireAngle

def bounds (lo hi : Float) : List Solved → Float × Float
  | []      => (lo, hi)
  | e :: es => bounds (if angle e < lo then angle e else lo) (if angle e > hi then angle e else hi) es

def spread : List Solved → Float
  | []      => 0.0
  | e :: es =>
    let (lo, hi) := bounds (angle e) (angle e) es
    hi - lo

def SteeringHistory.isMpcConverged (h : SteeringHistory) (mpcConvergedThresholdRps : Float) : Bool :=
  if h.mpcSteeringHistory.length < 2 then false
  else if !h.isMpcHistoryFilled then false
  else decide (spread h.mpcSteeringHistory < mpcConvergedThresholdRps)

section

variable {time t₁ t₂ : WallTime} {e e₁ e₂ : Solved} {v : List Solved} {i j k fuel : ℕ}

theorem expired_mono (h : expired t₁ e₁ = true) (ht : t₁ ≤ t₂) (he : e₂.2 ≤ e₁.2) :
    expired t₂ e₂ = true := by
  have h := of_decide_eq_true h
  have h₁ := fsub_le_fsub_right ht t₁.finite t₂.finite e₁.2.finite
  have h₂ := fsub_le_fsub_left he e₂.2.finite e₁.2.finite t₂.finite
  exact decide_eq_true (fle_trans (fle_trans h h₁) h₂)

theorem not_expired_self (e : Solved) : expired e.2 e = false := by
  refine decide_eq_false fun h => ?_
  have hv := val_sub_self e.2.finite
  have h₁ := (le_iff.mp h).2.2
  have h₀ := (lt_iff.mp (by decide +kernel : (0 : Float) < 1.0)).2.2
  rw [val_zero] at h₀
  rw [hv] at h₁
  exact h₀.not_ge h₁

-- In a list whose first `k` entries are the expired ones the loop erases every other of these.
theorem removeOld_eq (hv : ∀ i (h : i < v.length), expired time v[i] = true ↔ i < k)
    (hk : k < v.length) (hj : 2 * j ≤ k + 1) (hf : k < 2 * (j + fuel)) :
    removeOld time fuel j (v.drop j) = v.drop ((k + 1) / 2) := by
  induction fuel generalizing j
  case zero =>
    have : j = (k + 1) / 2 := by omega
    rw [removeOld, this]
  case succ fuel ih =>
    rw [removeOld, List.getElem?_drop]
    rcases lt_or_ge (2 * j) k with hjk | hjk
    · rw [List.getElem?_eq_getElem (by omega)]
      have : expired time v[j + j] = true := (hv _ _).mpr (by omega)
      simp only [this, if_true, List.tail_drop]
      exact ih (by omega) (by omega)
    · have hjk' : j = (k + 1) / 2 := by omega
      rw [← hjk']
      rcases lt_or_ge (j + j) v.length with h | h
      · rw [List.getElem?_eq_getElem h]
        have : ¬expired time v[j + j] = true := fun hx => by
          have := (hv _ h).mp hx
          omega
        simp [this]
      · rw [List.getElem?_eq_none h]

theorem expired_iff_lt_countP (hv : v.Pairwise (·.2 ≤ ·.2)) (time : WallTime) (i : ℕ)
    (h : i < v.length) :
    expired time v[i] = true ↔ i < v.countP (expired time) := by
  induction v generalizing i
  case nil => simp at h
  case cons e es ih =>
    have hp := List.pairwise_cons.mp hv
    rw [List.countP_cons]
    cases he : expired time e
    case true =>
      cases i
      case zero   => simp [he]
      case succ i => simpa using ih hp.2 i (by simpa using h)
    case false =>
      have hn : es.countP (expired time) = 0 := by
        refine List.countP_eq_zero.mpr fun e' he' hx => ?_
        have := expired_mono hx time.le_refl (hp.1 e' he')
        simp [he] at this
      rw [hn]
      cases i
      case zero   => simp [he]
      case succ i =>
        have hi : i < es.length := by simpa using h
        have := List.countP_eq_zero.mp hn _ (List.getElem_mem hi)
        simpa using this

def stored (cs : List Solved) : SteeringHistory :=
  cs.foldl (fun h c => h.setSteeringToHistory c.1 c.2) ⟨[], false⟩

variable {cs : List Solved} {c : Solved} {h : SteeringHistory}

theorem stored_snoc (cs : List Solved) (c : Solved) :
    stored (cs ++ [c]) = (stored cs).setSteeringToHistory c.1 c.2 := by
  simp [stored]

theorem setSteeringToHistory_eq (hs : (h.mpcSteeringHistory ++ [c]).Pairwise (·.2 ≤ ·.2))
    (hk : h.mpcSteeringHistory.countP (expired c.2) = k) :
    h.setSteeringToHistory c.1 c.2 =
      { mpcSteeringHistory := (h.mpcSteeringHistory ++ [c]).drop ((k + 1) / 2)
        isMpcHistoryFilled := decide (0 < k) } := by
  have hv := expired_iff_lt_countP hs c.2
  have hc : (h.mpcSteeringHistory ++ [c]).countP (expired c.2) = k := by
    simp [List.countP_append, not_expired_self, hk]
  rw [hc] at hv
  have hlt : k < (h.mpcSteeringHistory ++ [c]).length := by
    have := List.countP_le_length (p := expired c.2) (l := h.mpcSteeringHistory)
    rw [List.length_append, List.length_singleton]
    omega
  have hr : removeOld c.2 (h.mpcSteeringHistory ++ [c]).length 0
      ((h.mpcSteeringHistory ++ [c]).drop 0) = (h.mpcSteeringHistory ++ [c]).drop ((k + 1) / 2) :=
    removeOld_eq hv hlt (by omega) (by omega)
  rw [SteeringHistory.setSteeringToHistory]
  rcases he : h.mpcSteeringHistory with - | ⟨first, es⟩
  · rw [he] at hk
    subst hk
    simp
  · rw [he] at hv hr
    have h₀ : expired c.2 first = true ↔ 0 < k := hv 0 (by simp)
    dsimp only
    split_ifs with hx
    case pos => simpa [h₀.mp hx] using hr
    case neg =>
      have : k = 0 := Nat.eq_zero_of_not_pos fun h => hx (h₀.mpr h)
      simp [this]

-- Every history holds the latest calls, and those that it no longer holds are expired.
def Keeps (cs : List Solved) (h : SteeringHistory) : Prop :=
  ∃ d, cs = d ++ h.mpcSteeringHistory ∧
    ∀ e ∈ d, ∀ time, (∀ c ∈ cs, c.2 ≤ time) → expired time e = true

theorem Keeps.sorted (hk : Keeps cs h) (hs : (cs ++ [c]).Pairwise (·.2 ≤ ·.2)) :
    (h.mpcSteeringHistory ++ [c]).Pairwise (·.2 ≤ ·.2) := by
  obtain ⟨d, hd, -⟩ := hk
  rw [hd, List.append_assoc] at hs
  exact (List.pairwise_append.mp hs).2.1

theorem Keeps.setSteeringToHistory (hk : Keeps cs h) (hs : (cs ++ [c]).Pairwise (·.2 ≤ ·.2)) :
    Keeps (cs ++ [c]) (h.setSteeringToHistory c.1 c.2) := by
  have hsort := hk.sorted hs
  have hv := expired_iff_lt_countP hsort c.2
  obtain ⟨d, hd, he⟩ := hk
  rw [setSteeringToHistory_eq hsort rfl]
  set m := (h.mpcSteeringHistory.countP (expired c.2) + 1) / 2
  refine ⟨d ++ (h.mpcSteeringHistory ++ [c]).take m, ?_, fun e hmem time ht => ?_⟩
  · rw [List.append_assoc, List.take_append_drop, ← List.append_assoc, ← hd]
  · rcases List.mem_append.mp hmem with hmem | hmem
    · exact he e hmem time fun c' hc' => ht c' (List.mem_append_left _ hc')
    · obtain ⟨i, hi, rfl⟩ := List.mem_iff_getElem.mp hmem
      rw [List.length_take] at hi
      rw [List.getElem_take]
      have hx : expired c.2 (h.mpcSteeringHistory ++ [c])[i] = true := by
        rw [hv, List.countP_append]
        omega
      exact expired_mono hx (ht c (by simp)) (WallTime.le_refl _)

theorem stored_keeps (hs : cs.Pairwise (·.2 ≤ ·.2)) : Keeps cs (stored cs) := by
  induction cs using List.reverseRecOn
  case nil => exact ⟨[], rfl, by simp⟩
  case append_singleton cs c ih =>
    rw [stored_snoc]
    exact (ih (List.pairwise_append.mp hs).1).setSteeringToHistory hs

def lastSecond (cs : List Solved) (time : WallTime) : List Solved :=
  cs.filter fun e => !expired time e

theorem ite_lt_spec {x lo : Float} (hx : IsFinite x) (hlo : IsFinite lo) :
    ((if x < lo then x else lo) = lo ∨ (if x < lo then x else lo) = x) ∧
    (if x < lo then x else lo) ≤ lo ∧ (if x < lo then x else lo) ≤ x := by
  split_ifs with h
  · exact ⟨.inr rfl, flt_le h, fle_refl hx⟩
  · exact ⟨.inl rfl, fle_refl hlo, le_of_not_lt hx.isNumber hlo.isNumber h⟩

theorem ite_gt_spec {x hi : Float} (hx : IsFinite x) (hhi : IsFinite hi) :
    ((if x > hi then x else hi) = hi ∨ (if x > hi then x else hi) = x) ∧
    hi ≤ (if x > hi then x else hi) ∧ x ≤ (if x > hi then x else hi) := by
  split_ifs with h
  · exact ⟨.inr rfl, flt_le h, fle_refl hx⟩
  · exact ⟨.inl rfl, fle_refl hhi, le_of_not_lt hhi.isNumber hx.isNumber h⟩

-- The least and the greatest angle are angles of the entries, with all the others in between.
structure Bounds (lo hi : Float) (v : List Solved) (b : Float × Float) : Prop where
  least    : b.1 = lo ∨ ∃ e ∈ v, angle e = b.1
  greatest : b.2 = hi ∨ ∃ e ∈ v, angle e = b.2
  le       : b.1 ≤ lo ∧ ∀ e ∈ v, b.1 ≤ angle e
  ge       : hi ≤ b.2 ∧ ∀ e ∈ v, angle e ≤ b.2

theorem bounds_spec {lo hi : Float} (hlo : IsFinite lo) (hhi : IsFinite hi)
    (hv : ∀ e ∈ v, IsFinite (angle e)) : Bounds lo hi v (bounds lo hi v) := by
  induction v generalizing lo hi
  case nil => constructor <;> simp [bounds, fle_refl, hlo, hhi]
  case cons e es ih =>
    have he : IsFinite (angle e) := hv e (by simp)
    obtain ⟨hl, hl₁, hl₂⟩ := ite_lt_spec he hlo
    obtain ⟨hg, hg₁, hg₂⟩ := ite_gt_spec he hhi
    rw [bounds]
    set lo' := if angle e < lo then angle e else lo
    set hi' := if angle e > hi then angle e else hi
    have hlo' : IsFinite lo' := by rcases hl with h | h <;> rwa [h]
    have hhi' : IsFinite hi' := by rcases hg with h | h <;> rwa [h]
    have hb := ih hlo' hhi' fun e' h => hv e' (by simp [h])
    constructor
    case least =>
      rcases hb.least with h | ⟨e', hmem, h⟩
      · exact hl.imp h.trans fun hl => ⟨e, by simp, (h.trans hl).symm⟩
      · exact .inr ⟨e', by simp [hmem], h⟩
    case greatest =>
      rcases hb.greatest with h | ⟨e', hmem, h⟩
      · exact hg.imp h.trans fun hg => ⟨e, by simp, (h.trans hg).symm⟩
      · exact .inr ⟨e', by simp [hmem], h⟩
    case le =>
      refine ⟨fle_trans hb.le.1 hl₁, fun e' h => ?_⟩
      rcases List.mem_cons.mp h with rfl | h
      · exact fle_trans hb.le.1 hl₂
      · exact hb.le.2 e' h
    case ge =>
      refine ⟨fle_trans hg₁ hb.ge.1, fun e' h => ?_⟩
      rcases List.mem_cons.mp h with rfl | h
      · exact fle_trans hg₂ hb.ge.1
      · exact hb.ge.2 e' h

theorem spread_lt_iff (hne : v ≠ []) (hv : ∀ e ∈ v, IsFinite (angle e)) (threshold : Float) :
    spread v < threshold ↔ ∀ a ∈ v, ∀ b ∈ v, angle a - angle b < threshold := by
  obtain ⟨e, es, rfl⟩ := List.exists_cons_of_ne_nil hne
  have he : IsFinite (angle e) := hv e (by simp)
  have hes : ∀ e ∈ es, IsFinite (angle e) := fun e' h => hv e' (List.mem_cons_of_mem e h)
  have hb := bounds_spec he he hes
  have hle : ∀ a ∈ e :: es, (bounds (angle e) (angle e) es).1 ≤ angle a := by
    simpa using hb.le
  have hge : ∀ a ∈ e :: es, angle a ≤ (bounds (angle e) (angle e) es).2 := by
    simpa using hb.ge
  obtain ⟨l, hl, hl'⟩ : ∃ a ∈ e :: es, angle a = (bounds (angle e) (angle e) es).1 := by
    simpa [eq_comm] using hb.least
  obtain ⟨g, hg, hg'⟩ : ∃ a ∈ e :: es, angle a = (bounds (angle e) (angle e) es).2 := by
    simpa [eq_comm] using hb.greatest
  rw [spread]
  simp only [← hl', ← hg'] at hle hge ⊢
  constructor
  case mp =>
    intro h a ha b hb
    have h₁ := fsub_le_fsub_right (hge a ha) (hv a ha) (hv g hg) (hv b hb)
    have h₂ := fsub_le_fsub_left (hle b hb) (hv l hl) (hv b hb) (hv g hg)
    exact flt_of_le_of_lt (fle_trans h₁ h₂) h
  case mpr => exact fun h => h g hg l hl

-- The history after a call at `time`, the last of the calls `cs`, is the window of the last second.
structure Windowed (cs : List Solved) (time : WallTime) (threshold : Float) (h : SteeringHistory) :
    Prop where
  young     : ∀ e ∈ h.mpcSteeringHistory, expired time e = false
  retained  : lastSecond cs time <:+ h.mpcSteeringHistory
  converged : h.isMpcConverged threshold = true ↔
    2 ≤ (lastSecond cs time).length ∧ spread (lastSecond cs time) < threshold
  differ    : (∀ e ∈ lastSecond cs time, IsFinite (angle e)) →
    (h.isMpcConverged threshold = true ↔ 2 ≤ (lastSecond cs time).length ∧
      ∀ a ∈ lastSecond cs time, ∀ b ∈ lastSecond cs time, angle a - angle b < threshold)

theorem Keeps.lastSecond_eq (hk : Keeps cs h) (ht : ∀ c ∈ cs, c.2 ≤ time)
    (hy : ∀ e ∈ h.mpcSteeringHistory, expired time e = false) :
    lastSecond cs time = h.mpcSteeringHistory := by
  obtain ⟨d, hd, he⟩ := hk
  have hd' : d.filter (fun e => !expired time e) = [] := by
    simpa using fun e hmem => he e hmem time ht
  have hh : h.mpcSteeringHistory.filter (fun e => !expired time e) = h.mpcSteeringHistory := by
    simpa using hy
  conv_lhs => rw [lastSecond, hd, List.filter_append, hd', hh, List.nil_append]

theorem Keeps.isMpcConverged_iff (hk : Keeps cs h) (ht : ∀ c ∈ cs, c.2 ≤ time)
    (hy : ∀ e ∈ h.mpcSteeringHistory, expired time e = false)
    (hf : h.isMpcHistoryFilled = true) (threshold : Float) :
    h.isMpcConverged threshold = true ↔
      2 ≤ (lastSecond cs time).length ∧ spread (lastSecond cs time) < threshold := by
  rw [hk.lastSecond_eq ht hy, SteeringHistory.isMpcConverged, hf]
  rcases lt_or_ge h.mpcSteeringHistory.length 2 with hl | hl
  · simp [hl]
  · simp [hl, hl.not_gt]

theorem Keeps.windowed (hk : Keeps cs h) (ht : ∀ c ∈ cs, c.2 ≤ time)
    (hy : ∀ e ∈ h.mpcSteeringHistory, expired time e = false)
    (hf : h.isMpcHistoryFilled = true) (threshold : Float) : Windowed cs time threshold h where
  young     := hy
  retained  := hk.lastSecond_eq ht hy ▸ List.suffix_rfl
  converged := hk.isMpcConverged_iff ht hy hf threshold
  differ hv := by
    rw [hk.isMpcConverged_iff ht hy hf]
    refine and_congr_right fun hl => spread_lt_iff ?_ hv threshold
    exact List.ne_nil_of_length_pos (by omega)

theorem young_iff (hs : (h.mpcSteeringHistory ++ [c]).Pairwise (·.2 ≤ ·.2)) :
    (∀ e ∈ (h.setSteeringToHistory c.1 c.2).mpcSteeringHistory, expired c.2 e = false) ↔
      h.mpcSteeringHistory.countP (expired c.2) ≤ 1 := by
  have hv := expired_iff_lt_countP hs c.2
  have hc : (h.mpcSteeringHistory ++ [c]).countP (expired c.2) =
      h.mpcSteeringHistory.countP (expired c.2) := by
    simp [List.countP_append, not_expired_self]
  have hl := List.countP_le_length (p := expired c.2) (l := h.mpcSteeringHistory)
  rw [setSteeringToHistory_eq hs rfl]
  rw [hc] at hv
  set k := h.mpcSteeringHistory.countP (expired c.2)
  constructor
  case mp =>
    intro hy
    by_contra hk
    have hlt : (k + 1) / 2 < (h.mpcSteeringHistory ++ [c]).length := by
      rw [List.length_append]; omega
    have hx := (hv _ hlt).mpr (by omega)
    rw [List.drop_eq_getElem_cons hlt] at hy
    have := hy _ List.mem_cons_self
    simp [hx] at this
  case mpr =>
    intro hk e he
    obtain ⟨i, hi, rfl⟩ := List.mem_iff_getElem.mp he
    rw [List.getElem_drop, Bool.eq_false_iff, ne_eq, hv]
    omega

-- In every run a call that reports the history filled leaves it right if and only if no more than
-- one of its entries had expired.
theorem windowed_iff (hs : (cs ++ [c]).Pairwise (·.2 ≤ ·.2)) (threshold : Float) :
    ((stored (cs ++ [c])).isMpcHistoryFilled = true →
      Windowed (cs ++ [c]) c.2 threshold (stored (cs ++ [c]))) ↔
    (stored cs).mpcSteeringHistory.countP (expired c.2) ≤ 1 := by
  have hp := List.pairwise_append.mp hs
  have hk := stored_keeps hp.1
  have ht : ∀ e ∈ cs ++ [c], e.2 ≤ c.2 := by
    intro e he
    rcases List.mem_append.mp he with he | he
    · exact hp.2.2 e he c (by simp)
    · rw [List.mem_singleton.mp he]
      exact c.2.le_refl
  rw [stored_snoc, ← young_iff (hk.sorted hs)]
  constructor
  case mp =>
    intro hw
    rcases Nat.eq_zero_or_pos ((stored cs).mpcSteeringHistory.countP (expired c.2)) with h | h
    · exact (young_iff (hk.sorted hs)).mpr (by omega)
    · refine (hw ?_).young
      rw [setSteeringToHistory_eq (hk.sorted hs) rfl]
      exact decide_eq_true h
  case mpr => exact fun hy hf => (hk.setSteeringToHistory hs).windowed ht hy hf threshold

end

namespace Sample

-- The same command at 0.0 s, 0.1 s and 2.0 s.
def first : Solved := (default, ⟨0.0, by decide +kernel, by decide +kernel⟩)
def second : Solved := (default, ⟨0.1, by decide +kernel, by decide +kernel⟩)
def late : Solved := (default, ⟨2.0, by decide +kernel, by decide +kernel⟩)

end Sample

theorem windowed_iff_late :
    ((stored ([Sample.first] ++ [Sample.late])).isMpcHistoryFilled = true →
      Windowed ([Sample.first] ++ [Sample.late]) Sample.late.2 0.01
        (stored ([Sample.first] ++ [Sample.late]))) ↔
    (stored [Sample.first]).mpcSteeringHistory.countP (expired Sample.late.2) ≤ 1 :=
  windowed_iff (by decide +kernel) 0.01

-- The call at 2.0 s leaves the entry of 0.1 s, and with it the commands count as converged although
-- there is only one of the last second.
theorem stale_entry_converges :
    [Sample.first, Sample.second, Sample.late].Pairwise (·.2 ≤ ·.2) ∧
    (stored [Sample.first, Sample.second, Sample.late]).isMpcHistoryFilled = true ∧
    (stored [Sample.first, Sample.second, Sample.late]).mpcSteeringHistory.map (·.2.seconds) =
      [0.1, 2.0] ∧
    (stored [Sample.first, Sample.second, Sample.late]).isMpcConverged 0.01 = true ∧
    lastSecond [Sample.first, Sample.second, Sample.late] Sample.late.2 = [Sample.late] := by
  have h₁ : expired Sample.late.2 Sample.first = true := by decide +kernel
  have h₂ : expired Sample.late.2 Sample.second = true := by decide +kernel
  have h₃ : expired Sample.late.2 Sample.late = false := by decide +kernel
  refine ⟨by decide +kernel, by decide +kernel, by decide +kernel, by decide +kernel, ?_⟩
  simp [lastSecond, h₁, h₂, h₃]

end SafetyIsland.Mpc

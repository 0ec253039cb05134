import SafetyIsland.Ring.Recent
import SafetyIsland.Supervision.Identity

namespace SafetyIsland.VpCandidateIdentity

-- What a message of VisionPilot is identified by.
structure Offer where
  session : UInt32
  cycle   : UInt64
  stamp   : SourceStamp
deriving DecidableEq

def offered (i : VpCandidateIdentity) (o : Offer) : CandidateCheck :=
  i.check o.session o.cycle o.stamp

def noted (i : VpCandidateIdentity) (o : Offer) : VpCandidateIdentity :=
  i.note o.session o.cycle o.stamp

-- The offers that are accepted, each of which is noted.
def accepted (i : VpCandidateIdentity) : List Offer → List Offer
  | []      => []
  | o :: os => if i.offered o = .accept then o :: (i.noted o).accepted os else i.accepted os

def after (l : List Offer) : VpCandidateIdentity :=
  l.foldl noted .init

-- Every offer of the list is accepted after the ones before it.
inductive Accepts : List Offer → Prop
  | nil  : Accepts []
  | snoc {l : List Offer} {o : Offer} :
    Accepts l → (after l).offered o = .accept → Accepts (l ++ [o])

-- The sessions that another session supersedes within the list, the oldest first.
def superseded : List Offer → List UInt32
  | a :: b :: l => (if a.session ≠ b.session then [a.session] else []) ++ superseded (b :: l)
  | _           => []

theorem superseded_append (l : List Offer) (a : Offer) (l' : List Offer) :
    superseded (l ++ a :: l') = superseded (l ++ [a]) ++ superseded (a :: l') := by
  induction l
  case nil => simp [superseded]
  case cons b l ih => cases l <;> simp_all [superseded]

theorem after_append (l : List Offer) (o : Offer) : after (l ++ [o]) = (after l).noted o := by
  simp [after]

-- The state after the accepted offers `l`: the last one is current, and the ring holds the sessions
-- superseded last.
structure Tracks (l : List Offer) (i : VpCandidateIdentity) : Prop where
  seen    : i.seen = l.getLast?.isSome
  current : ∀ o ∈ l.getLast?, i.session = o.session ∧ i.cycle = o.cycle ∧ i.stamp = o.stamp
  retired : Ring.Recalls i.retiredSessions i.retiredCount i.retiredNext (superseded l).reverse

theorem Tracks.init : Tracks [] init where
  seen    := rfl
  current := nofun
  retired := .empty (by decide)

theorem superseded_snoc (l : List Offer) (a o : Offer) :
    superseded (l ++ [a, o]) =
      superseded (l ++ [a]) ++ if a.session ≠ o.session then [a.session] else [] := by
  rw [superseded_append l a [o]]
  simp [superseded]

theorem Tracks.note {l : List Offer} {i : VpCandidateIdentity} (h : Tracks l i) (o : Offer) :
    Tracks (l ++ [o]) (i.noted o) where
  seen        := by simp [noted, VpCandidateIdentity.note]
  current p hp := by
    rw [List.getLast?_concat] at hp
    cases hp
    exact ⟨rfl, rfl, rfl⟩
  retired     := by
    rcases List.eq_nil_or_concat l with rfl | ⟨l, a, rfl⟩
    case inl =>
      have hs : i.seen = false := h.seen
      simpa [noted, VpCandidateIdentity.note, hs, superseded] using h.retired
    case inr =>
      rw [List.concat_eq_append] at h ⊢
      have hs : i.seen = true := by rw [h.seen]; simp
      have ha : i.session = a.session := (h.current a (by simp)).1
      rw [List.append_assoc, List.singleton_append, superseded_snoc]
      by_cases hc : a.session = o.session
      case pos => simpa [noted, VpCandidateIdentity.note, hs, ha, hc] using h.retired
      case neg =>
        have hp := h.retired.push (x := a.session)
        simpa [noted, VpCandidateIdentity.note, hs, ha, Ne.symm hc, hc, Fin.val_add] using hp

theorem tracks (l : List Offer) : Tracks l (after l) := by
  induction l using List.reverseRecOn
  case nil => exact .init
  case append_singleton l o ih =>
    rw [after_append]
    exact ih.note o

theorem Tracks.retired_iff {l : List Offer} {i : VpCandidateIdentity} (h : Tracks l i)
    {session : UInt32} :
    i.retired session = true ↔ session ∈ (superseded l).reverse.take 16 := by
  rw [VpCandidateIdentity.retired, List.contains_iff_mem]
  exact h.retired.mem_iff

theorem offered_accept {i : VpCandidateIdentity} {o : Offer} (hs : i.seen = true)
    (h : i.offered o = .accept) :
    o.stamp.later i.stamp = true ∧ i.retired o.session = false ∧
      (o.session = i.session → i.cycle < o.cycle) := by
  refine ⟨later_of_accept hs h, ?_, ?_⟩
  case refine_1 =>
    unfold offered check at h
    split_ifs at h <;> simp_all
  case refine_2 =>
    intro hc
    unfold offered check at h
    split_ifs at h <;> simp_all

theorem Accepts.accepted {l : List Offer} (h : Accepts l) (os : List Offer) :
    Accepts (l ++ (after l).accepted os) := by
  induction os generalizing l
  case nil => simpa [VpCandidateIdentity.accepted] using h
  case cons o os ih =>
    unfold VpCandidateIdentity.accepted
    split
    case isTrue ho =>
      rw [← after_append, List.append_cons]
      exact ih (h.snoc ho)
    case isFalse => exact ih h

theorem Accepts.offered {l₁ l₂ : List Offer} {o : Offer} (h : Accepts (l₁ ++ o :: l₂)) :
    (after l₁).offered o = .accept := by
  induction l₂ using List.reverseRecOn
  case nil =>
    generalize hl : l₁ ++ [o] = l at h
    cases h
    case nil => simp at hl
    case snoc ho =>
      have ⟨hl, ho'⟩ := List.append_inj' hl rfl
      cases hl
      cases ho'
      exact ho
  case append_singleton l₂ p ih =>
    rw [← List.cons_append, ← List.append_assoc] at h
    generalize hl : l₁ ++ o :: l₂ ++ [p] = l at h
    cases h
    case nil => simp at hl
    case snoc h _ =>
      have ⟨hl, _⟩ := List.append_inj' hl rfl
      exact ih (hl ▸ h)

-- The earlier stamp in the lexicographic order.
def Before (a b : Offer) : Prop :=
  a.stamp.sec < b.stamp.sec ∨ a.stamp.sec = b.stamp.sec ∧ a.stamp.nanosec < b.stamp.nanosec

theorem before_of_later {a b : Offer} (h : b.stamp.later a.stamp = true) : Before a b := by
  simp only [SourceStamp.later, Bool.or_eq_true, Bool.and_eq_true, decide_eq_true_eq,
    beq_iff_eq] at h
  exact h.imp id (.imp Eq.symm id)

theorem Before.trans {a b c : Offer} (h₁ : Before a b) (h₂ : Before b c) : Before a c := by
  rcases h₁ with h₁ | ⟨e₁, h₁⟩ <;> rcases h₂ with h₂ | ⟨e₂, h₂⟩
  case inl.inl => exact .inl (Int32.lt_trans h₁ h₂)
  case inl.inr => exact .inl (e₂ ▸ h₁)
  case inr.inl => exact .inl (e₁ ▸ h₂)
  case inr.inr => exact .inr ⟨e₁.trans e₂, UInt32.lt_trans h₁ h₂⟩

theorem Accepts.next {l₁ l₂ : List Offer} {a b : Offer} (h : Accepts (l₁ ++ a :: b :: l₂)) :
    Before a b ∧ (b.session = a.session → a.cycle < b.cycle) := by
  have ht := tracks (l₁ ++ [a])
  have hs : (after (l₁ ++ [a])).seen = true := by rw [ht.seen]; simp
  have ⟨hses, hcyc, hst⟩ := ht.current a (by simp)
  rw [List.append_cons] at h
  have ⟨hl, _, hc⟩ := offered_accept hs h.offered
  exact ⟨before_of_later (hst ▸ hl), fun he => hcyc ▸ hc (he.trans hses.symm)⟩

theorem Accepts.pairwise_before {l : List Offer} (h : Accepts l) : l.Pairwise Before := by
  have : IsTrans Offer Before := ⟨fun _ _ _ => Before.trans⟩
  rw [← List.isChain_iff_pairwise, List.isChain_iff_forall_rel_of_append_cons_cons]
  intro a b l₁ l₂ hl
  exact (hl ▸ h).next.1

theorem Accepts.pairwise_cycle {l₁ run l₂ : List Offer} {session : UInt32}
    (h : Accepts (l₁ ++ run ++ l₂)) (hs : ∀ o ∈ run, o.session = session) :
    run.Pairwise (·.cycle < ·.cycle) := by
  have : IsTrans Offer (·.cycle < ·.cycle) := ⟨fun _ _ _ => UInt64.lt_trans⟩
  rw [← List.isChain_iff_pairwise, List.isChain_iff_forall_rel_of_append_cons_cons]
  intro a b m₁ m₂ hm
  rw [hm] at h hs
  have h : Accepts (l₁ ++ m₁ ++ a :: b :: (m₂ ++ l₂)) := by simpa using h
  exact h.next.2 ((hs b (by simp)).trans (hs a (by simp)).symm)

theorem Accepts.returns {l₁ mid l₂ : List Offer} {a b c : Offer}
    (h : Accepts (l₁ ++ a :: b :: mid ++ c :: l₂)) (hb : a.session ≠ b.session)
    (hc : c.session = a.session) : 16 ≤ (superseded (b :: mid)).length := by
  by_contra hn
  have ht := tracks (l₁ ++ a :: b :: mid)
  have hs : (after (l₁ ++ a :: b :: mid)).seen = true := by
    rw [ht.seen]
    simp
  have hr := (offered_accept hs h.offered).2.1
  have hm : c.session ∈ (superseded (l₁ ++ a :: b :: mid)).reverse.take 16 := by
    have hk : (superseded (b :: mid)).reverse.length < 16 := by simpa using hn
    have ⟨m, hm⟩ := Nat.exists_eq_succ_of_ne_zero (Nat.sub_ne_zero_of_lt hk)
    rw [superseded_append, superseded, if_pos hb, hc, List.reverse_append, List.reverse_append,
      List.append_assoc, List.take_append, hm]
    simp
  simp [ht.retired_iff.mpr hm] at hr

theorem Accepts.valid {l : List Offer} (h : Accepts l) : ∀ o ∈ l, o.stamp.valid = true := by
  induction h
  case nil => nofun
  case snoc l o _ ho ih =>
    have hv : o.stamp.valid = true := by
      unfold VpCandidateIdentity.offered check at ho
      split_ifs at ho <;> simp_all
    simpa [or_imp, forall_and] using ⟨ih, hv⟩

theorem accepted_snoc (i : VpCandidateIdentity) (os : List Offer) (o : Offer) :
    i.accepted (os ++ [o]) = i.accepted os ++
      if ((i.accepted os).foldl noted i).offered o = .accept then [o] else [] := by
  induction os generalizing i
  case nil => rfl
  case cons p os ih =>
    simp only [List.cons_append, VpCandidateIdentity.accepted]
    split
    case isTrue  => rw [ih]; rfl
    case isFalse => exact ih i

-- The offers that a stream gets accepted: their stamps are valid and increase, the cycles of one
-- session increase, a superseded session stays out for 16 more changes, and the stamp of the last
-- one is never accepted again.
theorem accepted_stream (os : List Offer) :
    (∀ o ∈ init.accepted os, o.stamp.valid = true) ∧
    (init.accepted os).Pairwise Before ∧
    (∀ l₁ run l₂ session, init.accepted os = l₁ ++ run ++ l₂ → (∀ o ∈ run, o.session = session) →
      run.Pairwise (·.cycle < ·.cycle)) ∧
    (∀ l₁ a b mid c l₂, init.accepted os = l₁ ++ a :: b :: mid ++ c :: l₂ →
      a.session ≠ b.session → c.session = a.session → 16 ≤ (superseded (b :: mid)).length) ∧
    ∀ a o, (init.accepted os).getLast? = some a → o.stamp = a.stamp →
      init.accepted (os ++ [o]) = init.accepted os := by
  have h : Accepts (init.accepted os) := Accepts.nil.accepted os
  refine ⟨h.valid, h.pairwise_before, ?_, ?_, ?_⟩
  case refine_1 => exact fun _ _ _ _ hl hs => (hl ▸ h).pairwise_cycle hs
  case refine_2 => exact fun _ _ _ _ _ _ hl hb hc => (hl ▸ h).returns hb hc
  case refine_3 =>
    intro a o ha ho
    have ht := tracks (init.accepted os)
    have hs : (after (init.accepted os)).seen = true := by rw [ht.seen, ha]; rfl
    have hn : (after (init.accepted os)).offered o ≠ .accept := by
      intro hc
      have hl := (offered_accept hs hc).1
      rw [(ht.current a ha).2.2, ← ho, SourceStamp.later_irrefl] at hl
      cases hl
    rw [accepted_snoc, if_neg (by exact hn), List.append_nil]

end SafetyIsland.VpCandidateIdentity

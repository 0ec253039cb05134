import SafetyIsland.Can.Link
import SafetyIsland.Can.Output
import SafetyIsland.Transition.Run

namespace SafetyIsland.Can

open Transition

namespace Gateway

-- `=IB3x8s`, a frame of a raw socket, whose highest bit of the identifier is that of an extended one.
def inject (frame : Datagram.TunnelFrame) : CanFrame where
  id       := .ofNat frame.canId.toNat
  dlc      := .ofNat frame.data.length
  extended := 2 ^ 31 ≤ frame.canId
  data     := .ofFn fun i => byte frame.data i

-- The frames until one is not sent. `sent` are the results of the calls from that one on.
def injectAll (sent : ℕ → Bool) : ℕ → List Datagram.TunnelFrame → List CanFrame
  | _,     []              => []
  | index, frame :: frames =>
    if sent index then inject frame :: injectAll sent (index + 1) frames else []

-- What a datagram puts on the bus.
def handle (dryRun : Bool) (sent : ℕ → Bool) (datagram : List UInt8) : List CanFrame :=
  match Datagram.unpack (datagram.take 256) with
  | .error _  => []
  | .ok batch => if dryRun then [] else injectAll sent 0 (batch.frames.take 3)

variable {dryRun : Bool} {sent : ℕ → Bool}

theorem inject_classic {id : UInt32} {data : Vector UInt8 8} (h : id.toNat < 2 ^ 31) :
    inject (CanFrame.toTunnel (.classic id data)) = .classic id data := by
  have hext : ¬(2 ^ 31 : ℤ) ≤ id.toNat := by omega
  simp only [inject, CanFrame.toTunnel, CanFrame.classic, Int.toNat_natCast,
    UInt32.ofNat_toNat, Vector.length_toList, hext, decide_false, CanFrame.mk.injEq, true_and]
  refine ⟨rfl, ?_⟩
  ext i hi
  simp [byte]

theorem injectAll_classic (sent : ℕ → Bool) (frames : List CanFrame) (index : ℕ)
    (h : ∀ frame ∈ frames, ∃ id data, frame = .classic id data ∧ id.toNat < 2 ^ 31) :
    ∃ n, injectAll sent index (frames.map CanFrame.toTunnel) = frames.take n := by
  induction frames generalizing index
  case nil => exact ⟨0, rfl⟩
  case cons frame frames ih =>
    have ⟨id, data, he, hid⟩ := h frame List.mem_cons_self
    cases hs : sent index
    case false => exact ⟨0, by simp [injectAll, hs]⟩
    case true =>
      have ⟨n, hn⟩ := ih (index + 1) fun f hf => h f (List.mem_cons_of_mem _ hf)
      exact ⟨n + 1, by simp [injectAll, hs, he, inject_classic hid, hn]⟩

theorem handle_wire (b : ClassicBatch) : ∃ n, handle dryRun sent b.wire = b.frames.take n := by
  have ht : b.wire.take 256 = b.wire := List.take_of_length_le (by simp)
  have hf : b.toCanBatch.toTunnel.frames.take 3 = b.frames.map CanFrame.toTunnel := rfl
  simp only [handle, ht, ClassicBatch.unpack_wire, hf]
  cases dryRun
  case true => exact ⟨0, rfl⟩
  case false =>
    apply injectAll_classic
    intro frame hf
    simp only [ClassicBatch.frames, List.mem_cons, List.not_mem_nil, or_false] at hf
    rcases hf with h | h | h <;> exact ⟨_, _, h, by decide⟩

theorem handle_foreign {datagram : List UInt8}
    (h : (Datagram.unpack (datagram.take 256)).isOk = false) :
    handle dryRun sent datagram = [] := by
  unfold handle
  split
  case h_1 => rfl
  case h_2 hb => simp [hb, Except.isOk, Except.toBool] at h

end Gateway

-- The way of the commands through the tunnel, with the history of the commands that were sent, of
-- the datagrams that were received, in this order, and of those whose status frame was injected.
structure TunnelPath (α : Type) where
  output    : ControlCommandCanOutput
  link      : Link α
  sent      : List (ControlMsg × OutputMode)
  datagrams : List (List UInt8)
  received  : List ℕ
  sources   : List ℕ

namespace TunnelPath

-- The network delivers any datagram that was sent, any number of times, and datagrams of others.
inductive Event
  | send (msg : ControlMsg) (mode : OutputMode) (sent : Bool)
  | receive (k : ℕ) (injected : ℕ → Bool)
  | foreign (datagram : List UInt8) (injected : ℕ → Bool)
  | arrive (now : Float)
  | poll (now timeoutSec : Float)

section

variable {α : Type} [IntCast α] [Div α]

def init (canInit : Bool) : TunnelPath α where
  output    := ControlCommandCanOutput.new.init canInit false
  link      := .init
  sent      := []
  datagrams := []
  received  := []
  sources   := []

def send (p : TunnelPath α) (msg : ControlMsg) (mode : OutputMode) (sent : Bool) : TunnelPath α :=
  let (output, handed, ok) := p.output.send (UdpTunnel.transport sent) msg mode
  { p with
    output    := output
    datagrams := p.datagrams ++ handed.join.toList
    sent      := if mode.usesCan && ok then p.sent ++ [(msg, mode)] else p.sent }

def step (dryRun : Bool) (p : TunnelPath α) : Event → Option (TunnelPath α)
  | .send msg mode sent        => some (p.send msg mode sent)
  | .receive k injected        => do
    let datagram ← p.datagrams[k]?
    let frames := Gateway.handle dryRun injected datagram
    some { p with
      link     := p.link.hand frames
      received := p.received ++ [k]
      sources  := if frames.any (·.id = statusId) then p.sources ++ [k] else p.sources }
  | .foreign datagram injected =>
    some { p with link := p.link.hand (Gateway.handle dryRun injected datagram) }
  | .arrive now                => (p.link.arrive now).map fun link => { p with link := link }
  | .poll now timeoutSec       => some { p with link := p.link.poll now timeoutSec }

-- The datagrams of others are none of the tunnel's, and no datagram is overtaken by one that was
-- sent 32768 or more sends later.
def Network (p : TunnelPath α) (e : Event) (_ : TunnelPath α) : Prop :=
  match e with
  | .foreign datagram _ => (Datagram.unpack (datagram.take 256)).isOk = false
  | .receive k _        => ∀ i ∈ p.received, i < k + 32768
  | _                   => True

-- The datagrams of the commands that were accepted since the last safe stop.
def order (p : TunnelPath α) : List ℕ :=
  p.link.epoch.map (p.sources.getD · 0)

-- What the decoder expects after the datagrams that were accepted.
inductive Latest : Option ℕ → List ℕ → Prop
  | none : Latest none []
  | last {ks : List ℕ} {k : ℕ} : (∀ i ∈ ks, i < k) → Latest (some ((k + 1) % 65536)) (ks ++ [k])

-- The batches whose status frames were injected, of which the first ones arrived.
structure Flow (p : TunnelPath α) (done todo : List ClassicBatch) : Prop where
  classic   : p.output.fdActive = false
  next      : p.output.sequence = .ofNat p.sent.length
  length    : p.datagrams.length = p.sent.length
  encodes   : ∀ {k} {datagram : List UInt8}, p.datagrams[k]? = some datagram →
    ∃ msg mode, ∃ b : ClassicBatch,
    p.sent[k]? = some (msg, mode) ∧ datagram = b.wire ∧ b.Encodes msg mode (.ofNat k)
  carries   : p.link.Carries done todo
  injected  : p.sources.length = (done ++ todo).length
  source    : ∀ {j : ℕ} {b : ClassicBatch}, (done ++ todo)[j]? = some b →
    ∃ k, p.sources[j]? = some k ∧ p.datagrams[k]? = some b.wire
  received  : ∀ k ∈ p.sources, k ∈ p.received
  displaced : p.sources.Pairwise fun i k => i < k + 32768
  arrived   : ∀ j ∈ p.link.epoch, j < p.link.arrived
  latest    : Latest p.link.decoder.expected p.order
  increases : p.order.Pairwise (· < ·)
  decoded   : ∀ {j c}, (j, c) ∈ p.link.accepted →
    ∃ b : ClassicBatch, done[j]? = some b ∧ c = b.decoded

variable {p p' : TunnelPath α} {done todo : List ClassicBatch} {e : Event} {dryRun : Bool}

theorem Flow.init {canInit : Bool} : (init canInit : TunnelPath α).Flow [] [] where
  classic   := by cases canInit <;> rfl
  next      := rfl
  length    := rfl
  encodes   := nofun
  carries   := .init
  injected  := rfl
  source    := nofun
  received  := nofun
  displaced := .nil
  arrived   := nofun
  latest    := .none
  increases := .nil
  decoded   := nofun

theorem Flow.sends {msg : ControlMsg} {mode : OutputMode} {b : ClassicBatch} (h : p.Flow done todo)
    (he : b.Encodes msg mode p.output.sequence) :
    Flow { p with
      output    := { p.output with sequence := p.output.sequence + 1 }
      datagrams := p.datagrams ++ [b.wire]
      sent      := p.sent ++ [(msg, mode)] } done todo := by
  refine { h with next := ?next, length := ?length, encodes := ?encodes, source := ?source }
  case next =>
    rw [h.next, List.length_append, List.length_singleton]
    exact (UInt16.ofNat_add _ _).symm
  case length =>
    rw [List.length_append, List.length_append, h.length]
    rfl
  case encodes =>
    intro k datagram hk
    rcases getElem?_concat_eq_some.mp hk with hk | ⟨hk, hd⟩
    case inl =>
      have ⟨msg', mode', b', hs, hd, he⟩ := h.encodes hk
      exact ⟨msg', mode', b', getElem?_concat_eq_some.mpr (.inl hs), hd, he⟩
    case inr =>
      rw [h.length] at hk
      exact ⟨msg, mode, b, getElem?_concat_eq_some.mpr (.inr ⟨hk, rfl⟩), hd.symm, hk ▸ h.next ▸ he⟩
  case source =>
    intro j b' hj
    have ⟨k, hk, hd⟩ := h.source hj
    exact ⟨k, hk, getElem?_concat_eq_some.mpr (.inl hd)⟩

theorem Flow.send {msg : ControlMsg} {mode : OutputMode} {sent : Bool} (h : p.Flow done todo) :
    (p.send msg mode sent).Flow done todo := by
  have hs := ControlCommandCanOutput.sends (UdpTunnel.transport sent) msg mode h.classic
  unfold TunnelPath.send
  generalize p.output.send (UdpTunnel.transport sent) msg mode = r at hs
  cases hs
  case unused hm => simpa [hm] using h
  case fails => simpa using h
  case rejected b handed he ht =>
    have ⟨hok, hh⟩ := UdpTunnel.transport_frames ht
    simpa [hh, ← hok] using h
  case sent b handed he ht =>
    have ⟨hok, hh⟩ := UdpTunnel.transport_frames ht
    simpa [hh, ← hok, he.usesCan] using h.sends he

omit [IntCast α] [Div α] in
theorem order_append {sources ks : List ℕ} (hj : ∀ j ∈ p.link.epoch, j < p.sources.length)
    (hs : sources = p.sources ++ ks) {link : Link α} (he : link.epoch = p.link.epoch) :
    order { p with sources := sources, link := link } = p.order := by
  simp only [order, he, hs]
  exact List.map_congr_left fun j hm => List.getD_append _ _ _ _ (hj j hm)

omit [IntCast α] [Div α] in
theorem order_link {link : Link α} (he : link.epoch = p.link.epoch) :
    order { p with link := link } = p.order := by
  rw [order, he]
  rfl

theorem Flow.epoch_lt (h : p.Flow done todo) : ∀ j ∈ p.link.epoch, j < p.sources.length := by
  intro j hj
  have := h.arrived j hj
  rw [h.injected, List.length_append, h.carries.done]
  exact Nat.lt_add_right _ this

theorem Flow.cut {b : ClassicBatch} {k n : ℕ} (h : p.Flow done todo) (hn : ¬3 ≤ n) :
    Flow { p with
      link     := p.link.hand (b.frames.take n)
      received := p.received ++ [k] } done todo := by
  have hc := h.carries.hand b n
  rw [if_neg hn, List.append_nil] at hc
  exact { h with carries := hc, received := fun i hi => List.mem_append_left _ (h.received i hi) }

theorem Flow.whole {b : ClassicBatch} {k n : ℕ} (h : p.Flow done todo)
    (hd : p.datagrams[k]? = some b.wire) (hk : ∀ i ∈ p.received, i < k + 32768) (hn : 3 ≤ n) :
    Flow { p with
      link     := p.link.hand (b.frames.take n)
      received := p.received ++ [k]
      sources  := p.sources ++ [k] } done (todo ++ [b]) := by
  have hc := h.carries.hand b n
  rw [if_pos hn] at hc
  have ho : order { p with
      link     := p.link.hand (b.frames.take n)
      received := p.received ++ [k]
      sources  := p.sources ++ [k] } = p.order := order_append h.epoch_lt rfl rfl
  refine { h with
    carries := hc, injected := ?injected, source := ?source, received := ?received,
    displaced := ?displaced, latest := ho ▸ h.latest, increases := ho ▸ h.increases }
  case injected => simp [h.injected, Nat.add_assoc]
  case source =>
    intro j b' hj
    rw [← List.append_assoc] at hj
    rcases getElem?_concat_eq_some.mp hj with hb | ⟨hl, hb⟩
    case inl =>
      have ⟨i, hi, hd⟩ := h.source hb
      exact ⟨i, getElem?_concat_eq_some.mpr (.inl hi), hd⟩
    case inr =>
      exact ⟨k, getElem?_concat_eq_some.mpr (.inr ⟨hl.trans h.injected.symm, rfl⟩), hb ▸ hd⟩
  case received =>
    intro i hi
    rcases List.mem_append.mp hi with hi | hi
    case inl => exact List.mem_append_left _ (h.received i hi)
    case inr => exact List.mem_append_right _ hi
  case displaced =>
    refine List.pairwise_append.mpr ⟨h.displaced, List.pairwise_singleton .., fun i hi j hj => ?_⟩
    rw [List.mem_singleton.mp hj]
    exact hk i (h.received i hi)

theorem Flow.receive {k : ℕ} {injected : ℕ → Bool} {datagram : List UInt8} {dryRun : Bool}
    (h : p.Flow done todo) (hd : p.datagrams[k]? = some datagram)
    (hk : ∀ i ∈ p.received, i < k + 32768)
    (hs : p.step dryRun (.receive k injected) = some p') : ∃ todo', p'.Flow done todo' := by
  obtain ⟨_, _, b, _, rfl, _⟩ := h.encodes hd
  have ⟨n, hn⟩ : ∃ n, Gateway.handle dryRun injected b.wire = b.frames.take n :=
    Gateway.handle_wire b
  simp only [step, hd, Option.bind_eq_bind, Option.bind_some, hn, ClassicBatch.any_status] at hs
  cases hs
  by_cases hle : 3 ≤ n
  case pos => exact ⟨todo ++ [b], by simpa [hle] using h.whole hd hk hle⟩
  case neg => exact ⟨todo, by simpa [hle] using h.cut hle⟩

variable {b : ClassicBatch}

theorem Flow.decoded_append {j : ℕ} {c : DecodedControlCommand α}
    (h : p.Flow done todo) (hj : (j, c) ∈ p.link.accepted) :
    ∃ b' : ClassicBatch, (done ++ [b])[j]? = some b' ∧ c = b'.decoded := by
  have ⟨b', hb, hc⟩ := h.decoded hj
  exact ⟨b', getElem?_concat_eq_some.mpr (.inl hb), hc⟩

theorem Flow.sequence_eq {k : ℕ} (h : p.Flow done todo)
    (hd : p.datagrams[k]? = some b.wire) : b.sequence.toNat = k % 65536 := by
  have ⟨_, _, _, _, hw, he⟩ := h.encodes hd
  rw [ClassicBatch.wire_injective hw, he.sequence_eq, UInt16.toNat_ofNat']

theorem lt_of_seqDelta {i k : ℕ} (hf : 0 ≤ seqDelta (k % 65536) ((i + 1) % 65536))
    (hd : i < k + 32768) : i < k := by
  unfold seqDelta at hf
  omega

theorem Flow.head (h : p.Flow done (b :: todo)) :
    ∃ k, p.sources[p.link.arrived]? = some k ∧ p.datagrams[k]? = some b.wire :=
  h.source (by simp [← h.carries.done])

theorem Flow.overtakes {k : ℕ} (h : p.Flow done todo) (hk : p.sources[p.link.arrived]? = some k) :
    ∀ i ∈ p.order, i < k + 32768 := by
  intro i hi
  have ⟨j, hj, hji⟩ := List.mem_map.mp hi
  have ⟨hn, hkn⟩ := List.getElem?_eq_some_iff.mp hk
  have hd := List.pairwise_iff_getElem.mp h.displaced j p.link.arrived (h.epoch_lt j hj) hn
    (h.arrived j hj)
  rwa [hkn, ← List.getD_eq_getElem _ 0, hji] at hd

theorem Flow.later {k : ℕ} (h : p.Flow done todo) (hk : p.sources[p.link.arrived]? = some k)
    (hf : ∀ e ∈ p.link.decoder.expected, 0 ≤ seqDelta (k % 65536) e) : ∀ i ∈ p.order, i < k := by
  intro i hi
  have hd := h.overtakes hk
  have hl := h.latest
  generalize p.link.decoder.expected = expected at hf hl
  generalize p.order = ks at hi hd hl
  cases hl
  case none => cases hi
  case last ks i₀ hlt =>
    have hi₀ : i₀ < k := lt_of_seqDelta (hf _ rfl) (hd i₀ (by simp))
    rcases List.mem_append.mp hi with hi | hi
    case inl => exact (hlt i hi).trans hi₀
    case inr => exact List.mem_singleton.mp hi ▸ hi₀

variable {link : Link α}

theorem Flow.drop (h : p.Flow done (b :: todo)) (hc : link.Carries (done ++ [b]) todo)
    (he : link.decoder.expected = p.link.decoder.expected)
    (ha : link.accepted = p.link.accepted) (hp : link.epoch = p.link.epoch) :
    Flow { p with link := link } (done ++ [b]) todo := by
  have ho : order { p with link := link } = p.order := order_link hp
  have hn : link.arrived = p.link.arrived + 1 := by simp [← hc.done, ← h.carries.done]
  exact { h with
    carries   := hc
    injected  := List.append_cons done b todo ▸ h.injected
    source    := fun hj => h.source (List.append_cons done b todo ▸ hj)
    arrived   := by
      rw [hp, hn]
      exact fun j hj => Nat.lt_succ_of_lt (h.arrived j hj)
    latest    := by rw [he, ho]; exact h.latest
    increases := by rw [ho]; exact h.increases
    decoded   := by rw [ha]; exact h.decoded_append }

theorem Flow.accept (h : p.Flow done (b :: todo)) (hc : link.Carries (done ++ [b]) todo)
    (hf : p.link.decoder.Fresh b.status.toList)
    (he : link.decoder.expected = some ((b.sequence.toNat + 1) % 65536))
    (ha : link.accepted = p.link.accepted ++ [(p.link.arrived, b.decoded)])
    (hp : link.epoch = p.link.epoch ++ [p.link.arrived]) :
    Flow { p with link := link } (done ++ [b]) todo := by
  have ⟨k, hk, hd⟩ := h.head
  have hs := h.sequence_eq hd
  have hl : ∀ i ∈ p.order, i < k := h.later hk fun e hm => by
    have := hf e hm
    rwa [Link.u16Le_status, hs] at this
  have ho : order { p with link := link } = p.order ++ [k] := by
    rw [order, hp, List.map_append, List.map_singleton, List.getD_eq_getElem?_getD, hk]
    rfl
  have hn : link.arrived = p.link.arrived + 1 := by simp [← hc.done, ← h.carries.done]
  exact { h with
    carries   := hc
    injected  := List.append_cons done b todo ▸ h.injected
    source    := fun hj => h.source (List.append_cons done b todo ▸ hj)
    arrived   := by
      rw [hp, hn]
      intro j hj
      rcases List.mem_append.mp hj with hj | hj
      case inl => exact Nat.lt_succ_of_lt (h.arrived j hj)
      case inr => exact List.mem_singleton.mp hj ▸ Nat.lt_succ_self _
    latest    := by
      rw [he, ho, hs, Nat.mod_add_mod]
      exact .last hl
    increases := by
      rw [ho]
      refine List.pairwise_append.mpr ⟨h.increases, List.pairwise_singleton .., fun i hi j hj => ?_⟩
      exact List.mem_singleton.mp hj ▸ hl i hi
    decoded   := by
      rw [ha]
      intro j c hj
      rw [List.mem_append, List.mem_singleton, Prod.mk.injEq] at hj
      rcases hj with hj | ⟨hj, hcd⟩
      case inl => exact h.decoded_append hj
      case inr => exact ⟨b, by simp [hj, ← h.carries.done], hcd⟩ }

theorem Flow.arrive {now : Float} (h : p.Flow done todo) (ha : p.link.arrive now = some link) :
    ∃ done' todo', Flow { p with link := link } done' todo' := by
  have hA := h.carries.arrives ha
  generalize ht : todo = todo₀ at hA
  cases hA
  case data he hh hc =>
    subst ht
    have ⟨ha, _, hp⟩ := Link.history_eq hh
    have hn : link.arrived = p.link.arrived := hc.done.symm.trans h.carries.done
    have ho : order { p with link := link } = p.order := order_link hp
    exact ⟨done, todo, { h with
      carries   := hc
      arrived   := by rw [hp, hn]; exact h.arrived
      latest    := by rw [he, ho]; exact h.latest
      increases := by rw [ho]; exact h.increases
      decoded   := by rw [ha]; exact h.decoded }⟩
  case interrupted b todo' hb hc he hh =>
    subst ht
    have ⟨ha, _, hp⟩ := Link.history_eq hh
    exact ⟨_, todo', h.drop hc he ha hp⟩
  case stale b todo' hb hf hc he hh =>
    subst ht
    have ⟨ha, _, hp⟩ := Link.history_eq hh
    exact ⟨_, todo', h.drop hc he ha hp⟩
  case accepted b todo' hb hf hc he hh =>
    subst ht
    have ⟨ha, _, hp⟩ := Link.history_eq hh
    exact ⟨_, todo', h.accept hc hf he ha hp⟩

theorem Flow.poll {now timeoutSec : Float} (h : p.Flow done todo) :
    Flow { p with link := p.link.poll now timeoutSec } done todo := by
  have ⟨hc, hp⟩ := (h.carries.polled : (p.link.poll now timeoutSec).Carries _ _ ∧ _)
  have hn : (p.link.poll now timeoutSec).arrived = p.link.arrived :=
    hc.done.symm.trans h.carries.done
  cases hp
  case reports hb he hh =>
    have ⟨ha, _, hp⟩ := Link.history_eq hh
    have ho : order { p with link := p.link.poll now timeoutSec } = p.order := order_link hp
    exact { h with
      carries   := hc
      arrived   := by rw [hp, hn]; exact h.arrived
      latest    := by rw [he, ho]; exact h.latest
      increases := by rw [ho]; exact h.increases
      decoded   := by rw [ha]; exact h.decoded }
  case stops hb he hh =>
    have ⟨ha, _, hp⟩ := Link.history_eq hh
    have ho : order { p with link := p.link.poll now timeoutSec } = [] := by simp [order, hp]
    exact { h with
      carries   := hc
      arrived   := by rw [hp]; exact nofun
      latest    := by rw [he, ho]; exact .none
      increases := by rw [ho]; exact .nil
      decoded   := by rw [ha]; exact h.decoded }

theorem Flow.step (h : p.Flow done todo) (hs : p.step dryRun e = some p') (hq : Network p e p') :
    ∃ done' todo', p'.Flow done' todo' := by
  cases e
  case send msg mode sent =>
    cases hs
    exact ⟨done, todo, h.send⟩
  case receive k injected =>
    cases hd : p.datagrams[k]?
    case none => simp [TunnelPath.step, hd] at hs
    case some datagram => exact ⟨done, h.receive hd hq hs⟩
  case foreign datagram injected =>
    cases hs
    have hh : Gateway.handle dryRun injected datagram = [] := Gateway.handle_foreign hq
    exact ⟨done, todo, by simpa [hh, Link.hand] using h⟩
  case arrive now =>
    have ⟨link, ha, hp⟩ := Option.map_eq_some_iff.mp hs
    exact hp ▸ h.arrive ha
  case poll now timeoutSec =>
    cases hs
    exact ⟨done, todo, h.poll⟩

theorem Flow.run {canInit : Bool} {es : List Event}
    (h : Along (TunnelPath.step dryRun) Network (.init canInit) es p) :
    ∃ done todo, p.Flow done todo :=
  h.invariant (P := fun p => ∃ done todo, p.Flow done todo)
    (fun hs hq ⟨_, _, hf⟩ => hf.step hs hq) ⟨[], [], .init⟩

-- Every accepted command is the decoding of one datagram that was sent, and between two safe stops
-- these datagrams are accepted in the order in which they were sent.
theorem accepted_from_one {canInit : Bool} {es : List Event}
    (h : Along (TunnelPath.step dryRun) Network (.init canInit) es p) :
    (∀ j c, (j, c) ∈ p.link.accepted → ∃ k msg mode, ∃ b : ClassicBatch,
      p.sources[j]? = some k ∧ p.sent[k]? = some (msg, mode) ∧
      encodeControlCommand msg mode (.ofNat k) = .ok b.frames ∧
      p.datagrams[k]? = some b.wire ∧ c = b.decoded ∧ c.sequence = k % 65536) ∧
    p.order.Pairwise (· < ·) := by
  have ⟨done, todo, hf⟩ := Flow.run h
  refine ⟨fun j c hj => ?_, hf.increases⟩
  have ⟨b, hb, hc⟩ := hf.decoded hj
  have hlt := (List.getElem?_eq_some_iff.mp hb).1
  have ⟨k, hk, hd⟩ := hf.source (List.getElem?_append_left hlt ▸ hb)
  have ⟨msg, mode, b', hs, hw, he⟩ := hf.encodes hd
  have hseq : (b.decoded : DecodedControlCommand α).sequence = b.sequence.toNat :=
    Link.u16Le_status b
  refine ⟨k, msg, mode, b, hk, hs, ?_, hd, hc, by rw [hc, hseq, hf.sequence_eq hd]⟩
  rw [ClassicBatch.wire_injective hw]
  exact he.encoded

end

-- The second delivery of the one datagram is complete.
theorem accepted_from_one_again :
    let p₁ : TunnelPath Float := after (step false) (init true) [.send default .canOnly true]
    let p₂ := after (step false) p₁ [.receive 0 (· < 1)]
    let p₃ := after (step false) p₂ [.receive 0 fun _ => true]
    let p := after (step false) p₃ (.replicate 4 (.arrive 1))
    p.link.accepted.length = 1 ∧ p.order.Pairwise (· < ·) ∧
    ∀ j c, (j, c) ∈ p.link.accepted → ∃ k, p.sources[j]? = some k ∧ c.sequence = k % 65536 := by
  intro p₁ p₂ p₃ p
  have h₁ : Along (step false) Network (init true) _ p₁ :=
    .of_run (run_after (by decide +kernel)) (by simp [Network])
  have h₂ : Along (step false) Network p₁ _ p₂ :=
    .single (run_after (by decide +kernel)).of_single nofun
  have hr : ∀ i ∈ p₂.received, i < 0 + 32768 := by decide +kernel
  have h₃ : Along (step false) Network p₂ _ p₃ :=
    .single (run_after (by decide +kernel)).of_single hr
  have h₄ : Along (step false) Network p₃ _ p :=
    .of_run (run_after (by decide +kernel)) (by simp [Network])
  have ⟨ha, hp⟩ := accepted_from_one (h₁.append (h₂.append (h₃.append h₄)))
  refine ⟨by decide +kernel, hp, fun j c hj => ?_⟩
  have ⟨k, _, _, _, hk, _, _, _, _, hs⟩ := ha j c hj
  exact ⟨k, hk, hs⟩

end TunnelPath
end SafetyIsland.Can

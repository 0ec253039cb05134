import SafetyIsland.Controller.Theorems.Output

namespace SafetyIsland

open Supervision Transition

namespace Config

def boot (build : StartupConfig.BuildDefaults) (env : StartupConfig.Environment) (params : Params)
    (outputMode : Can.OutputMode) (canOutput x5h : Bool) (now : WallTime) :
    Except String Config := do
  let startup ← StartupConfig.fromEnvironment build env
  return { startup, params, outputMode, canOutput, x5h, siSession := siSessionFromClock now.seconds }

-- The topics that the constructor of the controller subscribes to.
def subscribes (cfg : Config) : Message → Bool
  | .drivingReference _ =>
    cfg.supervisionMode = .siControl ∧ cfg.startup.trajectorySource = .vp
  | .trajectory _       =>
    cfg.supervisionMode = .siControl ∧ cfg.startup.trajectorySource ≠ .vp
  | .drivingCommand _   => cfg.supervisionMode = .vpControl
  | _                   => true

variable {cfg : Config} {build : StartupConfig.BuildDefaults} {env : StartupConfig.Environment}
  {params : Params} {outputMode : Can.OutputMode} {canOutput x5h : Bool} {now : WallTime}

end Config

-- A request of this boot, for the mode and the source that were selected.
structure Published.Selected (cfg : Config) (p : Published) : Prop where
  session : p.approved.session = cfg.siSession
  mode    : p.approved.mode = cfg.supervisionMode.toUInt8
  source  : p.approved.selectedSource = cfg.selectedSource.toUInt8

namespace Controller

variable {cfg : Config} {c c' : Controller} {channel : SiChannel} {clock : TickClock}

-- Nothing of a source that is not selected was ever taken.
structure Exclusive (cfg : Config) (c : Controller) : Prop where
  autoware   : cfg.startup.trajectorySource = .vp → c.autowareTrajectoryIdentity = .init
  vp         : cfg.startup.trajectorySource = .autoware → c.vpCandidateIdentity = .init
  command    : cfg.supervisionMode = .siControl → c.hasVpCmd = false
  trajectory : cfg.supervisionMode = .vpControl → c.hasTrajectory = false
  published  : ∀ p ∈ c.published, p.Selected cfg

theorem Exclusive.init : Exclusive cfg .init where
  autoware _    := rfl
  vp _          := rfl
  command _     := rfl
  trajectory _  := rfl
  published _ h := absurd h List.not_mem_nil

theorem Exclusive.congr (h : c.Exclusive cfg) (hi : c'.toInputs = c.toInputs)
    (hp : ∀ p ∈ c'.published, p.Selected cfg) : c'.Exclusive cfg where
  autoware   := by rw [hi]; exact h.autoware
  vp         := by rw [hi]; exact h.vp
  command    := by rw [hi]; exact h.command
  trajectory := by rw [hi]; exact h.trajectory
  published  := hp

theorem Exclusive.receive [Libm Float] {msg : Message} {clock : CallbackClock}
    (h : c.Exclusive cfg) (hv : cfg.supervisionMode = .vpControl → cfg.startup.trajectorySource = .vp)
    (hs : cfg.subscribes msg = true) : (c.receive cfg clock msg).Exclusive cfg := by
  unfold Controller.receive
  split
  case h_2 => exact h.congr (latchFault_toInputs ..) (by simpa using h.published)
  case h_1 hi =>
    cases ingest_accepts hi
    case command =>
      have hm : cfg.supervisionMode = .vpControl := by simpa [Config.subscribes] using hs
      have hvp := hv hm
      exact { h with vp := by simp [hvp], command := by simp [hm] }
    case trajectory ha =>
      obtain ⟨hm, hsrc⟩ := ha.selected
      exact { h with autoware := by simp [hsrc], trajectory := by simp [hm] }
    case reference ha =>
      obtain ⟨hm, hsrc⟩ := ha.selected
      exact { h with vp := by simp [hsrc], trajectory := by simp [hm] }
    all_goals exact { h with }

theorem publication_selected {d : Decision} {m : ControlMsg} {now : WallTime} :
    (c.publication cfg d cfg.selectedSource m now).Selected cfg :=
  ⟨rfl, rfl, rfl⟩

theorem Ticks.publishes_selected (h : Ticks cfg channel clock c c') :
    ∃ c₁ d m, c₁.published = c.published ∧
      c' = Controller.publishApprovedRequest cfg c₁ d cfg.selectedSource m clock.publish := by
  cases h
  case stops => exact ⟨_, _, _, by simp [expired], rfl⟩
  case decides c₂ hr hd =>
    have hp : c₂.published = c.published := by rw [hr.toOutputs_eq, checked_toOutputs]
    cases hd
    case hold => exact ⟨_, _, _, hp, rfl⟩
    case command hm _ _ =>
      have hs : cfg.selectedSource = .vpCommand := if_pos hm
      rw [hs]
      exact ⟨_, _, _, by exact hp, rfl⟩
    case follow hm _ _ =>
      have hs : cfg.selectedSource = .follower := if_neg (by simp [hm])
      rw [hs]
      exact ⟨_, _, _, hp, rfl⟩
    case violation => exact ⟨_, _, _, by simpa using hp, rfl⟩

theorem Exclusive.tick (h : c.Exclusive cfg) (ht : Ticks cfg channel clock c c') :
    c'.Exclusive cfg := by
  refine h.congr ht.toInputs_eq fun p hm => ?_
  obtain ⟨c₁, d, m, hp, rfl⟩ := ht.publishes_selected
  rw [publishApprovedRequest_published, hp] at hm
  rcases List.mem_append.mp hm with hm | hm
  case inl => exact h.published p hm
  case inr => exact List.mem_singleton.mp hm ▸ publication_selected

end Controller

namespace Sample

-- The defaults of the build, and the variables of a VisionPilot deployment.
def build : StartupConfig.BuildDefaults where
  supervisionMode         := "si"
  trajectorySource        := "autoware"
  legacyControlCmd        := "always"
  operationModeDurability := "transient_local"

end Sample

namespace System

section

variable {cfg : Config} {s s' : System} {es : List Event} [Libm Float]

end

end System
end SafetyIsland

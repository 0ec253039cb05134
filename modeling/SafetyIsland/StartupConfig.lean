namespace SafetyIsland

namespace StartupConfig

inductive Mode
  | siControl
  | vpControl
deriving DecidableEq

inductive TrajectorySource
  | autoware
  | vp
deriving DecidableEq

inductive LegacyControlCmd
  | always
  | stopOnly
deriving DecidableEq

end StartupConfig

structure StartupConfig where
  mode             : StartupConfig.Mode
  trajectorySource : StartupConfig.TrajectorySource
  legacyControlCmd : StartupConfig.LegacyControlCmd
deriving DecidableEq

namespace StartupConfig

inductive OpModeDurability
  | transientLocal
  | volatile
deriving DecidableEq

structure BuildDefaults where
  supervisionMode         : String
  trajectorySource        : String
  legacyControlCmd        : String
  operationModeDurability : String

-- The variables that are read, as far as they are set.
structure Environment where
  supervisionMode         : Option String
  trajectorySource        : Option String
  legacyControlCmd        : Option String
  operationModeDurability : Option String

def parseLegacyControlCmd (build : BuildDefaults) (value : Option String) :
    Except String LegacyControlCmd :=
  let v := value.getD build.legacyControlCmd
  if v = "always" then .ok .always
  else if v = "stop_only" then .ok .stopOnly
  else .error "SI_LEGACY_CONTROL_CMD must be 'always' or 'stop_only'"

def parseOperationModeDurability (build : BuildDefaults) (value : Option String) :
    Except String OpModeDurability :=
  let v := value.getD build.operationModeDurability
  if v = "transient_local" then .ok .transientLocal
  else if v = "volatile" then .ok .volatile
  else .error "SI_OPERATION_MODE_DURABILITY must be 'transient_local' or 'volatile'"

def parse (mode source : String) (legacy : LegacyControlCmd) : Except String StartupConfig :=
  if mode ≠ "si" ∧ mode ≠ "vp" then .error "SI_SUPERVISION_MODE must be 'si' or 'vp'"
  else if source ≠ "autoware" ∧ source ≠ "vp" then
    .error "SI_TRAJECTORY_SOURCE must be 'autoware' or 'vp'"
  else if mode = "vp" ∧ source ≠ "vp" then
    .error "VP_CONTROL requires SI_TRAJECTORY_SOURCE=vp"
  else .ok
    { mode             := if mode = "vp" then .vpControl else .siControl
      trajectorySource := if source = "vp" then .vp else .autoware
      legacyControlCmd := legacy }

-- The durability that is requested for the operation mode is checked only; no callback reads it.
def fromValues (build : BuildDefaults)
    (mode source legacyControlCmd operationModeDurability : Option String) :
    Except String StartupConfig := do
  let legacy ← parseLegacyControlCmd build legacyControlCmd
  let _ ← parseOperationModeDurability build operationModeDurability
  match mode, source with
  | none, none             => parse build.supervisionMode build.trajectorySource legacy
  | some mode, some source => parse mode source legacy
  | _, _                   =>
    .error "set both SI_SUPERVISION_MODE and SI_TRAJECTORY_SOURCE, or neither"

def fromEnvironment (build : BuildDefaults) (env : Environment) : Except String StartupConfig :=
  fromValues build env.supervisionMode env.trajectorySource env.legacyControlCmd
    env.operationModeDurability

variable {build : BuildDefaults} {c : StartupConfig} {mode source : String}
  {legacy : LegacyControlCmd}

end StartupConfig
end SafetyIsland

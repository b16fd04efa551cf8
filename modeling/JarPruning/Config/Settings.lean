import JarPruning.Config.Policy

/-! What a run is configured to do. -/
namespace JarPruning

structure Settings where
  policy : Policy
  maxPasses : Nat
  preserveTimestamps : Bool
  deriving Repr

/-- Why a configuration is refused. -/
inductive ConfigFault where
  | policy (fault : Policy.Fault)
  | noPasses
  deriving DecidableEq, Repr

def ConfigFault.text : ConfigFault → String
  | .policy fault => fault.text
  | .noPasses => "maxPasses must be at least 1"

def ConfigFault.message (f : ConfigFault) : String := s!"invalid configuration: {f.text}"

namespace Settings

def defaultMaxPasses : Nat := 5

def ofPolicy (policy : Policy) (maxPasses : Nat) (preserveTimestamps : Bool) :
    Except ConfigFault Settings :=
  if maxPasses = 0 then .error .noPasses
  else .ok { policy, maxPasses, preserveTimestamps }

def ofNames (names : RoleNames) (maxPasses : Nat) (preserveTimestamps : Bool) :
    Except ConfigFault Settings := do
  ofPolicy (← (Policy.ofNames names).mapError .policy) maxPasses preserveTimestamps

end Settings

end JarPruning

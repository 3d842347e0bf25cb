import LatencyDigest.Journal

/-!
The stages of a program. The first that fails ends it, and its failure is told.
-/

namespace LatencyDigest.Command

variable {m : Type → Type} [Monad m] [Host m]

def stage {α : Type} (result : Except Failure α) : ExceptT Failure m α := ExceptT.mk (pure result)

def say (message : String) : ExceptT Failure m Unit := ExceptT.lift (Journal.say message)

def finish (stages : ExceptT Failure m Unit) : m UInt32 := do
  match ← stages.run with
  | .ok () => return 0
  | .error failure =>
    Journal.complain failure
    return 1

end LatencyDigest.Command

import LatencyDigest.Files.Path
import LatencyDigest.Host

/-!
Making the directory that a file is to be put into.
-/

namespace LatencyDigest.Directories

variable {m : Type → Type} [Monad m] [Host m]

/-- What making a directory came to. It is as well if the directory is there already. -/
def settled (path : String) : Except FileFault Unit → m (Except FileFault Unit)
  | .ok () => return .ok ()
  | .error fault => return if ← Host.isDirectory path then .ok () else .error fault

/-- Makes the first directory. The others are those it is in, from it outward, and are made as far
as they are wanting. -/
def make : List String → m (Except FileFault Unit)
  | [] => return .ok ()
  | path :: outer => do
    match ← Host.makeDirectory path with
    | .error .notFound =>
      match ← make outer with
      | .error fault => return .error fault
      | .ok () => settled path (← Host.makeDirectory path)
    | result => settled path result

/-- Makes the directory that a path is in, if there is none. -/
def makeParent (path : String) : m (Except FileFault Unit) := do
  let parent := (Path.parent? path).getD "."
  if parent = "" then return .ok ()
  else if ← Host.present parent then return .ok ()
  else make ((Path.ancestors parent).filter (· ≠ ""))

end LatencyDigest.Directories

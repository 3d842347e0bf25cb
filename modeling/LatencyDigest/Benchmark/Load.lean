import LatencyDigest.Benchmark.Reader
import LatencyDigest.Host

/-!
Loading benchmark results from a file.
-/

namespace LatencyDigest.Benchmark

variable {m : Type → Type} [Monad m] [Host m]

def ofBytes (bytes : List UInt8) : Except Failure Benchmark :=
  match Text.decode bytes with
  | .ok _ => ofText bytes
  | .error _ => .error (.file .notUtf8)

def ofReading : Reading → Except Failure Benchmark
  | .notOpened fault | .notRead fault => .error (.file fault)
  | .content bytes => ofBytes bytes

def load (path : String) : ExceptT Failure m Benchmark :=
  ExceptT.mk do
    if ← Host.present path then return ofReading (← Host.read path)
    else return .error (.missingFile path)

end LatencyDigest.Benchmark

import LatencyDigest.Binary64.Arithmetic
import LatencyDigest.Decimal.Notation
import LatencyDigest.Log.Kind
import LatencyDigest.Table

/-!
How many packets were processed for each challenge that was answered.
-/

namespace LatencyDigest

structure Throughput where
  packets : Nat
  challenges : Nat
  ratio : Binary64
  deriving DecidableEq

namespace Throughput

def packetsPerChallenge (packets challenges : Nat) : Except Failure Binary64 :=
  if challenges = 0 then .error (.noValues (LogKind.tableName .response) LogKind.reply.nanos)
  else .ok (.ofNat packets / .ofNat challenges)

def ofTables (packets responses : Table) : Except Failure Throughput := do
  return {
    packets := packets.rows
    challenges := responses.rows
    ratio := ← packetsPerChallenge packets.rows responses.rows }

def render (t : Throughput) : String :=
  "Total packets processed: " ++ toString t.packets ++
    "\nTotal challenges responded to: " ++ toString t.challenges ++
    "\nAverage packets per challenge: " ++ t.ratio.fixedText 2 ++ "\n"

end Throughput

end LatencyDigest

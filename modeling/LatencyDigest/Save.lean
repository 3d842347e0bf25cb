import LatencyDigest.Host
import LatencyDigest.Log.Export
import LatencyDigest.Log.Kind

/-!
Saving the tables of both logs in files whose names begin alike.
-/

namespace LatencyDigest

variable {m : Type → Type} [Monad m] [Host m]

def Table.save (t : Table) (path : String) : ExceptT Failure m Unit :=
  ExceptT.mk do return (← Host.write path t.exported).mapError .file

/-- Saves one table and then the other. Gives the names of the files. -/
def saveTables (packets responses : Table) (stem : String) : ExceptT Failure m (List String) := do
  let packetPath := LogKind.packet.exportPath stem
  let responsePath := LogKind.response.exportPath stem
  packets.save packetPath
  responses.save responsePath
  return [packetPath, responsePath]

end LatencyDigest

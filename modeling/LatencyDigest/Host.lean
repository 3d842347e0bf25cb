import LatencyDigest.Chart
import LatencyDigest.Files.Tree

/-!
What a program may do outside itself. A host keeps at most one log open.
-/

namespace LatencyDigest

class Host (m : Type → Type) where
  print : String → m Unit
  printError : String → m Unit
  /-- Nanoseconds from a moment that stays the same. -/
  now : m Nat
  /-- The date and the time of day. -/
  localTime : m String
  present : String → m Bool
  isDirectory : String → m Bool
  makeDirectory : String → m (Except FileFault Unit)
  read : String → m Reading
  /-- Makes a file, or empties the one that is there, and fills it. -/
  write : String → List UInt8 → m (Except FileFault Unit)
  /-- Makes a file, or empties the one that is there, and keeps it open as the log. -/
  openLog : String → m (Except FileFault Unit)
  /-- Writes on where the log was left. Without a log this does nothing. -/
  writeLog : String → m (Except FileFault Unit)
  /-- Draws a chart into the file of that name. -/
  draw : Chart → String → m (Except String Unit)

end LatencyDigest

/-!
Lines of a table, with a tab between cells.
-/

namespace LatencyDigest.Text

def row (cells : List String) : String := "\t".intercalate cells ++ "\n"

end LatencyDigest.Text

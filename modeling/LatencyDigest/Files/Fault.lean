/-!
Why a file or a directory cannot be used.
-/

namespace LatencyDigest

inductive FileFault where
  | notFound
  | present
  | notADirectory
  | isADirectory
  | nameTooLong
  | notUtf8
  | nulInName
  | other (text : String)
  deriving DecidableEq

def FileFault.message : FileFault → String
  | .notFound => "No such file or directory (os error 2)"
  | .present => "File exists (os error 17)"
  | .notADirectory => "Not a directory (os error 20)"
  | .isADirectory => "Is a directory (os error 21)"
  | .nameTooLong => "File name too long (os error 36)"
  | .notUtf8 => "stream did not contain valid UTF-8"
  | .nulInName => "file name contained an unexpected NUL byte"
  | .other text => text

end LatencyDigest

/-!
Why operations on files fail.
-/

namespace ShardVault

/-- Why an operation on files fails. -/
inductive FileFault
  | notFound
  | notADirectory
  | isADirectory
  | nameTooLong
  | nulInPath
  | notText
deriving DecidableEq, Repr

/-- The wording of a file fault.  Most are in the words of the operating system, for which a mark
    stands. -/
def FileFault.reason : FileFault → String
  | .nulInPath => "file name contained an unexpected NUL byte"
  | .notText => "stream did not contain valid UTF-8"
  | _ => "<os>"

end ShardVault

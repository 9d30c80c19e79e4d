namespace PuCli

namespace Tools

structure SecurityPolicy where
  sandboxRoot : String := ""
  maxCommandLength : Nat := 0
  forbiddenPatterns : List String := []
  approvalPatterns : List String := []
  deriving DecidableEq

end Tools

-- `root / path` for a path that is not absolute; an empty one is the directory itself.
def resolveWorkspacePath (root configured : String) : String :=
  let path := if configured = "" then "." else configured
  if path.toList.head? = some '/' then path
  else if root = "" ∨ root.toList.getLast? = some '/' then root ++ path
  else root ++ "/" ++ path

end PuCli

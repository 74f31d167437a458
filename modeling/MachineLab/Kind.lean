/-!
# The two kinds of machines
-/

namespace MachineLab

/-- A machine is a Turing machine or a deterministic finite-state acceptor. -/
inductive Kind where
  | turing
  | acceptor
deriving DecidableEq, Repr, Inhabited

namespace Kind

/-- The tag of a kind in documents, settings and messages. -/
def tag : Kind → String
  | .turing => "TM"
  | .acceptor => "DFSA"

def machineName (k : Kind) : String := k.tag ++ "Machine"

def actionName (k : Kind) : String := k.tag ++ "Action"

end Kind

end MachineLab

/-!
Notes: what the machine logs about its own work.
-/

namespace RegisterMachine

inductive Note where
  | labelRegistered (label : String) (address : Nat)
  | labelRedefined (label : String) (line : Nat)
  | functionRedefined (function : String) (line : Nat)
  | functionRegistered (function : String) (declaration close : Nat)
  | called (function : String) (callingLine : Nat)
  | returned (function : String)
  | jumped (label : String) (target : Nat)
  | jumpDeferred (target : Nat)
  | launched (function : String) (line : Nat)
  deriving DecidableEq, Repr

namespace Note

def text : Note → String
  | labelRegistered label address =>
    "DEBUG label registered label=" ++ label ++ " addr=" ++ toString address
  | labelRedefined label line =>
    "WARN label redefined label=" ++ label ++ " line=" ++ toString line
  | functionRedefined function line =>
    "WARN function redefined function=" ++ function ++ " line=" ++ toString line
  | functionRegistered function declaration close =>
    "DEBUG function registered function=" ++ function ++ " declaration=" ++ toString declaration ++
      " end=" ++ toString close
  | called function callingLine =>
    "TRACE call function=" ++ function ++ " calling_line=" ++ toString callingLine
  | returned function => "TRACE return function=" ++ function
  | jumped label target => "TRACE jump label=" ++ label ++ " target=" ++ toString target
  | jumpDeferred target => "TRACE jump deferred until return target=" ++ toString target
  | launched function line =>
    "DEBUG async call function=" ++ function ++ " line=" ++ toString line

end Note

end RegisterMachine

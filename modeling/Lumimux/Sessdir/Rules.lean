import Lumimux.Sessdir.Access

/-!
# What an access list says

`ruling` is the meaning of an access list. The program agrees with it line by line, as long as the lines fit its
buffers and have their numbers in digits.
-/

namespace Lumimux.Sessdir
open Lib List

def denied : AccessDecision := ⟨.deny, false⟩

/-- What the fields behind the subject grant. -/
def granted : List Bytes → AccessDecision
  | [] => denied
  | role :: options =>
    match parseRole role with
    | some role => if options.all (· = ascii "ask") then ⟨role, !options.isEmpty⟩ else denied
    | none => denied

variable {db : Databases} {ownerUid : UInt32} {who : AccessWho}

def Databases.empty : Databases := ⟨fun _ => none, fun _ => none, fun _ => none, fun _ _ => []⟩

end Lumimux.Sessdir

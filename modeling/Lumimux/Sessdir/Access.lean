import Lumimux.Lib.Lines
import Lumimux.Lib.Scan

/-!
# The access list of a session (`libsessdir/sessdir_access.c`)

The first line whose subject matches the peer decides; what cannot be read denies.
-/

namespace Lumimux.Sessdir
open Lib

inductive AccessRole where
  | deny
  | view
  | write
  deriving DecidableEq, Repr

structure AccessDecision where
  role : AccessRole
  ask : Bool
  deriving DecidableEq, Repr

structure Passwd where
  name : Bytes
  gid : UInt32
  deriving DecidableEq, Repr

/-- The system databases: `getpwnam`, `getpwuid`, `getgrnam` and the whole list of `getgrouplist`. -/
structure Databases where
  uidOf : Bytes → Option UInt32
  account : UInt32 → Option Passwd
  gidOf : Bytes → Option UInt32
  groupList : Bytes → UInt32 → List UInt32

def parseRole (tok : Bytes) : Option AccessRole :=
  if tok = ascii "write" then some .write
  else if tok = ascii "view" then some .view
  else if tok = ascii "deny" then some .deny
  else none

def lineText (line : Bytes) : Bytes := line.takeWhile fun b => b ≠ 0 ∧ b ≠ 35 ∧ b ≠ newline

end Lumimux.Sessdir

import Mathlib.Data.List.DropRight
import Lumimux.Sessdir.Layout

/-!
# The state file of a session (`libsessdir/sessdir_state.c`)

The file holds the focus, the order of the windows and the number map.
-/

namespace Lumimux.Sessdir
open Lib

def dotenvLoop : Nat → Bytes → List (Bytes × Bytes)
  | 0, _ => []
  | n + 1, text =>
    let p := text.dropWhile fun b => b = newline ∨ b = 13
    let next := (p.dropWhile (· ≠ newline)).drop 1
    let key := p.takeWhile (· ≠ 61)
    if p = [] then []
    else if p.head? = some 35 then dotenvLoop n (p.dropWhile (· ≠ newline))
    else if 61 ∉ p ∨ newline ∈ key then dotenvLoop n next
    else if key = [] ∨ key.length ≥ 256 then dotenvLoop n next
    else (key, kvValue (p.drop (key.length + 1))) :: dotenvLoop n next

def parseDotenv (data : Bytes) : List (Bytes × Bytes) := dotenvLoop (data.length + 1) data

def needsQuoting (val : Bytes) : Bool :=
  val.any fun b => b = 32 || b = 34 || b = 92 || b = 36 || b = 96 || b = 9

def escapeQuoted (val : Bytes) : Bytes :=
  val.flatMap fun b => if b = 34 ∨ b = 92 ∨ b = 36 ∨ b = 96 then [92, b] else [b]

def writeKv (key val : Bytes) : Bytes :=
  if needsQuoting val then kvQuoted key (escapeQuoted val) else kvText key val

/-- The contents of the state file. -/
structure StateCtx where
  focus : Int := 0
  order : List Int := []
  nums : List Int := []
  deriving DecidableEq, Repr

def maxWindows : Nat := 64

def formatPidList (list : List Int) : Bytes := ((list.map printInt).intersperse [32]).flatten

def toPid (v : Int) : Int := Int.bmod v 4294967296

def pidListLoop (max : Nat) (keepZero : Bool) : Nat → List Int → Bytes → List Int
  | 0, dst, _ => dst
  | n + 1, dst, text =>
    let p := text.dropWhile (· = 32)
    if text = [] ∨ dst.length ≥ max then dst
    else if p = [] then dst
    else
      match scanSigned p with
      | none => dst
      | some (v, rest) => pidListLoop max keepZero n (if v > 0 ∨ keepZero then dst ++ [toPid v] else dst) rest

def parsePidList (val : Bytes) (max : Nat) (keepZero : Bool) : List Int :=
  pidListLoop max keepZero (val.length + 1) [] val

def stateText (ctx : StateCtx) : Bytes :=
  let list (key : Bytes) (pids : List Int) : Bytes :=
    if (formatPidList pids).length > 0 then writeKv key (formatPidList pids) else []
  (if ctx.focus > 0 then writeKv (ascii "FOCUS") (printInt ctx.focus) else []) ++
    (list (ascii "WINDOW_ORDER") ctx.order ++ list (ascii "WINDOW_NUMS") ctx.nums)

def parseCb (ctx : StateCtx) (entry : Bytes × Bytes) : StateCtx :=
  if entry.1 = ascii "FOCUS" then { ctx with focus := toPid (((scanSigned entry.2).map (·.1)).getD 0) }
  else if entry.1 = ascii "WINDOW_ORDER" then { ctx with order := parsePidList entry.2 maxWindows false }
  else if entry.1 = ascii "WINDOW_NUMS" then { ctx with nums := parsePidList entry.2 maxWindows true }
  else ctx

def stateParse (file : Bytes) : StateCtx :=
  let ctx := (parseDotenv (file.takeWhile (· ≠ 0))).foldl parseCb {}
  if ctx.nums = [] ∧ ctx.order ≠ [] then { ctx with nums := ctx.order } else ctx

def stateWrite (works : Bool) (file : Bytes) (ctx : StateCtx) : Bytes × Int :=
  if works then (stateText ctx, 0) else (file, -1)

def numsTrim (nums : List Int) : List Int := nums.rdropWhile (· = 0)

def assignNum (nums : List Int) (pid : Int) : List Int :=
  match nums.findIdx? (· = 0) with
  | some slot => nums.set slot pid
  | none => if nums.length < maxWindows then nums ++ [pid] else nums

def stateAddServer (works : Bool) (file : Bytes) (pid : Int) : Bytes × Int :=
  let ctx := stateParse file
  if pid ∈ ctx.order then (file, 0)
  else if ctx.order.length ≥ maxWindows then (file, -1)
  else
    stateWrite works file
      { focus := if ctx.focus = 0 then pid else ctx.focus
        order := ctx.order ++ [pid]
        nums := assignNum ctx.nums pid }

def freeNum (nums : List Int) (pid : Int) : List Int :=
  match nums.findIdx? (· = pid) with
  | some slot => nums.set slot 0
  | none => nums

def stateRemoveServer (works : Bool) (file : Bytes) (pid : Int) : Bytes × Int :=
  let ctx := stateParse file
  let order := ctx.order.erase pid
  stateWrite works file
    { focus := if ctx.focus = pid then order.head?.getD 0 else ctx.focus
      order := order
      nums := numsTrim (freeNum ctx.nums pid) }

def findSlots (nums : List Int) (a b : Int) : Option Nat × Option Nat :=
  nums.zipIdx.foldl
    (fun found slot => if slot.1 = a then (some slot.2, found.2) else if slot.1 = b then (found.1, some slot.2) else found)
    (none, none)

def stateSwapNum (works : Bool) (file : Bytes) (a b : Int) : Bytes × Int :=
  if a = b then (file, 0)
  else
    let ctx := stateParse file
    match findSlots ctx.nums a b with
    | (some sa, some sb) => stateWrite works file { ctx with nums := (ctx.nums.set sa b).set sb a }
    | _ => (file, -1)

def stateSetNum (works : Bool) (file : Bytes) (pid target : Int) : Bytes × Int :=
  if target < 0 ∨ target ≥ maxWindows then (file, -1)
  else
    let ctx := stateParse file
    match ctx.nums.findIdx? (· = pid) with
    | none => (file, -1)
    | some sa =>
      if target = sa then (file, 0)
      else if target < ctx.nums.length then
        -- the occupant, a window or a spare, gets the old number
        let tmp := ctx.nums.getD target.toNat 0
        stateWrite works file { ctx with nums := (ctx.nums.set target.toNat pid).set sa tmp }
      else
        let spares : List Int := List.replicate (target.toNat - ctx.nums.length) 0
        stateWrite works file { ctx with nums := (ctx.nums ++ spares ++ [pid]).set sa 0 }

def stateSetFocus (works : Bool) (file : Bytes) (pid : Int) : Bytes × Int :=
  stateWrite works file { stateParse file with focus := pid }

def stateNums (file : Bytes) (max : Nat) : List Int := (stateParse file).nums.take max

abbrev Pid := { n : Int // 0 < n ∧ n < 2147483648 }

inductive NumCall where
  | add (pid : Pid)
  | remove (pid : Pid)
  | swapNum (a b : Pid)
  | setNum (pid : Pid) (target : Int)
  | setFocus (pid : Pid)

/-- A call that changes numbers, and its result. -/
def numCall (works : Bool) (file : Bytes) : NumCall → Bytes × Int
  | .add pid => stateAddServer works file pid
  | .remove pid => stateRemoveServer works file pid
  | .swapNum a b => stateSwapNum works file a b
  | .setNum pid target => stateSetNum works file pid target
  | .setFocus pid => stateSetFocus works file pid

def numRun (file : Bytes) (calls : List (NumCall × Bool)) : Bytes :=
  calls.foldl (fun file call => (numCall call.2 file call.1).1) file

end Lumimux.Sessdir

import Lumimux.Lib.Decimal

/-!
# The graphics store of a window

A window keeps the kitty graphics commands of its program, grouped by image.
-/

namespace Lumimux.Attach
open Lib

structure KgfxCtl where
  action : UInt8 := 0
  img : UInt32 := 0
  num : UInt32 := 0
  plc : UInt32 := 0
  /-- `m=`, as an `int` -/
  more : UInt32 := 0
  del : UInt8 := 0
  deriving DecidableEq, Repr

namespace KgfxCtl

def put (c : KgfxCtl) (key vch : UInt8) (val : UInt32) : KgfxCtl :=
  if key = 97 then { c with action := vch }  -- a
  else if key = 105 then { c with img := val }  -- i
  else if key = 73 then { c with num := val }  -- I
  else if key = 112 then { c with plc := val }  -- p
  else if key = 109 then { c with more := val }  -- m
  else if key = 100 then { c with del := vch }  -- d
  else c

def isDigit (b : UInt8) : Bool := 48 ≤ b && b ≤ 57

def parseKeys : Nat → Bytes → KgfxCtl → KgfxCtl
  | 0, _, c => c
  | _ + 1, [], c => c
  | fuel + 1, key :: p, c =>
    let p := if p.head? = some 61 then p.tail else p
    let vch := if p.head? = some 44 then 0 else p.head?.getD 0
    let val := (p.takeWhile isDigit).foldl (fun acc b => acc * 10 + (b - 48).toUInt32) 0
    let p := p.dropWhile isDigit
    parseKeys fuel (p.dropWhile (· != 44)).tail (c.put key vch val)

end KgfxCtl

def kgfxCtlParse : Bytes → KgfxCtl
  | 71 :: rest =>
    let ctl := rest.takeWhile (· != 59)
    KgfxCtl.parseKeys ctl.length ctl {}
  | _ => {}

/-- A recorded command with its group. -/
structure KgfxImg where
  raw : Bytes
  row : Int
  col : Int
  num : UInt32
  id : UInt32
  plc : UInt32
  grp : UInt32
  action : UInt8
  placed : Bool
  hidden : Bool := false
  sent : Bool := false
  once : Bool
  lost : Bool := false
  serial : Nat
  deriving DecidableEq, Repr

def KgfxImg.ctl (g : KgfxImg) : KgfxCtl := kgfxCtlParse ((g.raw.drop 2).take (g.raw.length - 4))

def kgfxStoreBytesMax : Nat := 16 * 2 ^ 20

/-- The store, and what was handed to the terminal. -/
structure Graphics where
  gfx : List KgfxImg := []
  gfxBytes : Nat := 0
  gfxGrpNext : UInt32 := 0
  gfxOpenGrp : UInt32 := 0
  gfxEmitNew : Bool := false
  gfxEmitAll : Bool := false
  recorded : Nat := 0
  handed : List Nat := []
  outside : Bool := false
  deriving DecidableEq, Repr

namespace Graphics

def winGfxGroupFind (s : Graphics) (img num : UInt32) : UInt32 :=
  ((s.gfx.reverse.find? fun g => (img != 0 && g.id == img) || (num != 0 && g.num == num)).map KgfxImg.grp).getD 0

def winGfxGroupId (s : Graphics) (grp : UInt32) : UInt32 :=
  ((s.gfx.find? fun g => g.grp == grp && g.id != 0).map KgfxImg.id).getD 0

def bytesOf (gs : List KgfxImg) : Nat := (gs.map fun g => g.raw.length).sum

def winGfxDropGroup (s : Graphics) (grp : UInt32) : Graphics :=
  { s with
    gfx := s.gfx.filter fun g => g.grp != grp
    gfxBytes := s.gfxBytes - bytesOf (s.gfx.filter fun g => g.grp == grp)
    gfxOpenGrp := if s.gfxOpenGrp = grp then 0 else s.gfxOpenGrp }

def winGfxDropAt (s : Graphics) (i : Nat) : Graphics :=
  { s with gfx := s.gfx.eraseIdx i, gfxBytes := s.gfxBytes - bytesOf s.gfx[i]?.toList }

def evict (grp : UInt32) : Nat → Graphics → Graphics
  | 0, s => s
  | fuel + 1, s =>
    match s.gfx with
    | [] => s
    | g :: _ => if kgfxStoreBytesMax < s.gfxBytes && g.grp != grp then evict grp fuel (s.winGfxDropGroup g.grp) else s

def winGfxAdd (s : Graphics) (row col : Int) (introducer : UInt8) (data : Bytes) (c : KgfxCtl) : Graphics :=
  let cont := c.action == 0 && c.img == 0 && c.num == 0 && s.gfxOpenGrp != 0
  let found := s.winGfxGroupFind c.img c.num
  let grp := if cont then s.gfxOpenGrp else if found = 0 then s.gfxGrpNext + 1 else found
  let raw := 0x1B :: introducer :: data ++ [0x1B, 0x5C]
  let g : KgfxImg :=
    { raw := raw, row := row, col := col, num := c.num, id := c.img, plc := c.plc, grp := grp, action := c.action
      placed := c.action == 84 || c.action == 112  -- T, p
      once := c.action == 113 || c.action == 100  -- q, d
      serial := s.recorded }
  let s :=
    { s with
      gfx := s.gfx ++ [g]
      gfxBytes := s.gfxBytes + raw.length
      gfxGrpNext := if !cont && found == 0 then grp else s.gfxGrpNext
      gfxOpenGrp := if c.more != 0 then grp else 0
      gfxEmitNew := true
      recorded := s.recorded + 1 }
  evict grp s.gfx.length s

def target (c : KgfxCtl) : Nat := if c.del = 0 then 97 else c.del.toNat

def lower (c : KgfxCtl) : Bool := 97 ≤ target c && target c ≤ 122

def sel (c : KgfxCtl) : Nat := if lower c then target c else target c + 32

def hit (c : KgfxCtl) (g : KgfxImg) : Bool :=
  if sel c = 97 then true
  else if sel c = 105 then g.id == c.img
  else if sel c = 110 then g.num == c.num
  else g.id == c.img && g.plc == c.plc

/-- The loop of `win_gfx_delete`. -/
def deleteLoop (c : KgfxCtl) : Nat → Graphics → Int → Nat → Graphics
  | 0, s, _, _ => s
  | fuel + 1, s, upto, i =>
    if (i : Int) < upto then
      match s.gfx[i]? with
      | none => s
      | some g =>
        if !hit c g || g.once then deleteLoop c fuel s upto (i + 1)
        else if !lower c then
          let s' := s.winGfxDropGroup g.grp
          deleteLoop c fuel s' (upto - (s.gfx.length - s'.gfx.length)) 0
        else if !g.placed then deleteLoop c fuel s upto (i + 1)
        else if g.action == 84 && (g.id != 0 || g.num != 0) then
          deleteLoop c fuel { s with gfx := s.gfx.set i { g with hidden := true } } upto (i + 1)
        else deleteLoop c fuel (s.winGfxDropAt i) (upto - 1) i
    else s

def winGfxDelete (s : Graphics) (c : KgfxCtl) (upto : Nat) : Graphics :=
  if sel c != 97 && sel c != 105 && sel c != 110 && sel c != 112 then s
  else deleteLoop c ((s.gfx.length + 1) * (upto + 1)) s upto 0

structure Rect where
  ox : Int
  oy : Int
  right : Int
  bottom : Int
  deriving DecidableEq, Repr

structure FlushEnv where
  lazy : Bool := true
  rect : Option Rect
  deriving DecidableEq, Repr

def Rect.shows (r : Rect) (g : KgfxImg) : Bool :=
  0 ≤ r.oy + g.row && 0 ≤ r.ox + g.col && r.oy + g.row < r.bottom && r.ox + g.col < r.right

def kgfxEmit (rect : Option Rect) (lazy : Bool) (g : KgfxImg) : KgfxImg :=
  let written := { g with sent := true, lost := lazy && g.lost }
  if lazy && (!g.placed || g.hidden) then g
  else if !g.placed then written
  else
    match rect with
    | none => g
    | some r => if g.hidden || r.shows g then written else g

def flushRound (env : FlushEnv) (s : Graphics) (i : Nat) (g : KgfxImg) : Graphics × Int :=
  if !s.gfxEmitAll && g.sent && !g.lost then (s, i)
  else
    let lazy := env.lazy && g.sent && !g.lost && s.winGfxGroupId g.grp != 0
    let s := { s with gfx := s.gfx.set i (kgfxEmit env.rect lazy g), handed := s.handed ++ [g.serial] }
    if g.action == 100 then
      let s' := s.winGfxDelete g.ctl i
      (s', i - (s.gfx.length - s'.gfx.length))
    else (s, i)

def flushLoop (env : FlushEnv) : Nat → Graphics → Int → Graphics
  | 0, s, _ => s
  | fuel + 1, s, i =>
    if i < s.gfx.length then
      match i with
      | .negSucc _ => { s with outside := true }
      | .ofNat i =>
        match s.gfx[i]? with
        | none => s
        | some g => let (s, i) := flushRound env s i g; flushLoop env fuel s (i + 1)
    else s

def forgetLoop : Nat → Graphics → Nat → Graphics
  | 0, s, _ => s
  | fuel + 1, s, i =>
    match s.gfx[i]? with
    | none => s
    | some g => if g.once && g.sent then forgetLoop fuel (s.winGfxDropAt i) i else forgetLoop fuel s (i + 1)

/-- Hands on what is due. -/
def pendingGfxFlush (s : Graphics) (env : FlushEnv) : Graphics :=
  if !s.gfxEmitNew && !s.gfxEmitAll then s
  else
    let s := flushLoop env s.gfx.length s 0
    let s := forgetLoop s.gfx.length s 0
    { s with gfxEmitNew := false, gfxEmitAll := false }

def markLost (s : Graphics) (img : UInt32) : Graphics :=
  let grp := s.winGfxGroupFind img 0
  { s with gfx := s.gfx.map fun g => if g.grp = grp then { g with lost := true } else g, gfxEmitNew := true }

def resolveId (s : Graphics) (num img : UInt32) : Graphics :=
  { s with gfx := s.gfx.map fun g => if g.num = num ∧ g.id = 0 then { g with id := img } else g }

inductive Event where
  | add (row col : Int) (introducer : UInt8) (data : Bytes) (c : KgfxCtl)
  | flush (env : FlushEnv)
  | replay
  | lost (img : UInt32)
  | resolved (num img : UInt32)
  deriving DecidableEq, Repr

def step (s : Graphics) (e : Event) : Graphics :=
  if s.outside then s
  else
    match e with
    | .add row col introducer data c => s.winGfxAdd row col introducer data c
    | .flush env => s.pendingGfxFlush env
    | .replay => { s with gfxEmitAll := true }
    | .lost img => s.markLost img
    | .resolved num img => s.resolveId num img

def run (s : Graphics) (events : List Event) : Graphics := events.foldl step s

end Graphics

end Lumimux.Attach

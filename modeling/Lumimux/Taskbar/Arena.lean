import Lumimux.Lib.Arena
import Lumimux.Taskbar.Expand

/-!
# The arena of the taskbar (`taskbar_arena_alloc`, `arena_ensure`)

Which strings an expansion hands out and reads. A function name is read behind the strings of its arguments, and the
trim modifiers read a string behind another one; without these every read is safe (`arena_safe_iff`).
-/

namespace Lumimux.Taskbar
open Lib List

def growLoop (need : Nat) : (fuel : Nat) → (size : Nat) → Nat
  | 0, size => size
  | fuel + 1, size => if size < need then growLoop need fuel (if size = 0 then 256 else size * 2) else size

def arenaEnsure (size need : Nat) : Nat := growLoop need need size

def readStr (src : Option Nat) : Script := fun _ => (src.map .read).toList

def readLast : Script := fun n => [.read (n - 1)]

def strndup (src : Option Nat) (len : Nat) : Script := fun _ => (src.map .read).toList ++ [.alloc len]

def strdup (src : Option Nat) (len : Nat) : Script := (readStr src).andThen (strndup src len)

def prefixesTried (w : World) (longest : Bool) (pat val : Text) : List Nat :=
  (prefixLengths longest val).takeWhile (fun i => !w.fnmatch pat (val.take i)) ++
    ((prefixLengths longest val).find? fun i => w.fnmatch pat (val.take i)).toList

def tryPrefixes (pat : Nat) : (tried : List Nat) → Script
  | [] => fun _ => []
  | i :: tried => (((strndup none i).andThen (readStr (some pat))).andThen readLast).andThen (tryPrefixes pat tried)

def Func.touch (w : World) (f : Func) (args : Nat) (text : Text) : Script :=
  let result := (w.callFunc f text).1
  let before := match f with
    | .fill => none
    | .shell => if w.shellAllow = [] then none else some args
    | _ => some args
  let behind := match f with
    | .fill | .words | .shell => none
    | .lastword | .word => if result = [] then none else some args
    | _ => some args
  (readStr before).andThen (strndup behind (if f = .strip then text.length else result.length))

def Modifier.touch (w : World) (inner : Text → Script) (fmt : Option Nat) (val : Text) : Modifier → Script
  | .plain => strdup none val.length
  -- the default text is copied to the heap
  | .default text => if val = [] then inner text else strdup none val.length
  | .slice offset length => strndup none (Taskbar.slice offset length val).length
  | .trimPrefix longest pat => fun n =>
    (((strndup fmt pat.length).andThen (tryPrefixes n (prefixesTried w longest pat val))).andThen
      (strdup none (Taskbar.trimPrefix w longest pat val).length)) n
  | .trimSuffix longest pat => fun n =>
    ((strndup fmt pat.length).andThen ((readStr (if val = [] then none else some n)).andThen
      ((suffixFound w longest pat val).elim (strdup none val.length) fun i =>
        (strndup none i).andThen (strdup (some (n + 1)) i)))) n

def dispatch (w : World) (name text : Text) : Script := fun n =>
  (((funcTable.find? (·.1 = name)).map (·.2)).elim (strdup none 0) fun f => f.touch w (n - 1) text) n

def Piece.touch (w : World) (value : Text → Text) (inner : Option Nat → Text → Script) (fmt : Option Nat) : Piece → Script
  | .char _ => fun _ => []
  | .nothing => (strdup none 0).andThen readLast
  | .bare name => (strndup fmt name.length).andThen readLast
  | .braced name modifier =>
    (((strndup fmt name.length).andThen readLast).andThen
      (modifier.touch w (inner none) fmt ((w.vars name).getD []))).andThen readLast
  | .call name args => fun n =>
    (((strndup fmt name.length).andThen ((strndup fmt args.length).andThen (inner (some (n + 1)) args))).andThen
      -- the name is compared with the table
      ((readStr (some n)).andThen ((dispatch w name (value args)).andThen readLast))) n

def touchLoop (fmt : Option Nat) (touch : Piece → Script) : List Piece → Script
  | [] => readStr fmt
  | piece :: rest => ((readStr fmt).andThen (touch piece)).andThen (touchLoop fmt touch rest)

def World.touch (w : World) : (levels : Nat) → (fmt : Option Nat) → Text → Script
  | 0, _, _ => strdup none 0
  | levels + 1, fmt, text =>
    let value (text : Text) : Text := (w.expand levels text).strings.flatten
    (touchLoop fmt (Piece.touch w value (w.touch levels) fmt) (pieces 0 text)).andThen
      (strdup none (w.expand (levels + 1) text).strings.flatten.length)

def World.accesses (w : World) (format : Text) : List Access := ((w.touch (maxRecurse + 1) none format).andThen readLast) 0

section
variable {w : World} {src : Option Nat} {n len h : Nat} {S : Text → Prop}

@[simp] theorem allocs_readStr : allocs (readStr src n) = 0 := by cases src <;> rfl

@[simp] theorem allocs_strndup : allocs (strndup src len n) = 1 := by cases src <;> rfl

@[simp] theorem allocs_strdup : allocs (strdup src len n) = 1 := by simp [strdup]

@[simp] theorem immediate_readStr_none : Immediate n (readStr none n) := trivial

@[simp] theorem immediate_readStr_some : Immediate n (readStr (some h) n) ↔ n ≤ h + 1 := and_iff_left trivial

@[simp] theorem immediate_strndup_none : Immediate n (strndup none len n) := trivial

@[simp] theorem immediate_strdup_none : Immediate n (strdup none len n) := trivial

@[simp] theorem immediate_readLast : Immediate n (readLast n) := ⟨by simp only [allocs]; omega, trivial⟩

theorem immediate_strdup_some : Immediate n (strdup (some h) len n) ↔ n ≤ h := by
  simp [strdup, strndup, Immediate, allocs]
  omega

theorem immediate_tryPrefixes (tried : List Nat) : Immediate (n + 1) (tryPrefixes n tried (n + 1)) ↔ tried = [] := by
  cases tried with
  | nil => exact iff_of_true trivial rfl
  | cons i tried => simp [tryPrefixes]

theorem prefixesTried_eq_nil (longest : Bool) (pat val : Text) : prefixesTried w longest pat val = [] ↔ val = [] := by
  have lengths : prefixLengths longest val = [] ↔ val = [] := by
    unfold prefixLengths
    split_ifs <;> simp
  rw [← lengths, prefixesTried, append_eq_nil_iff]
  cases prefixLengths longest val with
  | nil => exact ⟨fun _ => rfl, fun _ => ⟨rfl, rfl⟩⟩
  | cons i rest =>
    simp only [takeWhile_cons, find?_cons]
    cases w.fnmatch pat (val.take i) <;> simp

/-- The modifier reads no string of the arena behind another. -/
def Modifier.Steady (w : World) (S : Text → Prop) (val : Text) : Modifier → Prop
  | .default text => val = [] → S text
  | .trimPrefix _ _ => val = []
  | .trimSuffix longest pat => suffixFound w longest pat val = none
  | _ => True

/-- The piece calls no function, and its modifier is steady. -/
def Piece.Steady (w : World) (S : Text → Prop) : Piece → Prop
  | .braced name modifier => modifier.Steady w S ((w.vars name).getD [])
  | .call _ _ => False
  | _ => True

/-- The template calls no function, trims no prefix of a value and no suffix that matches, also in the defaults it uses. -/
def World.Steady (w : World) : (levels : Nat) → Text → Prop
  | 0, _ => True
  | levels + 1, text => ∀ piece ∈ pieces 0 text, piece.Steady w (w.Steady levels)

theorem immediate_modifier {inner : Text → Script} (ih : ∀ text n, Immediate n (inner text n) ↔ S text) (val : Text)
    (modifier : Modifier) : Immediate n (modifier.touch w inner none val n) ↔ modifier.Steady w S val := by
  cases modifier with
  | plain | slice => exact iff_of_true trivial trivial
  | default text =>
    simp only [Modifier.touch, Modifier.Steady]
    split_ifs with unset
    · simp only [ih, unset, true_imp_iff]
    · simp only [immediate_strdup_none, unset, false_imp_iff]
  | trimPrefix longest pat => simp [Modifier.touch, Modifier.Steady, immediate_tryPrefixes, prefixesTried_eq_nil]
  | trimSuffix longest pat =>
    have matched : Immediate (n + 1) (readStr (if val = [] then none else some n) (n + 1)) := by split_ifs <;> simp
    cases found : suffixFound w longest pat val with
    | none => simp [Modifier.touch, Modifier.Steady, found, matched]
    | some i => simp [Modifier.touch, Modifier.Steady, found, immediate_strdup_some]

theorem immediate_piece {value : Text → Text} {inner : Option Nat → Text → Script}
    (ih : ∀ text n, Immediate n (inner none text n) ↔ S text) (piece : Piece) (n : Nat) :
    Immediate n (piece.touch w value inner none n) ↔ piece.Steady w S := by
  cases piece with
  | char => exact iff_of_true trivial trivial
  | nothing | bare => simp [Piece.touch, Piece.Steady]
  | braced name modifier => simp [Piece.touch, Piece.Steady, immediate_modifier ih]
  | call name args =>
    refine iff_of_false (fun immediate => ?_) id
    simp only [Piece.touch, immediate_andThen, allocs_andThen, allocs_strndup, immediate_readStr_some] at immediate
    omega

theorem immediate_touch (levels : Nat) (text : Text) (n : Nat) :
    Immediate n (w.touch levels none text n) ↔ w.Steady levels text := by
  induction levels generalizing text n with
  | zero => exact iff_of_true trivial trivial
  | succ levels ih =>
    simp only [World.touch, World.Steady, immediate_andThen, immediate_strdup_none, and_true]
    induction pieces 0 text generalizing n with
    | nil => simp [touchLoop]
    | cons piece rest more => simp [touchLoop, immediate_piece ih, more]

end

/-- The text of an expansion, as far as the arena is concerned: none if a stale string is read. -/
def World.result (w : World) (capacity : Nat) (format : Text) : Option Text :=
  if Safe arenaEnsure capacity (w.accesses format) then some (w.taskbar format).strings.flatten else none

/-- **No stale string is read, whatever the capacity, exactly for steady templates**; their text does not depend on it. -/
theorem arena_safe_iff (w : World) (format : Text) :
    ((∀ capacity, Safe arenaEnsure capacity (w.accesses format)) ↔ w.Steady (maxRecurse + 1) format) ∧
      (w.Steady (maxRecurse + 1) format →
        ∀ capacity, w.result capacity format = some (w.taskbar format).strings.flatten) := by
  have safe : (∀ capacity, Safe arenaEnsure capacity (w.accesses format)) ↔ w.Steady (maxRecurse + 1) format := by
    rw [safe_iff_immediate, World.accesses, immediate_andThen, immediate_touch]
    exact and_iff_left immediate_readLast
  exact ⟨safe, fun steady capacity => if_pos (safe.mpr steady capacity)⟩

theorem long_argument_moves :
    ¬Safe arenaEnsure 256 (hostile.accesses (ascii "$(strip " ++ replicate 300 0x61 ++ ascii ")")) := by
  decide +kernel

/-- The run of an expansion, if it is defined: no stale string of the arena is read, no emission goes past its buffer and
no slice is copied from behind the value. -/
def World.outcome (w : World) (capacity : Nat) (format : Text) : Option Run :=
  if Safe arenaEnsure capacity (w.accesses format) ∧ (∀ e ∈ (w.taskbar format).emits, e.pos + e.len < e.need) ∧
      ∀ s ∈ (w.taskbar format).slices, s.1 ≤ s.2 then some (w.taskbar format)
  else none

example : (hostile.taskbar (ascii "$(strip $x)")).strings = [ascii "$(shell rm)"] := by decide +kernel

end Lumimux.Taskbar

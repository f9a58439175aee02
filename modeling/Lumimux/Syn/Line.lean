import Lumimux.Lib.Decimal
import Lumimux.Lib.Run

/-!
# The syntax highlighter (`libsyntax/syntax.c`)

A line through the state machine of a table. Indices into the table carry that they are in range.
-/

namespace Lumimux.Syn
open Lib

inductive SynStyle
  | text
  | comment
  | keyword
  | type
  | constant
  | string
  | operator
  | function
  | preproc
  deriving DecidableEq, Repr

/-- A class of bytes: literal ones and ranges, whose `-` is literal at the start and at the end. -/
def classMatch : Bytes → UInt8 → Bool
  | lo :: 0x2D :: hi :: cls, c => (lo ≤ c && c ≤ hi) || classMatch cls c
  | lo :: cls, c => c = lo || classMatch cls c
  | [], _ => false

structure SynKw where
  word : Bytes
  style : SynStyle

structure SynRule (nstates : Nat) where
  cls : Bytes
  next : Fin nstates
  recolor : UInt8 := 0
  buffer : Bool := false
  noeat : Bool := false
  recolorBuf : Bool := false

structure SynState (nstates : Nat) where
  style : SynStyle
  default : Fin nstates
  defNoeat : Bool := false
  defRecolor : UInt8 := 0
  rules : List (SynRule nstates) := []
  keywords : Option (List SynKw) := none

structure SynTable where
  nstates : Nat
  nocase : Bool := false
  states : Fin nstates → SynState nstates

def foldCase (nocase : Bool) (c : UInt8) : UInt8 := if nocase ∧ 0x41 ≤ c ∧ c ≤ 0x5A then c + 32 else c

def kwEq (nocase : Bool) : Bytes → Bytes → Int
  | a :: word, b :: kw =>
    if foldCase nocase a ≠ foldCase nocase b then (foldCase nocase a).toNat - (foldCase nocase b).toNat
    else kwEq nocase word kw
  | _ :: _, [] => 1
  | [], _ :: _ => -1
  | [], [] => 0

def kwLookup (nocase : Bool) (kws : List SynKw) (word : Bytes) : SynStyle :=
  ((kws.find? fun kw => kwEq nocase word kw.word = 0).map SynKw.style).getD .text

/-- The output array, whose bytes are `none` until they are written. -/
abbrev Styles := List (Option SynStyle)

/-- Bytes `lo` to `hi` of the array take a style. -/
def paint (lo hi : Nat) (style : SynStyle) (out : Styles) : Styles :=
  out.mapIdx fun k old => if lo ≤ k ∧ k < hi then some style else old

structure Scan (nstates : Nat) where
  pos : Nat := 0
  state : Fin nstates
  bufStart : Option Nat := none
  out : Option Styles

namespace SynTable

variable (sy : SynTable) (bytes : Bytes)

/-- The line end is read as a newline. -/
def charAt (pos : Nat) : UInt8 := bytes.getD pos 0x0A

def rule (ch : UInt8) (state : Fin sy.nstates) : Option (SynRule sy.nstates) :=
  (sy.states state).rules.find? fun rule => classMatch rule.cls ch

/-- What both kinds of transition do: a byte takes the style of its state, the last ones that of the target, and the
identifier buffer the style it is recoloured to. -/
def move (s : Scan sy.nstates) (target : Fin sy.nstates × Bool) (recolor : UInt8) (bufStart : Option Nat)
    (word : Option (Nat × SynStyle)) : Scan sy.nstates where
  pos := if target.2 then s.pos else s.pos + 1
  state := target.1
  bufStart := if word.isSome then none else bufStart
  out := s.out.map fun out =>
    let out := paint s.pos (s.pos + 1) (sy.states s.state).style out
    let out := paint (s.pos + 1 - recolor.toNat) (s.pos + 1) (sy.states target.1).style out
    word.elim out fun word => paint word.1 s.pos word.2 out

def step (s : Scan sy.nstates) : Scan sy.nstates :=
  let st := sy.states s.state
  match sy.rule (charAt bytes s.pos) s.state with
  | some rule =>
    let bufStart := if rule.buffer then some s.pos else s.bufStart
    let word := if rule.recolorBuf ∧ s.out.isSome then bufStart.map (·, (sy.states rule.next).style) else none
    sy.move s (rule.next, rule.noeat) rule.recolor bufStart word
  | none =>
    let lookup kws start := (start, kwLookup sy.nocase kws ((bytes.take s.pos).drop start))
    let word := if st.defNoeat then st.keywords.bind fun kws => s.bufStart.map (lookup kws) else none
    sy.move s (st.default, st.defNoeat) st.defRecolor s.bufStart word

/-- The loop of `syn_line`, given what is left of its guard: where it stops, whether the guard fired, and the
positions that were eaten. -/
def loop : Nat → Scan sy.nstates → Scan sy.nstates × Bool × List Nat
  | 0, s => (s, true, [])
  | guard + 1, s =>
    let s' := sy.step bytes s
    let eaten := if s.pos < s'.pos then [s.pos] else []
    if s'.pos > bytes.length then (s', false, eaten)
    else
      let (last, fired, later) := loop guard s'
      (last, fired, eaten ++ later)

def synLine (state : Fin sy.nstates) (out : Option Styles) : Scan sy.nstates × Bool × List Nat :=
  sy.loop bytes ((bytes.length + 1) * (sy.nstates + 4) + 32) { state := state, out := out }

/-- Where a byte moves the machine, and whether it is kept. -/
def next (ch : UInt8) (state : Fin sy.nstates) : Fin sy.nstates × Bool :=
  match sy.rule ch state with
  | some rule => (rule.next, rule.noeat)
  | none => ((sy.states state).default, (sy.states state).defNoeat)

def Keeps (ch : UInt8) (s s' : Fin sy.nstates) : Prop := sy.next ch s = (s', true)

/-- No byte allows a cycle of transitions that keep it. -/
def Acyclic : Prop := ∀ ch s, ¬ Relation.TransGen (sy.Keeps ch) s s

variable {sy bytes} {s t : Scan sy.nstates} {n guard : Nat} {shown : Bool}

theorem step_move (s : Scan sy.nstates) :
    ∃ recolor bufStart word, sy.step bytes s = sy.move s (sy.next (charAt bytes s.pos) s.state) recolor bufStart word := by
  unfold step next
  split <;> exact ⟨_, _, _, rfl⟩

theorem step_cases (s : Scan sy.nstates) :
    (sy.step bytes s).pos = s.pos ∧ sy.Keeps (charAt bytes s.pos) s.state (sy.step bytes s).state ∨
      (sy.step bytes s).pos = s.pos + 1 := by
  obtain ⟨_, _, _, moved⟩ := @step_move sy bytes s
  rw [moved]
  cases kept : (sy.next (charAt bytes s.pos) s.state).2 with
  | true => exact .inl ⟨if_pos kept, Prod.ext rfl kept⟩
  | false => exact .inr (if_neg (by rw [kept]; decide))

theorem step_congr (same : s.pos = t.pos ∧ s.state = t.state) :
    (sy.step bytes s).pos = (sy.step bytes t).pos ∧ (sy.step bytes s).state = (sy.step bytes t).state := by
  obtain ⟨_, _, _, left⟩ := @step_move sy bytes s
  obtain ⟨_, _, _, right⟩ := @step_move sy bytes t
  rw [left, right]
  simp only [move, same, and_self]

theorem loop_congr (same : s.pos = t.pos ∧ s.state = t.state) :
    (sy.loop bytes guard s).1.state = (sy.loop bytes guard t).1.state := by
  induction guard generalizing s t with
  | zero => exact same.2
  | succ guard ih =>
    have next := @step_congr sy bytes _ _ same
    simp only [loop, ← next.1]
    split
    · exact next.2
    · exact ih next

theorem paint_unset {lo hi style out k} (unset : (paint lo hi style out)[k]? = some none) :
    out[k]? = some none ∧ ¬ (lo ≤ k ∧ k < hi) := by
  rw [paint, List.getElem?_mapIdx] at unset
  obtain ⟨old, found, same⟩ := Option.map_eq_some_iff.mp unset
  split at same
  · cases same
  · exact ⟨same ▸ found, by assumption⟩

/-- If there is an array, the bytes in front of the position have their styles. -/
structure Styled (n : Nat) (shown : Bool) (s : Scan sy.nstates) : Prop where
  given : s.out.isSome = shown
  set : ∀ out ∈ s.out, out.length = n ∧ ∀ k < s.pos, out[k]? ≠ some none

theorem step_styled (h : Styled n shown s) : Styled n shown (sy.step bytes s) := by
  have pos := @step_cases sy bytes s
  obtain ⟨recolor, bufStart, word, moved⟩ := @step_move sy bytes s
  refine ⟨by rw [moved, move, Option.isSome_map, h.given], fun out member => ?_⟩
  rw [moved] at member
  obtain ⟨old, before, rfl⟩ := Option.mem_map.mp member
  obtain ⟨length, set⟩ := h.set old before
  refine ⟨?_, fun k low unset => ?_⟩
  · rw [← length]
    cases word <;> simp [paint]
  · have left : old[k]? = some none ∧ ¬ (s.pos ≤ k ∧ k < s.pos + 1) := by
      cases word with
      | none => exact paint_unset (paint_unset unset).1
      | some word => exact paint_unset (paint_unset (paint_unset unset).1).1
    exact set k (by omega) left.1

/-- What bounds the steps left: for each byte no more than there are states, for the current one those still ahead. -/
noncomputable def left (bytes : Bytes) (s : Scan sy.nstates) : Nat :=
  (bytes.length - s.pos) * sy.nstates + ahead (sy.Keeps (charAt bytes s.pos)) s.state

section
variable (acyclic : sy.Acyclic)
include acyclic

theorem ahead_lt_nstates (ch : UInt8) (state : Fin sy.nstates) : ahead (sy.Keeps ch) state < sy.nstates :=
  lt_of_lt_of_eq (ahead_lt_card (acyclic ch state)) (Nat.card_fin _)

theorem left_step (more : (sy.step bytes s).pos ≤ bytes.length) : left bytes (sy.step bytes s) < left bytes s := by
  unfold left
  rcases @step_cases sy bytes s with ⟨pos, kept⟩ | pos
  · rw [pos]
    exact Nat.add_lt_add_left (ahead_lt (acyclic _ _) kept) _
  · have few := ahead_lt_nstates acyclic (charAt bytes (sy.step bytes s).pos) (sy.step bytes s).state
    rw [show bytes.length - s.pos = bytes.length - (sy.step bytes s).pos + 1 by omega, Nat.succ_mul]
    omega

theorem loop_finishes (inside : s.pos ≤ bytes.length) (enough : left bytes s < guard) (styled : Styled bytes.length shown s) :
    (sy.loop bytes guard s).2 = (false, List.range' s.pos (bytes.length + 1 - s.pos)) ∧
      (sy.loop bytes guard s).1.pos = bytes.length + 1 ∧ Styled bytes.length shown (sy.loop bytes guard s).1 := by
  induction guard generalizing s with
  | zero => omega
  | succ guard ih =>
    have styled' := @step_styled sy bytes _ _ _ styled
    have next := @step_cases sy bytes s
    by_cases ends : (sy.step bytes s).pos > bytes.length
    · have last : s.pos = bytes.length := by omega
      simp only [loop, if_pos ends]
      refine ⟨?_, by omega, styled'⟩
      simp [last, ends]
    · have fewer := left_step acyclic (not_lt.mp ends)
      obtain ⟨result, last⟩ := ih (not_lt.mp ends) (by omega) styled'
      simp only [loop, if_neg ends, result]
      refine ⟨?_, last⟩
      rcases next with ⟨kept, -⟩ | eaten
      · simp [kept]
      · rw [show bytes.length + 1 - s.pos = bytes.length + 1 - (sy.step bytes s).pos + 1 by omega, List.range'_succ]
        simp [eaten]

/-- **A table without a cycle of kept bytes eats every line**: the guard does not fire, every byte and the line end are
eaten once and in order, every byte gets a style, and the end state is the same without an output array. -/
theorem synLine_eats (bytes : Bytes) (state : Fin sy.nstates) :
    let shown := sy.synLine bytes state (some (List.replicate bytes.length none))
    let bare := sy.synLine bytes state none
    (shown.2 = (false, List.range (bytes.length + 1)) ∧ bare.2 = (false, List.range (bytes.length + 1))) ∧
      (∃ styles, shown.1.out = some styles ∧ styles.length = bytes.length ∧ none ∉ styles) ∧
      shown.1.state = bare.1.state := by
  have finishes (out : Option Styles) (fresh : ∀ styles ∈ out, styles.length = bytes.length) :
      (sy.synLine bytes state out).2 = (false, List.range (bytes.length + 1)) ∧
        (sy.synLine bytes state out).1.pos = bytes.length + 1 ∧ Styled bytes.length out.isSome (sy.synLine bytes state out).1 := by
    rw [List.range_eq_range']
    refine loop_finishes acyclic (Nat.zero_le _) ?_ ⟨rfl, fun styles member => ⟨fresh styles member, by simp⟩⟩
    have few := ahead_lt_nstates acyclic (charAt bytes 0) state
    simp only [left, Nat.sub_zero, Nat.add_mul, Nat.mul_add]
    omega
  intro shown bare
  obtain ⟨eaten, pos, given, set⟩ := finishes (some (List.replicate bytes.length none)) (by simp)
  obtain ⟨styles, found⟩ := Option.isSome_iff_exists.mp given
  obtain ⟨length, set⟩ := set styles found
  refine ⟨⟨eaten, (finishes none (by simp)).1⟩, ⟨styles, found, length, fun unset => ?_⟩, loop_congr ⟨rfl, rfl⟩⟩
  obtain ⟨k, unset⟩ := List.mem_iff_getElem?.mp unset
  obtain ⟨low, -⟩ := List.getElem?_eq_some_iff.mp unset
  exact set k (by omega) unset

end

/-- State 1 hands every byte on to state 0, which eats it. -/
def handsOn : SynTable where
  nstates := 2
  states s := { style := .text, default := 0, defNoeat := s = 1 }

theorem handsOn_acyclic : handsOn.Acyclic := by
  have down : ∀ s s' : Fin 2, ((0 : Fin 2), decide (s = 1)) = (s', true) → s' < s := by decide
  exact fun _ s cycle => lt_irrefl s (Relation.transGen_minimal down _ _ cycle)

theorem handsOn_eats : (handsOn.synLine (ascii "ab") (1 : Fin 2) none).2.1 = false :=
  congrArg Prod.fst (synLine_eats handsOn_acyclic (ascii "ab") (1 : Fin 2)).1.2

end SynTable

end Lumimux.Syn

import Lumimux.Lib.Run
import Lumimux.Vt.Parse

/-!
# The buffers of the parser (`libvt/vt_parse.c`)

The bounds of the four accumulators and of every store into them, where any `realloc` may fail.
-/

namespace Lumimux.Vt
open Lib Utf8 List

/-- A store into an array, whose size is the one when the store is made. -/
structure Store where
  index : Nat
  size : Nat

def finishStores (p : VtParse) : List Store :=
  if p.params.length < vtMaxParams then [⟨p.params.length, vtMaxParams⟩] else []

def emitOscStores (p : VtParse) : List Store := if p.osc.cap ≠ 0 then [⟨p.osc.data.length, p.osc.cap⟩] else []

def StrBuf.appendStores (init max reserve : Nat) (b : StrBuf) (c : UInt8) : List Store :=
  if b.data.length + reserve ≥ max then [] else [⟨b.data.length, (b.append init max reserve c).cap⟩]

/-- The stores that `process_byte` makes, in its branches. -/
def byteStores (p : VtParse) (c : UInt8) : List Store :=
  if c = 0x1B then if p.state = .oscString then emitOscStores p else []
  else if p.state ≠ .ground ∧ p.state ≠ .oscString ∧ 0x07 ≤ c ∧ c ≤ 0x0D then []
  else
    match p.state with
    | .ground =>
      if p.utf8Need > 0 ∧ c &&& 0xC0 = 0x80 then [⟨p.utf8Buf.length, 4⟩] else if c < 0x80 then [] else [⟨0, 4⟩]
    | .csiEntry => if c = 0x3B ∨ (0x40 ≤ c ∧ c ≤ 0x7E) then finishStores p else []
    | .csiParam => if c = 0x3B ∨ (0x20 ≤ c ∧ c ≤ 0x2F) ∨ (0x40 ≤ c ∧ c ≤ 0x7E) then finishStores p else []
    | .dcsPassthru => p.dcs.appendStores vtDcsInit vtDcsMax 0 c
    | .oscString => if c = 0x07 then emitOscStores p else p.osc.appendStores vtOscInit vtOscMax 1 c
    | _ => []

def StrBuf.grows (max reserve : Nat) (b : StrBuf) : Bool := b.data.length + reserve < max ∧ b.data.length + reserve ≥ b.cap

/-- Whether a byte makes the parser call `realloc`. -/
def VtParse.reallocs (p : VtParse) (c : UInt8) : Bool :=
  match p.state with
  | .oscString => c ≠ 0x1B ∧ c ≠ 0x07 ∧ p.osc.grows vtOscMax 1
  | .dcsPassthru => c ≠ 0x1B ∧ ¬ (0x07 ≤ c ∧ c ≤ 0x0D) ∧ p.dcs.grows vtDcsMax 0
  | _ => false

inductive ParseEvent
  | byte (c : UInt8) (alloc : Bool)
  | reset

/-- `process_byte`, whose append gives up if `realloc` fails, and `vt_parse_reset`. -/
def VtParse.step (w : WidthTable) (p : VtParse) : ParseEvent → VtParse × List Store
  | .byte c alloc => if p.reallocs c && !alloc then (p, []) else ((processByte w p c).1, byteStores p c)
  | .reset => (p.reset, [])

def VtParse.run (w : WidthTable) (p : VtParse) (events : List ParseEvent) : VtParse :=
  events.foldl (fun p e => (p.step w e).1) p

/-- No buffer and no data, or the data and what is kept free behind it within the capacity. -/
structure StrBuf.Fits (max reserve : Nat) (b : StrBuf) : Prop where
  room : b.data.length = 0 ∧ b.cap = 0 ∨ b.data.length + reserve ≤ b.cap
  cap : b.cap ≤ max

theorem StrBuf.Fits.cut {max reserve b} (fits : StrBuf.Fits max reserve b) (n : Nat) :
    StrBuf.Fits max reserve { b with data := b.data.take n } := by
  obtain ⟨room, cap⟩ := fits
  refine ⟨?_, cap⟩
  simp only [length_take]
  omega

theorem StrBuf.Fits.append {init max reserve b} (fits : StrBuf.Fits max reserve b) (starts : reserve < init) (c : UInt8) :
    (b.append init max reserve c).Fits max reserve ∧ ∀ s ∈ b.appendStores init max reserve c, s.index < s.size := by
  obtain ⟨room, cap⟩ := fits
  unfold StrBuf.appendStores StrBuf.append
  split
  · exact ⟨⟨room, cap⟩, forall_mem_nil _⟩
  · extract_lets grown
    have more : b.data.length + 1 + reserve ≤ grown ∨ b.data.length + reserve < b.cap := by
      show _ ≤ (if b.cap = 0 then init else b.cap * 2) ∨ _
      split <;> omega
    refine ⟨⟨?_, ?_⟩, forall_mem_singleton.mpr ?_⟩
    all_goals
      simp only [length_append, length_singleton]
      split <;> omega

structure VtParse.Bounded (p : VtParse) : Prop where
  utf8 : p.utf8Buf.length = 0 ∧ p.utf8Need = 0 ∨ p.utf8Buf.length < p.utf8Need
  need : p.utf8Need ≤ 4
  params : p.params.length ≤ vtMaxParams
  osc : p.osc.Fits vtOscMax 1
  dcs : p.dcs.Fits vtDcsMax 0

namespace VtParse.Bounded

variable {p : VtParse} (h : p.Bounded)
include h

theorem utf8Cancel : (utf8Cancel p).Bounded := { h with utf8 := .inl ⟨rfl, rfl⟩, need := Nat.zero_le _ }

theorem csiFinishParam : (csiFinishParam p).Bounded := by
  refine { h with params := ?_ }
  have := h.params
  simp only [Vt.csiFinishParam]
  split
  · rwa [length_append, length_singleton]
  · exact this

theorem emitOsc : (emitOsc p).1.Bounded := { h with osc := h.osc.cut _ }

theorem groundByte (w : WidthTable) (c : UInt8) : (groundByte w p c).1.Bounded := by
  unfold Vt.groundByte
  split_ifs
  iterate 3 exact h
  split
  · rename_i need _ lead
    have small : 1 < need ∧ need ≤ 4 := by
      unfold leadByte at lead
      split_ifs at lead <;> simp at lead <;> omega
    exact { h with utf8 := .inr small.1, need := small.2 }
  · exact h.utf8Cancel

theorem processGround (w : WidthTable) (c : UInt8) : (processGround w p c).1.Bounded := by
  unfold Vt.processGround
  split_ifs with multi continues
  · extract_lets buf
    split
    · exact h.utf8Cancel
    · rename_i short
      exact { h with utf8 := .inr (not_le.mp short) }
  · exact h.utf8Cancel.groundByte w c
  · exact h.groundByte w c

theorem processEsc : (processEsc p).1.Bounded := by
  unfold Vt.processEsc
  split
  rename_i result
  split at result <;> cases result
  · exact { h.utf8Cancel with dcs := h.dcs.cut 0 }
  · exact { h.emitOsc.utf8Cancel with }
  · exact { h.utf8Cancel with }

theorem processByte (w : WidthTable) (c : UInt8) : (processByte w p c).1.Bounded := by
  have finished := h.csiFinishParam
  unfold Vt.processByte processEscape processEscapeIntermed processCsiEntry processCsiParam processCsiIntermed
    processCsiIgnore processOsc
  split
  · exact h.processEsc
  split
  · exact h
  split
  · exact h.processGround w c
  all_goals try split_ifs
  -- a byte changes at most one of the accumulators
  all_goals first
    | exact { h with }
    | exact { finished with }
    | exact { h with params := Nat.zero_le _ }
    | exact { h with osc := h.osc.cut 0 }
    | exact { h with dcs := h.dcs.cut 0 }
    | exact { h with dcs := (h.dcs.append (by decide) c).1 }
    | exact { h.emitOsc with }
    | exact { h with osc := (h.osc.append (by decide) c).1 }

theorem byteStores (c : UInt8) : ∀ s ∈ byteStores p c, s.index < s.size := by
  have utf8 := h.utf8
  have need := h.need
  have room := h.osc.room
  unfold Vt.byteStores emitOscStores finishStores
  repeat' split
  all_goals first
    | exact forall_mem_nil _
    | exact (h.dcs.append (by decide) c).2
    | exact (h.osc.append (by decide) c).2
    | exact forall_mem_singleton.mpr (by simp only; omega)

theorem step (w : WidthTable) (e : ParseEvent) : (p.step w e).1.Bounded ∧ ∀ s ∈ (p.step w e).2, s.index < s.size := by
  cases e with
  | byte c alloc =>
    rw [VtParse.step]
    split
    · exact ⟨h, forall_mem_nil _⟩
    · exact ⟨h.processByte w c, h.byteStores c⟩
  | reset => exact ⟨⟨.inl ⟨rfl, rfl⟩, Nat.zero_le _, Nat.zero_le _, h.osc.cut 0, h.dcs.cut 0⟩, forall_mem_nil _⟩

end VtParse.Bounded

/-- **The buffers of the parser stay within their bounds** after any bytes, resets and failed allocations, and so do
the stores of the event after them. -/
theorem VtParse.run_bounded (w : WidthTable) (events : List ParseEvent) (e : ParseEvent) :
    let p := VtParse.run w {} events
    (p.utf8Buf.length ≤ p.utf8Need ∧ p.utf8Need ≤ 4) ∧ p.params.length ≤ vtMaxParams ∧
      (p.osc.cap ≠ 0 → p.osc.data.length < p.osc.cap ∧ p.osc.cap ≤ vtOscMax) ∧
      (p.dcs.data.length ≤ p.dcs.cap ∧ p.dcs.cap ≤ vtDcsMax) ∧ ∀ s ∈ (p.step w e).2, s.index < s.size := by
  have empty (max reserve : Nat) : StrBuf.Fits max reserve {} := ⟨.inl ⟨rfl, rfl⟩, Nat.zero_le _⟩
  have new : VtParse.Bounded {} := ⟨.inl ⟨rfl, rfl⟩, Nat.zero_le _, Nat.zero_le _, empty _ _, empty _ _⟩
  intro p
  have h : p.Bounded := run_invariant_rule (fun _ e bounded => (bounded.step w e).1) new events
  have inside := (h.step w e).2
  obtain ⟨utf8, need, params, ⟨oscRoom, oscCap⟩, dcsRoom, dcsCap⟩ := h
  exact ⟨⟨by omega, need⟩, params, fun some => ⟨by omega, oscCap⟩, ⟨by omega, dcsCap⟩, inside⟩

end Lumimux.Vt

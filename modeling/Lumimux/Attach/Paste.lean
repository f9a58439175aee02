import Lumimux.Lib.Decimal
import Lumimux.Lib.Run
import Mathlib.Logic.Function.Basic

/-!
# Bracketed paste in the client (`cmd/attach/attach.c`)

`dispatch_input` hands each marker of a paste to the window that is focused then, if it wants it and the command line is
closed.
-/

namespace Lumimux.Attach
open Lib

inductive Sent
  | pasteBegin
  | pasteEnd
  | pasted (data : Bytes)
  | typed (data : Bytes)

def bracket : Bool → Sent → Option Bool
  | false, .pasteBegin => some true
  | true, .pasteEnd => some false
  | inside, .pasted _ => some inside
  | false, .typed _ => some false
  | _, _ => none

structure Pasting where
  focused : Option Nat
  wantsBrackets : Nat → Bool
  cmdlineVisible : Bool
  copyBuf : Bytes
  inPaste : Bool := false
  outer : Bool := false
  begun : Option Nat := none
  sent : Nat → List Sent := fun _ => []

namespace Pasting

def wanting (s : Pasting) : Option Nat := s.focused.filter s.wantsBrackets

def receiver (s : Pasting) : Option Nat := if s.cmdlineVisible then none else s.wanting

def send (s : Pasting) (target : Option Nat) (input : List Sent) : Pasting :=
  match target with
  | none => s
  | some w => { s with sent := Function.update s.sent w (s.sent w ++ input) }

def mark (begins : Bool) : Sent := if begins then .pasteBegin else .pasteEnd

def marker (s : Pasting) (begins : Bool) : Pasting :=
  if s.cmdlineVisible then s else { s with inPaste := begins }.send s.wanting [mark begins]

def selPaste (s : Pasting) : Pasting :=
  if s.copyBuf = [] then s
  else if s.wanting.isSome then s.send s.focused [.pasteBegin, .pasted s.copyBuf, .pasteEnd]
  else s.send s.focused [.pasted s.copyBuf]

inductive Event
  /-- The begin and the end of a paste of the outer terminal. -/
  | pasteBegin
  | pasteEnd
  /-- A key, and whether it is for the window if nothing before takes it. -/
  | key (data : Bytes) (forwarded : Bool)
  /-- `sel_paste`, by the mouse or by a key. -/
  | selPaste
  | focus (id : Option Nat)
  | cmdline (visible : Bool)
  | mode (id : Nat) (on : Bool)
  | copy (buf : Bytes)
  deriving DecidableEq

def step (s : Pasting) : Event → Pasting
  | .pasteBegin => { s.marker true with outer := true, begun := s.receiver }
  | .pasteEnd => { s.marker false with outer := false, begun := none }
  | .key data forwarded =>
    if s.cmdlineVisible then s
    else if s.inPaste then if data = [] then s else s.send s.focused [.pasted data]
    else if forwarded then s.send s.focused [if s.outer then .pasted data else .typed data]
    else s
  | .selPaste => s.selPaste
  -- `sel_clear_on_focus_change`
  | .focus id => { s with focused := id, inPaste := s.inPaste && id = s.focused }
  | .cmdline visible => { s with cmdlineVisible := visible }
  | .mode id on => { s with wantsBrackets := Function.update s.wantsBrackets id on }
  | .copy buf => { s with copyBuf := buf }

/-- The outer terminal sends the markers of a paste in turn. -/
def Alternates (s : Pasting) (e : Event) : Prop :=
  (e = .pasteBegin → s.outer = false) ∧ (e = .pasteEnd → s.outer = true)
  deriving Decidable

/-- The marker at the end goes where the one at the begin went, and no selection is pasted between them. -/
def Orderly (s : Pasting) (e : Event) : Prop :=
  (e = .pasteEnd → s.receiver = s.begun) ∧ (e = .selPaste → s.copyBuf ≠ [] → ∀ w, s.wanting = some w → s.begun ≠ some w)

def inside (s : Pasting) (w : Nat) : Option Bool := (s.sent w).foldlM bracket false

/-- The brackets of every window match, and none is open when the outer terminal does not paste. -/
def Balanced (s : Pasting) : Prop := ∀ w, ∃ opened, s.inside w = some opened ∧ (s.outer = false → opened = false)

structure Tracked (s : Pasting) : Prop where
  inside : ∀ w, s.inside w = some (decide (s.begun = some w))
  closed : s.outer = false → s.begun = none

variable {s : Pasting}

theorem Tracked.balanced (tracked : Tracked s) : Balanced s :=
  fun w => ⟨_, tracked.inside w, fun outside => by simp [tracked.closed outside]⟩

theorem inside_send (target : Option Nat) (input : List Sent) (w : Nat) :
    (s.send target input).inside w = if target = some w then (s.inside w).bind (input.foldlM bracket) else s.inside w := by
  cases target with
  | none => simp [send]
  | some v =>
    by_cases same : v = w
    · subst same
      simp [send, inside, List.foldlM_append]
    · simp [send, inside, same, Function.update_of_ne (Ne.symm same)]

theorem Tracked.send (tracked : Tracked s) {target input}
    (keeps : ∀ w, target = some w → input.foldlM bracket (decide (s.begun = some w)) = some (decide (s.begun = some w))) :
    Tracked (s.send target input) := by
  have ghosts : (s.send target input).begun = s.begun ∧ (s.send target input).outer = s.outer := by cases target <;> exact ⟨rfl, rfl⟩
  refine ⟨fun w => ?_, fun outside => ?_⟩
  · rw [inside_send, tracked.inside, ghosts.1]
    split
    · exact keeps w ‹_›
    · rfl
  · rw [ghosts.1]
    exact tracked.closed (ghosts.2 ▸ outside)

theorem inside_marker (begins : Bool) (w : Nat) :
    (s.marker begins).inside w = if s.receiver = some w then (s.inside w).bind (bracket · (mark begins)) else s.inside w := by
  unfold marker receiver
  by_cases visible : s.cmdlineVisible
  · simp [visible]
  · rw [if_neg visible, if_neg visible, inside_send]
    simp [inside]

theorem wanting_of_isSome (wants : s.wanting.isSome) : s.wanting = s.focused := by
  unfold wanting at wants ⊢
  cases focused : s.focused with
  | none => rfl
  | some w =>
    rw [focused] at wants
    by_cases wanted : s.wantsBrackets w <;> simp_all

theorem tracked_step (tracked : Tracked s) {e} (alternates : Alternates s e) (orderly : Orderly s e) :
    Tracked (step s e) := by
  cases e with
  | pasteBegin =>
    refine ⟨fun w => (inside_marker true w).trans ?_, fun outside => Bool.noConfusion outside⟩
    change _ = some (decide (s.receiver = some w))
    rw [tracked.inside, tracked.closed (alternates.1 rfl)]
    split <;> simp [*, bracket, mark]
  | pasteEnd =>
    refine ⟨fun w => (inside_marker false w).trans ?_, fun _ => rfl⟩
    change _ = some (decide (none = some w))
    rw [tracked.inside, orderly.1 rfl]
    split <;> simp [*, bracket, mark]
  | key data forwarded =>
    rw [step]
    split_ifs with _ _ _ _ outer
    · exact tracked
    · exact tracked
    · exact tracked.send fun w _ => by simp [bracket]
    · exact tracked.send fun w _ => by simp [bracket]
    · refine tracked.send fun w _ => ?_
      rw [tracked.closed (by simpa using outer)]
      simp [bracket]
    · exact tracked
  | selPaste =>
    rw [step, selPaste]
    split_ifs with empty wants
    · exact tracked
    · refine tracked.send fun w focused => ?_
      have other := orderly.2 rfl empty w ((wanting_of_isSome wants).trans focused)
      simp [bracket, other]
    · exact tracked.send fun w _ => by simp [bracket]
  | focus | cmdline | mode | copy => exact ⟨tracked.inside, tracked.closed⟩

theorem orderly_of_balanced (tracked : Tracked s) {e} (balanced : Balanced (step s e)) : Orderly s e := by
  refine ⟨?_, ?_⟩
  · rintro rfl
    have marked : ∀ w, (if s.receiver = some w then bracket (decide (s.begun = some w)) .pasteEnd
        else some (decide (s.begun = some w))) = some false := by
      intro w
      obtain ⟨opened, inside, closed⟩ := balanced w
      rw [closed rfl] at inside
      have after := (inside_marker false w).symm.trans inside
      rwa [tracked.inside] at after
    refine Option.ext fun w => ?_
    have here := marked w
    split at here
    · cases begun : decide (s.begun = some w) with
      | false => simp [begun, bracket] at here
      | true => simp_all
    · simp_all
  · rintro rfl filled w wanted begun
    have wants : s.wanting.isSome := wanted ▸ rfl
    have focused := (wanting_of_isSome wants).symm.trans wanted
    obtain ⟨opened, inside, -⟩ := balanced w
    rw [step, selPaste, if_neg filled, if_pos wants, inside_send, if_pos focused, tracked.inside] at inside
    simp [begun, bracket] at inside

def fresh (focused : Option Nat) (wantsBrackets : Nat → Bool) (cmdlineVisible : Bool) (copyBuf : Bytes) : Pasting :=
  { focused, wantsBrackets, cmdlineVisible, copyBuf }

/-- **The brackets match in every state of a run exactly if the run is orderly.** -/
theorem brackets_balanced_iff (focused : Option Nat) (wants : Nat → Bool) (visible : Bool) (copied : Bytes)
    {events : List Event} (alternate : Along step Alternates (fresh focused wants visible copied) events) :
    Along step (fun s e => Balanced (step s e)) (fresh focused wants visible copied) events ↔
      Along step Orderly (fresh focused wants visible copied) events := by
  refine Along.congr_of_invariant (fun _ _ tracked alternates orderly => tracked_step tracked alternates orderly)
    (fun _ _ tracked alternates => ?_) ⟨fun _ => rfl, fun _ => rfl⟩ alternate
  exact ⟨orderly_of_balanced tracked, fun orderly => (tracked_step tracked alternates orderly).balanced⟩

theorem short_paste : Along step (fun s e => Balanced (step s e)) (fresh (some 1) (fun _ => true) false [])
        [.pasteBegin, .key [97] true, .pasteEnd, .focus (some 2)] ↔
      Along step Orderly (fresh (some 1) (fun _ => true) false []) [.pasteBegin, .key [97] true, .pasteEnd, .focus (some 2)] :=
  brackets_balanced_iff (some 1) (fun _ => true) false [] (by decide)

theorem refocused_paste :
    let s := [Event.pasteBegin, .focus (some 2), .pasteEnd].foldl step (fresh (some 1) (fun _ => true) false [])
    s.sent 1 = [.pasteBegin] ∧ s.sent 2 = [.pasteEnd] ∧ ¬ Balanced s := by
  refine ⟨rfl, rfl, fun balanced => ?_⟩
  obtain ⟨opened, inside, -⟩ := balanced 2
  cases inside

end Pasting

end Lumimux.Attach

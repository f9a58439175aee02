import Lumimux.Lib.Lines
import Lumimux.Lib.Scan

/-!
# The control mailbox of a session (`libsessdir/sessdir_control.c`)

`control.msg` holds the last message posted; a post takes the number after it and replaces the bytes at once.
-/

namespace Lumimux.Sessdir
open Lib List

inductive CtlVerb where
  | request
  | grant
  | deny
  | kick
  | approve
  | reject
  deriving DecidableEq, Repr

structure Ctl where
  seq : UInt64
  verb : CtlVerb
  target : UInt64
  actor : UInt64
  name : Bytes
  deriving DecidableEq, Repr

def verbName : CtlVerb → Bytes
  | .request => ascii "request"
  | .grant => ascii "grant"
  | .deny => ascii "deny"
  | .kick => ascii "kick"
  | .approve => ascii "approve"
  | .reject => ascii "reject"

def verbFromName (s : Bytes) : Option CtlVerb :=
  if s = ascii "request" then some .request
  else if s = ascii "grant" then some .grant
  else if s = ascii "deny" then some .deny
  else if s = ascii "kick" then some .kick
  else if s = ascii "approve" then some .approve
  else if s = ascii "reject" then some .reject
  else none

def scanCtl (line : Bytes) : Option Ctl := do
  let (seq, rest) ← scanUnsigned line
  let (verb, rest) ← scanWord 15 rest
  let (target, rest) ← scanUnsigned rest
  let (actor, rest) ← scanUnsigned rest
  let name := ((skipSpace rest).take 63).takeWhile (· ≠ newline)
  let verb ← verbFromName verb
  return ⟨seq, verb, target, actor, name⟩

def ctlRead (file : Option Bytes) : Option Ctl := do
  let bytes ← file
  let line ← (fgetsLines 255 [] bytes).head?
  scanCtl (line.takeWhile (· ≠ 0))

def nextSeq (file : Option Bytes) : UInt64 :=
  match ctlRead file with
  | some prev => prev.seq + 1
  | none => 1

def ctlHeader (seq : UInt64) (verb : CtlVerb) (target actor : UInt64) : Bytes :=
  decimal seq.toNat ++ 32 :: (verbName verb ++ 32 :: (decimal target.toNat ++ 32 :: (decimal actor.toNat ++ [32])))

/-- Posts under the next number. -/
def ctlPost (file : Option Bytes) (verb : CtlVerb) (target actor : UInt64) (name : Bytes) : Bytes :=
  ctlHeader (nextSeq file) verb target actor ++ (name ++ [newline])

theorem verbFromName_verbName (verb : CtlVerb) : verbFromName (verbName verb) = some verb := by
  cases verb <;> decide

theorem verbName_plain (verb : CtlVerb) :
    verbName verb ≠ [] ∧ (verbName verb).length ≤ 7 ∧ (∀ b ∈ verbName verb, isSpace b = false) ∧
      newline ∉ verbName verb ∧ 0 ∉ verbName verb := by
  cases verb <;> decide +kernel

theorem decimal_plain (n : Nat) : newline ∉ decimal n ∧ 0 ∉ decimal n := by
  constructor
  · intro member
    obtain ⟨d, small, same⟩ := decimal_digits n _ member
    exact (digit_byte small).2.2.2.2.1 same.symm
  · intro member
    obtain ⟨d, small, same⟩ := decimal_digits n _ member
    exact (digit_byte small).2.2.2.2.2 same.symm

theorem ctlHeader_plain (seq : UInt64) (verb : CtlVerb) (target actor : UInt64) :
    newline ∉ ctlHeader seq verb target actor ∧ 0 ∉ ctlHeader seq verb target actor := by
  obtain ⟨-, -, -, verbLine, verbZero⟩ := verbName_plain verb
  obtain ⟨seqLine, seqZero⟩ := decimal_plain seq.toNat
  obtain ⟨targetLine, targetZero⟩ := decimal_plain target.toNat
  obtain ⟨actorLine, actorZero⟩ := decimal_plain actor.toNat
  have blank : newline ≠ 32 ∧ (0 : UInt8) ≠ 32 := by decide
  constructor
  · simp only [ctlHeader, mem_append, mem_cons, not_mem_nil, or_false, not_or]
    exact ⟨seqLine, blank.1, verbLine, blank.1, targetLine, blank.1, actorLine, blank.1⟩
  · simp only [ctlHeader, mem_append, mem_cons, not_mem_nil, or_false, not_or]
    exact ⟨seqZero, blank.2, verbZero, blank.2, targetZero, blank.2, actorZero, blank.2⟩

theorem length_decimal_uint64 (n : UInt64) : (decimal n.toNat).length ≤ 20 :=
  length_decimal_le (lt_of_lt_of_le n.toNat_lt (by norm_num)) (by decide)

theorem length_ctlHeader (seq : UInt64) (verb : CtlVerb) (target actor : UInt64) :
    (ctlHeader seq verb target actor).length < 255 := by
  have seqDigits := length_decimal_uint64 seq
  have targetDigits := length_decimal_uint64 target
  have actorDigits := length_decimal_uint64 actor
  have verbShort := (verbName_plain verb).2.1
  simp only [ctlHeader, length_append, length_cons, length_nil]
  omega

theorem endsAt_blank (rest : Bytes) : EndsAt isDigit (32 :: rest) := by
  intro b more same
  rw [← (List.cons.inj same).1]
  rfl

theorem scanCtl_header (seq : UInt64) (verb : CtlVerb) (target actor : UInt64) (rest : Bytes) :
    ∃ name, scanCtl (ctlHeader seq verb target actor ++ rest) = some ⟨seq, verb, target, actor, name⟩ := by
  obtain ⟨nonempty, short, visible, -⟩ := verbName_plain verb
  have blank : ∀ (text : Bytes) (b : UInt8) (more : Bytes), 32 :: text = b :: more → isSpace b = true := by
    intro text b more same
    rw [← (List.cons.inj same).1]
    rfl
  have word : ∀ text, scanWord 15 (verbName verb ++ 32 :: text) = some (verbName verb, 32 :: text) := fun text =>
    scanWord_append nonempty (le_trans short (by decide)) visible (blank text)
  refine ⟨((skipSpace (32 :: rest)).take 63).takeWhile (· ≠ newline), ?_⟩
  simp only [scanCtl, ctlHeader, append_assoc, cons_append, nil_append,
    scanUnsigned_decimal _ (endsAt_blank _), scanUnsigned_space, scanWord_space, word, verbFromName_verbName,
    Option.bind_eq_bind, Option.bind_some, Option.pure_def]

theorem ctlRead_ctlPost (file : Option Bytes) (verb : CtlVerb) (target actor : UInt64) (name : Bytes) :
    ∃ shown, ctlRead (some (ctlPost file verb target actor name)) =
      some ⟨nextSeq file, verb, target, actor, shown⟩ := by
  obtain ⟨plain, nonzero⟩ := ctlHeader_plain (nextSeq file) verb target actor
  obtain ⟨more, head⟩ := fgetsLines_head (name ++ [newline]) plain
    (show ([] : Bytes).length + _ < 255 by simpa using length_ctlHeader (nextSeq file) verb target actor)
    (by simp [ctlHeader])
  rw [nil_append] at head
  have untouched : (ctlHeader (nextSeq file) verb target actor ++ more).takeWhile (· ≠ 0) =
      ctlHeader (nextSeq file) verb target actor ++ more.takeWhile (· ≠ 0) :=
    takeWhile_append_of_pos fun b member => by
      simp only [ne_eq, decide_eq_true_eq]
      rintro rfl
      exact nonzero member
  obtain ⟨shown, scanned⟩ := scanCtl_header (nextSeq file) verb target actor (more.takeWhile (· ≠ 0))
  refine ⟨shown, ?_⟩
  simp only [ctlRead, ctlPost, Option.bind_eq_bind, Option.bind_some, head, untouched]
  exact scanned

end Lumimux.Sessdir

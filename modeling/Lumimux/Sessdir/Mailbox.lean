import Lumimux.Lib.Publish
import Lumimux.Sessdir.Control

/-!
# Concurrent posts to the control mailbox (`libsessdir/sessdir_control.c`)

Nothing keeps two posts apart: they may take one number, and share the temporary file.
-/

namespace Lumimux.Sessdir
open Lib

structure PostRequest where
  verb : CtlVerb
  target : UInt64
  actor : UInt64
  name : Bytes
  deriving DecidableEq, Repr

def composePost (file : Option Bytes) (r : PostRequest) : Bytes :=
  ctlPost file r.verb r.target r.actor r.name

def postText (seq : UInt64) (r : PostRequest) : Bytes :=
  ctlHeader seq r.verb r.target r.actor ++ (r.name ++ [newline])

def seqOf (file : Option Bytes) : UInt64 := ((ctlRead file).map Ctl.seq).getD 0

/-- The next number is a 64-bit number. -/
def SeqLeft (file : Option Bytes) : Prop := (seqOf file).toNat + 1 < 2 ^ 64
  deriving Decidable

section
variable (file : Option Bytes)

theorem nextSeq_eq : nextSeq file = seqOf file + 1 := by
  unfold nextSeq seqOf
  cases ctlRead file <;> rfl

theorem seqOf_composePost (r : PostRequest) : seqOf (some (composePost file r)) = nextSeq file := by
  obtain ⟨name, read⟩ := ctlRead_ctlPost file r.verb r.target r.actor r.name
  rw [seqOf, composePost, read]
  rfl

theorem seqOf_lt_composePost (r : PostRequest) (left : SeqLeft file) : seqOf file < seqOf (some (composePost file r)) := by
  rw [UInt64.lt_iff_toNat_lt, seqOf_composePost, nextSeq_eq, UInt64.toNat_add, UInt64.toNat_one, Nat.mod_eq_of_lt left]
  exact Nat.lt_succ_self _

end

section Posts

variable {ω : Type} [DecidableEq ω]

/-- **The mailbox numbers its messages upwards** in every interleaving in which a post starts only when no
other is under way and the numbers are not used up. -/
theorem run_mailbox_rises (file leftover : Option Bytes) (steps : List (PublishStep ω PostRequest))
    (alone : Along (Publisher.step composePost) (Publisher.StartsAlone SeqLeft) (.start file leftover) steps) :
    let s := (Publisher.start file leftover).run composePost steps
    (∀ text ∈ s.shown, ∃ seq r, text = postText seq r) ∧
      (seqOf file :: s.shown.map fun text => seqOf (some text)).Pairwise (· < ·) ∧
      ∀ earlier later, steps = earlier ++ later →
        ((Publisher.start file leftover).run composePost earlier).shown.length < s.shown.length →
        ∀ seen, ctlRead ((Publisher.start file leftover).run composePost earlier).visible = some seen →
          ∃ now, ctlRead s.visible = some now ∧ seen.seq < now.seq := by
  intro s
  have init := Publisher.Serial.init (ω := ω) composePost SeqLeft file leftover
  have log := (init.run alone).log
  refine ⟨?_, ?_, ?_⟩
  · intro text member
    obtain ⟨file, r, rfl⟩ := log.composed member
    exact ⟨nextSeq file, r, rfl⟩
  · exact (log.rises seqOf seqOf_lt_composePost).1
  · rintro earlier later rfl longer seen read
    have rises := init.later seqOf seqOf_lt_composePost alone longer
    have old : seqOf ((Publisher.start file leftover).run composePost earlier).visible = seen.seq := by
      rw [seqOf, read]
      rfl
    rw [old] at rises
    -- a number above another one is not the 0 of a file without a message
    cases now : ctlRead s.visible with
    | none =>
      rw [seqOf, now] at rises
      exact absurd rises (UInt64.not_lt.mpr UInt64.zero_le)
    | some current =>
      rw [seqOf, now] at rises
      exact ⟨current, rfl, rises⟩

end Posts

def wholePost {ω : Type} (w : ω) (r : PostRequest) : List (PublishStep ω PostRequest) :=
  [.read w r, .openTemp w, .write w, .rename w]

def requestThenGrant : List (PublishStep Bool PostRequest) :=
  wholePost true ⟨.request, 0, 7, ascii "guest"⟩ ++ wholePost false ⟨.grant, 7, 1, ascii "owner"⟩

theorem requestThenGrant_rises :
    (((Publisher.start none none).run composePost requestThenGrant).shown.map fun text => seqOf (some text)).Pairwise
      (· < ·) := by
  have rises := (run_mailbox_rises none none requestThenGrant ?_).2.1
  · exact (List.pairwise_cons.mp rises).2
  · refine ⟨⟨fun _ => rfl, by decide +kernel⟩, trivial, trivial, trivial, ⟨?_, by decide +kernel⟩, trivial, trivial,
      trivial, trivial⟩
    intro v
    cases v <;> rfl

theorem overlapping_posts_collide :
    let request : PostRequest := ⟨.request, 0, 7, ascii "guest"⟩
    let kick : PostRequest := ⟨.kick, 7, 1, ascii "owner"⟩
    let s := (Publisher.start none none).run composePost
      [.read true request, .read false kick, .openTemp true, .write true, .rename true, .openTemp false, .write false,
       .rename false]
    s.shown = [postText 1 request, postText 1 kick] ∧ s.shown.map (fun text => seqOf (some text)) = [1, 1] := by
  decide +kernel

end Lumimux.Sessdir

import Lumimux.Lib.Run
import Lumimux.Proxy.Broker

/-!
# Which answers to a pending connection are heard

The child reads the number of the message in the mailbox after it has made the roster entry, and acts on higher ones
only.
-/

namespace Lumimux.Proxy
open Lib Sessdir List

variable {Acl : Type} {check : Acl → AccessDecision} {s t : Child Acl}

/-- An event that neither posts nor makes the child look. -/
def Event.Idle : Event Acl → Prop
  | .edit _ => True
  | .servers _ => True
  | .advance => True
  | _ => False

instance (e : Event Acl) : Decidable e.Idle := by
  cases e <;> unfold Event.Idle <;> infer_instance

/-- An event at which the child looks at the mailbox. -/
def Looks (carrier : Carrier) (e : Event Acl) : Prop := e = .wakeup ∨ carrier = .netchan ∧ e = .tick

/-- The connection is pending and in the roster. -/
def Child.Visible (s : Child Acl) : Prop := s.phase = .registered ∨ s.phase = .waiting
  deriving Decidable

def Child.Unresolved (s : Child Acl) : Prop := s.phase ≠ .serving ∧ s.phase ≠ .gone

theorem Child.Visible.unresolved (h : s.Visible) : s.Unresolved := by
  rcases h with phase | phase <;> exact ⟨by rw [phase]; decide, by rw [phase]; decide⟩

def Child.baseline (s : Child Acl) : UInt64 := ((ctlRead s.control).map Ctl.seq).getD 0

def ActsOn (s t : Child Acl) (verb : Option CtlVerb) : Prop :=
  (¬ t.Unresolved ∧ (verb = some .approve ∨ verb = some .reject) ∧ t.answer = verb) ∨
    (verb ≠ some .approve ∧ verb ≠ some .reject ∧ t.phase = s.phase ∧ t.answer = s.answer)

section Answers

theorem attachAll_resolves (s : Child Acl) : ¬ s.attachAll.Unresolved ∧ s.attachAll.answer = s.answer := by
  unfold Child.attachAll
  extract_lets conns
  split
  · exact ⟨fun unresolved => unresolved.2 rfl, rfl⟩
  · exact ⟨fun unresolved => unresolved.1 rfl, rfl⟩

theorem noteSeq_keeps (s : Child Acl) : s.noteSeq.phase = s.phase ∧ s.noteSeq.answer = s.answer := by
  unfold Child.noteSeq
  split
  · split <;> exact ⟨rfl, rfl⟩
  · exact ⟨rfl, rfl⟩

theorem pendingAnswer_answer (s : Child Acl) : ActsOn s s.pendingAnswer s.pendingVerb := by
  unfold Child.pendingAnswer
  split
  · rename_i approved
    obtain ⟨resolved, answer⟩ := attachAll_resolves { s.noteSeq with
      answer := some .approve
      attachFlags := flagsFor s.decRole
      lastGranted := s.decRole }
    exact .inl ⟨resolved, .inl approved, answer.trans approved.symm⟩
  · rename_i rejected
    exact .inl ⟨fun unresolved => unresolved.2 rfl, .inr rejected, rejected.symm⟩
  · rename_i notApproved notRejected
    exact .inr ⟨notApproved, notRejected, noteSeq_keeps s⟩

theorem onWatch_answer (check : Acl → AccessDecision) (here : s.phase = .serving) :
    ¬ (s.onWatch check).Unresolved ∧ (s.onWatch check).answer = s.answer := by
  unfold Child.onWatch Child.recheckAcl Child.Unresolved
  dsimp only
  split_ifs <;> simp [Child.leave, Child.reconcile, Child.broadcastRoleRequest, here]

theorem look_actsOn (check : Acl → AccessDecision) {e} (waiting : s.phase = .waiting) (looks : Looks s.carrier e) :
    ActsOn s (s.step check e) s.pendingVerb := by
  rcases looks with rfl | ⟨netchan, rfl⟩
  · show ActsOn s (s.onWakeup check) _
    unfold Child.onWakeup
    extract_lets noted
    have acted : ActsOn s noted.pendingAnswer s.pendingVerb := pendingAnswer_answer noted
    split
    · exact acted
    · split
      · rename_i serving
        obtain ⟨resolved, answer⟩ := onWatch_answer check serving
        rcases acted with ⟨-, verbs, same⟩ | ⟨-, -, phase, -⟩
        · exact .inl ⟨resolved, verbs, answer.trans same⟩
        · exact absurd (serving.symm.trans (phase.trans waiting)) (by decide)
      · exact acted
    · rename_i serving
      exact absurd (waiting.symm.trans serving) (by decide)
    · rename_i notServing notUnix notNetchan
      cases carrier : s.carrier with
      | unix => exact (notUnix waiting carrier).elim
      | netchan => exact (notNetchan waiting carrier).elim
  · show ActsOn s s.onTick _
    unfold Child.onTick
    rw [waiting, netchan]
    exact pendingAnswer_answer s

theorem look_elsewhere {e} (looks : e = .wakeup ∨ e = .tick) (elsewhere : s.phase ≠ .waiting) :
    (s.step check e).Unresolved → s.Unresolved ∧ (s.step check e).answer = s.answer := by
  rcases looks with rfl | rfl
  · show (s.onWakeup check).Unresolved → _ ∧ (s.onWakeup check).answer = _
    unfold Child.onWakeup
    extract_lets noted
    split
    · exact absurd ‹_› elsewhere
    · exact absurd ‹_› elsewhere
    · rename_i serving
      exact fun unresolved => absurd unresolved (onWatch_answer check (s := noted) serving).1
    · exact fun unresolved => ⟨unresolved, rfl⟩
  · show s.onTick.Unresolved → _ ∧ s.onTick.answer = _
    unfold Child.onTick
    split
    · exact absurd ‹_› elsewhere
    · exact fun unresolved => ⟨unresolved, rfl⟩

def Unanswered (s : Child Acl) : Prop := s.Unresolved → s.answer = none

theorem Unanswered.step (h : Unanswered s) (e : Event Acl) : Unanswered (s.step check e) := by
  have looked : e = .wakeup ∨ e = .tick → Unanswered (s.step check e) := by
    intro looks unresolved
    by_cases waiting : s.phase = .waiting
    · have none := h ⟨by rw [waiting]; decide, by rw [waiting]; decide⟩
      by_cases looking : Looks s.carrier e
      · rcases look_actsOn check waiting looking with ⟨resolved, -⟩ | ⟨-, -, -, answer⟩
        · exact absurd unresolved resolved
        · rw [answer, none]
      · -- the passes of the other program's loop do not look
        have unlooked : s.step check e = s := by
          rcases looks with rfl | rfl
          · exact absurd (.inl rfl) looking
          · show s.onTick = s
            unfold Child.onTick
            split
            · rename_i netchan
              exact absurd (.inr ⟨netchan, rfl⟩) looking
            · rfl
        rw [unlooked, none]
    · obtain ⟨before, answer⟩ := look_elsewhere looks waiting unresolved
      rw [answer, h before]
  cases e with
  | edit | post | servers => exact h
  | advance =>
    show Unanswered s.advance
    unfold Child.advance
    split
    · rename_i admitted
      have none := h ⟨by rw [admitted]; decide, by rw [admitted]; decide⟩
      split
      · exact fun _ => none
      · exact fun unresolved => absurd unresolved (attachAll_resolves s).1
    · rename_i registered
      exact fun _ => h ⟨by rw [registered]; decide, by rw [registered]; decide⟩
    · exact h
  | wakeup => exact looked (.inl rfl)
  | tick => exact looked (.inr rfl)
  | leave => exact fun unresolved => absurd rfl unresolved.2

theorem Unanswered.run (h : Unanswered s) (events : List (Event Acl)) : Unanswered (s.run check events) :=
  run_invariant_rule (fun _ e unanswered => unanswered.step e) h events

end Answers

structure Later (s t : Child Acl) : Prop where
  visible : t.Visible
  carrier : t.carrier = s.carrier
  clientId : t.clientId = s.clientId
  control : t.control = s.control
  answer : t.answer = s.answer
  stays : s.phase = .waiting → t.phase = .waiting ∧ t.lastSeq = s.lastSeq
  takes : s.phase = .registered → t.phase = .waiting → t.lastSeq = s.baseline

theorem Later.idle (h : Later s t) {e} (idle : e.Idle) : Later s (t.step check e) := by
  cases e with
  | edit | servers => exact { h with }
  | advance =>
    show Later s t.advance
    rcases h.visible with registered | waiting
    · have taken : t.advance = { t with phase := .waiting, lastSeq := t.baseline } := by
        simp only [Child.advance, registered]
        rfl
      rw [taken]
      exact
        { h with
          visible := .inr rfl
          stays := fun is => absurd ((h.stays is).1.symm.trans registered) (by decide)
          takes := fun _ _ => by simp only [Child.baseline, h.control] }
    · have same : t.advance = t := by simp only [Child.advance, waiting]
      rw [same]
      exact h
  | post | wakeup | tick | leave => exact idle.elim

theorem later_run (visible : s.Visible) {events} (idle : ∀ e ∈ events, e.Idle) : Later s (s.run check events) := by
  have start : Later s s :=
    ⟨visible, rfl, rfl, rfl, rfl, fun is => ⟨is, rfl⟩, fun registered waiting =>
      absurd (registered.symm.trans waiting) (by decide)⟩
  unfold Child.run
  exact foldlRecOn events (Child.step check) start fun t later e member => later.idle (idle e member)

theorem pendingVerb_of_read {ctl} (read : ctlRead s.control = some ctl) (target : ctl.target = s.clientId.toUInt64) :
    s.pendingVerb = if s.lastSeq < ctl.seq then some ctl.verb else none := by
  simp only [Child.pendingVerb, read, Option.bind_eq_bind, Option.bind_some, target, ne_eq, not_true_eq_false, or_false]
  by_cases new : s.lastSeq < ctl.seq
  · rw [if_pos new, if_neg (UInt64.not_le.mpr new)]
  · rw [if_neg new, if_pos (UInt64.not_lt.mp new)]

theorem heard_iff (check : Acl → AccessDecision) (visible : s.Visible) (unanswered : s.answer = none) {between look verb}
    (answers : verb = .approve ∨ verb = .reject) (actor : UInt64) (name : Bytes) (idle : ∀ e ∈ between, e.Idle)
    (ready : (s.run check (.post verb s.clientId.toUInt64 actor name :: between)).phase = .waiting)
    (looks : Looks s.carrier look) :
    ((s.run check (.post verb s.clientId.toUInt64 actor name :: between)).step check look).answer = some verb ↔
      s.phase = .waiting ∧ s.lastSeq < nextSeq s.control := by
  obtain ⟨shown, read⟩ := ctlRead_ctlPost s.control verb s.clientId.toUInt64 actor name
  have later : Later (s.step check (.post verb s.clientId.toUInt64 actor name))
      (s.run check (.post verb s.clientId.toUInt64 actor name :: between)) :=
    later_run (s := s.step check (.post verb s.clientId.toUInt64 actor name)) visible idle
  generalize s.run check (.post verb s.clientId.toUInt64 actor name :: between) = t at ready later ⊢
  have verdict : t.pendingVerb = if t.lastSeq < nextSeq s.control then some verb else none :=
    pendingVerb_of_read (by rw [later.control]; exact read) (congrArg UInt32.toUInt64 later.clientId.symm)
  have looked := look_actsOn check ready (by rw [later.carrier]; exact looks)
  have heard : (t.step check look).answer = some verb ↔ t.lastSeq < nextSeq s.control := by
    by_cases new : t.lastSeq < nextSeq s.control
    · rw [verdict, if_pos new] at looked
      rcases looked with ⟨-, -, answer⟩ | ⟨notApprove, notReject, -⟩
      · exact iff_of_true answer new
      · rcases answers with rfl | rfl
        · exact absurd rfl notApprove
        · exact absurd rfl notReject
    · rw [verdict, if_neg new] at looked
      rcases looked with ⟨-, impossible | impossible, -⟩ | ⟨-, -, -, answer⟩
      · cases impossible
      · cases impossible
      · rw [answer, later.answer]
        exact iff_of_false (by rw [show (s.step check _).answer = s.answer from rfl, unanswered]; simp) new
  rw [heard]
  rcases visible with registered | waiting
  · -- the baseline is the number of the answer itself
    have taken : t.lastSeq = nextSeq s.control := by
      rw [later.takes registered ready, Child.baseline]
      show ((ctlRead (some _)).map Ctl.seq).getD 0 = _
      rw [read]
      rfl
    rw [taken]
    exact iff_of_false (UInt64.lt_irrefl _) fun both => absurd (registered.symm.trans both.1) (by decide)
  · rw [(later.stays waiting).2]
    exact (and_iff_right waiting).symm

def Child.identity (s : Child Acl) : Carrier × UInt32 := (s.carrier, s.clientId)

section
variable (s : Child Acl)

theorem identity_attachAll : s.attachAll.identity = s.identity := by
  unfold Child.attachAll
  extract_lets conns
  split <;> rfl

theorem identity_pendingAnswer : s.pendingAnswer.identity = s.identity := by
  have noted : s.noteSeq.identity = s.identity := by
    unfold Child.noteSeq
    split
    · split <;> rfl
    · rfl
  unfold Child.pendingAnswer
  split
  · exact (identity_attachAll _).trans noted
  · exact noted
  · exact noted

theorem identity_onWatch : (s.onWatch check).identity = s.identity := by
  unfold Child.onWatch Child.recheckAcl
  dsimp only
  split_ifs <;> rfl

theorem identity_step (e : Event Acl) : (s.step check e).identity = s.identity := by
  cases e with
  | edit | post | servers | leave => rfl
  | advance =>
    show s.advance.identity = _
    unfold Child.advance
    split
    · split
      · rfl
      · exact identity_attachAll s
    · rfl
    · rfl
  | wakeup =>
    show (s.onWakeup check).identity = _
    unfold Child.onWakeup
    extract_lets noted
    have answered : noted.pendingAnswer.identity = s.identity := identity_pendingAnswer noted
    split
    · exact answered
    · split
      · exact (identity_onWatch _).trans answered
      · exact answered
    · exact identity_onWatch noted
    · rfl
  | tick =>
    show s.onTick.identity = _
    unfold Child.onTick
    split
    · exact identity_pendingAnswer s
    · rfl

theorem identity_run (events : List (Event Acl)) : (s.run check events).identity = s.identity :=
  run_invariant_rule (I := fun t : Child Acl => t.identity = s.identity)
    (fun t e same => (identity_step t e).trans same) rfl events

end

/-- **Which answers are heard**: an answer posted to a pending connection that can be seen in the roster,
and not replaced before the child looks, is acted on then if and only if the child had taken its baseline
and the number the post takes is above it. -/
theorem answer_heard_iff (check : Acl → AccessDecision) (carrier : Carrier) (clientId : UInt32) (dir : Session Acl)
    (before between : List (Event Acl)) (look : Event Acl) (verb : CtlVerb) (actor : UInt64) (name : Bytes)
    (answers : verb = .approve ∨ verb = .reject)
    (visible : ((admission check carrier clientId dir).run check before).Visible) (idle : ∀ e ∈ between, e.Idle)
    (ready : ((admission check carrier clientId dir).run check
      (before ++ .post verb clientId.toUInt64 actor name :: between)).phase = .waiting) (looks : Looks carrier look) :
    ((admission check carrier clientId dir).run check
        (before ++ .post verb clientId.toUInt64 actor name :: between ++ [look])).answer = some verb ↔
      ((admission check carrier clientId dir).run check before).phase = .waiting ∧
        ((admission check carrier clientId dir).run check before).lastSeq <
          nextSeq ((admission check carrier clientId dir).run check before).control := by
  have unanswered : Unanswered ((admission check carrier clientId dir).run check before) :=
    Unanswered.run (fun _ => rfl) before
  have identity : ((admission check carrier clientId dir).run check before).identity = (carrier, clientId) :=
    identity_run _ before
  have split : ∀ events, (admission check carrier clientId dir).run check (before ++ events) =
      ((admission check carrier clientId dir).run check before).run check events := fun events => foldl_append
  rw [split] at ready
  rw [append_assoc, split]
  generalize (admission check carrier clientId dir).run check before = s at *
  obtain ⟨rfl, rfl⟩ := Prod.mk.inj identity
  have last := heard_iff check visible (unanswered visible.unresolved) answers actor name idle ready looks
  rw [Child.run, foldl_append]
  exact last

def backlogSession : Session AccessDecision := ⟨⟨.write, true⟩, some (ctlPost none .kick 3 1 []), [7], true⟩

theorem late_answer_heard : ((admission id .unix 9 backlogSession).run id
      [.advance, .advance, .post .approve 9 1 [], .edit ⟨.view, true⟩, .wakeup]).answer = some .approve :=
  (answer_heard_iff id .unix 9 backlogSession [.advance, .advance] [.edit ⟨.view, true⟩] .wakeup .approve 1 []
    (by decide) (by decide +kernel) (by decide +kernel) (by decide +kernel) (.inl rfl)).mpr (by decide +kernel)

theorem early_answer_lost : ((admission id .unix 9 backlogSession).run id [.advance]).Visible ∧
      ((admission id .unix 9 backlogSession).run id
        [.advance, .post .approve 9 1 [], .advance, .wakeup]).answer = none := by
  decide +kernel

end Lumimux.Proxy

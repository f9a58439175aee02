import Lumimux.Lib.Run
import Lumimux.Proxy.Broker

/-!
# When an edit of the access list takes effect

A child asks for what the list granted at the last wakeup (`Serves`).
-/

namespace Lumimux.Proxy
open Lib Sessdir List

variable {Acl : Type} {check : Acl → AccessDecision} {s : Child Acl}

/-- A connection that is being served asks for the role of the last decision, which is no denial. -/
def Child.Served (s : Child Acl) : Prop :=
  s.phase = .serving → s.decided ≠ .deny ∧ ∀ c ∈ s.conns, c.flags = flagsFor s.decided
  deriving Decidable

/-- The approval of a pending connection finds the list granting what it granted at admission. The
net-proxy checks the list in the same pass when the session directory woke it, so there it is enough that
the denial is new. -/
def Fresh (check : Acl → AccessDecision) (s : Child Acl) : Event Acl → Prop
  | .wakeup =>
    s.phase = .waiting → s.pendingVerb = some .approve →
      if s.carrier = .unix then (check s.acl).role = s.decRole ∧ s.decRole ≠ .deny
      else s.decRole = .deny → (check s.acl).role ≠ .deny
  | .tick =>
    s.phase = .waiting → s.carrier = .netchan → s.pendingVerb = some .approve →
      s.decided = s.decRole ∧ s.decRole ≠ .deny
  | _ => True

instance (check : Acl → AccessDecision) (s : Child Acl) : (e : Event Acl) → Decidable (Fresh check s e)
  | .wakeup => inferInstanceAs (Decidable (_ → _))
  | .tick => inferInstanceAs (Decidable (_ → _))
  | .edit _ => inferInstanceAs (Decidable True)
  | .post _ _ _ _ => inferInstanceAs (Decidable True)
  | .servers _ => inferInstanceAs (Decidable True)
  | .advance => inferInstanceAs (Decidable True)
  | .leave => inferInstanceAs (Decidable True)

structure Asks (s : Child Acl) (role : AccessRole) : Prop where
  lastGranted : s.lastGranted = role
  flags : s.attachFlags = flagsFor role
  conns : ∀ c ∈ s.conns, c.flags = flagsFor role

theorem addConn_flags {flags conns} (all : ∀ c ∈ conns, c.flags = flags) (ids : List UInt32) :
    ∀ c ∈ ids.foldl (addConn flags) conns, c.flags = flags := by
  induction ids generalizing conns with
  | nil => exact all
  | cons id rest ih =>
    refine ih fun c member => ?_
    unfold addConn at member
    split at member
    · exact all c member
    · rcases mem_append.mp member with old | new
      · exact all c old
      · rw [mem_singleton.mp new]

theorem attachAll_cases (s : Child Acl) : s.attachAll = s.leave ∨
      s.attachAll = { s with phase := .serving, conns := s.listed.foldl (addConn s.attachFlags) [] } := by
  unfold Child.attachAll
  extract_lets conns
  split
  · exact .inl rfl
  · exact .inr rfl

namespace Asks

variable {role : AccessRole}

theorem attachAll (h : s.lastGranted = role) (flags : s.attachFlags = flagsFor role)
    (serving : s.attachAll.phase = .serving) : s.attachAll.decided = s.decided ∧ Asks s.attachAll role := by
  rcases attachAll_cases s with left | attached
  · rw [left] at serving
    cases serving
  · rw [attached]
    refine ⟨rfl, h, flags, fun c member => ?_⟩
    rw [addConn_flags (by simp) _ c member, flags]

theorem onWatch (h : Asks s role) (decided : s.decided = (check s.acl).role)
    (changed : role = .deny → (check s.acl).role ≠ .deny) (serving : (s.onWatch check).phase = .serving) :
    (s.onWatch check).decided ≠ .deny ∧ Asks (s.onWatch check) (s.onWatch check).decided := by
  unfold Child.onWatch at serving ⊢
  -- the new mservers are asked for what the child asks for by then
  have reconciled : ∀ t : Child Acl, t.decided ≠ .deny → Asks t t.decided →
      t.reconcile.decided ≠ .deny ∧ Asks t.reconcile t.reconcile.decided := by
    intro t allowed asks
    refine ⟨allowed, asks.lastGranted, asks.flags, fun c member => ?_⟩
    have all : ∀ c ∈ t.conns, c.flags = t.attachFlags := fun c inside => (asks.conns c inside).trans asks.flags.symm
    rw [addConn_flags all _ c (mem_of_mem_filter member)]
    exact asks.flags
  split at serving
  · rename_i gone
    rw [gone] at serving
    cases serving
  · rename_i stays
    rw [if_neg stays]
    refine reconciled _ ?_ ?_ <;> unfold Child.recheckAcl at stays ⊢ <;> dsimp only at stays ⊢ <;>
      split_ifs at stays ⊢ with same denied
    · rw [decided, same, h.lastGranted]
      exact fun deny => changed deny (by rw [same, h.lastGranted, deny])
    · exact absurd rfl stays
    · show s.decided ≠ _
      rw [decided]
      exact denied
    · rw [decided, same, h.lastGranted]
      exact h
    · exact absurd rfl stays
    · refine ⟨decided.symm, congrArg flagsFor decided.symm, fun c member => ?_⟩
      obtain ⟨c', -, rfl⟩ := mem_map.mp member
      exact congrArg flagsFor decided.symm

end Asks

structure Sound (s : Child Acl) : Prop where
  early : s.phase = .admitted → s.pending = false →
    s.decided ≠ .deny ∧ s.lastGranted = s.decided ∧ s.attachFlags = flagsFor s.decided
  serving : s.phase = .serving → s.decided ≠ .deny ∧ Asks s s.decided

namespace Sound

theorem served (h : Sound s) : s.Served := fun serving =>
  ⟨(h.serving serving).1, (h.serving serving).2.conns⟩

theorem environment (h : Sound s) (acl : Acl) (control : Option Bytes) (servers : List UInt32) :
    Sound { s with acl := acl, control := control, servers := servers } where
  early := h.early
  serving is := by
    obtain ⟨allowed, lastGranted, flags, conns⟩ := h.serving is
    exact ⟨allowed, lastGranted, flags, conns⟩

theorem of_phase (notAdmitted : s.phase ≠ .admitted) (notServing : s.phase ≠ .serving) : Sound s where
  early is := absurd is notAdmitted
  serving is := absurd is notServing

theorem leave : Sound s.leave := of_phase (by simp [Child.leave]) (by simp [Child.leave])

theorem attachAll (allowed : s.decided ≠ .deny) (granted : s.lastGranted = s.decided)
    (flags : s.attachFlags = flagsFor s.decided) : Sound s.attachAll where
  early is := by
    rcases attachAll_cases s with left | attached
    · rw [left] at is
      cases is
    · rw [attached] at is
      cases is
  serving is := by
    obtain ⟨decided, asks⟩ := Asks.attachAll granted flags is
    rw [decided]
    exact ⟨allowed, asks⟩

theorem noteSeq_frame (s : Child Acl) : ∃ seq, s.noteSeq = { s with lastSeq := seq } := by
  unfold Child.noteSeq
  split
  · split
    · exact ⟨s.lastSeq, rfl⟩
    · exact ⟨_, rfl⟩
  · exact ⟨s.lastSeq, rfl⟩

theorem pendingAnswer_cases (s : Child Acl) :
    (s.pendingVerb = some .approve ∧ s.pendingAnswer.phase = .serving ∧ s.pendingAnswer.acl = s.acl ∧
      s.pendingAnswer.decided = s.decided ∧ Asks s.pendingAnswer s.decRole) ∨
    s.pendingAnswer.phase = .gone ∨ s.pendingAnswer.phase = s.phase := by
  obtain ⟨seq, noted⟩ := noteSeq_frame s
  unfold Child.pendingAnswer
  rw [noted]
  split
  · rename_i approved
    generalize started : ({ s with
      lastSeq := seq
      answer := some .approve
      attachFlags := flagsFor s.decRole
      lastGranted := s.decRole } : Child Acl) = t
    rcases attachAll_cases t with left | attached
    · exact .inr (.inl (by rw [left]; rfl))
    · have serving : t.attachAll.phase = .serving := by rw [attached]
      obtain ⟨decided, asks⟩ := Asks.attachAll (by rw [← started]) (by rw [← started]) serving
      refine .inl ⟨approved, serving, ?_, ?_, asks⟩
      · rw [attached, ← started]
      · rw [decided, ← started]
  · exact .inr (.inl rfl)
  · exact .inr (.inr rfl)

theorem of_waiting {t : Child Acl} (waiting : s.phase = .waiting) (idle : t.phase = .gone ∨ t.phase = s.phase) : Sound t := by
  rw [waiting] at idle
  rcases idle with phase | phase
  · exact of_phase (by rw [phase]; decide) (by rw [phase]; decide)
  · exact of_phase (by rw [phase]; decide) (by rw [phase]; decide)

theorem pendingAnswer (waiting : s.phase = .waiting)
    (fresh : s.pendingVerb = some .approve → s.decided = s.decRole ∧ s.decRole ≠ .deny) : Sound s.pendingAnswer := by
  rcases pendingAnswer_cases s with ⟨approved, serving, -, decided, asks⟩ | idle
  · obtain ⟨same, allowed⟩ := fresh approved
    refine ⟨fun is => absurd (serving.symm.trans is) (by decide), fun _ => ?_⟩
    rw [decided, same]
    exact ⟨allowed, asks⟩
  · exact of_waiting waiting idle

theorem onWatch {role} (asks : Asks s role) (decided : s.decided = (check s.acl).role)
    (changed : role = .deny → (check s.acl).role ≠ .deny) (here : s.phase = .serving) : Sound (s.onWatch check)  where
  early is := by
    exfalso
    unfold Child.onWatch Child.recheckAcl at is
    dsimp only at is
    split_ifs at is <;> simp [Child.leave, Child.reconcile, Child.broadcastRoleRequest, here] at is
  serving is := asks.onWatch decided changed is

theorem onWakeup (h : Sound s) (fresh : Fresh check s .wakeup) : Sound (s.onWakeup check) := by
  unfold Child.onWakeup
  extract_lets noted
  split
  · rename_i waiting unix
    refine pendingAnswer waiting fun approved => ?_
    have allowed := fresh waiting approved
    rwa [if_pos unix] at allowed
  · rename_i waiting netchan
    have new := fun approved => fresh waiting approved
    simp only [netchan, reduceCtorEq, if_false] at new
    rcases pendingAnswer_cases noted with ⟨approved, serving, acl, decided, asks⟩ | idle
    · -- the pass goes on to the list, with the role of the admission as the old one
      rw [if_pos serving]
      refine onWatch asks ?_ ?_ serving
      · rw [decided, acl]
      · rw [acl]
        exact new approved
    · have elsewhere : noted.pendingAnswer.phase ≠ .serving := by
        rcases idle with phase | phase
        · rw [phase]
          decide
        · rw [phase]
          exact fun is => absurd (waiting.symm.trans is) (by decide)
      rw [if_neg elsewhere]
      exact of_waiting waiting idle
  · rename_i serving
    obtain ⟨allowed, asks⟩ := h.serving serving
    have noted_asks : Asks noted s.decided := ⟨asks.lastGranted, asks.flags, asks.conns⟩
    exact onWatch noted_asks rfl (fun deny => absurd deny allowed) serving
  · exact h

theorem step (h : Sound s) {e} (fresh : Fresh check s e) : Sound (s.step check e) := by
  cases e with
  | edit acl => exact h.environment acl s.control s.servers
  | post verb target actor name => exact h.environment s.acl (some (ctlPost s.control verb target actor name)) s.servers
  | servers pids => exact h.environment s.acl s.control pids
  | advance =>
    show Sound s.advance
    unfold Child.advance
    split
    · rename_i admitted
      split
      · exact of_phase (by simp) (by simp)
      · rename_i outright
        obtain ⟨allowed, granted, flags⟩ := h.early admitted (by simpa using outright)
        exact attachAll allowed granted flags
    · exact of_phase (by simp) (by simp)
    · exact h
  | wakeup => exact h.onWakeup fresh
  | tick =>
    show Sound s.onTick
    unfold Child.onTick
    split
    · rename_i waiting netchan
      exact pendingAnswer waiting (fresh waiting netchan)
    · exact h
  | leave => exact leave

theorem admission (check : Acl → AccessDecision) (carrier : Carrier) (clientId : UInt32) (dir : Session Acl) :
    Sound (admission check carrier clientId dir) where
  early admitted outright := by
    refine ⟨fun deny => ?_, rfl, rfl⟩
    have gone : (Proxy.admission check carrier clientId dir).phase = .gone := if_pos ⟨outright, deny⟩
    rw [gone] at admitted
    cases admitted
  serving is := by
    have phases : ∀ (c : Prop) [Decidable c], (if c then Phase.gone else Phase.admitted) ≠ .serving := by
      intro c _
      split <;> decide
    exact absurd is (phases _)

end Sound

/-- **Revocation takes effect** in every life of a connection whose approval finds the list granting what
it granted at admission: whenever the connection is served, it asks for the role the list granted at the
last wakeup the child handled, and that is no denial. -/
theorem run_served (check : Acl → AccessDecision) (carrier : Carrier) (clientId : UInt32) (dir : Session Acl)
    (events : List (Event Acl)) (fresh : Along (Child.step check) (Fresh check) (admission check carrier clientId dir) events) :
    ((admission check carrier clientId dir).run check events).Served :=
  (fresh.invariant (I := Sound) (fun _ _ sound ok => sound.step ok) (Sound.admission check carrier clientId dir)).served

def askingSession : Session AccessDecision := ⟨⟨.write, true⟩, none, [7], true⟩

def approvedThenClamped : List (Event AccessDecision) :=
  [.advance, .advance, .post .approve 9 1 [], .wakeup, .edit ⟨.view, false⟩, .wakeup]

theorem approvedThenClamped_served : ((admission id .unix 9 askingSession).run id approvedThenClamped).Served :=
  run_served id .unix 9 askingSession approvedThenClamped (by decide +kernel)

theorem approval_ignores_edit : ¬ ((admission id .unix 9 askingSession).run id
      [.advance, .advance, .edit ⟨.deny, false⟩, .wakeup, .post .approve 9 1 [], .wakeup]).Served := by
  decide +kernel

end Lumimux.Proxy

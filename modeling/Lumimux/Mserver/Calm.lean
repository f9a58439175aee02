import Lumimux.Lib.Run
import Lumimux.Mserver.Handlers
import Lumimux.Mserver.Nested

/-!
# When nobody else is dropped

`Calm` is a condition on the state before a message and on the system's answers under which no client but the one served
is dropped: every other queue has room for what one message may send.
-/

namespace Lumimux.Mserver
open Ipc Lib List

/-- The system does not fail, and no stall times out. -/
structure Env.Steady (env : Env) : Prop where
  send : ∀ t, env.send t ≠ .failed
  alloc : ∀ t, env.alloc t = true
  now : ∀ t t', env.now t < env.now t' + env.stallSecs

theorem Env.willing_steady : Env.willing.Steady :=
  ⟨fun _ => IoResult.noConfusion, fun _ => rfl, fun _ _ => show 1 < 1 + 10 by decide⟩

namespace Server

/-- The queue has room for `room` more bytes and no stall is due. -/
structure Roomy (env : Env) (room : Nat) (mc : Mclient) : Prop where
  room : mc.pending + room ≤ env.outqHardLimit
  fresh : mc.stallSince = 0 ∨ ∀ t, env.now t < mc.stallSince + env.stallSecs

def OthersRoomy (env : Env) (i₀ : Slot) (room : Nat) (s : Server) : Prop :=
  ∀ j, j ≠ i₀ → s.live j = true → Roomy env room (s.clients j)

variable {env : Env} {i₀ : Slot}

variable {room : Nat} {mc : Mclient} {s : Server} {i : Slot}

theorem Roomy.mono {room'} (h : Roomy env room mc) (less : room' ≤ room) :
    Roomy env room' mc := ⟨(Nat.add_le_add_left less _).trans h.room, h.fresh⟩

theorem OthersRoomy.mono {room'} (h : OthersRoomy env i₀ room s) (less : room' ≤ room) :
    OthersRoomy env i₀ room' s := fun j other live => (h j other live).mono less

section
variable (h : OthersRoomy env i₀ room s)
include h

theorem OthersRoomy.setClient (own : i ≠ i₀ → mc.live = true → Roomy env room mc) : OthersRoomy env i₀ room (s.setClient i mc) := by
  intro j other live
  by_cases at_i : j = i
  · subst at_i
    rw [setClient_self]
    rw [Server.live, setClient_self] at live
    exact own other live
  · rw [setClient_of_ne s at_i]
    rw [Server.live, setClient_of_ne s at_i] at live
    exact h j other live

theorem unthrottle_roomy (i : Slot) : OthersRoomy env i₀ room (s.unthrottle env i) := by
  unfold unthrottle
  split
  · exact h.setClient fun other live => ⟨(h i other live).room, (h i other live).fresh⟩
  · exact h

theorem throttle_roomy (i : Slot) : OthersRoomy env i₀ room (s.throttle env i) := by
  unfold throttle
  split
  · exact h.setClient fun other live => ⟨(h i other live).room, (h i other live).fresh⟩
  · exact h

end

theorem pending_drained (mc : Mclient) : (drained mc).pending = mc.pending := by
  unfold drained
  split
  · rename_i done
    simp only [Mclient.pending, done, length_nil, Nat.sub_self]
  · rfl

theorem stallClock_roomy (steady : env.Steady) (h : Roomy env room mc) (tick before : Nat) :
    Roomy env room (stallClock env tick before mc).2 := by
  unfold stallClock
  split
  · exact ⟨h.room, .inl rfl⟩
  · split
    · exact ⟨h.room, .inr fun t => steady.now t tick⟩
    · exact h

theorem settle_roomy (steady : env.Steady) (h : OthersRoomy env i₀ room s) (i : Slot)
    (before : Nat) : OthersRoomy env i₀ room (s.settle env i before) := by
  refine unthrottle_roomy ?_ i
  refine OthersRoomy.setClient h fun other live => stallClock_roomy steady ?_ s.tick before
  have wasLive : s.live i = true := by
    have same : (stallClock env s.tick before (drained (s.clients i))).2.fd = (s.clients i).fd :=
      (congrArg Mclient.fd ((core_stallClock env s.tick before _).trans (core_drained _)) :)
    rw [Mclient.live, same] at live
    exact live
  have own := h i other wasLive
  refine ⟨?_, ?_⟩
  · rw [pending_drained]
    exact own.room
  · have stall : (drained (s.clients i)).stallSince = (s.clients i).stallSince := by
      unfold drained
      split <;> rfl
    rw [stall]
    exact own.fresh

theorem sendLoop_ok (steady : env.Steady) (rounds tick pending : Nat) : (sendLoop env rounds tick pending).2.2 = false := by
  induction rounds generalizing tick pending with
  | zero => rfl
  | succ rounds ih =>
    cases pending with
    | zero => rfl
    | succ pending =>
      simp only [sendLoop]
      split
      · exact ih _ _
      · rfl
      · rename_i failed
        exact absurd failed (steady.send tick)

section
variable (drop : Drop) (steady : env.Steady)
include steady

theorem flush_calm (h : OthersRoomy env i₀ room s) (i : Slot) :
    OthersRoomy env i₀ room (s.flush env drop i) ∧ (s.flush env drop i).core = s.core := by
  unfold flush
  split
  · exact ⟨h, rfl⟩
  · extract_lets before sent s₁
    rw [if_neg (by rw [sendLoop_ok steady]; decide)]
    have kept : s₁.core = s.core :=
      core_modifyClient (s := s) (f := advance sent.2.1) fun _ => rfl
    refine ⟨settle_roomy steady ?_ i before, (settle_bookkeeping ..).core.trans kept⟩
    refine OthersRoomy.setClient h fun other live => ?_
    have own := h i other live
    refine ⟨Nat.le_trans ?_ own.room, own.fresh⟩
    simp only [advance, Mclient.pending]
    omega

theorem pushFrame_calm {frame} (h : OthersRoomy env i₀ (room + frame.length) s) (i : Slot) :
    OthersRoomy env i₀ room (s.pushFrame env drop i frame) ∧ (s.pushFrame env drop i frame).core = s.core := by
  have appended : OthersRoomy env i₀ room (s.modifyClient i (append frame)) := by
    refine (h.mono (Nat.le_add_right ..)).setClient fun other live => ?_
    have own := h i other live
    refine ⟨Nat.le_trans ?_ own.room, own.fresh⟩
    simp only [append, Mclient.pending, length_append]
    omega
  obtain ⟨roomy, kept⟩ := flush_calm drop steady (throttle_roomy appended i) i
  exact ⟨roomy, kept.trans ((throttle_bookkeeping ..).core.trans
    (core_modifyClient (f := append frame) fun _ => rfl))⟩

theorem queueFrame_calm {frame} (h : OthersRoomy env i₀ (room + frame.length) s) (i : Slot) :
    OthersRoomy env i₀ room (s.queueFrame env drop i frame) ∧ (s.queueFrame env drop i frame).core = s.core := by
  unfold queueFrame
  extract_lets s₁ mc
  have kept : s₁.core = s.core := core_modifyClient fun _ => rfl
  have reclaimed : OthersRoomy env i₀ (room + frame.length) s₁ := by
    refine OthersRoomy.setClient h fun other live => ?_
    have own := h i other live
    refine ⟨Nat.le_trans (Nat.le_of_eq ?_) own.room, own.fresh⟩
    simp only [reclaim, Mclient.pending, length_drop, Nat.sub_zero]
  split
  · obtain ⟨roomy, same⟩ := pushFrame_calm drop steady reclaimed i
    exact ⟨roomy, same.trans kept⟩
  · rw [if_pos (steady.alloc _)]
    have grown : (s₁.setClient i { mc with outqCap := grownCap 8192 mc.outqCap (mc.outq.length + frame.length) }).core =
        s₁.core := core_setClient rfl
    have room' : OthersRoomy env i₀ (room + frame.length)
        (s₁.setClient i { mc with outqCap := grownCap 8192 mc.outqCap (mc.outq.length + frame.length) }) :=
      OthersRoomy.setClient reclaimed fun other live => ⟨(reclaimed i other live).room, (reclaimed i other live).fresh⟩
    obtain ⟨roomy, same⟩ := pushFrame_calm drop steady
      (s := (s₁.setClient i { mc with outqCap := grownCap 8192 mc.outqCap (mc.outq.length + frame.length) }).setTick
        (s₁.tick + 1)) room' i
    exact ⟨roomy, same.trans (grown.trans kept)⟩

theorem enqueue_calm {payload} (h : OthersRoomy env i₀ (room + (ipcHdrSize + payload.length)) s) (other : i ≠ i₀)
    (type : MsgType) :
    OthersRoomy env i₀ room (s.enqueue env drop i type payload) ∧ (s.enqueue env drop i type payload).core = s.core := by
  unfold enqueue
  split
  · exact ⟨h.mono (Nat.le_add_right ..), rfl⟩
  · rename_i dead
    have own := h i other (by simpa using dead)
    rw [if_neg (by have := own.room; omega)]
    have punctual : s.stalled env i = false := by
      unfold stalled
      rcases own.fresh with idle | recent
      · rw [idle]
        rfl
      · have := recent s.tick
        rw [Bool.and_eq_false_iff]
        right
        rw [decide_eq_false_iff_not]
        omega
    rw [if_neg (by rw [punctual]; decide)]
    have asked : OthersRoomy env i₀ (room + (ipcMsgFrame type payload).length) (s.stallTick i) := by
      rw [length_ipcMsgFrame]
      unfold stallTick
      split
      · exact h
      · exact h
    obtain ⟨roomy, same⟩ := queueFrame_calm drop steady asked i
    exact ⟨roomy, same.trans (stallTick_bookkeeping s i).core⟩

end

theorem enqueue_dead {drop} (dead : s.live i = false) (type : MsgType) (payload : Bytes) :
    s.enqueue env drop i type payload = s := if_pos dead

def eventCost : Nat := ipcHdrSize + (5 + 63)

def noticeCost : Nat := eventCost * mclientMax

def roleCost : Nat := noticeCost + (ipcHdrSize + 1)

def leaveCost : Nat := noticeCost + roleCost

theorem length_eventPayload (mc : Mclient) (kind : EventKind) : (eventPayload mc kind).length ≤ 5 + 63 := by
  have fits := mc.name.fits
  simp only [eventPayload, be32, length_cons, length_append, length_nil]
  omega

theorem forLive_budget {P : Nat → Server → Prop} {cost} {body : Server → Slot → Server}
    (skip : ∀ budget s, P (budget + cost) s → P budget s)
    (round : ∀ budget s i, s.live i = true → P (budget + cost) s → P budget (body s i)) {budget}
    (enough : P (budget + cost * mclientMax) s) : P budget (s.forLive body) := by
  refine foldl_budget (fun budget s i kept => ?_) (finRange mclientMax) (by rwa [length_finRange])
  split
  · exact round budget s i ‹_› kept
  · exact skip budget s kept

section Quiet

variable (drop : Drop) (steady : env.Steady)
include steady

variable {room : Nat} {s : Server}

theorem enqueue_quiet {payload i} (safe : i ≠ i₀ ∨ s.live i₀ = false)
    (h : OthersRoomy env i₀ (room + (ipcHdrSize + payload.length)) s) (type : MsgType) :
    OthersRoomy env i₀ room (s.enqueue env drop i type payload) ∧ (s.enqueue env drop i type payload).core = s.core := by
  by_cases other : i = i₀
  · subst other
    rw [enqueue_dead (safe.resolve_left fun distinct => distinct rfl)]
    exact ⟨h.mono (Nat.le_add_right ..), rfl⟩
  · exact enqueue_calm drop steady h other type

theorem clientEvent_quiet {about} (safe : about = i₀ ∨ s.live i₀ = false) (h : OthersRoomy env i₀ (room + noticeCost) s)
    (kind : EventKind) :
    OthersRoomy env i₀ room (s.clientEvent env drop about kind) ∧ (s.clientEvent env drop about kind).core = s.core := by
  unfold clientEvent
  extract_lets payload s₁ s₂
  split
  · exact ⟨h.mono (Nat.le_add_right ..), rfl⟩
  · suffices looped : OthersRoomy env i₀ room s₂ ∧ s₂.core = s.core from ⟨looped.1, looped.2⟩
    -- each round of the loop uses the cost of one notification
    refine forLive_budget (P := fun room t => OthersRoomy env i₀ room t ∧ t.core = s.core)
      (fun _ _ kept => ⟨kept.1.mono (Nat.le_add_right _ eventCost), kept.2⟩) ?_ ⟨h, rfl⟩
    rintro budget t i - ⟨roomy, same⟩
    split
    · exact ⟨roomy.mono (Nat.le_add_right ..), same⟩
    · rename_i notAbout
      have safe' : i ≠ i₀ ∨ t.live i₀ = false := by
        rcases safe with rfl | dead
        · exact .inl fun eq => notAbout (.inl eq)
        · exact .inr ((live_of_core same i₀).trans dead)
      have enough : OthersRoomy env i₀ (budget + (ipcHdrSize + payload.length)) t :=
        roomy.mono (Nat.add_le_add_left (Nat.add_le_add_left (length_eventPayload _ _) _) _)
      obtain ⟨roomy', same'⟩ := enqueue_quiet drop steady safe' enough .clientEvent
      exact ⟨roomy', same'.trans same⟩

theorem announceRole_quiet (dead : s.live i₀ = false) {i} (other : i ≠ i₀) (h : OthersRoomy env i₀ (room + roleCost) s)
    (role : Role) : OthersRoomy env i₀ room (s.announceRole env drop i role) ∧
      (s.announceRole env drop i role).core = (s.modifyClient i fun mc => { mc with role := role }).core := by
  have set : OthersRoomy env i₀ (room + noticeCost + (ipcHdrSize + [role.code].length))
      (s.modifyClient i fun mc => { mc with role := role }) :=
    OthersRoomy.setClient h fun other live => ⟨(h i other live).room, (h i other live).fresh⟩
  obtain ⟨told, same⟩ := enqueue_quiet drop steady (.inl other) set .roleChange
  have dead' : ((s.modifyClient i fun mc => { mc with role := role }).enqueue env drop i .roleChange [role.code]).live i₀ =
      false := by
    rw [live_of_core same, Server.live, modifyClient_of_ne s (Ne.symm other)]
    exact dead
  obtain ⟨roomy, same'⟩ : _ ∧ (s.announceRole env drop i role).core = _ :=
    clientEvent_quiet drop steady (.inr dead') told .role
  exact ⟨roomy, same'.trans same⟩

theorem roleReassign_quiet (dead : s.live i₀ = false) (h : OthersRoomy env i₀ (room + roleCost) s) :
    OthersRoomy env i₀ room (s.roleReassign env drop) ∧ ∀ j, (s.roleReassign env drop).live j = s.live j := by
  unfold roleReassign
  split
  · exact ⟨h.mono (Nat.le_add_right ..), fun _ => rfl⟩
  · split
    · rename_i cand found
      have live : s.live cand = true := (mem_filter.mp (mem_of_find?_eq_some found)).2
      have other : cand ≠ i₀ := by
        rintro rfl
        rw [live] at dead
        cases dead
      obtain ⟨roomy, same⟩ :=
        announceRole_quiet (s := s.logPromoted (s.clients cand).flags) drop steady dead other h .write
      refine ⟨roomy, fun j => (live_of_core same j).trans ?_⟩
      exact live_modifyClient (f := fun mc => { mc with role := .write }) (fun _ => rfl) cand j
    · exact ⟨h.mono (Nat.le_add_right ..), fun _ => rfl⟩

theorem disconnectWith_quiet (h : OthersRoomy env i₀ (room + leaveCost) s) :
    OthersRoomy env i₀ room (disconnectWith env drop s i₀) ∧
      ∀ j, j ≠ i₀ → (disconnectWith env drop s i₀).live j = s.live j := by
  unfold disconnectWith
  extract_lets s₁
  have left : OthersRoomy env i₀ (room + roleCost) s₁ ∧ s₁.live i₀ = false ∧ ∀ j, j ≠ i₀ → s₁.live j = s.live j := by
    by_cases live : s.live i₀ = true
    · have enough : OthersRoomy env i₀ (room + roleCost + noticeCost) s := h.mono (by simp only [leaveCost]; omega)
      obtain ⟨told, same⟩ := clientEvent_quiet drop steady (.inl rfl) enough .leave
      simp only [s₁, if_pos live]
      refine ⟨fun j other liveJ => ?_, closed_self _ i₀, fun j other => ?_⟩
      · rw [Server.live, closed_of_ne _ other] at liveJ
        rw [closed_of_ne _ other]
        exact told j other liveJ
      · rw [Server.live, closed_of_ne _ other]
        exact live_of_core same j
    · simp only [s₁, if_neg live]
      refine ⟨(h.mono (by simp only [leaveCost]; omega)).setClient fun other => absurd rfl other, ?_, fun j other => ?_⟩
      · simpa [Server.live, Mclient.live, resetClient, resetInq, resetQueue] using live
      · rw [Server.live, modifyClient_of_ne s other]
        rfl
  obtain ⟨roomy, dead, stays⟩ := left
  obtain ⟨roomy', stays'⟩ := roleReassign_quiet (s := s₁.updateMasterInterest) drop steady dead roomy
  refine ⟨fun j other live => ?_, fun j other => ?_⟩
  · rw [Server.live, clients_resizeToFit] at live
    rw [clients_resizeToFit]
    exact roomy' j other live
  · rw [Server.live, clients_resizeToFit]
    exact (stays' j).trans (stays j other)

end Quiet

def reserve (i₀ : Slot) (s : Server) : Nat := if s.live i₀ then leaveCost else 0

structure Unhurt (env : Env) (i₀ : Slot) (s : Server) (room : Nat) (t : Server) : Prop where
  roomy : OthersRoomy env i₀ (room + reserve i₀ t) t
  stays : ∀ j, j ≠ i₀ → s.live j = true → t.live j = true

namespace Unhurt

variable {s t t' : Server} {room : Nat}

theorem mono {room'} (h : Unhurt env i₀ s room t) (less : room' ≤ room) : Unhurt env i₀ s room' t :=
  ⟨h.roomy.mono (Nat.add_le_add_right less _), h.stays⟩

section
variable (h : Unhurt env i₀ s room t)
include h

theorem keep (queues : ∀ j, (t'.clients j).fd = (t.clients j).fd ∧
    (t'.clients j).pending = (t.clients j).pending ∧ (t'.clients j).stallSince = (t.clients j).stallSince) :
    Unhurt env i₀ s room t' := by
  have live : ∀ j, t'.live j = t.live j := fun j => live_of_fd (queues j).1
  refine ⟨fun j other liveJ => ?_, fun j other liveJ => (live j).trans (h.stays j other liveJ)⟩
  have own := h.roomy j other ((live j).symm.trans liveJ)
  rw [reserve, live i₀]
  exact ⟨(queues j).2.1 ▸ own.room, (queues j).2.2 ▸ own.fresh⟩

theorem modifyClient (i : Slot) {f : Mclient → Mclient}
    (queues : ∀ mc : Mclient, (f mc).fd = mc.fd ∧ (f mc).pending = mc.pending ∧ (f mc).stallSince = mc.stallSince) :
    Unhurt env i₀ s room (t.modifyClient i f) := by
  refine h.keep fun j => ?_
  exact modifyClient_rule (P := fun mc => mc.fd = (t.clients j).fd ∧ mc.pending = (t.clients j).pending ∧
    mc.stallSince = (t.clients j).stallSince) t (fun _ => queues _) fun _ => ⟨rfl, rfl, rfl⟩

theorem resizeToFit : Unhurt env i₀ s room t.resizeToFit :=
  h.keep fun j => by rw [clients_resizeToFit]; exact ⟨rfl, rfl, rfl⟩

end

variable (steady : env.Steady)
include steady

theorem disconnect (h : Unhurt env i₀ s room t) (live : t.live i₀ = true) :
    Unhurt env i₀ s room (Server.disconnect env t i₀) := by
  have enough : OthersRoomy env i₀ (room + leaveCost) t := by
    have := h.roomy
    rwa [reserve, if_pos live] at this
  obtain ⟨roomy, stays⟩ := disconnectWith_quiet (disconnectDepth env mclientMax) steady enough
  have gone : (Server.disconnect env t i₀).live i₀ = false := disconnect_self env t i₀
  refine ⟨?_, fun j other liveJ => (stays j other).trans (h.stays j other liveJ)⟩
  rw [reserve, gone]
  exact roomy

theorem enqueue_own (h : Unhurt env i₀ s room t) (type : MsgType) (payload : Bytes) :
    Unhurt env i₀ s room (t.enqueue env (Server.disconnect env) i₀ type payload) ∧
      ((t.enqueue env (Server.disconnect env) i₀ type payload).live i₀ = true →
        (t.enqueue env (Server.disconnect env) i₀ type payload).core = t.core) := by
  obtain ⟨t₁, kept, outcome⟩ := enqueue_books env (Server.disconnect env) t i₀ type payload
  have unhurt : Unhurt env i₀ s room t₁ := by
    refine ⟨fun j other live => ?_, fun j other live => (live_of_core kept.core j).trans (h.stays j other live)⟩
    rw [reserve, live_of_core kept.core]
    rw [Server.live, kept.others j other] at live
    rw [kept.others j other]
    exact h.roomy j other live
  rcases outcome with same | ⟨live, dropped⟩
  · rw [same]
    exact ⟨unhurt, fun _ => kept.core⟩
  · rw [dropped]
    refine ⟨unhurt.disconnect steady ((live_of_core kept.core i₀).trans live), fun stays => ?_⟩
    rw [disconnect_self] at stays
    cases stays

theorem enqueue {payload} (h : Unhurt env i₀ s (room + (ipcHdrSize + payload.length)) t) (i : Slot) (type : MsgType) :
    Unhurt env i₀ s room (t.enqueue env (Server.disconnect env) i type payload) ∧
      ((t.enqueue env (Server.disconnect env) i type payload).live i₀ = true →
        (t.enqueue env (Server.disconnect env) i type payload).core = t.core) := by
  by_cases own : i = i₀
  · subst own
    exact (h.mono (Nat.le_add_right ..)).enqueue_own steady type payload
  · have enough : OthersRoomy env i₀ (room + reserve i₀ t + (ipcHdrSize + payload.length)) t :=
      h.roomy.mono (by omega)
    obtain ⟨roomy, same⟩ := enqueue_calm (Server.disconnect env) steady enough own type
    refine ⟨⟨?_, fun j otherJ live => (live_of_core same j).trans (h.stays j otherJ live)⟩, fun _ => same⟩
    rw [reserve, live_of_core same]
    exact roomy

theorem clientEvent (h : Unhurt env i₀ s (room + noticeCost) t) (about : Slot) (kind : EventKind) :
    Unhurt env i₀ s room (t.clientEvent env (Server.disconnect env) about kind) ∧
      ((t.clientEvent env (Server.disconnect env) about kind).live i₀ = true →
        (t.clientEvent env (Server.disconnect env) about kind).core = t.core) := by
  unfold Server.clientEvent
  extract_lets payload t₁ t₂
  split
  · exact ⟨h.mono (Nat.le_add_right ..), fun _ => rfl⟩
  · suffices looped : Unhurt env i₀ s room t₂ ∧ (t₂.live i₀ = true → t₂.core = t.core) from
      ⟨looped.1.keep fun _ => ⟨rfl, rfl, rfl⟩, looped.2⟩
    refine forLive_budget (P := fun room t' => Unhurt env i₀ s room t' ∧ (t'.live i₀ = true → t'.core = t.core))
      (fun _ _ kept => ⟨kept.1.mono (Nat.le_add_right _ eventCost), kept.2⟩) ?_
      ⟨h.keep fun _ => ⟨rfl, rfl, rfl⟩, fun _ => rfl⟩
    rintro budget t' i - ⟨hurt, same⟩
    split
    · exact ⟨hurt.mono (Nat.le_add_right ..), same⟩
    · have enough : Unhurt env i₀ s (budget + (ipcHdrSize + payload.length)) t' :=
        hurt.mono (Nat.add_le_add_left (Nat.add_le_add_left (length_eventPayload _ _) _) _)
      obtain ⟨hurt', same'⟩ := enqueue steady enough i .clientEvent
      refine ⟨hurt', fun live => (same' live).trans (same ?_)⟩
      exact (send_nested env t' i _ _).live live

theorem announceRole (h : Unhurt env i₀ s (room + roleCost) t) (i : Slot) (role : Role) :
    Unhurt env i₀ s room (t.announceRole env (Server.disconnect env) i role) ∧
      ((t.announceRole env (Server.disconnect env) i role).live i₀ = true →
        (t.announceRole env (Server.disconnect env) i role).core =
          (t.modifyClient i fun mc => { mc with role := role }).core) := by
  have set : Unhurt env i₀ s (room + noticeCost + (ipcHdrSize + [role.code].length))
      (t.modifyClient i fun mc => { mc with role := role }) := h.modifyClient i fun _ => ⟨rfl, rfl, rfl⟩
  obtain ⟨told, same⟩ := enqueue steady set i .roleChange
  obtain ⟨hurt, same'⟩ : Unhurt env i₀ s room (t.announceRole env (Server.disconnect env) i role) ∧ _ :=
    clientEvent steady told i .role
  exact ⟨hurt, fun live => (same' live).trans (same ((clientEvent_level (disconnect_level env) _ i _).nested.live live))⟩

end Unhurt

def calmRoom : Nat := 8192

structure Calm (env : Env) (i₀ : Slot) (s : Server) : Prop where
  steady : env.Steady
  roomy : OthersRoomy env i₀ calmRoom s

theorem Calm.unhurt (h : Calm env i₀ s) : Unhurt env i₀ s (calmRoom - leaveCost) s := by
  refine ⟨h.roomy.mono ?_, fun _ _ live => live⟩
  have covered : leaveCost ≤ calmRoom := by decide
  rw [reserve]
  split <;> omega

theorem calm_of_idle (steady : env.Steady) (limit : calmRoom ≤ env.outqHardLimit)
    (idle : ∀ j, (s.clients j).pending = 0 ∧ (s.clients j).stallSince = 0) : Calm env i₀ s :=
  ⟨steady, fun j _ _ => ⟨by rw [(idle j).1]; omega, .inl (idle j).2⟩⟩

theorem Calm.tick (calm : Calm env i s) (tick : Nat) : Calm env i { s with tick := tick } := ⟨calm.steady, calm.roomy⟩

theorem Calm.after {s'} (h : Calm env i₀ s) (kept : Bookkeeping i₀ s s') : Calm env i₀ s' := by
  refine ⟨h.steady, fun j other live => ?_⟩
  rw [Server.live, kept.others j other] at live
  rw [kept.others j other]
  exact h.roomy j other live

end Server

end Lumimux.Mserver

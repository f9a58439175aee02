import Lumimux.Mserver.Upkeep

/-!
# Invariants of one client

`Tended` is what a property of one client slot has to survive to be an invariant of the server.
-/

namespace Lumimux.Mserver
open Attr Ipc Lib

namespace Server

def release (env : Env) (mc : Mclient) : Mclient :=
  if mc.hiwater = true ∧ mc.pending ≤ env.outqLowWater then { mc with hiwater := false } else mc

def hold (env : Env) (mc : Mclient) : Mclient :=
  if mc.hiwater = false ∧ mc.pending ≥ env.outqHighWater then { mc with hiwater := true } else mc

structure Tended (env : Env) (P : Mclient → Prop) (spared : Prop) : Prop where
  stake : ∀ {mc mc' : Mclient}, mc'.stake = mc.stake → P mc → P mc'
  sent : spared → ∀ {mc : Mclient} {taken : Nat}, taken ≤ mc.pending → P mc → P (advance taken mc)
  settled : ∀ {mc : Mclient} {taken : Nat} (since : Nat), mc.live = true → taken ≤ mc.pending → P mc →
    P (release env { drained (advance taken mc) with stallSince := since })
  reclaim : ∀ {mc : Mclient}, P mc → P (reclaim mc)
  grow : ∀ {mc : Mclient} {cap : Nat}, mc.outqCap ≤ cap → P mc → P { mc with outqCap := cap }
  frame : ∀ {mc : Mclient} {frame : Bytes}, mc.live = true → mc.outqOff = 0 →
    mc.outq.length + frame.length ≤ mc.outqCap → mc.outq.length + frame.length ≤ env.outqHardLimit → P mc →
    P (hold env (append frame mc))
  reset : ∀ {mc : Mclient}, (spared → P mc) → P (resetClient { mc with fd := none })

theorem sendLoop_le (env : Env) (rounds tick pending : Nat) : (sendLoop env rounds tick pending).2.1 ≤ pending := by
  induction rounds generalizing tick pending with
  | zero => exact Nat.zero_le _
  | succ rounds ih =>
    cases pending with
    | zero => exact Nat.zero_le _
    | succ pending =>
      simp only [sendLoop]
      split
      · rename_i n _
        have rest := ih (tick + 1) (pending + 1 - min (n + 1) (pending + 1))
        exact (Nat.add_le_add_left rest _).trans (by omega)
      · exact Nat.zero_le _
      · exact Nat.zero_le _

theorem drained_live (mc : Mclient) : (drained mc).live = mc.live := by unfold drained; split <;> rfl

section
variable (env : Env) (s : Server) (i : Slot)

theorem clients_sendOut_self : ∃ taken ≤ (s.clients i).pending, (s.sendOut env i).clients i = advance taken (s.clients i) :=
  ⟨_, sendLoop_le .., modifyClient_self ..⟩

theorem clients_unthrottle_self : (s.unthrottle env i).clients i = release env (s.clients i) := by
  unfold unthrottle release
  split
  · exact modifyClient_self s i fun mc => { mc with hiwater := false }
  · rfl

theorem clients_throttle_self : (s.throttle env i).clients i = hold env (s.clients i) := by
  unfold throttle hold
  split
  · exact modifyClient_self s i fun mc => { mc with hiwater := true }
  · rfl

theorem clients_settle_self (before : Nat) :
    ∃ since, (s.settle env i before).clients i = release env { drained (s.clients i) with stallSince := since } := by
  unfold settle
  extract_lets clock
  have own : ((s.setClient i clock.2).setTick clock.1).clients i = clock.2 := setClient_self ..
  rw [clients_unthrottle_self, own]
  -- the stall clock changes no other field
  have stall : ∃ since, clock.2 = { drained (s.clients i) with stallSince := since } := by
    simp only [clock, stallClock]
    split
    · exact ⟨0, rfl⟩
    · split
      · exact ⟨_, rfl⟩
      · exact ⟨_, rfl⟩
  obtain ⟨since, same⟩ := stall
  exact ⟨since, by rw [same]⟩

end

theorem stake_of_ledger {mc mc' : Mclient} (same : mc'.ledger = mc.ledger) : mc'.stake = mc.stake := by
  unfold Mclient.stake
  rw [same]

theorem resetClient_of_dead {mc} (dead : mc.live = false) : resetClient mc = resetClient { mc with fd := none } := by
  have none : mc.fd = none := by simpa [Mclient.live] using dead
  rw [← none]

theorem Tended.upkeep {env} {P : Mclient → Prop} {spared : Prop} (tended : Tended env P spared) (j : Slot) :
    Upkeep env (fun s => P (s.clients j)) fun i s => (i = j → spared) → P (s.clients j)  where
  aside clients _ _ h := by rwa [clients]
  doomed _ h _ := h
  colors _ _ h := h
  seat h same := modifyClient_rule _ (fun _ => tended.stake (stake_of_ledger (same _)) h) fun _ => h
  sendOut {s i} live h exempt := by
    by_cases own : j = i
    · obtain ⟨taken, bound, sent⟩ := clients_sendOut_self env s i
      rw [own, sent]
      exact tended.sent (exempt own.symm) bound (own ▸ h)
    · rwa [(sendOut_bookkeeping env s i).others j own]
  settle {s i} live fine h := by
    by_cases own : j = i
    · obtain ⟨taken, bound, sent⟩ := clients_sendOut_self env s i
      obtain ⟨since, settled⟩ := clients_settle_self env (s.sendOut env i) i (s.clients i).pending
      rw [own, settled, sent]
      exact tended.settled since live bound (own ▸ h)
    · rwa [(settle_bookkeeping ..).others j own, (sendOut_bookkeeping env s i).others j own]
  reclaim h := modifyClient_rule _ (fun _ => tended.reclaim h) fun _ => h
  grow larger h := modifyClient_rule _ (fun own => tended.grow (own ▸ larger) h) fun _ => h
  frame {s i frame} live start fits room h := by
    by_cases own : j = i
    · rw [own, clients_throttle_self, modifyClient_self]
      exact tended.frame live start fits room (own ▸ h)
    · rwa [(throttle_bookkeeping ..).others j own, modifyClient_of_ne s own]
  leave {s s₁ s₂ i} h told handedOn := by
    rw [clients_resizeToFit]
    refine handedOn ?_
    show P ((s₁.closed i).clients j)
    by_cases own : j = i
    · have self : (s₁.closed i).clients i = resetClient { s₁.clients i with fd := none } :=
        modifyClient_self s₁ i fun mc => resetClient { mc with fd := none }
      rw [own, self]
      exact tended.reset fun spared => own ▸ told (h fun _ => spared)
    · rw [closed_of_ne s₁ own]
      exact told (h fun same => absurd same.symm own)
  clear {s s₁ i} dead h handedOn := by
    rw [clients_resizeToFit]
    refine handedOn ?_
    refine modifyClient_rule s (fun own => ?_) fun other => h fun same => absurd same.symm other
    rw [resetClient_of_dead (own ▸ dead)]
    exact tended.reset fun spared => h fun _ => spared
  vote {s s₁ i f} h noted same := by
    rw [clients_resizeToFit]
    exact noted (modifyClient_rule _ (fun _ => tended.stake (same _) h) fun _ => h)

end Server

end Lumimux.Mserver

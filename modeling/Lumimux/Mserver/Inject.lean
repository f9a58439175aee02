import Lumimux.Mserver.SingleWriter

/-!
# Inject-only clients

`role_for` never gives the keyboard to a client that asks with INJECT, but `role_reassign` looks only at VIEW.
So an INJECT client that holds WRITE got it from `role_reassign`, and the log of its picks shows that.
-/

namespace Lumimux.Mserver
open Attr Ipc Lib Vt

/-- A connected INJECT client has role VIEW, or `role_reassign` picked one with its flags. -/
def Mclient.Accounted (picked : Bytes) (mc : Mclient) : Prop :=
  mc.live = true → hasFlag mc.flags attachFInject = true → mc.role = .view ∨ mc.flags ∈ picked

theorem Mclient.Accounted.mono {picked picked' : Bytes} {mc : Mclient} (h : mc.Accounted picked)
    (grown : picked ⊆ picked') : mc.Accounted picked' := fun live inject => (h live inject).imp_right fun mem => grown mem

namespace Server

def Accounted (s : Server) : Prop := ∀ j, (s.clients j).Accounted s.promoted

/-- `Accounted`, the client that is being given its flags and role aside. -/
def AccountedBut (i : Slot) (s : Server) : Prop := ∀ j, j ≠ i → (s.clients j).Accounted s.promoted

variable {env : Env} {i m : Slot} {s s' : Server}

theorem Served.accountedClient (h : Served i s s') {j} (before : (s.clients j).Accounted s.promoted) :
    (s'.clients j).Accounted s'.promoted := by
  intro live inject
  rw [(h.seat live).flags] at inject ⊢
  rcases h.role live with same | ⟨-, picked⟩
  · rw [same]
    exact before.mono h.promoted (h.live live) inject
  · exact .inr picked

theorem Served.accounted (h : Served i s s') (before : s.Accounted) : s'.Accounted :=
  fun j => h.accountedClient (before j)

theorem Served.accountedBut (h : Served m s s') (before : s.AccountedBut i) : s'.AccountedBut i :=
  fun j other => h.accountedClient (before j other)

theorem Typed.accounted (h : Typed i s s') (before : s.Accounted) : s'.Accounted := by
  intro j live inject
  rw [(h.kept j).2.2] at inject ⊢
  rw [h.role, h.promoted]
  exact before j ((h.live j).symm.trans live) inject

theorem accounted_modifyClient (others : s.AccountedBut i) {f : Mclient → Mclient}
    (own : (f (s.clients i)).Accounted s.promoted) : (s.modifyClient i f).Accounted :=
  fun j => modifyClient_rule (P := Mclient.Accounted s.promoted) s (fun same => same ▸ own) (others j)

theorem AccountedBut.demote (before : s.AccountedBut i) (o : Slot) :
    (s.modifyClient o fun mc => { mc with role := .view }).AccountedBut i := fun j other =>
  modifyClient_rule (P := Mclient.Accounted s.promoted) s (fun _ _ _ => .inl rfl) fun _ => before j other

theorem roleFor_accountedBut (before : s.AccountedBut i) (asked : UInt8) : (s.roleFor env m asked).1.AccountedBut i :=
  roleFor_rule asked (fun _ => before) fun _ reached =>
    (announceRole_served env m _ _ .view).accountedBut (reached.demote _)

theorem roleFor_inject {asked} (inject : hasFlag asked attachFInject = true) : (s.roleFor env i asked).2 = .view := by
  unfold roleFor
  split
  · rfl
  · rfl

theorem accounted_resizeToFit (before : s.Accounted) : s.resizeToFit.Accounted := by
  intro j
  rw [clients_resizeToFit, promoted_resizeToFit]
  exact before j

theorem handleRoleRequest_accounted (before : s.Accounted) (buf : Bytes) : (s.handleRoleRequest env i buf).Accounted := by
  cases buf with
  | nil => exact before
  | cons asked rest =>
    simp only [handleRoleRequest]
    have others : (s.roleFor env i asked).1.AccountedBut i := roleFor_accountedBut (fun j _ => before j) asked
    have want : hasFlag asked attachFInject = true → (s.roleFor env i asked).2 = .view := roleFor_inject
    generalize s.roleFor env i asked = decided at others want ⊢
    generalize asking : (decided.1.modifyClient i fun mc => { mc with flags := asked }).resizeToFit = t
    have flags : (t.clients i).flags = asked := by rw [← asking, clients_resizeToFit, modifyClient_self]
    have othersT : t.AccountedBut i := by
      intro j other
      rw [← asking, clients_resizeToFit, promoted_resizeToFit, modifyClient_of_ne _ other]
      exact others j other
    split
    · refine (announceRole_served env i t i decided.2).accounted (accounted_modifyClient othersT fun _ inject => ?_)
      rw [flags] at inject
      exact .inl (want inject)
    · rename_i same
      rw [not_not] at same
      intro j live inject
      by_cases at_i : j = i
      · subst at_i
        rw [flags] at inject
        exact .inl (same.symm.trans (want inject))
      · exact othersT j at_i live inject

theorem accept_accounted (before : s.AccountedBut m) (at_ : IpcAttach) : (s.accept env m at_).Accounted := by
  unfold accept
  extract_lets s₁
  have others₁ : s₁.AccountedBut m := fun j other =>
    modifyClient_rule (P := Mclient.Accounted s.promoted) s (fun same => absurd same other) fun _ => before j other
  have flags₁ : (s₁.clients m).flags = at_.flags := by simp only [s₁, modifyClient_self]
  have others : (s₁.roleFor env m at_.flags).1.AccountedBut m := roleFor_accountedBut others₁ at_.flags
  have kept : (s₁.roleFor env m at_.flags).1.live m = true →
      ((s₁.roleFor env m at_.flags).1.clients m).flags = at_.flags := fun live =>
    (roleFor_seat at_.flags live).flags.trans flags₁
  have want : hasFlag at_.flags attachFInject = true → (s₁.roleFor env m at_.flags).2 = .view := roleFor_inject
  generalize s₁.roleFor env m at_.flags = decided at others kept want ⊢
  refine accounted_resizeToFit (accounted_modifyClient others fun live inject => .inl (want ?_))
  rw [← kept live]
  exact inject

theorem attach_accounted (before : s.Accounted) (fd : Nat) (buf : Bytes) : (s.attach env fd buf).Accounted := by
  unfold attach
  split
  · exact before
  · rename_i s₁ m claimed
    obtain ⟨-, -, -, others⟩ := alloc_cases claimed
    have before₁ : s₁.AccountedBut m := by
      intro j other
      rw [others j other, promoted_alloc claimed]
      exact before j
    refine (welcome_served env _ m).accounted ?_
    split
    · exact accept_accounted before₁ _
    · -- an `ATTACH` that does not decode has no flags
      intro j live inject
      by_cases at_m : j = m
      · subst at_m
        rw [flags_alloc claimed] at inject
        cases inject
      · exact before₁ j at_m live inject

end Server

theorem step_accounted {s : Server} {e : Step} (before : s.Accounted) : (s.step e).Accounted := by
  have before₀ : Server.Accounted { s with tick := 0 } := before
  have happens := s.step_happens e
  generalize s.step e = s' at happens ⊢
  cases happens with
  | served h => exact h.accounted before₀
  | typed _ _ kept h => exact h.accounted (kept.served.accounted before₀)
  | asked _ _ kept => exact Server.handleRoleRequest_accounted (kept.served.accounted before₀) _
  | attached => exact Server.attach_accounted before₀ _ _

theorem run_accounted (window : Emu) (entries : List AttrEntry) (nextGen : Nat) (steps : List Step) :
    ((Server.start window entries nextGen).run steps).Accounted := by
  refine List.foldlRecOn (motive := Server.Accounted) steps Server.step ?_ fun s before e _ => step_accounted before
  intro i live
  cases live

/-- **Inject-only clients never hold the keyboard** in a run in which no call of `role_reassign` that finds no
writer finds a client with INJECT as its candidate. -/
theorem run_inject_views (window : Emu) (entries : List AttrEntry) (nextGen : Nat) (steps : List Step)
    (passedOver : ∀ flags ∈ ((Server.start window entries nextGen).run steps).promoted, hasFlag flags attachFInject = false)
    (j : Slot) (live : ((Server.start window entries nextGen).run steps).live j = true)
    (inject : hasFlag (((Server.start window entries nextGen).run steps).clients j).flags attachFInject = true) :
    (((Server.start window entries nextGen).run steps).clients j).role ≠ .write := by
  rcases run_accounted window entries nextGen steps j live inject with view | picked
  · rw [view]
    decide
  · rw [passedOver _ picked] at inject
    cases inject

/-- A writer, an inject-only client as `send-input` attaches, a third client with `flags`; then the writer leaves. -/
def leftWith (flags : UInt8) : List Step :=
  [.attaching 10 0 .willing, .attaching 11 flags .willing,
    .attaching 12 (attachFSizeObserve ||| attachFInject) .willing, .message ⟨0, mclientMax_pos⟩ .detach [] .willing]

theorem leftWith_plain_views :
    (((Server.start (Emu.new 1 1 0) [] 1).run (leftWith 0)).clients ⟨2, by decide⟩).role ≠ .write :=
  run_inject_views _ _ _ _ (by decide +kernel) _ (by decide +kernel) (by decide +kernel)

theorem inject_gets_keyboard :
    let s := (Server.start (Emu.new 1 1 0) [] 1).run (leftWith attachFInject)
    s.live ⟨1, by decide⟩ = true ∧ hasFlag (s.clients ⟨1, by decide⟩).flags attachFInject = true ∧
      (s.clients ⟨1, by decide⟩).role = .write := by
  decide +kernel

end Lumimux.Mserver

import Mathlib.Logic.Relation
import Lumimux.Mserver.Clients

/-!
# What nested disconnects can do

`Micro` lists the effects of nested sends and drops behind the queues, `Nested` is any number of them.
-/

namespace Lumimux.Mserver
open Attr Ipc Lib List Function

def Mclient.core (mc : Mclient) : Mclient :=
  { mc with
    outq := []
    outqOff := 0
    outqCap := 0
    hiwater := false
    stallSince := 0
    lastDeny := 0
    queued := []
    handed := []
    levels := [] }

namespace Server

def core (s : Server) : Server :=
  { s with
    clients := fun i => (s.clients i).core
    masterRead := true
    eventDepth := 0
    lastPtyFlags := none
    tick := 0 }

@[simp] theorem setClient_self (s : Server) (i : Slot) (mc : Mclient) : (s.setClient i mc).clients i = mc :=
  update_self ..

variable {i j : Slot} {s s' : Server}

theorem setClient_of_ne (s : Server) (other : j ≠ i) (mc : Mclient) :
    (s.setClient i mc).clients j = s.clients j := update_of_ne other ..

theorem core_ext (clients : ∀ i, (s'.clients i).core = (s.clients i).core)
    (window : s'.window = s.window) (attrs : s'.attrs = s.attrs) (ptyOut : s'.ptyOut = s.ptyOut)
    (promoted : s'.promoted = s.promoted) (stopped : s'.stopped = s.stopped) : s'.core = s.core := by
  simp only [core, clients, window, attrs, ptyOut, promoted, stopped]

theorem core_setClient {mc} (same : mc.core = (s.clients i).core) : (s.setClient i mc).core = s.core := by
  refine core_ext (fun j => ?_) rfl rfl rfl rfl rfl
  by_cases at_i : j = i
  · subst at_i
    rw [setClient_self, same]
  · rw [setClient_of_ne s at_i]

theorem core_modifyClient {f : Mclient → Mclient} (same : ∀ mc : Mclient, (f mc).core = mc.core) :
    (s.modifyClient i f).core = s.core := core_setClient (same _)

theorem live_of_core (same : s'.core = s.core) (i : Slot) : s'.live i = s.live i :=
  (congrArg (fun s : Server => (s.clients i).fd.isSome) same :)

structure Bookkeeping (i : Slot) (s s' : Server) : Prop where
  core : s'.core = s.core
  others : ∀ j, j ≠ i → s'.clients j = s.clients j
  eventDepth : s'.eventDepth = s.eventDepth

namespace Bookkeeping

variable {i : Slot} {s s' s'' : Server}

theorem refl (i : Slot) (s : Server) : Bookkeeping i s s := ⟨rfl, fun _ _ => rfl, rfl⟩

theorem trans (h : Bookkeeping i s s') (h' : Bookkeeping i s' s'') : Bookkeeping i s s'' :=
  ⟨h'.core.trans h.core, fun j other => (h'.others j other).trans (h.others j other),
    h'.eventDepth.trans h.eventDepth⟩

theorem setClient {mc} (same : mc.core = (s.clients i).core) : Bookkeeping i s (s.setClient i mc) :=
  ⟨core_setClient same, fun _ other => setClient_of_ne s other mc, rfl⟩

theorem modifyClient {f : Mclient → Mclient} (same : ∀ mc : Mclient, (f mc).core = mc.core) :
    Bookkeeping i s (s.modifyClient i f) := setClient (same _)

theorem setTick (h : Bookkeeping i s s') (tick : Nat) : Bookkeeping i s (s'.setTick tick) :=
  ⟨h.core, h.others, h.eventDepth⟩

end Bookkeeping

theorem unthrottle_bookkeeping (env : Env) (s : Server) (i : Slot) : Bookkeeping i s (s.unthrottle env i) := by
  unfold unthrottle
  split
  · have quiet : Bookkeeping i s (s.modifyClient i fun mc => { mc with hiwater := false }) := .modifyClient fun _ => rfl
    exact ⟨quiet.core, quiet.others, quiet.eventDepth⟩
  · exact .refl i s

theorem throttle_bookkeeping (env : Env) (s : Server) (i : Slot) : Bookkeeping i s (s.throttle env i) := by
  unfold throttle
  split
  · have quiet : Bookkeeping i s (s.modifyClient i fun mc => { mc with hiwater := true }) := .modifyClient fun _ => rfl
    exact ⟨quiet.core, quiet.others, quiet.eventDepth⟩
  · exact .refl i s

theorem core_stallClock (env : Env) (tick before : Nat) (mc : Mclient) : (stallClock env tick before mc).2.core = mc.core := by
  unfold stallClock
  split
  · rfl
  · split <;> rfl

theorem core_drained (mc : Mclient) : (drained mc).core = mc.core := by
  unfold drained
  split <;> rfl

theorem settle_bookkeeping (env : Env) (s : Server) (i : Slot) (before : Nat) : Bookkeeping i s (s.settle env i before) := by
  have clocked : Bookkeeping i s (s.setClient i (stallClock env s.tick before (drained (s.clients i))).2) :=
    .setClient ((core_stallClock ..).trans (core_drained _))
  exact (clocked.setTick _).trans (unthrottle_bookkeeping ..)

theorem stallTick_bookkeeping (s : Server) (i : Slot) : Bookkeeping i s (s.stallTick i) := by
  unfold stallTick
  split
  · exact .refl i s
  · exact (Bookkeeping.refl i s).setTick _

def Books (drop : Drop) (i : Slot) (s s' : Server) : Prop :=
  ∃ s₁ : Server, Bookkeeping i s s₁ ∧ (s' = s₁ ∨ s.live i = true ∧ s' = drop s₁ i)

theorem Books.after {drop s₁} (books : Books drop i s₁ s') (same : Bookkeeping i s s₁) : Books drop i s s' := by
  obtain ⟨s₂, kept, outcome⟩ := books
  refine ⟨s₂, same.trans kept, outcome.imp_right fun dropped => ⟨?_, dropped.2⟩⟩
  rw [← live_of_core same.core i]
  exact dropped.1

section
variable (env : Env) (drop : Drop) (s : Server) (i : Slot)

theorem flush_books : Books drop i s (s.flush env drop i) := by
  unfold flush
  split
  · exact ⟨s, .refl i s, .inl rfl⟩
  · rename_i live
    extract_lets before sent s₁
    have kept : Bookkeeping i s s₁ :=
      (Bookkeeping.modifyClient (f := advance sent.2.1) fun _ => rfl).setTick _
    split
    · exact ⟨s₁, kept, .inr ⟨by simpa using live, rfl⟩⟩
    · exact ⟨_, kept.trans (settle_bookkeeping ..), .inl rfl⟩

theorem pushFrame_books (frame : Bytes) : Books drop i s (s.pushFrame env drop i frame) := by
  have pushed : Bookkeeping i s (s.modifyClient i (append frame)) := .modifyClient fun _ => rfl
  exact (flush_books ..).after (pushed.trans (throttle_bookkeeping ..))

theorem queueFrame_books (live : s.live i = true) (frame : Bytes) : Books drop i s (s.queueFrame env drop i frame) := by
  unfold queueFrame
  extract_lets s₁ mc
  have kept : Bookkeeping i s s₁ := .modifyClient fun _ => rfl
  split
  · exact (pushFrame_books ..).after kept
  · split
    · have grown : Bookkeeping i s₁
          (s₁.setClient i { mc with outqCap := grownCap 8192 mc.outqCap (mc.outq.length + frame.length) }) :=
        .setClient rfl
      exact (pushFrame_books ..).after (kept.trans (grown.setTick _))
    · exact ⟨s₁.setTick (s₁.tick + 1), kept.setTick _, .inr ⟨live, rfl⟩⟩

theorem enqueue_books (type : MsgType) (payload : Bytes) : Books drop i s (s.enqueue env drop i type payload) := by
  unfold enqueue
  split
  · exact ⟨s, .refl i s, .inl rfl⟩
  · rename_i dead
    have live : s.live i = true := by simpa using dead
    have asked := stallTick_bookkeeping s i
    split
    · exact ⟨s, .refl i s, .inr ⟨live, rfl⟩⟩
    · split
      · exact ⟨s.stallTick i, asked, .inr ⟨live, rfl⟩⟩
      · exact (queueFrame_books env drop _ i ((live_of_core asked.core i).trans live) _).after asked

end

inductive Micro : Server → Server → Prop
  | books {s s' : Server} (same : s'.core = s.core) : Micro s s'
  | close (s : Server) (i : Slot) : Micro s (s.closed i)
  | reset (s : Server) (i : Slot) (dead : s.live i = false) : Micro s (s.modifyClient i resetClient)
  | grant (s : Server) (i : Slot) (live : s.live i = true)
      (nobody : ∀ j, s.live j = true → (s.clients j).role ≠ .write)
      (wanted : hasFlag (s.clients i).flags attachFView = false) :
      Micro s ((s.logPromoted (s.clients i).flags).modifyClient i fun mc => { mc with role := .write })
  | refit (s : Server) : Micro s s.resizeToFit

abbrev Nested : Server → Server → Prop := Relation.ReflTransGen Micro

theorem nested_of_core (same : s'.core = s.core) : Nested s s' := .single (.books same)

def DropOk (drop : Drop) : Prop := ∀ s i, Nested s (drop s i)

/-- What is nested has also returned from every event. -/
structure Level (s s' : Server) : Prop where
  nested : Nested s s'
  depth : s'.eventDepth = s.eventDepth

theorem Level.refl (s : Server) : Level s s := ⟨.refl, rfl⟩

theorem Level.trans {s''} (h : Level s s') (h' : Level s' s'') : Level s s'' :=
  ⟨h.nested.trans h'.nested, h'.depth.trans h.depth⟩

theorem Bookkeeping.level (kept : Bookkeeping i s s') : Level s s' := ⟨nested_of_core kept.core, kept.eventDepth⟩

theorem resizeToFit_eventDepth (s : Server) : s.resizeToFit.eventDepth = s.eventDepth := by
  unfold resizeToFit
  extract_lets
  split
  split <;> rfl

section Circle

variable {env : Env} {drop : Drop} (dropOk : ∀ s i, Level s (drop s i))
include dropOk

theorem Books.level {i s s'} (books : Books drop i s s') : Level s s' := by
  obtain ⟨s₁, kept, rfl | ⟨-, rfl⟩⟩ := books
  · exact kept.level
  · exact kept.level.trans (dropOk s₁ i)

theorem enqueue_level (s : Server) (i : Slot) (type : MsgType) (payload : Bytes) :
    Level s (s.enqueue env drop i type payload) := (enqueue_books ..).level dropOk

omit dropOk in
theorem forLive_level {body : Server → Slot → Server} (bodyOk : ∀ s i, Level s (body s i)) (s : Server) :
    Level s (s.forLive body) := by
  refine foldlRecOn (motive := Level s) (finRange mclientMax) _ (.refl s) fun s₁ reached i _ => ?_
  split
  · exact reached.trans (bodyOk s₁ i)
  · exact reached

theorem tell_level (about : Slot) (payload : Bytes) (s : Server) (i : Slot) : Level s
    (if i = about ∨ (s.clients i).ready = false then s else s.enqueue env drop i .clientEvent payload) := by
  split
  · exact .refl s
  · exact enqueue_level dropOk s i _ _

theorem clientEvent_level (s : Server) (about : Slot) (kind : EventKind) : Level s (s.clientEvent env drop about kind) := by
  unfold clientEvent
  extract_lets payload s₁ s₂
  split
  · exact .refl s
  · have looped : Level s₁ s₂ := forLive_level (tell_level dropOk about payload) s₁
    have opened : Nested s s₁ := nested_of_core rfl
    refine ⟨opened.trans (looped.nested.trans (nested_of_core rfl)), ?_⟩
    show s₂.eventDepth - 1 = s.eventDepth
    rw [looped.depth]
    exact Nat.add_sub_cancel ..

theorem announceRole_level (s : Server) (i : Slot) (role : Role) :
    Level (s.modifyClient i fun mc => { mc with role := role }) (s.announceRole env drop i role) :=
  (enqueue_level dropOk _ i _ _).trans (clientEvent_level dropOk _ i _)

theorem roleReassign_level (s : Server) : Level s (s.roleReassign env drop) := by
  unfold roleReassign
  split
  · exact .refl s
  · rename_i unheld
    split
    · rename_i cand found
      have member := mem_of_find?_eq_some found
      have wanted := find?_some found
      have live : s.live cand = true := (mem_filter.mp member).2
      have nobody : ∀ j, s.live j = true → (s.clients j).role ≠ .write := by
        intro j liveJ holds
        refine unheld (any_eq_true.mpr ⟨j, mem_filter.mpr ⟨mem_finRange j, liveJ⟩, ?_⟩)
        rw [holds]
        rfl
      have announced := @announceRole_level env drop dropOk (s.logPromoted (s.clients cand).flags) cand .write
      exact ⟨.head (.grant s cand live nobody (by simpa using wanted)) announced.nested, announced.depth⟩
    · exact .refl s

theorem disconnectWith_level (s : Server) (i : Slot) : Level s (disconnectWith env drop s i) := by
  unfold disconnectWith
  extract_lets s₁
  have left : Level s s₁ := by
    by_cases live : s.live i = true
    · have told := @clientEvent_level env drop dropOk s i .leave
      simp only [s₁, if_pos live]
      exact ⟨told.nested.tail (.close _ i), told.depth⟩
    · simp only [s₁, if_neg live]
      exact ⟨.single (.reset s i (by simpa using live)), rfl⟩
  have interest : Level s₁ s₁.updateMasterInterest := ⟨nested_of_core rfl, rfl⟩
  have reassigned := left.trans (interest.trans (@roleReassign_level env drop dropOk _))
  exact ⟨reassigned.nested.tail (.refit _), (resizeToFit_eventDepth _).trans reassigned.depth⟩

end Circle

theorem disconnectDepth_level (env : Env) (depth : Nat) (s : Server) (i : Slot) : Level s (disconnectDepth env depth s i) := by
  induction depth generalizing s i with
  | zero => exact .refl s
  | succ depth ih => exact disconnectWith_level ih s i

theorem disconnect_level (env : Env) (s : Server) (i : Slot) : Level s (disconnect env s i) := disconnectDepth_level env _ s i

theorem disconnect_nested (env : Env) : DropOk (disconnect env) := fun s i => (disconnect_level env s i).nested

theorem send_nested (env : Env) (s : Server) (i : Slot) (type : MsgType) (payload : Bytes) :
    Nested s (s.enqueue env (disconnect env) i type payload) := (enqueue_level (disconnect_level env) s i type payload).nested

section
variable (s : Server)

theorem modifyClient_of_ne (other : j ≠ i) (f : Mclient → Mclient) :
    (s.modifyClient i f).clients j = s.clients j := setClient_of_ne s other _

@[simp] theorem modifyClient_self (i : Slot) (f : Mclient → Mclient) :
    (s.modifyClient i f).clients i = f (s.clients i) := setClient_self ..

theorem modifyClient_rule {P : Mclient → Prop} {f : Mclient → Mclient} (own : j = i → P (f (s.clients j)))
    (other : j ≠ i → P (s.clients j)) : P ((s.modifyClient i f).clients j) := by
  by_cases same : j = i
  · subst same
    rw [modifyClient_self]
    exact own rfl
  · rw [modifyClient_of_ne s same]
    exact other same

@[simp] theorem clients_resizeToFit : s.resizeToFit.clients = s.clients := by
  unfold resizeToFit
  extract_lets
  split
  split <;> rfl

theorem closed_of_ne (other : j ≠ i) : (s.closed i).clients j = s.clients j :=
  modifyClient_of_ne s other fun mc => resetClient { mc with fd := none }

theorem closed_self (i : Slot) : (s.closed i).live i = false := by
  simp only [live, Mclient.live, closed, modifyClient_self]
  rfl

end

def Kept (mc mc' : Mclient) : Prop := mc'.core = { mc.core with role := mc'.role }

theorem Kept.refl (mc : Mclient) : Kept mc mc := rfl

theorem Kept.trans {a b c} (ab : Kept a b) (bc : Kept b c) : Kept a c := by
  unfold Kept at ab bc ⊢
  rw [bc, ab]

namespace Kept

variable {mc mc' : Mclient} (h : Kept mc mc')
include h

theorem fd : mc'.fd = mc.fd := (congrArg Mclient.fd h :)
theorem flags : mc'.flags = mc.flags := (congrArg Mclient.flags h :)
theorem inq : mc'.inq = mc.inq := (congrArg Mclient.inq h :)
theorem inrun : mc'.inrun = mc.inrun := (congrArg Mclient.inrun h :)

end Kept

theorem kept_of_core (same : s'.core = s.core) (i : Slot) : Kept (s.clients i) (s'.clients i) := by
  have own : (s'.clients i).core = (s.clients i).core := (congrArg (fun s : Server => s.clients i) same :)
  have role : (s'.clients i).role = (s.clients i).role := (congrArg Mclient.role own :)
  rw [Kept, own, role]
  rfl

theorem Micro.stays (h : Micro s s') (live : s'.live i = true) :
    Kept (s.clients i) (s'.clients i) ∧ ((s'.clients i).role = (s.clients i).role ∨
      (s'.clients i).role = .write ∧ (s.clients i).flags ∈ s'.promoted ∧
        (∀ j, s.live j = true → (s.clients j).role ≠ .write) ∧
        ∀ j, j ≠ i → (s'.clients j).role = (s.clients j).role) := by
  cases h with
  | books same => exact ⟨kept_of_core same i, .inl (congrArg (fun s : Server => (s.clients i).role) same :)⟩
  | close j =>
    have other : i ≠ j := by
      rintro rfl
      rw [closed_self] at live
      cases live
    rw [closed_of_ne s other]
    exact ⟨.refl _, .inl rfl⟩
  | reset j dead =>
    have other : i ≠ j := by
      rintro rfl
      have : (s.modifyClient i resetClient).live i = s.live i := by
        simp only [Server.live, modifyClient_self]
        rfl
      rw [this, dead] at live
      cases live
    rw [modifyClient_of_ne s other]
    exact ⟨.refl _, .inl rfl⟩
  | grant j _ nobody wanted =>
    by_cases own : i = j
    · subst own
      rw [modifyClient_self]
      exact ⟨rfl, .inr ⟨rfl, mem_append_right _ mem_cons_self, nobody, fun j other => by
        rw [modifyClient_of_ne _ other]
        rfl⟩⟩
    · rw [modifyClient_of_ne _ own]
      exact ⟨.refl _, .inl rfl⟩
  | refit =>
    rw [clients_resizeToFit]
    exact ⟨.refl _, .inl rfl⟩

@[simp] theorem promoted_resizeToFit (s : Server) : s.resizeToFit.promoted = s.promoted := by
  unfold resizeToFit
  extract_lets
  split
  split <;> rfl

theorem Micro.promoted (h : Micro s s') : s.promoted ⊆ s'.promoted := by
  cases h with
  | books same =>
    rw [show s'.promoted = s.promoted from (congrArg Server.promoted same :)]
    exact List.Subset.refl _
  | close | reset => exact List.Subset.refl _
  | grant => exact subset_append_left ..
  | refit =>
    rw [promoted_resizeToFit]
    exact List.Subset.refl _

theorem live_of_fd (same : (s'.clients i).fd = (s.clients i).fd) : s'.live i = s.live i :=
  congrArg Option.isSome same

theorem live_modifyClient {f : Mclient → Mclient} (kept : ∀ mc, (f mc).fd = mc.fd) (o j : Slot) :
    (s.modifyClient o f).live j = s.live j := by
  refine live_of_fd ?_
  by_cases own : j = o
  · rw [own, modifyClient_self, kept]
  · rw [modifyClient_of_ne s own]

theorem Nested.kept (h : Nested s s') (live : s'.live i = true) : Kept (s.clients i) (s'.clients i) := by
  induction h with
  | refl => exact .refl _
  | tail _ step ih =>
    have kept := (step.stays live).1
    exact (ih ((live_of_fd kept.fd).symm.trans live)).trans kept

theorem Nested.live (h : Nested s s') (live : s'.live i = true) : s.live i = true :=
  (live_of_fd (h.kept live).fd).symm.trans live

theorem disconnectWith_self {env drop} (dropOk : ∀ s i, Level s (drop s i)) (s : Server) (i : Slot) :
    (disconnectWith env drop s i).live i = false := by
  unfold disconnectWith
  extract_lets s₁
  have gone : s₁.live i = false := by
    by_cases live : s.live i = true
    · simp only [s₁, if_pos live]
      exact closed_self _ i
    · have same : (s.modifyClient i resetClient).live i = s.live i := live_of_fd (by rw [modifyClient_self]; rfl)
      simp only [s₁, if_neg live]
      rw [same]
      simpa using live
  have interest : Nested s₁ s₁.updateMasterInterest := nested_of_core rfl
  have rest : Nested s₁ (s₁.updateMasterInterest.roleReassign env drop).resizeToFit :=
    (interest.trans (roleReassign_level dropOk _).nested).tail (.refit _)
  by_contra live
  rw [Bool.not_eq_false] at live
  rw [rest.live live] at gone
  cases gone

theorem disconnect_self (env : Env) (s : Server) (i : Slot) : (disconnect env s i).live i = false :=
  disconnectWith_self (disconnectDepth_level env mclientMax) s i

structure SameOutside (s s' : Server) : Prop where
  ptyOut : s'.ptyOut = s.ptyOut
  replies : s'.window.vt.replies = s.window.vt.replies
  entries : s'.attrs.entries = s.attrs.entries
  stopped : s'.stopped = s.stopped

theorem SameOutside.refl (s : Server) : SameOutside s s := ⟨rfl, rfl, rfl, rfl⟩

theorem SameOutside.trans {a b c} (ab : SameOutside a b) (bc : SameOutside b c) : SameOutside a c :=
  ⟨bc.ptyOut.trans ab.ptyOut, bc.replies.trans ab.replies, bc.entries.trans ab.entries, bc.stopped.trans ab.stopped⟩

theorem sameOutside_of_core (same : s'.core = s.core) : SameOutside s s' :=
  ⟨(congrArg Server.ptyOut same :), (congrArg (fun s : Server => s.window.vt.replies) same :),
    (congrArg (fun s : Server => s.attrs.entries) same :), (congrArg Server.stopped same :)⟩

theorem resizeToFit_outside (s : Server) : SameOutside s s.resizeToFit := by
  unfold resizeToFit
  extract_lets
  split
  split
  · exact ⟨rfl, rfl, rfl, rfl⟩
  · exact .refl s

theorem Micro.outside (h : Micro s s') : SameOutside s s' := by
  cases h with
  | books same => exact sameOutside_of_core same
  | close | reset | grant => exact ⟨rfl, rfl, rfl, rfl⟩
  | refit => exact resizeToFit_outside s

theorem Nested.outside (h : Nested s s') : SameOutside s s' := by
  induction h with
  | refl => exact .refl s
  | tail _ step ih => exact ih.trans step.outside

@[simp] theorem attrs_resizeToFit (s : Server) : s.resizeToFit.attrs = s.attrs := by
  unfold resizeToFit
  extract_lets
  split
  split <;> rfl

theorem Micro.txn (h : Micro s s') {k fd} (owner : (s.attrs.txns k).clientFd = some fd)
    (stays : ∀ i, (s.clients i).fd = some fd → s'.live i = true) :
    s'.attrs.txns k = s.attrs.txns k := by
  cases h with
  | books same => exact (congrArg (fun s : Server => s.attrs.txns k) same :)
  | close i =>
    show (if _ ∧ _ then _ else _) = _
    rw [if_neg]
    rintro ⟨-, own⟩
    have : (s.closed i).live i = true := stays i (own ▸ owner)
    rw [closed_self] at this
    cases this
  | reset => rfl
  | grant => rfl
  | refit => rw [attrs_resizeToFit]

theorem Nested.txn (h : Nested s s') {k fd} (owner : (s.attrs.txns k).clientFd = some fd)
    (stays : ∀ i, s.live i = true → (s.clients i).fd = some fd → s'.live i = true) : s'.attrs.txns k = s.attrs.txns k := by
  induction h with
  | refl => rfl
  | @tail b c reached step ih =>
    have before : ∀ i, c.live i = true → b.live i = true :=
      fun i live => (live_of_fd (step.stays live).1.fd).symm.trans live
    have same := ih fun i live own => before i (stays i live own)
    have owner' : (b.attrs.txns k).clientFd = some fd := by rw [same, owner]
    rw [step.txn owner' ?_, same]
    intro i own
    have liveB : b.live i = true := by rw [Server.live, Mclient.live, own]; rfl
    have kept := Nested.kept reached liveB
    exact stays i ((live_of_fd kept.fd).symm.trans liveB) (kept.fd.symm.trans own)

end Server

end Lumimux.Mserver

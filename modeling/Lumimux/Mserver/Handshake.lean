import Lumimux.Mserver.Queue

/-!
# The reply to an attach comes first

A newcomer is not `ready` until its reply is queued, and holds WRITE since `mclient_alloc`.
-/

namespace Lumimux.Mserver
open Attr Ipc Lib Vt List

namespace Server

variable {env : Env} {drop : Drop} {s : Server} {i : Slot}

def Greeted (mc : Mclient) : Prop :=
  mc.queued = [] ∧ mc.live = false ∨ ∃ payload rest, mc.queued = ipcMsgFrame .attachReply payload :: rest

theorem greeted_tended (env : Env) : Tended env Greeted True where
  stake {mc mc'} same h := by
    have fd : mc'.fd = mc.fd := (congrArg Mclient.fd same :)
    have queued : mc'.queued = mc.queued := (congrArg Mclient.queued same :)
    unfold Greeted Mclient.live
    rwa [fd, queued]
  sent _ _ _ _ h := h
  settled {mc taken} since live _ h := by
    unfold Greeted at h ⊢
    rw [release_live, release_queued]
    show (drained (advance taken mc)).queued = [] ∧ (drained (advance taken mc)).live = false ∨
      ∃ payload rest, (drained (advance taken mc)).queued = ipcMsgFrame .attachReply payload :: rest
    rw [drained_queued, drained_live]
    exact h
  reclaim h := h
  grow _ h := h
  frame {mc frame} live _ _ _ h := by
    obtain ⟨-, dead⟩ | ⟨payload, rest, first⟩ := h
    · exact absurd (live.symm.trans dead) (by decide)
    · refine .inr ⟨payload, rest ++ [frame], ?_⟩
      rw [hold_queued]
      show mc.queued ++ [frame] = _
      rw [first, cons_append]
  reset {mc} h := (h trivial).imp (fun none => ⟨none.1, rfl⟩) id

structure Waiting (i : Slot) (s : Server) : Prop where
  live : s.live i = true
  ready : (s.clients i).ready = false
  role : (s.clients i).role = .write
  queued : (s.clients i).queued = []
  idle : (s.clients i).stallSince = 0

theorem Waiting.congr {s' : Server} (h : s.Waiting i) (same : s'.clients i = s.clients i) : s'.Waiting i := by
  refine ⟨?_, ?_, ?_, ?_, ?_⟩
  · rw [Server.live, same]
    exact h.live
  · rw [same]
    exact h.ready
  · rw [same]
    exact h.role
  · rw [same]
    exact h.queued
  · rw [same]
    exact h.idle

def Spares (i : Slot) (drop : Drop) : Prop := ∀ s k, k ≠ i → s.Waiting i → (drop s k).Waiting i

section Circle

variable (spares : Spares i drop)
include spares

theorem Books.waiting {k : Slot} {s' : Server} (books : Books drop k s s') (other : k ≠ i) (h : s.Waiting i) :
    s'.Waiting i := by
  obtain ⟨s₁, kept, rfl | ⟨-, rfl⟩⟩ := books
  · exact h.congr (kept.others i other.symm)
  · exact spares s₁ k other (h.congr (kept.others i other.symm))

theorem enqueue_waiting {k} (other : k ≠ i) (h : s.Waiting i) (type : MsgType) (payload : Bytes) :
    (s.enqueue env drop k type payload).Waiting i := (enqueue_books ..).waiting spares other h

theorem clientEvent_waiting (h : s.Waiting i) (about : Slot) (kind : EventKind) :
    (s.clientEvent env drop about kind).Waiting i := by
  unfold clientEvent
  extract_lets payload s₁ s₂
  split
  · exact h
  · have looped : s₂.Waiting i := by
      refine forLive_invariant (I := fun s => s.Waiting i) (fun {s} k h => ?_) (h.congr rfl)
      split
      · exact h
      · rename_i told
        -- presence skips a client that is not ready
        refine enqueue_waiting spares (fun own => ?_) h _ _
        exact told (.inr (own ▸ h.ready))
    exact looped.congr rfl

theorem announceRole_waiting {k : Slot} (other : k ≠ i) (h : s.Waiting i) (role : Role) :
    (s.announceRole env drop k role).Waiting i := by
  refine clientEvent_waiting spares (enqueue_waiting spares other (h.congr ?_) ..) ..
  exact modifyClient_of_ne s other.symm _

theorem disconnectWith_waiting {k : Slot} (other : k ≠ i) (h : s.Waiting i) : (disconnectWith env drop s k).Waiting i := by
  unfold disconnectWith
  extract_lets s₁
  have left : s₁.Waiting i := by
    simp only [s₁]
    split
    · exact (clientEvent_waiting spares h k .leave).congr (closed_of_ne _ other.symm)
    · exact h.congr (modifyClient_of_ne s other.symm _)
  -- the newcomer holds WRITE, so the keyboard is not handed on
  have held : s₁.updateMasterInterest.roleReassign env drop = s₁.updateMasterInterest := by
    unfold roleReassign
    refine if_pos (any_eq_true.mpr ⟨i, mem_filter.mpr ⟨mem_finRange i, left.live⟩, ?_⟩)
    show ((s₁.clients i).role == .write) = true
    rw [left.role]
    rfl
  rw [held]
  exact left.congr (by rw [clients_resizeToFit]; rfl)

end Circle

theorem disconnectDepth_spares (env : Env) (i : Slot) (depth : Nat) : Spares i (disconnectDepth env depth) := by
  induction depth with
  | zero => exact fun _ _ _ h => h
  | succ depth ih => exact fun _ _ other h => disconnectWith_waiting ih other h

theorem disconnect_spares (env : Env) (i : Slot) : Spares i (disconnect env) := disconnectDepth_spares env i _

theorem roleFor_waiting (h : s.Waiting i) (asked : UInt8) : (s.roleFor env i asked).1.Waiting i :=
  roleFor_rule asked (fun _ => ⟨h.live, h.ready, h.role, h.queued, h.idle⟩) fun other kept =>
    announceRole_waiting (disconnect_spares env i) other kept _

structure Silent (i : Slot) (s : Server) : Prop where
  live : s.live i = true
  queued : (s.clients i).queued = []
  idle : (s.clients i).stallSince = 0

theorem Waiting.silent (h : s.Waiting i) : s.Silent i := ⟨h.live, h.queued, h.idle⟩

theorem accept_silent (h : s.Waiting i) (at_ : IpcAttach) : (s.accept env i at_).Silent i := by
  unfold accept
  extract_lets s₁
  split
  rename_i s₂ role decided
  have noted : s₁.Waiting i := by
    refine ⟨?_, ?_, ?_, ?_, ?_⟩ <;> simp only [s₁, Server.live, modifyClient_self]
    · exact h.live
    · exact h.ready
    · exact h.role
    · exact h.queued
    · exact h.idle
  have granted : s₂.Waiting i := by
    have kept : (Server.roleFor env _ i at_.flags).1.Waiting i := roleFor_waiting noted at_.flags
    rwa [decided] at kept
  have own : ((s₂.modifyClient i fun mc => { mc with role := role }).resizeToFit).clients i =
      { s₂.clients i with role := role } := by
    rw [clients_resizeToFit, modifyClient_self]
  exact ⟨by rw [Server.live, own]; exact granted.live, by rw [own]; exact granted.queued, by rw [own]; exact granted.idle⟩

theorem pushFrame_greets {payload} (silent : (s.clients i).queued = []) :
    Greeted ((s.pushFrame env (disconnect env) i (ipcMsgFrame .attachReply payload)).clients i) := by
  have up := (greeted_tended env).upkeep i
  refine flush_keeps up (disconnect_guard up) i (budget_le_max _) (.inr ⟨payload, [], ?_⟩)
  rw [clients_throttle_self, hold_queued, modifyClient_self]
  show (s.clients i).queued ++ _ = _
  rw [silent, nil_append]

theorem reply_greets {limit payload} (silent : s.Silent i) (queued : Queued limit (s.clients i))
    (memory : ∀ t, env.alloc t = true) (room : ipcHdrSize + payload.length ≤ env.outqHardLimit) :
    Greeted ((s.enqueue env (disconnect env) i .attachReply payload).clients i) := by
  have empty : (s.clients i).pending = 0 := by
    have order := (queued.live silent.live).order
    rw [silent.queued, flatten_nil, append_eq_nil_iff] at order
    have := congrArg List.length order.2
    rwa [length_drop] at this
  have punctual : s.stalled env i = false := by
    rw [stalled, silent.idle]
    rfl
  have clock : s.stallTick i = s := if_pos silent.idle
  unfold enqueue
  rw [if_neg (by rw [silent.live]; decide), if_neg (by omega), if_neg (by rw [punctual]; decide), clock]
  unfold queueFrame
  extract_lets s₁ mc
  have none : (s₁.clients i).queued = [] := by
    simp only [s₁, modifyClient_self]
    exact silent.queued
  split
  · exact pushFrame_greets none
  · rw [if_pos (memory _)]
    refine pushFrame_greets ?_
    have own : ∀ mc' : Mclient, ((s₁.setClient i mc').setTick (s₁.tick + 1)).clients i = mc' := fun mc' => setClient_self ..
    rw [own]
    exact none

theorem attachReply_encodes (rows cols : Nat) (role nclients : UInt8) :
    ∃ payload, ipcAttachReplyEncode 32 rows cols role nclients = some payload ∧ payload.length = 12 := ⟨_, rfl, rfl⟩

theorem attach_greets {limit} (queued : ∀ j, Queued limit (s.clients j)) (h : ∀ j, Greeted (s.clients j))
    (hard : env.outqHardLimit = limit) (memory : ∀ t, env.alloc t = true) (room : ipcHdrSize + 12 ≤ limit) (fd : Nat)
    (buf : Bytes) (j : Slot) : Greeted ((s.attach env fd buf).clients j) := by
  have up := (greeted_tended env).upkeep j
  cases allocated : s.alloc fd with
  | none =>
    rw [attach, allocated]
    exact h j
  | some claimed =>
    obtain ⟨s₁, i⟩ := claimed
    obtain ⟨dead, opened⟩ := alloc_opened allocated
    by_cases own : j = i
    · subst own
      have fresh : s₁.clients j = Server.opened fd (s.clients j) := by rw [opened, modifyClient_self]
      have waiting : s₁.Waiting j := by
        refine ⟨?_, ?_, ?_, ?_, ?_⟩
        · rw [Server.live, fresh]
          rfl
        · rw [fresh]
          rfl
        · rw [fresh]
          rfl
        · rw [fresh]
          rfl
        · rw [fresh]
          exact ((queued j).dead dead).2.2
      have sound : Queued limit (s₁.clients j) := by
        rw [fresh]
        exact (queued j).opened dead fd
      have tended : Tended env (Queued limit) True := queued_tended hard
      have keeps := tended.upkeep j
      rw [attach, allocated]
      refine welcome_keeps up ?_
      -- the newcomer as it is when its reply is due
      have due : ∀ s₂ : Server, s₂.Silent j → Queued limit (s₂.clients j) →
          Greeted ((s₂.replyEncoded env j .attachReply (ipcAttachReplyEncode 32 s₂.window.vt.buf.rows
            s₂.window.vt.buf.cols (s₂.clients j).role.code (UInt8.ofNat s₂.liveSlots.length))).clients j) := by
        intro s₂ silent sound
        obtain ⟨payload, encoded, length⟩ := attachReply_encodes s₂.window.vt.buf.rows s₂.window.vt.buf.cols
          (s₂.clients j).role.code (UInt8.ofNat s₂.liveSlots.length)
        rw [encoded]
        exact reply_greets silent sound memory (by rw [length, hard]; exact room)
      refine due _ ?_ ?_
      · split
        · exact accept_silent waiting _
        · exact waiting.silent
      · split
        · exact accept_keeps keeps sound _ _
        · exact sound
    · refine attach_keeps up (h j) (fun {s' i'} claimed => ?_) buf
      rw [allocated, Option.some.injEq, Prod.mk.injEq] at claimed
      obtain ⟨rfl, rfl⟩ := claimed
      rw [opened, modifyClient_of_ne s own]
      exact h j

theorem step_attaches {e} (opens : s.attaches e = true) :
    s.step e = s.setTick 0 ∨ ∃ fd buf, s.step e = (s.setTick 0).attach e.env fd buf := by
  unfold attaches at opens
  split at opens
  · rename_i fd wire event
    obtain ⟨received, -⟩ := Bool.and_eq_true_iff.mp opens
    cases got : ipcMsgRecv attachBufsz wire with
    | none =>
      rw [got] at received
      cases received
    | some message =>
      obtain ⟨type, buf, rest⟩ := message
      rw [got] at received
      have isAttach : type = .attach := by simpa using received
      subst isAttach
      unfold step
      extract_lets s₀
      rw [event]
      dsimp only
      split
      · exact .inl rfl
      · right
        refine ⟨fd, buf, ?_⟩
        rw [onNewClient, if_neg (by decide), got]
        rfl
  · cases opens

/-- What the events of a run have to provide: the hard limit stays the same, and memory does not run out
while an attach is handled. -/
def Provided (limit : Nat) (s : Server) (e : Step) : Prop :=
  e.env.outqHardLimit = limit ∧ (s.attaches e = true → ∀ t, e.env.alloc t = true)

theorem step_greets {limit} (room : ipcHdrSize + 12 ≤ limit) {e} (provided : s.Provided limit e)
    (queued : ∀ j, Queued limit (s.clients j)) (h : ∀ j, Greeted (s.clients j)) (j : Slot) :
    Greeted ((s.step e).clients j) := by
  by_cases opens : s.attaches e = true
  · rcases step_attaches opens with same | ⟨fd, buf, attached⟩
    · rw [same]
      exact h j
    · rw [attached]
      exact attach_greets (s := s.setTick 0) queued h provided.1 (provided.2 opens) room fd buf j
  · refine step_keeps ((greeted_tended e.env).upkeep j) (h j) (fun opened => absurd opened opens)
      (fun {s₁ i payload} _ _ _ kept => ?_) fun _ => h j
    rcases handleFlowCtrl_cases s₁ i (payload.take clientBufsz) with same | ⟨paused, set⟩
    · rwa [same]
    · rw [set]
      exact modifyClient_rule s₁ (f := fun mc => { mc with paused := paused }) (fun _ => kept) fun _ => kept

end Server

/-- **The reply comes first**: in every run whose attaches do not run out of memory, the first frame
queued to a connection is its reply, or nothing is queued to it at all. A slot keeps the log of its last
connection until the next one opens it. -/
theorem run_reply_first {limit : Nat} (room : ipcHdrSize + 12 ≤ limit) (window : Emu) (entries : List AttrEntry)
    (nextGen : Nat) (steps : List Step)
    (along : Along Server.step (Server.Provided limit) (Server.start window entries nextGen) steps) (i : Slot) :
    (((Server.start window entries nextGen).run steps).clients i).queued = [] ∨
      ∃ payload rest, (((Server.start window entries nextGen).run steps).clients i).queued =
        ipcMsgFrame .attachReply payload :: rest := by
  have both := along.invariant
    (I := fun s : Server => (∀ j, Server.Queued limit (s.clients j)) ∧ ∀ j, Server.Greeted (s.clients j))
    (fun s e h provided => ⟨Server.step_queued provided.1 h.1, Server.step_greets room provided h.1 h.2⟩)
    ⟨fun _ => ⟨fun live => Bool.noConfusion live, fun _ => ⟨rfl, rfl, rfl⟩⟩, fun _ => .inl ⟨rfl, rfl⟩⟩
  exact (both.2 i).imp And.left id

def twoAttach (env : Env) : List Step := [.attaching 10 0 .willing, .attaching 11 0 env]

theorem twoAttach_reply_first :
    ∃ payload rest, (((Server.start (Emu.new 1 1 0) [] 1).run (twoAttach .willing)).clients ⟨1, one_lt_mclientMax⟩).queued =
      ipcMsgFrame .attachReply payload :: rest := by
  have along : Along Server.step (Server.Provided (4 * 2 ^ 20)) (Server.start (Emu.new 1 1 0) [] 1) (twoAttach .willing) :=
    ⟨⟨rfl, fun _ _ => rfl⟩, ⟨rfl, fun _ _ => rfl⟩, trivial⟩
  refine (run_reply_first (by decide) (Emu.new 1 1 0) [] 1 (twoAttach .willing) along _).resolve_left ?_
  decide +kernel

def Env.strained : Env :=
  { Env.willing with
    alloc := fun t => t != 1
    send := fun t => if t = 2 then .failed else .accepted 65535 }

theorem strained_role_change_first :
    (((Server.start (Emu.new 1 1 0) [] 1).run (twoAttach .strained)).clients ⟨1, one_lt_mclientMax⟩).queued =
      [ipcMsgFrame .roleChange [Role.write.code]] := by decide +kernel

end Lumimux.Mserver

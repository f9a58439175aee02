import Lumimux.Mserver.Typing

/-!
# A rule for invariants of the whole server

`Upkeep` lists what an invariant has to survive: single steps, and the compound moves in which the server repairs at the
end what it broke.
-/

namespace Lumimux.Mserver
open Attr Ipc Lib List

def Mclient.ledger (mc : Mclient) : Mclient :=
  { mc with
    role := .write
    clientId := 0
    cellPw := 0
    cellPh := 0
    name := .empty
    lastDeny := 0
    ready := false
    inq := []
    inqCap := 0
    inrun := false }

def Mclient.stake (mc : Mclient) : Mclient := { mc.ledger with flags := 0, rows := 0, cols := 0 }

namespace Server

def sendOut (env : Env) (s : Server) (i : Slot) : Server :=
  let sent := sendLoop env (s.clients i).pending s.tick (s.clients i).pending
  (s.modifyClient i (advance sent.2.1)).setTick sent.1

def sendFails (env : Env) (s : Server) (i : Slot) : Bool :=
  (sendLoop env (s.clients i).pending s.tick (s.clients i).pending).2.2

variable {s s' : Server} {i : Slot}

theorem flush_eq (env : Env) (drop : Drop) (live : s.live i = true) : s.flush env drop i =
      if s.sendFails env i then drop (s.sendOut env i) i
      else (s.sendOut env i).settle env i (s.clients i).pending := by
  rw [flush, if_neg (by rw [live]; decide)]
  rfl

theorem sendOut_bookkeeping (env : Env) (s : Server) (i : Slot) : Bookkeeping i s (s.sendOut env i) := by
  unfold sendOut
  extract_lets sent
  exact (Bookkeeping.modifyClient (f := advance sent.2.1) fun _ => rfl).setTick _

/-- What an invariant has to survive. -/
structure Upkeep (env : Env) (I : Server → Prop) (W : Slot → Server → Prop) : Prop where
  aside : ∀ {s s' : Server}, s'.clients = s.clients → s'.window = s.window → s'.masterRead = s.masterRead → I s → I s'
  seat : ∀ {s : Server} {i : Slot} {f : Mclient → Mclient}, I s → (∀ mc, (f mc).ledger = mc.ledger) →
    I (s.modifyClient i f)
  doomed : ∀ {s : Server} (i : Slot), I s → W i s
  sendOut : ∀ {s : Server} {i : Slot}, s.live i = true → I s → W i (s.sendOut env i)
  settle : ∀ {s : Server} {i : Slot}, s.live i = true → s.sendFails env i = false → I s →
    I ((s.sendOut env i).settle env i (s.clients i).pending)
  reclaim : ∀ {s : Server} {i : Slot}, I s → I (s.modifyClient i reclaim)
  grow : ∀ {s : Server} {i : Slot} {cap : Nat}, (s.clients i).outqCap ≤ cap → I s →
    I (s.modifyClient i fun mc => { mc with outqCap := cap })
  frame : ∀ {s : Server} {i : Slot} {frame : Bytes}, s.live i = true → (s.clients i).outqOff = 0 →
    (s.clients i).outq.length + frame.length ≤ (s.clients i).outqCap →
    (s.clients i).outq.length + frame.length ≤ env.outqHardLimit → I s →
    I ((s.modifyClient i (append frame)).throttle env i)
  leave : ∀ {s s₁ s₂ : Server} {i : Slot}, W i s → (I s → I s₁) → (I (s₁.closed i).updateMasterInterest → I s₂) →
    I s₂.resizeToFit
  clear : ∀ {s s₁ : Server} {i : Slot}, s.live i = false → W i s →
    (I (s.modifyClient i resetClient).updateMasterInterest → I s₁) → I s₁.resizeToFit
  colors : ∀ {s : Server} (fg bg : Bytes), I s → I { s with window.vt := setTermColors s.window.vt fg bg }
  vote : ∀ {s s₁ : Server} {i : Slot} {f : Mclient → Mclient}, I s → (I (s.modifyClient i f) → I s₁) →
    (∀ mc, (f mc).stake = mc.stake) → I s₁.resizeToFit

theorem Upkeep.setTick {env} {I : Server → Prop} {W : Slot → Server → Prop} (up : Upkeep env I W) (h : I s) (tick : Nat) :
    I (s.setTick tick) := up.aside (s := s) rfl rfl rfl h

theorem handleFlowCtrl_cases (s : Server) (i : Slot) (buf : Bytes) :
    s.handleFlowCtrl i buf = s ∨ ∃ paused, s.handleFlowCtrl i buf =
      (s.modifyClient i fun mc => { mc with paused := paused }).updateMasterInterest := by
  cases buf with
  | nil => exact .inl rfl
  | cons b buf =>
    simp only [handleFlowCtrl]
    split
    · exact .inl rfl
    · exact .inr ⟨_, rfl⟩

theorem writer_of_accepts {mc} (accepted : refuses mc .flowCtrl = false) : mc.role = .write := by
  simpa [refuses, msgMutates, msgIsInput] using accepted

def budget (s : Server) : Nat := s.liveSlots.length + if s.eventDepth = 0 then 1 else 0

section
variable (fewer : ∀ j, s'.live j = true → s.live j = true)
include fewer

theorem liveSlots_le : s'.liveSlots.length ≤ s.liveSlots.length := by
  rw [liveSlots, liveSlots, ← countP_eq_length_filter, ← countP_eq_length_filter]
  exact countP_mono_left fun j _ => fewer j

theorem liveSlots_lt (live : s.live i = true) (gone : s'.live i = false) : s'.liveSlots.length < s.liveSlots.length := by
  have split : (finRange mclientMax).Perm (i :: (finRange mclientMax).erase i) :=
    perm_cons_erase (mem_finRange i)
  rw [liveSlots, liveSlots, ← countP_eq_length_filter, ← countP_eq_length_filter, split.countP_eq,
    split.countP_eq, countP_cons_of_pos live, countP_cons_of_neg (by rw [gone]; decide)]
  exact Nat.lt_succ_of_le (countP_mono_left fun j _ => fewer j)

theorem budget_le (depth : s'.eventDepth = s.eventDepth) : s'.budget ≤ s.budget := by
  rw [budget, budget, depth]
  exact Nat.add_le_add_right (liveSlots_le fewer) _

end

theorem Level.budget (level : Level s s') : s'.budget ≤ s.budget := budget_le (fun _ => level.nested.live) level.depth

theorem Bookkeeping.budget (kept : Bookkeeping i s s') : s'.budget ≤ s.budget := kept.level.budget

theorem liveSlots_le_max (s : Server) : s.liveSlots.length ≤ mclientMax :=
  (length_filter_le ..).trans_eq length_finRange

theorem liveSlots_lt_max (dead : s.live i = false) : s.liveSlots.length < mclientMax := by
  refine s.liveSlots_le_max.lt_of_ne fun full => ?_
  have everyone : s.liveSlots = finRange mclientMax :=
    filter_sublist.eq_of_length (full.trans length_finRange.symm)
  have member : i ∈ s.liveSlots := everyone ▸ mem_finRange i
  rw [(mem_filter.mp member).2] at dead
  cases dead

theorem budget_le_max (s : Server) : s.budget ≤ mclientMax + 1 := by
  have := s.liveSlots_le_max
  unfold budget
  split <;> omega

structure Guard (I : Server → Prop) (W : Slot → Server → Prop) (depth : Nat) (drop : Drop) : Prop where
  keeps : ∀ {s : Server} {i : Slot}, s.live i = true → s.budget ≤ depth → W i s → I (drop s i)
  nested : DropOk drop
  eventDepth : ∀ s i, (drop s i).eventDepth = s.eventDepth

theorem Guard.level {I W depth drop} (guard : Guard I W depth drop) (s : Server) (i : Slot) : Level s (drop s i) :=
  ⟨guard.nested s i, guard.eventDepth s i⟩

section Circle

variable {env : Env} {I : Server → Prop} {W : Slot → Server → Prop} {drop : Drop} {depth : Nat}
  (up : Upkeep env I W) (guard : Guard I W depth drop)
include up guard

variable {s : Server} {i : Slot}

theorem flush_keeps (i : Slot) (within : s.budget ≤ depth) (h : I s) : I (s.flush env drop i) := by
  by_cases live : s.live i = true
  · have sent := sendOut_bookkeeping env s i
    rw [flush_eq env drop live]
    split
    · exact guard.keeps ((live_of_core sent.core i).trans live) (sent.budget.trans within) (up.sendOut live h)
    · rename_i fine
      exact up.settle live (by simpa using fine) h
  · rw [flush, if_pos (by simpa using live)]
    exact h

theorem pushFrame_keeps {frame} (within : s.budget ≤ depth) (live : s.live i = true) (start : (s.clients i).outqOff = 0)
    (fits : (s.clients i).outq.length + frame.length ≤ (s.clients i).outqCap)
    (room : (s.clients i).outq.length + frame.length ≤ env.outqHardLimit) (h : I s) : I (s.pushFrame env drop i frame) := by
  have pushed : Bookkeeping i s ((s.modifyClient i (append frame)).throttle env i) :=
    (Bookkeeping.modifyClient (f := append frame) fun _ => rfl).trans (throttle_bookkeeping ..)
  exact flush_keeps up guard i (pushed.budget.trans within) (up.frame live start fits room h)

omit up guard in
theorem le_doubleUntil (need rounds cap : Nat) : cap ≤ doubleUntil need rounds cap := by
  induction rounds generalizing cap with
  | zero => exact Nat.le_refl _
  | succ rounds ih =>
    rw [doubleUntil]
    split
    · exact (Nat.le_mul_of_pos_right cap (by decide)).trans (ih _)
    · exact Nat.le_refl _

omit up guard in
theorem doubleUntil_enough {need rounds cap} (pos : 0 < cap) (enough : need ≤ rounds + cap) :
    need ≤ doubleUntil need rounds cap := by
  induction rounds generalizing cap with
  | zero =>
    rw [Nat.zero_add] at enough
    exact enough
  | succ rounds ih =>
    rw [doubleUntil]
    split
    · exact ih (by omega) (by omega)
    · rename_i reached
      exact Nat.le_of_not_lt reached

omit up guard in
theorem grownCap_bounds {start} (pos : 0 < start) (cap need : Nat) :
    cap ≤ grownCap start cap need ∧ need ≤ grownCap start cap need := by
  unfold grownCap
  by_cases empty : cap = 0
  · rw [if_pos empty, empty]
    exact ⟨Nat.zero_le _, doubleUntil_enough pos (Nat.le_add_right ..)⟩
  · rw [if_neg empty]
    exact ⟨le_doubleUntil .., doubleUntil_enough (Nat.pos_of_ne_zero empty) (Nat.le_add_right ..)⟩

theorem queueFrame_keeps {frame} (within : s.budget ≤ depth) (live : s.live i = true)
    (room : (s.clients i).pending + frame.length ≤ env.outqHardLimit) (h : I s) :
    I (s.queueFrame env drop i frame) := by
  unfold queueFrame
  extract_lets s₁ mc
  have kept : Bookkeeping i s s₁ := .modifyClient fun _ => rfl
  have own : mc = reclaim (s.clients i) := modifyClient_self ..
  have start : mc.outqOff = 0 := by rw [own]; rfl
  have length : mc.outq.length = (s.clients i).pending := by rw [own]; exact length_drop
  have live₁ : s₁.live i = true := (live_of_core kept.core i).trans live
  have within₁ := kept.budget.trans within
  have h₁ : I s₁ := up.reclaim h
  split
  · rename_i fits
    exact pushFrame_keeps up guard within₁ live₁ start fits (length ▸ room) h₁
  · split
    · obtain ⟨larger, enough⟩ := grownCap_bounds (show 0 < 8192 by decide) mc.outqCap (mc.outq.length + frame.length)
      generalize grownCap 8192 mc.outqCap (mc.outq.length + frame.length) = cap at larger enough
      have grown : Bookkeeping i s₁ ((s₁.setClient i { mc with outqCap := cap }).setTick (s₁.tick + 1)) :=
        (show Bookkeeping i s₁ (s₁.setClient i { mc with outqCap := cap }) from .setClient rfl).setTick _
      have now : ((s₁.setClient i { mc with outqCap := cap }).setTick (s₁.tick + 1)).clients i =
          { mc with outqCap := cap } := setClient_self ..
      refine pushFrame_keeps up guard (grown.budget.trans within₁) ((live_of_core grown.core i).trans live₁) ?_ ?_ ?_
        (up.setTick (up.grow larger h₁) _)
      · rw [now]
        exact start
      · rw [now]
        exact enough
      · rw [now]
        exact length ▸ room
    · have asked : Bookkeeping i s₁ (s₁.setTick (s₁.tick + 1)) := (Bookkeeping.refl i s₁).setTick _
      exact guard.keeps live₁ (asked.budget.trans within₁) (up.doomed i (up.setTick h₁ _))

theorem enqueue_keeps (within : s.budget ≤ depth) (h : I s) (i : Slot) (type : MsgType)
    (payload : Bytes) : I (s.enqueue env drop i type payload) := by
  unfold enqueue
  split
  · exact h
  · rename_i dead
    have live : s.live i = true := by simpa using dead
    have asked := stallTick_bookkeeping s i
    have clients : (s.stallTick i).clients = s.clients := by unfold stallTick; split <;> rfl
    have h' : I (s.stallTick i) := by
      unfold stallTick
      split
      · exact h
      · exact up.setTick h _
    have live' := (live_of_core asked.core i).trans live
    have within' := asked.budget.trans within
    split
    · exact guard.keeps live within (up.doomed i h)
    · rename_i room
      split
      · exact guard.keeps live' within' (up.doomed i h')
      · refine queueFrame_keeps up guard within' live' ?_ h'
        rw [clients, length_ipcMsgFrame]
        exact Nat.le_of_not_lt room

omit up guard in
theorem forLive_keeps {body : Server → Slot → Server} (keeps : ∀ {s : Server} (i : Slot), s.budget ≤ depth → I s → I (body s i))
    (level : ∀ s i, Level s (body s i)) (within : s.budget ≤ depth) (h : I s) : I (s.forLive body) := by
  have both := foldlRecOn (motive := fun s : Server => s.budget ≤ depth ∧ I s) (finRange mclientMax)
    (fun s i => if s.live i then body s i else s) ⟨within, h⟩ fun s₁ reached i _ => by
      split
      · exact ⟨(level s₁ i).budget.trans reached.1, keeps i reached.1 reached.2⟩
      · exact reached
  exact both.2

theorem clientEvent_keeps (within : s.budget ≤ depth + 1) (h : I s) (about : Slot) (kind : EventKind) :
    I (s.clientEvent env drop about kind) := by
  unfold clientEvent
  extract_lets payload s₁ s₂
  split
  · exact h
  · rename_i quiet
    rw [not_not] at quiet
    -- while the others are told, a disconnect tells nobody
    have within₁ : s₁.budget ≤ depth := by
      have : s.budget = s.liveSlots.length + 1 := by rw [budget, if_pos quiet]
      have inside : s₁.budget = s.liveSlots.length + 0 := congrArg (s.liveSlots.length + ·) (if_neg (Nat.succ_ne_zero _))
      omega
    have looped : I s₂ := by
      refine forLive_keeps (fun {s} i within h => ?_) (tell_level guard.level about payload) within₁
        (up.aside (s := s) rfl rfl rfl h)
      split
      · exact h
      · exact enqueue_keeps up guard within h ..
    exact up.aside (s := s₂) rfl rfl rfl looped

theorem announceRole_keeps (within : s.budget ≤ depth) (h : I s) (i : Slot) (role : Role) :
    I (s.announceRole env drop i role) := by
  unfold announceRole
  extract_lets s₁ s₂
  have h₁ : I s₁ := up.seat h fun _ => rfl
  have within₁ : s₁.budget ≤ depth := by
    have same := live_modifyClient (s := s) (f := fun mc => { mc with role := role }) (fun _ => rfl) i
    exact (budget_le (s := s) (fun j live => (same j).symm.trans live) rfl).trans within
  have h₂ : I s₂ := enqueue_keeps up guard within₁ h₁ ..
  have within₂ : s₂.budget ≤ depth := (enqueue_level guard.level ..).budget.trans within₁
  exact clientEvent_keeps up guard (within₂.trans (Nat.le_succ _)) h₂ i .role

theorem roleReassign_keeps (within : s.budget ≤ depth) (h : I s) : I (s.roleReassign env drop) := by
  unfold roleReassign
  split
  · exact h
  · split
    · rename_i cand _
      have h' : I (s.logPromoted (s.clients cand).flags) := up.aside (s := s) rfl rfl rfl h
      exact announceRole_keeps (s := s.logPromoted _) up guard within h' ..
    · exact h

theorem disconnectWith_keeps (within : s.budget ≤ depth + 1)
    (fewer : s.live i = true ∨ s.liveSlots.length < mclientMax ∧ mclientMax ≤ depth) (h : W i s) :
    I (disconnectWith env drop s i) := by
  unfold disconnectWith
  extract_lets s₁
  by_cases live : s.live i = true
  · simp only [s₁, if_pos live]
    refine up.leave h (fun h => clientEvent_keeps up guard within h i .leave) fun closed => ?_
    refine roleReassign_keeps up guard ?_ closed
    have told : Level s (s.clientEvent env drop i .leave) := clientEvent_level guard.level s i .leave
    have count : ((s.clientEvent env drop i .leave).closed i).updateMasterInterest.liveSlots.length < s.liveSlots.length :=
      liveSlots_lt (fun j liveJ => told.nested.live (Nested.live (.single (.close _ i)) liveJ)) live (closed_self _ i)
    unfold budget at within ⊢
    rw [show ((s.clientEvent env drop i .leave).closed i).updateMasterInterest.eventDepth = s.eventDepth from told.depth]
    omega
  · simp only [s₁, if_neg live]
    refine up.clear (by simpa using live) h fun cleared => ?_
    obtain ⟨count, deep⟩ := fewer.resolve_left live
    refine roleReassign_keeps up guard ?_ cleared
    have same : (s.modifyClient i resetClient).updateMasterInterest.liveSlots.length ≤ s.liveSlots.length :=
      liveSlots_le fun j liveJ => Nested.live (.single (.reset s i (by simpa using live))) liveJ
    unfold budget
    split <;> omega

end Circle

section Rule

variable {env : Env} {I : Server → Prop} {W : Slot → Server → Prop} (up : Upkeep env I W)
include up

theorem disconnectDepth_guard (depth : Nat) : Guard I W depth (disconnectDepth env depth) := by
  induction depth with
  | zero =>
    refine ⟨fun {s i} live within _ => ?_, fun _ _ => .refl, fun _ _ => rfl⟩
    -- a live client alone costs one
    have member : i ∈ s.liveSlots := mem_filter.mpr ⟨mem_finRange i, live⟩
    have := length_pos_of_mem member
    unfold budget at within
    omega
  | succ depth ih =>
    exact ⟨fun live within h => disconnectWith_keeps up ih within (.inl live) h,
      fun s i => (disconnectWith_level ih.level s i).nested, fun s i => (disconnectWith_level ih.level s i).depth⟩

variable {s : Server} {i : Slot}

theorem disconnect_keeps (h : W i s) : I (disconnect env s i) := by
  refine disconnectWith_keeps up (disconnectDepth_guard up mclientMax) s.budget_le_max ?_ h
  by_cases live : s.live i = true
  · exact .inl live
  · right
    exact ⟨liveSlots_lt_max (by simpa using live), Nat.le_refl _⟩

theorem disconnect_guard : Guard I W (mclientMax + 1) (disconnect env) :=
  ⟨fun _ _ h => disconnect_keeps up h, disconnect_nested env, fun s i => (disconnect_level env s i).depth⟩

theorem send_keeps (h : I s) (i : Slot) (type : MsgType) (payload : Bytes) :
    I (s.enqueue env (disconnect env) i type payload) :=
  enqueue_keeps up (disconnect_guard up) s.budget_le_max h i type payload

theorem announce_keeps (h : I s) (i : Slot) (role : Role) : I (s.announceRole env (disconnect env) i role) :=
  announceRole_keeps up (disconnect_guard up) s.budget_le_max h i role

theorem tell_keeps (h : I s) (about : Slot) (kind : EventKind) : I (s.clientEvent env (disconnect env) about kind) :=
  clientEvent_keeps up (disconnect_guard up) (s.budget_le_max.trans (Nat.le_succ _)) h about kind

omit up in
theorem forLive_invariant {body : Server → Slot → Server} (keeps : ∀ {s : Server} (i : Slot), I s → I (body s i)) (h : I s) :
    I (s.forLive body) := by
  refine foldlRecOn (motive := I) (finRange mclientMax) _ h fun s₁ reached i _ => ?_
  split
  · exact keeps i reached
  · exact reached

section
variable (h : I s)
include h

theorem broadcast_keeps (type : MsgType) (payload : Bytes) : I (s.broadcast env type payload) := by
  unfold broadcast
  refine forLive_invariant (fun {s} i kept => ?_) h
  exact send_keeps up kept i type payload

theorem deny_keeps (i : Slot) (why : String) : I (s.deny env i why) := by
  unfold deny
  extract_lets now s₁
  have asked : I s₁ := up.setTick h _
  split
  · exact asked
  · have noted : I (s₁.modifyClient i fun mc => { mc with lastDeny := now }) := up.seat asked fun _ => rfl
    exact send_keeps up noted ..

theorem replyEncoded_keeps (i : Slot) (type : MsgType) (payload : Option Bytes) :
    I (s.replyEncoded env i type payload) := by
  cases payload with
  | none => exact h
  | some payload => exact send_keeps up h ..

theorem sendReplay_keeps (i : Slot) : I (s.sendReplay env i) :=
  foldlRecOn (motive := I) _ _ h fun _ reached _ _ => send_keeps up reached ..

theorem handleWinResize_keeps (i : Slot) (buf : Bytes) : I (s.handleWinResize i buf) := by
  unfold handleWinResize
  split
  · exact h
  · split
    · exact up.vote h id fun _ => rfl
    · exact h

theorem handleTermColors_keeps (buf : Bytes) : I (s.handleTermColors buf) := by
  unfold handleTermColors
  split
  · exact h
  · exact up.colors _ _ h

section
variable (i : Slot)

theorem handleAttrMsg_keeps (type : MsgType) (buf : Bytes) : I (s.handleAttrMsg env i type buf) := by
  obtain ⟨attrs, outcome⟩ := handleAttrMsg_answered env s i type buf
  have stored : I { s with attrs := attrs } := up.aside (s := s) rfl rfl rfl h
  rcases outcome with same | ⟨_, _, answered⟩
  · rw [same]
    exact stored
  · rw [answered]
    exact send_keeps up stored ..

theorem roleFor_keeps (asked : UInt8) : I (s.roleFor env i asked).1 :=
  roleFor_rule asked (up.setTick h) fun _ kept => announce_keeps up kept ..

theorem handleRoleRequest_keeps (buf : Bytes) : I (s.handleRoleRequest env i buf) := by
  cases buf with
  | nil => exact h
  | cons asked buf =>
    simp only [handleRoleRequest]
    have refitted : I ((s.roleFor env i asked).1.modifyClient i fun mc => { mc with flags := asked }).resizeToFit :=
      up.vote (roleFor_keeps up h i asked) id fun _ => rfl
    split
    · exact announce_keeps up refitted ..
    · exact refitted

theorem handleInput_keeps (buf : Bytes) : I (s.handleInput env i buf) := by
  unfold handleInput
  split
  · unfold inqAppend
    extract_lets mc len s₁
    have asked : I s₁ := up.setTick h _
    split
    · exact disconnect_keeps up (up.doomed i h)
    · split
      · split
        · exact up.seat (s := s₁) (f := fun mc => { mc with inq := mc.inq ++ buf, inqCap := _ }) asked fun _ => rfl
        · exact disconnect_keeps up (up.doomed i asked)
      · exact up.seat (s := s) (f := fun mc => { mc with inq := mc.inq ++ buf }) h fun _ => rfl
  · exact up.aside (s := s) rfl rfl rfl h

theorem handleInputEnd_keeps : I (s.handleInputEnd env i) := by
  unfold handleInputEnd
  split
  · have wrote : I (s.writeToPty env i (s.clients i).inq) := up.aside (s := s) rfl rfl rfl h
    exact up.seat wrote fun _ => rfl
  · exact h

theorem handleMessage_keeps (type : MsgType) (buf : Bytes)
    (pauses : type = .flowCtrl → refuses (s.clients i) .flowCtrl = false → I (s.handleFlowCtrl i buf)) :
    I (s.handleMessage env i type buf) := by
  unfold handleMessage
  split
  · exact deny_keeps up h ..
  · rename_i accepted
    split
    · exact handleInput_keeps up h ..
    · exact up.seat h fun _ => rfl
    · exact handleInputEnd_keeps up h i
    · exact pauses rfl (by simpa using accepted)
    · exact handleWinResize_keeps up h ..
    · exact handleTermColors_keeps up h ..
    · exact sendReplay_keeps up h i
    · exact handleRoleRequest_keeps up h ..
    · exact disconnect_keeps up (up.doomed i h)
    · exact up.aside (s := s.disconnect env i) rfl rfl rfl (disconnect_keeps up (up.doomed i h))
    all_goals first | exact handleAttrMsg_keeps up h .. | exact h

end

theorem onClientRead_keeps (writable readable : Bool) (wire : Bytes)
    (pauses : ∀ {s₁ : Server} {buf rest : Bytes}, readable = true →
      ipcMsgRecv clientBufsz wire = some (.flowCtrl, buf, rest) → Bookkeeping i s s₁ →
      refuses (s₁.clients i) .flowCtrl = false → I s₁ → I (s₁.handleFlowCtrl i buf)) :
    I (s.onClientRead env i writable readable wire) := by
  have flushed : I (if writable then s.flush env (disconnect env) i else s) := by
    split
    · exact flush_keeps up (disconnect_guard up) i s.budget_le_max h
    · exact h
  have books : Books (disconnect env) i s (if writable then s.flush env (disconnect env) i else s) := by
    split
    · exact flush_books ..
    · exact ⟨s, .refl i s, .inl rfl⟩
  unfold onClientRead
  extract_lets s₁
  split
  · exact flushed
  · rename_i served
    rw [not_or, Bool.not_eq_false, Bool.not_eq_false] at served
    split
    · exact disconnect_keeps up (up.doomed i flushed)
    · rename_i type buf rest received
      refine handleMessage_keeps up flushed i type buf fun flow accepted => ?_
      subst flow
      -- the client is still there, so the flush kept books only
      obtain ⟨s₂, kept, same | ⟨-, dropped⟩⟩ := books
      · exact pauses served.2 received (same ▸ kept) accepted flushed
      · have gone := disconnect_self env s₂ i
        rw [← dropped] at gone
        rw [gone] at served
        cases served.1

theorem accept_keeps (i : Slot) (at_ : IpcAttach) : I (s.accept env i at_) := by
  unfold accept
  extract_lets s₁
  split
  rename_i s₂ role decided
  refine up.vote h (fun noted : I s₁ => ?_) fun _ => rfl
  have granted : I s₂ := by
    have := roleFor_keeps up noted i at_.flags
    rwa [decided] at this
  exact up.seat granted fun _ => rfl

end

theorem welcome_keeps
    (greeted : I (s.replyEncoded env i .attachReply (ipcAttachReplyEncode 32 s.window.vt.buf.rows s.window.vt.buf.cols
      (s.clients i).role.code (UInt8.ofNat s.liveSlots.length)))) : I (s.welcome env i) := by
  unfold welcome
  extract_lets _ s₁ s₂ s₃ s₄ flags s₅
  have ready : I s₂ := up.seat greeted fun _ => rfl
  have told : I s₄ := tell_keeps up (sendReplay_keeps up ready i) ..
  have asked : I s₅ := up.setTick told _
  clear_value s₅ flags
  cases flags with
  | none => exact asked
  | some flags =>
    have noted : I { s₅ with lastPtyFlags := some flags } := up.aside (s := s₅) rfl rfl rfl asked
    exact send_keeps up noted ..

theorem attach_keeps {fd} (h : I s) (opens : ∀ {s' : Server} {i : Slot}, s.alloc fd = some (s', i) → I s')
    (buf : Bytes) : I (s.attach env fd buf) := by
  unfold attach
  split
  · exact h
  · rename_i s₁ i allocated
    have opened := opens allocated
    refine welcome_keeps up (replyEncoded_keeps up ?_ ..)
    split
    · exact accept_keeps up opened ..
    · exact opened

theorem syncPtyFlags_keeps (h : I s) : I (s.syncPtyFlags env) := by
  unfold syncPtyFlags
  split
  · exact h
  · extract_lets flags s₁
    have asked : I s₁ := up.setTick h _
    clear_value flags s₁
    cases flags with
    | none => exact asked
    | some echo =>
      dsimp only
      split
      · exact asked
      · have noted : I { s₁ with lastPtyFlags := some echo } := up.aside (s := s₁) rfl rfl rfl asked
        exact broadcast_keeps up noted ..

theorem disconnectAll_keeps (h : I s) : I (s.disconnectAll env) :=
  foldlRecOn (motive := I) _ _ h fun _ reached i _ => disconnect_keeps up (up.doomed i reached)

end Rule

def attaches (s : Server) (e : Step) : Bool :=
  match e.event with
  | .connect _ true wire =>
    ((ipcMsgRecv attachBufsz wire).any fun m => m.1 == .attach) && decide (s.liveSlots.length < mclientMax)
  | _ => false

theorem step_keeps {I : Server → Prop} {W : Slot → Server → Prop} {e} (up : Upkeep e.env I W) (h : I s)
    (opens : s.attaches e = true → ∀ {fd : Nat} {s' : Server} {i : Slot}, (s.setTick 0).alloc fd = some (s', i) → I s')
    (pauses : ∀ {s₁ : Server} {i : Slot} {payload : Bytes}, sentBy i e = some (.flowCtrl, payload) →
      s.Writer i → Bookkeeping i (s.setTick 0) s₁ → I s₁ → I (s₁.handleFlowCtrl i (payload.take clientBufsz)))
    (fed : ∀ data, I { s.setTick 0 with window := s.window.feed e.env.widths data }) : I (s.step e) := by
  have h₀ : I (s.setTick 0) := up.setTick h 0
  unfold step
  extract_lets s₀
  split
  · rename_i fd trusted wire event
    split
    · exact h₀
    · unfold onNewClient
      split
      · exact h₀
      · rename_i peer
        have trust : trusted = true := by simpa using peer
        subst trust
        split
        · exact h₀
        · rename_i buf rest received
          refine attach_keeps up h₀ (fun {s' i} allocated => ?_) buf
          refine opens ?_ allocated
          have dead := (alloc_opened allocated).1
          simp [attaches, event, received, liveSlots_lt_max (s := s) dead]
        · exact up.aside (s := s₀) rfl rfl rfl h₀
        · exact h₀
  · rename_i i writable readable wire event
    split
    · rename_i live
      refine onClientRead_keeps up h₀ writable readable wire fun isReadable received kept accepted h₁ => ?_
      obtain ⟨payload, whole, cut⟩ := handleMessage_bufsz received
      rw [cut]
      refine pauses ?_ ⟨live, ?_⟩ kept h₁
      · subst isReadable
        simp [sentBy, event, whole]
      · have role := (congrArg (fun s : Server => (s.clients i).role) kept.core :)
        exact role.symm.trans (writer_of_accepts accepted)
    · exact h₀
  · rename_i data _
    unfold onMasterRead
    split
    · exact up.aside (s := s₀) rfl rfl rfl h₀
    · exact broadcast_keeps up (syncPtyFlags_keeps up (fed data)) ..
  · exact up.aside (s := s₀) rfl rfl rfl h₀
  · exact disconnectAll_keeps up h₀

end Server

end Lumimux.Mserver

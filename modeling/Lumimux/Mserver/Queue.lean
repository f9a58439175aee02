import Lumimux.Mserver.Tended

/-!
# A client's output queue is a FIFO

An array with an offset: what the socket took, followed by what is pending, is the frames queued so far.
-/

namespace Lumimux.Mserver
open Attr Ipc Lib Vt List

namespace Server

structure Fifo (limit : Nat) (mc : Mclient) : Prop where
  order : mc.handed ++ mc.outq.drop mc.outqOff = mc.queued.flatten
  off_le : mc.outqOff ≤ mc.outq.length
  len_le : mc.outq.length ≤ mc.outqCap
  bounded : mc.pending ≤ limit

structure Queued (limit : Nat) (mc : Mclient) : Prop where
  live : mc.live = true → Fifo limit mc
  dead : mc.live = false → mc.outq = [] ∧ mc.outqOff = 0 ∧ mc.stallSince = 0

variable {limit : Nat} {env : Env}

variable {mc : Mclient} {frame : Bytes} {s : Server} {i : Slot}

section
variable (h : Fifo limit mc)
include h

theorem Fifo.advance {taken} (bound : taken ≤ mc.pending) : Fifo limit (advance taken mc) := by
  refine ⟨?_, ?_, h.len_le, ?_⟩
  · show (mc.handed ++ (mc.outq.drop mc.outqOff).take taken) ++ mc.outq.drop (mc.outqOff + taken) = mc.queued.flatten
    rw [append_assoc, ← drop_drop, take_append_drop, h.order]
  · show mc.outqOff + taken ≤ mc.outq.length
    have := h.off_le
    rw [Mclient.pending] at bound
    omega
  · show mc.outq.length - (mc.outqOff + taken) ≤ limit
    have := h.bounded
    rw [Mclient.pending] at this
    omega

theorem Fifo.drained : Fifo limit (drained mc) := by
  unfold Server.drained
  split
  · rename_i done
    refine ⟨?_, Nat.le_refl _, Nat.zero_le _, Nat.zero_le _⟩
    have order := h.order
    rw [done, drop_length] at order
    exact order
  · exact h

theorem Fifo.reclaim : Fifo limit (reclaim mc) := by
  have length : (mc.outq.drop mc.outqOff).length = mc.pending := length_drop
  refine ⟨h.order, Nat.zero_le _, ?_, ?_⟩
  · show (mc.outq.drop mc.outqOff).length ≤ mc.outqCap
    exact length.trans_le ((Nat.sub_le ..).trans h.len_le)
  · show (mc.outq.drop mc.outqOff).length - 0 ≤ limit
    exact length.trans_le h.bounded

theorem Fifo.append (start : mc.outqOff = 0)
    (fits : mc.outq.length + frame.length ≤ mc.outqCap) (room : mc.outq.length + frame.length ≤ limit) :
    Fifo limit (append frame mc) := by
  have order := h.order
  rw [start, drop_zero] at order
  refine ⟨?_, ?_, ?_, ?_⟩
  · show mc.handed ++ (mc.outq ++ frame).drop mc.outqOff = (mc.queued ++ [frame]).flatten
    rw [start, drop_zero, ← append_assoc, order, flatten_concat]
  · show mc.outqOff ≤ _
    rw [start]
    exact Nat.zero_le _
  · exact (length_append ..).trans_le fits
  · exact (Nat.sub_le ..).trans ((length_append ..).trans_le room)

theorem Fifo.release : Fifo limit (release env mc) := by
  unfold Server.release
  split
  · exact { h with }
  · exact h

theorem Fifo.hold : Fifo limit (hold env mc) := by
  unfold Server.hold
  split
  · exact { h with }
  · exact h

end

theorem Queued.of_live (live : mc.live = true) (h : Fifo limit mc) : Queued limit mc :=
  ⟨fun _ => h, fun dead => absurd (live.symm.trans dead) (by decide)⟩

theorem release_live (env : Env) (mc : Mclient) : (release env mc).live = mc.live := by unfold release; split <;> rfl
theorem hold_live (env : Env) (mc : Mclient) : (hold env mc).live = mc.live := by unfold hold; split <;> rfl

theorem queued_tended (hard : env.outqHardLimit = limit) : Tended env (Queued limit) True where
  stake {mc mc'} same h := by
    have fd : mc'.fd = mc.fd := (congrArg Mclient.fd same :)
    have live : mc'.live = mc.live := congrArg Option.isSome fd
    have outq : mc'.outq = mc.outq := (congrArg Mclient.outq same :)
    have outqOff : mc'.outqOff = mc.outqOff := (congrArg Mclient.outqOff same :)
    have outqCap : mc'.outqCap = mc.outqCap := (congrArg Mclient.outqCap same :)
    have handed : mc'.handed = mc.handed := (congrArg Mclient.handed same :)
    have queued : mc'.queued = mc.queued := (congrArg Mclient.queued same :)
    have stall : mc'.stallSince = mc.stallSince := (congrArg Mclient.stallSince same :)
    refine ⟨fun connected => ?_, fun gone => ?_⟩
    · obtain ⟨order, off, len, bounded⟩ := h.live (live.symm.trans connected)
      exact ⟨by rw [handed, outq, outqOff, queued, order], by rw [outq, outqOff]; exact off,
        by rw [outq, outqCap]; exact len, by rw [Mclient.pending, outq, outqOff]; exact bounded⟩
    · rw [outq, outqOff, stall]
      exact h.dead (live.symm.trans gone)
  sent _ {mc taken} bound h := by
    refine ⟨fun live => (h.live live).advance bound, fun dead => ?_⟩
    obtain ⟨empty, start, idle⟩ := h.dead dead
    have none : taken = 0 := by simpa [Mclient.pending, empty] using bound
    exact ⟨empty, by rw [advance, none, start], idle⟩
  settled {mc taken} since live bound h := by
    have kept : Fifo limit (drained (advance taken mc)) := ((h.live live).advance bound).drained
    have timed : Fifo limit { drained (advance taken mc) with stallSince := since } := { kept with }
    refine .of_live ?_ timed.release
    rw [release_live]
    exact (drained_live _).trans live
  reclaim {mc} h := by
    refine ⟨fun live => (h.live live).reclaim, fun dead => ?_⟩
    obtain ⟨empty, -, idle⟩ := h.dead dead
    exact ⟨by rw [Server.reclaim, empty, drop_nil], rfl, idle⟩
  grow {mc cap} larger h :=
    ⟨fun live => { h.live live with len_le := (h.live live).len_le.trans larger }, h.dead⟩
  frame {mc frame} live start fits room h := by
    refine .of_live ((hold_live ..).trans live) (Fifo.hold ((h.live live).append start fits ?_))
    exact hard ▸ room
  reset _ := ⟨fun live => Bool.noConfusion live, fun _ => ⟨rfl, rfl, rfl⟩⟩

theorem Queued.opened (h : Queued limit mc) (dead : mc.live = false) (fd : Nat) : Queued limit (opened fd mc) := by
  obtain ⟨empty, start, -⟩ := h.dead dead
  refine .of_live rfl ⟨?_, ?_, ?_, ?_⟩
  · show [] ++ mc.outq.drop mc.outqOff = [].flatten
    rw [empty, drop_nil]
    rfl
  · show mc.outqOff ≤ mc.outq.length
    rw [start]
    exact Nat.zero_le _
  · show mc.outq.length ≤ mc.outqCap
    rw [empty]
    exact Nat.zero_le _
  · show mc.outq.length - mc.outqOff ≤ limit
    rw [empty]
    exact (Nat.sub_le ..).trans (Nat.zero_le _)

theorem step_queued {e} (hard : e.env.outqHardLimit = limit) (h : ∀ i, Queued limit (s.clients i)) (j : Slot) :
    Queued limit ((s.step e).clients j) := by
  refine step_keeps ((queued_tended hard).upkeep j) (h j) (fun _ {fd s' i} allocated => ?_)
    (fun {s₁ i payload} _ _ _ kept => ?_) fun _ => h j
  · obtain ⟨dead, rfl⟩ := alloc_opened allocated
    exact modifyClient_rule _ (fun own => (h j).opened (own ▸ dead) fd) fun _ => h j
  · rcases handleFlowCtrl_cases s₁ i (payload.take clientBufsz) with same | ⟨paused, set⟩
    · rwa [same]
    · rw [set]
      refine modifyClient_rule s₁ (f := fun mc => { mc with paused := paused }) (fun _ => ?_) fun _ => kept
      exact ⟨fun live => { kept.live live with }, kept.dead⟩

theorem release_queued (env : Env) (mc : Mclient) : (release env mc).queued = mc.queued := by
  unfold release
  split <;> rfl

theorem hold_queued (env : Env) (mc : Mclient) : (hold env mc).queued = mc.queued := by unfold hold; split <;> rfl

theorem drained_queued (mc : Mclient) : (drained mc).queued = mc.queued := by unfold drained; split <;> rfl

theorem flush_queued (stays : (s.flush env (disconnect env) i).live i = true) :
    ((s.flush env (disconnect env) i).clients i).queued = (s.clients i).queued := by
  by_cases live : s.live i = true
  · rw [flush_eq env _ live] at stays ⊢
    split at stays
    · rw [disconnect_self] at stays
      cases stays
    · rename_i fine
      rw [if_neg fine]
      obtain ⟨taken, -, sent⟩ := clients_sendOut_self env s i
      obtain ⟨since, settled⟩ := clients_settle_self env (s.sendOut env i) i (s.clients i).pending
      rw [settled, sent, release_queued]
      exact drained_queued _
  · rw [flush, if_pos (by simpa using live)]

theorem pushFrame_queued (stays : (s.pushFrame env (disconnect env) i frame).live i = true) :
    ((s.pushFrame env (disconnect env) i frame).clients i).queued = (s.clients i).queued ++ [frame] := by
  unfold pushFrame at stays ⊢
  rw [flush_queued stays, clients_throttle_self, modifyClient_self, hold_queued]
  rfl

theorem queueFrame_queued (stays : (s.queueFrame env (disconnect env) i frame).live i = true) :
    ((s.queueFrame env (disconnect env) i frame).clients i).queued = (s.clients i).queued ++ [frame] := by
  unfold queueFrame at stays ⊢
  extract_lets s₁ mc at stays
  have own : mc.queued = (s.clients i).queued := by simp only [mc, s₁, modifyClient_self]; rfl
  split at stays
  · rename_i fits
    rw [if_pos fits, pushFrame_queued stays, ← own]
  · rename_i full
    rw [if_neg full]
    split at stays
    · rename_i available
      rw [if_pos available, pushFrame_queued stays, ← own]
      have grown : ∀ mc' : Mclient, ((s₁.setClient i mc').setTick (s₁.tick + 1)).clients i = mc' := fun mc' =>
        setClient_self ..
      rw [grown]
    · rw [disconnect_self] at stays
      cases stays

theorem enqueue_queued {type payload} (stays : (s.enqueue env (disconnect env) i type payload).live i = true) :
    ((s.enqueue env (disconnect env) i type payload).clients i).queued =
      (s.clients i).queued ++ [ipcMsgFrame type payload] := by
  have live := (send_nested env s i type payload).live stays
  have clock : (s.stallTick i).clients = s.clients := by unfold stallTick; split <;> rfl
  unfold enqueue at stays ⊢
  rw [if_neg (by rw [live]; decide)] at stays ⊢
  split at stays
  · rw [disconnect_self] at stays
    cases stays
  · rename_i room
    rw [if_neg room]
    split at stays
    · rw [disconnect_self] at stays
      cases stays
    · rename_i punctual
      rw [if_neg punctual, queueFrame_queued stays, clock]

end Server

inductive QueueCall
  | enqueue (type : MsgType) (payload : Bytes)
  | flush

namespace QueueCall

def frames : QueueCall → List Bytes
  | enqueue type payload => [ipcMsgFrame type payload]
  | flush => []

def apply (i : Slot) (s : Server) (call : QueueCall × Env) : Server :=
  match call.1 with
  | enqueue type payload => s.enqueue call.2 (Server.disconnect call.2) i type payload
  | flush => s.flush call.2 (Server.disconnect call.2) i

variable {i : Slot} {s : Server} {call : QueueCall × Env}

theorem apply_live (live : (apply i s call).live i = true) : s.live i = true := by
  obtain ⟨call, env⟩ := call
  cases call with
  | enqueue type payload => exact (Server.send_nested env s i type payload).live live
  | flush => exact ((Server.flush_books ..).level (Server.disconnect_level env)).nested.live live

theorem apply_queued (live : (apply i s call).live i = true) :
    ((apply i s call).clients i).queued = (s.clients i).queued ++ call.1.frames := by
  obtain ⟨call, env⟩ := call
  cases call with
  | enqueue type payload => exact Server.enqueue_queued live
  | flush => exact (Server.flush_queued live).trans (append_nil _).symm

theorem apply_keeps {limit} (hard : call.2.outqHardLimit = limit) (h : Server.Queued limit (s.clients i)) :
    Server.Queued limit ((apply i s call).clients i) := by
  obtain ⟨call, env⟩ := call
  have up := (Server.queued_tended hard).upkeep i
  cases call with
  | enqueue type payload => exact Server.send_keeps up h i type payload
  | flush => exact Server.flush_keeps up (Server.disconnect_guard up) i s.budget_le_max h

end QueueCall

/-- A connection to which nothing was sent. -/
structure Fresh (mc : Mclient) : Prop where
  live : mc.live = true
  outq : mc.outq = []
  outqOff : mc.outqOff = 0
  queued : mc.queued = []
  handed : mc.handed = []

theorem calls_queued {i : Slot} {s : Server} {calls : List (QueueCall × Env)}
    (stays : (calls.foldl (QueueCall.apply i) s).live i = true) :
    ((calls.foldl (QueueCall.apply i) s).clients i).queued = (s.clients i).queued ++ calls.flatMap (·.1.frames) := by
  induction calls generalizing s with
  | nil => exact (append_nil _).symm
  | cons call rest ih =>
    have live : (QueueCall.apply i s call).live i = true :=
      foldlRecOn (motive := fun s' : Server => s'.live i = true → (QueueCall.apply i s call).live i = true) rest _ id
        (fun _ earlier _ _ live => earlier (QueueCall.apply_live live)) stays
    rw [foldl_cons, ih stays, QueueCall.apply_queued live, flatMap_cons, append_assoc]

/-- **A client's output queue refines a FIFO**: as long as the client is not dropped, what its socket took
followed by what is pending is the frames of the messages in order. -/
theorem calls_fifo (limit : Nat) (s : Server) (i : Slot) (fresh : Fresh (s.clients i)) (calls : List (QueueCall × Env))
    (hard : ∀ call ∈ calls, call.2.outqHardLimit = limit) (stays : (calls.foldl (QueueCall.apply i) s).live i = true) :
    ((calls.foldl (QueueCall.apply i) s).clients i).handed ++
        ((calls.foldl (QueueCall.apply i) s).clients i).outq.drop ((calls.foldl (QueueCall.apply i) s).clients i).outqOff =
        (calls.flatMap (·.1.frames)).flatten ∧
      ((calls.foldl (QueueCall.apply i) s).clients i).outqOff ≤
        ((calls.foldl (QueueCall.apply i) s).clients i).outq.length ∧
      ((calls.foldl (QueueCall.apply i) s).clients i).outq.length ≤
        ((calls.foldl (QueueCall.apply i) s).clients i).outqCap ∧
      ((calls.foldl (QueueCall.apply i) s).clients i).pending ≤ limit := by
  have start : Server.Queued limit (s.clients i) := by
    refine .of_live fresh.live ⟨?_, ?_, ?_, ?_⟩
    · rw [fresh.handed, fresh.queued, fresh.outq, drop_nil]
      rfl
    · rw [fresh.outqOff]
      exact Nat.zero_le _
    · rw [fresh.outq]
      exact Nat.zero_le _
    · rw [Mclient.pending, fresh.outq]
      exact (Nat.sub_le ..).trans (Nat.zero_le _)
  have kept : Server.Queued limit ((calls.foldl (QueueCall.apply i) s).clients i) :=
    foldlRecOn (motive := fun s' : Server => Server.Queued limit (s'.clients i)) calls _ start
      fun _ h call member => QueueCall.apply_keeps (hard call member) h
  have fifo := kept.live stays
  refine ⟨?_, fifo.off_le, fifo.len_le, fifo.bounded⟩
  rw [fifo.order, calls_queued stays, fresh.queued, nil_append]

def Env.hesitant : Env := { Env.willing with send := fun t => if t = 0 then .accepted 4 else .again }

def justOpened : Server := (Server.start (Emu.new 1 1 0) [] 1).modifyClient ⟨0, mclientMax_pos⟩ (Server.opened 10)

def twoMessages : List (QueueCall × Env) :=
  [(.enqueue .output [104, 105], .hesitant), (.enqueue .ptyFlags [1], .hesitant), (.flush, .hesitant)]

theorem twoMessages_fifo :
    ((twoMessages.foldl (QueueCall.apply ⟨0, mclientMax_pos⟩) justOpened).clients ⟨0, mclientMax_pos⟩).handed ++
        ((twoMessages.foldl (QueueCall.apply ⟨0, mclientMax_pos⟩) justOpened).clients ⟨0, mclientMax_pos⟩).outq.drop
          ((twoMessages.foldl (QueueCall.apply ⟨0, mclientMax_pos⟩) justOpened).clients ⟨0, mclientMax_pos⟩).outqOff =
      ipcMsgFrame .output [104, 105] ++ ipcMsgFrame .ptyFlags [1] :=
  have fresh : Fresh (justOpened.clients ⟨0, mclientMax_pos⟩) := ⟨rfl, rfl, rfl, rfl, rfl⟩
  have hard : ∀ call ∈ twoMessages, call.2.outqHardLimit = 4 * 2 ^ 20 := by decide +kernel
  have stays : (twoMessages.foldl (QueueCall.apply ⟨0, mclientMax_pos⟩) justOpened).live ⟨0, mclientMax_pos⟩ = true := by
    decide +kernel
  (calls_fifo (4 * 2 ^ 20) justOpened _ fresh twoMessages hard stays).1

end Lumimux.Mserver

import Lumimux.Mserver.Typing

/-!
# Input reaches the PTY in blocks

What the clients say, as far as it is accepted, determines the blocks that are delivered: a bare `INPUT`, or a run from
`INPUT_BEGIN` to `INPUT_END`.
-/

namespace Lumimux.Mserver
open Attr Ipc Lib Vt List

inductive InputEvent
  | said (i : Slot) (type : MsgType) (payload : Bytes)
  | left (i : Slot)

namespace InputEvent

def follow (i : Slot) (run : Typing.Run) : InputEvent → Typing.Run
  | said j type payload => if j = i then Typing.next run (type, payload) else run
  | left j => if j = i then none else run

def openRun (i : Slot) (past : List InputEvent) : Typing.Run := past.foldl (follow i) none

def completes (past : List InputEvent) : InputEvent → Option (Slot × List Bytes)
  | said i .input payload => if openRun i past = none then some (i, [payload]) else none
  | said i .inputEnd _ => (openRun i past).map (i, ·)
  | _ => none

def blocks (past : List InputEvent) : List InputEvent → List (Slot × List Bytes)
  | [] => []
  | e :: rest => (completes past e).toList ++ blocks (past ++ [e]) rest

theorem blocks_append (past first second : List InputEvent) :
    blocks past (first ++ second) = blocks past first ++ blocks (past ++ first) second := by
  induction first generalizing past with
  | nil => rw [nil_append, append_nil, blocks, nil_append]
  | cons e rest ih =>
    rw [cons_append, blocks, blocks, ih, append_assoc, append_assoc]
    rfl

theorem openRun_append (i : Slot) (past later : List InputEvent) :
    openRun i (past ++ later) = later.foldl (follow i) (openRun i past) := foldl_append ..

def inputOf (i : Slot) : InputEvent → Option Bytes
  | said j .input payload => if j = i then some payload else none
  | _ => none

def delimits (i : Slot) : InputEvent → Bool
  | said j .inputBegin _ => j == i
  | said j .inputEnd _ => j == i
  | said _ _ _ => false
  | left j => j == i

/-- A block of a history and the event that completes it: one `INPUT` of a client outside its runs, or
all the `INPUT`s of a client between an `INPUT_BEGIN` and the `INPUT_END` that closes it. -/
inductive CompletedAt (history : List InputEvent) : Nat → Slot × List Bytes → Prop
  | bare {before after : List InputEvent} {i : Slot} {payload : Bytes}
      (split : history = before ++ said i .input payload :: after) (outside : openRun i before = none) :
      CompletedAt history before.length (i, [payload])
  | run {before inside after : List InputEvent} {i : Slot} {first last : Bytes}
      (split : history = before ++ said i .inputBegin first :: (inside ++ said i .inputEnd last :: after))
      (whole : ∀ x ∈ inside, delimits i x = false) :
      CompletedAt history (before ++ said i .inputBegin first :: inside).length (i, inside.filterMap (inputOf i))

variable {i : Slot} {e : InputEvent} {run : List Bytes}

theorem follow_some {payloads} (next : follow i (some payloads) e = some run) :
    delimits i e = false ∧ run = payloads ++ (inputOf i e).toList ∨ ∃ b, e = said i .inputBegin b ∧ run = [] := by
  cases e with
  | said j type payload =>
    by_cases own : j = i
    · subst own
      rw [follow, if_pos rfl] at next
      cases type <;> simp_all [Typing.next, delimits, inputOf]
    · rw [follow, if_neg own] at next
      cases type <;> simp_all [delimits, inputOf]
  | left j =>
    by_cases own : j = i
    · rw [follow, if_pos own] at next
      cases next
    · rw [follow, if_neg own] at next
      simp_all [delimits, inputOf]

theorem follow_none (next : follow i none e = some run) : ∃ b, e = said i .inputBegin b ∧ run = [] := by
  cases e with
  | said j type payload =>
    by_cases own : j = i
    · subst own
      rw [follow, if_pos rfl] at next
      cases type <;> simp_all [Typing.next]
    · rw [follow, if_neg own] at next
      cases next
  | left j =>
    rw [follow, ite_self] at next
    cases next

theorem openRun_some {past} (isOpen : openRun i past = some run) :
    ∃ before inside b, past = before ++ said i .inputBegin b :: inside ∧ (∀ x ∈ inside, delimits i x = false) ∧
      run = inside.filterMap (inputOf i) := by
  induction past using List.reverseRecOn generalizing run with
  | nil => cases isOpen
  | append_singleton past e ih =>
    rw [openRun_append, foldl_cons, foldl_nil] at isOpen
    have fresh : ∀ b, e = said i .inputBegin b → run = [] →
        ∃ before inside b, past ++ [e] = before ++ said i .inputBegin b :: inside ∧
          (∀ x ∈ inside, delimits i x = false) ∧ run = inside.filterMap (inputOf i) := by
      rintro b rfl rfl
      exact ⟨past, [], b, rfl, forall_mem_nil _, rfl⟩
    cases earlier : openRun i past with
    | none =>
      rw [earlier] at isOpen
      obtain ⟨b, begins, empty⟩ := follow_none isOpen
      exact fresh b begins empty
    | some payloads =>
      rw [earlier] at isOpen
      rcases follow_some isOpen with ⟨inside', grown⟩ | ⟨b, begins, empty⟩
      · obtain ⟨before, inside, b, split, whole, rfl⟩ := ih earlier
        refine ⟨before, inside ++ [e], b, by rw [split, append_assoc]; rfl, fun x member => ?_, ?_⟩
        · rcases mem_append.mp member with old | new
          · exact whole x old
          · rw [mem_singleton.mp new]
            exact inside'
        · rw [grown, filterMap_append, filterMap_cons, filterMap_nil]
          cases inputOf i e <;> rfl
      · exact fresh b begins empty

theorem completedAt_of_completes {past rest b} (completed : completes past e = some b) :
    CompletedAt (past ++ e :: rest) past.length b := by
  unfold completes at completed
  split at completed
  · split at completed
    · rename_i outside
      cases completed
      exact .bare rfl outside
    · cases completed
  · obtain ⟨run, isOpen, rfl⟩ := Option.map_eq_some_iff.mp completed
    obtain ⟨before, inside, b, rfl, whole, rfl⟩ := openRun_some isOpen
    exact .run (by rw [append_assoc]; rfl) whole
  · cases completed

theorem blocks_completed (past rest : List InputEvent) :
    ∃ ends : List Nat, List.Forall₂ (CompletedAt (past ++ rest)) ends (blocks past rest) ∧ ends.Pairwise (· < ·) ∧
      ∀ n ∈ ends, past.length ≤ n := by
  induction rest generalizing past with
  | nil => exact ⟨[], .nil, .nil, forall_mem_nil _⟩
  | cons e rest ih =>
    obtain ⟨ends, completed, ordered, later⟩ := ih (past ++ [e])
    rw [append_assoc] at completed
    have after : ∀ n ∈ ends, past.length < n := by
      intro n member
      have bound := later n member
      rw [length_append] at bound
      exact bound
    cases now : completes past e with
    | none =>
      refine ⟨ends, ?_, ordered, fun n member => Nat.le_of_lt (after n member)⟩
      rw [blocks, now]
      exact completed
    | some b =>
      refine ⟨past.length :: ends, ?_, ordered.cons after, ?_⟩
      · rw [blocks, now]
        exact .cons (completedAt_of_completes now) completed
      · rintro n (_ | ⟨_, member⟩)
        · exact Nat.le_refl _
        · exact Nat.le_of_lt (after n member)

theorem openRun_left (i : Slot) (past : List InputEvent) (slots : List Slot) :
    openRun i (past ++ slots.map left) = if i ∈ slots then none else openRun i past := by
  rw [openRun_append]
  induction slots using List.reverseRecOn with
  | nil => rfl
  | append_singleton slots j ih =>
    rw [map_append, foldl_append, ih, map_singleton, foldl_cons, foldl_nil, follow]
    simp only [mem_append, mem_singleton]
    by_cases own : j = i
    · rw [if_pos own, if_pos (.inr own.symm)]
    · simp only [if_neg own, Ne.symm own, or_false]

theorem blocks_left (past : List InputEvent) (slots : List Slot) : blocks past (slots.map left) = [] := by
  induction slots generalizing past with
  | nil => rfl
  | cons j slots ih => exact ih _

end InputEvent

open InputEvent

namespace Server

def flushed (env : Env) (s : Server) (i : Slot) (writable : Bool) : Server :=
  if writable then s.flush env (disconnect env) i else s

def accepted (s : Server) (e : Step) : Option (Slot × MsgType × Bytes) :=
  match e.event with
  | .ready i writable true wire =>
    let s := Server.flushed e.env { s with tick := 0 } i writable
    if s.live i then
      match ipcMsgRecv clientBufsz wire with
      | none => none
      | some (type, buf, _) => if refuses (s.clients i) type then none else some (i, type, buf)
    else none
  | _ => none

def departures (s : Server) : List InputEvent :=
  ((finRange mclientMax).filter fun i => !s.live i).map .left

def hears (s : Server) (e : Step) : List InputEvent :=
  ((s.accepted e).map fun m => .said m.1 m.2.1 m.2.2).toList ++ (s.step e).departures

def history : Server → List Step → List InputEvent
  | _, [] => []
  | s, e :: rest => s.hears e ++ history (s.step e) rest

theorem openRun_departures (i : Slot) (past : List InputEvent) (s : Server) :
    openRun i (past ++ s.departures) = if s.live i then openRun i past else none := by
  rw [departures, openRun_left]
  simp only [mem_filter, mem_finRange, true_and]
  cases s.live i <;> rfl

def Tracks : Typing.Run → Mclient → Prop
  | none, mc => mc.inrun = false
  | some payloads, mc => mc.inrun = true ∧ mc.inq = payloads.flatten

theorem Tracks.congr {run mc mc'} (h : Tracks run mc) (inrun : mc'.inrun = mc.inrun) (inq : mc'.inq = mc.inq) :
    Tracks run mc' := by
  cases run with
  | none => exact inrun.trans h
  | some payloads => exact ⟨inrun.trans h.1, inq.trans h.2⟩

/-- The slots hold the runs that the history left open. -/
structure InSync (past : List InputEvent) (s : Server) : Prop where
  runs : ∀ i, Tracks (openRun i past) (s.clients i)
  freed : s.RunsFreed

def bytesOf (b : Slot × List Bytes) : Slot × Bytes := (b.1, b.2.flatten)

structure Obeys (blocks : List (Slot × List Bytes)) (run : Slot → Typing.Run) (s s' : Server) : Prop where
  wrote : s'.ptyOut = s.ptyOut ++ blocks.map bytesOf
  runs : ∀ i, s'.live i = true → Tracks (run i) (s'.clients i)
  freed : s'.RunsFreed

variable {past : List InputEvent} {s s' : Server} {i : Slot}

theorem InSync.of_core (h : InSync past s) (same : s'.core = s.core) : InSync past s' where
  runs i := (h.runs i).congr (congrArg (fun s : Server => (s.clients i).inrun) same :)
    (congrArg (fun s : Server => (s.clients i).inq) same :)
  freed := h.freed.of_core same

theorem InSync.openRun_of_dead (h : InSync past s) (dead : s.live i = false) : openRun i past = none := by
  have tracks := h.runs i
  cases run : openRun i past with
  | none => rfl
  | some payloads =>
    rw [run] at tracks
    cases (h.freed i dead).symm.trans tracks.1

theorem InSync.obeys (h : InSync past s) (undisturbed : Undisturbed s s') : Obeys [] (openRun · past) s s' where
  wrote := undisturbed.ptyOut.trans (append_nil _).symm
  runs i live := (h.runs i).congr (undisturbed.inrun i live) (undisturbed.inq i live)
  freed := undisturbed.freed h.freed

theorem Typed.runsFreed (typed : Typed i s s') (live : s.live i = true) (free : s.RunsFreed) : s'.RunsFreed := by
  intro k dead
  rw [typed.live k] at dead
  have other : k ≠ i := by
    rintro rfl
    cases live.symm.trans dead
  rw [typed.others k other]
  exact free k dead

section Message

variable {past : List InputEvent} {s : Server} {i : Slot} {env : Env} {type : MsgType} (buf : Bytes)

theorem handleMessage_own (h : InSync past s) (willing : env.PtyWilling) (typing : msgIsInput type = true)
    (accepts : refuses (s.clients i) type = false) : (s.handleMessage env i type buf).ptyOut =
        s.ptyOut ++ (completes past (.said i type buf)).toList.map bytesOf ∧
      ((s.handleMessage env i type buf).live i = true →
        Tracks (Typing.next (openRun i past) (type, buf)) ((s.handleMessage env i type buf).clients i)) := by
  have tracks := h.runs i
  rcases msgIsInput_cases typing with rfl | rfl | rfl
  · rw [completes]
    cases run : openRun i past with
    | none =>
      rw [run] at tracks
      obtain ⟨wrote, same⟩ := handleMessage_input_bare willing accepts tracks buf
      rw [wrote, same]
      exact ⟨by simp [bytesOf], fun _ => tracks⟩
    | some payloads =>
      rw [run] at tracks
      obtain ⟨wrote, kept⟩ := handleMessage_input_run accepts tracks.1 buf
      rw [if_neg (by simp), wrote]
      refine ⟨(append_nil _).symm, fun stays => ⟨(kept stays).1, ?_⟩⟩
      rw [(kept stays).2, tracks.2]
      simp
  · obtain ⟨wrote, inrun, inq⟩ := handleMessage_begin accepts env buf
    have opened : Typing.next (openRun i past) (.inputBegin, buf) = some [] := by
      cases openRun i past <;> rfl
    rw [wrote, opened]
    exact ⟨(append_nil _).symm, fun _ => ⟨inrun, inq⟩⟩
  · have closed : Typing.next (openRun i past) (.inputEnd, buf) = none := by
      cases openRun i past <;> rfl
    rw [closed, handleMessage_end willing accepts, completes]
    refine ⟨?_, fun _ => handleMessage_end_inrun accepts env buf⟩
    cases run : openRun i past with
    | none =>
      rw [run] at tracks
      rw [if_neg (by rw [tracks]; decide)]
      rfl
    | some payloads =>
      rw [run] at tracks
      rw [if_pos tracks.1, tracks.2]
      rfl

theorem handleMessage_obeys (h : InSync past s) (willing : env.PtyWilling) (live : s.live i = true)
    (accepts : refuses (s.clients i) type = false) :
    Obeys (completes past (.said i type buf)).toList (fun k => follow k (openRun k past) (.said i type buf)) s
      (s.handleMessage env i type buf) := by
  cases typing : msgIsInput type with
  | false =>
    have quiet : completes past (.said i type buf) = none := by
      cases type <;> first | rfl | cases typing
    have same : ∀ k, follow k (openRun k past) (.said i type buf) = openRun k past := by
      intro k
      rw [follow, Typing.next_of_ordinary typing, ite_self]
    simp only [quiet, same]
    exact h.obeys (handleMessage_undisturbed env s typing buf)
  | true =>
    obtain ⟨wrote, own⟩ := handleMessage_own buf h willing typing accepts
    refine ⟨wrote, fun k stays => ?_, ?_⟩
    · by_cases at_i : k = i
      · subst at_i
        rw [follow, if_pos rfl]
        exact own stays
      · have kept : RunKept k s (s.handleMessage env i type buf) := handleMessage_runKept env s k (fun _ => at_i) buf
        rw [follow, if_neg (Ne.symm at_i)]
        exact (h.runs k).congr (kept.inrun stays) (kept.inq stays)
    · rcases handleMessage_typing env s i typing buf with served | typed
      · exact (Undisturbed.of_served served).freed h.freed
      · exact typed.runsFreed live h.freed

end Message

theorem InSync.alloc {fd m} (h : InSync past s) (claimed : s.alloc fd = some (s', m)) : InSync past s' := by
  obtain ⟨free, rfl⟩ := alloc_opened claimed
  have fresh : (opened fd (s.clients m)).inrun = false := h.freed m free
  refine ⟨fun i => ?_, h.freed.modifyClient fun _ => fresh⟩
  by_cases own : i = m
  · rw [own, modifyClient_self, h.openRun_of_dead free]
    exact fresh
  · rw [modifyClient_of_ne s own]
    exact h.runs i

theorem attach_obeys (h : InSync past s) (env : Env) (fd : Nat) (buf : Bytes) :
    Obeys [] (openRun · past) s (s.attach env fd buf) := by
  unfold attach
  split
  · exact h.obeys (.refl s)
  · rename_i s₁ m claimed
    have welcomed : ∀ s₂ : Server, Undisturbed s₁ s₂ → Obeys [] (openRun · past) s (s₂.welcome env m) := by
      intro s₂ undisturbed
      have obeys := (h.alloc claimed).obeys (undisturbed.trans (.of_served (welcome_served env s₂ m)))
      exact ⟨obeys.wrote.trans (by rw [ptyOut_alloc claimed]), obeys.runs, obeys.freed⟩
    dsimp only
    split
    · exact welcomed _ (.of_turns (accept_turns ..))
    · exact welcomed s₁ (.refl s₁)

theorem flushed_undisturbed (env : Env) (s : Server) (i : Slot) (writable : Bool) :
    Undisturbed s (s.flushed env i writable) := by
  unfold flushed
  split
  · exact .of_served (flush_served env s i)
  · exact .refl s

theorem onClientRead_eq (env : Env) (s : Server) (i : Slot) (writable readable : Bool) (wire : Bytes) :
    s.onClientRead env i writable readable wire =
      if (s.flushed env i writable).live i = false ∨ readable = false then s.flushed env i writable
      else
        match ipcMsgRecv clientBufsz wire with
        | none => (s.flushed env i writable).disconnect env i
        | some (type, buf, _) => (s.flushed env i writable).handleMessage env i type buf := rfl

theorem flushed_core {env writable} (stays : (s.flushed env i writable).live i = true) :
    (s.flushed env i writable).core = s.core := by
  cases writable with
  | false => rfl
  | true =>
    obtain ⟨s₁, kept, same | ⟨-, dropped⟩⟩ := flush_books env (disconnect env) s i
    · exact (congrArg core same).trans kept.core
    · have gone : (s.flushed env i true).live i = false := by
        show (s.flush env (disconnect env) i).live i = false
        rw [dropped]
        exact disconnect_self env s₁ i
      rw [gone] at stays
      cases stays

inductive Heard (past : List InputEvent) (s : Server) (e : Step) : Prop
  | silence (none : s.accepted e = none) (obeys : Obeys [] (openRun · past) s (s.step e))
  | message (s₁ : Server) (i : Slot) (type : MsgType) (buf : Bytes) (brings : s.accepted e = some (i, type, buf))
      (same : s₁.core = s.core) (live : s₁.live i = true) (accepts : refuses (s₁.clients i) type = false)
      (handled : s.step e = s₁.handleMessage e.env i type buf)

theorem InSync.silence (h : InSync past s) {e} (none : s.accepted e = none)
    (undisturbed : Undisturbed { s with tick := 0 } (s.step e)) : Heard past s e :=
  .silence none (h.obeys ((Undisturbed.of_served (tick_served s ⟨0, mclientMax_pos⟩ 0)).trans undisturbed))

theorem ready_heard (h : InSync past s) (i : Slot) (writable readable : Bool)
    (wire : Bytes) (env : Env) : Heard past s ⟨.ready i writable readable wire, env⟩ := by
  have flushes := flushed_undisturbed env { s with tick := 0 } i writable
  by_cases stays : (Server.flushed env { s with tick := 0 } i writable).live i = true
  · have live : s.live i = true := flushes.live i stays
    have read := step_ready live writable readable wire env
    rw [onClientRead_eq] at read
    cases readable with
    | false =>
      rw [if_pos (.inr rfl)] at read
      exact h.silence rfl (read ▸ flushes)
    | true =>
      rw [if_neg (by rw [stays]; decide)] at read
      cases received : ipcMsgRecv clientBufsz wire with
      | none =>
        rw [received] at read
        refine h.silence (by simp [accepted, received]) ?_
        rw [read]
        exact flushes.trans (.of_served (drop_served env _ i i))
      | some message =>
        obtain ⟨type, buf, rest⟩ := message
        rw [received] at read
        cases allowed : refuses ((Server.flushed env { s with tick := 0 } i writable).clients i) type with
        | true =>
          refine h.silence (by simp [accepted, received, allowed]) ?_
          rw [read]
          refine flushes.trans ?_
          dsimp only
          unfold handleMessage
          rw [if_pos allowed]
          exact .of_served (deny_served ..)
        | false =>
          exact .message _ i type buf (by simp [accepted, received, allowed, stays])
            ((flushed_core stays).trans rfl) stays allowed read
  · have brings : s.accepted ⟨.ready i writable readable wire, env⟩ = none := by
      cases readable <;> simp [accepted, stays]
    refine h.silence brings ?_
    by_cases live : s.live i = true
    · rw [step_ready live, onClientRead_eq, if_pos (.inl (Bool.eq_false_iff.mpr stays))]
      exact flushes
    · have idle : s.step ⟨.ready i writable readable wire, env⟩ = { s with tick := 0 } := if_neg live
      rw [idle]
      exact .refl _

theorem step_heard (h : InSync past s) (e : Step) : Heard past s e := by
  obtain ⟨event, env⟩ := e
  cases event with
  | connect fd trusted wire =>
    refine .silence rfl ?_
    have sync : InSync past { s with tick := 0 } := h.of_core rfl
    have obeys : Obeys [] (openRun · past) { s with tick := 0 } (s.step ⟨.connect fd trusted wire, env⟩) := by
      unfold Server.step
      extract_lets s₁
      dsimp only
      split
      · exact sync.obeys (.refl _)
      · unfold onNewClient
        split
        · exact sync.obeys (.refl _)
        · split
          · exact sync.obeys (.refl _)
          · exact attach_obeys sync env fd _
          · exact sync.obeys (.of_served (i := ⟨0, mclientMax_pos⟩) (.single (.stop _)))
          · exact sync.obeys (.refl _)
    exact ⟨obeys.wrote, obeys.runs, obeys.freed⟩
  | ready i writable readable wire => exact ready_heard h i writable readable wire env
  | masterRead data => exact h.silence rfl (.of_served (onMasterRead_served env _ ⟨0, mclientMax_pos⟩ data))
  | signal => exact h.silence rfl (.of_served (i := ⟨0, mclientMax_pos⟩) (.single (.stop _)))
  | cleanup => exact h.silence rfl (.of_served (disconnectAll_served env _ ⟨0, mclientMax_pos⟩))

theorem step_blocks (h : InSync past s) {e} (willing : e.env.PtyWilling) :
    (s.step e).ptyOut = s.ptyOut ++ (blocks past (s.hears e)).map bytesOf ∧ InSync (past ++ s.hears e) (s.step e) := by
  -- who is gone has no run, so it is enough to follow those who stay
  have settled : ∀ (now : List InputEvent) (done : List (Slot × List Bytes)), blocks past now = done →
      Obeys done (fun i => openRun i (past ++ now)) s (s.step e) → s.hears e = now ++ (s.step e).departures →
      (s.step e).ptyOut = s.ptyOut ++ (blocks past (s.hears e)).map bytesOf ∧
        InSync (past ++ s.hears e) (s.step e) := by
    intro now done complete obeys heard
    refine ⟨?_, fun i => ?_, obeys.freed⟩
    · rw [obeys.wrote, heard, blocks_append, complete, departures, blocks_left, append_nil]
    · rw [heard, ← append_assoc, openRun_departures]
      cases live : (s.step e).live i with
      | false => exact obeys.freed i live
      | true => exact obeys.runs i live
  cases step_heard h e with
  | silence none obeys =>
    refine settled [] [] rfl ?_ (by rw [hears, none]; rfl)
    simpa only [append_nil] using obeys
  | message s₁ i type buf brings same live accepts handled =>
    have sync : InSync past s₁ := h.of_core same
    have obeys := handleMessage_obeys buf sync willing live accepts
    refine settled [.said i type buf] _ (append_nil _) ?_ (by rw [hears, brings]; rfl)
    rw [handled]
    refine ⟨?_, fun k stays => ?_, obeys.freed⟩
    · have out : s₁.ptyOut = s.ptyOut := (congrArg Server.ptyOut same :)
      rw [obeys.wrote, out]
    · rw [openRun_append]
      exact obeys.runs k stays

theorem run_blocks (h : InSync past s) {steps} (willing : ∀ e ∈ steps, e.env.PtyWilling) :
    (s.run steps).ptyOut = s.ptyOut ++ (blocks past (s.history steps)).map bytesOf := by
  induction steps generalizing past s with
  | nil => exact (append_nil _).symm
  | cons e rest ih =>
    obtain ⟨wrote, sync⟩ := step_blocks h (willing e mem_cons_self)
    have later := ih sync fun e' member => willing e' (mem_cons_of_mem _ member)
    rw [Server.run, foldl_cons]
    rw [Server.run] at later
    rw [later, wrote, history, blocks_append, map_append, append_assoc]

theorem start_inSync (window : Emu) (entries : List AttrEntry) (nextGen : Nat) :
    InSync [] (Server.start window entries nextGen) := ⟨fun _ => rfl, fun _ _ => rfl⟩

end Server

/-- **Input is delivered in blocks.** Whatever the clients send and whoever comes and goes, each write to
the PTY is one block of the history, in the order the blocks were completed: a bare `INPUT`, or
everything one client typed between an `INPUT_BEGIN` and its `INPUT_END`. -/
theorem run_input_atomic (window : Emu) (entries : List AttrEntry) (nextGen : Nat) (steps : List Step)
    (willing : ∀ e ∈ steps, e.env.PtyWilling) : let s := Server.start window entries nextGen
    (s.run steps).ptyOut = (blocks [] (s.history steps)).map Server.bytesOf ∧
      ∃ ends : List Nat, List.Forall₂ (CompletedAt (s.history steps)) ends (blocks [] (s.history steps)) ∧
        ends.Pairwise (· < ·) := by
  intro s
  obtain ⟨ends, completed, ordered, -⟩ := blocks_completed [] (s.history steps)
  exact ⟨Server.run_blocks (Server.start_inSync window entries nextGen) willing, ends, completed, ordered⟩

def Env.shared : Env := { Env.willing with multiWriter := fun _ => true }

def twoTypists : List Step :=
  [.attaching 10 0 .shared, .attaching 11 0 .shared, .message ⟨0, mclientMax_pos⟩ .inputBegin [] .shared,
    .message ⟨0, mclientMax_pos⟩ .input [97] .shared, .message ⟨1, one_lt_mclientMax⟩ .input [120] .shared,
    .message ⟨0, mclientMax_pos⟩ .input [98] .shared, .message ⟨0, mclientMax_pos⟩ .inputEnd [] .shared]

theorem twoTypists_atomic : ((Server.start (Emu.new 1 1 0) [] 1).run twoTypists).ptyOut =
        [(⟨1, one_lt_mclientMax⟩, [120]), (⟨0, mclientMax_pos⟩, [97, 98])] ∧
      ∃ ends : List Nat, List.Forall₂ (CompletedAt ((Server.start (Emu.new 1 1 0) [] 1).history twoTypists)) ends
          (blocks [] ((Server.start (Emu.new 1 1 0) [] 1).history twoTypists)) ∧ ends.Pairwise (· < ·) := by
  have willing : ∀ e ∈ twoTypists, e.env.PtyWilling := by
    simp only [twoTypists, forall_mem_cons]
    exact ⟨fun _ => ⟨65535, rfl⟩, fun _ => ⟨65535, rfl⟩, fun _ => ⟨65535, rfl⟩, fun _ => ⟨65535, rfl⟩,
      fun _ => ⟨65535, rfl⟩, fun _ => ⟨65535, rfl⟩, fun _ => ⟨65535, rfl⟩, forall_mem_nil _⟩
  exact ⟨by decide +kernel, (run_input_atomic (Emu.new 1 1 0) [] 1 twoTypists willing).2⟩

end Lumimux.Mserver

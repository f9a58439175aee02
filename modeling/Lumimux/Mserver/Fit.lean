import Mathlib.Order.Bounds.Basic
import Lumimux.Mserver.Upkeep
import Lumimux.Vt.Invariant

/-!
# The size of the window

The window has the least size its clients ask for. Whatever breaks this ends in `resize_to_fit`; a departure nested in
it ends in one of its own.
-/

namespace Lumimux.Mserver
open Attr Ipc Lib Vt List

def Mclient.votes (mc : Mclient) : Bool :=
  !hasFlag mc.flags attachFSizeObserve && decide (mc.rows ≠ 0) && decide (mc.cols ≠ 0)

theorem Mclient.votes_iff (mc : Mclient) :
    mc.votes = true ↔ hasFlag mc.flags attachFSizeObserve = false ∧ mc.rows ≠ 0 ∧ mc.cols ≠ 0 := by
  simp only [Mclient.votes, Bool.and_eq_true, Bool.not_eq_true', decide_eq_true_eq, and_assoc]

def asked (size : Mclient → Nat) (clients : List Mclient) : Set Nat :=
  {n | ∃ mc ∈ clients, mc.votes = true ∧ size mc = n}

theorem asked_append (size : Mclient → Nat) (clients : List Mclient) (mc : Mclient) :
    asked size (clients ++ [mc]) = if mc.votes then insert (size mc) (asked size clients) else asked size clients := by
  ext n
  by_cases votes : mc.votes = true
  · simp only [asked, mem_append, mem_singleton, votes, if_true, Set.mem_ofPred_eq, Set.mem_insert_iff]
    refine ⟨fun ⟨other, member, votes, size⟩ => ?_, fun h => ?_⟩
    · rcases member with earlier | rfl
      · exact .inr ⟨other, earlier, votes, size⟩
      · exact .inl size.symm
    · rcases h with rfl | ⟨other, earlier, votes, size⟩
      · exact ⟨mc, .inr rfl, votes, rfl⟩
      · exact ⟨other, .inl earlier, votes, size⟩
  · simp only [asked, mem_append, mem_singleton, votes, Bool.false_eq_true, if_false, Set.mem_ofPred_eq]
    refine ⟨fun ⟨other, member, voted, size⟩ => ?_, fun ⟨other, earlier, voted, size⟩ =>
      ⟨other, .inl earlier, voted, size⟩⟩
    rcases member with earlier | rfl
    · exact ⟨other, earlier, voted, size⟩
    · exact absurd voted votes

namespace Server

theorem sizeVote_cases (acc : Nat × Nat × Nat × Nat) (mc : Mclient) : mc.votes = false ∧ sizeVote acc mc = acc ∨
      mc.votes = true ∧ (sizeVote acc mc).1 = (if acc.1 = 0 ∨ mc.rows < acc.1 then mc.rows else acc.1) ∧
        (sizeVote acc mc).2.1 = if acc.2.1 = 0 ∨ mc.cols < acc.2.1 then mc.cols else acc.2.1 := by
  obtain ⟨rows, cols, pw, ph⟩ := acc
  unfold sizeVote
  dsimp only
  by_cases observes : hasFlag mc.flags attachFSizeObserve = true
  · exact .inl ⟨by rw [Mclient.votes, observes]; rfl, if_pos observes⟩
  · by_cases sizeless : mc.rows = 0 ∨ mc.cols = 0
    · refine .inl ⟨?_, by rw [if_neg observes, if_pos sizeless]⟩
      rcases sizeless with none | none <;> simp [Mclient.votes, none]
    · rw [not_or] at sizeless
      refine .inr ⟨mc.votes_iff.mpr ⟨by simpa using observes, sizeless⟩, ?_⟩
      rw [if_neg observes, if_neg (not_or.mpr sizeless)]
      split <;> exact ⟨rfl, rfl⟩

def Counted (votes : Set Nat) (least : Nat) : Prop := votes = ∅ ∧ least = 0 ∨ 0 < least ∧ IsLeast votes least

theorem Counted.insert {votes least vote} (h : Counted votes least) (pos : vote ≠ 0) :
    Counted (insert vote votes) (if least = 0 ∨ vote < least then vote else least) := by
  rcases h with ⟨rfl, rfl⟩ | ⟨some, least⟩
  · rw [if_pos (.inl rfl)]
    refine .inr ⟨Nat.pos_of_ne_zero pos, Set.mem_insert .., ?_⟩
    rintro n (rfl | impossible)
    · exact le_refl _
    · exact impossible.elim
  · have lower := least.insert vote
    split
    · rename_i smaller
      rw [min_eq_left (by omega)] at lower
      exact .inr ⟨Nat.pos_of_ne_zero pos, lower⟩
    · rename_i larger
      rw [min_eq_right (by omega)] at lower
      exact .inr ⟨some, lower⟩

theorem foldl_sizeVote (clients : List Mclient) : Counted (asked Mclient.rows clients) (clients.foldl sizeVote (0, 0, 0, 0)).1 ∧
      Counted (asked Mclient.cols clients) (clients.foldl sizeVote (0, 0, 0, 0)).2.1 := by
  induction clients using List.reverseRecOn with
  | nil => exact ⟨.inl ⟨by simp [asked], rfl⟩, .inl ⟨by simp [asked], rfl⟩⟩
  | append_singleton clients mc ih =>
    rw [foldl_append, foldl_cons, foldl_nil, asked_append, asked_append]
    rcases sizeVote_cases (clients.foldl sizeVote (0, 0, 0, 0)) mc with ⟨silent, same⟩ | ⟨votes, rows, cols⟩
    · rw [silent, same]
      exact ih
    · obtain ⟨-, someRows, someCols⟩ := mc.votes_iff.mp votes
      rw [votes, rows, cols]
      exact ⟨ih.1.insert someRows, ih.2.insert someCols⟩

def Votes (s : Server) (i : Slot) : Prop := s.live i = true ∧ (s.clients i).votes = true

/-- With a client that takes part, the window has the least rows and the least columns of those who do. -/
def Fits (s : Server) : Prop :=
  (∃ i, s.Votes i) → IsLeast {n | ∃ i, s.Votes i ∧ (s.clients i).rows = n} s.window.vt.buf.rows ∧
    IsLeast {n | ∃ i, s.Votes i ∧ (s.clients i).cols = n} s.window.vt.buf.cols

theorem asked_liveSlots (s : Server) (size : Mclient → Nat) :
    asked size (s.liveSlots.map s.clients) = {n | ∃ i, s.Votes i ∧ size (s.clients i) = n} := by
  ext n
  simp only [asked, liveSlots, mem_map, mem_filter, mem_finRange, true_and, Set.mem_ofPred_eq, Votes]
  constructor
  · rintro ⟨mc, ⟨i, live, rfl⟩, votes, size⟩
    exact ⟨i, ⟨live, votes⟩, size⟩
  · rintro ⟨i, ⟨live, votes⟩, size⟩
    exact ⟨_, ⟨i, live, rfl⟩, votes, size⟩

theorem buf_resize (vt : VtState) (rows cols : Nat) :
    (vt.resize rows cols).buf.rows = rows ∧ (vt.resize rows cols).buf.cols = cols := by
  have shape : ∀ b : VtBuf, (b.resize rows cols).rows = rows ∧ (b.resize rows cols).cols = cols := fun _ => ⟨rfl, rfl⟩
  unfold VtState.buf VtState.target VtState.resize VtState.cursorClamp
  cases vt.active with
  | primary => exact shape _
  | alt => cases vt.alt <;> exact shape _
  | scrollback => cases vt.scrollback <;> exact shape _

theorem resizeToFit_fits (s : Server) : s.resizeToFit.Fits := by
  have count := foldl_sizeVote (s.liveSlots.map s.clients)
  rw [foldl_map, asked_liveSlots, asked_liveSlots] at count
  have clients := clients_resizeToFit s
  have same : ∀ i, s.resizeToFit.Votes i ↔ s.Votes i := fun i => by rw [Votes, Votes, Server.live, Server.live, clients]
  unfold Fits
  simp only [same, clients]
  rintro ⟨i, votes⟩
  have someone : ∀ size : Mclient → Nat, {n | ∃ i, s.Votes i ∧ size (s.clients i) = n} ≠ ∅ := fun size none =>
    Set.eq_empty_iff_forall_notMem.mp none (size (s.clients i)) ⟨i, votes, rfl⟩
  obtain ⟨rowsPos, leastRows⟩ := count.1.resolve_left fun none => someone _ none.1
  obtain ⟨colsPos, leastCols⟩ := count.2.resolve_left fun none => someone _ none.1
  have resized : s.resizeToFit.window.vt = s.window.vt.resize
      (s.liveSlots.foldl (fun acc i => sizeVote acc (s.clients i)) (0, 0, 0, 0)).1
      (s.liveSlots.foldl (fun acc i => sizeVote acc (s.clients i)) (0, 0, 0, 0)).2.1 := by
    unfold resizeToFit
    dsimp only
    rw [if_pos ⟨rowsPos, colsPos⟩]
  rw [resized, (buf_resize ..).1, (buf_resize ..).2]
  exact ⟨leastRows, leastCols⟩

theorem Fits.of_votes {s s' : Server} (h : s.Fits) (votes : ∀ i, s'.Votes i ↔ s.Votes i)
    (sizes : ∀ i, s.Votes i → (s'.clients i).rows = (s.clients i).rows ∧ (s'.clients i).cols = (s.clients i).cols)
    (rows : s'.window.vt.buf.rows = s.window.vt.buf.rows) (cols : s'.window.vt.buf.cols = s.window.vt.buf.cols) : s'.Fits := by
  have asks : ∀ size : Mclient → Nat, (∀ i, s.Votes i → size (s'.clients i) = size (s.clients i)) →
      {n | ∃ i, s'.Votes i ∧ size (s'.clients i) = n} = {n | ∃ i, s.Votes i ∧ size (s.clients i) = n} := by
    intro size same
    ext n
    simp only [votes, Set.mem_ofPred_eq]
    exact exists_congr fun i => and_congr_right fun voter => by rw [same i voter]
  rintro ⟨i, voter⟩
  rw [asks Mclient.rows fun i voter => (sizes i voter).1, asks Mclient.cols fun i voter => (sizes i voter).2, rows, cols]
  exact h ⟨i, (votes i).mp voter⟩

def ballot (mc : Mclient) : Option Nat × UInt8 × Nat × Nat := (mc.fd, mc.flags, mc.rows, mc.cols)

theorem Votes.congr {s s' : Server} {i : Slot} (same : ballot (s'.clients i) = ballot (s.clients i)) :
    s'.Votes i ↔ s.Votes i := by
  simp only [ballot, Prod.mk.injEq] at same
  obtain ⟨fd, flags, rows, cols⟩ := same
  rw [Votes, Votes, live_of_fd fd, Mclient.votes, Mclient.votes, flags, rows, cols]

theorem Fits.congr {s s' : Server} (h : s.Fits) (same : ∀ i, ballot (s'.clients i) = ballot (s.clients i))
    (rows : s'.window.vt.buf.rows = s.window.vt.buf.rows) (cols : s'.window.vt.buf.cols = s.window.vt.buf.cols) : s'.Fits :=
  h.of_votes (fun i => Votes.congr (same i))
    (fun i _ => ⟨(congrArg (fun b => b.2.2.1) (same i) :), (congrArg (fun b => b.2.2.2) (same i) :)⟩) rows cols

theorem Fits.of_core {s s' : Server} (h : s.Fits) (same : s'.core = s.core) : s'.Fits :=
  h.congr (fun i => (congrArg (fun s : Server => ballot (s.clients i)) same :))
    (congrArg (fun s : Server => s.window.vt.buf.rows) same :) (congrArg (fun s : Server => s.window.vt.buf.cols) same :)

theorem Fits.modifyClient {s : Server} (h : s.Fits) {i : Slot} {f : Mclient → Mclient}
    (same : ballot (f (s.clients i)) = ballot (s.clients i)) : (s.modifyClient i f).Fits := by
  refine h.congr (fun j => ?_) rfl rfl
  by_cases own : j = i
  · rw [own, modifyClient_self, same]
  · rw [modifyClient_of_ne s own]

theorem fits_upkeep (env : Env) : Upkeep env Fits fun _ _ => True where
  aside clients window _ h := h.congr (fun i => by rw [clients]) (by rw [window]) (by rw [window])
  doomed _ _ := trivial
  sendOut _ _ := trivial
  seat {s i f} h same := h.modifyClient (congrArg ballot (same (s.clients i)) :)
  settle _ _ h := h.of_core ((settle_bookkeeping ..).core.trans (sendOut_bookkeeping ..).core)
  reclaim h := h.modifyClient rfl
  grow _ h := h.modifyClient rfl
  frame {s i frame} _ _ _ _ h := Fits.of_core (h.modifyClient (f := append frame) rfl) (throttle_bookkeeping ..).core
  leave _ _ _ := resizeToFit_fits _
  clear _ _ _ := resizeToFit_fits _
  colors _ _ h := h.congr (fun _ => rfl) rfl rfl
  vote _ _ _ := resizeToFit_fits _

def Sound (s : Server) : Prop := ∃ rows cols, s.window.Ok rows cols

theorem Sound.resizeToFit {s : Server} (h : s.Sound) : s.resizeToFit.Sound := by
  obtain ⟨rows, cols, ok⟩ := h
  unfold Server.resizeToFit
  split
  split
  · rename_i pos
    exact ⟨_, _, ok.vt.resize pos.1 pos.2, ok.osc⟩
  · exact ⟨rows, cols, ok⟩

theorem Sound.of_core {s s' : Server} (h : s.Sound) (same : s'.core = s.core) : s'.Sound := by
  have window : s'.window = s.window := (congrArg Server.window same :)
  unfold Sound
  rwa [window]

theorem sound_upkeep (env : Env) : Upkeep env Sound fun _ => Sound where
  aside _ window _ h := by unfold Sound; rwa [window]
  doomed _ h := h
  sendOut _ h := h
  seat h _ := h
  settle _ _ h := h.of_core ((settle_bookkeeping ..).core.trans (sendOut_bookkeeping ..).core)
  reclaim h := h
  grow _ h := h
  frame {s i frame} _ _ _ _ h :=
    Sound.of_core (s := s.modifyClient i (append frame)) h (throttle_bookkeeping ..).core
  leave h told handedOn := (handedOn (told h)).resizeToFit
  clear _ h handedOn := (handedOn h).resizeToFit
  colors fg bg h := by
    obtain ⟨rows, cols, ok⟩ := h
    exact ⟨rows, cols, { ok.vt with }, ok.osc⟩
  vote h noted _ := (noted h).resizeToFit

theorem step_fits {s : Server} (sound : s.Sound) (h : s.Fits) (e : Step) : (s.step e).Sound ∧ (s.step e).Fits := by
  constructor
  · refine step_keeps (sound_upkeep e.env) sound (fun _ {fd s' i} allocated => ?_) (fun {s₁ i payload} _ _ _ h => ?_)
      fun data => ?_
    · obtain ⟨-, rfl⟩ := alloc_opened allocated
      exact sound
    · obtain ⟨rows, cols, ok⟩ := h
      refine ⟨rows, cols, ?_⟩
      rcases handleFlowCtrl_cases s₁ i (payload.take clientBufsz) with same | ⟨paused, set⟩
      · rwa [same]
      · rw [set]
        exact ok
    · obtain ⟨rows, cols, ok⟩ := sound
      exact ⟨rows, cols, ok.feed ..⟩
  · refine step_keeps (fits_upkeep e.env) h (fun _ {fd s' i} allocated => ?_) (fun {s₁ i payload} _ _ _ h => ?_)
      fun data => ?_
    · -- a newcomer has no size yet
      obtain ⟨dead, rfl⟩ := alloc_opened allocated
      have absent : ¬s.Votes i := fun voter => absurd (voter.1.symm.trans dead) (by decide)
      have others : ∀ j, j ≠ i → ((s.setTick 0).modifyClient i (opened fd)).clients j = s.clients j := fun j other =>
        modifyClient_of_ne (s.setTick 0) other _
      refine h.of_votes (fun j => ?_) (fun j voter => ?_) rfl rfl
      · by_cases own : j = i
        · subst own
          refine iff_of_false (fun voter => ?_) absent
          have silent := voter.2
          rw [modifyClient_self] at silent
          exact absurd silent (by simp [Mclient.votes, opened])
        · exact Votes.congr (by rw [others j own])
      · have own : j ≠ i := fun own => absent (own ▸ voter)
        rw [others j own]
        exact ⟨rfl, rfl⟩
    · rcases handleFlowCtrl_cases s₁ i (payload.take clientBufsz) with same | ⟨paused, set⟩
      · rwa [same]
      · rw [set]
        have flagged := h.modifyClient (i := i) (f := fun mc => { mc with paused := paused }) rfl
        exact flagged.congr (fun _ => rfl) rfl rfl
    · -- what the program writes leaves the size alone
      obtain ⟨rows, cols, ok⟩ := sound
      have fed := (ok.feed e.env.widths data).vt
      refine h.congr (fun _ => rfl) ?_ ?_
      · exact fed.rows_eq.trans ok.vt.rows_eq.symm
      · exact fed.cols_eq.trans ok.vt.cols_eq.symm

end Server

/-- **The window always fits its voters**: after every event of every run, if a connected client takes
part in the vote, the window's rows and columns are the least that those who take part ask for. -/
theorem run_fits (rows cols : ℕ+) (scrollback : Int) (entries : List AttrEntry) (nextGen : Nat) (steps : List Step) :
    ((Server.start (Emu.new rows cols scrollback) entries nextGen).run steps).Fits := by
  have sound : (Server.start (Emu.new rows cols scrollback) entries nextGen).Sound :=
    ⟨rows, cols, Emu.Ok.new rows.pos cols.pos scrollback⟩
  have fits : (Server.start (Emu.new rows cols scrollback) entries nextGen).Fits := by
    rintro ⟨i, live, -⟩
    cases live
  exact (run_invariant_rule (I := fun s : Server => s.Sound ∧ s.Fits) (fun s e h => Server.step_fits h.1 h.2 e)
    ⟨sound, fits⟩ steps).2

end Lumimux.Mserver

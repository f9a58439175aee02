import Lumimux.Mserver.Tended

/-!
# When the PTY is read

Reading stops while every client is blocked, by its backlog or by a pause of a writer.
-/

namespace Lumimux.Mserver
open Attr Ipc Lib Vt List

def risen (high low : Nat) (levels : List Nat) : Bool :=
  levels.foldl (fun up level => if high ≤ level then true else if level ≤ low then false else up) false

theorem risen_append (high low : Nat) (levels : List Nat) (level : Nat) : risen high low (levels ++ [level]) =
      if high ≤ level then true else if level ≤ low then false else risen high low levels := foldl_append ..

structure Env.Marks (high low : Nat) (env : Env) : Prop where
  high : env.outqHighWater = high
  low : env.outqLowWater = low

instance (high low : Nat) (env : Env) : Decidable (env.Marks high low) :=
  decidable_of_iff (env.outqHighWater = high ∧ env.outqLowWater = low) ⟨fun h => ⟨h.1, h.2⟩, fun h => ⟨h.high, h.low⟩⟩

namespace Server

structure Metered (high low : Nat) (mc : Mclient) : Prop where
  flag : mc.live = true → mc.hiwater = risen high low mc.levels
  above : mc.live = true → mc.hiwater = true → low < mc.pending
  below : mc.live = true → high ≤ mc.pending → mc.hiwater = true
  clean : mc.live = false → mc.paused = false ∧ mc.hiwater = false ∧ mc.outq = [] ∧ mc.outqOff = 0

variable {high low : Nat} {env : Env}

theorem pending_advance (taken : Nat) (mc : Mclient) : (advance taken mc).pending = mc.pending - taken := by
  simp only [advance, Mclient.pending]
  omega

theorem pending_reclaim (mc : Mclient) : (reclaim mc).pending = mc.pending := by
  simp only [reclaim, Mclient.pending, length_drop, Nat.sub_zero]

theorem drained_hiwater (mc : Mclient) : (drained mc).hiwater = mc.hiwater := by unfold drained; split <;> rfl
theorem drained_levels (mc : Mclient) : (drained mc).levels = mc.levels := by unfold drained; split <;> rfl

variable {mc : Mclient} {s : Server} {i : Slot}

theorem Metered.leveled (gap : low < high) {mc'} (h : Metered high low mc) (live : mc.live = true) (live' : mc'.live = true)
    (levels : mc'.levels = mc.levels ++ [mc'.pending])
    (flag : mc'.hiwater = if high ≤ mc'.pending then true else if mc'.pending ≤ low then false else mc.hiwater) :
    Metered high low mc' := by
  refine ⟨fun _ => ?_, fun _ on => ?_, fun _ reached => by rw [flag, if_pos reached], fun dead => ?_⟩
  · rw [flag, levels, risen_append, h.flag live]
  · by_contra fell
    rw [flag, if_neg (by omega), if_pos (by omega)] at on
    cases on
  · rw [live'] at dead
    cases dead

section
variable (marks : env.Marks high low) (gap : low < high) {mc' : Mclient} (h : Metered high low mc) (live : mc.live = true)
  (live' : mc'.live = true) (flag : mc'.hiwater = mc.hiwater)
include marks gap h live live' flag

theorem Metered.release (less : mc'.pending ≤ mc.pending)
    (levels : mc'.levels = mc.levels ++ [mc'.pending]) : Metered high low (release env mc') := by
  have below : high ≤ mc'.pending → mc.hiwater = true := fun reached => h.below live (reached.trans less)
  unfold Server.release
  rw [marks.low]
  split
  · rename_i fell
    refine h.leveled gap live live' levels ?_
    show false = if high ≤ mc'.pending then true else if mc'.pending ≤ low then false else mc.hiwater
    rw [if_neg (by omega), if_pos fell.2]
  · refine h.leveled gap live live' levels ?_
    grind

theorem Metered.hold (more : mc.pending ≤ mc'.pending)
    (levels : mc'.levels = mc.levels ++ [mc'.pending]) : Metered high low (hold env mc') := by
  have above : mc.hiwater = true → low < mc'.pending := fun on => (h.above live on).trans_le more
  unfold Server.hold
  rw [marks.high]
  split
  · rename_i rose
    refine h.leveled gap live live' levels ?_
    show true = if high ≤ mc'.pending then true else if mc'.pending ≤ low then false else mc.hiwater
    rw [if_pos rose.2]
  · refine h.leveled gap live live' levels ?_
    grind

end

theorem metered_tended (marks : env.Marks high low) (gap : low < high) : Tended env (Metered high low) False where
  sent := False.elim
  stake {mc mc'} same h := by
    have fd : mc'.fd = mc.fd := (congrArg Mclient.fd same :)
    have live : mc'.live = mc.live := congrArg Option.isSome fd
    have hiwater : mc'.hiwater = mc.hiwater := (congrArg Mclient.hiwater same :)
    have paused : mc'.paused = mc.paused := (congrArg Mclient.paused same :)
    have levels : mc'.levels = mc.levels := (congrArg Mclient.levels same :)
    have outq : mc'.outq = mc.outq := (congrArg Mclient.outq same :)
    have outqOff : mc'.outqOff = mc.outqOff := (congrArg Mclient.outqOff same :)
    have pending : mc'.pending = mc.pending := by rw [Mclient.pending, outq, outqOff, Mclient.pending]
    exact ⟨by rw [live, hiwater, levels]; exact h.flag, by rw [live, hiwater, pending]; exact h.above,
      by rw [live, hiwater, pending]; exact h.below, by rw [live, paused, hiwater, outq, outqOff]; exact h.clean⟩
  settled {mc taken} since live bound h := by
    have left : Mclient.pending { drained (advance taken mc) with stallSince := since } = mc.pending - taken :=
      (pending_drained _).trans (pending_advance taken mc)
    refine h.release marks gap live ?_ ?_ ?_ ?_
    · exact (drained_live _).trans live
    · exact drained_hiwater _
    · rw [left]
      exact Nat.sub_le ..
    · rw [left]
      exact drained_levels _
  reclaim {mc} h :=
    ⟨h.flag, fun live on => (pending_reclaim mc).symm ▸ h.above live on,
      fun live reached => h.below live (pending_reclaim mc ▸ reached),
      fun dead => ⟨(h.clean dead).1, (h.clean dead).2.1, by simp [Server.reclaim, (h.clean dead).2.2.1], rfl⟩⟩
  grow _ h := ⟨h.flag, h.above, h.below, h.clean⟩
  frame {mc frame} live start fits room h := by
    have length : (append frame mc).pending = mc.pending + frame.length := by
      simp only [append, Mclient.pending, start, length_append, Nat.sub_zero]
    refine h.hold marks gap live live rfl ?_ ?_
    · rw [length]
      exact Nat.le_add_right ..
    · rw [length]
      rfl
  reset _ := ⟨fun live => Bool.noConfusion live, fun live => Bool.noConfusion live, fun live => Bool.noConfusion live,
    fun _ => ⟨rfl, rfl, rfl, rfl⟩⟩

def flow (mc : Mclient) : Option Nat × Bool × Bool := (mc.fd, mc.paused, mc.hiwater)

def Tuned (s : Server) : Prop := s.updateMasterInterest.masterRead = s.masterRead

theorem updateMasterInterest_tuned (s : Server) : s.updateMasterInterest.Tuned := rfl

theorem Tuned.congr {s' : Server} (h : s.Tuned) (same : ∀ i, flow (s'.clients i) = flow (s.clients i))
    (read : s'.masterRead = s.masterRead) : s'.Tuned := by
  have live : s'.live = s.live := funext fun i => congrArg (fun f => f.1.isSome) (same i)
  have slots : s'.liveSlots = s.liveSlots := by rw [liveSlots, live, liveSlots]
  have blocked : (fun i => (s'.clients i).paused || (s'.clients i).hiwater) =
      fun i => (s.clients i).paused || (s.clients i).hiwater :=
    funext fun i => congrArg (fun f : Option Nat × Bool × Bool => f.2.1 || f.2.2) (same i)
  have formula : s'.updateMasterInterest.masterRead = s.updateMasterInterest.masterRead := by
    simp only [updateMasterInterest, slots, blocked]
  rw [Tuned, formula, read]
  exact h

theorem Tuned.modifyClient (h : s.Tuned) {f : Mclient → Mclient}
    (same : flow (f (s.clients i)) = flow (s.clients i)) : (s.modifyClient i f).Tuned := by
  refine h.congr (fun j => ?_) rfl
  by_cases own : j = i
  · rw [own, modifyClient_self, same]
  · rw [modifyClient_of_ne s own]

theorem Tuned.resizeToFit (h : s.Tuned) : s.resizeToFit.Tuned := by
  refine h.congr (fun j => by rw [clients_resizeToFit]) ?_
  unfold Server.resizeToFit
  extract_lets
  split
  split <;> rfl

theorem flow_drained (mc : Mclient) : flow (drained mc) = flow mc := by
  unfold drained
  split <;> rfl

theorem flow_stallClock (env : Env) (tick before : Nat) (mc : Mclient) : flow (stallClock env tick before mc).2 = flow mc := by
  unfold stallClock
  split
  · rfl
  · split <;> rfl

theorem tuned_upkeep (env : Env) : Upkeep env Tuned fun _ _ => True where
  aside clients _ read h := h.congr (fun i => by rw [clients]) read
  doomed _ _ := trivial
  sendOut _ _ := trivial
  seat {s i f} h same := h.modifyClient (congrArg flow (same (s.clients i)) :)
  settle {s i} live fine h := by
    have sent : (s.sendOut env i).Tuned := by
      refine Tuned.congr (s := s.modifyClient i (advance _)) (h.modifyClient rfl) (fun _ => rfl) rfl
    unfold settle
    extract_lets clock
    have clocked : (((s.sendOut env i).setClient i clock.2).setTick clock.1).Tuned := by
      refine Tuned.congr (s := s.sendOut env i) sent (fun j => ?_) rfl
      by_cases own : j = i
      · have self : (((s.sendOut env i).setClient i clock.2).setTick clock.1).clients i = clock.2 := setClient_self ..
        rw [own, self, flow_stallClock, flow_drained]
      · exact congrArg flow (setClient_of_ne _ own _)
    unfold unthrottle
    split
    · exact updateMasterInterest_tuned _
    · exact clocked
  reclaim h := h.modifyClient rfl
  grow _ h := h.modifyClient rfl
  frame {s i frame} live start fits room h := by
    unfold throttle
    split
    · exact updateMasterInterest_tuned _
    · exact h.modifyClient rfl
  leave _ _ handedOn := (handedOn (updateMasterInterest_tuned _)).resizeToFit
  clear _ _ handedOn := (handedOn (updateMasterInterest_tuned _)).resizeToFit
  colors _ _ h := h
  vote {s s₁ i f} h noted same := (noted (h.modifyClient (congrArg flow (same (s.clients i)) :))).resizeToFit

theorem Tuned.iff (h : s.Tuned) : s.masterRead = false ↔ (∃ i, s.live i = true) ∧
      ∀ i, s.live i = true → (s.clients i).hiwater = true ∨ (s.clients i).paused = true := by
  have live : ∀ i, i ∈ s.liveSlots ↔ s.live i = true := fun i =>
    ⟨fun member => (mem_filter.mp member).2, fun live => mem_filter.mpr ⟨mem_finRange i, live⟩⟩
  rw [← h, updateMasterInterest, Bool.not_eq_false', Bool.and_eq_true, decide_eq_true_eq, beq_iff_eq,
    length_filter_eq_length_iff, length_pos_iff_exists_mem]
  simp only [live, Bool.or_eq_true, or_comm]

theorem Tuned.alloc {s' fd} (reading : s.masterRead = true)
    (clean : (s.clients i).paused = false ∧ (s.clients i).hiwater = false) (allocated : s.alloc fd = some (s', i)) :
    s'.Tuned := by
  obtain ⟨-, rfl⟩ := alloc_opened allocated
  show (s.modifyClient i (opened fd)).updateMasterInterest.masterRead = s.masterRead
  rw [reading]
  -- the newcomer is not blocked
  by_contra off
  have blocked := ((updateMasterInterest_tuned (s.modifyClient i (opened fd))).iff.mp (by simpa using off)).2 i
  have own : (s.modifyClient i (opened fd)).updateMasterInterest.clients i = opened fd (s.clients i) := modifyClient_self ..
  rw [Server.live, own] at blocked
  rcases blocked rfl with high | paused
  · exact absurd (high.symm.trans clean.2) (by decide)
  · exact absurd (paused.symm.trans clean.1) (by decide)

def heard (s : Server) (e : Step) (i : Slot) : Option Bool :=
  match sentBy i e with
  | some (.flowCtrl, b :: _) => if (s.clients i).role = .write then some (b != 0) else none
  | _ => none

theorem paused_tended (env : Env) (v : Bool) : Tended env (fun mc => mc.live = true → mc.paused = v) False where
  sent := False.elim
  stake {mc mc'} same h live := by
    have fd : mc'.fd = mc.fd := (congrArg Mclient.fd same :)
    have paused : mc'.paused = mc.paused := (congrArg Mclient.paused same :)
    rw [paused]
    exact h (by rw [Mclient.live, ← fd]; exact live)
  settled {mc taken} since live bound h _ := by
    have kept : (release env { drained (advance taken mc) with stallSince := since }).paused = mc.paused := by
      unfold release drained
      split <;> split <;> rfl
    rw [kept]
    exact h live
  reclaim h := h
  grow _ h := h
  frame {mc frame} live start fits room h _ := by
    have kept : (hold env (append frame mc)).paused = mc.paused := by
      unfold hold
      split <;> rfl
    rw [kept]
    exact h live
  reset _ live := Bool.noConfusion live

theorem handleFlowCtrl_of_ne {j} (other : j ≠ i) (buf : Bytes) : (s.handleFlowCtrl i buf).clients j = s.clients j := by
  rcases handleFlowCtrl_cases s i buf with same | ⟨paused, set⟩
  · rw [same]
  · rw [set]
    exact modifyClient_of_ne s other fun mc => { mc with paused := paused }

theorem paused_handleFlowCtrl (s : Server) (i : Slot) (b : UInt8) (rest : Bytes) :
    ((s.handleFlowCtrl i (b :: rest)).clients i).paused = (b != 0) := by
  simp only [handleFlowCtrl]
  split
  · rename_i same
    exact same.symm
  · have own : ((s.modifyClient i fun mc => { mc with paused := b != 0 }).updateMasterInterest).clients i =
        { s.clients i with paused := b != 0 } := modifyClient_self s i fun mc => { mc with paused := b != 0 }
    rw [own]

theorem step_paused {e} (live : (s.step e).live i = true) :
    ((s.step e).clients i).paused = (s.heard e i).getD (s.clients i).paused := by
  cases heardIt : s.heard e i with
  | none =>
    refine step_keeps (I := fun s' => (s'.clients i).live = true → (s'.clients i).paused = (s.clients i).paused)
      ((paused_tended e.env _).upkeep i) (fun _ => rfl) (fun _ {fd s' k} allocated _ => ?_)
      (fun {s₁ k payload} sends writer kept h => ?_) (fun _ _ => rfl) live
    · obtain ⟨-, rfl⟩ := alloc_opened allocated
      by_cases own : i = k
      · rw [own, modifyClient_self]
        rfl
      · rw [modifyClient_of_ne _ own]
        rfl
    · by_cases own : i = k
      · subst own
        -- the server listens to a writer, so there was nothing to hear
        cases payload with
        | nil => exact h
        | cons b rest => simp [heard, sends, writer.2] at heardIt
      · rw [handleFlowCtrl_of_ne own]
        exact h
  | some v =>
    unfold heard at heardIt
    split at heardIt
    · rename_i b rest sends
      split at heardIt
      · rename_i role
        cases heardIt
        have was : s.live i = true := by
          obtain ⟨writable, wire, _, ready, -⟩ := sentBy_ready sends
          by_contra dead
          have still : s.step e = s.setTick 0 := by
            unfold Server.step
            rw [ready]
            exact if_neg dead
          rw [still] at live
          exact dead live
        obtain ⟨s₁, same, handled⟩ := step_handles was live sends
        have accepted : refuses (s₁.clients i) .flowCtrl = false :=
          accepts_of_write ((congrArg (fun s : Server => (s.clients i).role) same :).trans role) _
        have flow : s₁.handleMessage e.env i .flowCtrl ((b :: rest).take clientBufsz) =
            s₁.handleFlowCtrl i ((b :: rest).take clientBufsz) := by
          rw [handleMessage, accepted]
          rfl
        rw [handled, flow]
        exact paused_handleFlowCtrl ..
      · cases heardIt
    · cases heardIt

def hearing (s : Server) (e : Step) (asked : Slot → Bool) : Slot → Bool := fun i =>
  if (s.step e).live i then (s.heard e i).getD (asked i) else false

/-- The flow state of each client, and of the PTY, is up to date. -/
structure Watched (high low : Nat) (asked : Slot → Bool) (s : Server) : Prop where
  tuned : s.Tuned
  metered : ∀ i, Metered high low (s.clients i)
  paused : ∀ i, (s.clients i).paused = asked i

theorem Metered.opened (gap : low < high) (h : Metered high low mc) (dead : mc.live = false) (fd : Nat) :
    Metered high low (opened fd mc) := by
  obtain ⟨-, unthrottled, empty, start⟩ := h.clean dead
  refine ⟨fun _ => unthrottled, fun _ on => absurd (unthrottled.symm.trans on) (by decide), fun _ reached => ?_,
    fun dead => Bool.noConfusion dead⟩
  have none : (Server.opened fd mc).pending = 0 := by simp [Server.opened, Mclient.pending, empty]
  omega

theorem Metered.handleFlowCtrl {j} (h : Metered high low (s.clients j)) (live : s.live i = true) (buf : Bytes) :
    Metered high low ((s.handleFlowCtrl i buf).clients j) := by
  by_cases own : j = i
  · subst own
    rcases handleFlowCtrl_cases s j buf with same | ⟨paused, set⟩
    · rwa [same]
    · have self : ((s.modifyClient j fun mc => { mc with paused := paused }).updateMasterInterest).clients j =
          { s.clients j with paused := paused } := modifyClient_self s j fun mc => { mc with paused := paused }
      rw [set, self]
      exact ⟨h.flag, h.above, h.below, fun dead => absurd (live.symm.trans dead) (by decide)⟩
  · rw [handleFlowCtrl_of_ne own]
    exact h

theorem Tuned.handleFlowCtrl (h : s.Tuned) (i : Slot) (buf : Bytes) : (s.handleFlowCtrl i buf).Tuned := by
  rcases handleFlowCtrl_cases s i buf with same | ⟨paused, set⟩
  · rwa [same]
  · rw [set]
    exact updateMasterInterest_tuned _

theorem Watched.step (gap : low < high) {asked : Slot → Bool} {e} (h : Watched high low asked s)
    (marks : e.env.Marks high low) (reading : s.attaches e = true → s.masterRead = true) :
    Watched high low (s.hearing e asked) (s.step e) := by
  have metered : ∀ j, Metered high low ((s.step e).clients j) := by
    intro j
    refine step_keeps ((metered_tended marks gap).upkeep j) (h.metered j) (fun _ {fd s' k} allocated => ?_)
      (fun {s₁ k payload} _ writer kept metered => ?_) fun _ => h.metered j
    · obtain ⟨dead, rfl⟩ := alloc_opened allocated
      exact modifyClient_rule _ (fun own => (h.metered j).opened gap (own ▸ dead) fd) fun _ => h.metered j
    · exact metered.handleFlowCtrl ((live_of_core kept.core k).trans writer.1) _
  refine ⟨?_, metered, fun j => ?_⟩
  · refine step_keeps (tuned_upkeep e.env) h.tuned (fun opens {fd s' k} allocated => ?_)
      (fun {s₁ k payload} _ _ _ tuned => tuned.handleFlowCtrl k _) fun _ => h.tuned
    have clean := (h.metered k).clean (alloc_opened allocated).1
    exact Tuned.alloc (s := s.setTick 0) (reading opens) ⟨clean.1, clean.2.1⟩ allocated
  · unfold hearing
    split
    · rename_i live
      rw [step_paused live, h.paused j]
    · rename_i dead
      exact ((metered j).clean (by simpa [Server.live] using dead)).1

end Server

def pausesAfter : Server → (Slot → Bool) → List Step → Slot → Bool
  | _, asked, [] => asked
  | s, asked, e :: rest => pausesAfter (s.step e) (s.hearing e asked) rest

/-- Fixed watermarks, and no attach while reading is off. -/
def ReadsOn (high low : Nat) (s : Server) (e : Step) : Prop :=
  e.env.Marks high low ∧ (s.attaches e = true → s.masterRead = true)
  deriving Decidable

theorem run_watched {high low} (gap : low < high) {asked : Slot → Bool} {s steps} (h : s.Watched high low asked)
    (along : Along Server.step (ReadsOn high low) s steps) :
    (s.run steps).Watched high low (pausesAfter s asked steps) := by
  induction steps generalizing s asked with
  | nil => exact h
  | cons e rest ih => exact ih (h.step gap along.1.1 along.1.2) along.2

theorem start_watched (high low : Nat) (window : Emu) (entries : List AttrEntry) (nextGen : Nat) :
    (Server.start window entries nextGen).Watched high low fun _ => false :=
  ⟨rfl, fun _ => ⟨fun live => Bool.noConfusion live, fun live => Bool.noConfusion live, fun live => Bool.noConfusion live,
    fun _ => ⟨rfl, rfl, rfl, rfl⟩⟩, fun _ => rfl⟩

/-- **The PTY is not read exactly while every client is blocked**: after every event of a run in which
nobody attaches while reading is off. A client is blocked by the levels of its queue or by the last
pause the server heard from it. -/
theorem run_reading_off_iff {high low : Nat} (gap : low < high) (window : Emu) (entries : List AttrEntry) (nextGen : Nat)
    (steps : List Step) (along : Along Server.step (ReadsOn high low) (Server.start window entries nextGen) steps) :
    ((Server.start window entries nextGen).run steps).masterRead = false ↔
      (∃ i, ((Server.start window entries nextGen).run steps).live i = true) ∧
        ∀ i, ((Server.start window entries nextGen).run steps).live i = true →
          risen high low (((Server.start window entries nextGen).run steps).clients i).levels = true ∨
            pausesAfter (Server.start window entries nextGen) (fun _ => false) steps i = true := by
  have watched := run_watched gap (start_watched high low window entries nextGen) along
  rw [watched.tuned.iff]
  refine and_congr_right fun _ => forall_congr' fun i => forall_congr' fun live => ?_
  rw [(watched.metered i).flag live, watched.paused i]

def bare : Server := Server.start (Emu.new 1 1 0) [] 1

def pausing (flags : UInt8) : List Step :=
  [.attaching 10 flags .willing, .message ⟨0, mclientMax_pos⟩ .flowCtrl [1] .willing]

theorem pausing_writer_off :
    Along Server.step (ReadsOn (2 ^ 20) (256 * 1024)) bare (pausing 0) ∧ (bare.run (pausing 0)).masterRead = false :=
  have along : Along Server.step (ReadsOn (2 ^ 20) (256 * 1024)) bare (pausing 0) := by decide +kernel
  ⟨along, (run_reading_off_iff (by decide) (Emu.new 1 1 0) [] 1 (pausing 0) along).mpr (by decide +kernel)⟩

theorem pausing_viewer_on :
    (bare.run (pausing attachFView)).masterRead = true ∧ (bare.run (pausing attachFView)).liveSlots = [⟨0, mclientMax_pos⟩] ∧
      (pausing attachFView).getLast?.bind (sentBy ⟨0, mclientMax_pos⟩) = some (.flowCtrl, [1]) := by decide +kernel

-- a newcomer that is not blocked does not switch reading on again
example : (bare.run (pausing 0 ++ [.attaching 11 0 .willing])).masterRead = false ∧
    ((bare.run (pausing 0 ++ [.attaching 11 0 .willing])).clients ⟨1, one_lt_mclientMax⟩).levels.all (· < 2 ^ 20) = true := by
  decide +kernel

end Lumimux.Mserver

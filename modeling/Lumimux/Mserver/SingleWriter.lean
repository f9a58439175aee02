import Lumimux.Mserver.Calm
import Lumimux.Mserver.Effects

/-!
# One writer at a time

Only `role_for` and `mclient_alloc` can make a second writer.
-/

namespace Lumimux.Mserver
open Attr Ipc Lib Vt List

namespace Server

variable {env : Env} {i m : Slot} {s s' : Server}

theorem OneWriter.but (one : s.OneWriter) (m : Slot) : s.OneWriterBut m := fun i j _ _ => one i j

theorem OneWriterBut.of_writers (one : s.OneWriterBut m) (writers : ∀ j, j ≠ m → s'.Writer j → s.Writer j) :
    s'.OneWriterBut m := fun i j otherI otherJ writerI writerJ =>
  one i j otherI otherJ (writers i otherI writerI) (writers j otherJ writerJ)

theorem OneWriterBut.oneWriter (one : s.OneWriterBut m) (alone : s.Writer m → ∀ j, j ≠ m → ¬s.Writer j) : s.OneWriter := by
  intro i j writerI writerJ
  by_cases atI : i = m
  · by_contra distinct
    exact alone (atI ▸ writerI) j (fun atJ => distinct (atI.trans atJ.symm)) writerJ
  · by_cases atJ : j = m
    · exact absurd writerI (alone (atJ ▸ writerJ) i atI)
    · exact one i j atI atJ writerI writerJ

variable {j o : Slot} {fd : Nat}

theorem writer_modifyClient_of_ne {f : Mclient → Mclient} (other : j ≠ m) : (s.modifyClient m f).Writer j ↔ s.Writer j := by
  rw [Writer, Writer, Server.live, Server.live, modifyClient_of_ne s other]

theorem writer_resizeToFit (s : Server) (j : Slot) : s.resizeToFit.Writer j ↔ s.Writer j := by
  rw [Writer, Writer, Server.live, Server.live, clients_resizeToFit]

theorem otherWriter_iff : s.otherWriter i = true ↔ ∃ j, j ≠ i ∧ s.Writer j := by
  simp only [otherWriter, liveSlots, any_eq_true, mem_filter, mem_finRange, true_and, Bool.and_eq_true,
    decide_eq_true_eq, beq_iff_eq]
  exact ⟨fun ⟨j, live, other, role⟩ => ⟨j, other, live, role⟩, fun ⟨j, other, live, role⟩ => ⟨j, live, other, role⟩⟩

def demoteRound (env : Env) (i : Slot) (s : Server) (o : Slot) : Server :=
  if s.live o then
    if o = i ∨ (s.clients o).role ≠ .write then s else s.announceRole env (disconnect env) o .view
  else s

theorem demoteOthers_eq (env : Env) (s : Server) (i : Slot) :
    s.demoteOthers env i = (finRange mclientMax).foldl (demoteRound env i) s := rfl

theorem demoteRound_cases (env : Env) (i : Slot) (s : Server) (o : Slot) : demoteRound env i s o = s ∧ (o ≠ i → ¬s.Writer o) ∨
      o ≠ i ∧ s.Writer o ∧ demoteRound env i s o = s.announceRole env (disconnect env) o .view := by
  unfold demoteRound
  split
  · rename_i live
    split
    · rename_i skipped
      exact .inl ⟨rfl, fun other writer => skipped.elim other fun viewer => viewer writer.2⟩
    · rename_i demoted
      rw [not_or, not_not] at demoted
      exact .inr ⟨demoted.1, ⟨live, demoted.2⟩, rfl⟩
  · rename_i dead
    exact .inl ⟨rfl, fun _ writer => dead writer.1⟩

theorem announceRole_served (env : Env) (i : Slot) (s : Server) (o : Slot) (role : Role) :
    Served i (s.modifyClient o fun mc => { mc with role := role }) (s.announceRole env (disconnect env) o role) :=
  (announceRole_level (disconnect_level env) s o role).nested.served i

theorem writer_demoted (writer : (s.modifyClient o fun mc => { mc with role := .view }).Writer j) :
    j ≠ o ∧ s.Writer j := by
  have other : j ≠ o := by
    rintro rfl
    have viewer := writer.2
    rw [modifyClient_self] at viewer
    cases viewer
  exact ⟨other, (writer_modifyClient_of_ne other).mp writer⟩

theorem live_of_announceRole {role} (live : (s.announceRole env (disconnect env) o role).live j = true) :
    s.live j = true := by
  have before := (announceRole_served env j s o role).live live
  rw [live_modifyClient] at before
  · exact before
  · exact fun _ => rfl

theorem live_of_demoteRound (live : (demoteRound env i s o).live j = true) : s.live j = true := by
  rcases demoteRound_cases env i s o with ⟨same, -⟩ | ⟨-, -, demoted⟩
  · rwa [same] at live
  · rw [demoted] at live
    exact live_of_announceRole live

theorem live_of_demoteRounds (slots : List Slot) (live : (slots.foldl (demoteRound env i) s).live j = true) :
    s.live j = true := by
  induction slots generalizing s with
  | nil => exact live
  | cons o rest ih => exact live_of_demoteRound (ih live)

theorem demoteRounds_idle (slots : List Slot) (idle : ∀ j, j ≠ i → ¬s.Writer j) : slots.foldl (demoteRound env i) s = s := by
  induction slots with
  | nil => rfl
  | cons o rest ih =>
    rcases demoteRound_cases env i s o with ⟨same, -⟩ | ⟨other, writer, -⟩
    · rw [foldl_cons, same, ih]
    · exact absurd writer (idle o other)

theorem demoteRounds_clear {P : Nat → Server → Prop} (cost budget : Nat) (skip : ∀ budget t, P (budget + cost) t → P budget t)
    (round : ∀ budget t o, o ≠ i → P (budget + cost) t →
      (t.announceRole env (disconnect env) o .view).live i = true →
        P budget (t.announceRole env (disconnect env) o .view) ∧
        ∀ j, (t.announceRole env (disconnect env) o .view).Writer j → j ≠ o ∧ t.Writer j)
    (slots : List Slot) (enough : P (budget + cost * slots.length) s)
    (covered : ∀ j, j ≠ i → s.Writer j → j ∈ slots) (stays : (slots.foldl (demoteRound env i) s).live i = true) :
    ∀ j, j ≠ i → ¬(slots.foldl (demoteRound env i) s).Writer j := by
  induction slots generalizing s with
  | nil => exact fun j other writer => absurd (covered j other writer) not_mem_nil
  | cons o rest ih =>
    rw [length_cons, Nat.mul_succ, ← Nat.add_assoc] at enough
    have now : (demoteRound env i s o).live i = true := live_of_demoteRounds rest stays
    have next : P (budget + cost * rest.length) (demoteRound env i s o) ∧
        ∀ j, j ≠ i → (demoteRound env i s o).Writer j → j ≠ o ∧ s.Writer j := by
      rcases demoteRound_cases env i s o with ⟨same, passed⟩ | ⟨other, -, demoted⟩
      · rw [same]
        exact ⟨skip _ _ enough, fun j other writer => ⟨fun at_o => passed (at_o ▸ other) (at_o ▸ writer), writer⟩⟩
      · rw [demoted] at now ⊢
        obtain ⟨kept, writers⟩ := round _ s o other enough now
        exact ⟨kept, fun j _ => writers j⟩
    refine ih next.1 (fun j other writer => ?_) stays
    obtain ⟨passed, before⟩ := next.2 j other writer
    exact (mem_cons.mp (covered j other before)).resolve_left passed

theorem demoteOthers_clears_of_writer (holds : (s.clients i).role = .write) (stays : (s.demoteOthers env i).live i = true)
    (j : Slot) (other : j ≠ i) : ¬(s.demoteOthers env i).Writer j := by
  rw [demoteOthers_eq] at stays ⊢
  refine demoteRounds_clear (P := fun _ t => (t.clients i).role = .write) 0 0 (fun _ _ kept => kept) ?_ _
    holds (fun j _ _ => mem_finRange j) stays j other
  intro _ t o other holds stays
  have holds' : ((t.modifyClient o fun mc => { mc with role := .view }).clients i).role = .write := by
    rw [modifyClient_of_ne t (Ne.symm other)]
    exact holds
  have roles := fun {j} live => (announceRole_served env i t o .view).held holds' stays (j := j) live
  refine ⟨(roles stays).trans holds', fun j writer => writer_demoted ⟨?_, (roles writer.1).symm.trans writer.2⟩⟩
  exact (announceRole_served env i t o .view).live writer.1

theorem demoteOthers_clears_of_calm (calm : Calm env i s) (stays : (s.demoteOthers env i).live i = true)
    (j : Slot) (other : j ≠ i) : ¬(s.demoteOthers env i).Writer j := by
  rw [demoteOthers_eq] at stays ⊢
  refine demoteRounds_clear (P := fun room t => Unhurt env i s room t) roleCost 0
    (fun _ _ kept => kept.mono (Nat.le_add_right ..)) ?_ _
    (calm.unhurt.mono (by rw [length_finRange]; decide)) (fun j _ _ => mem_finRange j) stays j other
  intro room t o _ unhurt stays
  obtain ⟨unhurt', same⟩ := unhurt.announceRole calm.steady o .view
  refine ⟨unhurt', fun j writer => writer_demoted ⟨?_, ?_⟩⟩
  · exact (live_of_core (same stays) j).symm.trans writer.1
  · have role := (congrArg (fun s : Server => (s.clients j).role) (same stays) :)
    exact Eq.trans (Eq.symm role) writer.2

def takesToken (asked : UInt8) : Bool :=
  !hasFlag asked attachFView && !hasFlag asked attachFInject && hasFlag asked attachFToken

theorem roleFor_alone (single : ∀ t, env.multiWriter t = false) (asked : UInt8)
    (safe : takesToken asked = true → s.otherWriter i = true → (s.clients i).role = .write ∨ Calm env i s)
    (granted : (s.roleFor env i asked).2 = .write) (stays : (s.roleFor env i asked).1.live i = true) (j : Slot)
    (other : j ≠ i) : ¬(s.roleFor env i asked).1.Writer j := by
  revert granted stays
  unfold roleFor
  split
  · intro granted
    cases granted
  · rename_i noView
    split
    · intro granted
      cases granted
    · rename_i noInject
      split
      · rename_i token
        intro _ stays
        have takes : takesToken asked = true := by simp [takesToken, noView, noInject, token]
        by_cases busy : s.otherWriter i = true
        · rcases safe takes busy with holds | calm
          · exact demoteOthers_clears_of_writer holds stays j other
          · exact demoteOthers_clears_of_calm calm stays j other
        · have idle : ∀ j, j ≠ i → ¬s.Writer j := fun j other writer => busy (otherWriter_iff.mpr ⟨j, other, writer⟩)
          dsimp only
          rw [demoteOthers_eq, demoteRounds_idle _ idle]
          exact idle j other
      · rw [single]
        intro granted _ writer
        have busy : Server.otherWriter { s with tick := s.tick + 1 } i = true := otherWriter_iff.mpr ⟨j, other, writer⟩
        simp only [busy, if_true] at granted
        cases granted

theorem roleFor_but (one : s.OneWriterBut i) (asked : UInt8) : (s.roleFor env i asked).1.OneWriterBut i :=
  roleFor_rule asked (fun _ => one) fun _ kept =>
    (announceRole_served env i _ _ .view).oneWriterBut (kept.of_writers fun _ _ writer => (writer_demoted writer).2)

theorem announceRole_seat {role} (live : (s.announceRole env (disconnect env) o role).live j = true) :
    SameSeat (s.clients j) ((s.announceRole env (disconnect env) o role).clients j) := by
  have set : SameSeat (s.clients j) ((s.modifyClient o fun mc => { mc with role := role }).clients j) :=
    modifyClient_rule s (fun _ => ⟨rfl, rfl, rfl, rfl⟩) fun _ => .refl _
  exact set.trans ((announceRole_served env j s o role).seat live)

theorem roleFor_seat (asked : UInt8) (live : (s.roleFor env i asked).1.live j = true) :
    SameSeat (s.clients j) ((s.roleFor env i asked).1.clients j) :=
  roleFor_rule (P := fun t => t.live j = true → SameSeat (s.clients j) (t.clients j)) asked (fun _ _ => .refl _)
    (fun _ kept live => (kept (live_of_announceRole live)).trans (announceRole_seat live)) live

theorem handleRoleRequest_oneWriter (single : ∀ t, env.multiWriter t = false) (one : s.OneWriter) (buf : Bytes)
    (safe : ∀ asked rest, buf = asked :: rest → takesToken asked = true → s.otherWriter i = true → Calm env i s) :
    (s.handleRoleRequest env i buf).OneWriter := by
  cases buf with
  | nil => exact one
  | cons asked rest =>
    simp only [handleRoleRequest]
    have but : (s.roleFor env i asked).1.OneWriterBut i := roleFor_but (one.but i) asked
    have alone := roleFor_alone single asked fun takes busy => .inr (safe asked rest rfl takes busy)
    generalize s.roleFor env i asked = decided at but alone ⊢
    obtain ⟨s₁, want⟩ := decided
    dsimp only at but alone ⊢
    generalize asking : (s₁.modifyClient i fun mc => { mc with flags := asked }).resizeToFit = s₂
    have writers : ∀ j, j ≠ i → s₂.Writer j → s₁.Writer j := fun j other writer => by
      rw [← asking, writer_resizeToFit] at writer
      exact (writer_modifyClient_of_ne other).mp writer
    have stays : s₂.live i = true → s₁.live i = true := fun live => by
      rw [← asking, Server.live, clients_resizeToFit, modifyClient_self] at live
      exact live
    split
    · refine (announceRole_served env i s₂ i want).oneWriter (OneWriterBut.oneWriter (m := i) ?_ ?_)
      · exact but.of_writers fun j other writer => writers j other ((writer_modifyClient_of_ne other).mp writer)
      · intro writer j other writerJ
        have granted : want = .write := by simpa using writer.2
        have live : s₂.live i = true := by simpa [Server.live, Mclient.live] using writer.1
        exact alone granted (stays live) j other (writers j other ((writer_modifyClient_of_ne other).mp writerJ))
    · rename_i same
      rw [not_not] at same
      refine (but.of_writers writers).oneWriter fun writer j other writerJ => ?_
      exact alone (same.trans writer.2) (stays writer.1) j other (writers j other writerJ)

theorem otherWriter_of_core (same : s'.core = s.core) (busy : s'.otherWriter i = true) : s.otherWriter i = true := by
  obtain ⟨j, other, live, role⟩ := otherWriter_iff.mp busy
  refine otherWriter_iff.mpr ⟨j, other, (live_of_core same j).symm.trans live, Eq.trans ?_ role⟩
  exact (congrArg (fun s : Server => (s.clients j).role) same :).symm

section
variable (claimed : s.alloc fd = some (s', m))
include claimed

theorem alloc_opened : s.live m = false ∧ s' = s.modifyClient m (opened fd) := by
  unfold alloc at claimed
  obtain ⟨slot, found, pair⟩ := Option.map_eq_some_iff.mp claimed
  rw [Prod.mk.injEq] at pair
  obtain ⟨state, rfl⟩ := pair
  have free := find?_some found
  exact ⟨by simpa using free, state.symm⟩

theorem alloc_cases :
    s.live m = false ∧ (s'.clients m).fd = some fd ∧ (s'.clients m).role = .write ∧
      ∀ j, j ≠ m → s'.clients j = s.clients j := by
  obtain ⟨free, rfl⟩ := alloc_opened claimed
  rw [modifyClient_self]
  exact ⟨free, rfl, rfl, fun j other => modifyClient_of_ne s other _⟩

theorem ptyOut_alloc : s'.ptyOut = s.ptyOut := by
  obtain ⟨-, rfl⟩ := alloc_opened claimed
  rfl

theorem promoted_alloc : s'.promoted = s.promoted := by
  obtain ⟨-, rfl⟩ := alloc_opened claimed
  rfl

theorem flags_alloc : (s'.clients m).flags = 0 := by
  obtain ⟨-, rfl⟩ := alloc_opened claimed
  rw [modifyClient_self]
  rfl

end

theorem accept_oneWriter (single : ∀ t, env.multiWriter t = false) (one : s.OneWriterBut m)
    (holds : (s.clients m).role = .write) (at_ : IpcAttach) : (s.accept env m at_).OneWriter := by
  unfold accept
  extract_lets s₁
  have one₁ : s₁.OneWriterBut m := one.of_writers fun j other writer => (writer_modifyClient_of_ne other).mp writer
  have holds₁ : (s₁.clients m).role = .write := by
    simp only [s₁, modifyClient_self]
    exact holds
  have but : (s₁.roleFor env m at_.flags).1.OneWriterBut m := roleFor_but one₁ at_.flags
  have alone := roleFor_alone single at_.flags fun _ _ => .inl holds₁
  generalize s₁.roleFor env m at_.flags = decided at but alone ⊢
  obtain ⟨s₂, role⟩ := decided
  dsimp only at but alone ⊢
  have writers : ∀ j, j ≠ m → (s₂.modifyClient m fun mc => { mc with role := role }).resizeToFit.Writer j → s₂.Writer j :=
    fun j other writer => (writer_modifyClient_of_ne other).mp ((writer_resizeToFit _ j).mp writer)
  refine (but.of_writers writers).oneWriter fun writer j other writerJ => ?_
  obtain ⟨live, granted⟩ := (writer_resizeToFit _ m).mp writer
  rw [modifyClient_self] at granted
  rw [Server.live, modifyClient_self] at live
  exact alone granted live j other (writers j other writerJ)

theorem attach_oneWriter (single : ∀ t, env.multiWriter t = false) (one : s.OneWriter) (fd : Nat) (buf : Bytes)
    (safe : ipcAttachDecode buf = none → ∀ j, ¬s.Writer j) : (s.attach env fd buf).OneWriter := by
  unfold attach
  split
  · exact one
  · rename_i s₁ m claimed
    obtain ⟨-, -, holds, others⟩ := alloc_cases claimed
    have writers : ∀ j, j ≠ m → s₁.Writer j → s.Writer j := fun j other writer => by
      rwa [Writer, Server.live, others j other] at writer
    have but : s₁.OneWriterBut m := (one.but m).of_writers writers
    refine (welcome_served env _ m).oneWriter ?_
    split
    · rename_i at_ _
      exact accept_oneWriter single but holds at_
    · rename_i undecoded
      exact but.oneWriter fun _ j other writer => safe undecoded j (writers j other writer)

end Server

/-- The condition on an event that keeps a single-writer session to one writer. An `ATTACH` that does
not decode keeps the role `mclient_alloc` gave it, so it may come only while nobody types. A viewer
that takes the keyboard with the session token may do so only while nobody else has to be dropped. -/
def KeepsWriter (s : Server) (e : Step) : Prop :=
  (∀ t, e.env.multiWriter t = false) ∧
  match e.event with
  | .connect _ _ wire => ∀ buf rest, ipcMsgRecv Server.attachBufsz wire = some (.attach, buf, rest) →
      ipcAttachDecode buf = none → ∀ j, ¬s.Writer j
  | .ready i _ _ wire => ∀ asked buf rest,
      ipcMsgRecv Server.clientBufsz wire = some (.roleRequest, asked :: buf, rest) →
      Server.takesToken asked = true → s.otherWriter i = true → s.Calm e.env i
  | _ => True

theorem step_oneWriter {s e} (one : s.OneWriter) (keeps : KeepsWriter s e) : (s.step e).OneWriter := by
  obtain ⟨single, keeps⟩ := keeps
  have one₀ : Server.OneWriter { s with tick := 0 } := one
  have happens := s.step_happens e
  generalize s.step e = s' at happens ⊢
  cases happens with
  | served h => exact h.oneWriter one₀
  | typed _ _ kept h =>
    have one₁ := kept.served.oneWriter one₀
    exact fun k l writerK writerL => one₁ k l ((h.writer k).mp writerK) ((h.writer l).mp writerL)
  | asked event received kept =>
    rw [event] at keeps
    refine Server.handleRoleRequest_oneWriter single (kept.served.oneWriter one₀) _ ?_
    rintro asked rest rfl takes busy
    have calm := keeps asked rest _ received takes (Server.otherWriter_of_core kept.core busy)
    exact (calm.tick 0).after kept
  | attached event received =>
    rw [event] at keeps
    exact Server.attach_oneWriter single one₀ _ _ (keeps _ _ received)

/-- **Single writer.** In every run of a single-writer session whose events meet the condition, at most
one connected client holds WRITE. -/
theorem run_single_writer (window : Emu) (entries : List AttrEntry) (nextGen : Nat) (steps : List Step)
    (keeps : Along Server.step KeepsWriter (Server.start window entries nextGen) steps) :
    ((Server.start window entries nextGen).run steps).OneWriter := by
  refine keeps.invariant (fun s e one condition => step_oneWriter one condition) ?_
  intro i j writer
  cases writer.1

def handOver : List Step :=
  [.attaching 10 0 .willing, .attaching 11 0 .willing,
   .message ⟨1, by decide⟩ .roleRequest [attachFToken] .willing]

theorem handOver_single_writer : Along Server.step KeepsWriter (Server.start (Emu.new 1 1 0) [] 0) handOver ∧
      ((Server.start (Emu.new 1 1 0) [] 0).run handOver).OneWriter := by
  have decodes : ∀ buf rest, ipcMsgRecv Server.attachBufsz (ipcMsgFrame .attach
      ((ipcAttachEncode 256 { flags := 0 }).getD [])) = some (.attach, buf, rest) → ipcAttachDecode buf ≠ none := by
    intro buf rest received
    have sent : ipcMsgRecv Server.attachBufsz (ipcMsgFrame .attach ((ipcAttachEncode 256 { flags := 0 }).getD [])) =
        some (.attach, (ipcAttachEncode 256 { flags := 0 }).getD [], []) := by decide +kernel
    rw [sent, Option.some.injEq, Prod.mk.injEq, Prod.mk.injEq] at received
    rw [← received.2.1]
    decide +kernel
  have keeps : Along Server.step KeepsWriter (Server.start (Emu.new 1 1 0) [] 0) handOver := by
    refine ⟨⟨fun _ => rfl, fun buf rest received fails => absurd fails (decodes buf rest received)⟩,
      ⟨fun _ => rfl, fun buf rest received fails => absurd fails (decodes buf rest received)⟩,
      ⟨fun _ => rfl, fun _ _ _ _ _ _ => ?_⟩, trivial⟩
    exact Server.calm_of_idle Env.willing_steady (by decide) (by decide +kernel)
  exact ⟨keeps, run_single_writer _ _ _ _ keeps⟩

theorem second_writer : ¬((Server.start (Emu.new 1 1 0) [] 0).run
        [.attaching 10 0 .willing, ⟨.connect 11 true (ipcMsgFrame .attach []), .willing⟩]).OneWriter ∧
    ¬((Server.start (Emu.new 1 1 0) [] 0).run (handOver ++
        [.attaching 12 0 .willing,
         .message ⟨2, by decide⟩ .roleRequest [attachFToken]
           { Env.willing with send := fun t => if t = 0 then .failed else .accepted 65535 }])).OneWriter := by
  constructor <;> decide +kernel

end Lumimux.Mserver

import Lumimux.Mserver.Handlers
import Lumimux.Mserver.Nested

/-!
# What serving a client can do

`Effect` lists the single effects of the handlers, typing and role requests aside.
-/

namespace Lumimux.Mserver
open Attr Ipc Lib Vt List

structure SameSeat (mc mc' : Mclient) : Prop where
  fd : mc'.fd = mc.fd
  flags : mc'.flags = mc.flags
  inq : mc'.inq = mc.inq
  inrun : mc'.inrun = mc.inrun

theorem SameSeat.refl (mc : Mclient) : SameSeat mc mc := ⟨rfl, rfl, rfl, rfl⟩

theorem SameSeat.trans {a b c} (ab : SameSeat a b) (bc : SameSeat b c) : SameSeat a c :=
  ⟨bc.fd.trans ab.fd, bc.flags.trans ab.flags, bc.inq.trans ab.inq, bc.inrun.trans ab.inrun⟩

namespace Server

inductive Effect (i : Slot) : Server → Server → Prop
  | micro {s s' : Server} (h : Micro s s') : Effect i s s'
  | own (s : Server) (f : Mclient → Mclient) (seat : ∀ mc, SameSeat mc (f mc)) (role : ∀ mc, (f mc).role = mc.role) :
      Effect i s (s.modifyClient i f)
  | store (s : Server) (attrs : AttrStore) : Effect i s { s with attrs := attrs }
  | screen (s : Server) (window : Emu) : Effect i s { s with window := window }
  | stop (s : Server) : Effect i s { s with stopped := true }

/-- Any number of effects. -/
abbrev Served (i : Slot) : Server → Server → Prop := Relation.ReflTransGen (Effect i)

variable {s s' : Server} {i j : Slot}

theorem Nested.served (h : Nested s s') (i : Slot) : Served i s s' :=
  h.lift id fun _ _ => .micro

theorem served_of_core (same : s'.core = s.core) : Served i s s' :=
  (nested_of_core same).served i

theorem Bookkeeping.served (kept : Bookkeeping i s s') : Served i s s' := served_of_core kept.core

section Handlers

variable (env : Env) (s : Server) (i : Slot)

theorem send_served (j : Slot) (type : MsgType) (payload : Bytes) :
    Served i s (s.enqueue env (disconnect env) j type payload) :=
  (send_nested env s j type payload).served i

theorem drop_served (j : Slot) : Served i s (s.disconnect env j) := (disconnect_nested env s j).served i

theorem tick_served (tick : Nat) : Served i s { s with tick := tick } := served_of_core rfl

theorem lastPtyFlags_served (flags : UInt8) : Served i s { s with lastPtyFlags := some flags } := served_of_core rfl

theorem flush_served : Served i s (s.flush env (disconnect env) i) :=
  ((flush_books ..).level (disconnect_level env)).nested.served i

theorem deny_served (why : String) : Served i s (s.deny env i why) := by
  unfold deny
  extract_lets now s₁
  have asked : Served i s s₁ := tick_served ..
  split
  · exact asked
  · have noted : Served i s₁ (s₁.modifyClient i fun mc => { mc with lastDeny := now }) :=
      served_of_core (core_modifyClient fun _ => rfl)
    exact asked.trans (noted.trans (send_served ..))

theorem replyEncoded_served (type : MsgType) (payload : Option Bytes) :
    Served i s (s.replyEncoded env i type payload) := by
  cases payload with
  | none => exact .refl
  | some payload => exact send_served ..

theorem sendReplay_served : Served i s (s.sendReplay env i) :=
  foldlRecOn (motive := Served i s) _ _ .refl fun _ reached _ _ => reached.trans (send_served ..)

theorem handleFlowCtrl_served (buf : Bytes) : Served i s (s.handleFlowCtrl i buf) := by
  cases buf with
  | nil => exact .refl
  | cons b buf =>
    simp only [handleFlowCtrl]
    split
    · exact .refl
    · have paused : Effect i s (s.modifyClient i fun mc => { mc with paused := b != 0 }) :=
        .own s _ (fun _ => ⟨rfl, rfl, rfl, rfl⟩) fun _ => rfl
      have interest : Served i (s.modifyClient i fun mc => { mc with paused := b != 0 })
          (s.modifyClient i fun mc => { mc with paused := b != 0 }).updateMasterInterest := served_of_core rfl
      exact .head paused interest

theorem handleWinResize_served (buf : Bytes) : Served i s (s.handleWinResize i buf) := by
  unfold handleWinResize
  split
  · exact .refl
  · rename_i sz _
    split
    · have voted : Effect i s (s.modifyClient i fun mc =>
          { mc with rows := sz.rows, cols := sz.cols, cellPw := sz.cellPw, cellPh := sz.cellPh }) :=
        .own s _ (fun _ => ⟨rfl, rfl, rfl, rfl⟩) fun _ => rfl
      exact .head voted (.single (.micro (.refit _)))
    · exact .refl

theorem handleTermColors_served (buf : Bytes) : Served i s (s.handleTermColors buf) := by
  unfold handleTermColors
  split
  · exact .refl
  · exact .single (.screen ..)

def Answered (env : Env) (i : Slot) (s s' : Server) : Prop :=
  ∃ attrs, s' = { s with attrs := attrs } ∨
    ∃ type payload, s' = { s with attrs := attrs }.enqueue env (disconnect env) i type payload

theorem answered_reply (attrs : AttrStore) (type : MsgType) (payload : Bytes) :
    Answered env i s ({ s with attrs := attrs }.reply env i type payload) := ⟨attrs, .inr ⟨type, payload, rfl⟩⟩

theorem answered_replyEncoded (attrs : AttrStore) (type : MsgType) (payload : Option Bytes) :
    Answered env i s ({ s with attrs := attrs }.replyEncoded env i type payload) := by
  cases payload with
  | none => exact ⟨attrs, .inl rfl⟩
  | some payload => exact answered_reply ..

theorem handleAttrMsg_answered (type : MsgType) (buf : Bytes) : Answered env i s (s.handleAttrMsg env i type buf) := by
  unfold handleAttrMsg
  split
  · split
    · exact answered_replyEncoded ..
    · exact answered_reply ..
  · split
    · exact answered_reply env s i s.attrs ..
    · split
      dsimp only
      split
      · exact answered_replyEncoded ..
      · exact answered_reply ..
  · split
    · exact answered_reply env s i s.attrs ..
    · exact answered_replyEncoded ..
  · split
    · exact answered_reply env s i s.attrs ..
    · split
      dsimp only
      split
      · exact answered_reply ..
      · exact answered_reply ..
  · split
    · exact answered_reply env s i s.attrs ..
    · split
      dsimp only
      split
      · exact answered_reply ..
      · exact answered_reply ..
  · split
    · exact answered_reply env s i s.attrs ..
    · dsimp only
      split
      · exact answered_reply ..
      · exact answered_replyEncoded ..
  · split
    · exact answered_reply env s i s.attrs ..
    · split
      · exact answered_reply env s i s.attrs ..
      · exact answered_replyEncoded env s i s.attrs ..
  · exact ⟨s.attrs, .inl rfl⟩

theorem handleAttrMsg_served (type : MsgType) (buf : Bytes) : Served i s (s.handleAttrMsg env i type buf) := by
  obtain ⟨attrs, same | ⟨_, _, answered⟩⟩ := handleAttrMsg_answered env s i type buf
  · rw [same]
    exact .single (.store s attrs)
  · rw [answered]
    exact .head (.store s attrs) (send_served ..)

theorem handleMessage_served {type} (ordinary : msgIsInput type = false) (noRequest : type ≠ .roleRequest)
    (buf : Bytes) : Served i s (s.handleMessage env i type buf) := by
  unfold handleMessage
  split
  · exact deny_served ..
  · split
    · cases ordinary
    · cases ordinary
    · cases ordinary
    · exact handleFlowCtrl_served ..
    · exact handleWinResize_served ..
    · exact handleTermColors_served ..
    · exact sendReplay_served ..
    · exact absurd rfl noRequest
    · exact drop_served ..
    · exact (drop_served ..).tail (.stop _)
    all_goals first | exact handleAttrMsg_served .. | exact .refl

theorem welcome_served : Served i s (s.welcome env i) := by
  unfold welcome
  extract_lets _ s₁ s₂ s₃ s₄ flags s₅
  have greeted : Served i s s₁ := replyEncoded_served ..
  have ready : Effect i s₁ s₂ := .own s₁ _ (fun _ => ⟨rfl, rfl, rfl, rfl⟩) fun _ => rfl
  have shown : Served i s₂ s₃ := sendReplay_served ..
  have told : Served i s₃ s₄ := (clientEvent_level (disconnect_level env) s₃ i .join).nested.served i
  have asked : Served i s₄ s₅ := tick_served ..
  have joined : Served i s s₅ := (greeted.tail ready).trans (shown.trans (told.trans asked))
  clear_value s₅ flags
  cases flags with
  | none => exact joined
  | some echo => exact joined.trans ((lastPtyFlags_served s₅ i echo).trans (send_served ..))

theorem broadcast_served (type : MsgType) (payload : Bytes) : Served i s (s.broadcast env type payload) :=
  (forLive_level (fun s j => enqueue_level (disconnect_level env) s j type payload) s).nested.served i

theorem syncPtyFlags_served : Served i s (s.syncPtyFlags env) := by
  unfold syncPtyFlags
  split
  · exact .refl
  · extract_lets flags s₁
    have asked : Served i s s₁ := tick_served ..
    clear_value flags s₁
    cases flags with
    | none => exact asked
    | some echo =>
      dsimp only
      split
      · exact asked
      · exact asked.trans ((lastPtyFlags_served s₁ i echo).trans (broadcast_served ..))

theorem onMasterRead_served (data : Bytes) : Served i s (s.onMasterRead env data) := by
  unfold onMasterRead
  split
  · exact .single (.stop s)
  · exact .head (.screen s _) ((syncPtyFlags_served ..).trans (broadcast_served ..))

theorem disconnectAll_served : Served i s (s.disconnectAll env) :=
  foldlRecOn (motive := Served i s) _ _ .refl fun _ reached _ _ => reached.trans (drop_served ..)

end Handlers

theorem Kept.seat {mc mc'} (h : Kept mc mc') : SameSeat mc mc' := ⟨h.fd, h.flags, h.inq, h.inrun⟩

theorem Effect.stays (h : Effect i s s') (live : s'.live j = true) :
    SameSeat (s.clients j) (s'.clients j) ∧ ((s'.clients j).role = (s.clients j).role ∨
      (s'.clients j).role = .write ∧ (s.clients j).flags ∈ s'.promoted ∧
        (∀ k, s.live k = true → (s.clients k).role ≠ .write) ∧
        ∀ k, k ≠ j → (s'.clients k).role = (s.clients k).role) := by
  cases h with
  | micro h =>
    obtain ⟨kept, role⟩ := h.stays live
    exact ⟨kept.seat, role⟩
  | own f seat role =>
    by_cases own : j = i
    · rw [own, modifyClient_self]
      exact ⟨seat _, .inl (role _)⟩
    · rw [modifyClient_of_ne s own]
      exact ⟨.refl _, .inl rfl⟩
  | store | screen | stop => exact ⟨.refl _, .inl rfl⟩

theorem Effect.promoted (h : Effect i s s') : s.promoted ⊆ s'.promoted := by
  cases h with
  | micro h => exact h.promoted
  | own | store | screen | stop => exact List.Subset.refl _

theorem Effect.live (h : Effect i s s') (live : s'.live j = true) :
    s.live j = true := (live_of_fd (h.stays live).1.fd).symm.trans live

def Writer (s : Server) (i : Slot) : Prop := s.live i = true ∧ (s.clients i).role = .write
  deriving Decidable

/-- At most one client holds WRITE. -/
def OneWriter (s : Server) : Prop := ∀ i j, s.Writer i → s.Writer j → i = j
  deriving Decidable

def OneWriterBut (m : Slot) (s : Server) : Prop := ∀ i j, i ≠ m → j ≠ m → s.Writer i → s.Writer j → i = j

theorem Effect.writers {k} (h : Effect k s s') (writerI : s'.Writer i) (writerJ : s'.Writer j) :
    i = j ∨ s.Writer i ∧ s.Writer j := by
  obtain ⟨-, roleI⟩ := h.stays writerI.1
  obtain ⟨-, roleJ⟩ := h.stays writerJ.1
  have liveI := h.live writerI.1
  have liveJ := h.live writerJ.1
  rcases roleI with sameI | ⟨-, -, nobody, others⟩
  · have holdsI := sameI.symm.trans writerI.2
    rcases roleJ with sameJ | ⟨-, -, nobody, -⟩
    · exact .inr ⟨⟨liveI, holdsI⟩, liveJ, sameJ.symm.trans writerJ.2⟩
    · exact absurd holdsI (nobody i liveI)
  · left
    by_contra distinct
    exact absurd ((others j (Ne.symm distinct)).symm.trans writerJ.2) (nobody j liveJ)

namespace Served

variable {i : Slot} {s s' : Server} (h : Served i s s')
include h

variable {j : Slot}

theorem seat (live : s'.live j = true) : SameSeat (s.clients j) (s'.clients j) := by
  induction h with
  | refl => exact .refl _
  | tail _ step ih => exact (ih (step.live live)).trans (step.stays live).1

theorem live (live : s'.live j = true) : s.live j = true := (live_of_fd (h.seat live).fd).symm.trans live

theorem promoted : s.promoted ⊆ s'.promoted := by
  induction h with
  | refl => exact List.Subset.refl _
  | tail _ step ih => exact List.Subset.trans ih step.promoted

theorem role (live : s'.live j = true) : (s'.clients j).role = (s.clients j).role ∨
      (s'.clients j).role = .write ∧ (s.clients j).flags ∈ s'.promoted := by
  induction h with
  | refl => exact .inl rfl
  | tail reached step ih =>
    obtain ⟨-, same | ⟨granted, picked, -⟩⟩ := step.stays live
    · rw [same]
      exact (ih (step.live live)).imp_right fun before => ⟨before.1, step.promoted before.2⟩
    · rw [(Served.seat reached (step.live live)).flags] at picked
      exact .inr ⟨granted, picked⟩

theorem held {m} (holds : (s.clients m).role = .write) (stays : s'.live m = true) (live : s'.live j = true) :
    (s'.clients j).role = (s.clients j).role := by
  induction h generalizing j with
  | refl => rfl
  | tail _ step ih =>
    have before := step.live stays
    obtain ⟨-, same | ⟨-, -, nobody, -⟩⟩ := step.stays live
    · rw [same]
      exact ih before (step.live live)
    · exact absurd ((ih before before).trans holds) (nobody m before)

theorem writers {k l} (writerK : s'.Writer k) (writerL : s'.Writer l) : k = l ∨ s.Writer k ∧ s.Writer l := by
  induction h with
  | refl => exact .inr ⟨writerK, writerL⟩
  | tail _ step ih =>
    rcases step.writers writerK writerL with same | ⟨beforeK, beforeL⟩
    · exact .inl same
    · exact ih beforeK beforeL

theorem oneWriter (one : s.OneWriter) : s'.OneWriter := fun k l writerK writerL =>
  (h.writers writerK writerL).elim id fun ⟨beforeK, beforeL⟩ => one k l beforeK beforeL

theorem oneWriterBut {m} (one : s.OneWriterBut m) : s'.OneWriterBut m := fun k l otherK otherL writerK writerL =>
  (h.writers writerK writerL).elim id fun ⟨beforeK, beforeL⟩ => one k l otherK otherL beforeK beforeL

theorem ptyOut : s'.ptyOut = s.ptyOut := by
  induction h with
  | refl => rfl
  | tail _ step ih =>
    rw [← ih]
    cases step with
    | micro h => exact h.outside.ptyOut
    | own => rfl
    | store => rfl
    | screen => rfl
    | stop => rfl

end Served

/-- What typing changes: the client's own run, and what the PTY took. -/
structure Typed (i : Slot) (s s' : Server) : Prop where
  others : ∀ j, j ≠ i → s'.clients j = s.clients j
  own : s'.clients i =
    { s.clients i with inq := (s'.clients i).inq, inqCap := (s'.clients i).inqCap, inrun := (s'.clients i).inrun }
  wrote : ∃ chunks : List Bytes, s'.ptyOut = s.ptyOut ++ chunks.map (i, ·)
  attrs : s'.attrs = s.attrs
  promoted : s'.promoted = s.promoted

section
variable (h : Typed i s s') (j : Slot)
include h

theorem Typed.kept : (s'.clients j).fd = (s.clients j).fd ∧
      (s'.clients j).role = (s.clients j).role ∧ (s'.clients j).flags = (s.clients j).flags := by
  by_cases own : j = i
  · rw [own, h.own]
    exact ⟨rfl, rfl, rfl⟩
  · rw [h.others j own]
    exact ⟨rfl, rfl, rfl⟩

theorem Typed.live : s'.live j = s.live j := live_of_fd (h.kept j).1

theorem Typed.role : (s'.clients j).role = (s.clients j).role := (h.kept j).2.1

theorem Typed.writer : s'.Writer j ↔ s.Writer j := by
  rw [Writer, Writer, h.live, h.role]

end

theorem writeToPty_typed (env : Env) (s : Server) (i : Slot) (data : Bytes) : Typed i s (s.writeToPty env i data) :=
  ⟨fun _ _ => rfl, rfl, ⟨[(ptyWriteLoop env data.length s.tick data).2], rfl⟩, rfl, rfl⟩

theorem inqAppend_cases (env : Env) (s : Server) (i : Slot) (data : Bytes) :
    (∃ s₁ : Server, s₁.core = s.core ∧ s.inqAppend env i data = s₁.disconnect env i) ∨
      ∃ cap tick, s.inqAppend env i data =
        (s.setTick tick).modifyClient i fun mc => { mc with inq := mc.inq ++ data, inqCap := cap } := by
  unfold inqAppend
  extract_lets mc len s₁
  split
  · exact .inl ⟨s, rfl, rfl⟩
  · split
    · split
      · exact .inr ⟨_, s.tick + 1, rfl⟩
      · exact .inl ⟨s₁, rfl, rfl⟩
    · exact .inr ⟨mc.inqCap, s.tick, rfl⟩

theorem modifyClient_typed {f : Mclient → Mclient}
    (own : ∀ mc, f mc = { mc with inq := (f mc).inq, inqCap := (f mc).inqCap, inrun := (f mc).inrun }) :
    Typed i s (s.modifyClient i f) := by
  refine ⟨fun j other => modifyClient_of_ne s other f, ?_, ⟨[], by rw [map_nil, append_nil]; rfl⟩, rfl, rfl⟩
  rw [modifyClient_self]
  exact own _

theorem Typed.trans {s''} (h : Typed i s s') (h' : Typed i s' s'') : Typed i s s'' := by
  refine ⟨fun j other => (h'.others j other).trans (h.others j other), ?_, ?_, h'.attrs.trans h.attrs,
    h'.promoted.trans h.promoted⟩
  · rw [h'.own, h.own]
  · obtain ⟨first, wrote⟩ := h.wrote
    obtain ⟨second, wrote'⟩ := h'.wrote
    exact ⟨first ++ second, by rw [wrote', wrote, map_append, append_assoc]⟩

theorem handleInput_cases (env : Env) (s : Server) (i : Slot) (buf : Bytes) :
    Served i s (s.handleInput env i buf) ∨ Typed i s (s.handleInput env i buf) := by
  unfold handleInput
  split
  · rcases inqAppend_cases env s i buf with ⟨s₁, same, dropped⟩ | ⟨cap, tick, grown⟩
    · rw [dropped]
      exact .inl ((served_of_core same).trans (drop_served ..))
    · rw [grown]
      have clock : Typed i s (s.setTick tick) := ⟨fun _ _ => rfl, rfl, ⟨[], (append_nil _).symm⟩, rfl, rfl⟩
      exact .inr (clock.trans (modifyClient_typed fun _ => rfl))
  · exact .inr (writeToPty_typed ..)

theorem handleInputEnd_cases (env : Env) (s : Server) (i : Slot) :
    Served i s (s.handleInputEnd env i) ∨ Typed i s (s.handleInputEnd env i) := by
  unfold handleInputEnd
  split
  · exact .inr ((writeToPty_typed ..).trans (modifyClient_typed fun _ => rfl))
  · exact .inl .refl

theorem msgIsInput_cases {type} (typing : msgIsInput type = true) :
    type = .input ∨ type = .inputBegin ∨ type = .inputEnd := by
  cases type <;> first | exact .inl rfl | exact .inr (.inl rfl) | exact .inr (.inr rfl) | cases typing

theorem handleMessage_typing (env : Env) (s : Server) (i : Slot) {type} (typing : msgIsInput type = true) (buf : Bytes) :
    Served i s (s.handleMessage env i type buf) ∨ Typed i s (s.handleMessage env i type buf) := by
  unfold handleMessage
  split
  · exact .inl (deny_served ..)
  · rcases msgIsInput_cases typing with rfl | rfl | rfl
    · exact handleInput_cases env s i buf
    · exact .inr (modifyClient_typed fun _ => rfl)
    · exact handleInputEnd_cases env s i

theorem roleFor_rule {env} {P : Server → Prop} (asked : UInt8) (ticked : ∀ tick, P { s with tick := tick })
    (demoted : ∀ {t : Server} {o : Slot}, o ≠ i → P t → P (t.announceRole env (disconnect env) o .view)) :
    P (s.roleFor env i asked).1 := by
  have start : P s := ticked s.tick
  unfold roleFor
  split
  · exact start
  · split
    · exact start
    · split
      · dsimp only [demoteOthers, forLive]
        refine foldlRecOn (motive := P) (finRange mclientMax) _ start fun t reached o _ => ?_
        split
        · split
          · exact reached
          · rename_i other
            exact demoted (fun own => other (.inl own)) reached
        · exact reached
      · exact ticked _

/-- A single effect of deciding a role: a client's flags, role or name may change. -/
inductive Turn : Server → Server → Prop
  | micro {s s' : Server} (h : Micro s s') : Turn s s'
  | client (s : Server) (o : Slot) (f : Mclient → Mclient)
      (kept : ∀ mc, (f mc).fd = mc.fd ∧ (f mc).inq = mc.inq ∧ (f mc).inrun = mc.inrun) : Turn s (s.modifyClient o f)

abbrev Turns : Server → Server → Prop := Relation.ReflTransGen Turn

theorem Nested.turns (h : Nested s s') : Turns s s' := h.lift id fun _ _ => .micro

section
variable (env : Env) (s : Server)

theorem announceRole_turns (o : Slot) (role : Role) : Turns s (s.announceRole env (disconnect env) o role) :=
  .head (.client s o (fun mc => { mc with role := role }) fun _ => ⟨rfl, rfl, rfl⟩)
    (announceRole_level (disconnect_level env) s o role).nested.turns

theorem roleFor_turns (i : Slot) (asked : UInt8) : Turns s (s.roleFor env i asked).1 :=
  roleFor_rule asked (fun _ => Nested.turns (nested_of_core rfl)) fun _ reached => reached.trans (announceRole_turns ..)

theorem handleRoleRequest_turns (i : Slot) (buf : Bytes) : Turns s (s.handleRoleRequest env i buf) := by
  cases buf with
  | nil => exact .refl
  | cons asked rest =>
    simp only [handleRoleRequest]
    have flagged := (roleFor_turns env s i asked).tail (.client _ i (fun mc => { mc with flags := asked }) fun _ => ⟨rfl, rfl, rfl⟩)
    have fitted := flagged.tail (.micro (.refit _))
    split
    · exact fitted.trans (announceRole_turns ..)
    · exact fitted

theorem accept_turns (i : Slot) (at_ : IpcAttach) : Turns s (s.accept env i at_) := by
  unfold accept
  extract_lets s₁
  have named : Turns s s₁ := .single (.client s i _ fun _ => ⟨rfl, rfl, rfl⟩)
  have decided := named.trans (roleFor_turns env s₁ i at_.flags)
  have roled := decided.tail (.client _ i (fun mc => { mc with role := (s₁.roleFor env i at_.flags).2 }) fun _ => ⟨rfl, rfl, rfl⟩)
  exact roled.tail (.micro (.refit _))

end

theorem onClientRead_cases (env : Env) (live : s.live i = true) (writable readable : Bool) (wire : Bytes) :
    ∃ s₁, Bookkeeping i s s₁ ∧
      (readable = false ∧ s.onClientRead env i writable readable wire = s₁ ∨
        s.onClientRead env i writable readable wire = s₁.disconnect env i ∨
        readable = true ∧ ∃ type buf rest, ipcMsgRecv clientBufsz wire = some (type, buf, rest) ∧
          s.onClientRead env i writable readable wire = s₁.handleMessage env i type buf) := by
  have flushed : Books (disconnect env) i s (if writable then s.flush env (disconnect env) i else s) := by
    split
    · exact flush_books ..
    · exact ⟨s, .refl i s, .inl rfl⟩
  unfold onClientRead
  obtain ⟨s₁, kept, same | ⟨-, dropped⟩⟩ := flushed
  · refine ⟨s₁, kept, ?_⟩
    rw [same]
    dsimp only
    rw [live_of_core kept.core, live]
    cases readable with
    | false => exact .inl ⟨rfl, if_pos (.inr rfl)⟩
    | true =>
      rw [if_neg (by decide)]
      cases received : ipcMsgRecv clientBufsz wire with
      | none => exact .inr (.inl rfl)
      | some message => exact .inr (.inr ⟨rfl, message.1, message.2.1, message.2.2, rfl, rfl⟩)
  · -- a flush that dropped the client ends the callback
    refine ⟨s₁, kept, .inr (.inl ?_)⟩
    rw [dropped]
    exact if_pos (.inl (disconnect_self env s₁ i))

/-- What an event can do: a role request and an attach are the calls behind `role_for`. -/
inductive Happens (s : Server) (e : Step) : Server → Prop
  | served {s' : Server} {i : Slot} (h : Served i s s') : Happens s e s'
  | typed {s₁ s' : Server} {i : Slot} {writable : Bool} {wire : Bytes} {message : MsgType × Bytes × Bytes}
      (event : e.event = .ready i writable true wire) (received : ipcMsgRecv clientBufsz wire = some message)
      (kept : Bookkeeping i s s₁) (h : Typed i s₁ s') : Happens s e s'
  | asked {s₁ : Server} {i : Slot} {writable : Bool} {wire buf rest : Bytes}
      (event : e.event = .ready i writable true wire)
      (received : ipcMsgRecv clientBufsz wire = some (.roleRequest, buf, rest)) (kept : Bookkeeping i s s₁) :
      Happens s e (s₁.handleRoleRequest e.env i buf)
  | attached {fd : Nat} {trusted : Bool} {wire buf rest : Bytes} (event : e.event = .connect fd trusted wire)
      (received : ipcMsgRecv attachBufsz wire = some (.attach, buf, rest))
      (fresh : ∀ j, s.live j = true → (s.clients j).fd ≠ some fd) : Happens s e (s.attach e.env fd buf)

theorem handleMessage_roleRequest (env : Env) (s : Server) (i : Slot) (buf : Bytes) :
    s.handleMessage env i .roleRequest buf = s.handleRoleRequest env i buf := by
  have accepted : refuses (s.clients i) .roleRequest = false := by simp [refuses, msgMutates]
  rw [handleMessage, if_neg (by rw [accepted]; decide)]

theorem step_happens (s : Server) (e : Step) : Happens { s with tick := 0 } e (s.step e) := by
  obtain ⟨event, env⟩ := e
  unfold Server.step
  extract_lets s₀
  have same : Served (⟨0, mclientMax_pos⟩ : Slot) s₀ s₀ := .refl
  cases event with
  | connect fd trusted wire =>
    dsimp only
    split
    · exact .served same
    · rename_i unused
      unfold onNewClient
      split
      · exact .served same
      · split
        · exact .served same
        · rename_i received
          refine .attached rfl received fun j live own => unused (any_eq_true.mpr ⟨j, ?_, ?_⟩)
          · exact mem_filter.mpr ⟨mem_finRange j, live⟩
          · rw [own]
            exact beq_self_eq_true _
        · exact .served (same.tail (.stop _))
        · exact .served same
  | ready i writable readable wire =>
    dsimp only
    split
    · rename_i live
      obtain ⟨s₁, kept, ⟨-, idle⟩ | dropped | ⟨rfl, type, buf, rest, received, handled⟩⟩ :=
        onClientRead_cases env live writable readable wire
      all_goals have flushed : Served i s₀ s₁ := kept.served
      · rw [idle]
        exact .served flushed
      · rw [dropped]
        exact .served (flushed.trans (drop_served env s₁ i i))
      · rw [handled]
        by_cases request : type = .roleRequest
        · subst request
          rw [handleMessage_roleRequest]
          exact .asked rfl received kept
        · cases typing : msgIsInput type with
          | false => exact .served (flushed.trans (handleMessage_served env s₁ i typing request buf))
          | true =>
            rcases handleMessage_typing env s₁ i typing buf with served | typed
            · exact .served (flushed.trans served)
            · exact .typed rfl received kept typed
    · exact .served same
  | masterRead data => exact .served (onMasterRead_served env s₀ ⟨0, mclientMax_pos⟩ data)
  | signal => exact .served (same.tail (.stop _))
  | cleanup => exact .served (disconnectAll_served env s₀ ⟨0, mclientMax_pos⟩)

end Server

end Lumimux.Mserver

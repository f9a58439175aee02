import Lumimux.Mserver.SingleWriter

/-!
# What a view-only client can do

`on_client_read` refuses what writes to the PTY or changes an attribute.
-/

namespace Lumimux.Mserver
open Attr Ipc Lib Vt Function

namespace Server

structure Unmeddled (free : Fin attrTxnMax → Prop) (s s' : Server) : Prop where
  outside : SameOutside s s'
  fds : ∀ j, s'.live j = true → (s'.clients j).fd = (s.clients j).fd
  txns : ∀ k fd, (s.attrs.txns k).inUse = true → (s.attrs.txns k).clientFd = some fd → ¬free k →
    (∀ j, s.live j = true → (s.clients j).fd = some fd → s'.live j = true) → s'.attrs.txns k = s.attrs.txns k

namespace Unmeddled

variable {free : Fin attrTxnMax → Prop} {s s' s'' : Server}

theorem refl (s : Server) : Unmeddled free s s := ⟨.refl s, fun _ _ => rfl, fun _ _ _ _ _ _ => rfl⟩

theorem live (h : Unmeddled free s s') {j} (live : s'.live j = true) : s.live j = true :=
  (live_of_fd (h.fds j live)).symm.trans live

theorem trans (h : Unmeddled free s s') (h' : Unmeddled free s' s'') : Unmeddled free s s'' := by
  refine ⟨h.outside.trans h'.outside, fun j live => (h'.fds j live).trans (h.fds j (h'.live live)),
    fun k fd inUse owner spared stays => ?_⟩
  have first : s'.attrs.txns k = s.attrs.txns k :=
    h.txns k fd inUse owner spared fun j live own => h'.live (stays j live own)
  refine (h'.txns k fd (first ▸ inUse) (first ▸ owner) spared fun j live own => ?_).trans first
  exact stays j (h.live live) ((h.fds j live).symm.trans own)

theorem of_nested (h : Nested s s') : Unmeddled free s s' :=
  ⟨h.outside, fun _ live => (h.kept live).fd, fun _ _ _ owner _ stays => h.txn owner stays⟩

theorem of_core (same : s'.core = s.core) : Unmeddled free s s' := of_nested (nested_of_core same)

theorem modifyClient (i : Slot) {f : Mclient → Mclient} (kept : ∀ mc, (f mc).fd = mc.fd) :
    Unmeddled free s (s.modifyClient i f) := by
  refine ⟨⟨rfl, rfl, rfl, rfl⟩, fun j _ => ?_, fun _ _ _ _ _ _ => rfl⟩
  by_cases own : j = i
  · rw [own, modifyClient_self, kept]
  · rw [modifyClient_of_ne s own]

theorem of_turns (h : Turns s s') : Unmeddled free s s' := by
  induction h with
  | refl => exact .refl s
  | tail _ turn reached =>
    refine reached.trans ?_
    cases turn with
    | micro h => exact .of_nested (.single h)
    | client o f kept => exact .modifyClient o fun mc => (kept mc).1

theorem store {attrs} (entries : attrs.entries = s.attrs.entries)
    (txns : ∀ k, (s.attrs.txns k).inUse = true → ¬free k → attrs.txns k = s.attrs.txns k) :
    Unmeddled free s { s with attrs := attrs } :=
  ⟨⟨rfl, rfl, entries, rfl⟩, fun _ _ => rfl, fun k _ inUse _ spared _ => txns k inUse spared⟩

end Unmeddled

section Handlers

variable {free : Fin attrTxnMax → Prop} (env : Env) (s : Server) (i : Slot)

theorem send_unmeddled (j : Slot) (type : MsgType) (payload : Bytes) :
    Unmeddled free s (s.enqueue env (disconnect env) j type payload) :=
  .of_nested (send_nested env s j type payload)

theorem deny_unmeddled (why : String) : Unmeddled free s (s.deny env i why) := by
  unfold deny
  extract_lets now s₁
  have asked : Unmeddled free s s₁ := .of_core rfl
  split
  · exact asked
  · have noted : Unmeddled free s₁ (s₁.modifyClient i fun mc => { mc with lastDeny := now }) :=
      .modifyClient i fun _ => rfl
    exact asked.trans (noted.trans (send_unmeddled ..))

theorem sendReplay_unmeddled : Unmeddled free s (s.sendReplay env i) :=
  List.foldlRecOn (motive := Unmeddled free s) _ _ (.refl s) fun _ reached _ _ => reached.trans (send_unmeddled ..)

theorem resizeToFit_unmeddled : Unmeddled free s s.resizeToFit := .of_nested (.single (.refit s))

theorem handleWinResize_unmeddled (buf : Bytes) : Unmeddled free s (s.handleWinResize i buf) := by
  unfold handleWinResize
  split
  · exact .refl s
  · rename_i sz _
    split
    · have voted : Unmeddled free s (s.modifyClient i fun mc =>
          { mc with rows := sz.rows, cols := sz.cols, cellPw := sz.cellPw, cellPh := sz.cellPh }) :=
        .modifyClient i fun _ => rfl
      exact voted.trans (resizeToFit_unmeddled _)
    · exact .refl s

end Handlers

def Meddles (s : Server) (type : MsgType) (buf : Bytes) (k : Fin attrTxnMax) : Prop :=
  ∃ ak, ipcAttrKeyDecode buf = some ak ∧ s.attrs.findTxn ak.txnId = some k ∧
    (type = .attrTxnRollback ∨
      type = .attrGet ∧ (s.attrs.txns k).readSet.any (·.key == wireString attrMaxKeyLen ak.key) = false ∧
        (s.attrs.txns k).readSet.length < attrTxnKeysMax)

variable {free : Fin attrTxnMax → Prop} (env : Env) (s : Server) (i : Slot)

theorem replyEncoded_unmeddled (type : MsgType) (payload : Option Bytes) :
    Unmeddled free s (s.replyEncoded env i type payload) := by
  cases payload with
  | none => exact .refl s
  | some payload => exact send_unmeddled ..

theorem txnBegin_spares (st : AttrStore) (fd : Option Nat) : (st.txnBegin fd).1.entries = st.entries ∧
      ∀ k, (st.txns k).inUse = true → (st.txnBegin fd).1.txns k = st.txns k := by
  unfold AttrStore.txnBegin
  split
  · rename_i k₀ found
    refine ⟨rfl, fun k inUse => update_of_ne ?_ ..⟩
    rintro rfl
    have unused := List.find?_some found
    rw [inUse] at unused
    cases unused
  · exact ⟨rfl, fun _ _ => rfl⟩

theorem txnRollback_spares (st : AttrStore) (txnId : Nat) : (st.txnRollback txnId).entries = st.entries ∧
      ∀ k, st.findTxn txnId ≠ some k → (st.txnRollback txnId).txns k = st.txns k := by
  unfold AttrStore.txnRollback
  split
  · rename_i k₀ found
    refine ⟨rfl, fun k spared => update_of_ne ?_ ..⟩
    rintro rfl
    exact spared found
  · exact ⟨rfl, fun _ _ => rfl⟩

theorem get_spares (st : AttrStore) (txnId : Nat) (key : Bytes) (valueMax : Nat) :
    (st.get txnId key valueMax).1.entries = st.entries ∧
      ∀ k, ¬(st.findTxn txnId = some k ∧ (st.txns k).readSet.any (·.key == key) = false ∧
          (st.txns k).readSet.length < attrTxnKeysMax) →
        (st.get txnId key valueMax).1.txns k = st.txns k := by
  unfold AttrStore.get
  split
  · exact ⟨rfl, fun _ _ => rfl⟩
  · rename_i k₀ found
    split
    · exact ⟨rfl, fun _ _ => rfl⟩
    · rename_i touched touch
      refine ⟨rfl, fun k spared => ?_⟩
      by_cases named : k = k₀
      · subst named
        -- the key was touched before, so the first touch stays
        have same : touched = st.txns k := by
          unfold AttrStore.touch AttrTxn.touchRead at touch
          split at touch
          · exact (Option.some.inj touch).symm
          · rename_i fresh
            split at touch
            · cases touch
            · rename_i room
              exact absurd ⟨found, by simpa using fresh, by omega⟩ spared
        rw [same]
        exact update_self ..
      · exact update_of_ne named ..

theorem replyError_unmeddled (why : String) : Unmeddled free s (s.replyError env i why) := send_unmeddled ..

theorem handleAttrMsg_unmeddled {type} (viewer : msgMutates type = false) (buf : Bytes) :
    Unmeddled (s.Meddles type buf) s (s.handleAttrMsg env i type buf) := by
  unfold handleAttrMsg
  split
  · have begun : ∀ attrs id, s.attrs.txnBegin (s.clients i).fd = (attrs, id) →
        Unmeddled (s.Meddles .attrTxnBegin buf) s { s with attrs := attrs } := by
      intro attrs id eq
      have spares := txnBegin_spares s.attrs (s.clients i).fd
      rw [eq] at spares
      exact .store spares.1 fun k inUse _ => spares.2 k inUse
    split
    · rename_i eq
      exact (begun _ _ eq).trans (replyEncoded_unmeddled ..)
    · rename_i eq
      exact (begun _ _ eq).trans (replyError_unmeddled ..)
  · cases viewer
  · split
    · exact replyError_unmeddled ..
    · rename_i ak decoded
      have spares := txnRollback_spares s.attrs ak.txnId
      have rolled : Unmeddled (s.Meddles .attrTxnRollback buf) s { s with attrs := s.attrs.txnRollback ak.txnId } :=
        .store spares.1 fun k _ spared => spares.2 k fun named => spared ⟨ak, decoded, named, .inl rfl⟩
      exact rolled.trans (replyEncoded_unmeddled ..)
  · cases viewer
  · cases viewer
  · split
    · exact replyError_unmeddled ..
    · rename_i ak decoded
      have read : ∀ attrs value, s.attrs.get ak.txnId (wireString attrMaxKeyLen ak.key) attrMaxValueLen = (attrs, value) →
          Unmeddled (s.Meddles .attrGet buf) s { s with attrs := attrs } := by
        intro attrs value eq
        have spares := get_spares s.attrs ak.txnId (wireString attrMaxKeyLen ak.key) attrMaxValueLen
        rw [eq] at spares
        exact .store spares.1 fun k _ spared => spares.2 k fun ⟨named, fresh, room⟩ =>
          spared ⟨ak, decoded, named, .inr ⟨rfl, fresh, room⟩⟩
      dsimp only
      split
      · rename_i eq
        exact (read _ _ eq).trans (replyError_unmeddled ..)
      · rename_i eq
        exact (read _ _ eq).trans (replyEncoded_unmeddled ..)
  · split
    · exact replyError_unmeddled ..
    · split
      · exact replyError_unmeddled ..
      · exact replyEncoded_unmeddled ..
  · exact .refl s

/-- A client with role VIEW and without INJECT. -/
def Viewer (mc : Mclient) : Prop := mc.role = .view ∧ hasFlag mc.flags attachFInject = false
  deriving Decidable

theorem Viewer.refuses {mc} (viewer : Viewer mc) (type : MsgType) : refuses mc type = msgMutates type := by
  rw [Server.refuses, viewer.1, viewer.2]
  simp

theorem handleMessage_unmeddled (viewer : Viewer (s.clients i)) (type : MsgType) (buf : Bytes) :
    Unmeddled (s.Meddles type buf) s (s.handleMessage env i type buf) := by
  unfold handleMessage
  rw [viewer.refuses]
  split
  · exact deny_unmeddled ..
  · rename_i harmless
    rw [Bool.not_eq_true] at harmless
    split
    all_goals first
      | exact absurd harmless (by decide)
      | exact handleWinResize_unmeddled ..
      | exact sendReplay_unmeddled ..
      | exact .of_turns (handleRoleRequest_turns ..)
      | exact .of_nested (disconnect_nested env s i)
      | exact handleAttrMsg_unmeddled env s i rfl buf
      | exact .refl s

namespace Unhurt

variable {env s i} {t : Server} {room : Nat} (steady : env.Steady)
include steady

theorem deny (h : Unhurt env i s room t) (why : String) : Unhurt env i s room (t.deny env i why) := by
  unfold Server.deny
  extract_lets now t₁
  have asked : Unhurt env i s room t₁ := h.keep fun _ => ⟨rfl, rfl, rfl⟩
  split
  · exact asked
  · have noted : Unhurt env i s room (t₁.modifyClient i fun mc => { mc with lastDeny := now }) :=
      asked.modifyClient i fun _ => ⟨rfl, rfl, rfl⟩
    exact (noted.enqueue_own steady ..).1

theorem sendReplay (h : Unhurt env i s room t) : Unhurt env i s room (t.sendReplay env i) :=
  List.foldlRecOn (motive := Unhurt env i s room) _ _ h fun _ reached _ _ => (reached.enqueue_own steady ..).1

omit steady in
theorem store (h : Unhurt env i s room t) (attrs : AttrStore) : Unhurt env i s room { t with attrs := attrs } :=
  h.keep fun _ => ⟨rfl, rfl, rfl⟩

omit steady in
theorem handleWinResize (h : Unhurt env i s room t) (buf : Bytes) : Unhurt env i s room (t.handleWinResize i buf) := by
  unfold Server.handleWinResize
  split
  · exact h
  · split
    · refine Unhurt.resizeToFit ?_
      exact h.modifyClient i fun _ => ⟨rfl, rfl, rfl⟩
    · exact h

theorem demoteOthers (h : Unhurt env i s (room + roleCost * mclientMax) t) : Unhurt env i s room (t.demoteOthers env i) := by
  refine forLive_budget (P := Unhurt env i s) (fun _ _ kept => kept.mono (Nat.le_add_right _ roleCost)) ?_ h
  intro budget t' o _ kept
  split
  · exact kept.mono (Nat.le_add_right ..)
  · exact (kept.announceRole steady o .view).1

theorem roleFor (h : Unhurt env i s (room + roleCost * mclientMax) t) (asked : UInt8) :
    Unhurt env i s room (t.roleFor env i asked).1 := by
  have spared : Unhurt env i s room t := h.mono (Nat.le_add_right ..)
  unfold Server.roleFor
  split
  · exact spared
  · split
    · exact spared
    · split
      · exact h.demoteOthers steady
      · exact spared.keep fun _ => ⟨rfl, rfl, rfl⟩

theorem handleRoleRequest (h : Unhurt env i s (room + roleCost + roleCost * mclientMax) t) (buf : Bytes) :
    Unhurt env i s room (t.handleRoleRequest env i buf) := by
  cases buf with
  | nil => exact h.mono ((Nat.le_add_right ..).trans (Nat.le_add_right ..))
  | cons asked rest =>
    simp only [Server.handleRoleRequest]
    have flagged : Unhurt env i s (room + roleCost)
        ((t.roleFor env i asked).1.modifyClient i fun mc => { mc with flags := asked }) :=
      (h.roleFor steady asked).modifyClient i fun _ => ⟨rfl, rfl, rfl⟩
    split
    · exact (flagged.resizeToFit.announceRole steady i _).1
    · exact flagged.resizeToFit.mono (Nat.le_add_right ..)

theorem handleAttrMsg (h : Unhurt env i s room t) (type : MsgType) (buf : Bytes) :
    Unhurt env i s room (t.handleAttrMsg env i type buf) := by
  obtain ⟨attrs, same | ⟨_, _, answered⟩⟩ := handleAttrMsg_answered env t i type buf
  · rw [same]
    exact h.store attrs
  · rw [answered]
    exact ((h.store attrs).enqueue_own steady ..).1

end Unhurt

theorem handleMessage_stays {env s i} (viewer : Viewer (s.clients i)) (live : s.live i = true) (calm : Calm env i s)
    (type : MsgType) (buf : Bytes) (j : Slot) (other : j ≠ i) (liveJ : s.live j = true) :
    (s.handleMessage env i type buf).live j = true := by
  have enough : Unhurt env i s (0 + roleCost + roleCost * mclientMax) s := calm.unhurt.mono (by decide)
  have start : Unhurt env i s 0 s := enough.mono (Nat.zero_le _)
  suffices unhurt : Unhurt env i s 0 (s.handleMessage env i type buf) from unhurt.stays j other liveJ
  unfold handleMessage
  rw [viewer.refuses]
  split
  · exact start.deny calm.steady _
  · rename_i harmless
    rw [Bool.not_eq_true] at harmless
    split
    all_goals first
      | exact absurd harmless (by decide)
      | exact start.handleWinResize _
      | exact start.sendReplay calm.steady
      | exact enough.handleRoleRequest calm.steady _
      | exact start.disconnect calm.steady live
      | exact start.handleAttrMsg calm.steady ..
      | exact start

theorem Meddles.of_core {s s' : Server} (same : s'.core = s.core) {type : MsgType} {buf : Bytes}
    {k : Fin attrTxnMax} (h : s'.Meddles type buf k) : s.Meddles type buf k := by
  have attrs : s'.attrs = s.attrs := (congrArg Server.attrs same :)
  rwa [Meddles, attrs] at h

theorem Viewer.of_core {s s' : Server} (same : s'.core = s.core) {i : Slot} (viewer : Viewer (s.clients i)) :
    Viewer (s'.clients i) := by
  have own : (s'.clients i).core = (s.clients i).core := (congrArg (fun s : Server => s.clients i) same :)
  have role : (s'.clients i).role = (s.clients i).role := (congrArg Mclient.role own :)
  have flags : (s'.clients i).flags = (s.clients i).flags := (congrArg Mclient.flags own :)
  rwa [Viewer, role, flags]

section Read

variable {env : Env} {s : Server} {i : Slot} (viewer : Viewer (s.clients i)) (live : s.live i = true)
  (writable readable : Bool) (wire : Bytes)
include viewer live

theorem onClientRead_unmeddled {free : Fin attrTxnMax → Prop}
    (named : ∀ type buf rest k, ipcMsgRecv clientBufsz wire = some (type, buf, rest) → s.Meddles type buf k → free k) :
    Unmeddled free s (s.onClientRead env i writable readable wire) := by
  obtain ⟨s₁, kept, ⟨-, idle⟩ | dropped | ⟨-, type, buf, rest, received, handled⟩⟩ :=
    onClientRead_cases env live writable readable wire
  · rw [idle]
    exact .of_core kept.core
  · rw [dropped]
    exact (Unmeddled.of_core kept.core).trans (.of_nested (disconnect_nested env s₁ i))
  · rw [handled]
    have message := handleMessage_unmeddled env s₁ i (viewer.of_core kept.core) type buf
    refine (Unmeddled.of_core kept.core).trans ⟨message.outside, message.fds, fun k fd inUse owner spared => ?_⟩
    exact message.txns k fd inUse owner fun meddles => spared (named type buf rest k received (meddles.of_core kept.core))

theorem onClientRead_stays (calm : Calm env i s) (j : Slot) (other : j ≠ i) (liveJ : s.live j = true) :
    (s.onClientRead env i writable readable wire).live j = true := by
  obtain ⟨s₁, kept, ⟨-, idle⟩ | dropped | ⟨-, type, buf, rest, received, handled⟩⟩ :=
    onClientRead_cases env live writable readable wire
  all_goals
    have live₁ : s₁.live i = true := (live_of_core kept.core i).trans live
    have liveJ₁ : s₁.live j = true := (live_of_core kept.core j).trans liveJ
  · rwa [idle]
  · rw [dropped]
    exact ((calm.after kept).unhurt.disconnect calm.steady live₁).stays j other liveJ₁
  · rw [handled]
    exact handleMessage_stays (viewer.of_core kept.core) live₁ (calm.after kept) type buf j other liveJ₁

end Read

def FdsDistinct (s : Server) : Prop := ∀ i j, s.live i = true → (s.clients i).fd = (s.clients j).fd → i = j

def FdsKept (s s' : Server) : Prop := ∀ j, s'.live j = true → (s'.clients j).fd = (s.clients j).fd

theorem FdsKept.distinct {s s'} (kept : FdsKept s s') (distinct : s.FdsDistinct) : s'.FdsDistinct := by
  intro i j live same
  have liveJ : s'.live j = true := by
    rw [Server.live, Mclient.live, ← same]
    exact live
  refine distinct i j ((live_of_fd (kept i live)).symm.trans live) ?_
  rw [← kept i live, ← kept j liveJ, same]

theorem Served.fdsKept {i s s'} (h : Served i s s') : FdsKept s s' := fun _ live => (h.seat live).fd

theorem Typed.fdsKept {i s s'} (h : Typed i s s') : FdsKept s s' := fun j _ => (h.kept j).1

theorem Turns.fdsKept {s s'} (h : Turns s s') : FdsKept s s' := by
  have unmeddled : Unmeddled (fun _ => False) s s' := .of_turns h
  exact unmeddled.fds

theorem attach_fdsDistinct (distinct : s.FdsDistinct) {fd} (fresh : ∀ j, s.live j = true → (s.clients j).fd ≠ some fd)
    (buf : Bytes) : (s.attach env fd buf).FdsDistinct := by
  unfold attach
  split
  · exact distinct
  · rename_i s₁ m claimed
    obtain ⟨-, own, -, others⟩ := alloc_cases claimed
    have unused : ∀ j, j ≠ m → (s₁.clients j).fd ≠ some fd := by
      intro j other same
      rw [others j other] at same
      exact fresh j (by rw [Server.live, Mclient.live, same]; rfl) same
    have claimedDistinct : s₁.FdsDistinct := by
      intro i j live same
      by_cases atI : i = m
      · by_contra apart
        rw [atI, own] at same
        exact unused j (fun atJ => apart (atI.trans atJ.symm)) same.symm
      · by_cases atJ : j = m
        · rw [atJ, own] at same
          exact absurd same (unused i atI)
        · rw [others i atI, others j atJ] at same
          rw [Server.live, others i atI] at live
          exact distinct i j live same
    refine (welcome_served env _ m).fdsKept.distinct ?_
    split
    · exact (Turns.fdsKept (accept_turns env s₁ m _)).distinct claimedDistinct
    · exact claimedDistinct

end Server

theorem step_fdsDistinct {s : Server} (distinct : s.FdsDistinct) (e : Step) : (s.step e).FdsDistinct := by
  have distinct₀ : Server.FdsDistinct { s with tick := 0 } := distinct
  have happens := s.step_happens e
  generalize s.step e = s' at happens ⊢
  cases happens with
  | served h => exact h.fdsKept.distinct distinct₀
  | typed _ _ kept h => exact h.fdsKept.distinct (kept.served.fdsKept.distinct distinct₀)
  | asked _ _ kept =>
    exact (Server.Turns.fdsKept (Server.handleRoleRequest_turns ..)).distinct (kept.served.fdsKept.distinct distinct₀)
  | attached _ _ fresh => exact Server.attach_fdsDistinct e.env _ distinct₀ fresh _

theorem run_fdsDistinct (window : Emu) (entries : List AttrEntry) (nextGen : Nat) (steps : List Step) :
    ((Server.start window entries nextGen).run steps).FdsDistinct := by
  refine run_invariant_rule (I := Server.FdsDistinct) (fun _ e distinct => step_fdsDistinct distinct e) ?_ steps
  intro i j live
  cases live

/-- Handling an event of client `i` wrote nothing to the PTY, changed no committed entry and touched
no open transaction of another client. -/
structure Inert (i : Slot) (s s' : Server) : Prop where
  ptyOut : s'.ptyOut = s.ptyOut
  replies : s'.window.vt.replies = s.window.vt.replies
  entries : s'.attrs.entries = s.attrs.entries
  txns : ∀ j k, j ≠ i → s.live j = true → (s.attrs.txns k).inUse = true →
    (s.attrs.txns k).clientFd = (s.clients j).fd → s'.attrs.txns k = s.attrs.txns k

/-- The condition on a viewer's message: it names no transaction of another client in a rollback or in
a get of a new key, and while others have transactions open, none of them has to be dropped. -/
structure LeavesAlone (env : Env) (i : Slot) (wire : Bytes) (s : Server) : Prop where
  named : ∀ type buf rest k, ipcMsgRecv Server.clientBufsz wire = some (type, buf, rest) → s.Meddles type buf k →
    (s.attrs.txns k).clientFd = (s.clients i).fd
  calm : ∀ j k, j ≠ i → s.live j = true → (s.attrs.txns k).inUse = true →
    (s.attrs.txns k).clientFd = (s.clients j).fd → s.Calm env i

/-- **View-only clients are inert.** In every reachable state, whatever a connected client with role
VIEW and without INJECT sends under the condition. -/
theorem run_viewer_inert (window : Emu) (entries : List AttrEntry) (nextGen : Nat) (steps : List Step) (env : Env)
    (i : Slot) (writable readable : Bool) (wire : Bytes)
    (live : ((Server.start window entries nextGen).run steps).live i = true)
    (viewer : Server.Viewer (((Server.start window entries nextGen).run steps).clients i))
    (leaves : LeavesAlone env i wire ((Server.start window entries nextGen).run steps)) :
    Inert i ((Server.start window entries nextGen).run steps)
      (((Server.start window entries nextGen).run steps).step ⟨.ready i writable readable wire, env⟩) := by
  have distinct := run_fdsDistinct window entries nextGen steps
  generalize (Server.start window entries nextGen).run steps = s at live viewer leaves distinct ⊢
  have handled : s.step ⟨.ready i writable readable wire, env⟩ =
      Server.onClientRead env { s with tick := 0 } i writable readable wire := if_pos live
  have unmeddled : Server.Unmeddled (fun k => (s.attrs.txns k).clientFd = (s.clients i).fd) { s with tick := 0 }
      (Server.onClientRead env { s with tick := 0 } i writable readable wire) :=
    Server.onClientRead_unmeddled (s := { s with tick := 0 }) viewer live writable readable wire leaves.named
  rw [handled]
  refine ⟨unmeddled.outside.ptyOut, unmeddled.outside.replies, unmeddled.outside.entries,
    fun j k other liveJ inUse owner => ?_⟩
  have calm := (leaves.calm j k other liveJ inUse owner).tick 0
  obtain ⟨fd, own⟩ := Option.isSome_iff_exists.mp liveJ
  refine unmeddled.txns k fd inUse (owner.trans own) (fun mine => ?_) fun j' liveJ' own' => ?_
  · exact other (distinct j i liveJ (owner.symm.trans mine))
  · have same : j = j' := distinct j j' liveJ (own.trans (Eq.symm own'))
    exact Server.onClientRead_stays (s := { s with tick := 0 }) viewer live writable readable wire calm j' (same ▸ other) liveJ'

def watched : List Step :=
  [.attaching 10 0 .willing, .attaching 11 attachFView .willing, .message ⟨0, mclientMax_pos⟩ .attrTxnBegin [] .willing]

theorem watched_viewer_inert : Inert ⟨1, by decide⟩ ((Server.start (Emu.new 1 1 0) [] 1).run watched)
      (((Server.start (Emu.new 1 1 0) [] 1).run watched).step
        ⟨.ready ⟨1, by decide⟩ false true (ipcMsgFrame .input (ascii "x")), .willing⟩) := by
  refine run_viewer_inert _ _ _ _ _ _ _ _ _ (by decide +kernel) (by decide +kernel) ⟨?_, fun _ _ _ _ _ _ => ?_⟩
  · rintro type buf rest k received ⟨_, -, -, names⟩
    have typed : ipcMsgRecv Server.clientBufsz (ipcMsgFrame .input (ascii "x")) = some (.input, ascii "x", []) := by
      decide +kernel
    rw [typed, Option.some.injEq, Prod.mk.injEq] at received
    rw [← received.1] at names
    rcases names with rollback | ⟨get, -⟩
    · cases rollback
    · cases get
  · exact Server.calm_of_idle Env.willing_steady (by decide) (by decide +kernel)

theorem viewer_rolls_back :
    let s := (Server.start (Emu.new 1 1 0) [] 1).run watched
    s.live ⟨1, by decide⟩ = true ∧ Server.Viewer (s.clients ⟨1, by decide⟩) ∧
      ¬Inert ⟨1, by decide⟩ s (s.step (.message ⟨1, by decide⟩ .attrTxnRollback
        ((msEncode ipcMaxPayload [msWriteU32 1 1]).getD []) .willing)) := by
  refine ⟨by decide +kernel, by decide +kernel, fun inert => ?_⟩
  have same := inert.txns ⟨0, by decide⟩ ⟨0, by decide⟩ (by decide) (by decide +kernel) (by decide +kernel)
    (by decide +kernel)
  exact absurd (congrArg AttrTxn.inUse same) (by decide +kernel)

end Lumimux.Mserver

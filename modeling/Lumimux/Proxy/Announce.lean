import Lumimux.Net.Carriers
import Lumimux.Proxy.Relay
import Lumimux.Utf8.Truncation

/-!
# The window list (`cmd/proxy/proxy.c`, `cmd/net-proxy/net_proxy.c`, `cmd/attach/attach.c`)

A proxy announces its windows in one message of at most 4096 bytes, a record for each; the client reads them into tables
of 32 places.
-/

namespace Lumimux.Announce

open Lib Ipc Net Utf8 List Option
open Relay (Pconn)
open Proxy (pconnMax)

def be16 (n : Nat) : Bytes := [UInt8.ofNat (n / 2 ^ 8), UInt8.ofNat n]

def readBe16 (a b : UInt8) : Nat := a.toNat * 2 ^ 8 + b.toNat

def titleLen (pc : Pconn) : UInt8 := UInt8.ofNat pc.title.length

def record (pc : Pconn) : Bytes :=
  be32 pc.id.toNat ++ be16 pc.rows.toNat ++ be16 pc.cols.toNat ++ [titleLen pc] ++ pc.title.take (titleLen pc).toNat

def encodeRecords : Nat → List Pconn → Option Bytes
  | _, [] => some []
  | left, pc :: rest =>
    let need := 4 + 2 + 2 + 1 + (titleLen pc).toNat
    if left < need then none else (encodeRecords (left - need) rest).map (record pc ++ ·)

def encodeReadyPayload (pconns : List Pconn) (bufsz : Nat) : Option Bytes :=
  if bufsz < 2 then none else (encodeRecords (bufsz - 2) pconns).map (be16 pconns.length ++ ·)

def readyBufsz : Nat := 4096

def proxyReady : Nat := MsgType.proxyReady.code

def announceSsh (pconns : List Pconn) (ios : List Io) : Option Bytes :=
  (encodeReadyPayload pconns readyBufsz).map fun payload => (Stream.proxyMsgSend ios 0 proxyReady payload).1

def announceNet (pconns : List Pconn) (n : Nct) (env : SendEnv) : Option Bytes :=
  (encodeReadyPayload pconns readyBufsz).bind fun payload =>
    let sent := proxyMsgXsend n env true 0 proxyReady payload
    if sent.2.2 then some sent.2.1 else none

def clientWinMax : Nat := 32

structure Mconn where
  pid : Nat
  title : Bytes
  deriving DecidableEq, Repr

structure Cwin where
  id : Nat
  rows : Nat
  cols : Nat
  deriving DecidableEq, Repr

structure Client where
  mconns : List Mconn
  cwins : List Cwin
  deriving DecidableEq, Repr

def titleBufsz : Nat := 128

def Client.mconnAdd (c : Client) (pid : Nat) (title : Bytes) : Client :=
  if c.mconns.length ≥ clientWinMax then c
  else { c with mconns := c.mconns ++ [⟨pid, title.take (utf8Trunc title titleBufsz)⟩] }

def Client.cwinAddSized (c : Client) (id rows cols : Nat) : Client :=
  if c.cwins.length ≥ clientWinMax then c else { c with cwins := c.cwins ++ [⟨id, rows, cols⟩] }

def populateLoop : Nat → Bytes → Client → Client
  | 0, _, c => c
  | count + 1, w₀ :: w₁ :: w₂ :: w₃ :: r₀ :: r₁ :: c₀ :: c₁ :: tlen :: rest, c =>
    if rest.length < tlen.toNat then c
    else
      let wid := readBe32 w₀ w₁ w₂ w₃
      let title := rest.take (min tlen.toNat (titleBufsz - 1))
      populateLoop count (rest.drop tlen.toNat)
        ((c.mconnAdd wid title).cwinAddSized wid (readBe16 r₀ r₁) (readBe16 c₀ c₁))
  | _ + 1, _, c => c

def proxyPopulateWindows : Bytes → Client
  | a :: b :: rest => populateLoop (readBe16 a b) rest ⟨[], []⟩
  | _ => ⟨[], []⟩

def discoverBufsz : Nat := 4096

def mconnDiscoverRemote (ios : List Io) (wire : Bytes) : Option Client :=
  match Stream.proxyMsgRecv discoverBufsz ios wire with
  | .report m _ _ =>
    if m.head.getD 1 0 ≠ proxyReady ∨ m.payload.length < 2 then none else some (proxyPopulateWindows m.payload)
  | .failed => none
  | .ended => none
  | .waiting => none

def readList (m : Message) : Option Client :=
  match proxyMsgXdecode m.payload with
  | none => none
  | some (wid, payload) =>
    if wid ≠ 0 ∨ m.type ≠ proxyReady ∨ payload.length < 2 then none else some (proxyPopulateWindows payload)

def mconnDiscoverRemoteNet (rounds : List Round) : Option Client :=
  match (nctRecv discoverBufsz ⟨[], false⟩ rounds).2.1 with
  | .message m => readList m
  | .eof => none
  | .error => none
  | .waiting => none

/-- The title fits its field and has no terminator. -/
structure Fits (pc : Pconn) : Prop where
  length : pc.title.length ≤ 127
  nonzero : ∀ b ∈ pc.title, b ≠ 0

def Client.listing (pconns : List Pconn) : Client where
  mconns := pconns.map fun pc => ⟨pc.id.toNat, pc.title⟩
  cwins := pconns.map fun pc => ⟨pc.id.toNat, pc.rows.toNat, pc.cols.toNat⟩

def Moving (ios : List Io) : Prop := 12 + readyBufsz ≤ Io.moving ios

structure Brings (rounds : List Round) (wire : Bytes) : Prop where
  fed : ∀ r ∈ rounds, ∃ pieces, r = .fed false pieces
  bytes : rounds.flatMap Round.bytes = wire

/-- Over either carrier the client finds the windows announced. -/
structure Intact (pconns : List Pconn) : Prop where
  ssh : ∀ wios rios, Moving wios → Moving rios →
    (announceSsh pconns wios).bind (mconnDiscoverRemote rios) = some (.listing pconns)
  net : ∀ n env, Willing n env → ∃ wire, announceNet pconns n env = some wire ∧
    ∀ rounds, Brings rounds wire → mconnDiscoverRemoteNet rounds = some (.listing pconns)

def listSize (pconns : List Pconn) : Nat := 2 + (pconns.map fun pc => 9 + pc.title.length).sum

/-- `mconn_add` keeps the title: it is well-formed and has no replacement character (`titleKept_iff`). -/
def TitleKept (pc : Pconn) : Prop := pc.title.take (utf8Trunc pc.title titleBufsz) = pc.title
  deriving Decidable

theorem titleKept_iff {pc : Pconn} (fits : Fits pc) :
    TitleKept pc ↔ ∃ t : Text, pc.title = t.bytes ∧ runeError ∉ t.chars := by
  rw [← trunc_whole_iff fits.nonzero (Nat.lt_succ_of_le fits.length), TitleKept, take_eq_self_iff]
  exact Iff.rfl

variable {pc : Pconn} {pconns : List Pconn}

theorem titleLen_toNat (fits : Fits pc) : (titleLen pc).toNat = pc.title.length := by
  have := fits.length
  rw [titleLen, UInt8.toNat_ofNat', Nat.mod_eq_of_lt (by omega)]

theorem length_record (fits : Fits pc) : (record pc).length = 9 + pc.title.length := by
  rw [record, titleLen_toNat fits, take_length]
  simp only [be32, be16, length_append, length_cons, length_nil]

theorem length_records (fits : ∀ pc ∈ pconns, Fits pc) : 2 + (pconns.flatMap record).length = listSize pconns := by
  rw [listSize, length_flatMap]
  congr 2
  exact map_congr_left fun pc member => length_record (fits pc member)

theorem encodeRecords_eq (left : Nat) (fits : ∀ pc ∈ pconns, Fits pc) : encodeRecords left pconns =
      if (pconns.flatMap record).length ≤ left then some (pconns.flatMap record) else none := by
  induction pconns generalizing left with
  | nil => exact (if_pos (Nat.zero_le left)).symm
  | cons pc rest ih =>
    have here := fits pc mem_cons_self
    have length := length_record here
    rw [encodeRecords, flatMap_cons, length_append, titleLen_toNat here]
    by_cases room : left < 4 + 2 + 2 + 1 + pc.title.length
    · rw [if_pos room, if_neg (by omega)]
    · rw [if_neg room, ih _ fun pc' member => fits pc' (mem_cons_of_mem pc member)]
      by_cases more : (rest.flatMap record).length ≤ left - (4 + 2 + 2 + 1 + pc.title.length)
      · rw [if_pos more, if_pos (by omega), map_some]
      · rw [if_neg more, if_neg (by omega), map_none]

def listing (pconns : List Pconn) : Bytes := be16 pconns.length ++ pconns.flatMap record

theorem encodeReadyPayload_eq (fits : ∀ pc ∈ pconns, Fits pc) :
    encodeReadyPayload pconns readyBufsz = if listSize pconns ≤ readyBufsz then some (listing pconns) else none := by
  have size := length_records fits
  have bufsz : readyBufsz = 4096 := rfl
  rw [encodeReadyPayload, if_neg (by decide), encodeRecords_eq _ fits]
  by_cases room : listSize pconns ≤ readyBufsz
  · rw [if_pos room, if_pos (by omega), map_some]
    rfl
  · rw [if_neg room, if_neg (by omega), map_none]

def Client.addWindow (c : Client) (pc : Pconn) : Client :=
  (c.mconnAdd pc.id.toNat pc.title).cwinAddSized pc.id.toNat pc.rows.toNat pc.cols.toNat

theorem readBe16_be16 (n : Nat) : readBe16 (UInt8.ofNat (n / 2 ^ 8)) (UInt8.ofNat n) = n % 2 ^ 16 := by
  simp only [readBe16, UInt8.toNat_ofNat']
  omega

theorem populateLoop_record (fits : Fits pc) (count : Nat) (rest : Bytes) (c : Client) :
    populateLoop (count + 1) (record pc ++ rest) c = populateLoop count rest (c.addWindow pc) := by
  have length := fits.length
  have tlen := titleLen_toNat fits
  have bytes : record pc ++ rest =
      UInt8.ofNat (pc.id.toNat / 2 ^ 24) :: UInt8.ofNat (pc.id.toNat / 2 ^ 16) :: UInt8.ofNat (pc.id.toNat / 2 ^ 8) ::
        UInt8.ofNat pc.id.toNat :: UInt8.ofNat (pc.rows.toNat / 2 ^ 8) :: UInt8.ofNat pc.rows.toNat ::
        UInt8.ofNat (pc.cols.toNat / 2 ^ 8) :: UInt8.ofNat pc.cols.toNat :: titleLen pc :: (pc.title ++ rest) := by
    rw [record, tlen, take_length]
    simp only [be32, be16, cons_append, nil_append]
  have whole : (pc.title ++ rest).length = pc.title.length + rest.length := length_append
  have cut : min pc.title.length (titleBufsz - 1) = pc.title.length := Nat.min_eq_left length
  rw [bytes, populateLoop, tlen, if_neg (by omega), cut, take_left, drop_left, readBe32_be32, readBe16_be16,
    readBe16_be16, Nat.mod_eq_of_lt pc.id.toNat_lt, Nat.mod_eq_of_lt pc.rows.toNat_lt, Nat.mod_eq_of_lt pc.cols.toNat_lt]
  rfl

theorem populateLoop_records (fits : ∀ pc ∈ pconns, Fits pc) (c : Client) :
    populateLoop pconns.length (pconns.flatMap record) c = pconns.foldl Client.addWindow c := by
  induction pconns generalizing c with
  | nil => rfl
  | cons pc rest ih =>
    rw [flatMap_cons, length_cons, populateLoop_record (fits pc mem_cons_self),
      ih fun pc' member => fits pc' (mem_cons_of_mem pc member)]
    rfl

theorem populate_listing (few : pconns.length ≤ pconnMax) (fits : ∀ pc ∈ pconns, Fits pc) :
    proxyPopulateWindows (listing pconns) = pconns.foldl Client.addWindow ⟨[], []⟩ := by
  have max : pconnMax = 64 := rfl
  have count : pconns.length % 2 ^ 16 = pconns.length := Nat.mod_eq_of_lt (by omega)
  show populateLoop (readBe16 _ _) (pconns.flatMap record) ⟨[], []⟩ = _
  rw [readBe16_be16, count, populateLoop_records fits]

def mconnOf (pc : Pconn) : Mconn := ⟨pc.id.toNat, pc.title.take (utf8Trunc pc.title titleBufsz)⟩

def cwinOf (pc : Pconn) : Cwin := ⟨pc.id.toNat, pc.rows.toNat, pc.cols.toNat⟩

theorem addWindow_eq (c : Client) (pc : Pconn) :
    c.addWindow pc = ⟨appendBounded clientWinMax c.mconns (mconnOf pc), appendBounded clientWinMax c.cwins (cwinOf pc)⟩ := by
  unfold Client.addWindow Client.mconnAdd Client.cwinAddSized appendBounded
  by_cases full : c.mconns.length ≥ clientWinMax
  · rw [if_pos full, if_pos full]
    by_cases full' : c.cwins.length ≥ clientWinMax
    · rw [if_pos full', if_pos full']
    · rw [if_neg full', if_neg full']
      rfl
  · rw [if_neg full, if_neg full]
    dsimp only
    by_cases full' : c.cwins.length ≥ clientWinMax
    · rw [if_pos full', if_pos full']
      rfl
    · rw [if_neg full', if_neg full']
      rfl

theorem foldl_addWindow (pconns : List Pconn) : pconns.foldl Client.addWindow ⟨[], []⟩ =
      ⟨(pconns.take clientWinMax).map mconnOf, (pconns.take clientWinMax).map cwinOf⟩ := by
  have tables (c : Client) : pconns.foldl Client.addWindow c =
      ⟨(pconns.map mconnOf).foldl (appendBounded clientWinMax) c.mconns,
        (pconns.map cwinOf).foldl (appendBounded clientWinMax) c.cwins⟩ := by
    induction pconns generalizing c with
    | nil => rfl
    | cons pc rest ih =>
      rw [foldl_cons, ih, addWindow_eq]
      rfl
  rw [tables, foldl_appendBounded (Nat.zero_le _), foldl_appendBounded (Nat.zero_le _), map_take, map_take]
  rfl

theorem tables_listing_iff (pconns : List Pconn) : pconns.foldl Client.addWindow ⟨[], []⟩ = .listing pconns ↔
      pconns.length ≤ clientWinMax ∧ ∀ pc ∈ pconns, TitleKept pc := by
  rw [foldl_addWindow, Client.listing]
  constructor
  · intro same
    have mconns := congrArg Client.mconns same
    dsimp only at mconns
    have lengths := congrArg List.length mconns
    rw [length_map, length_take, length_map] at lengths
    have few : pconns.length ≤ clientWinMax := by omega
    refine ⟨few, fun pc member => ?_⟩
    rw [take_of_length_le few, map_inj_left] at mconns
    exact congrArg Mconn.title (mconns pc member)
  · rintro ⟨few, kept⟩
    rw [take_of_length_le few]
    congr 1
    refine map_congr_left fun pc member => ?_
    rw [mconnOf, kept pc member]

theorem length_listing (fits : ∀ pc ∈ pconns, Fits pc) : (listing pconns).length = listSize pconns := by
  rw [← length_records fits, listing, length_append]
  rfl

theorem ssh_discovers (few : pconns.length ≤ pconnMax) (fits : ∀ pc ∈ pconns, Fits pc) {wios rios} (writes : Moving wios)
    (reads : Moving rios) :
    (announceSsh pconns wios).bind (mconnDiscoverRemote rios) =
      if listSize pconns ≤ readyBufsz then some (pconns.foldl Client.addWindow ⟨[], []⟩) else none := by
  have bufsz : readyBufsz = 4096 ∧ discoverBufsz = 4096 ∧ ipcMaxPayload = 65536 := ⟨rfl, rfl, rfl⟩
  have size := length_listing fits
  rw [announceSsh, encodeReadyPayload_eq fits]
  by_cases room : listSize pconns ≤ readyBufsz
  · rw [if_pos room, if_pos room, map_some, bind_some]
    have valid : Stream.Msg.On .proxy ⟨[0, proxyReady], listing pconns⟩ := by
      refine ⟨rfl, fun w member => ?_, by dsimp only; omega⟩
      rcases mem_pair.mp member with rfl | rfl
      · decide
      · decide
    have length : (Stream.Msg.frame ⟨[0, proxyReady], listing pconns⟩).length = 12 + (listing pconns).length := by
      simp only [Stream.Msg.frame, be32, flatMap_cons, flatMap_nil, length_append, length_cons,
        length_nil]
    unfold Moving at writes reads
    have sent : (Stream.proxyMsgSend wios 0 proxyReady (listing pconns)).1 =
        Stream.Msg.frame ⟨[0, proxyReady], listing pconns⟩ := by
      rcases Stream.msgSend_cases wios ⟨[0, proxyReady], listing pconns⟩ with ⟨rest, put, -⟩ | ⟨-, few⟩
      · exact congrArg Prod.fst put
      · omega
    have recv : ∃ left, Stream.proxyMsgRecv discoverBufsz rios (Stream.Msg.frame ⟨[0, proxyReady], listing pconns⟩) =
        .report ⟨[0, proxyReady], listing pconns⟩ [] left := by
      rcases Stream.recv_frame valid discoverBufsz rios [] (.inl (by omega)) with ⟨left, got, -⟩ | ⟨-, few⟩
      · have cut : (listing pconns).take discoverBufsz = listing pconns := take_of_length_le (by omega)
        dsimp only at got
        rw [append_nil, cut] at got
        exact ⟨left, got⟩
      · omega
    obtain ⟨left, got⟩ := recv
    rw [sent, mconnDiscoverRemote, got]
    dsimp only
    rw [if_neg, populate_listing few fits]
    rintro (other | short)
    · exact other rfl
    · rw [size, listSize] at short
      omega
  · rw [if_neg room, if_neg room]
    rfl

theorem nctRecv_only {m} (valid : m.Valid) (bufsz : Nat) {n} (open_ : n.closed = false) {rounds}
    (fed : ∀ r ∈ rounds, ∃ pieces, r = .fed false pieces) (bytes : n.rxbuf ++ rounds.flatMap Round.bytes = m.frame) :
    (nctRecv bufsz n rounds).2.1 = if m.payload.length ≤ bufsz then .message m else .error := by
  induction rounds generalizing n with
  | nil =>
    rw [flatMap_nil, append_nil] at bytes
    have whole := judge_frame valid []
    rw [append_nil, ← bytes] at whole
    show (nctRecvNow n bufsz).2 = _
    rcases nctTakeFrame_cases n bufsz with ⟨m', rest, found, taken⟩ | ⟨more, -⟩ | ⟨bad, -⟩
    · rw [whole] at found
      cases found
      rw [nctRecvNow]
      rcases taken with ⟨room, taken⟩ | ⟨large, taken⟩
      · rw [taken, if_pos room]
      · rw [taken, if_neg (Nat.not_le.mpr large)]
    · rw [whole] at more
      cases more
    · rw [whole] at bad
      cases bad
  | cons round rounds ih =>
    obtain ⟨pieces, rfl⟩ := fed round mem_cons_self
    have whole := judge_frame valid []
    rw [append_nil, ← bytes] at whole
    rw [nctRecv, nctRecvNow]
    rcases nctTakeFrame_cases n bufsz with ⟨m', rest, found, taken⟩ | ⟨more, taken⟩ | ⟨bad, -⟩
    · have same := judge_stable.frame found ((Round.fed false pieces :: rounds).flatMap Round.bytes)
      rw [whole, Verdict.frame.injEq] at same
      rw [same.1]
      rcases taken with ⟨room, taken⟩ | ⟨large, taken⟩
      · rw [taken, if_pos room]
      · rw [taken, if_neg (Nat.not_le.mpr large)]
    · rw [taken]
      dsimp only
      rw [if_neg fun gone => Bool.noConfusion (open_.symm.trans gone.1)]
      dsimp only [nctStep]
      rw [nctPumpEvents_eq, Bool.or_false]
      refine ih open_ (fun r member => fed r (mem_cons_of_mem _ member)) ?_
      rw [append_assoc]
      exact bytes
    · have same := judge_stable.bad bad ((Round.fed false pieces :: rounds).flatMap Round.bytes)
      rw [whole] at same
      cases same

def carrying (pconns : List Pconn) : WindowMsg := ⟨0, proxyReady, listing pconns⟩

theorem carrying_valid (fits : ∀ pc ∈ pconns, Fits pc) (room : listSize pconns ≤ readyBufsz) :
    (carrying pconns).Valid ∧ (carrying pconns).payload.length + 4 ≤ ipcMaxPayload := by
  have size := length_listing fits
  have bufsz : readyBufsz = 4096 ∧ ipcMaxPayload = 65536 := ⟨rfl, rfl⟩
  have same : (carrying pconns).payload = listing pconns := rfl
  refine ⟨⟨Nat.two_pow_pos 32, (by decide : proxyReady < 2 ^ 32), ?_⟩, ?_⟩
  · rw [same]
    omega
  · rw [same]
    omega

theorem announceNet_eq (fits : ∀ pc ∈ pconns, Fits pc) {n env} (willing : Willing n env) :
    announceNet pconns n env = if listSize pconns ≤ readyBufsz then some (carrying pconns).inner.frame else none := by
  rw [announceNet, encodeReadyPayload_eq fits]
  by_cases room : listSize pconns ≤ readyBufsz
  · obtain ⟨valid, number⟩ := carrying_valid fits room
    have sent := xsend_eq willing valid.payload
    rw [if_pos number] at sent
    have same : (proxyMsgXsend n env true 0 proxyReady (listing pconns)).2 = ((carrying pconns).inner.frame, true) := sent
    rw [if_pos room, if_pos room, bind_some]
    dsimp only
    rw [same, if_pos rfl]
  · rw [if_neg room, if_neg room]
    rfl

theorem net_discovers (few : pconns.length ≤ pconnMax) (fits : ∀ pc ∈ pconns, Fits pc) (room : listSize pconns ≤ readyBufsz)
    {rounds} (brings : Brings rounds (carrying pconns).inner.frame) :
    mconnDiscoverRemoteNet rounds =
      if listSize pconns + 4 ≤ discoverBufsz then some (pconns.foldl Client.addWindow ⟨[], []⟩) else none := by
  obtain ⟨valid, number⟩ := carrying_valid fits room
  have size := length_listing fits
  have length : (carrying pconns).inner.payload.length = listSize pconns + 4 := by
    rw [length_inner, ← size]
    rfl
  have recv := nctRecv_only (inner_valid valid number) discoverBufsz (n := ⟨[], false⟩) rfl brings.fed brings.bytes
  rw [length] at recv
  rw [mconnDiscoverRemoteNet, recv]
  by_cases fitting : listSize pconns + 4 ≤ discoverBufsz
  · rw [if_pos fitting, if_pos fitting]
    dsimp only
    rw [readList, xdecode_inner valid.windowId]
    dsimp only
    have same : (carrying pconns).payload = listing pconns := rfl
    rw [if_neg, same, populate_listing few fits]
    rintro (other | other | short)
    · exact other rfl
    · exact other rfl
    · rw [same, size, listSize] at short
      omega
  · rw [if_neg fitting, if_neg fitting]

def steady : List Io := replicate (12 + readyBufsz) (.moves 0)

theorem moving_steady : Moving steady := Nat.le_of_eq (moving_replicate _ 0).symm

theorem brings_once (wire : Bytes) : Brings [.fed false [wire]] wire where
  fed r member := ⟨[wire], mem_singleton.mp member⟩
  bytes := by
    rw [flatMap_singleton]
    exact flatten_singleton

/-- **The window list reaches the client intact** exactly when it has no more windows than the client's tables have
places, leaves room for the window number in the client's buffer, and the client keeps its titles. -/
theorem window_list_intact_iff (pconns : List Pconn) (few : pconns.length ≤ pconnMax) (fits : ∀ pc ∈ pconns, Fits pc) :
    Intact pconns ↔
      pconns.length ≤ clientWinMax ∧ listSize pconns + 4 ≤ discoverBufsz ∧ ∀ pc ∈ pconns, TitleKept pc := by
  have bufsz : readyBufsz = discoverBufsz := rfl
  constructor
  · intro intact
    have ssh := intact.ssh steady steady moving_steady moving_steady
    rw [ssh_discovers few fits moving_steady moving_steady] at ssh
    split at ssh
    · rename_i room
      obtain ⟨places, titles⟩ := (tables_listing_iff pconns).mp (Option.some.inj ssh)
      obtain ⟨wire, announced, discovered⟩ := intact.net ⟨[], false⟩ Willing.env willing_env
      rw [announceNet_eq fits willing_env, if_pos room] at announced
      cases announced
      have net := discovered _ (brings_once _)
      rw [net_discovers few fits room (brings_once _)] at net
      split at net
      · rename_i number
        exact ⟨places, number, titles⟩
      · cases net
    · cases ssh
  · rintro ⟨places, number, titles⟩
    have room : listSize pconns ≤ readyBufsz := by omega
    have tables := (tables_listing_iff pconns).mpr ⟨places, titles⟩
    refine ⟨fun wios rios writes reads => ?_, fun n env willing => ?_⟩
    · rw [ssh_discovers few fits writes reads, if_pos room, tables]
    · refine ⟨_, by rw [announceNet_eq fits willing, if_pos room], fun rounds brings => ?_⟩
      rw [net_discovers few fits room brings, if_pos number, tables]

def shells : List Pconn := [{ id := 100, rows := 24, cols := 80, title := [0x73, 0x68] }, { id := 101, rows := 50, cols := 132 }]

theorem shells_intact : Intact shells := by
  refine (window_list_intact_iff shells (by decide) fun pc member => ?_).mpr (by decide +kernel)
  fin_cases member
  · exact ⟨by decide, by decide +kernel⟩
  · exact ⟨by decide, by decide +kernel⟩

def untitled (count : Nat) : List Pconn := (range count).map fun i => { id := UInt32.ofNat (i + 1), rows := 24, cols := 80 }

theorem untitled_not_intact : ¬Intact (untitled 33) := by
  intro intact
  have fits : ∀ pc ∈ untitled 33, Fits pc := by
    intro pc member
    obtain ⟨i, -, rfl⟩ := mem_map.mp member
    exact ⟨Nat.zero_le _, fun b none => by cases none⟩
  have ssh := intact.ssh steady steady moving_steady moving_steady
  rw [ssh_discovers (by decide) fits moving_steady moving_steady, if_pos (by decide +kernel)] at ssh
  have places := ((tables_listing_iff _).mp (Option.some.inj ssh)).1
  exact absurd places (by decide)

end Lumimux.Announce

import Lumimux.Vt.Lockstep
import Lumimux.Vt.Snapshot

/-!
# A client that attaches sees what the server sees

A dump carries the picture only. When the rest is at its initial value and the output was cut between sequences, client
and server are twins after the replay and stay so.
-/

namespace Lumimux.Vt
open Lib Utf8 List Option

variable {w : WidthTable} {rows cols : Nat} {st client : VtState}

theorem VtState.Twin.sameScreen {x y : VtState} (h : x.Twin y) : SameScreen x y where
  screen := h.buf.cells.symm
  cursorRow := h.cursorRow.symm
  cursorCol := h.cursorCol.symm
  altscreen := h.altscreen.symm

section
variable (ok : st.Ok rows cols) (ok' : client.Ok rows cols) (same : SameScreen st client)
include ok ok' same

theorem altTwin : Option.Rel VtBuf.Twin st.alt client.alt := by
  have present := ok.alt_exists
  have present' := ok'.alt_exists
  have shown := ok.active_eq
  have shown' := ok'.active_eq
  have screen := same.screen
  rw [same.altscreen] at present' shown'
  cases onAlt : st.modes.altscreen with
  | false =>
    rw [onAlt] at present present'
    rw [isSome_eq_false_iff, isNone_iff_eq_none] at present present'
    rw [present, present']
    exact .none
  | true =>
    rw [onAlt] at present present' shown shown'
    obtain ⟨b, found⟩ := isSome_iff_exists.mp present
    obtain ⟨b', found'⟩ := isSome_iff_exists.mp present'
    rw [found, found']
    refine .some ⟨?_, ?_, ?_⟩
    · rw [(ok.alt b found).rows_eq, (ok'.alt b' found').rows_eq]
    · rw [(ok.alt b found).cols_eq, (ok'.alt b' found').cols_eq]
    · simpa [VtState.screen, VtState.buf, VtState.target, shown, shown', found, found'] using screen.symm

theorem primaryTwin (hidden : FreshHidden rows cols st) (hidden' : FreshHidden rows cols client) : st.primary.Twin client.primary := by
  have shown := ok.active_eq
  have shown' := ok'.active_eq
  have screen := same.screen
  rw [same.altscreen] at shown'
  refine ⟨?_, ?_, ?_⟩
  · rw [ok.primary.rows_eq, ok'.primary.rows_eq]
  · rw [ok.primary.cols_eq, ok'.primary.cols_eq]
  · cases onAlt : st.modes.altscreen with
    | false =>
      rw [onAlt] at shown shown'
      simpa [VtState.screen, VtState.buf, VtState.target, shown, shown'] using screen.symm
    | true => rw [hidden.primary onAlt, hidden'.primary (same.altscreen.trans onAlt)]

theorem twin_of_fresh (hidden : FreshHidden rows cols st) (hidden' : FreshHidden rows cols client) : st.Twin client where
  primary := primaryTwin ok ok' same hidden hidden'
  alt := altTwin ok ok' same
  scrollback shown := by
    rw [ok.active_eq] at shown
    split at shown <;> cases shown
  active := by rw [ok.active_eq, ok'.active_eq, same.altscreen]
  cursorRow := same.cursorRow.symm
  cursorCol := same.cursorCol.symm
  saved := hidden.saved.trans hidden'.saved.symm
  scrollTop := hidden.scrollTop.trans hidden'.scrollTop.symm
  scrollBot := hidden.scrollBot.trans hidden'.scrollBot.symm
  autowrap := hidden.autowrap.trans hidden'.autowrap.symm
  origin := hidden.origin.trans hidden'.origin.symm
  insert := hidden.insert.trans hidden'.insert.symm
  altscreen := same.altscreen.symm
  style := hidden.style.trans hidden'.style.symm
  charset := hidden.charset.trans hidden'.charset.symm
  g0Set := hidden.g0Set.trans hidden'.g0Set.symm
  g1Set := hidden.g1Set.trans hidden'.g1Set.symm
  tabstops := hidden.tabstops.trans hidden'.tabstops.symm

end

/-- A client that is fed a dump of the server is its twin, and no callback acted meanwhile. -/
theorem twin_of_dump {server : Emu} (ok : server.Ok rows cols) (drawable : Drawable w server.vt)
    (hidden : FreshHidden rows cols server.vt) (ground : Ground server.parse) (scrollback : Int) (cb : DcsCb) :
    server.Twin ((Emu.new rows cols scrollback).feedWith cb w (vtStateDump server.vt).flatten) := by
  have clientOk := (Emu.Ok.new ok.vt.rows_pos ok.vt.cols_pos scrollback).feed w (vtStateDump server.vt).flatten
  obtain ⟨client, ⟨actions, emits, plain, applied⟩, received, hidden'⟩ := feeds_dump (w := w) ok.vt drawable scrollback
  have idle : (Emu.new rows cols scrollback).feedWith cb w (vtStateDump server.vt).flatten =
      (Emu.new rows cols scrollback).feed w (vtStateDump server.vt).flatten := by
    obtain ⟨p, -, parsed⟩ := emits {} ⟨rfl, rfl⟩
    refine feedWith_plain cb w _ _ ?_
    rw [show (Emu.new rows cols scrollback).parse = {} from rfl, parsed]
    exact plain
  rw [idle]
  obtain ⟨p', ground', fed⟩ := emits.feed (e := Emu.new rows cols scrollback) ⟨rfl, rfl⟩
  have vt : ((Emu.new rows cols scrollback).feed w (vtStateDump server.vt).flatten).vt = client := by
    rw [fed]
    exact applied
  refine ⟨?_, ?_⟩
  · have clientVt := clientOk.vt
    rw [vt] at clientVt ⊢
    exact twin_of_fresh ok.vt clientVt received.toSameScreen hidden hidden'
  · rw [fed, live_of_ground ground, live_of_ground ground']

/-- **Replica convergence**: a client attached after the output `before`, when the server's screen is
one the dump carries, its hidden state is at its initial value and its parser between sequences,
shows what the server shows after any further output, whatever callbacks the two have installed,
unless the output has graphics commands. -/
theorem replica_converges (w : WidthTable) (rows cols : ℕ+) (scrollback scrollback' : Int) (cb cb' : DcsCb)
    (before after : Bytes)
    (plain : ∀ a ∈ (parseBytes w {} (before ++ after)).2, ¬ a.Graphics)
    (drawable : Drawable w ((Emu.new rows cols scrollback).feedWith cb w before).vt)
    (hidden : FreshHidden rows cols ((Emu.new rows cols scrollback).feedWith cb w before).vt)
    (ground : Ground ((Emu.new rows cols scrollback).feedWith cb w before).parse) :
    SameScreen ((Emu.new rows cols scrollback).feedWith cb w (before ++ after)).vt
      ((Emu.new rows cols scrollback').feedWith cb' w
        ((vtStateDump ((Emu.new rows cols scrollback).feedWith cb w before).vt).flatten ++ after)).vt := by
  simp only [parseBytes_append, forall_mem_append] at plain
  have fed : (Emu.new rows cols scrollback).feedWith cb w before = (Emu.new rows cols scrollback).feed w before :=
    feedWith_plain cb w _ before plain.1
  have parsed : ((Emu.new rows cols scrollback).feed w before).parse = (parseBytes w {} before).1 := by
    rw [feed_eq_parseBytes]
    rfl
  rw [Emu.feedWith_append, Emu.feedWith_append]
  rw [fed] at drawable hidden ground ⊢
  have ok := (Emu.Ok.new rows.pos cols.pos scrollback).feed w before
  have twin := twin_of_dump ok drawable hidden ground scrollback' cb'
  -- the twins' parsers make the same of `after`
  rw [feedWith_plain cb w _ after (parsed ▸ plain.2),
    feedWith_plain cb' w _ after (twin.parseBytes w after ▸ parsed ▸ plain.2)]
  exact (twin.feed w after).vt.sameScreen

theorem replica_converges_wide :
    SameScreen ((Emu.new 1 4 0).feedWith .none latestTable (utf8Encode 0x4E00 ++ ascii "b" ++ ascii "\x1b[31mx")).vt
      ((Emu.new 1 4 0).feedWith .none latestTable
        ((vtStateDump ((Emu.new 1 4 0).feedWith .none latestTable (utf8Encode 0x4E00 ++ ascii "b")).vt).flatten
          ++ ascii "\x1b[31mx")).vt := by
  have screen : ((Emu.new 1 4 0).feedWith .none latestTable (utf8Encode 0x4E00 ++ ascii "b")).vt.screen =
      [[⟨0x4E00, {}, 2⟩, Cell.continuation, ⟨0x62, {}, 1⟩, Cell.clear]] := by decide +kernel
  refine replica_converges latestTable 1 4 0 0 .none .none (utf8Encode 0x4E00 ++ ascii "b") (ascii "\x1b[31mx")
    (by decide +kernel) ?_ ?_ ?_
  · refine ⟨?_, ?_, by decide +kernel, by decide +kernel, by decide +kernel⟩
    · intro row member
      change row ∈ ((Emu.new 1 4 0).feedWith .none latestTable (utf8Encode 0x4E00 ++ ascii "b")).vt.screen at member
      rw [screen, mem_singleton] at member
      rw [member]
      decide +kernel
    · intro row member
      change row ∈ ((Emu.new 1 4 0).feedWith .none latestTable (utf8Encode 0x4E00 ++ ascii "b")).vt.screen at member
      rw [screen, mem_singleton] at member
      rw [member]
      decide
  · refine ⟨by decide +kernel, by decide +kernel, by decide +kernel, by decide +kernel, by decide +kernel,
      by decide +kernel, by decide +kernel, by decide +kernel, by decide +kernel, by decide +kernel,
      by decide +kernel, fun onAlt => absurd onAlt (by decide +kernel)⟩
  · exact ⟨by decide +kernel, by decide +kernel⟩

theorem replica_loses_pen :
    let server := (Emu.new 1 2 0).feedWith .none latestTable (ascii "\x1b[31m")
    Drawable latestTable server.vt ∧ Ground server.parse ∧
      ¬SameScreen ((Emu.new 1 2 0).feedWith .none latestTable (ascii "\x1b[31m" ++ ascii "x")).vt
        ((Emu.new 1 2 0).feedWith .none latestTable ((vtStateDump server.vt).flatten ++ ascii "x")).vt := by
  intro server
  have screen : server.vt.screen = [[Cell.clear, Cell.clear]] := by decide +kernel
  refine ⟨⟨?_, ?_, by decide +kernel, by decide +kernel, by decide +kernel⟩,
    ⟨by decide +kernel, by decide +kernel⟩, ?_⟩
  · rw [screen]
    decide +kernel
  · rw [screen]
    decide
  · intro same
    exact absurd same.screen (by decide +kernel)

end Lumimux.Vt

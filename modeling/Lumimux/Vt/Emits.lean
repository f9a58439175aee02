import Lumimux.Utf8.RoundTrip
import Lumimux.Vt.Emulator

/-!
# What the parser makes of a byte string

From the ground state the parser turns `bytes` into `actions` and is back there.
-/

namespace Lumimux.Vt
open Utf8
open List hiding utf8Encode

/-- The parser is between sequences and characters. -/
@[mk_iff] structure Ground (p : VtParse) : Prop where
  state : p.state = .ground
  need : p.utf8Need = 0

def parseBytes (w : WidthTable) (p : VtParse) : Bytes → VtParse × List VtAction
  | [] => (p, [])
  | b :: rest =>
    let (p, first) := processByte w p b
    let (p, more) := parseBytes w p rest
    (p, first ++ more)

theorem parseBytes_append (w : WidthTable) (p : VtParse) (xs ys : Bytes) : parseBytes w p (xs ++ ys) =
      let (p, first) := parseBytes w p xs
      let (p, more) := parseBytes w p ys
      (p, first ++ more) := by
  induction xs generalizing p with
  | nil => rfl
  | cons b xs ih => simp only [cons_append, parseBytes, ih, append_assoc]

theorem feed_eq_parseBytes (w : WidthTable) (e : Emu) (bytes : Bytes) :
    e.feed w bytes = ⟨(parseBytes w e.parse bytes).2.foldl VtState.apply e.vt, (parseBytes w e.parse bytes).1⟩ := by
  induction bytes generalizing e with
  | nil => rfl
  | cons b rest ih => simp only [Emu.feed_cons, ih, Emu.step, parseBytes, foldl_append]

theorem feedWith_plain (cb : DcsCb) (w : WidthTable) (e : Emu) (bytes : Bytes)
    (plain : ∀ a ∈ (parseBytes w e.parse bytes).2, ¬ a.Graphics) : e.feedWith cb w bytes = e.feed w bytes := by
  induction bytes generalizing e with
  | nil => rfl
  | cons b rest ih =>
    simp only [parseBytes, forall_mem_append] at plain
    have first : e.stepWith cb w b = e.step w b := by
      simp only [Emu.stepWith, Emu.step]
      rw [foldl_ext _ _ _ fun st a member => VtState.applyWith_plain cb st (plain.1 a member)]
    show (e.stepWith cb w b).feedWith cb w rest = _
    rw [first]
    exact ih (e.step w b) plain.2

def Emits (w : WidthTable) (bytes : Bytes) (actions : List VtAction) : Prop :=
  ∀ p, Ground p → ∃ p', Ground p' ∧ parseBytes w p bytes = (p', actions)

variable {w : WidthTable}

theorem Emits.nil : Emits w [] [] := fun p ground => ⟨p, ground, rfl⟩

theorem Emits.append {xs ys as bs} (first : Emits w xs as) (second : Emits w ys bs) : Emits w (xs ++ ys) (as ++ bs) := by
  intro p ground
  obtain ⟨p₁, ground₁, parsed₁⟩ := first p ground
  obtain ⟨p₂, ground₂, parsed₂⟩ := second p₁ ground₁
  refine ⟨p₂, ground₂, ?_⟩
  rw [parseBytes_append, parsed₁]
  simp only [parsed₂]

theorem Emits.feed {bytes : Bytes} {actions : List VtAction} (h : Emits w bytes actions) {e : Emu}
    (ground : Ground e.parse) : ∃ p', Ground p' ∧ e.feed w bytes = ⟨actions.foldl VtState.apply e.vt, p'⟩ := by
  obtain ⟨p', ground', parsed⟩ := h e.parse ground
  refine ⟨p', ground', ?_⟩
  rw [feed_eq_parseBytes, parsed]

theorem ne_esc_of_high {b : UInt8} (h : 0x80 ≤ b.toNat) : b ≠ 0x1B := by
  rintro rfl
  exact absurd h (by decide)

theorem high_of_tail {b} (h : Tail b) : 0x80 ≤ b.toNat := by
  have table : ∀ n < 128, ¬ Tail (UInt8.ofNat n) := by decide
  by_contra small
  have := table b.toNat (by omega)
  rw [UInt8.ofNat_toNat] at this
  exact this h

theorem tail_mask {b} (h : Tail b) : b &&& 0xC0 = 0x80 := UInt8.toNat_inj.mp h

theorem emits_ascii {cp : Nat} (low : 0x20 ≤ cp) (high : cp < 0x7F) : Emits w [UInt8.ofNat cp] [emitPrint w cp] := by
  intro p ⟨state, need⟩
  have byte : (UInt8.ofNat cp).toNat = cp := UInt8.toNat_ofNat_of_lt' (by simp [UInt8.size]; omega)
  have notEsc : UInt8.ofNat cp ≠ 0x1B := fun same => by
    rw [same] at byte
    have : cp = 0x1B := byte.symm
    omega
  have notControl : ¬ UInt8.ofNat cp < 0x20 := by
    rw [UInt8.lt_iff_toNat_lt, byte]
    exact not_lt.mpr low
  have notDel : UInt8.ofNat cp ≠ 0x7F := fun same => by
    rw [same] at byte
    have : cp = 0x7F := byte.symm
    omega
  have ascii : UInt8.ofNat cp < 0x80 := by
    rw [UInt8.lt_iff_toNat_lt, byte]
    exact Nat.lt_succ_of_lt high
  refine ⟨p, ⟨state, need⟩, ?_⟩
  simp [parseBytes, processByte, processGround, groundByte, state, need, notEsc, notControl, notDel, ascii, byte]

theorem parse_tails (tails seen : Bytes) {p : VtParse} (state : p.state = .ground) (buffer : p.utf8Buf = seen)
    (need : p.utf8Need = seen.length + tails.length) (some_left : tails ≠ []) (all : ∀ b ∈ tails, Tail b) :
    parseBytes w p tails = (utf8Cancel p, [emitPrint w (utf8Decode (seen ++ tails)).1]) := by
  induction tails generalizing seen p with
  | nil => exact absurd rfl some_left
  | cons b rest ih =>
    have tail := all b mem_cons_self
    have notEsc := ne_esc_of_high (high_of_tail tail)
    have pending : p.utf8Need > 0 := by
      rw [need, length_cons]
      omega
    have step : processByte w p b =
        if (seen ++ [b]).length ≥ p.utf8Need then
          (utf8Cancel p, [emitPrint w (utf8Decode (seen ++ [b])).1])
        else ({ p with utf8Buf := seen ++ [b] }, []) := by
      simp only [processByte, if_neg notEsc, state, ne_eq, not_true_eq_false, false_and, if_false, processGround,
        if_pos pending, if_pos (tail_mask tail), buffer]
    cases rest with
    | nil =>
      rw [if_pos (by rw [need]; simp)] at step
      simp only [parseBytes, step, append_nil]
    | cons b' rest =>
      rw [if_neg (by rw [need]; simp)] at step
      have later := ih (seen ++ [b]) (p := { p with utf8Buf := seen ++ [b] }) state rfl
        (by rw [need]; simp; omega) (by simp) (fun c member => all c (mem_cons_of_mem _ member))
      rw [parseBytes, step]
      simp only [later, nil_append, append_assoc, singleton_append]
      rfl

theorem emits_encode {cp} (scalar : Scalar cp) (low : 0x20 ≤ cp) (notDel : cp ≠ 0x7F) :
    Emits w (utf8Encode cp) [emitPrint w cp] := by
  by_cases small : cp ≤ 0x7F
  · rw [utf8Encode, if_pos small]
    exact emits_ascii low (by omega)
  · rintro p ⟨state, need⟩
    have decoded := decode_encode scalar []
    obtain ⟨lead, bits, tails, shape, announced, all, -⟩ := encode_shape scalar (by omega)
    have high := not_ascii_of_leadByte announced
    have notEsc := ne_esc_of_high high
    have notControl : ¬ lead < 0x20 := by
      rw [UInt8.lt_iff_toNat_lt]
      exact not_lt.mpr (le_trans (by decide) high)
    have notDel : lead ≠ 0x7F := by
      rintro rfl
      exact absurd high (by decide)
    have notAscii : ¬ lead < 0x80 := by
      rw [UInt8.lt_iff_toNat_lt]
      exact not_lt.mpr high
    have nonempty : tails ≠ [] := by
      rintro rfl
      have length := encode_length scalar
      rw [shape, if_neg small] at length
      simp only [length_singleton] at length
      split_ifs at length <;> omega
    have first : processByte w p lead = ({ p with utf8Buf := [lead], utf8Need := tails.length + 1 }, []) := by
      simp [processByte, processGround, groundByte, notEsc, state, need, notControl, notDel, notAscii, announced]
    have rest := parse_tails (w := w) tails [lead] (p := { p with utf8Buf := [lead], utf8Need := tails.length + 1 })
      state rfl (by simp; omega) nonempty all
    refine ⟨utf8Cancel { p with utf8Buf := [lead], utf8Need := tails.length + 1 }, ⟨state, rfl⟩, ?_⟩
    rw [shape, parseBytes, first]
    simp only [rest, nil_append]
    rw [singleton_append, ← shape, ← append_nil (utf8Encode cp), decoded]

/-- A character that is printed and is no control. -/
structure Printable (cp : Nat) : Prop where
  scalar : Scalar cp
  low : 0x20 ≤ cp
  notDel : cp ≠ 0x7F

theorem emits_text (runes : List Nat) (printable : ∀ r ∈ runes, Printable r) :
    Emits w (runes.flatMap utf8Encode) (runes.map (emitPrint w)) := by
  induction runes with
  | nil => exact Emits.nil
  | cons r rest ih =>
    have first := printable r mem_cons_self
    have more := ih fun c member => printable c (mem_cons_of_mem _ member)
    exact (emits_encode first.scalar first.low first.notDel).append more

end Lumimux.Vt

import Lumimux.Vt.Dump
import Lumimux.Vt.Emits

/-!
# Control sequences and OSC strings through the parser

`Reading p marker ps` is the parser inside a control sequence.
-/

namespace Lumimux.Vt
open Lib Utf8
open List hiding utf8Encode

variable {w : WidthTable}

structure Reading (p : VtParse) (marker : UInt8) (ps : List Int) : Prop where
  state : p.state = .csiEntry ∨ p.state = .csiParam
  params : p.params = ps
  cur : p.curParam = 0
  digit : p.hasDigit = false
  intermed : p.intermed = marker
  need : p.utf8Need = 0

variable {p : VtParse} {f : UInt8}

theorem processByte_digit {d} (h : d < 10) (state : p.state = .csiParam ∨ p.state = .csiEntry ∧ p.curParam = 0) :
    processByte w p (digitByte d) =
      ({ p with
        state := .csiParam
        curParam := readDigit (some 65535) p.curParam (digitByte d)
        hasDigit := true }, []) := by
  rcases state with state | ⟨state, cur⟩
  · interval_cases d <;> simp [processByte, state, processCsiParam, readDigit, digitByte]
  · interval_cases d <;> simp [processByte, state, processCsiEntry, readDigit, digitByte, cur]

theorem parse_digits (ds : Bytes) (state : p.state = .csiParam) (all : ∀ b ∈ ds, ∃ d, d < 10 ∧ b = digitByte d) :
    parseBytes w p ds =
      ({ p with
        curParam := ds.foldl (readDigit (some 65535)) p.curParam
        hasDigit := p.hasDigit || !ds.isEmpty }, []) := by
  induction ds generalizing p with
  | nil => simp [parseBytes]
  | cons b rest ih =>
    obtain ⟨d, small, rfl⟩ := all b mem_cons_self
    rw [parseBytes, processByte_digit small (.inl state)]
    simp only
    rw [ih rfl fun c member => all c (mem_cons_of_mem _ member)]
    simp [state]

def readBack (n : Nat) : Nat := (decimal n).foldl (readDigit (some 65535)) 0

theorem readBack_of_lt {n} (bound : n < 655350) : readBack n = n :=
  decimal_read (by simp only [Option.all_some, decide_eq_true_eq]; omega)

theorem map_readBack {codes : List Nat} (bound : ∀ c ∈ codes, c < 655350) : codes.map readBack = codes := by
  conv_rhs => rw [← map_id codes]
  exact map_congr_left fun c member => readBack_of_lt (bound c member)

theorem parse_decimal (n : Nat) {marker ps} (reading : Reading p marker ps) :
    parseBytes w p (decimal n) = ({ p with state := .csiParam, curParam := readBack n, hasDigit := true }, []) := by
  unfold readBack
  have digits := decimal_digits n
  obtain ⟨b, rest, text⟩ := exists_cons_of_ne_nil (decimal_ne_nil n)
  rw [text] at digits ⊢
  obtain ⟨d, small, rfl⟩ := digits b mem_cons_self
  have state : p.state = .csiParam ∨ p.state = .csiEntry ∧ p.curParam = 0 :=
    reading.state.elim (fun entry => .inr ⟨entry, reading.cur⟩) .inl
  rw [foldl_cons, parseBytes, processByte_digit small state]
  simp only
  rw [parse_digits rest rfl fun c member => digits c (mem_cons_of_mem _ member)]
  simp only [reading.cur, Bool.true_or, append_nil]

theorem processByte_separator (state : p.state = .csiParam) : processByte w p 0x3B = (csiFinishParam p, []) := by
  simp [processByte, state, processCsiParam]

theorem csiFinishParam_take (digit : p.hasDigit = true) {all} (params : p.params = all.take vtMaxParams) :
    (csiFinishParam p).params = (all ++ [(p.curParam : Int)]).take vtMaxParams := by
  simp only [csiFinishParam, digit, if_true, params, length_take, take_append]
  split
  · rename_i room
    have short : all.length < vtMaxParams := by omega
    have one : vtMaxParams - all.length = vtMaxParams - all.length - 1 + 1 := by omega
    rw [one, take_succ_cons, take_nil]
  · rename_i full
    rw [show vtMaxParams - all.length = 0 by omega, take_zero, append_nil]

theorem parse_separated (codes : List Nat) (state : p.state = .csiParam) (digit : p.hasDigit = true) (need : p.utf8Need = 0)
    {all} (params : p.params = all.take vtMaxParams) :
    ∃ p', parseBytes w p (separated codes) = (p', []) ∧ p'.state = .csiParam ∧ p'.utf8Need = 0 ∧
      p'.intermed = p.intermed ∧ (csiFinishParam p').params =
        (all ++ (p.curParam :: codes.map readBack).map Int.ofNat).take vtMaxParams := by
  induction codes generalizing p all with
  | nil => exact ⟨p, rfl, state, need, rfl, csiFinishParam_take digit params⟩
  | cons c rest ih =>
    have finished := csiFinishParam_take digit params
    have reading : Reading (csiFinishParam p) p.intermed (csiFinishParam p).params :=
      ⟨.inr state, rfl, rfl, rfl, rfl, need⟩
    have number := parse_decimal (w := w) c reading
    obtain ⟨p', parsed, state', need', intermed', params'⟩ :=
      ih (p := { csiFinishParam p with state := .csiParam, curParam := readBack c, hasDigit := true }) rfl rfl need
        finished
    refine ⟨p', ?_, state', need', intermed', ?_⟩
    · rw [separated, flatMap_cons, cons_append, parseBytes, processByte_separator state]
      simp only
      rw [parseBytes_append, number]
      simp only
      rw [show rest.flatMap (fun n => 0x3B :: decimal n) = separated rest from rfl, parsed]
      rfl
    · rw [params']
      simp

def Final (f : UInt8) : Prop := 0x40 ≤ f ∧ f ≤ 0x7E
  deriving Decidable

theorem Final.apart (h : Final f) :
    f ≠ 0x1B ∧ ¬ (0x07 ≤ f ∧ f ≤ 0x0D) ∧ ¬ (0x30 ≤ f ∧ f ≤ 0x39) ∧ f ≠ 0x3B ∧ ¬ (0x20 ≤ f ∧ f ≤ 0x2F) ∧
      ¬ (0x3C ≤ f ∧ f ≤ 0x3F) := by
  unfold Final at h
  grind

theorem processByte_final (final : Final f) (state : p.state = .csiParam) : processByte w p f = finishCsi p f := by
  obtain ⟨notEsc, notControl, notDigit, notSeparator, notIntermed, -⟩ := final.apart
  unfold Final at final
  simp [processByte, state, processCsiParam, notEsc, notControl, notDigit, notSeparator, notIntermed, final]

theorem parse_introducer (ground : Ground p) :
    ∃ p', parseBytes w p (ascii "\x1b[") = (p', []) ∧ p'.state = .csiEntry ∧ Reading p' 0 [] := by
  refine ⟨{ csiReset (utf8Cancel p) with state := .csiEntry }, ?_, rfl, ⟨.inl rfl, rfl, rfl, rfl, rfl, rfl⟩⟩
  rw [show ascii "\x1b[" = [0x1B, 0x5B] by decide]
  simp [parseBytes, processByte, processEsc, ground.state, processEscape, csiReset, utf8Cancel]

theorem parse_marker {m} (private_ : 0x3C ≤ m ∧ m ≤ 0x3F) (state : p.state = .csiEntry) (reading : Reading p 0 []) :
    ∃ p', parseBytes w p [m] = (p', []) ∧ Reading p' m [] := by
  have apart : m ≠ 0x1B ∧ ¬ (0x07 ≤ m ∧ m ≤ 0x0D) ∧ ¬ (0x30 ≤ m ∧ m ≤ 0x39) ∧ m ≠ 0x3B := by grind
  obtain ⟨notEsc, notControl, notDigit, notSeparator⟩ := apart
  refine ⟨{ p with intermed := m, state := .csiParam }, ?_,
    ⟨.inr rfl, reading.params, reading.cur, reading.digit, rfl, reading.need⟩⟩
  simp [parseBytes, processByte, state, processCsiEntry, notEsc, notControl, notDigit, notSeparator, private_]

theorem parse_params (n : Nat) (codes : List Nat) (final : Final f) {marker} (reading : Reading p marker []) :
    ∃ p', Ground p' ∧ parseBytes w p (decimal n ++ separated codes ++ [f]) =
      (p', [.csi ((((n :: codes).map readBack).map Int.ofNat).take vtMaxParams) marker f]) := by
  have number := parse_decimal (w := w) n reading
  obtain ⟨p', parsed, state', need', intermed', params'⟩ :=
    parse_separated (w := w) codes (p := { p with state := .csiParam, curParam := readBack n, hasDigit := true })
      rfl rfl reading.need (show p.params = ([] : List Int).take vtMaxParams by rw [reading.params, take_nil])
  have marked : (csiFinishParam p').intermed = marker := intermed'.trans reading.intermed
  refine ⟨{ csiFinishParam p' with state := .ground }, ⟨rfl, need'⟩, ?_⟩
  rw [append_assoc, parseBytes_append, number]
  simp only
  rw [parseBytes_append, parsed]
  simp only [parseBytes, processByte_final final state', finishCsi, emitCsi, params', marked, nil_append,
    append_nil, map_cons]

theorem emits_csi (n : Nat) (codes : List Nat) (bound : ∀ c ∈ n :: codes, c < 655350)
    (room : (n :: codes).length ≤ vtMaxParams) (final : Final f) :
    Emits w (ascii "\x1b[" ++ (decimal n ++ separated codes ++ [f])) [.csi ((n :: codes).map Int.ofNat) 0 f] := by
  intro p ground
  obtain ⟨p₁, opened, -, reading⟩ := parse_introducer (w := w) ground
  obtain ⟨p₂, ground₂, parsed⟩ := parse_params (w := w) n codes final reading
  rw [map_readBack bound, take_of_length_le (by rwa [length_map])] at parsed
  refine ⟨p₂, ground₂, ?_⟩
  rw [parseBytes_append, opened]
  simp only [parsed, nil_append]

theorem emits_private {m : UInt8} (private_ : 0x3C ≤ m ∧ m ≤ 0x3F) (n : Nat) (codes : List Nat)
    (room : (n :: codes).length ≤ vtMaxParams) (final : Final f) :
    Emits w (ascii "\x1b[" ++ ([m] ++ (decimal n ++ separated codes ++ [f])))
      [.csi (((n :: codes).map readBack).map Int.ofNat) m f] := by
  intro p ground
  obtain ⟨p₁, opened, state, reading⟩ := parse_introducer (w := w) ground
  obtain ⟨p₂, marked, reading'⟩ := parse_marker (w := w) private_ state reading
  obtain ⟨p₃, ground₃, parsed⟩ := parse_params (w := w) n codes final reading'
  rw [take_of_length_le (by rwa [length_map, length_map])] at parsed
  refine ⟨p₃, ground₃, ?_⟩
  rw [parseBytes_append, opened]
  simp only
  rw [parseBytes_append, marked]
  simp only [parsed, nil_append]

theorem emits_home : Emits w (ascii "\x1b[H") [.csi [-1] 0 0x48] := by
  intro p ground
  obtain ⟨p₁, opened, state, reading⟩ := parse_introducer (w := w) ground
  refine ⟨{ csiFinishParam p₁ with state := .ground }, ⟨rfl, reading.need⟩, ?_⟩
  rw [show ascii "\x1b[H" = ascii "\x1b[" ++ [0x48] by decide, parseBytes_append, opened]
  simp [parseBytes, processByte, state, processCsiEntry, finishCsi, emitCsi, csiFinishParam, reading.params,
    reading.digit, reading.intermed, vtMaxParams]

theorem emits_shape {n : Nat} (bound : n < 655350) :
    Emits w (ascii "\x1b[" ++ decimal n ++ ascii " q") [.csi [(n : Int)] 0x20 0x71] := by
  intro p ground
  obtain ⟨p₁, opened, state, reading⟩ := parse_introducer (w := w) ground
  have number := parse_decimal (w := w) n reading
  rw [readBack_of_lt bound] at number
  refine ⟨{ csiFinishParam { p₁ with state := .csiParam, curParam := n, hasDigit := true } with
    intermed := 0x20, state := .ground }, ⟨rfl, reading.need⟩, ?_⟩
  rw [append_assoc, parseBytes_append, opened]
  simp only
  rw [parseBytes_append, number, show ascii " q" = [0x20, 0x71] by decide]
  simp [parseBytes, processByte, processCsiParam, processCsiIntermed, emitCsi, csiFinishParam, reading.params,
    vtMaxParams]

theorem parse_osc (data : Bytes) (state : p.state = .oscString)
    (plain : ∀ b ∈ data, b ≠ 0x1B ∧ b ≠ 0x07) (room : p.osc.data.length + data.length < vtOscMax) :
    ∃ p', parseBytes w p data = (p', []) ∧ p'.state = .oscString ∧ p'.osc.data = p.osc.data ++ data := by
  induction data generalizing p with
  | nil => exact ⟨p, rfl, state, by simp⟩
  | cons b rest ih =>
    obtain ⟨notEsc, notBell⟩ := plain b mem_cons_self
    rw [length_cons] at room
    have appended : (oscAppend p.osc b).data = p.osc.data ++ [b] := by
      rw [oscAppend, StrBuf.append, if_neg (by omega)]
    have step : processByte w p b = ({ p with osc := oscAppend p.osc b }, []) := by
      simp [processByte, state, notEsc, notBell, processOsc]
    obtain ⟨p', parsed, state', data'⟩ := ih (p := { p with osc := oscAppend p.osc b }) state
      (fun c member => plain c (mem_cons_of_mem _ member))
      (by
        show (oscAppend p.osc b).data.length + rest.length < vtOscMax
        rw [appended, length_append, length_singleton]
        omega)
    refine ⟨p', ?_, state', ?_⟩
    · rw [parseBytes, step]
      simp only [parsed, nil_append]
    · rw [data', appended, append_assoc, singleton_append]

theorem emits_osc {data} (plain : ∀ b ∈ data, b ≠ 0x1B ∧ b ≠ 0x07) (room : data.length < vtOscMax) :
    Emits w (ascii "\x1b]" ++ (data ++ ascii "\x1b\\"))
      [.osc (data.take (utf8Trunc data (data.length + 1))), .esc 0 0x5C] := by
  intro p ground
  have opened : parseBytes w p (ascii "\x1b]") =
      ({ utf8Cancel p with state := .oscString, intermed := 0, osc.data := [] }, []) := by
    rw [show ascii "\x1b]" = [0x1B, 0x5D] by decide]
    simp [parseBytes, processByte, processEsc, ground.state, processEscape, utf8Cancel]
  obtain ⟨p', parsed, state', data'⟩ := parse_osc (w := w) data
    (p := { utf8Cancel p with state := .oscString, intermed := 0, osc.data := [] }) rfl plain
    (by simpa using room)
  rw [nil_append] at data'
  refine ⟨{ utf8Cancel (emitOsc p').1 with state := .ground, intermed := 0 }, ⟨rfl, rfl⟩, ?_⟩
  rw [parseBytes_append, opened]
  simp only
  rw [parseBytes_append, parsed, show ascii "\x1b\\" = [0x1B, 0x5C] by decide]
  simp [parseBytes, processByte, processEsc, state', emitOsc, data', processEscape, utf8Cancel]

theorem encode_plain {cp} (scalar : Scalar cp) (low : 0x20 ≤ cp) : ∀ b ∈ utf8Encode cp, b ≠ 0x1B ∧ b ≠ 0x07 ∧ b ≠ 0 := by
  intro b member
  have high : 0x20 ≤ b.toNat := by
    by_cases small : cp ≤ 0x7F
    · rw [utf8Encode, if_pos small, mem_singleton] at member
      rw [member, UInt8.toNat_ofNat_of_lt' (by simp [UInt8.size]; omega)]
      exact low
    · obtain ⟨lead, bits, tails, shape, announced, all, -⟩ := encode_shape scalar (by omega)
      rw [shape] at member
      rcases mem_cons.mp member with rfl | tail
      · exact le_trans (by decide) (not_ascii_of_leadByte announced)
      · exact le_trans (by decide) (high_of_tail (all b tail))
  refine ⟨?_, ?_, ?_⟩ <;>
    · rintro rfl
      exact absurd high (by decide)

theorem truncLoop_encode (runes : List Nat) (all : ∀ r ∈ runes, Scalar r ∧ 0x20 ≤ r ∧ r ≠ runeError) {fuel}
    (enough : (runes.flatMap utf8Encode).length ≤ fuel) :
    truncLoop fuel (runes.flatMap utf8Encode) (runes.flatMap utf8Encode).length = (runes.flatMap utf8Encode).length := by
  induction runes generalizing fuel with
  | nil => cases fuel <;> simp [truncLoop]
  | cons r rest ih =>
    obtain ⟨scalar, low, noError⟩ := all r mem_cons_self
    have length := encode_length scalar
    obtain ⟨b, bs, shape⟩ : ∃ b bs, utf8Encode r = b :: bs := by
      refine exists_cons_of_ne_nil fun empty => ?_
      rw [empty, length_nil] at length
      split_ifs at length
    have notNul : b ≠ 0 := (encode_plain scalar low b (by simp [shape])).2.2
    have decoded := decode_encode scalar (rest.flatMap utf8Encode)
    rw [flatMap_cons, length_append] at enough ⊢
    have positive : 0 < (utf8Encode r).length := by simp [shape]
    obtain ⟨fuel, rfl⟩ : ∃ k, fuel = k + 1 := ⟨fuel - 1, by omega⟩
    rw [truncLoop, if_neg (by simp [shape, notNul])]
    rw [take_of_length_le (by simp), decoded]
    simp only
    rw [if_neg (by omega), drop_left, Nat.add_sub_cancel_left,
      ih (fun c member => all c (mem_cons_of_mem _ member)) (by omega)]

theorem utf8Trunc_encode {runes : List Nat} (all : ∀ r ∈ runes, Scalar r ∧ 0x20 ≤ r ∧ r ≠ runeError) :
    utf8Trunc (runes.flatMap utf8Encode) ((runes.flatMap utf8Encode).length + 1) = (runes.flatMap utf8Encode).length := by
  rw [utf8Trunc, if_neg (Nat.succ_ne_zero _), Nat.add_sub_cancel]
  exact truncLoop_encode runes all (Nat.le_succ _)

end Lumimux.Vt

import Lumimux.Vt.Emits

/-!
# Text through the parser, in any chunks

Feeding chunks is feeding their concatenation. The parser leaves the ground state at ESC only, and a printable ASCII
byte ends whatever character was under way.
-/

namespace Lumimux.Vt
open Utf8 List

variable {w : WidthTable}

def parseChunks (w : WidthTable) (p : VtParse) : List Bytes → VtParse × List VtAction
  | [] => (p, [])
  | chunk :: rest =>
    let (p, first) := parseBytes w p chunk
    let (p, more) := parseChunks w p rest
    (p, first ++ more)

theorem parseChunks_eq (w : WidthTable) (p : VtParse) (chunks : List Bytes) :
    parseChunks w p chunks = parseBytes w p chunks.flatten := by
  induction chunks generalizing p with
  | nil => rfl
  | cons chunk rest ih => simp only [parseChunks, flatten_cons, parseBytes_append, ih]

theorem groundByte_stays (p : VtParse) (c : UInt8) : (groundByte w p c).1.state = p.state := by
  unfold groundByte utf8Cancel
  split_ifs
  · rfl
  · rfl
  · rfl
  · cases leadByte c with
    | none => rfl
    | some lead => rfl

theorem processByte_stays {p} (state : p.state = .ground) {c} (notEsc : c ≠ 0x1B) :
    processByte w p c = processGround w p c ∧ (processGround w p c).1.state = .ground := by
  refine ⟨by simp [processByte, notEsc, state], ?_⟩
  unfold processGround
  split
  · split
    · dsimp only
      split
      · exact state
      · exact state
    · exact (groundByte_stays (utf8Cancel p) c).trans state
  · exact (groundByte_stays p c).trans state

theorem parseBytes_stays (bytes : Bytes) {p} (state : p.state = .ground) (plain : ∀ b ∈ bytes, b ≠ 0x1B) :
    (parseBytes w p bytes).1.state = .ground := by
  induction bytes generalizing p with
  | nil => exact state
  | cons b rest ih =>
    obtain ⟨step, stays⟩ := processByte_stays (w := w) state (plain b mem_cons_self)
    simp only [parseBytes, step]
    exact ih stays fun c member => plain c (mem_cons_of_mem _ member)

/-- A printable ASCII byte. -/
def PlainByte (a : UInt8) : Prop := 0x20 ≤ a ∧ a < 0x7F

theorem processGround_plain {p} (state : p.state = .ground) {a} (plain : PlainByte a) : Ground (processGround w p a).1 := by
  obtain ⟨low, high⟩ := plain
  have notControl : ¬ a < 0x20 := by grind
  have notDel : a ≠ 0x7F := by grind
  have ascii : a < 0x80 := by grind
  have notTail : ¬ a &&& 0xC0 = 0x80 := by
    intro tail
    have := high_of_tail (congrArg UInt8.toNat tail)
    have := UInt8.lt_iff_toNat_lt.mp ascii
    have : (0x80 : UInt8).toNat = 0x80 := rfl
    omega
  have prints (q : VtParse) : groundByte w q a = (q, [emitPrint w a.toNat]) := by
    rw [groundByte, if_neg notControl, if_neg notDel, if_pos ascii]
  unfold processGround
  split
  · simp only [prints]
    exact ⟨state, rfl⟩
  · rename_i idle
    rw [prints]
    exact ⟨state, Nat.eq_zero_of_not_pos idle⟩

theorem parseBytes_settles (garbage : Bytes) {p} (state : p.state = .ground) (noEsc : ∀ b ∈ garbage, b ≠ 0x1B) {a}
    (plain : PlainByte a) : Ground (parseBytes w p (garbage ++ [a])).1 := by
  have stays := parseBytes_stays (w := w) garbage state noEsc
  have notEsc : a ≠ 0x1B := by
    obtain ⟨low, -⟩ := plain
    grind
  rw [parseBytes_append]
  simp only [parseBytes, (processByte_stays (w := w) stays notEsc).1]
  exact processGround_plain stays plain

/-- **Text is printed whole, however it is cut into chunks**: one print for each character, in order,
and nothing else; the same behind any bytes but ESC that a printable ASCII byte closes. -/
theorem text_printed (w : WidthTable) {p : VtParse} (ground : Ground p) {runes : List Nat}
    (printable : ∀ r ∈ runes, Printable r) : (∀ chunks : List Bytes, chunks.flatten = runes.flatMap utf8Encode →
      (parseChunks w p chunks).2 = runes.map (emitPrint w)) ∧
    ∀ (garbage : Bytes) (a : UInt8), (∀ b ∈ garbage, b ≠ 0x1B) → PlainByte a →
      ∀ chunks : List Bytes, chunks.flatten = garbage ++ [a] ++ runes.flatMap utf8Encode →
        (parseChunks w p chunks).2 = (parseBytes w p (garbage ++ [a])).2 ++ runes.map (emitPrint w) := by
  have text := emits_text (w := w) runes printable
  constructor
  · intro chunks cut
    obtain ⟨p', -, parsed⟩ := text p ground
    rw [parseChunks_eq, cut, parsed]
  · intro garbage a noEsc plain chunks cut
    have settled := parseBytes_settles (w := w) garbage ground.state noEsc plain
    obtain ⟨p', -, parsed⟩ := text _ settled
    rw [parseChunks_eq, cut, parseBytes_append]
    simp only [parsed]

def greeting : List Nat := [0x41, 0x20AC, 0x1F600]

theorem greeting_printable : ∀ r ∈ greeting, Printable r := by
  intro r member
  fin_cases member <;> exact ⟨by decide, by decide, by decide⟩

theorem greeting_printed : (parseChunks latestTable {} [[0x41, 0xE2, 0x82], [0xAC, 0xF0, 0x9F, 0x98], [0x80]]).2 =
      greeting.map (emitPrint latestTable) ∧
    (parseChunks latestTable {} [[0xF0, 0x78, 0x41, 0xE2], [0x82, 0xAC], [0xF0, 0x9F, 0x98, 0x80]]).2 =
      (parseBytes latestTable {} [0xF0, 0x78]).2 ++ greeting.map (emitPrint latestTable) :=
  have printed := text_printed latestTable (p := {}) ⟨rfl, rfl⟩ greeting_printable
  ⟨printed.1 _ (by decide +kernel), printed.2 [0xF0] 0x78 (by decide +kernel) ⟨by decide +kernel, by decide +kernel⟩ _ (by decide +kernel)⟩

end Lumimux.Vt

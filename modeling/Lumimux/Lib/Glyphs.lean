import Mathlib.Tactic.Common

/-!
# Redrawing a row of glyphs in place

A glyph occupies one or two cells of a row, and a row is redrawn from left to right: each cell is passed over or
written.
-/

namespace Lumimux.Lib

structure Display (β γ : Type*) where
  /-- 2 for the first cell of a wide glyph, 0 for its second one. -/
  width : β → Nat
  span : γ → Nat
  /-- The second cell of a wide glyph, given the first one. -/
  half : β → β
  shows : β → γ → Prop
  width_half : ∀ b, width (half b) = 0
  width_shows : ∀ {b c}, shows b c → width b = span c

namespace Display

variable {β γ : Type*} (D : Display β γ)

structure Whole (F : Nat → γ) : Prop where
  first : D.span (F 0) ≠ 0
  pairs : ∀ q, D.span (F q) = 2 ↔ D.span (F (q + 1)) = 0

/-- A cell shows its glyph, or the half of the one before it. -/
def Shown (T : Nat → β) (F : Nat → γ) (q : Nat) : Prop :=
  if D.span (F q) = 0 then ∃ p, q = p + 1 ∧ D.width (T p) = 2 ∧ T q = D.half (T p) else D.shows (T q) (F q)

def splice (left : β → β) (T : Nat → β) (lo n : Nat) (new : Nat → β) : Nat → β := fun q =>
  if lo ≤ q ∧ q < lo + n then new q
  else if q + 1 = lo ∧ D.width (T q) = 2 ∧ D.width (T lo) = 0 then left (T q)
  else if q = lo + n ∧ D.width (T q) = 0 ∧ D.width (T (q - 1)) = 2 then left (T q)
  else T q

def glyph (lo : Nat) (b : β) : Nat → β := fun q => if q = lo then b else D.half b

variable {D}

variable {T : Nat → β} {F : Nat → γ} {q : Nat}

theorem shown_first (first : D.span (F q) ≠ 0) : D.Shown T F q ↔ D.shows (T q) (F q) := by
  rw [Shown, if_neg first]

theorem shown_second (second : D.span (F q) = 0) : D.Shown T F q ↔ ∃ p, q = p + 1 ∧ D.width (T p) = 2 ∧ T q = D.half (T p) := by
  rw [Shown, if_pos second]

theorem Shown.width (shown : D.Shown T F q) : D.width (T q) = D.span (F q) := by
  by_cases second : D.span (F q) = 0
  · obtain ⟨p, rfl, -, half⟩ := (shown_second second).mp shown
    rw [half, D.width_half, second]
  · exact D.width_shows ((shown_first second).mp shown)

theorem Shown.congr {T' : Nat → β} (shown : D.Shown T F q) (same : ∀ p ≤ q, T' p = T p) : D.Shown T' F q := by
  by_cases second : D.span (F q) = 0
  · obtain ⟨p, rfl, wide, half⟩ := (shown_second second).mp shown
    exact (shown_second second).mpr ⟨p, rfl, by rw [same p (Nat.le_succ p), wide], by
      rw [same _ (Nat.le_refl _), same p (Nat.le_succ p), half]⟩
  · rw [shown_first second, same q (Nat.le_refl _)]
    exact (shown_first second).mp shown

section

variable (D)
variable (F F' : Nat → γ) (T₀ : Nat → β) (n : Nat)

structure Pass (T : Nat → β) (col : Nat) : Prop where
  shown : ∀ q < col, D.Shown T F q
  /-- A second cell is there with its first one. -/
  here : D.span (F col) = 0 → D.Shown T F col
  /-- What is behind is old, or a half that was left over. -/
  ahead : ∀ q, col ≤ q → q < n → (q = col ∧ D.span (F q) = 0) ∨ T q = T₀ q ∨
    (D.span (F' q) = 0 ∧ D.span (F q) ≠ 0 ∧ D.width (T q) ≠ 2)

end

variable {F F' : Nat → γ} {T₀ T : Nat → β} {n col : Nat}

theorem Pass.start (new : D.Whole F) : D.Pass F F' T₀ n T₀ 0 where
  shown _ low := absurd low (Nat.not_lt_zero _)
  here second := absurd second new.first
  ahead _ _ _ := .inr (.inl rfl)

namespace Pass

theorem old_of_wide (pass : D.Pass F F' T₀ n T col) {q} (inside : q < n) (ahead : col < q ∨ col = q ∧ D.span (F q) ≠ 0)
    (wide : D.width (T q) = 2) : T q = T₀ q := by
  rcases pass.ahead q (by omega) inside with ⟨rfl, second⟩ | same | ⟨-, -, narrow⟩
  · rcases ahead with later | ⟨-, first⟩
    · exact absurd later (Nat.lt_irrefl _)
    · exact absurd second first
  · exact same
  · exact absurd wide narrow

theorem pass (pass : D.Pass F F' T₀ n T col) (new : D.Whole F) (old : D.Whole F') (room : ∀ q, D.span (F q) = 0 → q < n)
    (before : ∀ q < n, D.Shown T₀ F' q) (inside : col < n)
    (keeps : D.span (F col) ≠ 0 → D.span (F' col) ≠ 0 ∧ D.shows (T₀ col) (F col)) : D.Pass F F' T₀ n T (col + 1) := by
  -- a first cell that is passed over was not touched
  have untouched : D.span (F col) ≠ 0 → T col = T₀ col := by
    intro first
    rcases pass.ahead col (Nat.le_refl _) inside with ⟨-, second⟩ | same | ⟨second, -⟩
    · exact absurd second first
    · exact same
    · exact absurd second (keeps first).1
  refine ⟨?_, ?_, ?_⟩
  · intro q low
    rcases Nat.lt_succ_iff_lt_or_eq.mp low with earlier | rfl
    · exact pass.shown q earlier
    · by_cases second : D.span (F q) = 0
      · exact pass.here second
      · rw [shown_first second, untouched second]
        exact (keeps second).2
  · intro second
    have wide : D.span (F col) = 2 := (new.pairs col).mpr second
    have first : D.span (F col) ≠ 0 := by omega
    obtain ⟨oldFirst, shows⟩ := keeps first
    have wasWide : D.width (T₀ col) = 2 := (D.width_shows shows).trans wide
    have oldWide : D.span (F' col) = 2 := by
      rw [← (before col inside).width, wasWide]
    have next := room (col + 1) second
    obtain ⟨p, place, -, half⟩ := (shown_second ((old.pairs col).mp oldWide)).mp (before (col + 1) next)
    obtain rfl : col = p := Nat.succ.inj place
    have kept : T (col + 1) = T₀ (col + 1) := by
      rcases pass.ahead (col + 1) (Nat.le_succ _) next with ⟨away, -⟩ | same | ⟨-, notSecond, -⟩
      · omega
      · exact same
      · exact absurd second notSecond
    exact (shown_second second).mpr ⟨col, rfl, by rw [untouched first, wasWide], by rw [kept, untouched first, half]⟩
  · intro q high low
    rcases pass.ahead q (by omega) low with ⟨rfl, -⟩ | rest
    · omega
    · exact .inr rest

variable {left : β → β}

section
variable (pass : D.Pass F F' T₀ n T col) (new : D.Whole F)
include pass new

theorem splice_before (first : D.span (F col) ≠ 0) {k} {cells : Nat → β} {q} (before : q < col) :
    D.splice left T col k cells q = T q := by
  rw [splice, if_neg (by omega), if_neg, if_neg (by omega)]
  rintro ⟨rfl, wide, -⟩
  rw [(pass.shown q (Nat.lt_succ_self q)).width] at wide
  exact first ((new.pairs q).mp wide)

theorem put (old : D.Whole F') (before : ∀ q < n, D.Shown T₀ F' q) (narrow : ∀ b, D.width (left b) = 2 → D.width b = 2) {b}
    (shows : D.shows b (F col)) (span : D.span (F col) = 1 ∨ D.span (F col) = 2) :
    D.Pass F F' T₀ n (D.splice left T col (D.span (F col)) (D.glyph col b)) (col + 1) := by
  have first : D.span (F col) ≠ 0 := by omega
  have written : D.splice left T col (D.span (F col)) (D.glyph col b) col = b := by
    rw [splice, if_pos (by omega), glyph, if_pos rfl]
  refine ⟨?_, ?_, ?_⟩
  · intro q low
    rcases Nat.lt_succ_iff_lt_or_eq.mp low with earlier | rfl
    · exact (pass.shown q earlier).congr fun p upTo => pass.splice_before new first (by omega)
    · rw [shown_first first, written]
      exact shows
  · intro second
    have wide : D.span (F col) = 2 := (new.pairs col).mpr second
    refine (shown_second second).mpr ⟨col, rfl, ?_, ?_⟩
    · rw [written, D.width_shows shows, wide]
    · rw [written, splice, if_pos (by omega), glyph, if_neg (by omega)]
  · intro q high low
    by_cases inside : q < col + D.span (F col)
    · -- the second cell of the glyph
      have wide : D.span (F col) = 2 := by omega
      obtain rfl : q = col + 1 := by omega
      exact .inl ⟨rfl, (new.pairs col).mp wide⟩
    · right
      rw [splice, if_neg (by omega), if_neg (by omega)]
      split
      · -- the glyph that ended here was cut
        rename_i cut
        obtain ⟨rfl, second, wide⟩ := cut
        right
        have lastPlace : col + D.span (F col) - 1 < n := by omega
        have ahead : col < col + D.span (F col) - 1 ∨
            col = col + D.span (F col) - 1 ∧ D.span (F (col + D.span (F col) - 1)) ≠ 0 := by
          rcases span with one | two
          · exact .inr ⟨by omega, by rw [show col + D.span (F col) - 1 = col by omega]; exact first⟩
          · exact .inl (by omega)
        have oldWide : D.span (F' (col + D.span (F col) - 1)) = 2 := by
          rw [← (before _ lastPlace).width, ← pass.old_of_wide lastPlace ahead wide, wide]
        have place : col + D.span (F col) - 1 + 1 = col + D.span (F col) := by omega
        refine ⟨place ▸ (old.pairs _).mp oldWide, ?_, fun two => absurd (narrow _ two) (by omega)⟩
        rw [← place, ne_eq, ← new.pairs]
        rcases span with one | two
        · rw [show col + D.span (F col) - 1 = col by omega]
          omega
        · rw [show col + D.span (F col) - 1 = col + 1 by omega, (new.pairs col).mp two]
          omega
      · rcases pass.ahead q (by omega) low with ⟨rfl, -⟩ | rest
        · omega
        · exact rest

theorem erase {blank} (shows : ∀ q, col ≤ q → q < n → D.span (F q) ≠ 0 ∧ D.shows blank (F q)) (inside : col < n) :
    ∀ q < n, D.Shown (D.splice left T col (n - col) fun _ => blank) F q := by
  intro q low
  have first := (shows col (Nat.le_refl _) inside).1
  by_cases before : q < col
  · exact (pass.shown q before).congr fun p upTo => pass.splice_before new first (by omega)
  · obtain ⟨visible, shown⟩ := shows q (by omega) low
    rw [shown_first visible, splice, if_pos (by omega)]
    exact shown

end

theorem finish (pass : D.Pass F F' T₀ n T n) : ∀ q < n, D.Shown T F q := pass.shown

end Pass

end Display

end Lumimux.Lib

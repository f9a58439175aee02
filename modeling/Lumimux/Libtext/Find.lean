import Lumimux.Libtext.Hex

/-!
# Searching the hex view (`hex_find` of `cmd/edit/hex.c`)

The scan visits the positions by distance. Backwards it leaves out the start, forwards it ends there.
-/

namespace Lumimux.Libtext
open List

def findOrder (start maxstart : Nat) (forward : Bool) : List Nat :=
  if forward then List.range' (start + 1) (maxstart - start) ++ range (min start maxstart + 1)
  else (range start).reverse.filter (· ≤ maxstart) ++ (List.range' (start + 1) (maxstart - start)).reverse

def Text.hexFind (t : Text) (pat : Bytes) (start : Nat) (forward : Bool) : Option Nat :=
  let total := t.hexTotal
  if pat.length = 0 ∨ pat.length > total then none
  else
    let buf := t.hexGather 0 total
    (findOrder start (total - pat.length) forward).find? fun i => (buf.drop i).take pat.length == pat

/-- The pattern stands at position `i`. -/
def Occurs (stream pat : Bytes) (i : Nat) : Prop := pat <+: stream.drop i

/-- How far a position is from the start, going around the end of the buffer. -/
def distance (total start : Nat) (forward : Bool) (i : Nat) : Nat :=
  if forward then if start < i then i - start else total - start + i
  else if i < start then start - i else start + (total - i)

/-- The answer is the nearest match other than the start. -/
def Nearest (stream pat : Bytes) (start : Nat) (forward : Bool) : Option Nat → Prop
  | none => ∀ i, Occurs stream pat i → i = start
  | some found => Occurs stream pat found ∧ found ≠ start ∧ ∀ i, Occurs stream pat i → i ≠ start →
      distance stream.length start forward found ≤ distance stream.length start forward i

variable {start maxstart total i : Nat} {forward : Bool} {stream pat : Bytes}

theorem mem_findOrder : i ∈ findOrder start maxstart forward ↔ i ≤ maxstart ∧ (i = start → forward = true) := by
  cases forward <;> simp [findOrder] <;> omega

theorem findOrder_sorted (inside : maxstart < total) : (findOrder start maxstart forward).Pairwise fun i j =>
      distance total start forward i < distance total start forward j := by
  cases forward with
  | true =>
    refine pairwise_append.mpr ⟨.imp_of_mem ?_ pairwise_lt_range',
      .imp_of_mem ?_ pairwise_lt_range, ?_⟩
    all_goals
      simp [distance]
      grind
  | false =>
    refine pairwise_append.mpr ⟨(pairwise_reverse.mpr (.imp_of_mem ?_ pairwise_lt_range)).filter _,
      pairwise_reverse.mpr (.imp_of_mem ?_ pairwise_lt_range'), ?_⟩
    all_goals
      simp [distance]
      grind

theorem Occurs.inside (nonempty : pat ≠ []) (occurs : Occurs stream pat i) : pat.length + i ≤ stream.length := by
  have fits := occurs.length_le
  have := length_pos_of_ne_nil nonempty
  rw [length_drop] at fits
  omega

/-- **A search finds the nearest other match**, unless it goes forwards and the only match is at its start. -/
theorem hexFind_nearest_iff (t : Text) (pat : Bytes) (start : Nat) (forward : Bool) (nonempty : pat ≠ []) :
    Nearest t.textSave.1 pat start forward (t.hexFind pat start forward) ↔
      (forward = true → Occurs t.textSave.1 pat start → ∃ i, i ≠ start ∧ Occurs t.textSave.1 pat i) := by
  have total : t.hexTotal = t.textSave.1.length := hexTotalLoop_eq t.lines
  have length := length_pos_of_ne_nil nonempty
  rw [Text.hexFind]
  split
  · rename_i long
    have nowhere : ∀ i, ¬ Occurs t.textSave.1 pat i := fun i occurs => by
      have := occurs.inside nonempty
      omega
    exact iff_of_true (fun i occurs => absurd occurs (nowhere i)) fun _ occurs => absurd occurs (nowhere start)
  rename_i short
  have some : t.lines ≠ [] := by
    intro none
    rw [Text.hexTotal, none, hexTotalLoop] at short
    omega
  rw [hexGather_whole some, total]
  generalize t.textSave.1 = stream at *
  have tested : ∀ i, ((stream.drop i).take pat.length == pat) = true ↔ Occurs stream pat i := fun i => by
    rw [beq_iff_eq, Occurs, prefix_iff_eq_take, eq_comm]
  have visited : ∀ i, Occurs stream pat i → (i = start → forward = true) →
      i ∈ findOrder start (stream.length - pat.length) forward := fun i occurs skipped => by
    have := occurs.inside nonempty
    exact mem_findOrder.mpr ⟨by omega, skipped⟩
  cases found : (findOrder start (stream.length - pat.length) forward).find? fun i =>
      (stream.drop i).take pat.length == pat with
  | none =>
    have missed := List.find?_eq_none.mp found
    refine iff_of_true (fun i occurs => ?_) fun forwards occurs => ?_
    · by_contra other
      exact missed i (visited i occurs fun same => absurd same other) ((tested i).mpr occurs)
    · exact absurd ((tested start).mpr occurs) (missed start (visited start occurs fun _ => forwards))
  | some first =>
    obtain ⟨here, before, after, order, missed⟩ := List.find?_eq_some_iff_append.mp found
    have sorted := @findOrder_sorted start _ _ forward (show stream.length - pat.length < stream.length by omega)
    have least : ∀ i, Occurs stream pat i → (i = start → forward = true) →
        distance stream.length start forward first ≤ distance stream.length start forward i := by
      intro i occurs skipped
      have member := visited i occurs skipped
      rw [order] at member sorted
      rcases mem_append.mp member with earlier | later
      · simpa [(tested i).mpr occurs] using missed i earlier
      · rcases mem_cons.mp later with rfl | later
        · exact le_refl _
        · exact le_of_lt ((pairwise_cons.mp (pairwise_append.mp sorted).2.1).1 i later)
    have occurs := (tested first).mp here
    by_cases own : first = start
    · subst own
      have forwards : forward = true :=
        (mem_findOrder.mp (order ▸ mem_append_right before mem_cons_self)).2 rfl
      refine iff_of_false (fun nearest => nearest.2.1 rfl) fun elsewhere => ?_
      obtain ⟨i, other, occurs'⟩ := elsewhere forwards occurs
      have := least i occurs' fun _ => forwards
      have := occurs'.inside nonempty
      simp only [distance, if_pos forwards] at *
      grind
    · exact iff_of_true ⟨occurs, own, fun i occurs' other => least i occurs' fun same => absurd same other⟩
        fun _ _ => ⟨first, own, occurs⟩

def oneLine : Text := textNew.textLoad [97, 98]

theorem oneLine_nearest : Nearest oneLine.textSave.1 [98] 0 true (oneLine.hexFind [98] 0 true) :=
  (hexFind_nearest_iff oneLine [98] 0 true (cons_ne_nil _ _)).mpr fun _ _ =>
    ⟨1, by decide, show [98] <+: [98] from prefix_refl _⟩

theorem only_match_found_again : ¬ Nearest oneLine.textSave.1 [97] 0 true (oneLine.hexFind [97] 0 true) := by
  rw [show oneLine.hexFind [97] 0 true = some 0 by decide]
  exact fun nearest => nearest.2.1 rfl

end Lumimux.Libtext

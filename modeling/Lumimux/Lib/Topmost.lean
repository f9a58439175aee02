import Mathlib.Data.List.Sort

/-!
# The topmost of a list

The element of the highest rank, found by a search (`foldl_bestStep`) and by sorting (`getLast?_sorted`).
-/

namespace Lumimux.Lib
open List

variable {α : Type*} {p : α → Bool} {rank : α → Int} {low : Int} {l : List α}

def bestStep (p : α → Bool) (rank : α → Int) (low : Int) (best : Option α) (a : α) : Option α :=
  if p a && rank a > (best.map rank).getD low then some a else best

/-- An element of the highest rank among those that qualify. -/
structure IsTop (p : α → Bool) (rank : α → Int) (l : List α) (b : α) : Prop where
  mem : b ∈ l
  qualifies : p b = true
  above : ∀ a ∈ l, p a = true → rank a ≤ rank b

theorem foldl_bestStep_some (b : α) (qualifies : p b = true) : ∃ t, l.foldl (bestStep p rank low) (some b) = some t ∧
    IsTop p rank (b :: l) t := by
  induction l generalizing b with
  | nil => exact ⟨b, rfl, mem_cons_self, qualifies, fun a member _ => by rw [mem_singleton.mp member]⟩
  | cons a l ih =>
    rw [foldl_cons, bestStep]
    split
    · rename_i higher
      obtain ⟨isOk, rises⟩ := Bool.and_eq_true_iff.mp higher
      obtain ⟨t, found, top⟩ := ih a isOk
      refine ⟨t, found, mem_cons_of_mem b top.mem, top.qualifies, fun c member ok => ?_⟩
      rcases mem_cons.mp member with rfl | rest
      · have above := top.above a mem_cons_self isOk
        have rises : rank c < rank a := by simpa using rises
        omega
      · exact top.above c rest ok
    · rename_i lower
      obtain ⟨t, found, top⟩ := ih b qualifies
      refine ⟨t, found, ?_, top.qualifies, fun c member ok => ?_⟩
      · rcases mem_cons.mp top.mem with rfl | rest
        · exact mem_cons_self
        · exact mem_cons_of_mem b (mem_cons_of_mem a rest)
      · rcases mem_cons.mp member with rfl | rest
        · exact top.above c mem_cons_self ok
        · rcases mem_cons.mp rest with rfl | later
          · have below : rank c ≤ rank b := by simpa [ok] using lower
            exact below.trans (top.above b mem_cons_self qualifies)
          · exact top.above c (mem_cons_of_mem b later) ok

/-- **The search finds the topmost**, or nothing if nothing qualifies. -/
theorem foldl_bestStep (floor : ∀ a ∈ l, p a = true → low < rank a) :
    (l.foldl (bestStep p rank low) none = none ∧ ∀ a ∈ l, p a = false) ∨
      ∃ t, l.foldl (bestStep p rank low) none = some t ∧ IsTop p rank l t := by
  induction l with
  | nil => exact .inl ⟨rfl, fun a none => absurd none not_mem_nil⟩
  | cons a l ih =>
    obtain ⟨here, rest⟩ := forall_mem_cons.mp floor
    rw [foldl_cons, bestStep]
    cases ok : p a with
    | true =>
      have rises : (decide (rank a > (Option.map rank (none : Option α)).getD low)) = true := decide_eq_true (here ok)
      rw [rises]
      exact .inr (foldl_bestStep_some a ok)
    | false =>
      rcases ih rest with ⟨nothing, none⟩ | ⟨t, found, top⟩
      · exact .inl ⟨nothing, forall_mem_cons.mpr ⟨ok, none⟩⟩
      · refine .inr ⟨t, found, mem_cons_of_mem a top.mem, top.qualifies, fun c member isOk => ?_⟩
        rcases mem_cons.mp member with rfl | later
        · rw [ok] at isOk
          cases isOk
        · exact top.above c later isOk

theorem getLast?_sorted {b : α} (sorted : l.Pairwise (rank · ≤ rank ·)) (last : l.getLast? = some b) {a : α} (member : a ∈ l) :
    rank a ≤ rank b := by
  obtain ⟨front, rfl⟩ := List.getLast?_eq_some_iff.mp last
  rcases mem_append.mp member with inFront | here
  · exact (pairwise_append.mp sorted).2.2 a inFront b mem_cons_self
  · rw [mem_singleton.mp here]

/-- **The search agrees with the order**, when no two elements have one rank. -/
theorem foldl_bestStep_eq_getLast? {order : List α} (floor : ∀ a ∈ l, p a = true → low < rank a) (distinct : (l.map rank).Nodup)
    (sorted : order.Pairwise (rank · ≤ rank ·)) (same : ∀ a, a ∈ order ↔ a ∈ l ∧ p a = true) :
    l.foldl (bestStep p rank low) none = order.getLast? := by
  rcases foldl_bestStep floor with ⟨nothing, none⟩ | ⟨t, found, top⟩
  · have empty : order = [] := by
      refine eq_nil_iff_forall_not_mem.mpr fun a member => ?_
      obtain ⟨inside, ok⟩ := (same a).mp member
      rw [none a inside] at ok
      cases ok
    rw [nothing, empty]
    rfl
  · rw [found]
    have listed := (same t).mpr ⟨top.mem, top.qualifies⟩
    cases last : order.getLast? with
    | none =>
      rw [List.getLast?_eq_none_iff.mp last] at listed
      cases listed
    | some b =>
      obtain ⟨inside, ok⟩ := (same b).mp (mem_of_getLast? last)
      have equal : rank t = rank b := le_antisymm (getLast?_sorted sorted last listed) (top.above b inside ok)
      exact congrArg some (inj_on_of_nodup_map distinct top.mem inside equal)

end Lumimux.Lib

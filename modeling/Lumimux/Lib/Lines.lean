import Mathlib.Data.List.TakeWhile
import Lumimux.Lib.Decimal

/-!
# Reading a file line by line

`fgetsLines` cuts a file into what successive calls of `fgets` return.
-/

namespace Lumimux.Lib
open List

def newline : UInt8 := 10

def fgetsLines (limit : Nat) (pending : Bytes) : Bytes → List Bytes
  | [] => if pending.isEmpty then [] else [pending]
  | b :: rest =>
    if b = newline ∨ pending.length + 1 = limit then (pending ++ [b]) :: fgetsLines limit [] rest
    else fgetsLines limit (pending ++ [b]) rest

theorem fgetsLines_push {limit pending text} (rest : Bytes) (plain : newline ∉ text)
    (short : pending.length + text.length < limit) :
    fgetsLines limit pending (text ++ rest) = fgetsLines limit (pending ++ text) rest := by
  induction text generalizing pending with
  | nil => rw [nil_append, append_nil]
  | cons b text ih =>
    rw [mem_cons, not_or] at plain
    rw [length_cons] at short
    have inside : ¬ (b = newline ∨ pending.length + 1 = limit) := by
      rintro (here | full)
      · exact plain.1 here.symm
      · omega
    have room : (pending ++ [b]).length + text.length < limit := by
      rw [length_append, length_singleton]
      omega
    rw [cons_append, fgetsLines, if_neg inside, ih plain.2 room, append_assoc, singleton_append]

theorem fgetsLines_line {limit pending text rest} (plain : newline ∉ text)
    (short : pending.length + text.length + 1 ≤ limit) :
    fgetsLines limit pending (text ++ newline :: rest) = (pending ++ text ++ [newline]) :: fgetsLines limit [] rest := by
  rw [fgetsLines_push _ plain short, fgetsLines, if_pos (.inl rfl)]

theorem fgetsLines_newline {limit pending file line} (plain : newline ∉ pending)
    (member : line ∈ fgetsLines limit pending file) : newline ∉ line.dropLast := by
  induction file generalizing pending with
  | nil =>
    rw [fgetsLines] at member
    split at member
    · cases member
    · rw [mem_singleton.mp member]
      exact fun inside => plain (mem_of_mem_dropLast inside)
  | cons b rest ih =>
    rw [fgetsLines] at member
    split at member
    · rcases mem_cons.mp member with rfl | later
      · rwa [dropLast_concat]
      · exact ih (by simp) later
    · rename_i inside
      refine ih ?_ member
      simp only [mem_append, mem_singleton, not_or]
      exact ⟨plain, fun same => inside (.inl same.symm)⟩

theorem fgetsLines_pending (limit : Nat) {pending} (nonempty : pending ≠ []) (file : Bytes) :
    ∃ more, (fgetsLines limit pending file).head? = some (pending ++ more) := by
  induction file generalizing pending with
  | nil =>
    refine ⟨[], ?_⟩
    rw [fgetsLines, if_neg (by simpa using nonempty), head?_cons, append_nil]
  | cons b rest ih =>
    rw [fgetsLines]
    split
    · exact ⟨[b], rfl⟩
    · obtain ⟨more, head⟩ := ih (append_ne_nil_of_right_ne_nil pending (cons_ne_nil b []))
      exact ⟨b :: more, by rw [head, append_assoc, singleton_append]⟩

theorem fgetsLines_head {limit pending text} (rest : Bytes) (plain : newline ∉ text)
    (short : pending.length + text.length < limit) (nonempty : pending ++ text ≠ []) :
    ∃ more, (fgetsLines limit pending (text ++ rest)).head? = some (pending ++ text ++ more) := by
  rw [fgetsLines_push rest plain short]
  exact fgetsLines_pending limit nonempty rest

end Lumimux.Lib

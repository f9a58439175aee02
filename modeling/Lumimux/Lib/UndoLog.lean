import Mathlib.Data.List.TakeWhile
import Mathlib.Tactic

/-!
# Undo logs

Two stacks of inverse operations; records with one tag are replayed together.
-/

namespace Lumimux.Lib
open List

variable {σ ω τ : Type*}

structure Tagged (ω τ : Type*) where
  op : ω
  tag : τ
  deriving DecidableEq, Repr

def Reversible (apply : σ → ω → Option (σ × ω)) : Prop :=
  ∀ ⦃s op s' inv⦄, apply s op = some (s', inv) → ∃ op', apply s' inv = some (s, op')

inductive Leads (apply : σ → ω → Option (σ × ω)) : σ → List (Tagged ω τ) → σ → Prop
  | done (s : σ) : Leads apply s [] s
  | next {s s' last : σ} {inv : ω} {record : Tagged ω τ} {rest : List (Tagged ω τ)}
      (applied : apply s record.op = some (s', inv)) (leads : Leads apply s' rest last) : Leads apply s (record :: rest) last

def replayRun (apply : σ → ω → Option (σ × ω)) : σ → List (Tagged ω τ) → List (Tagged ω τ) → Option (σ × List (Tagged ω τ))
  | s, [], dst => some (s, dst)
  | s, record :: run, dst =>
    match apply s record.op with
    | none => none
    | some (s', inv) => replayRun apply s' run (⟨inv, record.tag⟩ :: dst)

section Leads

variable {apply : σ → ω → Option (σ × ω)} {s last : σ} {record : Tagged ω τ} {run rest dst : List (Tagged ω τ)}

theorem Leads.of_nil (leads : Leads apply s ([] : List (Tagged ω τ)) last) : s = last := by
  cases leads
  rfl

theorem leads_cons_iff :
    Leads apply s (record :: rest) last ↔ ∃ s' inv, apply s record.op = some (s', inv) ∧ Leads apply s' rest last := by
  constructor
  · rintro (_ | ⟨applied, leads⟩)
    exact ⟨_, _, applied, leads⟩
  · rintro ⟨s', inv, applied, leads⟩
    exact .next applied leads

theorem leads_append_iff : Leads apply s (run ++ rest) last ↔ ∃ s', Leads apply s run s' ∧ Leads apply s' rest last := by
  induction run generalizing s with
  | nil =>
    constructor
    · exact fun leads => ⟨s, .done s, leads⟩
    · rintro ⟨s', here, leads⟩
      rw [here.of_nil]
      exact leads
  | cons record run ih =>
    rw [cons_append, leads_cons_iff]
    constructor
    · rintro ⟨s', inv, applied, leads⟩
      obtain ⟨middle, front, back⟩ := ih.mp leads
      exact ⟨middle, .next applied front, back⟩
    · rintro ⟨middle, front, back⟩
      obtain ⟨s', inv, applied, front⟩ := leads_cons_iff.mp front
      exact ⟨s', inv, applied, ih.mpr ⟨middle, front, back⟩⟩

theorem Leads.det {last'} (one : Leads apply s run last) (two : Leads apply s run last') : last = last' := by
  induction one with
  | done s => exact two.of_nil
  | next applied _ ih =>
    obtain ⟨_, _, again, rest⟩ := leads_cons_iff.mp two
    rw [applied] at again
    cases again
    exact ih rest

/-- **Replaying a run** ends where the run leads, and what it pushed leads back. -/
theorem Leads.replayRun_eq (reversible : Reversible apply) (leads : Leads apply s run last) (dst : List (Tagged ω τ)) :
    ∃ back, replayRun apply s run dst = some (last, back ++ dst) ∧ Leads apply last back s ∧
      back.map (·.tag) = (run.map (·.tag)).reverse := by
  induction leads generalizing dst with
  | done s => exact ⟨[], rfl, .done s, rfl⟩
  | @next s s' last inv record rest applied leads ih =>
    obtain ⟨back, replayed, returns, tags⟩ := ih (⟨inv, record.tag⟩ :: dst)
    obtain ⟨op, undone⟩ := reversible applied
    refine ⟨back ++ [⟨inv, record.tag⟩], ?_, ?_, ?_⟩
    · rw [replayRun, applied, append_assoc, singleton_append]
      exact replayed
    · exact leads_append_iff.mpr ⟨s', returns, .next undone (.done s)⟩
    · rw [map_append, tags, map_singleton, map_cons, reverse_cons]

end Leads

section Tags

variable {alone g c : τ} {u r u' r' : List τ}

def Blocks (alone : τ) : List τ → Prop
  | [] => True
  | g :: rest => (g ≠ alone → g ∈ rest → rest.head? = some g) ∧ Blocks alone rest

structure Separated (alone : τ) (u r : List τ) : Prop where
  blocks : Blocks alone u
  blocks' : Blocks alone r
  apart : ∀ g, g ≠ alone → g ∈ u → g ∉ r

structure Moves (alone : τ) (u r u' r' : List τ) (g : τ) (n : Nat) : Prop where
  source : u = replicate (n + 1) g ++ u'
  target : r' = replicate (n + 1) g ++ r
  stops : g ≠ alone → u'.head? ≠ some g

theorem Separated.symm (separated : Separated alone u r) : Separated alone r u :=
  ⟨separated.blocks', separated.blocks, fun g grouped inside inside' => separated.apart g grouped inside' inside⟩

theorem Blocks.of_replicate_append {n} (blocks : Blocks alone (replicate n g ++ u)) : Blocks alone u := by
  induction n with
  | zero => exact blocks
  | succ n ih => exact ih blocks.2

theorem Blocks.gone {n} (blocks : Blocks alone (replicate (n + 1) g ++ u)) (grouped : g ≠ alone)
    (stops : u.head? ≠ some g) : g ∉ u := by
  rw [replicate_succ', append_assoc] at blocks
  intro inside
  exact stops (blocks.of_replicate_append.1 grouped inside)

theorem Blocks.replicate_append (blocks : Blocks alone u) (fresh : g ≠ alone → g ∉ u) (n : Nat) :
    Blocks alone (replicate n g ++ u) := by
  induction n with
  | zero => exact blocks
  | succ n ih =>
    refine ⟨fun grouped inside => ?_, ih⟩
    cases n with
    | zero => exact absurd inside (fresh grouped)
    | succ n => rfl

section
variable {n : Nat} (moves : Moves alone u r u' r' g n)
include moves

theorem Moves.gone (separated : Separated alone u r) (grouped : g ≠ alone) : g ∉ u' := by
  have blocks := separated.blocks
  rw [moves.source] at blocks
  exact blocks.gone grouped (moves.stops grouped)

theorem Moves.mem_source : c ∈ u ↔ c = g ∨ c ∈ u' := by
  rw [moves.source, mem_append, mem_replicate]
  simp

theorem Moves.mem_target : c ∈ r' ↔ c = g ∨ c ∈ r := by
  rw [moves.target, mem_append, mem_replicate]
  simp

theorem Moves.old : c ∈ u' ∨ c ∈ r' → c ∈ u ∨ c ∈ r := by
  rw [moves.mem_source, moves.mem_target]
  tauto

end

theorem Separated.moves {n} (separated : Separated alone u r) (moves : Moves alone u r u' r' g n) :
    Separated alone u' r' := by
  have blocks := separated.blocks
  rw [moves.source] at blocks
  have fresh : g ≠ alone → g ∉ r := fun grouped => separated.apart g grouped (moves.mem_source.mpr (.inl rfl))
  refine ⟨blocks.of_replicate_append, ?_, ?_⟩
  · rw [moves.target]
    exact separated.blocks'.replicate_append fresh _
  · intro h grouped inside inside'
    rcases moves.mem_target.mp inside' with rfl | old
    · exact moves.gone separated grouped inside
    · exact separated.apart h grouped (moves.mem_source.mpr (.inr inside)) old

structure Latest (c : τ) (u r : List τ) : Prop where
  done : c ∈ u → u.head? = some c ∧ r = []
  undone : c ∈ r → r.getLast? = some c

section
variable {n : Nat} (latest : Latest c u r) (grouped : c ≠ alone) (separated : Separated alone u r)
include latest grouped separated

theorem Latest.gone (moves : Moves alone u r u' r' g n) : c ∉ u' := by
  intro inside
  have head := (latest.done (moves.mem_source.mpr (.inr inside))).1
  rw [moves.source, replicate_succ, cons_append, head?_cons, Option.some.injEq] at head
  subst head
  exact moves.gone separated grouped inside

theorem Latest.undo (moves : Moves alone u r u' r' g n) : Latest c u' r' := by
  refine ⟨fun inside => absurd inside (latest.gone grouped separated moves), fun inside => ?_⟩
  rw [moves.target]
  rcases moves.mem_target.mp inside with rfl | old
  · rw [(latest.done (moves.mem_source.mpr (.inl rfl))).2, append_nil, replicate_succ', getLast?_concat]
  · rw [getLast?_append, latest.undone old]
    rfl

theorem Latest.redo (moves : Moves alone r u r' u' g n) : Latest c u' r' := by
  have redoable : r ≠ [] := by rw [moves.source, replicate_succ]; exact cons_ne_nil g _
  have old : c ∉ u := fun inside => redoable (latest.done inside).2
  refine ⟨fun inside => ?_, fun inside => ?_⟩
  · rcases moves.mem_target.mp inside with rfl | before
    · refine ⟨by rw [moves.target, replicate_succ]; rfl, ?_⟩
      -- the group was the last of what could be redone, and all of it was redone
      have gone := moves.gone separated.symm grouped
      have last := latest.undone (moves.mem_source.mpr (.inl rfl))
      rw [moves.source] at last
      by_contra remains
      rw [getLast?_append_of_ne_nil _ remains] at last
      exact gone (mem_of_getLast? last)
    · exact absurd before old
  · have last := latest.undone (moves.mem_source.mpr (.inr inside))
    rw [moves.source, getLast?_append_of_ne_nil _ (ne_nil_of_mem inside)] at last
    exact last

end

/-- Both stacks lead from the state to the ends of its history. -/
structure Tracks (apply : σ → ω → Option (σ × ω)) (alone : τ) (s : σ) (src dst : List (Tagged ω τ)) (first last : σ) :
    Prop where
  leads : Leads apply s src first
  leads' : Leads apply s dst last
  separated : Separated alone (src.map (·.tag)) (dst.map (·.tag))

theorem Tracks.symm {apply : σ → ω → Option (σ × ω)} {s first last src dst}
    (tracks : Tracks apply alone s src dst first last) :
    Tracks apply alone s dst src last first := ⟨tracks.leads', tracks.leads, tracks.separated.symm⟩

end Tags

variable [DecidableEq τ]

def firstStep (alone : τ) : List (Tagged ω τ) → List (Tagged ω τ)
  | [] => []
  | record :: rest => if record.tag = alone then [record] else record :: rest.takeWhile (·.tag = record.tag)

def afterStep (alone : τ) : List (Tagged ω τ) → List (Tagged ω τ)
  | [] => []
  | record :: rest => if record.tag = alone then rest else rest.dropWhile (·.tag = record.tag)

/-- Replays the records of the first tag. -/
def replay (apply : σ → ω → Option (σ × ω)) (alone : τ) (s : σ) (src dst : List (Tagged ω τ)) :
    Option (σ × List (Tagged ω τ) × List (Tagged ω τ)) :=
  match replayRun apply s (firstStep alone src) dst with
  | none => none
  | some (s', dst') => some (s', afterStep alone src, dst')

section Steps

variable {alone : τ} {src dst : List (Tagged ω τ)}

theorem firstStep_append_afterStep (alone : τ) (src : List (Tagged ω τ)) :
    firstStep alone src ++ afterStep alone src = src := by
  cases src with
  | nil => rfl
  | cons record rest =>
    rw [firstStep, afterStep]
    split
    · rfl
    · rw [cons_append, takeWhile_append_dropWhile]

theorem firstStep_tags (alone : τ) (record : Tagged ω τ) (rest : List (Tagged ω τ)) :
    ∃ n, (firstStep alone (record :: rest)).map (·.tag) = replicate (n + 1) record.tag ∧ (record.tag = alone → n = 0) := by
  rw [firstStep]
  split
  · exact ⟨0, rfl, fun _ => rfl⟩
  · rename_i grouped
    refine ⟨(rest.takeWhile (·.tag = record.tag)).length, ?_, fun same => absurd same grouped⟩
    rw [map_cons, replicate_succ, List.cons.injEq]
    refine ⟨rfl, eq_replicate_iff.mpr ⟨length_map _, ?_⟩⟩
    intro tag member
    obtain ⟨other, inside, rfl⟩ := mem_map.mp member
    have same := mem_takeWhile_imp inside
    exact of_decide_eq_true same

theorem afterStep_head {record : Tagged ω τ} {rest : List (Tagged ω τ)} (grouped : record.tag ≠ alone) :
    ((afterStep alone (record :: rest)).map (·.tag)).head? ≠ some record.tag := by
  rw [afterStep, if_neg grouped, head?_map]
  intro same
  obtain ⟨other, head, tag⟩ := Option.map_eq_some_iff.mp same
  have stopped := head?_dropWhile_not (fun e : Tagged ω τ => decide (e.tag = record.tag)) rest
  rw [head] at stopped
  exact of_decide_eq_false stopped tag

theorem length_afterStep_lt (record : Tagged ω τ) (rest : List (Tagged ω τ)) :
    (afterStep alone (record :: rest)).length < (record :: rest).length := by
  obtain ⟨n, tags, -⟩ := firstStep_tags alone record rest
  have whole := congrArg List.length (firstStep_append_afterStep alone (record :: rest))
  have size := congrArg List.length tags
  rw [length_append] at whole
  rw [length_map, length_replicate] at size
  omega

theorem firstStep_run {tag : τ} {n : Nat} {run rest : List (Tagged ω τ)} (tags : run.map (·.tag) = replicate (n + 1) tag)
    (single : tag = alone → n = 0) (stops : tag ≠ alone → tag ∉ rest.map (·.tag)) : firstStep alone (run ++ rest) = run := by
  cases run with
  | nil => cases tags
  | cons record run =>
    rw [map_cons, replicate_succ, List.cons.injEq] at tags
    obtain ⟨rfl, tags⟩ := tags
    rw [cons_append, firstStep]
    split
    · rename_i standing
      rw [single standing, replicate_zero] at tags
      rw [map_eq_nil_iff.mp tags]
    · rename_i grouped
      have all : ∀ e ∈ run, decide (e.tag = record.tag) = true := by
        intro e member
        have inside : e.tag ∈ run.map (·.tag) := mem_map_of_mem member
        rw [tags] at inside
        exact decide_eq_true (eq_of_mem_replicate inside)
      have none : rest.takeWhile (fun e => decide (e.tag = record.tag)) = [] := by
        cases rest with
        | nil => rfl
        | cons e rest =>
          refine takeWhile_cons_of_neg ?_
          intro same
          exact stops grouped (by rw [map_cons, of_decide_eq_true same]; exact mem_cons_self)
      rw [takeWhile_append_of_pos all, none, append_nil]

end Steps

section Replay

variable {apply : σ → ω → Option (σ × ω)} {alone : τ} {s first last : σ} {record : Tagged ω τ}
  {rest dst back : List (Tagged ω τ)}

structure Stepped (apply : σ → ω → Option (σ × ω)) (alone : τ) (s : σ) (record : Tagged ω τ)
    (rest dst : List (Tagged ω τ)) (s' : σ) (back : List (Tagged ω τ)) : Prop where
  replayed : replay apply alone s (record :: rest) dst = some (s', afterStep alone (record :: rest), back ++ dst)
  leads : Leads apply s (firstStep alone (record :: rest)) s'
  returns : Leads apply s' back s
  tags : ∃ n, back.map (·.tag) = replicate (n + 1) record.tag ∧
    (record :: rest).map (·.tag) =
      replicate (n + 1) record.tag ++ (afterStep alone (record :: rest)).map (·.tag) ∧
    (record.tag = alone → n = 0)

theorem Leads.stepped (reversible : Reversible apply) (alone : τ) (leads : Leads apply s (record :: rest) first)
    (dst : List (Tagged ω τ)) :
    ∃ s' back, Stepped apply alone s record rest dst s' back ∧ Leads apply s' (afterStep alone (record :: rest)) first := by
  rw [← firstStep_append_afterStep alone (record :: rest)] at leads
  obtain ⟨s', front, remains⟩ := leads_append_iff.mp leads
  obtain ⟨back, replayed, returns, backTags⟩ := front.replayRun_eq reversible dst
  obtain ⟨n, stepTags, single⟩ := firstStep_tags alone record rest
  refine ⟨s', back, ⟨?_, front, returns, n, ?_, ?_, single⟩, remains⟩
  · rw [replay, replayed]
  · rw [backTags, stepTags, reverse_replicate]
  · rw [← stepTags, ← map_append, firstStep_append_afterStep]

/-- **A step replayed back restores the state** and the stack it came from. -/
theorem Stepped.replay_back (reversible : Reversible apply) {s'} (stepped : Stepped apply alone s record rest dst s' back)
    (stops : record.tag ≠ alone → record.tag ∉ dst.map (·.tag)) :
    ∃ again, replay apply alone s' (back ++ dst) (afterStep alone (record :: rest)) =
      some (s, dst, again ++ afterStep alone (record :: rest)) := by
  obtain ⟨n, backTags, -, single⟩ := stepped.tags
  have step : firstStep alone (back ++ dst) = back := firstStep_run backTags single stops
  have remains : afterStep alone (back ++ dst) = dst := by
    have whole := firstStep_append_afterStep alone (back ++ dst)
    rw [step] at whole
    exact append_cancel_left whole
  obtain ⟨again, replayed, -, -⟩ := stepped.returns.replayRun_eq reversible (afterStep alone (record :: rest))
  exact ⟨again, by rw [replay, step, replayed, remains]⟩

theorem Stepped.moves {apply : σ → ω → Option (σ × ω)} {s s'} {record : Tagged ω τ} {rest dst back : List (Tagged ω τ)}
    (stepped : Stepped apply alone s record rest dst s' back) :
    ∃ n, Moves alone ((record :: rest).map (·.tag)) (dst.map (·.tag)) ((afterStep alone (record :: rest)).map (·.tag))
      ((back ++ dst).map (·.tag)) record.tag n := by
  obtain ⟨n, backTags, stepTags, -⟩ := stepped.tags
  exact ⟨n, stepTags, by rw [map_append, backTags], afterStep_head⟩

/-- **The step lemma of an undo log**: a step can be replayed, keeps the log, and can be replayed back. -/
theorem Tracks.stepped (reversible : Reversible apply) (tracks : Tracks apply alone s (record :: rest) dst first last) :
    ∃ s' back, Stepped apply alone s record rest dst s' back ∧
      Tracks apply alone s' (afterStep alone (record :: rest)) (back ++ dst) first last ∧
      ∃ again, replay apply alone s' (back ++ dst) (afterStep alone (record :: rest)) =
        some (s, dst, again ++ afterStep alone (record :: rest)) := by
  obtain ⟨s', back, stepped, remains⟩ := tracks.leads.stepped reversible alone dst
  obtain ⟨n, moves⟩ := stepped.moves
  refine ⟨s', back, stepped, ⟨remains, ?_, tracks.separated.moves moves⟩, stepped.replay_back reversible ?_⟩
  · exact leads_append_iff.mpr ⟨s, stepped.returns, tracks.leads'⟩
  · exact fun grouped => tracks.separated.apart _ grouped (moves.mem_source.mpr (.inl rfl))

end Replay

end Lumimux.Lib

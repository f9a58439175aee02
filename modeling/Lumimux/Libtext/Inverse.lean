import Lumimux.Libtext.Undo

/-!
# Undo and redo are inverse

A redo takes back an undo, undoing everything restores the first lines, an edit discards what could be redone, and a
group is undone at once (`run_inverse`), until the counter of groups wraps.
-/

namespace Lumimux.Libtext

open Lib List

section Groups

variable {first : List Line} {depth : Nat} {s t : Text} {id : UInt32}

theorem Logged.curGroup_step (log : Logged first depth t) {call} (room : Room t call) (opened : depth ≠ 0)
    (remains : nest depth call ≠ 0) : (t.step call).curGroup = t.curGroup := by
  have edit (op : Eop) : (t.perform op).curGroup = t.curGroup := by
    have performed := performed t op
    generalize t.perform op = t' at performed ⊢
    cases performed <;> rfl
  cases call with
  | insert line col bytes => exact edit (.insert line col bytes)
  | delete line col n => exact edit (.delete line col n)
  | split line col => exact edit (.split line col)
  | join line => exact edit (.join line)
  | boundary => rfl
  | groupBegin => exact if_neg fun closed => opened (log.closed_iff.mp closed)
  | groupEnd => exact if_neg fun closed => remains (log.groupEnd.closed_iff.mp closed)
  | undo => exact (textUndo_kept t).curGroup
  | redo => exact (textRedo_kept t).curGroup

structure Inside (s : Text) (id : UInt32) (t : Text) : Prop where
  current : t.curGroup = id
  undo : ∃ run, t.undo = run ++ s.undo ∧ (∀ g ∈ groups run, g = id) ∧ Leads applyOp t.lines run s.lines ∧
    (run = [] → t.canCoalesce = false)

theorem Inside.perform (inside : Inside s id t) (op : Eop) : Inside s id (t.perform op) := by
  obtain ⟨run, undo, tags, leads, fresh⟩ := inside.undo
  have performed := performed t op
  generalize t.perform op = t' at performed ⊢
  cases performed with
  | still typing _ quiet _ =>
    refine ⟨inside.current, run, undo, tags, leads, fun none => ?_⟩
    exact Bool.eq_false_iff.mpr fun typed => Bool.false_ne_true ((fresh none).symm.trans (quiet typed))
  | edited typing coalesce quiet applied =>
    have starts : run = [] → typing = true → s.undo = [] := fun none typed =>
      absurd ((fresh none).symm.trans (quiet typed)) Bool.false_ne_true
    obtain ⟨record, run', undo', tag, leads', same⟩ :=
      edited_run (t := { t with canCoalesce := typing }) applied undo leads starts coalesce
    refine ⟨inside.current, record :: run', undo', ?_, leads', fun none => absurd none (cons_ne_nil _ _)⟩
    intro g member
    rcases mem_cons.mp member with rfl | later
    · exact tag.trans inside.current
    · refine tags g ?_
      rcases same with pushed | extended
      · rwa [← pushed]
      · rw [extended]
        exact mem_cons_of_mem _ later

/-- A call that is neither undo nor redo. -/
def Call.Plain : Call → Prop
  | .undo | .redo => False
  | _ => True

theorem Inside.step (inside : Inside s id t) (log : Logged first depth t) {call} (room : Room t call) (opened : depth ≠ 0)
    (remains : nest depth call ≠ 0) (plain : call.Plain) : Inside s id (t.step call) := by
  have current : (t.step call).curGroup = id := (log.curGroup_step room opened remains).trans inside.current
  obtain ⟨run, undo, tags, leads, -⟩ := inside.undo
  cases call with
  | insert line col bytes => exact inside.perform (.insert line col bytes)
  | delete line col n => exact inside.perform (.delete line col n)
  | split line col => exact inside.perform (.split line col)
  | join line => exact inside.perform (.join line)
  | boundary | groupBegin | groupEnd => exact ⟨current, run, undo, tags, leads, fun _ => rfl⟩
  | undo | redo => exact plain.elim

structure ClosedGroup (inside : List Call) : Prop where
  remains : Along nest (fun depth call => nest depth call ≠ 0) 1 inside
  closes : inside.foldl nest 1 = 1

theorem Logged.curGroup_run (log : Logged first depth t) (opened : depth ≠ 0) {calls} (room : Along Text.step Room t calls)
    (remains : Along nest (fun depth call => nest depth call ≠ 0) depth calls) :
    (calls.foldl Text.step t).curGroup = t.curGroup := by
  induction calls generalizing t depth with
  | nil => rfl
  | cons call calls ih =>
    exact (ih (log.step room.1) remains.1 room.2 remains.2).trans (log.curGroup_step room.1 opened remains.1)

theorem Inside.run (inside : Inside s id t) (log : Logged first depth t) (opened : depth ≠ 0) {calls}
    (room : Along Text.step Room t calls) (remains : Along nest (fun depth call => nest depth call ≠ 0) depth calls)
    (plain : ∀ call ∈ calls, call.Plain) : Inside s id (calls.foldl Text.step t) := by
  induction calls generalizing t depth with
  | nil => exact inside
  | cons call calls ih =>
    exact ih (inside.step log room.1 opened remains.1 (plain call mem_cons_self)) (log.step room.1) remains.1 room.2
      remains.2 fun call' member => plain call' (mem_cons_of_mem call member)

theorem Logged.inside (log : Logged first 0 t) : Inside t (t.groupSeq + 1) (t.step .groupBegin) :=
  ⟨if_pos (log.closed_iff.mpr rfl), [], rfl, fun _ none => absurd none not_mem_nil, .done t.lines, fun _ => rfl⟩

theorem Logged.fresh (log : Logged first 0 t) (room : Room t .groupBegin) : t.groupSeq + 1 ∉ groups t.undo := by
  intro used
  have below := log.old _ (.inl used)
  rw [toNat_succ (room.2 (log.closed_iff.mpr rfl))] at below
  omega

theorem Logged.group_undone (log : Logged first 1 t) : ∀ g ∈ groups ((t.step .groupEnd).step .undo).undo, g ≠ t.curGroup := by
  have grouped : t.curGroup ≠ 0 := fun none => Nat.one_ne_zero (log.opened.mp none)
  have closed : Logged first 0 (t.step .groupEnd) := log.groupEnd
  intro g member same
  rw [same] at member
  cases top : (t.step .groupEnd).undo with
  | nil =>
    rw [textUndo_nil top] at member
    rw [top] at member
    cases member
  | cons record rest =>
    obtain ⟨-, ⟨n, undone⟩, -⟩ := closed.undo top
    obtain ⟨last, tracks⟩ := closed.tracks
    exact (log.latest grouped).gone grouped tracks.separated undone.moves member

theorem Inside.restored (inside : Inside s id t) (log : Logged first 1 t) (fresh : id ∉ groups s.undo) :
    ((t.step .groupEnd).undo = s.undo ∧ (t.step .groupEnd).lines = s.lines) ∨
      ((t.step .groupEnd).step .undo).lines = s.lines := by
  obtain ⟨run, undo, tags, leads, -⟩ := inside.undo
  cases run with
  | nil => exact .inl ⟨undo, leads.of_nil⟩
  | cons record run =>
    right
    have grouped : id ≠ 0 := by
      rw [← inside.current]
      exact fun none => Nat.one_ne_zero (log.opened.mp none)
    have repeated : (record :: run).map (·.tag) = replicate (run.length + 1) id :=
      eq_replicate_iff.mpr ⟨length_map _, tags⟩
    have step : firstStep 0 ((record :: run) ++ s.undo) = record :: run :=
      firstStep_run repeated (fun none => absurd none grouped) fun _ => fresh
    have closed : Logged first 0 (t.step .groupEnd) := log.groupEnd
    obtain ⟨-, ⟨n, undone⟩, -⟩ := closed.undo undo
    have reached := undone.leads
    rw [show (t.step .groupEnd).undo = (record :: run) ++ s.undo from undo, step] at reached
    exact reached.det leads

end Groups

def undoTimes (n : Nat) (t : Text) : Text := (fun t : Text => t.step .undo)^[n] t

section UndoAll

variable {first : List Line} {depth : Nat} {t : Text}

theorem Logged.undone (log : Logged first depth t) (n : Nat) : Logged first depth (undoTimes n t) := by
  induction n generalizing t with
  | zero => exact log
  | succ n ih => exact ih (log.step (show Room t .undo from trivial))

theorem Logged.undo_length (log : Logged first depth t) : (t.step .undo).undo.length ≤ t.undo.length - 1 := by
  cases top : t.undo with
  | nil =>
    rw [textUndo_nil top, top]
    exact Nat.le_refl 0
  | cons record rest =>
    obtain ⟨-, ⟨n, undone⟩, -⟩ := log.undo top
    have shorter := undone.shorter
    rw [top] at shorter
    exact Nat.le_sub_one_of_lt shorter

theorem Logged.undo_group (log : Logged first depth t) {record rest} (top : t.undo = record :: rest) :
    Leads applyOp t.lines (firstStep 0 (record :: rest)) (t.step .undo).lines ∧
      (record.tag ≠ 0 → record.tag ∉ groups (t.step .undo).undo) := by
  obtain ⟨-, ⟨n, undone⟩, -⟩ := log.undo top
  obtain ⟨last, tracks⟩ := log.tracks
  rw [← top]
  exact ⟨undone.leads, undone.moves.gone tracks.separated⟩

theorem Logged.undo_all (log : Logged first depth t) {n} (enough : t.undo.length ≤ n) : (undoTimes n t).undo = [] := by
  induction n generalizing t with
  | zero => exact length_eq_zero_iff.mp (Nat.le_zero.mp enough)
  | succ n ih =>
    refine ih (log.step (show Room t .undo from trivial)) ?_
    exact log.undo_length.trans (by omega)

end UndoAll

/-- A buffer with empty stacks and no group open. -/
structure Opened (t : Text) : Prop where
  undo : t.undo = []
  redo : t.redo = []
  curGroup : t.curGroup = 0
  groupDepth : t.groupDepth = 0
  fault : t.fault = false

theorem Opened.logged {t} (opened : Opened t) : Logged t.lines 0 t := by
  obtain ⟨undo, redo, cur, depth, fault⟩ := opened
  refine ⟨⟨t.lines, ?_⟩, fun grouped => absurd cur grouped, ?_, ?_, ?_, ?_, fault⟩
  · rw [undo, redo]
    exact ⟨.done _, .done _, trivial, trivial, fun _ _ none => absurd none not_mem_nil⟩
  · rw [undo, redo]
    rintro g (none | none) <;> cases none
  · rw [cur]
    exact Nat.zero_le _
  · rw [depth]
    rfl
  · simp [cur]

/-- What undo and redo promise after the calls. -/
structure Inverse (t₀ : Text) (calls : List Call) : Prop where
  /-- a redo takes back an undo -/
  redo_undo : (calls.foldl Text.step t₀).undo ≠ [] →
    (((calls.foldl Text.step t₀).step .undo).step .redo).lines = (calls.foldl Text.step t₀).lines
  /-- undoing comes to an end -/
  undo_ends : ∃ n, (undoTimes n (calls.foldl Text.step t₀)).undo = []
  /-- and then the lines are those the history began with -/
  undo_all : ∀ n, (undoTimes n (calls.foldl Text.step t₀)).undo = [] →
    (undoTimes n (calls.foldl Text.step t₀)).lines = t₀.lines
  /-- an edit that changes the buffer leaves nothing to redo -/
  edit_discards : ∀ op, ((calls.foldl Text.step t₀).perform op).rev ≠ (calls.foldl Text.step t₀).rev →
    ((calls.foldl Text.step t₀).perform op).redo = []
  /-- in every state, one undo goes back over the records of the group at the top and leaves none of them -/
  undo_group : ∀ record rest, (calls.foldl Text.step t₀).undo = record :: rest →
    Leads applyOp (calls.foldl Text.step t₀).lines (firstStep 0 (record :: rest)) ((calls.foldl Text.step t₀).step .undo).lines ∧
      (record.tag ≠ 0 → record.tag ∉ groups ((calls.foldl Text.step t₀).step .undo).undo)
  /-- after the end of a group, one undo leaves none of its edits -/
  group_undone : ∀ earlier inside, calls = earlier ++ .groupBegin :: (inside ++ [.groupEnd]) →
    earlier.foldl nest 0 = 0 → ClosedGroup inside →
    ∀ g ∈ groups ((calls.foldl Text.step t₀).step .undo).undo,
      g ≠ ((earlier.foldl Text.step t₀).step .groupBegin).curGroup
  /-- and restores the lines there were when it began, if it only edited -/
  group_restored : ∀ earlier inside, calls = earlier ++ .groupBegin :: (inside ++ [.groupEnd]) →
    earlier.foldl nest 0 = 0 → ClosedGroup inside → (∀ call ∈ inside, call.Plain) →
    ((calls.foldl Text.step t₀).undo = (earlier.foldl Text.step t₀).undo ∧
        (calls.foldl Text.step t₀).lines = (earlier.foldl Text.step t₀).lines) ∨
      ((calls.foldl Text.step t₀).step .undo).lines = (earlier.foldl Text.step t₀).lines
  /-- no call reached outside the line array -/
  sound : (calls.foldl Text.step t₀).fault = false

theorem edit_discards (t : Text) (op : Eop) : (t.perform op).rev = t.rev ∨ (t.perform op).redo = [] := by
  have performed := performed t op
  generalize t.perform op = t' at performed ⊢
  cases performed with
  | still => exact .inl rfl
  | edited => exact .inr rfl

theorem Opened.group {t₀} (opened : Opened t₀) {earlier inside}
    (room : Along Text.step Room t₀ (earlier ++ .groupBegin :: (inside ++ [.groupEnd]))) (closed : earlier.foldl nest 0 = 0)
    (group : ClosedGroup inside) :
    Logged t₀.lines 0 (earlier.foldl Text.step t₀) ∧ Room (earlier.foldl Text.step t₀) .groupBegin ∧
      Along Text.step Room ((earlier.foldl Text.step t₀).step .groupBegin) inside ∧
      Logged t₀.lines 1 (inside.foldl Text.step ((earlier.foldl Text.step t₀).step .groupBegin)) := by
  have before := opened.logged.run room.of_append
  rw [closed] at before
  obtain ⟨begins, rest⟩ := room.later
  have after := (before.step begins).run rest.of_append
  rw [show nest 0 .groupBegin = 1 from rfl, group.closes] at after
  exact ⟨before, begins, rest.of_append, after⟩

/-- **Undo and redo are inverse** in every run whose groups and joins stay within the counters. -/
theorem run_inverse {t₀ : Text} (opened : Opened t₀) {calls : List Call} (room : Along Text.step Room t₀ calls) :
    Inverse t₀ calls := by
  have log : Logged t₀.lines (calls.foldl nest 0) (calls.foldl Text.step t₀) := opened.logged.run room
  refine ⟨fun some => ?_, ⟨_, log.undo_all (Nat.le_refl _)⟩, fun n none => ?_,
    fun op changes => (edit_discards _ op).resolve_left changes, fun _ _ top => log.undo_group top, ?_, ?_, log.sound⟩
  · obtain ⟨record, rest, top⟩ := exists_cons_of_ne_nil some
    exact (log.undo top).2.2
  · obtain ⟨last, tracks⟩ := (log.undone n).tracks
    have leads := tracks.leads
    rw [none] at leads
    exact leads.of_nil
  · rintro earlier inside rfl closed group
    obtain ⟨before, begins, during, after⟩ := opened.group room closed group
    rw [foldl_append, foldl_cons, foldl_append, ← (before.step begins).curGroup_run Nat.one_ne_zero during
      group.remains]
    exact after.group_undone
  · rintro earlier inside rfl closed group plain
    obtain ⟨before, begins, during, after⟩ := opened.group room closed group
    rw [foldl_append, foldl_cons, foldl_append]
    exact (before.inside.run (before.step begins) Nat.one_ne_zero during group.remains plain).restored after
      (before.fresh begins)

instance decidableRoom (t : Text) (call : Call) : Decidable (Room t call) := by
  cases call <;> unfold Room <;> infer_instance

def groupedCalls : List Call :=
  [.insert 0 0 [97], .groupBegin, .split 0 1, .insert 1 0 [98], .groupBegin, .insert 1 1 [99], .groupEnd, .undo, .redo,
    .join 0, .groupEnd]

theorem grouped_inverse : Along Text.step Room textNew groupedCalls ∧ Inverse textNew groupedCalls := by
  have room : Along Text.step Room textNew groupedCalls := by decide +kernel
  exact ⟨room, run_inverse ⟨rfl, rfl, rfl, rfl, rfl⟩ room⟩

def idle (seq : UInt32) : Text := { textNew with groupSeq := seq }

def emptyGroups (n : Nat) : List Call := (replicate n [.groupBegin, .groupEnd]).flatten

theorem emptyGroups_succ (n : Nat) : emptyGroups (n + 1) = .groupBegin :: .groupEnd :: emptyGroups n := by
  rw [emptyGroups, replicate_succ, flatten_cons]
  rfl

theorem run_emptyGroups (n : Nat) (seq : UInt32) :
    (emptyGroups n).foldl Text.step (idle seq) = idle (seq + UInt32.ofNat n) := by
  induction n generalizing seq with
  | zero => exact congrArg idle (UInt32.add_zero seq).symm
  | succ n ih =>
    have pair : ((idle seq).step .groupBegin).step .groupEnd = idle (seq + 1) := by
      simp [idle, textNew, Text.step, Text.textUndoGroupBegin, Text.textUndoGroupEnd]
    rw [emptyGroups_succ, foldl_cons, foldl_cons, pair, ih, Nat.add_comm n 1, UInt32.ofNat_add, UInt32.add_assoc]
    rfl

theorem nest_emptyGroups (n : Nat) : (emptyGroups n).foldl nest 0 = 0 := by
  induction n with
  | zero => rfl
  | succ n ih =>
    rw [emptyGroups_succ]
    exact ih

def wrappedCalls : List Call := emptyGroups 4294967295 ++ .groupBegin :: ([.insert 0 0 [97], .insert 0 0 [98]] ++ [.groupEnd])

theorem wrapped_not_inverse : ¬ Inverse textNew wrappedCalls := by
  intro inverse
  have start : (emptyGroups 4294967295).foldl Text.step textNew = idle uintMax := run_emptyGroups 4294967295 0
  have restored := inverse.group_restored (emptyGroups 4294967295) [.insert 0 0 [97], .insert 0 0 [98]] rfl
    (nest_emptyGroups _) ⟨by decide, by decide⟩ (by simp [Call.Plain])
  rw [wrappedCalls, foldl_append, start] at restored
  revert restored
  decide +kernel

end Lumimux.Libtext

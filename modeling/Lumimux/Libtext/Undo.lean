import Lumimux.Libtext.Files

/-!
# Undo and redo

The stacks of a buffer are an undo log over `applyOp`. A group is a step of its own as long as its id is not 0 and not
in use, which holds until the 32-bit counter wraps.
-/

namespace Lumimux.Libtext

open Lib List

def groups (stack : List Erec) : List UInt32 := stack.map (·.tag)

structure Kept (t t' : Text) : Prop where
  curGroup : t'.curGroup = t.curGroup
  groupDepth : t'.groupDepth = t.groupDepth
  groupSeq : t'.groupSeq = t.groupSeq
  canCoalesce : t'.canCoalesce = t.canCoalesce
  fault : t'.fault = t.fault

variable {t : Text} {record : Erec} {dst src rest : List Erec} {lines first : List Line} {inv op : Eop}

theorem Kept.trans {t' t''} (one : Kept t t') (two : Kept t' t'') : Kept t t'' :=
  ⟨two.1.trans one.1, two.2.trans one.2, two.3.trans one.3, two.4.trans one.4, two.5.trans one.5⟩

theorem Kept.refl (t : Text) : Kept t t := ⟨rfl, rfl, rfl, rfl, rfl⟩

theorem undoApplyOne_kept {t' dst' cursor} (one : undoApplyOne t record dst = some (t', dst', cursor)) : Kept t t' := by
  rw [undoApplyOne, Text.applyOp] at one
  cases applied : applyOp t.lines record.op with
  | none =>
    rw [applied] at one
    cases one
  | some result =>
    rw [applied] at one
    cases one
    exact ⟨rfl, rfl, rfl, rfl, rfl⟩

theorem undoRest_kept (group : UInt32) (t : Text) (src dst : List Erec) (cursor : Nat × Nat) :
    Kept t (undoRest group t src dst cursor).text := by
  induction src generalizing t dst cursor with
  | nil => exact .refl t
  | cons record src ih =>
    rw [undoRest]
    split
    · split
      · exact .refl t
      · rename_i one
        exact (undoApplyOne_kept one).trans (ih _ _ _)
    · exact .refl t

theorem undoStep_kept (t : Text) (src dst : List Erec) : Kept { t with canCoalesce := false } (undoStep t src dst).1.text := by
  cases src with
  | nil => exact .refl _
  | cons record src =>
    rw [undoStep]
    split
    · exact .refl _
    · rename_i one
      exact (undoApplyOne_kept one).trans (undoRest_kept _ _ _ _ _)

theorem textUndo_kept (t : Text) : Kept { t with canCoalesce := false } (t.step .undo) := by
  obtain ⟨cur, depth, seq, typing, fault⟩ := undoStep_kept t t.undo t.redo
  exact ⟨cur, depth, seq, typing, fault⟩

theorem textRedo_kept (t : Text) : Kept { t with canCoalesce := false } (t.step .redo) := by
  obtain ⟨cur, depth, seq, typing, fault⟩ := undoStep_kept t t.redo t.undo
  exact ⟨cur, depth, seq, typing, fault⟩

theorem undoApplyOne_spec (applied : applyOp t.lines record.op = some (lines, inv)) (dst : List Erec) :
    ∃ t', undoApplyOne t record dst = some (t', ⟨inv, record.tag⟩ :: dst, cursorAfter record.op inv) ∧ t'.lines = lines := by
  refine ⟨{ t with lines := lines, dirty := true, rev := t.rev + 1 }, ?_, rfl⟩
  rw [undoApplyOne, Text.applyOp, applied]

theorem undoRest_spec {group} (grouped : group ≠ 0) (leads : Leads applyOp t.lines src first) (dst : List Erec)
    (cursor : Nat × Nat) :
    replayRun applyOp t.lines (src.takeWhile (·.tag = group)) dst =
        some ((undoRest group t src dst cursor).text.lines, (undoRest group t src dst cursor).dst) ∧
      (undoRest group t src dst cursor).src = src.dropWhile (·.tag = group) := by
  induction src generalizing t dst cursor with
  | nil => exact ⟨rfl, rfl⟩
  | cons record src ih =>
    obtain ⟨lines, inv, applied, leads⟩ := leads_cons_iff.mp leads
    rw [undoRest]
    by_cases same : record.tag = group
    · obtain ⟨t', one, rfl⟩ := undoApplyOne_spec applied dst
      obtain ⟨replayed, rest⟩ := ih leads (⟨inv, record.tag⟩ :: dst) (cursorAfter record.op inv)
      rw [if_pos ⟨grouped, same⟩, one, takeWhile_cons_of_pos (by simpa using same),
        dropWhile_cons_of_pos (by simpa using same), replayRun, applied]
      exact ⟨replayed, rest⟩
    · rw [if_neg (fun both => same both.2), takeWhile_cons_of_neg (by simpa using same),
        dropWhile_cons_of_neg (by simpa using same)]
      exact ⟨rfl, rfl⟩

theorem undoRest_alone (t : Text) (src dst : List Erec) (cursor : Nat × Nat) :
    undoRest 0 t src dst cursor = ⟨t, src, dst, cursor⟩ := by
  cases src with
  | nil => rfl
  | cons record src => rw [undoRest, if_neg (fun both => both.1 rfl)]

theorem undoStep_spec (leads : Leads applyOp t.lines (record :: src) first) (dst : List Erec) :
    replay applyOp 0 t.lines (record :: src) dst =
      some ((undoStep t (record :: src) dst).1.text.lines, (undoStep t (record :: src) dst).1.src,
        (undoStep t (record :: src) dst).1.dst) := by
  obtain ⟨lines, inv, applied, leads⟩ := leads_cons_iff.mp leads
  obtain ⟨t', one, rfl⟩ := undoApplyOne_spec (t := { t with canCoalesce := false }) applied dst
  have step : undoStep t (record :: src) dst =
      (undoRest record.tag t' src (⟨inv, record.tag⟩ :: dst) (cursorAfter record.op inv), true) := by
    rw [undoStep]
    exact one ▸ rfl
  rw [step, replay, firstStep, afterStep]
  by_cases standing : record.tag = 0
  · rw [if_pos standing, if_pos standing, replayRun, applied, standing, undoRest_alone]
    rfl
  · obtain ⟨replayed, rest⟩ := undoRest_spec standing leads (⟨inv, record.tag⟩ :: dst) (cursorAfter record.op inv)
    rw [if_neg standing, if_neg standing, replayRun, applied]
    dsimp only
    rw [replayed, rest]

theorem textUndo_nil (none : t.undo = []) : t.step .undo = { t with canCoalesce := false } := by
  rw [Text.step, Text.textUndo, none]
  simp only [undoStep, ← none]

theorem textRedo_nil (none : t.redo = []) : t.step .redo = { t with canCoalesce := false } := by
  rw [Text.step, Text.textRedo, none]
  simp only [undoStep, ← none]

theorem undoStep_replayed (top : src = record :: rest) (leads : Leads applyOp t.lines src first) {src' dst' : List Erec}
    (replayed : replay applyOp 0 t.lines src dst = some (lines, src', dst')) :
    (undoStep t src dst).1.text.lines = lines ∧ (undoStep t src dst).1.src = src' ∧ (undoStep t src dst).1.dst = dst' := by
  subst top
  rw [undoStep_spec leads dst, Option.some.injEq, Prod.mk.injEq, Prod.mk.injEq] at replayed
  exact replayed

theorem delete_coalesced {l : Line} {col n : Nat} (within : col + n ≤ l.length) (bytes : Bytes) :
    (l.take (col + n) ++ bytes ++ l.drop (col + n)).take col ++
        (l.take (col + n) ++ bytes ++ l.drop (col + n)).drop (col + (n + bytes.length)) =
      l.take col ++ l.drop (col + n) := by
  have length : (l.take (col + n)).length = col + n := length_take_of_le within
  have front : (l.take (col + n) ++ bytes).length = col + (n + bytes.length) := by rw [length_append, length]; omega
  rw [drop_left' front, append_assoc, take_append_of_le_length (by omega), take_take,
    min_eq_left (Nat.le_add_right _ _)]

theorem applyOp_coalesced {lines' : List Line} {line col n m : Nat}
    (applied : applyOp lines op = some (lines', .delete line (col + n) m)) {before : List Line}
    (undone : applyOp lines (.delete line col n) = some (before, inv)) :
    ∃ inv', applyOp lines' (.delete line col (n + m)) = some (before, inv') := by
  cases applied_of_applyOp applied with
  | @insert front after l col' within bytes =>
    rw [applyOp_insert within, Option.some.injEq, Prod.mk.injEq, Eop.delete.injEq] at applied
    obtain ⟨rfl, rfl, rfl, rfl⟩ := applied
    rw [applyOp_delete (by omega), min_eq_left (by omega), Option.some.injEq, Prod.mk.injEq] at undone
    have length : (l.take (col + n) ++ bytes ++ l.drop (col + n)).length = l.length + bytes.length := by
      simp only [length_append, length_take, length_drop]
      omega
    exact ⟨_, by rw [applyOp_delete (by omega), min_eq_left (by omega), delete_coalesced within bytes, undone.1]⟩
  | @delete front after l col' within n' =>
    rw [applyOp_delete within] at applied
    cases applied
  | @split front after l col' within =>
    rw [applyOp_split within] at applied
    cases applied
  | @join front after l next =>
    rw [applyOp_join] at applied
    cases applied

theorem edited_undo (t : Text) (lines : List Line) (inv : Eop) (coalesce : Bool) :
    (t.edited lines inv coalesce).undo = ⟨inv, t.curGroup⟩ :: t.undo ∨
      ∃ line col n m rest, t.canCoalesce = true ∧ inv = .delete line (col + n) m ∧
        t.undo = ⟨.delete line col n, t.curGroup⟩ :: rest ∧
        (t.edited lines inv coalesce).undo = ⟨.delete line col (n + m), t.curGroup⟩ :: rest := by
  have undo : (t.edited lines inv coalesce).undo =
      if t.canCoalesce then (extendTop t.curGroup inv t.undo).getD (⟨inv, t.curGroup⟩ :: t.undo)
      else ⟨inv, t.curGroup⟩ :: t.undo := rfl
  rw [undo]
  split
  · rename_i typing
    unfold extendTop
    split
    · rename_i line' col' m line col n group rest top
      split
      · rename_i adjacent
        obtain ⟨rfl, rfl, rfl⟩ := adjacent
        exact .inr ⟨line, col, n, m, rest, typing, rfl, top, rfl⟩
      · exact .inl rfl
    · exact .inl rfl
  · exact .inl rfl

theorem edited_run {run} (applied : applyOp t.lines op = some (lines, inv)) (undo : t.undo = run ++ rest)
    (leads : Leads applyOp t.lines run first) (typing : run = [] → t.canCoalesce = true → rest = []) (coalesce : Bool) :
    ∃ record run', (t.edited lines inv coalesce).undo = record :: run' ++ rest ∧ record.tag = t.curGroup ∧
      Leads applyOp lines (record :: run') first ∧
      (groups run' = groups run ∨ groups run = t.curGroup :: groups run') := by
  rcases edited_undo t lines inv coalesce with pushed | ⟨line, col, n, m, rest', coalesces, rfl, top, extended⟩
  · obtain ⟨op', undone⟩ := applyOp_reversible applied
    rw [pushed, undo]
    exact ⟨_, run, rfl, rfl, .next undone leads, .inl rfl⟩
  · cases run with
    | nil =>
      rw [typing rfl coalesces] at undo
      rw [undo] at top
      cases top
    | cons record run =>
      rw [undo, cons_append, List.cons.injEq] at top
      obtain ⟨rfl, rfl⟩ := top
      obtain ⟨before, _, undone, leads⟩ := leads_cons_iff.mp leads
      obtain ⟨_, again⟩ := applyOp_coalesced applied undone
      exact ⟨_, run, extended, rfl, .next again leads, .inr rfl⟩

def Reachable : Eop → Prop
  | .join line => line < sizeMax
  | _ => True

inductive Performed (t : Text) (op : Eop) : Text → Prop
  | still (typing fault : Bool) (quiet : typing = true → t.canCoalesce = true) (sound : Reachable op → fault = t.fault) :
      Performed t op { t with canCoalesce := typing, fault := fault }
  | edited {lines : List Line} {inv : Eop} (typing coalesce : Bool) (quiet : typing = true → t.canCoalesce = true)
      (applied : applyOp t.lines op = some (lines, inv)) :
      Performed t op (Text.edited { t with canCoalesce := typing } lines inv coalesce)

theorem edit_performed {typing} (quiet : typing = true → t.canCoalesce = true) (coalesce : Bool) :
    Performed t op (Text.edit { t with canCoalesce := typing } op coalesce).1 := by
  cases applied : applyOp t.lines op with
  | none =>
    rw [Text.edit, Text.applyOp, applied]
    exact .still typing t.fault quiet fun _ => rfl
  | some result =>
    rw [edit_eq (t := { t with canCoalesce := typing }) applied coalesce]
    exact .edited typing coalesce quiet applied

theorem performed (t : Text) (op : Eop) : Performed t op (t.perform op) := by
  have same : Performed t op t := .still t.canCoalesce t.fault id fun _ => rfl
  have stops : Performed t op (Text.edit { t with canCoalesce := false } op false).1 :=
    edit_performed (fun h => (Bool.false_ne_true h).elim) false
  cases op with
  | insert line col bytes =>
    rw [Text.perform, Eop.call, Text.step, Text.textInsert]
    split_ifs
    · exact same
    · exact same
    · exact edit_performed id true
  | delete line col n =>
    rw [Text.perform, Eop.call, Text.step, Text.textDelete]
    split_ifs
    · exact same
    · exact same
    · exact stops
  | split line col =>
    rw [Text.perform, Eop.call, Text.step, Text.textSplit]
    split_ifs
    · exact same
    · exact stops
  | join line =>
    rw [Text.perform, Eop.call, Text.step, Text.textJoin]
    split_ifs with short past
    · exact same
    · refine .still t.canCoalesce true id fun below => absurd past ?_
      rw [Nat.mod_eq_of_lt (Nat.succ_lt_succ below)] at short
      omega
    · exact stops

def uintMax : UInt32 := 4294967295

def nest (depth : Nat) : Call → Nat
  | .groupBegin => depth + 1
  | .groupEnd => depth - 1
  | _ => depth

/-- The call wraps none of the counters. -/
def Room (t : Text) : Call → Prop
  | .groupBegin => t.groupDepth ≠ uintMax ∧ (t.groupDepth = 0 → t.groupSeq ≠ uintMax)
  | .join line => line < sizeMax
  | _ => True

/-- The stacks are an undo log back to the lines `first`. -/
structure Logged (first : List Line) (depth : Nat) (t : Text) : Prop where
  tracks : ∃ last, Tracks applyOp 0 t.lines t.undo t.redo first last
  latest : t.curGroup ≠ 0 → Latest t.curGroup (groups t.undo) (groups t.redo)
  old : ∀ g, g ∈ groups t.undo ∨ g ∈ groups t.redo → g.toNat ≤ t.groupSeq.toNat
  current : t.curGroup.toNat ≤ t.groupSeq.toNat
  nested : t.groupDepth.toNat = depth
  opened : t.curGroup = 0 ↔ depth = 0
  sound : t.fault = false

section Logged

variable {first : List Line} {depth : Nat} {t : Text}

theorem Logged.typing (log : Logged first depth t) (typing : Bool) : Logged first depth { t with canCoalesce := typing } :=
  ⟨log.1, log.2, log.3, log.4, log.5, log.6, log.7⟩

theorem Logged.edited (log : Logged first depth t) {op inv lines} (applied : applyOp t.lines op = some (lines, inv))
    (coalesce : Bool) :
    Logged first depth (t.edited lines inv coalesce) := by
  obtain ⟨last, tracks⟩ := log.tracks
  obtain ⟨record, run, undo, tag, leads, same⟩ :=
    edited_run applied (append_nil t.undo).symm tracks.leads (fun _ _ => rfl) coalesce
  rw [append_nil] at undo
  have groups' : groups (t.edited lines inv coalesce).undo = t.curGroup :: groups run := by
    rw [undo, groups, map_cons, tag]
    rfl
  have blocks : Blocks 0 (t.curGroup :: groups run) := by
    rcases same with pushed | extended
    · rw [pushed]
      exact ⟨fun grouped inside => ((log.latest grouped).done inside).1, tracks.separated.blocks⟩
    · rw [← extended]
      exact tracks.separated.blocks
  have members : ∀ g, g ∈ t.curGroup :: groups run → g.toNat ≤ t.groupSeq.toNat := by
    intro g member
    rcases mem_cons.mp member with rfl | inside
    · exact log.current
    · refine log.old g (.inl ?_)
      rcases same with pushed | extended
      · rw [← pushed]
        exact inside
      · rw [extended]
        exact mem_cons_of_mem _ inside
  refine ⟨⟨lines, ?_, .done lines, ?_⟩, fun _ => ⟨fun _ => ?_, fun inside => ?_⟩, fun g member => ?_, log.current, log.nested,
    log.opened, log.sound⟩
  · rw [undo]
    exact leads
  · rw [← groups, groups']
    exact ⟨blocks, trivial, fun _ _ _ => not_mem_nil⟩
  · rw [groups']
    exact ⟨rfl, rfl⟩
  · cases inside
  · rw [groups'] at member
    rcases member with inside | inside
    · exact members g inside
    · cases inside

theorem Logged.of_kept (log : Logged first depth t) {t'} (kept : Kept { t with canCoalesce := false } t')
    (tracks : ∃ last, Tracks applyOp 0 t'.lines t'.undo t'.redo first last)
    (latest : t.curGroup ≠ 0 → Latest t.curGroup (groups t'.undo) (groups t'.redo))
    (moved : ∀ g, g ∈ groups t'.undo ∨ g ∈ groups t'.redo → g ∈ groups t.undo ∨ g ∈ groups t.redo) :
    Logged first depth t' := by
  obtain ⟨cur, nested, seq, -, fault⟩ := kept
  refine ⟨tracks, ?_, fun g member => ?_, ?_, ?_, ?_, fault.trans log.sound⟩
  · rw [cur]
    exact latest
  · rw [seq]
    exact log.old g (moved g member)
  · rw [cur, seq]
    exact log.current
  · rw [nested]
    exact log.nested
  · rw [cur]
    exact log.opened

structure Undone (t t' : Text) (record : Erec) (n : Nat) : Prop where
  moves : Moves 0 (groups t.undo) (groups t.redo) (groups t'.undo) (groups t'.redo) record.tag n
  shorter : t'.undo.length < t.undo.length
  leads : Leads applyOp t.lines (firstStep 0 t.undo) t'.lines

theorem undoStep_tracks {src dst : List Erec} {last : List Line} {record : Erec} {rest : List Erec}
    (tracks : Tracks applyOp 0 t.lines src dst first last) (top : src = record :: rest) :
    let r := (undoStep t src dst).1
    Tracks applyOp 0 r.text.lines r.src r.dst first last ∧
      (∃ n, Moves 0 (groups src) (groups dst) (groups r.src) (groups r.dst) record.tag n) ∧ r.src.length < src.length ∧
      Leads applyOp t.lines (firstStep 0 src) r.text.lines ∧
      ∃ again, replay applyOp 0 r.text.lines r.dst r.src = some (t.lines, dst, again) := by
  subst top
  obtain ⟨lines, back, stepped, tracks', again, redone⟩ := tracks.stepped applyOp_reversible
  obtain ⟨lines', src', dst'⟩ := undoStep_replayed rfl tracks.leads stepped.replayed
  dsimp only
  rw [lines', src', dst']
  exact ⟨tracks', stepped.moves, length_afterStep_lt record rest, stepped.leads, _, redone⟩

theorem Logged.undo (log : Logged first depth t) {record rest} (top : t.undo = record :: rest) :
    Logged first depth (t.step .undo) ∧ (∃ n, Undone t (t.step .undo) record n) ∧
      ((t.step .undo).step .redo).lines = t.lines := by
  obtain ⟨last, tracks⟩ := log.tracks
  obtain ⟨tracks', ⟨n, moves⟩, shorter, leads, again, redone⟩ := undoStep_tracks tracks top
  refine ⟨log.of_kept (textUndo_kept t) ⟨last, tracks'⟩ (fun grouped => (log.latest grouped).undo grouped tracks.separated moves)
    fun g => moves.old, ⟨n, moves, shorter, leads⟩, ?_⟩
  obtain ⟨record', rest', top'⟩ : ∃ record' rest', (t.step .undo).redo = record' :: rest' := by
    have target : groups (t.step .undo).redo = _ := moves.target
    cases redo : (t.step .undo).redo with
    | nil =>
      rw [redo] at target
      cases target
    | cons record' rest' => exact ⟨record', rest', rfl⟩
  exact (undoStep_replayed (t := t.step .undo) top' tracks'.leads' redone).1

theorem Logged.redo (log : Logged first depth t) {record rest} (top : t.redo = record :: rest) :
    Logged first depth (t.step .redo) := by
  obtain ⟨last, tracks⟩ := log.tracks
  obtain ⟨tracks', ⟨n, moves⟩, -⟩ := undoStep_tracks tracks.symm top
  exact log.of_kept (textRedo_kept t) ⟨last, tracks'.symm⟩
    (fun grouped => (log.latest grouped).redo grouped tracks.separated moves) fun g member => (moves.old member.symm).symm

theorem toNat_succ {x} (room : x ≠ uintMax) : (x + 1).toNat = x.toNat + 1 := by
  have below := x.toNat_lt
  have other : x.toNat ≠ uintMax.toNat := fun same => room (UInt32.toNat_inj.mp same)
  have top : uintMax.toNat = 4294967295 := rfl
  have one : (1 : UInt32).toNat = 1 := rfl
  rw [UInt32.toNat_add, one]
  omega

section
variable (log : Logged first depth t)
include log

theorem Logged.closed_iff : t.groupDepth = 0 ↔ depth = 0 := by
  rw [← log.nested, ← UInt32.toNat_inj]
  rfl

theorem Logged.groupBegin (room : Room t .groupBegin) : Logged first (depth + 1) (t.step .groupBegin) := by
  have nested : (t.step .groupBegin).groupDepth.toNat = depth + 1 := by
    show (t.groupDepth + 1).toNat = depth + 1
    rw [toNat_succ room.1, log.nested]
  by_cases closed : t.groupDepth = 0
  · have id : t.groupSeq + 1 = (t.step .groupBegin).curGroup := (if_pos closed).symm
    have seq : t.groupSeq + 1 = (t.step .groupBegin).groupSeq := (if_pos closed).symm
    have next := toNat_succ (room.2 closed)
    have fresh : ∀ g, g ∈ groups t.undo ∨ g ∈ groups t.redo → g ≠ t.groupSeq + 1 := by
      intro g member same
      have := log.old g member
      rw [same, next] at this
      omega
    refine ⟨log.tracks, fun _ => ⟨fun inside => ?_, fun inside => ?_⟩, fun g member => ?_, ?_, nested, ?_, log.sound⟩
    · rw [← id] at inside
      exact absurd rfl (fresh _ (.inl inside))
    · rw [← id] at inside
      exact absurd rfl (fresh _ (.inr inside))
    · rw [← seq, next]
      exact Nat.le_succ_of_le (log.old g member)
    · rw [← id, ← seq]
    · rw [← id, ← UInt32.toNat_inj, next]
      simp
  · have id : t.curGroup = (t.step .groupBegin).curGroup := (if_neg closed).symm
    have seq : t.groupSeq = (t.step .groupBegin).groupSeq := (if_neg closed).symm
    have opened : t.curGroup ≠ 0 := fun none => closed (log.closed_iff.mpr (log.opened.mp none))
    refine ⟨log.tracks, ?_, ?_, ?_, nested, ?_, log.sound⟩
    · rw [← id]
      exact log.latest
    · rw [← seq]
      exact log.old
    · rw [← id, ← seq]
      exact log.current
    · rw [← id]
      simp [opened]

theorem Logged.groupEnd : Logged first (depth - 1) (t.step .groupEnd) := by
  have nested : (t.step .groupEnd).groupDepth.toNat = depth - 1 := by
    show (if t.groupDepth > 0 then t.groupDepth - 1 else t.groupDepth).toNat = depth - 1
    have zero : (0 : UInt32).toNat = 0 := rfl
    have one : (1 : UInt32).toNat = 1 := rfl
    split
    · rename_i some
      rw [gt_iff_lt, UInt32.lt_iff_toNat_lt, zero] at some
      rw [UInt32.toNat_sub_of_le _ _ (UInt32.le_iff_toNat_le.mpr (by omega)), one, log.nested]
    · rename_i none
      rw [gt_iff_lt, UInt32.lt_iff_toNat_lt, zero, log.nested] at none
      rw [log.nested]
      omega
  have closes : (t.step .groupEnd).groupDepth = 0 ↔ depth - 1 = 0 := by
    rw [← nested, ← UInt32.toNat_inj]
    rfl
  have id : (t.step .groupEnd).curGroup = if (t.step .groupEnd).groupDepth = 0 then 0 else t.curGroup := rfl
  refine ⟨log.tracks, ?_, log.old, ?_, nested, ?_, log.sound⟩
  · rw [id]
    split
    · exact fun none => absurd rfl none
    · exact log.latest
  · rw [id]
    split
    · exact Nat.zero_le _
    · exact log.current
  · rw [id]
    split
    · rename_i closed
      simp [closes.mp closed]
    · rename_i remains
      have rest : depth - 1 ≠ 0 := fun none => remains (closes.mpr none)
      rw [log.opened]
      omega

theorem Logged.perform (op : Eop) (reachable : Reachable op) : Logged first depth (t.perform op) := by
  have performed := performed t op
  generalize t.perform op = t' at performed ⊢
  cases performed with
  | still typing fault _ sound =>
    rw [sound reachable]
    exact log.typing typing
  | edited typing coalesce _ applied => exact (log.typing typing).edited applied coalesce

theorem Logged.step {call} (room : Room t call) : Logged first (nest depth call) (t.step call) := by
  cases call with
  | insert line col bytes => exact log.perform (.insert line col bytes) trivial
  | delete line col n => exact log.perform (.delete line col n) trivial
  | split line col => exact log.perform (.split line col) trivial
  | join line => exact log.perform (.join line) room
  | boundary => exact log.typing false
  | groupBegin => exact log.groupBegin room
  | groupEnd => exact log.groupEnd
  | undo =>
    cases top : t.undo with
    | nil =>
      rw [textUndo_nil top]
      exact log.typing false
    | cons record rest => exact (log.undo top).1
  | redo =>
    cases top : t.redo with
    | nil =>
      rw [textRedo_nil top]
      exact log.typing false
    | cons record rest => exact log.redo top

theorem Logged.run {calls} (room : Along Text.step Room t calls) :
    Logged first (calls.foldl nest depth) (calls.foldl Text.step t) := by
  induction calls generalizing t depth with
  | nil => exact log
  | cons call calls ih => exact ih (log.step room.1) room.2

end

end Logged

end Lumimux.Libtext

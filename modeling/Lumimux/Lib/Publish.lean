import Mathlib.Logic.Function.Basic
import Lumimux.Lib.Decimal
import Lumimux.Lib.Run

/-!
# Replacing a file by write and rename

A writer reads a file, opens a temporary one at a common path, writes and renames it; steps of different writers may
come in any order.
-/

namespace Lumimux.Lib
open List Option Function

inductive WriterStage where
  | idle
  | composed (text : Bytes)
  | opened (text : Bytes) (file : Nat)
  | written
  deriving DecidableEq, Repr

structure Publisher (ω : Type) where
  content : Nat → Bytes := fun _ => []
  /-- the number of the next new file -/
  fresh : Nat := 0
  path : Option Nat := none
  temp : Option Nat := none
  stage : ω → WriterStage := fun _ => .idle
  shown : List Bytes := []

inductive PublishStep (ω ρ : Type) where
  | read (w : ω) (request : ρ)
  | openTemp (w : ω)
  | write (w : ω)
  | rename (w : ω)
  deriving DecidableEq, Repr

namespace Publisher

variable {ω ρ : Type} [DecidableEq ω]

def visible (s : Publisher ω) : Option Bytes := s.path.map s.content

def setStage (s : Publisher ω) (w : ω) (stage : WriterStage) : Publisher ω :=
  { s with stage := Function.update s.stage w stage }

def openTemp (s : Publisher ω) (w : ω) (text : Bytes) : Publisher ω :=
  match s.temp with
  | some file => { s with content := Function.update s.content file [] }.setStage w (.opened text file)
  | none =>
    { s with
      content := Function.update s.content s.fresh []
      fresh := s.fresh + 1
      temp := some s.fresh }.setStage w (.opened text s.fresh)

def write (s : Publisher ω) (w : ω) (text : Bytes) (file : Nat) : Publisher ω :=
  let content := Function.update s.content file (text ++ (s.content file).drop text.length)
  { s with
    content := content
    shown := if s.path = some file then s.shown ++ [content file] else s.shown }.setStage w .written

def rename (s : Publisher ω) (w : ω) : Publisher ω :=
  match s.temp with
  | some file => { s with path := some file, temp := none, shown := s.shown ++ [s.content file] }.setStage w .idle
  | none => s.setStage w .idle

def step (compose : Option Bytes → ρ → Bytes) (s : Publisher ω) : PublishStep ω ρ → Publisher ω
  | .read w request => if s.stage w = .idle then s.setStage w (.composed (compose s.visible request)) else s
  | .openTemp w =>
    match s.stage w with
    | .composed text => s.openTemp w text
    | _ => s
  | .write w =>
    match s.stage w with
    | .opened text file => s.write w text file
    | _ => s
  | .rename w => if s.stage w = .written then s.rename w else s

def run (compose : Option Bytes → ρ → Bytes) (s : Publisher ω) (steps : List (PublishStep ω ρ)) : Publisher ω :=
  steps.foldl (step compose) s

theorem run_append (compose : Option Bytes → ρ → Bytes) (s : Publisher ω) (earlier later : List (PublishStep ω ρ)) :
    s.run compose (earlier ++ later) = (s.run compose earlier).run compose later := foldl_append

def start (file leftover : Option Bytes) : Publisher ω where
  content := fun n => if n = 0 then file.getD [] else leftover.getD []
  fresh := 2
  path := file.map fun _ => 0
  temp := leftover.map fun _ => 1

/-- A writer starts only while no other is under way. -/
def StartsAlone (Q : Option Bytes → Prop) (s : Publisher ω) : PublishStep ω ρ → Prop
  | .read _ _ => (∀ v, s.stage v = .idle) ∧ Q s.visible
  | _ => True

end Publisher

inductive Published {ρ : Type} (compose : Option Bytes → ρ → Bytes) (Q : Option Bytes → Prop)
    (start : Option Bytes) : List Bytes → Option Bytes → Prop
  | start : Published compose Q start [] start
  | next {shown : List Bytes} {last : Option Bytes} (request : ρ) (before : Published compose Q start shown last)
      (allowed : Q last) : Published compose Q start (shown ++ [compose last request]) (some (compose last request))

namespace Published

variable {ρ : Type} {compose : Option Bytes → ρ → Bytes} {Q : Option Bytes → Prop}
  {start last : Option Bytes} {shown : List Bytes} {ν : Type} {lt : ν → ν → Prop}

theorem rises [IsTrans ν lt] (number : Option Bytes → ν)
    (raises : ∀ file request, Q file → lt (number file) (number (some (compose file request))))
    (h : Published compose Q start shown last) : (number start :: shown.map fun text => number (some text)).Pairwise lt ∧
      ∀ n ∈ number start :: shown.map (fun text => number (some text)), n = number last ∨ lt n (number last) := by
  induction h with
  | start => simp
  | next request before allowed ih =>
    obtain ⟨rising, highest⟩ := ih
    rw [map_append, ← cons_append]
    have above : ∀ n ∈ _, lt n _ := fun n member =>
      (highest n member).elim (· ▸ raises _ request allowed) (trans_of lt · (raises _ request allowed))
    refine ⟨?_, ?_⟩
    · rw [pairwise_append]
      refine ⟨rising, pairwise_singleton .., fun n member m new => ?_⟩
      rw [mem_singleton.mp new]
      exact above n member
    · intro n member
      rcases mem_append.mp member with old | new
      · exact .inr (above n old)
      · exact .inl (mem_singleton.mp new)

theorem composed (h : Published compose Q start shown last) {text} (member : text ∈ shown) :
    ∃ file request, text = compose file request := by
  induction h with
  | start => cases member
  | next request before allowed ih =>
    rcases mem_append.mp member with old | new
    · exact ih old
    · exact ⟨_, request, mem_singleton.mp new⟩

theorem number_last (number : Option Bytes → ν) (h : Published compose Q start shown last) :
    (number start :: shown.map fun text => number (some text)).getLast? = some (number last) := by
  cases h with
  | start => rfl
  | next request before allowed => rw [map_append, ← cons_append, map_singleton, getLast?_concat]

end Published

namespace Publisher

variable {ω ρ : Type} [DecidableEq ω] {compose : Option Bytes → ρ → Bytes} {Q : Option Bytes → Prop}
  {start : Option Bytes} {s : Publisher ω}

inductive Underway (compose : Option Bytes → ρ → Bytes) (Q : Option Bytes → Prop) (s : Publisher ω) :
    WriterStage → Prop
  | composed {text : Bytes} (request : ρ) (text_eq : text = compose s.visible request) (allowed : Q s.visible) :
      Underway compose Q s (.composed text)
  | opened {text : Bytes} {file : Nat} (request : ρ) (text_eq : text = compose s.visible request)
      (allowed : Q s.visible) (temp : s.temp = some file) (empty : s.content file = []) :
      Underway compose Q s (.opened text file)
  | written {file : Nat} (request : ρ) (allowed : Q s.visible) (temp : s.temp = some file)
      (whole : s.content file = compose s.visible request) : Underway compose Q s .written

structure Serial (compose : Option Bytes → ρ → Bytes) (Q : Option Bytes → Prop)
    (start : Option Bytes) (s : Publisher ω) : Prop where
  path : ∀ file, s.path = some file → file < s.fresh ∧ s.temp ≠ some file
  temp : ∀ file, s.temp = some file → file < s.fresh
  one : (∀ v, s.stage v = .idle) ∨ ∃ w, (∀ v, v ≠ w → s.stage v = .idle) ∧ Underway compose Q s (s.stage w)
  log : Published compose Q start s.shown s.visible

theorem stage_setStage_self (s : Publisher ω) (w : ω) (stage : WriterStage) : (s.setStage w stage).stage w = stage :=
  update_self ..

theorem stage_setStage_of_ne (s : Publisher ω) {w v} (stage : WriterStage) (other : v ≠ w) :
    (s.setStage w stage).stage v = s.stage v := update_of_ne other ..

omit [DecidableEq ω] in
theorem visible_update {s t : Publisher ω} {file : Nat} {text : Bytes} (path : t.path = s.path)
    (content : t.content = Function.update s.content file text) (apart : s.path ≠ some file) : t.visible = s.visible := by
  unfold visible
  rw [path, content]
  cases at_ : s.path with
  | none => rfl
  | some shown =>
    rw [at_] at apart
    exact congrArg some (update_of_ne (fun same => apart (congrArg some same)) ..)

section
variable (compose : Option Bytes → ρ → Bytes) (s : Publisher ω)

theorem shown_step (e : PublishStep ω ρ) : s.shown <+: (s.step compose e).shown := by
  cases e with
  | read w request =>
    unfold step
    dsimp only
    split <;> exact prefix_rfl
  | openTemp w =>
    unfold step openTemp
    dsimp only
    split
    · split <;> exact prefix_rfl
    · exact prefix_rfl
  | write w =>
    unfold step write
    dsimp only
    split
    · show s.shown <+: if _ then _ else _
      split
      · exact prefix_append ..
      · exact prefix_rfl
    · exact prefix_rfl
  | rename w =>
    unfold step rename
    dsimp only
    split
    · split
      · exact prefix_append ..
      · exact prefix_rfl
    · exact prefix_rfl

theorem shown_run (steps : List (PublishStep ω ρ)) : s.shown <+: (s.run compose steps).shown :=
  run_invariant_rule (I := fun t => s.shown <+: t.shown)
    (fun t e grown => grown.trans (shown_step compose t e)) prefix_rfl steps

end

namespace Serial

section
variable (h : Serial compose Q start s)
include h

theorem underway {w} (busy : s.stage w ≠ .idle) : (∀ v, v ≠ w → s.stage v = .idle) ∧ Underway compose Q s (s.stage w) := by
  rcases h.one with idle | ⟨w', others, underway⟩
  · exact absurd (idle w) busy
  · by_cases same : w = w'
    · subst same
      exact ⟨others, underway⟩
    · exact absurd (others w same) busy

theorem openTemp_eq (w : ω) (text : Bytes) : ∃ file fresh,
      s.openTemp w text =
        { s with content := Function.update s.content file [], fresh := fresh, temp := some file }.setStage w
          (.opened text file) ∧
      s.fresh ≤ fresh ∧ file < fresh ∧ s.path ≠ some file := by
  unfold Publisher.openTemp
  split
  · rename_i file temp
    refine ⟨file, s.fresh, ?_, Nat.le_refl _, h.temp file temp, fun same => (h.path file same).2 temp⟩
    rw [← temp]
  · exact ⟨s.fresh, s.fresh + 1, rfl, Nat.le_succ _, Nat.lt_succ_self _, fun same => absurd (h.path _ same).1 (Nat.lt_irrefl _)⟩

theorem read (w : ω) (request : ρ) (alone : ∀ v, s.stage v = .idle) (allowed : Q s.visible) :
    Serial compose Q start (s.setStage w (.composed (compose s.visible request))) where
  path := h.path
  temp := h.temp
  one := by
    refine .inr ⟨w, fun v other => (stage_setStage_of_ne s _ other).trans (alone v), ?_⟩
    rw [stage_setStage_self]
    exact .composed request rfl allowed
  log := h.log

theorem openTemp {w text} (here : s.stage w = .composed text) : Serial compose Q start (s.openTemp w text) := by
  obtain ⟨others, underway⟩ := h.underway (w := w) (by rw [here]; nofun)
  rw [here] at underway
  obtain ⟨request, text_eq, allowed⟩ : ∃ request, text = compose s.visible request ∧ Q s.visible := by
    cases underway with
    | composed request text_eq allowed => exact ⟨request, text_eq, allowed⟩
  obtain ⟨file, fresh, opened, more, below, apart⟩ := h.openTemp_eq w text
  have visible : (s.openTemp w text).visible = s.visible := by
    rw [opened]
    exact visible_update rfl rfl apart
  refine ⟨?_, ?_, .inr ⟨w, ?_, ?_⟩, ?_⟩
  · rw [opened]
    intro other at_
    refine ⟨Nat.lt_of_lt_of_le (h.path other at_).1 more, fun same => ?_⟩
    cases same
    exact apart at_
  · rw [opened]
    intro other same
    cases same
    exact below
  · rw [opened]
    exact fun v other => (stage_setStage_of_ne _ _ other).trans (others v other)
  · have stage : (s.openTemp w text).stage w = .opened text file := by rw [opened, stage_setStage_self]
    have temp : (s.openTemp w text).temp = some file := by
      rw [opened]
      rfl
    have empty : (s.openTemp w text).content file = [] := by
      rw [opened]
      exact update_self ..
    rw [stage]
    exact .opened request (by rw [visible, text_eq]) (by rw [visible]; exact allowed) temp empty
  · rw [visible, opened]
    exact h.log

theorem write {w text file} (here : s.stage w = .opened text file) : Serial compose Q start (s.write w text file) := by
  obtain ⟨others, underway⟩ := h.underway (w := w) (by rw [here]; nofun)
  rw [here] at underway
  cases underway with
  | opened request text_eq allowed temp empty =>
    have apart : s.path ≠ some file := fun same => (h.path file same).2 temp
    have visible : (s.write w text file).visible = s.visible := visible_update rfl rfl apart
    refine ⟨h.path, h.temp, .inr ⟨w, fun v other => (stage_setStage_of_ne _ _ other).trans (others v other), ?_⟩, ?_⟩
    · have stage : (s.write w text file).stage w = .written := stage_setStage_self ..
      have whole : (s.write w text file).content file = text := by
        refine (update_self ..).trans ?_
        rw [empty, drop_nil, append_nil]
      rw [stage]
      exact .written request (by rw [visible]; exact allowed) temp (by rw [visible, whole, text_eq])
    · have shown : (s.write w text file).shown = s.shown := if_neg apart
      rw [visible, shown]
      exact h.log

theorem rename {w} (here : s.stage w = .written) : Serial compose Q start (s.rename w) := by
  obtain ⟨others, underway⟩ := h.underway (w := w) (by rw [here]; nofun)
  rw [here] at underway
  cases underway with
  | @written file request allowed temp whole =>
    have renamed : s.rename w =
        { s with path := some file, temp := none, shown := s.shown ++ [s.content file] }.setStage w .idle := by
      simp only [Publisher.rename, temp]
    rw [renamed]
    refine ⟨?_, nofun, .inl fun v => ?_, ?_⟩
    · intro other same
      cases same
      exact ⟨h.temp file temp, nofun⟩
    · by_cases self : v = w
      · rw [self, stage_setStage_self]
      · exact (stage_setStage_of_ne _ _ self).trans (others v self)
    · show Published compose Q start (s.shown ++ [s.content file]) (some (s.content file))
      rw [whole]
      exact .next request h.log allowed

theorem step (e : PublishStep ω ρ) (allowed : StartsAlone Q s e) : Serial compose Q start (s.step compose e) := by
  cases e with
  | read w request =>
    show Serial compose Q start (if s.stage w = .idle then _ else s)
    split
    · exact h.read w request allowed.1 allowed.2
    · exact h
  | openTemp w =>
    unfold Publisher.step
    dsimp only
    split
    · rename_i here
      exact h.openTemp here
    · exact h
  | write w =>
    unfold Publisher.step
    dsimp only
    split
    · rename_i here
      exact h.write here
    · exact h
  | rename w =>
    show Serial compose Q start (if s.stage w = .written then _ else s)
    split
    · rename_i here
      exact h.rename here
    · exact h

end

omit [DecidableEq ω] in
theorem init (compose : Option Bytes → ρ → Bytes) (Q : Option Bytes → Prop)
    (file leftover : Option Bytes) : Serial compose Q file (Publisher.start file leftover : Publisher ω) where
  path := by
    intro n at_
    obtain ⟨-, -, rfl⟩ := map_eq_some_iff.mp at_
    refine ⟨Nat.zero_lt_two, fun same => ?_⟩
    obtain ⟨-, -, wrong⟩ := map_eq_some_iff.mp same
    cases wrong
  temp := by
    intro n at_
    obtain ⟨-, -, rfl⟩ := map_eq_some_iff.mp at_
    exact Nat.one_lt_two
  one := .inl fun _ => rfl
  log := by
    have visible : (Publisher.start file leftover : Publisher ω).visible = file := by cases file <;> rfl
    rw [visible]
    exact .start

/-- **Serial writers.** What becomes visible was composed in order. -/
theorem run (h : Serial compose Q start s) {steps} (alone : Along (Publisher.step compose) (StartsAlone Q) s steps) :
    Serial compose Q start (s.run compose steps) :=
  alone.invariant (I := Serial compose Q start) (fun _ e h allowed => h.step e allowed) h

/-- **A reader that comes back** after something became visible finds a larger number. -/
theorem later {ν : Type} {lt : ν → ν → Prop} [IsTrans ν lt] (number : Option Bytes → ν)
    (raises : ∀ file request, Q file → lt (number file) (number (some (compose file request))))
    (h : Serial compose Q start s) {earlier later}
    (alone : Along (Publisher.step compose) (StartsAlone Q) s (earlier ++ later))
    (longer : (s.run compose earlier).shown.length < (s.run compose (earlier ++ later)).shown.length) :
    lt (number (s.run compose earlier).visible) (number (s.run compose (earlier ++ later)).visible) := by
  have before := (h.run alone.of_append).log
  have after := (h.run alone).log
  obtain ⟨more, same⟩ := shown_run compose (s.run compose earlier) later
  rw [← run_append] at same
  obtain ⟨front, newest, rfl⟩ : ∃ front newest, more = front ++ [newest] := by
    rcases eq_nil_or_concat more with rfl | ⟨front, newest, rfl⟩
    · rw [append_nil] at same
      exact absurd longer (by rw [same]; exact Nat.lt_irrefl _)
    · exact ⟨front, newest, concat_eq_append⟩
  -- what was visible then is in the first part of the log, what is visible now ends the second
  have rising := (after.rises number raises).1
  have last := after.number_last number
  rw [← same, ← append_assoc, map_append, map_singleton, ← cons_append] at rising last
  rw [getLast?_concat, Option.some.injEq] at last
  have old := mem_of_getLast? (before.number_last number)
  rw [← last]
  refine (pairwise_append.mp rising).2.2 _ ?_ _ (mem_singleton_self _)
  rw [map_append, ← cons_append]
  exact mem_append_left _ old

end Serial

end Publisher

end Lumimux.Lib

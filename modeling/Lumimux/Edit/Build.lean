import Mathlib.Data.List.DropRight
import Lumimux.Lib.Decimal

/-!
# Build commands (`build_shquote` and `build_expand` of `cmd/edit/edit.c`)

Both write into a bounded buffer. Quoting keeps room for an escaped quote and the end; expanding drops every token whose
name is as long as one of the known ones.
-/

namespace Lumimux.Edit
open Lib List Function

def buildAppend (out : Bytes) (outsz : Nat) (s : Bytes) : Bytes := out ++ s.take (outsz - 1 - out.length)

def shquoteLoop (outsz : Nat) (out : Bytes) : Bytes → Bytes
  | [] => out
  | c :: s =>
    if out.length < outsz - 5 then
      shquoteLoop outsz (if c = 0x27 then buildAppend out outsz [0x27, 0x5C, 0x27, 0x27] else out ++ [c]) s
    else out

def buildShquote (s : Bytes) (outsz : Nat) : Bytes :=
  buildAppend (shquoteLoop outsz (buildAppend [] outsz [0x27]) s) outsz [0x27]

/-- The value a POSIX shell gives to a text of single-quoted parts and escaped quotes, none if the text is another one
or ends inside a quoted part. -/
def shellValue : (quoted : Bool) → Bytes → Option Bytes
  | quoted, [] => if quoted then none else some []
  | true, c :: rest => if c = 0x27 then shellValue false rest else (shellValue true rest).map (c :: ·)
  | false, [_] => none
  | false, c :: d :: rest =>
    if c = 0x27 then shellValue true (d :: rest)
    else if c = 0x5C ∧ d = 0x27 then (shellValue false rest).map (0x27 :: ·) else none

/-- The shell reads the text as one word with this value. -/
def ShellWord (text value : Bytes) : Prop := text ≠ [] ∧ shellValue false text = some value

def quotedByte (c : UInt8) : Bytes := if c = 0x27 then [0x27, 0x5C, 0x27, 0x27] else [c]

def quotedForm (s : Bytes) : Bytes := 0x27 :: (s.flatMap quotedByte ++ [0x27])

variable {s out tmpl : Bytes} {outsz : Nat}

theorem shellValue_open (rest : Bytes) : shellValue false (0x27 :: rest) = shellValue true rest := by
  cases rest <;> simp [shellValue]

theorem shellValue_quoted (s rest : Bytes) :
    shellValue true (s.flatMap quotedByte ++ rest) = (shellValue true rest).map (s ++ ·) := by
  induction s with
  | nil => simp
  | cons c s ih =>
    rw [flatMap_cons, append_assoc, quotedByte]
    split
    · rename_i same
      simp [shellValue, shellValue_open, ih, same, comp_def]
    · rename_i plain
      simp [shellValue, ih, plain, comp_def]

theorem quotedForm_word (s : Bytes) : ShellWord (quotedForm s) s := by
  refine ⟨cons_ne_nil _ _, ?_⟩
  rw [quotedForm, shellValue_open, shellValue_quoted]
  simp [shellValue]

theorem length_quotedByte (c : UInt8) : 0 < (quotedByte c).length ∧ (quotedByte c).length ≤ 4 := by
  unfold quotedByte
  split <;> simp

theorem shquoteLoop_spec (room : out.length + 2 ≤ outsz) : ∃ kept, kept <+: s ∧
      shquoteLoop outsz out s = out ++ kept.flatMap quotedByte ∧ (shquoteLoop outsz out s).length + 2 ≤ outsz ∧
      (out.length + (s.flatMap quotedByte).length + 5 ≤ outsz → kept = s) := by
  induction s generalizing out with
  | nil => exact ⟨[], nil_prefix, by simp [shquoteLoop], room, fun _ => rfl⟩
  | cons c s ih =>
    have bounds := length_quotedByte c
    rw [shquoteLoop, flatMap_cons, length_append]
    split
    · have written : (if c = 0x27 then buildAppend out outsz [0x27, 0x5C, 0x27, 0x27] else out ++ [c]) =
          out ++ quotedByte c := by
        unfold quotedByte buildAppend
        split
        · rw [take_of_length_le (show 4 ≤ _ by omega)]
        · rfl
      rw [written]
      obtain ⟨kept, front, loop, inside, whole⟩ := @ih (out ++ quotedByte c) (by rw [length_append]; omega)
      refine ⟨c :: kept, (prefix_cons_inj c).mpr front, by rw [loop]; simp, inside, fun fits => ?_⟩
      rw [length_append] at whole
      rw [whole (by omega)]
    · exact ⟨[], nil_prefix, by simp, room, fun fits => by omega⟩

/-- **Quoting is safe**: the shell reads one word, whose value begins the text, and is all of it when three bytes are
left behind its quoted form and the terminator. -/
theorem buildShquote_word (s : Bytes) (outsz : Nat) (room : 6 ≤ outsz) :
    (buildShquote s outsz).length < outsz ∧ ∃ value, ShellWord (buildShquote s outsz) value ∧ value <+: s ∧
      ((quotedForm s).length + 4 ≤ outsz → value = s) := by
  have start : buildAppend [] outsz [0x27] = [0x27] := take_of_length_le (show 1 ≤ outsz - 1 - 0 by omega)
  obtain ⟨kept, front, loop, inside, whole⟩ := @shquoteLoop_spec s [0x27] outsz (show 1 + 2 ≤ outsz by omega)
  have text : buildShquote s outsz = quotedForm kept := by
    rw [buildShquote, start, buildAppend, take_of_length_le (show 1 ≤ _ by omega), loop]
    rfl
  have length : (shquoteLoop outsz [0x27] s).length + 1 = (quotedForm kept).length := by
    rw [loop]
    simp [quotedForm]
  rw [text]
  refine ⟨by omega, kept, quotedForm_word kept, front, fun fits => whole ?_⟩
  simp [quotedForm] at fits ⊢
  omega

theorem path_word : (buildShquote (ascii "it's") 16).length < 16 ∧
      ∃ value, ShellWord (buildShquote (ascii "it's") 16) value ∧ value <+: ascii "it's" ∧
        ((quotedForm (ascii "it's")).length + 4 ≤ 16 → value = ascii "it's") :=
  buildShquote_word (ascii "it's") 16 (by decide)

theorem fitting_byte_dropped : (quotedForm [0x61]).length < 6 ∧ ShellWord (buildShquote [0x61] 6) [] := by
  refine ⟨by decide, by decide, by decide⟩

def pathMax : Nat := 4096

def fileExt (path : Bytes) : Bytes :=
  let name := path.rtakeWhile (· != 0x2F)
  if 0x2E ∈ name then name.rtakeWhile (· != 0x2E) else []

structure BuildFile where
  path : Bytes
  cwd : Option Bytes

namespace BuildFile

def abspath (f : BuildFile) : Bytes :=
  let cut := f.path.take (pathMax - 1)
  if f.path.head? = some 0x2F then cut
  else
    match f.cwd with
    | none => cut
    | some cwd => if (cwd ++ 0x2F :: f.path).length < pathMax then cwd ++ 0x2F :: f.path else cut

def name (f : BuildFile) : Bytes := f.abspath.rtakeWhile (· != 0x2F)

def dir (f : BuildFile) : Bytes :=
  if 0x2F ∈ f.abspath then
    if f.name.length + 1 = f.abspath.length then ascii "/" else f.abspath.take (f.abspath.length - f.name.length - 1)
  else ascii "."

def base (f : BuildFile) : Bytes :=
  let ext := f.name.rtakeWhile (· != 0x2E)
  if 0x2E ∈ f.name ∧ ext.length + 1 ≠ f.name.length then f.name.take (f.name.length - ext.length - 1) else f.name

def value (f : BuildFile) (token : Bytes) : Option Bytes :=
  if token = ascii "file" then some f.abspath
  else if token = ascii "filedir" then some f.dir
  else if token = ascii "filebase" then some f.base
  else if token = ascii "filename" then some f.name
  else if token = ascii "fileext" then some (fileExt f.abspath)
  else none

end BuildFile

/-- The name of the token a text begins with: `$(`, and what stands in front of the next `)`. -/
def token : Bytes → Option Bytes
  | c :: d :: rest => if c = 0x24 ∧ d = 0x28 ∧ 0x29 ∈ rest then some (rest.takeWhile (· != 0x29)) else none
  | _ => none

def swallowed (name : Bytes) : Bool := name.length = 4 || name.length = 7 || name.length = 8

/-- The loop of `build_expand`; `skip` is how many bytes of the template it jumps over. -/
def expandLoop (f : BuildFile) (outsz : Nat) : (skip : Nat) → (out : Bytes) → Bytes → Bytes
  | _, out, [] => out
  | skip + 1, out, _ :: rest => expandLoop f outsz skip out rest
  | 0, out, c :: rest =>
    if out.length < outsz - 1 then
      match (token (c :: rest)).filter swallowed with
      | some name => expandLoop f outsz (name.length + 2) (buildAppend out outsz ((f.value name).getD [])) rest
      | none => expandLoop f outsz 0 (out ++ [c]) rest
    else out

def buildExpand (f : BuildFile) (tmpl : Bytes) (outsz : Nat) : Bytes := expandLoop f outsz 0 [] tmpl

/-- The template with its tokens replaced, where `taken` says which names are tokens. -/
def replaced (f : BuildFile) (taken : Bytes → Bool) : (skip : Nat) → Bytes → Bytes
  | _, [] => []
  | skip + 1, _ :: rest => replaced f taken skip rest
  | 0, c :: rest =>
    match (token (c :: rest)).filter taken with
    | some name => (f.value name).getD [] ++ replaced f taken (name.length + 2) rest
    | none => c :: replaced f taken 0 rest

def known (f : BuildFile) (name : Bytes) : Bool := (f.value name).isSome

/-- No unknown token is as long as a known one. -/
def NoLookalike (f : BuildFile) (tmpl : Bytes) : Prop :=
  ∀ text, text <:+ tmpl → ∀ name ∈ token text, swallowed name = true → known f name = true

variable {f : BuildFile} {c : UInt8} {rest name after : Bytes}

theorem takeWhile_closed (inside : 0x29 ∉ name) (after : Bytes) :
    (name ++ 0x29 :: after).takeWhile (· != 0x29) = name := by
  rw [takeWhile_append_of_pos (by simpa using fun b member => ne_of_mem_of_not_mem member inside)]
  simp

theorem token_split (found : token (c :: rest) = some name) :
    c = 0x24 ∧ 0x29 ∉ name ∧ ∃ after, rest = 0x28 :: (name ++ 0x29 :: after) := by
  cases rest with
  | nil => cases found
  | cons d rest =>
    simp only [token, Option.ite_none_right_eq_some, Option.some.injEq] at found
    obtain ⟨⟨dollar, rfl, closed⟩, rfl⟩ := found
    obtain ⟨front, after, rfl, inside⟩ := eq_append_cons_of_mem closed
    rw [takeWhile_closed inside]
    exact ⟨dollar, inside, after, rfl⟩

theorem known_spec (found : known f name = true) : swallowed name = true ∧ 0x24 ∉ name := by
  simp only [known, BuildFile.value] at found
  split_ifs at found <;> simp_all <;> decide

theorem expandLoop_eq {skip : Nat} (fits : out.length + (replaced f swallowed skip tmpl).length < outsz) :
    expandLoop f outsz skip out tmpl = out ++ replaced f swallowed skip tmpl := by
  induction tmpl generalizing skip out with
  | nil => simp [expandLoop, replaced]
  | cons c rest ih =>
    cases skip with
    | succ skip => exact ih fits
    | zero =>
      rw [expandLoop]
      rw [replaced] at fits ⊢
      cases found : (token (c :: rest)).filter swallowed with
      | none =>
        simp only [found, length_cons] at fits ⊢
        rw [if_pos (by omega), ih (by simp; omega)]
        simp
      | some name =>
        simp only [found, length_append] at fits ⊢
        split
        · rw [buildAppend, take_of_length_le (by omega), ih (by simp; omega), append_assoc]
        · have none : (f.value name).getD [] ++ replaced f swallowed (name.length + 2) rest = [] :=
            length_eq_zero_iff.mp (by rw [length_append]; omega)
          rw [none, append_nil]

theorem length_replaced_skip (front : Bytes) (inside : 0x29 ∉ front) (after : Bytes) :
    (replaced f (known f) (front.length + 1) (front ++ 0x29 :: after)).length ≤
      (replaced f (known f) 0 (front ++ 0x29 :: after)).length := by
  induction front with
  | nil =>
    have plain : token (0x29 :: after) = none := by cases after <;> rfl
    simp [replaced, plain]
  | cons c front ih =>
    rw [mem_cons, not_or] at inside
    rw [cons_append, length_cons, replaced, replaced]
    cases found : (token (c :: (front ++ 0x29 :: after))).filter (known f) with
    | none => exact (ih inside.2).trans (Nat.le_succ _)
    | some name =>
      obtain ⟨-, closed, after', text⟩ := token_split (Option.filter_eq_some_iff.mp found).1
      have same := congrArg (List.takeWhile (· != 0x29)) text
      rw [takeWhile_closed inside.2, ← cons_append, takeWhile_closed (by simp [closed])] at same
      subst same
      simp

theorem noLookalike_cons : NoLookalike f (c :: rest) ↔
      (∀ name ∈ token (c :: rest), swallowed name = true → known f name = true) ∧ NoLookalike f rest := by
  simp [NoLookalike, suffix_cons_iff, or_imp, forall_and]

theorem noLookalike_drop (front : Bytes) (plain : 0x24 ∉ front) :
    NoLookalike f (front ++ after) ↔ NoLookalike f after := by
  induction front with
  | nil => rfl
  | cons c front ih =>
    rw [mem_cons, not_or] at plain
    rw [cons_append, noLookalike_cons, ih plain.2, and_iff_right]
    intro name found
    exact absurd (token_split found).1.symm plain.1

theorem replaced_eq_iff (f : BuildFile) (tmpl : Bytes) (skip : Nat) :
    (replaced f swallowed skip tmpl).length ≤ (replaced f (known f) skip tmpl).length ∧
      (replaced f swallowed skip tmpl = replaced f (known f) skip tmpl ↔ NoLookalike f (tmpl.drop skip)) := by
  induction tmpl generalizing skip with
  | nil => simp [replaced, NoLookalike, token]
  | cons c rest ih =>
    cases skip with
    | succ skip => exact ih skip
    | zero =>
      rw [replaced, replaced, drop_zero, noLookalike_cons]
      cases found : token (c :: rest) with
      | none => simpa using ih 0
      | some name =>
        obtain ⟨-, closed, after, text⟩ := token_split found
        obtain ⟨shorter, agree⟩ := ih (name.length + 2)
        by_cases taken : known f name = true
        · obtain ⟨long, plain⟩ := known_spec taken
          have behind := @noLookalike_drop f after (0x28 :: (name ++ [0x29])) (by simp [plain])
          rw [append_cons, ← cons_append] at text
          rw [text, drop_left' (by simp), ← behind, ← text] at agree
          simpa [Option.filter, long, taken, agree] using shorter
        · by_cases long : swallowed name = true
          · have back := @length_replaced_skip f (0x28 :: name) (by simp [closed]) after
            rw [cons_append, ← text, length_cons] at back
            have unset : f.value name = none := by simpa [known] using taken
            have shrinks : (replaced f swallowed (name.length + 2) rest).length <
                (c :: replaced f (known f) 0 rest).length := Nat.lt_succ_of_le (shorter.trans back)
            have differ := fun same => shrinks.ne (congrArg List.length same)
            simpa [Option.filter, long, taken, unset] using And.intro shrinks.le differ
          · simpa [Option.filter, long, taken] using ih 0

/-- **Expansion touches only its own tokens** exactly if no unknown token is as long as a known one. -/
theorem buildExpand_eq_iff (f : BuildFile) (tmpl : Bytes) (outsz : Nat)
    (fits : (replaced f (known f) 0 tmpl).length < outsz) :
    buildExpand f tmpl outsz = replaced f (known f) 0 tmpl ↔ NoLookalike f tmpl := by
  obtain ⟨shorter, agree⟩ := replaced_eq_iff f tmpl 0
  rw [buildExpand, expandLoop_eq (by rw [length_nil]; omega), nil_append, agree, drop_zero]

def mainFile : BuildFile := ⟨ascii "/src/main.c", none⟩

theorem compile_expanded : (replaced mainFile (known mainFile) 0 (ascii "cc $(file) $(x)")).length < 64 ∧
      NoLookalike mainFile (ascii "cc $(file) $(x)") := by
  have fits : (replaced mainFile (known mainFile) 0 (ascii "cc $(file) $(x)")).length < 64 := by decide +kernel
  exact ⟨fits, (buildExpand_eq_iff mainFile (ascii "cc $(file) $(x)") 64 fits).mp (by decide +kernel)⟩

theorem unknown_token_dropped : (replaced mainFile (known mainFile) 0 (ascii "$(HOME)")).length < 64 ∧
      buildExpand mainFile (ascii "$(HOME)") 64 ≠ replaced mainFile (known mainFile) 0 (ascii "$(HOME)") := by
  decide +kernel

end Lumimux.Edit

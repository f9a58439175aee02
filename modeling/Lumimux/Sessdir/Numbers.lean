import Mathlib.Data.List.GetD
import Mathlib.Logic.Equiv.Basic
import Lumimux.Lib.ListEdit
import Lumimux.Sessdir.StateText

/-!
# Stable window numbers

The number map assigns windows to numbers, 0 for a spare one.
-/

namespace Lumimux.Sessdir
open Lib List

def slotAt (nums : List Int) (n : Nat) : Int := nums.getD n 0

def used (nums : List Int) : List Int := nums.filter (· ≠ 0)

theorem used_append (xs ys : List Int) : used (xs ++ ys) = used xs ++ used ys := filter_append ..

theorem used_cons (n : Int) (rest : List Int) : used (n :: rest) = if n = 0 then used rest else n :: used rest := by
  unfold used
  by_cases zero : n = 0
  · rw [if_pos zero, filter_cons_of_neg (by simpa using zero)]
  · rw [if_neg zero, filter_cons_of_pos (by simpa using zero)]

theorem used_replicate (k : Nat) : used (replicate k 0) = [] := by
  simp [used]

variable {nums : List Int} {pid a b : Int} {i j : Nat} {ctx : StateCtx}

theorem mem_used {n} : n ∈ used nums ↔ n ∈ nums ∧ n ≠ 0 := by
  simp [used]

theorem slotAt_append_zeros (nums : List Int) (k n : Nat) : slotAt (nums ++ replicate k 0) n = slotAt nums n := by
  unfold slotAt
  by_cases inside : n < nums.length
  · rw [getD_append _ _ _ _ inside]
  · rw [getD_append_right _ _ _ _ (by omega), getD_eq_default nums 0 (by omega), getD_eq_getElem?_getD,
      getElem?_replicate]
    split <;> rfl

theorem slotAt_middle (xs : List Int) (y : Int) (zs : List Int) (n : Nat) :
    slotAt (xs ++ y :: zs) n = Function.update (slotAt (xs ++ 0 :: zs)) xs.length y n := by
  unfold slotAt
  by_cases here : n = xs.length
  · subst here
    simp
  · rw [Function.update_of_ne here]
    by_cases before : n < xs.length
    · rw [getD_append _ _ _ _ before, getD_append _ _ _ _ before]
    · rw [getD_append_right _ _ _ _ (by omega), getD_append_right _ _ _ _ (by omega)]
      obtain ⟨k, more⟩ : ∃ k, n - xs.length = k + 1 := ⟨n - xs.length - 1, by omega⟩
      rw [more]
      rfl

theorem split_of_findIdx {v slot} (found : nums.findIdx? (· = v) = some slot) :
    ∃ xs zs, nums = xs ++ v :: zs ∧ xs.length = slot ∧ v ∉ xs := by
  obtain ⟨inside, here, earlier⟩ := List.findIdx?_eq_some_iff_getElem.mp found
  have value : nums[slot] = v := by simpa using here
  refine ⟨nums.take slot, nums.drop (slot + 1), ?_, length_take_of_le inside.le, fun member => ?_⟩
  · rw [← value, ← drop_eq_getElem_cons inside, take_append_drop]
  · obtain ⟨j, below, same⟩ := mem_take_iff_getElem.mp member
    exact earlier j (by omega) (by simpa using same)

theorem assignNum_spec (room : (used nums).length < maxWindows) (real : pid ≠ 0) :
    ∃ n, slotAt nums n = 0 ∧ (∀ m < n, slotAt nums m ≠ 0) ∧
      slotAt (assignNum nums pid) = Function.update (slotAt nums) n pid ∧
      (used (assignNum nums pid)).Perm (used nums ++ [pid]) ∧
      (nums.length ≤ maxWindows → (assignNum nums pid).length ≤ maxWindows) := by
  unfold assignNum
  cases found : nums.findIdx? (· = 0) with
  | some slot =>
    obtain ⟨xs, zs, rfl, rfl, nonzero⟩ := split_of_findIdx found
    refine ⟨xs.length, ?_, ?_, ?_, ?_, ?_⟩
    · simp [slotAt]
    · intro m below
      rw [slotAt, getD_append _ _ _ _ below, getD_eq_getElem _ _ below]
      exact fun zero => nonzero (zero ▸ getElem_mem below)
    · dsimp only
      rw [set_middle]
      exact funext fun n => slotAt_middle xs pid zs n
    · dsimp only
      rw [set_middle, used_append, used_cons, if_neg real, used_append, used_cons, if_pos rfl, append_assoc]
      exact (perm_append_singleton pid (used zs)).symm.append_left (used xs)
    · simp
  | none =>
    have full : ∀ v ∈ nums, v ≠ 0 := by simpa using found
    have all : used nums = nums := filter_eq_self.mpr (by simpa using full)
    rw [all] at room
    dsimp only
    rw [if_pos room]
    refine ⟨nums.length, ?_, ?_, ?_, ?_, ?_⟩
    · rw [slotAt, getD_eq_default _ _ (Nat.le_refl _)]
    · intro m below
      rw [slotAt, getD_eq_getElem _ _ below]
      exact full _ (getElem_mem below)
    · funext n
      have moved := slotAt_middle nums pid [] n
      rwa [show nums ++ [0] = nums ++ replicate 1 0 from rfl, show slotAt (nums ++ replicate 1 0) = slotAt nums
        from funext (slotAt_append_zeros nums 1)] at moved
    · rw [used_append, used_cons, if_neg real]
      exact List.Perm.refl _
    · intro _
      rw [length_append, length_singleton]
      omega

theorem numsTrim_spec (nums : List Int) : ∃ k, nums = numsTrim nums ++ replicate k 0 := by
  have trailing : ∀ v ∈ nums.rtakeWhile (· = 0), v = 0 := by
    intro v member
    simpa using mem_rtakeWhile_imp member
  refine ⟨(nums.rtakeWhile (· = 0)).length, ?_⟩
  rw [← eq_replicate_of_mem trailing, numsTrim, rdropWhile_append_rtakeWhile]

theorem freeNum_spec (distinct : (used nums).Nodup) (real : pid ≠ 0) :
    (∀ n, slotAt (numsTrim (freeNum nums pid)) n = if slotAt nums n = pid then 0 else slotAt nums n) ∧
      used (numsTrim (freeNum nums pid)) = (used nums).erase pid ∧ (numsTrim (freeNum nums pid)).length ≤ nums.length := by
  obtain ⟨k, trimmed⟩ := numsTrim_spec (freeNum nums pid)
  have slots (n : Nat) : slotAt (numsTrim (freeNum nums pid)) n = slotAt (freeNum nums pid) n := by
    conv_rhs => rw [trimmed, slotAt_append_zeros]
  have windows : used (numsTrim (freeNum nums pid)) = used (freeNum nums pid) := by
    conv_rhs => rw [trimmed, used_append, used_replicate, append_nil]
  have shorter : (numsTrim (freeNum nums pid)).length ≤ (freeNum nums pid).length := by
    conv_rhs => rw [trimmed, length_append]
    omega
  simp only [slots, windows]
  unfold freeNum at shorter ⊢
  cases found : nums.findIdx? (· = pid) with
  | none =>
    have absent : ∀ v ∈ nums, v ≠ pid := by simpa using found
    rw [found] at shorter
    refine ⟨fun n => ?_, ?_, shorter⟩
    · rw [if_neg]
      unfold slotAt
      by_cases inside : n < nums.length
      · rw [getD_eq_getElem _ _ inside]
        exact absent _ (getElem_mem inside)
      · rw [getD_eq_default _ _ (by omega)]
        exact real.symm
    · rw [erase_of_not_mem]
      exact fun member => absent pid (mem_used.mp member).1 rfl
  | some slot =>
    obtain ⟨xs, zs, rfl, rfl, absent⟩ := split_of_findIdx found
    rw [found] at shorter
    dsimp only at shorter ⊢
    rw [set_middle] at shorter ⊢
    rw [used_append, used_cons, if_neg real] at distinct
    have behind : pid ∉ used zs := (nodup_cons.mp (nodup_append.mp distinct).2.1).1
    refine ⟨fun n => ?_, ?_, by simpa using shorter⟩
    · rw [slotAt_middle xs pid zs]
      by_cases here : n = xs.length
      · subst here
        rw [Function.update_self, if_pos rfl]
        simp [slotAt]
      · rw [Function.update_of_ne here, if_neg]
        unfold slotAt
        by_cases inside : n < (xs ++ 0 :: zs).length
        · rw [getD_eq_getElem _ _ inside]
          intro same
          have member := getElem_mem inside
          rw [same, mem_append, mem_cons] at member
          rcases member with left | zero | right
          · exact absent left
          · exact real zero
          · exact behind (mem_used.mpr ⟨right, real⟩)
        · rw [getD_eq_default _ _ (by omega)]
          exact real.symm
    · rw [used_append, used_append, used_cons, if_pos rfl, used_cons, if_neg real, erase_append_right,
        erase_cons_head]
      exact fun member => absent (mem_used.mp member).1

theorem findSlots_spec (nums : List Int) (a b : Int) :
    (∀ i, (findSlots nums a b).1 = some i → nums[i]? = some a) ∧ ∀ j, (findSlots nums a b).2 = some j → nums[j]? = some b := by
  unfold findSlots
  refine foldlRecOn (motive := fun found : Option Nat × Option Nat =>
    (∀ i, found.1 = some i → nums[i]? = some a) ∧ ∀ j, found.2 = some j → nums[j]? = some b)
    nums.zipIdx _ ⟨fun i none => absurd none.symm (by simp), fun j none => absurd none.symm (by simp)⟩ fun found holds slot member => ?_
  have here : nums[slot.2]? = some slot.1 := by
    have := mem_zipIdx_iff_getElem?.mp member
    simpa using this
  by_cases isA : slot.1 = a
  · rw [if_pos isA]
    refine ⟨fun i same => ?_, holds.2⟩
    rw [← Option.some.inj same, here, isA]
  · rw [if_neg isA]
    by_cases isB : slot.1 = b
    · rw [if_pos isB]
      refine ⟨holds.1, fun j same => ?_⟩
      rw [← Option.some.inj same, here, isB]
    · rw [if_neg isB]
      exact holds

theorem slot_unique (distinct : (used nums).Nodup) (real : pid ≠ 0)
    (first : nums[i]? = some pid) (second : nums[j]? = some pid) : i = j := by
  obtain ⟨xs, zs, rfl, rfl⟩ := split_of_getElem? first
  rw [used_append, used_cons, if_neg real] at distinct
  obtain ⟨-, right, apart⟩ := nodup_append.mp distinct
  have behind : pid ∉ used zs := (nodup_cons.mp right).1
  have before : pid ∉ used xs := fun member => apart pid member pid mem_cons_self rfl
  rcases Nat.lt_trichotomy j xs.length with less | same | more
  · rw [getElem?_append_left less] at second
    exact absurd (mem_used.mpr ⟨mem_of_getElem? second, real⟩) before
  · exact same.symm
  · rw [getElem?_append_right more.le] at second
    obtain ⟨k, rest⟩ : ∃ k, j - xs.length = k + 1 := ⟨j - xs.length - 1, by omega⟩
    rw [rest, getElem?_cons_succ] at second
    exact absurd (mem_used.mpr ⟨mem_of_getElem? second, real⟩) behind

theorem set_set_eq_map (distinct : (used nums).Nodup) (realA : a ≠ 0) (realB : b ≠ 0)
    (apart : a ≠ b) (hasA : nums[i]? = some a) (hasB : nums[j]? = some b) :
    (nums.set i b).set j a = nums.map (Equiv.swap a b) := by
  have differ : i ≠ j := by
    rintro rfl
    rw [hasA] at hasB
    exact apart (Option.some.inj hasB)
  apply ext_getElem?
  intro k
  have insideI := (List.getElem?_eq_some_iff.mp hasA).1
  have insideJ := (List.getElem?_eq_some_iff.mp hasB).1
  rw [getElem?_map, getElem?_set, length_set, getElem?_set]
  by_cases atJ : j = k
  · subst atJ
    rw [if_pos rfl, if_pos insideJ, hasB, Option.map_some, Equiv.swap_apply_right]
  · rw [if_neg atJ]
    by_cases atI : i = k
    · subst atI
      rw [if_pos rfl, if_pos insideI, hasA, Option.map_some, Equiv.swap_apply_left]
    · rw [if_neg atI]
      cases value : nums[k]? with
      | none => rfl
      | some v =>
        have notA : v ≠ a := by
          rintro rfl
          exact atI (slot_unique distinct realA hasA value)
        have notB : v ≠ b := by
          rintro rfl
          exact atJ (slot_unique distinct realB hasB value)
        rw [Option.map_some, Equiv.swap_apply_of_ne_of_ne notA notB]

theorem swap_zero (realA : a ≠ 0) (realB : b ≠ 0) : Equiv.swap a b 0 = 0 :=
  Equiv.swap_apply_of_ne_of_ne realA.symm realB.symm

theorem slotAt_map {f : Int → Int} (fixed : f 0 = 0) (n : Nat) : slotAt (nums.map f) n = f (slotAt nums n) := by
  unfold slotAt
  conv_lhs => rw [← fixed, getD_map]

theorem used_map_swap (realA : a ≠ 0) (realB : b ≠ 0) :
    used (nums.map (Equiv.swap a b)) = (used nums).map (Equiv.swap a b) := by
  unfold used
  rw [filter_map]
  congr 1
  refine filter_congr fun n _ => ?_
  have iff : Equiv.swap a b n = 0 ↔ n = 0 := by
    constructor
    · intro zero
      have back := congrArg (Equiv.swap a b) zero
      rwa [Equiv.swap_apply_self, swap_zero realA realB] at back
    · rintro rfl
      exact swap_zero realA realB
  simp [iff]

theorem map_swap_perm {l : List Int} (distinct : l.Nodup) (hasA : a ∈ l) (hasB : b ∈ l) : (l.map (Equiv.swap a b)).Perm l := by
  refine (perm_ext_iff_of_nodup (distinct.map (Equiv.swap a b).injective) distinct).mpr fun n => ?_
  have member (m : Int) (member : m ∈ l) : Equiv.swap a b m ∈ l := by
    rw [Equiv.swap_apply_def]
    split
    · exact hasB
    · split
      · exact hasA
      · exact member
  rw [mem_map]
  constructor
  · rintro ⟨m, inside, rfl⟩
    exact member m inside
  · intro inside
    exact ⟨Equiv.swap a b n, member n inside, Equiv.swap_apply_self a b n⟩

theorem slotAt_set_set (insideI : i < nums.length) (insideJ : j < nums.length) (n : Nat) :
    slotAt ((nums.set j (slotAt nums i)).set i (slotAt nums j)) n = slotAt nums (Equiv.swap i j n) := by
  unfold slotAt
  simp only [getD_eq_getElem?_getD, getElem?_set, length_set]
  by_cases atI : i = n
  · subst atI
    simp [insideI]
  · rw [if_neg atI]
    by_cases atJ : j = n
    · subst atJ
      simp [insideJ]
    · rw [if_neg atJ, Equiv.swap_apply_of_ne_of_ne (Ne.symm atI) (Ne.symm atJ)]

theorem used_set_set_perm (insideI : i < nums.length) (insideJ : j < nums.length) :
    (used ((nums.set j (slotAt nums i)).set i (slotAt nums j))).Perm (used nums) := by
  unfold slotAt
  rw [getD_eq_getElem _ _ insideI, getD_eq_getElem _ _ insideJ]
  exact (set_set_perm insideJ insideI).filter _

def padTo (nums : List Int) (target : Nat) : List Int := nums ++ replicate (target + 1 - nums.length) 0

theorem lt_length_padTo (nums : List Int) (target : Nat) : target < (padTo nums target).length := by
  rw [padTo, length_append, length_replicate]
  omega

theorem length_padTo_le {target} (few : nums.length ≤ maxWindows) (bound : target < maxWindows) :
    (padTo nums target).length ≤ maxWindows := by
  rw [padTo, length_append, length_replicate]
  omega

theorem slotAt_padTo (nums : List Int) (target n : Nat) : slotAt (padTo nums target) n = slotAt nums n :=
  slotAt_append_zeros nums _ n

theorem used_padTo (nums : List Int) (target : Nat) : used (padTo nums target) = used nums := by
  rw [padTo, used_append, used_replicate, append_nil]

theorem move_past_end {target} (past : nums.length ≤ target) (i : Nat) (pid : Int) :
    (nums ++ replicate (target - nums.length) 0 ++ [pid]).set i 0 = ((padTo nums target).set target pid).set i 0 := by
  have last : (padTo nums target).set target pid = nums ++ replicate (target - nums.length) 0 ++ [pid] := by
    have length : (nums ++ replicate (target - nums.length) (0 : Int)).length = target := by
      rw [length_append, length_replicate]
      omega
    have shape : padTo nums target = nums ++ replicate (target - nums.length) 0 ++ [0] := by
      rw [padTo, show target + 1 - nums.length = target - nums.length + 1 by omega, replicate_succ', append_assoc]
    have set := set_middle (nums ++ replicate (target - nums.length) (0 : Int)) 0 [] pid
    rwa [length, ← shape] at set
  rw [last]

/-- What a call does to the number map. -/
def Renumbers (order : List Int) (before after : Nat → Int) (result : Int) : NumCall → Prop
  | .add pid =>
    if result = 0 ∧ pid.val ∉ order then
      ∃ n, before n = 0 ∧ (∀ m < n, before m ≠ 0) ∧ after = Function.update before n pid
    else after = before
  | .remove pid => if result = 0 then ∀ n, after n = if before n = pid then 0 else before n else after = before
  | .swapNum a b => if result = 0 then ∀ n, after n = Equiv.swap a.val b.val (before n) else after = before
  | .setNum pid target =>
    if result = 0 then
      ∃ n, before n = pid ∧ 0 ≤ target ∧ ∀ m, after m = before (Equiv.swap n target.toNat m)
    else after = before
  | .setFocus _ => after = before

def Behaves (file : Bytes) (c : NumCall) (out : Bytes × Int) : Prop :=
  Sound (stateParse out.1) ∧
    Renumbers (stateParse file).order (slotAt (stateParse file).nums) (slotAt (stateParse out.1).nums) out.2 c

theorem Pid.slotValue (pid : Pid) : SlotValue pid.val ∧ pid.val ≠ 0 := by
  have := pid.property
  unfold SlotValue
  omega

theorem Sound.of_order (focus : SlotValue ctx.focus) (order : ∀ n ∈ ctx.order, SlotValue n ∧ n ≠ 0)
    (few : ctx.order.length ≤ maxWindows) (slots : ctx.nums.length ≤ maxWindows) (once : ctx.order.Nodup)
    (same : (used ctx.nums).Perm ctx.order) : Sound ctx where
  focus := focus
  order := order
  nums := by
    intro m member
    by_cases zero : m = 0
    · rw [zero]
      exact ⟨Int.le_refl 0, by decide⟩
    · exact (order m (same.subset (mem_used.mpr ⟨member, zero⟩))).1
  few := few
  slots := slots
  distinct := same.nodup_iff.mpr once
  same := same

theorem Sound.once (sound : Sound ctx) : ctx.order.Nodup := sound.same.nodup_iff.mp sound.distinct

theorem Sound.renumber (sound : Sound ctx) (slots : nums.length ≤ maxWindows)
    (same : (used nums).Perm (used ctx.nums)) : Sound { ctx with nums := nums } :=
  .of_order sound.focus sound.order sound.few slots sound.once (same.trans sound.same)

section Calls

variable {file : Bytes}

theorem refused_behaves (sound : Sound (stateParse file)) (c : NumCall) : Behaves file c (file, -1) := by
  refine ⟨sound, ?_⟩
  cases c <;> simp [Renumbers]

theorem written_behaves (sound : Sound (stateParse file)) {c ctx} (sound' : Sound ctx)
    (change : Renumbers (stateParse file).order (slotAt (stateParse file).nums) (slotAt ctx.nums) 0 c) (works : Bool) :
    Behaves file c (stateWrite works file ctx) := by
  cases works with
  | true =>
    have read : stateParse (stateWrite true file ctx).1 = ctx := stateParse_stateText sound'
    rw [Behaves, read]
    exact ⟨sound', change⟩
  | false => exact refused_behaves sound c

section
variable (works : Bool) (sound : Sound (stateParse file))
include sound

theorem add_behaves (pid : Pid) : Behaves file (.add pid) (stateAddServer works file pid) := by
  obtain ⟨value, real⟩ := pid.slotValue
  unfold stateAddServer
  dsimp only
  split
  · rename_i known
    exact ⟨sound, by simp [Renumbers, known]⟩
  · rename_i new
    split
    · exact refused_behaves sound _
    · rename_i room
      have windows : (used (stateParse file).nums).length = _ := sound.same.length_eq
      have few : (used (stateParse file).nums).length < maxWindows := by omega
      obtain ⟨n, spare, lowest, slots, perm, length⟩ := assignNum_spec few real
      have once : ((stateParse file).order ++ [pid.val]).Nodup := by
        refine nodup_append.mpr ⟨sound.once, nodup_singleton _, fun a member b single same => ?_⟩
        rw [same, mem_singleton.mp single] at member
        exact new member
      refine written_behaves sound
        (.of_order ?_ ?_ ?_ (length sound.slots) once (perm.trans (sound.same.append_right [pid.val]))) ?_ works
      · dsimp only
        split
        · exact value
        · exact sound.focus
      · intro m member
        rcases mem_append.mp member with old | added
        · exact sound.order m old
        · rw [mem_singleton.mp added]
          exact ⟨value, real⟩
      · dsimp only
        rw [length_append, length_singleton]
        omega
      · simp only [Renumbers, new, not_false_eq_true, and_self, if_true]
        exact ⟨n, spare, lowest, slots⟩

theorem remove_behaves (pid : Pid) : Behaves file (.remove pid) (stateRemoveServer works file pid) := by
  obtain ⟨-, real⟩ := pid.slotValue
  obtain ⟨slots, windows, length⟩ := freeNum_spec sound.distinct real
  have remaining : ∀ m ∈ (stateParse file).order.erase pid.val, SlotValue m ∧ m ≠ 0 := fun m member =>
    sound.order m (mem_of_mem_erase member)
  have same : (used (numsTrim (freeNum (stateParse file).nums pid))).Perm ((stateParse file).order.erase pid.val) := by
    rw [windows]
    exact sound.same.erase pid.val
  refine written_behaves sound
    (.of_order ?_ remaining (length_erase_le.trans sound.few) (length.trans sound.slots) (sound.once.erase _) same) ?_ works
  · dsimp only
    split
    · cases first : ((stateParse file).order.erase pid.val).head? with
      | none => exact ⟨Int.le_refl 0, by decide⟩
      | some m => exact (remaining m (mem_of_mem_head? first)).1
    · exact sound.focus
  · simp only [Renumbers, if_true]
    exact slots

theorem swapNum_behaves (a b : Pid) : Behaves file (.swapNum a b) (stateSwapNum works file a b) := by
  obtain ⟨-, realA⟩ := a.slotValue
  obtain ⟨-, realB⟩ := b.slotValue
  unfold stateSwapNum
  split
  · rename_i same
    refine ⟨sound, ?_⟩
    simp only [Renumbers, if_true, same, Equiv.swap_self, Equiv.refl_apply, implies_true]
  · rename_i apart
    dsimp only
    split
    · rename_i sa sb found
      have slots := findSlots_spec (stateParse file).nums a b
      rw [found] at slots
      have hasA := slots.1 sa rfl
      have hasB := slots.2 sb rfl
      have map := set_set_eq_map sound.distinct realA realB apart hasA hasB
      have windows := @used_map_swap (stateParse file).nums a b realA realB
      rw [map]
      refine written_behaves sound (sound.renumber ?_ ?_) ?_ works
      · rw [length_map]
        exact sound.slots
      · rw [windows]
        exact map_swap_perm sound.distinct (mem_used.mpr ⟨mem_of_getElem? hasA, realA⟩)
          (mem_used.mpr ⟨mem_of_getElem? hasB, realB⟩)
      · simp only [Renumbers, if_true]
        exact slotAt_map (swap_zero realA realB)
    · exact refused_behaves sound _

theorem setNum_behaves (pid : Pid) (target : Int) :
    Behaves file (.setNum pid target) (stateSetNum works file pid target) := by
  obtain ⟨-, real⟩ := pid.slotValue
  unfold stateSetNum
  split
  · exact refused_behaves sound _
  · rename_i range
    have bound : 0 ≤ target ∧ target.toNat < maxWindows := by omega
    dsimp only
    split
    · exact refused_behaves sound _
    · rename_i sa found
      obtain ⟨xs, zs, shape, rfl, -⟩ := split_of_findIdx found
      have inside : xs.length < (stateParse file).nums.length := by
        rw [shape, length_append, length_cons]
        omega
      have here : slotAt (stateParse file).nums xs.length = pid := by
        rw [slotAt, shape]
        simp
      split
      · rename_i same
        refine ⟨sound, ?_⟩
        simp only [Renumbers, if_true]
        refine ⟨xs.length, here, bound.1, fun m => ?_⟩
        rw [same, Int.toNat_natCast, Equiv.swap_self, Equiv.refl_apply]
      · -- both ways of the source exchange two slots of the map, once it reaches the target
        have exchange (nums : List Int) (slots : ∀ n, slotAt nums n = slotAt (stateParse file).nums n)
            (windows : used nums = used (stateParse file).nums) (few : nums.length ≤ maxWindows)
            (insideI : xs.length < nums.length) (insideJ : target.toNat < nums.length) :
            Behaves file (.setNum pid target)
              (stateWrite works file { stateParse file with
                nums := (nums.set target.toNat pid).set xs.length (slotAt nums target.toNat) }) := by
          have value : slotAt nums xs.length = pid := (slots _).trans here
          rw [← value]
          refine written_behaves sound (sound.renumber ?_ ?_) ?_ works
          · rw [length_set, length_set]
            exact few
          · rw [← windows]
            exact used_set_set_perm insideI insideJ
          · simp only [Renumbers, if_true]
            refine ⟨xs.length, here, bound.1, fun m => ?_⟩
            rw [slotAt_set_set insideI insideJ, slots]
        split
        · exact exchange (stateParse file).nums (fun n => rfl) rfl sound.slots inside (by omega)
        · have pad := exchange (padTo (stateParse file).nums target.toNat) (slotAt_padTo _ _) (used_padTo _ _)
            (length_padTo_le sound.slots bound.2)
            (lt_of_lt_of_le inside (by rw [padTo, length_append]; omega)) (lt_length_padTo _ _)
          have spare : slotAt (padTo (stateParse file).nums target.toNat) target.toNat = 0 := by
            rw [slotAt_padTo, slotAt, getD_eq_default _ _ (by omega)]
          rw [spare, ← move_past_end (by omega)] at pad
          exact pad

theorem setFocus_behaves (pid : Pid) : Behaves file (.setFocus pid) (stateSetFocus works file pid) := by
  have sound' : Sound { stateParse file with focus := pid } :=
    .of_order pid.slotValue.1 sound.order sound.few sound.slots sound.once sound.same
  have same : Renumbers (stateParse file).order (slotAt (stateParse file).nums) (slotAt (stateParse file).nums) 0
      (.setFocus pid) := rfl
  exact written_behaves sound sound' same works

theorem call_behaves (c : NumCall) : Behaves file c (numCall works file c) := by
  cases c with
  | add pid => exact add_behaves works sound pid
  | remove pid => exact remove_behaves works sound pid
  | swapNum a b => exact swapNum_behaves works sound a b
  | setNum pid target => exact setNum_behaves works sound pid target
  | setFocus pid => exact setFocus_behaves works sound pid

end

end Calls

theorem empty_sound : Sound (stateParse []) :=
  .of_order ⟨Int.le_refl 0, by decide⟩ (fun n member => absurd member not_mem_nil) (Nat.zero_le _) (Nat.zero_le _)
    nodup_nil (List.Perm.refl _)

/-- Every window of the order has one number. -/
structure Numbered (ctx : StateCtx) : Prop where
  distinct : (used ctx.nums).Nodup
  windows : (used ctx.nums).Perm ctx.order

/-- **Window numbers are stable.** A call gives a new window the lowest spare number, makes the number of a
removed one spare, or exchanges the numbers of two windows, and changes no other number. -/
theorem numbers_stable (calls : List (NumCall × Bool)) (next : NumCall) (works : Bool) :
    let file := numRun [] calls
    let out := numCall works file next
    Numbered (stateParse file) ∧
      Renumbers (stateParse file).order (slotAt (stateParse file).nums) (slotAt (stateParse out.1).nums) out.2 next := by
  have sound : Sound (stateParse (numRun [] calls)) :=
    run_invariant_rule (I := fun file => Sound (stateParse file))
      (fun file call sound => (call_behaves call.2 sound call.1).1) empty_sound calls
  exact ⟨⟨sound.distinct, sound.same⟩, (call_behaves works sound next).2⟩

end Lumimux.Sessdir

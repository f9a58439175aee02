import Lumimux.Attach.Graphics
import Lumimux.Lib.Run

/-!
# No graphics command is lost

A delete that a flush meets moves the index back by the number of commands it removes, which is right only if they all
stood before it.
-/

namespace Lumimux.Attach
open Lib List

def KgfxImg.core (g : KgfxImg) : KgfxImg := { g with hidden := false, sent := false, lost := false }

namespace Graphics

def Thinned (gs gs' : List KgfxImg) : Prop := (gs'.map KgfxImg.core).Sublist (gs.map KgfxImg.core)

namespace Thinned

variable {gs gs' gs'' : List KgfxImg}

theorem refl (gs : List KgfxImg) : Thinned gs gs := List.Sublist.refl _

theorem trans (h : Thinned gs gs') (h' : Thinned gs' gs'') : Thinned gs gs'' := List.Sublist.trans h' h

theorem of_sublist (h : gs'.Sublist gs) : Thinned gs gs' := h.map _

theorem append {hs hs' : List KgfxImg} (h : Thinned gs gs') (h' : Thinned hs hs') : Thinned (gs ++ hs) (gs' ++ hs') := by
  rw [Thinned, map_append, map_append]
  exact List.Sublist.append h h'

theorem set {i : Nat} {g g' : KgfxImg} (at_i : gs[i]? = some g) (same : g'.core = g.core) : Thinned gs (gs.set i g') := by
  have kept : (gs.set i g').map KgfxImg.core = gs.map KgfxImg.core := by
    obtain ⟨within, rfl⟩ := List.getElem?_eq_some_iff.mp at_i
    rw [map_set, same, ← map_set, set_getElem_self]
  rw [Thinned, kept]

theorem mem (h : Thinned gs gs') {g' : KgfxImg} (member : g' ∈ gs') : ∃ g ∈ gs, g'.core = g.core := by
  obtain ⟨g, old, same⟩ := mem_map.mp (h.subset (mem_map_of_mem member))
  exact ⟨g, old, same.symm⟩

theorem serials (h : Thinned gs gs') : (gs'.map KgfxImg.serial).Sublist (gs.map KgfxImg.serial) := by
  have project : ∀ l : List KgfxImg, l.map KgfxImg.serial = (l.map KgfxImg.core).map KgfxImg.serial := fun l => by
    rw [map_map]
    rfl
  rw [project gs, project gs']
  exact List.Sublist.map _ h

end Thinned

def frame (s : Graphics) : Graphics := { s with gfx := [], gfxBytes := 0, gfxOpenGrp := 0 }

variable {s s' : Graphics} {i h : Nat} {g : KgfxImg} {done rest : List KgfxImg} {upto : Int}

def frees (c : KgfxCtl) (g : KgfxImg) : Bool := !lower c && hit c g && !g.once

theorem spared_thin {c : KgfxCtl} {done' : List KgfxImg}
    (spared : ∀ k ∈ done, frees c k = true → ∀ l ∈ rest, l.grp ≠ k.grp) (thinned : Thinned done done') :
    ∀ k ∈ done', frees c k = true → ∀ l ∈ rest, l.grp ≠ k.grp := by
  intro k kept hits l later
  obtain ⟨k₀, old, same⟩ := thinned.mem kept
  have freed : frees c k₀ = frees c k := (congrArg (frees c) same.symm :)
  have group : k.grp = k₀.grp := (congrArg KgfxImg.grp same :)
  rw [group]
  exact spared k₀ old (freed.trans hits) l later

theorem deleteLoop_zip (c : KgfxCtl) (fuel : Nat) {self : List KgfxImg} (i : Nat)
    (zip : s.gfx = done ++ (self ++ rest)) (bound : upto ≤ done.length)
    (spared : ∀ k ∈ done, frees c k = true → ∀ l ∈ rest, l.grp ≠ k.grp) :
    ∃ done' self', (deleteLoop c fuel s upto i).gfx = done' ++ (self' ++ rest) ∧ Thinned done done' ∧
      self'.Sublist self ∧ (deleteLoop c fuel s upto i).frame = s.frame := by
  -- the delete may go with the group it joined, so its place counts towards the bound only until then
  induction fuel generalizing s done self upto i with
  | zero => exact ⟨done, self, zip, .refl done, .refl self, rfl⟩
  | succ fuel ih =>
    unfold deleteLoop
    split
    case isFalse => exact ⟨done, self, zip, .refl done, .refl self, rfl⟩
    rename_i reaches
    have within : i < done.length := by omega
    have here : s.gfx[i]? = done[i]? := by rw [zip, getElem?_append_left within]
    split
    case h_1 missing =>
      rw [here, getElem?_eq_getElem within] at missing
      cases missing
    rename_i g found
    rw [here] at found
    have member : g ∈ done := mem_of_getElem? found
    -- one more round from a store with a thinner front
    have go : ∀ {s₁ : Graphics} {upto₁ : Int} (done₁ self₁ : List KgfxImg) (i₁ : Nat), s₁.gfx = done₁ ++ (self₁ ++ rest) →
        Thinned done done₁ → self₁.Sublist self → s₁.frame = s.frame → upto₁ ≤ done₁.length →
        ∃ done' self', (deleteLoop c fuel s₁ upto₁ i₁).gfx = done' ++ (self' ++ rest) ∧ Thinned done done' ∧
          self'.Sublist self ∧ (deleteLoop c fuel s₁ upto₁ i₁).frame = s.frame := by
      intro s₁ upto₁ done₁ self₁ i₁ zip₁ thinned fewer frame bound₁
      obtain ⟨done', self', result, thinner, fewer', frame'⟩ := ih i₁ zip₁ bound₁ (spared_thin spared thinned)
      exact ⟨done', self', result, thinned.trans thinner, fewer'.trans fewer, frame'.trans frame⟩
    split
    · exact go done self (i + 1) zip (.refl done) (.refl self) rfl bound
    · rename_i aimed
      split
      · -- an uppercase target: the whole group goes, but nothing that stands behind the delete
        rename_i upper
        have frees : frees c g = true := by simp_all [Graphics.frees]
        have untouched : rest.filter (fun l => l.grp != g.grp) = rest := by
          rw [filter_eq_self]
          intro l later
          simpa using spared g member frees l later
        have zip₁ : (s.winGfxDropGroup g.grp).gfx =
            done.filter (fun l => l.grp != g.grp) ++ (self.filter (fun l => l.grp != g.grp) ++ rest) := by
          show s.gfx.filter _ = _
          rw [zip, filter_append, filter_append, untouched]
        refine go _ _ 0 zip₁ (.of_sublist filter_sublist) filter_sublist rfl ?_
        have fewer := length_filter_le (fun l : KgfxImg => l.grp != g.grp) self
        rw [zip₁, zip]
        simp only [length_append]
        omega
      · split
        · exact go done self (i + 1) zip (.refl done) (.refl self) rfl bound
        · split
          · refine go (done.set i { g with hidden := true }) self (i + 1) ?_ (.set found rfl) (.refl self) rfl ?_
            · show s.gfx.set i _ = _
              rw [zip, set_append_left _ _ within]
            · rwa [length_set]
          · refine go (done.eraseIdx i) self i ?_ (.of_sublist (eraseIdx_sublist ..)) (.refl self) rfl ?_
            · show s.gfx.eraseIdx i = _
              rw [zip, eraseIdx_append_of_lt_length within]
            · rw [length_eraseIdx_of_lt within]
              omega

theorem winGfxDelete_zip (c : KgfxCtl)
    (zip : s.gfx = done ++ g :: rest) (spared : ∀ k ∈ done, frees c k = true → ∀ l ∈ rest, l.grp ≠ k.grp) :
    ∃ done', (s.winGfxDelete c done.length).gfx = done' ++ rest ∧ Thinned (done ++ [g]) done' ∧
      (s.winGfxDelete c done.length).frame = s.frame := by
  unfold winGfxDelete
  split
  · exact ⟨done ++ [g], by rw [zip, append_assoc]; rfl, .refl _, rfl⟩
  · have zip₁ : s.gfx = done ++ ([g] ++ rest) := zip
    obtain ⟨done', self', result, thinned, fewer, frame⟩ :=
      deleteLoop_zip c ((s.gfx.length + 1) * (done.length + 1)) 0 zip₁ (Int.le_refl _) spared
    exact ⟨done' ++ self', by rw [result, append_assoc], thinned.append (.of_sublist fewer), frame⟩

def InOrder (handed : List Nat) : Prop := ∀ p n q, handed = p ++ n :: q → ∀ m < n, m ∈ p

theorem InOrder.snoc {handed : List Nat} (h : InOrder handed) {n : Nat} (earlier : ∀ m < n, m ∈ handed) :
    InOrder (handed ++ [n]) := by
  intro p k q split m before
  rcases append_eq_append_iff.mp split with ⟨extra, rfl, tail⟩ | ⟨extra, rfl, tail⟩
  · -- the last entry is at or behind the split
    cases extra with
    | nil =>
      rw [nil_append, List.cons.injEq] at tail
      rw [append_nil]
      exact earlier m (tail.1 ▸ before)
    | cons e extra =>
      have := congrArg List.length tail
      simp at this
  · cases extra with
    | nil =>
      rw [nil_append, List.cons.injEq] at tail
      rw [append_nil] at earlier
      exact earlier m (tail.1 ▸ before)
    | cons e extra =>
      rw [cons_append, List.cons.injEq] at tail
      exact h p k extra (by rw [tail.1]) m before

structure Ledger (h : Nat) (s : Graphics) : Prop where
  inside : s.outside = false
  ascending : (s.gfx.map KgfxImg.serial).Pairwise (· < ·)
  known : ∀ g ∈ s.gfx, g.serial < s.recorded
  handed : ∀ n, n ∈ s.handed ↔ n < h
  within : h ≤ s.recorded
  sent : ∀ g ∈ s.gfx, g.sent = true → g.serial < h
  inOrder : InOrder s.handed

structure Midway (h : Nat) (s : Graphics) (done rest : List KgfxImg) : Prop extends Ledger h s where
  zip : s.gfx = done ++ rest
  behind : ∀ g ∈ done, g.serial < h
  ahead : ∀ n, h ≤ n → n < s.recorded → ∃ g ∈ rest, g.serial = n

def Sheltered (before : List KgfxImg) : List KgfxImg → Prop
  | [] => True
  | d :: after =>
    (d.action = 100 → ∀ k ∈ before, frees d.ctl k = true → ∀ l ∈ after, l.grp ≠ k.grp) ∧ Sheltered (before ++ [d]) after

instance decidableSheltered : (before gs : List KgfxImg) → Decidable (Sheltered before gs)
  | _, [] => isTrue trivial
  | before, d :: after =>
    have := decidableSheltered (before ++ [d]) after
    inferInstanceAs (Decidable ((d.action = 100 → ∀ k ∈ before, frees d.ctl k = true → ∀ l ∈ after, l.grp ≠ k.grp) ∧
      Sheltered (before ++ [d]) after))

theorem Sheltered.thin {before before' : List KgfxImg} (h : Sheltered before rest) (thinned : Thinned before before') :
    Sheltered before' rest := by
  induction rest generalizing before before' with
  | nil => trivial
  | cons d after ih =>
    exact ⟨fun deletes => spared_thin (h.1 deletes) thinned, ih h.2 (thinned.append (.refl [d]))⟩

theorem kgfxEmit_core (rect : Option Rect) (lazy : Bool) (g : KgfxImg) : (kgfxEmit rect lazy g).core = g.core := by
  unfold kgfxEmit
  extract_lets written
  split
  · rfl
  · split
    · rfl
    · split
      · rfl
      · split <;> rfl

def handOn (s : Graphics) (i : Nat) (g g' : KgfxImg) : Graphics :=
  { s with gfx := s.gfx.set i g', handed := s.handed ++ [g.serial] }

theorem Midway.handOn {g' : KgfxImg} (mid : Midway h s done (g :: rest))
    (same : g'.core = g.core) : ∃ h', Midway h' (s.handOn done.length g g') (done ++ [g']) rest := by
  have here : s.gfx[done.length]? = some g := by
    rw [mid.zip, getElem?_append_right (Nat.le_refl _), Nat.sub_self]
    rfl
  have serial : g'.serial = g.serial := (congrArg KgfxImg.serial same :)
  have zip : (s.handOn done.length g g').gfx = (done ++ [g']) ++ rest := by
    show s.gfx.set done.length g' = _
    rw [mid.zip, set_append_right _ _ (Nat.le_refl _), Nat.sub_self, append_assoc]
    rfl
  have serials : (s.handOn done.length g g').gfx.map KgfxImg.serial = s.gfx.map KgfxImg.serial := by
    rw [zip, mid.zip]
    simp [serial]
  have member : ∀ x ∈ (s.handOn done.length g g').gfx, x = g' ∨ x ∈ s.gfx := by
    intro x
    rw [zip, mid.zip]
    simp only [mem_append, mem_cons]
    tauto
  have own : g ∈ s.gfx := mem_of_getElem? here
  have known : ∀ x ∈ (s.handOn done.length g g').gfx, x.serial < s.recorded := by
    intro x present
    rcases member x present with rfl | old
    · rw [serial]
      exact mid.known g own
    · exact mid.known x old
  -- the store is in the order of recording, so no command that is due stands behind this one
  have due : g.serial ≤ h := by
    by_contra late
    obtain ⟨x, present, number⟩ := mid.ahead h (Nat.le_refl h) (Nat.lt_trans (Nat.lt_of_not_le late) (mid.known g own))
    have ascending := mid.ascending
    rw [mid.zip, map_append, map_cons, pairwise_append, pairwise_cons] at ascending
    rcases mem_cons.mp present with rfl | later
    · omega
    · have := ascending.2.1.1 x.serial (mem_map_of_mem later)
      omega
  have grown : h ≤ max h (g.serial + 1) := Nat.le_max_left ..
  have newest : g.serial < max h (g.serial + 1) := Nat.le_max_right ..
  refine ⟨max h (g.serial + 1), ⟨mid.inside, serials ▸ mid.ascending, known, fun n => ?_, ?_, fun x present sent => ?_, ?_⟩, zip,
    fun x present => ?_, fun n later recorded => ?_⟩
  · show n ∈ s.handed ++ [g.serial] ↔ _
    rw [mem_append, mem_singleton, mid.handed]
    omega
  · exact Nat.max_le.mpr ⟨mid.within, mid.known g own⟩
  · rcases member x present with rfl | was
    · rwa [serial]
    · exact Nat.lt_of_lt_of_le (mid.sent x was sent) grown
  · exact mid.inOrder.snoc fun m before => (mid.handed m).mpr (Nat.lt_of_lt_of_le before due)
  · rcases mem_append.mp present with was | new
    · exact Nat.lt_of_lt_of_le (mid.behind x was) grown
    · rwa [mem_singleton.mp new, serial]
  · obtain ⟨x, present, number⟩ := mid.ahead n (Nat.le_trans grown later) recorded
    rcases mem_cons.mp present with rfl | after
    · omega
    · exact ⟨x, after, number⟩

theorem Midway.skip (mid : Midway h s done (g :: rest)) (sent : g.sent = true) : Midway h s (done ++ [g]) rest := by
  have own : g ∈ s.gfx := by
    rw [mid.zip]
    exact mem_append_right _ mem_cons_self
  have old : g.serial < h := mid.sent g own sent
  refine ⟨mid.toLedger, by rw [mid.zip, append_assoc]; rfl, fun x present => ?_, fun n due recorded => ?_⟩
  · rcases mem_append.mp present with was | new
    · exact mid.behind x was
    · rwa [mem_singleton.mp new]
  · obtain ⟨x, present, number⟩ := mid.ahead n due recorded
    rcases mem_cons.mp present with rfl | after
    · omega
    · exact ⟨x, after, number⟩

theorem Midway.trim {done' : List KgfxImg} (mid : Midway h s done rest)
    (zip : s'.gfx = done' ++ rest) (thinned : Thinned done done') (frame : s'.frame = s.frame) : Midway h s' done' rest := by
  have whole : Thinned s.gfx s'.gfx := by
    rw [mid.zip, zip]
    exact thinned.append (.refl rest)
  have recorded : s'.recorded = s.recorded := (congrArg Graphics.recorded frame :)
  have handed : s'.handed = s.handed := (congrArg Graphics.handed frame :)
  have behind : ∀ g ∈ done', g.serial < h := by
    intro g present
    obtain ⟨g₀, was, same⟩ := thinned.mem present
    have serial : g.serial = g₀.serial := (congrArg KgfxImg.serial same :)
    rw [serial]
    exact mid.behind g₀ was
  refine ⟨⟨(congrArg Graphics.outside frame :).trans mid.inside, mid.ascending.sublist whole.serials,
    fun g present => ?_, handed ▸ mid.handed, recorded ▸ mid.within, fun g present sent => ?_, handed ▸ mid.inOrder⟩, zip, behind, recorded ▸ mid.ahead⟩
  · obtain ⟨g₀, was, same⟩ := whole.mem present
    have serial : g.serial = g₀.serial := (congrArg KgfxImg.serial same :)
    rw [serial, recorded]
    exact mid.known g₀ was
  · rw [zip] at present
    rcases mem_append.mp present with was | later
    · exact behind g was
    · refine mid.sent g ?_ sent
      rw [mid.zip]
      exact mem_append_right _ later

theorem flushRound_midway (env : FlushEnv) (mid : Midway h s done (g :: rest)) (sheltered : Sheltered done (g :: rest)) :
    ∃ h' done', Midway h' (flushRound env s done.length g).1 done' rest ∧ Sheltered done' rest ∧
      (flushRound env s done.length g).2 + 1 = done'.length := by
  have index : (done.length : Int) + 1 = (done ++ [g]).length := by simp
  unfold flushRound
  split
  · rename_i skipped
    have sent : g.sent = true := by simp_all
    exact ⟨h, done ++ [g], mid.skip sent, sheltered.2, index⟩
  · extract_lets lazy s₁
    have core := kgfxEmit_core env.rect lazy g
    obtain ⟨h', mid₁⟩ : ∃ h', Midway h' s₁ (done ++ [kgfxEmit env.rect lazy g]) rest := mid.handOn core
    have emitted : Thinned (done ++ [g]) (done ++ [kgfxEmit env.rect lazy g]) :=
      (Thinned.refl done).append (by rw [Thinned, map_singleton, map_singleton, core])
    have zip : s₁.gfx = done ++ kgfxEmit env.rect lazy g :: rest := by
      rw [mid₁.zip, append_assoc]
      rfl
    split
    · rename_i deletes
      obtain ⟨done', zip', thinned, frame⟩ := winGfxDelete_zip g.ctl zip (sheltered.1 (by simpa using deletes))
      refine ⟨h', done', mid₁.trim zip' thinned frame, sheltered.2.thin (emitted.trans thinned), ?_⟩
      -- all that was removed stood before the rest, so the index moves back by exactly that
      rw [zip', zip]
      simp only [length_append, length_cons]
      omega
    · exact ⟨h', _, mid₁, sheltered.2.thin emitted, by simp⟩

theorem flushLoop_next (env : FlushEnv) (fuel : Nat) (here : s.gfx[i]? = some g) :
    flushLoop env (fuel + 1) s i = flushLoop env fuel (flushRound env s i g).1 ((flushRound env s i g).2 + 1) := by
  have within : Int.ofNat i < s.gfx.length := by
    obtain ⟨within, -⟩ := List.getElem?_eq_some_iff.mp here
    exact Int.ofNat_lt.mpr within
  rw [← Int.ofNat_eq_natCast, flushLoop.eq_def]
  dsimp only
  rw [if_pos within, here]

theorem flushLoop_midway (env : FlushEnv) (mid : Midway h s done rest) (sheltered : Sheltered done rest) :
    ∃ h' done', Midway h' (flushLoop env rest.length s done.length) done' [] := by
  induction rest generalizing h s done with
  | nil => exact ⟨h, done, mid⟩
  | cons g rest ih =>
    have here : s.gfx[done.length]? = some g := by
      rw [mid.zip, getElem?_append_right (Nat.le_refl _), Nat.sub_self]
      rfl
    obtain ⟨h', done', mid', sheltered', index⟩ := flushRound_midway env mid sheltered
    rw [length_cons, flushLoop_next env _ here, index]
    exact ih mid' sheltered'

theorem forgetLoop_thins (fuel : Nat) (s : Graphics) (i : Nat) :
    (forgetLoop fuel s i).gfx.Sublist s.gfx ∧ (forgetLoop fuel s i).frame = s.frame := by
  induction fuel generalizing s i with
  | zero => exact ⟨.refl _, rfl⟩
  | succ fuel ih =>
    unfold forgetLoop
    split
    · exact ⟨.refl _, rfl⟩
    · split
      · obtain ⟨fewer, frame⟩ := ih (s.winGfxDropAt i) i
        exact ⟨fewer.trans (eraseIdx_sublist ..), frame⟩
      · exact ih s (i + 1)

theorem flushRound_closer (env : FlushEnv) (s : Graphics) (i : Nat) (g : KgfxImg) :
    ((flushRound env s i g).1.gfx.length : Int) - (flushRound env s i g).2 = s.gfx.length - i := by
  unfold flushRound
  split
  · rfl
  · extract_lets lazy s₁
    have same : s₁.gfx.length = s.gfx.length := length_set
    split
    · dsimp only
      omega
    · rw [same]

theorem flushLoop_enough (env : FlushEnv) {fuel : Nat} {i : Int}
    (enough : s.gfx.length - i ≤ fuel) (more : Nat) : flushLoop env (fuel + more) s i = flushLoop env fuel s i := by
  induction fuel generalizing s i with
  | zero =>
    have ended : ¬ i < s.gfx.length := by omega
    cases more with
    | zero => rfl
    | succ more =>
      rw [Nat.zero_add, flushLoop.eq_def, flushLoop]
      exact if_neg ended
  | succ fuel ih =>
    rw [Nat.add_right_comm, flushLoop.eq_def, flushLoop.eq_def]
    dsimp only
    cases i with
    | negSucc i => rfl
    | ofNat i =>
      split
      · dsimp only
        split
        · rfl
        · rename_i g here
          have closer := flushRound_closer env s i g
          refine ih ?_
          have bound : (s.gfx.length : Int) - i ≤ (fuel + 1 : Nat) := enough
          omega
      · rfl

def deleteRounds (s : Graphics) (bound : Nat) (upto : Int) (i : Nat) : Nat :=
  s.gfx.length * (bound + 1) + (upto - i).toNat

theorem length_dropGroup_lt (here : s.gfx[i]? = some g) : (s.winGfxDropGroup g.grp).gfx.length < s.gfx.length := by
  refine length_filter_lt_length_iff_exists.mpr ⟨g, mem_of_getElem? here, ?_⟩
  simp

theorem deleteRounds_lt {bound i' : Nat} {upto' : Int} (fewer : s'.gfx.length < s.gfx.length)
    (low : upto' ≤ bound) : deleteRounds s' bound upto' i' < deleteRounds s bound upto i := by
  have smaller : (s'.gfx.length + 1) * (bound + 1) ≤ s.gfx.length * (bound + 1) := Nat.mul_le_mul_right _ fewer
  rw [Nat.succ_mul] at smaller
  unfold deleteRounds
  omega

theorem deleteLoop_enough (c : KgfxCtl) {fuel bound : Nat} (low : upto ≤ bound)
    (enough : deleteRounds s bound upto i ≤ fuel) (more : Nat) :
    deleteLoop c (fuel + more) s upto i = deleteLoop c fuel s upto i := by
  induction fuel generalizing s upto i with
  | zero =>
    have ended : ¬ (i : Int) < upto := by
      unfold deleteRounds at enough
      omega
    cases more with
    | zero => rfl
    | succ more =>
      rw [Nat.zero_add, deleteLoop, deleteLoop]
      exact if_neg ended
  | succ fuel ih =>
    rw [Nat.add_right_comm, deleteLoop, deleteLoop]
    split
    · rename_i reaches
      have onward : deleteRounds s bound upto (i + 1) ≤ fuel := by
        unfold deleteRounds at enough ⊢
        omega
      split
      · rfl
      · rename_i g here
        have onward' : deleteRounds { s with gfx := s.gfx.set i { g with hidden := true } } bound upto (i + 1) ≤ fuel := by
          unfold deleteRounds at onward ⊢
          rwa [length_set]
        have erased : (s.winGfxDropAt i).gfx.length < s.gfx.length := by
          obtain ⟨within, -⟩ := List.getElem?_eq_some_iff.mp here
          show (s.gfx.eraseIdx i).length < _
          rw [length_eraseIdx_of_lt within]
          omega
        have dropped := length_dropGroup_lt here
        split
        · exact ih low onward
        · split
          · exact ih (by omega) (Nat.le_of_lt_succ (Nat.lt_of_lt_of_le (deleteRounds_lt dropped (by omega)) enough))
          · split
            · exact ih low onward
            · split
              · exact ih low onward'
              · exact ih (by omega) (Nat.le_of_lt_succ (Nat.lt_of_lt_of_le (deleteRounds_lt erased (by omega)) enough))
    · rfl

/-- Between two events: what has not been handed on is in the store, and a flush is due for it. -/
structure Intact (h : Nat) (s : Graphics) : Prop extends Ledger h s where
  pending : ∀ n, h ≤ n → n < s.recorded → ∃ g ∈ s.gfx, g.serial = n
  idle : s.gfxEmitNew = false → h = s.recorded

theorem Intact.flush (intact : Intact h s) (sheltered : Sheltered [] s.gfx) (env : FlushEnv) :
    ∃ h', Intact h' (s.pendingGfxFlush env) := by
  unfold pendingGfxFlush
  split
  · exact ⟨h, intact⟩
  · extract_lets s₁ s₂
    have before : Midway h s [] s.gfx := ⟨intact.toLedger, rfl, forall_mem_nil _, intact.pending⟩
    obtain ⟨h', done, after⟩ := flushLoop_midway env before sheltered
    obtain ⟨fewer, frame⟩ := forgetLoop_thins s₁.gfx.length s₁ 0
    have held : s₁.gfx = done := after.zip.trans (append_nil done)
    have swept : Midway h' s₂ s₂.gfx [] := after.trim (append_nil _).symm (.of_sublist (held ▸ fewer)) frame
    have all : h' = s₂.recorded := by
      by_contra short
      obtain ⟨g, missing, -⟩ := swept.ahead h' (Nat.le_refl h') (Nat.lt_of_le_of_ne swept.within short)
      cases missing
    exact ⟨h', ⟨swept.inside, swept.ascending, swept.known, swept.handed, swept.within, swept.sent,
      swept.inOrder⟩, fun n due recorded => absurd recorded (by show ¬ n < s₂.recorded; omega), fun _ => all⟩

theorem evict_eq_self (fits : s.gfxBytes ≤ kgfxStoreBytesMax) (grp : UInt32) (fuel : Nat) : evict grp fuel s = s := by
  cases fuel with
  | zero => rfl
  | succ fuel =>
    unfold evict
    split
    · rfl
    · rw [if_neg]
      simp only [Bool.and_eq_true, decide_eq_true_eq]
      omega

theorem winGfxAdd_fits {data : Bytes} (fits : s.gfxBytes + (data.length + 4) ≤ kgfxStoreBytesMax)
    (row col : Int) (introducer : UInt8) (c : KgfxCtl) : ∃ g next opened, g.serial = s.recorded ∧ g.sent = false ∧
      s.winGfxAdd row col introducer data c =
        { s with gfx := s.gfx ++ [g], gfxBytes := s.gfxBytes + g.raw.length, gfxGrpNext := next, gfxOpenGrp := opened,
                 gfxEmitNew := true, recorded := s.recorded + 1 } := by
  unfold winGfxAdd
  extract_lets cont found grp raw g s₁
  have length : raw.length = data.length + 4 := by simp [raw]
  refine ⟨g, s₁.gfxGrpNext, s₁.gfxOpenGrp, rfl, rfl, ?_⟩
  exact evict_eq_self (by show s.gfxBytes + raw.length ≤ _; omega) grp _

theorem Intact.add (intact : Intact h s) {data : Bytes}
    (fits : s.gfxBytes + (data.length + 4) ≤ kgfxStoreBytesMax) (row col : Int) (introducer : UInt8) (c : KgfxCtl) :
    Intact h (s.winGfxAdd row col introducer data c) := by
  obtain ⟨g, next, opened, serial, unsent, added⟩ := winGfxAdd_fits fits row col introducer c
  rw [added]
  refine ⟨⟨intact.inside, ?_, ?_, intact.handed, Nat.le_succ_of_le intact.within, ?_, intact.inOrder⟩, ?_, fun idle => by cases idle⟩
  · show ((s.gfx ++ [g]).map KgfxImg.serial).Pairwise (· < ·)
    rw [map_append, pairwise_append]
    refine ⟨intact.ascending, pairwise_singleton .., ?_⟩
    simp only [mem_map, map_singleton, mem_singleton, serial]
    rintro _ ⟨x, present, rfl⟩ _ rfl
    exact intact.known x present
  · intro x present
    rcases mem_append.mp present with old | new
    · exact Nat.lt_succ_of_lt (intact.known x old)
    · rw [mem_singleton.mp new, serial]
      exact Nat.lt_succ_self _
  · intro x present sent
    rcases mem_append.mp present with old | new
    · exact intact.sent x old sent
    · rw [mem_singleton.mp new, unsent] at sent
      cases sent
  · intro n due recorded
    rcases Nat.lt_succ_iff_lt_or_eq.mp recorded with older | rfl
    · obtain ⟨x, present, number⟩ := intact.pending n due older
      exact ⟨x, mem_append_left _ present, number⟩
    · exact ⟨g, mem_append_right _ (mem_singleton_self g), serial⟩

theorem Intact.relabel (intact : Intact h s) {f : KgfxImg → KgfxImg}
    (kept : ∀ g, (f g).serial = g.serial ∧ (f g).sent = g.sent) (gfx : s'.gfx = s.gfx.map f)
    (rest : { s' with gfx := [], gfxEmitNew := true } = { s with gfx := [], gfxEmitNew := true })
    (due : s'.gfxEmitNew = false → s.gfxEmitNew = false) : Intact h s' := by
  have recorded : s'.recorded = s.recorded := (congrArg Graphics.recorded rest :)
  have handed : s'.handed = s.handed := (congrArg Graphics.handed rest :)
  refine ⟨⟨(congrArg Graphics.outside rest :).trans intact.inside, ?_, ?_, handed ▸ intact.handed,
    recorded ▸ intact.within, ?_, handed ▸ intact.inOrder⟩, ?_, fun idle => recorded ▸ intact.idle (due idle)⟩
  · rw [gfx, map_map]
    have same : KgfxImg.serial ∘ f = KgfxImg.serial := funext fun g => (kept g).1
    rw [same]
    exact intact.ascending
  · rw [gfx, recorded, forall_mem_map]
    intro g present
    rw [(kept g).1]
    exact intact.known g present
  · rw [gfx, forall_mem_map]
    intro g present sent
    rw [(kept g).1]
    exact intact.sent g present ((kept g).2.symm.trans sent)
  · intro n due before
    obtain ⟨g, present, number⟩ := intact.pending n due (recorded ▸ before)
    exact ⟨f g, gfx ▸ mem_map_of_mem present, (kept g).1.trans number⟩

/-- A recording fits under the store's cap; a flush meets no delete that frees a group which has grown since. -/
def Provided (s : Graphics) : Event → Prop
  | .add _ _ _ data _ => s.gfxBytes + (data.length + 4) ≤ kgfxStoreBytesMax
  | .flush _ => Sheltered [] s.gfx
  | _ => True

instance decidableProvided (s : Graphics) (e : Event) : Decidable (s.Provided e) := by
  cases e <;> unfold Provided <;> infer_instance

theorem step_intact (intact : Intact h s) {e : Event} (provided : s.Provided e) : ∃ h', Intact h' (s.step e) := by
  unfold step
  rw [if_neg (by rw [intact.inside]; decide)]
  cases e with
  | add row col introducer data c => exact ⟨h, intact.add provided row col introducer c⟩
  | flush env => exact intact.flush provided env
  | replay => exact ⟨h, ⟨intact.inside, intact.ascending, intact.known, intact.handed, intact.within,
      intact.sent, intact.inOrder⟩, intact.pending, intact.idle⟩
  | lost img =>
    refine ⟨h, intact.relabel (f := fun g => if g.grp = s.winGfxGroupFind img 0 then { g with lost := true } else g)
      (fun g => ?_) rfl rfl (fun idle => by cases idle)⟩
    split <;> exact ⟨rfl, rfl⟩
  | resolved num img =>
    refine ⟨h, intact.relabel (f := fun g => if g.num = num ∧ g.id = 0 then { g with id := img } else g)
      (fun g => ?_) rfl rfl id⟩
    split <;> exact ⟨rfl, rfl⟩

/-- No command is lost: the flush stays inside the store, commands are handed on in the order of
recording, each is handed on or still held, and each has been handed on when no flush is due. -/
structure NothingLost (s : Graphics) : Prop where
  inside : s.outside = false
  inOrder : InOrder s.handed
  kept : ∀ n < s.recorded, n ∈ s.handed ∨ ∃ g ∈ s.gfx, g.serial = n
  flushed : s.gfxEmitNew = false → ∀ n < s.recorded, n ∈ s.handed

theorem Intact.nothingLost (intact : Intact h s) : s.NothingLost where
  inside := intact.inside
  inOrder := intact.inOrder
  kept n recorded := by
    by_cases old : n < h
    · exact .inl ((intact.handed n).mpr old)
    · exact .inr (intact.pending n (Nat.le_of_not_lt old) recorded)
  flushed idle n recorded := (intact.handed n).mpr (intact.idle idle ▸ recorded)

/-- More rounds change nothing: the loops of a flush end by themselves. -/
theorem loops_end (env : FlushEnv) (c : KgfxCtl) (s : Graphics) (upto more : Nat) :
    deleteLoop c ((s.gfx.length + 1) * (upto + 1) + more) s upto 0 = deleteLoop c ((s.gfx.length + 1) * (upto + 1)) s upto 0 ∧
      flushLoop env (s.gfx.length + more) s 0 = flushLoop env s.gfx.length s 0 := by
  refine ⟨deleteLoop_enough c le_rfl ?_ more, flushLoop_enough env (by omega) more⟩
  rw [deleteRounds, Nat.succ_mul]
  omega

theorem intact_empty : Intact 0 ({} : Graphics) where
  inside := rfl
  ascending := .nil
  known := forall_mem_nil _
  handed n := by simp
  within := Nat.le_refl 0
  sent := forall_mem_nil _
  inOrder p n q split := by simp at split
  pending n _ recorded := absurd recorded (Nat.not_lt_zero n)
  idle _ := rfl

/-- **No graphics command is lost**, as long as no flush meets a delete whose group has grown since. -/
theorem run_nothing_lost (events : List Event) (provided : Along step Provided {} events) : (run {} events).NothingLost := by
  obtain ⟨h, intact⟩ := provided.invariant (I := fun s => ∃ h, Intact h s)
    (fun s e kept meets => step_intact kept.choose_spec meets) ⟨0, intact_empty⟩
  exact intact.nothingLost

def Event.command (text : String) : Event := .add 0 0 95 (ascii text) (kgfxCtlParse (ascii text))

def Event.shown : Event := .flush ⟨true, some ⟨0, 0, 80, 24⟩⟩

def freedThenResent : List Event :=
  [.command "Ga=T,i=5;data", .shown, .command "Ga=d,d=I,i=5", .shown, .command "Ga=T,i=5;data", .shown]

theorem freedThenResent_nothing_lost : (run {} freedThenResent).NothingLost :=
  run_nothing_lost freedThenResent (by decide +kernel)

theorem freed_and_resent_lost :
    (run {} [.command "Ga=T,i=5;data", .command "Ga=d,d=I,i=5", .command "Ga=T,i=5;data", .shown]).outside = true ∧
      ¬ (run {} [.command "Ga=T,i=1;data", .command "Ga=T,i=2;data", .command "Ga=T,i=5;data", .command "Ga=d,d=I,i=5",
        .command "Ga=T,i=5;data", .shown]).NothingLost := by
  refine ⟨by decide +kernel, fun nothing => ?_⟩
  have missing : ¬ 4 ∈ (run {} [.command "Ga=T,i=1;data", .command "Ga=T,i=2;data", .command "Ga=T,i=5;data",
      .command "Ga=d,d=I,i=5", .command "Ga=T,i=5;data", .shown]).handed := by decide +kernel
  exact missing (nothing.flushed (by decide +kernel) 4 (by decide +kernel))

end Graphics

end Lumimux.Attach

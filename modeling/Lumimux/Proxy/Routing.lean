import Lumimux.Proxy.Relay

/-!
# Messages reach the client under the right window

As long as no connection takes a place that an entry still points to, every entry points to a record of its own socket.
-/

namespace Lumimux.Relay
open Lumimux.Ipc Lumimux.Lib List
open Lumimux.Proxy (pconnMax)

structure Routed (s : Proxy) : Prop where
  ids : (s.pconns.live.map Pconn.id).Nodup
  fds : (s.pconns.live.map Pconn.fd).Nodup
  transport : ∀ pc ∈ s.pconns.live, pc.t = some pc.fd ∧ s.openedFor pc.fd = some pc.id
  watched : (s.watches.map Watch.fd).Nodup
  points : ∀ w ∈ s.watches, s.pconns.slot w.arg ∈ s.pconns.live ∧ (s.pconns.slot w.arg).fd = w.fd

variable {s : Proxy}

theorem mem_ioxFdAdd {fd arg room watches w} (member : w ∈ ioxFdAdd fd arg room watches) : w ∈ watches ∨ w = ⟨fd, arg⟩ := by
  unfold ioxFdAdd at member
  split at member
  · simpa using member
  · exact .inl member

theorem nodup_ioxFdAdd {fd arg} (room : Bool) {watches} (distinct : (watches.map Watch.fd).Nodup)
    (fresh : fd ∉ watches.map Watch.fd) : ((ioxFdAdd fd arg room watches).map Watch.fd).Nodup := by
  unfold ioxFdAdd
  split
  · rw [map_append]
    exact distinct.append (nodup_singleton _) (by simpa using fresh)
  · exact distinct

theorem mem_ioxFdRemove {fd watches w} (distinct : (watches.map Watch.fd).Nodup) (member : w ∈ ioxFdRemove fd watches) :
    w ∈ watches ∧ w.fd ≠ fd := by
  induction watches with
  | nil => cases member
  | cons v rest ih =>
    obtain ⟨absent, distinct⟩ := nodup_cons.mp distinct
    unfold ioxFdRemove at member
    by_cases here : v.fd = fd
    · rw [eraseP_cons_of_pos (by simpa using here)] at member
      refine ⟨mem_cons_of_mem v member, ?_⟩
      rintro rfl
      exact absent (here ▸ mem_map_of_mem member)
    · rw [eraseP_cons_of_neg (by simpa using here)] at member
      rcases mem_cons.mp member with rfl | later
      · exact ⟨mem_cons_self, here⟩
      · obtain ⟨kept, apart⟩ := ih distinct later
        exact ⟨mem_cons_of_mem v kept, apart⟩

namespace Proxy

theorem pconnFindById_isSome_iff (id : UInt32) : (s.pconnFindById id).isSome ↔ id ∈ s.windows := lookup_isSome_iff

theorem pconnRemove_cases (s : Proxy) (id : UInt32) : (s.pconnRemove id = s ∧ id ∉ s.windows) ∨
      ∃ xs pc zs, s.pconns.live = xs ++ pc :: zs ∧ pc.id = id ∧ s.pconns.slot xs.length = pc ∧
        s.pconnRemove id =
          { s with
            pconns := s.pconns.vacate xs.length fun pc => { pc with t := none }
            loop := s.loop.map (ioxFdRemove pc.fd) } := by
  unfold pconnRemove
  cases found : s.pconns.live.findIdx? (fun pc => pc.id = id) with
  | none =>
    refine .inl ⟨rfl, ?_⟩
    rw [List.findIdx?_eq_none_iff] at found
    simpa [windows] using found
  | some i =>
    obtain ⟨xs, pc, zs, split, rfl, named⟩ := split_of_findIdx found
    have place := (s.pconns.slot_of_split split).2
    exact .inr ⟨xs, pc, zs, split, named, place, by simp only [place]⟩

end Proxy

namespace Routed

theorem start : Routed {} := by
  constructor <;> simp [Slots.live, Proxy.watches]

section
variable (h : Routed s)
include h

theorem absent_fd {fd} (fresh : ∀ pc ∈ s.pconns.live, pc.fd ≠ fd) : fd ∉ s.watches.map Watch.fd := by
  intro member
  obtain ⟨w, registered, rfl⟩ := mem_map.mp member
  obtain ⟨used, same⟩ := h.points w registered
  exact fresh _ used same

theorem attachMserver {id fd} (title : Option Bytes) (rows cols : UInt16) (room : Bool)
    (fresh : ∀ pc ∈ s.pconns.live, pc.fd ≠ fd) (free : id ∈ s.windows ∨ ∀ w ∈ s.watches, w.arg ≠ s.pconns.count) :
    Routed (s.attachMserver id fd title rows cols room) := by
  unfold Proxy.attachMserver
  split
  · exact h
  rename_i unknown
  rw [Proxy.pconnFindById_isSome_iff] at unknown
  have free := free.resolve_left unknown
  unfold Proxy.pconnAdd
  split
  · exact h
  have watches : ∀ {loop : Option (List Watch)} {w : Watch}, w ∈ (loop.map (ioxFdAdd fd s.pconns.count room)).getD [] →
      w ∈ loop.getD [] ∨ w = ⟨fd, s.pconns.count⟩ := by
    intro loop w member
    cases loop with
    | none => cases member
    | some old => exact mem_ioxFdAdd member
  constructor
  · rw [Slots.live_push, map_append]
    exact h.ids.append (nodup_singleton _) (by simpa [Proxy.windows] using unknown)
  · rw [Slots.live_push, map_append]
    exact h.fds.append (nodup_singleton _) (by simpa using fresh)
  · rw [Slots.live_push]
    intro pc member
    rcases mem_append.mp member with old | new
    · obtain ⟨own, opened⟩ := h.transport pc old
      exact ⟨own, (Function.update_of_ne (fresh pc old) _ _).trans opened⟩
    · rw [mem_singleton.mp new]
      exact ⟨rfl, Function.update_self ..⟩
  · unfold Proxy.watches
    cases loop : s.loop with
    | none => exact nodup_nil
    | some old =>
      have distinct := h.watched
      have absent := h.absent_fd fresh
      rw [Proxy.watches, loop] at distinct absent
      exact nodup_ioxFdAdd room distinct absent
  · intro w member
    rw [Slots.live_push]
    rcases watches member with old | rfl
    · obtain ⟨used, same⟩ := h.points w old
      rw [Slots.slot_push_of_ne _ _ (free w old)]
      exact ⟨mem_append_left _ used, same⟩
    · simp [Slots.push]

theorem pconnRemove (id : UInt32) : Routed (s.pconnRemove id) := by
  rcases s.pconnRemove_cases id with ⟨same, -⟩ | ⟨xs, pc, zs, split, -, place, removed⟩
  · rw [same]
    exact h
  rw [removed]
  have used := (s.pconns.slot_of_split split).1
  have perm : (s.pconns.vacate xs.length fun pc => { pc with t := none }).live.Perm (xs ++ zs) := by
    rw [s.pconns.live_vacate _ used, split]
    exact swapRemove_perm xs pc zs
  have sub : (xs ++ zs).Sublist s.pconns.live := by
    rw [split]
    exact List.Sublist.append_left (sublist_cons_self pc zs) xs
  constructor
  · exact (perm.map _).nodup_iff.mpr ((sub.map _).nodup h.ids)
  · exact (perm.map _).nodup_iff.mpr ((sub.map _).nodup h.fds)
  · intro c member
    exact h.transport c (sub.subset (perm.mem_iff.mp member))
  · unfold Proxy.watches
    cases loop : s.loop with
    | none => exact nodup_nil
    | some old =>
      have watched := h.watched
      rw [Proxy.watches, loop] at watched
      exact ((eraseP_sublist).map _).nodup watched
  · intro w member
    have kept : w ∈ s.watches ∧ w.fd ≠ pc.fd := by
      have watched := h.watched
      unfold Proxy.watches at member watched ⊢
      cases loop : s.loop with
      | none =>
        rw [loop] at member
        cases member
      | some old =>
        rw [loop] at member watched
        exact mem_ioxFdRemove watched member
    obtain ⟨used, same⟩ := h.points w kept.1
    -- the entry does not point to the hole: the record there is of another socket
    have elsewhere : w.arg ≠ xs.length := by
      intro here
      rw [here, place] at same
      exact kept.2 same.symm
    rw [Slots.slot_vacate_of_ne _ _ elsewhere]
    refine ⟨perm.mem_iff.mpr ?_, same⟩
    rw [split] at used
    rcases mem_append.mp used with front | back
    · exact mem_append_left _ front
    · rcases mem_cons.mp back with gone | later
      · rw [gone] at same
        exact absurd same.symm kept.2
      · exact mem_append_right _ later

theorem createLoop (room : Nat → Bool) : Routed (s.createLoop room) := by
  unfold Proxy.createLoop
  split
  · exact h
  -- the loop of the source, up to element `n`
  have registered : ∀ n ≤ s.pconns.count,
      let watches := (range n).foldl (fun watches i => ioxFdAdd (s.pconns.slot i).fd i (room i) watches) []
      (watches.map Watch.fd).Nodup ∧ ∀ w ∈ watches, w.arg < n ∧ (s.pconns.slot w.arg).fd = w.fd := by
    intro n
    induction n with
    | zero => exact fun _ => ⟨nodup_nil, fun w member => nomatch member⟩
    | succ n ih =>
      intro bound
      obtain ⟨distinct, points⟩ := ih (by omega)
      rw [range_succ, foldl_append, foldl_cons, foldl_nil]
      constructor
      · refine nodup_ioxFdAdd _ distinct fun member => ?_
        obtain ⟨w, old, same⟩ := mem_map.mp member
        obtain ⟨below, own⟩ := points w old
        have fds := h.fds
        rw [Slots.live, map_map] at fds
        have equal : w.arg = n := inj_on_of_nodup_map fds (mem_range.mpr (by omega))
          (mem_range.mpr (by omega)) (own.trans same)
        omega
      · intro w member
        rcases mem_ioxFdAdd member with old | rfl
        · obtain ⟨below, own⟩ := points w old
          exact ⟨by omega, own⟩
        · exact ⟨by simp, rfl⟩
  obtain ⟨distinct, points⟩ := registered s.pconns.count (Nat.le_refl _)
  refine ⟨h.ids, h.fds, h.transport, distinct, fun w member => ?_⟩
  obtain ⟨used, own⟩ := points w member
  exact ⟨s.pconns.slot_mem_live used, own⟩

theorem onReady_eq {fd} (watched : fd ∈ s.watches.map Watch.fd) {window}
    (opened : s.openedFor fd = some window) (wire : Wire) : window ∈ s.windows ∧
      (∀ type buf, wire fd = some (type, buf) → s.onReady fd wire = ⟨s, some fd, [⟨window, type, buf⟩]⟩) ∧
      (wire fd = none → s.onReady fd wire = ⟨s.pconnRemove window, some fd, [winRemoved window]⟩) := by
  obtain ⟨w, found⟩ := Option.isSome_iff_exists.mp (lookup_isSome_iff.mpr watched)
  obtain ⟨used, same⟩ := h.points w (mem_of_lookup found)
  rw [key_of_lookup found] at same
  obtain ⟨own, recorded⟩ := h.transport _ used
  rw [same, opened] at recorded
  have named : (s.pconns.slot w.arg).id = window := (Option.some.inj recorded).symm
  refine ⟨named ▸ mem_map_of_mem used, fun type buf received => ?_, fun ended => ?_⟩
  · simp only [Proxy.onReady, Proxy.onMserverRead, found, own, same, named, received]
  · simp only [Proxy.onReady, Proxy.onMserverRead, found, own, same, named, ended]

theorem step (e : Event) (fresh : FreshFd s e) (free : PlaceFree s e) : Routed (s.step e) := by
  cases e with
  | attach id fd title rows cols room => exact h.attachMserver title rows cols room fresh free
  | remove id => exact h.pconnRemove id
  | createLoop room => exact h.createLoop room
  | ready fd wire =>
    show Routed (s.onReady fd wire).state
    unfold Proxy.onReady Proxy.onMserverRead
    split
    · exact h
    · dsimp only
      split
      · exact h
      · split
        · exact h.pconnRemove _
        · exact h

end

theorem run {events} (h : Routed s) (fresh : Along Proxy.step FreshFd s events) (free : Along Proxy.step PlaceFree s events) :
    Routed (s.run events) := by
  refine (fresh.and free).invariant (I := Routed) (fun s e h allowed => ?_) h
  exact h.step e allowed.1 allowed.2

theorem windows_pconnRemove (h : Routed s) (id : UInt32) : (s.pconnRemove id).windows.Perm (s.windows.erase id) := by
  rcases s.pconnRemove_cases id with ⟨same, absent⟩ | ⟨xs, pc, zs, split, rfl, -, removed⟩
  · rw [same, erase_of_not_mem absent]
  · rw [removed]
    have used := (s.pconns.slot_of_split split).1
    have ids := h.ids
    rw [split, map_append, map_cons] at ids
    have front : pc.id ∉ xs.map Pconn.id := fun member => by
      exact (nodup_append.mp ids).2.2 _ member _ mem_cons_self rfl
    show ((s.pconns.vacate xs.length _).live.map Pconn.id).Perm _
    rw [s.pconns.live_vacate _ used, Proxy.windows, split, map_append, map_cons,
      erase_append_right _ front, erase_cons_head, ← map_append]
    exact (swapRemove_perm xs pc zs).map _

end Routed

/-- **Routing.** In every history in which a new connection never takes a place the loop still points to,
the readiness of a socket is handled for the window the socket was opened for. -/
theorem run_routes (events : List Event) (fresh : Along Proxy.step FreshFd {} events)
    (free : Along Proxy.step PlaceFree {} events) (fd : Nat) (window : UInt32) (wire : Wire)
    (watched : fd ∈ (Proxy.run {} events).watches.map Watch.fd) (opened : (Proxy.run {} events).openedFor fd = some window) :
    let s := Proxy.run {} events
    let handled := s.onReady fd wire
    handled.source = some fd ∧
      (∀ type buf, wire fd = some (type, buf) → handled.sent = [⟨window, type, buf⟩] ∧ handled.state = s) ∧
      (wire fd = none → handled.sent = [winRemoved window] ∧ window ∈ s.windows ∧
        handled.state.windows.Perm (s.windows.erase window)) := by
  intro s handled
  have routed : Routed s := Routed.start.run fresh free
  obtain ⟨connected, relays, ends⟩ := routed.onReady_eq watched opened wire
  refine ⟨?_, fun type buf received => ?_, fun ended => ?_⟩
  · cases received : wire fd with
    | none => exact congrArg Handled.source (ends received)
    | some message => exact congrArg Handled.source (relays message.1 message.2 received)
  · have same := relays type buf received
    exact ⟨congrArg Handled.sent same, congrArg Handled.state same⟩
  · have same := ends ended
    refine ⟨congrArg Handled.sent same, connected, ?_⟩
    rw [show handled.state = s.pconnRemove window from congrArg Handled.state same]
    exact routed.windows_pconnRemove window

def firstLeaves : List Event :=
  [.attach 1 10 none 24 80 true, .attach 2 11 none 24 80 true, .createLoop fun _ => true, .remove 1]

def threeWires : Wire
  | 11 => some (.output, [98])
  | 12 => some (.output, [99])
  | _ => none

theorem firstLeaves_routes : ((Proxy.run {} firstLeaves).onReady 11 threeWires).sent = [⟨2, .output, [98]⟩] := by
  have routes := run_routes firstLeaves (by decide +kernel) (by decide +kernel) 11 2 threeWires (by decide +kernel)
    (by decide +kernel)
  exact (routes.2.1 .output [98] rfl).1

theorem reused_place_misroutes :
    let s := Proxy.run {} (firstLeaves ++ [.attach 3 12 none 24 80 true])
    Along Proxy.step FreshFd {} (firstLeaves ++ [.attach 3 12 none 24 80 true]) ∧ 11 ∈ s.watches.map Watch.fd ∧
      s.openedFor 11 = some 2 ∧ threeWires 11 = some (.output, [98]) ∧ (s.onReady 11 threeWires).source = some 12 ∧
      (s.onReady 11 threeWires).sent = [⟨3, .output, [99]⟩] := by
  decide +kernel

end Lumimux.Relay

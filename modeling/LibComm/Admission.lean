import LibComm.ClientCount
import LibComm.Seating
import LibComm.SlotLiveness

/-!
# The server as a house with seats

What the slots and the count of a server are for: a client is let in if there
is room, keeps one slot until it disconnects, and does not come back. A client
that has cleared its slot is counted until it has decremented `userNum`.
-/

namespace LibComm.Admission
open ClientCount ClientTable Interleaving Seating SlotLiveness StreamServer Tally

/-- The client that has passed the capacity check and has no slot yet. -/
def door : ListenPc → Option ℕ
  | .choose k | .alloc k _ | .create k _ | .acptFunc k _ | .writeSlot k _ => some k
  | .listen | .running | .testcancel | .accept | .accepted _ | .capacity _ | .refuse _ => none
  | .increment | .finish | .ended | .cancelled => none

def arrived (s : State) : ℕ :=
  match s.listener with
  | .accepted k | .capacity k => k
  | _ => s.accepted

def view (s : State) : House (Fin tcpUserNum) where
  arrived := arrived s
  door := door s.listener
  seat i := (s.table.pUser i).map Ptr.id
  leaving := (Finset.range s.accepted).filter fun k => decrementing (s.clients k) = true

def seats (σ : Setup) : Finset (Fin tcpUserNum) :=
  Finset.univ.filter fun i => (i : ℤ) < (Table.init σ.maxUserNum : Table Ptr).maxUserNum

def events (s : State) : StreamServer.Label → List (Event (Fin tcpUserNum))
  | .listener =>
    match s.listener with
    | .capacity _ => [.knock (!decide (s.table.userNum ≥ s.table.maxUserNum))]
    | .choose _ => s.table.freeSlot.elim [.noSeat] fun _ => []
    | .writeSlot _ i => [.sit i]
    | _ => []
  | .mallocReturns none => [.withdraw]
  | .createReturns false => [.withdraw]
  | .thread k =>
    match (s.clients k).pc with
    | .disconnect .search =>
      (s.table.slotOf fun p => some p.addr == (s.clients k).record).elim [] fun i => [.leave k i]
    | .disconnect .decrement => [.signOut k]
    | _ => []
  | _ => []

/-- The conditions of `slots_live` and `count_at_rest`: a client disconnects after it has been
entered and counted. -/
def InTurn (s : State) (l : StreamServer.Label) : Prop :=
  Serving l ∧ SearchAfterEntry s l ∧ DecrementsOne s l

instance (s : State) (l : StreamServer.Label) : Decidable (InTurn s l) :=
  inferInstanceAs (Decidable (_ ∧ _ ∧ _))

structure Ordered (σ : Setup) (s : State) : Prop extends Entered s where
  drift : drift s = 0
  pending : s.pending = false
  limit : s.table.maxUserNum = (Table.init σ.maxUserNum : Table Ptr).maxUserNum
  last : ∀ k, s.listener.hand = some k → k + 1 = s.accepted

section Steps
variable {σ : Setup} {s t : State} {l : StreamServer.Label} {k : ℕ}

theorem ordered_init (σ : Setup) : Ordered σ (serverInit σ) where
  toEntered := entered_init σ
  drift := drift_init σ
  pending := rfl
  limit := rfl
  last := by simp [serverInit]

theorem move_last (hlast : ∀ k, s.listener.hand = some k → k + 1 = s.accepted)
    (hm : Move σ s l t) (hk : t.listener.hand = some k) : k + 1 = t.accepted := by
  cases hm with
  | control hl hh hc => exact hlast k (hc.hand k hk)
  | listenFails | finish | increment | writeSlot | refuse => simp at hk
  | accept =>
    obtain rfl : s.accepted = k := by simpa using hk
    rfl
  | malloc hl | created hl | notCreated hl | acptFunc hl => exact hlast k (by simpa [hl] using hk)
  | search | decrement | advance | recv => exact hlast k hk

theorem move_pending (hm : Move σ s l t) : t.pending = s.pending := by
  cases hm <;> rfl

theorem Ordered.step (h : Ordered σ s) (hg : InTurn s l) (ht : StreamServer.step σ s l = some t) :
    Ordered σ t := by
  obtain ⟨hserve, hsearch, hone⟩ := hg
  have hm := step_move ht hserve
  have hdrift := drift_move h.toTracked hm
  rw [if_pos hone, add_zero] at hdrift
  exact ⟨h.toEntered.move hm hsearch, hdrift.trans h.drift, (move_pending hm).trans h.pending,
    (move_maxUserNum hm).trans h.limit, fun k hk => move_last h.last hm hk⟩

theorem mem_leaving :
    k ∈ (view s).leaving ↔ k < s.accepted ∧ decrementing (s.clients k) = true := by
  simp [view]

theorem view_setClient {c : Client} (hc : decrementing c = decrementing (s.clients k)) :
    view (s.setClient k c) = view s := by
  have hleaving : (Finset.range s.accepted).filter
        (fun j => decrementing (Function.update s.clients k c j) = true) =
      (Finset.range s.accepted).filter fun j => decrementing (s.clients j) = true := by
    refine Finset.filter_congr fun j _ => ?_
    by_cases hj : j = k
    · subst hj
      simp [hc]
    · simp [hj]
  exact House.ext rfl rfl rfl hleaving

theorem view_listen {pc : ListenPc} (hd : door pc = door s.listener)
    (ha : arrived (s.listen pc) = arrived s) : view (s.listen pc) = view s :=
  House.ext ha hd rfl rfl

theorem view_served {pc : ListenPc} {c : Client}
    (hc : decrementing c = decrementing (s.clients k)) (hd : door pc = door s.listener)
    (ha : arrived (s.listen pc) = arrived s) : view ((s.setClient k c).listen pc) = view s :=
  (view_listen (s := s.setClient k c) hd ha).trans (view_setClient hc)

theorem view_away {pc : ListenPc} (hd : door pc = none)
    (ha : arrived (s.listen pc) = arrived s) :
    view (s.listen pc) = { view s with door := none } :=
  House.ext ha hd rfl rfl

theorem taken_view (h : Ordered σ s) : (view s).taken (seats σ) = s.table.occupied := by
  unfold House.taken Table.occupied tally
  congr 1
  ext i
  simp only [seats, view, Finset.mem_filter, Finset.mem_univ, true_and, Option.isSome_map]
  refine ⟨fun hi => hi.2, fun hi => ⟨?_, hi⟩⟩
  obtain ⟨p, hp⟩ := Option.isSome_iff_exists.mp hi
  exact h.limit ▸ h.below i p hp

theorem card_seats (σ : Setup) :
    ((seats σ).card : ℤ) = max (Table.init σ.maxUserNum : Table Ptr).maxUserNum 0 :=
  Table.card_slots (Table.init_maxUserNum_le σ.maxUserNum)

theorem full_iff (h : Ordered σ s) (hl : s.listener ≠ .increment) :
    (view s).full (seats σ) ↔ s.table.userNum ≥ s.table.maxUserNum := by
  have hd := h.drift
  have hclosing : closing s = (view s).leaving.card := rfl
  have hcard := card_seats σ
  rw [← h.limit] at hcard
  simp only [ClientCount.drift, entering, if_neg hl, add_zero, hclosing] at hd
  unfold House.full
  rw [taken_view h, ge_iff_le]
  omega

theorem exec_single {ι α : Type*} {f : α → ι → Option α} {x : α} {e : ι} :
    exec f x [e] = f x e := by
  cases hf : f x e <;> simp [exec, hf]

theorem listen_view (h : Ordered σ s) (ht : listenStep σ s = some t) :
    exec (Seating.step (seats σ)) (view s) (events s .listener) = some (view t) := by
  unfold listenStep at ht
  cases hl : s.listener with
  | listen | alloc | create | ended | cancelled => simp [hl] at ht
  | running | testcancel =>
    simp only [hl, Option.some.injEq] at ht
    subst ht
    simp only [events, hl, exec, Option.some.injEq]
    symm
    apply view_listen <;> split_ifs <;> simp [hl, door, arrived]
  | accept => simp [hl, h.pending] at ht
  | accepted k =>
    simp only [hl, h.pending, Bool.false_eq_true, if_false, Option.some.injEq] at ht
    subst ht
    simp only [events, hl, exec, Option.some.injEq]
    exact (view_listen (by simp [hl, door]) (by simp [hl, arrived])).symm
  | capacity k =>
    simp only [hl, Option.some.injEq] at ht
    subst ht
    have hfull := full_iff h (by simp [hl])
    have hk := h.last k (by simp [hl])
    have hd : (view s).door = none := by simp [view, hl, door]
    have ha : (view s).arrived = k := by simp [view, hl, arrived]
    simp only [events, hl, exec_single, Seating.step]
    rw [if_pos ⟨hd, by rw [hfull]; simp⟩]
    congr 1
    by_cases hn : s.table.userNum ≥ s.table.maxUserNum
    · simp [hn, view, arrived, door, hl, hk]
    · simp [hn, view, arrived, door, hl, hk]
  | choose k =>
    simp only [hl, Option.some.injEq] at ht
    subst ht
    cases hf : s.table.freeSlot with
    | none =>
      simp only [events, hl, hf, Option.elim_none, exec_single, Seating.step]
      rw [if_pos]
      · exact congrArg some (view_away rfl (by simp [arrived, hl])).symm
      · refine ⟨by simp [view, hl, door], fun i hi => ?_⟩
        have hlt : (i : ℤ) < s.table.maxUserNum := by
          rw [h.limit]
          exact (Finset.mem_filter.mp hi).2
        simpa [view] using Table.freeSlot_none hf i hlt
    | some i =>
      simp only [events, hl, hf, Option.elim_some, exec, Option.some.injEq]
      exact (view_listen (by simp [hl, door]) (by simp [hl, arrived])).symm
  | acptFunc k i =>
    simp only [hl, Option.some.injEq] at ht
    subst ht
    simp only [events, hl, exec, Option.some.injEq]
    refine (view_served ?_ (by simp [hl, door]) (by simp [hl, arrived])).symm
    simp [decrementing, log_client]
  | writeSlot k i =>
    simp only [hl, Option.some.injEq] at ht
    subst ht
    obtain ⟨hlt, hnone⟩ := h.chosen i (by simp [hl])
    have hi : i ∈ seats σ := Finset.mem_filter.mpr ⟨Finset.mem_univ i, h.limit ▸ hlt⟩
    have hd : (view s).door = some k := by simp [view, hl, door]
    simp only [events, hl, exec_single, Seating.step, hd, Option.bind_some]
    rw [if_pos ⟨hi, by simp [view, hnone]⟩]
    congr 1
    refine House.ext (by simp [view, arrived, hl]) (by simp [view, door]) ?_ rfl
    funext j
    by_cases hj : j = i <;> simp [view, hj]
  | increment =>
    simp only [hl, Option.some.injEq] at ht
    subst ht
    simp only [events, hl, exec, Option.some.injEq]
    simp [view, arrived, door, hl]
  | refuse k =>
    simp only [hl, h.pending, Bool.false_eq_true, if_false, Option.some.injEq] at ht
    subst ht
    simp only [events, hl, exec, Option.some.injEq]
    exact (view_served (by rfl) (by simp [hl, door]) (by simp [hl, arrived])).symm
  | finish =>
    simp only [hl, Option.some.injEq] at ht
    subst ht
    simp only [events, hl, exec, Option.some.injEq]
    exact House.ext (by simp [view, arrived, hl]) (by simp [view, door, hl]) rfl rfl

theorem slot_own (h : Entered s) (hpc : (s.clients k).pc = .disconnect .search)
    {i : Fin tcpUserNum}
    (hi : (s.table.slotOf fun p => some p.addr == (s.clients k).record) = some i) :
    ∃ p, s.table.pUser i = some p ∧ p.id = k := by
  obtain ⟨-, p, hp, hq⟩ := Table.slotOf_some hi
  obtain ⟨hlist, hr⟩ := h.entry i p hp
  have hlive := h.running p.id (listed_pc hlist).1 (listed_pc hlist).2
  have hlive' := h.running k (by simp [hpc]) (by simp [hpc])
  exact ⟨p, hp, h.unique _ _ hlive hlive' (by rw [hr]; exact eq_of_beq hq)⟩

theorem thread_view (h : Ordered σ s) (ht : recvStep σ s k = some t) :
    exec (Seating.step (seats σ)) (view s) (events s (.thread k)) = some (view t) := by
  have hm := recvStep_move ht
  have hlt : ∀ d, (s.clients k).pc = .disconnect d → k < s.accepted :=
    fun d hd => h.lt (by simp [hd])
  cases hm with
  | control hl => exact absurd rfl (hl k)
  | search hpc =>
    simp only [events, hpc]
    unfold State.search
    cases hi : s.table.slotOf fun p => some p.addr == (s.clients k).record with
    | none =>
      simp only [Option.elim_none, exec, Option.some.injEq]
      exact (view_setClient (by simp [decrementing, hpc])).symm
    | some i =>
      obtain ⟨p, hp, hid⟩ := slot_own h.toEntered hpc hi
      have hs : (view s).seat i = some k := by simp [view, hp, hid]
      simp only [Option.elim_some, exec_single, Seating.step]
      rw [if_pos hs]
      refine congrArg some (House.ext rfl rfl ?_ ?_)
      · funext j
        by_cases hj : j = i <;> simp [view, hj]
      · ext j
        rw [mem_leaving, Finset.mem_insert, mem_leaving]
        by_cases hj : j = k
        · simp [hj, decrementing, hlt _ hpc]
        · simp [hj]
  | decrement hpc =>
    have hk : k ∈ (view s).leaving :=
      Finset.mem_filter.mpr ⟨Finset.mem_range.mpr (hlt _ hpc), by simp [decrementing, hpc]⟩
    simp only [events, hpc, exec_single, Seating.step]
    rw [if_pos hk]
    refine congrArg some (House.ext rfl rfl rfl ?_)
    ext j
    rw [mem_leaving, Finset.mem_erase, mem_leaving]
    by_cases hj : j = k
    · simp [hj, decrementing]
    · simp [hj]
  | advance hs hd hc =>
    obtain ⟨hold, hnew⟩ := advance_decrementing hc hs hd
    have he : events s (.thread k) = [] := by
      simp only [events]
    rw [he, view_setClient (hnew.trans hold.symm)]
    rfl

theorem step_view (h : Ordered σ s) (hg : Serving l)
    (ht : StreamServer.step σ s l = some t) :
    exec (Seating.step (seats σ)) (view s) (events s l) = some (view t) := by
  cases l with
  | listener => exact listen_view h ht
  | thread k => exact thread_view h ht
  | uninit => exact absurd rfl hg
  | listenReturns ok =>
    simp only [StreamServer.step] at ht
    split_ifs at ht with hl hok <;> obtain rfl := Option.some.inj ht
    · exact congrArg some (view_listen (by simp [hl, door]) (by simp [hl, arrived])).symm
    · exact congrArg some
        (House.ext (by simp [view, arrived, hl]) (by simp [view, door, hl]) rfl rfl)
  | acceptReturns fd =>
    simp only [StreamServer.step] at ht
    split_ifs at ht with hl hfd <;> obtain rfl := Option.some.inj ht
    · exact congrArg some (view_listen (by simp [hl.1, door]) (by simp [hl.1, arrived])).symm
    · refine congrArg some (House.ext (by simp [view, arrived, hl.1]) (by simp [view, door, hl.1])
        rfl ?_)
      ext j
      rw [mem_leaving, mem_leaving]
      by_cases hj : j = s.accepted
      · simp [hj, decrementing]
      · simp only [State.setClient, State.listen, Function.update_of_ne hj]
        refine and_congr_left fun _ => ?_
        omega
  | mallocReturns mem =>
    simp only [StreamServer.step] at ht
    split at ht
    · rename_i k i hl
      cases mem with
      | none =>
        obtain rfl := Option.some.inj ht
        have hd : (view s).door = some k := by simp [view, hl, door]
        simp only [events, exec_single, Seating.step, hd, reduceCtorEq, if_false]
        exact congrArg some (view_away rfl (by simp [arrived, hl])).symm
      | some a =>
        simp only at ht
        split_ifs at ht
        obtain rfl := Option.some.inj ht
        exact congrArg some
          (view_served (by rfl) (by simp [hl, door]) (by simp [hl, arrived])).symm
    · simp at ht
  | createReturns ok =>
    simp only [StreamServer.step] at ht
    split at ht
    · rename_i k i hl
      have hpc := h.waiting k (by simp [hl]) (by simp [hl])
      cases ok with
      | true =>
        obtain rfl := Option.some.inj ht
        refine congrArg some (view_served ?_ (by simp [hl, door]) (by simp [hl, arrived])).symm
        simp [decrementing, hpc]
      | false =>
        obtain rfl := Option.some.inj ht
        have hd : (view s).door = some k := by simp [view, hl, door]
        simp only [events, exec_single, Seating.step, hd, reduceCtorEq, if_false]
        rw [← view_setClient (s := s) (k := k)
          (c := { s.clients k with frees := (s.clients k).frees + 1 }) rfl]
        exact congrArg some (view_away rfl (by simp [arrived, hl])).symm
    · simp at ht
  | recvReturns k len =>
    simp only [StreamServer.step, Option.ite_none_right_eq_some, Option.some.injEq] at ht
    obtain ⟨⟨hpc, -⟩, rfl⟩ := ht
    refine congrArg some (view_setClient ?_).symm
    simp only [decrementing, Client.at, hpc]
    split_ifs <;> rfl

theorem view_init (σ : Setup) : view (serverInit σ) = House.empty := by
  refine House.ext rfl rfl rfl ?_
  ext k
  rw [mem_leaving]
  simp [serverInit, House.empty]

theorem Ordered.run {ls : List StreamServer.Label} (h : Ordered σ s)
    (ho : Obeys (StreamServer.step σ) InTurn s ls)
    (ht : exec (StreamServer.step σ) s ls = some t) : Ordered σ t :=
  invariant (fun _ _ _ hs hg hu => hs.step hg hu) h ho ht

theorem Ordered.view_run {ls : List StreamServer.Label} (h : Ordered σ s)
    (ho : Obeys (StreamServer.step σ) InTurn s ls)
    (ht : exec (StreamServer.step σ) s ls = some t) :
    exec (Seating.step (seats σ)) (view s) (trace (StreamServer.step σ) events s ls) =
      some (view t) :=
  simulates (fun _ _ _ hs hg hu => hs.step hg hu) (fun _ _ _ hs hg hu => step_view hs hg.1 hu)
    h ho ht

end Steps

section Runs
variable {σ : Setup} {ls ls' : List StreamServer.Label} {s t : State}

/-- Every run in which the clients disconnect in turn is a run of the house. -/
theorem server_refines (ho : Obeys (StreamServer.step σ) InTurn (serverInit σ) ls)
    (h : exec (StreamServer.step σ) (serverInit σ) ls = some s) :
    exec (Seating.step (seats σ)) House.empty
      (trace (StreamServer.step σ) events (serverInit σ) ls) = some (view s) := by
  rw [← view_init σ]
  exact (ordered_init σ).view_run ho h

theorem inv_view (ho : Obeys (StreamServer.step σ) InTurn (serverInit σ) ls)
    (h : exec (StreamServer.step σ) (serverInit σ) ls = some s) :
    Seating.Inv (seats σ) (view s) := by
  have hrun := (ordered_init σ).view_run ho h
  rw [view_init] at hrun
  exact (inv_empty (seats σ)).run hrun

def single : Setup := ⟨.tcpIpv4, 1, true, true, true, 3⟩

def enterOne : List StreamServer.Label :=
  [.listenReturns true, .listener, .listener, .acceptReturns 4, .listener, .listener, .listener,
    .mallocReturns (some 100), .createReturns true, .listener, .listener, .listener]

def halfGone : List StreamServer.Label :=
  [.thread 0, .thread 0, .thread 0, .recvReturns 0 0, .thread 0, .thread 0, .thread 0, .thread 0,
    .listener, .listener, .acceptReturns 5, .listener]

theorem server_refines_halfGone : ∃ s, s.listener = .capacity 1 ∧ s.table.pUser 0 = none ∧
    exec (Seating.step (seats single)) House.empty
      (trace (StreamServer.step single) events (serverInit single) (enterOne ++ halfGone)) =
        some (view s) := by
  have hrun : (exec (StreamServer.step single) (serverInit single) (enterOne ++ halfGone)).map
      (fun s => (s.listener, s.table.pUser 0)) = some (.capacity 1, none) := by decide +kernel
  obtain ⟨s, hs, he⟩ := Option.map_eq_some_iff.mp hrun
  obtain ⟨hl, hp⟩ := Prod.mk.inj he
  exact ⟨s, hl, hp, server_refines (by decide +kernel) hs⟩

/-- A client is turned away at the capacity check exactly if the slots that are taken and the
clients that have cleared theirs without decrementing the count reach the limit; one that passes
the check finds a free slot. -/
theorem admission_exact (ho : Obeys (StreamServer.step σ) InTurn (serverInit σ) ls)
    (h : exec (StreamServer.step σ) (serverInit σ) ls = some s) :
    (∀ k t, s.listener = .capacity k → StreamServer.step σ s .listener = some t →
      (t.listener = .refuse k ↔ s.table.maxUserNum ≤ s.table.occupied + closing s)) ∧
    (∀ k, s.listener = .choose k → s.table.freeSlot ≠ none) ∧
    (s.table.occupied + closing s + if door s.listener = none then 0 else 1 : ℤ) ≤
      max s.table.maxUserNum 0 := by
  have hs : Ordered σ s := (ordered_init σ).run ho h
  have hv := inv_view ho h
  have hcard := card_seats σ
  rw [← hs.limit] at hcard
  refine ⟨fun k t hk ht => ?_, fun k hk hnone => ?_, ?_⟩
  · have hfull := full_iff hs (by simp [hk])
    unfold House.full at hfull
    rw [taken_view hs] at hfull
    have ht' : s.listen (if s.table.userNum ≥ s.table.maxUserNum then .refuse k else .choose k) =
        t := by simpa [StreamServer.step, listenStep, hk] using ht
    have hrefuse : t.listener = .refuse k ↔ s.table.userNum ≥ s.table.maxUserNum := by
      subst ht'
      by_cases hn : s.table.userNum ≥ s.table.maxUserNum <;> simp [hn]
    have hclosing : closing s = (view s).leaving.card := rfl
    rw [hrefuse, ← hfull]
    omega
  · obtain ⟨i, hi, hfree⟩ := hv.free (by simp [view, hk, door])
    have hlt : (i : ℤ) < s.table.maxUserNum := by
      rw [hs.limit]
      exact (Finset.mem_filter.mp hi).2
    exact Table.freeSlot_none hnone i hlt (by simpa [view] using hfree)
  · have hroom := hv.room
    have hclosing : closing s = (view s).leaving.card := rfl
    have hdoor : (view s).door = door s.listener := rfl
    rw [taken_view hs, hdoor] at hroom
    split_ifs at hroom ⊢ <;> omega

theorem admission_exact_halfGone : ∃ s t, s.table.pUser 0 = none ∧
    (s.listener = .capacity 1 ∧ StreamServer.step single s .listener = some t) ∧
    (t.listener = .refuse 1 ↔ s.table.maxUserNum ≤ s.table.occupied + closing s) := by
  have hrun : (exec (StreamServer.step single) (serverInit single) (enterOne ++ halfGone)).map
      (fun s => (s.listener, s.table.pUser 0)) = some (.capacity 1, none) := by decide +kernel
  obtain ⟨s, hs, he⟩ := Option.map_eq_some_iff.mp hrun
  obtain ⟨hl, hp⟩ := Prod.mk.inj he
  have ht : StreamServer.step single s .listener = some (s.listen
      (if s.table.userNum ≥ s.table.maxUserNum then .refuse 1 else .choose 1)) := by
    simp [StreamServer.step, listenStep, hl]
  exact ⟨s, _, hp, ⟨hl, ht⟩, (admission_exact (by decide +kernel) hs).1 1 _ hl ht⟩

/-- A client keeps its slot until its own `DisconnectClient` clears it, and has none afterwards. -/
theorem slot_kept (ho : Obeys (StreamServer.step σ) InTurn (serverInit σ) (ls ++ ls'))
    (h : exec (StreamServer.step σ) (serverInit σ) ls = some s)
    (h' : exec (StreamServer.step σ) s ls' = some t) {i : Fin tcpUserNum} {p : Ptr}
    (hp : s.table.pUser i = some p) :
    (∃ q, t.table.pUser i = some q ∧ q.id = p.id) ∧
        Event.leave p.id i ∉ trace (StreamServer.step σ) events s ls' ∨
      (∀ j q, t.table.pUser j = some q → q.id ≠ p.id) ∧
        Event.leave p.id i ∈ trace (StreamServer.step σ) events s ls' := by
  have hs : Ordered σ s := (ordered_init σ).run ho.of_append h
  have hrun := hs.view_run (ho.of_exec h) h'
  have hseat : (view s).seat i = some p.id := by simp [view, hp]
  refine ((inv_view ho.of_append h).keeps hseat hrun).imp (fun hk => ⟨?_, hk.2⟩) fun hk => ?_
  · simpa [view] using hk.1
  · refine ⟨fun j q hq he => hk.1.2.2 j ?_, hk.2⟩
    simp [view, hq, he]

theorem slot_kept_halfGone : ∃ (s t : State) (p : Ptr),
    s.table.pUser 0 = some p ∧ t.table.pUser 0 = none ∧
    ((∃ q, t.table.pUser 0 = some q ∧ q.id = p.id) ∧
        Event.leave p.id 0 ∉ trace (StreamServer.step single) events s halfGone ∨
      (∀ j q, t.table.pUser j = some q → q.id ≠ p.id) ∧
        Event.leave p.id 0 ∈ trace (StreamServer.step single) events s halfGone) := by
  have hrun : (exec (StreamServer.step single) (serverInit single) enterOne).map
      (fun s => s.table.pUser 0) = some (some ⟨100, 0⟩) := by decide +kernel
  have hall : (exec (StreamServer.step single) (serverInit single) (enterOne ++ halfGone)).map
      (fun s => s.table.pUser 0) = some none := by decide +kernel
  obtain ⟨s, hs, hp⟩ := Option.map_eq_some_iff.mp hrun
  obtain ⟨t, ht, hn⟩ := Option.map_eq_some_iff.mp hall
  obtain ⟨u, hu, hut⟩ := exec_append.mp ht
  obtain rfl : s = u := Option.some.inj (hs.symm.trans hu)
  exact ⟨s, t, _, hp, hn, slot_kept (by decide +kernel) hs hut hp⟩

end Runs

end LibComm.Admission

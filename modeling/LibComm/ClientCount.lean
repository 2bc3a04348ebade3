import LibComm.StreamServer

/-!
# The client count at rest

`AcceptClient` writes a slot and then increments `userNum`; `DisconnectClient`
clears a slot and then decrements it unless it is 0 already. What the steps of
all threads leave alone is the difference between the count and the slots,
corrected by the increment and the decrements still to come. Only a decrement
that finds the count at 0 changes it, and nothing changes it back.
-/

namespace LibComm.ClientCount
open ClientTable Interleaving StreamServer Tally

def decrementing (c : Client) : Bool := c.pc == .disconnect .decrement

def closing (s : State) : ℕ := tally (Finset.range s.accepted) decrementing s.clients

def entering (pc : ListenPc) : ℤ := if pc = .increment then 1 else 0

/-- How far the count is above the slots, once the increment and decrements under way are done. -/
def drift (s : State) : ℤ :=
  s.table.userNum + entering s.listener - s.table.occupied - closing s

/-- No thread finds the count at 0 when it comes to decrement it. -/
def DecrementsOne : State → Label → Prop := OnThreads fun s k =>
  ¬ ((s.clients k).pc = .disconnect .decrement ∧ s.table.userNum ≤ 0)

instance (s : State) (l : Label) : Decidable (DecrementsOne s l) :=
  inferInstanceAs (Decidable (OnThreads _ s l))

def accepting : ListenPc → Bool
  | .capacity _ | .choose _ | .alloc _ _ | .create _ _ | .acptFunc _ _ | .writeSlot _ _ => true
  | .increment => true
  | .listen | .running | .testcancel | .accept | .accepted _ | .refuse _ => false
  | .finish | .ended | .cancelled => false

structure AtRest (s : State) : Prop where
  listener : accepting s.listener = false
  threads : ∀ k d, (s.clients k).pc ≠ .disconnect d

theorem drift_setClient {s : State} {k : ℕ} (hk : k < s.accepted) (c : Client) :
    drift (s.setClient k c) + (if decrementing c then 1 else 0) =
      drift s + (if decrementing (s.clients k) then 1 else 0) := by
  have h := tally_update (Finset.mem_range.mpr hk) decrementing s.clients c
  simp only [drift, closing, State.setClient]
  by_cases hc : decrementing c = true <;> by_cases hk : decrementing (s.clients k) = true <;>
    simp only [hc, hk, if_true, if_false, Bool.false_eq_true] at h ⊢ <;> omega

theorem drift_setTable (s : State) (t : Table Ptr) :
    drift (s.setTable t) - t.userNum + t.occupied =
      drift s - s.table.userNum + s.table.occupied := by
  simp only [drift, closing, State.setTable]
  omega

theorem closing_accept {s : State} {c : Client} (hc : decrementing c = false) :
    tally (Finset.range (s.accepted + 1)) decrementing (Function.update s.clients s.accepted c) =
      closing s := by
  rw [Finset.range_add_one, tally_insert Finset.notMem_range_self, hc]
  rfl

theorem drift_init (σ : Setup) : drift (serverInit σ) = 0 := by
  simp [drift, serverInit, closing, entering, tally, Client.absent, decrementing]

theorem drift_congr {s t : State} (ht : t.table = s.table) (hc : closing t = closing s)
    (hi : t.listener = .increment ↔ s.listener = .increment) : drift t = drift s := by
  simp only [drift, entering, ht, hc, hi]

theorem drift_keep {s : State} {k : ℕ} (hk : k < s.accepted) {c : Client}
    (hc : decrementing c = decrementing (s.clients k)) : drift (s.setClient k c) = drift s := by
  have h := drift_setClient hk c
  rw [hc] at h
  omega

theorem drift_handle {s : State} {k : ℕ} (hk : k < s.accepted) {c : Client} {pc : ListenPc}
    (hc : decrementing c = decrementing (s.clients k))
    (hi : pc = .increment ↔ s.listener = .increment) :
    drift ((s.setClient k c).listen pc) = drift s :=
  (drift_congr (s := s.setClient k c) (t := (s.setClient k c).listen pc) rfl rfl hi).trans
    (drift_keep hk hc)

theorem advance_decrementing {σ : Setup} {c c' : Client} (h : c.advance σ = some c')
    (hs : c.pc ≠ .disconnect .search) (hd : c.pc ≠ .disconnect .decrement) :
    decrementing c = false ∧ decrementing c' = false := by
  refine ⟨by simpa [decrementing] using hd, ?_⟩
  unfold Client.advance at h
  cases hpc : c.pc with
  | disconnect d =>
    simp only [hpc] at h
    cases d <;> simp_all [Client.disconnect, decrementing] <;> grind
  | absent | ended | cancelled => simp [hpc] at h
  | loop | testcancel | callRecv | recv | close | clearFd | exitFunc | received | recvFunc =>
    simp only [hpc] at h
    simp_all [decrementing]
    grind

theorem drift_move {σ : Setup} {s t : State} {l : Label} (h : Tracked s) (hm : Move σ s l t) :
    drift t = drift s + if DecrementsOne s l then 0 else 1 := by
  cases hm with
  | @control l pc hl hh hc =>
    have hone : DecrementsOne s l := by cases l <;> simp_all [DecrementsOne, OnThreads]
    rw [if_pos hone, add_zero]
    exact drift_congr (t := s.listen pc) rfl rfl (iff_of_false hc.increment.2 hc.increment.1)
  | listenFails hl | finish hl =>
    simp [DecrementsOne, OnThreads, drift, closing, entering, hl]
  | @accept fd hl hfd =>
    have hc := closing_accept (s := s) (c := { Client.absent with sock := fd }) rfl
    rw [if_pos (by trivial), add_zero]
    exact drift_congr rfl hc (by simp [hl])
  | @malloc a k i hl ha =>
    rw [if_pos (by trivial), add_zero]
    exact drift_handle (h.hand k (by simp [hl])) rfl (by simp [hl])
  | @created k i hl =>
    have hpc : (s.clients k).pc = .absent := h.waiting k (by simp [hl]) (by simp [hl])
    rw [if_pos (by trivial), add_zero]
    exact drift_handle (h.hand k (by simp [hl])) (by simp [decrementing, hpc]) (by simp [hl])
  | @notCreated k i hl =>
    rw [if_pos (by trivial), add_zero]
    exact drift_handle (h.hand k (by simp [hl])) rfl (by simp [hl])
  | @acptFunc k i hl =>
    rw [if_pos (by trivial), add_zero]
    exact drift_handle (h.hand k (by simp [hl])) (by simp [decrementing, log_client])
      (by simp [hl])
  | @writeSlot k i hl =>
    obtain ⟨-, hnone⟩ := h.chosen i (by simp [hl])
    have ho := Table.occupied_setSlot_some hnone (⟨(s.clients k).record.getD 0, k⟩ : Ptr)
    rw [if_pos (by trivial), add_zero]
    simp only [drift, State.setTable, State.listen, Table.setSlot_userNum, ho, hl, closing]
    simp [entering]
  | increment hl =>
    rw [if_pos (by trivial), add_zero]
    simp only [drift, State.setTable, State.listen, Table.increment_userNum,
      Table.increment_occupied, hl, closing]
    simp [entering]
  | @refuse k hl hp =>
    rw [if_pos (by trivial), add_zero]
    exact drift_handle (h.hand k (by simp [hl])) rfl (by simp [hl])
  | @search k hpc =>
    have hk : k < s.accepted := h.lt (by simp [hpc])
    have hone : DecrementsOne s (.thread k) := by simp [DecrementsOne, OnThreads, hpc]
    rw [if_pos hone, add_zero]
    rcases search_pc s (s.clients k) with ⟨hpc', ht⟩ | ⟨hpc', i, p, hp, -, ht⟩
    · rw [ht, hpc']
      exact drift_keep hk (by simp [decrementing, hpc])
    · rw [ht, hpc']
      have hc := drift_setClient (s := s.setTable (s.table.setSlot i none)) hk
        ((s.clients k).at (.disconnect .decrement))
      have ht := drift_setTable s (s.table.setSlot i none)
      have ho := Table.occupied_setSlot_none hp
      simp [decrementing, hpc] at hc ht ⊢
      omega
  | @decrement k hpc =>
    have hk : k < s.accepted := h.lt (by simp [hpc])
    have hc := drift_setClient (s := s.setTable s.table.decrement) hk
      ((s.clients k).at (.disconnect .testFd))
    have ht := drift_setTable s s.table.decrement
    have hn : s.table.decrement.userNum = s.table.userNum - if s.table.userNum > 0 then 1 else 0 :=
      by unfold Table.decrement; split_ifs <;> simp
    simp [decrementing, hpc, hn, DecrementsOne, OnThreads] at hc ht ⊢
    split_ifs at ht ⊢ <;> omega
  | @advance k c hs hd hc =>
    obtain ⟨-, -, hpc, -⟩ := advance_record hc
    obtain ⟨hold, hnew⟩ := advance_decrementing hc hs hd
    have hone : DecrementsOne s (.thread k) := by simp [DecrementsOne, OnThreads, hd]
    rw [if_pos hone, add_zero]
    exact drift_keep (h.lt hpc) (hnew.trans hold.symm)
  | @recv k len hpc hp =>
    have hone : DecrementsOne s (.recvReturns k len) := trivial
    rw [if_pos hone, add_zero]
    refine drift_keep (h.lt (k := k) (by simp [hpc])) ?_
    simp only [decrementing, Client.at, hpc]
    split_ifs <;> rfl

theorem drift_at_rest {s : State} (h : AtRest s) :
    drift s = s.table.userNum - s.table.occupied := by
  have hc : closing s = 0 := tally_eq_zero_iff.mpr fun k _ => by
    simpa [decrementing] using h.threads k .decrement
  have he : entering s.listener = 0 := by
    have hl := h.listener
    unfold entering
    split_ifs with hi
    · simp [hi, accepting] at hl
    · rfl
  simp [drift, hc, he]

theorem refused_full {t : Table Ptr} (h0 : 0 ≤ t.maxUserNum) (hm : t.maxUserNum ≤ tcpUserNum)
    (hb : ∀ i p, t.pUser i = some p → (i : ℤ) < t.maxUserNum) (hn : t.userNum = t.occupied)
    {mem : Option Ptr} {thread : Bool} {e : Refusal} (he : (t.acceptClient mem thread).2 = .error e)
    (hroom : e = .exceeded ∨ e = .exhausted) : (t.occupied : ℤ) = t.maxUserNum := by
  obtain ⟨hle, hfull⟩ := Table.occupied_le h0 hm fun i hi => by
    cases hp : t.pUser i with
    | none => rfl
    | some p => exact absurd (hb i p hp) (not_lt.mpr hi)
  rcases t.acceptClient_cases mem thread with ⟨e', he', hex, hno⟩ | ⟨p, i, -, -, -, he'⟩
  · obtain rfl : e' = e := by simpa [he'] using he
    rcases hroom with rfl | rfl
    · have := hex.mp rfl
      omega
    · exact hfull.mpr fun i hi => Table.freeSlot_none (hno rfl).2 i hi
  · simp [he'] at he

/-- When no accept and no disconnect is in progress, the count is right, and a connection is
refused for lack of room only by a full table, exactly if no decrement has found the count at 0. -/
theorem count_at_rest (σ : Setup) (h0 : 0 ≤ σ.maxUserNum) {ls : List Label} {s : State}
    (hl : ∀ l ∈ ls, Serving l) (h : exec (step σ) (serverInit σ) ls = some s) (hr : AtRest s) :
    (s.table.userNum = s.table.occupied ∧
      ∀ mem thread e, (s.table.acceptClient mem thread).2 = .error e →
        e = .exceeded ∨ e = .exhausted → (s.table.occupied : ℤ) = s.table.maxUserNum) ↔
    Obeys (step σ) DecrementsOne (serverInit σ) ls := by
  have hserve : Obeys (step σ) (fun _ => Serving) (serverInit σ) ls := obeys_of_forall hl _
  have hmax : s.table.maxUserNum = (Table.init σ.maxUserNum : Table Ptr).maxUserNum :=
    invariant (I := fun s => s.table.maxUserNum = (Table.init σ.maxUserNum : Table Ptr).maxUserNum)
      (fun _ _ _ hs hl ht => (move_maxUserNum (step_move ht hl)).trans hs) rfl hserve h
  have hv : drift s = drift (serverInit σ) +
      violations (step σ) DecrementsOne (serverInit σ) ls :=
    exec_violations (fun _ _ _ hs _ ht => hs.step ht)
      (fun _ _ _ hs hl ht => drift_move hs (step_move ht hl)) (tracked_init σ) hserve h
  rw [drift_at_rest hr, drift_init] at hv
  have hiff : s.table.userNum = s.table.occupied ↔
      Obeys (step σ) DecrementsOne (serverInit σ) ls := by
    rw [← violations_eq_zero_iff h]
    omega
  obtain ⟨hpos, hle⟩ := Table.init_maxUserNum (α := Ptr) h0
  constructor
  · intro hx
    obtain ⟨hn, -⟩ := hx
    exact hiff.mp hn
  · intro ho
    have hn := hiff.mpr ho
    refine ⟨hn, fun mem thread e he hroom => ?_⟩
    exact refused_full (hmax ▸ hpos.le) (hmax ▸ hle) (tracked_exec h).below hn he hroom

theorem atRest_of_tracked {s : State} (h : Tracked s) (hl : accepting s.listener = false)
    (ht : ∀ k < s.accepted, (s.clients k).pc = .ended ∨ (s.clients k).pc = .recv) : AtRest s where
  listener := hl
  threads k d := by
    by_cases hk : k < s.accepted
    · rcases ht k hk with hpc | hpc <;> simp [hpc]
    · simp [h.absent k (not_lt.mp hk)]

def lostDecrement : List Label :=
  [.listenReturns true, .listener, .listener, .acceptReturns 4, .listener, .listener, .listener,
    .mallocReturns (some 100), .createReturns true, .listener, .listener,
    .thread 0, .thread 0, .thread 0, .recvReturns 0 (-1), .thread 0, .thread 0, .thread 0, .thread 0,
    .thread 0, .thread 0, .thread 0, .listener, .listener, .listener]

theorem count_at_rest_fails : ¬ ∃ kind : Kind, ∀ (ls : List Label) (s : State),
    (∀ l ∈ ls, Serving l) →
    exec (step ⟨kind, 1, true, true, true, 3⟩) (serverInit ⟨kind, 1, true, true, true, 3⟩) ls =
      some s →
    AtRest s → s.table.userNum = s.table.occupied := by
  intro hx
  obtain ⟨kind, hclaim⟩ := hx
  have hrun : (exec (step ⟨kind, 1, true, true, true, 3⟩)
      (serverInit ⟨kind, 1, true, true, true, 3⟩) lostDecrement).map
        (fun s => (s.listener, s.accepted, (s.clients 0).pc, s.table.userNum, s.table.occupied)) =
      some (.accept, 1, .ended, 1, 0) := by
    cases kind <;> decide +kernel
  obtain ⟨s, hs, he⟩ := Option.map_eq_some_iff.mp hrun
  obtain ⟨hl, ha, hpc, hn, ho⟩ : s.listener = .accept ∧ s.accepted = 1 ∧
      (s.clients 0).pc = .ended ∧ s.table.userNum = 1 ∧ s.table.occupied = 0 := by
    simpa only [Prod.mk.injEq] using he
  have hr : AtRest s := atRest_of_tracked (tracked_exec hs) (by rw [hl]; rfl) fun k hk => by
    obtain rfl : k = 0 := by omega
    exact .inl hpc
  have hzero := hclaim lostDecrement s (by decide) hs hr
  rw [hn, ho] at hzero
  exact absurd hzero (by decide)

def countedExit : List Label :=
  [.listenReturns true, .listener, .listener, .acceptReturns 4, .listener, .listener, .listener,
    .mallocReturns (some 100), .createReturns true, .listener, .listener, .listener, .listener,
    .listener, .thread 0, .thread 0, .thread 0, .recvReturns 0 (-1), .thread 0, .thread 0, .thread 0,
    .thread 0, .thread 0, .thread 0, .thread 0]

theorem count_at_rest_countedExit : ∃ s : State, s.accepted = 1 ∧ s.table.userNum = 0 ∧
    ((s.table.userNum = s.table.occupied ∧
      ∀ mem thread e, (s.table.acceptClient mem thread).2 = .error e →
        e = .exceeded ∨ e = .exhausted → (s.table.occupied : ℤ) = s.table.maxUserNum) ↔
    Obeys (step ⟨.tcpIpv4, 1, true, true, true, 3⟩) DecrementsOne
      (serverInit ⟨.tcpIpv4, 1, true, true, true, 3⟩) countedExit) := by
  have hrun : (exec (step ⟨.tcpIpv4, 1, true, true, true, 3⟩)
      (serverInit ⟨.tcpIpv4, 1, true, true, true, 3⟩) countedExit).map
        (fun s => (s.listener, s.accepted, (s.clients 0).pc, s.table.userNum)) =
      some (.accept, 1, .ended, 0) := by
    decide +kernel
  obtain ⟨s, hs, he⟩ := Option.map_eq_some_iff.mp hrun
  obtain ⟨hl, ha, hpc, hn⟩ : s.listener = .accept ∧ s.accepted = 1 ∧
      (s.clients 0).pc = .ended ∧ s.table.userNum = 0 := by
    simpa only [Prod.mk.injEq] using he
  have hr : AtRest s := atRest_of_tracked (tracked_exec hs) (by rw [hl]; rfl) fun k hk => by
    obtain rfl : k = 0 := by omega
    exact .inl hpc
  exact ⟨s, ha, hn, count_at_rest ⟨.tcpIpv4, 1, true, true, true, 3⟩ (by decide) (by decide) hs hr⟩

end LibComm.ClientCount

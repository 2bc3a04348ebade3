import LibComm.StreamServer

/-!
# Slots and the records they point to

While the listening thread has started a receive thread but not yet written
the slot, the user is in no slot: a `DisconnectClient` that searches the table
then finds nothing, frees the user, and the slot written afterwards points to
the freed record for good. Every other order of the steps keeps each slot on a
record in use.
-/

namespace LibComm.SlotLiveness
open ClientTable Interleaving StreamServer

def listed : RecvPc → Bool
  | .loop | .testcancel | .callRecv | .recv | .close | .clearFd | .exitFunc => true
  | .received _ | .recvFunc _ => true
  | .disconnect .search | .cancelled => true
  | .absent | .disconnect _ | .ended => false

/-- No user searches the table for its slot before the listening thread has written it. -/
def SearchAfterEntry : State → Label → Prop := OnThreads fun s k =>
  ¬ ((s.clients k).pc = .disconnect .search ∧ s.listener.admits = some k)

instance (s : State) (l : Label) : Decidable (SearchAfterEntry s l) :=
  inferInstanceAs (Decidable (OnThreads _ s l))

structure Entered (s : State) : Prop extends Tracked s where
  running : ∀ k, (s.clients k).pc ≠ .absent → (s.clients k).pc ≠ .ended →
    (s.clients k).live = true
  unique : ∀ j k, (s.clients j).live = true → (s.clients k).live = true →
    (s.clients j).record = (s.clients k).record → j = k
  entry : ∀ i p, s.table.pUser i = some p →
    listed (s.clients p.id).pc = true ∧ (s.clients p.id).record = some p.addr
  slots : ∀ i j p q, s.table.pUser i = some p → s.table.pUser j = some q → p.id = q.id → i = j
  fresh : ∀ k i p, s.listener.hand = some k → s.table.pUser i = some p → p.id ≠ k
  unfreed : ∀ k, s.listener.hand = some k → s.listener ≠ .refuse k → (s.clients k).frees = 0
  made : ∀ k i, s.listener = .create k i → (s.clients k).live = true
  admitted : ∀ k, s.listener.admits = some k → listed (s.clients k).pc = true

theorem listed_pc {pc : RecvPc} (h : listed pc = true) : pc ≠ .absent ∧ pc ≠ .ended := by
  constructor <;> intro hpc <;> simp [hpc, listed] at h

theorem advance_listed {σ : Setup} {c c' : Client} (h : c.advance σ = some c')
    (hs : c.pc ≠ .disconnect .search) (hl : listed c.pc = true) : listed c'.pc = true := by
  unfold Client.advance at h
  cases hpc : c.pc with
  | disconnect d => cases d <;> simp_all [listed]
  | absent | ended | cancelled => simp [hpc] at h
  | loop | testcancel | callRecv | recv | close | clearFd | exitFunc | received | recvFunc =>
    simp only [hpc] at h
    simp_all [Client.closeFd, Client.log]
    grind [listed]

theorem advance_frees {σ : Setup} {c c' : Client} (h : c.advance σ = some c') :
    c.pc ≠ .ended ∧ c.frees ≤ c'.frees ∧ (c'.pc ≠ .ended → c'.frees = c.frees) := by
  unfold Client.advance at h
  cases hpc : c.pc with
  | disconnect d =>
    simp only [hpc] at h
    cases d <;> simp_all [Client.disconnect, Client.closeFd] <;> grind
  | absent | ended | cancelled => simp [hpc] at h
  | loop | testcancel | callRecv | recv | close | clearFd | exitFunc | received | recvFunc =>
    simp only [hpc] at h
    simp_all [Client.closeFd, Client.log]
    grind

theorem entered_init (σ : Setup) : Entered (serverInit σ) where
  toTracked := tracked_init σ
  running := by simp [serverInit, Client.absent]
  unique := by simp [serverInit, Client.absent, Client.live]
  entry := by simp [serverInit]
  slots := by simp [serverInit]
  fresh := by simp [serverInit]
  unfreed := by simp [serverInit]
  made := by simp [serverInit]
  admitted := by simp [serverInit]

theorem live_of_le {c c' : Client} (hr : c'.record = c.record) (hf : c.frees ≤ c'.frees)
    (h : c'.live = true) : c.live = true := by
  simp only [Client.live, hr, Bool.and_eq_true, beq_iff_eq] at h ⊢
  exact ⟨h.1, by omega⟩

/-- A step of a receive thread on its own client: it may leave the listed statements only when
the client is in no slot and is not about to be entered in one. -/
theorem Entered.thread {s : State} (h : Entered s) {k : ℕ} {c : Client}
    (hpc : (s.clients k).pc ≠ .absent) (hc : c.pc ≠ .absent)
    (hr : c.record = (s.clients k).record) (he : (s.clients k).pc ≠ .ended)
    (hle : (s.clients k).frees ≤ c.frees)
    (hf : c.pc ≠ .ended → c.frees = (s.clients k).frees)
    (hl : listed c.pc = true ∨
      s.listener.admits ≠ some k ∧ ∀ i p, s.table.pUser i = some p → p.id ≠ k) :
    Entered (s.setClient k c) := by
  have hadm : ∀ j, s.listener.hand = some j → j = k → s.listener.admits = some k := by
    intro j hj heq
    obtain rfl := heq
    cases ha : s.listener.admits with
    | none => exact absurd (h.waiting j hj ha) hpc
    | some j' =>
      have : j = j' := by cases hls : s.listener <;> simp_all
      rw [this]
  have hrec : ∀ j, ((s.setClient k c).clients j).record = (s.clients j).record := by
    intro j
    by_cases hj : j = k <;> simp [hj, hr]
  have hlive : ∀ j, ((s.setClient k c).clients j).live = true → (s.clients j).live = true := by
    intro j hj
    by_cases hjk : j = k
    · subst hjk
      exact live_of_le hr hle (by simpa using hj)
    · simpa [hjk] using hj
  refine { h.toTracked.setClient (h.lt hpc) (iff_of_false hc hpc) with
    running := fun j hj hj' => ?_, unique := fun j j' hj hj' hjj => ?_, entry := fun i p hp => ?_,
    slots := h.slots, fresh := h.fresh,
    unfreed := fun j hj hne => ?_, made := fun j i hj => ?_, admitted := fun j hj => ?_ }
  · by_cases hjk : j = k
    · subst hjk
      have hold := h.running j hpc he
      simp only [State.setClient, Function.update_self] at hj' ⊢
      simpa [Client.live, hr, hf hj'] using hold
    · simpa [hjk] using h.running j (by simpa [hjk] using hj) (by simpa [hjk] using hj')
  · exact h.unique j j' (hlive j hj) (hlive j' hj') (by rw [← hrec j, ← hrec j', hjj])
  · by_cases hpk : p.id = k
    · obtain ⟨hlist, hrp⟩ := h.entry i p hp
      rcases hl with hl | ⟨-, hno⟩
      · simpa [hpk, hl, hr] using hrp
      · exact absurd hpk (hno i p hp)
    · simpa [hpk] using h.entry i p hp
  · by_cases hjk : j = k
    · have ha := hadm j hj hjk
      rcases hl with hl | ⟨hno, -⟩
      · subst hjk
        simpa [hf (listed_pc hl).2] using h.unfreed j hj hne
      · exact absurd ha hno
    · simpa [hjk] using h.unfreed j hj hne
  · by_cases hjk : j = k
    · have ha := hadm j (by simpa using congrArg ListenPc.hand hj) hjk
      simp only [State.setClient] at hj
      simp [hj] at ha
    · simpa [hjk] using h.made j i hj
  · by_cases hjk : j = k
    · rcases hl with hl | ⟨hno, -⟩
      · simpa [hjk] using hl
      · exact absurd (hjk ▸ hj) hno
    · simpa [hjk] using h.admitted j hj

theorem Entered.outside {s : State} (h : Entered s) {k : ℕ}
    (hk : listed (s.clients k).pc = false) :
    s.listener.admits ≠ some k ∧ ∀ i p, s.table.pUser i = some p → p.id ≠ k := by
  refine ⟨fun ha => ?_, ?_⟩
  · simp [h.admitted k ha] at hk
  · intro i p hp heq
    obtain rfl := heq
    simp [(h.entry i p hp).1] at hk

theorem Entered.setTable {s : State} (h : Entered s) {t : Table Ptr} (ht : Shrinks s.table t) :
    Entered (s.setTable t) :=
  { h.toTracked.setTable ht with
    running := h.running, unique := h.unique
    entry := fun i p hp => h.entry i p (ht.2 i p hp)
    slots := fun i j p q hp hq => h.slots i j p q (ht.2 i p hp) (ht.2 j q hq)
    fresh := fun k i p hk hp => h.fresh k i p hk (ht.2 i p hp)
    unfreed := h.unfreed, made := h.made, admitted := h.admitted }

theorem Entered.control {s : State} (h : Entered s) {pc : ListenPc} (hc : Control s pc)
    (ht : Tracked (s.listen pc)) : Entered (s.listen pc) :=
  { ht with
    running := h.running, unique := h.unique, entry := h.entry, slots := h.slots
    fresh := fun k i p hk hp => h.fresh k i p (hc.hand k hk) hp
    unfreed := fun k hk _ => h.unfreed k (hc.hand k hk) fun hr => by
      have := hc.keep k hr
      simp_all
    made := fun k i hk => absurd hk (hc.create k i).2
    admitted := fun k hk => by
      have := hc.admits
      simp_all }

theorem Entered.handle {s : State} (h : Entered s) {k : ℕ} {c : Client} {pc : ListenPc}
    (hk : s.listener.hand = some k) (ht : Tracked ((s.setClient k c).listen pc))
    (hr : c.pc ≠ .absent → c.live = true)
    (hu : c.live = true → ∀ j ≠ k, (s.clients j).live = true → (s.clients j).record ≠ c.record)
    (hh : ∀ j, pc.hand = some j → j = k)
    (hf : ∀ j, pc.hand = some j → pc ≠ .refuse j → c.frees = 0)
    (hm : ∀ j i, pc = .create j i → c.live = true)
    (hl : ∀ j, pc.admits = some j → j = k ∧ listed c.pc = true) :
    Entered ((s.setClient k c).listen pc) := by
  have hne : ∀ i p, s.table.pUser i = some p → p.id ≠ k := fun i p hp => h.fresh k i p hk hp
  refine { ht with
    running := fun j hj hj' => ?_, unique := fun j j' hj hj' hjj => ?_, entry := fun i p hp => ?_,
    slots := h.slots, fresh := fun j i p hj hp => ?_,
    unfreed := fun j hj hne => ?_, made := fun j i hj => ?_, admitted := fun j hj => ?_ }
  · by_cases hjk : j = k
    · simpa [hjk] using hr (by simpa [hjk] using hj)
    · simpa [hjk] using h.running j (by simpa [hjk] using hj) (by simpa [hjk] using hj')
  · by_cases hjk : j = k <;> by_cases hjk' : j' = k
    · rw [hjk, hjk']
    · simp only [State.setClient, State.listen, hjk, Function.update_self, ne_eq, hjk',
        not_false_eq_true, Function.update_of_ne] at hj hj' hjj
      exact absurd hjj.symm (hu hj j' hjk' hj')
    · simp only [State.setClient, State.listen, hjk', Function.update_self, ne_eq, hjk,
        not_false_eq_true, Function.update_of_ne] at hj hj' hjj
      exact absurd hjj (hu hj' j hjk hj)
    · exact h.unique j j' (by simpa [hjk] using hj) (by simpa [hjk'] using hj')
        (by simpa [hjk, hjk'] using hjj)
  · simpa [hne i p hp] using h.entry i p hp
  · exact (hh j hj).symm ▸ hne i p hp
  · obtain rfl := hh j hj
    simpa using hf j hj hne
  · obtain rfl : j = k := hh j (by simpa using congrArg ListenPc.hand hj)
    simpa using hm j i hj
  · obtain ⟨rfl, hc⟩ := hl j hj
    simpa using hc

theorem Entered.search {s : State} (h : Entered s) {k : ℕ}
    (hpc : (s.clients k).pc = .disconnect .search) {i : Fin tcpUserNum} {p : Ptr}
    (hp : (s.search (s.clients k)).1.pUser i = some p) : p.id ≠ k := by
  intro heq
  obtain rfl := heq
  have hlive := h.running p.id (by simp [hpc]) (by simp [hpc])
  have hold : s.table.pUser i = some p := search_pUser hp
  obtain ⟨-, hr⟩ := h.entry i p hold
  unfold State.search at hp
  split at hp
  · rename_i hnone
    have hq := Table.slotOf_none hnone (h.below i p hold) hold
    simp [hr] at hq
  · rename_i j hj
    -- the slot found holds the same address, so it is the user's own
    obtain ⟨-, q, hq, hqa⟩ := Table.slotOf_some hj
    obtain ⟨hql, hqr⟩ := h.entry j q hq
    have hqlive := h.running q.id (listed_pc hql).1 (listed_pc hql).2
    have hid : q.id = p.id := h.unique _ _ hqlive hlive (by
      rw [hqr]
      exact eq_of_beq hqa)
    obtain rfl : j = i := h.slots j i q p hq hold hid
    simp at hp

theorem Entered.move {σ : Setup} {s t : State} {l : Label} (h : Entered s)
    (hm : Move σ s l t) (hg : SearchAfterEntry s l) : Entered t := by
  have ht : Tracked t := h.toTracked.move hm
  cases hm with
  | control hl hh hc => exact h.control hc ht
  | listenFails hl | finish hl =>
    exact { ht with
      running := h.running, unique := h.unique, entry := h.entry, slots := h.slots
      fresh := by simp, unfreed := by simp, made := by simp
      admitted := by simp }
  | @accept fd hl hfd =>
    have hne : ∀ i p, s.table.pUser i = some p → p.id ≠ s.accepted := fun i p hp =>
      (h.lt (h.slot i p hp)).ne
    refine { ht with
      running := fun j hj hj' => ?_, unique := fun j j' hj hj' hjj => ?_, entry := fun i p hp => ?_,
      slots := h.slots, fresh := fun j i p hj hp => ?_,
      unfreed := fun j hj _ => ?_, made := by simp, admitted := by simp }
    · by_cases hja : j = s.accepted
      · simp [hja, Client.absent] at hj
      · simpa [hja] using h.running j (by simpa [hja] using hj) (by simpa [hja] using hj')
    · have hlt : ∀ {j}, (Function.update s.clients s.accepted
          { Client.absent with sock := fd } j).live = true → j ≠ s.accepted := by
        intro j hj heq
        obtain rfl := heq
        simp [Client.live, Client.absent] at hj
      exact h.unique j j' (by simpa [hlt hj] using hj) (by simpa [hlt hj'] using hj')
        (by simpa [hlt hj, hlt hj'] using hjj)
    · simpa [hne i p hp] using h.entry i p hp
    · obtain rfl : s.accepted = j := by simpa using hj
      exact hne i p hp
    · obtain rfl : s.accepted = j := by simpa using hj
      simp [Client.absent]
  | @malloc a k i hl ha =>
    have hpc : (s.clients k).pc = .absent := h.waiting k (by simp [hl]) (by simp [hl])
    have hfr : (s.clients k).frees = 0 := h.unfreed k (by simp [hl]) (by simp [hl])
    refine h.handle (by simp [hl]) ht (by simp [hpc]) (fun _ j hj hlive => ?_) (by simp)
      (by simp [hfr]) (by simp [Client.live, hfr]) (by simp)
    by_cases hja : j < s.accepted
    · exact ha j hja hlive
    · simp [h.absent j (not_lt.mp hja), Client.absent]
  | @created k i hl =>
    have hlive := h.made k i hl
    refine h.handle (by simp [hl]) ht (fun _ => hlive)
      (fun _ j hj hjl he => hj (h.unique j k hjl hlive he)) (by simp) (fun j hj hne => ?_) (by simp)
      (by simp [listed])
    exact h.unfreed k (by simp [hl]) (by simp [hl])
  | @notCreated k i hl =>
    have hpc : (s.clients k).pc = .absent := h.waiting k (by simp [hl]) (by simp [hl])
    refine h.handle (by simp [hl]) ht (by simp [hpc]) (fun hlive => ?_) (by simp)
      (by simp) (by simp) (by simp)
    simp [Client.live] at hlive
  | @acptFunc k i hl =>
    have hlist := h.admitted k (by simp [hl])
    have hlive := h.running k (listed_pc hlist).1 (listed_pc hlist).2
    have hlog := log_client (s.clients k) σ.acptFunc .accept
    refine h.handle (by simp [hl]) ht (fun _ => by simpa [Client.live, hlog] using hlive)
      (fun _ j hj hjl he => hj (h.unique j k hjl hlive (by simpa [hlog] using he))) (by simp)
      (fun j _ _ => ?_) (by simp) (by simpa [hlog] using hlist)
    simpa [hlog] using h.unfreed k (by simp [hl]) (by simp [hl])
  | @writeSlot k i hl =>
    have hlist := h.admitted k (by simp [hl])
    have hlive := h.running k (listed_pc hlist).1 (listed_pc hlist).2
    have hfresh := fun j q => h.fresh k j q (by simp [hl])
    obtain ⟨a, ha⟩ : ∃ a, (s.clients k).record = some a := Option.isSome_iff_exists.mp (by
      simp only [Client.live, Bool.and_eq_true] at hlive
      exact hlive.1)
    refine { ht with
      running := h.running, unique := h.unique, entry := fun j p hp => ?_,
      slots := fun j j' p q hp hq hpq => ?_, fresh := by simp,
      unfreed := by simp, made := by simp, admitted := by simp }
    · by_cases hj : j = i
      · obtain rfl : _ = p := by simpa [hj] using hp
        simpa [ha] using hlist
      · exact h.entry j p (by simpa [hj] using hp)
    · by_cases hj : j = i <;> by_cases hj' : j' = i
      · rw [hj, hj']
      · obtain rfl : _ = p := by simpa [hj] using hp
        exact absurd hpq.symm (hfresh j' q (by simpa [hj'] using hq))
      · obtain rfl : _ = q := by simpa [hj'] using hq
        exact absurd hpq (hfresh j p (by simpa [hj] using hp))
      · exact h.slots j j' p q (by simpa [hj] using hp) (by simpa [hj'] using hq) hpq
  | increment hl =>
    exact { ht with
      running := h.running, unique := h.unique, entry := h.entry, slots := h.slots
      fresh := by simp, unfreed := by simp, made := by simp
      admitted := by simp }
  | @refuse k hl hp =>
    have hpc : (s.clients k).pc = .absent := h.waiting k (by simp [hl]) (by simp [hl])
    refine h.handle (by simp [hl]) ht (by simp [hpc]) (fun hlive j hj hjl he => hj ?_) (by simp)
      (by simp) (by simp) (by simp)
    exact h.unique j k hjl hlive he
  | @search k hpc =>
    refine (h.setTable (search_shrinks s _)).thread (k := k) (by simp [hpc]) (by simp) rfl
      (by simp [hpc]) le_rfl (fun _ => rfl) (.inr ⟨?_, fun i p hp => h.search hpc hp⟩)
    simpa [SearchAfterEntry, OnThreads, hpc] using hg
  | @decrement k hpc =>
    have hout : listed (s.clients k).pc = false := by simp [hpc, listed]
    refine (h.setTable (t := s.table.decrement) (shrinks_of_pUser rfl rfl)).thread (k := k)
      (by simp [hpc]) (by simp) rfl (by simp [hpc]) le_rfl (fun _ => rfl) (.inr ?_)
    exact h.outside hout
  | @advance k c hs hd hc =>
    obtain ⟨hr, -, hpc, hpc'⟩ := advance_record hc
    obtain ⟨he, hle, hf⟩ := advance_frees hc
    refine h.thread hpc hpc' hr he hle hf ?_
    cases hlist : listed (s.clients k).pc with
    | true => exact .inl (advance_listed hc hs hlist)
    | false => exact .inr (h.outside hlist)
  | @recv k len hpc hp =>
    refine h.thread (k := k) (by simp [hpc]) ?_ rfl (by simp [hpc]) le_rfl (fun _ => rfl) (.inl ?_)
    · simp only [Client.at]
      split_ifs <;> simp
    · simp only [Client.at]
      split_ifs <;> simp [listed]

/-- In every order of the steps in which no user searches the table before it has been entered,
each slot that is not NULL holds a record in use. -/
theorem slots_live (σ : Setup) {ls : List Label} {s : State} (hl : ∀ l ∈ ls, Serving l)
    (ho : Obeys (step σ) SearchAfterEntry (serverInit σ) ls)
    (h : exec (step σ) (serverInit σ) ls = some s) :
    ∀ i p, s.table.pUser i = some p →
      (s.clients p.id).record = some p.addr ∧ (s.clients p.id).frees = 0 := by
  have hi : Entered s := invariant (I := Entered)
    (G := fun s l => Serving l ∧ SearchAfterEntry s l)
    (fun s l t hs hg ht => hs.move (step_move ht hg.1) hg.2) (entered_init σ)
    ((obeys_of_forall hl _).and ho) h
  intro i p hp
  obtain ⟨hlist, hr⟩ := hi.entry i p hp
  have hlive := hi.running p.id (listed_pc hlist).1 (listed_pc hlist).2
  simp only [Client.live, Bool.and_eq_true, beq_iff_eq] at hlive
  exact ⟨hr, hlive.2⟩

def earlyExit : List Label :=
  [.listenReturns true, .listener, .listener, .acceptReturns 4, .listener, .listener, .listener,
    .mallocReturns (some 100), .createReturns true,
    .thread 0, .thread 0, .thread 0, .recvReturns 0 (-1), .thread 0, .thread 0, .thread 0, .thread 0,
    .thread 0, .thread 0,
    .listener, .listener]

theorem slots_live_fails : ¬ ∃ kind : Kind, ∀ (ls : List Label) (s : State),
    (∀ l ∈ ls, Serving l) →
    exec (step ⟨kind, 1, true, true, true, 3⟩) (serverInit ⟨kind, 1, true, true, true, 3⟩) ls =
      some s →
    ∀ i p, s.table.pUser i = some p → (s.clients p.id).frees = 0 := by
  intro hx
  obtain ⟨kind, hclaim⟩ := hx
  have hrun : (exec (step ⟨kind, 1, true, true, true, 3⟩)
      (serverInit ⟨kind, 1, true, true, true, 3⟩) earlyExit).map
        (fun s => (s.table.pUser 0, (s.clients 0).frees)) = some (some ⟨100, 0⟩, 1) := by
    cases kind <;> decide +kernel
  obtain ⟨s, hs, he⟩ := Option.map_eq_some_iff.mp hrun
  obtain ⟨hp, hf⟩ := Prod.mk.inj he
  have hzero := hclaim earlyExit s (by decide) hs 0 _ hp
  exact absurd (hf.symm.trans hzero) (by decide)

def serve : List Label :=
  [.listenReturns true, .listener, .listener, .acceptReturns 4, .listener, .listener, .listener,
    .mallocReturns (some 100), .createReturns true, .listener, .listener, .listener,
    .listener, .listener, .acceptReturns 5, .listener, .listener, .listener,
    .mallocReturns (some 200), .createReturns true, .thread 0, .thread 0, .thread 0, .recvReturns 0 (-1),
    .thread 0, .thread 0, .listener, .listener, .listener, .thread 0, .thread 0, .thread 0]

theorem slots_live_serve : ∃ s : State, s.table.pUser 0 = none ∧ s.table.pUser 1 = some ⟨200, 1⟩ ∧
    ∀ i p, s.table.pUser i = some p →
      (s.clients p.id).record = some p.addr ∧ (s.clients p.id).frees = 0 := by
  have hrun : (exec (step ⟨.tcpIpv4, 2, true, true, true, 3⟩)
      (serverInit ⟨.tcpIpv4, 2, true, true, true, 3⟩) serve).map
        (fun s => (s.table.pUser 0, s.table.pUser 1)) = some (none, some ⟨200, 1⟩) := by
    decide +kernel
  obtain ⟨s, hs, he⟩ := Option.map_eq_some_iff.mp hrun
  obtain ⟨h0, h1⟩ := Prod.mk.inj he
  exact ⟨s, h0, h1,
    slots_live ⟨.tcpIpv4, 2, true, true, true, 3⟩ (by decide) (by decide +kernel) hs⟩

end LibComm.SlotLiveness

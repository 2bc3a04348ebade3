import LibComm.StreamServer

/-!
# Teardown of a server

`ServerUninit` runs `DisconnectClient` on the users it finds in the slots while
their detached receive threads, and the listening thread, are still running.
It cancels a receive thread but never waits for it, and the receive thread may
itself be leaving through the same `DisconnectClient`.

`Orderly` collects the orders of steps in which the two sides stay out of each
other's way. In these every user is released exactly once and nothing runs on
after the context is freed.
-/

namespace LibComm.Teardown
open ClientTable Interleaving StreamServer

def parked : RecvPc → Bool
  | .testcancel | .recv | .received _ => true
  | .absent | .loop | .callRecv | .close | .clearFd | .exitFunc | .recvFunc _ => false
  | .disconnect _ | .ended | .cancelled => false

def quiet (c : Client) : Bool :=
  c.pc == .absent || c.pc == .ended || c.pc == .cancelled || parked c.pc && c.pending

def unserved : ListenPc → Bool
  | .accepted _ | .refuse _ => true
  | .listen | .running | .testcancel | .accept | .capacity _ | .choose _ | .alloc _ _ => false
  | .create _ _ | .acptFunc _ _ | .writeSlot _ _ | .increment | .finish | .ended => false
  | .cancelled => false

/-- The condition on a step of `DisconnectClient` inside `ServerUninit`: the user has not been
freed, its thread is not about to store -1 over the descriptor closed here, and it is freed only
when its thread has reached a cancellation point. -/
def mayDisconnect (c : Client) (d : DisconnectPc) : Bool :=
  c.frees == 0 && (d != .close || c.pc != .clearFd) &&
    (d != .free || parked c.pc || c.pc == .cancelled)

/-- The condition on a step of `ServerUninit`: besides that on `DisconnectClient`, the context is
freed only when every receive thread has reached its end. -/
def uninitOrderly (s : State) : Bool :=
  match s.uninit with
  | .client _ p d => mayDisconnect (s.clients p.id) d
  | .free => (List.range s.accepted).all fun k => quiet (s.clients k)
  | _ => true

def Orderly (s : State) : Label → Prop
  -- the cancellation does not hit the listening thread while it holds a descriptor
  | .listener => ¬ (s.pending = true ∧ unserved s.listener = true)
  -- no client is served on descriptor 0
  | .createReturns ok => ∀ k ∈ s.listener.hand, ok = true → (s.clients k).sock ≠ 0
  | .uninit => uninitOrderly s = true
  | _ => True

instance (s : State) : (l : Label) → Decidable (Orderly s l)
  | .listener => inferInstanceAs (Decidable (¬ (_ ∧ _)))
  | .createReturns _ => inferInstanceAs (Decidable (∀ k ∈ s.listener.hand, _))
  | .uninit => inferInstanceAs (Decidable (uninitOrderly s = true))
  | .listenReturns _ | .acceptReturns _ | .mallocReturns _ | .thread _ => .isTrue trivial
  | .recvReturns _ _ => .isTrue trivial

def stage (s : State) (k : ℕ) : Option DisconnectPc :=
  match s.uninit with
  | .client _ p d => if p.id = k then some d else none
  | _ => none

def intact (c : Client) : Prop := c.fd = c.sock ∧ c.closes = 0
def half (c : Client) : Prop := c.fd = c.sock ∧ c.closes = 1
def shut (c : Client) : Prop := c.fd = -1 ∧ c.closes = 1

/-- Either nobody has cancelled the thread, or the uninit call has and is now about to close the
descriptor, to clear it or to free the record. -/
def Served (c : Client) (u : Option DisconnectPc) : Prop :=
  c.pending = false ∧ intact c ∧ u ≠ some .close ∧ u ≠ some .clearFd ∧ u ≠ some .free ∨
    c.pending = true ∧
      (u = some .close ∧ intact c ∨ u = some .clearFd ∧ half c ∨ u = some .free ∧ shut c)

/-- What holds of a user that has not been freed, by the statement its thread is at. -/
def Running (c : Client) (u : Option DisconnectPc) : Prop :=
  match c.pc with
  | .loop | .testcancel | .callRecv | .recv | .close | .received _ | .recvFunc _ => Served c u
  | .cancelled => c.pending = true ∧ Served c u
  | .clearFd => half c ∧ u ≠ some .clearFd ∧ u ≠ some .free
  | .exitFunc | .disconnect .search | .disconnect .decrement | .disconnect .testFd => shut c
  | .disconnect .free => shut c
  | .disconnect _ | .absent | .ended => False

/-- What holds of a user that has been freed: it was closed before, and its thread is over. -/
def Released (c : Client) : Prop :=
  shut c ∧ (c.pc = .ended ∨ c.pending = true ∧ (parked c.pc = true ∨ c.pc = .cancelled))

def Started (c : Client) (u : Option DisconnectPc) : Prop :=
  0 < c.sock ∧ c.record.isSome ∧ (c.frees = 0 ∧ Running c u ∨ c.frees = 1 ∧ Released c)

theorem served_advance {σ : Setup} {c c' : Client} (h : c.advance σ = some c')
    {u : Option DisconnectPc} (h0 : 0 < c.sock) (hrun : Running c u) :
    c'.frees = c.frees ∧ Running c' u ∨ c'.frees = c.frees + 1 ∧ Released c' := by
  unfold Client.advance at h
  cases hpc : c.pc with
  | absent | ended | cancelled => simp [hpc] at h
  | loop | testcancel | callRecv | recv | close | received | recvFunc =>
    simp only [hpc] at h
    simp only [Running, hpc] at hrun
    left
    simp_all [Served, intact, half, shut, Client.closeFd, Client.log, Running]
    grind
  | clearFd | exitFunc =>
    simp only [hpc] at h
    simp only [Running, hpc] at hrun
    left
    simp_all [half, shut, Client.log, Running]
    grind
  | disconnect d =>
    simp only [Running, hpc] at hrun
    cases d <;> simp_all [Client.disconnect, shut, Running, Released]
    all_goals grind

theorem running_before {c : Client} {u u' : Option DisconnectPc} (hrun : Running c u)
    (hu : u ≠ some .close ∧ u ≠ some .clearFd ∧ u ≠ some .free)
    (hu' : u' ≠ some .close ∧ u' ≠ some .clearFd ∧ u' ≠ some .free) : Running c u' := by
  unfold Running at hrun ⊢
  cases hpc : c.pc with
  | disconnect d => cases d <;> simp_all
  | cancelled => grind [Served]
  | absent | ended | exitFunc => simp_all
  | clearFd => simp_all
  | loop | testcancel | callRecv | recv | close | received | recvFunc => simp_all [Served]

theorem served_disconnect {c : Client} {d : DisconnectPc} (hm : mayDisconnect c d = true)
    (h0 : 0 < c.sock) (hrun : Running c (some d)) :
    (c.disconnect d).1.frees = 0 ∧ Running (c.disconnect d).1 (c.disconnect d).2 ∨
      (c.disconnect d).1.frees = 1 ∧ Released (c.disconnect d).1 := by
  have hf : c.frees = 0 := by
    simp only [mayDisconnect, Bool.and_eq_true, beq_iff_eq] at hm
    exact hm.1.1
  unfold Running at hrun
  cases d with
  | search | decrement => exact .inl ⟨hf, hrun⟩
  | testFd | cancel | clearFd =>
    left
    cases hpc : c.pc with
    | disconnect d => cases d <;> simp_all [Client.disconnect, Running, shut]
    | absent | ended => simp_all
    | clearFd | exitFunc =>
      simp_all [Client.disconnect, Running, half, shut]
    | cancelled => grind [Client.disconnect, Running, Served, intact, half, shut]
    | loop | testcancel | callRecv | recv | close | received | recvFunc =>
      simp_all [Client.disconnect, Running, Served, intact, half, shut]
  | close =>
    left
    cases hpc : c.pc with
    | disconnect d => cases d <;> simp_all [Client.disconnect, Client.closeFd, Running, shut]
    | absent | ended => simp_all
    | clearFd => simp [mayDisconnect, hpc] at hm
    | exitFunc => simp_all [Client.disconnect, Client.closeFd, Running, shut]
    | loop | testcancel | callRecv | recv | close | received | recvFunc | cancelled =>
      simp_all [Client.disconnect, Client.closeFd, Running, Served, intact, half, shut]
      grind
  | free =>
    right
    cases hpc : c.pc with
    | disconnect d => cases d <;> simp_all [mayDisconnect, parked]
    | absent | ended => simp_all
    | clearFd | exitFunc | loop | callRecv | close | recvFunc =>
      simp [mayDisconnect, parked, hpc] at hm
    | testcancel | recv | received | cancelled =>
      simp_all [Client.disconnect, Served, Released, parked, shut]

theorem parked_advance {σ : Setup} {c c' : Client} (h : c.advance σ = some c')
    (hpc : parked c.pc = true) (hp : c.pending = true) : c' = c.at .cancelled := by
  unfold Client.advance at h
  cases hq : c.pc with
  | testcancel | recv | received => simpa [hq, hp, eq_comm] using h
  | absent | loop | callRecv | close | clearFd | exitFunc => simp [parked, hq] at hpc
  | recvFunc | disconnect | ended | cancelled => simp [parked, hq] at hpc

theorem released_advance {σ : Setup} {c c' : Client} (h : c.advance σ = some c')
    (hr : Released c) : c'.frees = c.frees ∧ Released c' := by
  obtain ⟨hs, hpc | ⟨hp, hpc | hpc⟩⟩ := hr
  · simp [Client.advance, hpc] at h
  · obtain rfl := parked_advance h hpc hp
    exact ⟨rfl, hs, .inr ⟨hp, .inr rfl⟩⟩
  · simp [Client.advance, hpc] at h

theorem started_advance {σ : Setup} {c c' : Client} (h : c.advance σ = some c')
    {u : Option DisconnectPc} (hs : Started c u) : Started c' u := by
  obtain ⟨hr, hsock, -, -⟩ := advance_record h
  obtain ⟨h0, hrec, ⟨hf, hrun⟩ | ⟨hf, hrel⟩⟩ := hs
  · refine ⟨hsock ▸ h0, hr ▸ hrec, ?_⟩
    rcases served_advance h h0 hrun with ⟨hf', hrun'⟩ | ⟨hf', hrel⟩
    · exact .inl ⟨hf'.trans hf, hrun'⟩
    · exact .inr ⟨by omega, hrel⟩
  · obtain ⟨hf', hrel'⟩ := released_advance h hrel
    exact ⟨hsock ▸ h0, hr ▸ hrec, .inr ⟨hf'.trans hf, hrel'⟩⟩

theorem started_log {c : Client} {u : Option DisconnectPc} (h : Started c u) (given : Bool)
    (f : Callback) : Started (c.log given f) u := by
  unfold Client.log
  split <;> exact h

theorem started_search {c : Client} {u : Option DisconnectPc} (h : Started c u)
    (hpc : c.pc = .disconnect .search ∨ c.pc = .disconnect .decrement) {d : DisconnectPc}
    (hd : d = .decrement ∨ d = .testFd) : Started (c.at (.disconnect d)) u := by
  obtain ⟨h0, hrec, ⟨hf, hrun⟩ | ⟨hf, -, hrel⟩⟩ := h
  · refine ⟨h0, hrec, .inl ⟨hf, ?_⟩⟩
    have hs : shut c := by rcases hpc with hpc | hpc <;> simpa only [Running, hpc] using hrun
    rcases hd with rfl | rfl <;> exact hs
  · rcases hpc with hpc | hpc <;> simp [hpc, parked] at hrel

theorem started_recv {c : Client} {u : Option DisconnectPc} (h : Started c u) (hpc : c.pc = .recv)
    (hp : c.pending = false) {pc : RecvPc} (hd : pc = .close ∨ ∃ len, pc = .received len) :
    Started (c.at pc) u := by
  obtain ⟨h0, hrec, ⟨hf, hrun⟩ | ⟨hf, -, hrel⟩⟩ := h
  · refine ⟨h0, hrec, .inl ⟨hf, ?_⟩⟩
    have hs : Served c u := by simpa only [Running, hpc] using hrun
    rcases hd with rfl | ⟨len, rfl⟩ <;> exact hs
  · simp [hpc, hp] at hrel

def Settled (c : Client) : Prop := c.frees = if c.record.isSome then 1 else 0

def Unstarted (pc : ListenPc) (k : ℕ) (c : Client) : Prop :=
  c.pending = false ∧ 0 ≤ c.sock ∧
    if pc.hand = some k then
      c.closes = 0 ∧
        match pc with
        | .create _ _ => c.frees = 0 ∧ c.record.isSome ∧ c.fd = c.sock
        | .refuse _ => Settled c
        | _ => c.frees = 0 ∧ c.record = none
    else c.closes = 1 ∧ Settled c

structure Kept (s : State) : Prop extends Tracked s where
  unstarted : ∀ k < s.accepted, (s.clients k).pc = .absent →
    Unstarted s.listener k (s.clients k)
  started : ∀ k, (s.clients k).pc ≠ .absent → Started (s.clients k) (stage s k)
  joined : s.uninit = .free ∨ s.uninit = .returned →
    s.listener = .ended ∨ s.listener = .cancelled
  stopped : s.uninit = .returned → ∀ k < s.accepted, quiet (s.clients k) = true

theorem kept_init (σ : Setup) : Kept (serverInit σ) where
  toTracked := tracked_init σ
  unstarted := by simp [serverInit]
  started := by simp [serverInit]
  joined := by simp [serverInit]
  stopped := by simp [serverInit]

theorem Kept.open {s : State} (h : Kept s) (hl : s.listener ≠ .ended)
    (hc : s.listener ≠ .cancelled) : s.uninit ≠ .free ∧ s.uninit ≠ .returned := by
  constructor
  · intro hu
    rcases h.joined (.inl hu) with he | he
    · exact hl he
    · exact hc he
  · intro hu
    rcases h.joined (.inr hu) with he | he
    · exact hl he
    · exact hc he

theorem quiet_advance {σ : Setup} {c c' : Client} (h : c.advance σ = some c')
    (hq : quiet c = true) : quiet c' = true := by
  simp only [quiet, Bool.or_eq_true, beq_iff_eq, Bool.and_eq_true] at hq
  rcases hq with ((hpc | hpc) | hpc) | ⟨hpc, hp⟩
  · simp [Client.advance, hpc] at h
  · simp [Client.advance, hpc] at h
  · simp [Client.advance, hpc] at h
  · obtain rfl := parked_advance h hpc hp
    rfl

theorem Kept.thread {s : State} (h : Kept s) {k : ℕ} {c : Client} {t : Table Ptr}
    (ht : Tracked ((s.setTable t).setClient k c)) (hpc' : c.pc ≠ .absent)
    (hs : Started c (stage s k))
    (hq : quiet (s.clients k) = true → quiet c = true) :
    Kept ((s.setTable t).setClient k c) := by
  refine { ht with unstarted := fun j hj ha => ?_, started := fun j ha => ?_, joined := h.joined
                   stopped := fun hu j hj => ?_ }
  all_goals by_cases hjk : j = k
  · simp [hjk, hpc'] at ha
  · simpa [hjk] using h.unstarted j hj (by simpa [hjk] using ha)
  · simpa [hjk, stage] using hs
  · simpa [hjk, stage] using h.started j (by simpa [hjk] using ha)
  · simpa [hjk] using hq (h.stopped hu k (hjk ▸ hj))
  · simpa [hjk] using h.stopped hu j hj

theorem unstarted_other {pc pc' : ListenPc} {j : ℕ} {c : Client} (h : Unstarted pc j c)
    (hj : pc.hand ≠ some j) (hj' : pc'.hand ≠ some j) : Unstarted pc' j c := by
  unfold Unstarted at h ⊢
  rw [if_neg hj] at h
  rw [if_neg hj']
  exact h

theorem Kept.handle {s : State} (h : Kept s) {k : ℕ} {c : Client} {pc : ListenPc}
    (ht : Tracked ((s.setClient k c).listen pc)) (hk : s.listener.hand = some k)
    (hh : ∀ j, pc.hand = some j → j = k)
    (hu : c.pc = .absent → Unstarted pc k c)
    (hs : c.pc ≠ .absent → Started c (stage s k)) : Kept ((s.setClient k c).listen pc) := by
  have hopen := h.open (by intro he; simp [he] at hk) (by intro he; simp [he] at hk)
  refine { ht with unstarted := fun j hj ha => ?_, started := fun j ha => ?_
                   joined := fun hf => ?_, stopped := fun hf => absurd hf hopen.2 }
  · by_cases hjk : j = k
    · simpa [hjk] using hu (by simpa [hjk] using ha)
    · have hother := h.unstarted j hj (by simpa [hjk] using ha)
      have hj' : s.listener.hand ≠ some j := by
        rw [hk]
        simpa using Ne.symm hjk
      have hnew : Unstarted pc j (s.clients j) :=
        unstarted_other hother hj' fun hj => hjk (hh j hj)
      simpa [hjk] using hnew
  · by_cases hjk : j = k
    · simpa [hjk, stage] using hs (by simpa [hjk] using ha)
    · simpa [hjk, stage] using h.started j (by simpa [hjk] using ha)
  · rcases hf with hf | hf
    · exact absurd hf hopen.1
    · exact absurd hf hopen.2

theorem Kept.idle {s t : State} (h : Kept s) (ht : Tracked t) (hc : t.clients = s.clients)
    (ha : t.accepted = s.accepted) (hu : t.uninit = s.uninit)
    (hl : s.listener ≠ .ended ∧ s.listener ≠ .cancelled)
    (hs : ∀ k < s.accepted, (s.clients k).pc = .absent → Unstarted s.listener k (s.clients k) →
      Unstarted t.listener k (s.clients k)) : Kept t := by
  have hopen := h.open hl.1 hl.2
  refine { ht with unstarted := fun k hk hpc => ?_, started := fun k hpc => ?_
                   joined := fun hf => ?_, stopped := fun hf => absurd (hu ▸ hf) hopen.2 }
  · rw [ha] at hk
    rw [hc] at hpc ⊢
    exact hs k hk hpc (h.unstarted k hk hpc)
  · rw [hc] at hpc ⊢
    simpa only [stage, hu] using h.started k hpc
  · rw [hu] at hf
    rcases hf with hf | hf
    · exact absurd hf hopen.1
    · exact absurd hf hopen.2

theorem unstarted_control {s : State} {pc : ListenPc} (hc : Control s pc) {k : ℕ} {c : Client}
    (hd : s.listener.hand = some k → pc.hand = some k) (h : Unstarted s.listener k c) :
    Unstarted pc k c := by
  by_cases hk : s.listener.hand = some k
  · have hkeep := hd hk
    have hfree := hc.free
    have hcreate := fun i => (hc.create k i).1
    have hcreate' := fun j i => (hc.create j i).2
    have hnew := hc.admits
    have hrefuse : s.listener ≠ .refuse k := fun he =>
      absurd ((hc.keep k he).symm.trans hkeep) (by simp)
    unfold Unstarted at h ⊢
    rw [if_pos hk] at h
    rw [if_pos hkeep]
    refine ⟨h.1, h.2.1, h.2.2.1, ?_⟩
    have hold : c.frees = 0 ∧ c.record = none := by
      have h4 := h.2.2.2
      cases hl : s.listener <;> simp_all
    cases pc <;> simp_all [Settled]
  · exact unstarted_other h hk fun hj => hk (hc.hand k hj)

theorem stage_absent {s : State} (h : Tracked s) {k : ℕ} (hk : (s.clients k).pc = .absent) :
    stage s k = none := by
  unfold stage
  split
  · rename_i i p d hu
    rw [if_neg]
    intro heq
    obtain rfl := heq
    exact h.swept i p d hu hk
  · rfl

theorem Kept.move {σ : Setup} {s t : State} {l : Label} (h : Kept s) (hm : Move σ s l t)
    (hg : Orderly s l) : Kept t := by
  have ht : Tracked t := h.toTracked.move hm
  cases hm with
  | @control l pc hl hh hc =>
    refine h.idle ht rfl rfl rfl hc.active fun k _ _ hu => unstarted_control hc (fun hk => ?_) hu
    -- the client in hand is dropped only by a cancellation, which the condition excludes
    cases hn : pc.hand with
    | some j => exact congrArg some (Option.some.inj ((hc.hand j hn).symm.trans hk))
    | none =>
      obtain ⟨hp, hun⟩ := hc.drop k hk hn
      by_cases hll : l = .listener
      · subst hll
        exact absurd ⟨hp, by rcases hun with he | he <;> simp [he, unserved]⟩ hg
      · exact hn.symm.trans ((hh hll).trans hk)
  | listenFails hl | finish hl | increment hl =>
    refine h.idle ht rfl rfl rfl (by simp [hl]) fun k _ _ hu => ?_
    exact unstarted_other hu (by simp [hl]) (by simp)
  | @accept fd hl hfd =>
    have hopen := h.open (by simp [hl]) (by simp [hl])
    refine { ht with unstarted := fun j hj ha => ?_, started := fun j ha => ?_
                     joined := fun hf => ?_, stopped := fun hf => absurd hf hopen.2 }
    · by_cases hja : j = s.accepted
      · simp [hja, Unstarted, Client.absent, hfd]
      · have hother := h.unstarted j (by simp at hj; omega) (by simpa [hja] using ha)
        have hnew : Unstarted (.accepted s.accepted) j (s.clients j) :=
          unstarted_other hother (by simp [hl]) (by simpa using Ne.symm hja)
        simpa [hja] using hnew
    · by_cases hja : j = s.accepted
      · simp [hja] at ha
      · simpa [hja, stage] using h.started j (by simpa [hja] using ha)
    · rcases hf with hf | hf
      · exact absurd hf hopen.1
      · exact absurd hf hopen.2
  | @malloc a k i hl ha =>
    have hpc : (s.clients k).pc = .absent := h.waiting k (by simp [hl]) (by simp [hl])
    have hu := h.unstarted k (h.hand k (by simp [hl])) hpc
    refine h.handle ht (by simp [hl]) (by simp) (fun _ => ?_) fun hne => absurd hpc hne
    simp only [Unstarted, hl, ListenPc.hand, if_true] at hu ⊢
    exact ⟨hu.1, hu.2.1, hu.2.2.1, hu.2.2.2.1, by simp, trivial⟩
  | @created k i hl =>
    have hpc : (s.clients k).pc = .absent := h.waiting k (by simp [hl]) (by simp [hl])
    have hu := h.unstarted k (h.hand k (by simp [hl])) hpc
    refine h.handle ht (by simp [hl]) (by simp) (by simp) fun _ => ?_
    simp only [Unstarted, hl, ListenPc.hand, if_true] at hu
    obtain ⟨hp, h0, hclose, hf, hrec, hfd⟩ := hu
    have hne : (s.clients k).sock ≠ 0 := by simpa [Orderly, hl] using hg
    refine ⟨?_, hrec, .inl ⟨hf, ?_⟩⟩
    · simp only [Client.at]
      omega
    · simp [Running, Served, intact, hp, hclose, hfd, stage_absent h.toTracked hpc]
  | @notCreated k i hl =>
    have hpc : (s.clients k).pc = .absent := h.waiting k (by simp [hl]) (by simp [hl])
    have hu := h.unstarted k (h.hand k (by simp [hl])) hpc
    refine h.handle ht (by simp [hl]) (by simp) (fun _ => ?_) fun hne => absurd hpc hne
    simp only [Unstarted, hl, ListenPc.hand, if_true, Settled] at hu ⊢
    obtain ⟨hp, h0, hclose, hf, hrec, hfd⟩ := hu
    exact ⟨hp, h0, hclose, by simp [hf, hrec]⟩
  | @acptFunc k i hl =>
    have hpc : (s.clients k).pc ≠ .absent := h.admits k (by simp [hl])
    refine h.handle ht (by simp [hl]) (by simp) (fun ha => ?_) fun _ => ?_
    · exact absurd (by simpa [log_client] using ha) hpc
    · exact started_log (h.started k hpc) _ _
  | @writeSlot k i hl =>
    have hpc : (s.clients k).pc ≠ .absent := h.admits k (by simp [hl])
    refine h.idle ht rfl rfl rfl (by simp [hl]) fun j _ ha hu => ?_
    refine unstarted_other hu ?_ (by simp)
    intro hj
    obtain rfl : k = j := by simpa [hl] using hj
    exact hpc ha
  | @refuse k hl hp =>
    have hpc : (s.clients k).pc = .absent := h.waiting k (by simp [hl]) (by simp [hl])
    have hu := h.unstarted k (h.hand k (by simp [hl])) hpc
    refine h.handle ht (by simp [hl]) (by simp) (fun _ => ?_) fun hne => absurd hpc hne
    simp only [Unstarted, hl, ListenPc.hand, if_true, Settled] at hu ⊢
    obtain ⟨hp, h0, hclose, hset⟩ := hu
    simp [hp, h0, hclose, hset]
  | @search k hpc =>
    refine h.thread ht (by simp) ?_ (by simp [quiet, parked, hpc])
    refine started_search (h.started k (by simp [hpc])) (.inl hpc) ?_
    exact (search_pc s (s.clients k)).elim (fun hs => .inr hs.1) fun hs => .inl hs.1
  | @decrement k hpc =>
    refine h.thread ht (by simp) ?_ (by simp [quiet, parked, hpc])
    exact started_search (h.started k (by simp [hpc])) (.inr hpc) (.inr rfl)
  | @advance k c hs hd hc =>
    obtain ⟨-, -, hpc, hpc'⟩ := advance_record hc
    exact h.thread (t := s.table) ht hpc' (started_advance hc (h.started k hpc)) (quiet_advance hc)
  | @recv k len hpc hp =>
    refine h.thread (t := s.table) ht ?_ ?_ (by simp [quiet, parked, hpc, hp])
    · simp only [Client.at]
      split_ifs <;> simp
    · refine started_recv (h.started k (by simp [hpc])) hpc hp ?_
      split_ifs <;> simp

theorem Kept.sweepStep {s t : State} (h : Kept s) (ht : Tracked t) (ha : t.accepted = s.accepted)
    (hl : t.listener = s.listener)
    (hs : ∀ j, t.clients j = s.clients j ∧ stage t j = stage s j ∨
      (t.clients j).pc ≠ .absent ∧ Started (t.clients j) (stage t j))
    (hj : t.uninit = .free ∨ t.uninit = .returned →
      t.listener = .ended ∨ t.listener = .cancelled)
    (ho : t.uninit = .returned → ∀ k < t.accepted, quiet (t.clients k) = true) : Kept t := by
  refine { ht with unstarted := fun j hja hpc => ?_, started := fun j hpc => ?_
                   joined := hj, stopped := ho }
  · rcases hs j with ⟨hc, -⟩ | ⟨hne, -⟩
    · rw [hc] at hpc ⊢
      exact hl ▸ h.unstarted j (ha ▸ hja) hpc
    · exact absurd hpc hne
  · rcases hs j with ⟨hc, hst⟩ | ⟨-, hst⟩
    · rw [hc, hst]
      rw [hc] at hpc
      exact h.started j hpc
    · exact hst

theorem started_before {c : Client} {u u' : Option DisconnectPc} (h : Started c u)
    (hu : u ≠ some .close ∧ u ≠ some .clearFd ∧ u ≠ some .free)
    (hu' : u' ≠ some .close ∧ u' ≠ some .clearFd ∧ u' ≠ some .free) : Started c u' := by
  obtain ⟨h0, hrec, ⟨hf, hrun⟩ | hrel⟩ := h
  · exact ⟨h0, hrec, .inl ⟨hf, running_before hrun hu hu'⟩⟩
  · exact ⟨h0, hrec, .inr hrel⟩

theorem started_disconnect {c : Client} {d : DisconnectPc} (hm : mayDisconnect c d = true)
    (h : Started c (some d)) : Started (c.disconnect d).1 (c.disconnect d).2 := by
  have hkeep : (c.disconnect d).1.sock = c.sock ∧ (c.disconnect d).1.record = c.record := by
    cases d <;> simp only [Client.disconnect, Client.closeFd, and_self]
    split <;> simp
  obtain ⟨h0, hrec, ⟨-, hrun⟩ | ⟨hf, -⟩⟩ := h
  · exact ⟨hkeep.1 ▸ h0, hkeep.2 ▸ hrec, (served_disconnect hm h0 hrun).imp id id⟩
  · simp [mayDisconnect, hf] at hm

theorem disconnect_pc (c : Client) (d : DisconnectPc) : (c.disconnect d).1.pc = c.pc := by
  cases d <;> simp only [Client.disconnect, Client.closeFd]
  split <;> rfl

theorem stage_elim (s : State) (o : Option DisconnectPc) (i : ℕ) (p : Ptr) (j : ℕ) :
    stage (s.sweep (o.elim (.sweep (i + 1)) (.client i p))) j = if p.id = j then o else none := by
  cases o <;> simp [stage]

theorem elim_ne (o : Option DisconnectPc) (i : ℕ) (p : Ptr) :
    o.elim (.sweep (i + 1)) (.client i p) ≠ UninitPc.free ∧
      o.elim (.sweep (i + 1)) (.client i p) ≠ UninitPc.returned := by
  cases o <;> simp

theorem Kept.uninitStep {s t : State} (h : Kept s) (ht : uninitStep s = some t)
    (hg : Orderly s .uninit) : Kept t := by
  have htr : Tracked t := h.toTracked.uninitStep ht
  unfold StreamServer.uninitStep at ht
  cases hu : s.uninit with
  | idle | stop | resetNum | closeServer =>
    obtain rfl : _ = t := by simpa only [hu, Option.some.injEq] using ht
    exact h.sweepStep htr rfl rfl (fun j => .inl ⟨rfl, by simp [stage, hu]⟩) (by simp) (by simp)
  | join =>
    simp only [hu] at ht
    split_ifs at ht with hj
    obtain rfl := Option.some.inj ht
    exact h.sweepStep htr rfl rfl (fun j => .inl ⟨rfl, by simp [stage, hu]⟩) (fun _ => hj) (by simp)
  | free =>
    obtain rfl : _ = t := by simpa only [hu, Option.some.injEq] using ht
    refine h.sweepStep htr rfl rfl (fun j => .inl ⟨rfl, by simp [stage, hu]⟩)
      (fun _ => h.joined (.inl hu)) fun _ => ?_
    simpa [Orderly, uninitOrderly, hu] using hg
  | returned => simp [hu] at ht
  | sweep i =>
    simp only [hu] at ht
    split_ifs at ht with hi <;> obtain rfl := Option.some.inj ht
    · cases hp : s.table.pUser ⟨i, hi.1⟩ with
      | none =>
        rw [hp] at htr
        exact h.sweepStep htr rfl rfl (fun j => .inl ⟨rfl, by simp [stage, hu]⟩) (by simp) (by simp)
      | some p =>
        rw [hp] at htr
        refine h.sweepStep htr rfl rfl (fun j => ?_) (by simp) (by simp)
        by_cases hj : p.id = j
        · subst hj
          have hpc := h.slot _ p hp
          have hst : Started (s.clients p.id) none := by simpa [stage, hu] using h.started p.id hpc
          have hst' : Started (s.clients p.id) (some .search) :=
            started_before hst (by simp) (by simp)
          exact .inr ⟨hpc, by simpa [stage] using hst'⟩
        · exact .inl ⟨rfl, by simp [stage, hu, hj]⟩
    · exact h.sweepStep htr rfl rfl (fun j => .inl ⟨rfl, by simp [stage, hu]⟩) (by simp) (by simp)
  | client i p d =>
    have hpc := h.swept i p d hu
    have hst : Started (s.clients p.id) (some d) := by
      simpa [stage, hu] using h.started p.id hpc
    have hm : mayDisconnect (s.clients p.id) d = true := by
      simpa [Orderly, uninitOrderly, hu] using hg
    cases d with
    | search =>
      obtain rfl : _ = t := by simpa only [hu, Option.some.injEq] using ht
      refine h.sweepStep htr rfl rfl (fun j => ?_) (by simp) (by simp)
      by_cases hj : p.id = j
      · subst hj
        refine .inr ⟨hpc, ?_⟩
        rcases search_pc s (s.clients p.id) with ⟨hd, -⟩ | ⟨hd, -⟩ <;> rw [hd] <;>
          simpa [stage] using started_before hst (by simp) (by simp)
      · exact .inl ⟨rfl, by simp [stage, hu, hj]⟩
    | decrement =>
      obtain rfl : _ = t := by simpa only [hu, Option.some.injEq] using ht
      refine h.sweepStep htr rfl rfl (fun j => ?_) (by simp) (by simp)
      by_cases hj : p.id = j
      · subst hj
        have hst' : Started (s.clients p.id) (some .testFd) :=
          started_before hst (by simp) (by simp)
        exact .inr ⟨hpc, by simpa [stage] using hst'⟩
      · exact .inl ⟨rfl, by simp [stage, hu, hj]⟩
    | testFd | cancel | close | clearFd | free =>
      obtain rfl : _ = t := by simpa only [hu, Option.some.injEq] using ht
      have hd := started_disconnect hm hst
      refine h.sweepStep htr rfl rfl (fun j => ?_) (fun he => ?_) fun he => ?_
      · rw [stage_elim]
        by_cases hj : p.id = j
        · subst hj
          refine .inr ⟨?_, ?_⟩
          · simpa [disconnect_pc] using hpc
          · simpa using hd
        · exact .inl ⟨Function.update_of_ne (Ne.symm hj) _ _, by simp [stage, hu, hj]⟩
      · simp only [State.sweep] at he
        exact absurd he (not_or.mpr (elim_ne _ i p))
      · simp only [State.sweep] at he
        exact absurd he (elim_ne _ i p).2

theorem Kept.step {σ : Setup} {s t : State} {l : Label} (h : Kept s) (hg : Orderly s l)
    (ht : step σ s l = some t) : Kept t := by
  by_cases hl : l = .uninit
  · subst hl
    exact h.uninitStep ht hg
  · exact h.move (step_move ht hl) hg

/-- The step reads or writes the server context or a user record: every statement does, but for
those of a receive thread that is at a cancellation test or cancelled inside `recv`. -/
def touches (s : State) : Label → Bool
  | .thread k => !parked (s.clients k).pc
  | .listener | .listenReturns _ | .acceptReturns _ | .mallocReturns _ | .createReturns _ => true
  | .recvReturns _ _ | .uninit => true

theorem running_closes {c : Client} {u : Option DisconnectPc} (h : Running c u) :
    c.closes ≤ 1 := by
  unfold Running at h
  cases hpc : c.pc with
  | absent | ended => simp [hpc] at h
  | disconnect d => cases d <;> simp_all [shut]
  | clearFd | exitFunc => simp_all [half, shut]
  | loop | testcancel | callRecv | recv | close | received | recvFunc =>
    simp_all [Served, intact, half, shut]
    omega
  | cancelled => grind [Served, intact, half, shut]

theorem unstarted_closes {pc : ListenPc} {k : ℕ} {c : Client} (h : Unstarted pc k c) :
    c.closes ≤ 1 := by
  obtain ⟨-, -, h⟩ := h
  split_ifs at h
  · omega
  · omega

theorem unstarted_frees {pc : ListenPc} {k : ℕ} {c : Client} (h : Unstarted pc k c) :
    c.frees ≤ 1 := by
  have hset : Settled c → c.frees ≤ 1 := fun hs => by
    unfold Settled at hs
    split_ifs at hs <;> omega
  obtain ⟨-, -, h⟩ := h
  split_ifs at h
  · obtain ⟨-, h⟩ := h
    cases pc with
    | refuse => exact hset h
    | create => exact h.1.le.trans (by omega)
    | listen | running | testcancel | accept | accepted | capacity => exact h.1.le.trans (by omega)
    | choose | alloc | acptFunc | writeSlot | increment => exact h.1.le.trans (by omega)
    | finish | ended | cancelled => exact h.1.le.trans (by omega)
  · exact hset h.2

theorem running_quiet {c : Client} (h : Running c none) : quiet c = false := by
  unfold Running at h
  cases hpc : c.pc with
  | absent | ended => simp [hpc] at h
  | disconnect d => simp [quiet, parked, hpc]
  | clearFd | exitFunc | loop | callRecv | close | recvFunc => simp [quiet, parked, hpc]
  | testcancel | recv | received => simp_all [quiet, parked, Served]
  | cancelled => grind [Served]

theorem Kept.once {s : State} (h : Kept s) (k : ℕ) :
    (s.clients k).frees ≤ 1 ∧ (s.clients k).closes ≤ 1 := by
  by_cases hk : k < s.accepted
  · by_cases hpc : (s.clients k).pc = .absent
    · have hu := h.unstarted k hk hpc
      exact ⟨unstarted_frees hu, unstarted_closes hu⟩
    · obtain ⟨-, -, ⟨hf, hrun⟩ | ⟨hf, hs, -⟩⟩ := h.started k hpc
      · exact ⟨by omega, running_closes hrun⟩
      · exact ⟨hf.le, hs.2.le⟩
  · simp [h.absent k (not_lt.mp hk), Client.absent]

theorem Kept.released {s : State} (h : Kept s) (hu : s.uninit = .returned) {k : ℕ}
    (hk : k < s.accepted) :
    (s.clients k).closes = 1 ∧ ((s.clients k).record.isSome → (s.clients k).frees = 1) := by
  have hhand : s.listener.hand ≠ some k := by
    rcases h.joined (.inr hu) with hl | hl <;> simp [hl]
  by_cases hpc : (s.clients k).pc = .absent
  · have hun := h.unstarted k hk hpc
    unfold Unstarted at hun
    rw [if_neg hhand] at hun
    obtain ⟨-, -, hc, hs⟩ := hun
    exact ⟨hc, fun hr => by simpa [Settled, hr] using hs⟩
  · obtain ⟨-, -, ⟨hf, hrun⟩ | ⟨hf, hs, -⟩⟩ := h.started k hpc
    · -- a thread that is over has left its user to the uninit call, which is past it
      have hq := h.stopped hu k hk
      have hst : stage s k = none := by simp [stage, hu]
      rw [hst] at hrun
      simp [running_quiet hrun] at hq
    · exact ⟨hs.2, fun _ => hf⟩

theorem Kept.untouched {σ : Setup} {s t : State} {l : Label} (h : Kept s)
    (hu : s.uninit = .returned) (ht : StreamServer.step σ s l = some t) :
    touches s l = false := by
  have hl := h.joined (.inr hu)
  have hq : ∀ k, (s.clients k).pc ≠ .absent → quiet (s.clients k) = true := fun k hpc =>
    h.stopped hu k (h.lt hpc)
  cases l with
  | listener => rcases hl with hl | hl <;> simp [StreamServer.step, listenStep, hl] at ht
  | listenReturns ok | acceptReturns fd | mallocReturns mem | createReturns ok =>
    rcases hl with hl | hl <;> simp [StreamServer.step, hl] at ht
  | uninit => simp [StreamServer.step, StreamServer.uninitStep, hu] at ht
  | thread k =>
    -- the only threads left are cancelled ones at a cancellation point
    have hpc : (s.clients k).pc ≠ .absent ∧ (s.clients k).pc ≠ .ended ∧
        (s.clients k).pc ≠ .cancelled := by
      refine ⟨?_, ?_, ?_⟩ <;> intro he <;>
        simp [StreamServer.step, recvStep, Client.advance, he] at ht
    have hp := hq k hpc.1
    simp only [quiet, Bool.or_eq_true, beq_iff_eq, hpc, false_or, Bool.and_eq_true] at hp
    simp [touches, hp.1]
  | recvReturns k len =>
    cases step_move ht (by simp) with
    | control _ _ hc =>
      rcases hl with he | he
      · exact absurd he hc.active.1
      · exact absurd he hc.active.2
    | recv hpc hp =>
      have := hq k (by simp [hpc])
      simp [quiet, parked, hpc, hp] at this

/-- In every order of the steps that meets `Orderly`, no user is freed twice and no descriptor
closed twice; and when the uninit call has returned all of them have been, and no thread touches
the server or a user any more. -/
theorem released_once (σ : Setup) {ls : List Label} {s : State}
    (ho : Obeys (step σ) Orderly (serverInit σ) ls)
    (h : exec (step σ) (serverInit σ) ls = some s) :
    (∀ k, (s.clients k).frees ≤ 1 ∧ (s.clients k).closes ≤ 1) ∧
      (s.uninit = .returned →
        (∀ k < s.accepted, (s.clients k).closes = 1 ∧
          ((s.clients k).record.isSome → (s.clients k).frees = 1)) ∧
        ∀ l t, step σ s l = some t → touches s l = false) := by
  have hk : Kept s := invariant (fun _ _ _ hs hg ht => hs.step hg ht) (kept_init σ) ho h
  exact ⟨hk.once, fun hu => ⟨fun k => hk.released hu, fun l t => hk.untouched hu⟩⟩

def shutdownInExit : List Label :=
  [.listenReturns true, .listener, .listener, .acceptReturns 4, .listener, .listener, .listener,
    .mallocReturns (some 100), .createReturns true, .listener, .listener, .listener,
    .thread 0, .thread 0, .thread 0, .recvReturns 0 (-1), .thread 0, .thread 0,
    .uninit, .uninit, .uninit, .uninit, .uninit, .uninit, .uninit, .uninit,
    .thread 0, .thread 0, .thread 0, .thread 0]

theorem released_once_fails : ¬ ∃ kind : Kind, ∀ (ls : List Label) (s : State),
    exec (step ⟨kind, 1, true, true, true, 3⟩) (serverInit ⟨kind, 1, true, true, true, 3⟩) ls =
      some s →
    ∀ k, (s.clients k).frees ≤ 1 := by
  intro hx
  obtain ⟨kind, hclaim⟩ := hx
  have hrun : (exec (step ⟨kind, 1, true, true, true, 3⟩)
      (serverInit ⟨kind, 1, true, true, true, 3⟩) shutdownInExit).map
        (fun s => (s.clients 0).frees) = some 2 := by
    cases kind <;> decide +kernel
  obtain ⟨s, hs, he⟩ := Option.map_eq_some_iff.mp hrun
  have hone := hclaim shutdownInExit s hs 0
  omega

def shutdown : List Label :=
  [.listenReturns true, .listener, .listener, .acceptReturns 4, .listener, .listener, .listener,
    .mallocReturns (some 100), .createReturns true, .listener, .listener, .listener,
    .listener, .listener, .acceptReturns 5, .listener, .listener, .listener,
    .mallocReturns (some 200), .createReturns true, .listener, .listener, .listener,
    .thread 0, .thread 0, .thread 0, .recvReturns 0 (-1), .thread 0, .thread 0, .thread 0,
    .thread 0, .thread 0, .thread 0, .thread 0, .thread 1, .thread 1, .thread 1,
    .listener, .listener,
    .uninit, .uninit, .uninit, .uninit, .uninit, .uninit, .uninit, .uninit, .uninit, .uninit,
    .uninit, .uninit, .uninit, .uninit, .listener, .uninit, .uninit]

theorem released_once_shutdown : ∃ s : State, s.uninit = .returned ∧ s.accepted = 2 ∧
    (∀ k, (s.clients k).frees ≤ 1 ∧ (s.clients k).closes ≤ 1) ∧
    (s.uninit = .returned →
      (∀ k < s.accepted, (s.clients k).closes = 1 ∧
        ((s.clients k).record.isSome → (s.clients k).frees = 1)) ∧
      ∀ l t, step ⟨.tcpIpv4, 2, true, true, true, 3⟩ s l = some t → touches s l = false) := by
  have hrun : (exec (step ⟨.tcpIpv4, 2, true, true, true, 3⟩)
      (serverInit ⟨.tcpIpv4, 2, true, true, true, 3⟩) shutdown).map
        (fun s => (s.uninit, s.accepted)) = some (.returned, 2) := by
    decide +kernel
  obtain ⟨s, hs, he⟩ := Option.map_eq_some_iff.mp hrun
  obtain ⟨hu, ha⟩ := Prod.mk.inj he
  exact ⟨s, hu, ha, released_once ⟨.tcpIpv4, 2, true, true, true, 3⟩ (by decide +kernel) hs⟩

end LibComm.Teardown

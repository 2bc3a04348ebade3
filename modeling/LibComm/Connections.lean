import LibComm.SlotLiveness

/-!
# What a descriptor number refers to

A number that `accept` has returned refers to that connection until it is
closed; then `accept` may return it again. A thread closes the descriptor of
its client before it stores -1 over it in the user, so a user may hold a number
that already refers to another connection.
-/

namespace LibComm.Connections
open ClientTable Interleaving SlotLiveness StreamServer

/-- The client to whose connection a number refers. -/
def connection (s : State) (fd : ℤ) : Option ℕ :=
  (List.range s.accepted).find? fun k => (s.clients k).sock = fd ∧ (s.clients k).closes = 0

/-- `accept` returns no number that is open, as the system guarantees, nor one that a user still
holds. -/
def Unheld (s : State) : Label → Prop
  | .acceptReturns fd => 0 ≤ fd → ∀ k < s.accepted,
      ((s.clients k).closes = 0 → (s.clients k).sock ≠ fd) ∧
        ((s.clients k).frees = 0 → (s.clients k).fd ≠ fd)
  | _ => True

instance (s : State) : ∀ l, Decidable (Unheld s l)
  | .acceptReturns _ => inferInstanceAs (Decidable (_ → ∀ k < s.accepted, _))
  | .listener | .listenReturns _ | .mallocReturns _ | .createReturns _ | .thread _
  | .recvReturns _ _ | .uninit => .isTrue trivial

def Only (s : State) (fd : ℤ) (k : ℕ) : Prop :=
  ∀ j < s.accepted, (s.clients j).closes = 0 → (s.clients j).sock = fd → j = k

structure Numbered (s : State) : Prop where
  sock : ∀ j < s.accepted, 0 ≤ (s.clients j).sock
  opened : ∀ k < s.accepted, (s.clients k).closes = 0 → Only s (s.clients k).sock k
  waiting : ∀ k, s.listener.hand = some k → s.listener.admits = none → (s.clients k).closes = 0
  user : ∀ k, (s.clients k).frees = 0 → 0 ≤ (s.clients k).fd → Only s (s.clients k).fd k

variable {σ : Setup} {s t : State} {l : Label} {k : ℕ} {fd : ℤ}

theorem connection_some {j : ℕ} (h : connection s fd = some j) :
    j < s.accepted ∧ (s.clients j).sock = fd ∧ (s.clients j).closes = 0 := by
  have hmem := List.mem_of_find?_eq_some h
  have hp := List.find?_some h
  simp only [decide_eq_true_eq] at hp
  exact ⟨List.mem_range.mp hmem, hp⟩

theorem Only.connection (h : Only s fd k) {j : ℕ} (hj : connection s fd = some j) : j = k := by
  obtain ⟨hlt, hsock, hopen⟩ := connection_some hj
  exact h j hlt hopen hsock

theorem Numbered.negative (h : Numbered s) (hfd : fd < 0) : connection s fd = none := by
  cases hc : connection s fd with
  | none => rfl
  | some j =>
    obtain ⟨hlt, hsock, -⟩ := connection_some hc
    have hpos := h.sock j hlt
    omega

theorem Numbered.own (h : Numbered s) (hk : k < s.accepted) (hopen : (s.clients k).closes = 0) :
    Connections.connection s (s.clients k).sock = some k := by
  cases hc : Connections.connection s (s.clients k).sock with
  | none =>
    have hall := List.find?_eq_none.mp hc k (List.mem_range.mpr hk)
    simp [hopen] at hall
  | some j => rw [(h.opened k hk hopen).connection hc]

theorem advance_closes {c c' : Client} (h : c.advance σ = some c') : c.closes ≤ c'.closes := by
  unfold Client.advance at h
  cases hpc : c.pc with
  | disconnect d =>
    simp only [hpc] at h
    cases d <;> simp_all [Client.disconnect, Client.closeFd] <;> grind
  | absent | ended | cancelled => simp [hpc] at h
  | loop | testcancel | callRecv | recv | close | clearFd | exitFunc | received | recvFunc =>
    simp only [hpc] at h
    simp_all [Client.closeFd, Client.log]
    grind

theorem move_sock (hm : Move σ s l t) (hk : k < s.accepted) :
    (t.clients k).sock = (s.clients k).sock ∧ (s.clients k).closes ≤ (t.clients k).closes := by
  have hupdate : ∀ {j : ℕ} {c : Client}, (j = k → c.sock = (s.clients k).sock ∧
      (s.clients k).closes ≤ c.closes) →
      (Function.update s.clients j c k).sock = (s.clients k).sock ∧
        (s.clients k).closes ≤ (Function.update s.clients j c k).closes := by
    intro j c hc
    by_cases hjk : j = k
    · subst hjk
      simpa using hc rfl
    · simp [Ne.symm hjk]
  cases hm with
  | control | listenFails | finish | writeSlot | increment => exact ⟨rfl, le_rfl⟩
  | accept => exact hupdate fun h => absurd h hk.ne'
  | malloc | created | notCreated | search | decrement | recv =>
    exact hupdate fun h => by
      subst h
      exact ⟨rfl, le_rfl⟩
  | acptFunc =>
    refine hupdate fun h => ?_
    subst h
    unfold Client.log
    split_ifs <;> exact ⟨rfl, le_rfl⟩
  | refuse =>
    refine hupdate fun h => ?_
    subst h
    exact ⟨rfl, Nat.le_succ _⟩
  | advance hs hd hc =>
    refine hupdate fun h => ?_
    subst h
    exact ⟨(advance_record hc).2.1, advance_closes hc⟩

theorem move_accepted (hm : Move σ s l t) :
    t.accepted = s.accepted ∨ ∃ fd, l = .acceptReturns fd ∧ 0 ≤ fd ∧
      t.accepted = s.accepted + 1 ∧ t.clients s.accepted = { Client.absent with sock := fd } := by
  cases hm with
  | @accept fd hl hfd => exact .inr ⟨fd, rfl, hfd, rfl, by simp⟩
  | control | listenFails | finish | malloc | created | notCreated | acptFunc | writeSlot
  | increment | refuse | search | decrement | advance | recv => exact .inl rfl

theorem Only.move (h : Only s fd k) (hm : Move σ s l t) (hl : l ≠ .acceptReturns fd) :
    Only t fd k := by
  intro j hj hopen hsock
  obtain hacc | ⟨fd', rfl, -, hacc, hnew⟩ := move_accepted hm
  · obtain ⟨hs, hle⟩ := move_sock hm (hacc ▸ hj)
    exact h j (hacc ▸ hj) (Nat.le_zero.mp (hopen ▸ hle)) (hs ▸ hsock)
  · by_cases hjn : j = s.accepted
    · subst hjn
      rw [hnew] at hsock
      exact absurd (congrArg Label.acceptReturns hsock) hl
    · have hlt : j < s.accepted := by omega
      obtain ⟨hs, hle⟩ := move_sock hm hlt
      exact h j hlt (Nat.le_zero.mp (hopen ▸ hle)) (hs ▸ hsock)

theorem advance_fd {c c' : Client} (h : c.advance σ = some c') :
    (c'.fd = c.fd ∨ c'.fd = -1) ∧
      c'.frees = c.frees + if c.pc = .disconnect .free then 1 else 0 := by
  unfold Client.advance at h
  cases hpc : c.pc with
  | disconnect d =>
    simp only [hpc] at h
    cases d <;> simp_all [Client.disconnect, Client.closeFd] <;> grind
  | absent | ended | cancelled => simp [hpc] at h
  | loop | testcancel | callRecv | recv | close | clearFd | exitFunc | received | recvFunc =>
    simp only [hpc] at h
    simp_all [Client.closeFd, Client.log]
    grind

theorem move_fd (hm : Move σ s l t) (k : ℕ) :
    ((t.clients k).fd = (s.clients k).fd ∧ ((t.clients k).frees = 0 → (s.clients k).frees = 0)) ∨
      (t.clients k).fd = -1 ∨
      ∃ i, s.listener = .alloc k i ∧ (t.clients k).fd = (s.clients k).sock := by
  have hupdate : ∀ {j : ℕ} {c : Client}, (j = k →
      (c.fd = (s.clients k).fd ∧ (c.frees = 0 → (s.clients k).frees = 0)) ∨ c.fd = -1 ∨
        ∃ i, s.listener = .alloc k i ∧ c.fd = (s.clients k).sock) →
      ((Function.update s.clients j c k).fd = (s.clients k).fd ∧
        ((Function.update s.clients j c k).frees = 0 → (s.clients k).frees = 0)) ∨
        (Function.update s.clients j c k).fd = -1 ∨
        ∃ i, s.listener = .alloc k i ∧
          (Function.update s.clients j c k).fd = (s.clients k).sock := by
    intro j c hc
    by_cases hjk : j = k
    · subst hjk
      simpa using hc rfl
    · simp [Ne.symm hjk]
  cases hm with
  | control | listenFails | finish | writeSlot | increment => exact .inl ⟨rfl, id⟩
  | accept => exact hupdate fun _ => .inr (.inl rfl)
  | @malloc a j i hl =>
    refine hupdate fun h => ?_
    subst h
    exact .inr (.inr ⟨i, hl, rfl⟩)
  | created | refuse | search | decrement | recv =>
    refine hupdate fun h => ?_
    subst h
    exact .inl ⟨rfl, id⟩
  | notCreated =>
    refine hupdate fun h => ?_
    subst h
    exact .inl ⟨rfl, fun hf => absurd hf (Nat.succ_ne_zero _)⟩
  | acptFunc =>
    refine hupdate fun h => ?_
    subst h
    unfold Client.log
    split_ifs <;> exact .inl ⟨rfl, id⟩
  | advance hs hd hc =>
    refine hupdate fun h => ?_
    subst h
    obtain ⟨hfd | hfd, hfrees⟩ := advance_fd hc
    · exact .inl ⟨hfd, fun hf => Nat.eq_zero_of_add_eq_zero_right (hfrees ▸ hf)⟩
    · exact .inr (.inl hfd)

theorem Numbered.waiting_move (h : Numbered s) (ht : Tracked s) (hm : Move σ s l t)
    (hhand : t.listener.hand = some k) (hadmits : t.listener.admits = none) :
    (t.clients k).closes = 0 := by
  -- a thread that runs is not that of a client in hand
  have hother : ∀ {j : ℕ} {c : Client}, (s.clients j).pc ≠ .absent →
      s.listener.hand = some k → s.listener.admits = none →
      (Function.update s.clients j c k).closes = 0 := by
    intro j c hj hk ha
    have hjk : k ≠ j := fun heq => hj (heq ▸ ht.waiting k hk ha)
    rw [Function.update_of_ne hjk]
    exact h.waiting k hk ha
  cases hm with
  | control hl hh hc => exact h.waiting k (hc.hand k hhand) hc.free
  | listenFails | finish | writeSlot | increment | refuse => simp at hhand
  | created | acptFunc => simp at hadmits
  | accept =>
    obtain rfl : s.accepted = k := by simpa using hhand
    simp [Client.absent]
  | @malloc a j i hl | @notCreated j i hl =>
    obtain rfl : j = k := by simpa using hhand
    simpa using h.waiting j (by simp [hl]) (by simp [hl])
  | search hpc | decrement hpc => exact hother (by simp [hpc]) hhand hadmits
  | advance hs hd hc => exact hother (advance_record hc).2.2.1 hhand hadmits
  | recv hpc => exact hother (by simp [hpc]) hhand hadmits

theorem Numbered.opened_move (h : Numbered s) (hm : Move σ s l t) (hl : Unheld s l)
    (hk : k < s.accepted) (hopen : (s.clients k).closes = 0) : Only t (s.clients k).sock k := by
  refine (h.opened k hk hopen).move hm ?_
  rintro rfl
  exact (hl (h.sock k hk) k hk).1 hopen rfl

theorem Numbered.user_move (h : Numbered s) (ht : Tracked s) (hm : Move σ s l t) (hl : Unheld s l)
    (hf : (s.clients k).frees = 0) (hfd : 0 ≤ (s.clients k).fd) : Only t (s.clients k).fd k := by
  refine (h.user k hf hfd).move hm ?_
  rintro rfl
  have hk : k < s.accepted := by
    by_contra hn
    simp [ht.absent k (not_lt.mp hn), Client.absent] at hfd
  exact (hl hfd k hk).2 hf rfl

theorem Numbered.move (h : Numbered s) (ht : Tracked s) (hm : Move σ s l t) (hl : Unheld s l) :
    Numbered t where
  sock j hj := by
    obtain hacc | ⟨fd, rfl, hfd, hacc, hnew⟩ := move_accepted hm
    · rw [(move_sock hm (hacc ▸ hj)).1]
      exact h.sock j (hacc ▸ hj)
    · by_cases hjn : j = s.accepted
      · subst hjn
        simpa [hnew] using hfd
      · have hlt : j < s.accepted := by omega
        rw [(move_sock hm hlt).1]
        exact h.sock j hlt
  opened k hk hopen := by
    have hold : k < s.accepted → Only t (t.clients k).sock k := by
      intro hlt
      obtain ⟨hsock, hle⟩ := move_sock hm hlt
      exact hsock ▸ h.opened_move hm hl hlt (Nat.le_zero.mp (hopen ▸ hle))
    obtain hacc | ⟨fd, rfl, hfd, hacc, hnew⟩ := move_accepted hm
    · exact hold (hacc ▸ hk)
    · by_cases hkn : k = s.accepted
      · subst hkn
        intro j hj hjopen hjsock
        by_contra hne
        have hlt : j < s.accepted := by omega
        obtain ⟨hsock, hle⟩ := move_sock hm hlt
        refine (hl hfd j hlt).1 (Nat.le_zero.mp (hjopen ▸ hle)) ?_
        simpa [hnew, hsock] using hjsock
      · exact hold (by omega)
  waiting k hk ha := h.waiting_move ht hm hk ha
  user k hf hfd := by
    obtain ⟨heq, hfrees⟩ | hneg | ⟨i, halloc, heq⟩ := move_fd hm k
    · rw [heq] at hfd ⊢
      exact h.user_move ht hm hl (hfrees hf) hfd
    · omega
    · rw [heq]
      exact h.opened_move hm hl (ht.hand k (by simp [halloc]))
        (h.waiting k (by simp [halloc]) (by simp [halloc]))

theorem numbered_init (σ : Setup) : Numbered (serverInit σ) where
  sock := by simp [serverInit]
  opened := by simp [serverInit]
  waiting := by simp [serverInit]
  user k _ hfd := by simp [serverInit, Client.absent] at hfd

end LibComm.Connections

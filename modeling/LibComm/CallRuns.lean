import LibComm.StreamServer

/-!
# The table calls as uninterrupted runs

`Table.acceptClient` and `Table.disconnectClient` run a call to completion;
the server executes the same calls statement by statement. When no other
thread moves in between, the statements leave the table as the call does.
-/

namespace LibComm.StreamServer
open ClientTable Interleaving

def Accepting (mem : Option ℕ) (thread : Bool) (l : Label) : Prop :=
  l = .listener ∨ l = .mallocReturns mem ∨ l = .createReturns thread

theorem chosen_run (σ : Setup) {s : State} {k : ℕ} (hs : s.listener = .capacity k)
    (hroom : s.table.userNum < s.table.maxUserNum) {i : Fin tcpUserNum}
    (hi : s.table.freeSlot = some i) :
    exec (step σ) s [.listener, .listener] = some (s.listen (.alloc k i)) := by
  simp [exec, step, listenStep, hs, not_le.mpr hroom, hi]

/-- `AcceptClient` without an interruption, given what `malloc` and `pthread_create` answer. -/
theorem accept_run (σ : Setup) {s : State} {k : ℕ} (hs : s.listener = .capacity k)
    {mem : Option ℕ} (hmem : ∀ a ∈ mem, s.Unused a) (thread : Bool) :
    ∃ ls t, (∀ l ∈ ls, Accepting mem thread l) ∧ exec (step σ) s ls = some t ∧
      t.table = (s.table.acceptClient (mem.map fun a => ⟨a, k⟩) thread).1 ∧
      (t.listener = .refuse k ∨ t.listener = .running) := by
  rcases le_or_gt s.table.maxUserNum s.table.userNum with hfull | hroom
  · refine ⟨[.listener], s.listen (.refuse k), by simp [Accepting], ?_, ?_, .inl rfl⟩
    · simp [exec, step, listenStep, hs, hfull]
    · rw [Table.acceptClient_full hfull]
      rfl
  cases hi : s.table.freeSlot with
  | none =>
    refine ⟨[.listener, .listener], s.listen (.refuse k), by simp [Accepting], ?_, ?_, .inl rfl⟩
    · simp [exec, step, listenStep, hs, not_le.mpr hroom, hi]
    · rw [Table.acceptClient_noSlot hroom hi]
      rfl
  | some i =>
    have hrun := chosen_run σ hs hroom hi
    rw [Table.acceptClient_room hroom hi]
    cases mem with
    | none =>
      refine ⟨[.listener, .listener] ++ [.mallocReturns none], s.listen (.refuse k),
        by simp [Accepting], exec_append.mpr ⟨_, hrun, ?_⟩, rfl, .inl rfl⟩
      simp [exec, step]
    | some a =>
      have hu : State.Unused { s with listener := .alloc k i } a := hmem a rfl
      cases thread with
      | false =>
        have hrest : (exec (step σ) (s.listen (.alloc k i))
            [.mallocReturns (some a), .createReturns false]).map
              (fun t => (t.table, t.listener)) = some (s.table, .refuse k) := by
          simp [exec, step, hu]
        obtain ⟨t, ht, he⟩ := Option.map_eq_some_iff.mp hrest
        obtain ⟨htable, hl⟩ := Prod.mk.inj he
        exact ⟨_, t, by simp [Accepting], exec_append.mpr ⟨_, hrun, ht⟩, htable, .inl hl⟩
      | true =>
        have hrest : (exec (step σ) (s.listen (.alloc k i))
            [.mallocReturns (some a), .createReturns true, .listener, .listener, .listener]).map
              (fun t => (t.table, t.listener)) =
                some ((s.table.setSlot i (some ⟨a, k⟩)).increment, .running) := by
          cases hacpt : σ.acptFunc <;> simp [exec, step, listenStep, hu, Client.log, hacpt]
        obtain ⟨t, ht, he⟩ := Option.map_eq_some_iff.mp hrest
        obtain ⟨htable, hl⟩ := Prod.mk.inj he
        exact ⟨_, t, by simp [Accepting], exec_append.mpr ⟨_, hrun, ht⟩, htable, .inr hl⟩

/-- The statements of `DisconnectClient` that touch the table, without an interruption. -/
theorem disconnect_run (σ : Setup) {s : State} {k : ℕ}
    (hs : (s.clients k).pc = .disconnect .search) :
    ∃ ls t, (∀ l ∈ ls, l = .thread k) ∧ exec (step σ) s ls = some t ∧
      t.table = s.table.disconnectClient (fun p => some p.addr == (s.clients k).record) ∧
      (t.clients k).pc = .disconnect .testFd := by
  cases hi : s.table.slotOf fun p => some p.addr == (s.clients k).record with
  | none =>
    have hsearch : s.search (s.clients k) = (s.table, .testFd) := by simp [State.search, hi]
    refine ⟨[.thread k], s.setClient k ((s.clients k).at (.disconnect .testFd)), by simp,
      ?_, ?_, ?_⟩
    · simp [exec, step, recvStep, hs, hsearch]
    · simp [Table.disconnectClient, hi]
    · simp
  | some i =>
    have hsearch : s.search (s.clients k) = (s.table.setSlot i none, .decrement) := by
      simp [State.search, hi]
    refine ⟨[.thread k, .thread k], (s.setTable (s.table.setSlot i none).decrement).setClient k
      ((s.clients k).at (.disconnect .testFd)), by simp, ?_, ?_, ?_⟩
    · simp [exec, step, recvStep, hs, hsearch]
    · simp [Table.disconnectClient_found hi]
    · simp

end LibComm.StreamServer

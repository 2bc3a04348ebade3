import LibComm.RecvTeardown

/-!
# Teardown with a join

UDP, IPC datagram and raw sockets with a receive callback, and UART devices,
have a receive task that leaves the descriptor to `Uninit`. `Uninit` cancels the
task, closes the descriptor under it, waits for it and only then frees the
context. What is still to be done is counted off the statements left of the
call: each of `close` and `free` stands there once until it has been done.
-/

namespace LibComm.JoinedTeardown
open Interleaving RecvTeardown

inductive Kind where
  | udpIpv4
  | udpIpv6
  | ipcDgram
  | raw
  | uart (waitTime : ℤ) (recvFunc : Bool)

def Kind.handle : Kind → Handle
  | .udpIpv4 => ⟨.leaving true, udpIpv4Uninit, true, false⟩
  | .udpIpv6 => ⟨.leaving true, udpIpv6Uninit, true, false⟩
  | .ipcDgram => ⟨.leaving false, ipcDgramUninit, true, false⟩
  | .raw => ⟨.leaving false, rawSockUninit, true, false⟩
  | .uart waitTime recvFunc => ⟨.uart waitTime, uartCloseDev, recvFunc, false⟩

structure Counted (s : State) : Prop where
  task : closingPc s.task = false
  closes : s.closes + s.uninit.count .close = 1
  frees : s.frees + s.uninit.count .free = 1
  fd : .close ∈ s.uninit → 0 < s.fd
  closed : 0 < s.closes → s.pending = true ∨ finished s.task = true
  freed : 0 < s.frees → finished s.task = true

variable {σ : Handle} {s t : State} {l : Label}

theorem Counted.move (hloop : σ.loop ≠ .closing) (hc : Counted s) (h : TaskMove σ s t) :
    Counted t := by
  have hlive := h.live
  have hclosed : 0 < s.closes → s.pending = true := fun hpos => by
    simpa [hlive] using hc.closed hpos
  have hfreed : ¬ 0 < s.frees := fun hpos => by
    have hover := hc.freed hpos
    simp [hlive] at hover
  have htask := hc.task
  cases h with
  | goto pc h =>
    refine ⟨?_, hc.closes, hc.frees, hc.fd, fun hpos => .inl (hclosed hpos),
      fun hpos => absurd hpos hfreed⟩
    by_contra hpc
    obtain hl | hs := h.closing (eq_true_of_ne_false hpc)
    · exact hloop hl
    · simp [htask] at hs
  | cancelled => exact ⟨rfl, hc.closes, hc.frees, hc.fd, fun _ => .inr rfl, fun _ => rfl⟩
  | close hpc | clearFd hpc => simp [hpc, closingPc] at htask
  | lost =>
    exact ⟨rfl, hc.closes, hc.frees, hc.fd, fun hpos => .inl (hclosed hpos),
      fun hpos => absurd hpos hfreed⟩
  | stop => exact ⟨rfl, hc.closes, hc.frees, hc.fd, fun _ => .inr rfl, fun _ => rfl⟩

theorem Counted.uninit (hloop : σ.loop ≠ .closing) (hb : Base σ s) (hj : Joined s)
    (hc : Counted s) (h : UninitMove σ s t) : Counted t := by
  obtain ⟨htask, hcloses, hfrees, hfd, hclosed, hfreed⟩ := hc
  cases h with
  | pass st rest hu hs =>
    have hclose : st ≠ .close := by
      intro heq
      obtain rfl := heq
      cases hs
    have hfree : st ≠ .free := by
      intro heq
      obtain rfl := heq
      cases hs
    rw [hu] at hcloses hfrees hfd
    exact ⟨htask, by simpa [hclose] using hcloses, by simpa [hfree] using hfrees,
      fun hmem => hfd (List.mem_cons_of_mem _ hmem), hclosed, hfreed⟩
  | skipRunning n rest hu =>
    have hat := (hb.cons hu).1
    simp [orderedAt, hloop] at hat
  | skipRecvFunc n rest hu hr => simp [hb.recvFunc hu] at hr
  | skipFd n rest hu hle =>
    -- the descriptor is still there, so the statements that close it are not skipped
    have hat := (hb.cons hu).1
    rw [hu] at hfd
    simp only [orderedAt, Bool.and_eq_true, List.contains_eq_mem, decide_eq_true_eq] at hat
    have hpos := hfd (List.mem_cons_of_mem _ hat.1.1)
    omega
  | cancel rest hu =>
    rw [hu] at hcloses hfrees hfd
    exact ⟨htask, by simpa using hcloses, by simpa using hfrees, by simpa using hfd,
      fun _ => .inl rfl, hfreed⟩
  | clearRunning rest hu | freeRecvNlHdr rest hu =>
    rw [hu] at hcloses hfrees hfd
    exact ⟨htask, by simpa using hcloses, by simpa using hfrees, by simpa using hfd, hclosed,
      hfreed⟩
  | close rest hu =>
    have hpos : 0 < s.fd := hfd (by simp [hu])
    have hdone := hb.pending hu (by simp) (by simp [orderedAt]; tauto)
    rw [hu] at hcloses hfrees
    have hone : s.closeFd.closes = s.closes + 1 := by
      simp only [State.closeFd]
      rw [if_pos (by omega)]
    have hrest : s.frees + rest.count .free = 1 := by simpa using hfrees
    refine ⟨htask, ?_, hrest, fun _ => hpos, fun _ => hdone, hfreed⟩
    simp only [List.count_cons_self] at hcloses
    show s.closeFd.closes + rest.count .close = 1
    omega
  | clearFd rest hu =>
    have hnot : .close ∉ rest := by
      simpa [orderedAt] using (Bool.and_eq_true_iff.mp (hb.cons hu).1).2
    rw [hu] at hcloses hfrees
    exact ⟨htask, by simpa using hcloses, by simpa using hfrees, fun hmem => absurd hmem hnot,
      hclosed, hfreed⟩
  | free rest hu =>
    have hover : finished s.task = true := by
      refine hj.resolve_left ?_
      simpa [hu, orderedAt] using (Bool.and_eq_true_iff.mp (hb.cons hu).1).2
    rw [hu] at hcloses hfrees hfd
    simp only [List.count_cons_self] at hfrees
    refine ⟨htask, by simpa using hcloses, ?_, by simpa using hfd, hclosed, fun _ => hover⟩
    show s.frees + 1 + rest.count .free = 1
    omega

structure Safe (σ : Handle) (s : State) : Prop where
  base : Base σ s
  joined : Joined s
  counted : Counted s

theorem Safe.step (hloop : σ.loop ≠ .closing) (hs : Safe σ s) (h : step σ s l = some t) :
    Safe σ t := by
  refine ⟨hs.base.step h, hs.joined.step hs.base h, ?_⟩
  cases step_move h with
  | uninit hm => exact hs.counted.uninit hloop hs.base hs.joined hm
  | setDumpFlag flag => exact { hs.counted with }
  | task _ hm => exact hs.counted.move hloop hm

theorem Safe.start (k : Kind) {fd : ℤ} (hfd : 0 < fd) : Safe k.handle (start k.handle fd) := by
  have hbase : Base k.handle (RecvTeardown.start k.handle fd) := by
    cases k <;> exact base_start _ rfl (by simp [Kind.handle, udpIpv4Uninit, udpIpv6Uninit,
      ipcDgramUninit, rawSockUninit, uartCloseDev])
  cases k <;> exact ⟨hbase, .inl (by simp [RecvTeardown.start, Kind.handle, udpIpv4Uninit,
    udpIpv6Uninit, ipcDgramUninit, rawSockUninit, uartCloseDev]), rfl, rfl, rfl, fun _ => hfd,
    fun hpos => absurd hpos (lt_irrefl 0), fun hpos => absurd hpos (lt_irrefl 0)⟩

theorem loop_ne_closing (k : Kind) : k.handle.loop ≠ .closing := by
  cases k <;> simp [Kind.handle]

/-- In every order of the steps the context is freed at most once and only when the task has
ended, the descriptor is closed at most once and nothing is received on it after that; once
`Uninit` has returned both have been done and the task has ended; and `Uninit` can always go on to
its end. -/
theorem joined_teardown (k : Kind) {fd : ℤ} (hfd : 0 < fd) {ls : List Label} {s : State}
    (h : exec (step k.handle) (RecvTeardown.start k.handle fd) ls = some s) :
    s.closes ≤ 1 ∧ s.frees ≤ 1 ∧
      (0 < s.frees → finished s.task = true) ∧
      (0 < s.closes → ∀ len again, step k.handle s (.recvReturns len again) = none) ∧
      (s.uninit = [] → s.closes = 1 ∧ s.frees = 1 ∧ finished s.task = true) ∧
      ∃ ls u, exec (step k.handle) s ls = some u ∧ u.uninit = [] := by
  obtain ⟨hb, hj, hc⟩ : Safe k.handle s :=
    exec_invariant (fun _ _ _ hs ht => hs.step (loop_ne_closing k) ht) (.start k hfd) h
  have hcloses := hc.closes
  have hfrees := hc.frees
  refine ⟨by omega, by omega, hc.freed, fun hpos len again => ?_, fun hu => ?_, uninit_ends hb⟩
  · by_contra hne
    obtain ⟨t, ht⟩ := Option.ne_none_iff_exists'.mp hne
    simp only [step, Option.ite_none_right_eq_some] at ht
    have hdone := hc.closed hpos
    simp [ht.1, finished] at hdone
  · rw [hu] at hcloses hfrees
    exact ⟨by simpa using hcloses, by simpa using hfrees, hj.resolve_left (by simp [hu])⟩

def inCallback : List Label :=
  [.task, .task, .task, .recvReturns 5 false, .task, .task, .task] ++ List.replicate 7 .uninit ++
    [.task, .task, .task] ++ List.replicate 2 .uninit

theorem joined_teardown_inCallback : ∃ s : State, s.uninit = [] ∧
    s.closes ≤ 1 ∧ s.frees ≤ 1 ∧
      (0 < s.frees → finished s.task = true) ∧
      (0 < s.closes → ∀ len again, step Kind.udpIpv4.handle s (.recvReturns len again) = none) ∧
      (s.uninit = [] → s.closes = 1 ∧ s.frees = 1 ∧ finished s.task = true) ∧
      ∃ ls u, exec (step Kind.udpIpv4.handle) s ls = some u ∧ u.uninit = [] := by
  have hrun : (exec (step Kind.udpIpv4.handle) (RecvTeardown.start Kind.udpIpv4.handle 3)
      inCallback).map State.uninit = some [] := by
    decide
  obtain ⟨s, hs, he⟩ := Option.map_eq_some_iff.mp hrun
  exact ⟨s, he, joined_teardown .udpIpv4 (by decide) hs⟩

end LibComm.JoinedTeardown

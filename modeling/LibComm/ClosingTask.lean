import LibComm.ClientTable
import LibComm.RecvTeardown

/-!
# Receive tasks that close their descriptor

The tasks of the stream clients, of netlink handles and of read FIFOs close the
descriptor when the other end is gone, and store -1 over it in a second
statement. `Uninit` closes it too if it does not find -1. The clients free
their context without a join, and netlink frees its message buffers before it.

The conditions on the steps of `Uninit` say when the two sides do not meet.
-/

namespace LibComm.ClosingTask
open Interleaving RecvTeardown

def clientUninit : ClientTable.Kind → List Stmt
  | .tcpIpv4 => tcpIpv4ClientUninit
  | .tcpIpv6 => tcpIpv6ClientUninit
  | .ipcStream => ipcStreamClientUninit

def client (k : ClientTable.Kind) (recvFunc exitFunc : Bool) : Handle :=
  ⟨.closing, clientUninit k, recvFunc, exitFunc⟩

inductive Kind where
  | netlink
  | fifoRead

def Kind.uninit : Kind → List Stmt
  | .netlink => netlinkUninit
  | .fifoRead => fifoReadUninit

def Kind.handle (k : Kind) (recvFunc exitFunc : Bool) : Handle :=
  ⟨.closing, k.uninit, recvFunc, exitFunc⟩

def usesContext (s : State) : Label → Bool
  | .task =>
    match s.task with
    | .loop | .callRecv | .dumping | .dispatch | .callback | .lost => true
    | .close | .clearFd | .exitFunc | .stop => true
    | .dump => s.dumpFlag
    | .testcancel | .recv | .received | .tail | .eagain | .usleep | .eagainEnd | .exitCall => false
    | .ended | .cancelled => false
  | .recvReturns _ _ => true
  | .cancelled | .uninit | .setDumpFlag _ => false

/-- The task has a message in its buffer that it still has to dump or to hand over. -/
def holdsMessage (σ : Handle) (s : State) : Bool :=
  match s.task with
  | .dump => s.dumpFlag || σ.recvFunc
  | .dispatch => σ.recvFunc
  | .dumping | .callback => true
  | _ => false

def usesBuffer (σ : Handle) (s : State) : Label → Bool
  | .task =>
    match s.task with
    | .dump => s.dumpFlag
    | .dispatch => σ.recvFunc
    | .dumping | .callback => true
    | _ => false
  | .recvReturns _ _ => true
  | .cancelled | .uninit | .setDumpFlag _ => false

/-- `Uninit` does not close the descriptor between `close` and `fd = -1` of the task. -/
def ClosesApart (s : State) : Label → Prop
  | .uninit => s.uninit.head? = some .close → s.task ≠ .clearFd
  | _ => True

/-- When the context is freed, the task is over or its next step ends it. -/
def FreesQuiet (s : State) : Label → Prop
  | .uninit => s.uninit.head? = some .free →
      finished s.task = true ∨ s.pending = true ∧ parked s.task = true
  | _ => True

/-- The receive buffer is not freed while the task has a message in it, and once it is freed the
dump flag is not switched on in front of a task that is about to test it. -/
def FreesUnused (σ : Handle) (s : State) : Label → Prop
  | .uninit => s.uninit.head? = some .freeRecvNlHdr → holdsMessage σ s = false
  | .setDumpFlag flag => s.bufferFreed = true ∧ s.task = .dump → flag = false
  | _ => True

instance (s : State) : (l : Label) → Decidable (ClosesApart s l)
  | .uninit => inferInstanceAs (Decidable (_ → _))
  | .task | .recvReturns _ _ | .cancelled | .setDumpFlag _ => .isTrue trivial

instance (s : State) : (l : Label) → Decidable (FreesQuiet s l)
  | .uninit => inferInstanceAs (Decidable (_ → _))
  | .task | .recvReturns _ _ | .cancelled | .setDumpFlag _ => .isTrue trivial

instance (σ : Handle) (s : State) : (l : Label) → Decidable (FreesUnused σ s l)
  | .uninit | .setDumpFlag _ => inferInstanceAs (Decidable (_ → _))
  | .task | .recvReturns _ _ | .cancelled => .isTrue trivial

variable {σ : Handle} {s t : State} {l : Label}

structure Closes (s : State) : Prop where
  once : s.closes ≤ 1
  opened : 0 ≤ s.fd → s.task ≠ .clearFd → s.uninit.head? ≠ some .clearFd → s.closes = 0

theorem Closes.closeFd (h : 0 ≤ s.fd → s.closes = 0) (ho : s.closes ≤ 1) :
    s.closeFd.closes ≤ 1 := by
  by_cases hfd : 0 ≤ s.fd
  · simp [State.closeFd, hfd, h hfd]
  · simpa [State.closeFd, hfd] using ho

theorem Closes.move (hb : Base σ s) (hc : Closes s) (h : TaskMove σ s t) : Closes t := by
  have hlive := h.live
  cases h with
  | goto pc h => exact ⟨hc.once, fun hfd _ hu => hc.opened hfd h.notClearFd.1 hu⟩
  | cancelled _ hs => exact ⟨hc.once, fun hfd _ hu => hc.opened hfd hs.2 hu⟩
  | close hpc hp =>
    -- the uninit call has not closed it either, as the cancellation would be pending then
    have hhead : s.uninit.head? ≠ some .clearFd := by
      intro hhead
      obtain ⟨rest, hu⟩ := List.head?_eq_some_iff.mp hhead
      have hdone := hb.pending hu (by simp) (by simp [orderedAt]; tauto)
      simp [hp, hlive] at hdone
    exact ⟨Closes.closeFd (fun hfd => hc.opened hfd (by simp [hpc]) hhead) hc.once,
      fun _ hne => absurd rfl hne⟩
  | clearFd => exact ⟨hc.once, fun hfd => absurd hfd (by simp [State.goto])⟩
  | lost hpc | stop hpc => exact ⟨hc.once, fun hfd _ hu => hc.opened hfd (by simp [hpc]) hu⟩

theorem Closes.uninit (hloop : σ.loop = .closing) (hb : Base σ s) (hc : Closes s)
    (h : UninitMove σ s t) (hg : ClosesApart s .uninit) : Closes t := by
  cases h with
  | pass st rest hu hs =>
    refine ⟨hc.once, fun hfd htask _ => hc.opened hfd htask ?_⟩
    rw [hu]
    intro hx
    cases hx
    cases hs
  | skipRunning n rest hu | skipRecvFunc n rest hu | skipFd n rest hu | cancel rest hu
  | clearRunning rest hu | freeRecvNlHdr rest hu | free rest hu =>
    exact ⟨hc.once, fun hfd htask _ => hc.opened hfd htask (by simp [hu])⟩
  | close rest hu =>
    have hnot : 0 ≤ s.fd → s.closes = 0 := fun hfd =>
      hc.opened hfd (hg (by simp [hu])) (by simp [hu])
    have hhead : rest.head? = some .clearFd := by
      have hat := (hb.cons hu).1
      simp only [orderedAt, hloop, Bool.and_eq_true] at hat
      simpa using hat.2
    exact ⟨Closes.closeFd hnot hc.once, fun _ _ hne => absurd hhead hne⟩
  | clearFd rest hu => exact ⟨hc.once, fun hfd => absurd hfd (by simp)⟩

theorem Closes.step (hloop : σ.loop = .closing) (hb : Base σ s) (hc : Closes s)
    (hg : ClosesApart s l) (h : step σ s l = some t) : Closes t := by
  cases step_move h with
  | uninit hm => exact hc.uninit hloop hb hm hg
  | setDumpFlag flag => exact ⟨hc.once, hc.opened⟩
  | task _ hm => exact hc.move hb hm

def Freed (s : State) : Prop :=
  0 < s.frees → finished s.task = true ∨ s.pending = true ∧ parked s.task = true

def Unheld (σ : Handle) (s : State) : Prop :=
  s.bufferFreed = true →
    (s.pending = true ∨ finished s.task = true) ∧ holdsMessage σ s = false

theorem Freed.move (hf : Freed s) (h : TaskMove σ s t) : Freed t := by
  intro hpos
  have hlive := h.live
  rw [h.frame.2.2.1] at hpos
  obtain ⟨hp, hparked⟩ : s.pending = true ∧ parked s.task = true := by
    simpa [hlive] using hf hpos
  cases h with
  | goto pc h => simp [h.notParked hp] at hparked
  | cancelled => exact .inl rfl
  | close hpc | clearFd hpc | lost hpc | stop hpc => simp [hpc, parked] at hparked

theorem Freed.uninit (hf : Freed s) (h : UninitMove σ s t) (hg : FreesQuiet s .uninit) :
    Freed t := by
  cases h with
  | pass | skipRunning | skipRecvFunc | skipFd | clearRunning | close | clearFd | freeRecvNlHdr =>
    exact hf
  | cancel rest hu => exact fun hpos => (hf hpos).imp_right fun h => ⟨rfl, h.2⟩
  | free rest hu => exact fun _ => hg (by simp [hu])

theorem Freed.step (hf : Freed s) (hg : FreesQuiet s l) (h : step σ s l = some t) :
    Freed t := by
  cases step_move h with
  | uninit hm => exact hf.uninit hm hg
  | setDumpFlag flag => exact hf
  | task _ hm => exact hf.move hm

theorem Unheld.move (hu : Unheld σ s) (h : TaskMove σ s t) : Unheld σ t := by
  intro hfreed
  have hlive := h.live
  obtain ⟨-, hpending, -, hbuffer⟩ := h.frame
  obtain ⟨hp, hheld⟩ := hu (hbuffer ▸ hfreed)
  have hp : s.pending = true := by simpa [hlive] using hp
  refine ⟨.inl (hpending ▸ hp), ?_⟩
  cases h with
  | goto pc h =>
    -- no other message is reached with the cancellation pending
    cases pc with
    | dump => simp [h.dump rfl] at hp
    | dumping =>
      obtain ⟨hpc, hflag⟩ := h.dumping rfl
      simp [holdsMessage, hpc, hflag] at hheld
    | dispatch =>
      obtain hpc | hpc := h.dispatch rfl
      · simp only [holdsMessage, hpc, Bool.or_eq_false_iff] at hheld
        exact hheld.2
      · simp [holdsMessage, hpc] at hheld
    | callback =>
      obtain ⟨hpc, hrecv⟩ := h.callback rfl
      simp [holdsMessage, hpc, hrecv] at hheld
    | _ => rfl
  | cancelled | close | clearFd | lost | stop => rfl

theorem Unheld.uninit (hb : Base σ s) (hn : Unheld σ s) (h : UninitMove σ s t)
    (hg : FreesUnused σ s .uninit) : Unheld σ t := by
  cases h with
  | pass | skipRunning | skipRecvFunc | skipFd | clearRunning | close | clearFd | free => exact hn
  | cancel rest hu => exact fun hfreed => ⟨.inl rfl, (hn hfreed).2⟩
  | freeRecvNlHdr rest hu =>
    exact fun _ => ⟨hb.pending hu (by simp) (by simp [orderedAt]), hg (by simp [hu])⟩

theorem Unheld.setDumpFlag (hn : Unheld σ s) {flag : Bool}
    (hg : FreesUnused σ s (.setDumpFlag flag)) : Unheld σ { s with dumpFlag := flag } := by
  intro hfreed
  obtain ⟨hp, hheld⟩ := hn hfreed
  refine ⟨hp, ?_⟩
  cases hpc : s.task with
  | dump =>
    simp only [holdsMessage, hpc, Bool.or_eq_false_iff] at hheld ⊢
    exact ⟨hg ⟨hfreed, hpc⟩, hheld.2⟩
  | _ => simp_all [holdsMessage]

theorem Unheld.step (hb : Base σ s) (hn : Unheld σ s) (hg : FreesUnused σ s l)
    (h : step σ s l = some t) : Unheld σ t := by
  cases step_move h with
  | uninit hm => exact hn.uninit hb hm hg
  | setDumpFlag flag => exact hn.setDumpFlag hg
  | task _ hm => exact hn.move hm

theorem usesContext_of_freed (hf : Freed s) (hpos : 0 < s.frees) (h : step σ s l = some t) :
    usesContext s l = false := by
  obtain hover | ⟨hp, hparked⟩ := hf hpos
  · cases step_move h with
    | uninit | setDumpFlag => rfl
    | task _ hm => simp [hm.live] at hover
  · cases l with
    | task =>
      simp only [usesContext]
      split <;> simp_all [parked]
    | recvReturns len again => simp [step, hp] at h
    | cancelled | uninit | setDumpFlag => rfl

theorem usesBuffer_of_unheld (hn : Unheld σ s) (hfreed : s.bufferFreed = true)
    (h : step σ s l = some t) : usesBuffer σ s l = false := by
  obtain ⟨hp, hheld⟩ := hn hfreed
  cases l with
  | task =>
    unfold holdsMessage at hheld
    unfold usesBuffer
    split at hheld <;> simp_all
  | recvReturns len again =>
    simp only [step, Option.ite_none_right_eq_some] at h
    simp [h.1, finished] at hp
  | cancelled | uninit | setDumpFlag => rfl

section Clients

variable {k : ClientTable.Kind} {recvFunc exitFunc : Bool} {fd : ℤ}

theorem base_client :
    Base (client k recvFunc exitFunc) (start (client k recvFunc exitFunc) fd) := by
  cases k <;> exact base_start _ rfl (by simp [client, clientUninit, tcpIpv4ClientUninit,
    tcpIpv6ClientUninit, ipcStreamClientUninit])

/-- In every order of the steps in which `Uninit` closes and frees apart from the task, the
descriptor is closed at most once, and the task does not use the context once it is freed. -/
theorem clients_outlive (k : ClientTable.Kind) (recvFunc exitFunc : Bool) (fd : ℤ) {ls : List Label}
    {s : State}
    (ho : Obeys (step (client k recvFunc exitFunc)) (fun s l => ClosesApart s l ∧ FreesQuiet s l)
      (start (client k recvFunc exitFunc) fd) ls)
    (h : exec (step (client k recvFunc exitFunc)) (start (client k recvFunc exitFunc) fd) ls =
      some s) :
    s.closes ≤ 1 ∧ (0 < s.frees → ∀ l t, step (client k recvFunc exitFunc) s l = some t →
      usesContext s l = false) := by
  have hinv : Base (client k recvFunc exitFunc) s ∧ Closes s ∧ Freed s := by
    refine invariant (I := fun s => Base (client k recvFunc exitFunc) s ∧ Closes s ∧ Freed s)
      ?_ ⟨base_client, ⟨Nat.zero_le _, fun _ _ _ => rfl⟩, fun hpos => absurd hpos (lt_irrefl 0)⟩
      ho h
    intro s l t hx hy ht
    obtain ⟨hb, hc, hf⟩ := hx
    obtain ⟨hapart, hquiet⟩ := hy
    exact ⟨hb.step ht, hc.step rfl hb hapart ht, hf.step hquiet ht⟩
  exact ⟨hinv.2.1.once, fun hpos l t => usesContext_of_freed hinv.2.2 hpos⟩

def peerGone : List Label := [.task, .task, .task, .recvReturns 0 false, .task]

def uninitAll (σ : Handle) : List Label := List.replicate σ.uninit.length .uninit

theorem clients_outlive_fails :
    (¬ ∃ k recvFunc exitFunc, ∀ (ls : List Label) (s : State),
      exec (step (client k recvFunc exitFunc)) (start (client k recvFunc exitFunc) 3) ls = some s →
      s.closes ≤ 1) ∧
    ¬ ∃ k recvFunc exitFunc, ∀ (ls : List Label) (s : State),
      exec (step (client k recvFunc exitFunc)) (start (client k recvFunc exitFunc) 3) ls = some s →
      0 < s.frees → ∀ l t, step (client k recvFunc exitFunc) s l = some t →
        usesContext s l = false := by
  have hrun : ∀ k recvFunc exitFunc, (exec (step (client k recvFunc exitFunc))
      (start (client k recvFunc exitFunc) 3)
        (peerGone ++ uninitAll (client k recvFunc exitFunc))).map
          (fun s => (s.closes, s.frees, s.task)) = some (2, 1, .clearFd) := by
    intro k recvFunc exitFunc
    cases k <;> cases recvFunc <;> cases exitFunc <;> decide
  constructor
  · intro hx
    obtain ⟨k, recvFunc, exitFunc, hclaim⟩ := hx
    obtain ⟨s, hs, he⟩ := Option.map_eq_some_iff.mp (hrun k recvFunc exitFunc)
    have hone := hclaim _ s hs
    simp only [Prod.mk.injEq] at he
    omega
  · intro hx
    obtain ⟨k, recvFunc, exitFunc, hclaim⟩ := hx
    obtain ⟨s, hs, he⟩ := Option.map_eq_some_iff.mp (hrun k recvFunc exitFunc)
    simp only [Prod.mk.injEq] at he
    obtain ⟨-, hfrees, htask⟩ := he
    obtain ⟨t, ht⟩ : ∃ t, step (client k recvFunc exitFunc) s .task = some t := by
      simp [step, taskStep, htask]
    have huse := hclaim _ s hs (by omega) .task t ht
    simp [usesContext, htask] at huse

def parkedRun : List Label :=
  [.setDumpFlag true, .task, .task, .task, .recvReturns 5 false, .task, .task, .task, .task, .task,
    .task, .task, .task] ++ uninitAll (client .tcpIpv4 true true) ++ [.task]

theorem clients_outlive_parked : ∃ s : State, (s.frees = 1 ∧ s.task = .cancelled) ∧
    s.closes ≤ 1 ∧ (0 < s.frees → ∀ l t, step (client .tcpIpv4 true true) s l = some t →
      usesContext s l = false) := by
  have hrun : (exec (step (client .tcpIpv4 true true)) (start (client .tcpIpv4 true true) 3)
      parkedRun).map (fun s => (s.frees, s.task)) = some (1, .cancelled) := by
    decide
  obtain ⟨s, hs, he⟩ := Option.map_eq_some_iff.mp hrun
  exact ⟨s, Prod.mk.inj he, clients_outlive .tcpIpv4 true true 3 (by decide) hs⟩

end Clients

section NetlinkAndFifo

variable {k : Kind} {recvFunc exitFunc : Bool} {fd : ℤ}

theorem base_handle :
    Base (k.handle recvFunc exitFunc) (start (k.handle recvFunc exitFunc) fd) := by
  cases k <;> exact base_start _ rfl (by simp [Kind.handle, Kind.uninit, netlinkUninit,
    fifoReadUninit])

theorem freesQuiet_of_joined (hb : Base σ s) (hj : Joined s) (l : Label) : FreesQuiet s l := by
  cases l with
  | uninit =>
    intro hhead
    obtain ⟨rest, hu⟩ := List.head?_eq_some_iff.mp hhead
    refine .inl (hj.resolve_left ?_)
    simpa [hu, orderedAt] using (Bool.and_eq_true_iff.mp (hb.cons hu).1).2
  | task | recvReturns | cancelled | setDumpFlag => trivial

/-- In every order of the steps in which `Uninit` closes the descriptor and frees the receive
buffer apart from the task, the descriptor is closed at most once, and the task uses neither the
buffer nor the context once it is freed. -/
theorem handles_outlive (k : Kind) (recvFunc exitFunc : Bool) (fd : ℤ) {ls : List Label} {s : State}
    (ho : Obeys (step (k.handle recvFunc exitFunc))
      (fun s l => ClosesApart s l ∧ FreesUnused (k.handle recvFunc exitFunc) s l)
      (start (k.handle recvFunc exitFunc) fd) ls)
    (h : exec (step (k.handle recvFunc exitFunc)) (start (k.handle recvFunc exitFunc) fd) ls =
      some s) :
    s.closes ≤ 1 ∧
      (s.bufferFreed = true → ∀ l t, step (k.handle recvFunc exitFunc) s l = some t →
        usesBuffer (k.handle recvFunc exitFunc) s l = false) ∧
      (0 < s.frees → ∀ l t, step (k.handle recvFunc exitFunc) s l = some t →
        usesContext s l = false) := by
  set σ := k.handle recvFunc exitFunc with hσ
  have hjoin : Joined (start σ fd) := by
    rw [hσ]
    cases k <;> exact .inl (by simp [start, Kind.handle, Kind.uninit, netlinkUninit,
      fifoReadUninit])
  have hinv : Base σ s ∧ Joined s ∧ Closes s ∧ Freed s ∧ Unheld σ s := by
    refine invariant (I := fun s => Base σ s ∧ Joined s ∧ Closes s ∧ Freed s ∧ Unheld σ s) ?_
      ⟨base_handle, hjoin, ⟨Nat.zero_le _, fun _ _ _ => rfl⟩, fun hpos => absurd hpos (lt_irrefl 0),
        fun hfreed => by cases hfreed⟩ ho h
    intro s l t hx hy ht
    obtain ⟨hb, hj, hc, hf, hn⟩ := hx
    obtain ⟨hapart, hunused⟩ := hy
    exact ⟨hb.step ht, hj.step hb ht, hc.step rfl hb hapart ht,
      hf.step (freesQuiet_of_joined hb hj l) ht, hn.step hb hunused ht⟩
  obtain ⟨-, -, hc, hf, hn⟩ := hinv
  exact ⟨hc.once, fun hfreed l t => usesBuffer_of_unheld hn hfreed,
    fun hpos l t => usesContext_of_freed hf hpos⟩

def inCallback : List Label := [.task, .task, .task, .recvReturns 40 false, .task, .task, .task]

def inDump : List Label :=
  [.setDumpFlag true, .task, .task, .task, .recvReturns 40 false, .task]

theorem handles_outlive_fails :
    (¬ ∃ k recvFunc exitFunc, ∀ (ls : List Label) (s : State),
      exec (step (Kind.handle k recvFunc exitFunc)) (start (Kind.handle k recvFunc exitFunc) 3) ls =
        some s → s.closes ≤ 1) ∧
    (¬ ∃ exitFunc, ∀ (ls : List Label) (s : State), (∀ flag, .setDumpFlag flag ∉ ls) →
      exec (step (Kind.netlink.handle true exitFunc)) (start (Kind.netlink.handle true exitFunc) 3)
        ls = some s →
      s.bufferFreed = true → ∀ l t, step (Kind.netlink.handle true exitFunc) s l = some t →
        usesBuffer (Kind.netlink.handle true exitFunc) s l = false) ∧
    ¬ ∃ recvFunc exitFunc, ∀ (ls : List Label) (s : State),
      exec (step (Kind.netlink.handle recvFunc exitFunc))
        (start (Kind.netlink.handle recvFunc exitFunc) 3) ls = some s →
      s.bufferFreed = true → ∀ l t, step (Kind.netlink.handle recvFunc exitFunc) s l = some t →
        usesBuffer (Kind.netlink.handle recvFunc exitFunc) s l = false := by
  refine ⟨?_, ?_, ?_⟩
  · intro hx
    obtain ⟨k, recvFunc, exitFunc, hclaim⟩ := hx
    have hrun : (exec (step (k.handle recvFunc exitFunc)) (start (k.handle recvFunc exitFunc) 3)
        (peerGone ++ List.replicate 5 .uninit)).map State.closes = some 2 := by
      cases k <;> cases recvFunc <;> cases exitFunc <;> decide
    obtain ⟨s, hs, he⟩ := Option.map_eq_some_iff.mp hrun
    have hone := hclaim _ s hs
    omega
  · intro hx
    obtain ⟨exitFunc, hclaim⟩ := hx
    have hrun : (exec (step (Kind.netlink.handle true exitFunc))
        (start (Kind.netlink.handle true exitFunc) 3)
          (inCallback ++ List.replicate 7 .uninit)).map
            (fun s => (s.bufferFreed, s.task)) = some (true, .callback) := by
      cases exitFunc <;> decide
    obtain ⟨s, hs, he⟩ := Option.map_eq_some_iff.mp hrun
    obtain ⟨hfreed, htask⟩ := Prod.mk.inj he
    obtain ⟨t, ht⟩ : ∃ t, step (Kind.netlink.handle true exitFunc) s .task = some t := by
      simp [step, taskStep, htask]
    have huse := hclaim _ s (by simp [inCallback]) hs hfreed .task t ht
    simp [usesBuffer, htask] at huse
  · intro hx
    obtain ⟨recvFunc, exitFunc, hclaim⟩ := hx
    have hrun : (exec (step (Kind.netlink.handle recvFunc exitFunc))
        (start (Kind.netlink.handle recvFunc exitFunc) 3)
          (inDump ++ List.replicate 7 .uninit)).map
            (fun s => (s.bufferFreed, s.task, s.dumpFlag)) = some (true, .dump, true) := by
      cases recvFunc <;> cases exitFunc <;> decide
    obtain ⟨s, hs, he⟩ := Option.map_eq_some_iff.mp hrun
    simp only [Prod.mk.injEq] at he
    obtain ⟨hfreed, htask, hflag⟩ := he
    obtain ⟨t, ht⟩ : ∃ t, step (Kind.netlink.handle recvFunc exitFunc) s .task = some t := by
      simp [step, taskStep, htask]
    have huse := hclaim _ s hs hfreed .task t ht
    simp [usesBuffer, htask, hflag] at huse

def quietRun : List Label :=
  inCallback ++ [.task, .task, .task, .task] ++ List.replicate 7 .uninit ++ [.task] ++
    List.replicate 2 .uninit

theorem handles_outlive_quiet : ∃ s : State, (s.bufferFreed = true ∧ s.frees = 1) ∧
    s.closes ≤ 1 ∧
      (s.bufferFreed = true → ∀ l t, step (Kind.netlink.handle true true) s l = some t →
        usesBuffer (Kind.netlink.handle true true) s l = false) ∧
      (0 < s.frees → ∀ l t, step (Kind.netlink.handle true true) s l = some t →
        usesContext s l = false) := by
  have hrun : (exec (step (Kind.netlink.handle true true)) (start (Kind.netlink.handle true true) 3)
      quietRun).map (fun s => (s.bufferFreed, s.frees)) = some (true, 1) := by
    decide
  obtain ⟨s, hs, he⟩ := Option.map_eq_some_iff.mp hrun
  exact ⟨s, Prod.mk.inj he, handles_outlive .netlink true true 3 (by decide) hs⟩

end NetlinkAndFifo

end LibComm.ClosingTask

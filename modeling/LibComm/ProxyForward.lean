import LibComm.ProxyPipe
import LibComm.ProxyTcp

/-!
# The pointers that the forwarding callbacks hold

A receive callback reads the pointer of the other side from the mapping and
sends on it in a later step. In between the other side may free what the
pointer names: `proxy_connectIpc` and `proxy_disconnectIpc` free the old client
while `ipcStreamHandle` still names it, and the receive thread of a TCP client
frees the user some steps after it has cleared `pTcpUser`.
-/

namespace LibComm.Proxy
open ClientTable Interleaving

def TcpPc.holds : TcpPc → Option Ptr
  | .send h => h
  | _ => none

def IpcPc.holds : IpcPc → Option Ptr
  | .testUser u => u
  | .send p => some p
  | _ => none

namespace Tcp

structure Live (s : Tcp) (p : Ptr) : Prop where
  addr : (s.clients p.id).addr = p.addr
  held : (s.clients p.id).freed = false
  admitted : p.id < s.accepted

variable {s t : Tcp} {k : ℕ} {handle : Option Ptr} {p : Ptr}

theorem OneClient.live {cur : Option ℕ} (h : s.OneClient cur) (hp : s.pTcpUser = some p) :
    s.Live p := by
  obtain ⟨-, ha, hf⟩ := h.consistent.user p hp
  have hn := h.now
  cases cur with
  | none => exact absurd (hn.user.symm.trans hp) nofun
  | some i =>
    rw [hn.user, Option.ite_none_right_eq_some] at hp
    obtain rfl := Option.some.inj hp.2
    exact ⟨ha, hf, h.admitted (TcpPc.ne_absent hn.counted)⟩

theorem thread_client (h : s.threadStep handle k = some t) :
    ∃ c, t.clients = Function.update s.clients k c ∧ t.accepted = s.accepted ∧
      c.addr = (s.clients k).addr ∧ ((s.clients k).pc ≠ .free → c.freed = (s.clients k).freed) ∧
      (c.pc.holds = none ∨ (s.clients k).pc = .readHandle ∧ c.pc.holds = handle) := by
  cases hpc : (s.clients k).pc with
  | absent | recv | ended | cancelled => simp [threadStep, hpc] at h
  | loop | testFd =>
    simp only [threadStep, hpc, Option.some.injEq] at h
    subst h
    refine ⟨_, rfl, rfl, rfl, fun _ => rfl, .inl ?_⟩
    split <;> rfl
  | readHandle =>
    simp only [threadStep, hpc, Option.some.injEq] at h
    subst h
    exact ⟨_, rfl, rfl, rfl, fun _ => rfl, .inr ⟨rfl, rfl⟩⟩
  | send | close | clearFd | exitFunc | decrement =>
    simp only [threadStep, hpc, Option.some.injEq] at h
    subst h
    exact ⟨_, rfl, rfl, rfl, fun _ => rfl, .inl rfl⟩
  | search =>
    simp only [threadStep, hpc] at h
    split at h
    · obtain rfl := Option.some.inj h
      exact ⟨_, rfl, rfl, rfl, fun _ => rfl, .inl rfl⟩
    · obtain rfl := Option.some.inj h
      exact ⟨_, rfl, rfl, rfl, fun _ => rfl, .inl rfl⟩
  | free =>
    simp only [threadStep, hpc, Option.some.injEq] at h
    subst h
    exact ⟨_, rfl, rfl, rfl, fun hne => absurd rfl hne, .inl rfl⟩

theorem accept_client (fd : ℤ) (mem : Option ℕ) (thread : Bool) :
    s.acceptClient fd mem thread = s ∨ ∃ a,
      (s.acceptClient fd mem thread).clients =
        Function.update s.clients s.accepted ⟨a, fd, .loop, false⟩ ∧
      (s.acceptClient fd mem thread).accepted = s.accepted + 1 := by
  rcases s.table.acceptClient_cases (mem.map fun a => ⟨a, s.accepted⟩) thread with
    ⟨e, he, -, -⟩ | ⟨q, i, -, -, -, he⟩
  · exact .inl (acceptClient_error he)
  · rw [acceptClient_ok he]
    exact .inr ⟨q.addr, rfl, rfl⟩

theorem holds_step {l : TcpLabel} (h : s.step handle l = some t)
    (hp : (t.clients k).pc.holds = some p) :
    (s.clients k).pc.holds = some p ∨
      l = .thread k ∧ (s.clients k).pc = .readHandle ∧ handle = some p := by
  cases l with
  | accept fd mem thread =>
    simp only [step, Option.ite_none_right_eq_some, Option.some.injEq] at h
    obtain ⟨-, rfl⟩ := h
    rcases s.accept_client fd mem thread with he | ⟨a, hc, -⟩
    · rw [he] at hp
      exact .inl hp
    · rw [hc] at hp
      by_cases hk : k = s.accepted
      · rw [hk, Function.update_self] at hp
        cases hp
      · rw [Function.update_of_ne hk] at hp
        exact .inl hp
  | thread i =>
    obtain ⟨c, hc, -, -, -, hh⟩ := thread_client h
    rw [hc] at hp
    by_cases hk : k = i
    · subst hk
      rw [Function.update_self] at hp
      rcases hh with hh | ⟨hpc, hh⟩
      · exact absurd (hp.symm.trans hh) (Option.some_ne_none p)
      · exact .inr ⟨rfl, hpc, hh.symm.trans hp⟩
    · rw [Function.update_of_ne hk] at hp
      exact .inl hp
  | recvReturns i len =>
    simp only [step, Option.ite_none_right_eq_some, Option.some.injEq] at h
    obtain ⟨hpc, rfl⟩ := h
    by_cases hk : k = i
    · subst hk
      have hnone : (if len ≤ 0 then TcpPc.close else .readHandle).holds = none := by
        split <;> rfl
      rw [goto, setClient_clients, Function.update_self] at hp
      exact absurd (hp.symm.trans hnone) (Option.some_ne_none p)
    · rw [goto, setClient_clients, Function.update_of_ne hk] at hp
      exact .inl hp

theorem Live.update (hp : s.Live p) {c : TcpClient} (hc : t.clients = Function.update s.clients k c)
    (ht : s.accepted ≤ t.accepted) (ha : c.addr = (s.clients k).addr)
    (hf : p.id = k → c.freed = (s.clients k).freed) : t.Live p := by
  by_cases hk : p.id = k
  · refine ⟨?_, ?_, hp.admitted.trans_le ht⟩
    · rw [hc, hk, Function.update_self, ha, ← hk, hp.addr]
    · rw [hc, hk, Function.update_self, hf hk, ← hk, hp.held]
  · refine ⟨?_, ?_, hp.admitted.trans_le ht⟩
    · rw [hc, Function.update_of_ne hk, hp.addr]
    · rw [hc, Function.update_of_ne hk, hp.held]

theorem live_step {l : TcpLabel} (h : s.step handle l = some t) (hp : s.Live p)
    (hg : ∀ k, l = .thread k → (s.clients k).pc = .free → p ≠ s.ptr k) : t.Live p := by
  cases l with
  | accept fd mem thread =>
    simp only [step, Option.ite_none_right_eq_some, Option.some.injEq] at h
    obtain ⟨-, rfl⟩ := h
    rcases s.accept_client fd mem thread with he | ⟨a, hc, ha⟩
    · rw [he]
      exact hp
    · have hk : p.id ≠ s.accepted := hp.admitted.ne
      refine ⟨?_, ?_, ?_⟩
      · rw [hc, Function.update_of_ne hk, hp.addr]
      · rw [hc, Function.update_of_ne hk, hp.held]
      · rw [ha]
        exact hp.admitted.trans (Nat.lt_succ_self _)
  | thread k =>
    obtain ⟨c, hc, ht, ha, hf, -⟩ := thread_client h
    apply hp.update hc ht.ge ha
    intro heq
    obtain rfl := heq
    apply hf
    intro hpc
    exact hg _ rfl hpc (by rw [ptr, hp.addr])
  | recvReturns k len =>
    simp only [step, Option.ite_none_right_eq_some, Option.some.injEq] at h
    obtain ⟨-, rfl⟩ := h
    exact hp.update (t := s.goto k _) rfl le_rfl rfl fun _ => rfl

end Tcp

namespace Ipc
variable {s t : Ipc} {j : ℕ} {user : Option Ptr} {p : Ptr}

def freeing (s : Ipc) : Option Ptr :=
  match s.main with
  | .free p _ => some p
  | _ => none

/-- Between the free of the client that the handle names and the next assignment. -/
def stale (s : Ipc) : Bool :=
  match s.main with
  | .init | .setHandle _ | .clearHandle => s.ipcStreamHandle.isSome
  | _ => false

theorem Named.live (h : s.Named) (hs : s.stale = false) (hp : s.ipcStreamHandle = some p) :
    s.Live p := by
  cases hm : s.main with
  | init | setHandle | clearHandle => simp [stale, hm, hp] at hs
  | cancel q next | close q next | free q next =>
    obtain ⟨hq, hlive⟩ := h.of_main hm
    obtain rfl := Option.some.inj (hq.symm.trans hp)
    exact hlive
  | access | connect | create => exact (h.of_main hm p hp).1
  | idle | testHandle | setConnect | clearConnect => exact h.of_main hm p hp

theorem task_holds (h : s.taskStep user j = some t) (hp : (t.tasks j).pc.holds = some p) :
    (s.tasks j).pc.holds = some p ∨ user = some p := by
  cases hpc : (s.tasks j).pc with
  | absent | ended | cancelled => simp [taskStep, hpc] at h
  | recv =>
    simp only [taskStep, hpc, Option.ite_none_right_eq_some, Option.some.injEq] at h
    obtain ⟨-, rfl⟩ := h
    simp [goto, setTask, IpcPc.holds] at hp
  | loop | testcancel | received | send | close =>
    simp only [taskStep, hpc, Option.some.injEq] at h
    subst h
    simp only [goto, setTask, Function.update_self] at hp
    split at hp <;> cases hp
  | readUser =>
    simp only [taskStep, hpc, Option.some.injEq] at h
    subst h
    right
    simpa [goto, setTask, IpcPc.holds] using hp
  | testUser u =>
    simp only [taskStep, hpc, Option.some.injEq] at h
    subst h
    left
    cases u with
    | none => simp [goto, setTask, IpcPc.holds] at hp
    | some q => simpa [goto, setTask, IpcPc.holds] using hp
  | clearFd | exitFunc | stop =>
    simp only [taskStep, hpc, Option.some.injEq] at h
    subst h
    simp [goto, setTask, IpcPc.holds] at hp

theorem holds_setTask {i : ℕ} {c : IpcTask} (hc : c.pc.holds = none ∨ c.pc = (s.tasks i).pc)
    (hp : ((s.setTask i c).tasks j).pc.holds = some p) : (s.tasks j).pc.holds = some p := by
  by_cases hj : j = i
  · subst hj
    simp only [setTask, Function.update_self] at hp
    obtain hc | hc := hc
    · exact absurd (hp.symm.trans hc) (Option.some_ne_none p)
    · rwa [← hc]
  · simpa [setTask, hj] using hp

theorem holds_cancelTask {q : Ptr} (hp : ((s.cancelTask q).tasks j).pc.holds = some p) :
    (s.tasks j).pc.holds = some p := by
  simp only [cancelTask] at hp
  split at hp
  · exact holds_setTask (c := { s.tasks (s.memory q.addr).id with pending := true }) (.inr rfl) hp
  · exact hp

theorem closeFd_tasks (q : Ptr) : (s.closeFd q).tasks = s.tasks := by
  simp only [closeFd]
  split <;> rfl

theorem holds_step {l : IpcLabel} (h : s.step user l = some t)
    (hp : (t.tasks j).pc.holds = some p) : (s.tasks j).pc.holds = some p ∨ user = some p := by
  cases step_move h with
  | cancel => exact .inl (holds_cancelTask hp)
  | close =>
    left
    rw [← closeFd_tasks]
    exact hp
  | init => exact .inl (holds_setTask (s := s.setContext _ _) (.inl rfl) hp)
  | create => exact .inl (holds_setTask (.inl rfl) hp)
  | @task i t h =>
    by_cases hj : j = i
    · subst hj
      exact task_holds h hp
    · rw [(frame_task h).tasks j hj] at hp
      exact .inl hp
  | recv =>
    refine .inl (holds_setTask (.inl ?_) hp)
    split <;> rfl
  | connectIpc | disconnectNone | disconnectIpc | testNone | testHandle | free | setNone | setHandle
  | setConnect | clearHandle | clearConnect | initFails | accessFails | access | connectFails
  | connect | createNone | createFails => exact .inl hp

theorem Live.unique {q : Ptr} (hp : s.Live p) (hq : s.Live q) (ha : p.addr = q.addr) : p = q := by
  have hid : p.id = q.id := hp.2.symm.trans (ha ▸ hq.2)
  cases p
  cases q
  simp_all

theorem live_step {l : IpcLabel} (h : s.step user l = some t) (hn : s.Named) (hp : s.Live p)
    (hg : l = .main → s.freeing ≠ some p) : t.Live p := by
  cases step_move h with
  | cancel => exact live_cancelTask.mpr hp
  | close => exact live_closeFd.mpr hp
  | @free q next hm pc hpc =>
    -- two pointers to cells in use with one address are the same
    have hne : p.addr ≠ q.addr := by
      intro ha
      apply hg rfl
      simp [freeing, hm, hp.unique (hn.of_main hm).2 ha]
    simpa [Live, setContext, gotoMain, hne] using hp
  | @init a fd hm hfd hu =>
    have hne : p.addr ≠ a := by
      intro ha
      rw [← ha, hp.1] at hu
      cases hu
    simpa [Live, setTask, setContext, gotoMain, hne] using hp
  | connect | createFails => exact live_setRunning.mpr hp
  | task h => exact (frame_task h).live hp
  | connectIpc | disconnectNone | disconnectIpc | testNone | testHandle | setNone | setHandle
  | setConnect | clearHandle | clearConnect | initFails | accessFails | access | connectFails
  | createNone | create | recv => exact hp

def Numbered (s : Ipc) : Prop := ∀ i, s.made ≤ i → (s.tasks i).pc = .absent

theorem Numbered.setTask {i : ℕ} {c : IpcTask} (hs : s.Numbered)
    (hi : i < s.made ∨ c.pc = (s.tasks i).pc) : (s.setTask i c).Numbered := by
  intro k hk
  by_cases hki : k = i
  · subst hki
    obtain hi | hi := hi
    · exact absurd hk (not_le.mpr hi)
    · simpa [Ipc.setTask, hi] using hs k hk
  · simpa [Ipc.setTask, hki] using hs k hk

theorem Numbered.frame (hs : s.Numbered) (h : Frame s t j) : t.Numbered := by
  intro i hi
  rw [h.made] at hi
  have hij : i ≠ j := fun e => h.moved (e ▸ hs i hi)
  rw [h.tasks i hij, hs i hi]

theorem numbered_step {l : IpcLabel} (h : s.step user l = some t) (hn : s.Named)
    (hs : s.Numbered) : t.Numbered := by
  cases step_move h with
  | @cancel q next hm =>
    simp only [cancelTask]
    split
    · exact hs.setTask (c := { s.tasks (s.memory q.addr).id with pending := true }) (.inr rfl)
    · exact hs
  | close =>
    simp only [closeFd]
    split <;> exact hs
  | init =>
    intro i hi
    have hlt : s.made < i := hi
    simpa [Ipc.setTask, setContext, gotoMain, hlt.ne'] using hs i hlt.le
  | @create p hm hh =>
    obtain ⟨⟨-, hid⟩, -, hlt⟩ := hn.of_main hm p hh
    exact hs.setTask (.inl (hid ▸ hlt))
  | task h => exact hs.frame (frame_task h)
  | recv hpc => exact hs.frame (frame_recv hpc _)
  | connectIpc | disconnectNone | disconnectIpc | testNone | testHandle | free | setNone | setHandle
  | setConnect | clearHandle | clearConnect | initFails | accessFails | access | connectFails
  | connect | createNone | createFails => exact hs

end Ipc

structure Held (s : State) : Prop where
  tcp : ∀ k p, (s.tcp.clients k).pc.holds = some p → s.ipc.Live p
  ipc : ∀ j p, (s.ipc.tasks j).pc.holds = some p → s.tcp.Live p

/-- No step takes what the other side holds, and no handle is read while it is stale. -/
def Careful (s : State) : Label → Prop
  | .tcp (.accept fd mem thread) => OpenFd s (.tcp (.accept fd mem thread))
  | .tcp (.thread k) =>
    ((s.tcp.clients k).pc = .readHandle → s.ipc.stale = false) ∧
      ((s.tcp.clients k).pc = .free →
        ∀ j < s.ipc.made, (s.ipc.tasks j).pc.holds ≠ some (s.tcp.ptr k))
  | .ipc .main => ∀ p ∈ s.ipc.freeing, ∀ k < s.tcp.accepted, (s.tcp.clients k).pc.holds ≠ some p
  | _ => True

theorem held_step {s t : State} {l : Label} {cur : Option ℕ} (hc : s.tcp.OneClient cur)
    (hn : s.ipc.Named) (hm : s.ipc.Numbered) (hs : Held s) (hg : Careful s l)
    (h : step s l = some t) : Held t := by
  cases l with
  | tcp l =>
    obtain ⟨u, hu, rfl⟩ := Option.map_eq_some_iff.mp h
    constructor
    case tcp =>
      intro k p hp
      rcases Tcp.holds_step hu hp with hp | ⟨rfl, hpc, hh⟩
      · exact hs.tcp k p hp
      · exact hn.live (hg.1 hpc) hh
    case ipc =>
      intro j p hp
      -- `Careful` looks at the tasks made so far, and others hold nothing
      have hj : j < s.ipc.made := by
        by_contra hj
        have ha := hm j (not_lt.mp hj)
        rw [ha] at hp
        cases hp
      apply Tcp.live_step hu (hs.ipc j p hp)
      intro k heq hpc hx
      obtain rfl := heq
      obtain rfl := hx
      exact hg.2 hpc j hj hp
  | ipc l =>
    obtain ⟨u, hu, rfl⟩ := Option.map_eq_some_iff.mp h
    constructor
    case tcp =>
      intro k p hp
      have hk : k < s.tcp.accepted := by
        apply hc.admitted
        intro ha
        rw [ha] at hp
        cases hp
      apply Ipc.live_step hu hn (hs.tcp k p hp)
      intro heq hf
      obtain rfl := heq
      exact hg p hf k hk hp
    case ipc =>
      intro j p hp
      rcases Ipc.holds_step hu hp with hp | hp
      · exact hs.ipc j p hp
      · exact hc.live hp

/-- A send uses a client, or a user, that has not been freed. -/
def SendsOnLive (s : State) : Prop :=
  (∀ k p, (s.tcp.clients k).pc = .send (some p) → s.ipc.Live p) ∧
    ∀ j p, (s.ipc.tasks j).pc = .send p → s.tcp.Live p

instance (s : State) (l : Label) : Decidable (Careful s l) :=
  match l with
  | .tcp (.accept _ _ _) => inferInstanceAs (Decidable (_ ≠ _ → _ < _))
  | .tcp (.thread _) => inferInstanceAs (Decidable ((_ → _) ∧ (_ → ∀ j < s.ipc.made, _)))
  | .tcp (.recvReturns _ _) => .isTrue trivial
  | .ipc .main => inferInstanceAs (Decidable (∀ p ∈ s.ipc.freeing, ∀ k < s.tcp.accepted, _))
  | .ipc .connectIpc => .isTrue trivial
  | .ipc .disconnectIpc => .isTrue trivial
  | .ipc (.initReturns _) => .isTrue trivial
  | .ipc (.accessReturns _) => .isTrue trivial
  | .ipc (.connectReturns _) => .isTrue trivial
  | .ipc (.createReturns _) => .isTrue trivial
  | .ipc (.task _) => .isTrue trivial
  | .ipc (.recvReturns _ _) => .isTrue trivial

theorem Careful.openFd {s : State} {l : Label} (h : Careful s l) : OpenFd s l := by
  cases l with
  | tcp l =>
    cases l with
    | accept fd mem thread => exact h
    | thread k => trivial
    | recvReturns k len => trivial
  | ipc l => trivial

theorem numbered_keeps {s t : State} {l : Label} (hn : s.ipc.Named) (hs : s.ipc.Numbered)
    (ht : step s l = some t) : t.ipc.Numbered := by
  apply (step_keeps (I := fun _ => True) (J := fun c => c.Named → c.Numbered) ht _ _
    ⟨trivial, fun _ => hs⟩).2 (named_keeps hn ht)
  · intros
    trivial
  · intro l u heq hs' hu _
    obtain rfl := heq
    exact Ipc.numbered_step hu hn hs

theorem held_exec {ls : List Label} {s : State} (ho : Obeys step Careful start ls)
    (h : exec step start ls = some s) : Held s := by
  have hkeep : ∀ (s : State) (l : Label) (t : State),
      ((∃ cur, s.tcp.OneClient cur) ∧ s.ipc.Named ∧ s.ipc.Numbered ∧ Held s) → Careful s l →
      step s l = some t →
      (∃ cur, t.tcp.OneClient cur) ∧ t.ipc.Named ∧ t.ipc.Numbered ∧ Held t := by
    intro s l t hx hg ht
    obtain ⟨⟨cur, hc⟩, hn, hm, hs⟩ := hx
    exact ⟨oneClient_step ⟨cur, hc⟩ hg.openFd ht, named_keeps hn ht, numbered_keeps hn hm ht,
      held_step hc hn hm hs hg ht⟩
  have hstart : (∃ cur, start.tcp.OneClient cur) ∧ start.ipc.Named ∧ start.ipc.Numbered ∧
      Held start :=
    ⟨⟨none, Tcp.oneClient_start⟩, named_start, fun _ _ => rfl, ⟨nofun, nofun⟩⟩
  exact (invariant (I := fun s : State => (∃ cur, s.tcp.OneClient cur) ∧ s.ipc.Named ∧
    s.ipc.Numbered ∧ Held s) hkeep hstart ho h).2.2.2

/-- In a run whose steps are careful every send is on a live peer. -/
theorem forward_live {ls : List Label} {s : State} (ho : Obeys step Careful start ls)
    (h : exec step start ls = some s) : SendsOnLive s := by
  have hs := held_exec ho h
  constructor
  · intro k p hp
    apply hs.tcp k p
    rw [hp]
    rfl
  · intro j p hp
    apply hs.ipc j p
    rw [hp]
    rfl

def bothConnected : List Label :=
  [.ipc .connectIpc, .ipc .main, .ipc (.initReturns (some (100, 5))), .ipc .main,
    .ipc (.accessReturns true), .ipc (.connectReturns true), .ipc (.createReturns true),
    .ipc .main, .tcp (.accept 4 (some 300) true), .tcp (.thread 0), .ipc (.task 0), .ipc (.task 0)]

def freedHandle : List Label :=
  bothConnected ++ [.tcp (.recvReturns 0 9), .tcp (.thread 0), .ipc (.recvReturns 0 0),
    .ipc (.task 0), .ipc (.task 0), .ipc (.task 0), .ipc (.task 0), .ipc .connectIpc,
    .ipc .main, .ipc .main, .ipc .main, .ipc .main]

def freedUser : List Label :=
  bothConnected ++ [.ipc (.recvReturns 0 9), .ipc (.task 0), .ipc (.task 0), .ipc (.task 0),
    .tcp (.recvReturns 0 0), .tcp (.thread 0), .tcp (.thread 0), .tcp (.thread 0),
    .tcp (.thread 0), .tcp (.thread 0), .tcp (.thread 0), .tcp (.thread 0)]

theorem forward_live_fails :
    (¬ ∀ (ls : List Label) (s : State), exec step start ls = some s →
      ∀ k p, (s.tcp.clients k).pc = .send (some p) → s.ipc.Live p) ∧
    ¬ ∀ (ls : List Label) (s : State), exec step start ls = some s →
      ∀ j p, (s.ipc.tasks j).pc = .send p → s.tcp.Live p := by
  constructor
  · intro hclaim
    have hrun : (exec step start freedHandle).map
        (fun s => ((s.tcp.clients 0).pc, (s.ipc.memory 100).inUse)) =
          some (.send (some ⟨100, 0⟩), false) := by
      decide +kernel
    obtain ⟨s, hs, he⟩ := Option.map_eq_some_iff.mp hrun
    obtain ⟨hpc, hu⟩ := Prod.mk.inj he
    have hlive := (hclaim freedHandle s hs 0 _ hpc).1
    exact absurd (hu.symm.trans hlive) nofun
  · intro hclaim
    have hrun : (exec step start freedUser).map
        (fun s => ((s.ipc.tasks 0).pc, (s.tcp.clients 0).freed)) =
          some (.send ⟨300, 0⟩, true) := by
      decide +kernel
    obtain ⟨s, hs, he⟩ := Option.map_eq_some_iff.mp hrun
    obtain ⟨hpc, hf⟩ := Prod.mk.inj he
    have hheld := (hclaim freedUser s hs 0 _ hpc).held
    exact absurd (hf.symm.trans hheld) nofun

def forward : List Label :=
  bothConnected ++ [.tcp (.recvReturns 0 9), .tcp (.thread 0), .tcp (.thread 0),
    .ipc (.recvReturns 0 0), .ipc (.task 0), .ipc (.task 0), .ipc (.task 0), .ipc (.task 0),
    .ipc .connectIpc, .ipc .main, .ipc .main, .ipc .main, .ipc .main,
    .ipc (.initReturns (some (100, 5))), .ipc .main, .ipc (.accessReturns true),
    .ipc (.connectReturns true), .ipc (.createReturns true), .ipc .main,
    .tcp (.thread 0), .tcp (.recvReturns 0 9), .tcp (.thread 0),
    .ipc (.task 1), .ipc (.task 1), .ipc (.recvReturns 1 9), .ipc (.task 1), .ipc (.task 1),
    .ipc (.task 1)]

theorem forward_live_forward : ∃ s : State, (s.tcp.clients 0).pc = .send (some ⟨100, 1⟩) ∧
    (s.ipc.tasks 1).pc = .send ⟨300, 0⟩ ∧ SendsOnLive s := by
  have hrun : (exec step start forward).map
      (fun s => ((s.tcp.clients 0).pc, (s.ipc.tasks 1).pc)) =
        some (.send (some ⟨100, 1⟩), .send ⟨300, 0⟩) := by
    decide +kernel
  obtain ⟨s, hs, he⟩ := Option.map_eq_some_iff.mp hrun
  obtain ⟨ht, hi⟩ := Prod.mk.inj he
  exact ⟨s, ht, hi, forward_live (by decide +kernel) hs⟩

end LibComm.Proxy

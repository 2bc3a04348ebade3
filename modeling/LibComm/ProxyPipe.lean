import LibComm.Proxy

/-!
# The pipe flag of a mapping

`proxy_connectIpc` starts the receive task inside the connect call and sets
`pipeConnect` after it; the exit callback of the task clears the flag. Between
two connects the flag and the task agree unless the task is through with its
exit callback before the flag is set, or a task that is past its callback
writes `running = 0` into a context that has become the next client's.
-/

namespace LibComm.Proxy
open ClientTable Interleaving

def IpcPc.active : IpcPc → Bool
  | .absent | .stop | .ended | .cancelled => false
  | _ => true

def IpcPc.leaving : IpcPc → Bool
  | .close | .clearFd | .exitFunc => true
  | _ => false

namespace Ipc

def Live (s : Ipc) (p : Ptr) : Prop :=
  (s.memory p.addr).inUse = true ∧ (s.memory p.addr).id = p.id

def Unstarted (s : Ipc) (p : Ptr) : Prop :=
  s.Live p ∧ (s.tasks p.id).pc = .absent ∧ p.id < s.made

/-- What `ipcStreamHandle` names while the main thread is at this statement. Between the free of
the old client and the assignment it may name nothing that is in use. -/
def NamedAt (s : Ipc) : MainPc → Prop
  | .cancel p _ | .close p _ | .free p _ => s.ipcStreamHandle = some p ∧ s.Live p
  | .init | .setHandle none | .clearHandle => True
  | .setHandle (some p) => s.Unstarted p
  | .access | .connect | .create => ∀ p, s.ipcStreamHandle = some p → s.Unstarted p
  | .idle | .testHandle | .setConnect _ | .clearConnect =>
    ∀ p, s.ipcStreamHandle = some p → s.Live p

def Named (s : Ipc) : Prop := s.NamedAt s.main

structure Frame (s t : Ipc) (j : ℕ) : Prop where
  main : t.main = s.main
  handle : t.ipcStreamHandle = s.ipcStreamHandle
  made : t.made = s.made
  memory : ∀ a, (t.memory a).inUse = (s.memory a).inUse ∧ (t.memory a).id = (s.memory a).id
  tasks : ∀ i, i ≠ j → t.tasks i = s.tasks i
  moved : (s.tasks j).pc ≠ .absent

variable {s t : Ipc} {j : ℕ} {user : Option Ptr}

theorem Named.of_main (h : s.Named) {pc : MainPc} (hm : s.main = pc) : s.NamedAt pc := by
  rw [← hm]
  exact h

theorem frame_goto (h : (s.tasks j).pc ≠ .absent) (pc : IpcPc) : Frame s (s.goto j pc) j where
  main := rfl
  handle := rfl
  made := rfl
  memory _ := ⟨rfl, rfl⟩
  tasks _ hi := Function.update_of_ne hi _ _
  moved := h

theorem frame_task (h : s.taskStep user j = some t) : Frame s t j := by
  have hm : (s.tasks j).pc ≠ .absent := fun hpc => by simp [taskStep, hpc] at h
  cases hpc : (s.tasks j).pc with
  | absent | ended | cancelled => simp [taskStep, hpc] at h
  | loop | testcancel | received | readUser | testUser u | send p | close =>
    simp only [taskStep, hpc, Option.some.injEq] at h
    exact h ▸ frame_goto hm _
  | recv =>
    simp only [taskStep, hpc, Option.ite_none_right_eq_some, Option.some.injEq] at h
    exact h.2 ▸ frame_goto hm _
  | exitFunc =>
    simp only [taskStep, hpc, Option.some.injEq] at h
    subst h
    exact ⟨rfl, rfl, rfl, fun _ => ⟨rfl, rfl⟩, fun _ hi => Function.update_of_ne hi _ _, hm⟩
  | clearFd | stop =>
    simp only [taskStep, hpc, Option.some.injEq] at h
    subst h
    refine ⟨rfl, rfl, rfl, fun a => ?_, fun _ hi => Function.update_of_ne hi _ _, hm⟩
    by_cases ha : a = (s.tasks j).addr
    · simp [ha, goto, setTask, setRunning, setContext]
    · simp [ha, goto, setTask, setRunning, setContext]

theorem frame_recv (hpc : (s.tasks j).pc = .recv) (pc : IpcPc) : Frame s (s.goto j pc) j :=
  frame_goto (fun ha => absurd (hpc.symm.trans ha) (by decide)) pc

theorem Frame.live (h : Frame s t j) {p : Ptr} (hp : s.Live p) : t.Live p := by
  obtain ⟨hu, hi⟩ := h.memory p.addr
  exact ⟨hu.trans hp.1, hi.trans hp.2⟩

theorem Frame.unstarted (h : Frame s t j) {p : Ptr} (hp : s.Unstarted p) : t.Unstarted p := by
  obtain ⟨hlive, hpc, hlt⟩ := hp
  have hj : p.id ≠ j := fun e => h.moved (e ▸ hpc)
  exact ⟨h.live hlive, by rw [h.tasks _ hj, hpc], h.made ▸ hlt⟩

theorem Frame.named (h : Frame s t j) (hs : s.Named) : t.Named := by
  unfold Named
  rw [h.main]
  have hn : s.NamedAt s.main := hs
  cases hm : s.main with
  | cancel p next | close p next | free p next =>
    rw [hm] at hn
    exact ⟨h.handle.trans hn.1, h.live hn.2⟩
  | init | clearHandle => trivial
  | setHandle p =>
    rw [hm] at hn
    cases p with
    | none => trivial
    | some p => exact h.unstarted hn
  | access | connect | create =>
    rw [hm] at hn
    exact fun p hp => h.unstarted (hn p (h.handle.symm.trans hp))
  | idle | testHandle | setConnect ok | clearConnect =>
    rw [hm] at hn
    exact fun p hp => h.live (hn p (h.handle.symm.trans hp))

theorem live_setContext {p : Ptr} {a : ℕ} {c : Context} (hu : c.inUse = (s.memory a).inUse)
    (hi : c.id = (s.memory a).id) : (s.setContext a c).Live p ↔ s.Live p := by
  by_cases ha : p.addr = a
  · simp [Live, setContext, ha, hu, hi]
  · simp [Live, setContext, ha]

@[simp] theorem live_setRunning {p : Ptr} {a : ℕ} {b : Bool} :
    (s.setRunning a b).Live p ↔ s.Live p := live_setContext rfl rfl

@[simp] theorem live_cancelTask {p q : Ptr} : (s.cancelTask q).Live p ↔ s.Live p := by
  simp only [cancelTask]
  split
  · exact live_setRunning
  · rfl

@[simp] theorem live_closeFd {p q : Ptr} : (s.closeFd q).Live p ↔ s.Live p := by
  simp only [closeFd]
  split
  · exact live_setContext rfl rfl
  · rfl

@[simp] theorem cancelTask_handle (p : Ptr) :
    (s.cancelTask p).ipcStreamHandle = s.ipcStreamHandle := by
  simp only [cancelTask]
  split <;> rfl

@[simp] theorem closeFd_handle (p : Ptr) : (s.closeFd p).ipcStreamHandle = s.ipcStreamHandle := by
  simp only [closeFd]
  split <;> rfl

theorem named_step (hs : s.Named) {l : IpcLabel} (h : s.step user l = some t) : t.Named := by
  cases step_move h with
  | connectIpc hm hf => exact hs.of_main hm
  | disconnectNone | testNone | initFails => trivial
  | free hm hpc => obtain ⟨-, rfl⟩ | ⟨-, rfl⟩ := hpc <;> trivial
  | disconnectIpc hm hh => exact ⟨hh, hs.of_main hm _ hh⟩
  | testHandle hm hh => exact ⟨hh, hs.of_main hm _ hh⟩
  | cancel hm =>
    have hn := hs.of_main hm
    exact ⟨(cancelTask_handle _).trans hn.1, live_cancelTask.mpr hn.2⟩
  | close hm =>
    have hn := hs.of_main hm
    exact ⟨(closeFd_handle _).trans hn.1, live_closeFd.mpr hn.2⟩
  | setNone | clearHandle => exact fun q hq => nomatch hq
  | setHandle hm =>
    intro q hq
    obtain rfl := Option.some.inj hq
    exact hs.of_main hm
  | setConnect hm => exact hs.of_main hm
  | clearConnect hm => exact hs.of_main hm
  | init => exact ⟨by simp [Live, setContext, setTask, gotoMain], by simp [setTask, gotoMain],
      by simp [gotoMain]⟩
  | accessFails hm => exact fun p hp => (hs.of_main hm p hp).1
  | access hm => exact hs.of_main hm
  | connectFails hm => exact fun p hp => (hs.of_main hm p hp).1
  | connect hm hh =>
    intro p hp
    obtain ⟨hlive, hrest⟩ := hs.of_main hm p hp
    exact ⟨live_setRunning.mpr hlive, hrest⟩
  | createNone hm hh => exact fun p hp => (hs.of_main hm p hp).1
  | createFails hm hh => exact fun p hp => live_setRunning.mpr (hs.of_main hm p hp).1
  | create hm hh => exact fun p hp => (hs.of_main hm p hp).1
  | task h => exact (frame_task h).named hs
  | recv hpc hp => exact (frame_recv hpc _).named hs

def Quiet (s : Ipc) : Prop := ∀ i, (s.tasks i).pc.active = false

def Down (s : Ipc) : Prop := s.pipeConnect = false ∧ s.Quiet

/-- The task of client `p` serves it, and no other task will run its exit callback. -/
structure Serves (s : Ipc) (p : Ptr) : Prop where
  running : (s.memory p.addr).running = true
  addr : (s.tasks p.id).addr = p.addr
  pending : (s.tasks p.id).pending = false
  active : (s.tasks p.id).pc.active = true
  fd : (s.tasks p.id).pc ≠ .exitFunc → 0 ≤ (s.memory p.addr).fd
  alone : ∀ i, i ≠ p.id → (s.tasks i).pc.active = false

def Up (s : Ipc) : Prop := ∃ p, s.ipcStreamHandle = some p ∧ s.Serves p

def Dialled (s : Ipc) : Prop := ∃ p, s.ipcStreamHandle = some p ∧
  (s.memory p.addr).running = true ∧ 0 ≤ (s.memory p.addr).fd

def SteadyAt (s : Ipc) : MainPc → Prop
  | .idle => s.pipeConnect = true ∧ s.Up ∨ s.Down
  | .setConnect true => s.pipeConnect = false ∧ s.Up
  | .create => s.Down ∧ s.Dialled
  | .cancel _ .disconnectIpc | .close _ .disconnectIpc | .free _ .disconnectIpc => False
  | .clearHandle | .clearConnect => False
  | _ => s.Down

def Steady (s : Ipc) : Prop := s.SteadyAt s.main

/-- A task does not run its exit callback between its creation and the assignment of the flag,
and does not write `running` into a context that has become a later, running client's. -/
def Orderly (s : Ipc) (j : ℕ) : Prop :=
  ((s.tasks j).pc = .exitFunc → s.main ≠ .setConnect true) ∧
    ((s.tasks j).pc = .stop → (s.memory (s.tasks j).addr).id = j ∨
      (s.memory (s.tasks j).addr).running = false)

theorem Steady.of_main (h : s.Steady) {pc : MainPc} (hm : s.main = pc) : s.SteadyAt pc := by
  rw [← hm]
  exact h

theorem Steady.up_or_down (h : s.Steady) :
    (s.main = .idle ∧ s.pipeConnect = true ∨ s.main = .setConnect true ∧ s.pipeConnect = false) ∧
      s.Up ∨ s.Down := by
  cases hm : s.main with
  | idle =>
    rcases h.of_main hm with ⟨hf, hu⟩ | hd
    · exact .inl ⟨.inl ⟨rfl, hf⟩, hu⟩
    · exact .inr hd
  | setConnect ok =>
    have hs := h.of_main hm
    cases ok with
    | false => exact .inr hs
    | true => exact .inl ⟨.inr ⟨rfl, hs.1⟩, hs.2⟩
  | create => exact .inr (h.of_main hm).1
  | clearHandle | clearConnect => exact (h.of_main hm).elim
  | cancel p next | close p next | free p next =>
    have hs := h.of_main hm
    cases next with
    | connectIpc => exact .inr hs
    | disconnectIpc => exact hs.elim
  | testHandle | init | setHandle p | access | connect => exact .inr (h.of_main hm)

theorem Steady.up (h : s.Steady) (hj : (s.tasks j).pc.active = true) :
    (∃ p, s.ipcStreamHandle = some p ∧ p.id = j ∧ s.Serves p) ∧
      (s.main = .idle ∧ s.pipeConnect = true ∨
        s.main = .setConnect true ∧ s.pipeConnect = false) := by
  rcases h.up_or_down with ⟨hm, p, hp, hv⟩ | hd
  · refine ⟨⟨p, hp, ?_, hv⟩, hm⟩
    by_contra hne
    exact absurd (hv.alone j (Ne.symm hne)) (by rw [hj]; decide)
  · exact absurd (hd.2 j) (by rw [hj]; decide)

theorem Steady.of_up (h : s.main = .idle ∧ s.pipeConnect = true ∨
    s.main = .setConnect true ∧ s.pipeConnect = false) (hu : s.Up) : s.Steady := by
  unfold Steady
  obtain ⟨hm, hf⟩ | ⟨hm, hf⟩ := h
  · rw [hm]
    exact .inl ⟨hf, hu⟩
  · rw [hm]
    exact ⟨hf, hu⟩

theorem Serves.goto {p : Ptr} (h : s.Serves p) {pc : IpcPc}
    (hc : (s.tasks p.id).pc ≠ .exitFunc) (hp : pc.active = true) : (s.goto p.id pc).Serves p where
  running := h.running
  addr := by simpa [Ipc.goto, setTask] using h.addr
  pending := by simpa [Ipc.goto, setTask] using h.pending
  active := by simpa [Ipc.goto, setTask] using hp
  fd _ := h.fd hc
  alone i hi := by simpa [Ipc.goto, setTask, hi] using h.alone i hi

theorem Serves.clearFd {p : Ptr} (h : s.Serves p) :
    ((s.setContext p.addr { s.memory p.addr with fd := -1 }).goto p.id .exitFunc).Serves p where
  running := by simpa [Ipc.goto, setTask, setContext] using h.running
  addr := by simpa [Ipc.goto, setTask, setContext] using h.addr
  pending := by simpa [Ipc.goto, setTask, setContext] using h.pending
  active := by simp [Ipc.goto, setTask, IpcPc.active]
  fd := by simp [Ipc.goto, setTask]
  alone i hi := by simpa [Ipc.goto, setTask, setContext, hi] using h.alone i hi

theorem Serves.quiet {p : Ptr} (h : s.Serves p) {pc : IpcPc} (hp : pc.active = false) :
    (s.goto p.id pc).Quiet := by
  intro i
  by_cases hi : i = p.id
  · simp [Ipc.goto, setTask, hi, hp]
  · simpa [Ipc.goto, setTask, hi] using h.alone i hi

theorem Steady.transfer (h : s.Steady) (hm : t.main = s.main) (hf : t.pipeConnect = s.pipeConnect)
    (hd : s.Down → t.Down)
    (hu : s.main = .idle ∨ s.main = .setConnect true → s.Up → t.Up)
    (hc : s.main = .create → s.Dialled → t.Dialled) : t.Steady := by
  unfold Steady
  rw [hm]
  cases hpc : s.main with
  | idle =>
    rcases h.of_main hpc with ⟨hs, hup⟩ | hs
    · exact .inl ⟨hf.trans hs, hu (.inl hpc) hup⟩
    · exact .inr (hd hs)
  | setConnect ok =>
    have hs := h.of_main hpc
    cases ok with
    | false => exact hd hs
    | true => exact ⟨hf.trans hs.1, hu (.inr hpc) hs.2⟩
  | create => exact ⟨hd (h.of_main hpc).1, hc hpc (h.of_main hpc).2⟩
  | clearHandle | clearConnect => exact (h.of_main hpc).elim
  | cancel p next | close p next | free p next =>
    have hs := h.of_main hpc
    cases next with
    | connectIpc => exact hd hs
    | disconnectIpc => exact hs.elim
  | testHandle | init | setHandle p | access | connect => exact hd (h.of_main hpc)

theorem Steady.of_down (h : s.main = .idle) (hd : s.Down) : s.Steady := by
  unfold Steady
  rw [h]
  exact .inr hd

theorem Quiet.goto (h : s.Quiet) {pc : IpcPc} (hp : pc.active = false) : (s.goto j pc).Quiet := by
  intro i
  by_cases hi : i = j
  · simp [Ipc.goto, setTask, hi, hp]
  · simpa [Ipc.goto, setTask, hi] using h i

theorem Orderly.addr_ne (hg : s.Orderly j) (hpc : (s.tasks j).pc = .stop) {p : Ptr} (hp : s.Live p)
    (hr : (s.memory p.addr).running = true) (hj : j ≠ p.id) : p.addr ≠ (s.tasks j).addr := by
  intro ha
  obtain hi | hi := hg.2 hpc
  · exact hj (hi.symm.trans (ha ▸ hp.2))
  · rw [← ha, hr] at hi
    cases hi

theorem Serves.stop {p : Ptr} (h : s.Serves p) (hj : j ≠ p.id)
    (ha : p.addr ≠ (s.tasks j).addr) :
    ((s.setRunning (s.tasks j).addr false).goto j .ended).Serves p where
  running := by simpa [Ipc.goto, setTask, setRunning, setContext, ha] using h.running
  addr := by simpa [Ipc.goto, setTask, setRunning, setContext, hj.symm] using h.addr
  pending := by simpa [Ipc.goto, setTask, setRunning, setContext, hj.symm] using h.pending
  active := by simpa [Ipc.goto, setTask, setRunning, setContext, hj.symm] using h.active
  fd := by simpa [Ipc.goto, setTask, setRunning, setContext, hj.symm, ha] using h.fd
  alone i hi := by
    by_cases hij : i = j
    · simp [Ipc.goto, setTask, hij, IpcPc.active]
    · simpa [Ipc.goto, setTask, setRunning, setContext, hij] using h.alone i hi

theorem Steady.stop (hs : s.Steady) (hn : s.Named) (hg : s.Orderly j)
    (hpc : (s.tasks j).pc = .stop) :
    ((s.setRunning (s.tasks j).addr false).goto j .ended).Steady := by
  have hdown : s.Down → ((s.setRunning (s.tasks j).addr false).goto j .ended).Down :=
    fun hd => ⟨hd.1, Quiet.goto (s := s.setRunning _ _) hd.2 rfl⟩
  have hup : (∀ p, s.ipcStreamHandle = some p → s.Live p) → s.Up →
      ((s.setRunning (s.tasks j).addr false).goto j .ended).Up := by
    intro hlive hx
    obtain ⟨p, hp, hv⟩ := hx
    have hj : j ≠ p.id := by
      intro heq
      obtain rfl := heq
      exact absurd hv.active (by rw [hpc]; decide)
    exact ⟨p, hp, hv.stop hj (hg.addr_ne hpc (hlive p hp) hv.running hj)⟩
  apply hs.transfer (t := (s.setRunning (s.tasks j).addr false).goto j .ended) rfl rfl hdown
  · intro hx hu
    obtain hm | hm := hx
    · exact hup (hn.of_main hm) hu
    · exact hup (hn.of_main hm) hu
  · intro hm hx
    obtain ⟨p, hp, hr, hfd⟩ := hx
    have hn := hn.of_main hm
    have hj : j ≠ p.id := by
      intro heq
      obtain rfl := heq
      exact absurd (hn p hp).2.1 (by rw [hpc]; nofun)
    have ha := hg.addr_ne hpc (hn p hp).1 hr hj
    refine ⟨p, hp, ?_, ?_⟩
    · simpa [Ipc.goto, setTask, setRunning, setContext, ha] using hr
    · simpa [Ipc.goto, setTask, setRunning, setContext, ha] using hfd

theorem Steady.task (hs : s.Steady) (hn : s.Named) (hg : s.Orderly j)
    (h : s.taskStep user j = some t) : t.Steady := by
  by_cases hj : (s.tasks j).pc.active = true
  -- a task that is still to run its exit callback is the one of the client in service
  · obtain ⟨⟨p, hp, rfl, hv⟩, hm⟩ := hs.up hj
    have hmoves : ∀ pc, pc.active = true → (s.tasks p.id).pc ≠ .exitFunc →
        (s.goto p.id pc).Steady := fun pc hpc hne => .of_up hm ⟨p, hp, hv.goto hne hpc⟩
    cases hpc : (s.tasks p.id).pc with
    | absent | stop | ended | cancelled => rw [hpc] at hj; cases hj
    | loop =>
      simp only [taskStep, hpc, hv.addr, hv.running, if_true, Option.some.injEq] at h
      exact h ▸ hmoves _ rfl (by rw [hpc]; nofun)
    | testcancel | received | close | send q =>
      simp only [taskStep, hpc, hv.pending, Bool.false_eq_true, if_false, Option.some.injEq] at h
      exact h ▸ hmoves _ rfl (by rw [hpc]; nofun)
    | recv => simp [taskStep, hpc, hv.pending] at h
    | readUser =>
      simp only [taskStep, hpc, Option.some.injEq] at h
      exact h ▸ hmoves _ rfl (by rw [hpc]; nofun)
    | testUser u =>
      simp only [taskStep, hpc, Option.some.injEq] at h
      refine h ▸ hmoves _ ?_ (by rw [hpc]; nofun)
      cases u <;> rfl
    | clearFd =>
      simp only [taskStep, hpc, hv.addr, Option.some.injEq] at h
      exact h ▸ .of_up hm ⟨p, hp, hv.clearFd⟩
    | exitFunc =>
      simp only [taskStep, hpc, Option.some.injEq] at h
      subst h
      obtain ⟨hmain, -⟩ := hm.resolve_right fun hm => hg.1 hpc hm.1
      exact .of_down hmain ⟨rfl, hv.quiet rfl⟩
  -- otherwise only its last statement is left
  · cases hpc : (s.tasks j).pc with
    | absent | ended | cancelled => simp [taskStep, hpc] at h
    | stop =>
      simp only [taskStep, hpc, Option.some.injEq] at h
      exact h ▸ hs.stop hn hg hpc
    | _ => exact absurd (by rw [hpc]; rfl) hj

theorem quiet_cancelTask (h : s.Quiet) (p : Ptr) : (s.cancelTask p).Quiet := by
  simp only [cancelTask]
  split
  · intro i
    by_cases hi : i = (s.memory p.addr).id
    · simpa [setRunning, setContext, setTask, hi] using h (s.memory p.addr).id
    · simpa [setRunning, setContext, setTask, hi] using h i
  · exact h

theorem down_cancelTask (h : s.Down) (p : Ptr) : (s.cancelTask p).Down := by
  refine ⟨?_, quiet_cancelTask h.2 p⟩
  simp only [cancelTask]
  split <;> exact h.1

theorem down_closeFd (h : s.Down) (p : Ptr) : (s.closeFd p).Down := by
  simp only [closeFd]
  split <;> exact h

theorem serves_create {p : Ptr} (hq : s.Quiet) (hid : (s.memory p.addr).id = p.id)
    (hr : (s.memory p.addr).running = true) (hfd : 0 ≤ (s.memory p.addr).fd) {pc : MainPc} :
    ((s.setTask (s.memory p.addr).id ⟨p.addr, .loop, false⟩).gotoMain pc).Serves p := by
  rw [hid]
  constructor
  case running => exact hr
  case addr => simp [setTask, gotoMain]
  case pending => simp [setTask, gotoMain]
  case active => simp [setTask, gotoMain, IpcPc.active]
  case fd => exact fun _ => hfd
  case alone =>
    intro i hi
    simpa [setTask, gotoMain, hi] using hq i

theorem Steady.step (hs : s.Steady) (hn : s.Named) {l : IpcLabel} (hl : l ≠ .disconnectIpc)
    (hg : ∀ j, l = .task j → s.Orderly j) (h : s.step user l = some t) : t.Steady := by
  cases step_move h with
  | disconnectNone | disconnectIpc => exact absurd rfl hl
  | connectIpc hm hf =>
    rcases hs.of_main hm with ⟨hf', -⟩ | hd
    · exact absurd (hf.symm.trans hf') (by decide)
    · exact hd
  | testNone hm => exact hs.of_main hm
  | testHandle hm => exact hs.of_main hm
  | @cancel p next hm =>
    have hd := hs.of_main hm
    cases next with
    | connectIpc => exact down_cancelTask hd p
    | disconnectIpc => exact hd.elim
  | @close p next hm =>
    have hd := hs.of_main hm
    cases next with
    | connectIpc => exact down_closeFd hd p
    | disconnectIpc => exact hd.elim
  | free hm hpc =>
    have hd := hs.of_main hm
    obtain ⟨rfl, rfl⟩ | ⟨rfl, -⟩ := hpc
    · exact hd
    · exact hd.elim
  | setNone hm => exact .inr (hs.of_main hm)
  | setHandle hm => exact hs.of_main hm
  | @setConnect ok hm =>
    have hd := hs.of_main hm
    cases ok with
    | false => exact .inr ⟨rfl, hd.2⟩
    | true =>
      obtain ⟨-, p, hp, hv⟩ := hd
      exact .inl ⟨rfl, p, hp, hv.running, hv.addr, hv.pending, hv.active, hv.fd, hv.alone⟩
  | clearHandle hm => exact (hs.of_main hm).elim
  | clearConnect hm => exact (hs.of_main hm).elim
  | initFails hm => exact hs.of_main hm
  | init hm =>
    obtain ⟨hf, hq⟩ := hs.of_main hm
    refine ⟨hf, fun i => ?_⟩
    by_cases hi : i = s.made
    · simp [setTask, gotoMain, hi, IpcPc.active]
    · simpa [setContext, setTask, gotoMain, hi] using hq i
  | accessFails hm => exact .inr (hs.of_main hm)
  | access hm => exact hs.of_main hm
  | connectFails hm => exact hs.of_main hm
  | connect hm hh hfd =>
    refine ⟨hs.of_main hm, _, hh, ?_, ?_⟩
    · simp [setRunning, setContext, gotoMain]
    · simpa [setRunning, setContext, gotoMain] using hfd
  | createNone hm => exact (hs.of_main hm).1
  | createFails hm => exact (hs.of_main hm).1
  | @create p hm hh =>
    obtain ⟨hd, q, hq, hr, hfd⟩ := hs.of_main hm
    obtain rfl : p = q := Option.some.inj (hh.symm.trans hq)
    obtain ⟨⟨-, hid⟩, -⟩ := hn.of_main hm p hh
    exact ⟨hd.1, p, hh, serves_create hd.2 hid hr hfd⟩
  | task h => exact hs.task hn (hg _ rfl) h
  | recv hpc =>
    obtain ⟨⟨p, hp, rfl, hv⟩, hm⟩ := hs.up (by rw [hpc]; rfl)
    refine .of_up hm ⟨p, hp, hv.goto (by rw [hpc]; nofun) ?_⟩
    split <;> rfl

/-- No `proxy_connectIpc` is in progress and no task is between its failing `recv` and the end of
its exit callback. -/
def Quiescent (s : Ipc) : Prop := s.main = .idle ∧ ∀ i, (s.tasks i).pc.leaving = false

/-- The handle names a client with an open descriptor and a task that receives for it. -/
def Connected (s : Ipc) : Prop :=
  ∃ p, s.ipcStreamHandle = some p ∧ s.Live p ∧ 0 ≤ (s.memory p.addr).fd ∧
    (s.memory p.addr).running = true ∧ (s.tasks p.id).addr = p.addr ∧
    (s.tasks p.id).pc.active = true ∧ (s.tasks p.id).pending = false

theorem Steady.connected (hs : s.Steady) (hn : s.Named) (hq : s.Quiescent) :
    s.pipeConnect = true ↔ s.Connected := by
  obtain ⟨hmain, hleave⟩ := hq
  have hs := hs.of_main hmain
  have hn := hn.of_main hmain
  constructor
  · intro hf
    obtain ⟨-, p, hp, hv⟩ := hs.resolve_right fun hd => absurd (hd.1.symm.trans hf) nofun
    have hx : (s.tasks p.id).pc ≠ .exitFunc := by
      intro hx
      have hl := hleave p.id
      rw [hx] at hl
      cases hl
    exact ⟨p, hp, hn p hp, hv.fd hx, hv.running, hv.addr, hv.active, hv.pending⟩
  · intro hx
    obtain ⟨p, -, -, -, -, -, ha, -⟩ := hx
    exact (hs.resolve_right fun hd => absurd ((hd.2 p.id).symm.trans ha) nofun).1

end Ipc

def Unraced (s : State) : Label → Prop
  | .ipc (.task j) => s.ipc.Orderly j
  | _ => True

instance (s : State) (l : Label) : Decidable (Unraced s l) :=
  match l with
  | .ipc (.task _) => inferInstanceAs (Decidable ((_ → _ ≠ _) ∧ (_ → _ ∨ _)))
  | .ipc .connectIpc => .isTrue trivial
  | .ipc .disconnectIpc => .isTrue trivial
  | .ipc .main => .isTrue trivial
  | .ipc (.initReturns _) => .isTrue trivial
  | .ipc (.accessReturns _) => .isTrue trivial
  | .ipc (.connectReturns _) => .isTrue trivial
  | .ipc (.createReturns _) => .isTrue trivial
  | .ipc (.recvReturns _ _) => .isTrue trivial
  | .tcp _ => .isTrue trivial

theorem named_keeps {s t : State} {l : Label} (hs : s.ipc.Named) (ht : step s l = some t) :
    t.ipc.Named := by
  apply (step_keeps (I := fun _ => True) (J := Ipc.Named) ht _ _ ⟨trivial, hs⟩).2
  · intros
    trivial
  · intro l u _ hs hu
    exact Ipc.named_step hs hu

theorem named_start : start.ipc.Named := fun _ hp => nomatch hp

theorem steady_exec {ls : List Label} {s : State} (hl : ∀ l ∈ ls, l ≠ .ipc .disconnectIpc)
    (ho : Obeys step Unraced start ls) (h : exec step start ls = some s) :
    s.ipc.Named ∧ s.ipc.Steady := by
  have hkeep : ∀ (s : State) (l : Label) (t : State), s.ipc.Named ∧ s.ipc.Steady →
      l ≠ .ipc .disconnectIpc ∧ Unraced s l → step s l = some t → t.ipc.Named ∧ t.ipc.Steady := by
    intro s l t hs hg ht
    apply (step_keeps (I := fun _ => True) (J := fun c => c.Named ∧ c.Steady) ht _ _
      ⟨trivial, hs⟩).2
    · intros
      trivial
    · intro l u heq hx hu
      obtain rfl := heq
      obtain ⟨hn, hs⟩ := hx
      refine ⟨Ipc.named_step hn hu, hs.step hn (fun e => hg.1 (congrArg Label.ipc e)) ?_ hu⟩
      intro j heq
      obtain rfl := heq
      exact hg.2
  have hstart : start.ipc.Named ∧ start.ipc.Steady :=
    ⟨named_start, .inr ⟨rfl, fun _ => rfl⟩⟩
  exact invariant (I := fun s : State => s.ipc.Named ∧ s.ipc.Steady) hkeep hstart
    ((obeys_of_forall hl start).and ho) h

/-- In a run without these two races the flag tells whether the pipe is connected, and a mapping
whose pipe is down can be connected again. -/
theorem pipeConnect_exact {ls : List Label} {s : State} (hl : ∀ l ∈ ls, l ≠ .ipc .disconnectIpc)
    (ho : Obeys step Unraced start ls) (h : exec step start ls = some s) (hq : s.ipc.Quiescent) :
    (s.ipc.pipeConnect = true ↔ s.ipc.Connected) ∧
      (¬ s.ipc.Connected → ∃ t, step s (.ipc .connectIpc) = some t) := by
  obtain ⟨hn, hs⟩ := steady_exec hl ho h
  have hiff := hs.connected hn hq
  refine ⟨hiff, fun hc => ?_⟩
  have hf : s.ipc.pipeConnect = false := by simpa using fun hf => hc (hiff.mp hf)
  exact ⟨{ s with ipc := s.ipc.gotoMain .testHandle }, by simp [step, Ipc.step, hq.1, hf]⟩

def closedAtOnce : List Label :=
  [.ipc .connectIpc, .ipc .main, .ipc (.initReturns (some (100, 5))), .ipc .main,
    .ipc (.accessReturns true), .ipc (.connectReturns true), .ipc (.createReturns true),
    .ipc (.task 0), .ipc (.task 0), .ipc (.recvReturns 0 0), .ipc (.task 0), .ipc (.task 0),
    .ipc (.task 0), .ipc (.task 0), .ipc .main]

theorem pipeConnect_exact_fails : ¬ ∀ (ls : List Label) (s : State),
    (∀ l ∈ ls, l ≠ .ipc .disconnectIpc) → exec step start ls = some s → s.ipc.Quiescent →
      (s.ipc.pipeConnect = true ↔ s.ipc.Connected) := by
  intro hclaim
  have hrun : (exec step start closedAtOnce).map
      (fun s => (s.ipc.main, s.ipc.pipeConnect, s.ipc.ipcStreamHandle, (s.ipc.tasks 0).pc)) =
        some (.idle, true, some ⟨100, 0⟩, .ended) := by
    decide +kernel
  have hrest : ∀ i, (exec step start closedAtOnce).map (fun s => (s.ipc.tasks (i + 1)).pc) =
      some .absent := fun _ => rfl
  obtain ⟨s, hs, he⟩ := Option.map_eq_some_iff.mp hrun
  obtain ⟨hmain, hf, hh, h0⟩ : s.ipc.main = .idle ∧ s.ipc.pipeConnect = true ∧
      s.ipc.ipcStreamHandle = some ⟨100, 0⟩ ∧ (s.ipc.tasks 0).pc = .ended := by
    simpa only [Prod.mk.injEq] using he
  have hq : s.ipc.Quiescent := by
    refine ⟨hmain, fun i => ?_⟩
    cases i with
    | zero =>
      rw [h0]
      rfl
    | succ i =>
      have hi : (s.ipc.tasks (i + 1)).pc = .absent := by simpa [hs] using hrest i
      rw [hi]
      rfl
  obtain ⟨p, hp, -, -, -, -, ha, -⟩ := (hclaim closedAtOnce s (by decide) hs hq).mp hf
  obtain rfl : ⟨100, 0⟩ = p := Option.some.inj (hh.symm.trans hp)
  rw [h0] at ha
  cases ha

def connectedAgain : List Label :=
  [.ipc .connectIpc, .ipc .main, .ipc (.initReturns (some (100, 5))), .ipc .main,
    .ipc (.accessReturns true), .ipc (.connectReturns true), .ipc (.createReturns true),
    .ipc .main, .ipc (.task 0), .ipc (.task 0), .ipc (.recvReturns 0 0), .ipc (.task 0),
    .ipc (.task 0), .ipc (.task 0), .ipc (.task 0),
    .ipc .connectIpc, .ipc .main, .ipc .main, .ipc .main, .ipc .main,
    .ipc (.initReturns (some (100, 5))), .ipc .main, .ipc (.accessReturns true),
    .ipc (.connectReturns true), .ipc (.createReturns true), .ipc .main, .ipc (.task 1)]

theorem pipeConnect_exact_connectedAgain : ∃ s : State, (s.ipc.tasks 0).pc = .ended ∧
    (s.ipc.tasks 1).pc = .testcancel ∧ (s.ipc.pipeConnect = true ↔ s.ipc.Connected) ∧
      (¬ s.ipc.Connected → ∃ t, step s (.ipc .connectIpc) = some t) := by
  have hrun : (exec step start connectedAgain).map
      (fun s => (s.ipc.main, (s.ipc.tasks 0).pc, (s.ipc.tasks 1).pc)) =
        some (.idle, .ended, .testcancel) := by
    decide +kernel
  have hrest : ∀ i, (exec step start connectedAgain).map (fun s => (s.ipc.tasks (i + 2)).pc) =
      some .absent := fun _ => rfl
  obtain ⟨s, hs, he⟩ := Option.map_eq_some_iff.mp hrun
  obtain ⟨hmain, h0, h1⟩ : s.ipc.main = .idle ∧ (s.ipc.tasks 0).pc = .ended ∧
      (s.ipc.tasks 1).pc = .testcancel := by
    simpa only [Prod.mk.injEq] using he
  have hq : s.ipc.Quiescent := by
    refine ⟨hmain, fun i => ?_⟩
    match i with
    | 0 => rw [h0]; rfl
    | 1 => rw [h1]; rfl
    | i + 2 =>
      have hi : (s.ipc.tasks (i + 2)).pc = .absent := by simpa [hs] using hrest i
      rw [hi]
      rfl
  exact ⟨s, h0, h1, pipeConnect_exact (by decide) (by decide +kernel) hs hq⟩

end LibComm.Proxy

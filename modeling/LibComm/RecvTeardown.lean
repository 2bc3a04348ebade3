import LibComm.Interleaving

/-!
# Uninit calls against receive tasks

A handle with a receive task is released by another thread: the `Uninit` call
cancels the task, closes the descriptor and frees the context. The clients do
not wait for their task; the other transports join it before the context is
freed, but after the descriptor is closed and, for netlink, the message buffers
are freed. The receive tasks differ in how they end: some close the descriptor
themselves and store -1 over it, in two statements.

An `Uninit` call is the list of the statements that are left of it. Cancellation
is deferred: a pending one acts at the next cancellation test, `recv`, `read`,
`usleep` or `close`, and may act inside a callback or a dump. The dump flag is
one for the process, and any thread may set it at any time.
-/

namespace LibComm.RecvTeardown
open Interleaving

/-- A statement of an `Uninit` call; an `if` guards the statements whose number it carries. -/
inductive Stmt where
  | ifRunning (n : ℕ)
  | ifRecvFunc (n : ℕ)
  | ifFd (n : ℕ)
  | cancel
  | clearRunning
  | promiscOff
  | close
  | clearFd
  | unlink
  | freeSendNlHdr
  | freeRecvNlHdr
  | join
  | free
  deriving DecidableEq

/-- The receive loops: those that close the descriptor when they end; those that just end, on an
error and perhaps on 0; and that of a UART. -/
inductive Loop where
  | closing
  | leaving (zero : Bool)
  | uart (waitTime : ℤ)
  deriving DecidableEq

/-- The statements of the receive tasks. `recv` is inside `recv`, `recvfrom`, `recvmsg` or `read`,
with its arguments evaluated; `dump` is the test of the dump flag and `dumping` is inside
`comm_dump`; `callback` and `exitCall` are inside the callbacks; `eagain` and `eagainEnd` are the
tests around `usleep`, and `tail` is the one at the end of the UART loop. -/
inductive TaskPc where
  | loop
  | testcancel
  | callRecv
  | recv
  | received
  | dump
  | dumping
  | dispatch
  | callback
  | tail
  | eagain
  | usleep
  | eagainEnd
  | lost
  | close
  | clearFd
  | exitFunc
  | exitCall
  | stop
  | ended
  | cancelled
  deriving DecidableEq

structure Handle where
  loop : Loop
  uninit : List Stmt
  recvFunc : Bool
  exitFunc : Bool

/-- The context, the task and the `Uninit` call. `closes` and `frees` count the closings of the
descriptor and the frees of the context. -/
structure State where
  fd : ℤ
  running : Bool
  task : TaskPc
  pending : Bool
  uninit : List Stmt
  closes : ℕ
  frees : ℕ
  bufferFreed : Bool
  dumpFlag : Bool

inductive Label where
  | task
  | recvReturns (len : ℤ) (again : Bool)
  | cancelled
  | uninit
  | setDumpFlag (flag : Bool)
  deriving DecidableEq

def start (σ : Handle) (fd : ℤ) : State := ⟨fd, true, .loop, false, σ.uninit, 0, 0, false, false⟩

def Loop.received (l : Loop) (len : ℤ) (again : Bool) : TaskPc :=
  match l with
  | .closing => if len ≤ 0 then .close else .received
  | .leaving zero => if len < 0 ∨ zero = true ∧ len = 0 then .stop else .received
  | .uart waitTime =>
    if len < 0 then (if again then .eagain else .lost)
    else if len = 0 then (if waitTime < 0 then .lost else .tail)
    else .dump

def Loop.next : Loop → TaskPc
  | .closing | .leaving _ => .loop
  | .uart _ => .tail

namespace State

def goto (s : State) (pc : TaskPc) : State := { s with task := pc }

def closeFd (s : State) : State := { s with closes := s.closes + if 0 ≤ s.fd then 1 else 0 }

def cancels (s : State) (pc : TaskPc) : State := s.goto (if s.pending then .cancelled else pc)

end State

def taskStep (σ : Handle) (s : State) : Option State :=
  match s.task with
  | .loop => some (s.goto (if s.running then .testcancel else .stop))
  | .testcancel => some (s.cancels .callRecv)
  | .callRecv => some (s.goto .recv)
  | .recv => if s.pending then some (s.goto .cancelled) else none
  | .received => some (s.cancels .dump)
  | .dump => some (s.goto (if s.dumpFlag then .dumping else .dispatch))
  | .dumping => some (s.goto .dispatch)
  | .dispatch => some (s.goto (if σ.recvFunc then .callback else σ.loop.next))
  | .callback => some (s.goto σ.loop.next)
  | .tail => some (s.cancels .loop)
  | .eagain => some (s.cancels .usleep)
  | .usleep => some (s.cancels .eagainEnd)
  | .eagainEnd => some (s.cancels .loop)
  | .lost => some ({ s with running := false }.goto .tail)
  | .close => some (if s.pending then s.goto .cancelled else s.closeFd.goto .clearFd)
  | .clearFd => some ({ s with fd := -1 }.goto .exitFunc)
  | .exitFunc => some (s.goto (if σ.exitFunc then .exitCall else .stop))
  | .exitCall => some (s.goto .stop)
  | .stop => some ({ s with running := false }.goto .ended)
  | .ended | .cancelled => none

def finished : TaskPc → Bool
  | .ended | .cancelled => true
  | _ => false

def uninitStep (σ : Handle) (s : State) : Option State :=
  match s.uninit with
  | [] => none
  | st :: rest =>
    let t := { s with uninit := rest }
    match st with
    | .ifRunning n => some (if s.running then t else { t with uninit := rest.drop n })
    | .ifRecvFunc n => some (if σ.recvFunc then t else { t with uninit := rest.drop n })
    | .ifFd n => some (if s.fd > 0 then t else { t with uninit := rest.drop n })
    | .cancel => some { t with pending := true }
    | .clearRunning => some { t with running := false }
    | .close => some t.closeFd
    | .clearFd => some { t with fd := -1 }
    | .promiscOff | .unlink | .freeSendNlHdr => some t
    | .freeRecvNlHdr => some { t with bufferFreed := true }
    | .join => if finished s.task then some t else none
    | .free => some { t with frees := s.frees + 1 }

def step (σ : Handle) (s : State) : Label → Option State
  | .task => taskStep σ s
  | .recvReturns len again =>
    if s.task = .recv ∧ s.pending = false then some (s.goto (σ.loop.received len again)) else none
  | .cancelled =>
    if s.pending = true ∧ (s.task = .dumping ∨ s.task = .callback ∨ s.task = .exitCall) then
      some (s.goto .cancelled)
    else none
  | .uninit => uninitStep σ s
  | .setDumpFlag flag => some { s with dumpFlag := flag }

def tcpIpv4ClientUninit : List Stmt :=
  [.ifRunning 2, .cancel, .clearRunning, .ifFd 2, .close, .clearFd, .free]

def tcpIpv6ClientUninit : List Stmt :=
  [.ifRunning 2, .cancel, .clearRunning, .ifFd 2, .close, .clearFd, .free]

def ipcStreamClientUninit : List Stmt :=
  [.ifRunning 2, .cancel, .clearRunning, .ifFd 2, .close, .clearFd, .unlink, .free]

def udpIpv4Uninit : List Stmt :=
  [.ifRecvFunc 1, .cancel, .clearRunning, .ifFd 2, .close, .clearFd, .ifRecvFunc 1, .join, .free]

def udpIpv6Uninit : List Stmt :=
  [.ifRecvFunc 1, .cancel, .clearRunning, .ifFd 2, .close, .clearFd, .ifRecvFunc 1, .join, .free]

def ipcDgramUninit : List Stmt :=
  [.ifRecvFunc 1, .cancel, .clearRunning, .ifFd 2, .close, .clearFd, .unlink, .ifRecvFunc 1, .join,
    .free]

def rawSockUninit : List Stmt :=
  [.ifRecvFunc 1, .cancel, .clearRunning, .promiscOff, .ifFd 2, .close, .clearFd, .ifRecvFunc 1,
    .join, .free]

def uartCloseDev : List Stmt := [.cancel, .clearRunning, .ifFd 1, .close, .join, .free]

def netlinkUninit : List Stmt :=
  [.cancel, .clearRunning, .ifFd 2, .close, .clearFd, .freeSendNlHdr, .freeRecvNlHdr, .join, .free]

def fifoReadUninit : List Stmt :=
  [.cancel, .clearRunning, .ifFd 2, .close, .clearFd, .unlink, .join, .free]

def parked : TaskPc → Bool
  | .testcancel | .recv | .received => true
  | _ => false

def closingPc : TaskPc → Bool
  | .close | .clearFd | .exitFunc | .exitCall => true
  | _ => false

structure Goto (σ : Handle) (s : State) (pc : TaskPc) : Prop where
  live : finished s.task = false
  notParked : s.pending = true → parked s.task = false
  notOver : finished pc = false
  notClearFd : s.task ≠ .clearFd ∧ pc ≠ .clearFd
  dump : pc = .dump → s.pending = false
  dumping : pc = .dumping → s.task = .dump ∧ s.dumpFlag = true
  dispatch : pc = .dispatch → s.task = .dump ∨ s.task = .dumping
  callback : pc = .callback → s.task = .dispatch ∧ σ.recvFunc = true
  closing : closingPc pc = true → σ.loop = .closing ∨ closingPc s.task = true
  lost : pc = .lost → σ.loop ≠ .closing

inductive TaskMove (σ : Handle) (s : State) : State → Prop where
  | goto (pc : TaskPc) (h : Goto σ s pc) : TaskMove σ s (s.goto pc)
  | cancelled (h : s.pending = true) (hs : finished s.task = false ∧ s.task ≠ .clearFd) :
      TaskMove σ s (s.goto .cancelled)
  | close (h : s.task = .close) (hp : s.pending = false) : TaskMove σ s (s.closeFd.goto .clearFd)
  | clearFd (h : s.task = .clearFd) : TaskMove σ s ({ s with fd := -1 }.goto .exitFunc)
  | lost (h : s.task = .lost) : TaskMove σ s ({ s with running := false }.goto .tail)
  | stop (h : s.task = .stop) : TaskMove σ s ({ s with running := false }.goto .ended)

theorem Loop.next_eq (l : Loop) : l.next = .loop ∨ l.next = .tail := by
  cases l <;> simp [Loop.next]

theorem Loop.received_spec (l : Loop) (len : ℤ) (again : Bool) :
    finished (l.received len again) = false ∧ l.received len again ≠ .clearFd ∧
      l.received len again ≠ .dumping ∧ l.received len again ≠ .dispatch ∧
      l.received len again ≠ .callback ∧
      (closingPc (l.received len again) = true → l = .closing) ∧
      (l.received len again = .lost → l ≠ .closing) := by
  cases l <;> simp only [Loop.received] <;> split_ifs <;> simp [finished, closingPc]

theorem TaskMove.cancels {σ : Handle} {s : State} {pc : TaskPc}
    (hs : finished s.task = false ∧ s.task ≠ .clearFd)
    (h : s.pending = false → Goto σ s pc) : TaskMove σ s (s.cancels pc) := by
  cases hp : s.pending with
  | true => simpa [State.cancels, hp] using TaskMove.cancelled (σ := σ) hp hs
  | false => simpa [State.cancels, hp] using TaskMove.goto pc (h hp)

theorem taskStep_move {σ : Handle} {s t : State} (h : taskStep σ s = some t) :
    TaskMove σ s t := by
  unfold taskStep at h
  cases hpc : s.task with
  | loop | callRecv | dumping | exitFunc | exitCall =>
    simp only [hpc, Option.some.injEq] at h
    subst h
    refine .goto _ ?_
    try split_ifs
    all_goals constructor <;> simp [hpc, finished, parked, closingPc]
  | dump =>
    simp only [hpc, Option.some.injEq] at h
    subst h
    refine .goto _ ?_
    cases hflag : s.dumpFlag <;> constructor <;> simp [hpc, hflag, finished, parked, closingPc]
  | dispatch | callback =>
    simp only [hpc, Option.some.injEq] at h
    subst h
    refine .goto _ ?_
    obtain hnext | hnext := σ.loop.next_eq <;> cases hrecv : σ.recvFunc <;> constructor <;>
      simp [hpc, hnext, hrecv, finished, parked, closingPc]
  | testcancel | received | tail | eagain | usleep | eagainEnd =>
    simp only [hpc, Option.some.injEq] at h
    subst h
    refine .cancels (by simp [hpc, finished]) fun hp => ?_
    constructor <;> simp [hpc, hp, finished, closingPc]
  | recv =>
    simp only [hpc, Option.ite_none_right_eq_some, Option.some.injEq] at h
    obtain ⟨hp, rfl⟩ := h
    exact .cancelled hp (by simp [hpc, finished])
  | close =>
    simp only [hpc, Option.some.injEq] at h
    subst h
    split_ifs with hp
    · exact .cancelled hp (by simp [hpc, finished])
    · exact .close hpc (by simpa using hp)
  | clearFd =>
    simp only [hpc, Option.some.injEq] at h
    exact h ▸ .clearFd hpc
  | lost =>
    simp only [hpc, Option.some.injEq] at h
    exact h ▸ .lost hpc
  | stop =>
    simp only [hpc, Option.some.injEq] at h
    exact h ▸ .stop hpc
  | ended | cancelled => simp [hpc] at h

variable {σ : Handle} {s t : State}

theorem TaskMove.live (h : TaskMove σ s t) : finished s.task = false := by
  cases h with
  | goto pc h => exact h.live
  | cancelled _ hs => exact hs.1
  | close h | clearFd h | lost h | stop h => simp [h, finished]

theorem TaskMove.frame (h : TaskMove σ s t) : t.uninit = s.uninit ∧ t.pending = s.pending ∧
    t.frees = s.frees ∧ t.bufferFreed = s.bufferFreed := by
  cases h <;> exact ⟨rfl, rfl, rfl, rfl⟩

/-- What the statements after a statement have to be like: the cancellation is sent before the
descriptor is closed, the task joined and anything freed, the -1 is stored right after the close,
and a join is never jumped over nor left for after the free. -/
def orderedAt (σ : Handle) (rest : List Stmt) : Stmt → Bool
  | .ifRunning n => σ.loop == .closing && !(rest.take n).contains .join
  | .ifRecvFunc _ => σ.recvFunc
  | .ifFd n => rest.contains .close && !rest.contains .cancel && !(rest.take n).contains .join
  | .clearRunning | .freeRecvNlHdr => !rest.contains .cancel
  | .close => !rest.contains .cancel && (σ.loop != .closing || rest.head? == some .clearFd)
  | .clearFd => !rest.contains .cancel && !rest.contains .close
  | .free => !rest.contains .cancel && !rest.contains .join
  | .join => !rest.contains .cancel
  | .cancel | .promiscOff | .unlink | .freeSendNlHdr => true

def ordered (σ : Handle) : List Stmt → Bool
  | [] => true
  | st :: rest => orderedAt σ rest st && ordered σ rest

theorem ordered_drop {p : List Stmt} (h : ordered σ p = true) (n : ℕ) :
    ordered σ (p.drop n) = true := by
  induction p generalizing n with
  | nil => simpa using h
  | cons st rest ih =>
    cases n with
    | zero => exact h
    | succ n => exact ih (Bool.and_eq_true_iff.mp h).2 n

theorem mem_drop_of_not_mem_take {α : Type*} {x : α} {p : List α} {n : ℕ} (h : x ∈ p)
    (hn : x ∉ p.take n) : x ∈ p.drop n := by
  rw [← List.take_append_drop n p] at h
  exact (List.mem_append.mp h).resolve_left hn

structure Base (σ : Handle) (s : State) : Prop where
  ordered : ordered σ s.uninit = true
  cancelled : .cancel ∈ s.uninit ∨ s.pending = true ∨ finished s.task = true
  running : σ.loop = .closing → s.running = true ∨ s.pending = true ∨ finished s.task = true
  lost : s.task = .lost → σ.loop ≠ .closing

theorem Base.move (hb : Base σ s) (h : TaskMove σ s t) : Base σ t := by
  have hlive := h.live
  obtain ⟨huninit, hpending, -, -⟩ := h.frame
  have hcancelled : .cancel ∈ s.uninit ∨ s.pending = true := by
    simpa [hlive] using hb.cancelled
  refine ⟨huninit ▸ hb.ordered, ?_, fun hc => ?_, ?_⟩
  · rw [huninit, hpending]
    exact hcancelled.imp_right .inl
  · have hrunning : s.running = true ∨ s.pending = true := by
      simpa [hlive] using hb.running hc
    cases h with
    | goto | cancelled | close | clearFd => exact hrunning.imp_right .inl
    | lost hpc => exact absurd hc (hb.lost hpc)
    | stop => exact .inr (.inr rfl)
  · cases h with
    | goto pc h => exact h.lost
    | cancelled | close | clearFd | lost | stop => simp [State.goto]

def silent : Stmt → Bool
  | .ifRunning _ | .ifRecvFunc _ | .ifFd _ | .promiscOff | .unlink | .freeSendNlHdr | .join => true
  | .cancel | .clearRunning | .close | .clearFd | .freeRecvNlHdr | .free => false

inductive UninitMove (σ : Handle) (s : State) : State → Prop where
  | pass (st : Stmt) (rest : List Stmt) (hu : s.uninit = st :: rest) (hs : silent st = true)
      (hjoin : st = .join → finished s.task = true) : UninitMove σ s { s with uninit := rest }
  | skipRunning (n : ℕ) (rest : List Stmt) (hu : s.uninit = .ifRunning n :: rest)
      (hr : s.running = false) : UninitMove σ s { s with uninit := rest.drop n }
  | skipRecvFunc (n : ℕ) (rest : List Stmt) (hu : s.uninit = .ifRecvFunc n :: rest)
      (hr : σ.recvFunc = false) : UninitMove σ s { s with uninit := rest.drop n }
  | skipFd (n : ℕ) (rest : List Stmt) (hu : s.uninit = .ifFd n :: rest) (hfd : s.fd ≤ 0) :
      UninitMove σ s { s with uninit := rest.drop n }
  | cancel (rest : List Stmt) (hu : s.uninit = .cancel :: rest) :
      UninitMove σ s { s with uninit := rest, pending := true }
  | clearRunning (rest : List Stmt) (hu : s.uninit = .clearRunning :: rest) :
      UninitMove σ s { s with uninit := rest, running := false }
  | close (rest : List Stmt) (hu : s.uninit = .close :: rest) :
      UninitMove σ s { s.closeFd with uninit := rest }
  | clearFd (rest : List Stmt) (hu : s.uninit = .clearFd :: rest) :
      UninitMove σ s { s with uninit := rest, fd := -1 }
  | freeRecvNlHdr (rest : List Stmt) (hu : s.uninit = .freeRecvNlHdr :: rest) :
      UninitMove σ s { s with uninit := rest, bufferFreed := true }
  | free (rest : List Stmt) (hu : s.uninit = .free :: rest) :
      UninitMove σ s { s with uninit := rest, frees := s.frees + 1 }

theorem uninitStep_move (h : uninitStep σ s = some t) : UninitMove σ s t := by
  unfold uninitStep at h
  cases hu : s.uninit with
  | nil => simp [hu] at h
  | cons st rest =>
    simp only [hu] at h
    cases st with
    | ifRunning n =>
      dsimp only at h
      split_ifs at h with hr <;> obtain rfl := Option.some.inj h
      · exact .pass _ rest hu rfl (by simp)
      · exact .skipRunning n rest hu (by simpa using hr)
    | ifRecvFunc n =>
      dsimp only at h
      split_ifs at h with hr <;> obtain rfl := Option.some.inj h
      · exact .pass _ rest hu rfl (by simp)
      · exact .skipRecvFunc n rest hu (by simpa using hr)
    | ifFd n =>
      dsimp only at h
      split_ifs at h with hfd <;> obtain rfl := Option.some.inj h
      · exact .pass _ rest hu rfl (by simp)
      · exact .skipFd n rest hu (by omega)
    | promiscOff | unlink | freeSendNlHdr =>
      obtain rfl := Option.some.inj h
      exact .pass _ rest hu rfl (by simp)
    | join =>
      simp only [Option.ite_none_right_eq_some, Option.some.injEq] at h
      obtain ⟨hover, rfl⟩ := h
      exact .pass _ rest hu rfl fun _ => hover
    | cancel => exact Option.some.inj h ▸ .cancel rest hu
    | clearRunning => exact Option.some.inj h ▸ .clearRunning rest hu
    | close => exact Option.some.inj h ▸ .close rest hu
    | clearFd => exact Option.some.inj h ▸ .clearFd rest hu
    | freeRecvNlHdr => exact Option.some.inj h ▸ .freeRecvNlHdr rest hu
    | free => exact Option.some.inj h ▸ .free rest hu

theorem UninitMove.task (h : UninitMove σ s t) : t.task = s.task := by
  cases h <;> rfl

inductive Move (σ : Handle) (s : State) : Label → State → Prop where
  | uninit {t : State} (h : UninitMove σ s t) : Move σ s .uninit t
  | setDumpFlag (flag : Bool) : Move σ s (.setDumpFlag flag) { s with dumpFlag := flag }
  | task {l : Label} {t : State} (hl : l ≠ .uninit) (h : TaskMove σ s t) : Move σ s l t

theorem step_move {l : Label} (h : step σ s l = some t) : Move σ s l t := by
  cases l with
  | task => exact .task (by simp) (taskStep_move h)
  | recvReturns len again =>
    simp only [step, Option.ite_none_right_eq_some, Option.some.injEq] at h
    obtain ⟨⟨hpc, hp⟩, rfl⟩ := h
    obtain ⟨hover, hclear, hdump, hdisp, hback, hclosing, hlost⟩ :=
      σ.loop.received_spec len again
    exact .task (by simp) (.goto _ ⟨by simp [hpc, finished], by simp [hp], hover,
      ⟨by simp [hpc], hclear⟩, fun _ => hp, fun hc => absurd hc hdump, fun hc => absurd hc hdisp,
      fun hc => absurd hc hback, fun hc => .inl (hclosing hc), hlost⟩)
  | cancelled =>
    simp only [step, Option.ite_none_right_eq_some, Option.some.injEq] at h
    obtain ⟨⟨hp, hpc⟩, rfl⟩ := h
    refine .task (by simp) (.cancelled hp ?_)
    rcases hpc with hpc | hpc | hpc <;> simp [hpc, finished]
  | uninit => exact .uninit (uninitStep_move h)
  | setDumpFlag flag => exact Option.some.inj h ▸ .setDumpFlag flag

theorem Base.cons (hb : Base σ s) {st : Stmt} {rest : List Stmt} (hu : s.uninit = st :: rest) :
    orderedAt σ rest st = true ∧ RecvTeardown.ordered σ rest = true :=
  Bool.and_eq_true_iff.mp (hu ▸ hb.ordered : RecvTeardown.ordered σ (st :: rest) = true)

theorem Base.recvFunc (hb : Base σ s) {n : ℕ} {rest : List Stmt}
    (hu : s.uninit = .ifRecvFunc n :: rest) : σ.recvFunc = true :=
  (hb.cons hu).1

theorem Base.rest (hb : Base σ s) {st : Stmt} {rest : List Stmt} (hu : s.uninit = st :: rest)
    (hst : st ≠ .cancel) : .cancel ∈ rest ∨ s.pending = true ∨ finished s.task = true := by
  have hcancelled := hb.cancelled
  rw [hu, List.mem_cons] at hcancelled
  exact hcancelled.imp_left fun h => h.resolve_left (Ne.symm hst)

theorem Base.pending (hb : Base σ s) {st : Stmt} {rest : List Stmt} (hu : s.uninit = st :: rest)
    (hst : st ≠ .cancel) (hat : orderedAt σ rest st = true → .cancel ∉ rest) :
    s.pending = true ∨ finished s.task = true :=
  (hb.rest hu hst).resolve_left (hat (hb.cons hu).1)

theorem Base.uninit (hb : Base σ s) (h : UninitMove σ s t) : Base σ t := by
  have hrunning := hb.running
  have hlost := hb.lost
  cases h with
  | pass st rest hu hs =>
    have hst : st ≠ .cancel := by
      intro heq
      obtain rfl := heq
      cases hs
    exact ⟨(hb.cons hu).2, hb.rest hu hst, hrunning, hlost⟩
  | skipRunning n rest hu hr =>
    obtain ⟨hat, hord⟩ := hb.cons hu
    have hclosing : σ.loop = .closing := by
      simp only [orderedAt, Bool.and_eq_true, beq_iff_eq] at hat
      exact hat.1
    have hdone := hrunning hclosing
    exact ⟨ordered_drop hord n, .inr (by simpa [hr] using hdone), hrunning, hlost⟩
  | skipRecvFunc n rest hu hr => simp [hb.recvFunc hu] at hr
  | skipFd n rest hu =>
    have hdone := hb.pending hu (by simp) fun hat => by
      simp only [orderedAt, Bool.and_eq_true, Bool.not_eq_true', List.contains_eq_mem,
        decide_eq_false_iff_not] at hat
      tauto
    exact ⟨ordered_drop (hb.cons hu).2 n, .inr hdone, hrunning, hlost⟩
  | cancel rest hu =>
    exact ⟨(hb.cons hu).2, .inr (.inl rfl), fun _ => .inr (.inl rfl), hlost⟩
  | clearRunning rest hu =>
    have hdone := hb.pending hu (by simp) (by simp [orderedAt])
    exact ⟨(hb.cons hu).2, .inr hdone, fun _ => .inr hdone, hlost⟩
  | close rest hu | clearFd rest hu | freeRecvNlHdr rest hu | free rest hu =>
    exact ⟨(hb.cons hu).2, hb.rest hu (by simp), hrunning, hlost⟩

theorem Base.step {l : Label} (hb : Base σ s) (h : step σ s l = some t) : Base σ t := by
  cases step_move h with
  | uninit hm => exact hb.uninit hm
  | setDumpFlag flag => exact ⟨hb.ordered, hb.cancelled, hb.running, hb.lost⟩
  | task _ hm => exact hb.move hm

theorem base_start (σ : Handle) {fd : ℤ} (h : RecvTeardown.ordered σ σ.uninit = true)
    (hc : .cancel ∈ σ.uninit) : Base σ (start σ fd) :=
  ⟨h, .inl hc, fun _ => .inl rfl, by simp [start]⟩

def Joined (s : State) : Prop := .join ∈ s.uninit ∨ finished s.task = true

theorem Joined.uninit (hb : Base σ s) (hj : Joined s) (h : UninitMove σ s t) : Joined t := by
  have htask := h.task
  obtain hmem | hover := hj
  · cases h with
    | pass st rest hu hs hjoin =>
      rw [hu] at hmem
      obtain hst | hmem := List.mem_cons.mp hmem
      · exact .inr (hjoin hst.symm)
      · exact .inl hmem
    | skipRunning n rest hu | skipFd n rest hu =>
      have hat := (hb.cons hu).1
      rw [hu] at hmem
      simp only [orderedAt, Bool.and_eq_true, Bool.not_eq_true', List.contains_eq_mem,
        decide_eq_false_iff_not] at hat
      exact .inl (mem_drop_of_not_mem_take (by simpa using hmem) hat.2)
    | skipRecvFunc n rest hu hr => simp [hb.recvFunc hu] at hr
    | cancel rest hu | clearRunning rest hu | close rest hu | clearFd rest hu
    | freeRecvNlHdr rest hu | free rest hu =>
      rw [hu] at hmem
      exact .inl (by simpa using hmem)
  · exact .inr (htask ▸ hover)

theorem Joined.step {l : Label} (hb : Base σ s) (hj : Joined s) (h : step σ s l = some t) :
    Joined t := by
  cases step_move h with
  | uninit hm => exact hj.uninit hb hm
  | setDumpFlag flag => exact hj
  | task _ hm => exact .inl (hm.frame.1 ▸ hj.resolve_right (by simp [hm.live]))

/-- How many more statements a cancelled task takes at most to its end. -/
def rank : TaskPc → ℕ
  | .ended | .cancelled => 0
  | .testcancel | .recv | .received | .tail | .eagain | .usleep | .eagainEnd | .close | .stop => 1
  | .loop | .callRecv | .lost | .exitCall => 2
  | .callback | .exitFunc => 3
  | .dispatch | .clearFd => 4
  | .dumping => 5
  | .dump => 6

theorem taskStep_rank (σ : Handle) (hp : s.pending = true) (hlive : finished s.task = false) :
    ∃ t, taskStep σ s = some t ∧ rank t.task < rank s.task ∧ t.pending = true ∧
      t.uninit = s.uninit := by
  obtain ⟨t, ht⟩ : ∃ t, taskStep σ s = some t := by
    cases hpc : s.task <;> simp [taskStep, hpc, hp]
    all_goals simp [hpc, finished] at hlive
  have hm := taskStep_move ht
  refine ⟨t, ht, ?_, hm.frame.2.1.trans hp, hm.frame.1⟩
  unfold taskStep at ht
  cases hpc : s.task with
  | ended | cancelled => simp [hpc] at ht
  | loop | dump | exitFunc =>
    simp only [hpc, Option.some.injEq] at ht
    subst ht
    simp only [State.goto]
    split_ifs <;> simp [rank]
  | dispatch =>
    simp only [hpc, Option.some.injEq] at ht
    subst ht
    simp only [State.goto]
    split_ifs
    · simp [rank]
    · obtain hnext | hnext := σ.loop.next_eq <;> simp [hnext, rank]
  | callback =>
    simp only [hpc, Option.some.injEq] at ht
    subst ht
    obtain hnext | hnext := σ.loop.next_eq <;> simp [State.goto, hnext, rank]
  | callRecv | dumping | clearFd | lost | exitCall | stop =>
    simp only [hpc, Option.some.injEq] at ht
    subst ht
    simp [State.goto, rank]
  | testcancel | received | tail | eagain | usleep | eagainEnd =>
    simp only [hpc, Option.some.injEq] at ht
    subst ht
    simp [State.cancels, hp, State.goto, rank]
  | recv | close =>
    simp only [hpc, hp, if_true, Option.some.injEq] at ht
    subst ht
    simp [State.goto, rank]

theorem task_ends (hp : s.pending = true) :
    ∃ ls u, exec (step σ) s ls = some u ∧ finished u.task = true ∧ u.uninit = s.uninit := by
  induction hr : rank s.task using Nat.strong_induction_on generalizing s with
  | _ r ih =>
    by_cases hover : finished s.task = true
    · exact ⟨[], s, rfl, hover, rfl⟩
    · obtain ⟨t, ht, hlt, hpt, hut⟩ := taskStep_rank σ hp (by simpa using hover)
      obtain ⟨ls, u, hexec, hend, hu⟩ := ih _ (hr ▸ hlt) hpt rfl
      exact ⟨.task :: ls, u, exec_cons.mpr ⟨t, ht, hexec⟩, hend, hu.trans hut⟩

theorem uninitStep_length {st : Stmt} {rest : List Stmt} (hu : s.uninit = st :: rest)
    (hjoin : st = .join → finished s.task = true) :
    ∃ t, uninitStep σ s = some t ∧ t.uninit.length < s.uninit.length := by
  cases st <;> simp only [uninitStep, hu, Option.some.injEq, exists_eq_left', List.length_cons]
  case ifRunning n | ifRecvFunc n | ifFd n =>
    split_ifs <;> simp only [List.length_drop] <;> omega
  case join => simp [hjoin]
  all_goals simp [State.closeFd]

theorem uninit_ends (hb : Base σ s) :
    ∃ ls u, exec (step σ) s ls = some u ∧ u.uninit = [] := by
  induction hn : s.uninit.length using Nat.strong_induction_on generalizing s with
  | _ n ih =>
    cases hu : s.uninit with
    | nil => exact ⟨[], s, rfl, hu⟩
    | cons st rest =>
      -- a join waits until the cancelled task has ended
      obtain ⟨xs, v, hxs, hover, hv⟩ : ∃ xs v, exec (step σ) s xs = some v ∧
          (st = .join → finished v.task = true) ∧ v.uninit = s.uninit := by
        by_cases hjoin : st = .join
        · subst hjoin
          obtain hp | hover := hb.pending hu (by simp) (by simp [orderedAt])
          · obtain ⟨xs, v, hxs, hover, hv⟩ := task_ends (σ := σ) hp
            exact ⟨xs, v, hxs, fun _ => hover, hv⟩
          · exact ⟨[], s, rfl, fun _ => hover, rfl⟩
        · exact ⟨[], s, rfl, fun h => absurd h hjoin, rfl⟩
      have hbv : Base σ v := exec_invariant (fun _ _ _ hb ht => hb.step ht) hb hxs
      obtain ⟨t, ht, hlt⟩ := uninitStep_length (σ := σ) (hv.trans hu) hover
      obtain ⟨ls, u, hexec, hend⟩ := ih _ (by rw [← hn, ← hv]; exact hlt)
        (hbv.step (l := .uninit) ht) rfl
      exact ⟨xs ++ .uninit :: ls, u, exec_append.mpr ⟨v, hxs, exec_cons.mpr ⟨t, ht, hexec⟩⟩, hend⟩

end LibComm.RecvTeardown

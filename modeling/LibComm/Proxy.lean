import LibComm.ClientTable
import LibComm.Interleaving

/-!
# One mapping of the proxy

The proxy serves one TCP client a mapping and forwards between it and a named
pipe. A mapping is written by four kinds of threads without a lock: the
threads of its TCP server, the receive task of its IPC client, and the main
thread in `proxy_connectIpc` and `proxy_disconnectIpc`. The state is split by
the side that writes it; each side reads one field of the other.

`AcceptClient` is one step here, with its accept callback. The contexts of the
IPC clients are cells of a heap: `malloc` may give a freed cell to the next
client while a task of the old one is still about to write to it.
-/

namespace LibComm.Proxy
open ClientTable

/-- The statements of the receive thread of a TCP client, with `tcpIpv4RecvFunc` as its receive
callback; `send h` is about to send on the handle `h` it has read. -/
inductive TcpPc where
  | absent
  | loop
  | recv
  | readHandle
  | send (h : Option Ptr)
  | close
  | clearFd
  | exitFunc
  | search
  | decrement
  | testFd
  | free
  | ended
  | cancelled
  deriving DecidableEq

structure TcpClient where
  addr : ℕ
  fd : ℤ
  pc : TcpPc
  freed : Bool

structure Tcp where
  tcpConnect : Bool
  pTcpUser : Option Ptr
  table : Table Ptr
  clients : ℕ → TcpClient
  accepted : ℕ

inductive TcpLabel where
  | accept (fd : ℤ) (mem : Option ℕ) (thread : Bool)
  | thread (k : ℕ)
  | recvReturns (k : ℕ) (len : ℤ)
  deriving DecidableEq

/-- `proxy_launchTcp` gives its server the user limit 1. -/
def proxyLaunchTcp : Tcp := ⟨false, none, .init 1, fun _ => ⟨0, -1, .absent, false⟩, 0⟩

namespace Tcp

def setClient (s : Tcp) (k : ℕ) (c : TcpClient) : Tcp :=
  { s with clients := Function.update s.clients k c }

def setTable (s : Tcp) (t : Table Ptr) : Tcp := { s with table := t }

def goto (s : Tcp) (k : ℕ) (pc : TcpPc) : Tcp := s.setClient k { s.clients k with pc := pc }

@[simp] theorem setClient_clients (s : Tcp) (k : ℕ) (c : TcpClient) :
    (s.setClient k c).clients = Function.update s.clients k c := rfl
@[simp] theorem setClient_table (s : Tcp) (k : ℕ) (c : TcpClient) :
    (s.setClient k c).table = s.table := rfl
@[simp] theorem setClient_accepted (s : Tcp) (k : ℕ) (c : TcpClient) :
    (s.setClient k c).accepted = s.accepted := rfl
@[simp] theorem setClient_pTcpUser (s : Tcp) (k : ℕ) (c : TcpClient) :
    (s.setClient k c).pTcpUser = s.pTcpUser := rfl
@[simp] theorem setClient_tcpConnect (s : Tcp) (k : ℕ) (c : TcpClient) :
    (s.setClient k c).tcpConnect = s.tcpConnect := rfl
@[simp] theorem setTable_table (s : Tcp) (t : Table Ptr) : (s.setTable t).table = t := rfl
@[simp] theorem setTable_clients (s : Tcp) (t : Table Ptr) :
    (s.setTable t).clients = s.clients := rfl
@[simp] theorem setTable_accepted (s : Tcp) (t : Table Ptr) :
    (s.setTable t).accepted = s.accepted := rfl
@[simp] theorem setTable_pTcpUser (s : Tcp) (t : Table Ptr) :
    (s.setTable t).pTcpUser = s.pTcpUser := rfl
@[simp] theorem setTable_tcpConnect (s : Tcp) (t : Table Ptr) :
    (s.setTable t).tcpConnect = s.tcpConnect := rfl

def Unused (s : Tcp) (a : ℕ) : Prop :=
  ∀ j < s.accepted, (s.clients j).freed = false → (s.clients j).addr ≠ a

instance (s : Tcp) (a : ℕ) : Decidable (s.Unused a) :=
  inferInstanceAs (Decidable (∀ j < s.accepted, _))

def tcpIpv4AcptFunc (s : Tcp) (p : Ptr) : Tcp := { s with tcpConnect := true, pTcpUser := some p }

def tcpIpv4ExitFunc (s : Tcp) : Tcp := { s with tcpConnect := false, pTcpUser := none }

def acceptClient (s : Tcp) (fd : ℤ) (mem : Option ℕ) (thread : Bool) : Tcp :=
  match s.table.acceptClient (mem.map fun a => ⟨a, s.accepted⟩) thread with
  | (t, .error _) => s.setTable t
  | (t, .ok p) =>
    ({ (s.setTable t).setClient s.accepted ⟨p.addr, fd, .loop, false⟩ with
        accepted := s.accepted + 1 }).tcpIpv4AcptFunc p

theorem acceptClient_error {s : Tcp} {fd : ℤ} {mem : Option ℕ} {thread : Bool} {e : Refusal}
    (h : s.table.acceptClient (mem.map fun a => ⟨a, s.accepted⟩) thread = (s.table, .error e)) :
    s.acceptClient fd mem thread = s := by
  simp only [acceptClient, h]
  rfl

theorem acceptClient_ok {s : Tcp} {fd : ℤ} {mem : Option ℕ} {thread : Bool} {t : Table Ptr}
    {p : Ptr} (h : s.table.acceptClient (mem.map fun a => ⟨a, s.accepted⟩) thread = (t, .ok p)) :
    s.acceptClient fd mem thread = ⟨true, some p, t,
      Function.update s.clients s.accepted ⟨p.addr, fd, .loop, false⟩, s.accepted + 1⟩ := by
  simp only [acceptClient, h]
  rfl

def threadStep (handle : Option Ptr) (s : Tcp) (k : ℕ) : Option Tcp :=
  let c := s.clients k
  match c.pc with
  | .absent => none
  | .loop => some (s.goto k (if c.fd > 0 then .recv else .search))
  | .recv => none
  | .readHandle => some (s.goto k (.send handle))
  | .send _ => some (s.goto k .loop)
  | .close => some (s.goto k .clearFd)
  | .clearFd => some (s.setClient k { c with fd := -1, pc := .exitFunc })
  | .exitFunc => some (s.tcpIpv4ExitFunc.goto k .search)
  | .search =>
    match s.table.slotOf fun p => p.addr == c.addr with
    | none => some (s.goto k .testFd)
    | some i => some ((s.setTable (s.table.setSlot i none)).goto k .decrement)
  | .decrement => some ((s.setTable s.table.decrement).goto k .testFd)
  | .testFd => some (s.goto k (if c.fd > 0 then .cancelled else .free))
  | .free => some (s.setClient k { c with freed := true, pc := .ended })
  | .ended => none
  | .cancelled => none

def step (handle : Option Ptr) (s : Tcp) : TcpLabel → Option Tcp
  | .accept fd mem thread =>
    if 0 ≤ fd ∧ ∀ a ∈ mem, s.Unused a then some (s.acceptClient fd mem thread) else none
  | .thread k => s.threadStep handle k
  | .recvReturns k len =>
    if (s.clients k).pc = .recv then some (s.goto k (if len ≤ 0 then .close else .readHandle))
    else none

end Tcp

/-- The statements of `ipcStreamClientRecvTask`, with `ipcStreamRecvFunc` as its receive callback:
it reads `pTcpUser`, tests it and sends on it. -/
inductive IpcPc where
  | absent
  | loop
  | testcancel
  | recv
  | received
  | readUser
  | testUser (u : Option Ptr)
  | send (p : Ptr)
  | close
  | clearFd
  | exitFunc
  | stop
  | ended
  | cancelled
  deriving DecidableEq

structure IpcTask where
  addr : ℕ
  pc : IpcPc
  pending : Bool

/-- A heap cell that holds a `tIpcStreamClientContext`; `id` tells which client it was made for. -/
structure Context where
  id : ℕ
  fd : ℤ
  running : Bool
  inUse : Bool

inductive After where
  | connectIpc
  | disconnectIpc
  deriving DecidableEq

inductive MainPc where
  | idle
  | testHandle
  | cancel (p : Ptr) (next : After)
  | close (p : Ptr) (next : After)
  | free (p : Ptr) (next : After)
  | init
  | setHandle (h : Option Ptr)
  | access
  | connect
  | create
  | setConnect (ok : Bool)
  | clearHandle
  | clearConnect
  deriving DecidableEq

/-- The IPC clients of a mapping, and the fields `pipeConnect` and `ipcStreamHandle` of
`tMapping`. A client has at most one task, which carries its number. -/
structure Ipc where
  pipeConnect : Bool
  ipcStreamHandle : Option Ptr
  memory : ℕ → Context
  tasks : ℕ → IpcTask
  made : ℕ
  main : MainPc

inductive IpcLabel where
  | connectIpc
  | disconnectIpc
  | main
  | initReturns (r : Option (ℕ × ℤ))
  | accessReturns (ok : Bool)
  | connectReturns (ok : Bool)
  | createReturns (ok : Bool)
  | task (j : ℕ)
  | recvReturns (j : ℕ) (len : ℤ)
  deriving DecidableEq

def ipcStart : Ipc :=
  ⟨false, none, fun _ => ⟨0, -1, false, false⟩, fun _ => ⟨0, .absent, false⟩, 0, .idle⟩

namespace Ipc

def setTask (s : Ipc) (j : ℕ) (c : IpcTask) : Ipc :=
  { s with tasks := Function.update s.tasks j c }

def goto (s : Ipc) (j : ℕ) (pc : IpcPc) : Ipc := s.setTask j { s.tasks j with pc := pc }

def setContext (s : Ipc) (a : ℕ) (c : Context) : Ipc :=
  { s with memory := Function.update s.memory a c }

def gotoMain (s : Ipc) (pc : MainPc) : Ipc := { s with main := pc }

def setRunning (s : Ipc) (a : ℕ) (b : Bool) : Ipc :=
  s.setContext a { s.memory a with running := b }

def cancelTask (s : Ipc) (p : Ptr) : Ipc :=
  let c := s.memory p.addr
  if c.running then
    (s.setTask c.id { s.tasks c.id with pending := true }).setRunning p.addr false
  else s

def closeFd (s : Ipc) (p : Ptr) : Ipc :=
  let c := s.memory p.addr
  if c.fd > 0 then s.setContext p.addr { c with fd := -1 } else s

def mainStep (s : Ipc) : Option Ipc :=
  match s.main with
  | .idle => none
  | .testHandle =>
    some (s.gotoMain (s.ipcStreamHandle.elim .init fun p => .cancel p .connectIpc))
  | .cancel p next => some ((s.cancelTask p).gotoMain (.close p next))
  | .close p next => some ((s.closeFd p).gotoMain (.free p next))
  | .free p next =>
    some ((s.setContext p.addr { s.memory p.addr with inUse := false }).gotoMain
      (match next with
        | .connectIpc => .init
        | .disconnectIpc => .clearHandle))
  | .init => none
  | .setHandle h =>
    some ({ s with ipcStreamHandle := h }.gotoMain (h.elim .idle fun _ => .access))
  | .access => none
  | .connect => none
  | .create => none
  | .setConnect ok => some ({ s with pipeConnect := ok }.gotoMain .idle)
  | .clearHandle => some ({ s with ipcStreamHandle := none }.gotoMain .clearConnect)
  | .clearConnect => some ({ s with pipeConnect := false }.gotoMain .idle)

def taskStep (user : Option Ptr) (s : Ipc) (j : ℕ) : Option Ipc :=
  let c := s.tasks j
  let stops (pc : IpcPc) := some (s.goto j (if c.pending then .cancelled else pc))
  match c.pc with
  | .absent => none
  | .loop => some (s.goto j (if (s.memory c.addr).running then .testcancel else .stop))
  | .testcancel => stops .recv
  | .recv => if c.pending then some (s.goto j .cancelled) else none
  | .received => stops .readUser
  | .readUser => some (s.goto j (.testUser user))
  | .testUser u => some (s.goto j (u.elim .loop .send))
  | .send _ => stops .loop
  | .close => stops .clearFd
  | .clearFd =>
    some ((s.setContext c.addr { s.memory c.addr with fd := -1 }).goto j .exitFunc)
  | .exitFunc => some ({ s with pipeConnect := false }.goto j .stop)
  | .stop => some ((s.setRunning c.addr false).goto j .ended)
  | .ended => none
  | .cancelled => none

def initReturns (s : Ipc) : Option (ℕ × ℤ) → Option Ipc
  | none => some (s.gotoMain (.setHandle none))
  | some (a, fd) =>
    if 0 ≤ fd ∧ (s.memory a).inUse = false then
      let u := (s.setContext a ⟨s.made, fd, false, true⟩).setTask s.made ⟨a, .absent, false⟩
      some ({ u with made := s.made + 1 }.gotoMain (.setHandle (some ⟨a, s.made⟩)))
    else none

def connectReturns (s : Ipc) (ok : Bool) : Ipc :=
  match s.ipcStreamHandle with
  | none => s.gotoMain (.setConnect false)
  | some p =>
    if (s.memory p.addr).fd < 0 ∨ ok = false then s.gotoMain (.setConnect false)
    else (s.setRunning p.addr true).gotoMain .create

def createReturns (s : Ipc) (ok : Bool) : Ipc :=
  match s.ipcStreamHandle with
  | none => s.gotoMain (.setConnect false)
  | some p =>
    if ok then
      (s.setTask (s.memory p.addr).id ⟨p.addr, .loop, false⟩).gotoMain (.setConnect true)
    else (s.setRunning p.addr false).gotoMain (.setConnect false)

def step (user : Option Ptr) (s : Ipc) : IpcLabel → Option Ipc
  | .connectIpc =>
    if s.main = .idle ∧ s.pipeConnect = false then some (s.gotoMain .testHandle) else none
  | .disconnectIpc =>
    if s.main = .idle then
      some (s.gotoMain (s.ipcStreamHandle.elim .clearHandle fun p => .cancel p .disconnectIpc))
    else none
  | .main => s.mainStep
  | .initReturns r => if s.main = .init then s.initReturns r else none
  | .accessReturns ok =>
    if s.main = .access then some (s.gotoMain (if ok then .connect else .idle)) else none
  | .connectReturns ok => if s.main = .connect then some (s.connectReturns ok) else none
  | .createReturns ok => if s.main = .create then some (s.createReturns ok) else none
  | .task j => s.taskStep user j
  | .recvReturns j len =>
    if (s.tasks j).pc = .recv ∧ (s.tasks j).pending = false then
      some (s.goto j (if len ≤ 0 then .close else .received))
    else none

inductive Move (user : Option Ptr) (s : Ipc) : IpcLabel → Ipc → Prop where
  | connectIpc (hm : s.main = .idle) (hf : s.pipeConnect = false) :
      Move user s .connectIpc (s.gotoMain .testHandle)
  | disconnectNone (hm : s.main = .idle) (hh : s.ipcStreamHandle = none) :
      Move user s .disconnectIpc (s.gotoMain .clearHandle)
  | disconnectIpc {p : Ptr} (hm : s.main = .idle) (hh : s.ipcStreamHandle = some p) :
      Move user s .disconnectIpc (s.gotoMain (.cancel p .disconnectIpc))
  | testNone (hm : s.main = .testHandle) (hh : s.ipcStreamHandle = none) :
      Move user s .main (s.gotoMain .init)
  | testHandle {p : Ptr} (hm : s.main = .testHandle) (hh : s.ipcStreamHandle = some p) :
      Move user s .main (s.gotoMain (.cancel p .connectIpc))
  | cancel {p : Ptr} {next : After} (hm : s.main = .cancel p next) :
      Move user s .main ((s.cancelTask p).gotoMain (.close p next))
  | close {p : Ptr} {next : After} (hm : s.main = .close p next) :
      Move user s .main ((s.closeFd p).gotoMain (.free p next))
  | free {p : Ptr} {next : After} (hm : s.main = .free p next) {pc : MainPc}
      (hpc : next = .connectIpc ∧ pc = .init ∨ next = .disconnectIpc ∧ pc = .clearHandle) :
      Move user s .main
        ((s.setContext p.addr { s.memory p.addr with inUse := false }).gotoMain pc)
  | setNone (hm : s.main = .setHandle none) :
      Move user s .main ({ s with ipcStreamHandle := none }.gotoMain .idle)
  | setHandle {p : Ptr} (hm : s.main = .setHandle (some p)) :
      Move user s .main ({ s with ipcStreamHandle := some p }.gotoMain .access)
  | setConnect {ok : Bool} (hm : s.main = .setConnect ok) :
      Move user s .main ({ s with pipeConnect := ok }.gotoMain .idle)
  | clearHandle (hm : s.main = .clearHandle) :
      Move user s .main ({ s with ipcStreamHandle := none }.gotoMain .clearConnect)
  | clearConnect (hm : s.main = .clearConnect) :
      Move user s .main ({ s with pipeConnect := false }.gotoMain .idle)
  | initFails (hm : s.main = .init) :
      Move user s (.initReturns none) (s.gotoMain (.setHandle none))
  | init {a : ℕ} {fd : ℤ} (hm : s.main = .init) (hfd : 0 ≤ fd)
      (ha : (s.memory a).inUse = false) :
      Move user s (.initReturns (some (a, fd)))
        ({ (s.setContext a ⟨s.made, fd, false, true⟩).setTask s.made ⟨a, .absent, false⟩ with
          made := s.made + 1 }.gotoMain (.setHandle (some ⟨a, s.made⟩)))
  | accessFails (hm : s.main = .access) : Move user s (.accessReturns false) (s.gotoMain .idle)
  | access (hm : s.main = .access) : Move user s (.accessReturns true) (s.gotoMain .connect)
  | connectFails {ok : Bool} (hm : s.main = .connect) :
      Move user s (.connectReturns ok) (s.gotoMain (.setConnect false))
  | connect {p : Ptr} (hm : s.main = .connect) (hh : s.ipcStreamHandle = some p)
      (hfd : 0 ≤ (s.memory p.addr).fd) :
      Move user s (.connectReturns true) ((s.setRunning p.addr true).gotoMain .create)
  | createNone {ok : Bool} (hm : s.main = .create) (hh : s.ipcStreamHandle = none) :
      Move user s (.createReturns ok) (s.gotoMain (.setConnect false))
  | createFails {p : Ptr} (hm : s.main = .create) (hh : s.ipcStreamHandle = some p) :
      Move user s (.createReturns false)
        ((s.setRunning p.addr false).gotoMain (.setConnect false))
  | create {p : Ptr} (hm : s.main = .create) (hh : s.ipcStreamHandle = some p) :
      Move user s (.createReturns true)
        ((s.setTask (s.memory p.addr).id ⟨p.addr, .loop, false⟩).gotoMain (.setConnect true))
  | task {j : ℕ} {t : Ipc} (h : s.taskStep user j = some t) : Move user s (.task j) t
  | recv {j : ℕ} {len : ℤ} (hpc : (s.tasks j).pc = .recv) (hp : (s.tasks j).pending = false) :
      Move user s (.recvReturns j len) (s.goto j (if len ≤ 0 then .close else .received))

theorem main_move {user : Option Ptr} {s t : Ipc} (h : s.mainStep = some t) :
    Move user s .main t := by
  cases hm : s.main with
  | idle | init | access | connect | create => simp [mainStep, hm] at h
  | testHandle =>
    simp only [mainStep, hm, Option.some.injEq] at h
    subst h
    cases hh : s.ipcStreamHandle with
    | none => exact .testNone hm hh
    | some p => exact .testHandle hm hh
  | cancel p next =>
    simp only [mainStep, hm, Option.some.injEq] at h
    exact h ▸ .cancel hm
  | close p next =>
    simp only [mainStep, hm, Option.some.injEq] at h
    exact h ▸ .close hm
  | free p next =>
    simp only [mainStep, hm, Option.some.injEq] at h
    subst h
    cases next with
    | connectIpc => exact .free hm (.inl ⟨rfl, rfl⟩)
    | disconnectIpc => exact .free hm (.inr ⟨rfl, rfl⟩)
  | setHandle h' =>
    simp only [mainStep, hm, Option.some.injEq] at h
    subst h
    cases h' with
    | none => exact .setNone hm
    | some p => exact .setHandle hm
  | setConnect ok =>
    simp only [mainStep, hm, Option.some.injEq] at h
    exact h ▸ .setConnect hm
  | clearHandle =>
    simp only [mainStep, hm, Option.some.injEq] at h
    exact h ▸ .clearHandle hm
  | clearConnect =>
    simp only [mainStep, hm, Option.some.injEq] at h
    exact h ▸ .clearConnect hm

theorem connect_move {user : Option Ptr} {s : Ipc} (hm : s.main = .connect) (ok : Bool) :
    Move user s (.connectReturns ok) (s.connectReturns ok) := by
  cases hh : s.ipcStreamHandle with
  | none =>
    simp only [connectReturns, hh]
    exact .connectFails hm
  | some p =>
    simp only [connectReturns, hh]
    split
    case isTrue => exact .connectFails hm
    case isFalse hfd =>
      rw [not_or, not_lt, Bool.not_eq_false] at hfd
      obtain ⟨hfd, rfl⟩ := hfd
      exact .connect hm hh hfd

theorem create_move {user : Option Ptr} {s : Ipc} (hm : s.main = .create) (ok : Bool) :
    Move user s (.createReturns ok) (s.createReturns ok) := by
  cases hh : s.ipcStreamHandle with
  | none =>
    simp only [createReturns, hh]
    exact .createNone hm hh
  | some p =>
    simp only [createReturns, hh]
    cases ok with
    | false => exact .createFails hm hh
    | true => exact .create hm hh

theorem step_move {user : Option Ptr} {s t : Ipc} {l : IpcLabel} (h : s.step user l = some t) :
    Move user s l t := by
  cases l with
  | connectIpc =>
    simp only [step, Option.ite_none_right_eq_some, Option.some.injEq] at h
    obtain ⟨⟨hm, hf⟩, rfl⟩ := h
    exact .connectIpc hm hf
  | disconnectIpc =>
    simp only [step, Option.ite_none_right_eq_some, Option.some.injEq] at h
    obtain ⟨hm, rfl⟩ := h
    cases hh : s.ipcStreamHandle with
    | none => exact .disconnectNone hm hh
    | some p => exact .disconnectIpc hm hh
  | main => exact main_move h
  | initReturns r =>
    simp only [step, Option.ite_none_right_eq_some] at h
    obtain ⟨hm, h⟩ := h
    cases r with
    | none =>
      obtain rfl := Option.some.inj h
      exact .initFails hm
    | some r =>
      simp only [initReturns, Option.ite_none_right_eq_some, Option.some.injEq] at h
      obtain ⟨⟨hfd, ha⟩, rfl⟩ := h
      exact .init hm hfd ha
  | accessReturns ok =>
    simp only [step, Option.ite_none_right_eq_some, Option.some.injEq] at h
    obtain ⟨hm, rfl⟩ := h
    cases ok with
    | false => exact .accessFails hm
    | true => exact .access hm
  | connectReturns ok =>
    simp only [step, Option.ite_none_right_eq_some, Option.some.injEq] at h
    obtain ⟨hm, rfl⟩ := h
    exact connect_move hm ok
  | createReturns ok =>
    simp only [step, Option.ite_none_right_eq_some, Option.some.injEq] at h
    obtain ⟨hm, rfl⟩ := h
    exact create_move hm ok
  | task j => exact .task h
  | recvReturns j len =>
    simp only [step, Option.ite_none_right_eq_some, Option.some.injEq] at h
    obtain ⟨⟨hpc, hp⟩, rfl⟩ := h
    exact .recv hpc hp

end Ipc

structure State where
  tcp : Tcp
  ipc : Ipc

inductive Label where
  | tcp (l : TcpLabel)
  | ipc (l : IpcLabel)
  deriving DecidableEq

def start : State := ⟨proxyLaunchTcp, ipcStart⟩

def step (s : State) : Label → Option State
  | .tcp l => (s.tcp.step s.ipc.ipcStreamHandle l).map fun t => { s with tcp := t }
  | .ipc l => (s.ipc.step s.tcp.pTcpUser l).map fun t => { s with ipc := t }

/-- What each step of one side keeps, whatever it reads of the other, all steps keep. -/
theorem step_keeps {I : Tcp → Prop} {J : Ipc → Prop} {s t : State} {l : Label}
    (h : step s l = some t)
    (hI : ∀ l' u, l = .tcp l' → I s.tcp → s.tcp.step s.ipc.ipcStreamHandle l' = some u → I u)
    (hJ : ∀ l' u, l = .ipc l' → J s.ipc → s.ipc.step s.tcp.pTcpUser l' = some u → J u)
    (hs : I s.tcp ∧ J s.ipc) : I t.tcp ∧ J t.ipc := by
  cases l with
  | tcp l =>
    obtain ⟨u, hu, rfl⟩ := Option.map_eq_some_iff.mp h
    exact ⟨hI l u rfl hs.1 hu, hs.2⟩
  | ipc l =>
    obtain ⟨u, hu, rfl⟩ := Option.map_eq_some_iff.mp h
    exact ⟨hs.1, hJ l u rfl hs.2 hu⟩

end LibComm.Proxy

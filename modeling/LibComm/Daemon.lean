import Mathlib.Data.List.FinRange
import LibComm.ClientTable
import LibComm.ResourceLedger

/-!
# The life of the daemon

`serv_init`, the events and `serv_uninit` of the proxy daemon, with every
resource they acquire: the records of the mappings, the TCP server and the IPC
client of each, the control socket and the inotify descriptor. Each `Init`
answers 0 (`none`) or a fresh handle, which is written in the ledger, as are
the calls that use a handle or a record and those that release it.
-/

namespace LibComm.Daemon
open ResourceLedger ClientTable

abbrev maxMappingNum : ℕ := 64

inductive Kind where
  | mapping
  | tcpServer
  | ipcClient
  | ipcDgram
  | inotify
  deriving DecidableEq

/-- A `tMapping`; `record` is the number of its allocation. -/
structure Mapping where
  record : ℕ
  tcpServerHandle : Option ℕ
  ipcStreamHandle : Option ℕ
  tcpConnect : Bool
  pipeConnect : Bool
  wd : ℤ
  pTcpUser : Option Ptr
  index : ℕ

/-- The globals of the daemon; -1 as `g_inotifyFd` is `none`. -/
structure State where
  pMapping : Fin maxMappingNum → Option Mapping
  mappingNum : ℕ
  ipcDgramhandle : Option ℕ
  inotifyFd : Option ℕ
  ledger : Ledger Kind

structure IpcAnswers where
  init : Bool
  access : Bool
  connect : Bool

/-- What `serv_init` meets: `xmlReadFile` with `xmlDocGetRootElement`, of which `none` is the
missing root and a list the `enable` attributes of the mappings (none of them if the file cannot be
read), and the answers of the calls for each mapping and after them. -/
structure Setup where
  xml : Option (List Bool)
  tcp : Fin maxMappingNum → Bool
  ipc : Fin maxMappingNum → IpcAnswers
  inotify : Bool
  watch : Fin maxMappingNum → ℤ
  dgram : Bool

/-- What happens while the daemon runs: a pipe is created, the command `exit` comes in, or the
library makes a callback for a mapping. -/
inductive Event where
  | reconnect (i : Fin maxMappingNum) (a : IpcAnswers)
  | exit
  | tcpAcpt (i : Fin maxMappingNum) (pUser : Ptr)
  | tcpExit (i : Fin maxMappingNum)
  | tcpRecv (i : Fin maxMappingNum)
  | ipcExit (i : Fin maxMappingNum)

inductive Slot where
  | record (i : Fin maxMappingNum)
  | tcp (i : Fin maxMappingNum)
  | ipc (i : Fin maxMappingNum)
  | dgram
  | inotify
  deriving DecidableEq

def indices (mappingNum : ℕ) : List (Fin maxMappingNum) :=
  (List.finRange maxMappingNum).filter fun i => i < mappingNum

namespace State

def record (s : State) (i : Fin maxMappingNum) : Option (Resource Kind) :=
  (s.pMapping i).map fun m => ⟨.mapping, m.record⟩

def tcp (s : State) (i : Fin maxMappingNum) : Option (Resource Kind) :=
  (s.pMapping i).bind fun m => m.tcpServerHandle.map fun h => ⟨.tcpServer, h⟩

def ipc (s : State) (i : Fin maxMappingNum) : Option (Resource Kind) :=
  (s.pMapping i).bind fun m => m.ipcStreamHandle.map fun h => ⟨.ipcClient, h⟩

def inotify (s : State) : Option (Resource Kind) := s.inotifyFd.map fun h => ⟨.inotify, h⟩

def dgram (s : State) : Option (Resource Kind) := s.ipcDgramhandle.map fun h => ⟨.ipcDgram, h⟩

def use (s : State) (r : Option (Resource Kind)) : State := { s with ledger := s.ledger.use r }

def release (s : State) (r : Option (Resource Kind)) : State :=
  { s with ledger := s.ledger.release r }

def init (s : State) (k : Kind) (ok : Bool) : State × Option ℕ :=
  if ok then ({ s with ledger := s.ledger.acquire k }, some s.ledger.made) else (s, none)

def setMapping (s : State) (i : Fin maxMappingNum) (m : Option Mapping) : State :=
  { s with pMapping := Function.update s.pMapping i m }

def modify (s : State) (i : Fin maxMappingNum) (f : Mapping → Mapping) : State :=
  s.setMapping i ((s.pMapping i).map f)

end State

def proxyLaunchTcp (ok : Bool) (i : Fin maxMappingNum) (s : State) : State × ℤ :=
  match (s.use (s.record i)).init .tcpServer ok with
  | (t, none) => (t.modify i fun m => { m with tcpServerHandle := none }, -1)
  | (t, some h) => (t.modify i fun m => { m with tcpServerHandle := some h }, 0)

def proxyCeaseTcp (i : Fin maxMappingNum) (s : State) : State :=
  ((s.use (s.record i)).release (s.tcp i)).modify i fun m =>
    { m with tcpServerHandle := none, tcpConnect := false, pTcpUser := none }

def proxyConnectIpc (a : IpcAnswers) (i : Fin maxMappingNum) (s : State) : State × ℤ :=
  match ((s.use (s.record i)).release (s.ipc i)).init .ipcClient a.init with
  | (t, none) => (t.modify i fun m => { m with ipcStreamHandle := none }, -1)
  | (t, some h) =>
    let u := t.modify i fun m => { m with ipcStreamHandle := some h }
    if a.access then
      ((u.use (u.ipc i)).modify i fun m => { m with pipeConnect := a.connect }, 0)
    else (u, 0)

def proxyDisconnectIpc (i : Fin maxMappingNum) (s : State) : State :=
  ((s.use (s.record i)).release (s.ipc i)).modify i fun m =>
    { m with ipcStreamHandle := none, pipeConnect := false }

def proxyInitLoop (σ : Setup) : List (Fin maxMappingNum) → State → State × ℤ
  | [], s => (s, 0)
  | i :: is, s =>
    if (s.pMapping i).isSome then
      let (t, error) := proxyLaunchTcp (σ.tcp i) i s
      if error ≠ 0 then (t, -1)
      else
        let (u, error) := proxyConnectIpc (σ.ipc i) i t
        if error ≠ 0 then (u, -1) else proxyInitLoop σ is u
    else proxyInitLoop σ is s

def proxyInit (σ : Setup) (s : State) : State × ℤ := proxyInitLoop σ (indices s.mappingNum) s

def proxyUninit (s : State) : State :=
  (indices s.mappingNum).foldl (fun s i =>
    if (s.pMapping i).isSome then proxyCeaseTcp i (proxyDisconnectIpc i s) else s) s

def addWatch (σ : Setup) (s : State) (i : Fin maxMappingNum) : State :=
  if (s.pMapping i).isSome then
    let t := (s.use s.inotify).use (s.record i)
    if σ.watch i < 0 then t else t.modify i fun m => { m with wd := σ.watch i }
  else s

def eventInit (σ : Setup) (s : State) : State × ℤ :=
  match s.init .inotify σ.inotify with
  | (t, none) => ({ t with inotifyFd := none }, -1)
  | (t, some h) => ((indices t.mappingNum).foldl (addWatch σ) { t with inotifyFd := some h }, 0)

def rmWatch (s : State) (i : Fin maxMappingNum) : State :=
  if (s.pMapping i).any fun m => 0 ≤ m.wd then
    ((s.use (s.record i)).use s.inotify).modify i fun m => { m with wd := -1 }
  else s.use (s.record i)

def eventUninit (s : State) : State :=
  let t := (indices s.mappingNum).foldl rmWatch s
  { t.release t.inotify with inotifyFd := none }

def eventMonitor (i : Fin maxMappingNum) (a : IpcAnswers) (s : State) : State :=
  let t := s.use s.inotify
  if (t.pMapping i).isSome then (proxyConnectIpc a i t).1 else t

def parseTagMapping : List Bool → State → State
  | [], s => s
  | enable :: nodes, s =>
    if h : enable = true ∧ s.mappingNum < maxMappingNum then
      let m : Mapping := ⟨s.ledger.made, none, none, false, false, -1, none, s.mappingNum⟩
      parseTagMapping nodes
        { s.setMapping ⟨s.mappingNum, h.2⟩ (some m) with
          ledger := s.ledger.acquire .mapping, mappingNum := s.mappingNum + 1 }
    else parseTagMapping nodes s

def xmlInit (xml : Option (List Bool)) (s : State) : State × ℤ :=
  match xml with
  | none => (s, -1)
  | some nodes => (parseTagMapping nodes s, 0)

def xmlUninit (s : State) : State := s

def servInit (σ : Setup) (s : State) : State × ℤ :=
  let (s, error) := xmlInit σ.xml { s with pMapping := fun _ => none, mappingNum := 0 }
  if error ≠ 0 then (s, -1)
  else if 0 = s.mappingNum then (xmlUninit s, -1)
  else
    let (s, error) := proxyInit σ s
    if error ≠ 0 then (xmlUninit s, -1)
    else
      let (s, error) := eventInit σ s
      if error ≠ 0 then (xmlUninit (proxyUninit s), -1)
      else
        match s.init .ipcDgram σ.dgram with
        | (s, none) =>
          (xmlUninit (proxyUninit (eventUninit { s with ipcDgramhandle := none })), -1)
        | (s, some h) => ({ s with ipcDgramhandle := some h }, 0)

def freeMapping (s : State) (i : Fin maxMappingNum) : State :=
  (s.release (s.record i)).setMapping i none

def servUninit (s : State) : State :=
  let s := s.release s.dgram
  let s := xmlUninit (proxyUninit (eventUninit s))
  { (List.finRange maxMappingNum).foldl freeMapping s with mappingNum := 0 }

def tcpIpv4AcptFunc (i : Fin maxMappingNum) (pUser : Ptr) (s : State) : State :=
  (s.use (s.record i)).modify i fun m => { m with tcpConnect := true, pTcpUser := some pUser }

def tcpIpv4ExitFunc (i : Fin maxMappingNum) (s : State) : State :=
  (s.use (s.record i)).modify i fun m => { m with tcpConnect := false, pTcpUser := none }

def tcpIpv4RecvFunc (i : Fin maxMappingNum) (s : State) : State :=
  (s.use (s.record i)).use (s.ipc i)

def ipcStreamExitFunc (i : Fin maxMappingNum) (s : State) : State :=
  (s.use (s.record i)).modify i fun m => { m with pipeConnect := false }

def Event.run (s : State) : Event → State
  | .reconnect i a => eventMonitor i a s
  | .exit => eventUninit s
  | .tcpAcpt i pUser => tcpIpv4AcptFunc i pUser s
  | .tcpExit i => tcpIpv4ExitFunc i s
  | .tcpRecv i => tcpIpv4RecvFunc i s
  | .ipcExit i => ipcStreamExitFunc i s

def boot : State := ⟨fun _ => none, 0, none, none, ⟨0, []⟩⟩

def main (σ : Setup) (es : List Event) : State :=
  let (s, error) := servInit σ boot
  if error ≠ 0 then servUninit s else servUninit (es.foldl Event.run s)

/-- The slots of the daemon; `l` is the control socket while it has not been released, as
`serv_uninit` leaves `g_ipcDgramhandle` as it is. -/
def State.slot (l : Option ℕ) (s : State) : Slot → Option (Resource Kind)
  | .record i => s.record i
  | .tcp i => s.tcp i
  | .ipc i => s.ipc i
  | .dgram => l.map fun h => ⟨.ipcDgram, h⟩
  | .inotify => s.inotify

structure Inv (fd d l : Option ℕ) (s : State) : Prop where
  owned : Owned s.ledger (s.slot l)
  filled : ∀ i, (s.pMapping i).isSome → (i : ℕ) < s.mappingNum
  inotifyFd : s.inotifyFd = fd
  ipcDgramhandle : s.ipcDgramhandle = d

section Slots

variable {l : Option ℕ} {s : State} {i : Fin maxMappingNum} {f : Mapping → Mapping}

@[simp] theorem modify_pMapping (s : State) (i j : Fin maxMappingNum) (f : Mapping → Mapping) :
    (s.modify i f).pMapping j = if j = i then (s.pMapping i).map f else s.pMapping j := by
  simp [State.modify, State.setMapping, Function.update_apply]

theorem record_modify (hr : ∀ m, (f m).record = m.record) (j : Fin maxMappingNum) :
    (s.modify i f).record j = s.record j := by
  by_cases hj : j = i
  · cases hm : s.pMapping i <;> simp [State.record, hj, hm, hr]
  · simp [State.record, hj]

theorem tcp_modify (ht : ∀ m, (f m).tcpServerHandle = m.tcpServerHandle)
    (j : Fin maxMappingNum) : (s.modify i f).tcp j = s.tcp j := by
  by_cases hj : j = i
  · cases hm : s.pMapping i <;> simp [State.tcp, hj, hm, ht]
  · simp [State.tcp, hj]

theorem ipc_modify (hp : ∀ m, (f m).ipcStreamHandle = m.ipcStreamHandle)
    (j : Fin maxMappingNum) : (s.modify i f).ipc j = s.ipc j := by
  by_cases hj : j = i
  · cases hm : s.pMapping i <;> simp [State.ipc, hj, hm, hp]
  · simp [State.ipc, hj]

theorem slot_modify (hr : ∀ m, (f m).record = m.record)
    (ht : ∀ m, (f m).tcpServerHandle = m.tcpServerHandle)
    (hp : ∀ m, (f m).ipcStreamHandle = m.ipcStreamHandle) : (s.modify i f).slot l = s.slot l := by
  funext a
  cases a with
  | record j => exact record_modify hr j
  | tcp j => exact tcp_modify ht j
  | ipc j => exact ipc_modify hp j
  | dgram => rfl
  | inotify => rfl

theorem slot_modify_tcp {h : Option ℕ} (hi : (s.pMapping i).isSome)
    (hr : ∀ m, (f m).record = m.record) (ht : ∀ m, (f m).tcpServerHandle = h)
    (hp : ∀ m, (f m).ipcStreamHandle = m.ipcStreamHandle) :
    (s.modify i f).slot l =
      Function.update (s.slot l) (.tcp i) (h.map fun n => ⟨.tcpServer, n⟩) := by
  obtain ⟨m, hm⟩ := Option.isSome_iff_exists.mp hi
  funext a
  cases a with
  | record j =>
    rw [Function.update_of_ne (by simp)]
    exact record_modify hr j
  | tcp j => by_cases hj : j = i <;> simp [State.slot, State.tcp, hj, hm, ht]
  | ipc j =>
    rw [Function.update_of_ne (by simp)]
    exact ipc_modify hp j
  | dgram => rfl
  | inotify => rfl

theorem slot_modify_ipc {h : Option ℕ} (hi : (s.pMapping i).isSome)
    (hr : ∀ m, (f m).record = m.record)
    (ht : ∀ m, (f m).tcpServerHandle = m.tcpServerHandle)
    (hp : ∀ m, (f m).ipcStreamHandle = h) :
    (s.modify i f).slot l =
      Function.update (s.slot l) (.ipc i) (h.map fun n => ⟨.ipcClient, n⟩) := by
  obtain ⟨m, hm⟩ := Option.isSome_iff_exists.mp hi
  funext a
  cases a with
  | record j =>
    rw [Function.update_of_ne (by simp)]
    exact record_modify hr j
  | tcp j =>
    rw [Function.update_of_ne (by simp)]
    exact tcp_modify ht j
  | ipc j => by_cases hj : j = i <;> simp [State.slot, State.ipc, hj, hm, hp]
  | dgram => rfl
  | inotify => rfl

end Slots

section Calls

variable {fd d l : Option ℕ} {s : State} {i : Fin maxMappingNum} {f : Mapping → Mapping}

theorem filled_modify {n : ℕ} (h : ∀ j, (s.pMapping j).isSome → (j : ℕ) < n) :
    ∀ j, ((s.modify i f).pMapping j).isSome → (j : ℕ) < n := by
  intro j hj
  rw [modify_pMapping] at hj
  split_ifs at hj with hji
  · exact h j (by simpa [hji] using hj)
  · exact h j hj

theorem Inv.use (h : Inv fd d l s) (a : Slot) : Inv fd d l (s.use (s.slot l a)) :=
  ⟨h.owned.use a, h.filled, h.inotifyFd, h.ipcDgramhandle⟩

theorem Inv.modify (h : Inv fd d l s) (hr : ∀ m, (f m).record = m.record)
    (ht : ∀ m, (f m).tcpServerHandle = m.tcpServerHandle)
    (hp : ∀ m, (f m).ipcStreamHandle = m.ipcStreamHandle) : Inv fd d l (s.modify i f) where
  owned := by
    rw [slot_modify hr ht hp]
    exact h.owned
  filled := filled_modify h.filled
  inotifyFd := h.inotifyFd
  ipcDgramhandle := h.ipcDgramhandle

theorem Inv.modify_tcp (h : Inv fd d l s) {L : Ledger Kind} {n : Option ℕ}
    (hi : (s.pMapping i).isSome)
    (hL : Owned L (Function.update (s.slot l) (.tcp i) (n.map fun n => ⟨.tcpServer, n⟩)))
    (hr : ∀ m, (f m).record = m.record) (ht : ∀ m, (f m).tcpServerHandle = n)
    (hp : ∀ m, (f m).ipcStreamHandle = m.ipcStreamHandle) :
    Inv fd d l ({ s with ledger := L }.modify i f) where
  owned := by
    rw [slot_modify_tcp (s := { s with ledger := L }) hi hr ht hp]
    exact hL
  filled := filled_modify h.filled
  inotifyFd := h.inotifyFd
  ipcDgramhandle := h.ipcDgramhandle

theorem Inv.modify_ipc (h : Inv fd d l s) {L : Ledger Kind} {n : Option ℕ}
    (hi : (s.pMapping i).isSome)
    (hL : Owned L (Function.update (s.slot l) (.ipc i) (n.map fun n => ⟨.ipcClient, n⟩)))
    (hr : ∀ m, (f m).record = m.record)
    (ht : ∀ m, (f m).tcpServerHandle = m.tcpServerHandle)
    (hp : ∀ m, (f m).ipcStreamHandle = n) :
    Inv fd d l ({ s with ledger := L }.modify i f) where
  owned := by
    rw [slot_modify_ipc (s := { s with ledger := L }) hi hr ht hp]
    exact hL
  filled := filled_modify h.filled
  inotifyFd := h.inotifyFd
  ipcDgramhandle := h.ipcDgramhandle

theorem proxyLaunchTcp_inv (h : Inv fd d l s) (ok : Bool) (hi : (s.pMapping i).isSome)
    (hs : s.tcp i = none) : Inv fd d l (proxyLaunchTcp ok i s).1 := by
  have hu := h.use (.record i)
  have hnone : (s.use (s.record i)).slot l (.tcp i) = none := hs
  cases ok with
  | false =>
    refine hu.modify_tcp (n := none) hi ?_ (fun _ => rfl) (fun _ => rfl) fun _ => rfl
    rw [Option.map_none, Function.update_eq_self_iff.mpr hnone.symm]
    exact hu.owned
  | true =>
    exact hu.modify_tcp (n := some _) hi (hu.owned.acquire hnone .tcpServer) (fun _ => rfl)
      (fun _ => rfl) fun _ => rfl

theorem proxyCeaseTcp_inv (h : Inv fd d l s) (hi : (s.pMapping i).isSome) :
    Inv fd d l (proxyCeaseTcp i s) :=
  (h.use (.record i)).modify_tcp (n := none) hi ((h.use (.record i)).owned.release (.tcp i))
    (fun _ => rfl) (fun _ => rfl) fun _ => rfl

theorem proxyDisconnectIpc_inv (h : Inv fd d l s) (hi : (s.pMapping i).isSome) :
    Inv fd d l (proxyDisconnectIpc i s) :=
  (h.use (.record i)).modify_ipc (n := none) hi ((h.use (.record i)).owned.release (.ipc i))
    (fun _ => rfl) (fun _ => rfl) fun _ => rfl

theorem proxyConnectIpc_inv (h : Inv fd d l s) (a : IpcAnswers) (hi : (s.pMapping i).isSome) :
    Inv fd d l (proxyConnectIpc a i s).1 := by
  have hu := h.use (.record i)
  have hrel := hu.owned.release (.ipc i)
  obtain ⟨init, access, connect⟩ := a
  cases init with
  | false => exact hu.modify_ipc (n := none) hi hrel (fun _ => rfl) (fun _ => rfl) fun _ => rfl
  | true =>
    have hacq := hrel.acquire (Function.update_self ..) .ipcClient
    rw [Function.update_idem] at hacq
    have hset := hu.modify_ipc (n := some _) hi hacq (f := fun m =>
      { m with
        ipcStreamHandle := some ((s.use (s.record i)).release (s.ipc i)).ledger.made })
      (fun _ => rfl) (fun _ => rfl) fun _ => rfl
    cases access with
    | false => exact hset
    | true => exact (hset.use (.ipc i)).modify (fun _ => rfl) (fun _ => rfl) fun _ => rfl

theorem tcp_modify_of_ne {j : Fin maxMappingNum} (hj : j ≠ i) :
    (s.modify i f).tcp j = s.tcp j := by
  simp [State.tcp, hj]

theorem ipc_modify_of_ne {j : Fin maxMappingNum} (hj : j ≠ i) :
    (s.modify i f).ipc j = s.ipc j := by
  simp [State.ipc, hj]

theorem proxyLaunchTcp_tcp (ok : Bool) {j : Fin maxMappingNum} (hj : j ≠ i) :
    (proxyLaunchTcp ok i s).1.tcp j = s.tcp j := by
  cases ok <;> exact tcp_modify_of_ne hj

theorem proxyLaunchTcp_isSome (ok : Bool) (hi : (s.pMapping i).isSome) :
    ((proxyLaunchTcp ok i s).1.pMapping i).isSome := by
  cases ok <;> simpa [proxyLaunchTcp, State.init, State.use] using hi

theorem proxyConnectIpc_tcp (a : IpcAnswers) (j : Fin maxMappingNum) :
    (proxyConnectIpc a i s).1.tcp j = s.tcp j := by
  obtain ⟨init, access, connect⟩ := a
  cases init with
  | false =>
    refine Eq.trans (tcp_modify ?_ j) rfl
    exact fun _ => rfl
  | true =>
    cases access with
    | false =>
      refine Eq.trans (tcp_modify ?_ j) rfl
      exact fun _ => rfl
    | true =>
      refine Eq.trans (tcp_modify ?_ j) (Eq.trans (tcp_modify ?_ j) rfl)
      · exact fun _ => rfl
      · exact fun _ => rfl

end Calls

section Start

variable {fd d l : Option ℕ} {s : State}

def NoHandles (s : State) : Prop := ∀ i, s.tcp i = none ∧ s.ipc i = none

theorem slot_setMapping {i : Fin maxMappingNum} {m : Option Mapping} (hs : NoHandles s)
    (hm : ∀ x ∈ m, x.tcpServerHandle = none ∧ x.ipcStreamHandle = none) :
    (s.setMapping i m).slot l =
        Function.update (s.slot l) (.record i) (m.map fun x => ⟨.mapping, x.record⟩) ∧
      NoHandles (s.setMapping i m) := by
  have hnone : NoHandles (s.setMapping i m) := by
    intro j
    by_cases hj : j = i
    · cases hx : m with
      | none => simp [State.tcp, State.ipc, State.setMapping, hj]
      | some x =>
        obtain ⟨ht, hp⟩ := hm x hx
        simp [State.tcp, State.ipc, State.setMapping, hj, ht, hp]
    · simpa [State.tcp, State.ipc, State.setMapping, hj] using hs j
  refine ⟨?_, hnone⟩
  funext a
  cases a with
  | record j => by_cases hj : j = i <;> simp [State.slot, State.record, State.setMapping, hj]
  | tcp j =>
    rw [Function.update_of_ne (by simp)]
    exact (hnone j).1.trans (hs j).1.symm
  | ipc j =>
    rw [Function.update_of_ne (by simp)]
    exact (hnone j).2.trans (hs j).2.symm
  | dgram => rfl
  | inotify => rfl

theorem parseTagMapping_inv (nodes : List Bool) (h : Inv fd d l s) (hs : NoHandles s) :
    Inv fd d l (parseTagMapping nodes s) ∧ NoHandles (parseTagMapping nodes s) := by
  induction nodes generalizing s with
  | nil => exact ⟨h, hs⟩
  | cons enable nodes ih =>
    rw [parseTagMapping]
    split_ifs with hcond
    · have hnone : s.pMapping ⟨s.mappingNum, hcond.2⟩ = none := by
        by_contra hne
        exact lt_irrefl _ (h.filled _ (Option.isSome_iff_ne_none.mpr hne))
      have hrecord : s.slot l (.record ⟨s.mappingNum, hcond.2⟩) = none := by
        simp [State.slot, State.record, hnone]
      obtain ⟨hslot, hno⟩ := slot_setMapping (l := l) (i := ⟨s.mappingNum, hcond.2⟩)
        (m := some ⟨s.ledger.made, none, none, false, false, -1, none, s.mappingNum⟩) hs
        (by simp)
      refine ih ⟨?_, ?_, h.inotifyFd, h.ipcDgramhandle⟩ hno
      · have hacq := h.owned.acquire hrecord .mapping
        exact hslot ▸ hacq
      · intro j hj
        by_cases hji : j = ⟨s.mappingNum, hcond.2⟩
        · simp [hji]
        · have hj' : (s.pMapping j).isSome := by
            simpa [State.setMapping, hji] using hj
          exact (h.filled j hj').trans (Nat.lt_succ_self _)
    · exact ih h hs

theorem proxyInitLoop_inv (σ : Setup) {is : List (Fin maxMappingNum)} (hnd : is.Nodup)
    (h : Inv fd d l s) (hs : ∀ i ∈ is, s.tcp i = none) : Inv fd d l (proxyInitLoop σ is s).1 := by
  induction is generalizing s with
  | nil => exact h
  | cons i is ih =>
    obtain ⟨hi, hnd⟩ := List.nodup_cons.mp hnd
    obtain ⟨hsi, hs⟩ := List.forall_mem_cons.mp hs
    simp only [proxyInitLoop]
    by_cases hm : (s.pMapping i).isSome
    · have hlaunch := proxyLaunchTcp_inv h (σ.tcp i) hm hsi
      have hconnect := proxyConnectIpc_inv hlaunch (σ.ipc i) (proxyLaunchTcp_isSome (σ.tcp i) hm)
      rw [if_pos hm]
      split_ifs
      · exact hlaunch
      · exact hconnect
      · refine ih hnd hconnect fun j hj => ?_
        have hji : j ≠ i := by
          intro heq
          obtain rfl := heq
          exact hi hj
        rw [proxyConnectIpc_tcp, proxyLaunchTcp_tcp _ hji]
        exact hs j hj
    · rw [if_neg hm]
      exact ih hnd h hs

theorem proxyInit_inv (σ : Setup) (h : Inv fd d l s) (hs : NoHandles s) :
    Inv fd d l (proxyInit σ s).1 :=
  proxyInitLoop_inv σ ((List.nodup_finRange _).filter _) h fun i _ => (hs i).1

theorem slot_inotifyFd (s : State) (n : Option ℕ) :
    { s with inotifyFd := n }.slot l =
      Function.update (s.slot l) .inotify (n.map fun h => ⟨.inotify, h⟩) := by
  funext a
  cases a <;> rfl

theorem addWatch_inv (σ : Setup) (i : Fin maxMappingNum) (h : Inv fd d l s) :
    Inv fd d l (addWatch σ s i) := by
  have hu := (h.use .inotify).use (.record i)
  simp only [addWatch]
  split_ifs
  · exact hu
  · exact hu.modify (fun _ => rfl) (fun _ => rfl) fun _ => rfl
  · exact h

theorem eventInit_inv (σ : Setup) (h : Inv none d l s) :
    ∃ fd, Inv fd d l (eventInit σ s).1 := by
  have hnone : s.slot l .inotify = none := by
    simp [State.slot, State.inotify, h.inotifyFd]
  cases hok : σ.inotify with
  | false =>
    refine ⟨none, ?_⟩
    simp only [eventInit, State.init, hok]
    have hslot := slot_inotifyFd (l := l) s none
    rw [Option.map_none, Function.update_eq_self_iff.mpr hnone.symm] at hslot
    exact ⟨hslot ▸ h.owned, h.filled, rfl, h.ipcDgramhandle⟩
  | true =>
    refine ⟨some s.ledger.made, ?_⟩
    simp only [eventInit, State.init, hok, if_true]
    refine List.foldlRecOn _ _ ⟨?_, h.filled, rfl, h.ipcDgramhandle⟩ fun t ht i _ =>
      addWatch_inv σ i ht
    have hslot := slot_inotifyFd (l := l) s (some s.ledger.made)
    exact hslot ▸ h.owned.acquire hnone .inotify

end Start

section Stop

variable {fd d l : Option ℕ} {s : State}

theorem rmWatch_inv (i : Fin maxMappingNum) (h : Inv fd d l s) : Inv fd d l (rmWatch s i) := by
  simp only [rmWatch]
  split_ifs
  · exact ((h.use (.record i)).use .inotify).modify (fun _ => rfl) (fun _ => rfl) fun _ => rfl
  · exact h.use (.record i)

theorem eventUninit_inv (h : Inv fd d l s) : Inv none d l (eventUninit s) := by
  have hloop : Inv fd d l ((indices s.mappingNum).foldl rmWatch s) :=
    List.foldlRecOn _ _ h fun t ht i _ => rmWatch_inv i ht
  refine ⟨?_, hloop.filled, rfl, hloop.ipcDgramhandle⟩
  have hslot := slot_inotifyFd (l := l) ((indices s.mappingNum).foldl rmWatch s) none
  exact hslot ▸ hloop.owned.release .inotify

/-- A loop whose body establishes `P a` at `a` and keeps it elsewhere establishes it for all the
elements it visits. -/
theorem foldl_establishes {α β : Type*} {f : β → α → β} {I : β → Prop} {P : α → β → Prop}
    (hI : ∀ b a, I b → I (f b a)) (hP : ∀ b a, I b → P a (f b a))
    (hk : ∀ b a c, I b → P c b → P c (f b a)) {b : β} (h : I b) (as : List α) :
    ∀ a ∈ as, P a (as.foldl f b) := by
  induction as generalizing b with
  | nil => simp
  | cons a as ih =>
    refine List.forall_mem_cons.mpr ⟨?_, ih (hI b a h)⟩
    have hboth : I (as.foldl f (f b a)) ∧ P a (as.foldl f (f b a)) :=
      List.foldlRecOn (motive := fun t => I t ∧ P a t) as _ ⟨hI b a h, hP b a h⟩
        fun t ht c _ => ⟨hI t c ht.1, hk t c a ht.1 ht.2⟩
    exact hboth.2

theorem cease_disconnect (i j : Fin maxMappingNum)
    (hs : i = j ∨ s.tcp j = none ∧ s.ipc j = none) :
    (proxyCeaseTcp i (proxyDisconnectIpc i s)).tcp j = none ∧
      (proxyCeaseTcp i (proxyDisconnectIpc i s)).ipc j = none := by
  by_cases hj : j = i
  · cases hm : s.pMapping j <;>
      simp [proxyCeaseTcp, proxyDisconnectIpc, State.tcp, State.ipc, State.use, State.release,
        ← hj, hm]
  · obtain ⟨ht, hp⟩ := hs.resolve_left (Ne.symm hj)
    constructor
    · exact (tcp_modify_of_ne hj).trans ((tcp_modify_of_ne hj).trans ht)
    · exact (ipc_modify_of_ne hj).trans ((ipc_modify_of_ne hj).trans hp)

theorem proxyUninit_inv (h : Inv fd d l s) :
    Inv fd d l (proxyUninit s) ∧ NoHandles (proxyUninit s) := by
  have hbody : ∀ (t : State) (i : Fin maxMappingNum),
      Inv fd d l t ∧ t.mappingNum = s.mappingNum →
      Inv fd d l (if (t.pMapping i).isSome then proxyCeaseTcp i (proxyDisconnectIpc i t) else t) ∧
        (if (t.pMapping i).isSome then proxyCeaseTcp i (proxyDisconnectIpc i t)
          else t).mappingNum = s.mappingNum := by
    intro t i ⟨ht, hnum⟩
    split_ifs with hi
    · refine ⟨proxyCeaseTcp_inv (proxyDisconnectIpc_inv ht hi) ?_, hnum⟩
      simpa [proxyDisconnectIpc, State.use, State.release] using hi
    · exact ⟨ht, hnum⟩
  have hloop : Inv fd d l (proxyUninit s) ∧ (proxyUninit s).mappingNum = s.mappingNum :=
    List.foldlRecOn (motive := fun t => Inv fd d l t ∧ t.mappingNum = s.mappingNum)
      (indices s.mappingNum) _ ⟨h, rfl⟩ fun t ht i _ => hbody t i ht
  refine ⟨hloop.1, fun i => ?_⟩
  have hvisited := foldl_establishes (P := fun i t => t.tcp i = none ∧ t.ipc i = none) hbody
    (fun t i _ => by
      split_ifs with hi
      · exact cease_disconnect i i (.inl rfl)
      · simp [State.tcp, State.ipc, Option.not_isSome_iff_eq_none.mp hi])
    (fun t i j _ hj => by
      split_ifs
      · exact cease_disconnect i j (.inr hj)
      · exact hj) ⟨h, rfl⟩ (indices s.mappingNum) i
  by_cases hi : (i : ℕ) < s.mappingNum
  · exact hvisited (by simpa [indices] using hi)
  · have hnone : (proxyUninit s).pMapping i = none := by
      by_contra hne
      exact hi (hloop.2 ▸ hloop.1.filled i (Option.isSome_iff_ne_none.mpr hne))
    simp [State.tcp, State.ipc, hnone]

theorem freeMapping_inv (i : Fin maxMappingNum) (h : Inv fd d l s ∧ NoHandles s) :
    Inv fd d l (freeMapping s i) ∧ NoHandles (freeMapping s i) := by
  obtain ⟨hslot, hno⟩ := slot_setMapping (l := l) (i := i) (m := none) h.2 (by simp)
  refine ⟨⟨hslot ▸ h.1.owned.release (.record i), fun j hj => ?_, h.1.inotifyFd,
    h.1.ipcDgramhandle⟩, hno⟩
  by_cases hji : j = i
  · simp [freeMapping, State.setMapping, hji] at hj
  · exact h.1.filled j (by simpa [freeMapping, State.setMapping, State.release, hji] using hj)

theorem servUninit_released (h : Inv fd d d s) :
    (∀ e ∈ (servUninit s).ledger.entries, ReleasedOnce (servUninit s).ledger.entries e.resource) ∧
      (∀ i, (servUninit s).pMapping i = none) ∧ (servUninit s).mappingNum = 0 := by
  have hdgram : Inv fd d none (s.release s.dgram) := by
    refine ⟨?_, h.filled, h.inotifyFd, h.ipcDgramhandle⟩
    have hslot : s.slot d .dgram = s.dgram := by
      rw [State.dgram, h.ipcDgramhandle]
      rfl
    have hrest : (s.release s.dgram).slot none = Function.update (s.slot d) .dgram none := by
      funext a
      cases a <;> rfl
    rw [hrest]
    exact hslot ▸ h.owned.release .dgram
  have hproxy := proxyUninit_inv (eventUninit_inv hdgram)
  have hfree := List.foldlRecOn (motive := fun t => Inv none d none t ∧ NoHandles t)
    (List.finRange maxMappingNum) _ hproxy fun t ht i _ => freeMapping_inv i ht
  have hnull : ∀ i, ((List.finRange maxMappingNum).foldl freeMapping
      (proxyUninit (eventUninit (s.release s.dgram)))).pMapping i = none := fun i =>
    foldl_establishes (f := freeMapping) (I := fun _ => True)
      (P := fun i t => t.pMapping i = none) (fun _ _ _ => trivial)
      (fun t i _ => by simp [freeMapping, State.setMapping])
      (fun t i j _ hj => by
        by_cases hji : j = i <;> simp [freeMapping, State.setMapping, State.release, hji, hj])
      trivial _ i (List.mem_finRange i)
  refine ⟨hfree.1.owned.releasedOnce fun a => ?_, hnull, rfl⟩
  cases a with
  | record i => exact congrArg (Option.map _) (hnull i)
  | tcp i => exact (hfree.2 i).1
  | ipc i => exact (hfree.2 i).2
  | dgram => rfl
  | inotify => exact congrArg (Option.map _) hfree.1.inotifyFd

end Stop

section Run

variable {fd d : Option ℕ} {s : State}

theorem Inv.noDgram (h : Inv fd d none s) :
    Inv fd none none { s with ipcDgramhandle := none } :=
  ⟨h.owned, h.filled, h.inotifyFd, rfl⟩

theorem Inv.acquire_dgram (h : Inv fd d none s) :
    Inv fd (some s.ledger.made) (some s.ledger.made)
      { s with
        ledger := s.ledger.acquire .ipcDgram
        ipcDgramhandle := some s.ledger.made } := by
  refine ⟨?_, h.filled, h.inotifyFd, rfl⟩
  have hacq := h.owned.acquire (a := Slot.dgram) rfl .ipcDgram
  convert hacq using 1
  funext a
  cases a <;> rfl

theorem servInit_inv (σ : Setup) : ∃ fd d, Inv fd d d (servInit σ boot).1 := by
  have hboot : Inv none none none boot := by
    refine ⟨?_, by simp [boot], rfl, rfl⟩
    have hslot : boot.slot none = fun _ => none := by
      funext a
      cases a <;> rfl
    exact hslot ▸ Owned.init
  have hno : NoHandles boot := fun i => ⟨rfl, rfl⟩
  cases hxml : σ.xml with
  | none =>
    refine ⟨none, none, ?_⟩
    simp only [servInit, hxml, xmlInit]
    exact hboot
  | some nodes =>
    obtain ⟨hparse, hparsed⟩ := parseTagMapping_inv nodes hboot hno
    have hproxy := proxyInit_inv σ hparse hparsed
    obtain ⟨fd, hevent⟩ := eventInit_inv σ hproxy
    simp only [servInit, hxml, xmlInit]
    split_ifs
    · contradiction
    · exact ⟨none, none, hparse⟩
    · exact ⟨none, none, hproxy⟩
    · exact ⟨fd, none, (proxyUninit_inv hevent).1⟩
    · cases hok : σ.dgram with
      | false =>
        simp only [State.init, Bool.false_eq_true, if_false]
        have hclosed := hevent.noDgram
        exact ⟨none, none, (proxyUninit_inv (eventUninit_inv hclosed)).1⟩
      | true =>
        simp only [State.init, if_true]
        exact ⟨fd, _, hevent.acquire_dgram⟩

theorem event_inv (e : Event) (h : Inv fd d d s) : ∃ fd, Inv fd d d (e.run s) := by
  cases e with
  | reconnect i a =>
    refine ⟨fd, ?_⟩
    simp only [Event.run, eventMonitor]
    split_ifs with hi
    · exact proxyConnectIpc_inv (h.use .inotify) a hi
    · exact h.use .inotify
  | exit => exact ⟨none, eventUninit_inv h⟩
  | tcpAcpt i pUser =>
    exact ⟨fd, (h.use (.record i)).modify (fun _ => rfl) (fun _ => rfl) fun _ => rfl⟩
  | tcpExit i =>
    exact ⟨fd, (h.use (.record i)).modify (fun _ => rfl) (fun _ => rfl) fun _ => rfl⟩
  | tcpRecv i => exact ⟨fd, (h.use (.record i)).use (.ipc i)⟩
  | ipcExit i =>
    exact ⟨fd, (h.use (.record i)).modify (fun _ => rfl) (fun _ => rfl) fun _ => rfl⟩

theorem events_inv (es : List Event) (h : ∃ fd, Inv fd d d s) :
    ∃ fd, Inv fd d d (es.foldl Event.run s) := by
  induction es generalizing s with
  | nil => exact h
  | cons e es ih =>
    obtain ⟨fd, h⟩ := h
    exact ih (event_inv e h)

/-- In every run of the daemon each resource that is acquired is released once and not used after
that, and the table of mappings ends empty. -/
theorem daemon_releases (σ : Setup) (es : List Event) :
    (∀ e ∈ (main σ es).ledger.entries, ReleasedOnce (main σ es).ledger.entries e.resource) ∧
      (∀ i, (main σ es).pMapping i = none) ∧ (main σ es).mappingNum = 0 := by
  obtain ⟨fd, d, hinit⟩ := servInit_inv σ
  simp only [main]
  split_ifs
  · exact servUninit_released hinit
  · obtain ⟨fd, hrun⟩ := events_inv es ⟨fd, hinit⟩
    exact servUninit_released hrun

end Run

end LibComm.Daemon

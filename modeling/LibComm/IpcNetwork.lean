import Mathlib.Data.Fintype.Fin
import LibComm.ByteStream
import LibComm.Interleaving
import LibComm.PeerAddress
import LibComm.SendCall

/-!
# IPC datagram handles that share a file system

An IPC datagram handle is reached through the name that its socket is bound
to. `comm_ipcDgramInit` removes the name before it binds, whoever it belongs
to, and `comm_ipcDgramUninit` removes it after it has closed the socket; either
`unlink` may fail. The system calls of all handles, of any number of processes,
are interleaved. Paths with different spellings may lead to one directory
entry, and a relative path to different entries in two processes.
-/

namespace LibComm.IpcNetwork
open ByteMemory ByteStream Interleaving SendCall
open PeerAddress (AddrBuf PathCallback recvAddr recvfromAddr slashA slashBcd)
open RecvTask (commBufSize)

variable {ι ε : Type*}

abbrev maxPath : ℕ := 107

structure Message (ι : Type*) where
  sender : ι
  dest : CString
  source : CString
  data : List UInt8
  deriving DecidableEq

def Message.cut (m : Message ι) : PeerAddress.Message :=
  ⟨⟨m.data.take commBufSize, List.length_take_le _ _⟩, some m.source⟩

inductive File (ι : Type*) where
  | socket (h : ι)
  | other
  deriving DecidableEq

inductive Pc where
  | absent
  | socket
  | bind
  | create
  | live
  | close
  | unlink
  | gone
  deriving DecidableEq

/-- A context with its socket, the address buffer and the callbacks of its receive task, and what
`comm_ipcDgramRecv` has returned for buffers of which size. -/
structure Handle (ι : Type*) where
  pc : Pc
  localPath : CString
  fd : ℤ
  recvFunc : Bool
  inbox : Channel (Message ι)
  addr : AddrBuf
  calls : List PathCallback
  returned : List (UInt16 × List UInt8)

/-- The entry that each handle's process finds under a path, the entries, the handles, and the
datagrams that have been taken with the handle they went to. -/
structure Network (ι ε : Type*) where
  entry : ι → CString → ε
  file : ε → Option (File ι)
  handle : ι → Handle ι
  sent : List (ι × Message ι)

inductive Label (ι : Type*) where
  | init (h : ι) (pFileName : CString) (recvFunc : Bool) (result : ℤ)
  | call (h : ι) (result : ℤ)
  | uninit (h : ι)
  | send (h : ι) (pFileName : CString) (pData : Option (ℕ → UInt8)) (size : UInt16) (room : Bool)
  | recvTask (h : ι)
  | recv (h : ι) (size : UInt16)

/-- The socket of the handle has a name and is open; a descriptor 0 is not closed. -/
def Handle.open_ (h : Handle ι) : Bool :=
  match h.pc with
  | .create => true
  | .live => true
  | .close => true
  | .unlink => 0 ≤ h.fd
  | _ => false

def addrAfter (ms : List PeerAddress.Message) (b : AddrBuf) : AddrBuf :=
  ms.foldl (fun b m => b.fill (recvfromAddr m.peer)) b

namespace Network
variable [DecidableEq ι] [DecidableEq ε]

def name (s : Network ι ε) (h : ι) : ε := s.entry h (s.handle h).localPath

def setHandle (s : Network ι ε) (h : ι) (c : Handle ι) : Network ι ε :=
  { s with handle := Function.update s.handle h c }

def setFile (s : Network ι ε) (e : ε) (f : Option (File ι)) : Network ι ε :=
  { s with file := Function.update s.file e f }

def goto (s : Network ι ε) (h : ι) (pc : Pc) : Network ι ε :=
  s.setHandle h { s.handle h with pc := pc }

def unlink (s : Network ι ε) (e : ε) (result : ℤ) : Network ι ε :=
  if result = 0 then s.setFile e none else s

def ipcDgramInit (s : Network ι ε) (h : ι) (pFileName : CString) (recvFunc : Bool) (result : ℤ) :
    Option (Network ι ε) :=
  if (s.handle h).pc = .absent ∧ pFileName.bytes ≠ [] ∧ pFileName.bytes.length ≤ maxPath then
    some ((s.unlink (s.entry h pFileName) result).setHandle h
      { s.handle h with pc := .socket, localPath := pFileName, fd := -1, recvFunc := recvFunc })
  else none

/-- The next call of `comm_ipcDgramInit` or `comm_ipcDgramUninit`, given its result. A `bind` to a
name that exists fails. -/
def call (s : Network ι ε) (h : ι) (result : ℤ) : Option (Network ι ε) :=
  let c := s.handle h
  match c.pc with
  | .socket =>
    some (if result < 0 then s.goto h .gone else s.setHandle h { c with fd := result, pc := .bind })
  | .bind =>
    some (if (s.file (s.name h)).isSome ∨ result < 0 then s.goto h .gone
      else (s.setFile (s.name h) (some (.socket h))).goto h (if c.recvFunc then .create else .live))
  | .create => some (s.goto h (if result = 0 then .live else .close))
  | .close =>
    some (s.setHandle h { c with fd := if c.fd > 0 then -1 else c.fd, pc := .unlink })
  | .unlink => some ((s.unlink (s.name h) result).goto h .gone)
  | _ => none

/-- `sendto` fails unless the path leads to the name of an open socket with room; the empty path is
that of no file. -/
def ipcDgramSend (s : Network ι ε) (h : ι) (pFileName : CString) (pData : Option (ℕ → UInt8))
    (size : UInt16) (room : Bool) : Option (Network ι ε) :=
  if (s.handle h).pc = .live ∧ pFileName.bytes.length ≤ maxPath then
    match Args.request ⟨some (s.handle h).fd, pData, size⟩, s.file (s.entry h pFileName) with
    | some bs, some (.socket k) =>
      if pFileName.bytes ≠ [] ∧ (s.handle k).open_ = true ∧ room = true then
        let m : Message ι := ⟨h, pFileName, (s.handle h).localPath, bs⟩
        some { s.setHandle k { s.handle k with inbox := (s.handle k).inbox.write [m] } with
          sent := s.sent ++ [(k, m)] }
      else some s
    | _, _ => some s
  else none

def ipcDgramRecvTask (s : Network ι ε) (h : ι) : Option (Network ι ε) :=
  let c := s.handle h
  if hq : c.pc = .live ∧ c.recvFunc = true ∧ 1 ≤ c.inbox.queue.length then
    let ms := (c.inbox.queue.take 1).map Message.cut
    some (s.setHandle h { c with
      inbox := c.inbox.read 1 hq.2.2
      addr := addrAfter ms c.addr
      calls := c.calls ++ PeerAddress.ipcDgramRecvTask ms c.addr })
  else none

def ipcDgramRecv (s : Network ι ε) (h : ι) (size : UInt16) : Option (Network ι ε) :=
  let c := s.handle h
  if c.pc = .live then
    if c.fd < 0 ∨ c.recvFunc = true ∨ size = 0 then some s
    else if hq : 1 ≤ c.inbox.queue.length then
      some (s.setHandle h { c with
        inbox := c.inbox.read 1 hq
        returned := c.returned ++
          (c.inbox.queue.take 1).map fun m => (size, m.data.take size.toNat) })
    else none
  else none

def step (s : Network ι ε) : Label ι → Option (Network ι ε)
  | .init h pFileName recvFunc result => s.ipcDgramInit h pFileName recvFunc result
  | .call h result => s.call h result
  | .uninit h => if (s.handle h).pc = .live then some (s.goto h .close) else none
  | .send h pFileName pData size room => s.ipcDgramSend h pFileName pData size room
  | .recvTask h => s.ipcDgramRecvTask h
  | .recv h size => s.ipcDgramRecv h size

def start (entry : ι → CString → ε) (file : ε → Bool) (behind : ι → ℕ → UInt8) : Network ι ε :=
  ⟨entry, fun e => if file e then some .other else none,
    fun h => ⟨.absent, ⟨[], by simp⟩, -1, false, .empty, recvAddr (behind h), [], []⟩, []⟩

end Network

def unlinks (s : Network ι ε) : Label ι → Option ε
  | .init h p _ result => if result = 0 then some (s.entry h p) else none
  | .call h result => if (s.handle h).pc = .unlink ∧ result = 0 then some (s.name h) else none
  | _ => none

def Pc.leadsTo : Pc → Pc → Bool
  | .socket, .bind | .socket, .gone | .bind, .gone => true
  | .create, .live | .create, .close | .live, .close | .close, .unlink => true
  | _, _ => false

inductive Move [DecidableEq ι] [DecidableEq ε] (s : Network ι ε) : Label ι → Network ι ε → Prop
  | init {h : ι} {p : CString} {recvFunc : Bool} {result : ℤ} (hpc : (s.handle h).pc = .absent)
      (hlen : p.bytes.length ≤ maxPath) :
    Move s (.init h p recvFunc result) ((s.unlink (s.entry h p) result).setHandle h
      { s.handle h with pc := .socket, localPath := p, fd := -1, recvFunc := recvFunc })
  | advance {l : Label ι} {h : ι} {pc : Pc} {fd : ℤ} (hl : unlinks s l = none)
      (hpc : (s.handle h).pc.leadsTo pc = true) :
    Move s l (s.setHandle h { s.handle h with pc := pc, fd := fd })
  | bind {h : ι} {result : ℤ} {pc : Pc} (hpc : (s.handle h).pc = .bind)
      (hfree : s.file (s.name h) = none) (hnext : pc = .create ∨ pc = .live) :
    Move s (.call h result) ((s.setFile (s.name h) (some (.socket h))).goto h pc)
  | unlink {h : ι} {result : ℤ} (hpc : (s.handle h).pc = .unlink) :
    Move s (.call h result) ((s.unlink (s.name h) result).goto h .gone)
  | send {h k : ι} {p : CString} {pData : Option (ℕ → UInt8)} {size : UInt16} {room : Bool}
      {m : Message ι} (hfile : s.file (s.entry h p) = some (.socket k))
      (hm : m.sender = h ∧ m.dest = p) :
    Move s (.send h p pData size room)
      { s.setHandle k { s.handle k with inbox := (s.handle k).inbox.write [m] } with
        sent := s.sent ++ [(k, m)] }
  | handed {h : ι} {ms : List PeerAddress.Message} (hf : (s.handle h).recvFunc = true)
      (hq : 1 ≤ (s.handle h).inbox.queue.length)
      (hms : ms = ((s.handle h).inbox.queue.take 1).map Message.cut) :
    Move s (.recvTask h) (s.setHandle h { s.handle h with
      inbox := (s.handle h).inbox.read 1 hq
      addr := addrAfter ms (s.handle h).addr
      calls := (s.handle h).calls ++ PeerAddress.ipcDgramRecvTask ms (s.handle h).addr })
  | polled {h : ι} {size : UInt16} (hf : (s.handle h).recvFunc = false)
      (hq : 1 ≤ (s.handle h).inbox.queue.length) :
    Move s (.recv h size) (s.setHandle h { s.handle h with
      inbox := (s.handle h).inbox.read 1 hq
      returned := (s.handle h).returned ++
        ((s.handle h).inbox.queue.take 1).map fun m => (size, m.data.take size.toNat) })
  | refused {l : Label ι} (hl : unlinks s l = none) : Move s l s

theorem call_move [DecidableEq ι] [DecidableEq ε] {s t : Network ι ε} {h : ι} {result : ℤ}
    (ht : s.call h result = some t) : Move s (.call h result) t := by
  cases hpc : (s.handle h).pc with
  | absent | live | gone => simp [Network.call, hpc] at ht
  | socket =>
    simp only [Network.call, hpc, Option.some.injEq] at ht
    subst ht
    split_ifs
    · exact .advance (by simp [unlinks, hpc]) (by simp [hpc, Pc.leadsTo])
    · exact .advance (by simp [unlinks, hpc]) (by simp [hpc, Pc.leadsTo])
  | bind =>
    simp only [Network.call, hpc, Option.some.injEq] at ht
    subst ht
    by_cases hfail : (s.file (s.name h)).isSome ∨ result < 0
    · rw [if_pos hfail]
      exact .advance (by simp [unlinks, hpc]) (by simp [hpc, Pc.leadsTo])
    · rw [if_neg hfail]
      refine .bind hpc (by simpa using fun hx => hfail (.inl hx)) ?_
      split_ifs <;> simp
  | create =>
    simp only [Network.call, hpc, Option.some.injEq] at ht
    subst ht
    refine .advance (by simp [unlinks, hpc]) ?_
    split_ifs <;> simp [hpc, Pc.leadsTo]
  | close =>
    simp only [Network.call, hpc, Option.some.injEq] at ht
    subst ht
    exact .advance (by simp [unlinks, hpc]) (by simp [hpc, Pc.leadsTo])
  | unlink =>
    simp only [Network.call, hpc, Option.some.injEq] at ht
    subst ht
    exact .unlink hpc

theorem step_move [DecidableEq ι] [DecidableEq ε] {s t : Network ι ε} {l : Label ι}
    (ht : s.step l = some t) : Move s l t := by
  cases l with
  | init h p recvFunc result =>
    simp only [Network.step, Network.ipcDgramInit, Option.ite_none_right_eq_some,
      Option.some.injEq] at ht
    obtain ⟨⟨hpc, -, hlen⟩, rfl⟩ := ht
    exact .init hpc hlen
  | call h result => exact call_move ht
  | uninit h =>
    simp only [Network.step, Option.ite_none_right_eq_some, Option.some.injEq] at ht
    obtain ⟨hpc, rfl⟩ := ht
    exact .advance rfl (by simp [hpc, Pc.leadsTo])
  | send h p pData size room =>
    simp only [Network.step, Network.ipcDgramSend, Option.ite_none_right_eq_some] at ht
    obtain ⟨-, ht⟩ := ht
    split at ht
    · rename_i bs k _ hfile
      split_ifs at ht <;> obtain rfl := Option.some.inj ht
      · exact .send hfile ⟨rfl, rfl⟩
      · exact .refused rfl
    · exact Option.some.inj ht ▸ .refused rfl
  | recvTask h =>
    simp only [Network.step, Network.ipcDgramRecvTask, Option.dite_none_right_eq_some,
      Option.some.injEq] at ht
    obtain ⟨hq, rfl⟩ := ht
    exact .handed hq.2.1 hq.2.2 rfl
  | recv h size =>
    simp only [Network.step, Network.ipcDgramRecv, Option.ite_none_right_eq_some] at ht
    obtain ⟨-, ht⟩ := ht
    split_ifs at ht with hg hq <;> obtain rfl := Option.some.inj ht
    · exact .refused rfl
    · exact .polled (by simp_all) hq

def Handle.handed (c : Handle ι) : List (Message ι) := if c.recvFunc then c.inbox.delivered else []

def Handle.polled (c : Handle ι) : List (Message ι) := if c.recvFunc then [] else c.inbox.delivered

/-- What a handle has been sent was addressed to its name, and it gets it in order, through its
callbacks or through the calls that poll it. -/
structure Delivers (entry : ι → CString → ε) (behind : ℕ → UInt8) (h : ι)
    (sent : List (Message ι)) (c : Handle ι) : Prop where
  calls : c.calls = PeerAddress.ipcDgramRecvTask (c.handed.map Message.cut) (recvAddr behind)
  returned : List.Forall₂ (fun m r => r.2 = m.data.take (UInt16.toNat r.1)) c.polled c.returned
  sent : sent = c.inbox.written
  addressed : ∀ m ∈ c.inbox.written, entry m.sender m.dest = entry h c.localPath

def Pc.bound : Pc → Bool
  | .absent | .socket | .bind => false
  | .create | .live | .close | .unlink | .gone => true

structure Received (entry : ι → CString → ε) (behind : ℕ → UInt8) (h : ι)
    (sent : List (Message ι)) (c : Handle ι) : Prop extends Delivers entry behind h sent c where
  addr : c.addr = addrAfter (c.handed.map Message.cut) (recvAddr behind)
  fresh : c.pc.bound = false → c.inbox.written = []

/-- A name refers to no socket but one that has been bound to it. -/
structure Inv [DecidableEq ι] (behind : ι → ℕ → UInt8) (s : Network ι ε) : Prop where
  received : ∀ h, Received s.entry (behind h) h (share h s.sent) (s.handle h)
  named : ∀ e h, s.file e = some (.socket h) → s.name h = e ∧ (s.handle h).pc.bound = true

section Updates
variable {s : Network ι ε} {h k : ι} {c : Handle ι} {e : ε} {f : Option (File ι)} {result : ℤ}

section Handles
variable [DecidableEq ι]

@[simp] theorem setHandle_handle : (s.setHandle h c).handle = Function.update s.handle h c := rfl

@[simp] theorem setHandle_file : (s.setHandle h c).file = s.file := rfl

@[simp] theorem setHandle_sent : (s.setHandle h c).sent = s.sent := rfl

@[simp] theorem setHandle_entry : (s.setHandle h c).entry = s.entry := rfl

theorem name_setHandle (hc : c.localPath = (s.handle h).localPath) :
    (s.setHandle h c).name k = s.name k := by
  by_cases hk : k = h
  · subst hk
    simp [Network.name, hc]
  · simp [Network.name, hk]

end Handles

section Files
variable [DecidableEq ε]

@[simp] theorem setFile_handle : (s.setFile e f).handle = s.handle := rfl

@[simp] theorem setFile_file : (s.setFile e f).file = Function.update s.file e f := rfl

@[simp] theorem setFile_entry : (s.setFile e f).entry = s.entry := rfl

theorem name_setFile : (s.setFile e f).name h = s.name h := rfl

@[simp] theorem unlink_handle : (s.unlink e result).handle = s.handle := by
  unfold Network.unlink
  split_ifs <;> rfl

@[simp] theorem unlink_entry : (s.unlink e result).entry = s.entry := by
  unfold Network.unlink
  split_ifs <;> rfl

theorem name_unlink : (s.unlink e result).name h = s.name h := by
  simp [Network.name]

theorem unlink_goto [DecidableEq ι] {pc : Pc} :
    (s.unlink e result).goto h pc = (s.goto h pc).unlink e result := by
  unfold Network.unlink
  split_ifs <;> rfl

theorem unlink_file (s : Network ι ε) (result : ℤ) (e e' : ε) :
    (result = 0 ∧ e = e' ∧ (s.unlink e result).file e' = none) ∨
      ¬ (result = 0 ∧ e = e') ∧ (s.unlink e result).file e' = s.file e' := by
  unfold Network.unlink
  by_cases hr : result = 0
  · by_cases he : e = e'
    · subst he
      exact .inl ⟨hr, rfl, by simp [hr]⟩
    · exact .inr ⟨by simp [he], by simp [hr, Ne.symm he]⟩
  · exact .inr ⟨by simp [hr], by simp [hr]⟩

end Files
end Updates

theorem recvTask_append (ms ms' : List PeerAddress.Message) (b : AddrBuf) :
    PeerAddress.ipcDgramRecvTask (ms ++ ms') b =
      PeerAddress.ipcDgramRecvTask ms b ++ PeerAddress.ipcDgramRecvTask ms' (addrAfter ms b) := by
  induction ms generalizing b with
  | nil => rfl
  | cons m ms ih => simp [PeerAddress.ipcDgramRecvTask, addrAfter, ih]

section Delivery
variable [DecidableEq ι] {behind : ι → ℕ → UInt8} {s t : Network ι ε} {h k : ι} {c : Handle ι}
  {p : CString} {e : ε}

theorem Inv.setHandle (hs : Inv behind s)
    (hc : Received s.entry (behind h) h (share h s.sent) c)
    (hn : (s.handle h).pc.bound = true →
      c.localPath = (s.handle h).localPath ∧ c.pc.bound = true) : Inv behind (s.setHandle h c) := by
  refine ⟨fun k => ?_, fun e k hk => ?_⟩
  · by_cases hkh : k = h
    · subst hkh
      simpa using hc
    · simpa [hkh] using hs.received k
  · obtain ⟨hname, hbound⟩ := hs.named e k hk
    by_cases hkh : k = h
    · subst hkh
      obtain ⟨hp, hb⟩ := hn hbound
      exact ⟨(name_setHandle hp).trans hname, by simpa using hb⟩
    · exact ⟨by simpa [Network.name, hkh] using hname, by simpa [hkh] using hbound⟩

theorem Inv.advance (hs : Inv behind s) {pc : Pc} {fd : ℤ}
    (hb : (s.handle h).pc.bound = true → pc.bound = true) :
    Inv behind (s.setHandle h { s.handle h with pc := pc, fd := fd }) := by
  obtain ⟨⟨hcalls, hret, hsent, haddressed⟩, haddr, hfresh⟩ := hs.received h
  refine hs.setHandle ⟨⟨hcalls, hret, hsent, haddressed⟩, haddr, fun hx => hfresh ?_⟩
    fun hx => ⟨rfl, hb hx⟩
  exact Bool.eq_false_iff.mpr fun hy => by simp [hb hy] at hx

theorem Inv.send (hs : Inv behind s) {m : Message ι}
    (hfile : s.file (s.entry m.sender m.dest) = some (.socket k)) :
    Inv behind
      { s.setHandle k { s.handle k with inbox := (s.handle k).inbox.write [m] } with
        sent := s.sent ++ [(k, m)] } := by
  obtain ⟨hdest, hbound⟩ := hs.named _ k hfile
  refine ⟨fun j => ?_, fun e j hj => ?_⟩
  · obtain ⟨⟨hcalls, hret, hsent, haddressed⟩, haddr, hfresh⟩ := hs.received j
    by_cases hj : j = k
    · subst hj
      refine ⟨⟨?_, ?_, by simp [share, ← hsent], ?_⟩, ?_, fun hx => ?_⟩
      · simpa [Handle.handed] using hcalls
      · simpa [Handle.polled] using hret
      · simp only [Network.name] at hdest
        simpa [or_imp, forall_and, hdest] using haddressed
      · simpa [Handle.handed] using haddr
      · simp [hbound] at hx
    · simpa [hj, Ne.symm hj, share] using hs.received j
  · obtain ⟨hname, hb⟩ := hs.named e j hj
    refine ⟨(name_setHandle (k := j) (c := { s.handle k with
      inbox := (s.handle k).inbox.write [m] }) rfl).trans hname, ?_⟩
    by_cases hjk : j = k
    · subst hjk
      simpa using hb
    · simpa [hjk] using hb

theorem Inv.handed (hs : Inv behind s) (hf : (s.handle h).recvFunc = true)
    (hq : 1 ≤ (s.handle h).inbox.queue.length) {ms : List PeerAddress.Message}
    (hms : ms = ((s.handle h).inbox.queue.take 1).map Message.cut) :
    Inv behind (s.setHandle h { s.handle h with
      inbox := (s.handle h).inbox.read 1 hq
      addr := addrAfter ms (s.handle h).addr
      calls := (s.handle h).calls ++ PeerAddress.ipcDgramRecvTask ms (s.handle h).addr }) := by
  obtain ⟨⟨hcalls, hret, hsent, haddressed⟩, haddr, hfresh⟩ := hs.received h
  refine hs.setHandle ⟨⟨?_, ?_, hsent, haddressed⟩, ?_, hfresh⟩ fun hb => ⟨rfl, hb⟩
  · simp only [Handle.handed, hf, if_true] at hcalls haddr ⊢
    rw [Channel.read_delivered, List.map_append, recvTask_append, ← hcalls, ← haddr, hms]
  · simpa [Handle.polled, hf] using hret
  · simp only [Handle.handed, hf, if_true] at haddr ⊢
    rw [Channel.read_delivered, List.map_append, haddr, hms]
    simp [addrAfter]

theorem Inv.polled (hs : Inv behind s) (hf : (s.handle h).recvFunc = false)
    (hq : 1 ≤ (s.handle h).inbox.queue.length) (size : UInt16) :
    Inv behind (s.setHandle h { s.handle h with
      inbox := (s.handle h).inbox.read 1 hq
      returned := (s.handle h).returned ++
        ((s.handle h).inbox.queue.take 1).map fun m => (size, m.data.take size.toNat) }) := by
  obtain ⟨⟨hcalls, hret, hsent, haddressed⟩, haddr, hfresh⟩ := hs.received h
  refine hs.setHandle ⟨⟨?_, ?_, hsent, haddressed⟩, ?_, hfresh⟩ fun hb => ⟨rfl, hb⟩
  · simpa [Handle.handed, hf] using hcalls
  · simp only [Handle.polled, hf, Bool.false_eq_true, if_false] at hret ⊢
    rw [Channel.read_delivered]
    exact List.rel_append hret
      (List.forall₂_map_right_iff.mpr (List.forall₂_same.mpr fun _ _ => rfl))
  · simpa [Handle.handed, hf] using haddr

theorem inv_start (entry : ι → CString → ε) (file : ε → Bool) (behind : ι → ℕ → UInt8) :
    Inv behind (Network.start entry file behind) := by
  refine ⟨fun h => ⟨⟨rfl, .nil, rfl, by simp [Network.start]⟩, rfl, fun _ => rfl⟩,
    fun e h he => ?_⟩
  simp only [Network.start] at he
  split_ifs at he
  simp at he

variable [DecidableEq ε]

theorem Inv.unlink (hs : Inv behind s) (e : ε) (result : ℤ) : Inv behind (s.unlink e result) := by
  unfold Network.unlink
  split_ifs
  · refine ⟨hs.received, fun e' k hk => ?_⟩
    by_cases he : e' = e
    · subst he
      simp at hk
    · exact hs.named e' k (by simpa [he] using hk)
  · exact hs

theorem Inv.bind (hs : Inv behind s) {pc : Pc} (hpc : pc.bound = true) :
    Inv behind ((s.setFile (s.name h) (some (.socket h))).goto h pc) := by
  have hset : Inv behind (s.goto h pc) := hs.advance fun _ => hpc
  refine ⟨hset.received, fun e k hk => ?_⟩
  by_cases he : e = s.name h
  · subst he
    obtain rfl : h = k := by simpa [Network.goto] using hk
    exact ⟨name_setHandle rfl, by simpa [Network.goto] using hpc⟩
  · exact hset.named e k (by simpa [Network.goto, he] using hk)

theorem Inv.init (hs : Inv behind s) (hpc : (s.handle h).pc = .absent) {recvFunc : Bool}
    {result : ℤ} :
    Inv behind ((s.unlink (s.entry h p) result).setHandle h
      { s.handle h with pc := .socket, localPath := p, fd := -1, recvFunc := recvFunc }) := by
  have hun := hs.unlink (s.entry h p) result
  have hunbound : ((s.unlink (s.entry h p) result).handle h).pc.bound = false := by
    simp [hpc, Pc.bound]
  have hfresh := (hun.received h).fresh hunbound
  simp only [unlink_handle] at hfresh
  have hnone : (s.handle h).inbox.delivered = [] := by
    simp [Channel.delivered, hfresh]
  obtain ⟨⟨hcalls, hret, hsent, haddressed⟩, haddr, -⟩ := hun.received h
  simp only [unlink_handle, Handle.handed, Handle.polled, hnone] at hcalls hret hsent haddr
  -- nothing has been received, whichever way it would be
  refine hun.setHandle ⟨⟨?_, ?_, hsent, by simp [hfresh]⟩, ?_, fun _ => hfresh⟩
    fun hb => absurd (hunbound.symm.trans hb) (by decide)
  · simpa [Handle.handed, hnone] using hcalls
  · simpa [Handle.polled, hnone] using hret
  · simpa [Handle.handed, hnone] using haddr

theorem leadsTo_bound {pc pc' : Pc} (h : pc.leadsTo pc' = true) (hb : pc.bound = true) :
    pc'.bound = true := by
  cases pc <;> cases pc' <;> simp [Pc.leadsTo, Pc.bound] at h hb ⊢

theorem Inv.step (hs : Inv behind s) {l : Label ι} (ht : s.step l = some t) : Inv behind t := by
  cases step_move ht with
  | init hpc hlen => exact hs.init hpc
  | advance hl hpc => exact hs.advance (leadsTo_bound hpc)
  | bind hpc hfree hnext => exact hs.bind (by obtain rfl | rfl := hnext <;> rfl)
  | unlink hpc => exact (hs.unlink _ _).advance fun _ => rfl
  | send hfile hm =>
    obtain ⟨rfl, rfl⟩ := hm
    exact hs.send hfile
  | handed hf hq hms => exact hs.handed hf hq hms
  | polled hf hq => exact hs.polled hf hq _
  | refused hl => exact hs

/-- In every interleaving, of handles with any paths, a handle gets the datagrams that it has been
sent in order, and all of them were addressed to its name. -/
theorem network_delivers {entry : ι → CString → ε} {file : ε → Bool} {ls : List (Label ι)}
    (hrun : exec Network.step (Network.start entry file behind) ls = some s) (h : ι) :
    Delivers s.entry (behind h) h (share h s.sent) (s.handle h) :=
  ((exec_invariant (fun _ _ _ hs ht => hs.step ht) (inv_start entry file behind) hrun).received
    h).toDelivers

/-- Every spelling leads to an entry of its own. -/
abbrev literal : Fin 2 → CString → CString := fun _ p => p

def twoHandles (shared : Bool) : List (Label (Fin 2)) :=
  [.init 0 slashA true 0, .call 0 3, .call 0 0, .call 0 0,
    .init 1 (if shared then slashA else slashBcd) false 0, .call 1 4, .call 1 0,
    .send 1 slashA (some fun _ => 7) 2 true]

theorem network_delivers_two : ∃ s,
    exec Network.step (Network.start literal (fun _ => true) fun _ _ => 0)
      (twoHandles false ++ [.recvTask 0]) = some s ∧
      Delivers s.entry (fun _ => 0) 0 (share 0 s.sent) (s.handle 0) := by
  obtain ⟨s, hs⟩ := Option.isSome_iff_exists.mp (by decide :
    (exec Network.step (Network.start literal (fun _ => true) fun _ _ => 0)
      (twoHandles false ++ [.recvTask 0])).isSome = true)
  exact ⟨s, hs, network_delivers hs 0⟩

end Delivery

def Pc.rank : Pc → ℕ
  | .absent => 0
  | .socket => 1
  | .bind => 2
  | .create => 3
  | .live => 4
  | .close => 5
  | .unlink => 6
  | .gone => 7

def Pc.used (pc : Pc) : Bool := pc != .absent && pc != .gone

/-- Nobody opens a path that leads to the name of another handle. -/
def Exclusive (s : Network ι ε) : Label ι → Prop
  | .init h p _ _ => ∀ k, k ≠ h → (s.handle k).pc.used = true → s.name k ≠ s.entry h p
  | _ => True

def Onward (c c' : Handle ι) : Prop :=
  c.pc.rank ≤ c'.pc.rank ∧ (c.pc ≠ .absent → c'.localPath = c.localPath)

instance [DecidableEq ι] [DecidableEq ε] [Fintype ι] (s : Network ι ε) :
    ∀ l, Decidable (Exclusive s l)
  | .init h p _ _ =>
    inferInstanceAs (Decidable (∀ k, k ≠ h → (s.handle k).pc.used = true →
      s.name k ≠ s.entry h p))
  | .call _ _ => .isTrue trivial
  | .uninit _ => .isTrue trivial
  | .send _ _ _ _ _ => .isTrue trivial
  | .recvTask _ => .isTrue trivial
  | .recv _ _ => .isTrue trivial

theorem rank_live {pc : Pc} (h : pc.rank = Pc.live.rank) : pc = .live := by
  cases pc <;> simp [Pc.rank] at h ⊢

theorem live_between {c d e : Handle ι} (hc : c.pc = .live) (hcd : Onward c d) (hde : Onward d e)
    (he : e.pc = .live) : d.pc = .live := by
  refine rank_live (Nat.le_antisymm ?_ ?_)
  · simpa [he] using hde.1
  · simpa [hc] using hcd.1

section Names
variable [DecidableEq ι] {s t : Network ι ε} {h k : ι} {p : CString} {e : ε} {l : Label ι}
  {ls : List (Label ι)}

theorem onward_setHandle {c : Handle ι} (hc : Onward (s.handle h) c) (k : ι) :
    Onward (s.handle k) ((s.setHandle h c).handle k) := by
  by_cases hk : k = h
  · subst hk
    simpa using hc
  · simp [hk, Onward]

structure Apart (s : Network ι ε) : Prop where
  distinct : ∀ j k, (s.handle j).pc.used = true → (s.handle k).pc.used = true →
    s.name j = s.name k → j = k
  own : ∀ k, (s.handle k).pc.used = true → (s.handle k).pc.bound = true →
    s.file (s.name k) = some (.socket k)
  short : ∀ k, (s.handle k).localPath.bytes.length ≤ maxPath

theorem Apart.setHandle (hs : Apart s) {c : Handle ι} (hp : c.localPath = (s.handle h).localPath)
    (hu : c.pc.used = true → (s.handle h).pc.used = true)
    (ho : c.pc.used = true → c.pc.bound = true → s.file (s.name h) = some (.socket h)) :
    Apart (s.setHandle h c) where
  distinct j k hj hk heq := by
    have hold : ∀ i, ((s.setHandle h c).handle i).pc.used = true →
        (s.handle i).pc.used = true := by
      intro i hi
      by_cases hih : i = h
      · subst hih
        exact hu (by simpa using hi)
      · simpa [hih] using hi
    rw [name_setHandle hp, name_setHandle hp] at heq
    exact hs.distinct j k (hold j hj) (hold k hk) heq
  own k hk hb := by
    rw [name_setHandle hp]
    by_cases hkh : k = h
    · subst hkh
      exact ho (by simpa using hk) (by simpa using hb)
    · exact hs.own k (by simpa [hkh] using hk) (by simpa [hkh] using hb)
  short k := by
    by_cases hkh : k = h
    · subst hkh
      simpa [hp] using hs.short k
    · simpa [hkh] using hs.short k

theorem Apart.open (hs : Apart s) {c : Handle ι} (hc : c.pc.bound = false)
    (hother : ∀ k, k ≠ h → (s.handle k).pc.used = true → s.name k ≠ s.entry h c.localPath)
    (hlen : c.localPath.bytes.length ≤ maxPath) : Apart (s.setHandle h c) where
  distinct j k hj hk heq := by
    by_cases hjh : j = h
    · by_cases hkh : k = h
      · rw [hjh, hkh]
      · subst hjh
        simp only [Network.name, setHandle_handle, setHandle_entry, Function.update_self,
          Function.update_of_ne hkh] at hk heq
        exact absurd heq.symm (hother k hkh hk)
    · by_cases hkh : k = h
      · subst hkh
        simp only [Network.name, setHandle_handle, setHandle_entry, Function.update_self,
          Function.update_of_ne hjh] at hj heq
        exact absurd heq (hother j hjh hj)
      · simp only [Network.name, setHandle_handle, setHandle_entry, Function.update_of_ne hjh,
          Function.update_of_ne hkh] at hj hk heq
        exact hs.distinct j k hj hk heq
  own k hk hb := by
    by_cases hkh : k = h
    · subst hkh
      simp [hc] at hb
    · simp only [Network.name, setHandle_handle, setHandle_entry, Function.update_of_ne hkh]
        at hk hb ⊢
      exact hs.own k hk hb
  short k := by
    by_cases hkh : k = h
    · subst hkh
      simpa using hlen
    · simpa [hkh] using hs.short k

theorem Apart.advance (hs : Apart s) {pc : Pc} {fd : ℤ}
    (hpc : (s.handle h).pc.leadsTo pc = true) :
    Apart (s.setHandle h { s.handle h with pc := pc, fd := fd }) := by
  have hearlier : pc.used = true → (s.handle h).pc.used = true := by
    cases hc : (s.handle h).pc <;> cases pc <;> simp [hc, Pc.leadsTo, Pc.used] at hpc ⊢
  have hbound : pc.used = true → pc.bound = true → (s.handle h).pc.bound = true := by
    cases hc : (s.handle h).pc <;> cases pc <;> simp [hc, Pc.leadsTo, Pc.used, Pc.bound] at hpc ⊢
  exact hs.setHandle rfl hearlier fun hu hb => hs.own h (hearlier hu) (hbound hu hb)

variable [DecidableEq ε]

theorem leadsTo_rank {pc pc' : Pc} (h : pc.leadsTo pc' = true) : pc.rank ≤ pc'.rank := by
  cases pc <;> cases pc' <;> simp [Pc.leadsTo, Pc.rank] at h ⊢

theorem step_onward (ht : s.step l = some t) (k : ι) : Onward (s.handle k) (t.handle k) := by
  cases step_move ht with
  | @init h p recvFunc result hpc hlen =>
    rw [setHandle_handle, unlink_handle, ← setHandle_handle]
    refine onward_setHandle ?_ k
    exact ⟨by simp [hpc, Pc.rank], fun hne => absurd hpc hne⟩
  | advance hl hpc =>
    refine onward_setHandle ?_ k
    exact ⟨leadsTo_rank hpc, fun _ => rfl⟩
  | bind hpc hfree hnext =>
    refine onward_setHandle ?_ k
    exact ⟨by obtain rfl | rfl := hnext <;> simp [hpc, Pc.rank], fun _ => rfl⟩
  | unlink hpc =>
    rw [Network.goto, setHandle_handle, unlink_handle, ← setHandle_handle]
    refine onward_setHandle ?_ k
    exact ⟨by simp [hpc, Pc.rank], fun _ => rfl⟩
  | send hfile hm =>
    change Onward (s.handle k) ((s.setHandle _ _).handle k)
    refine onward_setHandle ?_ k
    exact ⟨le_rfl, fun _ => rfl⟩
  | handed hf hq hms =>
    refine onward_setHandle ?_ k
    exact ⟨le_rfl, fun _ => rfl⟩
  | polled hf hq =>
    refine onward_setHandle ?_ k
    exact ⟨le_rfl, fun _ => rfl⟩
  | refused hl => exact ⟨le_rfl, fun _ => rfl⟩

theorem step_entry (ht : s.step l = some t) : t.entry = s.entry := by
  cases step_move ht with
  | init hpc hlen => exact unlink_entry
  | unlink hpc => exact unlink_entry
  | advance | bind | send | handed | polled | refused => rfl

/-- A name changes only if it is removed, or bound by a handle that finds it free. -/
theorem step_file (ht : s.step l = some t) (e : ε) :
    (unlinks s l = some e ∧ t.file e = none) ∨
      unlinks s l ≠ some e ∧ (t.file e = s.file e ∨
        ∃ h, (s.handle h).pc = .bind ∧ s.name h = e ∧ s.file e = none ∧
          t.file e = some (.socket h)) := by
  cases step_move ht with
  | @init h p recvFunc result hpc hlen =>
    obtain ⟨hr, he, hnone⟩ | ⟨hne, hsame⟩ := unlink_file s result (s.entry h p) e
    · exact .inl ⟨by simp [unlinks, hr, he], hnone⟩
    · exact .inr ⟨by simpa [unlinks] using hne, .inl hsame⟩
  | advance hl hpc => exact .inr ⟨by simp [hl], .inl rfl⟩
  | @bind h result pc hpc hfree hnext =>
    refine .inr ⟨by simp [unlinks, hpc], ?_⟩
    by_cases he : s.name h = e
    · subst he
      exact .inr ⟨h, hpc, rfl, hfree, by simp [Network.goto]⟩
    · exact .inl (by simp [Network.goto, Ne.symm he])
  | @unlink h result hpc =>
    obtain ⟨hr, he, hnone⟩ | ⟨hne, hsame⟩ := unlink_file s result (s.name h) e
    · exact .inl ⟨by simp [unlinks, hpc, hr, he], hnone⟩
    · exact .inr ⟨by simpa [unlinks, hpc] using hne, .inl hsame⟩
  | send hfile hm => exact .inr ⟨by simp [unlinks], .inl rfl⟩
  | handed hf hq hms => exact .inr ⟨by simp [unlinks], .inl rfl⟩
  | polled hf hq => exact .inr ⟨by simp [unlinks], .inl rfl⟩
  | refused hl => exact .inr ⟨by simp [hl], .inl rfl⟩

theorem run_onward (hrun : exec Network.step s ls = some t) (k : ι) :
    Onward (s.handle k) (t.handle k) := by
  induction ls generalizing s with
  | nil =>
    obtain rfl := Option.some.inj hrun
    exact ⟨le_rfl, fun _ => rfl⟩
  | cons l ls ih =>
    obtain ⟨u, hu, hr⟩ := exec_cons.mp hrun
    obtain ⟨hle, hp⟩ := step_onward hu k
    obtain ⟨hle', hp'⟩ := ih hr
    refine ⟨hle.trans hle', fun hne => (hp' fun habs => hne ?_).trans (hp hne)⟩
    rw [habs] at hle
    cases hx : (s.handle k).pc <;> simp [hx, Pc.rank] at hle ⊢

theorem run_entry (hrun : exec Network.step s ls = some t) : t.entry = s.entry :=
  exec_invariant (I := fun u => u.entry = s.entry)
    (fun _ _ _ heq ht => (step_entry ht).trans heq) rfl hrun

theorem step_reachable (ht : s.step l = some t) (hs : (s.handle h).pc = .live) :
    t.file e = some (.socket h) ↔ s.file e = some (.socket h) ∧ unlinks s l ≠ some e := by
  obtain ⟨hu, hnone⟩ | ⟨hu, hsame | ⟨k, hbind, -, hfree, hk⟩⟩ := step_file ht e
  · simp [hu, hnone]
  · simp [hu, hsame]
  · -- whoever binds the name is not this handle, which is open already
    have hne : k ≠ h := by
      intro he
      rw [he, hs] at hbind
      contradiction
    simp [hk, hfree, hne]

/-- An open handle that its name refers to is found under the name for as long as nobody removes
it: on an init with a path that leads to it, or at the end of an uninit. -/
theorem reachable_iff (hs : (s.handle h).pc = .live)
    (hfile : s.file (s.name h) = some (.socket h))
    (hrun : exec Network.step s ls = some t) (ht : (t.handle h).pc = .live) :
    t.file (t.name h) = some (.socket h) ↔
      Obeys Network.step (fun u l => unlinks u l ≠ some (s.name h)) s ls := by
  have hname : t.name h = s.name h := by
    rw [Network.name, run_entry hrun, (run_onward hrun h).2 (by simp [hs]), Network.name]
  rw [hname]
  -- the name may have been lost already
  suffices hgen : ∀ u e, (u.handle h).pc = .live → exec Network.step u ls = some t →
      (t.file e = some (.socket h) ↔ u.file e = some (.socket h) ∧
        Obeys Network.step (fun u l => unlinks u l ≠ some e) u ls) by
    simpa [hfile] using hgen s (s.name h) hs hrun
  clear hrun hfile hname hs
  induction ls with
  | nil =>
    intro u e _ hr
    obtain rfl := Option.some.inj hr
    simp [Obeys]
  | cons l ls ih =>
    intro u e hu hr
    obtain ⟨v, hv, hr'⟩ := exec_cons.mp hr
    have hlive := live_between hu (step_onward hv h) (run_onward hr' h) ht
    rw [ih v e hlive hr', step_reachable hv hu, obeys_cons hv, and_assoc]

theorem reachable_iff_shared : ∃ s t : Network (Fin 2) CString,
    exec Network.step (Network.start literal (fun _ => true) fun _ _ => 0)
        ((twoHandles true).take 4) = some s ∧
      exec Network.step s ((twoHandles true).drop 4) = some t ∧
      (t.file (t.name 0) = some (.socket 0) ↔
        Obeys Network.step (fun u l => unlinks u l ≠ some (s.name 0)) s
          ((twoHandles true).drop 4)) := by
  have hs : ((exec Network.step (Network.start literal (fun _ => true) fun _ _ => 0)
      ((twoHandles true).take 4)).any fun s =>
        (s.handle 0).pc = .live ∧ s.file (s.name 0) = some (.socket 0) ∧
          (exec Network.step s ((twoHandles true).drop 4)).any fun t =>
            (t.handle (0 : Fin 2)).pc = .live) = true := by decide
  simp only [Option.any_eq_true, decide_eq_true_eq] at hs
  obtain ⟨s, hs, hlive, hfile, t, ht, hlive'⟩ := hs
  exact ⟨s, t, hs, ht, reachable_iff hlive hfile ht hlive'⟩

omit [DecidableEq ι] in
theorem Apart.setFile (hs : Apart s) {f : Option (File ι)}
    (he : ∀ k, (s.handle k).pc.used = true → (s.handle k).pc.bound = true → s.name k ≠ e) :
    Apart (s.setFile e f) where
  distinct := hs.distinct
  own k hk hb := by
    rw [name_setFile, setFile_file, Function.update_of_ne (he k hk hb)]
    exact hs.own k hk hb
  short := hs.short

omit [DecidableEq ι] in
theorem Apart.unlink (hs : Apart s) {result : ℤ}
    (he : ∀ k, (s.handle k).pc.used = true → s.name k ≠ e) : Apart (s.unlink e result) := by
  unfold Network.unlink
  split_ifs
  · exact hs.setFile fun k hk _ => he k hk
  · exact hs

theorem Apart.init (hs : Apart s) (hpc : (s.handle h).pc = .absent) {recvFunc : Bool} {result : ℤ}
    (hg : Exclusive s (.init h p recvFunc result)) (hlen : p.bytes.length ≤ maxPath) :
    Apart ((s.unlink (s.entry h p) result).setHandle h
      { s.handle h with pc := .socket, localPath := p, fd := -1, recvFunc := recvFunc }) := by
  have hother : ∀ k, k ≠ h → (s.handle k).pc.used = true → s.name k ≠ s.entry h p := hg
  have hun : Apart (s.unlink (s.entry h p) result) := by
    refine hs.unlink fun k hk => ?_
    by_cases hkh : k = h
    · subst hkh
      simp [hpc, Pc.used] at hk
    · exact hother k hkh hk
  refine hun.open rfl (fun k hkh hk => ?_) hlen
  rw [name_unlink, unlink_entry]
  exact hother k hkh (by simpa using hk)

theorem Apart.bind (hs : Apart s) (hpc : (s.handle h).pc = .bind) {pc : Pc} :
    Apart ((s.setFile (s.name h) (some (.socket h))).goto h pc) := by
  have hused : (s.handle h).pc.used = true := by simp [hpc, Pc.used]
  have hset : Apart (s.setFile (s.name h) (some (.socket h))) := by
    refine hs.setFile fun k hk hb heq => ?_
    obtain rfl := hs.distinct k h hk hused heq
    simp [hpc, Pc.bound] at hb
  refine hset.setHandle rfl (fun _ => hused) fun _ _ => ?_
  rw [name_setFile, setFile_file, Function.update_self]

theorem Apart.unlinked (hs : Apart s) (hpc : (s.handle h).pc = .unlink) {result : ℤ} :
    Apart ((s.unlink (s.name h) result).goto h .gone) := by
  have hused : (s.handle h).pc.used = true := by simp [hpc, Pc.used]
  have hset : Apart (s.goto h .gone) := hs.setHandle rfl (by simp [Pc.used]) (by simp [Pc.used])
  rw [unlink_goto]
  refine hset.unlink fun k hk heq => ?_
  have hkh : k ≠ h := by
    intro he
    subst he
    simp [Network.goto, Pc.used] at hk
  have hname : (s.goto h .gone).name k = s.name k := name_setHandle rfl
  exact hkh (hs.distinct k h (by simpa [Network.goto, hkh] using hk) hused (hname ▸ heq))

theorem Apart.step (hs : Apart s) (hg : Exclusive s l) (ht : s.step l = some t) : Apart t := by
  cases step_move ht with
  | init hpc hlen => exact hs.init hpc hg hlen
  | advance hl hpc => exact hs.advance hpc
  | bind hpc hfree hnext => exact hs.bind hpc
  | unlink hpc => exact hs.unlinked hpc
  | @send h k p _ _ _ m hfile hm =>
    have hset := hs.setHandle (h := k) (c := { s.handle k with
      inbox := (s.handle k).inbox.write [m] }) rfl (fun hx => hx) (hs.own k)
    exact ⟨hset.distinct, hset.own, hset.short⟩
  | handed hf hq hms => exact hs.setHandle rfl (fun hx => hx) (hs.own _)
  | polled hf hq => exact hs.setHandle rfl (fun hx => hx) (hs.own _)
  | refused hl => exact hs

theorem send_taken (hlive : (s.handle h).pc = .live) (hne : p.bytes ≠ [])
    (hlen : p.bytes.length ≤ maxPath)
    (hfile : s.file (s.entry k p) = some (.socket h)) {pData : Option (ℕ → UInt8)}
    {size : UInt16} {bs : List UInt8} (hk : (s.handle k).pc = .live)
    (hr : Args.request ⟨some (s.handle k).fd, pData, size⟩ = some bs) :
    ∃ t, s.step (.send k p pData size true) = some t ∧
      (t.handle h).inbox.written = (s.handle h).inbox.written ++
        [⟨k, p, (s.handle k).localPath, bs⟩] := by
  have hopen : (s.handle h).open_ = true := by simp [Handle.open_, hlive]
  have hguard : (s.handle k).pc = .live ∧ p.bytes.length ≤ maxPath := ⟨hk, hlen⟩
  refine ⟨_, by
    simp only [Network.step, Network.ipcDgramSend, if_pos hguard, hr, hfile, hopen, hne, ne_eq,
      not_false_eq_true, and_self]
    rfl, ?_⟩
  simp

end Names

theorem apart_start [DecidableEq ι] [DecidableEq ε] (entry : ι → CString → ε) (file : ε → Bool)
    (behind : ι → ℕ → UInt8) : Apart (Network.start entry file behind) :=
  ⟨by simp [Network.start, Pc.used], by simp [Network.start, Pc.used], by simp [Network.start]⟩

/-- As long as nobody opens a path that leads to a name in use, every open handle is found under its
path and takes what is sent there, under whatever spelling. -/
theorem exclusive_reachable [DecidableEq ι] [DecidableEq ε] {entry : ι → CString → ε}
    {file : ε → Bool} {behind : ι → ℕ → UInt8} {s : Network ι ε} {ls : List (Label ι)}
    (ho : Obeys Network.step Exclusive (Network.start entry file behind) ls)
    (hrun : exec Network.step (Network.start entry file behind) ls = some s) {h k : ι} {p : CString}
    {pData : Option (ℕ → UInt8)} {size : UInt16} {bs : List UInt8}
    (hh : (s.handle h).pc = .live) (hk : (s.handle k).pc = .live)
    (hp : s.entry k p = s.name h) (hne : p.bytes ≠ []) (hlen : p.bytes.length ≤ maxPath)
    (hr : Args.request ⟨some (s.handle k).fd, pData, size⟩ = some bs) :
    s.file (s.name h) = some (.socket h) ∧
      ∃ t, s.step (.send k p pData size true) = some t ∧
        (t.handle h).inbox.written = (s.handle h).inbox.written ++
          [⟨k, p, (s.handle k).localPath, bs⟩] := by
  have hs : Apart s :=
    invariant (fun _ _ _ h hg ht => h.step hg ht) (apart_start entry file behind) ho hrun
  have hfile := hs.own h (by simp [hh, Pc.used]) (by simp [hh, Pc.bound])
  exact ⟨hfile, send_taken hh hne hlen (hp ▸ hfile) hk hr⟩

theorem exclusive_reachable_two : ∃ s t : Network (Fin 2) CString,
    exec Network.step (Network.start literal (fun _ => true) fun _ _ => 0) (twoHandles false) =
        some s ∧
      s.step (.send 1 slashA (some fun _ => 7) 1 true) = some t ∧
      (t.handle 0).inbox.written = (s.handle 0).inbox.written ++
        [⟨1, slashA, (s.handle 1).localPath, [7]⟩] := by
  have hs : ((exec Network.step (Network.start literal (fun _ => true) fun _ _ => 0)
      (twoHandles false)).any fun s =>
        (s.handle 0).pc = .live ∧ (s.handle (1 : Fin 2)).pc = .live ∧ s.entry 1 slashA = s.name 0 ∧
          Args.request ⟨some (s.handle 1).fd, some fun _ => 7, 1⟩ = some [7]) = true := by decide
  simp only [Option.any_eq_true, decide_eq_true_eq] at hs
  obtain ⟨s, hs, h0, h1, hp, hr⟩ := hs
  obtain ⟨-, t, ht, hw⟩ := exclusive_reachable (by decide) hs h0 h1 hp (by decide) (by decide) hr
  exact ⟨s, t, hs, ht, hw⟩

end LibComm.IpcNetwork

import LibComm.ByteStream
import LibComm.DottedQuad
import LibComm.Interleaving
import LibComm.RecvTask
import LibComm.SendCall

/-!
# IPv4 UDP handles on a network

Hosts with handles of the library and other programs. A datagram may be lost,
overtaken and duplicated on its way, and is otherwise delivered to the socket
that is bound to its port on the host that its address leads to. Replies come
back where the address that a datagram carries as its source leads back to the
host it comes from.
-/

namespace LibComm.UdpNetwork
open ByteStream DottedQuad Interleaving SendCall
open RecvTask (commBufSize)

variable {ι κ : Type*}

structure Topology (ι κ : Type*) where
  home : ι → κ
  route : κ → Ipv4 → Option κ

structure Endpoint where
  addr : Ipv4
  port : UInt16
  deriving DecidableEq

/-- A datagram with the host and the handle that it comes from; other programs have no handle. -/
structure Packet (ι κ : Type*) where
  origin : κ
  sender : Option ι
  source : Endpoint
  dest : Endpoint
  data : List UInt8

structure Callback where
  data : List UInt8
  size : ℕ
  addr : Endpoint
  deriving DecidableEq

def Packet.callback (m : Packet ι κ) : Callback :=
  ⟨m.data.take commBufSize, (m.data.take commBufSize).length % 65536, m.source⟩

inductive Pc where
  | absent
  | live
  | gone
  deriving DecidableEq

/-- A context with its socket, the receive task and whether a `recvfrom` of it has failed, and what
`comm_udpIpv4Recv` has returned for buffers of which size. -/
structure Handle (ι κ : Type*) where
  pc : Pc
  port : UInt16
  fd : ℤ
  recvFunc : Bool
  running : Bool
  failed : Bool
  inbox : Channel (Packet ι κ)
  calls : List Callback
  returned : List (UInt16 × List UInt8)

def Handle.absent : Handle ι κ := ⟨.absent, 0, -1, false, false, false, .empty, [], []⟩

structure Network (ι κ : Type*) where
  handle : ι → Handle ι κ
  bound : κ → UInt16 → Option ι
  sent : List (Packet ι κ)

inductive Label (ι κ : Type*) where
  | init (h : ι) (portNum : UInt16) (recvFunc : Bool) (fd : ℤ) (chosen : UInt16)
      (free created : Bool)
  | uninit (h : ι)
  | send (h : ι) (pIpStr : List UInt8) (portNum : UInt16) (pData : Option (ℕ → UInt8))
      (size : UInt16) (addr : Ipv4) (ok : Bool)
  | other (m : Packet ι κ)
  | deliver (i : ℕ)
  | recvTask (h : ι)
  | recvError (h : ι)
  | recv (h : ι) (size : UInt16)

def start : Network ι κ := ⟨fun _ => .absent, fun _ _ => none, []⟩

def receiver (T : Topology ι κ) (s : Network ι κ) (m : Packet ι κ) : Option ι :=
  (T.route m.origin m.dest.addr).bind fun d => s.bound d m.dest.port

namespace Network
variable [DecidableEq ι] [DecidableEq κ]

def setHandle (s : Network ι κ) (h : ι) (c : Handle ι κ) : Network ι κ :=
  { s with handle := Function.update s.handle h c }

def setBound (s : Network ι κ) (d : κ) (p : UInt16) (h : Option ι) : Network ι κ :=
  { s with bound := Function.update s.bound d (Function.update (s.bound d) p h) }

def uninitSocket (T : Topology ι κ) (s : Network ι κ) (h : ι) : Network ι κ :=
  let c := s.handle h
  if c.fd > 0 then
    (s.setBound (T.home h) c.port none).setHandle h { c with pc := .gone, fd := -1 }
  else s.setHandle h { c with pc := .gone }

/-- `comm_udpIpv4Init`, given the descriptor, the port that is chosen for `portNum` 0, whether no
other program has the port, and whether the thread can be created. -/
def udpIpv4Init (T : Topology ι κ) (s : Network ι κ) (h : ι) (portNum : UInt16) (recvFunc : Bool)
    (fd : ℤ) (chosen : UInt16) (free created : Bool) : Option (Network ι κ) :=
  if (s.handle h).pc = .absent then
    let port := if portNum = 0 then chosen else portNum
    if fd < 0 ∨ free = false ∨ (s.bound (T.home h) port).isSome = true then
      some (s.setHandle h { s.handle h with pc := .gone })
    else
      let t := (s.setBound (T.home h) port (some h)).setHandle h
        { s.handle h with
          pc := .live, port := port, fd := fd, recvFunc := recvFunc, running := recvFunc }
      some (if recvFunc = true ∧ created = false then t.uninitSocket T h else t)
  else none

/-- `comm_udpIpv4Send`, given the address that the datagram gets as its source. -/
def udpIpv4Send (T : Topology ι κ) (s : Network ι κ) (h : ι) (pIpStr : List UInt8)
    (portNum : UInt16) (pData : Option (ℕ → UInt8)) (size : UInt16) (addr : Ipv4) (ok : Bool) :
    Option (Network ι κ) :=
  let c := s.handle h
  let dest : Endpoint := ⟨inetAddr pIpStr, portNum⟩
  if c.pc = .live then
    match Args.request ⟨some c.fd, pData, size⟩ with
    | none => some s
    | some bs =>
      some (if ok then { s with sent := s.sent ++ [⟨T.home h, some h, ⟨addr, c.port⟩, dest, bs⟩] }
        else s)
  else none

def deliver (T : Topology ι κ) (s : Network ι κ) (i : ℕ) : Option (Network ι κ) :=
  s.sent[i]?.bind fun m => (receiver T s m).map fun h =>
    s.setHandle h { s.handle h with inbox := (s.handle h).inbox.write [m] }

def udpIpv4RecvTask (s : Network ι κ) (h : ι) : Option (Network ι κ) :=
  let c := s.handle h
  if hq : c.pc = .live ∧ c.running = true ∧ 1 ≤ c.inbox.queue.length then
    let ms := c.inbox.queue.take 1
    some (s.setHandle h { c with
      inbox := c.inbox.read 1 hq.2.2
      running := ms.all fun m => !m.data.isEmpty
      calls := c.calls ++ (ms.filter fun m => !m.data.isEmpty).map Packet.callback })
  else none

def udpIpv4Recv (s : Network ι κ) (h : ι) (size : UInt16) : Option (Network ι κ) :=
  let c := s.handle h
  if c.pc = .live then
    if c.fd < 0 ∨ c.recvFunc = true ∨ size = 0 then some s
    else if hq : 1 ≤ c.inbox.queue.length then
      some (s.setHandle h { c with
        inbox := c.inbox.read 1 hq
        returned := c.returned ++
          (c.inbox.queue.take 1).map fun m => (size, m.data.take size.toNat) })
    else none
  else none

def step (T : Topology ι κ) (s : Network ι κ) : Label ι κ → Option (Network ι κ)
  | .init h portNum recvFunc fd chosen free created =>
    s.udpIpv4Init T h portNum recvFunc fd chosen free created
  | .uninit h => if (s.handle h).pc = .live then some (s.uninitSocket T h) else none
  | .send h pIpStr portNum pData size addr ok =>
    s.udpIpv4Send T h pIpStr portNum pData size addr ok
  | .other m => if m.sender.isNone then some { s with sent := s.sent ++ [m] } else none
  | .deliver i => s.deliver T i
  | .recvTask h => s.udpIpv4RecvTask h
  | .recvError h =>
    if (s.handle h).pc = .live ∧ (s.handle h).running = true then
      some (s.setHandle h { s.handle h with running := false, failed := true })
    else none
  | .recv h size => s.udpIpv4Recv h size

/-- From the host that a datagram of a handle goes to, the address that it gets as its source leads
back to the host of the handle. -/
def LeadsBack (T : Topology ι κ) (_ : Network ι κ) : Label ι κ → Prop
  | .send h pIpStr _ _ _ addr _ =>
    ∀ d ∈ T.route (T.home h) (inetAddr pIpStr), T.route d addr = some (T.home h)
  | _ => True

instance (T : Topology ι κ) (s : Network ι κ) : DecidablePred (LeadsBack T s)
  | .send h pIpStr .. =>
    inferInstanceAs (Decidable (∀ d ∈ T.route (T.home h) (inetAddr pIpStr), _))
  | .init .. | .uninit _ | .other _ | .deliver _ | .recvTask _ | .recvError _ | .recv .. =>
    .isTrue trivial

end Network

def Handle.handed (c : Handle ι κ) : List (Packet ι κ) :=
  if c.recvFunc then c.inbox.delivered else []

def Handle.polled (c : Handle ι κ) : List (Packet ι κ) :=
  if c.recvFunc then [] else c.inbox.delivered

def Packet.full (m : Packet ι κ) : Bool := !m.data.isEmpty

/-- The callbacks are those for the datagrams up to the first empty one, behind which none is
taken; the calls that poll the handle get all of them. -/
structure Hands (c : Handle ι κ) : Prop where
  calls : c.calls = (c.handed.takeWhile Packet.full).map Packet.callback
  last : (c.handed.dropWhile Packet.full).length ≤ 1
  running : c.running = true → c.recvFunc = true ∧ c.handed.all Packet.full = true
  stopped : c.pc = .live → c.recvFunc = true → c.running = false →
    c.failed = true ∨ c.handed.all Packet.full = false
  returned : List.Forall₂ (fun m r => r.2 = m.data.take (UInt16.toNat r.1)) c.polled c.returned

structure Genuine (T : Topology ι κ) (s : Network ι κ) (m : Packet ι κ) (k : ι) : Prop where
  used : (s.handle k).pc ≠ .absent
  nonempty : m.full = true
  origin : m.origin = T.home k
  port : m.source.port = (s.handle k).port

structure Inv (T : Topology ι κ) (s : Network ι κ) : Prop where
  hands : ∀ h, Hands (s.handle h)
  fresh : ∀ h, (s.handle h).pc = .absent → s.handle h = .absent
  bound : ∀ d p h, s.bound d p = some h →
    (s.handle h).pc ≠ .absent ∧ T.home h = d ∧ (s.handle h).port = p
  addressed : ∀ h, ∀ m ∈ (s.handle h).inbox.written, m ∈ s.sent ∧
    T.route m.origin m.dest.addr = some (T.home h) ∧ m.dest.port = (s.handle h).port
  sent : ∀ m ∈ s.sent, ∀ k, m.sender = some k → Genuine T s m k

/-- What a step of the network can do. -/
inductive Move [DecidableEq ι] [DecidableEq κ] (T : Topology ι κ) (s : Network ι κ) :
    Label ι κ → Network ι κ → Prop
  | init {h : ι} {portNum chosen : UInt16} {recvFunc free created : Bool} {fd : ℤ} {t : Network ι κ}
      (ht : s.udpIpv4Init T h portNum recvFunc fd chosen free created = some t) :
    Move T s (.init h portNum recvFunc fd chosen free created) t
  | uninit {h : ι} (hlive : (s.handle h).pc = .live) : Move T s (.uninit h) (s.uninitSocket T h)
  | send {h : ι} {pIpStr : List UInt8} {portNum : UInt16} {pData : Option (ℕ → UInt8)}
      {size : UInt16} {addr : Ipv4} {ok : Bool} {bs : List UInt8} (hlive : (s.handle h).pc = .live)
      (hbs : Args.request ⟨some (s.handle h).fd, pData, size⟩ = some bs) :
    Move T s (.send h pIpStr portNum pData size addr ok) { s with
      sent := s.sent ++ [⟨T.home h, some h, ⟨addr, (s.handle h).port⟩,
        ⟨inetAddr pIpStr, portNum⟩, bs⟩] }
  | other {m : Packet ι κ} (hm : m.sender = none) :
    Move T s (.other m) { s with sent := s.sent ++ [m] }
  | deliver {i : ℕ} {m : Packet ι κ} {h : ι} (hm : s.sent[i]? = some m)
      (hr : receiver T s m = some h) :
    Move T s (.deliver i)
      (s.setHandle h { s.handle h with inbox := (s.handle h).inbox.write [m] })
  | handed {h : ι} {m : Packet ι κ} (hlive : (s.handle h).pc = .live)
      (hrun : (s.handle h).running = true) (hq : 1 ≤ (s.handle h).inbox.queue.length)
      (hm : (s.handle h).inbox.queue.take 1 = [m]) :
    Move T s (.recvTask h) (s.setHandle h { s.handle h with
      inbox := (s.handle h).inbox.read 1 hq
      running := m.full
      calls := (s.handle h).calls ++ ([m].filter Packet.full).map Packet.callback })
  | failed {h : ι} (hlive : (s.handle h).pc = .live) :
    Move T s (.recvError h) (s.setHandle h { s.handle h with running := false, failed := true })
  | polled {h : ι} {size : UInt16} (hlive : (s.handle h).pc = .live)
      (hf : (s.handle h).recvFunc = false) (hq : 1 ≤ (s.handle h).inbox.queue.length) :
    Move T s (.recv h size) (s.setHandle h { s.handle h with
      inbox := (s.handle h).inbox.read 1 hq
      returned := (s.handle h).returned ++
        ((s.handle h).inbox.queue.take 1).map fun m => (size, m.data.take size.toNat) })
  | refused {l : Label ι κ} : Move T s l s

section Delivery
variable {T : Topology ι κ} {s t : Network ι κ} {h k : ι} {c : Handle ι κ} {m : Packet ι κ}

theorem hands_absent : Hands (.absent : Handle ι κ) := by
  constructor <;> simp [Handle.absent, Handle.handed, Handle.polled]

theorem inv_start (T : Topology ι κ) : Inv T start where
  hands _ := hands_absent
  fresh _ _ := rfl
  bound := by simp [start]
  addressed := by simp [start, Handle.absent]
  sent := by simp [start]

theorem takeWhile_snoc {α : Type*} {p : α → Bool} {xs : List α} (x : α) (h : xs.all p = true) :
    (xs ++ [x]).takeWhile p = xs ++ [x].filter p ∧
      ((xs ++ [x]).dropWhile p).length ≤ 1 ∧ (xs ++ [x]).all p = p x := by
  have hx : ∀ y ∈ xs, p y = true := by simpa using h
  rw [List.takeWhile_append_of_pos hx, List.dropWhile_append_of_pos hx, List.all_append, h]
  cases hp : p x <;> simp [hp]

theorem Inv.send (hs : Inv T s) (hm : ∀ k, m.sender = some k → Genuine T s m k) :
    Inv T { s with sent := s.sent ++ [m] } := by
  refine ⟨hs.hands, hs.fresh, hs.bound, fun h x hx => ?_, fun x hx k hk => ?_⟩
  · obtain ⟨hsent, hrest⟩ := hs.addressed h x hx
    exact ⟨List.mem_append_left _ hsent, hrest⟩
  · obtain hx | rfl : x ∈ s.sent ∨ x = m := by simpa using hx
    · obtain ⟨hused, hfull, horigin, hp⟩ := hs.sent x hx k hk
      exact ⟨hused, hfull, horigin, hp⟩
    · obtain ⟨hused, hfull, horigin, hp⟩ := hm k hk
      exact ⟨hused, hfull, horigin, hp⟩

@[simp] theorem setBound_handle [DecidableEq κ] {d : κ} {p : UInt16} {o : Option ι} :
    (s.setBound d p o).handle = s.handle := rfl

theorem bound_setBound [DecidableEq κ] {d d' : κ} {p p' : UInt16} {o : Option ι} :
    (s.setBound d p o).bound d' p' = if d' = d ∧ p' = p then o else s.bound d' p' := by
  by_cases hd : d' = d
  · subst hd
    by_cases hp : p' = p <;> simp [Network.setBound, hp]
  · simp [Network.setBound, hd]

theorem Inv.setBound [DecidableEq κ] (hs : Inv T s) {d : κ} {p : UInt16} {o : Option ι}
    (ho : ∀ h, o = some h → (s.handle h).pc ≠ .absent ∧ T.home h = d ∧ (s.handle h).port = p) :
    Inv T (s.setBound d p o) := by
  refine ⟨hs.hands, hs.fresh, fun d' p' h hb => ?_, hs.addressed, fun m hm k hk => ?_⟩
  · rw [bound_setBound] at hb
    split_ifs at hb with hdp
    · obtain ⟨rfl, rfl⟩ := hdp
      exact ho h hb
    · exact hs.bound d' p' h hb
  · obtain ⟨hused, hfull, horigin, hp⟩ := hs.sent m hm k hk
    exact ⟨hused, hfull, horigin, hp⟩

variable [DecidableEq ι]

@[simp] theorem setHandle_handle : (s.setHandle h c).handle = Function.update s.handle h c := rfl
@[simp] theorem setHandle_bound : (s.setHandle h c).bound = s.bound := rfl
@[simp] theorem setHandle_sent : (s.setHandle h c).sent = s.sent := rfl

theorem Inv.setHandle (hs : Inv T s) (hc : Hands c) (hpc : c.pc ≠ .absent)
    (hport : (s.handle h).pc ≠ .absent → c.port = (s.handle h).port)
    (hw : ∀ m ∈ c.inbox.written, m ∈ s.sent ∧ T.route m.origin m.dest.addr = some (T.home h) ∧
      m.dest.port = c.port) : Inv T (s.setHandle h c) := by
  refine ⟨fun k => ?_, fun k hk => ?_, fun d p k hb => ?_, fun k m hm => ?_, fun m hm k hk => ?_⟩
  · by_cases hkh : k = h
    · subst hkh
      simpa using hc
    · simpa [hkh] using hs.hands k
  · by_cases hkh : k = h
    · subst hkh
      exact absurd (by simpa using hk) hpc
    · simpa [hkh] using hs.fresh k (by simpa [hkh] using hk)
  · obtain ⟨hused, hhome, hp⟩ := hs.bound d p k hb
    by_cases hkh : k = h
    · subst hkh
      exact ⟨by simpa using hpc, hhome, by simpa [hport hused] using hp⟩
    · exact ⟨by simpa [hkh] using hused, hhome, by simpa [hkh] using hp⟩
  · by_cases hkh : k = h
    · subst hkh
      simpa using hw m (by simpa using hm)
    · simpa [hkh] using hs.addressed k m (by simpa [hkh] using hm)
  · obtain ⟨hused, hfull, horigin, hp⟩ := hs.sent m hm k hk
    by_cases hkh : k = h
    · subst hkh
      exact ⟨by simpa using hpc, hfull, horigin, by simpa [hport hused] using hp⟩
    · exact ⟨by simpa [hkh] using hused, hfull, horigin, by simpa [hkh] using hp⟩

theorem Inv.keep (hs : Inv T s) (hc : Hands c) (hpc : c.pc ≠ .absent)
    (hport : c.port = (s.handle h).port) (hw : c.inbox.written = (s.handle h).inbox.written) :
    Inv T (s.setHandle h c) := by
  refine hs.setHandle hc hpc (fun _ => hport) fun m hm => ?_
  rw [hport]
  exact hs.addressed h m (hw ▸ hm)

theorem Inv.handed (hs : Inv T s) (hlive : (s.handle h).pc = .live)
    (hrun : (s.handle h).running = true) (hq : 1 ≤ (s.handle h).inbox.queue.length)
    (hm : (s.handle h).inbox.queue.take 1 = [m]) :
    Inv T (s.setHandle h { s.handle h with
      inbox := (s.handle h).inbox.read 1 hq
      running := m.full
      calls := (s.handle h).calls ++ ([m].filter Packet.full).map Packet.callback }) := by
  obtain ⟨hcalls, hlast, hrunning, hstopped, hreturned⟩ := hs.hands h
  obtain ⟨hf, hall⟩ := hrunning hrun
  simp only [Handle.handed, hf, if_true] at hcalls hall
  have hwhole : (s.handle h).inbox.delivered.takeWhile Packet.full =
      (s.handle h).inbox.delivered :=
    List.takeWhile_eq_self_iff.mpr (by simpa using hall)
  obtain ⟨htake, hdrop, hnew⟩ := takeWhile_snoc m hall
  refine hs.keep ⟨?_, ?_, fun hr => ⟨hf, ?_⟩, fun _ _ hr => .inr ?_, ?_⟩ (by simp [hlive]) rfl rfl
  · simp only [Handle.handed, if_true, Channel.read_delivered, hm, htake, hf]
    rw [hcalls, hwhole, List.map_append]
  · simpa [Handle.handed, hf, Channel.read_delivered, hm] using hdrop
  · simpa [Handle.handed, Channel.read_delivered, hm, hnew, hf] using hr
  · simpa [Handle.handed, Channel.read_delivered, hm, hnew, hf] using hr
  · simpa [Handle.polled, hf] using hreturned

theorem Inv.failed (hs : Inv T s) (hlive : (s.handle h).pc = .live) :
    Inv T (s.setHandle h { s.handle h with running := false, failed := true }) := by
  obtain ⟨hcalls, hlast, hrunning, hstopped, hreturned⟩ := hs.hands h
  exact hs.keep ⟨hcalls, hlast, by simp, fun _ _ _ => .inl rfl, hreturned⟩ (by simp [hlive]) rfl rfl

theorem Inv.polled (hs : Inv T s) {size : UInt16} (hlive : (s.handle h).pc = .live)
    (hf : (s.handle h).recvFunc = false) (hq : 1 ≤ (s.handle h).inbox.queue.length) :
    Inv T (s.setHandle h { s.handle h with
      inbox := (s.handle h).inbox.read 1 hq
      returned := (s.handle h).returned ++
        ((s.handle h).inbox.queue.take 1).map fun m => (size, m.data.take size.toNat) }) := by
  obtain ⟨hcalls, hlast, hrunning, hstopped, hreturned⟩ := hs.hands h
  refine hs.keep ⟨?_, ?_, fun hr => ?_, ?_, ?_⟩ (by simp [hlive]) rfl rfl
  · simpa [Handle.handed, hf] using hcalls
  · simp [Handle.handed, hf]
  · simpa [hf] using (hrunning hr).1
  · simp [hf]
  · simp only [Handle.polled, hf, Bool.false_eq_true, if_false] at hreturned ⊢
    rw [Channel.read_delivered]
    exact List.rel_append hreturned
      (List.forall₂_map_right_iff.mpr (List.forall₂_same.mpr fun _ _ => rfl))

theorem Inv.deliver (hs : Inv T s) {i : ℕ} (hm : s.sent[i]? = some m)
    (hr : receiver T s m = some h) :
    Inv T (s.setHandle h { s.handle h with inbox := (s.handle h).inbox.write [m] }) := by
  obtain ⟨d, hd, hb⟩ := Option.bind_eq_some_iff.mp hr
  obtain ⟨hused, hhome, hport⟩ := hs.bound d _ h hb
  obtain ⟨hcalls, hlast, hrunning, hstopped, hreturned⟩ := hs.hands h
  refine hs.setHandle ⟨?_, ?_, ?_, ?_, ?_⟩ hused (fun _ => rfl) fun x hx => ?_
  · simpa [Handle.handed] using hcalls
  · simpa [Handle.handed] using hlast
  · simpa [Handle.handed] using hrunning
  · simpa [Handle.handed] using hstopped
  · simpa [Handle.polled] using hreturned
  · obtain hx | rfl : x ∈ (s.handle h).inbox.written ∨ x = m := by simpa using hx
    · exact hs.addressed h x hx
    · exact ⟨List.mem_of_getElem? hm, by rw [hd, hhome], hport.symm⟩

variable [DecidableEq κ]

theorem Inv.uninitSocket (hs : Inv T s) (h : ι) : Inv T (s.uninitSocket T h) := by
  unfold Network.uninitSocket
  obtain ⟨hcalls, hlast, hrunning, hstopped, hreturned⟩ := hs.hands h
  dsimp only
  split_ifs
  · have hunbound : Inv T (s.setBound (T.home h) (s.handle h).port none) := hs.setBound (by simp)
    exact hunbound.keep ⟨hcalls, hlast, hrunning, by simp, hreturned⟩ (by simp) rfl rfl
  · exact hs.keep ⟨hcalls, hlast, hrunning, by simp, hreturned⟩ (by simp) rfl rfl

theorem Inv.init (hs : Inv T s) {portNum chosen : UInt16} {recvFunc free created : Bool} {fd : ℤ}
    (ht : s.udpIpv4Init T h portNum recvFunc fd chosen free created = some t) : Inv T t := by
  simp only [Network.udpIpv4Init, Option.ite_none_right_eq_some] at ht
  obtain ⟨habs, ht⟩ := ht
  have hfresh := hs.fresh h habs
  generalize (if portNum = 0 then chosen else portNum) = port at ht
  split_ifs at ht with hfail hcreate
  · obtain rfl := Option.some.inj ht
    rw [hfresh]
    refine hs.setHandle ?_ (by simp) (fun hne => absurd habs hne) (by simp [Handle.absent])
    constructor <;> simp [Handle.absent, Handle.handed, Handle.polled]
  all_goals
    have hopen : Inv T (s.setHandle h
        { s.handle h with
          pc := .live, port := port, fd := fd, recvFunc := recvFunc, running := recvFunc }) := by
      rw [hfresh]
      refine hs.setHandle ?_ (by simp) (fun hne => absurd habs hne) (by simp [Handle.absent])
      constructor <;> simp [Handle.absent, Handle.handed, Handle.polled]
    have hbound := hopen.setBound (d := T.home h) (p := port) (o := some h) (by simp)
    obtain rfl := Option.some.inj ht
  · exact hbound.uninitSocket h
  · exact hbound

theorem step_move {l : Label ι κ} (ht : s.step T l = some t) : Move T s l t := by
  cases l with
  | init h portNum recvFunc fd chosen free created => exact .init ht
  | uninit h =>
    simp only [Network.step, Option.ite_none_right_eq_some, Option.some.injEq] at ht
    obtain ⟨hlive, rfl⟩ := ht
    exact .uninit hlive
  | send h pIpStr portNum pData size addr ok =>
    simp only [Network.step, Network.udpIpv4Send, Option.ite_none_right_eq_some] at ht
    obtain ⟨hlive, ht⟩ := ht
    split at ht
    · exact Option.some.inj ht ▸ .refused
    · rename_i bs hbs
      obtain rfl := Option.some.inj ht
      split_ifs
      · exact .send hlive hbs
      · exact .refused
  | other m =>
    simp only [Network.step, Option.ite_none_right_eq_some, Option.some.injEq] at ht
    obtain ⟨hnone, rfl⟩ := ht
    exact .other (by simpa using hnone)
  | deliver i =>
    simp only [Network.step, Network.deliver, Option.bind_eq_some_iff, Option.map_eq_some_iff] at ht
    obtain ⟨m, hm, h, hr, rfl⟩ := ht
    exact .deliver hm hr
  | recvTask h =>
    simp only [Network.step, Network.udpIpv4RecvTask, Option.dite_none_right_eq_some,
      Option.some.injEq] at ht
    obtain ⟨⟨hlive, hrun, hq⟩, rfl⟩ := ht
    obtain ⟨m, hm⟩ : ∃ m, (s.handle h).inbox.queue.take 1 = [m] :=
      List.length_eq_one_iff.mp (by simpa using hq)
    simp only [hm, List.all_cons, List.all_nil, Bool.and_true]
    exact .handed hlive hrun hq hm
  | recvError h =>
    simp only [Network.step, Option.ite_none_right_eq_some, Option.some.injEq] at ht
    obtain ⟨⟨hlive, -⟩, rfl⟩ := ht
    exact .failed hlive
  | recv h size =>
    simp only [Network.step, Network.udpIpv4Recv, Option.ite_none_right_eq_some] at ht
    obtain ⟨hlive, ht⟩ := ht
    split_ifs at ht with hg hq
    · exact Option.some.inj ht ▸ .refused
    · exact Option.some.inj ht ▸ .polled hlive (by simp_all) hq

theorem Inv.step (hs : Inv T s) {l : Label ι κ} (ht : s.step T l = some t) : Inv T t := by
  cases step_move ht with
  | init ht => exact hs.init ht
  | uninit hlive => exact hs.uninitSocket _
  | @send h _ _ _ _ _ _ _ hlive hbs =>
    refine hs.send fun k hk => ?_
    obtain rfl : h = k := by simpa using hk
    have hlen := (request_some hbs).2.2
    exact ⟨by simp [hlive], by simpa [Packet.full, List.length_pos_iff] using hlen, rfl, rfl⟩
  | other hm => exact hs.send fun k hk => by simp [hk] at hm
  | deliver hm hr => exact hs.deliver hm hr
  | handed hlive hrun hq hm => exact hs.handed hlive hrun hq hm
  | failed hlive => exact hs.failed hlive
  | polled hlive hf hq => exact hs.polled hlive hf hq
  | refused => exact hs

/-- In every run each handle hands over the datagrams in the order in which its socket has got them,
and these were addressed to its host and port; only a failing `recvfrom` or an empty datagram from
a program that does not use the library ends its receive task. -/
theorem udp_delivers {ls : List (Label ι κ)} (hrun : exec (Network.step T) start ls = some s)
    (h : ι) :
    Hands (s.handle h) ∧
      (∀ m ∈ (s.handle h).inbox.written, m ∈ s.sent ∧
        T.route m.origin m.dest.addr = some (T.home h) ∧ m.dest.port = (s.handle h).port) ∧
      ((s.handle h).pc = .live → (s.handle h).recvFunc = true → (s.handle h).running = false →
        (s.handle h).failed = true ∨
          ∃ m ∈ (s.handle h).inbox.delivered, m.data = [] ∧ m.sender = none) := by
  have hs : Inv T s := exec_invariant (fun _ _ _ hs ht => hs.step ht) (inv_start T) hrun
  refine ⟨hs.hands h, hs.addressed h, fun hlive hf hr => ?_⟩
  refine ((hs.hands h).stopped hlive hf hr).imp_right fun hall => ?_
  obtain ⟨m, hm, hempty⟩ := List.all_eq_false.mp hall
  have hm' : m ∈ (s.handle h).inbox.delivered := by simpa [Handle.handed, hf] using hm
  refine ⟨m, hm', by simpa [Packet.full] using hempty, ?_⟩
  cases hk : m.sender with
  | none => rfl
  | some k =>
    have hsent := (hs.addressed h m (List.mem_of_mem_take hm')).1
    exact absurd (hs.sent m hsent k hk).nonempty hempty

def twoHosts : Topology Bool Bool where
  home := id
  route _ a :=
    if a = ⟨10, 0, 0, 1⟩ then some false else if a = ⟨10, 0, 0, 2⟩ then some true else none

def request : List (Label Bool Bool) :=
  [.init false 5000 true 3 0 true true, .init true 0 true 4 40000 true true,
    .send true (inetNtoa ⟨10, 0, 0, 1⟩) 5000 (some fun _ => 7) 2 ⟨10, 0, 0, 2⟩ true,
    .deliver 0, .recvTask false]

theorem udp_delivers_request : ∃ s, exec (Network.step twoHosts) start request = some s ∧
    Hands (s.handle false) ∧ (s.handle false).calls = [⟨[7, 7], 2, ⟨⟨10, 0, 0, 2⟩, 40000⟩⟩] := by
  have hrun : (exec (Network.step twoHosts) start request).map (fun s => (s.handle false).calls) =
      some [⟨[7, 7], 2, ⟨⟨10, 0, 0, 2⟩, 40000⟩⟩] := by decide +kernel
  obtain ⟨s, hs, hc⟩ := Option.map_eq_some_iff.mp hrun
  exact ⟨s, hs, (udp_delivers hs false).1, hc⟩

end Delivery

def Live (T : Topology ι κ) (s : Network ι κ) : Prop :=
  ∀ h, (s.handle h).pc = .live → s.bound (T.home h) (s.handle h).port = some h

def Back (T : Topology ι κ) (s : Network ι κ) : Prop :=
  ∀ m ∈ s.sent, ∀ k, m.sender = some k →
    ∀ d, T.route m.origin m.dest.addr = some d → T.route d m.source.addr = some (T.home k)

def Onward (c c' : Handle ι κ) : Prop := c.pc ≠ .absent → c'.pc ≠ .absent ∧ c'.port = c.port

section Replies
variable {T : Topology ι κ} {s t u : Network ι κ} {h k : ι} {c : Handle ι κ} {m : Packet ι κ}
  {l : Label ι κ} {ls ls' : List (Label ι κ)}

theorem Back.send (hb : Back T s) (hm : ∀ k, m.sender = some k →
    ∀ d, T.route m.origin m.dest.addr = some d → T.route d m.source.addr = some (T.home k)) :
    Back T { s with sent := s.sent ++ [m] } := by
  intro x hx
  obtain hx | rfl : x ∈ s.sent ∨ x = m := by simpa using hx
  · exact hb x hx
  · exact hm

variable [DecidableEq ι]

theorem onward_setHandle (hc : Onward (s.handle h) c) (k : ι) :
    Onward (s.handle k) ((s.setHandle h c).handle k) := by
  by_cases hk : k = h
  · subst hk
    simpa using hc
  · simp [hk, Onward]

theorem Live.setHandle (hl : Live T s)
    (hc : c.pc = .live → (s.handle h).pc = .live ∧ c.port = (s.handle h).port) :
    Live T (s.setHandle h c) := by
  intro k hk
  by_cases hkh : k = h
  · subst hkh
    obtain ⟨hlive, hport⟩ := hc (by simpa using hk)
    simpa [hport] using hl k hlive
  · simpa [hkh] using hl k (by simpa [hkh] using hk)

variable [DecidableEq κ]

theorem Live.uninitSocket (hl : Live T s) (hlive : s.bound (T.home h) (s.handle h).port = some h) :
    Live T (s.uninitSocket T h) := by
  unfold Network.uninitSocket
  dsimp only
  split_ifs
  · intro k hk
    have hkh : k ≠ h := by
      intro heq
      simp [heq] at hk
    have hb := hl k (by simpa [hkh] using hk)
    rw [setHandle_bound, bound_setBound, if_neg]
    · simpa [hkh] using hb
    · -- the port of another handle on this host is another one
      simp only [setHandle_handle, Function.update_of_ne hkh, setBound_handle]
      intro heq
      rw [heq.1, heq.2, hlive] at hb
      exact hkh (Option.some.inj hb).symm
  · exact hl.setHandle (by simp)

theorem onward_uninitSocket (h k : ι) :
    Onward (s.handle k) ((s.uninitSocket T h).handle k) := by
  unfold Network.uninitSocket
  dsimp only
  split_ifs
  · refine onward_setHandle (s := s.setBound (T.home h) (s.handle h).port none) ?_ k
    exact fun _ => ⟨by simp, rfl⟩
  · refine onward_setHandle ?_ k
    exact fun _ => ⟨by simp, rfl⟩

theorem live_init (hl : Live T s) {portNum chosen : UInt16} {recvFunc free created : Bool} {fd : ℤ}
    (ht : s.udpIpv4Init T h portNum recvFunc fd chosen free created = some t) :
    Live T t ∧ ∀ k, Onward (s.handle k) (t.handle k) := by
  simp only [Network.udpIpv4Init, Option.ite_none_right_eq_some] at ht
  obtain ⟨habs, ht⟩ := ht
  generalize (if portNum = 0 then chosen else portNum) = port at ht
  split_ifs at ht with hfail hcreate
  · obtain rfl := Option.some.inj ht
    exact ⟨hl.setHandle (by simp), onward_setHandle fun hne => absurd habs hne⟩
  all_goals
    push Not at hfail
    obtain ⟨-, -, hfree⟩ := hfail
    have hopen : Live T ((s.setBound (T.home h) port (some h)).setHandle h
        { s.handle h with
          pc := .live, port := port, fd := fd, recvFunc := recvFunc, running := recvFunc }) := by
      intro k hk
      by_cases hkh : k = h
      · subst hkh
        simp [bound_setBound]
      · have hb := hl k (by simpa [hkh] using hk)
        rw [setHandle_bound, bound_setBound, if_neg]
        · simpa [hkh] using hb
        · simp only [setHandle_handle, Function.update_of_ne hkh, setBound_handle]
          intro heq
          simp [← heq.1, ← heq.2, hb] at hfree
    have hon : ∀ k, Onward (s.handle k) (((s.setBound (T.home h) port (some h)).setHandle h
        { s.handle h with
          pc := .live, port := port, fd := fd, recvFunc := recvFunc, running := recvFunc }).handle
            k) :=
      onward_setHandle (s := s.setBound (T.home h) port (some h)) fun hne => absurd habs hne
    obtain rfl := Option.some.inj ht
  · refine ⟨hopen.uninitSocket (by simp [bound_setBound]), fun k hk => ?_⟩
    obtain ⟨hpc, hport⟩ := hon k hk
    obtain ⟨hpc', hport'⟩ := onward_uninitSocket h k hpc
    exact ⟨hpc', hport'.trans hport⟩
  · exact ⟨hopen, hon⟩

theorem live_step (hl : Live T s) (ht : s.step T l = some t) :
    Live T t ∧ ∀ k, Onward (s.handle k) (t.handle k) := by
  have hmove : ∀ {h : ι} {c : Handle ι κ}, c.pc = (s.handle h).pc → c.port = (s.handle h).port →
      Live T (s.setHandle h c) ∧ ∀ k, Onward (s.handle k) ((s.setHandle h c).handle k) := by
    intro h c hpc hport
    exact ⟨hl.setHandle fun hc => ⟨hpc ▸ hc, hport⟩,
      onward_setHandle fun hne => ⟨by rwa [hpc], hport⟩⟩
  cases step_move ht with
  | init ht => exact live_init hl ht
  | uninit hlive => exact ⟨hl.uninitSocket (hl _ hlive), onward_uninitSocket _⟩
  | send | other | refused => exact ⟨hl, fun _ hk => ⟨hk, rfl⟩⟩
  | deliver | handed | failed | polled => exact hmove rfl rfl

theorem live_run (hl : Live T s) (hrun : exec (Network.step T) s ls = some t) :
    Live T t ∧ ∀ k, Onward (s.handle k) (t.handle k) := by
  induction ls generalizing s with
  | nil =>
    obtain rfl := Option.some.inj hrun
    exact ⟨hl, fun _ hk => ⟨hk, rfl⟩⟩
  | cons l ls ih =>
    obtain ⟨u, hu, hr⟩ := exec_cons.mp hrun
    obtain ⟨hlu, hon⟩ := live_step hl hu
    obtain ⟨hlt, hon'⟩ := ih hlu hr
    refine ⟨hlt, fun k hk => ?_⟩
    obtain ⟨hpc, hport⟩ := hon k hk
    obtain ⟨hpc', hport'⟩ := hon' k hpc
    exact ⟨hpc', hport'.trans hport⟩

theorem uninitSocket_sent (h : ι) : (s.uninitSocket T h).sent = s.sent := by
  unfold Network.uninitSocket
  dsimp only
  split_ifs <;> rfl

theorem init_sent {portNum chosen : UInt16} {recvFunc free created : Bool} {fd : ℤ}
    (ht : s.udpIpv4Init T h portNum recvFunc fd chosen free created = some t) :
    t.sent = s.sent := by
  simp only [Network.udpIpv4Init, Option.ite_none_right_eq_some] at ht
  obtain ⟨-, ht⟩ := ht
  generalize (if portNum = 0 then chosen else portNum) = port at ht
  split_ifs at ht <;> obtain rfl := Option.some.inj ht
  · rfl
  · exact uninitSocket_sent h
  · rfl

theorem Back.step (hb : Back T s) (hg : Network.LeadsBack T s l) (ht : s.step T l = some t) :
    Back T t := by
  have hsame : ∀ {u : Network ι κ}, u.sent = s.sent → Back T u := fun hu => by rwa [Back, hu]
  cases step_move ht with
  | init ht => exact hsame (init_sent ht)
  | uninit => exact hsame (uninitSocket_sent _)
  | @send h =>
    refine hb.send fun k hk => ?_
    obtain rfl : h = k := by simpa using hk
    exact hg
  | other hm => exact hb.send fun k hk => by simp [hk] at hm
  | deliver | handed | failed | polled | refused => exact hsame rfl

/-- Where the source addresses lead back, a reply to the address that came with a datagram from a
handle of the library goes to the socket that is bound to that handle's port when it arrives, which
is the handle's own as long as it is live. -/
theorem replies_return (hback : Obeys (Network.step T) (Network.LeadsBack T) start ls)
    (hrun : exec (Network.step T) start ls = some s)
    (hm : m ∈ (s.handle h).inbox.delivered) (hk : m.sender = some k)
    {pData : Option (ℕ → UInt8)} {size : UInt16} {addr : Ipv4} {bs : List UInt8}
    (ht : s.step T (.send h (inetNtoa m.source.addr) m.source.port pData size addr true) = some t)
    (hbs : Args.request ⟨some (s.handle h).fd, pData, size⟩ = some bs)
    (hrun' : exec (Network.step T) t ls' = some u) :
    ∃ r, t.sent = s.sent ++ [r] ∧ r.sender = some h ∧ r.data = bs ∧
      receiver T u r = u.bound (T.home k) (u.handle k).port ∧
      ((u.handle k).pc = .live → receiver T u r = some k) := by
  have hs : Inv T s := exec_invariant (fun _ _ _ hs ht => hs.step ht) (inv_start T) hrun
  have hb : Back T s := invariant (fun _ _ _ hs hg ht => hs.step hg ht) (by simp [Back, start])
    hback hrun
  have hl : Live T s := (live_run (by simp [Live, start, Handle.absent]) hrun).1
  obtain ⟨hlt, hon⟩ := live_step hl ht
  obtain ⟨hlu, hon'⟩ := live_run hlt hrun'
  obtain ⟨hsent, hroute, -⟩ := hs.addressed h m (List.mem_of_mem_take hm)
  obtain ⟨hused, -, -, hport⟩ := hs.sent m hsent k hk
  simp only [Network.step, Network.udpIpv4Send, Option.ite_none_right_eq_some, hbs, if_true,
    Option.some.injEq] at ht
  obtain ⟨-, rfl⟩ := ht
  have hstill : (u.handle k).port = m.source.port :=
    (hon' k hused).2.trans hport.symm
  have hreceiver : receiver T u ⟨T.home h, some h, ⟨addr, (s.handle h).port⟩,
      ⟨inetAddr (inetNtoa m.source.addr), m.source.port⟩, bs⟩ =
        u.bound (T.home k) (u.handle k).port := by
    simp [receiver, inetAddr_inetNtoa, hb m hsent k hk _ hroute, hstill]
  exact ⟨_, rfl, rfl, rfl, hreceiver, fun hlive => hreceiver.trans (hlu k hlive)⟩

def onTheWay : List (Label Bool Bool) :=
  [.send false (inetNtoa ⟨10, 0, 0, 2⟩) 40000 (some fun _ => 9) 1 ⟨10, 0, 0, 1⟩ true,
    .deliver 2, .deliver 1, .recvTask true, .uninit false]

theorem replies_return_request : ∃ s t u r,
    exec (Network.step twoHosts) start request = some s ∧
      s.step twoHosts (.send false (inetNtoa ⟨10, 0, 0, 2⟩) 40000 (some fun _ => 8) 1
        ⟨10, 0, 0, 1⟩ true) = some t ∧
      exec (Network.step twoHosts) t onTheWay = some u ∧
      t.sent = s.sent ++ [r] ∧ r.data = [8] ∧ receiver twoHosts u r = some true := by
  have hrun : (exec (Network.step twoHosts) start request).map
      (fun s => (s.handle false).inbox.delivered.map fun m => (m.sender, m.source)) =
        some [(some true, ⟨⟨10, 0, 0, 2⟩, 40000⟩)] := by decide +kernel
  have hfd : (exec (Network.step twoHosts) start request).map
      (fun s => (s.handle false).fd) = some 3 := by decide +kernel
  have hnext : (exec (Network.step twoHosts) start (request ++ .send false
      (inetNtoa ⟨10, 0, 0, 2⟩) 40000 (some fun _ => 8) 1 ⟨10, 0, 0, 1⟩ true :: onTheWay)).map
        (fun u => (u.handle true).pc) = some .live := by decide +kernel
  obtain ⟨s, hs, hd⟩ := Option.map_eq_some_iff.mp hrun
  obtain ⟨u, hu, hlive⟩ := Option.map_eq_some_iff.mp hnext
  obtain ⟨s', hs', hlast⟩ := exec_append.mp hu
  obtain rfl : s = s' := Option.some.inj (hs.symm.trans hs')
  obtain ⟨t, ht, hrest⟩ := exec_cons.mp hlast
  rw [hs, Option.map_some, Option.some.injEq] at hfd
  obtain ⟨m, hm, hmk⟩ := List.map_eq_singleton_iff.mp hd
  obtain ⟨hsender, hsource⟩ := Prod.mk.inj hmk
  have hmem : m ∈ (s.handle false).inbox.delivered := hm ▸ List.mem_singleton_self m
  have hbs : Args.request ⟨some (s.handle false).fd, some fun _ => 8, 1⟩ = some [8] := by
    rw [hfd]
    decide
  obtain ⟨r, hr, -, hdata, -, hto⟩ :=
    replies_return (by decide +kernel) hs hmem hsender (by rw [hsource]; exact ht) hbs hrest
  exact ⟨s, t, u, r, hs, ht, hrest, hr, hdata, hto hlive⟩

end Replies
end LibComm.UdpNetwork

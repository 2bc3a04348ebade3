import Mathlib.Algebra.Order.Group.Multiset
import Mathlib.Data.Finset.Basic
import Mathlib.Data.Multiset.Bind
import LibComm.Interleaving

/-!
# Accounting of contexts and descriptors

Every open function of the library allocates a context, gets a descriptor and,
for most kinds, starts a task; on a failure it gives back what it has. The
matching call for a handle closes the descriptor and frees the context. A state
is what is allocated and open, and the handles that the application has. The
tasks only wait here, so they do not appear.
-/

namespace LibComm.HandleAccounting
open Interleaving

@[ext]
structure Sys where
  blocks : Finset ℕ
  fds : Finset ℕ

namespace Sys

def alloc (b : ℕ) (s : Sys) : Sys := { s with blocks := insert b s.blocks }

def free (b : ℕ) (s : Sys) : Sys := { s with blocks := s.blocks.erase b }

def opened (fd : ℕ) (s : Sys) : Sys := { s with fds := insert fd s.fds }

def close (fd : ℕ) (s : Sys) : Sys := { s with fds := s.fds.erase fd }

end Sys

inductive Kind where
  | udpIpv4 (pRecvFunc : Bool)
  | udpIpv6 (pRecvFunc : Bool)
  | tcpIpv4Client
  | tcpIpv6Client
  | tcpIpv4Server
  | tcpIpv6Server
  | ipcDgram (pRecvFunc : Bool)
  | ipcStreamClient
  | ipcStreamServer
  | rawSock (pRecvFunc : Bool)
  | fifoRead (make : Bool)
  | fifoWrite (make : Bool)
  | netlink
  | uart
  deriving DecidableEq

structure Context where
  kind : Kind
  address : ℕ
  fd : ℕ
  buffers : List ℕ
  deriving DecidableEq

/-- What the calls of an open function are answered; `fd` is that of `socket` or `open`, and `none`
stands for a null pointer and a negative descriptor. -/
structure Answers where
  malloc : Option ℕ
  fd : Option ℕ
  bind : ℤ
  ioctlIndex : ℤ
  ioctlMtu : ℤ
  ioctlHwAddr : ℤ
  access : ℤ
  mkfifo : ℤ
  mallocSend : Option ℕ
  mallocRecv : Option ℕ
  pthreadCreate : ℤ

def initSocket (fd : Option ℕ) (succeeds : Bool) (s : Sys) : Sys × Option (ℕ × List ℕ) :=
  match fd with
  | none => (s, none)
  | some fd => if succeeds then (s.opened fd, some (fd, [])) else ((s.opened fd).close fd, none)

def bindSocket (a : Answers) : Sys → Sys × Option (ℕ × List ℕ) := initSocket a.fd (0 ≤ a.bind)

def rawInit (a : Answers) : Sys → Sys × Option (ℕ × List ℕ) :=
  initSocket a.fd (0 ≤ a.ioctlIndex && 0 ≤ a.ioctlMtu && 0 ≤ a.ioctlHwAddr)

/-- `_openFifoRead` and `_openFifoWrite`. -/
def openFifo (make : Bool) (a : Answers) (s : Sys) : Sys × Option (ℕ × List ℕ) :=
  if make && a.access != 0 && a.mkfifo < 0 then (s, none) else initSocket a.fd true s

def netlinkInit (a : Answers) (s : Sys) : Sys × Option (ℕ × List ℕ) :=
  match a.fd with
  | none => (s, none)
  | some fd =>
    let s := s.opened fd
    if a.bind < 0 then (s.close fd, none)
    else match a.mallocSend with
      | none => (s.close fd, none)
      | some pSendNlHdr =>
        let s := s.alloc pSendNlHdr
        match a.mallocRecv with
        | none => ((s.free pSendNlHdr).close fd, none)
        | some pRecvNlHdr => (s.alloc pRecvNlHdr, some (fd, [pSendNlHdr, pRecvNlHdr]))

/-- The test `fd > 0` is that of every kind. -/
def uninitSocket (c : Context) (s : Sys) : Sys := if 0 < c.fd then s.close c.fd else s

def netlinkUninit (c : Context) (s : Sys) : Sys :=
  c.buffers.foldl (fun s b => s.free b) (uninitSocket c s)

def openContext (kind : Kind) (init : Sys → Sys × Option (ℕ × List ℕ))
    (uninit : Context → Sys → Sys) (thread : Bool) (a : Answers) (s : Sys) :
    Sys × Option Context :=
  match a.malloc with
  | none => (s, none)
  | some pContext =>
    match init (s.alloc pContext) with
    | (s, none) => (s.free pContext, none)
    | (s, some (fd, buffers)) =>
      let c := ⟨kind, pContext, fd, buffers⟩
      if thread && a.pthreadCreate != 0 then ((uninit c s).free pContext, none) else (s, some c)

def uninitContext (uninit : Context → Sys → Sys) (c : Context) (s : Sys) : Sys :=
  (uninit c s).free c.address

def commUdpIpv4Init (pRecvFunc : Bool) (a : Answers) :=
  openContext (.udpIpv4 pRecvFunc) (bindSocket a) uninitSocket pRecvFunc a

def commUdpIpv4Uninit := uninitContext uninitSocket

def commUdpIpv6Init (pRecvFunc : Bool) (a : Answers) :=
  openContext (.udpIpv6 pRecvFunc) (bindSocket a) uninitSocket pRecvFunc a

def commUdpIpv6Uninit := uninitContext uninitSocket

def commTcpIpv4ClientInit (a : Answers) :=
  openContext .tcpIpv4Client (bindSocket a) uninitSocket false a

def commTcpIpv4ClientUninit := uninitContext uninitSocket

def commTcpIpv6ClientInit (a : Answers) :=
  openContext .tcpIpv6Client (bindSocket a) uninitSocket false a

def commTcpIpv6ClientUninit := uninitContext uninitSocket

def commTcpIpv4ServerInit (a : Answers) :=
  openContext .tcpIpv4Server (bindSocket a) uninitSocket true a

/-- Without clients the loop over the table does nothing. -/
def commTcpIpv4ServerUninit := uninitContext uninitSocket

def commTcpIpv6ServerInit (a : Answers) :=
  openContext .tcpIpv6Server (bindSocket a) uninitSocket true a

def commTcpIpv6ServerUninit := uninitContext uninitSocket

def commIpcDgramInit (pRecvFunc : Bool) (a : Answers) :=
  openContext (.ipcDgram pRecvFunc) (bindSocket a) uninitSocket pRecvFunc a

def commIpcDgramUninit := uninitContext uninitSocket

def commIpcStreamClientInit (a : Answers) :=
  openContext .ipcStreamClient (bindSocket a) uninitSocket false a

def commIpcStreamClientUninit := uninitContext uninitSocket

def commIpcStreamInitServer (a : Answers) :=
  openContext .ipcStreamServer (bindSocket a) uninitSocket true a

def commIpcStreamUninitServer := uninitContext uninitSocket

def commRawSockInit (pRecvFunc : Bool) (a : Answers) :=
  openContext (.rawSock pRecvFunc) (rawInit a) uninitSocket pRecvFunc a

def commRawSockUninit := uninitContext uninitSocket

def commFifoReadInit (make : Bool) (a : Answers) :=
  openContext (.fifoRead make) (openFifo make a) uninitSocket true a

def commFifoReadUninit := uninitContext uninitSocket

def commFifoWriteInit (make : Bool) (a : Answers) :=
  openContext (.fifoWrite make) (openFifo make a) uninitSocket false a

def commFifoWriteUninit := uninitContext uninitSocket

def commNetlinkInit (a : Answers) :=
  openContext .netlink (netlinkInit a) netlinkUninit true a

def commNetlinkUninit := uninitContext netlinkUninit

/-- `open` comes after `malloc`, and its failure returns at once. -/
def uartOpenDev (a : Answers) (s : Sys) : Sys × Option Context :=
  match a.malloc with
  | none => (s, none)
  | some pContext =>
    let s := s.alloc pContext
    match a.fd with
    | none => (s, none)
    | some fd =>
      let s := s.opened fd
      if a.pthreadCreate != 0 then ((s.close fd).free pContext, none)
      else (s, some ⟨.uart, pContext, fd, []⟩)

def uartCloseDev := uninitContext uninitSocket

def Kind.init : Kind → Answers → Sys → Sys × Option Context
  | .udpIpv4 pRecvFunc => commUdpIpv4Init pRecvFunc
  | .udpIpv6 pRecvFunc => commUdpIpv6Init pRecvFunc
  | .tcpIpv4Client => commTcpIpv4ClientInit
  | .tcpIpv6Client => commTcpIpv6ClientInit
  | .tcpIpv4Server => commTcpIpv4ServerInit
  | .tcpIpv6Server => commTcpIpv6ServerInit
  | .ipcDgram pRecvFunc => commIpcDgramInit pRecvFunc
  | .ipcStreamClient => commIpcStreamClientInit
  | .ipcStreamServer => commIpcStreamInitServer
  | .rawSock pRecvFunc => commRawSockInit pRecvFunc
  | .fifoRead make => commFifoReadInit make
  | .fifoWrite make => commFifoWriteInit make
  | .netlink => commNetlinkInit
  | .uart => uartOpenDev

def Context.uninit (c : Context) : Sys → Sys :=
  match c.kind with
  | .udpIpv4 _ => commUdpIpv4Uninit c
  | .udpIpv6 _ => commUdpIpv6Uninit c
  | .tcpIpv4Client => commTcpIpv4ClientUninit c
  | .tcpIpv6Client => commTcpIpv6ClientUninit c
  | .tcpIpv4Server => commTcpIpv4ServerUninit c
  | .tcpIpv6Server => commTcpIpv6ServerUninit c
  | .ipcDgram _ => commIpcDgramUninit c
  | .ipcStreamClient => commIpcStreamClientUninit c
  | .ipcStreamServer => commIpcStreamUninitServer c
  | .rawSock _ => commRawSockUninit c
  | .fifoRead _ => commFifoReadUninit c
  | .fifoWrite _ => commFifoWriteUninit c
  | .netlink => commNetlinkUninit c
  | .uart => uartCloseDev c

def Answers.blocks (a : Answers) : List ℕ :=
  a.malloc.toList ++ a.mallocSend.toList ++ a.mallocRecv.toList

def Answers.Fresh (a : Answers) (s : Sys) : Prop :=
  a.blocks.Nodup ∧ (∀ b ∈ a.blocks, b ∉ s.blocks) ∧ ∀ fd ∈ a.fd.toList, fd ∉ s.fds

instance (a : Answers) (s : Sys) : Decidable (a.Fresh s) :=
  inferInstanceAs (Decidable (_ ∧ _ ∧ _))

structure State where
  sys : Sys
  handles : Multiset Context

def start : State := ⟨⟨∅, ∅⟩, 0⟩

inductive Label where
  | init (kind : Kind) (a : Answers)
  | uninit (c : Context)

def step (s : State) : Label → Option State
  | .init kind a =>
    if a.Fresh s.sys then
      let r := kind.init a s.sys
      some ⟨r.1, r.2.elim s.handles fun c => c ::ₘ s.handles⟩
    else none
  | .uninit c => if c ∈ s.handles then some ⟨c.uninit s.sys, s.handles.erase c⟩ else none

def Context.blocks (c : Context) : Multiset ℕ := c.address ::ₘ (c.buffers : Multiset ℕ)

def Accounted (s : State) : Prop :=
  s.sys.blocks.val = s.handles.bind Context.blocks ∧ s.sys.fds.val = s.handles.map Context.fd

def Kind.thread : Kind → Bool
  | .udpIpv4 pRecvFunc | .udpIpv6 pRecvFunc | .ipcDgram pRecvFunc | .rawSock pRecvFunc => pRecvFunc
  | .tcpIpv4Client | .tcpIpv6Client | .ipcStreamClient | .fifoWrite _ => false
  | _ => true

def Kind.ready (a : Answers) : Kind → Bool
  | .rawSock _ => 0 ≤ a.ioctlIndex && 0 ≤ a.ioctlMtu && 0 ≤ a.ioctlHwAddr
  | .fifoRead make | .fifoWrite make => !(make && a.access != 0 && a.mkfifo < 0)
  | .netlink => 0 ≤ a.bind && a.mallocSend.isSome && a.mallocRecv.isSome
  | .uart => true
  | _ => 0 ≤ a.bind

def Kind.buffers (a : Answers) : Kind → List ℕ
  | .netlink => a.mallocSend.toList ++ a.mallocRecv.toList
  | _ => []

def Kind.acquired (a : Answers) (k : Kind) : Option Context :=
  match a.malloc, a.fd with
  | some pContext, some fd => if k.ready a then some ⟨k, pContext, fd, k.buffers a⟩ else none
  | _, _ => none

def Context.take (c : Context) (s : Sys) : Sys :=
  c.buffers.foldl (fun s b => s.alloc b) ((s.alloc c.address).opened c.fd)

section Sys

variable {s : Sys} {b fd : ℕ}

theorem free_alloc (h : b ∉ s.blocks) : (s.alloc b).free b = s := by
  ext1
  · exact Finset.erase_insert h
  · rfl

theorem close_opened (h : fd ∉ s.fds) : (s.opened fd).close fd = s := by
  ext1
  · rfl
  · exact Finset.erase_insert h

end Sys

section Init

variable {a : Answers} {s : Sys}

theorem Answers.Fresh.malloc (h : a.Fresh s) {b : ℕ} (hb : a.malloc = some b) : b ∉ s.blocks :=
  h.2.1 b (by simp [Answers.blocks, hb])

theorem Answers.Fresh.fd (h : a.Fresh s) {fd : ℕ} (hfd : a.fd = some fd) : fd ∉ s.fds :=
  h.2.2 fd (by simp [hfd])

/-- How an open function comes out for every kind but the UART: with the handle, with nothing, or
with descriptor 0 left open because the task could not be started. -/
def Outcome (k : Kind) (a : Answers) (s : Sys) (r : Sys × Option Context) : Prop :=
  r = match k.acquired a with
    | none => (s, none)
    | some c =>
      if k.thread && a.pthreadCreate != 0 then (if c.fd = 0 then s.opened 0 else s, none)
      else (c.take s, some c)

theorem uninitSocket_take {p fd : ℕ} (k : Kind) (hp : p ∉ s.blocks) (hfd : fd ∉ s.fds) :
    (uninitSocket ⟨k, p, fd, []⟩ ((s.alloc p).opened fd)).free p =
      if fd = 0 then s.opened 0 else s := by
  by_cases h0 : fd = 0
  · simp only [uninitSocket, h0, lt_irrefl, if_true, if_false]
    exact free_alloc (s := s.opened 0) hp
  · have hlt : 0 < fd := by omega
    simp only [uninitSocket, hlt, h0, if_true, if_false]
    have hclose : ((s.alloc p).opened fd).close fd = s.alloc p := close_opened hfd
    rw [hclose, free_alloc hp]

theorem initSocket_some {fd : ℕ} (hfd : fd ∉ s.fds) (succeeds : Bool) :
    initSocket (some fd) succeeds s =
      if succeeds then (s.opened fd, some (fd, [])) else (s, none) := by
  simp only [initSocket, close_opened hfd]

theorem openContext_outcome {k : Kind} (hf : a.Fresh s)
    {init : Sys → Sys × Option (ℕ × List ℕ)} (hbuf : k.buffers a = [])
    (hinit : ∀ t, t.fds = s.fds → init t = initSocket a.fd (k.ready a) t) :
    Outcome k a s (openContext k init uninitSocket k.thread a s) := by
  rw [Outcome]
  cases hp : a.malloc with
  | none => simp [openContext, Kind.acquired, hp]
  | some p =>
    have hfree := free_alloc (hf.malloc hp)
    have heq := hinit (s.alloc p) rfl
    cases hfd : a.fd with
    | none =>
      rw [hfd] at heq
      simp [openContext, Kind.acquired, hp, hfd, heq, hfree, initSocket]
    | some fd =>
      rw [hfd, initSocket_some (s := s.alloc p) (hf.fd hfd)] at heq
      cases hready : k.ready a with
      | false =>
        simp only [hready, Bool.false_eq_true, if_false] at heq
        simp [openContext, Kind.acquired, hp, hfd, heq, hfree, hready]
      | true =>
        simp only [hready, if_true] at heq
        simp only [openContext, Kind.acquired, hp, hfd, heq, hready, if_true, hbuf,
          uninitSocket_take k (hf.malloc hp) (hf.fd hfd), Context.take, List.foldl_nil]

theorem netlinkUninit_take {p fd x y : ℕ} (hfd : fd ∉ s.fds) (hp : p ∉ s.blocks)
    (hx : x ∉ s.blocks) (hy : y ∉ s.blocks) :
    (netlinkUninit ⟨.netlink, p, fd, [x, y]⟩ ((((s.alloc p).opened fd).alloc x).alloc y)).free p =
      if fd = 0 then s.opened 0 else s := by
  have hblocks : ∀ F, ((((Sys.mk (insert y (insert x (insert p s.blocks))) F).free x).free y).free
      p).blocks = s.blocks := by
    intro F
    ext z
    simp only [Sys.free, Finset.mem_erase, Finset.mem_insert]
    grind
  by_cases h0 : fd = 0
  · simp only [h0, if_true]
    ext1
    · exact hblocks _
    · rfl
  · have hlt : 0 < fd := by omega
    simp only [netlinkUninit, uninitSocket, hlt, h0, if_true, if_false]
    ext1
    · exact hblocks _
    · exact Finset.erase_insert hfd

theorem netlink_outcome (hf : a.Fresh s) : Outcome .netlink a s (commNetlinkInit a s) := by
  rw [Outcome]
  cases hp : a.malloc with
  | none => simp [commNetlinkInit, openContext, Kind.acquired, hp]
  | some p =>
    have hfree := free_alloc (hf.malloc hp)
    cases hfd : a.fd with
    | none => simp [commNetlinkInit, openContext, netlinkInit, Kind.acquired, hp, hfd, hfree]
    | some fd =>
      have hclose : ((s.alloc p).opened fd).close fd = s.alloc p := close_opened (hf.fd hfd)
      by_cases hbind : a.bind < 0
      · have hready : Kind.netlink.ready a = false := by simp [Kind.ready, hbind]
        simp [commNetlinkInit, openContext, netlinkInit, Kind.acquired, hp, hfd, hfree, hclose,
          hbind, hready]
      · cases hx : a.mallocSend with
        | none =>
          have hready : Kind.netlink.ready a = false := by simp [Kind.ready, hx]
          simp [commNetlinkInit, openContext, netlinkInit, Kind.acquired, hp, hfd, hfree, hclose,
            hbind, hx, hready]
        | some x =>
          have hnodup := hf.1
          have hfresh := hf.2.1
          simp only [Answers.blocks, hp, hx, Option.toList_some] at hnodup hfresh
          have hxs : x ∉ ((s.alloc p).opened fd).blocks := by
            simp only [Sys.opened, Sys.alloc, Finset.mem_insert, not_or]
            exact ⟨by grind, hfresh x (by simp)⟩
          cases hy : a.mallocRecv with
          | none =>
            have hready : Kind.netlink.ready a = false := by simp [Kind.ready, hy]
            simp [commNetlinkInit, openContext, netlinkInit, Kind.acquired, hp, hfd, hfree, hclose,
              hbind, hx, hy, hready, free_alloc hxs]
          | some y =>
            simp only [hy, Option.toList_some] at hfresh
            have hready : Kind.netlink.ready a = true := by
              simp [Kind.ready, hx, hy, Int.not_lt.mp hbind]
            have huninit := netlinkUninit_take (s := s) (hf.fd hfd) (hf.malloc hp)
              (hfresh x (by simp)) (hfresh y (by simp))
            simp [commNetlinkInit, openContext, netlinkInit, Kind.acquired, hp, hfd, hbind, hx, hy,
              hready, huninit, Kind.thread, Kind.buffers, Context.take]

theorem init_outcome (hf : a.Fresh s) {k : Kind} (hk : k ≠ .uart) :
    Outcome k a s (k.init a s) := by
  have hbind : ∀ k : Kind, k.ready a = decide (0 ≤ a.bind) → ∀ t : Sys, t.fds = s.fds →
      bindSocket a t = initSocket a.fd (k.ready a) t := by
    intro k hready t ht
    rw [hready]
    rfl
  have hfifo : ∀ make t, t.fds = s.fds → openFifo make a t =
      initSocket a.fd (!(make && a.access != 0 && decide (a.mkfifo < 0))) t := by
    intro make t ht
    rw [openFifo]
    cases make && a.access != 0 && decide (a.mkfifo < 0) with
    | false => rfl
    | true =>
      cases hfd : a.fd with
      | none => rfl
      | some fd => rw [initSocket_some (ht ▸ hf.fd hfd) (!true)]; rfl
  cases k with
  | udpIpv4 pRecvFunc => exact openContext_outcome hf rfl (hbind (.udpIpv4 pRecvFunc) rfl)
  | udpIpv6 pRecvFunc => exact openContext_outcome hf rfl (hbind (.udpIpv6 pRecvFunc) rfl)
  | tcpIpv4Client => exact openContext_outcome hf rfl (hbind .tcpIpv4Client rfl)
  | tcpIpv6Client => exact openContext_outcome hf rfl (hbind .tcpIpv6Client rfl)
  | tcpIpv4Server => exact openContext_outcome hf rfl (hbind .tcpIpv4Server rfl)
  | tcpIpv6Server => exact openContext_outcome hf rfl (hbind .tcpIpv6Server rfl)
  | ipcDgram pRecvFunc => exact openContext_outcome hf rfl (hbind (.ipcDgram pRecvFunc) rfl)
  | ipcStreamClient => exact openContext_outcome hf rfl (hbind .ipcStreamClient rfl)
  | ipcStreamServer => exact openContext_outcome hf rfl (hbind .ipcStreamServer rfl)
  | rawSock pRecvFunc => exact openContext_outcome hf rfl fun t _ => rfl
  | fifoRead make => exact openContext_outcome hf rfl (hfifo make)
  | fifoWrite make => exact openContext_outcome hf rfl (hfifo make)
  | netlink => exact netlink_outcome hf
  | uart => exact absurd rfl hk

theorem acquired_eq {k : Kind} {c : Context} (h : k.acquired a = some c) :
    c.kind = k ∧ a.fd = some c.fd ∧ (c.address :: c.buffers).Sublist a.blocks ∧
      (k = .netlink ∨ c.buffers = []) := by
  cases hp : a.malloc with
  | none => simp [Kind.acquired, hp] at h
  | some p =>
    cases hfd : a.fd with
    | none => simp [Kind.acquired, hp, hfd] at h
    | some fd =>
      simp only [Kind.acquired, hp, hfd, Option.ite_none_right_eq_some, Option.some.injEq] at h
      obtain ⟨-, rfl⟩ := h
      have hblocks : a.blocks = p :: (a.mallocSend.toList ++ a.mallocRecv.toList) := by
        simp [Answers.blocks, hp]
      refine ⟨rfl, rfl, ?_, ?_⟩
      · rw [hblocks]
        apply List.Sublist.cons_cons
        cases k with
        | netlink => exact List.Sublist.refl _
        | _ => exact List.nil_sublist _
      · cases k with
        | netlink => exact .inl rfl
        | _ => exact .inr rfl

theorem foldl_alloc {bs : List ℕ} (hn : bs.Nodup) (hfresh : ∀ b ∈ bs, b ∉ s.blocks) :
    (bs.foldl (fun s b => s.alloc b) s).blocks.val = ↑bs + s.blocks.val ∧
      (bs.foldl (fun s b => s.alloc b) s).fds = s.fds := by
  induction bs generalizing s with
  | nil => simp
  | cons b bs ih =>
    rw [List.nodup_cons] at hn
    rw [List.forall_mem_cons] at hfresh
    have hrest : ∀ x ∈ bs, x ∉ (s.alloc b).blocks := by
      intro x hx
      simp only [Sys.alloc, Finset.mem_insert, not_or]
      exact ⟨fun hb => hn.1 (hb ▸ hx), hfresh.2 x hx⟩
    obtain ⟨hblocks, hfds⟩ := ih hn.2 hrest
    refine ⟨?_, hfds⟩
    rw [List.foldl_cons, hblocks, Sys.alloc, Finset.insert_val_of_notMem hfresh.1,
      ← Multiset.cons_coe, Multiset.cons_add, Multiset.add_cons]

theorem foldl_free (bs : List ℕ) (s : Sys) :
    (bs.foldl (fun s b => s.free b) s).blocks.val = s.blocks.val - ↑bs ∧
      (bs.foldl (fun s b => s.free b) s).fds = s.fds := by
  induction bs generalizing s with
  | nil => simp
  | cons b bs ih =>
    obtain ⟨hblocks, hfds⟩ := ih (s.free b)
    refine ⟨?_, hfds⟩
    rw [List.foldl_cons, hblocks, Sys.free, Finset.erase_val, ← Multiset.cons_coe,
      Multiset.sub_cons]

theorem take_val (hf : a.Fresh s) {k : Kind} {c : Context} (h : k.acquired a = some c) :
    (c.take s).blocks.val = c.blocks + s.blocks.val ∧ (c.take s).fds.val = c.fd ::ₘ s.fds.val := by
  obtain ⟨-, hfd, hsub, -⟩ := acquired_eq h
  have hnodup := List.nodup_cons.mp (hsub.nodup hf.1)
  have haddress := hf.2.1 _ (hsub.subset List.mem_cons_self)
  have hrest : ∀ b ∈ c.buffers, b ∉ ((s.alloc c.address).opened c.fd).blocks := by
    intro b hb
    simp only [Sys.opened, Sys.alloc, Finset.mem_insert, not_or]
    exact ⟨fun he => hnodup.1 (he ▸ hb), hf.2.1 b (hsub.subset (List.mem_cons_of_mem _ hb))⟩
  obtain ⟨hblocks, hfds⟩ := foldl_alloc hnodup.2 hrest
  rw [Context.take, hblocks, hfds]
  constructor
  · simp only [Sys.opened, Sys.alloc]
    rw [Finset.insert_val_of_notMem haddress, Context.blocks, Multiset.add_cons, Multiset.cons_add]
  · exact Finset.insert_val_of_notMem (hf.fd hfd)

end Init

/-- `uart_openDev` gets the device, `pthread_create` does not fail on descriptor 0 for the other
kinds, and no handle with descriptor 0 is given back. -/
def Safe (_ : State) : Label → Prop
  | .init .uart a => a.malloc.isSome → a.fd.isSome
  | .init k a => (k.acquired a).isSome → k.thread → a.pthreadCreate ≠ 0 → a.fd ≠ some 0
  | .uninit c => c.fd ≠ 0

structure Inv (s : State) : Prop where
  accounted : Accounted s
  buffers : ∀ c ∈ s.handles, c.kind = .netlink ∨ c.buffers = []

section Steps

variable {a : Answers} {s t : State}

theorem safe_init {k : Kind} (hk : k ≠ .uart) :
    Safe s (.init k a) ↔
      ((k.acquired a).isSome → k.thread → a.pthreadCreate ≠ 0 → a.fd ≠ some 0) := by
  cases k with
  | uart => exact absurd rfl hk
  | _ => rfl

theorem uart_outcome (hf : a.Fresh s.sys) :
    uartOpenDev a s.sys =
      match Kind.uart.acquired a with
      | none => (a.malloc.elim s.sys fun p => s.sys.alloc p, none)
      | some c => if a.pthreadCreate != 0 then (s.sys, none) else (c.take s.sys, some c) := by
  cases hp : a.malloc with
  | none => simp [uartOpenDev, Kind.acquired, hp]
  | some p =>
    cases hfd : a.fd with
    | none => simp [uartOpenDev, Kind.acquired, hp, hfd]
    | some fd =>
      have hclose : ((s.sys.alloc p).opened fd).close fd = s.sys.alloc p :=
        close_opened (hf.fd hfd)
      simp [uartOpenDev, Kind.acquired, hp, hfd, hclose, free_alloc (hf.malloc hp), Kind.ready,
        Context.take, Kind.buffers]

theorem init_safe (hf : a.Fresh s.sys) {k : Kind} (hs : Safe s (.init k a)) :
    k.init a s.sys = (s.sys, none) ∨
      ∃ c, k.acquired a = some c ∧ k.init a s.sys = (c.take s.sys, some c) := by
  by_cases hk : k = .uart
  · rw [hk] at hs ⊢
    simp only [Kind.init, uart_outcome hf]
    cases hc : Kind.uart.acquired a with
    | none =>
      left
      cases hp : a.malloc with
      | none => rfl
      | some p =>
        obtain ⟨fd, hfd⟩ := Option.isSome_iff_exists.mp (hs (by simp [hp]))
        simp [Kind.acquired, hp, hfd, Kind.ready] at hc
    | some c =>
      by_cases herr : a.pthreadCreate = 0
      · right
        exact ⟨c, rfl, by simp [herr]⟩
      · left
        simp [herr]
  · have hout := init_outcome hf hk
    rw [Outcome] at hout
    rw [hout]
    cases hc : k.acquired a with
    | none => exact .inl rfl
    | some c =>
      by_cases hfail : k.thread && a.pthreadCreate != 0
      · left
        have hsafe : a.fd ≠ some 0 := by
          simp only [Bool.and_eq_true, bne_iff_ne] at hfail
          exact (safe_init hk).mp hs (by simp [hc]) hfail.1 hfail.2
        have hne : c.fd ≠ 0 := by
          intro h0
          exact hsafe (h0 ▸ (acquired_eq hc).2.1)
        simp [hfail, hne]
      · right
        exact ⟨c, rfl, by simp [hfail]⟩

theorem init_leak (hf : a.Fresh s.sys) {k : Kind} (hs : ¬ Safe s (.init k a)) :
    (∃ p ∉ s.sys.blocks, k.init a s.sys = (s.sys.alloc p, none)) ∨
      (0 ∉ s.sys.fds ∧ k.init a s.sys = (s.sys.opened 0, none)) := by
  by_cases hk : k = .uart
  · left
    rw [hk] at hs ⊢
    simp only [Safe, Classical.not_imp, Bool.not_eq_true, Option.isSome_eq_false_iff,
      Option.isNone_iff_eq_none] at hs
    obtain ⟨hmalloc, hfd⟩ := hs
    obtain ⟨p, hp⟩ := Option.isSome_iff_exists.mp hmalloc
    refine ⟨p, hf.malloc hp, ?_⟩
    simp [Kind.init, uartOpenDev, hp, hfd]
  · right
    rw [safe_init hk] at hs
    simp only [Classical.not_imp, ne_eq, not_not] at hs
    obtain ⟨hacq, hthread, herr, hfd⟩ := hs
    obtain ⟨c, hc⟩ := Option.isSome_iff_exists.mp hacq
    have h0 : c.fd = 0 := by
      have heq := (acquired_eq hc).2.1
      rw [hfd, Option.some.injEq] at heq
      exact heq.symm
    have hout := init_outcome hf hk
    refine ⟨hf.fd hfd, ?_⟩
    rw [Outcome, hc] at hout
    simpa [hthread, herr, h0] using hout

theorem uninitSocket_val (c : Context) (s : Sys) : (uninitSocket c s).blocks = s.blocks ∧
    (uninitSocket c s).fds = if 0 < c.fd then s.fds.erase c.fd else s.fds := by
  rw [uninitSocket]
  split <;> exact ⟨rfl, rfl⟩

theorem commNetlinkUninit_val (c : Context) (s : Sys) :
    (commNetlinkUninit c s).blocks.val = s.blocks.val - c.blocks ∧
      (commNetlinkUninit c s).fds = if 0 < c.fd then s.fds.erase c.fd else s.fds := by
  obtain ⟨hblocks, hfds⟩ := foldl_free c.buffers (uninitSocket c s)
  obtain ⟨hsame, hclose⟩ := uninitSocket_val c s
  constructor
  · calc
      (commNetlinkUninit c s).blocks.val = (s.blocks.val - ↑c.buffers).erase c.address := by
        rw [← hsame, ← hblocks, ← Finset.erase_val]
        rfl
      _ = s.blocks.val - c.blocks := by
        rw [Context.blocks, ← Multiset.singleton_add, tsub_add_eq_tsub_tsub_swap,
          Multiset.sub_singleton]
  · rw [← hclose, ← hfds]
    rfl

theorem uninit_val {c : Context} (s : Sys) (hc : c.kind = .netlink ∨ c.buffers = []) :
    (c.uninit s).blocks.val = s.blocks.val - c.blocks ∧
      (c.uninit s).fds = if 0 < c.fd then s.fds.erase c.fd else s.fds := by
  cases c with
  | mk kind address fd buffers =>
    cases kind with
    | netlink => exact commNetlinkUninit_val _ s
    | _ =>
      obtain ⟨hsame, hclose⟩ := uninitSocket_val ⟨.uart, address, fd, buffers⟩ s
      have hnil : buffers = [] := by simpa using hc
      refine ⟨?_, hclose⟩
      rw [Context.blocks, hnil, Multiset.coe_nil, Multiset.sub_cons, Multiset.sub_zero,
        ← Finset.erase_val, ← hsame]
      rfl

theorem step_inv (hi : Inv s) {l : Label} (hs : Safe s l) (ht : step s l = some t) : Inv t := by
  cases l with
  | init k a =>
    simp only [step, Option.ite_none_right_eq_some, Option.some.injEq] at ht
    obtain ⟨hf, rfl⟩ := ht
    obtain hnone | ⟨c, hc, htake⟩ := init_safe hf hs
    · rw [hnone]
      exact hi
    · obtain ⟨hblocks, hfds⟩ := take_val hf hc
      rw [htake]
      refine ⟨⟨?_, ?_⟩, ?_⟩
      · rw [hblocks, hi.accounted.1, Option.elim_some, Multiset.cons_bind]
      · rw [hfds, hi.accounted.2, Option.elim_some, Multiset.map_cons]
      · intro c' hc'
        obtain rfl | hc' := Multiset.mem_cons.mp hc'
        · obtain ⟨hkind, -, -, hbuf⟩ := acquired_eq hc
          exact hkind ▸ hbuf
        · exact hi.buffers c' hc'
  | uninit c =>
    simp only [step, Option.ite_none_right_eq_some, Option.some.injEq] at ht
    obtain ⟨hc, rfl⟩ := ht
    obtain ⟨hblocks, hfds⟩ := uninit_val s.sys (hi.buffers c hc)
    have hcons := Multiset.cons_erase hc
    have hpos : 0 < c.fd := Nat.pos_of_ne_zero hs
    refine ⟨⟨?_, ?_⟩, fun c' hc' => hi.buffers c' (Multiset.mem_of_mem_erase hc')⟩
    · rw [hblocks, hi.accounted.1, ← hcons, Multiset.cons_bind, add_tsub_cancel_left, hcons]
    · rw [hfds, if_pos hpos, Finset.erase_val, hi.accounted.2, ← hcons, Multiset.map_cons,
        Multiset.erase_cons_head, hcons]

theorem step_leak (hi : Inv s) {l : Label} (hs : ¬ Safe s l) (ht : step s l = some t) :
    ¬ Accounted t := by
  intro hacc
  cases l with
  | init k a =>
    simp only [step, Option.ite_none_right_eq_some, Option.some.injEq] at ht
    obtain ⟨hf, rfl⟩ := ht
    obtain ⟨p, hp, hleak⟩ | ⟨h0, hleak⟩ := init_leak hf hs
    · have hblocks := hacc.1
      rw [hleak, Option.elim_none, ← hi.accounted.1, Sys.alloc,
        Finset.insert_val_of_notMem hp] at hblocks
      exact (Multiset.lt_cons_self _ _).ne' hblocks
    · have hfds := hacc.2
      rw [hleak, Option.elim_none, ← hi.accounted.2, Sys.opened,
        Finset.insert_val_of_notMem h0] at hfds
      exact (Multiset.lt_cons_self _ _).ne' hfds
  | uninit c =>
    simp only [step, Option.ite_none_right_eq_some, Option.some.injEq] at ht
    obtain ⟨hc, rfl⟩ := ht
    have h0 : c.fd = 0 := not_not.mp hs
    have hfds := (uninit_val s.sys (hi.buffers c hc)).2
    have hbalance := hacc.2
    simp only [hfds, h0, lt_irrefl, if_false] at hbalance
    rw [hi.accounted.2, ← Multiset.cons_erase hc, Multiset.map_cons,
      Multiset.erase_cons_head] at hbalance
    exact (Multiset.lt_cons_self _ _).ne' hbalance

end Steps

theorem start_inv : Inv start := ⟨⟨rfl, rfl⟩, by simp [start]⟩

/-- In a run the balance holds after every call exactly if every call is safe. -/
theorem handles_accounted {ls : List Label} {u : State} (hu : exec step start ls = some u) :
    (∀ xs ys t, ls = xs ++ ys → exec step start xs = some t → Accounted t) ↔
      Obeys step Safe start ls := by
  constructor
  · intro h
    by_contra hbad
    obtain ⟨xs, l, ys, t, v, rfl, hobeys, hx, hl, hv, -⟩ := first_violation hu hbad
    have hinv := invariant (fun _ _ _ hi hs ht => step_inv hi hs ht) start_inv hobeys hx
    refine step_leak hinv hl hv (h (xs ++ [l]) ys v (by simp) ?_)
    rw [exec_append]
    exact ⟨t, hx, by simp [exec, hv]⟩
  · intro h xs ys t hls hx
    rw [hls] at h
    exact (invariant (fun _ _ _ hi hs ht => step_inv hi hs ht) start_inv h.of_append hx).accounted

def answers (fd : Option ℕ) : Answers := ⟨some 1, fd, 0, 0, 0, 0, 0, 0, none, none, 0⟩

theorem handles_accounted_udp :
    (∀ xs ys t, [.init (.udpIpv4 true) (answers (some 3)), .uninit ⟨.udpIpv4 true, 1, 3, []⟩] =
        xs ++ ys → exec step start xs = some t → Accounted t) ↔
      Obeys step Safe start
        [.init (.udpIpv4 true) (answers (some 3)), .uninit ⟨.udpIpv4 true, 1, 3, []⟩] :=
  handles_accounted (u := start) rfl

/-- A device that cannot be opened costs a context, and descriptor 0 is never closed. -/
theorem handles_accounted_fails :
    (¬ ∀ u, exec step start [.init .uart (answers none)] = some u → Accounted u) ∧
      ¬ ∀ u, exec step start [.init (.udpIpv4 true) (answers (some 0)),
        .uninit ⟨.udpIpv4 true, 1, 0, []⟩] = some u → Accounted u := by
  constructor
  · intro hclaim
    have hbalance := hclaim ⟨⟨{1}, ∅⟩, 0⟩ rfl
    exact absurd hbalance.1 (by simp)
  · intro hclaim
    have hbalance := hclaim ⟨⟨∅, {0}⟩, 0⟩ rfl
    exact absurd hbalance.2 (by simp)

end LibComm.HandleAccounting

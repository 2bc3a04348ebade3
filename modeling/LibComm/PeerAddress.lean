import LibComm.ByteMemory
import LibComm.ClientTable
import LibComm.DatagramTask

/-!
# The paths of the peers of UNIX sockets

`ipcDgramRecvTask` and `ipcStreamServerListenTask` set up one address buffer
and one value-result length before their loops, and hand the buffer on as the
path of each peer. The kernel copies no more of an address than the length it
is given, and leaves the full length of the address there for the next call.
-/

namespace LibComm.PeerAddress
open ByteMemory ClientTable DatagramTask

def afUnix : List UInt8 := [1, 0]

abbrev sunPath : ℕ := 2

abbrev sockaddrUnSize : ℕ := 110

abbrev Peer := Option CString

def pathBytes (p : Peer) : List UInt8 := p.elim [] CString.bytes ++ [0]

/-- The peer's address as `recvfrom` sees it: nothing for an unnamed peer. -/
def recvfromAddr (p : Peer) : List UInt8 := p.elim [] fun _ => afUnix ++ pathBytes p

/-- The peer's address as `accept` sees it: the family alone for an unnamed peer. -/
def acceptAddr (p : Peer) : List UInt8 := p.elim afUnix fun _ => afUnix ++ pathBytes p

structure AddrBuf where
  mem : ℕ → UInt8
  len : ℕ

def AddrBuf.fill (b : AddrBuf) (addr : List UInt8) : AddrBuf :=
  ⟨store b.mem 0 (addr.take b.len), addr.length⟩

def Names (m : ℕ → UInt8) (j : ℕ) (p : Peer) : Prop := Holds m j (pathBytes p)

instance (m : ℕ → UInt8) (j : ℕ) (p : Peer) : Decidable (Names m j p) :=
  inferInstanceAs (Decidable (Holds _ _ _))

structure Message where
  datagram : Datagram
  peer : Peer

structure PathCallback where
  call : Callback
  pPath : ℕ → UInt8

def recvAddr (behind : ℕ → UInt8) : AddrBuf :=
  ⟨fun i => if i < sockaddrUnSize then 0 else behind i, sockaddrUnSize⟩

def ipcDgramRecvTask : List Message → AddrBuf → List PathCallback
  | [], _ => []
  | m :: ms, b =>
    let b' := b.fill (recvfromAddr m.peer)
    ⟨(Outcome.datagram m.datagram).callback, fun i => b'.mem (sunPath + i)⟩ ::
      ipcDgramRecvTask ms b'

/-- `strcpy` into zeroed memory. -/
def strcpy (src : ℕ → UInt8) (i : ℕ) : UInt8 := if ∀ k < i, src k ≠ 0 then src i else 0

structure User where
  fileName : ℕ → UInt8
  fd : ℤ

structure Connection where
  peer : Peer
  fd : ℤ
  table : Table User
  mem : Bool
  thread : Bool

def ipcStreamAcceptClient (pFileName : ℕ → UInt8) (c : Connection) : Except Refusal User :=
  (c.table.acceptClient (if c.mem then some ⟨strcpy pFileName, c.fd⟩ else none) c.thread).2

/-- The users made in the loop of the listening thread; `clitAddr` is not initialised. -/
def ipcStreamServerListenTask : List Connection → AddrBuf → List (Except Refusal User)
  | [], _ => []
  | c :: cs, b =>
    let b' := b.fill (acceptAddr c.peer)
    ipcStreamAcceptClient (fun i => b'.mem (sunPath + i)) c :: ipcStreamServerListenTask cs b'

/-- How many bytes of the path, with its zero byte, the kernel writes. -/
def written (b : AddrBuf) (p : Peer) : ℕ :=
  p.elim 0 fun _ => min (b.len - sunPath) (pathBytes p).length

/-- The bytes of the path that are not written stand in the buffer already. -/
def Remains (b : AddrBuf) (p : Peer) : Prop :=
  Holds b.mem (sunPath + written b p) ((pathBytes p).drop (written b p))

instance (b : AddrBuf) (p : Peer) : Decidable (Remains b p) :=
  inferInstanceAs (Decidable (Holds _ _ _))

def AllRemain (addr : Peer → List UInt8) : List (Peer × Bool) → AddrBuf → Prop
  | [], _ => True
  | (p, used) :: ps, b => (used = true → Remains b p) ∧ AllRemain addr ps (b.fill (addr p))

def Connection.admits (c : Connection) : Bool :=
  decide (c.table.userNum < c.table.maxUserNum) && c.table.freeSlot.isSome && c.mem && c.thread

def DgramRight (ms : List Message) (cs : List PathCallback) : Prop :=
  List.Forall₂ (fun m c => Names c.pPath 0 m.peer) ms cs

def StreamRight (cs : List Connection) (us : List (Except Refusal User)) : Prop :=
  List.Forall₂ (fun c r => ∀ u, r = .ok u → Names u.fileName 0 c.peer) cs us

theorem ipcDgramRecvTask_calls (ms : List Message) (b : AddrBuf) :
    (ipcDgramRecvTask ms b).map PathCallback.call =
      (DatagramTask.ipcDgramRecvTask (ms.map fun m => .datagram m.datagram) started).1.calls := by
  have hcalls : (ipcDgramRecvTask ms b).map PathCallback.call =
      ms.map fun m => (Outcome.datagram m.datagram).callback := by
    induction ms generalizing b with
    | nil => rfl
    | cons m ms ih => simp [ipcDgramRecvTask, ih]
  exact hcalls.trans (ipcDgramRecvTask_map Message.datagram ms).symm

theorem holds_shift {m : ℕ → UInt8} {j i : ℕ} {bs : List UInt8} :
    Holds (fun k => m (j + k)) i bs ↔ Holds m (j + i) bs := by
  induction bs generalizing i with
  | nil => rfl
  | cons b bs ih => simp only [Holds, ih, Nat.add_assoc]

theorem names_shift {m : ℕ → UInt8} {p : Peer} :
    Names (fun k => m (sunPath + k)) 0 p ↔ Names m sunPath p := holds_shift

theorem written_le (b : AddrBuf) (p : Peer) : written b p ≤ (pathBytes p).length := by
  cases p with
  | none => exact Nat.zero_le _
  | some s => exact min_le_right _ _

/-- An address is the family and the path, or the family at most for an unnamed peer. -/
structure IsAddr (addr : Peer → List UInt8) : Prop where
  named : ∀ s, addr (some s) = afUnix ++ pathBytes (some s)
  unnamed : (addr none).length ≤ sunPath

theorem recvfromAddr_isAddr : IsAddr recvfromAddr := ⟨fun _ => rfl, by decide⟩

theorem acceptAddr_isAddr : IsAddr acceptAddr := ⟨fun _ => rfl, by decide⟩

theorem fill_written {addr : Peer → List UInt8} (ha : IsAddr addr) (b : AddrBuf) (p : Peer) :
    Holds (b.fill (addr p)).mem sunPath ((pathBytes p).take (written b p)) := by
  cases p with
  | none => trivial
  | some s =>
    rcases Nat.lt_or_ge b.len sunPath with hlen | hlen
    · have h0 : b.len - sunPath = 0 := by omega
      simp [written, h0, Holds]
    · have htake : (addr (some s)).take b.len =
          afUnix ++ (pathBytes (some s)).take (written b (some s)) := by
        have hfam : afUnix.take b.len = afUnix := List.take_of_length_le hlen
        rw [ha.named, List.take_append, hfam, List.take_eq_take_min]
        rfl
      have hfill := holds_store b.mem 0 ((addr (some s)).take b.len)
      rw [htake, holds_append] at hfill
      simp only [AddrBuf.fill, htake]
      exact hfill.2

theorem fill_rest {addr : Peer → List UInt8} (ha : IsAddr addr) (b : AddrBuf) (p : Peer)
    {bs : List UInt8} :
    Holds (b.fill (addr p)).mem (sunPath + written b p) bs ↔
      Holds b.mem (sunPath + written b p) bs := by
  have hle : 0 + ((addr p).take b.len).length ≤ sunPath + written b p := by
    cases p with
    | none =>
      have hn := ha.unnamed
      simp only [List.length_take]
      omega
    | some s =>
      have hfam : afUnix.length = 2 := rfl
      simp only [ha.named, List.length_take, List.length_append, written, Option.elim_some,
        sunPath]
      omega
  exact holds_store_of_disjoint (.inr hle)

theorem names_fill {addr : Peer → List UInt8} (ha : IsAddr addr) (b : AddrBuf) (p : Peer) :
    Names (b.fill (addr p)).mem sunPath p ↔ Remains b p := by
  have hlen : ((pathBytes p).take (written b p)).length = written b p := by
    simp [written_le]
  unfold Names Remains
  rw [← List.take_append_drop (written b p) (pathBytes p), holds_append, hlen, fill_rest ha,
    List.take_append_drop]
  exact and_iff_right (fill_written ha b p)

theorem holds_strcpy {src : ℕ → UInt8} {s : List UInt8} (hs : ∀ b ∈ s, b ≠ 0) {j : ℕ}
    (hj : ∀ k < j, src k ≠ 0) :
    Holds (strcpy src) j (s ++ [0]) ↔ Holds src j (s ++ [0]) := by
  induction s generalizing j with
  | nil =>
    have hcopy : strcpy src j = src j := if_pos hj
    simp [Holds, hcopy]
  | cons b s ih =>
    have hcopy : strcpy src j = src j := if_pos hj
    simp only [List.cons_append, Holds, hcopy]
    refine and_congr_right fun hb => ih (fun x hx => hs x (List.mem_cons_of_mem _ hx)) ?_
    intro k hk
    rcases Nat.lt_succ_iff_lt_or_eq.mp hk with hk | rfl
    · exact hj k hk
    · exact hb ▸ hs b List.mem_cons_self

theorem names_strcpy {src : ℕ → UInt8} {p : Peer} : Names (strcpy src) 0 p ↔ Names src 0 p := by
  have hs : ∀ b ∈ p.elim [] CString.bytes, b ≠ 0 := by
    cases p with
    | none => simp
    | some s => exact s.nonzero
  exact holds_strcpy hs (by simp)

theorem acceptClient_eq (name : ℕ → UInt8) (c : Connection) {u : User} :
    ipcStreamAcceptClient name c = .ok u ↔ c.admits = true ∧ u = ⟨strcpy name, c.fd⟩ := by
  unfold ipcStreamAcceptClient Connection.admits
  rcases le_or_gt c.table.maxUserNum c.table.userNum with hu | hu
  · simp [Table.acceptClient_full hu, hu]
  cases hi : c.table.freeSlot with
  | none => simp [Table.acceptClient_noSlot hu hi]
  | some i =>
    rw [Table.acceptClient_room hu hi]
    cases c.mem <;> cases c.thread <;> simp [hu, eq_comm]

theorem dgramRight_iff (ms : List Message) (b : AddrBuf) :
    DgramRight ms (ipcDgramRecvTask ms b) ↔
      AllRemain recvfromAddr (ms.map fun m => (m.peer, true)) b := by
  induction ms generalizing b with
  | nil => simp [DgramRight, ipcDgramRecvTask, AllRemain]
  | cons m ms ih =>
    have hhead : Names (b.fill (recvfromAddr m.peer)).mem sunPath m.peer ↔ Remains b m.peer :=
      names_fill recvfromAddr_isAddr b m.peer
    simp only [DgramRight, ipcDgramRecvTask, List.map_cons, AllRemain, List.forall₂_cons,
      names_shift, hhead, true_implies]
    exact and_congr_right fun _ => ih _

theorem streamRight_iff (cs : List Connection) (b : AddrBuf) :
    StreamRight cs (ipcStreamServerListenTask cs b) ↔
      AllRemain acceptAddr (cs.map fun c => (c.peer, c.admits)) b := by
  induction cs generalizing b with
  | nil => simp [StreamRight, ipcStreamServerListenTask, AllRemain]
  | cons c cs ih =>
    have hhead : Names (b.fill (acceptAddr c.peer)).mem sunPath c.peer ↔ Remains b c.peer :=
      names_fill acceptAddr_isAddr b c.peer
    simp only [StreamRight, ipcStreamServerListenTask, List.map_cons, AllRemain, List.forall₂_cons]
    refine and_congr ?_ (ih _)
    rw [← hhead, ← names_shift]
    constructor
    · intro h hc
      exact names_strcpy.mp (h _ ((acceptClient_eq _ c).mpr ⟨hc, rfl⟩))
    · intro h u hu
      obtain ⟨hc, rfl⟩ := (acceptClient_eq _ c).mp hu
      exact names_strcpy.mpr (h hc)

/-- The paths given to the datagram callbacks and to the stream users are those of their peers
exactly if at each call the part of the path that the kernel does not write is in the buffer. -/
theorem peers_attributed (behind clitAddr : ℕ → UInt8) (ms : List Message)
    (cs : List Connection) :
    (DgramRight ms (ipcDgramRecvTask ms (recvAddr behind)) ↔
        AllRemain recvfromAddr (ms.map fun m => (m.peer, true)) (recvAddr behind)) ∧
      (StreamRight cs (ipcStreamServerListenTask cs ⟨clitAddr, sockaddrUnSize⟩) ↔
        AllRemain acceptAddr (cs.map fun c => (c.peer, c.admits)) ⟨clitAddr, sockaddrUnSize⟩) :=
  ⟨dgramRight_iff ms _, streamRight_iff cs _⟩

theorem admits_init (p : Peer) (fd : ℤ) :
    (⟨p, fd, .init 2, true, true⟩ : Connection).admits = true := by
  have hmax : (Table.init 2 : Table User).maxUserNum = 2 := rfl
  have hnum : (Table.init 2 : Table User).userNum = 0 := rfl
  cases hi : (Table.init 2 : Table User).freeSlot with
  | none => exact absurd rfl (Table.freeSlot_none hi 0 (by simp [hmax]))
  | some i =>
    have hroom : (Table.init 2 : Table User).userNum < (Table.init 2 : Table User).maxUserNum := by
      rw [hmax, hnum]
      decide
    simp only [Connection.admits, hi, hroom, decide_true, Option.isSome_some, Bool.and_self]

def slashA : CString := ⟨[47, 97], by simp⟩
def slashBcd : CString := ⟨[47, 98, 99, 100], by simp⟩

/-- The second of two datagrams comes from a longer path and is given only its first bytes; after
an unnamed client the next one is given none of its own. -/
theorem peers_attributed_fails :
    (¬ ∀ (behind : ℕ → UInt8) (ms : List Message),
        DgramRight ms (ipcDgramRecvTask ms (recvAddr behind))) ∧
      ¬ ∀ (clitAddr : ℕ → UInt8) (cs : List Connection),
        StreamRight cs (ipcStreamServerListenTask cs ⟨clitAddr, sockaddrUnSize⟩) := by
  constructor
  · intro hclaim
    have h := hclaim (fun _ => 0)
      [⟨⟨[7], by decide⟩, some slashA⟩, ⟨⟨[8], by decide⟩, some slashBcd⟩]
    obtain ⟨-, hbcd, -⟩ := (dgramRight_iff _ _).mp h
    exact absurd (hbcd rfl) (by decide)
  · intro hclaim
    have h := hclaim (fun _ => 0)
      [⟨none, 4, .init 2, true, true⟩, ⟨some slashA, 5, .init 2, true, true⟩]
    obtain ⟨-, ha, -⟩ := (streamRight_iff _ _).mp h
    exact absurd (ha (admits_init _ 5)) (by decide)

end LibComm.PeerAddress

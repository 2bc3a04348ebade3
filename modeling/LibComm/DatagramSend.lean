import LibComm.DatagramTask
import LibComm.SendCall

/-!
# Datagrams from Send to the receive callback

The transport between two sockets keeps the datagrams whole and in order, and
`recvfrom` cuts a datagram to the buffer it is given. The `Send` functions take
any size that fits 16 bits, and the receive tasks give `recvfrom` a buffer of
`COMM_BUF_SIZE` bytes.
-/

namespace LibComm.DatagramSend
open RecvTask (commBufSize)
open DatagramTask SendCall

structure Call where
  args : Args
  error : ℤ

def udpIpv4Send (c : Call) : ℤ := c.args.returned c.error
def udpIpv6Send (c : Call) : ℤ := c.args.returned c.error
def ipcDgramSend (c : Call) : ℤ := c.args.returned c.error
def rawSockSend (c : Call) : ℤ := c.args.returned c.error

def sendOf : Kind → Call → ℤ
  | .udpIpv4 => udpIpv4Send
  | .udpIpv6 => udpIpv6Send
  | .ipcDgram => ipcDgramSend
  | .raw => rawSockSend

def transit (cs : List Call) : List (List UInt8) :=
  cs.filterMap fun c => if c.error < 0 then none else c.args.request

def recvfrom (d : List UInt8) : Outcome :=
  .datagram ⟨d.take commBufSize, List.length_take_le _ _⟩

/-- The receive callbacks of a peer that has taken all datagrams out of the transport. -/
def received (k : Kind) (cs : List Call) : List Callback :=
  (recvTaskOf k ((transit cs).map recvfrom) started).1.calls

def Call.passed (c : Call) : Callback := ⟨c.args.data, c.args.size.toNat⟩

theorem sendOf_eq (k : Kind) (c : Call) : sendOf k c = c.args.returned c.error := by
  cases k <;> rfl

theorem transit_eq {k : Kind} {cs : List Call} (h : ∀ c ∈ cs, sendOf k c = c.args.size.toNat) :
    transit cs = cs.map fun c => c.args.data := by
  unfold transit
  rw [← List.filterMap_eq_map']
  refine List.filterMap_congr fun c hc => ?_
  obtain ⟨hr, he⟩ := request_of_returned (sendOf_eq k c ▸ h c hc)
  rw [if_neg (by omega), hr]

theorem beforeError_recvfrom (ds : List (List UInt8)) :
    beforeError (ds.map recvfrom) = ds.map recvfrom :=
  beforeError_map _ ds

theorem calls_of_pos {k : Kind} {ds : List (List UInt8)} (h : ∀ d ∈ ds, 0 < d.length) :
    (recvTaskOf k (ds.map recvfrom) started).1.calls =
      ds.map fun d => (recvfrom d).callback := by
  have hne : ∀ r ∈ beforeError (ds.map recvfrom), r.len ≠ 0 := by
    intro r hr
    obtain ⟨d, hd, rfl⟩ := List.mem_map.mp (beforeError_recvfrom ds ▸ hr)
    have hlen := h d hd
    intro hz
    have hcut : ((d.take commBufSize).length : ℤ) = 0 := hz
    rw [List.length_take, Int.natCast_eq_zero] at hcut
    simp only [commBufSize] at hcut
    omega
  rw [recvTaskOf_eq hne, (delivers_of_neg _).calls, beforeError_recvfrom, List.map_map]
  rfl

theorem callback_eq_iff {c : Call} (hs : c.args.data.length = c.args.size.toNat) :
    (recvfrom c.args.data).callback = c.passed ↔ c.args.size.toNat ≤ commBufSize := by
  have hlt : c.args.size.toNat < 65536 := c.args.size.toNat_lt
  have hcut : min commBufSize c.args.size.toNat < 65536 := by omega
  simp only [recvfrom, Outcome.callback, Outcome.bytes, Outcome.len, Call.passed, Callback.mk.injEq,
    List.take_eq_self_iff, List.length_take, hs, Int.toNat_natCast, Nat.mod_eq_of_lt hcut]
  omega

theorem data_length {k : Kind} {c : Call} (h : sendOf k c = c.args.size.toNat) :
    c.args.data.length = c.args.size.toNat ∧ 0 < c.args.data.length :=
  (request_some (request_of_returned (sendOf_eq k c ▸ h)).1).2

theorem received_eq {k : Kind} {cs : List Call} (h : ∀ c ∈ cs, sendOf k c = c.args.size.toNat) :
    received k cs = cs.map fun c => (recvfrom c.args.data).callback := by
  unfold received
  rw [transit_eq h, calls_of_pos, List.map_map]
  · rfl
  · intro d hd
    obtain ⟨c, hc, rfl⟩ := List.mem_map.mp hd
    exact (data_length (h c hc)).2

/-- For calls that return the size passed, the peer's callbacks get the data and the sizes passed
exactly if every size fits the receive buffer. -/
theorem sends_received (k : Kind) {cs : List Call}
    (h : ∀ c ∈ cs, sendOf k c = c.args.size.toNat) :
    received k cs = cs.map Call.passed ↔ ∀ c ∈ cs, c.args.size.toNat ≤ commBufSize := by
  rw [received_eq h, List.map_inj_left]
  exact forall₂_congr fun c hc => callback_eq_iff (data_length (h c hc)).1

def long : Call := ⟨⟨some 3, some fun _ => 7, 8192⟩, 8192⟩

theorem long_returned (k : Kind) : ∀ c ∈ [long], sendOf k c = c.args.size.toNat := by
  simp only [List.mem_singleton, forall_eq, sendOf_eq]
  rfl

theorem sends_received_fails : ¬ ∀ (k : Kind) (cs : List Call),
    (∀ c ∈ cs, sendOf k c = c.args.size.toNat) → received k cs = cs.map Call.passed := by
  intro hclaim
  have h := hclaim .ipcDgram [long] (long_returned _)
  rw [received_eq (long_returned _), List.map_inj_left] at h
  have hlong := h long List.mem_cons_self
  rw [callback_eq_iff (data_length (long_returned .ipcDgram _ List.mem_cons_self)).1] at hlong
  exact absurd hlong (by decide)

def short : Call := ⟨⟨some 3, some fun i => .ofNat i, 2⟩, 2⟩

theorem sends_received_two : received .udpIpv4 [short, short] = [short, short].map Call.passed ↔
    ∀ c ∈ [short, short], c.args.size.toNat ≤ commBufSize :=
  sends_received .udpIpv4 (by simp only [sendOf_eq]; decide)

end LibComm.DatagramSend

import Mathlib.Order.Nat
import LibComm.SendCall
import LibComm.RecvTask

/-!
# Netlink messages

A netlink message is a header of 16 bytes, the first word of which counts the
header and the payload, and the payload. `comm_netlinkSendToKernel` writes the
size of the payload alone into that word, and hands `sendmsg` the whole of its
buffer, whatever the size.
-/

namespace LibComm.Netlink
open ByteMemory SendCall
open RecvTask (commBufSize)

def nlmsgHdrlen : ℕ := 16

@[simp] theorem nlmsgHdrlen_eq : nlmsgHdrlen = 16 := rfl

def nlmsgAlign (n : ℕ) : ℕ := (n + 3) / 4 * 4

def nlmsgSpace (n : ℕ) : ℕ := nlmsgAlign (n + nlmsgHdrlen)

def sendBufSize : ℕ := nlmsgSpace (commBufSize + 1)
def payloadSize : ℕ := sendBufSize - nlmsgHdrlen

theorem sendBufSize_eq : sendBufSize = 8208 := rfl
theorem payloadSize_eq : payloadSize = 8192 := rfl

structure Message where
  type : UInt16
  flags : UInt16
  seq : UInt32
  payload : List UInt8
  deriving DecidableEq

def view (bs : List UInt8) (i : ℕ) : UInt8 := bs.getD i 0

def nlmsgLen (bs : List UInt8) : ℕ := load32 (view bs) 0

theorem le_nlmsgAlign (n : ℕ) : n ≤ nlmsgAlign n := by
  unfold nlmsgAlign
  omega

/-- The messages in a buffer, as `NLMSG_OK` and `NLMSG_NEXT` find them. -/
def decode (bs : List UInt8) : List Message :=
  if _h : nlmsgHdrlen ≤ bs.length ∧ nlmsgHdrlen ≤ nlmsgLen bs ∧ nlmsgLen bs ≤ bs.length then
    { type := .ofNat (load16 (view bs) 4)
      flags := .ofNat (load16 (view bs) 6)
      seq := .ofNat (load32 (view bs) 8)
      payload := (bs.drop nlmsgHdrlen).take (nlmsgLen bs - nlmsgHdrlen) } ::
      decode (bs.drop (nlmsgAlign (nlmsgLen bs)))
  else []
termination_by bs.length
decreasing_by
  have hle := le_nlmsgAlign (nlmsgLen bs)
  simp only [List.length_drop, nlmsgHdrlen_eq] at _h ⊢
  omega

/-- The send side of a `tNetlinkContext`: the memory from `pSendNlHdr` on, with what lies behind
the buffer, and the length in `sendIov`. -/
structure Context where
  fd : ℤ
  sendNlHdr : ℕ → UInt8
  sendIovLen : ℕ

def netlinkInit (fd : ℤ) (bound : Bool) (send : Option (ℕ → UInt8)) (recv : Bool) (pid : UInt32) :
    Option Context :=
  if fd < 0 ∨ bound = false then none
  else match send with
    | none => none
    | some m =>
      let m := store m 4 (le16 0)
      let m := store m 0 (le32 (nlmsgSpace commBufSize))
      let m := store m 12 (le32 pid.toNat)
      let m := store m 8 (le32 0)
      let m := store m 6 (le16 0)
      let sendIovLen := load32 m 0
      if recv then some ⟨fd, store m nlmsgHdrlen [0], sendIovLen⟩ else none

structure Call where
  pData : Option (ℕ → UInt8)
  size : UInt16
  type : UInt16
  flags : UInt16
  seqNum : UInt32

def Call.request (a : Call) (c : Context) : Option (List UInt8) :=
  Args.request ⟨some c.fd, a.pData, a.size⟩

def Call.write (a : Call) (m : ℕ → UInt8) (data : List UInt8) : ℕ → UInt8 :=
  let m := store m 4 (le16 a.type.toNat)
  let m := store m 6 (le16 a.flags.toNat)
  let m := store m 8 (le32 a.seqNum.toNat)
  let m := store m 0 (le32 a.size.toNat)
  store m nlmsgHdrlen data

structure Sent where
  context : Context
  iov : Option (List UInt8)
  result : ℤ

def netlinkSendToKernel (c : Context) (a : Call) (error : ℤ) : Sent :=
  match a.request c with
  | none => ⟨c, none, -1⟩
  | some data =>
    let m := a.write c.sendNlHdr data
    ⟨{ c with sendNlHdr := m }, some (load m 0 c.sendIovLen), error⟩

/-- What the call is there for: data that fits the buffer is handed over as one message, and other
data is refused, with nothing written behind the buffer. -/
def Carries (c : Context) (a : Call) (data : List UInt8) (r : Sent) : Prop :=
  (a.size.toNat ≤ payloadSize →
    r.iov.map decode = some [⟨a.type, a.flags, a.seqNum, data⟩]) ∧
  (payloadSize < a.size.toNat →
    r.iov = none ∧ r.result = -1 ∧
      ∀ i, sendBufSize ≤ i → r.context.sendNlHdr i = c.sendNlHdr i)

section Decode

variable {bs : List UInt8}

theorem decode_cons (h : nlmsgHdrlen ≤ bs.length ∧ nlmsgHdrlen ≤ nlmsgLen bs ∧
    nlmsgLen bs ≤ bs.length) :
    decode bs = { type := .ofNat (load16 (view bs) 4)
                  flags := .ofNat (load16 (view bs) 6)
                  seq := .ofNat (load32 (view bs) 8)
                  payload := (bs.drop nlmsgHdrlen).take (nlmsgLen bs - nlmsgHdrlen) } ::
      decode (bs.drop (nlmsgAlign (nlmsgLen bs))) := by
  rw [decode, dif_pos h]

theorem decode_nil (h : ¬ (nlmsgHdrlen ≤ bs.length ∧ nlmsgHdrlen ≤ nlmsgLen bs ∧
    nlmsgLen bs ≤ bs.length)) : decode bs = [] := by
  rw [decode, dif_neg h]

theorem payload_length {x : Message} {xs : List Message} (h : decode bs = x :: xs) :
    nlmsgHdrlen ≤ bs.length ∧ x.payload.length + nlmsgHdrlen = nlmsgLen bs := by
  by_cases hok : nlmsgHdrlen ≤ bs.length ∧ nlmsgHdrlen ≤ nlmsgLen bs ∧ nlmsgLen bs ≤ bs.length
  · rw [decode_cons hok] at h
    obtain ⟨rfl, -⟩ := List.cons.inj h
    refine ⟨hok.1, ?_⟩
    simp only [List.length_take, List.length_drop, nlmsgHdrlen_eq] at hok ⊢
    omega
  · rw [decode_nil hok] at h
    cases h

end Decode

section Send

variable {c : Context} {a : Call} {data : List UInt8} {error : ℤ}

theorem view_load {m : ℕ → UInt8} {n i : ℕ} (h : i < n) : view (load m 0 n) i = m i := by
  simp [view, load, h]

theorem holds_view {m : ℕ → UInt8} {n j : ℕ} {bs : List UInt8} (h : j + bs.length ≤ n) :
    Holds (view (load m 0 n)) j bs ↔ Holds m j bs :=
  holds_congr fun i _ hi => view_load (by omega)

theorem holds_write (a : Call) (m : ℕ → UInt8) (data : List UInt8) :
    Holds (a.write m data) 0 (le32 a.size.toNat) ∧ Holds (a.write m data) 4 (le16 a.type.toNat) ∧
      Holds (a.write m data) 6 (le16 a.flags.toNat) ∧
      Holds (a.write m data) 8 (le32 a.seqNum.toNat) ∧
      Holds (a.write m data) nlmsgHdrlen data := by
  refine ⟨?_, ?_, ?_, ?_, holds_store _ _ _⟩
  · rw [Call.write, holds_store_of_disjoint (by simp)]
    exact holds_store _ _ _
  · rw [Call.write, holds_store_of_disjoint (by simp), holds_store_of_disjoint (by simp),
      holds_store_of_disjoint (by simp), holds_store_of_disjoint (by simp)]
    exact holds_store _ _ _
  · rw [Call.write, holds_store_of_disjoint (by simp), holds_store_of_disjoint (by simp),
      holds_store_of_disjoint (by simp)]
    exact holds_store _ _ _
  · rw [Call.write, holds_store_of_disjoint (by simp), holds_store_of_disjoint (by simp)]
    exact holds_store _ _ _

theorem nlmsgLen_sent (m : ℕ → UInt8) {n : ℕ} (h : nlmsgHdrlen ≤ n) :
    nlmsgLen (load (a.write m data) 0 n) = a.size.toNat := by
  have hlt : a.size.toNat < 65536 := a.size.toNat_lt
  refine load32_le32 (by omega) ?_
  rw [holds_view (by simp only [le32_length, nlmsgHdrlen_eq] at h ⊢; omega)]
  exact (holds_write a m data).1

theorem decode_short (m : ℕ → UInt8) (n : ℕ) (h : a.size.toNat < nlmsgHdrlen) :
    decode (load (a.write m data) 0 n) = [] := by
  refine decode_nil ?_
  intro hx
  obtain ⟨hlen, hle, -⟩ := hx
  rw [load_length] at hlen
  rw [nlmsgLen_sent m hlen] at hle
  omega

theorem decode_long (m : ℕ → UInt8) {n : ℕ} (h : nlmsgHdrlen ≤ a.size.toNat)
    (hd : data.length = a.size.toNat) (hn : nlmsgHdrlen + a.size.toNat ≤ n) :
    ∃ xs, decode (load (a.write m data) 0 n) =
      ⟨a.type, a.flags, a.seqNum, data.take (a.size.toNat - nlmsgHdrlen)⟩ :: xs := by
  obtain ⟨-, htype, hflags, hseq, hdata⟩ := holds_write a m data
  have hlt : a.size.toNat < 65536 := a.size.toNat_lt
  simp only [nlmsgHdrlen_eq] at h hn
  have hlen : nlmsgLen (load (a.write m data) 0 n) = a.size.toNat :=
    nlmsgLen_sent m (by simp only [nlmsgHdrlen_eq]; omega)
  have hok : nlmsgHdrlen ≤ (load (a.write m data) 0 n).length ∧
      nlmsgHdrlen ≤ nlmsgLen (load (a.write m data) 0 n) ∧
      nlmsgLen (load (a.write m data) 0 n) ≤ (load (a.write m data) 0 n).length := by
    rw [hlen, load_length, nlmsgHdrlen_eq]
    omega
  refine ⟨decode ((load (a.write m data) 0 n).drop (nlmsgAlign a.size.toNat)), ?_⟩
  rw [decode_cons hok, hlen]
  have hpayload : ((load (a.write m data) 0 n).drop nlmsgHdrlen).take (a.size.toNat - nlmsgHdrlen) =
      data.take (a.size.toNat - nlmsgHdrlen) := by
    have hload := load_eq_iff.mpr hdata
    rw [nlmsgHdrlen_eq] at hload ⊢
    calc
      _ = load (a.write m data) 16 (a.size.toNat - 16) := by
        rw [load_drop, load_take _ _ (by omega), Nat.zero_add]
      _ = (load (a.write m data) 16 data.length).take (a.size.toNat - 16) :=
        (load_take _ _ (by omega)).symm
      _ = data.take (a.size.toNat - 16) := by rw [hload]
  have htype := (holds_view (n := n) (by simp only [le16_length]; omega)).mpr htype
  have hflags := (holds_view (n := n) (by simp only [le16_length]; omega)).mpr hflags
  have hseq := (holds_view (n := n) (by simp only [le32_length]; omega)).mpr hseq
  rw [hpayload, load16_le16 a.type.toNat_lt htype, load16_le16 a.flags.toNat_lt hflags,
    load32_le32 a.seqNum.toNat_lt hseq, UInt16.ofNat_toNat, UInt16.ofNat_toNat,
    UInt32.ofNat_toNat]

theorem netlinkInit_sendIovLen {fd : ℤ} {bound recv : Bool} {send : Option (ℕ → UInt8)}
    {pid : UInt32} (h : netlinkInit fd bound send recv pid = some c) :
    c.sendIovLen = sendBufSize := by
  cases send with
  | none => simp [netlinkInit] at h
  | some m =>
    simp only [netlinkInit, Option.ite_none_left_eq_some, Option.ite_none_right_eq_some,
      Option.some.injEq] at h
    obtain ⟨-, -, rfl⟩ := h
    refine load32_le32 (n := nlmsgSpace commBufSize) (by decide) ?_
    rw [holds_store_of_disjoint (by simp), holds_store_of_disjoint (by simp),
      holds_store_of_disjoint (by simp)]
    exact holds_store _ _ _

theorem sent_iov (h : a.request c = some data) :
    (netlinkSendToKernel c a error).iov =
      some (load (a.write c.sendNlHdr data) 0 c.sendIovLen) := by
  simp only [netlinkSendToKernel, h]

theorem sent_behind (h : a.request c = some data) (hs : payloadSize < a.size.toNat) :
    Holds (netlinkSendToKernel c a error).context.sendNlHdr sendBufSize
      (data.drop payloadSize) := by
  have hlen := (request_some h).2.1
  have hdata : Holds (a.write c.sendNlHdr data) nlmsgHdrlen
      (data.take payloadSize ++ data.drop payloadSize) := by
    rw [List.take_append_drop]
    exact (holds_write a c.sendNlHdr data).2.2.2.2
  rw [holds_append] at hdata
  have hoff : nlmsgHdrlen + (data.take payloadSize).length = sendBufSize := by
    rw [List.length_take, nlmsgHdrlen_eq, payloadSize_eq, sendBufSize_eq]
    rw [payloadSize_eq] at hs
    simp only at hlen
    omega
  rw [hoff] at hdata
  simpa only [netlinkSendToKernel, h] using hdata.2

/-- The call never hands over the data it is given, whatever its size. -/
theorem never_carries (c : Context) (a : Call) {data : List UInt8} (error : ℤ)
    (h : a.request c = some data) : ¬ Carries c a data (netlinkSendToKernel c a error) := by
  intro hx
  obtain ⟨hfits, hrefused⟩ := hx
  have hsent : (netlinkSendToKernel c a error).iov =
      some (load (a.write c.sendNlHdr data) 0 c.sendIovLen) := sent_iov h
  by_cases hsize : a.size.toNat ≤ payloadSize
  · have hone := hfits hsize
    rw [hsent, Option.map_some, Option.some.injEq] at hone
    obtain ⟨hlen, hpayload⟩ := payload_length hone
    rw [load_length] at hlen
    rw [nlmsgLen_sent _ hlen, nlmsgHdrlen_eq] at hpayload
    obtain ⟨-, hdata, -⟩ := request_some h
    simp only at hpayload hdata
    omega
  · have hnone := (hrefused (not_le.mp hsize)).1
    rw [hsent] at hnone
    cases hnone

def initialized : Context := (netlinkInit 3 true (some fun _ => 0) true 100).get rfl

def hello : Call := ⟨some fun i => [104, 101, 108, 108, 111].getD i 0, 5, 1, 2, 3⟩

theorem hello_request : hello.request initialized = some [104, 101, 108, 108, 111] := by decide

theorem carries_fails : ¬ ∀ (c : Context) (a : Call) (data : List UInt8) (error : ℤ),
    a.request c = some data → Carries c a data (netlinkSendToKernel c a error) := by
  intro hclaim
  have hone := (hclaim initialized hello _ sendBufSize hello_request).1 (by decide)
  rw [sent_iov hello_request, Option.map_some, decode_short _ _ (by decide)] at hone
  cases hone

theorem never_carries_hello : ¬ Carries initialized hello [104, 101, 108, 108, 111]
    (netlinkSendToKernel initialized hello sendBufSize) :=
  never_carries initialized hello sendBufSize hello_request

end Send

end LibComm.Netlink

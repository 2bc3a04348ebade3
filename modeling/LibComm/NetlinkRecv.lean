import LibComm.Netlink

/-!
# The size of a received netlink message

`netlinkRecvTask` hands the receive callback a pointer behind the header of the
message, and as its size the length word of that header, cut to 16 bits. The
word is the peer's: it counts the header, and nothing compares it with what
`recvmsg` has returned.
-/

namespace LibComm.NetlinkRecv
open ByteMemory Netlink
open RecvTask (commBufSize)

def recvBufSize : ℕ := nlmsgSpace (commBufSize + 1)

inductive Outcome where
  | message (bs : List UInt8)
  | error

def Outcome.received (iovLen : ℕ) : Outcome → List UInt8
  | .message bs => bs.take iovLen
  | .error => []

def Outcome.len (iovLen : ℕ) : Outcome → ℤ
  | .message bs => (bs.take iovLen).length
  | .error => -1

structure Callback where
  pData : ℕ → UInt8
  size : UInt16
  flags : UInt16

/-- The task with the receive side of its `tNetlinkContext`: the memory from `pRecvNlHdr` on, with
what lies behind the buffer, and the length in `recvIov`. -/
structure Task where
  fd : ℤ
  recvNlHdr : ℕ → UInt8
  recvIovLen : ℕ
  running : Bool
  recvFunc : Bool
  exitFunc : Bool
  calls : List Callback
  exits : List ℤ
  ended : Bool

def netlinkInit (fd : ℤ) (m : ℕ → UInt8) (recvFunc exitFunc : Bool) : Task :=
  let m := store m 4 (le16 0)
  let m := store m 0 (le32 (nlmsgSpace commBufSize))
  let m := store m 12 (le32 0)
  let m := store m 8 (le32 0)
  let m := store m 6 (le16 0)
  ⟨fd, m, load32 m 0, true, recvFunc, exitFunc, [], [], false⟩

def call (m : ℕ → UInt8) : Callback :=
  ⟨fun i => m (nlmsgHdrlen + i), .ofNat (load32 m 0), .ofNat (load16 m 6)⟩

def Task.receive (bs : List UInt8) (s : Task) : Task :=
  let m := store s.recvNlHdr 0 bs
  { s with recvNlHdr := m, calls := if s.recvFunc then s.calls ++ [call m] else s.calls }

def Task.stop (s : Task) : Task := { s with running := false, ended := true }

def Task.leave (len : ℤ) (s : Task) : Task :=
  Task.stop { s with fd := -1, exits := if s.exitFunc then s.exits ++ [len] else s.exits }

def netlinkRecvTask : List Outcome → Task → Task × List Outcome
  | [], s => if s.running then (s, []) else (s.stop, [])
  | r :: rs, s =>
    if s.running then
      if r.len s.recvIovLen ≤ 0 then (s.leave (r.len s.recvIovLen), rs)
      else netlinkRecvTask rs (s.receive (r.received s.recvIovLen))
    else (s.stop, r :: rs)

def messages (rs : List Outcome) : List (List UInt8) :=
  (rs.takeWhile fun r => !decide (r.len recvBufSize ≤ 0)).map (Outcome.received recvBufSize)

/-- The size given to the callback is that of the payload received: what it covers has been
received, a zero byte behind it is in the buffer, and it is the payload's if the message is
whole. -/
structure Sized (bs : List UInt8) (c : Callback) : Prop where
  le : c.size.toNat ≤ bs.length - nlmsgHdrlen
  covers : ∀ i < c.size.toNat, bs[nlmsgHdrlen + i]? = some (c.pData i)
  nul : nlmsgHdrlen + c.size.toNat < recvBufSize
  whole : nlmsgHdrlen ≤ nlmsgLen bs → nlmsgLen bs ≤ bs.length →
    c.size.toNat = nlmsgLen bs - nlmsgHdrlen

/-- The header's word is not the length of a message that has been received whole, and its low half
lies within the payload received and within the buffer. -/
structure Misstated (bs : List UInt8) : Prop where
  unfit : nlmsgLen bs < nlmsgHdrlen ∨ bs.length < nlmsgLen bs
  low : load16 (view bs) 0 ≤ bs.length - nlmsgHdrlen
  room : load16 (view bs) 0 < recvBufSize - nlmsgHdrlen

theorem netlinkInit_recvIovLen (fd : ℤ) (m : ℕ → UInt8) (recvFunc exitFunc : Bool) :
    (netlinkInit fd m recvFunc exitFunc).recvIovLen = recvBufSize := by
  refine load32_le32 (n := nlmsgSpace commBufSize) (by decide) ?_
  rw [holds_store_of_disjoint (by simp), holds_store_of_disjoint (by simp),
    holds_store_of_disjoint (by simp)]
  exact holds_store _ _ _

theorem view_store {bs : List UInt8} {i : ℕ} (h : i < bs.length) (m : ℕ → UInt8) :
    store m 0 bs i = view bs i := by
  simp [store, view, h]

theorem load32_mod (m : ℕ → UInt8) (j : ℕ) : load32 m j % 65536 = load16 m j := by
  have h0 := (m j).toNat_lt
  have h1 := (m (j + 1)).toNat_lt
  simp only [load32, load16]
  omega

theorem call_size {bs : List UInt8} (h : nlmsgHdrlen ≤ bs.length) (m : ℕ → UInt8) :
    (call (store m 0 bs)).size.toNat = load16 (view bs) 0 := by
  simp only [nlmsgHdrlen_eq] at h
  have h0 : store m 0 bs 0 = view bs 0 := view_store (by omega) m
  have h1 : store m 0 bs 1 = view bs 1 := view_store (by omega) m
  rw [call, UInt16.toNat_ofNat', load32_mod, load16, load16, h0, h1]

theorem call_pData {bs : List UInt8} {i : ℕ} (h : nlmsgHdrlen + i < bs.length) (m : ℕ → UInt8) :
    bs[nlmsgHdrlen + i]? = some ((call (store m 0 bs)).pData i) := by
  simp only [call, view_store h, view, List.getElem?_eq_getElem h, List.getD_eq_getElem?_getD,
    Option.getD_some]

theorem sized_iff {bs : List UInt8} (h : nlmsgHdrlen ≤ bs.length) (m : ℕ → UInt8) :
    Sized bs (call (store m 0 bs)) ↔ Misstated bs := by
  have hsize := call_size h m
  have hlow : nlmsgLen bs % 65536 = load16 (view bs) 0 := load32_mod (view bs) 0
  constructor
  · intro hs
    have hsl := hs.le
    have hsn := hs.nul
    rw [hsize] at hsl hsn
    refine ⟨?_, hsl, by omega⟩
    by_contra hne
    have hfit : nlmsgHdrlen ≤ nlmsgLen bs ∧ nlmsgLen bs ≤ bs.length := by omega
    have hwhole := hs.whole hfit.1 hfit.2
    simp only [hsize, nlmsgHdrlen_eq] at hwhole hfit
    omega
  · intro hm
    have hml := hm.low
    have hmr := hm.room
    refine ⟨by rw [hsize]; exact hml, fun i hi => ?_, ?_, fun hge hfit => ?_⟩
    · rw [hsize] at hi
      exact call_pData (by omega) m
    · rw [hsize]
      omega
    · rcases hm.unfit with hu | hu <;> omega

theorem netlinkRecvTask_calls (rs : List Outcome) (s : Task) (hs : s.running = true)
    (hf : s.recvFunc = true) (hl : s.recvIovLen = recvBufSize) :
    ∃ cs, (netlinkRecvTask rs s).1.calls = s.calls ++ cs ∧
      List.Forall₂ (fun bs c => ∃ m, c = call (store m 0 bs)) (messages rs) cs := by
  induction rs generalizing s with
  | nil => exact ⟨[], by simp [netlinkRecvTask, hs], .nil⟩
  | cons r rs ih =>
    by_cases hr : r.len recvBufSize ≤ 0
    · refine ⟨[], ?_, ?_⟩
      · simp [netlinkRecvTask, hs, hl, hr, Task.leave, Task.stop]
      · simp [messages, hr]
    · obtain ⟨cs, hc, hcs⟩ := ih (s.receive (r.received recvBufSize)) hs hf hl
      have hm : messages (r :: rs) = r.received recvBufSize :: messages rs := by
        simp [messages, hr]
      have hcall : (s.receive (r.received recvBufSize)).calls =
          s.calls ++ [call (store s.recvNlHdr 0 (r.received recvBufSize))] := by
        simp [Task.receive, hf]
      refine ⟨call (store s.recvNlHdr 0 (r.received recvBufSize)) :: cs, ?_, ?_⟩
      · simp only [netlinkRecvTask, hs, hl, hr, if_true, if_false, hc, hcall, List.append_assoc,
          List.singleton_append]
      · rw [hm]
        exact .cons ⟨s.recvNlHdr, rfl⟩ hcs

theorem forall₂_iff {α β : Type*} {R P : α → β → Prop} {Q : α → Prop} {as : List α} {bs : List β}
    (h : List.Forall₂ R as bs) (hiff : ∀ a b, R a b → (P a b ↔ Q a)) :
    List.Forall₂ P as bs ↔ ∀ a ∈ as, Q a := by
  induction h with
  | nil => simp
  | cons hab _ ih =>
    simp only [List.forall₂_cons, List.forall_mem_cons, hiff _ _ hab, ih]

/-- In every run the size given to the callback is that of the payload, for all messages with a
header, exactly if each of them misstates its length. -/
theorem size_received (fd : ℤ) (m : ℕ → UInt8) (exitFunc : Bool) (rs : List Outcome) :
    List.Forall₂ (fun bs c => nlmsgHdrlen ≤ bs.length → Sized bs c) (messages rs)
        (netlinkRecvTask rs (netlinkInit fd m true exitFunc)).1.calls ↔
      ∀ bs ∈ messages rs, nlmsgHdrlen ≤ bs.length → Misstated bs := by
  obtain ⟨cs, hc, hcs⟩ := netlinkRecvTask_calls rs (netlinkInit fd m true exitFunc) rfl rfl
    (netlinkInit_recvIovLen fd m true exitFunc)
  have hcalls : (netlinkRecvTask rs (netlinkInit fd m true exitFunc)).1.calls = cs := hc
  rw [hcalls]
  refine forall₂_iff hcs fun bs c hcall => ?_
  obtain ⟨m', rfl⟩ := hcall
  exact forall_congr' fun h => sized_iff h m'

def hello : List UInt8 :=
  le32 21 ++ le16 0 ++ le16 0 ++ le32 0 ++ le32 0 ++ [104, 101, 108, 108, 111]

theorem size_received_fails : ¬ ∀ (fd : ℤ) (m : ℕ → UInt8) (exitFunc : Bool) (rs : List Outcome),
    List.Forall₂ (fun bs c => nlmsgHdrlen ≤ bs.length → Sized bs c) (messages rs)
      (netlinkRecvTask rs (netlinkInit fd m true exitFunc)).1.calls := by
  intro hclaim
  have h := (size_received 3 (fun _ => 0) true [.message hello]).mp
    (hclaim 3 (fun _ => 0) true [.message hello]) hello (by decide) (by decide)
  exact absurd h.unfit (by decide)

end LibComm.NetlinkRecv

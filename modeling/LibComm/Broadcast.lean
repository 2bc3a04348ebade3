import Mathlib.Data.List.FinRange
import Mathlib.Data.List.Nodup
import LibComm.ByteMemory
import LibComm.TableCalls

/-!
# Sends to all clients of a server

`ServerSendAllClient` returns early on `userNum = 0` and goes through the slots
otherwise. The early return trusts the count and the loop trusts the slots; the
calls of `TableCalls` keep the two in step.
-/

namespace LibComm.Broadcast
open ByteMemory ClientTable Interleaving TableCalls

structure Sent where
  fd : ℤ
  data : List UInt8
  error : ℤ

/-- The loop over the slots; a negative answer is only logged. -/
def sendLoop (s : Server) (data : List UInt8) (error : Fin tcpUserNum → ℤ) :
    List (Fin tcpUserNum) → List Sent
  | [] => []
  | i :: is =>
    match s.table.pUser i with
    | none => sendLoop s data error is
    | some p =>
      if (s.user p).fd > 0 then ⟨(s.user p).fd, data, error i⟩ :: sendLoop s data error is
      else sendLoop s data error is

def serverSendAllClient (s : Server) (pData : Option (ℕ → UInt8)) (size : UInt16)
    (error : Fin tcpUserNum → ℤ) : List Sent :=
  if 0 = s.table.userNum then []
  else match pData with
    | none => []
    | some m =>
      if 0 = size then []
      else sendLoop s (load m 0 size.toNat) error
        ((List.finRange tcpUserNum).filter fun i : Fin tcpUserNum => (i : ℤ) < s.table.maxUserNum)

def tcpIpv4ServerSendAllClient := serverSendAllClient
def tcpIpv6ServerSendAllClient := serverSendAllClient
def ipcStreamServerSendAllClient := serverSendAllClient

def sendAllOf : Kind → Server → Option (ℕ → UInt8) → UInt16 → (Fin tcpUserNum → ℤ) → List Sent
  | .tcpIpv4 => tcpIpv4ServerSendAllClient
  | .tcpIpv6 => tcpIpv6ServerSendAllClient
  | .ipcStream => ipcStreamServerSendAllClient

def inOrder (s : Server) : List ℕ := (List.finRange tcpUserNum).filterMap s.table.pUser

def openedWith (c : Call) : Option ℤ :=
  match c with
  | .accept _ fd _ _ => some fd
  | .disconnect _ => none

/-- What the calls keep, whatever limit the server was made with: the clients have positive
descriptors, the slots hold each of them once, and the count is 0 without clients only. -/
structure Serves (r : Run) : Prop where
  open_ : ∀ p ∈ r.live, 0 < (r.server.user p).fd
  distinct : ∀ i j p, r.server.table.pUser i = some p → r.server.table.pUser j = some p → i = j
  held : ∀ i p, r.server.table.pUser i = some p →
    p ∈ r.live ∧ (i : ℤ) < r.server.table.maxUserNum
  slot : ∀ p ∈ r.live, ∃ i, r.server.table.pUser i = some p
  empty : r.server.table.userNum = 0 → r.live = ∅

variable {r r' : Run} {k : Kind} {c : Call}

theorem sendAllOf_eq (k : Kind) : sendAllOf k = serverSendAllClient := by cases k <;> rfl

theorem entered_open {t : Server} {p : ℕ} {addr : List UInt8} {fd : ℤ}
    (ho : ∀ q ∈ r.live, 0 < (r.server.user q).fd) (hfd : 0 < fd)
    (he : Entered r.server t p addr fd) : ∀ q ∈ insert p r.live, 0 < (t.user q).fd := by
  intro q hq
  by_cases hqp : q = p
  · simpa [he.user, hqp] using hfd
  · simpa [he.user, hqp] using ho q (Finset.mem_of_mem_insert_of_ne hq hqp)

theorem disconnect_open {p : ℕ} (ho : ∀ q ∈ r.live, 0 < (r.server.user q).fd) :
    ∀ q ∈ r.live.erase p, 0 < ((disconnectClient r.server p).user q).fd := by
  intro q hq
  obtain ⟨hqp, hq⟩ := Finset.mem_erase.mp hq
  simp only [disconnectClient]
  split_ifs
  · simpa [hqp] using ho q hq
  · exact ho q hq

theorem call_open (ho : ∀ p ∈ r.live, 0 < (r.server.user p).fd)
    (hfd : ∀ fd ∈ openedWith c, 0 < fd) (hr : call k r c = some r') :
    ∀ p ∈ r'.live, 0 < (r'.server.user p).fd := by
  cases c with
  | accept addr fd mem thread =>
    simp only [call, acceptOf_eq, Option.ite_none_left_eq_some, Option.some.injEq] at hr
    obtain ⟨-, rfl⟩ := hr
    rcases acceptClient_cases r.server addr fd mem thread with ⟨e, he⟩ | ⟨p, t, -, he, hent⟩
    · simpa [he, joined] using ho
    · simpa only [he, joined] using entered_open ho (hfd fd rfl) hent
  | disconnect p =>
    simp only [call, disconnectOf_eq, Option.ite_none_right_eq_some, Option.some.injEq] at hr
    obtain ⟨-, rfl⟩ := hr
    exact disconnect_open ho

theorem exec_open {calls : List Call} (hfd : ∀ c ∈ calls, ∀ fd ∈ openedWith c, 0 < fd)
    (ho : ∀ p ∈ r.live, 0 < (r.server.user p).fd) (hr : exec (call k) r calls = some r') :
    ∀ p ∈ r'.live, 0 < (r'.server.user p).fd :=
  invariant (fun _ _ _ hs hg ht => call_open hs hg ht) ho (obeys_of_forall hfd r) hr

theorem exec_negative {maxUserNum : ℤ} (hneg : maxUserNum < 0) {calls : List Call}
    (hr : exec (call k) (start k maxUserNum) calls = some r) : r = start k maxUserNum := by
  refine exec_invariant (I := fun r => r = start k maxUserNum) ?_ rfl hr
  intro r c u hr hu
  subst hr
  cases c with
  | accept addr fd mem thread =>
    have hfull : (serverInit maxUserNum).table.maxUserNum ≤
        (serverInit maxUserNum).table.userNum := by
      have hmax : ¬ (maxUserNum = 0 ∨ maxUserNum > tcpUserNum) := by
        have hc := tcpUserNum_cast
        omega
      simp only [serverInit, Table.init, hmax, if_false]
      omega
    simp only [call, start, acceptOf_eq, initOf_eq, Option.ite_none_left_eq_some,
      Option.some.injEq] at hu ⊢
    obtain ⟨-, rfl⟩ := hu
    simp [acceptClient, Table.acceptClient_full hfull, joined]
  | disconnect p => simp [call, start] at hu

theorem serves_exec {maxUserNum : ℤ} {calls : List Call}
    (hfd : ∀ c ∈ calls, ∀ fd ∈ openedWith c, 0 < fd)
    (h : exec (call k) (start k maxUserNum) calls = some r) : Serves r := by
  have hopen := exec_open hfd (by simp [start]) h
  by_cases h0 : 0 ≤ maxUserNum
  · have hc := (consistent_exec h0 h).1
    refine ⟨hopen, hc.distinct, fun i p hi => ⟨hc.held i p hi, hc.lt hi⟩, hc.slot, fun hz => ?_⟩
    have hcount := hc.count
    have hcard := hc.card
    apply Finset.card_eq_zero.mp
    omega
  · obtain rfl := exec_negative (not_le.mp h0) h
    refine ⟨hopen, ?_, ?_, ?_, ?_⟩ <;> simp [start, initOf_eq, serverInit]

theorem Serves.mem_inOrder (h : Serves r) (p : ℕ) : p ∈ inOrder r.server ↔ p ∈ r.live := by
  simp only [inOrder, List.mem_filterMap, List.mem_finRange, true_and]
  constructor
  · intro hi
    obtain ⟨i, hi⟩ := hi
    exact (h.held i p hi).1
  · exact h.slot p

theorem Serves.inOrder_nodup (h : Serves r) : (inOrder r.server).Nodup :=
  (List.nodup_finRange tcpUserNum).filterMap fun i j p hi hj => h.distinct i j p hi hj

theorem sendLoop_eq (h : Serves r) (data : List UInt8) (error : Fin tcpUserNum → ℤ)
    (is : List (Fin tcpUserNum)) :
    (sendLoop r.server data error is).map (fun x => (x.fd, x.data)) =
      (is.filterMap r.server.table.pUser).map fun p => ((r.server.user p).fd, data) := by
  induction is with
  | nil => rfl
  | cons i is ih =>
    cases hi : r.server.table.pUser i with
    | none => simpa [sendLoop, hi] using ih
    | some p =>
      have hpos := h.open_ p (h.held i p hi).1
      simpa [sendLoop, hi, hpos] using ih

theorem Serves.filterMap_limit (h : Serves r) (is : List (Fin tcpUserNum)) :
    (is.filter fun i : Fin tcpUserNum => (i : ℤ) < r.server.table.maxUserNum).filterMap
        r.server.table.pUser =
      is.filterMap r.server.table.pUser := by
  induction is with
  | nil => rfl
  | cons i is ih =>
    cases hp : r.server.table.pUser i with
    | none => by_cases hi : (i : ℤ) < r.server.table.maxUserNum <;> simp [hi, hp, ih]
    | some p => simp [(h.held i p hp).2, hp, ih]

theorem Serves.sendAll (h : Serves r) (m : ℕ → UInt8) {size : UInt16} (hs : size ≠ 0)
    (error : Fin tcpUserNum → ℤ) :
    (serverSendAllClient r.server (some m) size error).map (fun x => (x.fd, x.data)) =
      (inOrder r.server).map fun p => ((r.server.user p).fd, load m 0 size.toNat) := by
  by_cases hz : 0 = r.server.table.userNum
  · have hnil : inOrder r.server = [] := by
      apply List.eq_nil_iff_forall_not_mem.mpr
      intro p hp
      have hlive := (h.mem_inOrder p).mp hp
      rw [h.empty hz.symm] at hlive
      simp at hlive
    simp [serverSendAllClient, hz, hnil]
  · simp only [serverSendAllClient, hz, if_false, hs.symm]
    rw [sendLoop_eq h, h.filterMap_limit]
    rfl

/-- Between calls a broadcast makes one `send` of the whole data on the descriptor of each client,
in the order of the slots, and no other. -/
theorem broadcast_once (k : Kind) {maxUserNum : ℤ} {calls : List Call}
    (hfd : ∀ c ∈ calls, ∀ fd ∈ openedWith c, 0 < fd)
    (h : exec (call k) (start k maxUserNum) calls = some r) (m : ℕ → UInt8) {size : UInt16}
    (hs : size ≠ 0) (error : Fin tcpUserNum → ℤ) :
    (sendAllOf k r.server (some m) size error).map (fun x => (x.fd, x.data)) =
        (inOrder r.server).map (fun p => ((r.server.user p).fd, load m 0 size.toNat)) ∧
      (inOrder r.server).Nodup ∧ ∀ p, p ∈ inOrder r.server ↔ p ∈ r.live := by
  have hserves := serves_exec hfd h
  rw [sendAllOf_eq]
  exact ⟨hserves.sendAll m hs error, hserves.inOrder_nodup, hserves.mem_inOrder⟩

theorem broadcast_once_hole : ∃ r : Run, r.server.table.pUser 0 = none ∧ r.live = {200} ∧
    (sendAllOf .ipcStream r.server (some fun _ => 7) 2 (fun _ => -1)).map
        (fun x => (x.fd, x.data)) =
      (inOrder r.server).map (fun p => ((r.server.user p).fd, [7, 7])) ∧
    (inOrder r.server).Nodup ∧ ∀ p, p ∈ inOrder r.server ↔ p ∈ r.live := by
  let calls : List Call := [.accept [10] 4 (some 100) true, .accept [11] 5 (some 200) true,
    .disconnect 100]
  have hrun : (exec (call .ipcStream) (start .ipcStream 3) calls).map
      (fun r => (r.server.table.pUser 0, r.live)) = some (none, {200}) := by
    decide +kernel
  obtain ⟨r, hs, he⟩ := Option.map_eq_some_iff.mp hrun
  obtain ⟨h0, hl⟩ := Prod.mk.inj he
  have hfd : ∀ c ∈ calls, ∀ fd ∈ openedWith c, 0 < fd := by simp [calls, openedWith]
  exact ⟨r, h0, hl, broadcast_once .ipcStream hfd hs (fun _ => 7) (by decide) fun _ => -1⟩

end LibComm.Broadcast

import LibComm.Interleaving
import LibComm.Netlink

/-!
# Where a netlink message goes

`_netlinkInit` lets `msg_name` of both message headers point to `destAddr`, a
local variable of its own. `recvmsg` stores the address of each sender there,
the frames of later calls may store anything there, and `sendmsg` takes its
destination from there.
-/

namespace LibComm.NetlinkAddress
open Interleaving SendCall
open Netlink (Call)

structure SockaddrNl where
  family : UInt16
  pid : UInt32
  groups : UInt32
  deriving DecidableEq

def afNetlink : UInt16 := 16

def kernel : SockaddrNl := ⟨afNetlink, 0, 0⟩

structure State where
  fd : ℤ
  sendMsgName : ℕ
  recvMsgName : ℕ
  cells : ℕ → SockaddrNl
  sent : List SockaddrNl

structure Answers where
  context : Bool
  fd : ℤ
  bound : Bool
  sendBuf : Bool
  recvBuf : Bool
  thread : Bool

/-- `_netlinkInit` with its local variable in the cell `destAddr`. -/
def netlinkInit (r : Answers) (destAddr : ℕ) (cells : ℕ → SockaddrNl) : Option State :=
  if r.fd < 0 then none
  else if r.bound = false then none
  else if r.sendBuf = false then none
  else if r.recvBuf = false then none
  else some ⟨r.fd, destAddr, destAddr, Function.update cells destAddr kernel, []⟩

def commNetlinkInit (r : Answers) (destAddr : ℕ) (cells : ℕ → SockaddrNl) : Option State :=
  if r.context then (netlinkInit r destAddr cells).filter fun _ => r.thread else none

def State.store (s : State) (cell : ℕ) (a : SockaddrNl) : State :=
  { s with cells := Function.update s.cells cell a }

/-- A message from `sender` or what ends the receive task, a call of `comm_netlinkSendToKernel`,
or a call whose frame covers the ended one. -/
inductive Event where
  | recvmsg (sender : SockaddrNl) (len : ℤ)
  | send (a : Call) (error : ℤ)
  | frame (a : SockaddrNl)

def netlinkRecvTask (s : State) (sender : SockaddrNl) (len : ℤ) : State :=
  let t := if 0 ≤ len then s.store s.recvMsgName sender else s
  if len ≤ 0 then { t with fd := -1 } else t

def netlinkSendToKernel (s : State) (a : Call) (error : ℤ) : State × ℤ :=
  match Args.request ⟨some s.fd, a.pData, a.size⟩ with
  | none => (s, -1)
  | some _ => ({ s with sent := s.sent ++ [s.cells s.sendMsgName] }, error)

def step (s : State) : Event → Option State
  | .recvmsg sender len => if s.fd < 0 then none else some (netlinkRecvTask s sender len)
  | .send a error => some (netlinkSendToKernel s a error).1
  | .frame a => some (s.store s.sendMsgName a)

/-- Each call that has data to send, up to the end of the receive task, comes when the last
address stored is that of the kernel. -/
def LastFromKernel : SockaddrNl → List Event → Prop
  | _, [] => True
  | _, .recvmsg sender len :: es => 0 < len → LastFromKernel sender es
  | last, .send a _ :: es => (a.pData.isSome ∧ a.size ≠ 0 → last = kernel) ∧ LastFromKernel last es
  | _, .frame a :: es => LastFromKernel a es

variable {s t : State}

@[simp] theorem store_cells (s : State) (cell : ℕ) (a : SockaddrNl) :
    (s.store cell a).cells cell = a := by
  simp [State.store]

theorem netlinkSendToKernel_sent (s : State) (a : Call) (error : ℤ) :
    (netlinkSendToKernel s a error).1 = s ∧ ¬ (0 ≤ s.fd ∧ a.pData.isSome ∧ a.size ≠ 0) ∨
      (netlinkSendToKernel s a error).1 = { s with sent := s.sent ++ [s.cells s.sendMsgName] } ∧
        (0 ≤ s.fd ∧ a.pData.isSome ∧ a.size ≠ 0) := by
  rw [← request_isSome]
  cases hr : Args.request ⟨some s.fd, a.pData, a.size⟩ <;> simp [netlinkSendToKernel, hr]

theorem exec_closed (hfd : s.fd < 0) {es : List Event} (h : exec step s es = some t) :
    t.sent = s.sent := by
  induction es generalizing s with
  | nil =>
    obtain rfl := Option.some.inj h
    rfl
  | cons e es ih =>
    obtain ⟨u, hu, hr⟩ := exec_cons.mp h
    cases e with
    | recvmsg sender len => simp [step, hfd] at hu
    | send a error =>
      obtain rfl := Option.some.inj hu
      obtain ⟨hs, -⟩ | ⟨-, h0, -⟩ := netlinkSendToKernel_sent s a error
      · rw [hs] at hr
        exact ih hfd hr
      · omega
    | frame a =>
      obtain rfl := Option.some.inj hu
      exact ih (s := s.store s.sendMsgName a) hfd hr

theorem exec_sent (hfd : 0 ≤ s.fd) (hname : s.recvMsgName = s.sendMsgName) {es : List Event}
    (h : exec step s es = some t) :
    (∀ d ∈ t.sent, d = kernel) ↔
      (∀ d ∈ s.sent, d = kernel) ∧ LastFromKernel (s.cells s.sendMsgName) es := by
  induction es generalizing s with
  | nil =>
    obtain rfl := Option.some.inj h
    simp [LastFromKernel]
  | cons e es ih =>
    obtain ⟨u, hu, hr⟩ := exec_cons.mp h
    cases e with
    | recvmsg sender len =>
      simp only [step, Int.not_lt.mpr hfd, if_false] at hu
      obtain rfl := Option.some.inj hu
      by_cases hlen : 0 < len
      · have hu : netlinkRecvTask s sender len = s.store s.sendMsgName sender := by
          simp [netlinkRecvTask, hlen.le, not_le.mpr hlen, hname]
        rw [hu] at hr
        have hrec := ih (s := s.store s.sendMsgName sender) hfd hname hr
        simpa [LastFromKernel, hlen, State.store] using hrec
      · have hclosed : (netlinkRecvTask s sender len).fd < 0 := by
          simp [netlinkRecvTask, not_lt.mp hlen]
        have hsame : (netlinkRecvTask s sender len).sent = s.sent := by
          by_cases h0 : 0 ≤ len <;> simp [netlinkRecvTask, not_lt.mp hlen, h0, State.store]
        rw [exec_closed hclosed hr, hsame]
        simp [LastFromKernel, hlen]
    | send a error =>
      obtain rfl := Option.some.inj hu
      obtain ⟨hs, hn⟩ | ⟨hs, -, hg⟩ := netlinkSendToKernel_sent s a error
      · rw [hs] at hr
        have hrec := ih hfd hname hr
        have hn : ¬ (a.pData.isSome ∧ a.size ≠ 0) := fun hg => hn ⟨hfd, hg⟩
        simpa only [LastFromKernel, hn, false_imp_iff, true_and] using hrec
      · rw [hs] at hr
        have hrec := ih (s := { s with sent := s.sent ++ [s.cells s.sendMsgName] }) hfd hname hr
        have hlast : (∀ d ∈ s.sent ++ [s.cells s.sendMsgName], d = kernel) ↔
            (∀ d ∈ s.sent, d = kernel) ∧ s.cells s.sendMsgName = kernel := by
          simp [or_imp, forall_and]
        simpa only [LastFromKernel, hg, true_imp_iff, hlast, and_assoc, ne_eq, not_false_eq_true,
          and_self] using hrec
    | frame a =>
      obtain rfl := Option.some.inj hu
      have hrec := ih (s := s.store s.sendMsgName a) hfd hname hr
      simpa [LastFromKernel, State.store] using hrec

theorem commNetlinkInit_some {r : Answers} {destAddr : ℕ} {cells : ℕ → SockaddrNl}
    (h : commNetlinkInit r destAddr cells = some s) :
    0 ≤ s.fd ∧ s.recvMsgName = s.sendMsgName ∧ s.cells s.sendMsgName = kernel ∧ s.sent = [] := by
  simp only [commNetlinkInit, netlinkInit, Option.ite_none_right_eq_some,
    Option.filter_eq_some_iff, Option.ite_none_left_eq_some, Option.some.injEq] at h
  obtain ⟨-, ⟨hfd, -, -, -, rfl⟩, -⟩ := h
  exact ⟨not_lt.mp hfd, rfl, by simp, rfl⟩

/-- Every message of a run goes to the kernel exactly if each send comes when the last address
stored in the common cell is that of the kernel. -/
theorem sent_to_kernel {r : Answers} {destAddr : ℕ} {cells : ℕ → SockaddrNl} {es : List Event}
    (hs : commNetlinkInit r destAddr cells = some s) (ht : exec step s es = some t) :
    (∀ d ∈ t.sent, d = kernel) ↔ LastFromKernel kernel es := by
  obtain ⟨hfd, hname, hcell, hsent⟩ := commNetlinkInit_some hs
  rw [exec_sent hfd hname ht, hcell, hsent]
  simp

def answers : Answers := ⟨true, 3, true, true, true, true⟩

def blank : ℕ → SockaddrNl := fun _ => ⟨0, 0, 0⟩

theorem sent_to_kernel_replied : ∃ t : State,
    ((∀ d ∈ t.sent, d = kernel) ↔ LastFromKernel kernel
      [.send Netlink.hello 21, .recvmsg kernel 36, .send Netlink.hello 21]) ∧
      t.sent = [kernel, kernel] := by
  obtain ⟨s, hs⟩ : ∃ s, commNetlinkInit answers 7 blank = some s := ⟨_, rfl⟩
  obtain ⟨t, ht⟩ : ∃ t, exec step s
      [.send Netlink.hello 21, .recvmsg kernel 36, .send Netlink.hello 21] = some t := by
    obtain rfl := Option.some.inj hs
    exact ⟨_, rfl⟩
  refine ⟨t, sent_to_kernel hs ht, ?_⟩
  obtain rfl := Option.some.inj hs
  obtain rfl := Option.some.inj ht
  decide

/-- After a message of another process the next one goes to that process. -/
theorem sent_to_kernel_fails : ¬ ∀ (r : Answers) (destAddr : ℕ) (cells : ℕ → SockaddrNl)
    (es : List Event) (s t : State), commNetlinkInit r destAddr cells = some s →
      (∀ e ∈ es, ∀ a, e ≠ .frame a) → exec step s es = some t → ∀ d ∈ t.sent, d = kernel := by
  intro hclaim
  have hsent := hclaim answers 7 blank [.recvmsg ⟨afNetlink, 100, 0⟩ 36, .send Netlink.hello 21] _ _
    rfl (by simp) rfl
  exact absurd hsent (by decide)

end LibComm.NetlinkAddress

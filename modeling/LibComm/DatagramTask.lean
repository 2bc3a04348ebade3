import Mathlib.Data.List.TakeWhile
import LibComm.RecvTask

/-!
# The receive tasks of the datagram sockets

UDP over IPv4 and IPv6, IPC datagrams and raw sockets each have their own copy
of the loop that hands datagrams to the receive callback. The IPC and the raw
copy leave the loop when `recvfrom` fails; the two UDP copies also leave it
when a datagram is empty. A task is run here on its own against a sequence of
answers of `recvfrom`, and stays blocked where the sequence ends.
-/

namespace LibComm.DatagramTask
open RecvTask (commBufSize)

inductive Kind where
  | udpIpv4
  | udpIpv6
  | ipcDgram
  | raw
  deriving DecidableEq

structure Datagram where
  bytes : List UInt8
  le : bytes.length ≤ commBufSize

inductive Outcome where
  | datagram (m : Datagram)
  | error

def Outcome.len : Outcome → ℤ
  | .datagram m => m.bytes.length
  | .error => -1

def Outcome.bytes : Outcome → List UInt8
  | .datagram m => m.bytes
  | .error => []

def Outcome.isError : Outcome → Bool
  | .datagram _ => false
  | .error => true

structure Callback where
  data : List UInt8
  size : ℕ
  deriving DecidableEq

def Outcome.callback (r : Outcome) : Callback := ⟨r.bytes, r.len.toNat % 65536⟩

structure Task where
  running : Bool
  recvFunc : Bool
  calls : List Callback
  ended : Bool
  deriving DecidableEq

def started : Task := ⟨true, true, [], false⟩

def Task.receive (r : Outcome) (s : Task) : Task :=
  if s.recvFunc then { s with calls := s.calls ++ [r.callback] } else s

def Task.stop (s : Task) : Task := { s with running := false, ended := true }

/-- The receive loop that is left on the lengths `leaves`, with the answers it has not asked for. -/
def datagramRecvTask (leaves : ℤ → Bool) : List Outcome → Task → Task × List Outcome
  | [], s => if s.running then (s, []) else (s.stop, [])
  | r :: rs, s =>
    if s.running then
      if leaves r.len then (s.stop, rs) else datagramRecvTask leaves rs (s.receive r)
    else (s.stop, r :: rs)

def udpIpv4RecvTask := datagramRecvTask fun len => len ≤ 0
def udpIpv6RecvTask := datagramRecvTask fun len => len ≤ 0
def ipcDgramRecvTask := datagramRecvTask fun len => len < 0
def rawRecvTask := datagramRecvTask fun len => len < 0

def recvTaskOf : Kind → List Outcome → Task → Task × List Outcome
  | .udpIpv4 => udpIpv4RecvTask
  | .udpIpv6 => udpIpv6RecvTask
  | .ipcDgram => ipcDgramRecvTask
  | .raw => rawRecvTask

def beforeError (rs : List Outcome) : List Outcome := rs.takeWhile fun r => !r.isError

/-- The datagrams before the first error are delivered in order, and the task ends at that error
and not before. -/
structure Delivers (rs : List Outcome) (r : Task × List Outcome) : Prop where
  calls : r.1.calls = (beforeError rs).map Outcome.callback
  ended : r.1.ended = rs.any Outcome.isError
  rest : r.2 = (rs.dropWhile fun r => !r.isError).tail

@[simp] theorem receive_calls {s : Task} (hf : s.recvFunc = true) (r : Outcome) :
    (s.receive r).calls = s.calls ++ [r.callback] := by
  simp [Task.receive, hf]

theorem receive_running {s : Task} (hs : s.running = true) (hf : s.recvFunc = true)
    (r : Outcome) : (s.receive r).running = true ∧ (s.receive r).recvFunc = true := by
  simp [Task.receive, hs, hf]

@[simp] theorem receive_ended (r : Outcome) (s : Task) : (s.receive r).ended = s.ended := by
  unfold Task.receive
  split <;> rfl

theorem datagramRecvTask_calls {leaves : ℤ → Bool} {rs : List Outcome} {s : Task}
    (hs : s.running = true) (hf : s.recvFunc = true) :
    (datagramRecvTask leaves rs s).1.calls =
      s.calls ++ (rs.takeWhile fun r => !leaves r.len).map Outcome.callback := by
  induction rs generalizing s with
  | nil => simp [datagramRecvTask, hs]
  | cons r rs ih =>
    obtain ⟨hs', hf'⟩ := receive_running hs hf r
    by_cases hr : leaves r.len = true
    · simp [datagramRecvTask, hs, hr, Task.stop]
    · simp [datagramRecvTask, hs, hr, ih hs' hf', hf]

theorem datagramRecvTask_ended {leaves : ℤ → Bool} {rs : List Outcome} {s : Task}
    (hs : s.running = true) (hf : s.recvFunc = true) (he : s.ended = false) :
    (datagramRecvTask leaves rs s).1.ended = rs.any fun r => leaves r.len := by
  induction rs generalizing s with
  | nil => simp [datagramRecvTask, hs, he]
  | cons r rs ih =>
    obtain ⟨hs', hf'⟩ := receive_running hs hf r
    by_cases hr : leaves r.len = true
    · simp [datagramRecvTask, hs, hr, Task.stop]
    · simp [datagramRecvTask, hs, hr, ih hs' hf', he]

theorem datagramRecvTask_rest {leaves : ℤ → Bool} {rs : List Outcome} {s : Task}
    (hs : s.running = true) (hf : s.recvFunc = true) :
    (datagramRecvTask leaves rs s).2 = (rs.dropWhile fun r => !leaves r.len).tail := by
  induction rs generalizing s with
  | nil => simp [datagramRecvTask, hs]
  | cons r rs ih =>
    obtain ⟨hs', hf'⟩ := receive_running hs hf r
    by_cases hr : leaves r.len = true
    · simp [datagramRecvTask, hs, hr]
    · simp [datagramRecvTask, hs, hr, ih hs' hf']

@[simp] theorem decide_len_neg (r : Outcome) : decide (r.len < 0) = r.isError := by
  cases r with
  | datagram m => exact decide_eq_false (by simp [Outcome.len])
  | error => rfl

theorem delivers_of_neg (rs : List Outcome) :
    Delivers rs (datagramRecvTask (fun len => len < 0) rs started) where
  calls := by simp [datagramRecvTask_calls, started, beforeError]
  ended := by simp [datagramRecvTask_ended, started]
  rest := by simp [datagramRecvTask_rest, started]

theorem beforeError_map {α : Type*} (f : α → Datagram) (as : List α) :
    beforeError (as.map fun a => .datagram (f a)) = as.map fun a => .datagram (f a) := by
  refine List.takeWhile_eq_self_iff.mpr fun r hr => ?_
  obtain ⟨a, -, rfl⟩ := List.mem_map.mp hr
  rfl

theorem ipcDgramRecvTask_map {α : Type*} (f : α → Datagram) (as : List α) :
    (ipcDgramRecvTask (as.map fun a => .datagram (f a)) started).1.calls =
      as.map fun a => (Outcome.datagram (f a)).callback := by
  rw [ipcDgramRecvTask, (delivers_of_neg _).calls, beforeError_map, List.map_map]
  rfl

theorem datagramRecvTask_congr {rs : List Outcome} {s : Task}
    (h : ∀ r ∈ beforeError rs, r.len ≠ 0) :
    datagramRecvTask (fun len => len ≤ 0) rs s = datagramRecvTask (fun len => len < 0) rs s := by
  induction rs generalizing s with
  | nil => rfl
  | cons r rs ih =>
    cases r with
    | error => simp [datagramRecvTask, Outcome.len]
    | datagram m =>
      have hm : (Outcome.datagram m).len ≠ 0 := h _ (by simp [beforeError, Outcome.isError])
      have hiff : (Outcome.datagram m).len ≤ 0 ↔ (Outcome.datagram m).len < 0 := by omega
      have hrest : ∀ r ∈ beforeError rs, r.len ≠ 0 := fun r hr =>
        h r (by simpa [beforeError, Outcome.isError] using Or.inr hr)
      simp only [datagramRecvTask, hiff, ih hrest]

theorem recvTaskOf_eq {rs : List Outcome} (h : ∀ r ∈ beforeError rs, r.len ≠ 0) (k : Kind)
    (s : Task) : recvTaskOf k rs s = datagramRecvTask (fun len => len < 0) rs s := by
  cases k with
  | udpIpv4 | udpIpv6 => exact datagramRecvTask_congr h
  | ipcDgram | raw => rfl

theorem takeWhile_beforeError (rs : List Outcome) :
    (beforeError rs).takeWhile (fun r => !decide (r.len ≤ 0)) =
      rs.takeWhile fun r => !decide (r.len ≤ 0) := by
  have himp : ∀ r : Outcome, (!decide (r.len ≤ 0) ∧ !r.isError) ↔ !decide (r.len ≤ 0) := by
    intro r
    cases r <;> simp [Outcome.len, Outcome.isError]
  simp only [beforeError, List.takeWhile_takeWhile, himp, Bool.decide_eq_true]

theorem nonempty_of_delivers {rs : List Outcome}
    (h : Delivers rs (datagramRecvTask (fun len => len ≤ 0) rs started)) :
    ∀ r ∈ beforeError rs, r.len ≠ 0 := by
  have hlen := congrArg List.length h.calls
  simp only [datagramRecvTask_calls, started, List.nil_append, List.length_map,
    ← takeWhile_beforeError rs] at hlen
  have hself := (List.takeWhile_prefix _).eq_of_length hlen
  intro r hr h0
  have hpos := List.takeWhile_eq_self_iff.mp hself r hr
  simp [h0] at hpos

theorem recvTaskOf_udp {k : Kind} (hk : k = .udpIpv4 ∨ k = .udpIpv6) (rs : List Outcome) :
    recvTaskOf k rs started = datagramRecvTask (fun len => len ≤ 0) rs started := by
  obtain rfl | rfl := hk <;> rfl

theorem recvTaskOf_other {k : Kind} (hk : ¬ (k = .udpIpv4 ∨ k = .udpIpv6)) (rs : List Outcome) :
    recvTaskOf k rs started = datagramRecvTask (fun len => len < 0) rs started := by
  cases k with
  | udpIpv4 | udpIpv6 => simp at hk
  | ipcDgram | raw => rfl

/-- The IPC and raw tasks deliver every datagram before the first error; the UDP tasks do, and agree
with them, exactly if none of these datagrams is empty. -/
theorem datagrams_survive (rs : List Outcome) :
    (∀ k, Delivers rs (recvTaskOf k rs started) ↔
      (k = .udpIpv4 ∨ k = .udpIpv6 → ∀ r ∈ beforeError rs, r.len ≠ 0)) ∧
      ((∀ k k', recvTaskOf k rs started = recvTaskOf k' rs started) ↔
        ∀ r ∈ beforeError rs, r.len ≠ 0) := by
  refine ⟨fun k => ⟨fun hd hk => ?_, fun h => ?_⟩, fun hagree => ?_, fun h k k' => ?_⟩
  · exact nonempty_of_delivers (recvTaskOf_udp hk rs ▸ hd)
  · by_cases hk : k = .udpIpv4 ∨ k = .udpIpv6
    · rw [recvTaskOf_eq (h hk)]
      exact delivers_of_neg rs
    · rw [recvTaskOf_other hk]
      exact delivers_of_neg rs
  · have hd : Delivers rs (recvTaskOf .ipcDgram rs started) := delivers_of_neg rs
    rw [hagree .ipcDgram .udpIpv4] at hd
    exact nonempty_of_delivers hd
  · exact (recvTaskOf_eq h k _).trans (recvTaskOf_eq h k' _).symm

theorem datagrams_survive_fails : ¬ ∀ (rs : List Outcome) (k : Kind),
    Delivers rs (recvTaskOf k rs started) := by
  intro hclaim
  have h := (hclaim [.datagram ⟨[], by decide⟩, .datagram ⟨[7], by decide⟩] .udpIpv4).calls
  exact absurd h (by decide)

end LibComm.DatagramTask

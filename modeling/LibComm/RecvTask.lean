import LibComm.TableCalls

/-!
# The receive tasks of the three stream servers

Each server has its own copy of the loop that receives from one client. The
two TCP copies leave the loop when `recv` returns 0 or less; the IPC copy goes
on when it returns 0. A task is run here on its own against a sequence of
answers of `recv`, and stays blocked where the sequence ends.
-/

namespace LibComm.RecvTask
open ClientTable

abbrev commBufSize : ℕ := 8191

structure Chunk where
  bytes : List UInt8
  pos : 0 < bytes.length
  le : bytes.length ≤ commBufSize
  deriving DecidableEq

inductive Outcome where
  | data (m : Chunk)
  | closed
  | error
  deriving DecidableEq

def Outcome.len : Outcome → ℤ
  | .data m => m.bytes.length
  | .closed => 0
  | .error => -1

def Outcome.bytes : Outcome → List UInt8
  | .data m => m.bytes
  | .closed => []
  | .error => []

inductive Callback where
  | recv (data : List UInt8) (size : ℕ)
  | exit
  deriving DecidableEq

structure Callbacks where
  exitFunc : Bool
  recvFunc : Bool

structure Task where
  user : ℕ
  fd : ℤ
  closed : List ℤ
  calls : List Callback
  table : Table ℕ
  ended : Bool

def Task.receive (σ : Callbacks) (r : Outcome) (s : Task) : Task :=
  if σ.recvFunc then { s with calls := s.calls ++ [.recv r.bytes (r.len.toNat % 65536)] } else s

def Task.leave (σ : Callbacks) (s : Task) : Task where
  user := s.user
  fd := -1
  closed := s.closed ++ [s.fd]
  calls := if σ.exitFunc then s.calls ++ [.exit] else s.calls
  table := s.table
  ended := s.ended

def Task.disconnect (s : Task) : Task where
  user := s.user
  fd := if s.fd > 0 then -1 else s.fd
  closed := if s.fd > 0 then s.closed ++ [s.fd] else s.closed
  calls := s.calls
  table := s.table.disconnectClient (· == s.user)
  ended := true

/-- The receive loop of the TCP servers, with the answers of `recv` it has not asked for. -/
def tcpServerRecvTask (σ : Callbacks) : List Outcome → Task → Task × List Outcome
  | [], s => if s.fd > 0 then (s, []) else (s.disconnect, [])
  | r :: rs, s =>
    if s.fd > 0 then
      if r.len ≤ 0 then ((s.leave σ).disconnect, rs)
      else tcpServerRecvTask σ rs (s.receive σ r)
    else (s.disconnect, r :: rs)

def tcpIpv4ServerRecvTask := tcpServerRecvTask
def tcpIpv6ServerRecvTask := tcpServerRecvTask

def ipcStreamServerRecvTask (σ : Callbacks) : List Outcome → Task → Task × List Outcome
  | [], s => if s.fd > 0 then (s, []) else (s.disconnect, [])
  | r :: rs, s =>
    if s.fd > 0 then
      if r.len < 0 then ((s.leave σ).disconnect, rs)
      else ipcStreamServerRecvTask σ rs (s.receive σ r)
    else (s.disconnect, r :: rs)

def recvTaskOf : Kind → Callbacks → List Outcome → Task → Task × List Outcome
  | .tcpIpv4 => tcpIpv4ServerRecvTask
  | .tcpIpv6 => tcpIpv6ServerRecvTask
  | .ipcStream => ipcStreamServerRecvTask

def last (r : Outcome) : Bool := r.len ≤ 0

def received (σ : Callbacks) (rs : List Outcome) : List Callback :=
  if σ.recvFunc then
    (rs.takeWhile fun r => !last r).map fun r => .recv r.bytes r.bytes.length
  else []

structure Holds (t : Table ℕ) (p : ℕ) (i : Fin tcpUserNum) : Prop where
  slot : t.pUser i = some p
  below : (i : ℤ) < t.maxUserNum
  once : ∀ j, t.pUser j = some p → j = i
  counted : 0 < t.userNum

/-- The life of a client: its receive callbacks, and at the first answer that is not positive the
exit callback, the end of the task and the release of the slot. -/
def Lives (σ : Callbacks) (rs : List Outcome) (s : Task) (i : Fin tcpUserNum)
    (r : Task × List Outcome) : Prop :=
  match rs.find? last with
  | none =>
    r.1.calls = s.calls ++ received σ rs ∧ r.1.ended = false ∧ r.2 = [] ∧ r.1.table = s.table
  | some _ =>
    r.1.calls = s.calls ++ received σ rs ++ (if σ.exitFunc then [.exit] else []) ∧
      r.1.ended = true ∧ r.2 = (rs.dropWhile fun r => !last r).tail ∧
      r.1.table = ⟨Function.update s.table.pUser i none, s.table.userNum - 1, s.table.maxUserNum⟩

theorem holds_of_consistent {r : TableCalls.Run} (h : TableCalls.Consistent r) {p : ℕ}
    (hp : p ∈ r.live) : ∃ i, Holds r.server.table p i := by
  obtain ⟨i, hi⟩ := h.slot p hp
  have hcard := Finset.card_pos.mpr ⟨p, hp⟩
  refine ⟨i, hi, h.lt hi, fun j hj => h.distinct j i p hj hi, ?_⟩
  rw [h.count, ← h.card]
  exact_mod_cast hcard

theorem Holds.disconnect {t : Table ℕ} {p : ℕ} {i : Fin tcpUserNum} (h : Holds t p i) :
    t.disconnectClient (· == p) =
      ⟨Function.update t.pUser i none, t.userNum - 1, t.maxUserNum⟩ := by
  have hs : t.slotOf (· == p) = some i := by
    cases hf : t.slotOf (· == p) with
    | none => exact absurd (Table.slotOf_none hf h.below h.slot) (by simp)
    | some j =>
      obtain ⟨-, q, hq, hqp⟩ := Table.slotOf_some hf
      obtain rfl : q = p := eq_of_beq hqp
      rw [h.once j hq]
  rw [Table.disconnectClient_found hs]
  simp [Table.decrement, Table.setSlot, h.counted]

@[simp] theorem receive_fd (σ : Callbacks) (r : Outcome) (s : Task) :
    (s.receive σ r).fd = s.fd := by
  unfold Task.receive
  split <;> rfl

@[simp] theorem receive_table (σ : Callbacks) (r : Outcome) (s : Task) :
    (s.receive σ r).table = s.table ∧ (s.receive σ r).ended = s.ended ∧
      (s.receive σ r).user = s.user := by
  unfold Task.receive
  split <;> exact ⟨rfl, rfl, rfl⟩

theorem last_eq_false {r : Outcome} : last r = false ↔ ∃ m, r = .data m := by
  cases r with
  | data m => simpa [last, Outcome.len] using List.ne_nil_of_length_pos m.pos
  | closed | error => simp [last, Outcome.len]

theorem receive_calls (σ : Callbacks) (m : Chunk) (s : Task) :
    (s.receive σ (.data m)).calls =
      s.calls ++ if σ.recvFunc then [.recv m.bytes m.bytes.length] else [] := by
  have hle : m.bytes.length ≤ 8191 := m.le
  have hm : m.bytes.length % 65536 = m.bytes.length := Nat.mod_eq_of_lt (by omega)
  unfold Task.receive
  split <;> simp [Outcome.bytes, Outcome.len, hm]

theorem lives_cons {σ : Callbacks} {m : Chunk} {rs : List Outcome} {s : Task}
    {i : Fin tcpUserNum} {r : Task × List Outcome} :
    Lives σ (.data m :: rs) s i r ↔ Lives σ rs (s.receive σ (.data m)) i r := by
  have hm : last (.data m) = false := last_eq_false.mpr ⟨m, rfl⟩
  have hc : s.calls ++ received σ (.data m :: rs) =
      (s.receive σ (.data m)).calls ++ received σ rs := by
    rw [receive_calls]
    unfold received
    split_ifs <;> simp [hm, Outcome.bytes]
  unfold Lives
  rw [hc]
  simp [hm]

theorem lives_last {σ : Callbacks} {r : Outcome} (hr : last r = true) {rs : List Outcome}
    {s : Task} {i : Fin tcpUserNum} (hi : Holds s.table s.user i) :
    Lives σ (r :: rs) s i ((s.leave σ).disconnect, rs) := by
  have hrec : received σ (r :: rs) = [] := by simp [received, hr]
  simp only [Lives, List.find?_cons, hr, hrec]
  refine ⟨?_, rfl, by simp [hr], hi.disconnect⟩
  simp only [Task.disconnect, Task.leave]
  split_ifs <;> simp

theorem tcp_lives {σ : Callbacks} {rs : List Outcome} {s : Task} {i : Fin tcpUserNum}
    (hs : s.ended = false) (hfd : 0 < s.fd) (hi : Holds s.table s.user i) :
    Lives σ rs s i (tcpServerRecvTask σ rs s) := by
  induction rs generalizing s with
  | nil => simp [tcpServerRecvTask, hfd, Lives, received, hs]
  | cons r rs ih =>
    by_cases hr : last r = true
    · have hlen : r.len ≤ 0 := by simpa [last] using hr
      simpa only [tcpServerRecvTask, hfd, hlen, if_true] using lives_last hr hi
    · have hlen : ¬ r.len ≤ 0 := by simpa [last] using hr
      obtain ⟨m, rfl⟩ := last_eq_false.mp (by simpa using hr)
      simp only [tcpServerRecvTask, hfd, hlen, if_true, if_false]
      exact lives_cons.mpr (ih (by simpa using hs) (by simpa using hfd) (by simpa using hi))

theorem ipc_ended {σ : Callbacks} {rs : List Outcome} {s : Task} (hs : s.ended = false)
    (hfd : 0 < s.fd) (h : (ipcStreamServerRecvTask σ rs s).1.ended = true) :
    (ipcStreamServerRecvTask σ rs s).2.length < rs.length := by
  induction rs generalizing s with
  | nil => simp [ipcStreamServerRecvTask, hfd, hs] at h
  | cons r rs ih =>
    by_cases hlen : r.len < 0
    · simp [ipcStreamServerRecvTask, hfd, hlen]
    · simp only [ipcStreamServerRecvTask, hfd, hlen, if_true, if_false] at h ⊢
      exact (ih (by simpa using hs) (by simpa using hfd) h).trans (by simp)

/-- On an orderly close the IPC task goes on with empty messages for as long as it is left. -/
theorem ipc_spins (σ : Callbacks) (n : ℕ) {s : Task} (hfd : 0 < s.fd) :
    (ipcStreamServerRecvTask σ (List.replicate n .closed) s).1 =
      { s with calls := s.calls ++ if σ.recvFunc then List.replicate n (.recv [] 0) else [] } := by
  induction n generalizing s with
  | zero => simp [ipcStreamServerRecvTask, hfd]
  | succ n ih =>
    have hlen : ¬ Outcome.closed.len < 0 := by decide
    simp only [List.replicate_succ, ipcStreamServerRecvTask, hfd, hlen, if_true, if_false]
    rw [ih (by simpa using hfd)]
    unfold Task.receive
    split_ifs <;> simp [Outcome.bytes, Outcome.len]

theorem ipc_eq_tcp {σ : Callbacks} {rs : List Outcome} {s : Task}
    (h : rs.find? last ≠ some .closed) :
    ipcStreamServerRecvTask σ rs s = tcpServerRecvTask σ rs s := by
  induction rs generalizing s with
  | nil => rfl
  | cons r rs ih =>
    cases r with
    | data m =>
      have hm : last (.data m) = false := last_eq_false.mpr ⟨m, rfl⟩
      have hpos : 0 < (Outcome.data m).len := by simpa [last] using hm
      simp only [ipcStreamServerRecvTask, tcpServerRecvTask, not_lt.mpr hpos.le, not_le.mpr hpos,
        if_false]
      rw [ih (by simpa [hm] using h)]
    | closed => simp [last, Outcome.len] at h
    | error => simp [ipcStreamServerRecvTask, tcpServerRecvTask, Outcome.len]

theorem ipc_lives_iff {σ : Callbacks} {rs : List Outcome} {s : Task} {i : Fin tcpUserNum}
    (hs : s.ended = false) (hfd : 0 < s.fd) (hi : Holds s.table s.user i) :
    Lives σ rs s i (ipcStreamServerRecvTask σ rs s) ↔ rs.find? last ≠ some .closed := by
  constructor
  · intro h hclosed
    induction rs generalizing s with
    | nil => simp at hclosed
    | cons r rs ih =>
      cases r with
      | data m =>
        have hm : last (.data m) = false := last_eq_false.mpr ⟨m, rfl⟩
        have hpos : 0 < (Outcome.data m).len := by simpa [last] using hm
        simp only [ipcStreamServerRecvTask, hfd, not_lt.mpr hpos.le, if_true, if_false] at h
        exact ih (by simpa using hs) (by simpa using hfd) (by simpa using hi) (lives_cons.mp h)
          (by simpa [hm] using hclosed)
      | closed =>
        -- the task has to stop here, but goes on and takes at least one more answer to end
        have hlen : ¬ Outcome.closed.len < 0 := by decide
        have hl : last .closed = true := by decide
        simp only [ipcStreamServerRecvTask, hfd, hlen, if_true, if_false, Lives, hl,
          List.find?_cons] at h
        obtain ⟨-, hend, hrest, -⟩ := h
        have hlt := ipc_ended (σ := σ) (s := s.receive σ .closed) (by simpa using hs)
          (by simpa using hfd) hend
        simp [hrest, hl] at hlt
      | error => simp [last, Outcome.len] at hclosed
  · intro h
    rw [ipc_eq_tcp h]
    exact tcp_lives hs hfd hi

theorem not_lives_of_fd {σ : Callbacks} {rs : List Outcome} {s : Task} {i : Fin tcpUserNum} :
    ¬ Lives σ rs s i (s.disconnect, rs) := by
  unfold Lives
  cases hf : rs.find? last with
  | none => simp [Task.disconnect]
  | some r =>
    intro hx
    obtain ⟨-, -, hrest, -⟩ := hx
    have hpos : 0 < rs.length := List.length_pos_of_mem (List.mem_of_find?_eq_some hf)
    have hdrop := (List.dropWhile_suffix (l := rs) fun r => !last r).length_le
    have hlen := congrArg List.length hrest
    simp only [List.length_tail] at hlen
    omega

/-- The three tasks make the same callbacks, end at the first answer that is not positive and give
the slot back exactly if the descriptor is positive and that answer is not an orderly close. -/
theorem recvTasks_agree (σ : Callbacks) (rs : List Outcome) {s : Task} {i : Fin tcpUserNum}
    (hs : s.ended = false) (hi : Holds s.table s.user i) :
    ((∀ k k', recvTaskOf k σ rs s = recvTaskOf k' σ rs s) ∧
        ∀ k, Lives σ rs s i (recvTaskOf k σ rs s)) ↔
      0 < s.fd ∧ rs.find? last ≠ some .closed := by
  constructor
  · intro hx
    obtain ⟨-, h⟩ := hx
    by_cases hfd : 0 < s.fd
    · exact ⟨hfd, (ipc_lives_iff hs hfd hi).mp (h .ipcStream)⟩
    · have hr : recvTaskOf .tcpIpv4 σ rs s = (s.disconnect, rs) := by
        cases rs <;> simp [recvTaskOf, tcpIpv4ServerRecvTask, tcpServerRecvTask, hfd]
      exact absurd (hr ▸ h .tcpIpv4) not_lives_of_fd
  · intro hx
    obtain ⟨hfd, hc⟩ := hx
    have hk : ∀ k, recvTaskOf k σ rs s = tcpServerRecvTask σ rs s := by
      intro k
      cases k with
      | tcpIpv4 | tcpIpv6 => rfl
      | ipcStream => exact ipc_eq_tcp hc
    refine ⟨fun k k' => (hk k).trans (hk k').symm, fun k => ?_⟩
    rw [hk]
    exact tcp_lives hs hfd hi

def started : Task :=
  ⟨100, 4, [], [], ((Table.init 2).setSlot 0 (some 100)).increment, false⟩

theorem started_holds : Holds started.table started.user 0 where
  slot := by simp [started]
  below := by decide
  once j hj := by
    by_contra hne
    simp [started, hne] at hj
  counted := by decide

theorem recvTasks_agree_fails : ¬ ∀ (σ : Callbacks) (rs : List Outcome) (s : Task)
    (i : Fin tcpUserNum), s.ended = false → 0 < s.fd → Holds s.table s.user i →
    ∀ k, (recvTaskOf k σ rs s).1.ended = (recvTaskOf .tcpIpv4 σ rs s).1.ended := by
  intro hclaim
  have h := hclaim ⟨true, true⟩ [.closed, .closed] started 0 rfl (by decide) started_holds
    .ipcStream
  exact absurd h (by decide)

theorem recvTasks_agree_error :
    ((∀ k k', recvTaskOf k ⟨true, true⟩ [.data ⟨[7], by decide, by decide⟩, .error] started =
          recvTaskOf k' ⟨true, true⟩ [.data ⟨[7], by decide, by decide⟩, .error] started) ∧
        ∀ k, Lives ⟨true, true⟩ [.data ⟨[7], by decide, by decide⟩, .error] started 0
          (recvTaskOf k ⟨true, true⟩ [.data ⟨[7], by decide, by decide⟩, .error] started)) ↔
      0 < started.fd ∧
        [Outcome.data ⟨[7], by decide, by decide⟩, .error].find? last ≠ some .closed :=
  recvTasks_agree ⟨true, true⟩ _ rfl started_holds

end LibComm.RecvTask

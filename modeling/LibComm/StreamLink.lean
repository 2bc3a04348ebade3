import LibComm.StreamEnd

/-!
# A stream client and the server's task for it

One connection of a stream client to a server of its kind, from the moment
that `connect` has succeeded and the server has accepted. Both sides send with
blocking calls, of which each may take only the first bytes, and both receive
tasks run at any time; either side may be closed by its application. An end
that is closed reads as 0 on the other once everything is read.
-/

namespace LibComm.StreamLink
open ByteStream Interleaving SendCall StreamEnd
open ClientTable (Kind)
open RecvTask (Callbacks Outcome Task last)
open StreamClient (Client callbacks)

/-- The two sides, what `recv` has answered to the server (`asked`) and to the client (`heard`),
the bytes under way, and the sends of each side with their results. -/
structure Link where
  client : Client
  server : Task
  asked : List Outcome
  heard : List Outcome
  up : Channel UInt8
  down : Channel UInt8
  clientSends : List (List UInt8 × ℤ)
  serverSends : List (List UInt8 × ℤ)

def clientUninit (c : Client) : Client :=
  { c with
    fd := if c.fd > 0 then -1 else c.fd
    running := false
    connected := false
    task := if c.task = .live then .ended else c.task }

def serverSend (t : Task) (pData : Option (ℕ → UInt8)) (size : UInt16) (error : ℤ) : ℤ :=
  Args.returned ⟨some t.fd, pData, size⟩ error

def start (c : Client) (t : Task) : Link := ⟨c, t, [], [], .empty, .empty, [], []⟩

inductive Label where
  | clientSend (pData : Option (ℕ → UInt8)) (size : UInt16) (error : ℤ)
  | serverSend (pData : Option (ℕ → UInt8)) (size : UInt16) (error : ℤ)
  | clientTask (a : Take)
  | serverTask (a : Take)
  | clientUninit
  | disconnectClient

namespace Link
variable (k : Kind) (σ τ : Callbacks)

def clientSend (s : Link) (pData : Option (ℕ → UInt8)) (size : UInt16) (error : ℤ) : Link :=
  let data := Args.data ⟨some s.client.fd, pData, size⟩
  let r := StreamClient.sendOf k s.client pData size error
  { s with
    client := r.1
    up := s.up.write (data.take r.2.toNat)
    clientSends := s.clientSends ++ [(data, r.2)] }

def serverSend (s : Link) (pData : Option (ℕ → UInt8)) (size : UInt16) (error : ℤ) : Link :=
  let data := Args.data ⟨some s.server.fd, pData, size⟩
  let r := StreamLink.serverSend s.server pData size error
  { s with
    down := s.down.write (data.take r.toNat)
    serverSends := s.serverSends ++ [(data, r)] }

def clientTask (s : Link) (a : Take) : Option Link :=
  if s.client.task = .live then
    (answer id (decide (s.server.fd < 0)) s.down a).map fun x =>
      { s with
        down := x.1
        heard := s.heard ++ [x.2]
        client := StreamClient.recvTaskOf k σ x.2 s.client }
  else none

def serverTask (s : Link) (a : Take) : Option Link :=
  if s.server.ended then none
  else (answer id (decide (s.client.fd < 0)) s.up a).map fun x =>
    { s with
      up := x.1
      asked := s.asked ++ [x.2]
      server := (RecvTask.recvTaskOf k τ [x.2] s.server).1 }

/-- The user of a server whose task has ended is gone, so nothing is sent to it. -/
def step (s : Link) : Label → Option Link
  | .clientSend pData size error =>
    if error ≤ size.toNat then some (s.clientSend k pData size error) else none
  | .serverSend pData size error =>
    if s.server.ended = false ∧ error ≤ size.toNat then some (s.serverSend pData size error)
    else none
  | .clientTask a => s.clientTask k σ a
  | .serverTask a => s.serverTask k τ a
  | .clientUninit => some { s with client := StreamLink.clientUninit s.client }
  | .disconnectClient =>
    if s.server.ended then none else some { s with server := s.server.disconnect }

end Link

structure Accounted (σ : Callbacks) (s : Link) : Prop where
  calls : s.client.calls = callbacks σ s.heard
  stops : (s.heard.dropWhile fun r => !last r).length ≤ 1
  live : s.client.task = .live → s.client.running = true ∧ s.heard.any last = false
  server : s.server.calls.flatMap serverBytes = s.asked.flatMap Outcome.bytes
  receiving : s.server.ended = false → 0 < s.server.fd
  readsUp : Reads id s.up s.asked
  readsDown : Reads id s.down s.heard
  closedUp : .closed ∈ s.asked → s.client.fd < 0
  closedDown : .closed ∈ s.heard → s.server.fd < 0
  up : s.up.written = taken s.clientSends
  down : s.down.written = taken s.serverSends

section Operations
variable {k : Kind} {σ τ : Callbacks} {s t : Link}

theorem recvTask_one (k : Kind) (τ : Callbacks) {t : Task} (hfd : 0 < t.fd) (r : Outcome) :
    ((RecvTask.recvTaskOf k τ [r] t).1 = (t.leave τ).disconnect ∧ last r = true) ∨
      (RecvTask.recvTaskOf k τ [r] t).1 = t.receive τ r := by
  have hrec : 0 < (t.receive τ r).fd := by simpa using hfd
  cases k with
  | tcpIpv4 | tcpIpv6 =>
    by_cases hr : r.len ≤ 0
    · left
      simp [RecvTask.recvTaskOf, RecvTask.tcpIpv4ServerRecvTask, RecvTask.tcpIpv6ServerRecvTask,
        RecvTask.tcpServerRecvTask, hfd, hr, last]
    · right
      simp [RecvTask.recvTaskOf, RecvTask.tcpIpv4ServerRecvTask, RecvTask.tcpIpv6ServerRecvTask,
        RecvTask.tcpServerRecvTask, hfd, hr]
  | ipcStream =>
    by_cases hr : r.len < 0
    · left
      simp [RecvTask.recvTaskOf, RecvTask.ipcStreamServerRecvTask, hfd, hr, last, hr.le]
    · right
      simp [RecvTask.recvTaskOf, RecvTask.ipcStreamServerRecvTask, hfd, hr]

theorem receive_bytes {t : Task} (hτ : τ.recvFunc = true) (r : Outcome) :
    (t.receive τ r).calls.flatMap serverBytes = t.calls.flatMap serverBytes ++ r.bytes := by
  simp [Task.receive, hτ, serverBytes]

theorem leave_bytes (t : Task) :
    (t.leave τ).disconnect.calls.flatMap serverBytes = t.calls.flatMap serverBytes := by
  cases hτ : τ.exitFunc <;> simp [Task.disconnect, Task.leave, hτ, serverBytes]

theorem disconnect_fd {t : Task} (h : 0 < t.fd) : t.disconnect.fd = -1 := by
  simp [Task.disconnect, h]

theorem send_frame (k : Kind) (c : Client) (pData : Option (ℕ → UInt8)) (size : UInt16)
    (error : ℤ) :
    ∃ n, (StreamClient.sendOf k c pData size error).1 = { c with sockCalls := n } := by
  rw [StreamClient.sendOf_eq, Client.send]
  dsimp only
  split
  · exact ⟨_, rfl⟩
  · exact ⟨c.sockCalls, rfl⟩

theorem send_closed (k : Kind) {c : Client} (h : c.fd < 0) (pData : Option (ℕ → UInt8))
    (size : UInt16) (error : ℤ) : (StreamClient.sendOf k c pData size error).2 = -1 := by
  simp [StreamClient.sendOf_eq, Client.send, Args.returned, Args.request, h]

theorem Accounted.clientSend (h : Accounted σ s) (pData : Option (ℕ → UInt8)) (size : UInt16)
    (error : ℤ) : Accounted σ (s.clientSend k pData size error) := by
  obtain ⟨n, hn⟩ := send_frame k s.client pData size error
  unfold Link.clientSend
  simp only [hn]
  refine ⟨h.calls, h.stops, h.live, h.server, h.receiving, h.readsUp.write fun hc => ?_,
    h.readsDown, h.closedUp, h.closedDown, ?_, h.down⟩
  · -- the server has seen the end, so nothing more is taken
    simp [send_closed k (h.closedUp hc)]
  · rw [Channel.write_written, taken_append, taken_singleton, h.up]

theorem Accounted.serverSend (h : Accounted σ s) (hs : s.server.ended = false)
    (pData : Option (ℕ → UInt8)) (size : UInt16) (error : ℤ) :
    Accounted σ (s.serverSend pData size error) := by
  have hfd := h.receiving hs
  refine ⟨h.calls, h.stops, h.live, h.server, h.receiving, h.readsUp,
    h.readsDown.write fun hc => absurd (h.closedDown hc) (by omega), h.closedUp, h.closedDown,
    h.up, ?_⟩
  simp only [Link.serverSend, Channel.write_written, taken_append, taken_singleton, h.down]

theorem Accounted.clientTask (h : Accounted σ s) {a : Take} (ht : s.clientTask k σ a = some t) :
    Accounted σ t := by
  simp only [Link.clientTask, Option.ite_none_right_eq_some, Option.map_eq_some_iff] at ht
  obtain ⟨hl, ⟨c, r⟩, ha, rfl⟩ := ht
  obtain ⟨hrun, hnone⟩ := h.live hl
  have hreads := h.readsDown.answer ha
  have hdown : c.written = taken s.serverSends := by rw [answer_written ha, h.down]
  rw [StreamClient.recvTaskOf_eq]
  by_cases hr : last r = true
  · rw [StreamClient.recvTask_last hrun hr]
    refine ⟨by simp only [StreamClient.callbacks_last hnone hr, ← h.calls],
      StreamClient.dropWhile_snoc hnone r, by simp, h.server, h.receiving, h.readsUp, hreads,
      fun _ => by simp, fun hc => ?_, h.up, hdown⟩
    obtain hmem | hmem := List.mem_append.mp hc
    · exact h.closedDown hmem
    · obtain rfl : .closed = r := List.mem_singleton.mp hmem
      exact of_decide_eq_true (answer_closed ha).2.2
  · obtain ⟨m, rfl⟩ := RecvTask.last_eq_false.mp (by simpa using hr)
    rw [StreamClient.recvTask_data hrun, StreamClient.receive_data]
    have hany : (s.heard ++ [Outcome.data m]).any last = false := by
      simpa [hnone] using hr
    exact ⟨by simp only [StreamClient.callbacks_data hnone, ← h.calls],
      StreamClient.dropWhile_snoc hnone _, fun _ => ⟨hrun, hany⟩, h.server, h.receiving, h.readsUp,
      hreads, h.closedUp, fun hc => absurd hc (not_closed hany), h.up, hdown⟩

theorem Accounted.serverTask (h : Accounted σ s) (hτ : τ.recvFunc = true) {a : Take}
    (ht : s.serverTask k τ a = some t) : Accounted σ t := by
  simp only [Link.serverTask, Option.ite_none_left_eq_some, Bool.not_eq_true,
    Option.map_eq_some_iff] at ht
  obtain ⟨hs, ⟨c, r⟩, ha, rfl⟩ := ht
  have hfd := h.receiving hs
  have hreads := h.readsUp.answer ha
  have hup : c.written = taken s.clientSends := by rw [answer_written ha, h.up]
  have hclosed : .closed ∈ s.asked ++ [r] → s.client.fd < 0 := by
    intro hc
    obtain hmem | hmem := List.mem_append.mp hc
    · exact h.closedUp hmem
    · obtain rfl : .closed = r := List.mem_singleton.mp hmem
      exact of_decide_eq_true (answer_closed ha).2.2
  obtain ⟨hone, hr⟩ | hone := recvTask_one k τ hfd r
  · refine ⟨h.calls, h.stops, h.live, ?_, ?_, hreads, h.readsDown, hclosed, fun _ => ?_, hup,
      h.down⟩
    · simp only [hone, leave_bytes, h.server, List.flatMap_append, List.flatMap_singleton,
        last_bytes hr, List.append_nil]
    · simp [hone, Task.disconnect]
    · simp [hone, Task.disconnect, Task.leave]
  · have hfd' : (s.server.receive τ r).fd = s.server.fd := RecvTask.receive_fd τ r s.server
    refine ⟨h.calls, h.stops, h.live, ?_, ?_, hreads, h.readsDown, hclosed, ?_, hup, h.down⟩
    · simp only [hone, receive_bytes hτ, h.server, List.flatMap_append, List.flatMap_singleton]
    · simpa only [hone, hfd'] using fun _ => hfd
    · simpa only [hone, hfd'] using h.closedDown

theorem Accounted.step (h : Accounted σ s) (hτ : τ.recvFunc = true) {l : Label}
    (ht : s.step k σ τ l = some t) : Accounted σ t := by
  cases l with
  | clientSend pData size error =>
    simp only [Link.step, Option.ite_none_right_eq_some, Option.some.injEq] at ht
    exact ht.2 ▸ h.clientSend pData size error
  | serverSend pData size error =>
    simp only [Link.step, Option.ite_none_right_eq_some, Option.some.injEq] at ht
    exact ht.2 ▸ h.serverSend ht.1.1 pData size error
  | clientTask a => exact h.clientTask ht
  | serverTask a => exact h.serverTask hτ ht
  | clientUninit =>
    simp only [Link.step, Option.some.injEq] at ht
    subst ht
    refine ⟨h.calls, h.stops, fun hl => ?_, h.server, h.receiving, h.readsUp, h.readsDown,
      fun hc => ?_, h.closedDown, h.up, h.down⟩
    · simp only [clientUninit] at hl
      split at hl <;> contradiction
    · have hfd := h.closedUp hc
      simp only [clientUninit]
      split_ifs <;> omega
  | disconnectClient =>
    simp only [Link.step, Option.ite_none_left_eq_some, Bool.not_eq_true, Option.some.injEq] at ht
    obtain ⟨hs, rfl⟩ := ht
    refine ⟨h.calls, h.stops, h.live, h.server, by simp [Task.disconnect], h.readsUp, h.readsDown,
      h.closedUp, fun _ => ?_, h.up, h.down⟩
    rw [disconnect_fd (h.receiving hs)]
    decide

theorem accounted_start {mem bound : Bool} {fd : ℤ} {c c' : Client} {u : Task}
    (hinit : StreamClient.initOf k mem fd bound = some c)
    (hconn : StreamClient.connectOf k c true true = (c', 0)) (hfd : 0 < u.fd)
    (hcalls : u.calls = []) : Accounted σ (start c' u) := by
  have hc : StreamClient.clientInit mem fd bound = some c := by
    cases k with
    | tcpIpv4 | tcpIpv6 | ipcStream => exact hinit
  simp only [StreamClient.clientInit, Option.ite_none_right_eq_some, Option.some.injEq] at hc
  obtain ⟨⟨-, hpos, -⟩, rfl⟩ := hc
  simp only [StreamClient.connectOf_eq, Client.connect, Int.not_lt.mpr hpos, if_false, if_true,
    Prod.mk.injEq] at hconn
  obtain ⟨rfl, -⟩ := hconn
  exact ⟨by simp [start, callbacks], by simp [start], by simp [start], by simp [start, hcalls],
    fun _ => hfd, reads_empty, reads_empty, by simp [start], by simp [start], rfl, rfl⟩

end Operations

/-- What the applications see: each side has got a prefix of what the sends of the other have
taken, and with an orderly end all of it. -/
structure Delivers (s : Link) : Prop where
  up : s.server.calls.flatMap serverBytes <+: taken s.clientSends
  down : s.client.calls.flatMap clientBytes <+: taken s.serverSends
  upWhole : .closed ∈ s.asked → s.server.calls.flatMap serverBytes = taken s.clientSends
  downWhole : .exit 0 ∈ s.client.calls → s.client.calls.flatMap clientBytes = taken s.serverSends

theorem Accounted.delivers {σ : Callbacks} {s : Link} (h : Accounted σ s)
    (hσ : σ.recvFunc = true) : Delivers s where
  up := by
    rw [h.server, h.readsUp.bytes, List.map_id, ← h.up]
    exact s.up.delivered_initial
  down := by
    rw [h.calls, callbacks_bytes hσ h.stops, h.readsDown.bytes, List.map_id, ← h.down]
    exact s.down.delivered_initial
  upWhole hc := by rw [h.server, h.readsUp.whole hc, List.map_id, h.up]
  downWhole hc := by
    have hclosed := closed_of_exit (h.calls ▸ hc)
    rw [h.calls, callbacks_bytes hσ h.stops, h.readsDown.whole hclosed, List.map_id, h.down]

/-- In every state that a connection reaches, the bytes sent arrive in both directions once and in
order, and an orderly end is seen only after all that was sent before it. -/
theorem link_delivers (k : Kind) (exitFunc exitFunc' : Bool) {mem bound : Bool} {fd : ℤ}
    {c c' : Client} {u : Task} {t : Link} {ls : List Label}
    (hinit : StreamClient.initOf k mem fd bound = some c)
    (hconn : StreamClient.connectOf k c true true = (c', 0)) (hfd : 0 < u.fd)
    (hcalls : u.calls = [])
    (hrun : exec (Link.step k ⟨exitFunc, true⟩ ⟨exitFunc', true⟩) (start c' u) ls = some t) :
    Delivers t := by
  have ht : Accounted ⟨exitFunc, true⟩ t :=
    exec_invariant (fun _ _ _ h hs => h.step rfl hs) (accounted_start hinit hconn hfd hcalls) hrun
  exact ht.delivers rfl

def exchange : List Label :=
  [.clientSend (some fun _ => 7) 3 2, .serverTask (.bytes 1), .serverSend (some fun _ => 8) 2 2,
    .serverTask (.bytes 1), .disconnectClient, .clientTask (.bytes 2), .clientTask .closed]

theorem link_delivers_exchange : ∃ t,
    exec (Link.step .tcpIpv4 ⟨true, true⟩ ⟨true, true⟩)
      (start ⟨3, true, true, .live, 1, [], 1⟩ RecvTask.started) exchange = some t ∧
      Delivers t := by
  obtain ⟨t, ht⟩ := Option.isSome_iff_exists.mp (by decide :
    (exec (Link.step .tcpIpv4 ⟨true, true⟩ ⟨true, true⟩)
      (start ⟨3, true, true, .live, 1, [], 1⟩ RecvTask.started) exchange).isSome = true)
  exact ⟨t, ht, @link_delivers .tcpIpv4 true true true true 3 _ _ RecvTask.started _ _ rfl rfl
    (by decide) rfl ht⟩

end LibComm.StreamLink

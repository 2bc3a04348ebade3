import Mathlib.Data.List.TakeWhile
import LibComm.Interleaving
import LibComm.RecvTask
import LibComm.SendCall

/-!
# The life of a stream client handle

The IPv4 TCP, IPv6 TCP and IPC stream clients keep their state in three
places: the descriptor, the flag `running` and the detached receive task. A
label is one call of `ClientConnect` or `ClientSend`, or one iteration of the
receive task, with the answers of the system calls it makes.
-/

namespace LibComm.StreamClient
open ClientTable (Kind)
open Interleaving SendCall
open RecvTask (Outcome Callbacks last)

inductive Callback where
  | recv (data : List UInt8) (size : ℕ)
  | exit (code : ℤ)
  deriving DecidableEq

inductive TaskState where
  | absent
  | live
  | ended
  deriving DecidableEq

/-- The context and the task of a handle. `connected` is the state of the socket; `started`,
`calls` and `sockCalls` record the tasks started, the callbacks made and the `connect` and `send`
calls made. -/
structure Client where
  fd : ℤ
  running : Bool
  connected : Bool
  task : TaskState
  started : ℕ
  calls : List Callback
  sockCalls : ℕ
  deriving DecidableEq

def clientInit (mem : Bool) (fd : ℤ) (bound : Bool) : Option Client :=
  if mem ∧ 0 ≤ fd ∧ bound then some ⟨fd, false, false, .absent, 0, [], 0⟩ else none

namespace Client

def log (s : Client) (given : Bool) (f : Callback) : Client :=
  if given then { s with calls := s.calls ++ [f] } else s

def connect (s : Client) (ok create : Bool) : Client × ℤ :=
  if s.fd < 0 then (s, -1)
  else if ok then
    let t := { s with connected := true, sockCalls := s.sockCalls + 1 }
    if create then ({ t with running := true, task := .live, started := s.started + 1 }, 0)
    else ({ t with running := false }, -1)
  else ({ s with sockCalls := s.sockCalls + 1 }, -1)

def send (s : Client) (pData : Option (ℕ → UInt8)) (size : UInt16) (error : ℤ) : Client × ℤ :=
  let a : Args := ⟨some s.fd, pData, size⟩
  (if a.request.isSome then { s with sockCalls := s.sockCalls + 1 } else s, a.returned error)

def leave (σ : Callbacks) (r : Outcome) (s : Client) : Client :=
  { { s with fd := -1, connected := false }.log σ.exitFunc (.exit r.len) with
    running := false, task := .ended }

def receive (σ : Callbacks) (r : Outcome) (s : Client) : Client :=
  s.log σ.recvFunc (.recv r.bytes (r.len.toNat % 65536))

def recvTask (σ : Callbacks) (r : Outcome) (s : Client) : Client :=
  if s.running then if r.len ≤ 0 then s.leave σ r else s.receive σ r
  else { s with task := .ended }

end Client

def tcpIpv4ClientInit := clientInit
def tcpIpv6ClientInit := clientInit
def ipcStreamClientInit := clientInit

def tcpIpv4ClientConnect := Client.connect
def tcpIpv6ClientConnect := Client.connect
def ipcStreamClientConnect := Client.connect

def tcpIpv4ClientSend := Client.send
def tcpIpv6ClientSend := Client.send
def ipcStreamClientSend := Client.send

def tcpIpv4ClientRecvTask := Client.recvTask
def tcpIpv6ClientRecvTask := Client.recvTask
def ipcStreamClientRecvTask := Client.recvTask

def initOf : Kind → Bool → ℤ → Bool → Option Client
  | .tcpIpv4 => tcpIpv4ClientInit
  | .tcpIpv6 => tcpIpv6ClientInit
  | .ipcStream => ipcStreamClientInit

def connectOf : Kind → Client → Bool → Bool → Client × ℤ
  | .tcpIpv4 => tcpIpv4ClientConnect
  | .tcpIpv6 => tcpIpv6ClientConnect
  | .ipcStream => ipcStreamClientConnect

def sendOf : Kind → Client → Option (ℕ → UInt8) → UInt16 → ℤ → Client × ℤ
  | .tcpIpv4 => tcpIpv4ClientSend
  | .tcpIpv6 => tcpIpv6ClientSend
  | .ipcStream => ipcStreamClientSend

def recvTaskOf : Kind → Callbacks → Outcome → Client → Client
  | .tcpIpv4 => tcpIpv4ClientRecvTask
  | .tcpIpv6 => tcpIpv6ClientRecvTask
  | .ipcStream => ipcStreamClientRecvTask

inductive Label where
  | connect (ok create : Bool)
  | send (pData : Option (ℕ → UInt8)) (size : UInt16) (error : ℤ)
  | task (r : Outcome)

/-- A socket that is connected cannot be connected again. -/
def step (k : Kind) (σ : Callbacks) (s : Client) : Label → Option Client
  | .connect ok create =>
    if ok = true ∧ s.connected = true then none else some (connectOf k s ok create).1
  | .send pData size error => some (sendOf k s pData size error).1
  | .task r => if s.task = .live then some (recvTaskOf k σ r s) else none

/-- The callbacks for a sequence of answers: the chunks before the first that is not positive, and
the exit with that one. -/
def callbacks (σ : Callbacks) (rs : List Outcome) : List Callback :=
  (if σ.recvFunc then (rs.takeWhile fun r => !last r).map fun r => .recv r.bytes r.bytes.length
    else []) ++
  if σ.exitFunc then ((rs.find? last).map fun r => .exit r.len).toList else []

/-- What `recv` has answered to the task in a run. -/
def answers (ls : List Label) : List Outcome :=
  ls.filterMap fun l =>
    match l with
    | .task r => some r
    | _ => none

@[simp] theorem answers_append (ls ls' : List Label) :
    answers (ls ++ ls') = answers ls ++ answers ls' := List.filterMap_append

@[simp] theorem answers_connect (ok create : Bool) : answers [.connect ok create] = [] := rfl

@[simp] theorem answers_send (pData : Option (ℕ → UInt8)) (size : UInt16) (error : ℤ) :
    answers [.send pData size error] = [] := rfl

@[simp] theorem answers_task (r : Outcome) : answers [.task r] = [r] := rfl

/-- What a handle guarantees in the state `s` that a run `ls` has led it to. -/
structure Lives (k : Kind) (σ : Callbacks) (ls : List Label) (s : Client) : Prop where
  once : s.started ≤ 1
  running : s.running = true ↔ s.task = .live
  calls : s.calls = callbacks σ (answers ls)
  stops : ((answers ls).dropWhile fun r => !last r).length ≤ 1
  begins : s.task = .absent → connectOf k s true true =
    ({ s with
        running := true, connected := true, task := .live
        started := s.started + 1, sockCalls := s.sockCalls + 1 }, 0)
  chunk : s.task = .live → ∀ m, recvTaskOf k σ (.data m) s =
    { s with calls := s.calls ++ if σ.recvFunc then [.recv m.bytes m.bytes.length] else [] }
  exit : s.task = .live → ∀ r, last r = true → recvTaskOf k σ r s =
    { s with
      fd := -1, running := false, connected := false, task := .ended
      calls := s.calls ++ if σ.exitFunc then [.exit r.len] else [] }
  connect : (answers ls).any last = true → ∀ ok create, connectOf k s ok create = (s, -1)
  send : (answers ls).any last = true →
    ∀ pData size error, sendOf k s pData size error = (s, -1)

structure Steady (σ : Callbacks) (rs : List Outcome) (s : Client) : Prop where
  running : s.running = true ↔ s.task = .live
  calls : s.calls = callbacks σ rs
  stops : (rs.dropWhile fun r => !last r).length ≤ 1
  absent : s.task = .absent → s.started = 0 ∧ 0 ≤ s.fd ∧ rs = []
  live : s.task = .live → s.started = 1 ∧ s.connected = true ∧ rs.any last = false
  ended : s.task = .ended → s.started = 1 ∧ s.fd < 0

theorem connectOf_eq (k : Kind) : connectOf k = Client.connect := by
  cases k <;> rfl

theorem sendOf_eq (k : Kind) : sendOf k = Client.send := by
  cases k <;> rfl

theorem recvTaskOf_eq (k : Kind) : recvTaskOf k = Client.recvTask := by
  cases k <;> rfl

theorem callbacks_chunks {σ : Callbacks} {rs : List Outcome} (h : rs.any last = false) :
    callbacks σ rs =
      if σ.recvFunc then rs.map fun r => .recv r.bytes r.bytes.length else [] := by
  have hall : ∀ r ∈ rs, last r = false := by simpa using h
  have htake : (rs.takeWhile fun r => !last r) = rs :=
    List.takeWhile_eq_self_iff.mpr fun r hr => by simp [hall r hr]
  have hfind : rs.find? last = none := List.find?_eq_none.mpr fun r hr => by simp [hall r hr]
  simp [callbacks, htake, hfind]

theorem callbacks_data {σ : Callbacks} {rs : List Outcome} (h : rs.any last = false)
    (m : RecvTask.Chunk) :
    callbacks σ (rs ++ [.data m]) =
      callbacks σ rs ++ if σ.recvFunc then [.recv m.bytes m.bytes.length] else [] := by
  have hm : last (.data m) = false := RecvTask.last_eq_false.mpr ⟨m, rfl⟩
  rw [callbacks_chunks h, callbacks_chunks (by simp [h, hm])]
  split_ifs <;> simp [Outcome.bytes]

theorem callbacks_last {σ : Callbacks} {rs : List Outcome} (h : rs.any last = false)
    {r : Outcome} (hr : last r = true) :
    callbacks σ (rs ++ [r]) =
      callbacks σ rs ++ if σ.exitFunc then [.exit r.len] else [] := by
  have hall : ∀ x ∈ rs, (!last x) = true := by simpa using h
  have hfind : rs.find? last = none := List.find?_eq_none.mpr fun x hx => by simpa using hall x hx
  rw [callbacks_chunks h]
  simp only [callbacks, List.takeWhile_append_of_pos hall, List.find?_append, hfind,
    List.takeWhile_cons, hr, List.find?_cons]
  simp

theorem dropWhile_snoc {rs : List Outcome} (h : rs.any last = false) (r : Outcome) :
    ((rs ++ [r]).dropWhile fun r => !last r).length ≤ 1 := by
  have hall : ∀ x ∈ rs, (!last x) = true := by simpa using h
  rw [List.dropWhile_append_of_pos hall]
  exact (List.dropWhile_suffix _).length_le

theorem steady_init {σ : Callbacks} {mem bound : Bool} {fd : ℤ} {s : Client}
    (h : clientInit mem fd bound = some s) : Steady σ [] s := by
  simp only [clientInit, Option.ite_none_right_eq_some, Option.some.injEq] at h
  obtain ⟨⟨-, hfd, -⟩, rfl⟩ := h
  exact ⟨by simp, by simp [callbacks], by simp, by simp [hfd], by simp, by simp⟩

section Steps
variable {σ : Callbacks} {rs : List Outcome} {s : Client}

theorem Steady.connect (h : Steady σ rs s) {ok create : Bool}
    (hc : ¬ (ok = true ∧ s.connected = true)) : Steady σ rs (s.connect ok create).1 := by
  unfold Client.connect
  by_cases hfd : s.fd < 0
  · rw [if_pos hfd]
    exact h
  rw [if_neg hfd]
  cases ok with
  | false => exact { h with }
  | true =>
    -- a connection succeeds only before a task has been started
    have habs : s.task = .absent := by
      cases ht : s.task with
      | absent => rfl
      | live => exact absurd ⟨rfl, (h.live ht).2.1⟩ hc
      | ended => exact absurd (h.ended ht).2 hfd
    obtain ⟨hstart, -, hans⟩ := h.absent habs
    cases create with
    | false => exact { h with running := by simp [habs], live := by simp [habs] }
    | true =>
      exact ⟨by simp, h.calls, h.stops, by simp, fun _ => ⟨by simp [hstart], rfl, by simp [hans]⟩,
        by simp⟩

theorem Steady.send (h : Steady σ rs s) (pData : Option (ℕ → UInt8)) (size : UInt16)
    (error : ℤ) : Steady σ rs (s.send pData size error).1 := by
  unfold Client.send
  dsimp only
  split
  · exact { h with }
  · exact h

theorem recvTask_data (h : s.running = true) (m : RecvTask.Chunk) :
    s.recvTask σ (.data m) = s.receive σ (.data m) := by
  have hlen : ¬ (Outcome.data m).len ≤ 0 := by
    simpa [Outcome.len] using List.ne_nil_of_length_pos m.pos
  rw [Client.recvTask, if_pos h, if_neg hlen]

theorem receive_data (σ : Callbacks) (s : Client) (m : RecvTask.Chunk) :
    s.receive σ (.data m) =
      { s with calls := s.calls ++ if σ.recvFunc then [.recv m.bytes m.bytes.length] else [] } := by
  have hle : m.bytes.length ≤ 8191 := m.le
  have hm : m.bytes.length % 65536 = m.bytes.length := Nat.mod_eq_of_lt (by omega)
  unfold Client.receive Client.log
  split_ifs <;> simp [Outcome.bytes, Outcome.len, hm]

theorem recvTask_last (h : s.running = true) {r : Outcome} (hr : last r = true) :
    s.recvTask σ r =
      { s with
        fd := -1, running := false, connected := false, task := .ended
        calls := s.calls ++ if σ.exitFunc then [.exit r.len] else [] } := by
  have hlen : r.len ≤ 0 := by simpa [last] using hr
  rw [Client.recvTask, if_pos h, if_pos hlen]
  unfold Client.leave Client.log
  split_ifs <;> simp

theorem Steady.recvTask (h : Steady σ rs s) (hl : s.task = .live) (r : Outcome) :
    Steady σ (rs ++ [r]) (s.recvTask σ r) := by
  obtain ⟨hstart, hconn, hnone⟩ := h.live hl
  have hrun := h.running.mpr hl
  by_cases hr : last r = true
  · rw [recvTask_last hrun hr]
    exact ⟨by simp, by simp only [callbacks_last hnone hr, ← h.calls], dropWhile_snoc hnone r,
      by simp, by simp, fun _ => ⟨hstart, by simp⟩⟩
  · obtain ⟨m, rfl⟩ := RecvTask.last_eq_false.mp (by simpa using hr)
    rw [recvTask_data hrun, receive_data]
    exact ⟨h.running, by simp only [callbacks_data hnone, ← h.calls], dropWhile_snoc hnone _,
      by simp [hl], fun _ => ⟨hstart, hconn, by simpa [hnone] using hr⟩, by simp [hl]⟩

theorem Steady.step {k : Kind} {t : Client} {l : Label} (h : Steady σ rs s)
    (ht : step k σ s l = some t) : Steady σ (rs ++ answers [l]) t := by
  cases l with
  | connect ok create =>
    simp only [StreamClient.step, connectOf_eq, Option.ite_none_left_eq_some,
      Option.some.injEq] at ht
    obtain ⟨hc, rfl⟩ := ht
    simpa using h.connect hc
  | send pData size error =>
    simp only [StreamClient.step, sendOf_eq, Option.some.injEq] at ht
    simpa [← ht] using h.send pData size error
  | task r =>
    simp only [StreamClient.step, recvTaskOf_eq, Option.ite_none_right_eq_some,
      Option.some.injEq] at ht
    obtain ⟨hl, rfl⟩ := ht
    simpa using h.recvTask hl r

theorem Steady.run {k : Kind} {t : Client} {ls : List Label} (h : Steady σ rs s)
    (ht : exec (StreamClient.step k σ) s ls = some t) : Steady σ (rs ++ answers ls) t := by
  induction ls generalizing s rs with
  | nil =>
    obtain rfl := Option.some.inj ht
    simpa [answers] using h
  | cons l ls ih =>
    obtain ⟨u, hu, ht⟩ := exec_cons.mp ht
    have hrest := ih (h.step hu) ht
    rwa [List.append_assoc, ← answers_append] at hrest

theorem Steady.closed (h : Steady σ rs s) (ha : rs.any last = true) : s.fd < 0 := by
  cases ht : s.task with
  | absent => simp [(h.absent ht).2] at ha
  | live => simp [(h.live ht).2.2] at ha
  | ended => exact (h.ended ht).2

theorem Steady.lives {k : Kind} {ls : List Label} (h : Steady σ (answers ls) s) :
    Lives k σ ls s where
  once := by
    cases ht : s.task with
    | absent => simp [h.absent ht]
    | live => simp [h.live ht]
    | ended => simp [h.ended ht]
  running := h.running
  calls := h.calls
  stops := h.stops
  begins ht := by
    simp [connectOf_eq, Client.connect, not_lt.mpr (h.absent ht).2.1]
  chunk ht m := by
    rw [recvTaskOf_eq, recvTask_data (h.running.mpr ht), receive_data]
  exit ht r hr := by
    rw [recvTaskOf_eq, recvTask_last (h.running.mpr ht) hr]
  connect ha ok create := by
    simp [connectOf_eq, Client.connect, h.closed ha]
  send ha pData size error := by
    simp [sendOf_eq, Client.send, Args.returned, Args.request, h.closed ha]

end Steps

/-- In every state that a handle reaches at most one task has been started, the flag tells whether
it lives, its callbacks are the chunks and one exit, and after the exit the calls fail. -/
theorem client_lives (k : Kind) (σ : Callbacks) {mem bound : Bool} {fd : ℤ} {s t : Client}
    {ls : List Label} (hinit : initOf k mem fd bound = some s)
    (hrun : exec (step k σ) s ls = some t) : Lives k σ ls t := by
  have hs : Steady σ [] s := by
    cases k with
    | tcpIpv4 | tcpIpv6 | ipcStream => exact steady_init hinit
  exact (hs.run hrun).lives

def closing : List Label :=
  [.connect false true, .connect true true, .task (.data ⟨[9], by decide, by decide⟩),
    .send none 1 1, .task .closed, .connect true true]

theorem client_lives_closed :
    Lives .tcpIpv4 ⟨true, true⟩ closing
      ⟨-1, false, false, .ended, 1, [.recv [9] 1, .exit 0], 2⟩ :=
  @client_lives .tcpIpv4 ⟨true, true⟩ true true 3 _ _ closing rfl rfl

end LibComm.StreamClient

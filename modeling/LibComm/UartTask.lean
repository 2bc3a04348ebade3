import LibComm.ByteMemory
import LibComm.RecvTask
import LibComm.RecvTeardown
import LibComm.UartConfig

/-!
# The receive task of a UART

The loop of `uartRecvTask` goes on after a read that fails with `EAGAIN`, and
after one without bytes unless the wait time is negative when it looks at it;
any other error ends it. Another thread may configure the UART between any two
of its steps.
-/

namespace LibComm.UartTask
open Interleaving ByteMemory
open RecvTask (commBufSize Chunk)
open UartConfig (Args Answers Context uartConfigDev)

inductive Outcome where
  | data (m : Chunk)
  | empty
  | eagain
  | error
  deriving DecidableEq

def Outcome.len : Outcome → ℤ
  | .data m => m.bytes.length
  | .empty => 0
  | .eagain | .error => -1

def Outcome.again : Outcome → Bool
  | .eagain => true
  | _ => false

def Outcome.bytes : Outcome → List UInt8
  | .data m => m.bytes
  | _ => []

structure Callback where
  pData : ℕ → UInt8
  size : UInt16

inductive Pc where
  | loop
  | read
  | received (r : Outcome)
  | ended
  deriving DecidableEq

def Pc.pending : Pc → Option Outcome
  | .received r => some r
  | _ => none

structure State where
  context : Context
  running : Bool
  recvFunc : Bool
  recvMsg : ℕ → UInt8
  pc : Pc
  calls : List Callback

/-- A step of the task, an answer of its `read`, or a call of `uart_configDev`, of which the task
sees the wait time alone. -/
inductive Label where
  | task
  | reads (r : Outcome)
  | config (a : Args) (t : Answers)

def recvMsgSize : ℕ := commBufSize + 1

namespace State

def goto (s : State) (pc : Pc) : State := { s with pc }

def deliver (r : Outcome) (s : State) : State :=
  let recvMsg := store s.recvMsg r.len.toNat [0]
  { s with
    recvMsg
    calls := if s.recvFunc then s.calls ++ [⟨recvMsg, UInt16.ofInt r.len⟩] else s.calls }

def received (r : Outcome) (s : State) : State :=
  if r.len < 0 then
    if r.again then s else { s with running := false }
  else if r.len = 0 then
    if s.context.waitTime < 0 then { s with running := false } else s
  else s.deliver r

end State

def uartRecvTask (s : State) : Option State :=
  match s.pc with
  | .loop => some (if s.running then s.goto .read else { s with running := false }.goto .ended)
  | .read => none
  | .received r => some ((s.received r).goto .loop)
  | .ended => none

def configured (c : Context) (a : Args) (t : Answers) : Context :=
  (uartConfigDev (some c) a t).context.getD c

def step (s : State) : Label → Option State
  | .task => uartRecvTask s
  | .reads r =>
    if s.pc = .read then some ({ s with recvMsg := store s.recvMsg 0 r.bytes }.goto (.received r))
    else none
  | .config a t => some { s with context := configured s.context a t }

def opened (fd : ℤ) : State := ⟨⟨fd, 0, 0, 0⟩, true, true, fun _ => 0, .loop, []⟩

/-- The answers that the task looks at in a schedule, each with the wait time that it finds then. -/
def examined : Context → Option Outcome → List Label → List (Outcome × ℤ)
  | _, _, [] => []
  | c, some r, .task :: ls => (r, c.waitTime) :: examined c none ls
  | c, none, .task :: ls => examined c none ls
  | c, _, .reads r :: ls => examined c (some r) ls
  | c, p, .config a t :: ls => examined (configured c a t) p ls

def reads (ls : List Label) : List Outcome :=
  ls.filterMap fun l => match l with
    | .reads r => some r
    | _ => none

def Terminal (e : Outcome × ℤ) : Prop := e.1 = .error ∨ e.1 = .empty ∧ e.2 < 0

instance (e : Outcome × ℤ) : Decidable (Terminal e) := inferInstanceAs (Decidable (_ ∨ _))

def chunk (e : Outcome × ℤ) : Option Chunk :=
  match e.1 with
  | .data m => some m
  | _ => none

structure Shows (m : Chunk) (c : Callback) : Prop where
  bytes : Holds c.pData 0 (m.bytes ++ [0])
  size : c.size.toNat = m.bytes.length
  room : m.bytes.length < recvMsgSize

structure Delivers (es : List (Outcome × ℤ)) (s : State) : Prop where
  calls : List.Forall₂ Shows (es.filterMap chunk) s.calls
  running : s.running = false ↔ ∃ e ∈ es, Terminal e
  last : ∀ e ∈ es.dropLast, ¬ Terminal e
  recvFunc : s.recvFunc = true
  stopped : s.running = false → s.pc = .loop ∨ s.pc = .ended
  ended : s.pc = .ended → s.running = false
  buffer : ∀ r, s.pc = .received r → Holds s.recvMsg 0 r.bytes

def looked (s : State) : Label → List (Outcome × ℤ)
  | .task => s.pc.pending.toList.map fun r => (r, s.context.waitTime)
  | _ => []

variable {s t : State} {l : Label} {es : List (Outcome × ℤ)}

theorem Delivers.goes (h : Delivers es s) (hnone : ∀ e ∈ es, ¬ Terminal e) : s.running = true := by
  rw [← Bool.not_eq_false]
  intro hs
  obtain ⟨e, he, hterm⟩ := h.running.mp hs
  exact hnone e he hterm

theorem not_terminal (h : Delivers es s) {r : Outcome} (hpc : s.pc = .received r) :
    ∀ e ∈ es, ¬ Terminal e := by
  intro e he hterm
  have hs := h.stopped (h.running.mpr ⟨e, he, hterm⟩)
  simp [hpc] at hs

theorem shows_deliver {m : Chunk} {msg : ℕ → UInt8} (h : Holds msg 0 m.bytes) :
    Shows m ⟨store msg m.bytes.length [0], UInt16.ofInt m.bytes.length⟩ where
  bytes := h.store_append [0]
  size := by
    have hle := m.le
    simp only [commBufSize] at hle
    rw [UInt16.ofInt, UInt16.toNat_ofNat']
    omega
  room := Nat.lt_succ_of_le m.le

theorem received_eq (r : Outcome) (s : State) :
    s.received r =
      match chunk (r, s.context.waitTime) with
      | some m => s.deliver (.data m)
      | none => { s with running := s.running && !decide (Terminal (r, s.context.waitTime)) } := by
  cases r with
  | data m =>
    have hpos := m.pos
    have hlen : ¬ (Outcome.data m).len < 0 := by simp only [Outcome.len]; omega
    have hne : ¬ (Outcome.data m).len = 0 := by simp only [Outcome.len]; omega
    simp only [State.received, if_neg hlen, if_neg hne, chunk]
  | empty =>
    by_cases hw : s.context.waitTime < 0 <;>
      simp [State.received, Outcome.len, chunk, Terminal, hw]
  | eagain => simp [State.received, Outcome.len, Outcome.again, chunk, Terminal]
  | error => simp [State.received, Outcome.len, Outcome.again, chunk, Terminal]

theorem received_branch (r : Outcome) (s : State) :
    s.received r =
      match (RecvTeardown.Loop.uart s.context.waitTime).received r.len r.again with
      | .lost => { s with running := false }
      | .dump => s.deliver r
      | _ => s := by
  simp only [State.received, RecvTeardown.Loop.received]
  split_ifs <;> rfl

theorem received_running (r : Outcome) (s : State) :
    (s.received r).running = (s.running && !decide (Terminal (r, s.context.waitTime))) := by
  rw [received_eq]
  cases r <;> simp [chunk, State.deliver, Terminal]

theorem received_frame (r : Outcome) (s : State) :
    (s.received r).context = s.context ∧ (s.received r).recvFunc = s.recvFunc := by
  rw [received_eq]
  cases r <;> simp [chunk, State.deliver]

theorem received_calls (h : Delivers es s) {r : Outcome} (hpc : s.pc = .received r) :
    List.Forall₂ Shows ((es ++ [(r, s.context.waitTime)]).filterMap chunk)
      (s.received r).calls := by
  rw [List.filterMap_append, received_eq]
  cases r with
  | data m =>
    have hshow := shows_deliver (h.buffer _ hpc)
    simp only [State.deliver, h.recvFunc, if_true]
    exact List.rel_append h.calls (.cons hshow .nil)
  | empty | eagain | error => exact (List.append_nil _).symm ▸ h.calls

theorem Delivers.look (h : Delivers es s) {r : Outcome} (hpc : s.pc = .received r) :
    Delivers (es ++ [(r, s.context.waitTime)]) ((s.received r).goto .loop) := by
  have hnot := not_terminal h hpc
  have hrun := h.goes hnot
  refine ⟨received_calls h hpc, ?_, ?_, ?_, fun _ => .inl rfl, ?_, ?_⟩
  · simp only [State.goto, received_running, hrun, Bool.true_and, Bool.not_eq_false',
      decide_eq_true_eq, List.mem_append, List.mem_singleton]
    constructor
    · intro hterm
      exact ⟨_, .inr rfl, hterm⟩
    · intro hx
      obtain ⟨e, he | rfl, hterm⟩ := hx
      · exact absurd hterm (hnot e he)
      · exact hterm
  · simpa using hnot
  · exact (received_frame r s).2.trans h.recvFunc
  · intro hend
    cases hend
  · intro r' hend
    cases hend

theorem step_cases (ht : step s l = some t) :
    (l = .task ∧ s.pc = .loop ∧ t = s.goto (if s.running then .read else .ended)) ∨
    (∃ r, l = .task ∧ s.pc = .received r ∧ t = (s.received r).goto .loop) ∨
    (∃ r, l = .reads r ∧ s.pc = .read ∧
      t = { s with recvMsg := store s.recvMsg 0 r.bytes }.goto (.received r)) ∨
    ∃ a v, l = .config a v ∧ t = { s with context := configured s.context a v } := by
  cases l with
  | task =>
    cases hpc : s.pc with
    | loop =>
      cases hrun : s.running <;>
        exact .inl ⟨rfl, rfl, by simpa [step, uartRecvTask, State.goto, hpc, hrun] using ht.symm⟩
    | read => simp [step, uartRecvTask, hpc] at ht
    | received r =>
      exact .inr (.inl ⟨r, rfl, rfl, by simpa [step, uartRecvTask, hpc] using ht.symm⟩)
    | ended => simp [step, uartRecvTask, hpc] at ht
  | reads r =>
    simp only [step, Option.ite_none_right_eq_some, Option.some.injEq] at ht
    exact .inr (.inr (.inl ⟨r, rfl, ht.1, ht.2.symm⟩))
  | config a v => exact .inr (.inr (.inr ⟨a, v, rfl, (Option.some.inj ht).symm⟩))

theorem Delivers.step (h : Delivers es s) (ht : step s l = some t) :
    Delivers (es ++ looked s l) t := by
  obtain ⟨rfl, hpc, rfl⟩ | ⟨r, rfl, hpc, rfl⟩ | ⟨r, rfl, hpc, rfl⟩ | ⟨a, v, rfl, rfl⟩ :=
    step_cases ht
  · simp only [looked, hpc, Pc.pending, Option.toList_none, List.map_nil, List.append_nil]
    refine ⟨h.calls, h.running, h.last, h.recvFunc, fun hs => ?_, fun hend => ?_, fun r hr => ?_⟩
    · have hrun : s.running = false := hs
      simp [State.goto, hrun]
    · by_contra hs
      have hrun : s.running = true := by simpa [State.goto] using hs
      simp [State.goto, hrun] at hend
    · cases hrun : s.running <;> simp [State.goto, hrun] at hr
  · simpa [looked, hpc, Pc.pending] using h.look hpc
  · simp only [looked, List.append_nil]
    refine ⟨h.calls, h.running, h.last, h.recvFunc, fun hs => ?_, fun hend => ?_, fun r' hr => ?_⟩
    · have hstop := h.stopped hs
      simp [hpc] at hstop
    · simp [State.goto] at hend
    · obtain rfl : r = r' := by simpa [State.goto] using hr
      exact holds_store s.recvMsg 0 r.bytes
  · simp only [looked, List.append_nil]
    exact ⟨h.calls, h.running, h.last, h.recvFunc, h.stopped, h.ended, h.buffer⟩

theorem examined_cons (ht : UartTask.step s l = some t) (ls : List Label) :
    examined s.context s.pc.pending (l :: ls) =
      looked s l ++ examined t.context t.pc.pending ls := by
  obtain ⟨rfl, hpc, rfl⟩ | ⟨r, rfl, hpc, rfl⟩ | ⟨r, rfl, hpc, rfl⟩ | ⟨a, v, rfl, rfl⟩ :=
    step_cases ht
  · cases hrun : s.running <;> simp [looked, hpc, hrun, examined, Pc.pending, State.goto]
  · simp [looked, hpc, examined, Pc.pending, State.goto, (received_frame r s).1]
  · simp [looked, examined, Pc.pending, State.goto]
  · simp [looked, examined]

theorem reads_cons (ht : UartTask.step s l = some t) (ls : List Label) :
    s.pc.pending.toList ++ reads (l :: ls) =
      (looked s l).map Prod.fst ++ (t.pc.pending.toList ++ reads ls) := by
  obtain ⟨rfl, hpc, rfl⟩ | ⟨r, rfl, hpc, rfl⟩ | ⟨r, rfl, hpc, rfl⟩ | ⟨a, v, rfl, rfl⟩ :=
    step_cases ht
  · cases hrun : s.running <;> simp [looked, hpc, hrun, reads, Pc.pending, State.goto]
  · simp [looked, hpc, reads, Pc.pending, State.goto]
  · simp [looked, hpc, reads, Pc.pending, State.goto]
  · simp [looked, reads]

theorem Delivers.exec {u : State} {ls : List Label} (h : Delivers es s)
    (hu : Interleaving.exec UartTask.step s ls = some u) :
    Delivers (es ++ examined s.context s.pc.pending ls) u ∧
      s.pc.pending.toList ++ reads ls =
        (examined s.context s.pc.pending ls).map Prod.fst ++ u.pc.pending.toList := by
  induction ls generalizing s es with
  | nil =>
    obtain rfl := Option.some.inj hu
    simpa [examined, reads] using h
  | cons l ls ih =>
    obtain ⟨t, ht, hr⟩ := exec_cons.mp hu
    obtain ⟨hd, hreads⟩ := ih (h.step ht) hr
    rw [examined_cons ht, reads_cons ht, hreads, List.map_append]
    exact ⟨by simpa only [List.append_assoc] using hd, by simp only [List.append_assoc]⟩

/-- A run of the task: every answer is looked at once and in order, the callback gets the non-empty
ones, and the task ends at the first that is terminal and not before. -/
structure Lives (fd : ℤ) (ls : List Label) (u : State) : Prop where
  reads : reads ls =
    (examined (opened fd).context none ls).map Prod.fst ++ u.pc.pending.toList
  calls : List.Forall₂ Shows ((examined (opened fd).context none ls).filterMap chunk) u.calls
  first : ∀ e ∈ (examined (opened fd).context none ls).dropLast, ¬ Terminal e
  ends : (∃ e ∈ examined (opened fd).context none ls, Terminal e) →
    u.pc = .ended ∨ uartRecvTask u = some (u.goto .ended)
  goes : (∀ e ∈ examined (opened fd).context none ls, ¬ Terminal e) →
    u.running = true ∧ u.pc ≠ .ended

theorem delivers_opened (fd : ℤ) : Delivers [] (opened fd) where
  calls := .nil
  running := by simp [opened]
  last := by simp
  recvFunc := rfl
  stopped := by simp [opened]
  ended := by simp [opened]
  buffer := by simp [opened]

theorem line_delivered (fd : ℤ) {ls : List Label} {u : State}
    (h : exec step (opened fd) ls = some u) : Lives fd ls u := by
  obtain ⟨hd, hreads⟩ := (delivers_opened fd).exec h
  refine ⟨hreads, hd.calls, hd.last, fun hterm => ?_, fun hnone => ?_⟩
  · have hrun := hd.running.mpr hterm
    rcases hd.stopped hrun with hpc | hpc
    · simp [uartRecvTask, hpc, hrun, State.goto]
    · exact .inl hpc
  · have hrun := hd.goes hnone
    refine ⟨hrun, fun hend => ?_⟩
    rw [hd.ended hend] at hrun
    cases hrun

def lost : List Label :=
  [.task, .reads (.data ⟨[7], by decide, by decide⟩), .task, .task,
    .config ⟨9600, 0, -1⟩ ⟨some ⟨0, 0, 0, 0, fun _ => 0⟩, true⟩, .reads .empty, .task, .task]

theorem line_delivered_lost : Lives 3 lost ((exec step (opened 3) lost).get rfl) ∧
    ((exec step (opened 3) lost).get rfl).pc = .ended :=
  ⟨line_delivered 3 (Option.some_get _).symm, rfl⟩

end LibComm.UartTask

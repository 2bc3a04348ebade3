import LibComm.ClosingTask
import LibComm.StreamEnd

/-!
# Several writers and the reader of one FIFO

Every write handle of the FIFO belongs to one caller, and the read handle has
its task and its uninit call, statement by statement. A put is a `write` that
the pipe takes piece by piece, except that at most `pipeBuf` bytes are taken in
one piece, and that may end early: the reader may be gone, or a signal may
arrive. `read` returns 0 once the pipe is empty and no descriptor for writing
is left; a writer may still come between that and the reader's `close`.
-/

namespace LibComm.FifoStream
open ByteStream Interleaving SendCall StreamEnd
open ClosingTask (ClosesApart Closes)
open RecvTask (Outcome Callbacks Chunk last)
open RecvTeardown (TaskPc)
open StreamClient (Callback callbacks)

variable {ι : Type*}

abbrev pipeBuf : ℕ := 4096

structure Handle where
  fd : ℤ
  make : Bool

structure Put where
  data : List UInt8
  sent : ℕ

/-- A caller with its handle, and the puts that have returned with their results; `unlinks` is
between `close` and `unlink` of its uninit call. -/
structure Writer where
  handle : Option Handle
  unlinks : Bool
  put : Option Put
  done : List (List UInt8 × ℤ)

/-- The read handle with its threads; `message` is what `read` has returned as long as no callback
has been made for it. -/
structure Reader where
  make : Bool
  thread : RecvTeardown.State
  message : Option Outcome
  calls : List Callback

/-- The pipe, whether its name is still there, whether a descriptor for writing has been left
open by an uninit, the two sides, and what `read` has answered so far. -/
structure Fifo (ι : Type*) where
  pipe : Channel (ι × UInt8)
  linked : Bool
  leaked : Bool
  writer : ι → Writer
  reader : Reader
  heard : List Outcome

/-- The statements of `_fifoGetTask` and `comm_fifoReadUninit`. -/
def threads (σ : Callbacks) : RecvTeardown.Handle :=
  ClosingTask.Kind.fifoRead.handle σ.recvFunc σ.exitFunc

/-- `_openFifoRead` and `_openFifoWrite`, given what `access`, `mkfifo` and `open` answer. -/
def openFifo (make : Bool) (access mkfifo fd : ℤ) : Option ℤ :=
  if make ∧ access ≠ 0 ∧ mkfifo < 0 then none else if fd < 0 then none else some fd

def fifoReadInit (σ : Callbacks) (mem make : Bool) (access mkfifo fd : ℤ) (create : Bool) :
    Option Reader :=
  if mem then
    match openFifo make access mkfifo fd with
    | none => none
    | some fd => if create then some ⟨make, RecvTeardown.start (threads σ) fd, none, []⟩ else none
  else none

def fifoWriteInit (mem make : Bool) (access mkfifo fd : ℤ) : Option Handle :=
  if mem then (openFifo make access mkfifo fd).map fun fd => ⟨fd, make⟩ else none

namespace Reader

def log (s : Reader) (given : Bool) (f : Callback) : Reader :=
  { s with message := none, calls := s.calls ++ if given then [f] else [] }

def notify (σ : Callbacks) (s : Reader) : Reader :=
  match s.thread.task, s.message with
  | .dispatch, some r => s.log σ.recvFunc (.recv r.bytes (r.len.toNat % 65536))
  | .exitFunc, some r => s.log σ.exitFunc (.exit r.len)
  | _, _ => s

def step (σ : Callbacks) (s : Reader) (l : RecvTeardown.Label) : Option Reader :=
  (RecvTeardown.step (threads σ) s.thread l).map fun t =>
    { (if l = .task then s.notify σ else s) with thread := t }

end Reader

inductive Label (ι : Type*) where
  | writeInit (i : ι) (mem make : Bool) (access mkfifo fd : ℤ)
  | put (i : ι) (pData : Option (ℕ → UInt8)) (size : UInt16)
  | write (i : ι) (n : ℕ)
  | returned (i : ι)
  | closeWrite (i : ι)
  | unlinkWrite (i : ι)
  | read (a : Take)
  | task
  | cancelled
  | readUninit
  | setDumpFlag (flag : Bool)

namespace Fifo
variable [DecidableEq ι]

def setWriter (s : Fifo ι) (i : ι) (w : Writer) : Fifo ι :=
  { s with writer := Function.update s.writer i w }

def gone [Fintype ι] (s : Fifo ι) : Bool :=
  !s.leaked && decide (∀ i, (s.writer i).handle.isNone = true)

def readable (s : Fifo ι) : Bool := s.reader.thread.closes == 0

/-- `comm_fifoWriteInit`. The `open` of the name returns only when the pipe has a reader. -/
def writeInit (s : Fifo ι) (i : ι) (h : Option Handle) : Option (Fifo ι) :=
  if (s.writer i).handle.isSome ∨ (s.writer i).unlinks then none
  else match h with
    | none => some s
    | some h =>
      if s.linked ∧ s.readable then some (s.setWriter i { s.writer i with handle := some h })
      else none

def fifoWritePut (s : Fifo ι) (i : ι) (pData : Option (ℕ → UInt8)) (size : UInt16) :
    Option (Fifo ι) :=
  let w := s.writer i
  let a : Args := ⟨w.handle.map Handle.fd, pData, size⟩
  if w.put.isSome then none
  else match a.request with
    | none => some (s.setWriter i { w with done := w.done ++ [(a.data, -1)] })
    | some bs => some (s.setWriter i { w with put := some ⟨bs, 0⟩ })

def write (s : Fifo ι) (i : ι) (n : ℕ) : Option (Fifo ι) :=
  match (s.writer i).put with
  | none => none
  | some p =>
    if 0 < n ∧ p.sent + n ≤ p.data.length ∧ (p.data.length ≤ pipeBuf → n = p.data.length) ∧
        s.readable then
      some { s.setWriter i { s.writer i with put := some { p with sent := p.sent + n } } with
        pipe := s.pipe.write (((p.data.drop p.sent).take n).map fun b => (i, b)) }
    else none

/-- The `write` of a put returns what the pipe has taken, or -1. -/
def returned (s : Fifo ι) (i : ι) : Option (Fifo ι) :=
  match (s.writer i).put with
  | none => none
  | some p =>
    some (s.setWriter i { s.writer i with
      put := none
      done := (s.writer i).done ++ [(p.data, if 0 < p.sent then (p.sent : ℤ) else -1)] })

/-- `comm_fifoWriteUninit` up to its `unlink`; it does not close a descriptor 0. -/
def closeWrite (s : Fifo ι) (i : ι) : Option (Fifo ι) :=
  if (s.writer i).put.isSome then none
  else match (s.writer i).handle with
    | none => none
    | some h =>
      some { s.setWriter i { s.writer i with handle := none, unlinks := h.make } with
        leaked := s.leaked || decide (h.fd ≤ 0) }

def unlinkWrite (s : Fifo ι) (i : ι) : Option (Fifo ι) :=
  if (s.writer i).unlinks then
    some { s.setWriter i { s.writer i with unlinks := false } with linked := false }
  else none

def read [Fintype ι] (σ : Callbacks) (s : Fifo ι) (a : Take) : Option (Fifo ι) :=
  (answer Prod.snd s.gone s.pipe a).bind fun x =>
    (s.reader.step σ (.recvReturns x.2.len false)).map fun r =>
      { s with pipe := x.1, reader := { r with message := some x.2 }, heard := s.heard ++ [x.2] }

def readerStep (σ : Callbacks) (s : Fifo ι) (l : RecvTeardown.Label) : Option (Fifo ι) :=
  (s.reader.step σ l).map fun r =>
    { s with
      reader := r
      linked := s.linked &&
        !(l == .uninit && s.reader.thread.uninit.head? == some .unlink && s.reader.make) }

def step [Fintype ι] (σ : Callbacks) (s : Fifo ι) : Label ι → Option (Fifo ι)
  | .writeInit i mem make access mkfifo fd =>
    s.writeInit i (fifoWriteInit mem make access mkfifo fd)
  | .put i pData size => s.fifoWritePut i pData size
  | .write i n => s.write i n
  | .returned i => s.returned i
  | .closeWrite i => s.closeWrite i
  | .unlinkWrite i => s.unlinkWrite i
  | .read a => s.read σ a
  | .task => s.readerStep σ .task
  | .cancelled => s.readerStep σ .cancelled
  | .readUninit => s.readerStep σ .uninit
  | .setDumpFlag flag => s.readerStep σ (.setDumpFlag flag)

def init (r : Reader) : Fifo ι :=
  ⟨.empty, true, false, fun _ => ⟨none, false, none, []⟩, r, []⟩

end Fifo

/-- The uninit call does not close the descriptor while the task does. -/
def Apart (s : Fifo ι) : Label ι → Prop
  | .readUninit => ClosesApart s.reader.thread .uninit
  | _ => True

instance (s : Fifo ι) : (l : Label ι) → Decidable (Apart s l)
  | .readUninit => inferInstanceAs (Decidable (ClosesApart s.reader.thread .uninit))
  | .writeInit .. | .put .. | .write .. | .returned _ | .closeWrite _ | .unlinkWrite _ | .read _
  | .task | .cancelled | .setDumpFlag _ => .isTrue trivial

def Writer.accepted (w : Writer) : List UInt8 :=
  taken w.done ++ w.put.elim [] fun p => p.data.take p.sent

def received (r : Reader) : List UInt8 := r.calls.flatMap clientBytes

section Reader
variable {σ : Callbacks} {r r' : Reader} {l : RecvTeardown.Label}

/-- Where the task is with what it has read: it waits for more, holds a chunk, has to close, has
told the application of the end, or is over. -/
inductive Stage where
  | waiting
  | holding
  | closing
  | told
  | finished

def stage : TaskPc → Stage
  | .loop | .testcancel | .callRecv | .recv | .callback => .waiting
  | .tail | .eagain | .usleep | .eagainEnd | .lost => .waiting
  | .received | .dump | .dumping | .dispatch => .holding
  | .close | .clearFd | .exitFunc => .closing
  | .exitCall | .stop => .told
  | .ended | .cancelled => .finished

def InHand (message : Option Outcome) (done : List Outcome) : Stage → Prop
  | .waiting => message = none ∧ done.any last = false
  | .holding => (∃ m, message = some (.data m)) ∧ done.any last = false
  | .closing => (∃ r, message = some r ∧ last r = true) ∧ done.any last = false
  | .told => message = none
  | .finished => done.any last = true → message = none

structure Handing (σ : Callbacks) (r : Reader) (done : List Outcome) : Prop where
  calls : r.calls = callbacks σ done
  stops : (done.dropWhile fun r => !last r).length ≤ 1
  inHand : InHand r.message done (stage r.thread.task)

theorem InHand.finished {message : Option Outcome} {done : List Outcome} {g : Stage}
    (h : InHand message done g) : done.any last = true → message = none := by
  intro hdone
  cases g with
  | waiting => exact h.1
  | holding | closing => simp [h.2] at hdone
  | told => exact h
  | finished => exact h hdone

theorem InHand.told {message : Option Outcome} {done : List Outcome} {g : Stage}
    (h : InHand message done g) (hg : g = .waiting ∨ g = .told) : message = none := by
  obtain rfl | rfl := hg
  · exact h.1
  · exact h

theorem taskStep_stage {s t : RecvTeardown.State}
    (h : RecvTeardown.taskStep (threads σ) s = some t) :
    stage t.task = .finished ∨
      match s.task with
      | .dispatch => stage t.task = .waiting
      | .exitFunc => stage t.task = .told
      | pc => stage t.task = stage pc ∨ stage pc = .waiting ∧ stage t.task = .told := by
  have hnext : (threads σ).loop.next = .loop := rfl
  unfold RecvTeardown.taskStep at h
  cases hpc : s.task with
  | ended | cancelled => simp [hpc] at h
  | loop | callRecv | dump | dumping | callback | lost | clearFd | exitCall | stop =>
    simp only [hpc, hnext, Option.some.injEq] at h
    subst h
    simp only [RecvTeardown.State.goto]
    try split_ifs
    all_goals simp [stage]
  | testcancel | received | tail | eagain | usleep | eagainEnd =>
    simp only [hpc, Option.some.injEq] at h
    subst h
    simp only [RecvTeardown.State.cancels, RecvTeardown.State.goto]
    split_ifs <;> simp [stage]
  | recv =>
    simp only [hpc, Option.ite_none_right_eq_some, Option.some.injEq] at h
    obtain ⟨-, rfl⟩ := h
    simp [RecvTeardown.State.goto, stage]
  | close =>
    simp only [hpc, Option.some.injEq] at h
    subst h
    split_ifs <;> simp [RecvTeardown.State.goto, stage]
  | dispatch | exitFunc =>
    simp only [hpc, hnext, Option.some.injEq] at h
    subst h
    simp only [RecvTeardown.State.goto]
    split_ifs <;> simp [stage]

theorem notify_of_ne (hd : r.thread.task ≠ .dispatch) (he : r.thread.task ≠ .exitFunc) :
    r.notify σ = r := by
  unfold Reader.notify
  split <;> simp_all

theorem notify_data {m : Chunk} (hpc : r.thread.task = .dispatch)
    (hm : r.message = some (.data m)) :
    r.notify σ =
      { r with
        message := none
        calls := r.calls ++ if σ.recvFunc then [.recv m.bytes m.bytes.length] else [] } := by
  have hle : m.bytes.length ≤ 8191 := m.le
  have hmod : m.bytes.length % 65536 = m.bytes.length := Nat.mod_eq_of_lt (by omega)
  simp [Reader.notify, Reader.log, hpc, hm, Outcome.bytes, Outcome.len, hmod]

theorem notify_last {x : Outcome} (hpc : r.thread.task = .exitFunc) (hm : r.message = some x) :
    r.notify σ =
      { r with
        message := none
        calls := r.calls ++ if σ.exitFunc then [.exit x.len] else [] } := by
  simp [Reader.notify, Reader.log, hpc, hm]

theorem Handing.task {done : List Outcome} (h : Handing σ r done)
    (hr : r.step σ .task = some r') :
    ∃ done', Handing σ r' done' ∧ done' ++ r'.message.toList = done ++ r.message.toList := by
  obtain ⟨t, ht, rfl⟩ := Option.map_eq_some_iff.mp hr
  have hstage := taskStep_stage ht
  simp only [if_true]
  by_cases hd : r.thread.task = .dispatch
  · obtain ⟨⟨m, hm⟩, hnone⟩ : (∃ m, r.message = some (.data m)) ∧ done.any last = false := by
      simpa [hd, stage, InHand] using h.inHand
    have hany : (done ++ [Outcome.data m]).any last = false := by
      simp [hnone, RecvTask.last_eq_false.mpr ⟨m, rfl⟩]
    rw [notify_data hd hm]
    refine ⟨done ++ [.data m], ⟨?_, StreamClient.dropWhile_snoc hnone _, ?_⟩, by simp [hm]⟩
    · simp only [StreamClient.callbacks_data hnone, ← h.calls]
    · obtain hover | hw := hstage
      · simp [InHand, hover]
      · simp only [hd] at hw
        simpa [InHand, hw] using hany
  by_cases he : r.thread.task = .exitFunc
  · obtain ⟨⟨x, hx, hlast⟩, hnone⟩ :
        (∃ x, r.message = some x ∧ last x = true) ∧ done.any last = false := by
      simpa [he, stage, InHand] using h.inHand
    rw [notify_last he hx]
    refine ⟨done ++ [x], ⟨?_, StreamClient.dropWhile_snoc hnone _, ?_⟩, by simp [hx]⟩
    · simp only [StreamClient.callbacks_last hnone hlast, ← h.calls]
    · obtain hover | hw := hstage
      · simp [InHand, hover]
      · simp only [he] at hw
        simp [InHand, hw]
  · rw [notify_of_ne hd he]
    refine ⟨done, ⟨h.calls, h.stops, ?_⟩, rfl⟩
    have hin := h.inHand
    obtain hover | hrest := hstage
    · rw [hover]
      exact hin.finished
    · have hflow : stage t.task = stage r.thread.task ∨
          stage r.thread.task = .waiting ∧ stage t.task = .told := by
        cases hpc : r.thread.task <;> simp_all
      obtain heq | ⟨hwait, htold⟩ := hflow
      · rw [heq]
        exact hin
      · rw [htold]
        exact hin.told (.inl hwait)

theorem Handing.other {done : List Outcome} (h : Handing σ r done) (hl : l ≠ .task)
    (hread : ∀ len again, l ≠ .recvReturns len again) (hr : r.step σ l = some r') :
    Handing σ r' done ∧ r'.message = r.message := by
  obtain ⟨t, ht, rfl⟩ := Option.map_eq_some_iff.mp hr
  simp only [hl, if_false, and_true]
  refine ⟨h.calls, h.stops, ?_⟩
  cases l with
  | task => exact absurd rfl hl
  | recvReturns len again => exact absurd rfl (hread len again)
  | cancelled =>
    simp only [RecvTeardown.step, Option.ite_none_right_eq_some, Option.some.injEq] at ht
    obtain ⟨-, rfl⟩ := ht
    exact h.inHand.finished
  | uninit =>
    have htask := (RecvTeardown.uninitStep_move (σ := threads σ) ht).task
    simpa only [htask] using h.inHand
  | setDumpFlag flag =>
    obtain rfl := Option.some.inj ht
    exact h.inHand

theorem Handing.read {done : List Outcome} {x : Outcome} (h : Handing σ r done)
    (hr : r.step σ (.recvReturns x.len false) = some r') :
    Handing σ { r' with message := some x } done ∧ r.message = none ∧ done.any last = false := by
  obtain ⟨t, ht, rfl⟩ := Option.map_eq_some_iff.mp hr
  simp only [RecvTeardown.step, Option.ite_none_right_eq_some, Option.some.injEq] at ht
  obtain ⟨⟨hpc, -⟩, rfl⟩ := ht
  obtain ⟨hm, hnone⟩ : r.message = none ∧ done.any last = false := by
    simpa [hpc, stage, InHand] using h.inHand
  refine ⟨⟨h.calls, h.stops, ?_⟩, hm, hnone⟩
  have hloop : (threads σ).loop = .closing := rfl
  simp only [RecvTeardown.State.goto, hloop, RecvTeardown.Loop.received]
  by_cases hx : last x = true
  · have hlen : x.len ≤ 0 := by simpa [last] using hx
    simp [hlen, stage, InHand, hx, hnone]
  · obtain ⟨m, rfl⟩ := RecvTask.last_eq_false.mp (by simpa using hx)
    have hlen : ¬ (Outcome.data m).len ≤ 0 := by
      simpa [Outcome.len] using List.ne_nil_of_length_pos m.pos
    simp [hlen, stage, InHand, hnone]

end Reader

structure Accounted [DecidableEq ι] (σ : Callbacks) (s : Fifo ι) : Prop where
  base : RecvTeardown.Base (threads σ) s.reader.thread
  closes : Closes s.reader.thread
  hands : ∃ done, Handing σ s.reader done ∧ s.heard = done ++ s.reader.message.toList
  bytes : s.heard.flatMap Outcome.bytes = s.pipe.delivered.map Prod.snd
  held : ∀ i, (s.writer i).handle = none → (s.writer i).put = none
  share : ∀ i, share i s.pipe.written = (s.writer i).accepted

section Operations
variable [DecidableEq ι] {σ : Callbacks} {s t u : Fifo ι} {i : ι} {l : Label ι}

@[simp] theorem setWriter_writer (w : Writer) :
    (s.setWriter i w).writer = Function.update s.writer i w := rfl

@[simp] theorem setWriter_pipe (w : Writer) : (s.setWriter i w).pipe = s.pipe := rfl

@[simp] theorem setWriter_heard (w : Writer) : (s.setWriter i w).heard = s.heard := rfl

theorem Accounted.setWriter (h : Accounted σ s) {w : Writer}
    (hacc : w.accepted = (s.writer i).accepted) (hheld : w.handle = none → w.put = none) :
    Accounted σ (s.setWriter i w) where
  base := h.base
  closes := h.closes
  hands := h.hands
  bytes := h.bytes
  held j := by
    by_cases hj : j = i
    · subst hj
      simpa using hheld
    · simpa [hj] using h.held j
  share j := by
    by_cases hj : j = i
    · subst hj
      simpa [hacc] using h.share j
    · simpa [hj] using h.share j

theorem writeInit_cases {hd : Option Handle} (ht : s.writeInit i hd = some t) :
    hd = none ∧ t = s ∨
      ∃ h, hd = some h ∧ t = s.setWriter i { s.writer i with handle := some h } := by
  simp only [Fifo.writeInit, Option.ite_none_left_eq_some] at ht
  obtain ⟨-, ht⟩ := ht
  cases hd with
  | none => exact .inl ⟨rfl, (Option.some.inj ht).symm⟩
  | some h =>
    simp only [Option.ite_none_right_eq_some, Option.some.injEq] at ht
    exact .inr ⟨h, rfl, ht.2.symm⟩

theorem fifoWritePut_cases {pData : Option (ℕ → UInt8)} {size : UInt16}
    (ht : s.fifoWritePut i pData size = some t) :
    (s.writer i).put = none ∧
      ((∃ data, t = s.setWriter i
          { s.writer i with done := (s.writer i).done ++ [(data, -1)] }) ∨
        ∃ data, (s.writer i).handle ≠ none ∧
          t = s.setWriter i { s.writer i with put := some ⟨data, 0⟩ }) := by
  simp only [Fifo.fifoWritePut, Option.ite_none_left_eq_some, Option.not_isSome_iff_eq_none] at ht
  obtain ⟨hput, ht⟩ := ht
  refine ⟨hput, ?_⟩
  cases hr : Args.request ⟨(s.writer i).handle.map Handle.fd, pData, size⟩ with
  | none =>
    simp only [hr, Option.some.injEq] at ht
    exact .inl ⟨_, ht.symm⟩
  | some bs =>
    simp only [hr, Option.some.injEq] at ht
    refine .inr ⟨bs, ?_, ht.symm⟩
    intro hn
    simp [hn, Args.request] at hr

theorem write_cases {n : ℕ} (ht : s.write i n = some t) :
    ∃ p, (s.writer i).put = some p ∧ 0 < n ∧ p.sent + n ≤ p.data.length ∧
      (p.data.length ≤ pipeBuf → n = p.data.length) ∧
      t = { s.setWriter i { s.writer i with put := some { p with sent := p.sent + n } } with
        pipe := s.pipe.write (((p.data.drop p.sent).take n).map fun b => (i, b)) } := by
  unfold Fifo.write at ht
  cases hput : (s.writer i).put with
  | none => simp [hput] at ht
  | some p =>
    simp only [hput, Option.ite_none_right_eq_some, Option.some.injEq] at ht
    obtain ⟨⟨hn, hle, hsmall, -⟩, rfl⟩ := ht
    exact ⟨p, rfl, hn, hle, hsmall, rfl⟩

theorem returned_cases (ht : s.returned i = some t) :
    ∃ p, (s.writer i).put = some p ∧ t = s.setWriter i { s.writer i with
      put := none
      done := (s.writer i).done ++ [(p.data, if 0 < p.sent then (p.sent : ℤ) else -1)] } := by
  unfold Fifo.returned at ht
  cases hput : (s.writer i).put with
  | none => simp [hput] at ht
  | some p =>
    simp only [hput, Option.some.injEq] at ht
    exact ⟨p, rfl, ht.symm⟩

theorem closeWrite_cases (ht : s.closeWrite i = some t) :
    (s.writer i).put = none ∧ ∃ h, (s.writer i).handle = some h ∧
      t = { s.setWriter i { s.writer i with handle := none, unlinks := h.make } with
        leaked := s.leaked || decide (h.fd ≤ 0) } := by
  simp only [Fifo.closeWrite, Option.ite_none_left_eq_some, Option.not_isSome_iff_eq_none] at ht
  obtain ⟨hput, ht⟩ := ht
  cases hh : (s.writer i).handle with
  | none => simp [hh] at ht
  | some h =>
    simp only [hh, Option.some.injEq] at ht
    exact ⟨hput, h, rfl, ht.symm⟩

theorem unlinkWrite_cases (ht : s.unlinkWrite i = some t) :
    t = { s.setWriter i { s.writer i with unlinks := false } with linked := false } := by
  simp only [Fifo.unlinkWrite, Option.ite_none_right_eq_some, Option.some.injEq] at ht
  exact ht.2.symm

omit [DecidableEq ι] in
theorem readerStep_cases {k : RecvTeardown.Label} (ht : s.readerStep σ k = some t) :
    ∃ r b, s.reader.step σ k = some r ∧ t = { s with reader := r, linked := b } := by
  obtain ⟨r, hr, rfl⟩ := Option.map_eq_some_iff.mp ht
  exact ⟨r, _, hr, rfl⟩

omit [DecidableEq ι] in
theorem read_cases [Fintype ι] {a : Take} (ht : s.read σ a = some t) :
    ∃ c x r, answer Prod.snd s.gone s.pipe a = some (c, x) ∧
      s.reader.step σ (.recvReturns x.len false) = some r ∧
      t = { s with
        pipe := c, reader := { r with message := some x }, heard := s.heard ++ [x] } := by
  obtain ⟨⟨c, x⟩, ha, ht⟩ := Option.bind_eq_some_iff.mp ht
  obtain ⟨r, hr, rfl⟩ := Option.map_eq_some_iff.mp ht
  exact ⟨c, x, r, ha, hr, rfl⟩

theorem Accounted.write (h : Accounted σ s) {n : ℕ} (ht : s.write i n = some t) :
    Accounted σ t := by
  obtain ⟨p, hput, -, -, -, rfl⟩ := write_cases ht
  refine ⟨h.base, h.closes, h.hands, ?_, fun j => ?_, fun j => ?_⟩
  · simpa using h.bytes
  · by_cases hj : j = i
    · subst hj
      intro hnone
      have hheld := h.held j (by simpa using hnone)
      simp [hput] at hheld
    · simpa [hj] using h.held j
  · rw [Channel.write_written, share_append, share_written, h.share j]
    by_cases hj : j = i
    · subst hj
      simp [Writer.accepted, hput, List.take_add]
    · simp [hj, Ne.symm hj]

theorem Accounted.returned (h : Accounted σ s) (ht : s.returned i = some t) : Accounted σ t := by
  obtain ⟨p, hput, rfl⟩ := returned_cases ht
  refine h.setWriter ?_ fun _ => rfl
  simp only [Writer.accepted, taken_append, taken_singleton, hput, Option.elim_none,
    Option.elim_some, List.append_nil]
  by_cases hsent : 0 < p.sent
  · simp [hsent]
  · simp [Nat.eq_zero_of_not_pos hsent]

theorem Accounted.setReader (h : Accounted σ s) {k : RecvTeardown.Label} {r : Reader} {b : Bool}
    (hr : s.reader.step σ k = some r) (hapart : ClosesApart s.reader.thread k)
    (hands : ∃ done, Handing σ r done ∧ s.heard = done ++ r.message.toList) :
    Accounted σ { s with reader := r, linked := b } := by
  obtain ⟨v, hv, rfl⟩ := Option.map_eq_some_iff.mp hr
  exact ⟨h.base.step hv, h.closes.step rfl h.base hapart hv, hands, h.bytes, h.held, h.share⟩

theorem Accounted.readerTask (h : Accounted σ s) (ht : s.readerStep σ .task = some t) :
    Accounted σ t := by
  obtain ⟨r, b, hr, rfl⟩ := readerStep_cases ht
  obtain ⟨done, hh, hheard⟩ := h.hands
  obtain ⟨done', hh', heq⟩ := hh.task hr
  exact h.setReader hr trivial ⟨done', hh', hheard.trans heq.symm⟩

theorem Accounted.readerOther (h : Accounted σ s) {k : RecvTeardown.Label} (hk : k ≠ .task)
    (hread : ∀ len again, k ≠ .recvReturns len again) (ht : s.readerStep σ k = some t)
    (hapart : ClosesApart s.reader.thread k) : Accounted σ t := by
  obtain ⟨r, b, hr, rfl⟩ := readerStep_cases ht
  obtain ⟨done, hh, hheard⟩ := h.hands
  obtain ⟨hh', hm⟩ := hh.other hk hread hr
  exact h.setReader hr hapart ⟨done, hh', hm ▸ hheard⟩

theorem Accounted.read_going (h : Accounted σ s) {x : Outcome} {r : Reader}
    (hr : s.reader.step σ (.recvReturns x.len false) = some r) :
    s.heard.any last = false ∧ Handing σ { r with message := some x } s.heard := by
  obtain ⟨done, hh, hheard⟩ := h.hands
  obtain ⟨hh', hm, hnone⟩ := hh.read hr
  obtain rfl : s.heard = done := by simpa [hm] using hheard
  exact ⟨hnone, hh'⟩

theorem Accounted.read [Fintype ι] (h : Accounted σ s) {a : Take} (ht : s.read σ a = some t) :
    Accounted σ t := by
  obtain ⟨c, x, r, ha, hr, rfl⟩ := read_cases ht
  obtain ⟨-, hh⟩ := h.read_going hr
  obtain ⟨v, hv, rfl⟩ := Option.map_eq_some_iff.mp hr
  have hapart : ClosesApart s.reader.thread (.recvReturns x.len false) := trivial
  refine ⟨h.base.step hv, h.closes.step rfl h.base hapart hv, ⟨s.heard, hh, by simp⟩, ?_,
    h.held, fun i => ?_⟩
  · rw [List.flatMap_append, List.flatMap_singleton, h.bytes, answer_delivered ha]
  · rw [answer_written ha]
    exact h.share i

theorem Accounted.step [Fintype ι] (h : Accounted σ s) (hapart : Apart s l)
    (ht : s.step σ l = some t) : Accounted σ t := by
  cases l with
  | writeInit i mem make access mkfifo fd =>
    obtain ⟨-, rfl⟩ | ⟨hd, -, rfl⟩ := writeInit_cases ht
    · exact h
    · exact h.setWriter rfl (by simp)
  | put i pData size =>
    obtain ⟨hput, ⟨data, rfl⟩ | ⟨data, hhandle, rfl⟩⟩ := fifoWritePut_cases ht
    · exact h.setWriter (by simp [Writer.accepted, hput]) (h.held i)
    · exact h.setWriter (by simp [Writer.accepted, hput]) fun hn => absurd hn hhandle
  | write i n => exact h.write ht
  | returned i => exact h.returned ht
  | closeWrite i =>
    obtain ⟨hput, hd, -, rfl⟩ := closeWrite_cases ht
    exact { h.setWriter (i := i) (w := { s.writer i with handle := none, unlinks := hd.make }) rfl
      (fun _ => hput) with }
  | unlinkWrite i =>
    obtain rfl := unlinkWrite_cases ht
    exact { h.setWriter (i := i) (w := { s.writer i with unlinks := false }) rfl (h.held i) with }
  | read a => exact h.read ht
  | task => exact h.readerTask ht
  | cancelled | setDumpFlag => exact h.readerOther (by simp) (by simp) ht trivial
  | readUninit => exact h.readerOther (by simp) (by simp) ht hapart

theorem accounted_init {mem make create : Bool} {access mkfifo fd : ℤ} {r : Reader}
    (h : fifoReadInit σ mem make access mkfifo fd create = some r) :
    Accounted σ (Fifo.init r : Fifo ι) := by
  obtain ⟨fd', rfl⟩ : ∃ fd', r = ⟨make, RecvTeardown.start (threads σ) fd', none, []⟩ := by
    unfold fifoReadInit at h
    cases hopen : openFifo make access mkfifo fd with
    | none => simp [hopen] at h
    | some fd' =>
      simp only [hopen, Option.ite_none_right_eq_some, Option.some.injEq] at h
      exact ⟨fd', h.2.2.symm⟩
  refine ⟨ClosingTask.base_handle, ⟨Nat.zero_le _, fun _ _ _ => rfl⟩, ⟨[], ⟨?_, ?_, ?_⟩, rfl⟩, rfl,
    fun _ _ => rfl, fun _ => rfl⟩
  · simp [Fifo.init, callbacks]
  · simp
  · simp [Fifo.init, RecvTeardown.start, stage, InHand]

theorem Accounted.received (h : Accounted ⟨σ.exitFunc, true⟩ s) :
    received s.reader ++ s.reader.message.elim [] Outcome.bytes =
      s.pipe.delivered.map Prod.snd := by
  obtain ⟨done, hh, hheard⟩ := h.hands
  rw [← h.bytes, hheard, FifoStream.received, hh.calls, callbacks_bytes rfl hh.stops,
    List.flatMap_append]
  cases s.reader.message <;> simp

theorem Accounted.closed_heard (h : Accounted σ s) (hx : .exit 0 ∈ s.reader.calls) :
    .closed ∈ s.heard ∧ s.reader.message = none := by
  obtain ⟨done, hh, hheard⟩ := h.hands
  have hclosed : .closed ∈ done := closed_of_exit (hh.calls ▸ hx)
  have hany : done.any last = true := List.any_eq_true.mpr ⟨.closed, hclosed, by decide⟩
  exact ⟨hheard ▸ List.mem_append_left _ hclosed, hh.inHand.finished hany⟩

def Shut (acc : ι → List UInt8) (s : Fifo ι) : Prop :=
  ∀ i, (s.writer i).handle = none ∧ (s.writer i).put = none ∧ (s.writer i).accepted = acc i

theorem Shut.setWriter {acc : ι → List UInt8} (h : Shut acc s) {i : ι} {w : Writer}
    (hw : w.handle = none ∧ w.put = none ∧ w.accepted = acc i) : Shut acc (s.setWriter i w) := by
  intro j
  by_cases hj : j = i
  · subst hj
    simpa using hw
  · simpa [hj] using h j

/-- What the application sees: get callbacks and at most one close, the bytes read in order (but
for a last chunk that the task still has in hand), and each writer's own in its order. -/
structure Delivers (s : Fifo ι) : Prop where
  order : ∃ (ms : List (List UInt8)) (code : Option ℤ),
    s.reader.calls = ms.map (fun m => .recv m m.length) ++ (code.map Callback.exit).toList
  received : received s.reader ++ s.reader.message.elim [] Outcome.bytes =
    s.pipe.delivered.map Prod.snd
  sent : ∀ i, share i s.pipe.delivered <+: (s.writer i).accepted
  closes : s.reader.thread.closes ≤ 1

/-- Nobody has the FIFO open for writing in `u`, and the application has got in `t` all that had
been put in then. -/
structure Ended (u t : Fifo ι) : Prop where
  gone : ∀ i, (u.writer i).handle = none ∧ (u.writer i).put = none
  whole : ∀ i, share i t.pipe.delivered = (u.writer i).accepted
  received : received t.reader = t.pipe.delivered.map Prod.snd

theorem Accounted.delivers (h : Accounted ⟨σ.exitFunc, true⟩ s) : Delivers s where
  order := by
    obtain ⟨done, hh, -⟩ := h.hands
    refine ⟨(done.takeWhile fun r => !last r).map Outcome.bytes,
      if σ.exitFunc then (done.find? last).map Outcome.len else none, ?_⟩
    rw [hh.calls, callbacks]
    cases σ.exitFunc <;> simp [Function.comp_def]
  received := h.received
  sent i := by
    rw [← h.share i]
    exact share_initial s.pipe.delivered_initial
  closes := h.closes.once

end Operations

section Run
variable [DecidableEq ι] [Fintype ι] {σ : Callbacks} {s t u : Fifo ι} {l : Label ι}
  {ls : List (Label ι)}

theorem step_heard (h : Accounted σ s) (ht : s.step σ l = some t) :
    (∃ a x, l = .read a ∧ s.heard.any last = false ∧ t.heard = s.heard ++ [x] ∧
        answer Prod.snd s.gone s.pipe a = some (t.pipe, x)) ∨
      t.heard = s.heard ∧ t.pipe.delivered = s.pipe.delivered := by
  cases l with
  | writeInit i mem make access mkfifo fd =>
    obtain ⟨-, rfl⟩ | ⟨hd, -, rfl⟩ := writeInit_cases ht <;> exact .inr ⟨rfl, rfl⟩
  | put i pData size =>
    obtain ⟨-, ⟨data, rfl⟩ | ⟨data, -, rfl⟩⟩ := fifoWritePut_cases ht <;> exact .inr ⟨rfl, rfl⟩
  | write i n =>
    obtain ⟨p, -, -, -, -, rfl⟩ := write_cases ht
    exact .inr ⟨rfl, Channel.write_delivered⟩
  | returned i =>
    obtain ⟨p, -, rfl⟩ := returned_cases ht
    exact .inr ⟨rfl, rfl⟩
  | closeWrite i =>
    obtain ⟨-, hd, -, rfl⟩ := closeWrite_cases ht
    exact .inr ⟨rfl, rfl⟩
  | unlinkWrite i =>
    obtain rfl := unlinkWrite_cases ht
    exact .inr ⟨rfl, rfl⟩
  | read a =>
    obtain ⟨c, x, r, ha, hr, rfl⟩ := read_cases ht
    exact .inl ⟨a, x, rfl, (h.read_going hr).1, rfl, ha⟩
  | task | cancelled | readUninit | setDumpFlag flag =>
    obtain ⟨r, b, -, rfl⟩ := readerStep_cases ht
    exact .inr ⟨rfl, rfl⟩

theorem Accounted.run (h : Accounted σ s) (ho : Obeys (Fifo.step σ) Apart s ls)
    (ht : exec (Fifo.step σ) s ls = some t) : Accounted σ t :=
  invariant (fun _ _ _ hs hg hu => Accounted.step hs hg hu) h ho ht

theorem delivered_fixed (h : Accounted σ s) (hlast : s.heard.any last = true)
    (ho : Obeys (Fifo.step σ) Apart s ls) (ht : exec (Fifo.step σ) s ls = some t) :
    t.pipe.delivered = s.pipe.delivered := by
  have hfix := invariant (I := fun v => Accounted σ v ∧ v.heard.any last = true ∧
    v.pipe.delivered = s.pipe.delivered) ?_ ⟨h, hlast, rfl⟩ ho ht
  · exact hfix.2.2
  · intro v l w ⟨hv, hany, hdel⟩ hg hw
    obtain ⟨a, x, -, hnone, -⟩ | ⟨hheard, heq⟩ := step_heard hv hw
    · simp [hnone] at hany
    · exact ⟨hv.step hg hw, hheard ▸ hany, heq.trans hdel⟩

theorem closed_split (h : Accounted σ s) (hnot : .closed ∉ s.heard)
    (ho : Obeys (Fifo.step σ) Apart s ls) (ht : exec (Fifo.step σ) s ls = some t)
    (hc : .closed ∈ t.heard) :
    ∃ xs ys u v, ls = xs ++ .read .closed :: ys ∧ exec (Fifo.step σ) s xs = some u ∧
      Accounted σ u ∧ u.step σ (.read .closed) = some v ∧ Accounted σ v ∧ .closed ∈ v.heard ∧
      Obeys (Fifo.step σ) Apart v ys ∧ exec (Fifo.step σ) v ys = some t := by
  induction ls generalizing s with
  | nil =>
    obtain rfl := Option.some.inj ht
    exact absurd hc hnot
  | cons l ls ih =>
    obtain ⟨v, hv, hr⟩ := exec_cons.mp ht
    obtain ⟨hg, ho'⟩ := (obeys_cons hv).mp ho
    have hacc := h.step hg hv
    by_cases hhear : .closed ∈ v.heard
    · obtain ⟨a, x, rfl, -, heq, ha⟩ | ⟨heq, -⟩ := step_heard h hv
      · obtain rfl : .closed = x := by simpa [heq, hnot] using hhear
        obtain rfl : a = .closed := by
          cases a <;> simp [answer] at ha ⊢
        exact ⟨[], ls, s, v, rfl, rfl, h, hv, hacc, hhear, ho', hr⟩
      · exact absurd (heq ▸ hhear) hnot
    · obtain ⟨xs, ys, u, w, rfl, hx, hrest⟩ := ih hacc hhear ho' hr
      exact ⟨l :: xs, ys, u, w, rfl, exec_cons.mpr ⟨v, hv, hx⟩, hrest⟩

def Label.opens : Label ι → Bool
  | .writeInit .. => true
  | _ => false

theorem Shut.step {acc : ι → List UInt8} (h : Shut acc s) (hl : l.opens = false)
    (ht : s.step σ l = some t) : Shut acc t := by
  cases l with
  | writeInit i mem make access mkfifo fd => simp [Label.opens] at hl
  | put i pData size =>
    obtain ⟨hhandle, hput, hacc⟩ := h i
    obtain ⟨-, ⟨data, rfl⟩ | ⟨data, hopen, -⟩⟩ := fifoWritePut_cases ht
    · exact h.setWriter ⟨hhandle, hput, by simpa [Writer.accepted, hput] using hacc⟩
    · exact absurd hhandle hopen
  | write i n =>
    obtain ⟨p, hput, -⟩ := write_cases ht
    simp [(h i).2.1] at hput
  | returned i =>
    obtain ⟨p, hput, -⟩ := returned_cases ht
    simp [(h i).2.1] at hput
  | closeWrite i =>
    obtain ⟨-, hd, hhandle, -⟩ := closeWrite_cases ht
    simp [(h i).1] at hhandle
  | unlinkWrite i =>
    obtain rfl := unlinkWrite_cases ht
    exact h.setWriter (h i)
  | read a =>
    obtain ⟨c, x, r, -, -, rfl⟩ := read_cases ht
    exact h
  | task | cancelled | readUninit | setDumpFlag flag =>
    obtain ⟨r, b, -, rfl⟩ := readerStep_cases ht
    exact h

theorem Accounted.ended {v : Fifo ι} (hu : Accounted ⟨σ.exitFunc, true⟩ u)
    (hv : u.step ⟨σ.exitFunc, true⟩ (.read .closed) = some v)
    (ht : Accounted ⟨σ.exitFunc, true⟩ t) (hdel : t.pipe.delivered = v.pipe.delivered)
    (hm : t.reader.message = none) : Ended u t := by
  obtain ⟨c, x, r, ha, hr, rfl⟩ := read_cases hv
  simp only [answer, Option.ite_none_right_eq_some, Option.some.injEq, Prod.mk.injEq] at ha
  obtain ⟨⟨hq, hgone⟩, rfl, rfl⟩ := ha
  simp only [Fifo.gone, Bool.and_eq_true, decide_eq_true_eq, Option.isNone_iff_eq_none] at hgone
  refine ⟨fun i => ⟨hgone.2 i, hu.held i (hgone.2 i)⟩, fun i => ?_, ?_⟩
  · rw [hdel, Channel.delivered_of_queue (List.eq_nil_of_length_eq_zero hq), hu.share i]
  · simpa [hm] using ht.received

/-- In every state that a FIFO reaches, its reader has got a prefix of what the writers have put in,
and nothing is doubled or out of order. A close with code 0 follows a `read` at which no writer was
left, and by then everything has been handed over that they had put in. -/
theorem fifo_delivers (exitFunc : Bool) {mem make create : Bool} {access mkfifo fd : ℤ}
    {r : Reader}
    (hinit : fifoReadInit ⟨exitFunc, true⟩ mem make access mkfifo fd create = some r)
    (hapart : Obeys (Fifo.step ⟨exitFunc, true⟩) Apart (Fifo.init r) ls)
    (hrun : exec (Fifo.step ⟨exitFunc, true⟩) (Fifo.init r) ls = some t) :
    Delivers t ∧ (.exit 0 ∈ t.reader.calls →
      ∃ xs ys u, ls = xs ++ .read .closed :: ys ∧
        exec (Fifo.step ⟨exitFunc, true⟩) (Fifo.init r) xs = some u ∧ Ended u t ∧
        ((∀ l ∈ ys, l.opens = false) → ∀ i, (t.writer i).accepted = (u.writer i).accepted)) := by
  have hstart : Accounted ⟨exitFunc, true⟩ (Fifo.init r : Fifo ι) := accounted_init hinit
  have hacc := hstart.run hapart hrun
  refine ⟨hacc.delivers (σ := ⟨exitFunc, true⟩), fun hexit => ?_⟩
  obtain ⟨hc, hm⟩ := hacc.closed_heard hexit
  obtain ⟨xs, ys, u, v, rfl, hxs, hu, hv, hvacc, hvc, hys, hrest⟩ :=
    closed_split hstart (by simp [Fifo.init]) hapart hrun hc
  have hlast : v.heard.any last = true := List.any_eq_true.mpr ⟨.closed, hvc, by decide⟩
  have hended := hu.ended (σ := ⟨exitFunc, true⟩) hv hacc (delivered_fixed hvacc hlast hys hrest) hm
  refine ⟨xs, ys, u, rfl, hxs, hended, fun hopens i => ?_⟩
  have hshut : Shut (fun j => (u.writer j).accepted) v := by
    obtain ⟨c, x, r, -, -, rfl⟩ := read_cases hv
    exact fun j => ⟨(hended.gone j).1, (hended.gone j).2, rfl⟩
  exact (invariant (fun _ _ _ hs hg hw => Shut.step hs hg hw) hshut
    (obeys_of_forall hopens v) hrest i).2.2

def reader : Reader := ⟨true, RecvTeardown.start (threads ⟨true, true⟩) 3, none, []⟩

def twoWriters : List (Label Bool) :=
  [.writeInit false true false 0 0 4, .writeInit true true true 0 0 5,
    .put false (some fun _ => 7) 2, .write false 2, .put true (some fun _ => 8) 1] ++
  List.replicate 3 .task ++ [.read (.bytes 1), .returned false, .closeWrite false] ++
  List.replicate 7 .task ++ [.write true 1, .returned true, .read (.bytes 2), .closeWrite true] ++
  List.replicate 7 .task ++ [.unlinkWrite true, .read .closed] ++ List.replicate 4 .task

theorem fifo_delivers_twoWriters : ∃ t : Fifo Bool,
    exec (Fifo.step ⟨true, true⟩) (Fifo.init reader) twoWriters = some t ∧ Delivers t ∧
      ∃ xs ys u, twoWriters = xs ++ .read .closed :: ys ∧
        exec (Fifo.step ⟨true, true⟩) (Fifo.init reader) xs = some u ∧ Ended u t ∧
        ((∀ l ∈ ys, l.opens = false) → ∀ i, (t.writer i).accepted = (u.writer i).accepted) := by
  have hcalls : ((exec (Fifo.step ⟨true, true⟩) (Fifo.init reader) twoWriters).map fun t =>
      t.reader.calls) = some [.recv [7] 1, .recv [7, 8] 2, .exit 0] := by decide
  obtain ⟨t, ht, hexit⟩ := Option.map_eq_some_iff.mp hcalls
  obtain ⟨hd, hended⟩ := @fifo_delivers _ _ _ _ _ true true true true 0 0 3 reader rfl
    (by decide) ht
  exact ⟨t, ht, hd, hended (by simp [hexit])⟩

end Run

section Blocks
variable [DecidableEq ι] {σ : Callbacks} {s t : Fifo ι} {i : ι} {w : Writer}
  {xs ys : List (ι × UInt8)} {before data : List UInt8}

def Contiguous (i : ι) (before data : List UInt8) (xs : List (ι × UInt8)) : Prop :=
  ∃ pre post, xs = pre ++ data.map (fun b => (i, b)) ++ post ∧ share i pre = before

structure Writer.Puts (i : ι) (xs : List (ι × UInt8)) (w : Writer) : Prop where
  share : share i xs = w.accepted
  result : ∀ d ∈ w.done, d.2 = -1 ∨ 0 < d.2 ∧ d.2 ≤ d.1.length
  small : ∀ ds d, ds ++ [d] <+: w.done → d.1.length ≤ pipeBuf → 0 < d.2 →
    d.2 = d.1.length ∧ Contiguous i (taken ds) d.1 xs
  sent : ∀ p, w.put = some p → p.sent ≤ p.data.length
  put : ∀ p, w.put = some p → p.data.length ≤ pipeBuf → 0 < p.sent →
    p.sent = p.data.length ∧ Contiguous i (taken w.done) p.data xs

theorem Contiguous.append (h : Contiguous i before data xs) :
    Contiguous i before data (xs ++ ys) := by
  obtain ⟨pre, post, rfl, hpre⟩ := h
  exact ⟨pre, post ++ ys, by simp, hpre⟩

theorem Writer.Puts.append (h : w.Puts i xs) (hys : ByteStream.share i ys = []) :
    w.Puts i (xs ++ ys) where
  share := by rw [share_append, hys, List.append_nil, h.share]
  result := h.result
  small ds d hds hle hpos := (h.small ds d hds hle hpos).imp_right Contiguous.append
  sent := h.sent
  put p hp hle hpos := (h.put p hp hle hpos).imp_right Contiguous.append

theorem Writer.Puts.returned (h : w.Puts i xs) {d : List UInt8 × ℤ}
    (hacc : w.accepted = taken (w.done ++ [d]))
    (hr : d.2 = -1 ∨ 0 < d.2 ∧ d.2 ≤ d.1.length)
    (hs : d.1.length ≤ pipeBuf → 0 < d.2 →
      d.2 = d.1.length ∧ Contiguous i (taken w.done) d.1 xs) :
    { w with put := none, done := w.done ++ [d] }.Puts i xs where
  share := by
    rw [h.share, hacc, Writer.accepted]
    exact (List.append_nil _).symm
  result e he := by
    obtain he | he := List.mem_append.mp he
    · exact h.result e he
    · exact List.mem_singleton.mp he ▸ hr
  small ds e hds := by
    obtain heq | hds := List.prefix_concat_iff.mp hds
    · obtain ⟨rfl, rfl⟩ := List.append_inj' heq rfl |>.imp_right (List.singleton_inj.mp ·)
      exact hs
    · exact h.small ds e hds
  sent := by simp
  put := by simp

theorem Writer.Puts.begin (h : w.Puts i xs) (hput : w.put = none) (bs : List UInt8) :
    { w with put := some ⟨bs, 0⟩ }.Puts i xs where
  share := by simp [h.share, Writer.accepted, hput]
  result := h.result
  small := h.small
  sent p hp := by
    obtain rfl := Option.some.inj hp
    exact Nat.zero_le _
  put p hp hle hpos := by
    obtain rfl := Option.some.inj hp
    exact absurd hpos (Nat.lt_irrefl 0)

theorem Writer.Puts.write (h : w.Puts i xs) {p : Put} (hp : w.put = some p) {n : ℕ}
    (hle : p.sent + n ≤ p.data.length) (hsmall : p.data.length ≤ pipeBuf → n = p.data.length) :
    { w with put := some { p with sent := p.sent + n } }.Puts i
      (xs ++ ((p.data.drop p.sent).take n).map fun b => (i, b)) where
  share := by
    rw [share_append, share_written, if_pos rfl, h.share]
    simp [Writer.accepted, hp, List.take_add]
  result := h.result
  small ds d hds hlen hpos := (h.small ds d hds hlen hpos).imp_right Contiguous.append
  sent q hq := by
    obtain rfl := Option.some.inj hq
    exact hle
  put q hq hlen _ := by
    obtain rfl := Option.some.inj hq
    obtain rfl := hsmall hlen
    -- a small put is still where it began
    have hsent : p.sent = 0 := by omega
    refine ⟨by simp [hsent], xs, [], by simp [hsent], ?_⟩
    rw [h.share, Writer.accepted, hp, Option.elim_some, hsent, List.take_zero, List.append_nil]

def Puts (s : Fifo ι) : Prop := ∀ i, (s.writer i).Puts i s.pipe.written

theorem Puts.setWriter (h : Puts s) (hw : w.Puts i s.pipe.written) : Puts (s.setWriter i w) := by
  intro j
  by_cases hj : j = i
  · subst hj
    simpa using hw
  · simpa [hj] using h j

theorem Puts.write (h : Puts s) {n : ℕ} (ht : s.write i n = some t) : Puts t := by
  obtain ⟨p, hput, -, hle, hsmall, rfl⟩ := write_cases ht
  intro j
  by_cases hj : j = i
  · subst hj
    simpa using (h j).write hput hle hsmall
  · have hnone : share j (((p.data.drop p.sent).take n).map fun b => (i, b)) = [] := by
      rw [share_written, if_neg (Ne.symm hj)]
    simpa [hj] using (h j).append hnone

theorem Puts.returned (h : Puts s) (ht : s.returned i = some t) : Puts t := by
  obtain ⟨p, hput, rfl⟩ := returned_cases ht
  have hsent := (h i).sent p hput
  refine h.setWriter ((h i).returned ?_ ?_ fun hle hpos => ?_)
  · by_cases hp : 0 < p.sent
    · simp [Writer.accepted, hput, hp]
    · simp [Writer.accepted, hput, Nat.eq_zero_of_not_pos hp]
  · dsimp only
    split_ifs <;> omega
  · have hp : 0 < p.sent := by
      by_contra hp
      simp [hp] at hpos
    obtain ⟨hlen, hc⟩ := (h i).put p hput hle hp
    rw [← hlen]
    exact ⟨if_pos hp, hc⟩

theorem Puts.fifoWritePut (h : Puts s) {pData : Option (ℕ → UInt8)} {size : UInt16}
    (ht : s.fifoWritePut i pData size = some t) : Puts t := by
  obtain ⟨hput, ⟨data, rfl⟩ | ⟨data, -, rfl⟩⟩ := fifoWritePut_cases ht
  · have hw := (h i).returned (d := (data, -1)) (by simp [Writer.accepted, hput]) (.inl rfl)
      fun _ hpos => absurd hpos (by simp)
    rw [← hput] at hw
    exact h.setWriter hw
  · exact h.setWriter ((h i).begin hput data)

theorem Puts.step [Fintype ι] {l : Label ι} (h : Puts s) (ht : s.step σ l = some t) : Puts t := by
  cases l with
  | writeInit i mem make access mkfifo fd =>
    obtain ⟨-, rfl⟩ | ⟨hd, -, rfl⟩ := writeInit_cases ht
    · exact h
    · exact h.setWriter { h i with }
  | put i pData size => exact h.fifoWritePut ht
  | write i n => exact h.write ht
  | returned i => exact h.returned ht
  | closeWrite i =>
    obtain ⟨-, hd, -, rfl⟩ := closeWrite_cases ht
    exact h.setWriter (w := { s.writer i with handle := none, unlinks := hd.make }) { h i with }
  | unlinkWrite i =>
    obtain rfl := unlinkWrite_cases ht
    exact h.setWriter (w := { s.writer i with unlinks := false }) { h i with }
  | read a =>
    obtain ⟨c, x, r, ha, -, rfl⟩ := read_cases ht
    intro i
    rw [answer_written ha]
    exact h i
  | task | cancelled | readUninit | setDumpFlag flag =>
    obtain ⟨r, b, -, rfl⟩ := readerStep_cases ht
    exact h

/-- In every state that a FIFO reaches, each put has returned what the pipe has taken of it, and the
puts of at most `pipeBuf` bytes are blocks of the stream, whatever the other writers do. -/
theorem fifo_puts [Fintype ι] {r : Reader} {ls : List (Label ι)}
    (hrun : exec (Fifo.step σ) (Fifo.init r) ls = some t) : Puts t := by
  have hstart : Puts (Fifo.init r : Fifo ι) := fun i =>
    ⟨rfl, by simp [Fifo.init], by simp [Fifo.init], by simp [Fifo.init], by simp [Fifo.init]⟩
  exact exec_invariant (fun _ _ _ h ht => Puts.step h ht) hstart hrun

theorem fifo_puts_twoWriters : ∃ t : Fifo Bool,
    exec (Fifo.step ⟨true, true⟩) (Fifo.init reader) twoWriters = some t ∧ Puts t := by
  obtain ⟨t, ht⟩ := Option.isSome_iff_exists.mp (by decide :
    (exec (Fifo.step ⟨true, true⟩) (Fifo.init reader) twoWriters).isSome = true)
  exact ⟨t, ht, fifo_puts ht⟩

end Blocks
end LibComm.FifoStream

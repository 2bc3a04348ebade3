import LibComm.ClientTable
import LibComm.Interleaving

/-!
# The threads of a stream server

One server context with its listening thread, the detached receive thread of
every client and the thread that calls `ServerUninit`. Each label is one
statement of one thread, with the answer of the system call it makes if there
is one. Cancellation is deferred: a pending cancel is acted on at
`pthread_testcancel`, `accept`, `recv` and at a thread's own `close`, which
are cancellation points, and nowhere else.

A client is numbered by the `accept` that returned its descriptor. The number
never appears in the code; pointers are compared by address, as in C, and
`malloc` may hand out the address of a freed record again.
-/

namespace LibComm.StreamServer
open ClientTable Interleaving

structure Setup where
  kind : Kind
  maxUserNum : ℤ
  acptFunc : Bool
  exitFunc : Bool
  recvFunc : Bool
  fd : ℤ

/-- The result of `recv` on which a receive task closes its client. -/
def Setup.leaves (σ : Setup) (len : ℤ) : Bool :=
  match σ.kind with
  | .tcpIpv4 => len ≤ 0
  | .tcpIpv6 => len ≤ 0
  | .ipcStream => len < 0

inductive Callback where
  | accept
  | recv (size : ℕ)
  | exit
  deriving DecidableEq

inductive DisconnectPc where
  | search | decrement | testFd | cancel | close | clearFd | free
  deriving DecidableEq

/-- The statements of `ServerRecvTask`; at `callRecv` the arguments of `recv` are still to be read,
at `recv` the thread is inside the call. -/
inductive RecvPc where
  | absent
  | loop
  | testcancel
  | callRecv
  | recv
  | close
  | clearFd
  | exitFunc
  | received (len : ℤ)
  | recvFunc (len : ℤ)
  | disconnect (d : DisconnectPc)
  | ended
  | cancelled
  deriving DecidableEq

inductive ListenPc where
  | listen
  | running
  | testcancel
  | accept
  | accepted (k : ℕ)
  | capacity (k : ℕ)
  | choose (k : ℕ)
  | alloc (k : ℕ) (i : Fin tcpUserNum)
  | create (k : ℕ) (i : Fin tcpUserNum)
  | acptFunc (k : ℕ) (i : Fin tcpUserNum)
  | writeSlot (k : ℕ) (i : Fin tcpUserNum)
  | increment
  | refuse (k : ℕ)
  | finish
  | ended
  | cancelled
  deriving DecidableEq

inductive UninitPc where
  | idle
  | stop
  | resetNum
  | sweep (i : ℕ)
  | client (i : ℕ) (p : Ptr) (d : DisconnectPc)
  | closeServer
  | join
  | free
  | returned
  deriving DecidableEq

structure Client where
  sock : ℤ
  closes : ℕ
  record : Option ℕ
  frees : ℕ
  fd : ℤ
  pc : RecvPc
  pending : Bool
  callbacks : List Callback

def Client.absent : Client := ⟨-1, 0, none, 0, -1, .absent, false, []⟩

@[simp] theorem absent_pc : Client.absent.pc = .absent := rfl

def Client.live (c : Client) : Bool := c.record.isSome && c.frees == 0

structure State where
  table : Table Ptr
  running : Bool
  fd : ℤ
  clients : ℕ → Client
  accepted : ℕ
  listener : ListenPc
  pending : Bool
  uninit : UninitPc
  freed : Bool

def serverInit (σ : Setup) : State :=
  ⟨.init σ.maxUserNum, true, σ.fd, fun _ => .absent, 0, .listen, false, .idle, false⟩

inductive Label where
  | listener
  | listenReturns (ok : Bool)
  | acceptReturns (fd : ℤ)
  | mallocReturns (mem : Option ℕ)
  | createReturns (ok : Bool)
  | thread (k : ℕ)
  | recvReturns (k : ℕ) (len : ℤ)
  | uninit
  deriving DecidableEq

@[simp] def Client.at (c : Client) (pc : RecvPc) : Client := { c with pc := pc }

def Client.closeFd (c : Client) : Client :=
  if c.fd ≥ 0 then { c with closes := c.closes + 1 } else c

def Client.log (c : Client) (given : Bool) (f : Callback) : Client :=
  if given then { c with callbacks := c.callbacks ++ [f] } else c

def Client.disconnect (c : Client) : DisconnectPc → Client × Option DisconnectPc
  | .search => (c, some .search)
  | .decrement => (c, some .decrement)
  | .testFd => (c, some (if c.fd > 0 then .cancel else .free))
  | .cancel => ({ c with pending := true }, some .close)
  | .close => (c.closeFd, some .clearFd)
  | .clearFd => ({ c with fd := -1 }, some .free)
  | .free => ({ c with frees := c.frees + 1 }, none)

def Client.advance (σ : Setup) (c : Client) : Option Client :=
  match c.pc with
  | .absent => none
  | .loop => some (c.at (if c.fd > 0 then .testcancel else .disconnect .search))
  | .testcancel => some (c.at (if c.pending then .cancelled else .callRecv))
  | .callRecv => some (c.at .recv)
  | .recv => if c.pending then some (c.at .cancelled) else none
  | .close => some (if c.pending then c.at .cancelled else c.closeFd.at .clearFd)
  | .clearFd => some { c with fd := -1, pc := .exitFunc }
  | .exitFunc => some ((c.log σ.exitFunc .exit).at (.disconnect .search))
  | .received len => some (c.at (if c.pending then .cancelled else .recvFunc len))
  | .recvFunc len => some ((c.log σ.recvFunc (.recv (len.toNat % 65536))).at .loop)
  | .disconnect d =>
    if d = .close ∧ c.pending then some (c.at .cancelled)
    else some ((c.disconnect d).1.at ((c.disconnect d).2.elim .ended .disconnect))
  | .ended => none
  | .cancelled => none

namespace State

@[simp] def setClient (s : State) (k : ℕ) (c : Client) : State :=
  { s with clients := Function.update s.clients k c }

@[simp] def setTable (s : State) (t : Table Ptr) : State := { s with table := t }

@[simp] def listen (s : State) (pc : ListenPc) : State := { s with listener := pc }

@[simp] def sweep (s : State) (pc : UninitPc) : State := { s with uninit := pc }

def search (s : State) (c : Client) : Table Ptr × DisconnectPc :=
  match s.table.slotOf fun p => some p.addr == c.record with
  | none => (s.table, .testFd)
  | some i => (s.table.setSlot i none, .decrement)

end State

def recvStep (σ : Setup) (s : State) (k : ℕ) : Option State :=
  let c := s.clients k
  match c.pc with
  | .disconnect .search =>
    some ((s.setTable (s.search c).1).setClient k (c.at (.disconnect (s.search c).2)))
  | .disconnect .decrement =>
    some ((s.setTable s.table.decrement).setClient k (c.at (.disconnect .testFd)))
  | _ => (c.advance σ).map (s.setClient k)

def listenStep (σ : Setup) (s : State) : Option State :=
  match s.listener with
  | .listen => none
  | .running => some (s.listen (if s.running then .testcancel else .finish))
  | .testcancel => some (s.listen (if s.pending then .cancelled else .accept))
  | .accept => if s.pending then some (s.listen .cancelled) else none
  | .accepted k => some (s.listen (if s.pending then .cancelled else .capacity k))
  | .capacity k =>
    some (s.listen (if s.table.userNum ≥ s.table.maxUserNum then .refuse k else .choose k))
  | .choose k => some (s.listen (s.table.freeSlot.elim (.refuse k) (.alloc k)))
  | .alloc _ _ => none
  | .create _ _ => none
  | .acptFunc k i =>
    some ((s.setClient k ((s.clients k).log σ.acptFunc .accept)).listen (.writeSlot k i))
  | .writeSlot k i =>
    some ((s.setTable (s.table.setSlot i
      (some ⟨(s.clients k).record.getD 0, k⟩))).listen .increment)
  | .increment => some ((s.setTable s.table.increment).listen .running)
  | .refuse k =>
    if s.pending then some (s.listen .cancelled)
    else
      let c := s.clients k
      some ((s.setClient k { c with closes := c.closes + 1 }).listen .running)
  | .finish => some ({ s with running := false }.listen .ended)
  | .ended => none
  | .cancelled => none

def State.Unused (s : State) (a : ℕ) : Prop :=
  ∀ j < s.accepted, (s.clients j).live = true → (s.clients j).record ≠ some a

instance (s : State) (a : ℕ) : Decidable (s.Unused a) :=
  inferInstanceAs (Decidable (∀ j < s.accepted, _))

def uninitStep (s : State) : Option State :=
  match s.uninit with
  | .idle => some ({ s with pending := true }.sweep .stop)
  | .stop => some ({ s with running := false }.sweep .resetNum)
  | .resetNum => some ((s.setTable s.table.resetNum).sweep (.sweep 0))
  | .sweep i =>
    if hi : i < tcpUserNum ∧ (i : ℤ) < s.table.maxUserNum then
      some (s.sweep ((s.table.pUser ⟨i, hi.1⟩).elim (.sweep (i + 1)) (.client i · .search)))
    else some (s.sweep .closeServer)
  | .client i p .search =>
    some ((s.setTable (s.search (s.clients p.id)).1).sweep
      (.client i p (s.search (s.clients p.id)).2))
  | .client i p .decrement =>
    some ((s.setTable s.table.decrement).sweep (.client i p .testFd))
  | .client i p d =>
    let r := (s.clients p.id).disconnect d
    some ((s.setClient p.id r.1).sweep (r.2.elim (.sweep (i + 1)) (.client i p)))
  | .closeServer => some ({ s with fd := if s.fd > 0 then -1 else s.fd }.sweep .join)
  | .join =>
    if s.listener = .ended ∨ s.listener = .cancelled then some (s.sweep .free) else none
  | .free => some ({ s with freed := true }.sweep .returned)
  | .returned => none

def step (σ : Setup) (s : State) : Label → Option State
  | .listener => listenStep σ s
  | .listenReturns ok =>
    if s.listener = .listen then
      some (if ok then s.listen .running else { s with fd := -1 }.listen .ended)
    else none
  | .acceptReturns fd =>
    if s.listener = .accept ∧ s.pending = false then
      if fd < 0 then some (s.listen .finish)
      else
        some ({ s.setClient s.accepted { Client.absent with sock := fd } with
          accepted := s.accepted + 1 }.listen (.accepted s.accepted))
    else none
  | .mallocReturns mem =>
    match s.listener with
    | .alloc k i =>
      match mem with
      | none => some (s.listen (.refuse k))
      | some a =>
        if s.Unused a then
          let c := s.clients k
          some ((s.setClient k { c with record := some a, fd := c.sock }).listen (.create k i))
        else none
    | _ => none
  | .createReturns ok =>
    match s.listener with
    | .create k i =>
      let c := s.clients k
      if ok then some ((s.setClient k (c.at .loop)).listen (.acptFunc k i))
      else some ((s.setClient k { c with frees := c.frees + 1 }).listen (.refuse k))
    | _ => none
  | .thread k => recvStep σ s k
  | .recvReturns k len =>
    let c := s.clients k
    if c.pc = .recv ∧ c.pending = false then
      some (s.setClient k (c.at (if σ.leaves len then .close else .received len)))
    else none
  | .uninit => uninitStep s

@[simp] def ListenPc.hand : ListenPc → Option ℕ
  | .accepted k | .capacity k | .choose k | .refuse k => some k
  | .alloc k _ | .create k _ | .acptFunc k _ | .writeSlot k _ => some k
  | .listen | .running | .testcancel | .accept | .increment => none
  | .finish | .ended | .cancelled => none

/-- The client whose thread runs while the listening thread still has to enter it in the table. -/
@[simp] def ListenPc.admits : ListenPc → Option ℕ
  | .acptFunc k _ | .writeSlot k _ => some k
  | .listen | .running | .testcancel | .accept | .accepted _ | .capacity _ | .choose _ => none
  | .alloc _ _ | .create _ _ | .increment | .refuse _ | .finish | .ended | .cancelled => none

@[simp] def ListenPc.slot : ListenPc → Option (Fin tcpUserNum)
  | .alloc _ i | .create _ i | .acptFunc _ i | .writeSlot _ i => some i
  | .listen | .running | .testcancel | .accept | .accepted _ | .capacity _ | .choose _ => none
  | .increment | .refuse _ | .finish | .ended | .cancelled => none

theorem search_pUser {s : State} {c : Client} {i : Fin tcpUserNum} {p : Ptr}
    (h : (s.search c).1.pUser i = some p) : s.table.pUser i = some p := by
  unfold State.search at h
  split at h
  · exact h
  · rename_i j _
    by_cases hij : i = j <;> simp_all

theorem search_pc (s : State) (c : Client) :
    (s.search c).2 = .testFd ∧ (s.search c).1 = s.table ∨
      (s.search c).2 = .decrement ∧ ∃ i p, s.table.pUser i = some p ∧
        some p.addr = c.record ∧ (s.search c).1 = s.table.setSlot i none := by
  unfold State.search
  split
  · exact .inl ⟨rfl, rfl⟩
  · rename_i i hi
    obtain ⟨-, p, hp, hq⟩ := Table.slotOf_some hi
    exact .inr ⟨rfl, i, p, hp, eq_of_beq hq, rfl⟩

theorem advance_record {σ : Setup} {c c' : Client} (h : c.advance σ = some c') :
    c'.record = c.record ∧ c'.sock = c.sock ∧ c.pc ≠ .absent ∧ c'.pc ≠ .absent := by
  unfold Client.advance at h
  split at h
  all_goals simp_all [Client.log, Client.closeFd, Client.disconnect]
  all_goals grind

structure Control (s : State) (pc : ListenPc) : Prop where
  hand : ∀ k, pc.hand = some k → s.listener.hand = some k
  free : s.listener.admits = none
  admits : pc.admits = none
  create : ∀ k i, s.listener ≠ .create k i ∧ pc ≠ .create k i
  increment : s.listener ≠ .increment ∧ pc ≠ .increment
  slot : ∀ i, pc.slot = some i → s.table.freeSlot = some i
  keep : ∀ k, s.listener = .refuse k → pc.hand = none
  drop : ∀ k, s.listener.hand = some k → pc.hand = none →
    s.pending = true ∧ (s.listener = .accepted k ∨ s.listener = .refuse k)
  active : s.listener ≠ .ended ∧ s.listener ≠ .cancelled

inductive Move (σ : Setup) (s : State) : Label → State → Prop where
  | control {l : Label} {pc : ListenPc} (hl : ∀ k, l ≠ .thread k)
      (hh : l ≠ .listener → pc.hand = s.listener.hand) (h : Control s pc) : Move σ s l (s.listen pc)
  | listenFails (h : s.listener = .listen) :
      Move σ s (.listenReturns false) ({ s with fd := -1 }.listen .ended)
  | finish (h : s.listener = .finish) :
      Move σ s .listener ({ s with running := false }.listen .ended)
  | accept {fd : ℤ} (h : s.listener = .accept) (hfd : 0 ≤ fd) :
      Move σ s (.acceptReturns fd)
        ({ s.setClient s.accepted { Client.absent with sock := fd } with
          accepted := s.accepted + 1 }.listen (.accepted s.accepted))
  | malloc {a k : ℕ} {i : Fin tcpUserNum} (h : s.listener = .alloc k i) (ha : s.Unused a) :
      Move σ s (.mallocReturns (some a))
        ((s.setClient k
          { s.clients k with record := some a, fd := (s.clients k).sock }).listen (.create k i))
  | created {k : ℕ} {i : Fin tcpUserNum} (h : s.listener = .create k i) :
      Move σ s (.createReturns true)
        ((s.setClient k ((s.clients k).at .loop)).listen (.acptFunc k i))
  | notCreated {k : ℕ} {i : Fin tcpUserNum} (h : s.listener = .create k i) :
      Move σ s (.createReturns false)
        ((s.setClient k { s.clients k with frees := (s.clients k).frees + 1 }).listen (.refuse k))
  | acptFunc {k : ℕ} {i : Fin tcpUserNum} (h : s.listener = .acptFunc k i) :
      Move σ s .listener
        ((s.setClient k ((s.clients k).log σ.acptFunc .accept)).listen (.writeSlot k i))
  | writeSlot {k : ℕ} {i : Fin tcpUserNum} (h : s.listener = .writeSlot k i) :
      Move σ s .listener
        ((s.setTable (s.table.setSlot i
          (some ⟨(s.clients k).record.getD 0, k⟩))).listen .increment)
  | increment (h : s.listener = .increment) :
      Move σ s .listener ((s.setTable s.table.increment).listen .running)
  | refuse {k : ℕ} (h : s.listener = .refuse k) (hp : s.pending = false) :
      Move σ s .listener
        ((s.setClient k { s.clients k with closes := (s.clients k).closes + 1 }).listen .running)
  | search {k : ℕ} (h : (s.clients k).pc = .disconnect .search) :
      Move σ s (.thread k)
        ((s.setTable (s.search (s.clients k)).1).setClient k
          ((s.clients k).at (.disconnect (s.search (s.clients k)).2)))
  | decrement {k : ℕ} (h : (s.clients k).pc = .disconnect .decrement) :
      Move σ s (.thread k)
        ((s.setTable s.table.decrement).setClient k ((s.clients k).at (.disconnect .testFd)))
  | advance {k : ℕ} {c : Client} (hs : (s.clients k).pc ≠ .disconnect .search)
      (hd : (s.clients k).pc ≠ .disconnect .decrement) (hc : (s.clients k).advance σ = some c) :
      Move σ s (.thread k) (s.setClient k c)
  | recv {k : ℕ} {len : ℤ} (hpc : (s.clients k).pc = .recv) (hp : (s.clients k).pending = false) :
      Move σ s (.recvReturns k len)
        (s.setClient k ((s.clients k).at (if σ.leaves len then .close else .received len)))

theorem recvStep_move {σ : Setup} {s t : State} {k : ℕ} (h : recvStep σ s k = some t) :
    Move σ s (.thread k) t := by
  dsimp only [recvStep] at h
  split at h
  · rename_i hpc
    obtain rfl := Option.some.inj h
    exact .search hpc
  · rename_i hpc
    obtain rfl := Option.some.inj h
    exact .decrement hpc
  · rename_i h1 h2
    obtain ⟨c, hc, rfl⟩ := Option.map_eq_some_iff.mp h
    exact .advance h1 h2 hc

theorem listenStep_move {σ : Setup} {s t : State} (h : listenStep σ s = some t) :
    Move σ s .listener t := by
  unfold listenStep at h
  cases hl : s.listener with
  | listen | alloc | create | ended | cancelled => simp [hl] at h
  | acptFunc k i =>
    obtain rfl : _ = t := by simpa only [hl, Option.some.injEq] using h
    exact .acptFunc hl
  | writeSlot k i =>
    obtain rfl : _ = t := by simpa only [hl, Option.some.injEq] using h
    exact .writeSlot hl
  | increment =>
    obtain rfl : _ = t := by simpa only [hl, Option.some.injEq] using h
    exact .increment hl
  | finish =>
    obtain rfl : _ = t := by simpa only [hl, Option.some.injEq] using h
    exact .finish hl
  | refuse k =>
    simp only [hl] at h
    split_ifs at h with hp <;> obtain rfl := Option.some.inj h
    · refine .control (by simp) (by simp_all) ?_
      constructor <;> simp_all
    · exact .refuse hl (by simpa using hp)
  | accept =>
    simp only [hl] at h
    split_ifs at h with hp
    obtain rfl := Option.some.inj h
    refine .control (by simp) (by simp_all) ?_
    constructor <;> simp_all
  | choose k =>
    obtain rfl : _ = t := by simpa only [hl, Option.some.injEq] using h
    refine .control (by simp) (by simp_all) ?_
    cases hf : s.table.freeSlot <;> constructor <;> simp_all
  | running | testcancel | accepted | capacity =>
    obtain rfl : _ = t := by simpa only [hl, Option.some.injEq] using h
    refine .control (by simp) (by simp_all) ?_
    split_ifs <;> constructor <;> simp_all

theorem step_move {σ : Setup} {s t : State} {l : Label} (h : step σ s l = some t)
    (hu : l ≠ .uninit) : Move σ s l t := by
  cases l with
  | listener => exact listenStep_move h
  | thread k => exact recvStep_move h
  | uninit => exact absurd rfl hu
  | listenReturns ok =>
    simp only [step] at h
    split_ifs at h with hl <;> obtain rfl := Option.some.inj h
    · refine .control (by simp) (by simp_all) ?_
      constructor <;> simp_all
    · simp_all only [Bool.not_eq_true]
      exact .listenFails hl
  | acceptReturns fd =>
    simp only [step] at h
    split_ifs at h with hl hfd <;> obtain rfl := Option.some.inj h
    · refine .control (by simp) (by simp_all) ?_
      constructor <;> simp_all
    · exact .accept hl.1 (not_lt.mp hfd)
  | mallocReturns mem =>
    simp only [step] at h
    split at h
    · rename_i k i hl
      cases mem with
      | none =>
        obtain rfl := Option.some.inj h
        refine .control (by simp) (by simp_all) ?_
        constructor <;> simp_all
      | some a =>
        simp only at h
        split_ifs at h with ha
        obtain rfl := Option.some.inj h
        exact .malloc hl ha
    · simp at h
  | createReturns ok =>
    simp only [step] at h
    split at h
    · rename_i k i hl
      split_ifs at h with hok <;> obtain rfl := Option.some.inj h
      · subst hok
        exact .created hl
      · obtain rfl : ok = false := by simpa using hok
        exact .notCreated hl
    · simp at h
  | recvReturns k len =>
    simp only [step, Option.ite_none_right_eq_some, Option.some.injEq] at h
    obtain ⟨⟨hpc, hp⟩, rfl⟩ := h
    exact .recv hpc hp

/-- Nothing exists yet beyond `accepted`; whatever the listening thread holds, the table points to
or the uninit call works on has been accepted, and has a thread once it is being admitted; and the
slot chosen for a client stays empty and below the limit until it is written. -/
structure Tracked (s : State) : Prop where
  absent : ∀ k, s.accepted ≤ k → s.clients k = .absent
  hand : ∀ k, s.listener.hand = some k → k < s.accepted
  waiting : ∀ k, s.listener.hand = some k → s.listener.admits = none → (s.clients k).pc = .absent
  admits : ∀ k, s.listener.admits = some k → (s.clients k).pc ≠ .absent
  slot : ∀ i p, s.table.pUser i = some p → (s.clients p.id).pc ≠ .absent
  swept : ∀ i p d, s.uninit = .client i p d → (s.clients p.id).pc ≠ .absent
  chosen : ∀ i, s.listener.slot = some i →
    (i : ℤ) < s.table.maxUserNum ∧ s.table.pUser i = none
  below : ∀ i p, s.table.pUser i = some p → (i : ℤ) < s.table.maxUserNum

theorem tracked_init (σ : Setup) : Tracked (serverInit σ) := by
  constructor <;> simp [serverInit]

theorem Tracked.lt {s : State} (h : Tracked s) {k : ℕ} (hk : (s.clients k).pc ≠ .absent) :
    k < s.accepted := by
  by_contra hn
  simp [h.absent k (not_lt.mp hn), Client.absent] at hk

theorem Tracked.setClient {s : State} (h : Tracked s) {k : ℕ} (hk : k < s.accepted) {c : Client}
    (hc : c.pc = .absent ↔ (s.clients k).pc = .absent) : Tracked (s.setClient k c) := by
  have hpc : ∀ j, ((s.setClient k c).clients j).pc = .absent ↔ (s.clients j).pc = .absent := by
    intro j
    by_cases hjk : j = k
    · simpa [hjk] using hc
    · simp [hjk]
  refine ⟨fun j hj => ?_, h.hand, fun j hj ha => (hpc j).mpr (h.waiting j hj ha),
    fun j hj => (hpc j).not.mpr (h.admits j hj), fun i p hp => (hpc _).not.mpr (h.slot i p hp),
    fun i p d hp => (hpc _).not.mpr (h.swept i p d hp), h.chosen, h.below⟩
  have hjk : j ≠ k := (hk.trans_le hj).ne'
  simpa [hjk] using h.absent j hj

def Shrinks (t t' : Table Ptr) : Prop :=
  t'.maxUserNum = t.maxUserNum ∧ ∀ i p, t'.pUser i = some p → t.pUser i = some p

theorem search_shrinks (s : State) (c : Client) : Shrinks s.table (s.search c).1 := by
  rcases search_pc s c with ⟨-, he⟩ | ⟨-, i, p, -, -, he⟩
  · exact ⟨by rw [he], fun _ _ => search_pUser⟩
  · exact ⟨by rw [he, Table.setSlot_maxUserNum], fun _ _ => search_pUser⟩

theorem shrinks_of_pUser {t t' : Table Ptr} (hm : t'.maxUserNum = t.maxUserNum)
    (hp : t'.pUser = t.pUser) : Shrinks t t' :=
  ⟨hm, fun _ _ h => hp ▸ h⟩

theorem Tracked.setTable {s : State} (h : Tracked s) {t : Table Ptr} (ht : Shrinks s.table t) :
    Tracked (s.setTable t) := by
  refine ⟨h.absent, h.hand, h.waiting, h.admits, fun i p hp => h.slot i p (ht.2 i p hp), h.swept,
    fun i hi => ?_, fun i p hp => ?_⟩
  · obtain ⟨hlt, hnone⟩ := h.chosen i hi
    refine ⟨by simpa [ht.1] using hlt, ?_⟩
    cases hp : t.pUser i with
    | none => exact hp
    | some p => simp [ht.2 i p hp] at hnone
  · simpa [ht.1] using h.below i p (ht.2 i p hp)

theorem Tracked.listen {s : State} (h : Tracked s) {pc : ListenPc}
    (hh : ∀ k, pc.hand = some k → k < s.accepted)
    (hw : ∀ k, pc.hand = some k → pc.admits = none → (s.clients k).pc = .absent)
    (ha : ∀ k, pc.admits = some k → (s.clients k).pc ≠ .absent)
    (hs : ∀ i, pc.slot = some i → (i : ℤ) < s.table.maxUserNum ∧ s.table.pUser i = none) :
    Tracked (s.listen pc) :=
  ⟨h.absent, hh, hw, ha, h.slot, h.swept, hs, h.below⟩

theorem Tracked.sweep {s : State} (h : Tracked s) {pc : UninitPc}
    (hs : ∀ i p d, pc = .client i p d → (s.clients p.id).pc ≠ .absent) : Tracked (s.sweep pc) :=
  ⟨h.absent, h.hand, h.waiting, h.admits, h.slot, hs, h.chosen, h.below⟩

theorem log_client (c : Client) (given : Bool) (f : Callback) :
    (c.log given f).pc = c.pc ∧ (c.log given f).record = c.record ∧
      (c.log given f).frees = c.frees := by
  unfold Client.log
  split <;> exact ⟨rfl, rfl, rfl⟩

theorem Tracked.move {σ : Setup} {s t : State} {l : Label} (h : Tracked s) (hm : Move σ s l t) :
    Tracked t := by
  cases hm with
  | control hl hh hc =>
    refine h.listen (fun k hk => h.hand k (hc.hand k hk))
      (fun k hk _ => h.waiting k (hc.hand k hk) hc.free) (fun k hk => ?_) fun i hi =>
      Table.freeSlot_some (hc.slot i hi)
    rw [hc.admits] at hk
    cases hk
  | listenFails hl | finish hl =>
    exact ⟨h.absent, by simp, by simp, by simp, h.slot, h.swept, by simp, h.below⟩
  | accept hl hfd =>
    have hne : ∀ {k}, (s.clients k).pc ≠ .absent → k ≠ s.accepted := fun hk => (h.lt hk).ne
    refine ⟨fun k hk => ?_, by simp, by simp, by simp, fun i p hp => ?_, fun i p d hp => ?_,
      by simp, h.below⟩
    · simp only [State.listen] at hk
      simpa [show k ≠ s.accepted by omega] using h.absent k (by omega)
    · simpa [hne (h.slot i p hp)] using h.slot i p hp
    · simpa [hne (h.swept i p d hp)] using h.swept i p d hp
  | @malloc a k i hl ha =>
    have hk : k < s.accepted := h.hand k (by simp [hl])
    have h' := h.setClient (c := { s.clients k with record := some a, fd := (s.clients k).sock })
      hk Iff.rfl
    refine h'.listen (by simpa using hk) ?_ (by simp) (by simpa [hl] using h.chosen)
    simpa using h.waiting k (by simp [hl]) (by simp [hl])
  | @created k i hl =>
    have hk : k < s.accepted := h.hand k (by simp [hl])
    have hpc : ∀ j, (s.clients j).pc ≠ .absent →
        (Function.update s.clients k ((s.clients k).at .loop) j).pc ≠ .absent := by
      intro j hj
      by_cases hjk : j = k <;> simp [hjk, hj]
    refine ⟨fun j hj => ?_, by simpa using hk, by simp, by simp,
      fun j p hp => hpc p.id (h.slot j p hp), fun j p d hp => hpc p.id (h.swept j p d hp),
      by simpa [hl] using h.chosen, h.below⟩
    have hjk : j ≠ k := (hk.trans_le hj).ne'
    simpa [hjk] using h.absent j hj
  | @notCreated k i hl =>
    have hk : k < s.accepted := h.hand k (by simp [hl])
    have h' := h.setClient (c := { s.clients k with frees := (s.clients k).frees + 1 }) hk Iff.rfl
    refine h'.listen (by simpa using hk) ?_ (by simp) (by simp)
    simpa using h.waiting k (by simp [hl]) (by simp [hl])
  | @acptFunc k i hl =>
    have hk : k < s.accepted := h.hand k (by simp [hl])
    have hpc : (s.clients k).pc ≠ .absent := h.admits k (by simp [hl])
    exact (h.setClient hk (by simp [log_client])).listen (by simpa using hk) (by simp)
      (by simpa [log_client] using hpc) (by simpa [hl] using h.chosen)
  | @writeSlot k i hl =>
    have hpc : (s.clients k).pc ≠ .absent := h.admits k (by simp [hl])
    obtain ⟨hi, -⟩ := h.chosen i (by simp [hl])
    refine ⟨h.absent, by simp, by simp, by simp, fun j p hp => ?_, h.swept, by simp,
      fun j p hp => ?_⟩
    · by_cases hij : j = i
      · obtain rfl : _ = p := by simpa [hij] using hp
        exact hpc
      · exact h.slot j p (by simpa [hij] using hp)
    · by_cases hij : j = i
      · simpa [hij] using hi
      · exact h.below j p (by simpa [hij] using hp)
  | increment hl =>
    exact (h.setTable (t := s.table.increment) (shrinks_of_pUser rfl rfl)).listen (by simp)
      (by simp) (by simp) (by simp)
  | @refuse k hl hp =>
    have hk : k < s.accepted := h.hand k (by simp [hl])
    have h' := h.setClient (c := { s.clients k with closes := (s.clients k).closes + 1 }) hk Iff.rfl
    exact h'.listen (by simp) (by simp) (by simp) (by simp)
  | @search k hpc =>
    exact (h.setTable (search_shrinks s _)).setClient (h.lt (k := k) (by simp [hpc]))
      (by simp [hpc])
  | @decrement k hpc =>
    exact (h.setTable (t := s.table.decrement) (shrinks_of_pUser rfl rfl)).setClient
      (h.lt (k := k) (by simp [hpc])) (by simp [hpc])
  | advance hs hd hc =>
    obtain ⟨-, -, hpc, hpc'⟩ := advance_record hc
    exact h.setClient (h.lt hpc) (iff_of_false hpc' hpc)
  | @recv k len hpc hp =>
    refine h.setClient (h.lt (k := k) (by simp [hpc])) (iff_of_false ?_ (by simp [hpc]))
    simp only [Client.at]
    split_ifs <;> simp

theorem move_maxUserNum {σ : Setup} {s t : State} {l : Label} (hm : Move σ s l t) :
    t.table.maxUserNum = s.table.maxUserNum := by
  cases hm with
  | search hpc => exact (search_shrinks s _).1
  | control | listenFails | finish | accept | malloc | created | notCreated => rfl
  | acptFunc | writeSlot | increment | refuse | decrement | advance | recv => rfl

theorem elim_client {o : Option DisconnectPc} {i i' : ℕ} {p p' : Ptr} {d : DisconnectPc}
    (h : o.elim (.sweep (i + 1)) (.client i p) = UninitPc.client i' p' d) : p = p' := by
  cases o with
  | none => simp at h
  | some d' => simp_all

theorem Tracked.uninitStep {s t : State} (h : Tracked s) (ht : uninitStep s = some t) :
    Tracked t := by
  unfold StreamServer.uninitStep at ht
  cases hu : s.uninit with
  | idle | stop | closeServer | free =>
    obtain rfl : _ = t := by simpa only [hu, Option.some.injEq] using ht
    exact ⟨h.absent, h.hand, h.waiting, h.admits, h.slot, by simp, h.chosen, h.below⟩
  | resetNum =>
    obtain rfl : _ = t := by simpa only [hu, Option.some.injEq] using ht
    exact (h.setTable (t := s.table.resetNum) (shrinks_of_pUser rfl rfl)).sweep (by simp)
  | sweep i =>
    simp only [hu] at ht
    split_ifs at ht with hi <;> obtain rfl := Option.some.inj ht
    · cases hp : s.table.pUser ⟨i, hi.1⟩ with
      | none => exact h.sweep (by simp)
      | some p =>
        refine h.sweep fun i' p' d' he => ?_
        obtain ⟨rfl, rfl, rfl⟩ : i = i' ∧ p = p' ∧ _ = d' := by simpa using he
        exact h.slot _ _ hp
    · exact h.sweep (by simp)
  | client i p d =>
    have hpc := h.swept i p d hu
    have hk := h.lt hpc
    have hpc' : ((s.clients p.id).disconnect d).1.pc = (s.clients p.id).pc := by
      cases d <;> simp only [Client.disconnect, Client.closeFd]
      split_ifs <;> rfl
    cases d with
    | search =>
      obtain rfl : _ = t := by simpa only [hu, Option.some.injEq] using ht
      refine (h.setTable (search_shrinks s _)).sweep fun i' p' d' he => ?_
      obtain ⟨rfl, rfl, rfl⟩ : i = i' ∧ p = p' ∧ _ = d' := by simpa using he
      exact hpc
    | decrement =>
      obtain rfl : _ = t := by simpa only [hu, Option.some.injEq] using ht
      refine (h.setTable (t := s.table.decrement) (shrinks_of_pUser rfl rfl)).sweep
        fun i' p' d' he => ?_
      obtain ⟨rfl, rfl, rfl⟩ : i = i' ∧ p = p' ∧ _ = d' := by simpa using he
      exact hpc
    | testFd | cancel | close | clearFd | free =>
      obtain rfl : _ = t := by simpa only [hu, Option.some.injEq] using ht
      refine (h.setClient hk (by rw [hpc'])).sweep fun i' p' d' he => ?_
      obtain rfl : p = p' := elim_client he
      simpa [hpc'] using hpc
  | join =>
    simp only [hu] at ht
    split_ifs at ht
    obtain rfl := Option.some.inj ht
    exact h.sweep (by simp)
  | returned => simp [hu] at ht

theorem Tracked.step {σ : Setup} {s t : State} {l : Label} (h : Tracked s)
    (ht : step σ s l = some t) : Tracked t := by
  by_cases hl : l = .uninit
  · subst hl
    exact h.uninitStep ht
  · exact h.move (step_move ht hl)

theorem tracked_exec {σ : Setup} {ls : List Label} {s : State}
    (h : exec (step σ) (serverInit σ) ls = some s) : Tracked s :=
  invariant (G := fun _ _ => True) (fun _ _ _ hs _ ht => hs.step ht) (tracked_init σ)
    (obeys_of_forall (P := fun _ => True) (fun _ _ => trivial) _) h

def Serving (l : Label) : Prop := l ≠ .uninit

instance (l : Label) : Decidable (Serving l) := inferInstanceAs (Decidable (l ≠ .uninit))

def OnThreads (P : State → ℕ → Prop) (s : State) : Label → Prop
  | .thread k => P s k
  | _ => True

instance (P : State → ℕ → Prop) [hP : ∀ s k, Decidable (P s k)] (s : State) :
    (l : Label) → Decidable (OnThreads P s l)
  | .thread k => hP s k
  | .listener | .listenReturns _ | .acceptReturns _ | .mallocReturns _ | .createReturns _ =>
    .isTrue trivial
  | .recvReturns _ _ | .uninit => .isTrue trivial

end LibComm.StreamServer

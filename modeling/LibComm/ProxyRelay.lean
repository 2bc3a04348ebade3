import LibComm.ProxyStream
import LibComm.StreamEnd

/-!
# What passes through a mapping over its whole life

TCP clients come and go one after the other, and so do connections to the
pipe; both are numbered. A receive task has what it has received in hand until
its callback has sent it on. A callback reads the mapping and makes its `send`
in one step, and what it has is lost where there is nobody to send it to or
where `send` takes less than it is given. A `Leg` is one direction, from the
connections of one side to those of the other. No callback reads the flags
`tcpConnect` and `pipeConnect`, which are left out.
-/

namespace LibComm.ProxyRelay
open ByteMemory ByteStream Interleaving StreamEnd
open ProxyStream (transmitted)
open RecvTask (Chunk Outcome)
open SendCall (Args)

structure Forward where
  data : List UInt8
  sent : List UInt8

structure Leg where
  source : ℕ → Channel UInt8
  sink : ℕ → Channel UInt8
  hand : Option Chunk
  log : List Forward

namespace Leg

def empty : Leg := ⟨fun _ => .empty, fun _ => .empty, none, []⟩

def write (l : Leg) (i : ℕ) (bs : List UInt8) : Leg :=
  { l with source := Function.update l.source i ((l.source i).write bs) }

def read (l : Leg) (j : ℕ) (a : Take) : Option Leg :=
  (answer id false (l.sink j) a).map fun x => { l with sink := Function.update l.sink j x.1 }

def recv (l : Leg) (i : ℕ) (c : Channel UInt8) (m : Chunk) : Leg :=
  { l with source := Function.update l.source i c, hand := some m }

def forward (l : Leg) (j : Option ℕ) (data sent : List UInt8) : Leg :=
  { l with
    sink := j.elim l.sink fun j => Function.update l.sink j ((l.sink j).write sent)
    hand := none
    log := l.log ++ [⟨data, sent⟩] }

def drop (l : Leg) : Leg := { l with hand := none }

end Leg

structure User where
  fd : ℤ
  conn : ℕ

structure Pipe where
  fd : ℤ
  conn : Option ℕ
  task : Bool

/-- The server's client, the client for which it has still to call `tcpIpv4AcptFunc`, the mapping's
two pointers, whether `proxy_connectIpc` has still to connect, how many connections there have been
on each side, the peers that have closed theirs, and the two directions. -/
structure Relay where
  user : Option User
  accepted : Option User
  pTcpUser : Option User
  ipcStreamHandle : Option Pipe
  connecting : Bool
  tcpMade : ℕ
  pipeMade : ℕ
  tcpGone : ℕ → Bool
  pipeGone : ℕ → Bool
  up : Leg
  down : Leg

inductive Label where
  | accept (fd : ℤ)
  | acceptFunc
  | tcpRecv (a : Take)
  | tcpForward (recvMsg : ℕ → UInt8) (error : ℤ)
  | ceaseTcp
  | connectIpc (init : Option ℤ)
  | connect (access connect create : Bool)
  | disconnectIpc
  | ipcRecv (a : Take)
  | ipcForward (recvMsg : ℕ → UInt8) (error : ℤ)
  | tcpSend (i : ℕ) (bs : List UInt8)
  | tcpRead (i : ℕ) (a : Take)
  | tcpClose (i : ℕ)
  | pipeSend (j : ℕ) (bs : List UInt8)
  | pipeRead (j : ℕ) (a : Take)
  | pipeClose (j : ℕ)

def start : Relay :=
  ⟨none, none, none, none, false, 0, 0, fun _ => false, fun _ => false, .empty, .empty⟩

namespace Relay

def pipe (s : Relay) : Option ℕ := s.ipcStreamHandle.bind Pipe.conn

def tcpIpv4AcptFunc (s : Relay) (u : User) : Relay := { s with pTcpUser := some u }

def tcpIpv4ExitFunc (s : Relay) : Relay := { s with pTcpUser := none }

def tcpIpv4RecvFunc (s : Relay) (recvMsg : ℕ → UInt8) (data : List UInt8) (size : ℕ)
    (error : ℤ) : List UInt8 :=
  transmitted ⟨s.ipcStreamHandle.map Pipe.fd, some (store recvMsg 0 data), .ofNat size⟩ error

def ipcStreamRecvFunc (s : Relay) (recvMsg : ℕ → UInt8) (data : List UInt8) (size : ℕ)
    (error : ℤ) : List UInt8 :=
  match s.pTcpUser with
  | none => []
  | some u => transmitted ⟨some u.fd, some (store recvMsg 0 data), .ofNat size⟩ error

def accept (s : Relay) (fd : ℤ) : Option Relay :=
  if s.user.isNone ∧ s.accepted.isNone ∧ 0 < fd then
    some { s with
      user := some ⟨fd, s.tcpMade⟩, accepted := some ⟨fd, s.tcpMade⟩, tcpMade := s.tcpMade + 1 }
  else none

def acceptFunc (s : Relay) : Option Relay :=
  s.accepted.map fun u => { s.tcpIpv4AcptFunc u with accepted := none }

def tcpRecv (s : Relay) (a : Take) : Option Relay :=
  match s.user, s.up.hand with
  | some u, none =>
    (answer id (s.tcpGone u.conn) (s.up.source u.conn) a).map fun x =>
      match x.2 with
      | .data m => { s with up := s.up.recv u.conn x.1 m }
      | _ => { s.tcpIpv4ExitFunc with user := none }
  | _, _ => none

def tcpForward (s : Relay) (recvMsg : ℕ → UInt8) (error : ℤ) : Option Relay :=
  match s.up.hand with
  | none => none
  | some m =>
    if s.pipe = none ∧ 0 ≤ error then none
    else some { s with
      up := s.up.forward s.pipe m.bytes
        (s.tcpIpv4RecvFunc recvMsg m.bytes m.bytes.length error) }

def proxyCeaseTcp (s : Relay) : Relay :=
  { s with user := none, pTcpUser := none, up := s.up.drop }

/-- `proxy_connectIpc` up to its `access`; the old client goes, and the init has answered. -/
def proxyConnectIpc (s : Relay) (init : Option ℤ) : Option Relay :=
  if s.connecting then none
  else some { s with
    ipcStreamHandle := init.map fun fd => ⟨fd, none, false⟩
    connecting := init.isSome
    down := s.down.drop }

/-- The rest of `proxy_connectIpc`. A client whose task cannot be created stays connected. -/
def connect (s : Relay) (access connect create : Bool) : Option Relay :=
  match s.connecting, s.ipcStreamHandle with
  | true, some p =>
    if access ∧ connect then
      some { s with
        ipcStreamHandle := some ⟨p.fd, some s.pipeMade, create⟩
        connecting := false
        pipeMade := s.pipeMade + 1 }
    else some { s with connecting := false }
  | _, _ => none

def proxyDisconnectIpc (s : Relay) : Option Relay :=
  if s.connecting then none else some { s with ipcStreamHandle := none, down := s.down.drop }

def ipcRecv (s : Relay) (a : Take) : Option Relay :=
  match s.ipcStreamHandle, s.down.hand with
  | some ⟨_, some j, true⟩, none =>
    (answer id (s.pipeGone j) (s.down.source j) a).map fun x =>
      match x.2 with
      | .data m => { s with down := s.down.recv j x.1 m }
      | _ => { s with ipcStreamHandle := some ⟨-1, none, false⟩ }
  | _, _ => none

def ipcForward (s : Relay) (recvMsg : ℕ → UInt8) (error : ℤ) : Option Relay :=
  match s.down.hand with
  | none => none
  | some m =>
    some { s with
      down := s.down.forward (s.pTcpUser.map User.conn) m.bytes
        (s.ipcStreamRecvFunc recvMsg m.bytes m.bytes.length error) }

def step (s : Relay) : Label → Option Relay
  | .accept fd => s.accept fd
  | .acceptFunc => s.acceptFunc
  | .tcpRecv a => s.tcpRecv a
  | .tcpForward recvMsg error => s.tcpForward recvMsg error
  | .ceaseTcp => some s.proxyCeaseTcp
  | .connectIpc init => s.proxyConnectIpc init
  | .connect access connect create => s.connect access connect create
  | .disconnectIpc => s.proxyDisconnectIpc
  | .ipcRecv a => s.ipcRecv a
  | .ipcForward recvMsg error => s.ipcForward recvMsg error
  | .tcpSend i bs => if s.tcpGone i then none else some { s with up := s.up.write i bs }
  | .tcpRead i a => (s.down.read i a).map fun l => { s with down := l }
  | .tcpClose i => some { s with tcpGone := Function.update s.tcpGone i true }
  | .pipeSend j bs => if s.pipeGone j then none else some { s with down := s.down.write j bs }
  | .pipeRead j a => (s.up.read j a).map fun l => { s with up := l }
  | .pipeClose j => some { s with pipeGone := Function.update s.pipeGone j true }

end Relay

/-- A client's exit callback comes after its accept callback, and no client is freed while its task
has a chunk in hand. -/
def Orderly (s : Relay) : Label → Prop
  | .tcpRecv a => a = .closed ∨ a = .error → s.accepted = none
  | .ceaseTcp => s.accepted = none ∧ s.up.hand = none
  | .connectIpc _ | .disconnectIpc => s.down.hand = none
  | _ => True

instance (s : Relay) : (l : Label) → Decidable (Orderly s l)
  | .tcpRecv (.bytes _) => .isTrue (by simp [Orderly])
  | .tcpRecv .closed | .tcpRecv .error =>
    decidable_of_iff (s.accepted.isNone = true) (by simp [Orderly])
  | .ceaseTcp =>
    decidable_of_iff (s.accepted.isNone = true ∧ s.up.hand.isNone = true) (by simp [Orderly])
  | .connectIpc _ | .disconnectIpc =>
    decidable_of_iff (s.down.hand.isNone = true) (by simp [Orderly])
  | .accept _ | .acceptFunc | .tcpForward .. | .connect .. | .ipcRecv _ | .ipcForward ..
  | .tcpSend .. | .tcpRead .. | .tcpClose _ | .pipeSend .. | .pipeRead .. | .pipeClose _ =>
    .isTrue trivial

def Leg.held (l : Leg) : List UInt8 := l.hand.elim [] Chunk.bytes

/-- What `m` connections of one side have given and `n` of the other have got, one after the
other, is the log, and what is in hand comes next. -/
structure Leg.Kept (l : Leg) (m n : ℕ) : Prop where
  source : ((List.range m).flatMap fun i => (l.source i).delivered) =
    l.log.flatMap Forward.data ++ l.held
  sink : ((List.range n).flatMap fun j => (l.sink j).written) = l.log.flatMap Forward.sent
  sent : ∀ f ∈ l.log, f.sent <+: f.data
  noSource : ∀ i ≥ m, (l.source i).delivered = []
  noSink : ∀ j ≥ n, (l.sink j).written = []

section Legs
variable {l l' : Leg} {m n i : ℕ}

theorem Leg.Kept.empty : Leg.empty.Kept 0 0 :=
  ⟨rfl, rfl, by simp [Leg.empty], fun _ _ => rfl, fun _ _ => rfl⟩

theorem Leg.Kept.write (h : l.Kept m n) (bs : List UInt8) : (l.write i bs).Kept m n := by
  have hsame : ∀ k, ((l.write i bs).source k).delivered = (l.source k).delivered := by
    intro k
    by_cases hk : k = i
    · subst hk
      simp [Leg.write]
    · simp [Leg.write, hk]
  exact ⟨by simp only [hsame, h.source]; rfl, h.sink, h.sent,
    by simpa only [hsame] using h.noSource, h.noSink⟩

theorem Leg.Kept.read (h : l.Kept m n) {a : Take} (hl : l.read i a = some l') : l'.Kept m n := by
  simp only [Leg.read, Option.map_eq_some_iff] at hl
  obtain ⟨⟨c, r⟩, ha, rfl⟩ := hl
  have hsame : ∀ k, (Function.update l.sink i c k).written = (l.sink k).written := by
    intro k
    by_cases hk : k = i
    · subst hk
      simpa using answer_written ha
    · simp [hk]
  exact ⟨h.source, by simpa only [hsame] using h.sink, h.sent, h.noSource,
    by simpa only [hsame] using h.noSink⟩

theorem Leg.Kept.recv (h : l.Kept (i + 1) n) (hhand : l.hand = none) {c : Channel UInt8}
    {x : Chunk} (hc : c.delivered = (l.source i).delivered ++ x.bytes) :
    (l.recv i c x).Kept (i + 1) n where
  source := by
    rw [flatMap_range_snoc (f := fun i => (l.source i).delivered) x.bytes]
    · simp [Leg.recv, h.source, Leg.held, hhand]
    · simpa [Leg.recv] using hc
    · intro k hk
      simp [Leg.recv, hk.ne]
  sink := h.sink
  sent := h.sent
  noSource k hk := by
    simpa [Leg.recv, (Nat.lt_of_succ_le hk).ne'] using h.noSource k hk
  noSink := h.noSink

theorem Leg.Kept.forward (h : l.Kept m n) {x : Chunk} (hhand : l.hand = some x) {j : Option ℕ}
    {sent : List UInt8} (hj : ∀ k ∈ j, k + 1 = n) (hnone : j = none → sent = [])
    (hsent : sent <+: x.bytes) : (l.forward j x.bytes sent).Kept m n where
  source := by simp [Leg.forward, Leg.held, h.source, hhand]
  sink := by
    cases j with
    | none => simp [Leg.forward, h.sink, hnone rfl]
    | some k =>
      obtain rfl := hj k rfl
      rw [flatMap_range_snoc (f := fun j => (l.sink j).written) sent]
      · simp [Leg.forward, h.sink]
      · simp [Leg.forward]
      · intro k' hk
        simp [Leg.forward, hk.ne]
  sent f hf := by
    obtain hf | hf := List.mem_append.mp hf
    · exact h.sent f hf
    · obtain rfl := List.mem_singleton.mp hf
      exact hsent
  noSource := h.noSource
  noSink k hk := by
    cases j with
    | none => exact h.noSink k hk
    | some k' =>
      have hne : k ≠ k' := by
        have hlast := hj k' rfl
        omega
      simpa [Leg.forward, hne] using h.noSink k hk

theorem Leg.Kept.drop (h : l.Kept m n) (hhand : l.hand = none) : l.drop.Kept m n :=
  ⟨by simp [Leg.drop, Leg.held, h.source, hhand], h.sink, h.sent, h.noSource, h.noSink⟩

theorem Leg.Kept.newSource (h : l.Kept m n) : l.Kept (m + 1) n :=
  ⟨by rw [flatMap_range_succ (h.noSource m le_rfl), h.source], h.sink, h.sent,
    fun i hi => h.noSource i (Nat.le_of_succ_le hi), h.noSink⟩

theorem Leg.Kept.newSink (h : l.Kept m n) : l.Kept m (n + 1) :=
  ⟨h.source, by rw [flatMap_range_succ (h.noSink n le_rfl), h.sink], h.sent, h.noSource,
    fun j hj => h.noSink j (Nat.le_of_succ_le hj)⟩

end Legs

structure Inv (s : Relay) : Prop where
  up : s.up.Kept s.tcpMade s.pipeMade
  down : s.down.Kept s.pipeMade s.tcpMade
  user : ∀ u ∈ s.user, u.conn + 1 = s.tcpMade
  accepted : ∀ u ∈ s.accepted, s.user = some u
  mapping : ∀ u ∈ s.pTcpUser, s.user = some u
  pipe : ∀ p ∈ s.ipcStreamHandle, ∀ j ∈ p.conn, j + 1 = s.pipeMade

section Operations
variable {s t : Relay}

theorem transmitted_initial (fd : Option ℤ) (recvMsg : ℕ → UInt8) (m : Chunk) (error : ℤ) :
    transmitted ⟨fd, some (store recvMsg 0 m.bytes), .ofNat m.bytes.length⟩ error <+: m.bytes := by
  have hle : m.bytes.length ≤ 8191 := m.le
  have hsize : (UInt16.ofNat m.bytes.length).toNat = m.bytes.length :=
    UInt16.toNat_ofNat_of_lt' (by simp only [UInt16.size]; omega)
  unfold transmitted
  cases hr : Args.request ⟨fd, some (store recvMsg 0 m.bytes), .ofNat m.bytes.length⟩ with
  | none => exact List.nil_prefix
  | some bs =>
    have hbs : bs = m.bytes := by
      rw [(SendCall.request_some hr).1, Args.data, Option.elim_some, hsize, load_store]
    rw [Option.elim_some, hbs]
    exact List.take_prefix _ _

theorem transmitted_error (a : Args) {error : ℤ} (h : error < 0) : transmitted a error = [] := by
  unfold transmitted
  cases a.request <;> simp [Int.toNat_of_nonpos h.le]

theorem Inv.accept (h : Inv s) {fd : ℤ} (ht : s.accept fd = some t) : Inv t := by
  simp only [Relay.accept, Option.ite_none_right_eq_some, Option.some.injEq,
    Option.isNone_iff_eq_none] at ht
  obtain ⟨⟨huser, -⟩, rfl⟩ := ht
  refine ⟨h.up.newSource, h.down.newSink, by simp, by simp, fun u hu => ?_, h.pipe⟩
  have hmap := h.mapping u hu
  simp [huser] at hmap

theorem Inv.acceptFunc (h : Inv s) (ht : s.acceptFunc = some t) : Inv t := by
  obtain ⟨u, hu, rfl⟩ := Option.map_eq_some_iff.mp ht
  refine ⟨h.up, h.down, h.user, by simp, fun v hv => ?_, h.pipe⟩
  obtain rfl := Option.some.inj hv
  exact h.accepted u hu

theorem Inv.tcpRecv (h : Inv s) {a : Take} (hg : Orderly s (.tcpRecv a))
    (ht : s.tcpRecv a = some t) : Inv t := by
  unfold Relay.tcpRecv at ht
  split at ht
  case h_2 => simp at ht
  case h_1 u huser hhand =>
    obtain ⟨⟨c, r⟩, ha, rfl⟩ := Option.map_eq_some_iff.mp ht
    have hlast := h.user u huser
    cases r with
    | data m =>
      have hd := answer_delivered ha
      simp only [List.map_id] at hd
      refine ⟨?_, h.down, h.user, h.accepted, h.mapping, h.pipe⟩
      have hup := h.up
      dsimp only
      rw [← hlast] at hup ⊢
      exact hup.recv hhand hd
    | closed | error =>
      have hnone : s.accepted = none := hg (by cases a <;> simp [answer] at ha ⊢)
      exact ⟨h.up, h.down, by simp, by simp [Relay.tcpIpv4ExitFunc, hnone],
        by simp [Relay.tcpIpv4ExitFunc], h.pipe⟩

theorem Inv.tcpForward (h : Inv s) {recvMsg : ℕ → UInt8} {error : ℤ}
    (ht : s.tcpForward recvMsg error = some t) : Inv t := by
  unfold Relay.tcpForward at ht
  cases hhand : s.up.hand with
  | none => simp [hhand] at ht
  | some m =>
    simp only [hhand, Option.ite_none_left_eq_some, not_and, Int.not_le, Option.some.injEq] at ht
    obtain ⟨herror, rfl⟩ := ht
    refine ⟨h.up.forward hhand (fun k hk => ?_) (fun hn => transmitted_error _ (herror hn))
      (transmitted_initial _ _ _ _), h.down, h.user, h.accepted, h.mapping, h.pipe⟩
    obtain ⟨p, hp, hk⟩ := Option.bind_eq_some_iff.mp hk
    exact h.pipe p hp k hk

theorem Inv.ceaseTcp (h : Inv s) (hg : Orderly s .ceaseTcp) : Inv s.proxyCeaseTcp :=
  ⟨h.up.drop hg.2, h.down, by simp [Relay.proxyCeaseTcp], by simp [Relay.proxyCeaseTcp, hg.1],
    by simp [Relay.proxyCeaseTcp], h.pipe⟩

theorem Inv.connectIpc (h : Inv s) {init : Option ℤ} (hg : Orderly s (.connectIpc init))
    (ht : s.proxyConnectIpc init = some t) : Inv t := by
  simp only [Relay.proxyConnectIpc, Option.ite_none_left_eq_some, Option.some.injEq] at ht
  obtain ⟨-, rfl⟩ := ht
  exact ⟨h.up, h.down.drop hg, h.user, h.accepted, h.mapping, by simp⟩

theorem Inv.connect (h : Inv s) {access connect create : Bool}
    (ht : s.connect access connect create = some t) : Inv t := by
  unfold Relay.connect at ht
  split at ht
  case h_2 => simp at ht
  case h_1 p hconn hp =>
    split_ifs at ht
    · obtain rfl := Option.some.inj ht
      exact ⟨h.up.newSink, h.down.newSource, h.user, h.accepted, h.mapping, by simp⟩
    · obtain rfl := Option.some.inj ht
      exact { h with }

theorem Inv.disconnectIpc (h : Inv s) (hg : Orderly s .disconnectIpc)
    (ht : s.proxyDisconnectIpc = some t) : Inv t := by
  simp only [Relay.proxyDisconnectIpc, Option.ite_none_left_eq_some, Option.some.injEq] at ht
  obtain ⟨-, rfl⟩ := ht
  exact ⟨h.up, h.down.drop hg, h.user, h.accepted, h.mapping, by simp⟩

theorem Inv.ipcRecv (h : Inv s) {a : Take} (ht : s.ipcRecv a = some t) : Inv t := by
  unfold Relay.ipcRecv at ht
  split at ht
  case h_2 => simp at ht
  case h_1 fd j hp hhand =>
    obtain ⟨⟨c, r⟩, ha, rfl⟩ := Option.map_eq_some_iff.mp ht
    have hlast := h.pipe _ hp j rfl
    cases r with
    | data m =>
      have hd := answer_delivered ha
      simp only [List.map_id] at hd
      refine ⟨h.up, ?_, h.user, h.accepted, h.mapping, h.pipe⟩
      have hdown := h.down
      dsimp only
      rw [← hlast] at hdown ⊢
      exact hdown.recv hhand hd
    | closed | error => exact ⟨h.up, h.down, h.user, h.accepted, h.mapping, by simp⟩

theorem Inv.ipcForward (h : Inv s) {recvMsg : ℕ → UInt8} {error : ℤ}
    (ht : s.ipcForward recvMsg error = some t) : Inv t := by
  unfold Relay.ipcForward at ht
  cases hhand : s.down.hand with
  | none => simp [hhand] at ht
  | some m =>
    simp only [hhand, Option.some.injEq] at ht
    subst ht
    refine ⟨h.up, h.down.forward hhand (fun k hk => ?_) (fun hn => ?_) ?_, h.user, h.accepted,
      h.mapping, h.pipe⟩
    · obtain ⟨u, hu, rfl⟩ := Option.map_eq_some_iff.mp hk
      exact h.user u (h.mapping u hu)
    · rw [Relay.ipcStreamRecvFunc, Option.map_eq_none_iff.mp hn]
    · cases hu : s.pTcpUser with
      | none => simp [Relay.ipcStreamRecvFunc, hu]
      | some u =>
        simp only [Relay.ipcStreamRecvFunc, hu]
        exact transmitted_initial _ _ _ _

theorem Inv.step (h : Inv s) {l : Label} (hg : Orderly s l) (ht : s.step l = some t) : Inv t := by
  cases l with
  | accept fd => exact h.accept ht
  | acceptFunc => exact h.acceptFunc ht
  | tcpRecv a => exact h.tcpRecv hg ht
  | tcpForward recvMsg error => exact h.tcpForward ht
  | ceaseTcp => exact Option.some.inj ht ▸ h.ceaseTcp hg
  | connectIpc init => exact h.connectIpc hg ht
  | connect access connect create => exact h.connect ht
  | disconnectIpc => exact h.disconnectIpc hg ht
  | ipcRecv a => exact h.ipcRecv ht
  | ipcForward recvMsg error => exact h.ipcForward ht
  | tcpSend i bs =>
    simp only [Relay.step, Option.ite_none_left_eq_some, Option.some.injEq] at ht
    exact ht.2 ▸ { h with up := h.up.write bs }
  | tcpRead i a =>
    simp only [Relay.step, Option.map_eq_some_iff] at ht
    obtain ⟨l, hl, rfl⟩ := ht
    exact { h with down := h.down.read hl }
  | tcpClose i => exact Option.some.inj ht ▸ { h with }
  | pipeSend j bs =>
    simp only [Relay.step, Option.ite_none_left_eq_some, Option.some.injEq] at ht
    exact ht.2 ▸ { h with down := h.down.write bs }
  | pipeRead j a =>
    simp only [Relay.step, Option.map_eq_some_iff] at ht
    obtain ⟨l, hl, rfl⟩ := ht
    exact { h with up := h.up.read hl }
  | pipeClose j => exact Option.some.inj ht ▸ { h with }

end Operations

/-- What arrives on the connections of one side, one after the other, is part of what was sent on
those of the other, in order and nothing twice, and the proxy loses nothing exactly if every chunk
was sent on whole. -/
structure Relayed (l : Leg) (m n : ℕ) : Prop where
  part : ((List.range n).flatMap fun j => (l.sink j).delivered).Sublist
    ((List.range m).flatMap fun i => (l.source i).written)
  others : ∀ j ≥ n, (l.sink j).written = []
  exact : ((List.range n).flatMap fun j => (l.sink j).written) ++ l.held =
      ((List.range m).flatMap fun i => (l.source i).delivered) ↔ ∀ f ∈ l.log, f.sent = f.data

theorem Leg.Kept.relayed {l : Leg} {m n : ℕ} (h : l.Kept m n) : Relayed l m n where
  part :=
    calc ((List.range n).flatMap fun j => (l.sink j).delivered).Sublist
          ((List.range n).flatMap fun j => (l.sink j).written) :=
        List.Sublist.flatMap_right _ fun j _ => (l.sink j).delivered_initial.sublist
      _ = l.log.flatMap Forward.sent := h.sink
      List.Sublist _ (l.log.flatMap Forward.data) :=
        List.Sublist.flatMap_right _ fun f hf => (h.sent f hf).sublist
      List.Sublist _ (l.log.flatMap Forward.data ++ l.held) := List.sublist_append_left _ _
      _ = (List.range m).flatMap fun i => (l.source i).delivered := h.source.symm
      List.Sublist _ ((List.range m).flatMap fun i => (l.source i).written) :=
        List.Sublist.flatMap_right _ fun i _ => (l.source i).delivered_initial.sublist
  others := h.noSink
  exact := by
    rw [h.sink, h.source, List.append_cancel_right_eq]
    exact flatMap_prefix_eq_iff h.sent

def twoClients : List Label :=
  [.connectIpc (some 5), .connect true true true, .accept 6, .tcpSend 0 [1, 2, 3],
    .tcpRecv (.bytes 3), .acceptFunc, .tcpForward (fun _ => 0) 2, .tcpClose 0, .tcpRecv .closed,
    .accept 6, .tcpSend 1 [4], .acceptFunc, .tcpRecv (.bytes 1), .pipeSend 0 [9],
    .ipcRecv (.bytes 1), .tcpForward (fun _ => 0) 1, .pipeRead 0 (.bytes 3),
    .ipcForward (fun _ => 0) 1]

end LibComm.ProxyRelay

import LibComm.Proxy

/-!
# The TCP side of a mapping

The exit callback clears `tcpConnect` and `pTcpUser` without a look at which
user has left. That is sound because the server admits one client: the slot
of a client is released only after its exit callback, and no client is
admitted while the slot is taken. The invariant names the client that is
counted, if there is one, and says what the server and the mapping hold at
each point of its life.
-/

namespace LibComm.Proxy
open ClientTable Interleaving

namespace TcpPc

def isOpen : TcpPc → Bool
  | .loop | .recv | .readHandle | .send _ | .close | .clearFd => true
  | _ => false

def announced : TcpPc → Bool
  | .exitFunc => true
  | pc => pc.isOpen

def seated : TcpPc → Bool
  | .search => true
  | pc => pc.announced

def counted : TcpPc → Bool
  | .decrement => true
  | pc => pc.seated

theorem counted_of_seated {pc : TcpPc} (h : pc.seated = true) : pc.counted = true := by
  cases pc <;> first | rfl | exact h

theorem seated_of_isOpen {pc : TcpPc} (h : pc.isOpen = true) :
    pc.announced = true ∧ pc.seated = true := by
  cases pc <;> first | exact ⟨rfl, rfl⟩ | cases h

theorem seated_of_announced {pc : TcpPc} (h : pc.announced = true) : pc.seated = true := by
  cases pc <;> first | rfl | exact h

theorem counted_of_isOpen {pc : TcpPc} (h : pc.isOpen = true) : pc.counted = true :=
  counted_of_seated (seated_of_isOpen h).2

theorem ne_absent {pc : TcpPc} (h : pc.counted = true) : pc ≠ .absent := by
  intro heq
  obtain rfl := heq
  cases h

end TcpPc

namespace Tcp

def ptr (s : Tcp) (k : ℕ) : Ptr := ⟨(s.clients k).addr, k⟩

structure Vacant (s : Tcp) : Prop where
  userNum : s.table.userNum = 0
  slot : s.table.pUser 0 = none
  user : s.pTcpUser = none
  flag : s.tcpConnect = false

structure Serves (s : Tcp) (k : ℕ) : Prop where
  counted : (s.clients k).pc.counted = true
  userNum : s.table.userNum = 1
  slot : s.table.pUser 0 = if (s.clients k).pc.seated then some (s.ptr k) else none
  user : s.pTcpUser = if (s.clients k).pc.announced then some (s.ptr k) else none
  flag : s.tcpConnect = (s.clients k).pc.announced
  fd : (s.clients k).pc.isOpen = true → 0 < (s.clients k).fd
  held : (s.clients k).freed = false

theorem Serves.congr {s t : Tcp} {k : ℕ} (h : s.Serves k) (hc : t.clients k = s.clients k)
    (ht : t.table = s.table) (hu : t.pTcpUser = s.pTcpUser) (hf : t.tcpConnect = s.tcpConnect) :
    t.Serves k := by
  obtain ⟨h1, h2, h3, h4, h5, h6, h7⟩ := h
  constructor <;> simpa only [hc, ht, hu, hf, ptr]

/-- The server has one client at most, `cur`. -/
structure OneClient (s : Tcp) (cur : Option ℕ) : Prop where
  limit : s.table.maxUserNum = 1
  fresh : ∀ k, s.accepted ≤ k → (s.clients k).pc = .absent
  others : ∀ k, cur ≠ some k → (s.clients k).pc.counted = false
  now : cur.elim s.Vacant s.Serves

theorem oneClient_start : proxyLaunchTcp.OneClient none where
  limit := rfl
  fresh _ _ := rfl
  others _ _ := rfl
  now := ⟨rfl, rfl, rfl, rfl⟩

namespace OneClient
variable {s t : Tcp} {cur : Option ℕ} {handle : Option Ptr} {k : ℕ}

theorem cur_eq (h : s.OneClient cur) (hk : (s.clients k).pc.counted = true) : cur = some k := by
  by_contra hn
  simp [h.others k hn] at hk

theorem serves (h : s.OneClient cur) (hk : (s.clients k).pc.counted = true) : s.Serves k := by
  have hn := h.now
  rwa [h.cur_eq hk] at hn

theorem admitted (h : s.OneClient cur) (hk : (s.clients k).pc ≠ .absent) : k < s.accepted := by
  by_contra hn
  exact hk (h.fresh k (not_lt.mp hn))

theorem update (h : s.OneClient cur) (hk : (s.clients k).pc ≠ .absent) {c : TcpClient}
    (hc : t.clients = Function.update s.clients k c) (ha : t.accepted = s.accepted)
    (hm : t.table.maxUserNum = s.table.maxUserNum) {next : Option ℕ}
    (hp : next ≠ some k → c.pc.counted = false)
    (ho : ∀ j, j ≠ k → next ≠ some j → cur ≠ some j) (hn : next.elim t.Vacant t.Serves) :
    t.OneClient next := by
  have hlt : k < s.accepted := h.admitted hk
  constructor
  case limit => rw [hm, h.limit]
  case fresh =>
    intro j hj
    rw [hc, Function.update_of_ne (by omega)]
    exact h.fresh j (ha ▸ hj)
  case others =>
    intro j hj
    by_cases hjk : j = k
    · rw [hc, hjk, Function.update_self]
      exact hp (hjk ▸ hj)
    · rw [hc, Function.update_of_ne hjk]
      exact h.others j (ho j hjk hj)
  case now => exact hn

theorem stays (h : s.OneClient cur) (hk : (s.clients k).pc.counted = true) {c : TcpClient}
    (hc : t.clients = Function.update s.clients k c) (ha : t.accepted = s.accepted)
    (hm : t.table.maxUserNum = s.table.maxUserNum) (ht : t.Serves k) : t.OneClient (some k) := by
  apply h.update (TcpPc.ne_absent hk) hc ha hm
  · intro hn
    exact absurd rfl hn
  · intro j hj _
    rw [h.cur_eq hk]
    exact fun e => hj (Option.some.inj e).symm
  · exact ht

theorem leaves (h : s.OneClient cur) (hk : (s.clients k).pc.counted = true) {c : TcpClient}
    (hc : t.clients = Function.update s.clients k c) (hp : c.pc.counted = false)
    (ha : t.accepted = s.accepted) (hm : t.table.maxUserNum = s.table.maxUserNum)
    (ht : t.Vacant) : t.OneClient none := by
  apply h.update (TcpPc.ne_absent hk) hc ha hm
  · intro _
    exact hp
  · intro j hj _
    rw [h.cur_eq hk]
    exact fun e => hj (Option.some.inj e).symm
  · exact ht

theorem rests (h : s.OneClient cur) (ha : (s.clients k).pc ≠ .absent)
    (hk : (s.clients k).pc.counted = false) {c : TcpClient} (hc : c.pc.counted = false) :
    (s.setClient k c).OneClient cur := by
  have hn := h.now
  apply h.update (t := s.setClient k c) ha rfl rfl rfl
  · intro _
    exact hc
  · intro j _ hj
    exact hj
  · cases cur with
    | none => exact ⟨hn.userNum, hn.slot, hn.user, hn.flag⟩
    | some i =>
      have hik : i ≠ k := by
        intro heq
        obtain rfl := heq
        rw [hn.counted] at hk
        exact absurd hk (by decide)
      exact Serves.congr hn (Function.update_of_ne hik _ _) rfl rfl rfl

theorem goto_open (h : s.OneClient cur) (hk : (s.clients k).pc.isOpen = true) {pc : TcpPc}
    (hp : pc.isOpen = true) : (s.goto k pc).OneClient (some k) := by
  have hc := TcpPc.counted_of_isOpen hk
  have hv := h.serves hc
  obtain ⟨ha, hs⟩ := TcpPc.seated_of_isOpen hk
  obtain ⟨ha', hs'⟩ := TcpPc.seated_of_isOpen hp
  apply h.stays (t := s.goto k pc) hc rfl rfl rfl
  constructor
  case counted => simpa [goto] using TcpPc.counted_of_isOpen hp
  case userNum => exact hv.userNum
  case slot => simpa [goto, hs, hs', ptr] using hv.slot
  case user => simpa [goto, ha, ha', ptr] using hv.user
  case flag => simpa [goto, ha, ha'] using hv.flag
  case fd => simpa [goto] using fun _ => hv.fd hk
  case held => simpa [goto] using hv.held

theorem limit_slot (h : s.OneClient cur) {i : Fin tcpUserNum} (hi : (i : ℤ) < s.table.maxUserNum) :
    i = 0 := by
  rw [h.limit] at hi
  have hv : (i : ℕ) = 0 := by omega
  exact Fin.ext hv

theorem slotOf_cur (h : s.OneClient cur) (hk : (s.clients k).pc.seated = true) :
    s.table.slotOf (fun p => p.addr == (s.clients k).addr) = some 0 := by
  have hs := (h.serves (TcpPc.counted_of_seated hk)).slot
  rw [if_pos hk] at hs
  have h0 : ((0 : Fin tcpUserNum) : ℤ) < s.table.maxUserNum := by simp [h.limit]
  cases hf : s.table.slotOf fun p => p.addr == (s.clients k).addr with
  | none =>
    have hq := Table.slotOf_none hf h0 hs
    simp [ptr] at hq
  | some i =>
    obtain ⟨hi, -⟩ := Table.slotOf_some hf
    rw [h.limit_slot hi]

theorem clearFd (h : s.OneClient cur) (hpc : (s.clients k).pc = .clearFd) :
    (s.setClient k { s.clients k with fd := -1, pc := .exitFunc }).OneClient (some k) := by
  have hk : (s.clients k).pc.counted = true := by rw [hpc]; rfl
  obtain ⟨-, hnum, hslot, huser, hflag, -, hheld⟩ := h.serves hk
  rw [hpc] at hslot huser hflag
  apply h.stays (t := s.setClient k _) hk rfl rfl rfl
  constructor
  case counted => simp [TcpPc.counted, TcpPc.seated, TcpPc.announced]
  case userNum => exact hnum
  case slot => simpa [TcpPc.seated, TcpPc.announced, TcpPc.isOpen, ptr] using hslot
  case user => simpa [TcpPc.announced, TcpPc.isOpen, ptr] using huser
  case flag => simpa [TcpPc.announced, TcpPc.isOpen] using hflag
  case fd => simp [TcpPc.isOpen]
  case held => simpa using hheld

theorem exitFunc (h : s.OneClient cur) (hpc : (s.clients k).pc = .exitFunc) :
    (s.tcpIpv4ExitFunc.goto k .search).OneClient (some k) := by
  have hk : (s.clients k).pc.counted = true := by rw [hpc]; rfl
  obtain ⟨-, hnum, hslot, -, -, -, hheld⟩ := h.serves hk
  rw [hpc] at hslot
  apply h.stays (t := s.tcpIpv4ExitFunc.goto k .search) hk rfl rfl rfl
  constructor
  case counted => simp [goto, TcpPc.counted, TcpPc.seated]
  case userNum => exact hnum
  case slot => simpa [goto, tcpIpv4ExitFunc, TcpPc.seated, TcpPc.announced, ptr] using hslot
  case user => simp [goto, tcpIpv4ExitFunc, TcpPc.announced, TcpPc.isOpen]
  case flag => simp [goto, tcpIpv4ExitFunc, TcpPc.announced, TcpPc.isOpen]
  case fd => simp [goto, TcpPc.isOpen]
  case held => simpa [goto, tcpIpv4ExitFunc] using hheld

theorem search (h : s.OneClient cur) (hpc : (s.clients k).pc = .search) :
    ((s.setTable (s.table.setSlot 0 none)).goto k .decrement).OneClient (some k) := by
  have hk : (s.clients k).pc.counted = true := by rw [hpc]; rfl
  obtain ⟨-, hnum, -, huser, hflag, -, hheld⟩ := h.serves hk
  rw [hpc] at huser hflag
  apply h.stays (t := (s.setTable (s.table.setSlot 0 none)).goto k .decrement) hk rfl rfl rfl
  constructor
  case counted => simp [goto, TcpPc.counted]
  case userNum => exact hnum
  case slot => simp [goto, TcpPc.seated, TcpPc.announced, TcpPc.isOpen]
  case user => simpa [goto, TcpPc.announced, TcpPc.isOpen] using huser
  case flag => simpa [goto, TcpPc.announced, TcpPc.isOpen] using hflag
  case fd => simp [goto, TcpPc.isOpen]
  case held => simpa [goto] using hheld

theorem decrement (h : s.OneClient cur) (hpc : (s.clients k).pc = .decrement) :
    ((s.setTable s.table.decrement).goto k .testFd).OneClient none := by
  have hk : (s.clients k).pc.counted = true := by rw [hpc]; rfl
  obtain ⟨-, hnum, hslot, huser, hflag, -, -⟩ := h.serves hk
  rw [hpc] at hslot huser hflag
  apply h.leaves (t := (s.setTable s.table.decrement).goto k .testFd) hk rfl rfl rfl rfl
  constructor
  case userNum => simp [goto, Table.decrement, hnum]
  case slot => exact hslot
  case user => exact huser
  case flag => exact hflag

/-- What `fd = -1`, the exit callback, the slot and the count do, one after the other. -/
theorem thread (h : s.OneClient cur) (ht : s.threadStep handle k = some t) :
    ∃ next, t.OneClient next := by
  cases hpc : (s.clients k).pc with
  | absent | recv | ended | cancelled => simp [threadStep, hpc] at ht
  | loop =>
    have hv := h.serves (TcpPc.counted_of_isOpen (by rw [hpc]; rfl))
    have hfd := hv.fd (by rw [hpc]; rfl)
    simp only [threadStep, hpc, gt_iff_lt, hfd, if_true, Option.some.injEq] at ht
    exact ⟨_, ht ▸ h.goto_open (by rw [hpc]; rfl) rfl⟩
  | readHandle | send | close =>
    simp only [threadStep, hpc, Option.some.injEq] at ht
    exact ⟨_, ht ▸ h.goto_open (by rw [hpc]; rfl) rfl⟩
  | clearFd =>
    simp only [threadStep, hpc, Option.some.injEq] at ht
    exact ⟨_, ht ▸ h.clearFd hpc⟩
  | exitFunc =>
    simp only [threadStep, hpc, Option.some.injEq] at ht
    exact ⟨_, ht ▸ h.exitFunc hpc⟩
  | search =>
    -- the exit callback is over, and only now can a newcomer get the slot
    simp only [threadStep, hpc, h.slotOf_cur (by rw [hpc]; rfl), Option.some.injEq] at ht
    exact ⟨_, ht ▸ h.search hpc⟩
  | decrement =>
    simp only [threadStep, hpc, Option.some.injEq] at ht
    exact ⟨_, ht ▸ h.decrement hpc⟩
  | testFd =>
    simp only [threadStep, hpc, Option.some.injEq] at ht
    refine ⟨cur, ht ▸ h.rests (by rw [hpc]; nofun) (by rw [hpc]; rfl) ?_⟩
    split <;> rfl
  | free =>
    simp only [threadStep, hpc, Option.some.injEq] at ht
    exact ⟨cur, ht ▸ h.rests (by rw [hpc]; nofun) (by rw [hpc]; rfl) rfl⟩

theorem accept (h : s.OneClient cur) {fd : ℤ} {mem : Option ℕ} {thread : Bool}
    (hfd : (s.acceptClient fd mem thread).accepted ≠ s.accepted → 0 < fd) :
    ∃ next, (s.acceptClient fd mem thread).OneClient next := by
  rcases s.table.acceptClient_cases (mem.map fun a => ⟨a, s.accepted⟩) thread with
    ⟨e, he, -, -⟩ | ⟨p, i, hp, hlt, hi, he⟩
  · rw [acceptClient_error he]
    exact ⟨cur, h⟩
  obtain ⟨a, -, rfl⟩ := Option.map_eq_some_iff.mp hp
  obtain ⟨him, -⟩ := Table.freeSlot_some hi
  obtain rfl := h.limit_slot him
  rw [acceptClient_ok he] at hfd ⊢
  have hpos : 0 < fd := hfd (by simp)
  have hn := h.now
  rw [h.limit] at hlt
  cases cur with
  -- the capacity check has failed for as long as a client is counted
  | some k => exact absurd hn.userNum (by omega)
  | none =>
    refine ⟨some s.accepted, ?_⟩
    constructor
    case limit => exact h.limit
    case fresh =>
      intro j hj
      have hlt : s.accepted < j := hj
      simpa [hlt.ne'] using h.fresh j hlt.le
    case others =>
      intro j hj
      have hne : j ≠ s.accepted := fun e => hj (congrArg some e.symm)
      simpa [hne] using h.others j (by simp)
    case now =>
      constructor
      case counted => simp [TcpPc.counted, TcpPc.seated, TcpPc.announced, TcpPc.isOpen]
      case userNum => simp [hn.userNum]
      case slot => simp [TcpPc.seated, TcpPc.announced, TcpPc.isOpen, ptr]
      case user => simp [TcpPc.announced, TcpPc.isOpen, ptr]
      case flag => simp [TcpPc.announced, TcpPc.isOpen]
      case fd => simpa using fun _ => hpos
      case held => simp

theorem step (h : s.OneClient cur) {l : TcpLabel} (ht : s.step handle l = some t)
    (hfd : ∀ fd mem thread, l = .accept fd mem thread →
      (s.acceptClient fd mem thread).accepted ≠ s.accepted → 0 < fd) :
    ∃ next, t.OneClient next := by
  cases l with
  | accept fd mem thread =>
    simp only [Tcp.step, Option.ite_none_right_eq_some, Option.some.injEq] at ht
    obtain ⟨-, rfl⟩ := ht
    exact h.accept (hfd fd mem thread rfl)
  | thread k => exact h.thread ht
  | recvReturns k len =>
    simp only [Tcp.step, Option.ite_none_right_eq_some, Option.some.injEq] at ht
    obtain ⟨hk, rfl⟩ := ht
    refine ⟨some k, h.goto_open (by rw [hk]; rfl) ?_⟩
    split <;> rfl

end OneClient

/-- What the mapping says of the server is true, and an exit callback that is due belongs to the
user that the mapping names. -/
structure Consistent (s : Tcp) : Prop where
  user : ∀ p, s.pTcpUser = some p → s.table.pUser 0 = some p ∧
    (s.clients p.id).addr = p.addr ∧ (s.clients p.id).freed = false
  flag : s.tcpConnect = true ↔ s.pTcpUser ≠ none
  exit : ∀ k, (s.clients k).pc = .exitFunc → s.pTcpUser = some (s.ptr k)

theorem OneClient.consistent {s : Tcp} {cur : Option ℕ} (h : s.OneClient cur) : s.Consistent := by
  have hn := h.now
  cases cur with
  | none =>
    constructor
    case user => simp [hn.user]
    case flag => simp [hn.flag, hn.user]
    case exit =>
      intro k hk
      have hc := h.others k (by simp)
      rw [hk] at hc
      cases hc
  | some i =>
    constructor
    case user =>
      intro p hp
      rw [hn.user, Option.ite_none_right_eq_some] at hp
      obtain ⟨ha, hp⟩ := hp
      obtain rfl := Option.some.inj hp
      have hslot := hn.slot
      rw [if_pos (TcpPc.seated_of_announced ha)] at hslot
      exact ⟨hslot, rfl, hn.held⟩
    case flag => simp [hn.flag, hn.user]
    case exit =>
      intro k hk
      have hc : (s.clients k).pc.counted = true := by rw [hk]; rfl
      have hv := h.serves hc
      rw [hv.user, hk]
      rfl

end Tcp

/-- No client is admitted on descriptor 0. -/
def OpenFd (s : State) : Label → Prop
  | .tcp (.accept fd mem thread) =>
    (s.tcp.acceptClient fd mem thread).accepted ≠ s.tcp.accepted → 0 < fd
  | _ => True

theorem oneClient_step {s t : State} {l : Label} (h : ∃ cur, s.tcp.OneClient cur)
    (hg : OpenFd s l) (ht : step s l = some t) : ∃ cur, t.tcp.OneClient cur := by
  apply (step_keeps (I := fun c => ∃ cur, c.OneClient cur) (J := fun _ => True) ht _ _
    ⟨h, trivial⟩).1
  · intro l u heq hx hu
    obtain rfl := heq
    obtain ⟨cur, hc⟩ := hx
    apply hc.step hu
    intro fd mem thread heq
    obtain rfl := heq
    exact hg
  · intros
    trivial

theorem oneClient_exec {ls : List Label} {s : State} (ho : Obeys step OpenFd start ls)
    (h : exec step start ls = some s) : ∃ cur, s.tcp.OneClient cur :=
  invariant (I := fun s : State => ∃ cur, s.tcp.OneClient cur)
    (fun _ _ _ hs hg ht => oneClient_step hs hg ht) ⟨none, Tcp.oneClient_start⟩ ho h

/-- Whatever the clients and the pipe do, the TCP side of the mapping is consistent. -/
theorem tcp_consistent {ls : List Label} {s : State}
    (hfd : ∀ fd mem thread, .tcp (.accept fd mem thread) ∈ ls → 0 < fd)
    (h : exec step start ls = some s) : s.tcp.Consistent := by
  have ho : Obeys step (fun _ l => l ∈ ls) start ls := obeys_of_forall (fun _ hl => hl) start
  have hopen : Obeys step OpenFd start ls := by
    apply ho.mono
    intro s l hl
    cases l with
    | tcp l =>
      cases l with
      | accept fd mem thread => exact fun _ => hfd fd mem thread hl
      | thread k => trivial
      | recvReturns k len => trivial
    | ipc l => trivial
  obtain ⟨cur, hc⟩ := oneClient_exec hopen h
  exact hc.consistent

def reconnect : List Label :=
  [.tcp (.accept 4 (some 100) true), .tcp (.thread 0), .tcp (.recvReturns 0 12), .tcp (.thread 0),
    .tcp (.thread 0), .tcp (.thread 0), .tcp (.recvReturns 0 0), .tcp (.thread 0), .tcp (.thread 0),
    .tcp (.accept 5 (some 200) true), .tcp (.thread 0), .tcp (.thread 0), .tcp (.thread 0),
    .tcp (.accept 5 (some 200) true), .tcp (.thread 0), .tcp (.thread 0)]

theorem tcp_consistent_reconnect : ∃ s : State, s.tcp.pTcpUser = some ⟨200, 1⟩ ∧
    (s.tcp.clients 0).pc = .ended ∧ s.tcp.Consistent := by
  have hrun : (exec step start reconnect).map
      (fun s => (s.tcp.pTcpUser, (s.tcp.clients 0).pc)) = some (some ⟨200, 1⟩, .ended) := by
    decide +kernel
  obtain ⟨s, hs, he⟩ := Option.map_eq_some_iff.mp hrun
  obtain ⟨hu, hp⟩ := Prod.mk.inj he
  refine ⟨s, hu, hp, tcp_consistent ?_ hs⟩
  intro fd mem thread hl
  simp [reconnect] at hl
  omega

end LibComm.Proxy

import Mathlib.Data.Finset.Card
import Mathlib.Data.List.FinRange
import LibComm.ClientTable
import LibComm.Interleaving

/-!
# Client table calls run to completion

`AcceptClient`, `DisconnectClient` and the sweep of `ServerUninit` as whole
calls on a server: the table, the client records and the descriptors closed so
far. The three stream servers contain the same code for these calls. Which
clients are live is read off the calls and what they have returned.
-/

namespace LibComm.TableCalls
open ClientTable Interleaving

structure User where
  addr : List UInt8
  fd : ℤ

structure Server where
  table : Table ℕ
  user : ℕ → User
  closed : List ℤ

def serverInit (maxUserNum : ℤ) : Server := ⟨.init maxUserNum, fun _ => ⟨[], -1⟩, []⟩

def acceptClient (s : Server) (addr : List UInt8) (fd : ℤ) (mem : Option ℕ) (thread : Bool) :
    Server × Except Refusal ℕ :=
  let r := s.table.acceptClient mem thread
  match r.2 with
  | .ok p => ({ s with table := r.1, user := Function.update s.user p ⟨addr, fd⟩ }, .ok p)
  | .error e => ({ s with table := r.1 }, .error e)

def disconnectClient (s : Server) (p : ℕ) : Server where
  table := s.table.disconnectClient (· == p)
  user := if (s.user p).fd > 0 then Function.update s.user p { s.user p with fd := -1 } else s.user
  closed := if (s.user p).fd > 0 then s.closed ++ [(s.user p).fd] else s.closed

/-- One iteration of the sweep; `DisconnectClient` does nothing on a NULL slot. -/
def sweepSlot (disconnect : Server → ℕ → Server) (s : Server) (i : Fin tcpUserNum) : Server :=
  if (i : ℤ) < s.table.maxUserNum then
    match s.table.pUser i with
    | none => s
    | some p => disconnect s p
  else s

def serverUninit (disconnect : Server → ℕ → Server) (s : Server) : Server :=
  (List.finRange tcpUserNum).foldl (sweepSlot disconnect) { s with table := s.table.resetNum }

def tcpIpv4ServerInit := serverInit
def tcpIpv6ServerInit := serverInit
def ipcStreamInitServer := serverInit
def tcpIpv4AcceptClient := acceptClient
def tcpIpv6AcceptClient := acceptClient
def ipcStreamAcceptClient := acceptClient
def tcpIpv4DisconnectClient := disconnectClient
def tcpIpv6DisconnectClient := disconnectClient
def ipcStreamDisconnectClient := disconnectClient
def tcpIpv4ServerUninit := serverUninit tcpIpv4DisconnectClient
def tcpIpv6ServerUninit := serverUninit tcpIpv6DisconnectClient
def ipcStreamUninitServer := serverUninit ipcStreamDisconnectClient

def initOf : Kind → ℤ → Server
  | .tcpIpv4 => tcpIpv4ServerInit
  | .tcpIpv6 => tcpIpv6ServerInit
  | .ipcStream => ipcStreamInitServer

def acceptOf : Kind → Server → List UInt8 → ℤ → Option ℕ → Bool →
    Server × Except Refusal ℕ
  | .tcpIpv4 => tcpIpv4AcceptClient
  | .tcpIpv6 => tcpIpv6AcceptClient
  | .ipcStream => ipcStreamAcceptClient

def disconnectOf : Kind → Server → ℕ → Server
  | .tcpIpv4 => tcpIpv4DisconnectClient
  | .tcpIpv6 => tcpIpv6DisconnectClient
  | .ipcStream => ipcStreamDisconnectClient

def uninitOf : Kind → Server → Server
  | .tcpIpv4 => tcpIpv4ServerUninit
  | .tcpIpv6 => tcpIpv6ServerUninit
  | .ipcStream => ipcStreamUninitServer

inductive Call where
  | accept (addr : List UInt8) (fd : ℤ) (mem : Option ℕ) (thread : Bool)
  | disconnect (p : ℕ)

/-- A server after some calls, with the clients that accepts have returned and that nobody has
disconnected since. -/
structure Run where
  server : Server
  live : Finset ℕ

def start (k : Kind) (maxUserNum : ℤ) : Run := ⟨initOf k maxUserNum, ∅⟩

def joined (live : Finset ℕ) : Except Refusal ℕ → Finset ℕ
  | .ok p => insert p live
  | .error _ => live

/-- `malloc` never returns a record in use, and only a live client is disconnected. -/
def call (k : Kind) (r : Run) : Call → Option Run
  | .accept addr fd mem thread =>
    if ∃ p ∈ mem, p ∈ r.live then none
    else
      let a := acceptOf k r.server addr fd mem thread
      some ⟨a.1, joined r.live a.2⟩
  | .disconnect p =>
    if p ∈ r.live then some ⟨disconnectOf k r.server p, r.live.erase p⟩ else none

/-- What an accept returns, by the number of live clients. -/
def answer (r : Run) (mem : Option ℕ) (thread : Bool) : Except Refusal ℕ :=
  if (r.live.card : ℤ) = r.server.table.maxUserNum then .error .exceeded
  else
    match mem with
    | none => .error .noMemory
    | some p => if thread then .ok p else .error .noThread

structure Entered (s t : Server) (p : ℕ) (addr : List UInt8) (fd : ℤ) : Prop where
  slot : ∃ i : Fin tcpUserNum, (i : ℤ) < s.table.maxUserNum ∧ s.table.pUser i = none ∧
    t.table.pUser = Function.update s.table.pUser i (some p)
  count : t.table.userNum = s.table.userNum + 1
  limit : t.table.maxUserNum = s.table.maxUserNum
  user : t.user = Function.update s.user p ⟨addr, fd⟩
  closed : t.closed = s.closed

structure Removed (s t : Server) (p : ℕ) : Prop where
  slot : ∃ i, s.table.pUser i = some p ∧ t.table.pUser = Function.update s.table.pUser i none
  count : t.table.userNum = s.table.userNum - 1
  limit : t.table.maxUserNum = s.table.maxUserNum
  closed : t.closed = s.closed ++ if (s.user p).fd > 0 then [(s.user p).fd] else []
  cleared : (s.user p).fd > 0 → (t.user p).fd = -1
  others : ∀ q, q ≠ p → t.user q = s.user q

def openFd (s : Server) (i : Fin tcpUserNum) : List ℤ :=
  match s.table.pUser i with
  | none => []
  | some p => if (s.user p).fd > 0 then [(s.user p).fd] else []

structure Slots (t : Table ℕ) : Prop where
  pos : 0 < t.maxUserNum
  le : t.maxUserNum ≤ tcpUserNum
  beyond : ∀ i : Fin tcpUserNum, t.maxUserNum ≤ i → t.pUser i = none
  distinct : ∀ i j p, t.pUser i = some p → t.pUser j = some p → i = j

structure Consistent (r : Run) : Prop extends Slots r.server.table where
  held : ∀ i p, r.server.table.pUser i = some p → p ∈ r.live
  slot : ∀ p ∈ r.live, ∃ i, r.server.table.pUser i = some p
  card : r.live.card = r.server.table.occupied
  count : r.server.table.userNum = r.server.table.occupied

theorem acceptOf_eq (k : Kind) : acceptOf k = acceptClient := by cases k <;> rfl

theorem disconnectOf_eq (k : Kind) : disconnectOf k = disconnectClient := by cases k <;> rfl

theorem initOf_eq (k : Kind) : initOf k = serverInit := by cases k <;> rfl

theorem uninitOf_eq (k : Kind) : uninitOf k = serverUninit disconnectClient := by cases k <;> rfl

theorem Slots.lt {t : Table ℕ} (h : Slots t) {i : Fin tcpUserNum} {p : ℕ}
    (hi : t.pUser i = some p) : (i : ℤ) < t.maxUserNum := by
  by_contra hn
  simp [h.beyond i (not_lt.mp hn)] at hi

theorem Slots.slotOf {t : Table ℕ} (h : Slots t) {i : Fin tcpUserNum} {p : ℕ}
    (hi : t.pUser i = some p) : t.slotOf (· == p) = some i := by
  cases hs : t.slotOf (· == p) with
  | none => exact absurd (Table.slotOf_none hs (h.lt hi) hi) (by simp)
  | some j =>
    obtain ⟨-, q, hq, hqp⟩ := Table.slotOf_some hs
    obtain rfl : q = p := eq_of_beq hqp
    exact congrArg some (h.distinct j i q hq hi)

theorem Slots.disconnect {t : Table ℕ} (h : Slots t) {i : Fin tcpUserNum} {p : ℕ}
    (hi : t.pUser i = some p) :
    t.disconnectClient (· == p) = (t.setSlot i none).decrement :=
  Table.disconnectClient_found (h.slotOf hi)

theorem Slots.empty {t : Table ℕ} (h : Slots t) (i : Fin tcpUserNum) :
    Slots (t.setSlot i none) := by
  have hslot : ∀ j p, (t.setSlot i none).pUser j = some p → t.pUser j = some p := by
    intro j p hj
    by_cases hji : j = i <;> simp_all
  refine ⟨h.pos, h.le, fun j hj => ?_, fun j j' p hj hj' => ?_⟩
  · by_cases hji : j = i
    · simp [hji]
    · simpa [hji] using h.beyond j hj
  · exact h.distinct j j' p (hslot j p hj) (hslot j' p hj')

theorem Consistent.bounds {r : Run} (h : Consistent r) :
    0 ≤ r.server.table.userNum ∧ r.server.table.userNum ≤ r.server.table.maxUserNum := by
  have hle := (Table.occupied_le h.pos.le h.le h.beyond).1
  have hc := h.count
  omega

theorem Consistent.exceeded_iff {r : Run} (h : Consistent r) :
    r.server.table.maxUserNum ≤ r.server.table.userNum ↔
      (r.live.card : ℤ) = r.server.table.maxUserNum := by
  have hb := h.bounds
  have hc := h.count
  have hl := h.card
  omega

theorem Consistent.freeSlot {r : Run} (h : Consistent r)
    (hu : r.server.table.userNum < r.server.table.maxUserNum) :
    ∃ i, r.server.table.freeSlot = some i := by
  cases hn : r.server.table.freeSlot with
  | some i => exact ⟨i, rfl⟩
  | none =>
    obtain ⟨-, hfull⟩ := Table.occupied_le h.pos.le h.le h.beyond
    have := hfull.mpr fun i hi => Table.freeSlot_none hn i hi
    have hc := h.count
    omega

theorem answer_exceeded (r : Run) (mem : Option ℕ) (thread : Bool) :
    answer r mem thread = .error .exceeded ↔ (r.live.card : ℤ) = r.server.table.maxUserNum := by
  by_cases hfull : (r.live.card : ℤ) = r.server.table.maxUserNum
  · simp [answer, hfull]
  · cases mem <;> cases thread <;> simp [answer, hfull]

theorem answer_ne_exhausted (r : Run) (mem : Option ℕ) (thread : Bool) :
    answer r mem thread ≠ .error .exhausted := by
  by_cases hfull : (r.live.card : ℤ) = r.server.table.maxUserNum
  · simp [answer, hfull]
  · cases mem <;> cases thread <;> simp [answer, hfull]

theorem Consistent.answer {r : Run} (h : Consistent r) (addr : List UInt8) (fd : ℤ)
    (mem : Option ℕ) (thread : Bool) :
    (acceptClient r.server addr fd mem thread).2 = answer r mem thread := by
  rcases le_or_gt r.server.table.maxUserNum r.server.table.userNum with hu | hu
  · simp [acceptClient, Table.acceptClient_full hu, TableCalls.answer, h.exceeded_iff.mp hu]
  have hcard : (r.live.card : ℤ) ≠ r.server.table.maxUserNum :=
    fun he => absurd (h.exceeded_iff.mpr he) (not_le.mpr hu)
  obtain ⟨i, hi⟩ := h.freeSlot hu
  cases mem with
  | none => simp [acceptClient, Table.acceptClient_room hu hi, TableCalls.answer, hcard]
  | some p =>
    cases thread <;>
      simp [acceptClient, Table.acceptClient_room hu hi, TableCalls.answer, hcard]

theorem acceptClient_cases (s : Server) (addr : List UInt8) (fd : ℤ) (mem : Option ℕ)
    (thread : Bool) :
    (∃ e, acceptClient s addr fd mem thread = (s, .error e)) ∨
      ∃ p t, mem = some p ∧ acceptClient s addr fd mem thread = (t, .ok p) ∧
        Entered s t p addr fd := by
  rcases s.table.acceptClient_cases mem thread with ⟨e, he, -, -⟩ | ⟨p, i, hm, -, hi, he⟩
  · exact .inl ⟨e, by simp [acceptClient, he]⟩
  · obtain ⟨him, hnone⟩ := Table.freeSlot_some hi
    refine .inr ⟨p, { s with
      table := (s.table.setSlot i (some p)).increment
      user := Function.update s.user p ⟨addr, fd⟩ }, hm, by simp [acceptClient, he], ?_⟩
    exact ⟨⟨i, him, hnone, rfl⟩, rfl, rfl, rfl, rfl⟩

theorem Consistent.entered {r : Run} (h : Consistent r) {t : Server} {p : ℕ} {addr : List UInt8}
    {fd : ℤ} (hnew : p ∉ r.live) (he : Entered r.server t p addr fd) :
    Consistent ⟨t, insert p r.live⟩ := by
  obtain ⟨i, him, hnone, hpUser⟩ := he.slot
  have hslot : ∀ j q, t.table.pUser j = some q ↔
      (j = i ∧ q = p) ∨ (j ≠ i ∧ r.server.table.pUser j = some q) := by
    intro j q
    by_cases hj : j = i <;> simp [hpUser, hj, eq_comm]
  have hocc : t.table.occupied = r.server.table.occupied + 1 := by
    rw [← Table.occupied_setSlot_some hnone p]
    exact congrArg (Tally.tally Finset.univ Option.isSome) hpUser
  refine ⟨⟨he.limit ▸ h.pos, he.limit ▸ h.le, ?_, ?_⟩, ?_, ?_, ?_, ?_⟩
  · intro j hj
    rw [he.limit] at hj
    have hji : j ≠ i := by
      intro heq
      obtain rfl := heq
      exact absurd him (not_lt.mpr hj)
    simpa [hpUser, hji] using h.beyond j hj
  · intro j j' q hj hj'
    rcases (hslot j q).mp hj with ⟨hji, hq⟩ | ⟨-, hj⟩ <;>
      rcases (hslot j' q).mp hj' with ⟨hji', hq'⟩ | ⟨-, hj'⟩
    · exact hji.trans hji'.symm
    · exact absurd (hq ▸ h.held j' q hj') hnew
    · exact absurd (hq' ▸ h.held j q hj) hnew
    · exact h.distinct j j' q hj hj'
  · intro j q hj
    rcases (hslot j q).mp hj with ⟨-, rfl⟩ | ⟨-, hj⟩
    · exact Finset.mem_insert_self q r.live
    · exact Finset.mem_insert_of_mem (h.held j q hj)
  · intro q hq
    rcases Finset.mem_insert.mp hq with rfl | hq
    · exact ⟨i, (hslot i q).mpr (.inl ⟨rfl, rfl⟩)⟩
    · obtain ⟨j, hj⟩ := h.slot q hq
      refine ⟨j, (hslot j q).mpr (.inr ⟨?_, hj⟩)⟩
      intro heq
      obtain rfl := heq
      simp [hnone] at hj
  · rw [Finset.card_insert_of_notMem hnew, h.card, hocc]
  · have hc := h.count
    have hn := he.count
    dsimp only
    omega

theorem Consistent.removes {r : Run} (h : Consistent r) {p : ℕ} (hp : p ∈ r.live) :
    Removed r.server (disconnectClient r.server p) p := by
  obtain ⟨i, hi⟩ := h.slot p hp
  have ht := h.disconnect hi
  have hocc := Table.occupied_setSlot_none hi
  have hc := h.count
  refine ⟨⟨i, hi, by simp [disconnectClient, ht]⟩, ?_, by simp [disconnectClient, ht], ?_, ?_, ?_⟩
  · simp only [disconnectClient, ht, Table.decrement, Table.setSlot_userNum]
    split_ifs <;> omega
  · simp only [disconnectClient]
    split_ifs <;> simp
  · intro hpos
    simp [disconnectClient, hpos]
  · intro q hq
    simp only [disconnectClient]
    split_ifs <;> simp [hq]

theorem Consistent.removed {r : Run} (h : Consistent r) {t : Server} {p : ℕ} (hp : p ∈ r.live)
    (hr : Removed r.server t p) : Consistent ⟨t, r.live.erase p⟩ := by
  obtain ⟨i, hi, hpUser⟩ := hr.slot
  have hslot : ∀ j q, t.table.pUser j = some q ↔
      j ≠ i ∧ r.server.table.pUser j = some q := by
    intro j q
    by_cases hj : j = i <;> simp [hpUser, hj]
  have hocc : t.table.occupied + 1 = r.server.table.occupied := by
    rw [← Table.occupied_setSlot_none hi]
    exact congrArg (Tally.tally Finset.univ Option.isSome · + 1) hpUser
  refine ⟨⟨hr.limit ▸ h.pos, hr.limit ▸ h.le, ?_, ?_⟩, ?_, ?_, ?_, ?_⟩
  · intro j hj
    rw [hr.limit] at hj
    by_cases hji : j = i
    · simp [hpUser, hji]
    · simpa [hpUser, hji] using h.beyond j hj
  · intro j j' q hj hj'
    exact h.distinct j j' q ((hslot j q).mp hj).2 ((hslot j' q).mp hj').2
  · intro j q hj
    obtain ⟨hji, hq⟩ := (hslot j q).mp hj
    refine Finset.mem_erase.mpr ⟨?_, h.held j q hq⟩
    intro heq
    obtain rfl := heq
    exact hji (h.distinct j i q hq hi)
  · intro q hq
    obtain ⟨hqp, hq⟩ := Finset.mem_erase.mp hq
    obtain ⟨j, hj⟩ := h.slot q hq
    refine ⟨j, (hslot j q).mpr ⟨?_, hj⟩⟩
    intro heq
    obtain rfl := heq
    exact hqp (Option.some.inj (hj.symm.trans hi))
  · have hcard := h.card
    rw [Finset.card_erase_of_mem hp]
    dsimp only
    omega
  · have hc := h.count
    have hn := hr.count
    dsimp only
    omega

theorem call_cases {k : Kind} {r r' : Run} {c : Call} (h : Consistent r)
    (hr : call k r c = some r') :
    r' = r ∨
      (∃ p addr fd, p ∉ r.live ∧ r'.live = insert p r.live ∧
        Entered r.server r'.server p addr fd) ∨
      ∃ p ∈ r.live, r'.live = r.live.erase p ∧ Removed r.server r'.server p := by
  cases c with
  | accept addr fd mem thread =>
    simp only [call, acceptOf_eq, Option.ite_none_left_eq_some, Option.some.injEq] at hr
    obtain ⟨hm, rfl⟩ := hr
    rcases acceptClient_cases r.server addr fd mem thread with ⟨e, he⟩ | ⟨p, t, rfl, he, hent⟩
    · exact .inl (by simp [he, joined])
    · refine .inr (.inl ⟨p, addr, fd, fun hl => hm ⟨p, rfl, hl⟩, ?_, ?_⟩)
      · simp [he, joined]
      · simpa [he] using hent
  | disconnect p =>
    simp only [call, disconnectOf_eq, Option.ite_none_right_eq_some, Option.some.injEq] at hr
    obtain ⟨hp, rfl⟩ := hr
    exact .inr (.inr ⟨p, hp, rfl, h.removes hp⟩)

theorem consistent_call {k : Kind} {r r' : Run} {c : Call} (h : Consistent r)
    (hr : call k r c = some r') :
    Consistent r' ∧ r'.server.table.maxUserNum = r.server.table.maxUserNum := by
  rcases call_cases h hr with rfl | ⟨p, addr, fd, hnew, hlive, he⟩ | ⟨p, hp, hlive, he⟩
  · exact ⟨h, rfl⟩
  · have := h.entered hnew he
    rw [← hlive] at this
    exact ⟨this, he.limit⟩
  · have := h.removed hp he
    rw [← hlive] at this
    exact ⟨this, he.limit⟩

theorem consistent_start (k : Kind) {maxUserNum : ℤ} (h0 : 0 ≤ maxUserNum) :
    Consistent (start k maxUserNum) := by
  obtain ⟨hp, hl⟩ := Table.init_maxUserNum (α := ℕ) h0
  refine ⟨⟨?_, ?_, ?_, ?_⟩, ?_, ?_, ?_, ?_⟩ <;> simp_all [start, initOf_eq, serverInit]

theorem consistent_exec {k : Kind} {maxUserNum : ℤ} (h0 : 0 ≤ maxUserNum) {calls : List Call}
    {r : Run} (h : exec (call k) (start k maxUserNum) calls = some r) :
    Consistent r ∧ r.server.table.maxUserNum = (Table.init maxUserNum : Table ℕ).maxUserNum := by
  refine exec_invariant (I := fun r => Consistent r ∧
    r.server.table.maxUserNum = (Table.init maxUserNum : Table ℕ).maxUserNum) ?_ ?_ h
  · intro r c r' hs hr
    obtain ⟨hc, hm⟩ := consistent_call hs.1 hr
    exact ⟨hc, hm.trans hs.2⟩
  · exact ⟨consistent_start k h0, by simp [start, initOf_eq, serverInit]⟩

/-- An iteration of the sweep empties its slot and closes what it finds there. The count is 0
when the sweep starts, so the guarded decrement of `DisconnectClient` leaves it at 0. -/
theorem sweepSlot_spec {s : Server} (h : Slots s.table) (h0 : s.table.userNum = 0)
    (i : Fin tcpUserNum) :
    (sweepSlot disconnectClient s i).table = s.table.setSlot i none ∧
      (sweepSlot disconnectClient s i).closed = s.closed ++ openFd s i ∧
      ∀ j ≠ i, openFd (sweepSlot disconnectClient s i) j = openFd s j := by
  have hkeep : s.table.pUser i = none → s.table = s.table.setSlot i none := by
    intro hi
    simp [Table.setSlot, ← hi]
  by_cases hi : (i : ℤ) < s.table.maxUserNum
  · cases hp : s.table.pUser i with
    | none =>
      have hs : sweepSlot disconnectClient s i = s := by simp [sweepSlot, hp]
      rw [hs]
      exact ⟨hkeep hp, by simp [openFd, hp], fun _ _ => rfl⟩
    | some p =>
      have hs : sweepSlot disconnectClient s i = disconnectClient s p := by
        simp [sweepSlot, hi, hp]
      have ht : (disconnectClient s p).table = s.table.setSlot i none := by
        simp [disconnectClient, h.disconnect hp, Table.decrement, Table.setSlot, h0]
      rw [hs]
      refine ⟨ht, ?_, fun j hj => ?_⟩
      · simp only [disconnectClient, openFd, hp]
        split_ifs <;> simp
      · simp only [openFd, ht, Table.setSlot_pUser, Function.update_of_ne hj]
        cases hq : s.table.pUser j with
        | none => rfl
        | some q =>
          have hqp : q ≠ p := by
            intro heq
            obtain rfl := heq
            exact hj (h.distinct j i q hq hp)
          simp only [disconnectClient]
          split_ifs <;> simp_all
  · have hs : sweepSlot disconnectClient s i = s := by simp [sweepSlot, hi]
    have hp := h.beyond i (not_lt.mp hi)
    rw [hs]
    exact ⟨hkeep hp, by simp [openFd, hp], fun _ _ => rfl⟩

theorem sweep_spec {is : List (Fin tcpUserNum)} (his : is.Nodup) {s : Server}
    (h : Slots s.table) (h0 : s.table.userNum = 0) :
    let t := is.foldl (sweepSlot disconnectClient) s
    t.table.userNum = 0 ∧ (∀ j, s.table.pUser j = none ∨ j ∈ is → t.table.pUser j = none) ∧
      t.closed = s.closed ++ is.flatMap (openFd s) := by
  induction is generalizing s with
  | nil => exact ⟨h0, by simp, by simp⟩
  | cons i is ih =>
    obtain ⟨hi, his⟩ := List.nodup_cons.mp his
    obtain ⟨ht, hc, hkeep⟩ := sweepSlot_spec h h0 i
    obtain ⟨hr0, hnone, hclosed⟩ := ih his (s := sweepSlot disconnectClient s i)
      (ht ▸ h.empty i) (by simp [ht, h0])
    refine ⟨hr0, fun j hj => hnone j ?_, ?_⟩
    · by_cases hji : j = i
      · exact .inl (by simp [ht, hji])
      · exact hj.imp (fun hj => by simpa [ht, hji] using hj) fun hj => by simpa [hji] using hj
    · have hrest : is.flatMap (openFd (sweepSlot disconnectClient s i)) = is.flatMap (openFd s) :=
        List.flatMap_congr fun j hj => hkeep j fun hji => hi (hji ▸ hj)
      simp only [List.foldl_cons, hclosed, hc, hrest, List.flatMap_cons, List.append_assoc]

theorem serverUninit_spec {s : Server} (h : Slots s.table) :
    (∀ i, (serverUninit disconnectClient s).table.pUser i = none) ∧
      (serverUninit disconnectClient s).table.userNum = 0 ∧
      (serverUninit disconnectClient s).closed =
        s.closed ++ (List.finRange tcpUserNum).flatMap (openFd s) := by
  have h' : Slots ({ s with table := s.table.resetNum } : Server).table :=
    ⟨h.pos, h.le, h.beyond, h.distinct⟩
  have hopen : openFd { s with table := s.table.resetNum } = openFd s := rfl
  obtain ⟨h0, hnone, hclosed⟩ := sweep_spec (List.nodup_finRange tcpUserNum) h' rfl
  rw [hopen] at hclosed
  unfold serverUninit
  exact ⟨fun i => hnone i (.inr (List.mem_finRange i)), h0, hclosed⟩

/-- Between calls the table, its count and the live clients agree, admission is exact, a failed
accept changes nothing, accepts and disconnects that succeed change one slot and the count, and
the sweep of the uninit call empties the table and closes what it held. -/
theorem client_table_exact (k : Kind) {maxUserNum : ℤ} (h0 : 0 ≤ maxUserNum) {calls : List Call}
    {r : Run} (h : exec (call k) (start k maxUserNum) calls = some r) :
    let s := r.server
    s.table.maxUserNum =
        (if maxUserNum = 0 ∨ maxUserNum > tcpUserNum then (tcpUserNum : ℤ) else maxUserNum) ∧
    s.table.userNum = s.table.occupied ∧
    (0 ≤ s.table.userNum ∧ s.table.userNum ≤ s.table.maxUserNum) ∧
    (∀ i j p, s.table.pUser i = some p → s.table.pUser j = some p → i = j) ∧
    (∀ i : Fin tcpUserNum, s.table.maxUserNum ≤ i → s.table.pUser i = none) ∧
    (∀ p ∈ r.live, ∃! i, s.table.pUser i = some p) ∧
    (∀ i p, s.table.pUser i = some p → p ∈ r.live) ∧
    (∀ addr fd mem thread, (acceptOf k s addr fd mem thread).2 = answer r mem thread) ∧
    (∀ addr fd mem thread, (acceptOf k s addr fd mem thread).2 = .error .exceeded ↔
      (r.live.card : ℤ) = s.table.maxUserNum) ∧
    (∀ addr fd mem thread, (acceptOf k s addr fd mem thread).2 ≠ .error .exhausted) ∧
    (∀ addr fd mem thread e, (acceptOf k s addr fd mem thread).2 = .error e →
      (acceptOf k s addr fd mem thread).1 = s) ∧
    (∀ addr fd mem thread p, (acceptOf k s addr fd mem thread).2 = .ok p →
      Entered s (acceptOf k s addr fd mem thread).1 p addr fd) ∧
    (∀ p ∈ r.live, Removed s (disconnectOf k s p) p) ∧
    (∀ i, (uninitOf k s).table.pUser i = none) ∧ (uninitOf k s).table.userNum = 0 ∧
      (uninitOf k s).closed = s.closed ++ (List.finRange tcpUserNum).flatMap (openFd s) := by
  obtain ⟨hc, hm⟩ := consistent_exec h0 h
  simp only [acceptOf_eq, disconnectOf_eq, uninitOf_eq]
  refine ⟨hm, hc.count, hc.bounds, hc.distinct, hc.beyond, fun p hp => ?_, hc.held, hc.answer,
    ?_, ?_, ?_, ?_, fun p hp => hc.removes hp, serverUninit_spec hc.toSlots⟩
  · obtain ⟨i, hi⟩ := hc.slot p hp
    exact ⟨i, hi, fun j hj => hc.distinct j i p hj hi⟩
  · intro addr fd mem thread
    rw [hc.answer, answer_exceeded]
  · intro addr fd mem thread
    rw [hc.answer]
    exact answer_ne_exhausted r mem thread
  · intro addr fd mem thread e he
    rcases acceptClient_cases r.server addr fd mem thread with ⟨e', ha⟩ | ⟨p, t, -, ha, -⟩
    · rw [ha]
    · simp [ha] at he
  · intro addr fd mem thread p hp
    rcases acceptClient_cases r.server addr fd mem thread with ⟨e, ha⟩ | ⟨q, t, -, ha, hent⟩
    · simp [ha] at hp
    · obtain rfl : q = p := by simpa [ha] using hp
      simpa [ha] using hent

theorem client_table_exact_calls : ∃ r : Run, r.server.table.pUser 0 = none ∧
    r.server.table.pUser 1 = some 200 ∧ r.live = {200} ∧
    r.server.table.userNum = r.server.table.occupied ∧
    ∀ p ∈ r.live, Removed r.server (disconnectOf .tcpIpv6 r.server p) p := by
  let calls : List Call := [.accept [10] 4 (some 100) true, .accept [11] 5 (some 200) true,
    .disconnect 100, .accept [12] 4 (some 100) false]
  have hrun : (exec (call .tcpIpv6) (start .tcpIpv6 2) calls).map
      (fun r => (r.server.table.pUser 0, r.server.table.pUser 1, r.live)) =
        some (none, some 200, {200}) := by
    decide +kernel
  obtain ⟨r, hs, he⟩ := Option.map_eq_some_iff.mp hrun
  simp only [Prod.mk.injEq] at he
  obtain ⟨h0, h1, hl⟩ := he
  obtain ⟨-, hc, -, -, -, -, -, -, -, -, -, -, hd, -⟩ := client_table_exact .tcpIpv6 (by decide) hs
  exact ⟨r, h0, h1, hl, hc, hd⟩

end LibComm.TableCalls

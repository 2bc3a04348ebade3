import Mathlib.Data.Fintype.Fin
import Mathlib.Logic.Function.Basic
import LibComm.Tally

/-!
# The client table of the stream servers

The IPv4 TCP, IPv6 TCP and IPC stream servers keep their clients in an array
`pUser` of pointers and count them separately in `userNum`. `Table` is that
part of the server context, generic in what a pointer is; its operations are
the single statements of `AcceptClient` and `DisconnectClient`, so that they
serve both the calls run to completion and the interleaved threads.
-/

namespace LibComm.ClientTable
open Tally

variable {α : Type*}

inductive Kind where
  | tcpIpv4
  | tcpIpv6
  | ipcStream
  deriving DecidableEq

/-- A pointer to a record on the heap: its address, and which record it was made for. -/
structure Ptr where
  addr : ℕ
  id : ℕ
  deriving DecidableEq

/-- `TCP_USER_NUM`; `IPC_USER_NUM` of the IPC stream server has the same value. -/
abbrev tcpUserNum : ℕ := 32

theorem tcpUserNum_cast : ((tcpUserNum : ℕ) : ℤ) = 32 := rfl

structure Table (α : Type*) where
  pUser : Fin tcpUserNum → Option α
  userNum : ℤ
  maxUserNum : ℤ

/-- The table part of `ServerInit`: 0 and anything above the array size become the array size. -/
def Table.init (maxUserNum : ℤ) : Table α :=
  ⟨fun _ => none, 0,
    if maxUserNum = 0 ∨ maxUserNum > tcpUserNum then tcpUserNum else maxUserNum⟩

namespace Table

def freeSlot (t : Table α) : Option (Fin tcpUserNum) :=
  Fin.find? fun i => decide ((i : ℤ) < t.maxUserNum) && (t.pUser i).isNone

def slotOf (t : Table α) (q : α → Bool) : Option (Fin tcpUserNum) :=
  Fin.find? fun i => decide ((i : ℤ) < t.maxUserNum) && (t.pUser i).any q

def setSlot (t : Table α) (i : Fin tcpUserNum) (p : Option α) : Table α :=
  { t with pUser := Function.update t.pUser i p }

def increment (t : Table α) : Table α := { t with userNum := t.userNum + 1 }

def decrement (t : Table α) : Table α :=
  { t with userNum := if t.userNum > 0 then t.userNum - 1 else t.userNum }

def resetNum (t : Table α) : Table α := { t with userNum := 0 }

def occupied (t : Table α) : ℕ := tally Finset.univ Option.isSome t.pUser

@[simp] theorem setSlot_pUser (t : Table α) (i : Fin tcpUserNum) (p : Option α) :
    (t.setSlot i p).pUser = Function.update t.pUser i p := rfl
@[simp] theorem setSlot_userNum (t : Table α) (i : Fin tcpUserNum) (p : Option α) :
    (t.setSlot i p).userNum = t.userNum := rfl
@[simp] theorem setSlot_maxUserNum (t : Table α) (i : Fin tcpUserNum) (p : Option α) :
    (t.setSlot i p).maxUserNum = t.maxUserNum := rfl
@[simp] theorem increment_pUser (t : Table α) : t.increment.pUser = t.pUser := rfl
@[simp] theorem increment_userNum (t : Table α) : t.increment.userNum = t.userNum + 1 := rfl
@[simp] theorem increment_maxUserNum (t : Table α) : t.increment.maxUserNum = t.maxUserNum := rfl
@[simp] theorem increment_occupied (t : Table α) : t.increment.occupied = t.occupied := rfl
@[simp] theorem decrement_pUser (t : Table α) : t.decrement.pUser = t.pUser := rfl
@[simp] theorem decrement_maxUserNum (t : Table α) : t.decrement.maxUserNum = t.maxUserNum := rfl
@[simp] theorem decrement_occupied (t : Table α) : t.decrement.occupied = t.occupied := rfl
@[simp] theorem resetNum_pUser (t : Table α) : t.resetNum.pUser = t.pUser := rfl
@[simp] theorem resetNum_maxUserNum (t : Table α) : t.resetNum.maxUserNum = t.maxUserNum := rfl
@[simp] theorem init_pUser (n : ℤ) : (init n : Table α).pUser = fun _ => none := rfl
@[simp] theorem init_userNum (n : ℤ) : (init n : Table α).userNum = 0 := rfl
@[simp] theorem init_occupied (n : ℤ) : (init n : Table α).occupied = 0 := by
  simp [occupied, tally_eq_zero_iff]

theorem init_maxUserNum_le (n : ℤ) : (init n : Table α).maxUserNum ≤ tcpUserNum := by
  have hc := tcpUserNum_cast
  simp only [init]
  split_ifs with hn <;> omega

theorem init_maxUserNum {n : ℤ} (h : 0 ≤ n) :
    0 < (init n : Table α).maxUserNum ∧ (init n : Table α).maxUserNum ≤ tcpUserNum := by
  refine ⟨?_, init_maxUserNum_le n⟩
  have hc := tcpUserNum_cast
  simp only [init]
  split_ifs with hn <;> omega

theorem freeSlot_some {t : Table α} {i : Fin tcpUserNum} (h : t.freeSlot = some i) :
    (i : ℤ) < t.maxUserNum ∧ t.pUser i = none := by
  simpa using Fin.eq_true_of_find?_eq_some h

theorem freeSlot_none {t : Table α} (h : t.freeSlot = none) (i : Fin tcpUserNum)
    (hi : (i : ℤ) < t.maxUserNum) : t.pUser i ≠ none := by
  have hq := Fin.eq_false_of_find?_eq_none h i
  simpa [hi, Option.isSome_iff_ne_none] using hq

theorem slotOf_some {t : Table α} {q : α → Bool} {i : Fin tcpUserNum}
    (h : t.slotOf q = some i) :
    (i : ℤ) < t.maxUserNum ∧ ∃ p, t.pUser i = some p ∧ q p = true := by
  simpa [Option.any_eq_true] using Fin.eq_true_of_find?_eq_some h

theorem slotOf_none {t : Table α} {q : α → Bool} (h : t.slotOf q = none) {i : Fin tcpUserNum}
    (hi : (i : ℤ) < t.maxUserNum) {p : α} (hp : t.pUser i = some p) : q p = false := by
  have hq := Fin.eq_false_of_find?_eq_none h i
  simpa [hi, hp] using hq

-- The search is only ever used through the four rules above.
attribute [irreducible] freeSlot slotOf

theorem occupied_setSlot_some {t : Table α} {i : Fin tcpUserNum} (h : t.pUser i = none) (p : α) :
    (t.setSlot i (some p)).occupied = t.occupied + 1 := by
  simpa [occupied, h] using tally_update (Finset.mem_univ i) Option.isSome t.pUser (some p)

theorem occupied_setSlot_none {t : Table α} {i : Fin tcpUserNum} {p : α}
    (h : t.pUser i = some p) : (t.setSlot i none).occupied + 1 = t.occupied := by
  simpa [occupied, h] using tally_update (Finset.mem_univ i) Option.isSome t.pUser none

theorem card_slots {m : ℤ} (hm : m ≤ tcpUserNum) :
    ((Finset.univ.filter fun i : Fin tcpUserNum => (i : ℤ) < m).card : ℤ) = max m 0 := by
  rcases lt_or_ge m 0 with h0 | h0
  · have hempty : (Finset.univ.filter fun i : Fin tcpUserNum => (i : ℤ) < m) = ∅ :=
      Finset.filter_eq_empty_iff.mpr fun i _ => by omega
    rw [hempty, max_eq_right h0.le]
    rfl
  · rw [max_eq_left h0]
    lift m to ℕ using h0
    norm_cast at hm ⊢
    rw [Fin.card_filter_val_lt]
    omega

theorem occupied_le {t : Table α} (h0 : 0 ≤ t.maxUserNum) (hm : t.maxUserNum ≤ tcpUserNum)
    (hb : ∀ i : Fin tcpUserNum, t.maxUserNum ≤ i → t.pUser i = none) :
    (t.occupied : ℤ) ≤ t.maxUserNum ∧
      ((t.occupied : ℤ) = t.maxUserNum ↔
        ∀ i : Fin tcpUserNum, (i : ℤ) < t.maxUserNum → t.pUser i ≠ none) := by
  have hc := card_slots hm
  rw [max_eq_left h0] at hc
  have hs : ∀ i ∈ (Finset.univ : Finset (Fin tcpUserNum)), (t.pUser i).isSome = true →
      i ∈ Finset.univ.filter fun i : Fin tcpUserNum => (i : ℤ) < t.maxUserNum := by
    intro i _ hi
    by_contra hn
    have := hb i (by simpa using hn)
    simp [this] at hi
  have hle := tally_le_of_support hs
  have heq := tally_eq_card_iff (Finset.filter_subset _ _) hs
  have hiff : (t.occupied : ℤ) = t.maxUserNum ↔ tally Finset.univ Option.isSome t.pUser =
      (Finset.univ.filter fun i : Fin tcpUserNum => (i : ℤ) < t.maxUserNum).card := by
    unfold occupied
    omega
  refine ⟨by unfold occupied; omega, hiff.trans (heq.trans ?_)⟩
  simp [Option.isSome_iff_ne_none]

end Table

inductive Refusal where
  | exceeded     -- "user number was exceeded"
  | noMemory     -- malloc failed
  | noThread     -- "failed to create the client connection thread"
  | exhausted    -- "user memory was exhausted"
  deriving DecidableEq

namespace Table

/-- `AcceptClient` run to completion, given what `malloc` and `pthread_create` answer. -/
def acceptClient (t : Table α) (mem : Option α) (thread : Bool) : Table α × Except Refusal α :=
  if t.userNum ≥ t.maxUserNum then (t, .error .exceeded)
  else
    match t.freeSlot with
    | none => (t, .error .exhausted)
    | some i =>
      match mem with
      | none => (t, .error .noMemory)
      | some p =>
        if thread then ((t.setSlot i (some p)).increment, .ok p) else (t, .error .noThread)

def disconnectClient (t : Table α) (q : α → Bool) : Table α :=
  match t.slotOf q with
  | none => t
  | some i => (t.setSlot i none).decrement

theorem acceptClient_full {t : Table α} (h : t.maxUserNum ≤ t.userNum) (mem : Option α)
    (thread : Bool) : t.acceptClient mem thread = (t, .error .exceeded) := by
  simp [acceptClient, h]

theorem acceptClient_room {t : Table α} (h : t.userNum < t.maxUserNum) {i : Fin tcpUserNum}
    (hi : t.freeSlot = some i) (mem : Option α) (thread : Bool) :
    t.acceptClient mem thread =
      match mem with
      | none => (t, .error .noMemory)
      | some p =>
        if thread then ((t.setSlot i (some p)).increment, .ok p) else (t, .error .noThread) := by
  simp [acceptClient, not_le.mpr h, hi]

theorem acceptClient_noSlot {t : Table α} (h : t.userNum < t.maxUserNum) (hi : t.freeSlot = none)
    (mem : Option α) (thread : Bool) : t.acceptClient mem thread = (t, .error .exhausted) := by
  simp [acceptClient, not_le.mpr h, hi]

theorem disconnectClient_found {t : Table α} {q : α → Bool} {i : Fin tcpUserNum}
    (h : t.slotOf q = some i) : t.disconnectClient q = (t.setSlot i none).decrement := by
  simp only [disconnectClient, h]

theorem acceptClient_cases (t : Table α) (mem : Option α) (thread : Bool) :
    (∃ e, t.acceptClient mem thread = (t, .error e) ∧ (e = .exceeded ↔ t.maxUserNum ≤ t.userNum) ∧
      (e = .exhausted → t.userNum < t.maxUserNum ∧ t.freeSlot = none)) ∨
    ∃ p i, mem = some p ∧ t.userNum < t.maxUserNum ∧ t.freeSlot = some i ∧
      t.acceptClient mem thread = ((t.setSlot i (some p)).increment, .ok p) := by
  rcases le_or_gt t.maxUserNum t.userNum with hu | hu
  · exact .inl ⟨_, acceptClient_full hu mem thread, by simp [hu], by simp⟩
  cases hi : t.freeSlot with
  | none => exact .inl ⟨_, acceptClient_noSlot hu hi mem thread, by simp [hu], by simp [hu]⟩
  | some i =>
    cases mem with
    | none => exact .inl ⟨_, acceptClient_room hu hi none thread, by simp [hu], by simp⟩
    | some p =>
      cases thread with
      | false => exact .inl ⟨_, acceptClient_room hu hi (some p) false, by simp [hu], by simp⟩
      | true => exact .inr ⟨p, i, rfl, hu, rfl, acceptClient_room hu hi (some p) true⟩

end Table
end LibComm.ClientTable

import LibComm.Daemon
import LibComm.Inotify
import LibComm.Interleaving

/-!
# The end of the event loop

`event_uninit` runs in the thread of the control socket while the main thread
is in `event_monitor`. Removing a watch queues an event on the inotify
instance, which wakes a `read` that is blocked on it; closing the descriptor
does not, and the instance lives on for as long as the `read` is in it. The
main thread leaves its loop once a `read` fails and `g_inotifyFd` is -1.
-/

namespace LibComm.MonitorShutdown
open ByteMemory Inotify Interleaving
open Daemon (indices)

/-- The statements of `event_monitor`: it has loaded `g_inotifyFd`, it is inside `read`, it has
some events of the buffer left, or `read` has failed. -/
inductive MonitorPc where
  | load
  | read (fd : ℤ)
  | blocked
  | search (n : ℕ)
  | test
  | ended
  deriving DecidableEq

/-- The statements of `event_uninit`, with the mappings that its loop has not visited. -/
inductive UninitPc where
  | idle
  | rmWatch (is : List (Fin maxMappingNum))
  | testFd
  | close
  | assign

structure State where
  inotifyFd : ℤ
  mappings : Mappings
  opened : Bool
  watches : List Int32
  queue : ℕ
  monitor : MonitorPc
  uninit : UninitPc

inductive Label where
  | monitor
  | readReturns (n : ℕ)
  | exit
  | uninit
  | created (wd : Int32)
  | dirRemoved (wd : Int32)

def watchesOf (mappingNum : ℕ) (g : Mappings) : List Int32 :=
  (indices mappingNum).filterMap fun i => (g i).bind fun p => if 0 ≤ p.wd then some p.wd else none

def start (fd : ℤ) (inotifyAddWatch : CString → Int32) (mappingNum : ℕ) (g : Mappings) : State :=
  let g := eventInit inotifyAddWatch mappingNum g
  ⟨fd, g, true, watchesOf mappingNum g, 0, .load, .idle⟩

namespace State

def rmWatch (s : State) (wd : Int32) : State :=
  if 0 ≤ s.inotifyFd ∧ wd ∈ s.watches then
    { s with watches := s.watches.filter (· != wd), queue := s.queue + 1 }
  else s

def clearWd (s : State) (i : Fin maxMappingNum) : State :=
  { s with
    mappings := Function.update s.mappings i ((s.mappings i).map fun p => { p with wd := -1 }) }

/-- A statement of `event_monitor`; a search, with the connection attempt that it may make, is one
that returns. A `read` on a descriptor that is not open fails, since what an attempt opens does not
get its number. -/
def monitorStep (fd : ℤ) (s : State) : Option State :=
  match s.monitor with
  | .load => some { s with monitor := .read s.inotifyFd }
  | .read f => some { s with monitor := if f = fd ∧ s.opened = true then .blocked else .test }
  | .blocked => none
  | .search 0 => some { s with monitor := .load }
  | .search (n + 1) => some { s with monitor := .search n }
  | .test => some { s with monitor := if s.inotifyFd = -1 then .ended else .load }
  | .ended => none

def uninitStep (s : State) : Option State :=
  match s.uninit with
  | .idle => none
  | .rmWatch [] => some { s with uninit := .testFd }
  | .rmWatch (i :: is) =>
    match s.mappings i with
    | none => some { s with uninit := .rmWatch is }
    | some p =>
      if 0 ≤ p.wd then some { (s.rmWatch p.wd).clearWd i with uninit := .rmWatch is }
      else some { s with uninit := .rmWatch is }
  | .testFd => some { s with uninit := if 0 ≤ s.inotifyFd then .close else .idle }
  | .close => some { s with opened := false, uninit := .assign }
  | .assign => some { s with inotifyFd := -1, uninit := .idle }

/-- A `read` returns some of the events that are queued; a directory that is removed takes its
watch with it. -/
def step (fd : ℤ) (mappingNum : ℕ) (s : State) : Label → Option State
  | .monitor => s.monitorStep fd
  | .readReturns n =>
    if s.monitor = .blocked ∧ 0 < n ∧ n ≤ s.queue then
      some { s with monitor := .search n, queue := s.queue - n }
    else none
  | .exit =>
    match s.uninit with
    | .idle => some { s with uninit := .rmWatch (indices mappingNum) }
    | _ => none
  | .uninit => s.uninitStep
  | .created wd => if wd ∈ s.watches then some { s with queue := s.queue + 1 } else none
  | .dirRemoved wd =>
    if wd ∈ s.watches then
      some { s with watches := s.watches.filter (· != wd), queue := s.queue + 1 }
    else none

end State

/-- The main thread is inside a `read` that nothing is left to wake. -/
def Stuck (s : State) : Prop := s.monitor = .blocked ∧ s.queue = 0

def HeldBy (s : State) (is : List (Fin maxMappingNum)) (wd : Int32) : Prop :=
  0 ≤ wd ∧ ∃ i ∈ is, ∃ p, s.mappings i = some p ∧ p.wd = wd

def UninitPc.left (mappingNum : ℕ) : UninitPc → List (Fin maxMappingNum)
  | .idle => indices mappingNum
  | .rmWatch is => is
  | .testFd => []
  | .close => []
  | .assign => []

/-- Every watch belongs to a mapping that `event_uninit` still visits, the descriptor is closed
before `g_inotifyFd` says so, and the main thread ends after that. -/
structure Inv (fd : ℤ) (mappingNum : ℕ) (s : State) : Prop where
  inotifyFd : s.inotifyFd = fd ∨ s.inotifyFd = -1
  held : ∀ wd ∈ s.watches, HeldBy s (s.uninit.left mappingNum) wd
  closed : s.uninit = .assign ∨ s.inotifyFd = -1 → s.opened = false
  quiet : s.inotifyFd = -1 → s.watches = []
  ended : s.monitor = .ended → s.inotifyFd = -1

section Invariant
variable {fd : ℤ} {mappingNum : ℕ} {s t : State} {i : Fin maxMappingNum} {wd wd' : Int32}
  {is : List (Fin maxMappingNum)}

theorem mem_watches_rmWatch (h : wd' ∈ (s.rmWatch wd).watches) (hfd : 0 ≤ s.inotifyFd) :
    wd' ∈ s.watches ∧ wd' ≠ wd := by
  unfold State.rmWatch at h
  split_ifs at h with hw
  · simpa using h
  · refine ⟨h, fun he => hw ⟨hfd, he ▸ h⟩⟩

theorem HeldBy.tail (h : HeldBy s (i :: is) wd) (hi : ∀ p, s.mappings i = some p → p.wd ≠ wd) :
    HeldBy s is wd := by
  obtain ⟨h0, j, hj, p, hp, hwd⟩ := h
  obtain rfl | hj := List.mem_cons.mp hj
  · exact absurd hwd (hi p hp)
  · exact ⟨h0, j, hj, p, hp, hwd⟩

theorem HeldBy.clearWd (h : HeldBy s is wd) (hi : ∀ p, s.mappings i = some p → p.wd ≠ wd) :
    HeldBy (s.clearWd i) is wd := by
  obtain ⟨h0, j, hj, p, hp, hwd⟩ := h
  have hne : j ≠ i := fun he => hi p (he ▸ hp) hwd
  exact ⟨h0, j, hj, p, by simpa [State.clearWd, hne] using hp, hwd⟩

theorem rmWatch_frame (s : State) (wd : Int32) :
    (s.rmWatch wd).inotifyFd = s.inotifyFd ∧ (s.rmWatch wd).mappings = s.mappings ∧
      (s.rmWatch wd).opened = s.opened ∧ (s.rmWatch wd).monitor = s.monitor := by
  unfold State.rmWatch
  split_ifs <;> exact ⟨rfl, rfl, rfl, rfl⟩

theorem Inv.monitorStep (h : Inv fd mappingNum s) (ht : s.monitorStep fd = some t) :
    Inv fd mappingNum t := by
  unfold State.monitorStep at ht
  split at ht <;> cases ht
  case h_6 =>
    refine ⟨h.inotifyFd, h.held, h.closed, h.quiet, fun he => ?_⟩
    dsimp only at he ⊢
    split_ifs at he with hfd
    exact hfd
  case h_2 =>
    refine ⟨h.inotifyFd, h.held, h.closed, h.quiet, fun he => ?_⟩
    dsimp only at he
    split_ifs at he
  all_goals exact ⟨h.inotifyFd, h.held, h.closed, h.quiet, by simp⟩

theorem Inv.rmWatch (hfd : 0 ≤ fd) (h : Inv fd mappingNum s) (hs : s.uninit = .rmWatch (i :: is))
    (ht : s.uninitStep = some t) : Inv fd mappingNum t := by
  have hheld : ∀ wd ∈ s.watches, HeldBy s (i :: is) wd := by
    simpa [hs, UninitPc.left] using h.held
  simp only [State.uninitStep, hs] at ht
  cases hp : s.mappings i with
  | none =>
    simp only [hp, Option.some.injEq] at ht
    subst ht
    exact ⟨h.inotifyFd, fun wd hwd => (hheld wd hwd).tail (by simp [hp]),
      fun hc => h.closed (hc.imp_left (by simp)), h.quiet, h.ended⟩
  | some p =>
    simp only [hp] at ht
    split_ifs at ht with hwd
    · obtain rfl := Option.some.inj ht
      obtain ⟨hi, hm, ho, hmon⟩ := rmWatch_frame s p.wd
      have hclosed : s.inotifyFd = -1 → s.opened = false := fun hc => h.closed (.inr hc)
      refine ⟨by simpa [State.clearWd, hi] using h.inotifyFd, fun wd hw => ?_, fun hc => ?_,
        fun hq => ?_, by simpa [State.clearWd, hi, hmon] using h.ended⟩
      · obtain hpos | hneg := h.inotifyFd
        · obtain ⟨hmem, hne⟩ := mem_watches_rmWatch hw (hpos ▸ hfd)
          have hother : ∀ q, s.mappings i = some q → q.wd ≠ wd := by
            intro q hq
            obtain rfl := Option.some.inj (hp.symm.trans hq)
            exact hne.symm
          have hh := ((hheld wd hmem).tail hother).clearWd hother
          simpa [HeldBy, State.clearWd, hm, UninitPc.left] using hh
        · have hempty := h.quiet hneg
          simp [State.clearWd, State.rmWatch, hneg, hempty] at hw
      · simp only [State.clearWd, hi, ho] at hc ⊢
        exact hclosed (hc.resolve_left (by simp))
      · simp only [State.clearWd, hi] at hq
        simp [State.clearWd, State.rmWatch, hq, h.quiet hq]
    · obtain rfl := Option.some.inj ht
      refine ⟨h.inotifyFd, fun wd hw => ?_, fun hc => h.closed (hc.imp_left (by simp)), h.quiet,
        h.ended⟩
      refine (hheld wd hw).tail fun q hq he => hwd ?_
      obtain rfl := Option.some.inj (hp.symm.trans hq)
      exact he ▸ (hheld wd hw).1

theorem Inv.uninitStep (hfd : 0 ≤ fd) (h : Inv fd mappingNum s) (ht : s.uninitStep = some t) :
    Inv fd mappingNum t := by
  have hheld := h.held
  cases hs : s.uninit with
  | idle => simp [State.uninitStep, hs] at ht
  | rmWatch is =>
    cases is with
    | nil =>
      simp only [State.uninitStep, hs, Option.some.injEq] at ht
      subst ht
      rw [hs] at hheld
      exact ⟨h.inotifyFd, hheld, fun hc => h.closed (hc.imp_left (by simp)), h.quiet, h.ended⟩
    | cons i is => exact h.rmWatch hfd hs ht
  | testFd =>
    simp only [State.uninitStep, hs, Option.some.injEq] at ht
    subst ht
    rw [hs] at hheld
    -- past the loop there is no watch left
    have hnone : ∀ wd, wd ∉ s.watches := fun wd hwd => by
      simpa [HeldBy, UninitPc.left] using hheld wd hwd
    refine ⟨h.inotifyFd, fun wd hwd => absurd hwd (hnone wd), fun hc => h.closed (.inr ?_),
      h.quiet, h.ended⟩
    split_ifs at hc <;> simpa using hc
  | close =>
    simp only [State.uninitStep, hs, Option.some.injEq] at ht
    subst ht
    rw [hs] at hheld
    exact ⟨h.inotifyFd, hheld, fun _ => rfl, h.quiet, h.ended⟩
  | assign =>
    simp only [State.uninitStep, hs, Option.some.injEq] at ht
    subst ht
    rw [hs] at hheld
    have hnone : s.watches = [] :=
      List.eq_nil_iff_forall_not_mem.mpr fun wd hwd => by
        simpa [HeldBy, UninitPc.left] using hheld wd hwd
    exact ⟨.inr rfl, by simp [hnone], fun _ => h.closed (.inl hs), fun _ => hnone, fun _ => rfl⟩

theorem Inv.step (hfd : 0 ≤ fd) (h : Inv fd mappingNum s) {l : Label}
    (ht : s.step fd mappingNum l = some t) : Inv fd mappingNum t := by
  cases l with
  | monitor => exact h.monitorStep ht
  | readReturns n =>
    simp only [State.step, Option.ite_none_right_eq_some, Option.some.injEq] at ht
    obtain ⟨-, rfl⟩ := ht
    exact ⟨h.inotifyFd, h.held, h.closed, h.quiet, by simp⟩
  | exit =>
    cases hs : s.uninit with
    | idle =>
      simp only [State.step, hs, Option.some.injEq] at ht
      subst ht
      have hheld := h.held
      rw [hs] at hheld
      exact ⟨h.inotifyFd, hheld, fun hc => h.closed (hc.imp_left (by simp)), h.quiet, h.ended⟩
    | rmWatch is | testFd | close | assign => simp [State.step, hs] at ht
  | uninit => exact h.uninitStep hfd ht
  | created wd =>
    simp only [State.step, Option.ite_none_right_eq_some, Option.some.injEq] at ht
    obtain ⟨-, rfl⟩ := ht
    exact { h with }
  | dirRemoved wd =>
    simp only [State.step, Option.ite_none_right_eq_some, Option.some.injEq] at ht
    obtain ⟨-, rfl⟩ := ht
    refine ⟨h.inotifyFd, fun wd' hw => h.held wd' (List.mem_of_mem_filter hw), h.closed,
      fun hq => by simp [h.quiet hq], h.ended⟩

theorem inv_start (hfd : 0 ≤ fd) (inotifyAddWatch : CString → Int32) (g : Mappings) :
    Inv fd mappingNum (start fd inotifyAddWatch mappingNum g) := by
  have hneg : fd ≠ -1 := by omega
  refine ⟨.inl rfl, fun wd hwd => ?_, by simp [start, hneg], by simp [start, hneg], by simp [start]⟩
  simp only [start, watchesOf, List.mem_filterMap, Option.bind_eq_some_iff,
    Option.ite_none_right_eq_some, Option.some.injEq] at hwd
  obtain ⟨i, hi, p, hp, h0, rfl⟩ := hwd
  exact ⟨h0, i, hi, p, hp, rfl⟩

end Invariant

section Shutdown
variable {fd : ℤ} {mappingNum : ℕ} {s t u : State} {l : Label} {ls : List Label}

def Label.ofMonitor : Label → Bool
  | .monitor => true
  | .readReturns _ => true
  | _ => false

def rank (s : State) : ℕ :=
  match s.monitor with
  | .load => 3
  | .read _ => 2
  | .blocked => s.queue + 5
  | .search n => n + 4
  | .test => 1
  | .ended => 0

theorem monitorStep_after (h : Inv fd mappingNum s) (hs : s.inotifyFd = -1)
    (ht : s.monitorStep fd = some t) :
    t.inotifyFd = -1 ∧ s.monitor ≠ .blocked ∧ t.monitor ≠ .blocked ∧ rank t + 1 ≤ rank s := by
  have hopened := h.closed (.inr hs)
  cases hm : s.monitor with
  | load =>
    simp only [State.monitorStep, hm, Option.some.injEq] at ht
    subst ht
    simp [hs, rank, hm]
  | read f =>
    simp only [State.monitorStep, hm, hopened, Option.some.injEq] at ht
    subst ht
    simp [hs, rank, hm]
  | blocked => simp [State.monitorStep, hm] at ht
  | search n =>
    cases n with
    | zero =>
      simp only [State.monitorStep, hm, Option.some.injEq] at ht
      subst ht
      simp [hs, rank, hm]
    | succ n =>
      simp only [State.monitorStep, hm, Option.some.injEq] at ht
      subst ht
      simp [hs, rank, hm]
  | test =>
    simp only [State.monitorStep, hm, hs, if_true, Option.some.injEq] at ht
    subst ht
    simp [rank, hm]
  | ended => simp [State.monitorStep, hm] at ht

theorem uninitStep_after (hs : s.inotifyFd = -1) (ht : s.uninitStep = some t) :
    t.inotifyFd = -1 ∧ t.monitor = s.monitor ∧ t.queue = s.queue := by
  have hrm : ∀ wd, s.rmWatch wd = s := fun wd => by simp [State.rmWatch, hs]
  cases hu : s.uninit with
  | idle => simp [State.uninitStep, hu] at ht
  | rmWatch is =>
    cases is with
    | nil =>
      simp only [State.uninitStep, hu, Option.some.injEq] at ht
      exact ht ▸ ⟨hs, rfl, rfl⟩
    | cons i is =>
      simp only [State.uninitStep, hu, hrm] at ht
      cases hp : s.mappings i with
      | none =>
        simp only [hp, Option.some.injEq] at ht
        exact ht ▸ ⟨hs, rfl, rfl⟩
      | some p =>
        simp only [hp] at ht
        split_ifs at ht <;> exact Option.some.inj ht ▸ ⟨hs, rfl, rfl⟩
  | testFd | close | assign =>
    simp only [State.uninitStep, hu, Option.some.injEq] at ht
    subst ht
    simp [hs]

theorem rank_congr (hm : t.monitor = s.monitor) (hq : t.queue = s.queue) : rank t = rank s := by
  unfold rank
  rw [hm, hq]

theorem step_after (h : Inv fd mappingNum s) (hs : s.inotifyFd = -1)
    (ht : s.step fd mappingNum l = some t) :
    t.inotifyFd = -1 ∧ (Stuck s ↔ Stuck t) ∧ rank t + (if l.ofMonitor then 1 else 0) ≤ rank s := by
  have hempty := h.quiet hs
  cases l with
  | monitor =>
    obtain ⟨hfd, hns, hnt, hr⟩ := monitorStep_after h hs ht
    exact ⟨hfd, by simp [Stuck, hns, hnt], hr⟩
  | readReturns n =>
    simp only [State.step, Option.ite_none_right_eq_some, Option.some.injEq] at ht
    obtain ⟨⟨hm, hpos, hle⟩, rfl⟩ := ht
    have hq : s.queue ≠ 0 := by omega
    refine ⟨hs, by simp [Stuck, hq], ?_⟩
    simp only [rank, hm, Label.ofMonitor, if_true]
    omega
  | exit =>
    cases hu : s.uninit with
    | idle =>
      simp only [State.step, hu, Option.some.injEq] at ht
      subst ht
      exact ⟨hs, Iff.rfl, le_rfl⟩
    | rmWatch is | testFd | close | assign => simp [State.step, hu] at ht
  | uninit =>
    obtain ⟨hfd, hm, hq⟩ := uninitStep_after hs ht
    exact ⟨hfd, by simp [Stuck, hm, hq], (rank_congr hm hq).le⟩
  | created wd | dirRemoved wd => simp [State.step, hempty] at ht

def Moves (fd : ℤ) (mappingNum : ℕ) (s : State) : Prop :=
  s.monitor = .ended ∨ ∃ l, l.ofMonitor = true ∧ (s.step fd mappingNum l).isSome = true

theorem monitorStep_isSome (hb : s.monitor ≠ .blocked) (he : s.monitor ≠ .ended) :
    (s.monitorStep fd).isSome = true := by
  cases hm : s.monitor with
  | load | read f | test => simp [State.monitorStep, hm]
  | search n => cases n <;> simp [State.monitorStep, hm]
  | blocked => exact absurd hm hb
  | ended => exact absurd hm he

theorem moves_iff : Moves fd mappingNum s ↔ ¬ Stuck s := by
  by_cases he : s.monitor = .ended
  · simp [Moves, Stuck, he]
  by_cases hb : s.monitor = .blocked
  · constructor
    · intro h hstuck
      obtain ⟨l, hl, hsome⟩ := h.resolve_left he
      have hq := hstuck.2
      cases l with
      | monitor => simp [State.step, State.monitorStep, hb] at hsome
      | readReturns n =>
        have hn : ¬ (0 < n ∧ n ≤ s.queue) := by omega
        simp [State.step, hb, hn] at hsome
      | exit | uninit | created wd | dirRemoved wd => simp [Label.ofMonitor] at hl
    · intro hstuck
      have hpos : 0 < s.queue := Nat.pos_of_ne_zero fun hq => hstuck ⟨hb, hq⟩
      exact .inr ⟨.readReturns s.queue, rfl, by simp [State.step, hb, hpos]⟩
  · exact ⟨fun _ hstuck => hb hstuck.1, fun _ => .inr ⟨.monitor, rfl, monitorStep_isSome hb he⟩⟩

theorem run_after (hfd : 0 ≤ fd) (h : Inv fd mappingNum s) (hs : s.inotifyFd = -1)
    (hu : exec (State.step fd mappingNum) s ls = some u) :
    (Stuck s ↔ Stuck u) ∧ rank u + ls.countP Label.ofMonitor ≤ rank s := by
  induction ls generalizing s with
  | nil =>
    obtain rfl := Option.some.inj hu
    exact ⟨Iff.rfl, by simp⟩
  | cons l ls ih =>
    obtain ⟨t, ht, hr⟩ := exec_cons.mp hu
    obtain ⟨hsame, hstuck, hrank⟩ := step_after h hs ht
    obtain ⟨hstuck', hrank'⟩ := ih (h.step hfd ht) hsame hr
    refine ⟨hstuck.trans hstuck', ?_⟩
    rw [List.countP_cons]
    omega

def shutdown : List Label :=
  [.monitor, .monitor, .exit, .uninit, .uninit, .uninit, .uninit, .uninit, .uninit]

variable (fd mappingNum) in
theorem rmWatch_runs (is : List (Fin maxMappingNum)) (hs : s.uninit = .rmWatch is) :
    ∃ t, exec (State.step fd mappingNum) s (List.replicate is.length .uninit) = some t ∧
      t.uninit = .rmWatch [] ∧ t.inotifyFd = s.inotifyFd ∧ t.opened = s.opened ∧
      t.monitor = s.monitor := by
  induction is generalizing s with
  | nil => exact ⟨s, rfl, hs, rfl, rfl, rfl⟩
  | cons i is ih =>
    have hone : ∃ t, s.uninitStep = some t ∧ t.uninit = .rmWatch is ∧
        t.inotifyFd = s.inotifyFd ∧ t.opened = s.opened ∧ t.monitor = s.monitor := by
      simp only [State.uninitStep, hs]
      cases s.mappings i with
      | none => exact ⟨_, rfl, rfl, rfl, rfl, rfl⟩
      | some p =>
        obtain ⟨hi, -, ho, hm⟩ := rmWatch_frame s p.wd
        dsimp only
        split_ifs
        · exact ⟨_, rfl, rfl, hi, ho, hm⟩
        · exact ⟨_, rfl, rfl, rfl, rfl, rfl⟩
    obtain ⟨t, ht, hu, hi, ho, hm⟩ := hone
    obtain ⟨v, hv, hu', hi', ho', hm'⟩ := ih hu
    exact ⟨v, exec_cons.mpr ⟨t, ht, hv⟩, hu', hi'.trans hi, ho'.trans ho, hm'.trans hm⟩

variable (fd mappingNum) in
theorem search_runs (n : ℕ) (hs : s.monitor = .search n) :
    exec (State.step fd mappingNum) s (List.replicate (n + 1) .monitor) =
      some { s with monitor := .load } := by
  induction n generalizing s with
  | zero => simp [exec, State.step, State.monitorStep, hs]
  | succ n ih =>
    refine exec_cons.mpr ⟨{ s with monitor := .search n }, ?_, ih rfl⟩
    simp [State.step, State.monitorStep, hs]

variable (mappingNum) in
theorem waits (hs : s.monitor = .load) (hi : s.inotifyFd = fd) (ho : s.opened = true) :
    ∃ ls, exec (State.step fd mappingNum) s ls =
      some { s with monitor := .blocked, queue := 0 } := by
  have henter : ∀ v : State, v.monitor = .load → v.inotifyFd = fd → v.opened = true →
      exec (State.step fd mappingNum) v [.monitor, .monitor] =
        some { v with monitor := .blocked } := by
    intro v hv hvi hvo
    simp [exec, State.step, State.monitorStep, hv, hvi, hvo]
  by_cases hq : s.queue = 0
  · exact ⟨[.monitor, .monitor], by rw [henter s hs hi ho, ← hq]⟩
  · have hread : (State.step fd mappingNum) { s with monitor := .blocked } (.readReturns s.queue) =
        some { s with monitor := .search s.queue, queue := 0 } := by
      simp [State.step, Nat.pos_of_ne_zero hq]
    have hsearch := search_runs fd mappingNum
      (s := { s with monitor := .search s.queue, queue := 0 }) s.queue rfl
    have hagain := henter { s with monitor := .load, queue := 0 } rfl hi ho
    exact ⟨_, exec_append.mpr ⟨_, henter s hs hi ho, exec_cons.mpr ⟨_, hread,
      exec_append.mpr ⟨_, hsearch, hagain⟩⟩⟩⟩

/-- Whatever is watched, the command may come in such a way that the main thread never ends: it
takes the events of the removed watches before the descriptor is closed. -/
theorem monitor_hangs (hfd : 0 ≤ fd) (inotifyAddWatch : CString → Int32) (mappingNum : ℕ)
    (g : Mappings) :
    ∃ ls s, exec (State.step fd mappingNum) (start fd inotifyAddWatch mappingNum g) ls = some s ∧
      s.inotifyFd = -1 ∧ Stuck s := by
  obtain ⟨t, ht, hu, hi, ho, hm⟩ := rmWatch_runs fd mappingNum
    (s := { start fd inotifyAddWatch mappingNum g with uninit := .rmWatch (indices mappingNum) })
    (indices mappingNum) rfl
  have htest : exec (State.step fd mappingNum) t [.uninit, .uninit] =
      some { t with uninit := .close } := by
    have hpos : 0 ≤ t.inotifyFd := hi ▸ hfd
    simp [exec, State.step, State.uninitStep, hu, hpos]
  obtain ⟨ls, hls⟩ := waits mappingNum (s := { t with uninit := .close }) hm hi ho
  refine ⟨.exit :: (List.replicate (indices mappingNum).length .uninit ++
    ([.uninit, .uninit] ++ (ls ++ [.uninit, .uninit]))), _, exec_cons.mpr ⟨_, rfl,
    exec_append.mpr ⟨t, ht, exec_append.mpr ⟨_, htest, exec_append.mpr ⟨_, hls, rfl⟩⟩⟩⟩, rfl,
    rfl, rfl⟩

theorem monitor_hangs_watch : ∃ ls s,
    exec (State.step 3 2) (start 3 twoWatches 2 twoNames) ls = some s ∧
      s.inotifyFd = -1 ∧ Stuck s :=
  monitor_hangs (by decide) twoWatches 2 twoNames

end Shutdown
end LibComm.MonitorShutdown

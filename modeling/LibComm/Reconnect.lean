import LibComm.Inotify
import LibComm.Interleaving

/-!
# A mapping and a pipe that comes and goes

The main thread tries to connect a mapping once when the daemon starts, before
the directory is watched, and then for the events that the creation of files
has queued: for each it connects the first mapping of the table that has that
name and whose `pipeConnect` is 0. The server creates the socket file when it
binds its name and listens later, from its own thread; it may exit at any time
and come back under the same name, which it unlinks on both occasions. The
other mappings may be connected or not at any time.
-/

namespace LibComm.Reconnect
open ByteMemory Interleaving
open Inotify (maxMappingNum)

structure Setup where
  pipeName : Fin maxMappingNum → Option CString
  self : Fin maxMappingNum
  name : CString
  named : pipeName self = some name

def Setup.Sole (σ : Setup) : Prop := ∀ i, σ.pipeName i = some σ.name → i = σ.self

inductive Server where
  | down
  | bound
  | listening
  deriving DecidableEq

/-- The connection of the mapping's IPC client: to the server that there is now, or to one that is
gone, which its receive task has not noticed yet. -/
inductive Conn where
  | none
  | live
  | hungUp
  deriving DecidableEq

inductive Pc where
  | init
  | access
  | connect
  | assign (ok : Bool)
  | inotifyInit
  | addWatch
  | read
  | search (name : CString)
  | ended
  deriving DecidableEq

/-- Events that have been read into the buffer and not been looked at count as queued; `others` are
the flags `pipeConnect` of the other mappings. -/
structure State where
  server : Server
  file : Bool
  monitors : Bool
  watched : Bool
  events : List CString
  pc : Pc
  conn : Conn
  pipeConnect : Bool
  others : Fin maxMappingNum → Bool

/-- `ok` tells whether the calls of a statement of the main thread succeed, as far as that does not
depend on the server. -/
inductive Label where
  | bind
  | listen
  | hangUp
  | exit
  | unlink
  | daemon (ok : Bool)
  | task
  | event (name : CString)
  | setOthers (others : Fin maxMappingNum → Bool)

def start (server : Server) (file : Bool) : State :=
  ⟨server, file, false, false, [], .init, .none, false, fun _ => false⟩

namespace State

def next (s : State) : Pc := if s.monitors then .read else .inotifyInit

def hangUp (s : State) : Conn := if s.conn = .live then .hungUp else s.conn

def search (σ : Setup) (s : State) (name : CString) : Option (Fin maxMappingNum) :=
  Fin.find? fun i => decide (σ.pipeName i = some name) &&
    !(if i = σ.self then s.pipeConnect else s.others i)

/-- A statement of the main thread. The IPC client that there was is given up before a new one is
made; without one, `serv_init` fails. -/
def daemonStep (σ : Setup) (s : State) (ok : Bool) : Option State :=
  match s.pc with
  | .init =>
    some { s with
      conn := .none
      pc := if ok then .access else if s.monitors then .read else .ended }
  | .access => some { s with pc := if s.file then .connect else s.next }
  | .connect =>
    if ok = true ∧ s.server = .listening then some { s with conn := .live, pc := .assign true }
    else some { s with pc := .assign false }
  | .assign b => some { s with pipeConnect := b, pc := s.next }
  | .inotifyInit => some { s with pc := if ok then .addWatch else .ended }
  | .addWatch => some { s with monitors := true, watched := ok, pc := .read }
  | .read =>
    match s.events with
    | [] => none
    | n :: ns => some { s with events := ns, pc := .search n }
  | .search n => some { s with pc := if s.search σ n = some σ.self then .init else .read }
  | .ended => none

end State

def step (σ : Setup) (s : State) : Label → Option State
  | .bind =>
    if s.server = .down then
      some { s with
        server := .bound
        file := true
        events := if s.watched then s.events ++ [σ.name] else s.events }
    else none
  | .listen => if s.server = .bound then some { s with server := .listening } else none
  | .hangUp => some { s with conn := s.hangUp }
  | .exit => if s.server = .down then none else some { s with server := .down, conn := s.hangUp }
  | .unlink => if s.server = .down then some { s with file := false } else none
  | .daemon ok => s.daemonStep σ ok
  | .task =>
    if s.conn = .hungUp then some { s with conn := .none, pipeConnect := false } else none
  | .event n =>
    if s.monitors = true ∨ s.pc = .addWatch then some { s with events := s.events ++ [n] }
    else none
  | .setOthers others => some { s with others := others }

/-- The server stays as it is but for its `listen`, and keeps its connections, and nobody else
creates a file of the name. -/
def Keeps (σ : Setup) : Label → Prop
  | .listen | .daemon _ | .task | .setOthers _ => True
  | .bind | .hangUp | .exit | .unlink => False
  | .event n => n ≠ σ.name

instance (σ : Setup) : DecidablePred (Keeps σ)
  | .listen | .daemon _ | .task | .setOthers _ => .isTrue trivial
  | .bind | .hangUp | .exit | .unlink => .isFalse id
  | .event n => inferInstanceAs (Decidable (n ≠ σ.name))

def Tries (σ : Setup) (s : State) : Prop :=
  σ.name ∈ s.events ∨ s.pc = .init ∨ s.pc = .access ∨ s.pc = .connect ∨ s.pc = .search σ.name

/-- The new server is noticed, and the last attempt to connect to it is not made in vain. -/
def Meets (σ : Setup) (s : State) : Label → Prop
  | .bind => s.watched = true ∨ Tries σ s
  | .daemon ok => σ.name ∉ s.events →
    (s.pc = .init → ok = true) ∧ (s.pc = .connect → ok = true ∧ s.server = .listening) ∧
      (s.pc = .search σ.name → s.pipeConnect = true → s.conn = .live)
  | _ => True

instance (σ : Setup) (s : State) : Decidable (Tries σ s) :=
  inferInstanceAs (Decidable (_ ∨ _ ∨ _ ∨ _ ∨ _))

instance (σ : Setup) (s : State) : ∀ l, Decidable (Meets σ s l)
  | .bind => inferInstanceAs (Decidable (_ ∨ _))
  | .daemon _ => inferInstanceAs (Decidable (_ → _))
  | .listen | .hangUp | .exit | .unlink | .task | .event _ | .setOthers _ => .isTrue trivial

def Settled (s : State) : Prop := s.pc = .read ∧ s.events = []

/-- There is a connection, or an attempt to make one is still to come. -/
def Coming (σ : Setup) (s : State) : Prop := s.conn = .live ∨ Tries σ s

structure Base (s : State) : Prop where
  unconnected : s.pc = .access ∨ s.pc = .connect ∨ s.pc = .assign false → s.conn = .none
  down : s.server = .down → s.conn ≠ .live
  flag : s.conn = .live → s.pipeConnect = true ∨ s.pc = .assign true

section Steps
variable {σ : Setup} {s t : State} {l : Label}

theorem search_self (hsole : σ.Sole) :
    s.search σ σ.name = some σ.self ↔ s.pipeConnect = false := by
  constructor
  · intro h
    have hfound := (Fin.find?_eq_some_iff.mp h).1
    simpa [σ.named] using hfound
  · intro h
    refine Fin.find?_eq_some_iff.mpr ⟨by simp [σ.named, h], fun i hi => ?_⟩
    have hne : σ.pipeName i ≠ some σ.name := fun heq => hi.ne (hsole i heq)
    simp [hne]

theorem search_other {n : CString} (hn : n ≠ σ.name) : s.search σ n ≠ some σ.self := by
  intro h
  have hname := (Fin.find?_eq_some_iff.mp h).1
  simp [σ.named, Ne.symm hn] at hname

theorem base_start (server : Server) (file : Bool) : Base (start server file) := by
  constructor <;> simp [start]

theorem hangUp_ne (s : State) : s.hangUp ≠ .live := by
  unfold State.hangUp
  split_ifs with h
  · simp
  · exact h

theorem hangUp_none (h : s.conn = .none) : s.hangUp = .none := by
  simp [State.hangUp, h]

theorem next_cases (s : State) : s.next = .read ∨ s.next = .inotifyInit := by
  unfold State.next
  split_ifs <;> simp

theorem Base.daemonStep (h : Base s) {ok : Bool} (ht : s.daemonStep σ ok = some t) : Base t := by
  obtain ⟨hnone, hdown, hflag⟩ := h
  unfold State.daemonStep at ht
  cases hpc : s.pc with
  | init =>
    simp only [hpc, Option.some.injEq] at ht
    subst ht
    exact ⟨fun _ => rfl, by simp, by simp⟩
  | access =>
    simp only [hpc, Option.some.injEq] at ht
    subst ht
    have hn := hnone (.inl hpc)
    exact ⟨fun _ => hn, by simp [hn], by simp [hn]⟩
  | connect =>
    have hn := hnone (.inr (.inl hpc))
    simp only [hpc] at ht
    split_ifs at ht with hc <;> obtain rfl := Option.some.inj ht
    · exact ⟨by simp, by simp [hc.2], by simp⟩
    · exact ⟨fun _ => hn, by simp [hn], by simp [hn]⟩
  | assign b =>
    simp only [hpc, Option.some.injEq] at ht
    subst ht
    have hl : s.conn = .live → b = true := by
      intro hl
      cases b with
      | true => rfl
      | false =>
        rw [hnone (.inr (.inr hpc))] at hl
        contradiction
    obtain hx | hx := next_cases s
    · exact ⟨by simp [hx], hdown, fun hc => .inl (hl hc)⟩
    · exact ⟨by simp [hx], hdown, fun hc => .inl (hl hc)⟩
  | inotifyInit =>
    simp only [hpc, Option.some.injEq] at ht
    subst ht
    refine ⟨fun hx => ?_, hdown, fun hl => ?_⟩
    · dsimp only at hx
      split_ifs at hx <;> simp at hx
    · left
      simpa [hpc] using hflag hl
  | addWatch =>
    simp only [hpc, Option.some.injEq] at ht
    subst ht
    refine ⟨by simp, hdown, fun hl => ?_⟩
    simpa [hpc] using hflag hl
  | read =>
    simp only [hpc] at ht
    cases he : s.events with
    | nil => simp [he] at ht
    | cons n ns =>
      simp only [he, Option.some.injEq] at ht
      subst ht
      refine ⟨by simp, hdown, fun hl => ?_⟩
      simpa [hpc] using hflag hl
  | search n =>
    simp only [hpc, Option.some.injEq] at ht
    subst ht
    have hf : s.conn = .live → s.pipeConnect = true := by simpa [hpc] using hflag
    refine ⟨fun hx => ?_, hdown, fun hl => .inl (hf hl)⟩
    dsimp only at hx
    split_ifs at hx <;> simp at hx
  | ended => simp [hpc] at ht

theorem Base.step (h : Base s) (ht : step σ s l = some t) : Base t := by
  obtain ⟨hnone, hdown, hflag⟩ := h
  have hhung : s.pc = .access ∨ s.pc = .connect ∨ s.pc = .assign false → s.hangUp = .none :=
    fun hx => hangUp_none (hnone hx)
  cases l with
  | bind | listen =>
    simp only [Reconnect.step, Option.ite_none_right_eq_some, Option.some.injEq] at ht
    obtain ⟨-, rfl⟩ := ht
    exact ⟨hnone, by simp, hflag⟩
  | hangUp =>
    obtain rfl := Option.some.inj ht
    exact ⟨hhung, fun _ => hangUp_ne s, fun hl => absurd hl (hangUp_ne s)⟩
  | exit =>
    simp only [Reconnect.step, Option.ite_none_left_eq_some, Option.some.injEq] at ht
    obtain ⟨-, rfl⟩ := ht
    exact ⟨hhung, fun _ => hangUp_ne s, fun hl => absurd hl (hangUp_ne s)⟩
  | unlink =>
    simp only [Reconnect.step, Option.ite_none_right_eq_some, Option.some.injEq] at ht
    obtain ⟨-, rfl⟩ := ht
    exact ⟨hnone, hdown, hflag⟩
  | daemon ok => exact Base.daemonStep ⟨hnone, hdown, hflag⟩ ht
  | task =>
    simp only [Reconnect.step, Option.ite_none_right_eq_some, Option.some.injEq] at ht
    obtain ⟨-, rfl⟩ := ht
    exact ⟨fun _ => rfl, by simp, by simp⟩
  | event n =>
    simp only [Reconnect.step, Option.ite_none_right_eq_some, Option.some.injEq] at ht
    obtain ⟨-, rfl⟩ := ht
    exact ⟨hnone, hdown, hflag⟩
  | setOthers f =>
    obtain rfl := Option.some.inj ht
    exact ⟨hnone, hdown, hflag⟩

theorem coming_bind (h : Base s) (ht : step σ s .bind = some t) :
    Coming σ t ↔ Meets σ s .bind := by
  simp only [Reconnect.step, Option.ite_none_right_eq_some, Option.some.injEq] at ht
  obtain ⟨hs, rfl⟩ := ht
  have hlive := h.down hs
  cases hw : s.watched <;> simp [Coming, Tries, Meets, hw, hlive]

theorem coming_daemonStep (hsole : σ.Sole) (h : Base s) (hf : s.file = true) {ok : Bool}
    (ht : s.daemonStep σ ok = some t) :
    (Coming σ t ↔ Coming σ s ∧ Meets σ s (.daemon ok)) ∧ t.file = true := by
  unfold State.daemonStep at ht
  cases hpc : s.pc with
  | init =>
    simp only [hpc, Option.some.injEq] at ht
    subst ht
    refine ⟨?_, hf⟩
    cases ok with
    | true => simp [Coming, Tries, Meets, hpc]
    | false =>
      cases s.monitors <;> simp [Coming, Tries, Meets, hpc]
  | access =>
    simp only [hpc, hf, if_true, Option.some.injEq] at ht
    subst ht
    exact ⟨by simp [Coming, Tries, Meets, hpc], rfl⟩
  | connect =>
    have hn := h.unconnected (.inr (.inl hpc))
    simp only [hpc] at ht
    split_ifs at ht with hc <;> obtain rfl := Option.some.inj ht
    · exact ⟨by simp [Coming, Tries, Meets, hpc, hc], hf⟩
    · refine ⟨?_, hf⟩
      simp only [Coming, Tries, Meets, hpc, hn, hc]
      simp
  | assign b =>
    simp only [hpc, Option.some.injEq] at ht
    subst ht
    refine ⟨?_, hf⟩
    obtain hx | hx := next_cases s <;> simp [Coming, Tries, Meets, hpc, hx]
  | inotifyInit =>
    simp only [hpc, Option.some.injEq] at ht
    subst ht
    refine ⟨?_, hf⟩
    cases ok <;> simp [Coming, Tries, Meets, hpc]
  | addWatch =>
    simp only [hpc, Option.some.injEq] at ht
    subst ht
    exact ⟨by simp [Coming, Tries, Meets, hpc], hf⟩
  | read =>
    simp only [hpc] at ht
    cases he : s.events with
    | nil => simp [he] at ht
    | cons n ns =>
      simp only [he, Option.some.injEq] at ht
      subst ht
      refine ⟨?_, hf⟩
      simp only [Coming, Tries, Meets, hpc, he]
      simp only [List.mem_cons, Pc.search.injEq]
      simp
      tauto
  | search n =>
    simp only [hpc, Option.some.injEq] at ht
    subst ht
    refine ⟨?_, hf⟩
    by_cases hn : n = σ.name
    · subst hn
      cases hflag : s.pipeConnect with
      | false =>
        simp [Coming, Tries, Meets, hpc, hflag, (search_self hsole).mpr hflag]
      | true =>
        have hnot : s.search σ σ.name ≠ some σ.self := by simp [search_self hsole, hflag]
        simp only [Coming, Tries, Meets, hpc, hflag, if_neg hnot]
        simp
        tauto
    · simp [Coming, Tries, Meets, hpc, hn, search_other hn]
  | ended => simp [hpc] at ht

theorem coming_step (hsole : σ.Sole) (h : Base s) (hf : s.file = true) (hl : Keeps σ l)
    (ht : step σ s l = some t) : (Coming σ t ↔ Coming σ s ∧ Meets σ s l) ∧ t.file = true := by
  cases l with
  | listen =>
    simp only [Reconnect.step, Option.ite_none_right_eq_some, Option.some.injEq] at ht
    obtain ⟨-, rfl⟩ := ht
    exact ⟨by simp [Coming, Tries, Meets], hf⟩
  | daemon ok => exact coming_daemonStep hsole h hf ht
  | task =>
    simp only [Reconnect.step, Option.ite_none_right_eq_some, Option.some.injEq] at ht
    obtain ⟨hc, rfl⟩ := ht
    exact ⟨by simp [Coming, Tries, Meets, hc], hf⟩
  | event n =>
    simp only [Reconnect.step, Option.ite_none_right_eq_some, Option.some.injEq] at ht
    obtain ⟨-, rfl⟩ := ht
    have hn : σ.name ≠ n := Ne.symm hl
    exact ⟨by simp [Coming, Tries, Meets, hn], hf⟩
  | setOthers f =>
    obtain rfl := Option.some.inj ht
    exact ⟨by simp [Coming, Tries, Meets], hf⟩
  | bind | hangUp | exit | unlink => exact hl.elim

theorem coming_exec (hsole : σ.Sole) {ls : List Label} (h : Base s) (hf : s.file = true)
    (hl : ∀ l ∈ ls, Keeps σ l) (hrun : exec (step σ) s ls = some t) :
    (Coming σ t ↔ Coming σ s ∧ Obeys (step σ) (Meets σ) s ls) ∧ t.file = true := by
  induction ls generalizing s with
  | nil =>
    obtain rfl := Option.some.inj hrun
    exact ⟨by simp [Obeys], hf⟩
  | cons l ls ih =>
    obtain ⟨u, hu, hr⟩ := exec_cons.mp hrun
    obtain ⟨hstep, hf'⟩ := coming_step hsole h hf (hl l List.mem_cons_self) hu
    obtain ⟨hrest, hfile⟩ := ih (h.step hu) hf' (fun x hx => hl x (List.mem_cons_of_mem l hx)) hr
    refine ⟨?_, hfile⟩
    rw [hrest, hstep, obeys_cons hu, and_assoc]

theorem settled_iff (h : Base s) (hs : Settled s) :
    Coming σ s ↔ s.conn = .live ∧ s.pipeConnect = true := by
  obtain ⟨hpc, he⟩ := hs
  have hflag : s.conn = .live → s.pipeConnect = true := by simpa [hpc] using h.flag
  simp only [Coming, Tries, hpc, he]
  simpa using hflag

end Steps

def twoMappings : Setup where
  pipeName i :=
    if i.val = 0 then some ⟨[109], by simp⟩ else if i.val = 1 then some ⟨[110], by simp⟩ else none
  self := ⟨1, Nat.le_add_left 2 62⟩
  name := ⟨[110], by simp⟩
  named := rfl

def before : List Label :=
  [.daemon true, .daemon true, .daemon true, .daemon true, .daemon true, .daemon true, .unlink]

def after : List Label :=
  [.event ⟨[109], by simp⟩, .daemon true, .daemon true, .daemon true, .listen, .daemon true,
    .daemon true, .daemon true, .daemon true, .daemon true]

theorem twoMappings_sole : twoMappings.Sole := by
  intro i hi
  simp only [twoMappings] at hi ⊢
  split_ifs at hi with h0 h1
  · simp at hi
  · exact Fin.ext h1

/-- The event is read and the connection tried before the server listens. -/
example : (exec (step twoMappings) (start .down true) (before ++ .bind ::
    [.daemon true, .daemon true, .daemon true, .daemon true, .daemon true, .daemon true,
      .listen])).any (fun s => s.pc = .read ∧ s.events = [] ∧ s.conn = .none ∧
        s.server = .listening) = true := by decide +kernel

end LibComm.Reconnect

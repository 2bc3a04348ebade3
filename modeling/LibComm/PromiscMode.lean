import Mathlib.Data.Int.Basic
import LibComm.BitField

/-!
# The promiscuous mode of a raw socket

`rawPromiscMode` reads the flags of the interface, changes `IFF_PROMISC`, writes
the flags back and remembers the last mode that it has set. `rawSockUninit`
goes by that alone: it turns the mode off if the last call has turned it on,
and does nothing otherwise.
-/

namespace LibComm.PromiscMode
open BitField

abbrev Flags := BitVec 16

def iffUp : Flags := 0x1
def iffPromisc : Flags := 0x100

def others : Flags := ~~~(iffPromisc ||| iffUp)

structure State where
  flags : Flags
  promisc : ℤ
  fd : ℤ
  deriving DecidableEq

/-- What `comm_rawSockInit` is answered; `ioctls` are the three of `_rawInit`, and `thread` says
that no thread is needed or that it is created. -/
structure InitAnswers where
  malloc : Bool
  fd : ℤ
  ioctls : Bool
  thread : Bool

def rawSockInit (a : InitAnswers) (flags : Flags) : Option State :=
  if a.malloc = false ∨ a.fd < 0 ∨ a.ioctls = false ∨ a.thread = false then none
  else some ⟨flags, 0, a.fd⟩

structure Call where
  enable : ℤ
  getFlags : Bool
  setFlags : Bool

def changed (enable : ℤ) (ifrFlags : Flags) : Flags :=
  let ifrFlags := if ifrFlags &&& iffUp = 0 then ifrFlags ||| iffUp else ifrFlags
  if enable ≠ 0 then ifrFlags ||| iffPromisc else ifrFlags &&& ~~~iffPromisc

def rawPromiscMode (c : Call) (s : State) : State × ℤ :=
  if s.fd < 0 then (s, -1)
  else if c.getFlags = false then (s, -1)
  else if c.setFlags = false then (s, -1)
  else ({ s with flags := changed c.enable s.flags, promisc := c.enable }, 0)

def rawSockUninit (s : State) : State :=
  let s := if s.promisc ≠ 0 then (rawPromiscMode ⟨0, true, true⟩ s).1 else s
  if s.fd > 0 then { s with fd := -1 } else s

def calls (cs : List Call) (s : State) : State :=
  cs.foldl (fun s c => (rawPromiscMode c s).1) s

def Call.Passes (c : Call) : Prop := c.getFlags = true ∧ c.setFlags = true

instance (c : Call) : Decidable c.Passes := inferInstanceAs (Decidable (_ ∧ _))

/-- The mode is at the end what it was at first, the other flags stay as they are all the time, and
a call that fails changes nothing. -/
structure GivesBack (s : State) (cs : List Call) : Prop where
  promisc : Agree iffPromisc (rawSockUninit (calls cs s)).flags s.flags
  during : ∀ xs, xs <+: cs → Agree others (calls xs s).flags s.flags
  after : Agree others (rawSockUninit (calls cs s)).flags s.flags
  failed : ∀ xs c, xs ++ [c] <+: cs → (rawPromiscMode c (calls xs s)).2 = -1 →
    (rawPromiscMode c (calls xs s)).1 = calls xs s

def mode (promisc : ℤ) : Flags := if promisc ≠ 0 then iffPromisc else 0

variable {s : State} {c : Call}

theorem changed_promisc (enable : ℤ) (flags : Flags) :
    Agree iffPromisc (changed enable flags) (mode enable) := by
  unfold changed mode
  by_cases he : enable = 0
  · simp only [he, ne_eq, not_true_eq_false, if_false]
    exact agree_cleared _ (by decide)
  · simp only [he, ne_eq, not_false_eq_true, if_true]
    exact agree_all_set _ (by decide)

theorem changed_others (enable : ℤ) (flags : Flags) :
    Agree others (changed enable flags) flags := by
  have hup : Agree others (if flags &&& iffUp = 0 then flags ||| iffUp else flags) flags := by
    split_ifs
    · exact (Agree.refl others flags).set (by decide)
    · exact Agree.refl others flags
  unfold changed
  by_cases he : enable = 0
  · simp only [he, ne_eq, not_true_eq_false, if_false]
    exact hup.clear (by decide)
  · simp only [he, ne_eq, not_false_eq_true, if_true]
    exact hup.set (by decide)

theorem rawPromiscMode_passed (h : c.Passes) (hfd : 0 ≤ s.fd) :
    rawPromiscMode c s =
      ({ s with flags := changed c.enable s.flags, promisc := c.enable }, 0) := by
  simp [rawPromiscMode, Int.not_lt.mpr hfd, h.1, h.2]

theorem rawPromiscMode_failed (h : ¬ c.Passes) (s : State) : rawPromiscMode c s = (s, -1) := by
  unfold rawPromiscMode
  split_ifs with hfd hget hset
  · rfl
  · rfl
  · rfl
  · exact absurd ⟨by simpa using hget, by simpa using hset⟩ h

/-- A state after calls: the other flags are those found, and once a call has passed the mode
remembered is the one set; before that nothing has changed. -/
structure Kept (s₀ s : State) (passed : Prop) : Prop where
  fd : 0 ≤ s.fd
  others : Agree others s.flags s₀.flags
  mode : passed → Agree iffPromisc s.flags (mode s.promisc)
  fresh : ¬ passed → s = s₀

theorem Kept.call {s₀ : State} {passed : Prop} (h : Kept s₀ s passed) (c : Call) :
    Kept s₀ (rawPromiscMode c s).1 (passed ∨ c.Passes) := by
  by_cases hc : c.Passes
  · rw [rawPromiscMode_passed hc h.fd]
    exact ⟨h.fd, (changed_others _ _).trans h.others, fun _ => changed_promisc _ _,
      fun hn => absurd (.inr hc) hn⟩
  · rw [rawPromiscMode_failed hc]
    simp only [hc, or_false]
    exact h

theorem Kept.calls {s₀ : State} {passed : Prop} (h : Kept s₀ s passed) (cs : List Call) :
    Kept s₀ (calls cs s) (passed ∨ ∃ c ∈ cs, c.Passes) := by
  induction cs generalizing s passed with
  | nil => simpa [PromiscMode.calls] using h
  | cons c cs ih =>
    have hrest := ih (h.call c)
    simp only [List.mem_cons, exists_eq_or_imp, ← or_assoc]
    exact hrest

theorem Kept.init {a : InitAnswers} {flags : Flags} (h : rawSockInit a flags = some s) :
    s.flags = flags ∧ s.promisc = 0 ∧ Kept s s False := by
  unfold rawSockInit at h
  split_ifs at h with hfail
  obtain rfl := Option.some.inj h
  have hfd : ¬ a.fd < 0 := fun hlt => hfail (.inr (.inl hlt))
  exact ⟨rfl, rfl, Int.not_lt.mp hfd, Agree.refl _ _, False.elim, fun _ => rfl⟩

theorem rawSockUninit_flags (hfd : 0 ≤ s.fd) :
    (rawSockUninit s).flags = if s.promisc ≠ 0 then changed 0 s.flags else s.flags := by
  have hoff : rawPromiscMode ⟨0, true, true⟩ s =
      ({ s with flags := changed 0 s.flags, promisc := 0 }, 0) :=
    rawPromiscMode_passed ⟨rfl, rfl⟩ hfd
  have hclose : ∀ t : State, (if t.fd > 0 then { t with fd := -1 } else t).flags = t.flags := by
    intro t
    split_ifs <;> rfl
  simp only [rawSockUninit, hoff, hclose]
  split_ifs <;> rfl

theorem Kept.uninit {s₀ : State} {passed : Prop} (h : Kept s₀ s passed) :
    Agree PromiscMode.others (rawSockUninit s).flags s₀.flags ∧
      (passed → Agree iffPromisc (rawSockUninit s).flags 0) := by
  rw [rawSockUninit_flags h.fd]
  by_cases hp : s.promisc = 0
  · simp only [hp, ne_eq, not_true_eq_false, if_false]
    exact ⟨h.others, fun hpassed => by simpa [PromiscMode.mode, hp] using h.mode hpassed⟩
  · simp only [hp, ne_eq, not_false_eq_true, if_true]
    exact ⟨(changed_others 0 s.flags).trans h.others, fun _ => changed_promisc 0 s.flags⟩

/-- The mode is given back as found exactly if it is off when the socket is made, or no call to
change it succeeds. -/
theorem gives_back_iff (a : InitAnswers) (flags : Flags) (cs : List Call)
    (h : rawSockInit a flags = some s) :
    GivesBack s cs ↔ Agree iffPromisc flags 0 ∨ ∀ c ∈ cs, ¬ c.Passes := by
  obtain ⟨hflags, hpromisc, hinit⟩ := Kept.init h
  have hkept : ∀ xs, Kept s (calls xs s) (∃ c ∈ xs, c.Passes) := by
    intro xs
    simpa using hinit.calls xs
  obtain ⟨hothers, hoff⟩ := (hkept cs).uninit
  constructor
  · intro hg
    by_cases hpass : ∃ c ∈ cs, c.Passes
    · apply Or.inl
      rw [← hflags]
      exact hg.promisc.symm.trans (hoff hpass)
    · exact .inr (by simpa using hpass)
  · intro hcond
    have hback : Agree iffPromisc (rawSockUninit (calls cs s)).flags s.flags := by
      by_cases hpass : ∃ c ∈ cs, c.Passes
      · have hclear : Agree iffPromisc s.flags 0 := by
          rw [hflags]
          exact hcond.resolve_right (by simpa using hpass)
        exact (hoff hpass).trans hclear.symm
      · rw [(hkept cs).fresh hpass, rawSockUninit_flags hinit.fd, if_neg (not_not.mpr hpromisc)]
        exact Agree.refl _ _
    refine ⟨hback, fun xs _ => (hkept xs).others, hothers, fun xs c _ hfail => ?_⟩
    by_cases hc : c.Passes
    · rw [rawPromiscMode_passed hc (hkept xs).fd] at hfail
      cases hfail
    · rw [rawPromiscMode_failed hc]

def monitored : Flags := 0x1143

/-- The mode is turned on, and off again when the socket is closed. -/
theorem gives_back_fails : ¬ ∀ (a : InitAnswers) (flags : Flags) (cs : List Call) (s : State),
    rawSockInit a flags = some s → GivesBack s cs := by
  intro hclaim
  have hinit : rawSockInit ⟨true, 3, true, true⟩ monitored = some ⟨monitored, 0, 3⟩ := rfl
  have h := hclaim _ _ [⟨1, true, true⟩] _ hinit
  exact absurd h.promisc (by decide)

theorem gives_back_plain :
    GivesBack ⟨0x1043, 0, 3⟩ [⟨1, true, true⟩, ⟨0, true, false⟩] ↔
      Agree iffPromisc 0x1043 0 ∨
        ∀ c ∈ [(⟨1, true, true⟩ : Call), ⟨0, true, false⟩], ¬ c.Passes :=
  gives_back_iff ⟨true, 3, true, true⟩ 0x1043 _ rfl

end LibComm.PromiscMode

import Mathlib.Logic.Function.Basic
import Mathlib.Order.Nat
import Mathlib.Tactic.ByContra
import Mathlib.Tactic.SplitIfs

/-!
# A ledger of resources

A program acquires resources, uses them and gives them back. The ledger writes
down what it does to each; the resources that a program holds are those in its
slots (variables, fields of its records). `Owned` says that the ledger and the
slots agree, and each operation on a slot keeps it. A program that ends with
empty slots has released everything once and used nothing afterwards.
-/

namespace LibComm.ResourceLedger

inductive Act where
  | acquire
  | use
  | release
  deriving DecidableEq

structure Resource (κ : Type*) where
  kind : κ
  id : ℕ
  deriving DecidableEq

structure Entry (κ : Type*) where
  act : Act
  resource : Resource κ

structure Ledger (κ : Type*) where
  made : ℕ
  entries : List (Entry κ)

inductive Status where
  | unused
  | held
  | released
  | misused
  deriving DecidableEq

def Status.next : Status → Act → Status
  | .unused, .acquire => .held
  | .held, .use => .held
  | .held, .release => .released
  | _, _ => .misused

theorem Status.next_ne_unused (s : Status) (a : Act) : s.next a ≠ .unused := by
  cases s <;> cases a <;> decide

theorem foldl_ne_unused {as : List Act} (h : as ≠ []) (s : Status) :
    as.foldl Status.next s ≠ .unused := by
  obtain ⟨bs, b, rfl⟩ := List.eq_nil_or_concat as |>.resolve_left h
  rw [List.concat_eq_append, List.foldl_append]
  exact Status.next_ne_unused _ b

theorem foldl_misused (as : List Act) : as.foldl Status.next .misused = .misused := by
  induction as with
  | nil => rfl
  | cons a as ih => exact ih

theorem foldl_released {as : List Act} (h : as.foldl Status.next .released = .released) :
    as = [] := by
  cases as with
  | nil => rfl
  | cons a as => simp [Status.next, foldl_misused] at h

theorem foldl_held {as : List Act} (h : as.foldl Status.next .held = .released) :
    ∃ n, as = List.replicate n .use ++ [.release] := by
  induction as with
  | nil => simp at h
  | cons a as ih =>
    cases a with
    | acquire => simp [Status.next, foldl_misused] at h
    | use =>
      obtain ⟨n, rfl⟩ := ih h
      exact ⟨n + 1, rfl⟩
    | release =>
      obtain rfl := foldl_released h
      exact ⟨0, rfl⟩

theorem foldl_unused {as : List Act} (h : as.foldl Status.next .unused = .released) :
    ∃ n, as = .acquire :: (List.replicate n .use ++ [.release]) := by
  cases as with
  | nil => simp at h
  | cons a as =>
    cases a with
    | acquire =>
      obtain ⟨n, rfl⟩ := foldl_held h
      exact ⟨n, rfl⟩
    | use => simp [Status.next, foldl_misused] at h
    | release => simp [Status.next, foldl_misused] at h

variable {κ ι : Type*} [DecidableEq κ]

def acts (es : List (Entry κ)) (r : Resource κ) : List Act :=
  (es.filter fun e => e.resource = r).map Entry.act

/-- The resource was acquired, then used any number of times, then released. -/
def ReleasedOnce (es : List (Entry κ)) (r : Resource κ) : Prop :=
  ∃ n, acts es r = .acquire :: (List.replicate n .use ++ [.release])

@[simp] theorem acts_append (es fs : List (Entry κ)) (r : Resource κ) :
    acts (es ++ fs) r = acts es r ++ acts fs r := by
  simp [acts]

theorem acts_singleton (a : Act) (q r : Resource κ) :
    acts [⟨a, q⟩] r = if q = r then [a] else [] := by
  by_cases h : q = r <;> simp [acts, h]

theorem acts_ne_nil {es : List (Entry κ)} {e : Entry κ} (h : e ∈ es) :
    acts es e.resource ≠ [] := by
  have hmem : e ∈ es.filter fun f => f.resource = e.resource := by simp [h]
  simpa [acts] using List.ne_nil_of_mem (List.mem_map_of_mem (f := Entry.act) hmem)

namespace Ledger

def status (L : Ledger κ) (r : Resource κ) : Status := (acts L.entries r).foldl Status.next .unused

def write (L : Ledger κ) (a : Act) (r : Resource κ) : Ledger κ :=
  { L with entries := L.entries ++ [⟨a, r⟩] }

def acquire (L : Ledger κ) (k : κ) : Ledger κ :=
  { L.write .acquire ⟨k, L.made⟩ with made := L.made + 1 }

def use (L : Ledger κ) (r : Option (Resource κ)) : Ledger κ := r.elim L (L.write .use)

def release (L : Ledger κ) (r : Option (Resource κ)) : Ledger κ := r.elim L (L.write .release)

theorem status_write (L : Ledger κ) (a : Act) (q r : Resource κ) :
    (L.write a q).status r = if q = r then (L.status r).next a else L.status r := by
  simp only [status, write, acts_append, acts_singleton, List.foldl_append]
  split_ifs <;> rfl

theorem status_acquire (L : Ledger κ) (k : κ) (r : Resource κ) :
    (L.acquire k).status r =
      if (⟨k, L.made⟩ : Resource κ) = r then (L.status r).next .acquire else L.status r :=
  status_write L .acquire ⟨k, L.made⟩ r

end Ledger

/-- The slots hold, each one for itself, exactly the resources that are to be released. -/
structure Owned (L : Ledger κ) (slot : ι → Option (Resource κ)) : Prop where
  inj : ∀ a b r, slot a = some r → slot b = some r → a = b
  held : ∀ a r, slot a = some r → L.status r = .held
  rest : ∀ r, (∀ a, slot a ≠ some r) → L.status r = .unused ∨ L.status r = .released
  fresh : ∀ r, L.made ≤ r.id → L.status r = .unused

namespace Owned

variable {L : Ledger κ} {slot : ι → Option (Resource κ)}

theorem init : Owned (⟨0, []⟩ : Ledger κ) (fun _ : ι => none) where
  inj := by simp
  held := by simp
  rest := fun _ _ => .inl rfl
  fresh := fun _ _ => rfl

theorem id_lt (h : Owned L slot) {a : ι} {r : Resource κ} (ha : slot a = some r) :
    r.id < L.made := by
  by_contra hge
  have hheld := h.held a r ha
  rw [h.fresh r (Nat.le_of_not_lt hge)] at hheld
  cases hheld

theorem use (h : Owned L slot) (a : ι) : Owned (L.use (slot a)) slot := by
  cases ha : slot a with
  | none => exact h
  | some q =>
    have hq := h.held a q ha
    -- a held resource stays held, so no status changes
    have hstatus : ∀ r, (L.use (some q)).status r = L.status r := by
      intro r
      rw [Ledger.use, Option.elim_some, Ledger.status_write]
      split_ifs with hr
      · rw [← hr, hq]
        rfl
      · rfl
    exact ⟨h.inj, fun b r hb => hstatus r ▸ h.held b r hb, fun r hr => hstatus r ▸ h.rest r hr,
      fun r hr => hstatus r ▸ h.fresh r hr⟩

variable [DecidableEq ι]

theorem acquire (h : Owned L slot) {a : ι} (ha : slot a = none) (k : κ) :
    Owned (L.acquire k) (Function.update slot a (some ⟨k, L.made⟩)) := by
  have hne : ∀ b r, slot b = some r → (⟨k, L.made⟩ : Resource κ) ≠ r := by
    intro b r hb hr
    have hlt := h.id_lt hb
    rw [← hr] at hlt
    exact lt_irrefl _ hlt
  refine ⟨fun b c r hb hc => ?_, fun b r hb => ?_, fun r hr => ?_, fun r hr => ?_⟩
  · by_cases hba : b = a <;> by_cases hca : c = a
    · rw [hba, hca]
    · rw [hba, Function.update_self] at hb
      rw [Function.update_of_ne hca] at hc
      exact absurd (Option.some.inj hb) (hne c r hc)
    · rw [Function.update_of_ne hba] at hb
      rw [hca, Function.update_self] at hc
      exact absurd (Option.some.inj hc) (hne b r hb)
    · rw [Function.update_of_ne hba] at hb
      rw [Function.update_of_ne hca] at hc
      exact h.inj b c r hb hc
  · rw [Ledger.status_acquire]
    by_cases hba : b = a
    · rw [hba, Function.update_self] at hb
      rw [if_pos (Option.some.inj hb), h.fresh r (Option.some.inj hb ▸ le_rfl)]
      rfl
    · rw [Function.update_of_ne hba] at hb
      rw [if_neg (hne b r hb)]
      exact h.held b r hb
  · have hnew : (⟨k, L.made⟩ : Resource κ) ≠ r := by
      intro he
      exact hr a (by rw [Function.update_self, he])
    rw [Ledger.status_acquire, if_neg hnew]
    refine h.rest r fun b hb => ?_
    have hba : b ≠ a := by
      intro heq
      obtain rfl := heq
      simp [ha] at hb
    exact hr b (by rwa [Function.update_of_ne hba])
  · have hlt : L.made < r.id := hr
    have hnew : (⟨k, L.made⟩ : Resource κ) ≠ r := by
      intro heq
      obtain rfl := heq
      exact lt_irrefl _ hlt
    rw [Ledger.status_acquire, if_neg hnew]
    exact h.fresh r hlt.le

theorem release (h : Owned L slot) (a : ι) :
    Owned (L.release (slot a)) (Function.update slot a none) := by
  cases ha : slot a with
  | none =>
    rw [Function.update_eq_self_iff.mpr ha.symm]
    exact h
  | some q =>
    have hstatus : ∀ r, (L.release (some q)).status r =
        if q = r then .released else L.status r := by
      intro r
      rw [Ledger.release, Option.elim_some, Ledger.status_write]
      split_ifs with hr
      · rw [← hr, h.held a q ha]
        rfl
      · rfl
    have hsome : ∀ {b r}, Function.update slot a none b = some r → b ≠ a ∧ slot b = some r := by
      intro b r hb
      by_cases hba : b = a
      · simp [hba] at hb
      · exact ⟨hba, by rwa [Function.update_of_ne hba] at hb⟩
    refine ⟨fun b c r hb hc => h.inj b c r (hsome hb).2 (hsome hc).2, fun b r hb => ?_,
      fun r hr => ?_, fun r hr => ?_⟩
    · obtain ⟨hba, hb'⟩ := hsome hb
      have hqr : q ≠ r := by
        intro heq
        obtain rfl := heq
        exact hba (h.inj b a q hb' ha)
      rw [hstatus, if_neg hqr]
      exact h.held b r hb'
    · rw [hstatus]
      split_ifs with hqr
      · exact .inr rfl
      · refine h.rest r fun b hb => ?_
        have hba : b ≠ a := by
          intro heq
          obtain rfl := heq
          exact hqr (Option.some.inj (ha.symm.trans hb))
        exact hr b (by rwa [Function.update_of_ne hba])
    · have hqr : q ≠ r := by
        intro heq
        obtain rfl := heq
        exact absurd (h.id_lt ha) (not_lt.mpr hr)
      rw [hstatus, if_neg hqr]
      exact h.fresh r hr

omit [DecidableEq ι] in
theorem releasedOnce (h : Owned L slot) (hs : ∀ a, slot a = none) :
    ∀ e ∈ L.entries, ReleasedOnce L.entries e.resource := by
  intro e he
  obtain hr | hr := h.rest e.resource (by simp [hs])
  · exact absurd hr (foldl_ne_unused (acts_ne_nil he) _)
  · exact foldl_unused hr

end Owned

end LibComm.ResourceLedger

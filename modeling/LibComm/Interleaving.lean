import Mathlib.Data.Int.Basic
import Mathlib.Data.List.Basic

/-!
# Schedules of a system of threads

A system is a partial step function on labels: a label names the thread that
moves together with what its environment answers, and `none` means that this
thread cannot move that way. A schedule is a list of labels, so a statement
about every schedule is a statement about every order of the threads' steps.

`Obeys` is the form of a condition on schedules used throughout: a predicate
on the state before a step and the step itself, required of every step.
-/

namespace LibComm.Interleaving
variable {σ ι : Type*}

def exec (step : σ → ι → Option σ) : σ → List ι → Option σ
  | s, [] => some s
  | s, l :: ls => (step s l).bind fun t => exec step t ls

def Obeys (step : σ → ι → Option σ) (G : σ → ι → Prop) : σ → List ι → Prop
  | _, [] => True
  | s, l :: ls => G s l ∧ (step s l).elim True fun t => Obeys step G t ls

def violations (step : σ → ι → Option σ) (G : σ → ι → Prop) [∀ s l, Decidable (G s l)] :
    σ → List ι → ℕ
  | _, [] => 0
  | s, l :: ls => (if G s l then 0 else 1) + (step s l).elim 0 fun t => violations step G t ls

def Obeys.decide (step : σ → ι → Option σ) (G : σ → ι → Prop) [∀ s l, Decidable (G s l)] :
    ∀ s ls, Decidable (Obeys step G s ls)
  | _, [] => .isTrue trivial
  | s, l :: ls =>
    match hs : step s l with
    | none => decidable_of_iff (G s l) (by simp [Obeys, hs])
    | some t =>
      have := Obeys.decide step G t ls
      decidable_of_iff (G s l ∧ Obeys step G t ls) (by simp [Obeys, hs])

instance (step : σ → ι → Option σ) (G : σ → ι → Prop) [∀ s l, Decidable (G s l)] (s : σ)
    (ls : List ι) : Decidable (Obeys step G s ls) := Obeys.decide step G s ls

variable {step : σ → ι → Option σ} {G : σ → ι → Prop}

theorem exec_cons {s u : σ} {l : ι} {ls : List ι} :
    exec step s (l :: ls) = some u ↔ ∃ t, step s l = some t ∧ exec step t ls = some u := by
  simp [exec, Option.bind_eq_some_iff]

theorem exec_append {s u : σ} {xs ys : List ι} :
    exec step s (xs ++ ys) = some u ↔
      ∃ t, exec step s xs = some t ∧ exec step t ys = some u := by
  induction xs generalizing s with
  | nil => simp [exec]
  | cons x xs ih =>
    simp only [List.cons_append, exec_cons, ih]
    constructor
    · intro hx
      obtain ⟨t, ht, v, hv, hu⟩ := hx
      exact ⟨v, ⟨t, ht, hv⟩, hu⟩
    · intro hx
      obtain ⟨v, ⟨t, ht, hv⟩, hu⟩ := hx
      exact ⟨t, ht, v, hv, hu⟩

theorem obeys_cons {s t : σ} {l : ι} {ls : List ι} (ht : step s l = some t) :
    Obeys step G s (l :: ls) ↔ G s l ∧ Obeys step G t ls := by
  simp [Obeys, ht]

theorem obeys_of_forall {P : ι → Prop} {ls : List ι} (h : ∀ l ∈ ls, P l) (s : σ) :
    Obeys step (fun _ l => P l) s ls := by
  induction ls generalizing s with
  | nil => trivial
  | cons l ls ih =>
    refine ⟨h l List.mem_cons_self, ?_⟩
    cases step s l with
    | none => trivial
    | some t => exact ih (fun x hx => h x (List.mem_cons_of_mem _ hx)) t

theorem Obeys.mono {G' : σ → ι → Prop} (h : ∀ s l, G s l → G' s l) {s : σ} {ls : List ι}
    (ho : Obeys step G s ls) : Obeys step G' s ls := by
  induction ls generalizing s with
  | nil => trivial
  | cons l ls ih =>
    refine ⟨h s l ho.1, ?_⟩
    cases ht : step s l with
    | none => trivial
    | some t => exact ih (by simpa [Obeys, ht] using ho.2)

theorem Obeys.and {G' : σ → ι → Prop} {s : σ} {ls : List ι} (h : Obeys step G s ls)
    (h' : Obeys step G' s ls) : Obeys step (fun s l => G s l ∧ G' s l) s ls := by
  induction ls generalizing s with
  | nil => trivial
  | cons l ls ih =>
    refine ⟨⟨h.1, h'.1⟩, ?_⟩
    cases ht : step s l with
    | none => trivial
    | some t => exact ih (by simpa [Obeys, ht] using h.2) (by simpa [Obeys, ht] using h'.2)

theorem Obeys.of_append {s : σ} {xs ys : List ι} (h : Obeys step G s (xs ++ ys)) :
    Obeys step G s xs := by
  induction xs generalizing s with
  | nil => trivial
  | cons x xs ih =>
    refine ⟨h.1, ?_⟩
    cases ht : step s x with
    | none => trivial
    | some t => exact ih (by simpa [Obeys, ht] using h.2)

theorem Obeys.of_exec {s t : σ} {xs ys : List ι} (h : Obeys step G s (xs ++ ys))
    (ht : exec step s xs = some t) : Obeys step G t ys := by
  induction xs generalizing s with
  | nil =>
    obtain rfl := Option.some.inj ht
    exact h
  | cons x xs ih =>
    obtain ⟨u, hu, hr⟩ := exec_cons.mp ht
    exact ih ((obeys_cons hu).mp h).2 hr

/-- What a step that meets `G` preserves, a schedule whose steps all meet `G` preserves. -/
theorem invariant {I : σ → Prop} (hI : ∀ s l t, I s → G s l → step s l = some t → I t)
    {s u : σ} {ls : List ι} (hs : I s) (ho : Obeys step G s ls)
    (hu : exec step s ls = some u) : I u := by
  induction ls generalizing s with
  | nil => simpa [exec] using Option.some.inj hu ▸ hs
  | cons l ls ih =>
    obtain ⟨t, ht, hr⟩ := exec_cons.mp hu
    obtain ⟨hg, hg'⟩ := (obeys_cons ht).mp ho
    exact ih (hI s l t hs hg ht) hg' hr

theorem exec_invariant {I : σ → Prop} (hI : ∀ s l t, I s → step s l = some t → I t) {s u : σ}
    {ls : List ι} (hs : I s) (hu : exec step s ls = some u) : I u :=
  invariant (fun s l t h _ ht => hI s l t h ht) hs (obeys_of_forall (fun _ _ => trivial) s) hu

theorem first_violation {s u : σ} {ls : List ι} (hu : exec step s ls = some u)
    (h : ¬ Obeys step G s ls) :
    ∃ xs l ys t v, ls = xs ++ l :: ys ∧ Obeys step G s xs ∧ exec step s xs = some t ∧
      ¬ G t l ∧ step t l = some v ∧ exec step v ys = some u := by
  induction ls generalizing s with
  | nil => exact absurd trivial h
  | cons l ls ih =>
    obtain ⟨t, ht, hr⟩ := exec_cons.mp hu
    rw [obeys_cons ht, Classical.not_and_iff_not_or_not] at h
    by_cases hg : G s l
    · obtain ⟨xs, l', ys, t', v, rfl, hx, he, hn, hv, hy⟩ :=
        ih hr (h.resolve_left (not_not_intro hg))
      exact ⟨l :: xs, l', ys, t', v, rfl, (obeys_cons ht).mpr ⟨hg, hx⟩,
        exec_cons.mpr ⟨t, ht, he⟩, hn, hv, hy⟩
    · exact ⟨[], l, ls, s, t, rfl, trivial, rfl, hg, ht, hr⟩

section Violations
variable [∀ s l, Decidable (G s l)]

theorem violations_cons {s t : σ} {l : ι} {ls : List ι} (ht : step s l = some t) :
    violations step G s (l :: ls) = (if G s l then 0 else 1) + violations step G t ls := by
  simp [violations, ht]

theorem violations_eq_zero_iff {s u : σ} {ls : List ι} (hu : exec step s ls = some u) :
    violations step G s ls = 0 ↔ Obeys step G s ls := by
  induction ls generalizing s with
  | nil => simp [violations, Obeys]
  | cons l ls ih =>
    obtain ⟨t, ht, hr⟩ := exec_cons.mp hu
    rw [violations_cons ht, obeys_cons ht, ← ih hr]
    by_cases hg : G s l <;> simp [hg]

/-- A quantity that grows by one exactly at the steps that break `G` counts them. -/
theorem exec_violations {H : σ → ι → Prop} {I : σ → Prop} {f : σ → ℤ}
    (hI : ∀ s l t, I s → H s l → step s l = some t → I t)
    (hf : ∀ s l t, I s → H s l → step s l = some t → f t = f s + if G s l then 0 else 1)
    {s u : σ} {ls : List ι} (hs : I s) (ho : Obeys step H s ls) (hu : exec step s ls = some u) :
    f u = f s + violations step G s ls := by
  induction ls generalizing s with
  | nil =>
    obtain rfl := Option.some.inj hu
    simp [violations]
  | cons l ls ih =>
    obtain ⟨t, ht, hr⟩ := exec_cons.mp hu
    obtain ⟨hg, hg'⟩ := (obeys_cons ht).mp ho
    rw [violations_cons ht, ih (hI s l t hs hg ht) hg' hr, hf s l t hs hg ht]
    split_ifs <;> push_cast <;> omega

end Violations
section Simulation
variable {α ε : Type*} {astep : α → ε → Option α} {view : σ → α} {events : σ → ι → List ε}

/-- What a schedule does at a second level, where each step has its own events. -/
def trace (step : σ → ι → Option σ) (events : σ → ι → List ε) : σ → List ι → List ε
  | _, [] => []
  | s, l :: ls => events s l ++ (step s l).elim [] fun t => trace step events t ls

theorem simulates {I : σ → Prop} (hI : ∀ s l t, I s → G s l → step s l = some t → I t)
    (hsim : ∀ s l t, I s → G s l → step s l = some t →
      exec astep (view s) (events s l) = some (view t))
    {s u : σ} {ls : List ι} (hs : I s) (ho : Obeys step G s ls) (hu : exec step s ls = some u) :
    exec astep (view s) (trace step events s ls) = some (view u) := by
  induction ls generalizing s with
  | nil =>
    obtain rfl := Option.some.inj hu
    rfl
  | cons l ls ih =>
    obtain ⟨t, ht, hr⟩ := exec_cons.mp hu
    obtain ⟨hg, hg'⟩ := (obeys_cons ht).mp ho
    rw [trace, ht]
    exact exec_append.mpr ⟨view t, hsim s l t hs hg ht, ih (hI s l t hs hg ht) hg' hr⟩

end Simulation
end LibComm.Interleaving

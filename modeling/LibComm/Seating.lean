import LibComm.Interleaving
import LibComm.Tally

/-!
# A house with seats

Guests come to the door one at a time and are numbered in that order. A guest
who is let in may still turn round before taking a seat; one who gets up first
leaves the seat and later signs out. The porter counts the guests who have a
seat or have not signed out, and lets nobody in when there are as many as seats.
-/

namespace LibComm.Seating
open Interleaving Tally

variable {ι : Type*}

@[ext] structure House (ι : Type*) where
  arrived : ℕ
  door : Option ℕ
  seat : ι → Option ℕ
  leaving : Finset ℕ

inductive Event (ι : Type*) where
  | knock (welcome : Bool)
  | withdraw
  | noSeat
  | sit (i : ι)
  | leave (g : ℕ) (i : ι)
  | signOut (g : ℕ)

def House.empty : House ι := ⟨0, none, fun _ => none, ∅⟩

def House.taken (seats : Finset ι) (h : House ι) : ℕ :=
  tally seats Option.isSome h.seat

def House.full (seats : Finset ι) (h : House ι) : Prop :=
  seats.card ≤ h.taken seats + h.leaving.card

instance (seats : Finset ι) (h : House ι) : Decidable (h.full seats) :=
  inferInstanceAs (Decidable (_ ≤ _))

def step [DecidableEq ι] (seats : Finset ι) (h : House ι) : Event ι → Option (House ι)
  | .knock welcome =>
    if h.door = none ∧ (welcome = true ↔ ¬ h.full seats) then
      some { h with
        arrived := h.arrived + 1, door := if welcome = true then some h.arrived else none }
    else none
  | .withdraw => if h.door = none then none else some { h with door := none }
  | .noSeat =>
    if h.door ≠ none ∧ ∀ i ∈ seats, h.seat i ≠ none then some { h with door := none } else none
  | .sit i =>
    h.door.bind fun g =>
      if i ∈ seats ∧ h.seat i = none then
        some { h with door := none, seat := Function.update h.seat i (some g) }
      else none
  | .leave g i =>
    if h.seat i = some g then
      some { h with seat := Function.update h.seat i none, leaving := insert g h.leaving }
    else none
  | .signOut g =>
    if g ∈ h.leaving then some { h with leaving := h.leaving.erase g } else none

/-- The guest has been here and has no seat, nor a way to one. -/
def House.gone (h : House ι) (g : ℕ) : Prop :=
  g < h.arrived ∧ h.door ≠ some g ∧ ∀ i, h.seat i ≠ some g

/-- Each guest has one place, and the one at the door finds a seat. -/
structure Inv (seats : Finset ι) (h : House ι) : Prop where
  door : ∀ g, h.door = some g → g < h.arrived ∧ g ∉ h.leaving ∧ ∀ i, h.seat i ≠ some g
  seat : ∀ i g, h.seat i = some g → i ∈ seats ∧ g < h.arrived ∧ g ∉ h.leaving
  single : ∀ i j g, h.seat i = some g → h.seat j = some g → i = j
  leaving : ∀ g ∈ h.leaving, g < h.arrived
  room : h.taken seats + h.leaving.card + (if h.door = none then 0 else 1) ≤ seats.card

section Steps
variable {seats : Finset ι} {h t : House ι} {e : Event ι} {g : ℕ} {i : ι}

theorem inv_empty (seats : Finset ι) : Inv seats (House.empty : House ι) where
  door := by simp [House.empty]
  seat := by simp [House.empty]
  single := by simp [House.empty]
  leaving := by simp [House.empty]
  room := by simp [House.empty, House.taken, tally]

theorem Inv.free (hv : Inv seats h) (hd : h.door ≠ none) : ∃ i ∈ seats, h.seat i = none := by
  by_contra hx
  push Not at hx
  have hall : h.taken seats = seats.card :=
    (tally_eq_card_iff subset_rfl fun i hi _ => hi).mpr fun i hi =>
      Option.isSome_iff_ne_none.mpr (hx i hi)
  have hroom := hv.room
  rw [if_neg hd] at hroom
  omega

theorem Inv.knock (hv : Inv seats h) (hd : h.door = none) {welcome : Bool}
    (hw : welcome = true ↔ ¬ h.full seats) :
    Inv seats { h with
      arrived := h.arrived + 1, door := if welcome = true then some h.arrived else none } := by
  refine ⟨fun g hg => ?_, fun i g hg => ?_, hv.single, fun g hg => ?_, ?_⟩
  · obtain rfl := Option.some.inj (Option.ite_none_right_eq_some.mp hg).2
    refine ⟨by simp, fun hl => absurd (hv.leaving _ hl) (lt_irrefl _), fun i hi => ?_⟩
    exact absurd (hv.seat i _ hi).2.1 (lt_irrefl _)
  · obtain ⟨hi, hlt, hl⟩ := hv.seat i g hg
    exact ⟨hi, hlt.trans (Nat.lt_succ_self _), hl⟩
  · exact (hv.leaving g hg).trans (Nat.lt_succ_self _)
  · have hroom := hv.room
    cases welcome with
    | true =>
      have hfull := hw.mp rfl
      simp only [House.full, House.taken] at hfull ⊢
      simp only [if_true, reduceCtorEq, if_false]
      omega
    | false => simpa [House.taken, hd] using hroom

theorem Inv.turnRound (hv : Inv seats h) (hd : h.door ≠ none) :
    Inv seats { h with door := none } := by
  refine ⟨by simp, hv.seat, hv.single, hv.leaving, ?_⟩
  have hroom := hv.room
  rw [if_neg hd] at hroom
  simp only [House.taken, if_true] at hroom ⊢
  omega

theorem Inv.signOut (hv : Inv seats h) (g : ℕ) :
    Inv seats { h with leaving := h.leaving.erase g } := by
  refine ⟨fun x hx => ?_, fun i x hx => ?_, hv.single,
    fun x hx => hv.leaving x (Finset.mem_of_mem_erase hx), ?_⟩
  · obtain ⟨hlt, hl, hno⟩ := hv.door x hx
    exact ⟨hlt, fun hm => hl (Finset.mem_of_mem_erase hm), hno⟩
  · obtain ⟨hi, hlt, hl⟩ := hv.seat i x hx
    exact ⟨hi, hlt, fun hm => hl (Finset.mem_of_mem_erase hm)⟩
  · have hcard := Finset.card_erase_le (s := h.leaving) (a := g)
    have hroom := hv.room
    simp only [House.taken] at hroom ⊢
    omega

variable [DecidableEq ι]

theorem taken_sit (hi : i ∈ seats) (hn : h.seat i = none) (g : ℕ) :
    tally seats Option.isSome (Function.update h.seat i (some g)) = h.taken seats + 1 := by
  simpa [House.taken, hn] using tally_update hi Option.isSome h.seat (some g)

theorem taken_leave (hi : i ∈ seats) (hg : h.seat i = some g) :
    tally seats Option.isSome (Function.update h.seat i none) + 1 = h.taken seats := by
  simpa [House.taken, hg] using tally_update hi Option.isSome h.seat none

theorem update_none {f : ι → Option ℕ} {j : ι} {x : ℕ} :
    Function.update f i none j = some x ↔ j ≠ i ∧ f j = some x := by
  by_cases hji : j = i <;> simp [hji]

inductive Change (seats : Finset ι) (h : House ι) : Event ι → House ι → Prop
  | knock {welcome : Bool} (hd : h.door = none) (hw : welcome = true ↔ ¬ h.full seats) :
    Change seats h (.knock welcome) { h with
      arrived := h.arrived + 1, door := if welcome = true then some h.arrived else none }
  | turnRound {e : Event ι} (hd : h.door ≠ none) : Change seats h e { h with door := none }
  | sit {i : ι} {g : ℕ} (hd : h.door = some g) (hi : i ∈ seats) (hn : h.seat i = none) :
    Change seats h (.sit i) { h with door := none, seat := Function.update h.seat i (some g) }
  | leave {g : ℕ} {i : ι} (hg : h.seat i = some g) :
    Change seats h (.leave g i)
      { h with seat := Function.update h.seat i none, leaving := insert g h.leaving }
  | signOut {g : ℕ} (hg : g ∈ h.leaving) :
    Change seats h (.signOut g) { h with leaving := h.leaving.erase g }

theorem step_change (ht : step seats h e = some t) : Change seats h e t := by
  cases e with
  | knock welcome =>
    simp only [step, Option.ite_none_right_eq_some, Option.some.injEq] at ht
    obtain ⟨⟨hd, hw⟩, rfl⟩ := ht
    exact .knock hd hw
  | withdraw =>
    simp only [step, Option.ite_none_left_eq_some, Option.some.injEq] at ht
    obtain ⟨hd, rfl⟩ := ht
    exact .turnRound hd
  | noSeat =>
    simp only [step, Option.ite_none_right_eq_some, Option.some.injEq] at ht
    obtain ⟨⟨hd, -⟩, rfl⟩ := ht
    exact .turnRound hd
  | sit i =>
    simp only [step, Option.bind_eq_some_iff, Option.ite_none_right_eq_some,
      Option.some.injEq] at ht
    obtain ⟨g, hd, ⟨hi, hn⟩, rfl⟩ := ht
    exact .sit hd hi hn
  | leave g i =>
    simp only [step, Option.ite_none_right_eq_some, Option.some.injEq] at ht
    obtain ⟨hg, rfl⟩ := ht
    exact .leave hg
  | signOut g =>
    simp only [step, Option.ite_none_right_eq_some, Option.some.injEq] at ht
    obtain ⟨hg, rfl⟩ := ht
    exact .signOut hg

theorem Inv.sit (hv : Inv seats h) (hd : h.door = some g) (hi : i ∈ seats)
    (hn : h.seat i = none) :
    Inv seats { h with door := none, seat := Function.update h.seat i (some g) } := by
  obtain ⟨hlt, hl, hno⟩ := hv.door g hd
  refine ⟨by simp, fun j x hx => ?_, fun j k x hj hk => ?_, hv.leaving, ?_⟩
  · by_cases hji : j = i
    · obtain rfl : g = x := by simpa [hji] using hx
      exact ⟨hji ▸ hi, hlt, hl⟩
    · exact hv.seat j x (by simpa [hji] using hx)
  · by_cases hji : j = i <;> by_cases hki : k = i
    · rw [hji, hki]
    · obtain rfl : g = x := by simpa [hji] using hj
      exact absurd (by simpa [hki] using hk) (hno k)
    · obtain rfl : g = x := by simpa [hki] using hk
      exact absurd (by simpa [hji] using hj) (hno j)
    · exact hv.single j k x (by simpa [hji] using hj) (by simpa [hki] using hk)
  · have ht := taken_sit hi hn g
    have hroom := hv.room
    rw [hd] at hroom
    simp only [House.taken, if_true, reduceCtorEq, if_false] at ht hroom ⊢
    omega

theorem Inv.leave (hv : Inv seats h) (hg : h.seat i = some g) :
    Inv seats { h with
      seat := Function.update h.seat i none, leaving := insert g h.leaving } := by
  obtain ⟨hi, hlt, hl⟩ := hv.seat i g hg
  refine ⟨fun x hx => ?_, fun j x hx => ?_, fun j k x hj hk => ?_, fun x hx => ?_, ?_⟩
  · obtain ⟨hx', hxl, hno⟩ := hv.door x hx
    refine ⟨hx', ?_, fun j hj => hno j (update_none.mp hj).2⟩
    simp only [Finset.mem_insert, not_or]
    refine ⟨fun heq => ?_, hxl⟩
    obtain rfl := heq
    exact hno i hg
  · obtain ⟨hji, hjx⟩ := update_none.mp hx
    obtain ⟨hj, hxlt, hxl⟩ := hv.seat j x hjx
    refine ⟨hj, hxlt, ?_⟩
    simp only [Finset.mem_insert, not_or]
    refine ⟨fun heq => ?_, hxl⟩
    obtain rfl := heq
    exact hji (hv.single j i x hjx hg)
  · exact hv.single j k x (update_none.mp hj).2 (update_none.mp hk).2
  · obtain rfl | hx' := Finset.mem_insert.mp hx
    · exact hlt
    · exact hv.leaving x hx'
  · have ht := taken_leave hi hg
    have hroom := hv.room
    simp only [House.taken, Finset.card_insert_of_notMem hl] at ht hroom ⊢
    omega

theorem Inv.step (hv : Inv seats h) (ht : step seats h e = some t) : Inv seats t := by
  cases step_change ht with
  | knock hd hw => exact hv.knock hd hw
  | turnRound hd => exact hv.turnRound hd
  | sit hd hi hn => exact hv.sit hd hi hn
  | leave hg => exact hv.leave hg
  | signOut hg => exact hv.signOut _

theorem Inv.run {es : List (Event ι)} (hv : Inv seats h)
    (ht : exec (Seating.step seats) h es = some t) : Inv seats t :=
  exec_invariant (fun _ _ _ hs hu => hs.step hu) hv ht

theorem gone_step (hg : h.gone g) (ht : step seats h e = some t) : t.gone g := by
  obtain ⟨hlt, hdoor, hno⟩ := hg
  cases step_change ht with
  | knock hd hw =>
    refine ⟨hlt.trans (Nat.lt_succ_self _), fun hd => ?_, hno⟩
    obtain rfl := Option.some.inj (Option.ite_none_right_eq_some.mp hd).2
    exact lt_irrefl _ hlt
  | turnRound hd => exact ⟨hlt, by simp, hno⟩
  | @sit i x hd hi hn =>
    refine ⟨hlt, by simp, fun j hj => ?_⟩
    by_cases hji : j = i
    · obtain rfl : x = g := by simpa [hji] using hj
      exact hdoor hd
    · exact hno j (by simpa [hji] using hj)
  | leave hx => exact ⟨hlt, hdoor, fun j hj => hno j (update_none.mp hj).2⟩
  | signOut hx => exact ⟨hlt, hdoor, hno⟩

theorem seat_step (hv : Inv seats h) (hi : h.seat i = some g) (ht : step seats h e = some t) :
    t.seat i = some g ∨ e = .leave g i ∧ t.gone g := by
  cases step_change ht with
  | knock hd hw => exact .inl hi
  | turnRound hd => exact .inl hi
  | @sit j x hd hj hn =>
    have hij : i ≠ j := by
      intro heq
      rw [heq, hn] at hi
      contradiction
    exact .inl (by simpa [hij] using hi)
  | @leave x j hx =>
    by_cases hij : i = j
    · subst hij
      obtain rfl : x = g := by simpa [hx] using hi
      refine .inr ⟨rfl, (hv.seat i x hi).2.1, fun hd => (hv.door x hd).2.2 i hi, fun k hk => ?_⟩
      obtain ⟨hki, hkx⟩ := update_none.mp hk
      exact hki (hv.single k i x hkx hi)
    · exact .inl (by simpa [hij] using hi)
  | signOut hx => exact .inl hi

/-- A guest keeps the seat until the guest gets up, and does not come back afterwards. -/
theorem Inv.keeps (hv : Inv seats h) (hi : h.seat i = some g) {es : List (Event ι)}
    (ht : exec (Seating.step seats) h es = some t) :
    t.seat i = some g ∧ Event.leave g i ∉ es ∨ t.gone g ∧ Event.leave g i ∈ es := by
  induction es generalizing h with
  | nil =>
    obtain rfl := Option.some.inj ht
    exact .inl ⟨hi, by simp⟩
  | cons e es ih =>
    obtain ⟨u, hu, hr⟩ := exec_cons.mp ht
    obtain hk | ⟨rfl, hgone⟩ := seat_step hv hi hu
    · obtain ⟨ht, hes⟩ | ⟨ht, hes⟩ := ih (hv.step hu) hk hr
      · refine .inl ⟨ht, ?_⟩
        simp only [List.mem_cons, not_or]
        refine ⟨fun he => ?_, hes⟩
        subst he
        simp only [Seating.step, Option.ite_none_right_eq_some, Option.some.injEq] at hu
        obtain ⟨-, rfl⟩ := hu
        simp at hk
      · exact .inr ⟨ht, List.mem_cons_of_mem _ hes⟩
    · exact .inr ⟨exec_invariant (fun _ _ _ hs hu => gone_step hs hu) hgone hr,
        List.mem_cons_self⟩

end Steps
end LibComm.Seating

import Mathlib.Order.Nat

/-!
# Fields of a word of flags

A field is the mask of its bits. Two words agree on a field when they have the
same bits there; setting and clearing flags is followed field by field, and a
field that the flags do not touch keeps its bits.
-/

namespace LibComm.BitField
variable {w : ℕ} {m x y z b : BitVec w}

def Agree (m x y : BitVec w) : Prop := x &&& m = y &&& m

/-- The flags `b` are flags of `y`, as far as the field goes. -/
def Within (m b y : BitVec w) : Prop := b &&& m &&& ~~~y = 0

instance (m x y : BitVec w) : Decidable (Agree m x y) := inferInstanceAs (Decidable (_ = _))

instance (m b y : BitVec w) : Decidable (Within m b y) := inferInstanceAs (Decidable (_ = _))

theorem agree_iff : Agree m x y ↔ ∀ i < w, m.getLsbD i = true → x.getLsbD i = y.getLsbD i := by
  unfold Agree
  constructor
  · intro h i hi hm
    have hbit := congrArg (fun v => v.getLsbD i) h
    simpa [hm] using hbit
  · intro h
    apply BitVec.eq_of_getLsbD_eq
    intro i hi
    cases hm : m.getLsbD i with
    | false => simp [hm]
    | true => simp [hm, h i hi hm]

theorem within_iff :
    Within m b y ↔ ∀ i < w, m.getLsbD i = true → b.getLsbD i = true → y.getLsbD i = true := by
  unfold Within
  constructor
  · intro h i hi hm hb
    have hbit := congrArg (fun v => v.getLsbD i) h
    simpa [hm, hb, hi] using hbit
  · intro h
    apply BitVec.eq_of_getLsbD_eq
    intro i hi
    cases hm : m.getLsbD i with
    | false => simp [hm]
    | true =>
      cases hb : b.getLsbD i with
      | false => simp [hb]
      | true => simp [h i hi hm hb]

theorem Agree.refl (m x : BitVec w) : Agree m x x := rfl

theorem Agree.symm (h : Agree m x y) : Agree m y x := Eq.symm h

theorem Agree.trans (h : Agree m x y) (h' : Agree m y z) : Agree m x z := Eq.trans h h'

theorem within_of_disjoint (h : b &&& m = 0) : Within m b y := by
  simp [Within, h]

theorem within_of_full (h : m &&& ~~~y = 0) : Within m b y := by
  simp [Within, BitVec.and_assoc, h]

/-- Setting flags keeps a field exactly if those in the field are set already. -/
theorem agree_set_iff (h : Agree m x y) : Agree m (x ||| b) y ↔ Within m b y := by
  rw [agree_iff] at h
  rw [agree_iff, within_iff]
  refine forall_congr' fun i => forall_congr' fun hi => forall_congr' fun hm => ?_
  rw [BitVec.getLsbD_or, h i hi hm]
  cases y.getLsbD i <;> simp

theorem Agree.set (h : Agree m x y) (hd : b &&& m = 0) : Agree m (x ||| b) y :=
  (agree_set_iff h).mpr (within_of_disjoint hd)

theorem Agree.clear (h : Agree m x y) (hd : b &&& m = 0) : Agree m (x &&& ~~~b) y := by
  rw [agree_iff] at h ⊢
  intro i hi hm
  have hb := congrArg (fun v => v.getLsbD i) hd
  simp only [BitVec.getLsbD_and, hm, Bool.and_true, BitVec.ofNat_eq_ofNat, BitVec.getLsbD_zero]
    at hb
  simp only [BitVec.getLsbD_and, BitVec.getLsbD_not, hb, hi, h i hi hm, decide_true,
    Bool.not_false, Bool.and_true]

theorem agree_clear_iff (hd : b &&& m = 0) : Agree m (x &&& ~~~b) y ↔ Agree m x y := by
  have hx : Agree m (x &&& ~~~b) x := (Agree.refl m x).clear hd
  constructor
  · intro h
    exact hx.symm.trans h
  · intro h
    exact h.clear hd

theorem getLsbD_of_subset (h : m &&& ~~~b = 0) {i : ℕ} (hi : i < w) (hm : m.getLsbD i = true) :
    b.getLsbD i = true := by
  have hbit := congrArg (fun v => v.getLsbD i) h
  simpa [hm, hi] using hbit

theorem agree_cleared (x : BitVec w) (h : m &&& ~~~b = 0) : Agree m (x &&& ~~~b) 0 := by
  rw [agree_iff]
  intro i hi hm
  simp only [BitVec.getLsbD_and, BitVec.getLsbD_not, getLsbD_of_subset h hi hm, Bool.not_true,
    Bool.and_false, BitVec.ofNat_eq_ofNat, BitVec.getLsbD_zero]

theorem agree_all_set (x : BitVec w) (h : m &&& ~~~b = 0) : Agree m (x ||| b) b := by
  rw [agree_iff]
  intro i hi hm
  simp only [BitVec.getLsbD_or, getLsbD_of_subset h hi hm, Bool.or_true]

theorem agree_put (h : Agree m x 0) : Agree m (x ||| b) b := by
  rw [agree_iff] at h ⊢
  intro i hi hm
  simp [h i hi hm]

end LibComm.BitField

import Mathlib.Data.List.Basic

/-!
# Bytes in memory

A memory is a function from offsets to bytes. `Holds m j bs` says that the
bytes `bs` stand at offset `j`; it splits along the list, so that a record is
read field by field. `load` reads a range and `store` writes one. Words are
little endian, and a C string is a list without zero bytes that stands in
memory with one zero byte after it.
-/

namespace LibComm.ByteMemory

def Holds (m : ℕ → UInt8) : ℕ → List UInt8 → Prop
  | _, [] => True
  | j, b :: bs => m j = b ∧ Holds m (j + 1) bs

variable {m : ℕ → UInt8} {j : ℕ}

theorem holds_append {xs ys : List UInt8} :
    Holds m j (xs ++ ys) ↔ Holds m j xs ∧ Holds m (j + xs.length) ys := by
  induction xs generalizing j with
  | nil => simp [Holds]
  | cons x xs ih =>
    have hlen : j + 1 + xs.length = j + (xs.length + 1) := by omega
    simp only [List.cons_append, Holds, ih, List.length_cons, hlen, and_assoc]

theorem holds_getElem {bs : List UInt8} (h : ∀ i, (hi : i < bs.length) → m (j + i) = bs[i]) :
    Holds m j bs := by
  induction bs generalizing j with
  | nil => trivial
  | cons b bs ih =>
    refine ⟨h 0 (by simp), ih fun i hi => ?_⟩
    have hs := h (i + 1) (by simpa using hi)
    have hlen : j + 1 + i = j + (i + 1) := by omega
    rw [hlen, hs, List.getElem_cons_succ]

theorem Holds.getElem {bs : List UInt8} (h : Holds m j bs) {i : ℕ} (hi : i < bs.length) :
    m (j + i) = bs[i] := by
  induction bs generalizing j i with
  | nil => exact absurd hi (by simp)
  | cons b bs ih =>
    cases i with
    | zero => exact h.1
    | succ i =>
      have hlen : j + (i + 1) = j + 1 + i := by omega
      rw [hlen, ih h.2 (by simpa using hi), List.getElem_cons_succ]

def Holds.decide (m : ℕ → UInt8) : ∀ j bs, Decidable (Holds m j bs)
  | _, [] => .isTrue trivial
  | j, b :: bs =>
    have := Holds.decide m (j + 1) bs
    inferInstanceAs (Decidable (m j = b ∧ Holds m (j + 1) bs))

instance (m : ℕ → UInt8) (j : ℕ) (bs : List UInt8) : Decidable (Holds m j bs) :=
  Holds.decide m j bs

theorem holds_congr {m' : ℕ → UInt8} {bs : List UInt8}
    (h : ∀ i, j ≤ i → i < j + bs.length → m i = m' i) : Holds m j bs ↔ Holds m' j bs := by
  induction bs generalizing j with
  | nil => rfl
  | cons b bs ih =>
    have hrest : Holds m (j + 1) bs ↔ Holds m' (j + 1) bs :=
      ih fun i hj hi => h i (by omega) (by simp only [List.length_cons]; omega)
    simp only [Holds, h j (Nat.le_refl j) (by simp), hrest]

def load (m : ℕ → UInt8) (j n : ℕ) : List UInt8 := (List.range n).map fun i => m (j + i)

def store (m : ℕ → UInt8) (j : ℕ) (bs : List UInt8) (i : ℕ) : UInt8 :=
  if j ≤ i then bs[i - j]?.getD (m i) else m i

@[simp] theorem load_length (m : ℕ → UInt8) (j n : ℕ) : (load m j n).length = n := by
  simp [load]

theorem load_take (m : ℕ → UInt8) (j : ℕ) {k n : ℕ} (h : k ≤ n) :
    (load m j n).take k = load m j k :=
  List.ext_getElem (by simp [h]) fun i _ _ => by simp [load]

theorem load_drop (m : ℕ → UInt8) (j k n : ℕ) : (load m j n).drop k = load m (j + k) (n - k) :=
  List.ext_getElem (by simp) fun i _ _ => by simp [load, Nat.add_assoc]

theorem load_eq_load_iff {m' : ℕ → UInt8} {n : ℕ} :
    load m 0 n = load m' 0 n ↔ ∀ i < n, m i = m' i := by
  simp [load]

theorem load_eq_iff {bs : List UInt8} : load m j bs.length = bs ↔ Holds m j bs := by
  induction bs generalizing j with
  | nil => simp [load, Holds]
  | cons b bs ih =>
    have hs : load m j (bs.length + 1) = m j :: load m (j + 1) bs.length := by
      simp only [load, List.range_succ_eq_map, List.map_cons, List.map_map, Nat.add_zero]
      refine congrArg _ (List.map_congr_left fun i _ => ?_)
      simp only [Function.comp, Nat.succ_eq_add_one]
      rw [Nat.add_right_comm, Nat.add_assoc]
    simp only [List.length_cons, hs, List.cons.injEq, ih, Holds]

theorem store_of_lt {bs : List UInt8} {i : ℕ} (h : i < j) : store m j bs i = m i := by
  simp [store, Nat.not_le.mpr h]

theorem store_of_ge {bs : List UInt8} {i : ℕ} (h : j + bs.length ≤ i) : store m j bs i = m i := by
  have hlen : bs[i - j]? = none := List.getElem?_eq_none (by omega)
  simp [store, hlen]

theorem store_add (m : ℕ → UInt8) (j i : ℕ) (bs : List UInt8) :
    store m j bs (j + i) = bs[i]?.getD (m (j + i)) := by
  simp [store]

theorem store_cons (m : ℕ → UInt8) (j : ℕ) (b : UInt8) (bs : List UInt8) :
    store (store m j [b]) (j + 1) bs = store m j (b :: bs) := by
  funext k
  by_cases hk : j + 1 ≤ k
  · obtain ⟨i, rfl⟩ := Nat.exists_eq_add_of_le hk
    have hlen : j + 1 + i = j + (i + 1) := by omega
    rw [store_add, hlen, store_add, store_add]
    simp
  · rw [store_of_lt (by omega)]
    by_cases hj : j = k
    · simp [store, hj]
    · by_cases hlt : k < j
      · rw [store_of_lt hlt, store_of_lt hlt]
      · omega

theorem holds_store (m : ℕ → UInt8) (j : ℕ) (bs : List UInt8) : Holds (store m j bs) j bs := by
  apply holds_getElem
  intro i hi
  simp [store, hi]

theorem load_store (m : ℕ → UInt8) (j : ℕ) (bs : List UInt8) :
    load (store m j bs) j bs.length = bs :=
  load_eq_iff.mpr (holds_store m j bs)

theorem holds_store_of_disjoint {bs bs' : List UInt8} {j' : ℕ}
    (h : j' + bs'.length ≤ j ∨ j + bs.length ≤ j') :
    Holds (store m j bs) j' bs' ↔ Holds m j' bs' := by
  apply holds_congr
  intro i hj hi
  rcases h with h | h
  · exact store_of_lt (by omega)
  · exact store_of_ge (by omega)

theorem Holds.store_append {bs : List UInt8} (h : Holds m 0 bs) (bs' : List UInt8) :
    Holds (store m bs.length bs') 0 (bs ++ bs') := by
  rw [holds_append, Nat.zero_add]
  constructor
  · rw [holds_store_of_disjoint (.inl (Nat.le_of_eq (Nat.zero_add _)))]
    exact h
  · exact holds_store _ _ _

def le32 (n : ℕ) : List UInt8 :=
  [.ofNat n, .ofNat (n / 256), .ofNat (n / 65536), .ofNat (n / 16777216)]

def load32 (m : ℕ → UInt8) (j : ℕ) : ℕ :=
  (m j).toNat + 256 * (m (j + 1)).toNat + 65536 * (m (j + 2)).toNat +
    16777216 * (m (j + 3)).toNat

@[simp] theorem le32_length (n : ℕ) : (le32 n).length = 4 := rfl

theorem load32_le32 {n : ℕ} (hn : n < 4294967296) (h : Holds m j (le32 n)) : load32 m j = n := by
  obtain ⟨h0, h1, h2, h3, -⟩ := h
  simp only [load32, h0, h1, h2, h3, UInt8.toNat_ofNat']
  omega

def le16 (n : ℕ) : List UInt8 := [.ofNat n, .ofNat (n / 256)]

def load16 (m : ℕ → UInt8) (j : ℕ) : ℕ := (m j).toNat + 256 * (m (j + 1)).toNat

@[simp] theorem le16_length (n : ℕ) : (le16 n).length = 2 := rfl

theorem load16_le16 {n : ℕ} (hn : n < 65536) (h : Holds m j (le16 n)) : load16 m j = n := by
  obtain ⟨h0, h1, -⟩ := h
  simp only [load16, h0, h1, UInt8.toNat_ofNat']
  omega

structure CString where
  bytes : List UInt8
  nonzero : ∀ b ∈ bytes, b ≠ 0
  deriving DecidableEq

theorem CString.ext_bytes {s t : CString} (h : s.bytes = t.bytes) : s = t := by
  cases s
  cases t
  simpa using h

/-- `0 == strcmp( s, &m[j] )` for a string with the bytes `s`. -/
def strcmp (m : ℕ → UInt8) : ℕ → List UInt8 → Bool
  | j, [] => m j == 0
  | j, b :: bs => m j == b && strcmp m (j + 1) bs

theorem strcmp_iff {s t : List UInt8} (hs : ∀ b ∈ s, b ≠ 0) (ht : ∀ b ∈ t, b ≠ 0)
    {rest : List UInt8} (h : Holds m j (t ++ 0 :: rest)) : strcmp m j s = true ↔ s = t := by
  induction s generalizing j t with
  | nil =>
    cases t with
    | nil => simp [strcmp, h.1]
    | cons b t => simp [strcmp, h.1, ht b]
  | cons a s ih =>
    have ha : a ≠ 0 := hs a List.mem_cons_self
    cases t with
    | nil => simp [strcmp, h.1, ha.symm]
    | cons b t =>
      have hrec := ih (fun x hx => hs x (List.mem_cons_of_mem _ hx))
        (fun x hx => ht x (List.mem_cons_of_mem _ hx)) h.2
      simp only [strcmp, h.1, Bool.and_eq_true, beq_iff_eq, hrec, List.cons.injEq]
      exact and_congr_left fun _ => eq_comm

end LibComm.ByteMemory

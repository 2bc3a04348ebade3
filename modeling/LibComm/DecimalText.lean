import Mathlib.Data.List.DropRight

/-!
# Decimal numbers in a text

`atoi` reads the number that a text begins with, after white space and with an
optional sign; the value is clamped to a `long` and converted to an `int`.
`decimal` and `integer` are stricter: the whole text, but for the white space
around it, is the number. On small numbers `atoi` agrees with `decimal`.
-/

namespace LibComm.DecimalText

def isSpace (b : UInt8) : Bool := b == 0x20 || (0x09 ≤ b && b ≤ 0x0D)

def isDigit (b : UInt8) : Bool := 0x30 ≤ b && b ≤ 0x39

def isSign (b : UInt8) : Bool := b == 0x2B || b == 0x2D

def value (ds : List UInt8) : ℕ := ds.foldl (fun n d => 10 * n + (d.toNat - 0x30)) 0

/-- `strtol( s, NULL, 10 )`. -/
def strtol (s : List UInt8) : ℤ :=
  let s := s.dropWhile isSpace
  let n := value ((if s.head?.any isSign then s.tail else s).takeWhile isDigit)
  if s.head? = some 0x2D then max (-(n : ℤ)) (-9223372036854775808)
  else min (n : ℤ) 9223372036854775807

def atoi (s : List UInt8) : ℤ := (strtol s).bmod 4294967296

def trim (s : List UInt8) : List UInt8 := (s.dropWhile isSpace).rdropWhile isSpace

def digits (t : List UInt8) : Option ℕ := if t ≠ [] ∧ t.all isDigit then some (value t) else none

def decimal (s : List UInt8) : Option ℕ := digits (trim s)

def integer (s : List UInt8) : Option ℤ :=
  match trim s with
  | 0x2D :: t => (digits t).map fun n => -(n : ℤ)
  | 0x2B :: t => (digits t).map fun n => (n : ℤ)
  | t => (digits t).map fun n => (n : ℤ)

theorem digit_cases {b : UInt8} (h : isDigit b = true) : isSign b = false ∧ b ≠ 0x2D := by
  constructor
  · by_contra hs
    simp only [isSign, Bool.not_eq_false, Bool.or_eq_true, beq_iff_eq] at hs
    obtain rfl | rfl := hs <;> exact absurd h (by decide)
  · intro hb
    rw [hb] at h
    exact absurd h (by decide)

theorem space_not_digit {b : UInt8} (h : isSpace b = true) : isDigit b = false := by
  simp only [isSpace, Bool.or_eq_true, beq_iff_eq, Bool.and_eq_true, decide_eq_true_eq] at h
  simp only [isDigit, Bool.and_eq_false_iff, decide_eq_false_iff_not, UInt8.not_le]
  left
  obtain rfl | ⟨-, h⟩ := h
  · decide
  · rw [UInt8.le_iff_toNat_le] at h
    rw [UInt8.lt_iff_toNat_lt]
    have : (0x0D : UInt8).toNat < (0x30 : UInt8).toNat := by decide
    omega

theorem digits_eq_some {t : List UInt8} {n : ℕ} :
    digits t = some n ↔ t ≠ [] ∧ t.all isDigit = true ∧ value t = n := by
  simp [digits, and_assoc]

theorem atoi_decimal {s : List UInt8} {n : ℕ} (h : decimal s = some n) (hn : n < 2147483648) :
    atoi s = n := by
  obtain ⟨hne, hall, rfl⟩ := digits_eq_some.mp h
  simp only [trim] at hne hall hn ⊢
  have happend : (s.dropWhile isSpace).rdropWhile isSpace ++
      (s.dropWhile isSpace).rtakeWhile isSpace = s.dropWhile isSpace :=
    List.rdropWhile_append_rtakeWhile ..
  have hrest : ((s.dropWhile isSpace).rtakeWhile isSpace).takeWhile isDigit = [] := by
    cases hr : (s.dropWhile isSpace).rtakeWhile isSpace with
    | nil => rfl
    | cons b r =>
      have hb : isSpace b = true := List.mem_rtakeWhile_imp (hr ▸ List.mem_cons_self)
      simp [space_not_digit hb]
  generalize (s.dropWhile isSpace).rdropWhile isSpace = t at hne hall happend hn ⊢
  generalize (s.dropWhile isSpace).rtakeWhile isSpace = w at happend hrest
  have hdigits : (s.dropWhile isSpace).takeWhile isDigit = t := by
    rw [← happend, List.takeWhile_append_of_pos (by simpa using hall), hrest, List.append_nil]
  obtain ⟨b, hb, hdigit⟩ : ∃ b, (s.dropWhile isSpace).head? = some b ∧ isDigit b = true := by
    obtain ⟨b, t', rfl⟩ := List.exists_cons_of_ne_nil hne
    refine ⟨b, by rw [← happend]; rfl, ?_⟩
    simp only [List.all_cons, Bool.and_eq_true] at hall
    exact hall.1
  obtain ⟨hsign, hminus⟩ := digit_cases hdigit
  have hvalue : strtol s = value t := by
    simp only [strtol, hb, Option.any_some, hsign, Bool.false_eq_true, if_false, hdigits,
      Option.some.injEq, hminus]
    omega
  rw [atoi, hvalue]
  simp only [Int.bmod]
  omega

end LibComm.DecimalText

import Mathlib.Data.List.DropRight
import LibComm.CBuffer

/-!
# Texts of the configuration file

`removeSpace` works in place on the text of an element. Its first loop moves
the returned pointer over line breaks and spaces, its second one cuts the text
at the next line break; a space in front of that, or at the very end, is left.
-/

namespace LibComm.ConfigText
open CBuffer

def isBreak (b : UInt8) : Bool := b == 0x0A || b == 0x0D

def isBlank (b : UInt8) : Bool := isBreak b || b == 0x20

def skipLoop (buf : List UInt8) (pIn : ℕ) : ℕ → ℕ → ℕ → ℕ
  | 0, _, pOut => pOut
  | fuel + 1, i, pOut =>
    if i < strlen buf pIn then
      if !isBlank (peek buf pOut) then pOut else skipLoop buf pIn fuel (i + 1) (pOut + 1)
    else pOut

def cutLoop (pOut : ℕ) : ℕ → ℕ → List UInt8 → List UInt8
  | 0, _, buf => buf
  | fuel + 1, i, buf =>
    if i < strlen buf pOut then
      if isBreak (peek buf (pOut + i)) then buf.set (pOut + i) 0
      else cutLoop pOut fuel (i + 1) buf
    else buf

def removeSpace (buf : List UInt8) (pIn : ℕ) : List UInt8 × ℕ :=
  let pOut := skipLoop buf pIn buf.length 0 pIn
  (cutLoop pOut buf.length 0 buf, pOut)

/-- From the first byte that is not blank to the next line break. -/
def trimmed (s : List UInt8) : List UInt8 := (s.dropWhile isBlank).takeWhile fun b => !isBreak b

/-- The text without the blanks on its two sides, and the blanks behind it. -/
def stripped (s : List UInt8) : List UInt8 := (s.dropWhile isBlank).rdropWhile isBlank

def behind (s : List UInt8) : List UInt8 := (s.dropWhile isBlank).rtakeWhile isBlank

section RemoveSpace

variable {buf : List UInt8} {p : ℕ}

theorem skipLoop_eq (buf : List UInt8) (p fuel i : ℕ) (hf : strlen buf p ≤ i + fuel)
    (hi : i ≤ strlen buf p) :
    skipLoop buf p fuel i (p + i) =
      p + (i + (((cstr buf p).drop i).takeWhile isBlank).length) := by
  induction fuel generalizing i with
  | zero =>
    have hnil : (cstr buf p).drop i = [] := List.drop_eq_nil_of_le hf
    simp [skipLoop, hnil]
  | succ fuel ih =>
    by_cases hlt : i < strlen buf p
    · have hcons := drop_cstr hlt
      cases hb : isBlank (peek buf (p + i)) with
      | false => simp [skipLoop, hlt, hb, hcons]
      | true =>
        have hrec := ih (i + 1) (by omega) hlt
        simp only [skipLoop, hlt, if_true, hb, Bool.not_true, Bool.false_eq_true, if_false]
        rw [Nat.add_assoc, hrec, hcons, List.takeWhile_cons_of_pos hb, List.length_cons]
        omega
    · have hnil : (cstr buf p).drop i = [] := List.drop_eq_nil_of_le (not_lt.mp hlt)
      simp [skipLoop, hlt, hnil]

theorem cutLoop_eq (buf : List UInt8) (p fuel i : ℕ) (hf : strlen buf p ≤ i + fuel) :
    cstr (cutLoop p fuel i buf) p =
      (cstr buf p).take i ++ ((cstr buf p).drop i).takeWhile fun b => !isBreak b := by
  induction fuel generalizing i with
  | zero =>
    have hnil : (cstr buf p).drop i = [] := List.drop_eq_nil_of_le hf
    have hall : (cstr buf p).take i = cstr buf p := List.take_of_length_le hf
    simp [cutLoop, hnil, hall]
  | succ fuel ih =>
    by_cases hlt : i < strlen buf p
    · have hcons := drop_cstr hlt
      cases hb : isBreak (peek buf (p + i)) with
      | true => simp [cutLoop, hlt, hb, hcons, cstr_set hlt]
      | false =>
        have hrec := ih (i + 1) (by omega)
        simp only [cutLoop, hlt, if_true, hb, Bool.false_eq_true, if_false]
        rw [hrec, hcons, List.takeWhile_cons_of_pos (by simp [hb]),
          List.take_succ_eq_append_getElem hlt, List.append_assoc, List.singleton_append,
          peek_cstr hlt]
        rfl
    · have hle := not_lt.mp hlt
      have hnil : (cstr buf p).drop i = [] := List.drop_eq_nil_of_le hle
      simp [cutLoop, hlt, hnil, List.take_of_length_le hle]

theorem removeSpace_cstr (buf : List UInt8) (p : ℕ) :
    cstr (removeSpace buf p).1 (removeSpace buf p).2 = trimmed (cstr buf p) := by
  have hlen := strlen_le buf p
  have hskip := skipLoop_eq buf p buf.length 0 (by omega) (by omega)
  simp only [Nat.add_zero, List.drop_zero, Nat.zero_add] at hskip
  have hdrop : cstr buf (p + ((cstr buf p).takeWhile isBlank).length) =
      (cstr buf p).dropWhile isBlank := by
    have hle : ((cstr buf p).takeWhile isBlank).length ≤ strlen buf p :=
      (List.takeWhile_sublist isBlank).length_le
    have happend : (cstr buf p).takeWhile isBlank ++ (cstr buf p).dropWhile isBlank = cstr buf p :=
      List.takeWhile_append_dropWhile
    calc
      _ = (cstr buf p).drop ((cstr buf p).takeWhile isBlank).length := cstr_add hle
      _ = ((cstr buf p).takeWhile isBlank ++ (cstr buf p).dropWhile isBlank).drop
          ((cstr buf p).takeWhile isBlank).length := by rw [happend]
      _ = (cstr buf p).dropWhile isBlank := List.drop_left
  simp only [removeSpace, hskip]
  have hlen' := strlen_le buf (p + ((cstr buf p).takeWhile isBlank).length)
  rw [cutLoop_eq buf _ buf.length 0 (by omega), hdrop]
  simp [trimmed]

end RemoveSpace

variable {p : List UInt8}

structure Plain (s : List UInt8) : Prop where
  breaks : ∀ b ∈ s, isBreak b = false
  nonzero : ∀ b ∈ s, b ≠ 0
  head : s.head? ≠ some 0x20

theorem dropWhile_padded {s q : List UInt8} (hp : ∀ b ∈ p, isBlank b = true) (hs : Plain s)
    (hne : s ≠ []) : (p ++ s ++ q).dropWhile isBlank = s ++ q := by
  rw [List.append_assoc, List.dropWhile_append_of_pos hp]
  cases s with
  | nil => exact absurd rfl hne
  | cons b s =>
    have hb : isBlank b = false := by
      have hspace : b ≠ 0x20 := fun h => hs.head (by simp [h])
      simp [isBlank, hs.breaks b List.mem_cons_self, hspace]
    simp [hb]

theorem trimmed_padded {s q : List UInt8} (hp : ∀ b ∈ p, isBlank b = true) (hs : Plain s)
    (hne : s ≠ []) : trimmed (p ++ s ++ q) = s ++ q.takeWhile fun b => !isBreak b := by
  rw [trimmed, dropWhile_padded hp hs hne, List.takeWhile_append_of_pos]
  intro b hb
  simp [hs.breaks b hb]

theorem trimmed_blank (hp : ∀ b ∈ p, isBlank b = true) : trimmed p = [] := by
  have hdrop : p.dropWhile isBlank = [] := List.dropWhile_eq_nil_iff.mpr hp
  simp [trimmed, hdrop]

theorem takeWhile_break {q : List UInt8} (hq : ∀ b ∈ q, isBlank b = true) :
    (q.takeWhile fun b => !isBreak b) = [] ↔ q.head? ≠ some 0x20 := by
  cases q with
  | nil => simp
  | cons b q =>
    have hb := hq b List.mem_cons_self
    cases hbreak : isBreak b with
    | true =>
      have hne : b ≠ 0x20 := by
        intro h
        rw [h] at hbreak
        exact absurd hbreak (by decide)
      simp [hbreak, hne]
    | false => simpa [isBlank, hbreak] using hb

theorem trimmed_eq_stripped {s : List UInt8} (hline : ∀ b ∈ stripped s, isBreak b = false)
    (hspace : (behind s).head? ≠ some 0x20) : trimmed s = stripped s := by
  have happend : stripped s ++ behind s = s.dropWhile isBlank :=
    List.rdropWhile_append_rtakeWhile ..
  have hblank : ∀ b ∈ behind s, isBlank b = true := fun b hb => List.mem_rtakeWhile_imp hb
  rw [trimmed, ← happend, List.takeWhile_append_of_pos (by simpa using hline),
    (takeWhile_break hblank).mpr hspace, List.append_nil]

theorem blank_nonzero {b : UInt8} (hb : isBlank b = true) : b ≠ 0 := by
  intro h
  rw [h] at hb
  exact absurd hb (by decide)

theorem nonzero_padded {s q : List UInt8} (hp : ∀ b ∈ p, isBlank b = true) (hs : Plain s)
    (hq : ∀ b ∈ q, b ≠ 0) : ∀ b ∈ p ++ s ++ q, b ≠ 0 := by
  intro b hb
  simp only [List.mem_append] at hb
  obtain (hb | hb) | hb := hb
  · exact blank_nonzero (hp b hb)
  · exact hs.nonzero b hb
  · exact hq b hb

/-- The padding around a text is removed exactly if the text is empty or no space follows it. -/
theorem padding_removed {s q rest : List UInt8} (hp : ∀ b ∈ p, isBlank b = true) (hs : Plain s)
    (hq : ∀ b ∈ q, isBlank b = true) :
    cstr (removeSpace (p ++ s ++ q ++ 0 :: rest) 0).1
        (removeSpace (p ++ s ++ q ++ 0 :: rest) 0).2 = s ↔ s = [] ∨ q.head? ≠ some 0x20 := by
  have hnz : ∀ b ∈ p ++ s ++ q, b ≠ 0 := nonzero_padded hp hs fun b hb => blank_nonzero (hq b hb)
  rw [removeSpace_cstr, cstr_of_append hnz]
  by_cases hne : s = []
  · have hblank : ∀ b ∈ p ++ s ++ q, isBlank b = true := by
      intro b hb
      simp only [hne, List.append_nil, List.mem_append] at hb
      exact hb.elim (hp b) (hq b)
    rw [trimmed_blank hblank]
    simp [hne]
  · rw [trimmed_padded hp hs hne, List.append_right_eq_self, takeWhile_break hq]
    simp [hne]

theorem padding_removed_break :
    cstr (removeSpace ([0x20, 0x0A] ++ [0x56, 0x4D] ++ [0x0A, 0x20] ++ 0 :: []) 0).1
        (removeSpace ([0x20, 0x0A] ++ [0x56, 0x4D] ++ [0x0A, 0x20] ++ 0 :: []) 0).2 =
      [0x56, 0x4D] ↔ [0x56, 0x4D] = ([] : List UInt8) ∨
        ([0x0A, 0x20] : List UInt8).head? ≠ some 0x20 :=
  padding_removed (by simp [isBlank, isBreak])
    ⟨by simp [isBreak], by simp, by simp⟩ (by simp [isBlank, isBreak])

/-- The space in front of the line break is left behind. -/
theorem padding_removed_fails : ¬ ∀ p s q rest : List UInt8, (∀ b ∈ p, isBlank b = true) →
    Plain s → s.getLast? ≠ some 0x20 → (∀ b ∈ q, isBlank b = true) →
      cstr (removeSpace (p ++ s ++ q ++ 0 :: rest) 0).1
        (removeSpace (p ++ s ++ q ++ 0 :: rest) 0).2 = s := by
  intro hclaim
  have hs : Plain [0x56, 0x4D] := ⟨by simp [isBreak], by simp, by simp⟩
  have heq := hclaim [] [0x56, 0x4D] [0x20, 0x0A] [] (by simp) hs (by simp)
    (by simp [isBlank, isBreak])
  exact absurd heq (by decide)

end LibComm.ConfigText

import Mathlib.Data.List.TakeWhile

/-!
# C strings in a buffer

A buffer is a block of bytes, and a pointer into it an offset. `cstr` is the
string that stands at a pointer, up to the first zero byte; what is behind the
block is never read as long as it holds one. The rules say what the loops over
a string use: reading it, moving the pointer along it, and cutting it.
-/

namespace LibComm.CBuffer

def cstr (buf : List UInt8) (p : ℕ) : List UInt8 := (buf.drop p).takeWhile (· != 0)

def peek (buf : List UInt8) (p : ℕ) : UInt8 := buf.getD p 0

def strlen (buf : List UInt8) (p : ℕ) : ℕ := (cstr buf p).length

section TakeWhile

variable {α : Type*} {q : α → Bool}

theorem takeWhile_drop {l : List α} {i : ℕ} (h : i ≤ (l.takeWhile q).length) :
    (l.drop i).takeWhile q = (l.takeWhile q).drop i := by
  induction l generalizing i with
  | nil => simp
  | cons x l ih =>
    cases i with
    | zero => rfl
    | succ i =>
      cases hx : q x with
      | false => simp [hx] at h
      | true =>
        simp only [List.takeWhile_cons, hx, if_true, List.length_cons] at h
        simpa [hx] using ih (by omega)

theorem takeWhile_set {l : List α} {i : ℕ} {a : α} (ha : q a = false)
    (h : i < (l.takeWhile q).length) : (l.set i a).takeWhile q = (l.takeWhile q).take i := by
  induction l generalizing i with
  | nil => simp at h
  | cons x l ih =>
    cases i with
    | zero => simp [ha]
    | succ i =>
      cases hx : q x with
      | false => simp [hx] at h
      | true =>
        simp only [List.takeWhile_cons, hx, if_true, List.length_cons] at h
        simpa [hx] using ih (by omega)

theorem getElem?_takeWhile {l : List α} {i : ℕ} (h : i < (l.takeWhile q).length) :
    l[i]? = (l.takeWhile q)[i]? := by
  have happend : l.takeWhile q ++ l.dropWhile q = l := List.takeWhile_append_dropWhile
  calc
    l[i]? = (l.takeWhile q ++ l.dropWhile q)[i]? := by rw [happend]
    _ = (l.takeWhile q)[i]? := List.getElem?_append_left h

end TakeWhile

variable {buf : List UInt8} {p i : ℕ}

theorem cstr_of_append {s rest : List UInt8} (hs : ∀ b ∈ s, b ≠ 0) :
    cstr (s ++ 0 :: rest) 0 = s := by
  rw [cstr, List.drop_zero, List.takeWhile_append_of_pos (by simpa using hs)]
  simp

theorem strlen_le (buf : List UInt8) (p : ℕ) : strlen buf p ≤ buf.length := by
  have htake := (List.takeWhile_sublist (p := (· != 0)) (l := buf.drop p)).length_le
  rw [List.length_drop] at htake
  simp only [strlen, cstr]
  omega

theorem peek_cstr (h : i < strlen buf p) : peek buf (p + i) = (cstr buf p).get ⟨i, h⟩ := by
  have hget := getElem?_takeWhile (q := (· != 0)) (l := buf.drop p) h
  rw [List.getElem?_drop] at hget
  rw [peek, List.getD_eq_getElem?_getD, hget]
  exact congrArg (Option.getD · 0) (List.getElem?_eq_getElem h)

theorem drop_cstr (h : i < strlen buf p) :
    (cstr buf p).drop i = peek buf (p + i) :: (cstr buf p).drop (i + 1) := by
  rw [peek_cstr h]
  exact List.drop_eq_getElem_cons h

theorem cstr_add (h : i ≤ strlen buf p) : cstr buf (p + i) = (cstr buf p).drop i := by
  rw [cstr, ← List.drop_drop]
  exact takeWhile_drop h

theorem cstr_set (h : i < strlen buf p) : cstr (buf.set (p + i) 0) p = (cstr buf p).take i := by
  rw [cstr, List.drop_set, if_neg (by omega), Nat.add_sub_cancel_left]
  exact takeWhile_set rfl h

end LibComm.CBuffer

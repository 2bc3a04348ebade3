import Mathlib.Data.Int.Basic
import LibComm.ByteMemory

/-!
# The Send functions

Every `Send` function of the library tests its arguments in the same way,
returns -1 if one is missing, and hands the data to its system call otherwise.
`request` is what the call gets, and the result of the call is returned as is.
-/

namespace LibComm.SendCall
open ByteMemory

/-- The arguments, with the descriptor in the context instead of the handle; `none` is `NULL`. -/
structure Args where
  fd : Option ℤ
  pData : Option (ℕ → UInt8)
  size : UInt16

def Args.request (a : Args) : Option (List UInt8) :=
  match a.fd with
  | none => none
  | some fd =>
    if fd < 0 then none
    else match a.pData with
      | none => none
      | some m => if a.size = 0 then none else some (load m 0 a.size.toNat)

/-- The result, given that of the system call. -/
def Args.returned (a : Args) (error : ℤ) : ℤ := if a.request.isSome then error else -1

def Args.data (a : Args) : List UInt8 := a.pData.elim [] fun m => load m 0 a.size.toNat

theorem request_some {a : Args} {bs : List UInt8} (h : a.request = some bs) :
    bs = a.data ∧ bs.length = a.size.toNat ∧ 0 < bs.length := by
  cases hfd : a.fd with
  | none => simp [Args.request, hfd] at h
  | some fd =>
    cases hm : a.pData with
    | none => simp [Args.request, hfd, hm] at h
    | some m =>
      simp only [Args.request, hfd, hm, Option.ite_none_left_eq_some, Option.some.injEq] at h
      obtain ⟨-, h0, rfl⟩ := h
      have hpos : a.size.toNat ≠ 0 := fun hz => h0 (UInt16.toNat_inj.mp hz)
      simp only [Args.data, hm, Option.elim_some, load_length, true_and]
      omega

theorem request_eq {a : Args} {fd : ℤ} {m : ℕ → UInt8} (hfd : a.fd = some fd) (h0 : 0 ≤ fd)
    (hm : a.pData = some m) (hs : a.size ≠ 0) : a.request = some (load m 0 a.size.toNat) := by
  simp [Args.request, hfd, hm, hs, Int.not_lt.mpr h0]

theorem request_isSome {fd : ℤ} {pData : Option (ℕ → UInt8)} {size : UInt16} :
    (Args.request ⟨some fd, pData, size⟩).isSome ↔ 0 ≤ fd ∧ pData.isSome ∧ size ≠ 0 := by
  cases pData with
  | none => simp [Args.request]
  | some m =>
    by_cases hfd : fd < 0
    · simp [Args.request, hfd, Int.not_le.mpr hfd]
    · by_cases hs : size = 0 <;> simp [Args.request, hfd, hs, Int.not_lt.mp hfd]

theorem request_of_returned {a : Args} {error : ℤ} (h : a.returned error = a.size.toNat) :
    a.request = some a.data ∧ error = a.size.toNat := by
  cases hr : a.request with
  | none =>
    have hneg : a.returned error = -1 := by simp [Args.returned, hr]
    omega
  | some bs =>
    rw [(request_some hr).1]
    exact ⟨rfl, by simpa [Args.returned, hr] using h⟩

end LibComm.SendCall

import Mathlib.Data.List.TakeWhile
import LibComm.ByteMemory

/-!
# The address of a network interface

`udpIpv4GetAddr` and `udpIpv6GetAddr` walk through the list of `getifaddrs` to
the first entry with the name and the family that they look for. An entry of
that list need not have an address, and both functions read the family of every
entry that they come to.
-/

namespace LibComm.InterfaceAddress
open ByteMemory

def afInet : ℕ := 2
def afInet6 : ℕ := 10

/-- An entry of the list, with the memory at its `ifa_addr`; `none` is `NULL`. -/
structure IfAddr where
  name : CString
  addr : Option (ℕ → UInt8)

def saFamily (m : ℕ → UInt8) : ℕ := load16 m 0

def sinAddrOffset : ℕ := 4
def sin6AddrOffset : ℕ := 8

/-- The bytes of a word the other way round, as on a little-endian host. -/
def ntohl (n : ℕ) : ℕ :=
  n % 256 * 16777216 + n / 256 % 256 * 65536 + n / 65536 % 256 * 256 + n / 16777216 % 256

def ipv4Bytes (m : ℕ → UInt8) : List UInt8 :=
  let sinAddr := ntohl (load32 m sinAddrOffset)
  [.ofNat (sinAddr >>> 24 &&& 0xFF), .ofNat (sinAddr >>> 16 &&& 0xFF),
    .ofNat (sinAddr >>> 8 &&& 0xFF), .ofNat (sinAddr &&& 0xFF)]

def ipv6Bytes (m : ℕ → UInt8) : List UInt8 := load m sin6AddrOffset 16

/-- The loop over the list, with the output buffer; `none` is a read through a null address. -/
def walk (family : ℕ) (bytes : (ℕ → UInt8) → List UInt8) (pIfName : CString) :
    List IfAddr → (ℕ → UInt8) → Option ((ℕ → UInt8) × Bool)
  | [], out => some (out, false)
  | pIf :: rest, out =>
    match pIf.addr with
    | none => none
    | some m =>
      if family = saFamily m ∧ pIf.name = pIfName then some (store out 0 (bytes m), true)
      else walk family bytes pIfName rest out

structure Lookup where
  out : ℕ → UInt8
  result : ℤ
  freed : List (List IfAddr)

def getAddr (family : ℕ) (bytes : (ℕ → UInt8) → List UInt8) (size : ℕ)
    (pIfAddrHdr : Option (List IfAddr)) (pIfName : CString) (out : ℕ → UInt8) : Option Lookup :=
  let out := store out 0 (List.replicate size 0)
  match pIfAddrHdr with
  | none => some ⟨out, -1, []⟩
  | some es =>
    (walk family bytes pIfName es out).map fun r => ⟨r.1, if r.2 then 0 else -1, [es]⟩

def udpIpv4GetAddr := getAddr afInet ipv4Bytes 4
def udpIpv6GetAddr := getAddr afInet6 ipv6Bytes 16

def Has (family : ℕ) (name : CString) (e : IfAddr) : Prop :=
  e.name = name ∧ (e.addr.map saFamily) = some family

instance (family : ℕ) (name : CString) (e : IfAddr) : Decidable (Has family name e) :=
  inferInstanceAs (Decidable (_ ∧ _))

/-- The result is 0 exactly if an entry is found, with the address of the first one in the order of
the network, and -1 with an output of zeros otherwise; what has been obtained is freed once. -/
structure Finds (family offset size : ℕ) (list : Option (List IfAddr)) (name : CString)
    (l : Lookup) : Prop where
  found : l.result = 0 ↔ ∃ e ∈ list.getD [], Has family name e
  first : ∀ e m, (list.getD []).find? (Has family name) = some e → e.addr = some m →
    Holds l.out 0 (load m offset size)
  missing : l.result ≠ 0 → l.result = -1 ∧ Holds l.out 0 (List.replicate size 0)
  freed : l.freed = list.toList

def before (family : ℕ) (name : CString) (es : List IfAddr) : List IfAddr :=
  es.takeWhile fun e => !decide (Has family name e)

section Walk

variable {family : ℕ} {bytes : (ℕ → UInt8) → List UInt8} {name : CString} {es : List IfAddr}
  {out : ℕ → UInt8}

theorem has_iff {e : IfAddr} {m : ℕ → UInt8} (hm : e.addr = some m) :
    Has family name e ↔ family = saFamily m ∧ e.name = name := by
  simp only [Has, hm, Option.map_some, Option.some.injEq]
  exact and_comm.trans (and_congr_left fun _ => eq_comm)

theorem before_cons (e : IfAddr) (es : List IfAddr) :
    before family name (e :: es) =
      if Has family name e then [] else e :: before family name es := by
  by_cases h : Has family name e <;> simp [before, h]

theorem find_cons (e : IfAddr) (es : List IfAddr) :
    (e :: es).find? (Has family name) =
      if Has family name e then some e else es.find? (Has family name) := by
  by_cases h : Has family name e <;> simp [h]

theorem walk_some (h : ∀ e ∈ before family name es, e.addr.isSome) :
    walk family bytes name es out =
      some (((es.find? (Has family name)).bind IfAddr.addr).elim (out, false)
        fun m => (store out 0 (bytes m), true)) := by
  induction es with
  | nil => rfl
  | cons e es ih =>
    rw [before_cons] at h
    rw [find_cons]
    by_cases hhas : Has family name e
    · cases hm : e.addr with
      | none => simp [Has, hm] at hhas
      | some m =>
        simp only [walk, hm, if_pos ((has_iff hm).mp hhas), if_pos hhas, Option.bind_some,
          Option.elim_some]
    · rw [if_neg hhas] at h ⊢
      obtain ⟨m, hm⟩ := Option.isSome_iff_exists.mp (h e List.mem_cons_self)
      simp only [walk, hm, if_neg (mt (has_iff hm).mpr hhas)]
      exact ih fun e' he' => h e' (List.mem_cons_of_mem _ he')

theorem walk_none (h : ¬ ∀ e ∈ before family name es, e.addr.isSome) :
    walk family bytes name es out = none := by
  induction es with
  | nil => simp [before] at h
  | cons e es ih =>
    rw [before_cons] at h
    by_cases hhas : Has family name e
    · simp [hhas] at h
    · rw [if_neg hhas, List.forall_mem_cons] at h
      cases hm : e.addr with
      | none => simp only [walk, hm]
      | some m =>
        simp only [walk, hm, mt (has_iff hm).mpr hhas, if_false]
        exact ih fun hrest => h ⟨by simp [hm], hrest⟩

end Walk

theorem ntohl_load32 (m : ℕ → UInt8) (j : ℕ) :
    ntohl (load32 m j) = (m j).toNat * 16777216 + (m (j + 1)).toNat * 65536 +
      (m (j + 2)).toNat * 256 + (m (j + 3)).toNat := by
  have h0 := (m j).toNat_lt
  have h1 := (m (j + 1)).toNat_lt
  have h2 := (m (j + 2)).toNat_lt
  have h3 := (m (j + 3)).toNat_lt
  simp only [ntohl, load32]
  omega

theorem ipv4Bytes_eq (m : ℕ → UInt8) : ipv4Bytes m = load m sinAddrOffset 4 := by
  have h0 := (m 4).toNat_lt
  have h1 := (m 5).toNat_lt
  have h2 := (m 6).toNat_lt
  have h3 := (m 7).toNat_lt
  have hmask : ∀ n : ℕ, UInt8.ofNat (n &&& 0xFF) = UInt8.ofNat n := by
    intro n
    rw [← UInt8.toNat_inj, Nat.and_two_pow_sub_one_eq_mod n 8]
    simp
  have hload : load m sinAddrOffset 4 = [m 4, m 5, m 6, m 7] := rfl
  rw [hload]
  simp only [ipv4Bytes, hmask, Nat.shiftRight_eq_div_pow, ntohl_load32, sinAddrOffset,
    Nat.reduceAdd, List.cons.injEq, and_true, ← UInt8.toNat_inj, UInt8.toNat_ofNat']
  refine ⟨?_, ?_, ?_, ?_⟩ <;> omega

section GetAddr

variable {family offset size : ℕ} {bytes : (ℕ → UInt8) → List UInt8}

theorem getAddr_iff (hbytes : ∀ m, bytes m = load m offset size) (list : Option (List IfAddr))
    (name : CString) (out : ℕ → UInt8) :
    (∃ l, getAddr family bytes size list name out = some l ∧ Finds family offset size list name l) ↔
      ∀ e ∈ before family name (list.getD []), e.addr.isSome := by
  cases list with
  | none =>
    refine iff_of_true ⟨_, rfl, ?_⟩ (by simp [before])
    exact ⟨by simp, by simp, fun _ => ⟨rfl, by simpa using holds_store out 0 _⟩, rfl⟩
  | some es =>
    simp only [Option.getD_some]
    constructor
    · intro hx
      obtain ⟨l, hl, -⟩ := hx
      by_contra h
      rw [getAddr, walk_none h] at hl
      cases hl
    · intro h
      rw [getAddr, walk_some h]
      refine ⟨_, rfl, ?_⟩
      cases hfind : es.find? (Has family name) with
      | none =>
        have hnone : ¬ ∃ e ∈ es, Has family name e := by simpa using List.find?_eq_none.mp hfind
        exact ⟨iff_of_false (by simp) hnone, by simp [hfind], fun _ => ⟨rfl, holds_store out 0 _⟩,
          rfl⟩
      | some e =>
        have hhas : Has family name e := by simpa using List.find?_some hfind
        have hmem := List.mem_of_find?_eq_some hfind
        cases hm : e.addr with
        | none => simp [Has, hm] at hhas
        | some m =>
          simp only [Option.bind_some, hm, Option.elim_some, if_true]
          refine ⟨iff_of_true rfl ⟨e, hmem, hhas⟩, fun e' m' he' hm' => ?_, by simp, rfl⟩
          obtain rfl := Option.some.inj (hfind.symm.trans he')
          obtain rfl := Option.some.inj (hm.symm.trans hm')
          rw [hbytes]
          exact holds_store (store out 0 _) 0 _

end GetAddr

/-- Both functions return the address of the first entry with the name and the family, or -1 and
zeros, exactly if every entry in front of that one has an address. -/
theorem address_found (list : Option (List IfAddr)) (name : CString) (out : ℕ → UInt8) :
    ((∃ l, udpIpv4GetAddr list name out = some l ∧
        Finds afInet sinAddrOffset 4 list name l) ↔
      ∀ e ∈ before afInet name (list.getD []), e.addr.isSome) ∧
    ((∃ l, udpIpv6GetAddr list name out = some l ∧
        Finds afInet6 sin6AddrOffset 16 list name l) ↔
      ∀ e ∈ before afInet6 name (list.getD []), e.addr.isSome) :=
  ⟨getAddr_iff ipv4Bytes_eq list name out, getAddr_iff (fun _ => rfl) list name out⟩

def lo : CString := ⟨[108, 111], by simp⟩
def interfaces : List IfAddr :=
  [⟨⟨[116, 117, 110, 48], by simp⟩, none⟩,
    ⟨lo, some fun i => [2, 0, 0, 0, 127, 0, 0, 1].getD i 0⟩]

theorem address_found_fails : ¬ ∀ (list : Option (List IfAddr)) (name : CString) (out : ℕ → UInt8),
    ∃ l, udpIpv4GetAddr list name out = some l ∧ Finds afInet sinAddrOffset 4 list name l := by
  intro hclaim
  obtain ⟨l, hl, -⟩ := hclaim (some interfaces) lo fun _ => 0
  have hnone : udpIpv4GetAddr (some interfaces) lo (fun _ => 0) = none := rfl
  rw [hnone] at hl
  cases hl

end LibComm.InterfaceAddress

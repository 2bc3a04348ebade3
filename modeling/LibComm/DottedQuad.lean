import Mathlib.Tactic.IntervalCases
import LibComm.DecimalText

/-!
# IPv4 addresses as texts

`inet_ntoa` writes an address as four decimal numbers. `inet_addr` reads one to
four numbers, each decimal, octal or hexadecimal as in C, of which the last one
fills the bytes that are left; it takes a text that goes on after a space, and
answers 255.255.255.255 for one that it cannot read.
-/

namespace LibComm.DottedQuad
open DecimalText

structure Ipv4 where
  a : UInt8
  b : UInt8
  c : UInt8
  d : UInt8
  deriving DecidableEq

def inaddrNone : Ipv4 := ⟨255, 255, 255, 255⟩

def digit (n : ℕ) : UInt8 := .ofNat (0x30 + n)

def byteText (n : UInt8) : List UInt8 :=
  if n < 10 then [digit n.toNat]
  else if n < 100 then [digit (n.toNat / 10), digit (n.toNat % 10)]
  else [digit (n.toNat / 100), digit (n.toNat / 10 % 10), digit (n.toNat % 10)]

def inetNtoa (x : Ipv4) : List UInt8 :=
  byteText x.a ++ 0x2E :: (byteText x.b ++ 0x2E :: (byteText x.c ++ 0x2E :: byteText x.d))

def digitValue (b : UInt8) : ℕ :=
  if isDigit b then b.toNat - 0x30
  else if 0x41 ≤ b ∧ b ≤ 0x46 then b.toNat - 0x41 + 10
  else if 0x61 ≤ b ∧ b ≤ 0x66 then b.toNat - 0x61 + 10
  else 16

def valueIn (base : ℕ) (ds : List UInt8) : ℕ := ds.foldl (fun n d => base * n + digitValue d) 0

def baseOf (s : List UInt8) : ℕ × List UInt8 :=
  match s with
  | 0x30 :: x :: d :: t =>
    if (x = 0x78 ∨ x = 0x58) ∧ digitValue d < 16 then (16, d :: t) else (8, s)
  | 0x30 :: _ => (8, s)
  | _ => (10, s)

/-- `strtoul( s, &end, 0 )` where a digit stands: the number, and what follows. -/
def number (s : List UInt8) : Option (ℕ × List UInt8) :=
  if s.head?.any isDigit then
    let (base, t) := baseOf s
    some (valueIn base (t.takeWhile fun b => digitValue b < base),
      t.dropWhile fun b => digitValue b < base)
  else none

/-- The last number of an address fills the bytes that are left. -/
def complete (acc : List UInt8) (n : ℕ) (rest : List UInt8) : Option Ipv4 :=
  if rest.head?.all isSpace then
    match acc with
    | [] => if n ≤ 0xFFFFFFFF then
        some ⟨.ofNat (n / 16777216), .ofNat (n / 65536), .ofNat (n / 256), .ofNat n⟩ else none
    | [a] => if n ≤ 0xFFFFFF then
        some ⟨a, .ofNat (n / 65536), .ofNat (n / 256), .ofNat n⟩ else none
    | [a, b] => if n ≤ 0xFFFF then some ⟨a, b, .ofNat (n / 256), .ofNat n⟩ else none
    | [a, b, c] => if n ≤ 0xFF then some ⟨a, b, c, .ofNat n⟩ else none
    | _ => none
  else none

/-- The numbers of an address, when so many points may still come. -/
def inetParts : ℕ → List UInt8 → List UInt8 → Option Ipv4
  | 0, acc, s => (number s).bind fun r => complete acc r.1 r.2
  | points + 1, acc, s =>
    (number s).bind fun r =>
      match r.2 with
      | 0x2E :: t => if r.1 ≤ 0xFF then inetParts points (acc ++ [.ofNat r.1]) t else none
      | rest => complete acc r.1 rest

def inetAddr (s : List UInt8) : Ipv4 := (inetParts 3 [] s).getD inaddrNone

@[simp] theorem isDigit_digit {k : ℕ} (hk : k < 10) : isDigit (digit k) = true := by
  interval_cases k <;> decide

@[simp] theorem digitValue_digit {k : ℕ} (hk : k < 10) : digitValue (digit k) = k := by
  interval_cases k <;> decide

theorem digit_ne_zero {k : ℕ} (hk : k < 10) (h : k ≠ 0) : digit k ≠ 0x30 := by
  interval_cases k
  · contradiction
  all_goals decide

theorem byteText_value (n : UInt8) :
    ((byteText n).head?.any isDigit = true ∧ valueIn 10 (byteText n) = n.toNat) ∧
      (∀ d ∈ byteText n, digitValue d < 10) ∧
      (byteText n = [0x30] ∨ (byteText n).head? ≠ some 0x30) := by
  have hn := n.toNat_lt
  have hones : n.toNat % 10 < 10 := by omega
  simp only [byteText, UInt8.lt_iff_toNat_lt, UInt8.reduceToNat]
  split_ifs with h1 h2
  · refine ⟨by simp [valueIn, h1], by simp [h1], ?_⟩
    by_cases h0 : n.toNat = 0
    · exact .inl (by rw [h0]; rfl)
    · exact .inr (by simpa using digit_ne_zero h1 h0)
  · have htens : n.toNat / 10 < 10 := by omega
    have hvalue : 10 * (n.toNat / 10) + n.toNat % 10 = n.toNat := by omega
    refine ⟨by simp [valueIn, htens, hones, hvalue], by simp [htens, hones], .inr ?_⟩
    simpa using digit_ne_zero htens (by omega)
  · have hhundreds : n.toNat / 100 < 10 := by omega
    have htens : n.toNat / 10 % 10 < 10 := by omega
    have hvalue : 10 * (10 * (n.toNat / 100) + n.toNat / 10 % 10) + n.toNat % 10 = n.toNat := by
      omega
    refine ⟨by simp [valueIn, hhundreds, htens, hones, hvalue],
      by simp [hhundreds, htens, hones], .inr ?_⟩
    simpa using digit_ne_zero hhundreds (by omega)

theorem takeWhile_digits {p : UInt8 → Bool} {xs rest : List UInt8} (hx : ∀ d ∈ xs, p d = true)
    (hr : rest.head?.any p = false) :
    (xs ++ rest).takeWhile p = xs ∧ (xs ++ rest).dropWhile p = rest := by
  rw [List.takeWhile_append_of_pos hx, List.dropWhile_append_of_pos hx]
  cases rest with
  | nil => simp
  | cons b t =>
    have hb : p b = false := by simpa using hr
    simp [hb]

theorem number_byteText (n : UInt8) {rest : List UInt8}
    (hr : rest = [] ∨ ∃ t, rest = 0x2E :: t) :
    number (byteText n ++ rest) = some (n.toNat, rest) := by
  obtain ⟨⟨hhead, hvalue⟩, hdigits, hzero⟩ := byteText_value n
  have hpoint : ∀ base ≤ 16, rest.head?.any (fun b => decide (digitValue b < base)) = false := by
    intro base hb
    obtain rfl | ⟨t, rfl⟩ := hr
    · rfl
    · have hv : digitValue 0x2E = 16 := by decide
      simp [hv, hb]
  have hany : (byteText n ++ rest).head?.any isDigit = true := by
    cases hs : byteText n with
    | nil => simp [hs] at hhead
    | cons d t => simpa [hs] using hhead
  unfold number
  rw [if_pos hany]
  obtain h0 | h0 := hzero
  · -- a zero is an octal number
    have hbase : baseOf (byteText n ++ rest) = (8, byteText n ++ rest) := by
      rw [h0]
      obtain rfl | ⟨t, rfl⟩ := hr
      · rfl
      · cases t with
        | nil => rfl
        | cons d t => simp [baseOf]
    have hoctal : ∀ d ∈ byteText n, decide (digitValue d < 8) = true := by
      rw [h0]
      simp only [List.mem_singleton, forall_eq]
      decide
    have htake := takeWhile_digits hoctal (hpoint 8 (by omega))
    have hn : n.toNat = 0 := by rw [← hvalue, h0]; decide
    simp only [hbase, htake.1, htake.2, hn]
    rw [h0]
    rfl
  · have hbase : baseOf (byteText n ++ rest) = (10, byteText n ++ rest) := by
      cases hs : byteText n with
      | nil => simp [hs] at hhead
      | cons d t =>
        have hd : d ≠ 0x30 := by simpa [hs] using h0
        unfold baseOf
        split
        · simp_all
        · simp_all
        · rfl
    have hdecimal : ∀ d ∈ byteText n, decide (digitValue d < 10) = true := by simpa using hdigits
    have htake := takeWhile_digits hdecimal (hpoint 10 (by omega))
    simp only [hbase, htake.1, htake.2, hvalue]

/-- An address survives as a text. -/
theorem inetAddr_inetNtoa (x : Ipv4) : inetAddr (inetNtoa x) = x := by
  have hle : ∀ n : UInt8, n.toNat ≤ 0xFF := fun n => by
    have := n.toNat_lt
    omega
  have hlast := number_byteText x.d (.inl rfl)
  rw [List.append_nil] at hlast
  have hparts : inetParts 3 [] (inetNtoa x) = some x := by
    simp only [inetNtoa, inetParts, number_byteText _ (.inr ⟨_, rfl⟩), Option.bind_some, hle,
      if_true, hlast]
    simp [complete, hle]
  rw [inetAddr, hparts]
  rfl

end LibComm.DottedQuad

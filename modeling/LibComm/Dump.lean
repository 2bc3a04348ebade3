import Mathlib.Data.Nat.Digits.Defs
import LibComm.ByteMemory

/-!
# The text of a dump

`comm_dump` writes the name of a message, its bytes in hexadecimal, 16 to a
line, and their number. `undump` is the reader for which that text is meant:
it gets the names and the bytes of all messages back, because no line of bytes
can be taken for the line with their number.
-/

namespace LibComm.Dump
open ByteMemory

def newline : UInt8 := 0x0A
def space : UInt8 := 0x20

def tag : List UInt8 := [0x5B, 0x44, 0x55, 0x4D, 0x50, 0x5D]  -- "[DUMP]"

def nullLine : List UInt8 := [0x20, 0x4E, 0x55, 0x4C, 0x4C]  -- " NULL"

def unit : List UInt8 := [0x20, 0x62, 0x79, 0x74, 0x65, 0x73]  -- " bytes"

def hexDigit (n : ℕ) : UInt8 := if n < 10 then .ofNat (0x30 + n) else .ofNat (0x37 + n)

def hex (b : UInt8) : List UInt8 := [hexDigit (b.toNat / 16), hexDigit (b.toNat % 16)]

def decimal (n : ℕ) : List UInt8 :=
  if n = 0 then [0x30] else (Nat.digits 10 n).reverse.map fun d => .ofNat (0x30 + d)

def loop : ℕ → List UInt8 → List UInt8
  | _, [] => []
  | i, b :: bs =>
    (if i ≠ 0 ∧ i % 16 = 0 then [newline] else []) ++ space :: (hex b ++ loop (i + 1) bs)

structure Args where
  pName : List UInt8
  pAddr : Option (ℕ → UInt8)
  size : UInt32

def commDump (a : Args) : List UInt8 :=
  tag ++ space :: (a.pName ++ newline ::
    ((match a.pAddr with
      | none => nullLine ++ [newline]
      | some m =>
        loop 0 (load m 0 a.size.toNat) ++
          newline :: (space :: (decimal a.size.toNat ++ unit) ++ [newline])) ++
      (tag ++ [newline, newline])))

structure Message where
  name : List UInt8
  data : Option (List UInt8)
  deriving DecidableEq

def Args.message (a : Args) : Message := ⟨a.pName, a.pAddr.map fun m => load m 0 a.size.toNat⟩

def lines : List UInt8 → List (List UInt8)
  | [] => [[]]
  | b :: bs =>
    if b = newline then [] :: lines bs
    else (b :: (lines bs).headD []) :: (lines bs).tail

def hexValue (b : UInt8) : Option ℕ :=
  if 0x30 ≤ b ∧ b ≤ 0x39 then some (b.toNat - 0x30)
  else if 0x41 ≤ b ∧ b ≤ 0x46 then some (b.toNat - 0x37)
  else none

def row : List UInt8 → Option (List UInt8)
  | [] => some []
  | s :: x :: y :: t =>
    if s = space then
      (hexValue x).bind fun m => (hexValue y).bind fun n => (row t).map (.ofNat (16 * m + n) :: ·)
    else none
  | _ => none

inductive Reading where
  | outside
  | inside (name data : List UInt8)
  | closing (m : Message)
  | blank (m : Message)

def read : Reading → List (List UInt8) → Option (List Message)
  | _, [] => none
  | .outside, l :: ls =>
    if l = [] ∧ ls = [] then some []
    else if l.take 7 = tag ++ [space] then read (.inside (l.drop 7) []) ls
    else none
  | .inside name data, l :: ls =>
    match row l with
    | some bs => read (.inside name (data ++ bs)) ls
    | none => read (.closing ⟨name, if l = nullLine then none else some data⟩) ls
  | .closing m, l :: ls => if l = tag then read (.blank m) ls else none
  | .blank m, l :: ls => if l = [] then (read .outside ls).map (m :: ·) else none

def undump (text : List UInt8) : Option (List Message) := read .outside (lines text)

theorem lines_append {xs : List UInt8} (h : newline ∉ xs) (ys : List UInt8) :
    lines (xs ++ newline :: ys) = xs :: lines ys := by
  induction xs with
  | nil => simp [lines]
  | cons x xs ih =>
    obtain ⟨hx, hxs⟩ := not_or.mp (mt List.mem_cons.mpr h)
    rw [List.cons_append, lines, if_neg (Ne.symm hx), ih hxs]
    rfl

theorem hex_read (b : UInt8) :
    ∃ x y m n, hex b = [x, y] ∧ hexValue x = some m ∧ hexValue y = some n ∧
      UInt8.ofNat (16 * m + n) = b ∧ newline ∉ hex b := by
  have hall : ∀ b < 256, (hexValue (hexDigit (b / 16)) = some (b / 16) ∧
      hexValue (hexDigit (b % 16)) = some (b % 16)) ∧
      newline ∉ [hexDigit (b / 16), hexDigit (b % 16)] := by
    decide +kernel
  obtain ⟨⟨hx, hy⟩, hn⟩ := hall b.toNat b.toNat_lt
  refine ⟨_, _, _, _, rfl, hx, hy, ?_, hn⟩
  rw [Nat.div_add_mod]
  exact UInt8.ofNat_toNat

theorem row_append {pre : List UInt8} {ps : List UInt8} (h : row pre = some ps) (b : UInt8) :
    row (pre ++ space :: hex b) = some (ps ++ [b]) := by
  induction pre using row.induct generalizing ps with
  | case1 =>
    obtain rfl := Option.some.inj h
    obtain ⟨x, y, m, n, hb, hx, hy, hmn, -⟩ := hex_read b
    simp only [List.nil_append, row, hb, if_true, hx, hy, Option.bind_some, Option.map_some, hmn]
  | case2 x y t ih =>
    simp only [row, if_true, Option.bind_eq_some_iff, Option.map_eq_some_iff] at h
    obtain ⟨m, hm, n, hn, qs, hq, rfl⟩ := h
    simp [row, hm, hn, ih hq]
  | case3 s x y t hs => simp [row, hs] at h
  | case4 l h1 h2 => simp [row] at h

theorem row_none {l : List UInt8} {c : UInt8} (hc : c ∈ l) (hs : c ≠ space)
    (hx : hexValue c = none) : row l = none := by
  induction l using row.induct with
  | case1 => simp at hc
  | case2 x y t ih =>
    simp only [List.mem_cons, hs, false_or] at hc
    obtain rfl | rfl | hc := hc
    · simp [row, hx]
    · simp [row, hx]
    · simp [row, ih hc]
  | case3 s x y t hs => simp [row, hs]
  | case4 l h1 h2 => simp [row]

theorem newline_row {pre ps : List UInt8} (h : row pre = some ps) : newline ∉ pre := by
  intro hn
  simp [row_none hn (by decide) (by decide)] at h

theorem read_row {l bs name data : List UInt8} {ls : List (List UInt8)} (h : row l = some bs) :
    read (.inside name data) (l :: ls) = read (.inside name (data ++ bs)) ls := by
  rw [read, h]

/-- Behind the beginning `pre` of a line, with the bytes `ps`, the reader takes the bytes that the
loop writes. -/
theorem read_loop (name data : List UInt8) {pre ps : List UInt8} (bs : List UInt8) (i : ℕ)
    (h : row pre = some ps) (rest : List UInt8) :
    read (.inside name data) (lines (pre ++ (loop i bs ++ newline :: rest))) =
      read (.inside name (data ++ (ps ++ bs))) (lines rest) := by
  induction bs generalizing i pre ps data with
  | nil =>
    rw [loop, List.nil_append, lines_append (newline_row h), read_row h, List.append_nil]
  | cons b bs ih =>
    by_cases hi : i ≠ 0 ∧ i % 16 = 0
    · have hb : row ([] ++ space :: hex b) = some ([] ++ [b]) := row_append rfl b
      have hnext := ih (data ++ ps) (i + 1) hb
      rw [loop, if_pos hi]
      simp only [List.cons_append, List.nil_append, List.append_assoc] at hnext ⊢
      rw [lines_append (newline_row h), read_row h, hnext]
    · have hnext := ih data (i + 1) (row_append h b)
      rw [loop, if_neg hi]
      simpa using hnext

theorem read_size {name data : List UInt8} (n : ℕ) (rest : List UInt8) :
    read (.inside name data) (lines (space :: (decimal n ++ unit) ++ newline :: rest)) =
      read (.closing ⟨name, some data⟩) (lines rest) := by
  have hdigits : ∀ d ∈ decimal n, d ≠ newline := by
    have hall : ∀ d < 10, UInt8.ofNat (0x30 + d) ≠ newline := by decide
    intro d hd
    unfold decimal at hd
    split_ifs at hd
    · obtain rfl := List.mem_singleton.mp hd
      decide
    · obtain ⟨x, hx, rfl⟩ := List.mem_map.mp hd
      exact hall x (Nat.digits_lt_base (by omega) (List.mem_reverse.mp hx))
  have hline : newline ∉ space :: (decimal n ++ unit) := by
    intro hn
    simp only [List.mem_cons, List.mem_append] at hn
    obtain hn | hn | hn := hn
    · exact absurd hn (by decide)
    · exact hdigits _ hn rfl
    · exact absurd hn (by decide)
  have hy : (0x79 : UInt8) ∈ space :: (decimal n ++ unit) := by
    simp [unit]
  have hnull : space :: (decimal n ++ unit) ≠ nullLine := by
    intro he
    rw [he] at hy
    exact absurd hy (by decide)
  rw [lines_append hline, read, row_none hy (by decide) (by decide)]
  simp only [if_neg hnull]

theorem read_message {a : Args} (h : newline ∉ a.pName) (rest : List UInt8) :
    read .outside (lines (commDump a ++ rest)) =
      (read .outside (lines rest)).map (a.message :: ·) := by
  have hname : newline ∉ tag ++ space :: a.pName := by
    simp only [List.mem_append, List.mem_cons, not_or]
    exact ⟨by decide, by decide, h⟩
  have hend : ∀ m : Message, read (.closing m) (lines (tag ++ newline :: newline :: rest)) =
      (read .outside (lines rest)).map (m :: ·) := by
    intro m
    rw [lines_append (by decide), read, if_pos rfl, lines, if_pos rfl, read, if_pos rfl]
  have hopen : ∀ body : List UInt8,
      read .outside (lines (tag ++ space :: a.pName ++ newline :: body)) =
        read (.inside a.pName []) (lines body) := by
    intro body
    rw [lines_append hname, read, if_neg (by simp [tag]), if_pos (by simp [tag])]
    simp [tag]
  unfold commDump Args.message
  cases hp : a.pAddr with
  | none =>
    have hb := hopen (nullLine ++ newline :: (tag ++ newline :: newline :: rest))
    simp only [List.append_assoc, List.cons_append, List.nil_append] at hb ⊢
    rw [hb, lines_append (by decide), read]
    simp only [show row nullLine = none by decide, if_true]
    exact hend _
  | some m =>
    have hb := hopen (loop 0 (load m 0 a.size.toNat) ++ newline ::
      (space :: (decimal a.size.toNat ++ unit) ++ newline :: (tag ++ newline :: newline :: rest)))
    have hl := read_loop a.pName [] (load m 0 a.size.toNat) 0
      (show row [] = some [] from rfl)
      (space :: (decimal a.size.toNat ++ unit) ++ newline :: (tag ++ newline :: newline :: rest))
    rw [List.nil_append, read_size, hend] at hl
    rw [hl] at hb
    simpa using hb

/-- Whatever has been dumped, one message after the other, is got back from the text. -/
theorem undump_commDump {as : List Args} (h : ∀ a ∈ as, newline ∉ a.pName) :
    undump (as.flatMap commDump) = some (as.map Args.message) := by
  unfold undump
  induction as with
  | nil => rfl
  | cons a as ih =>
    rw [List.flatMap_cons, read_message (h a List.mem_cons_self),
      ih fun x hx => h x (List.mem_cons_of_mem a hx)]
    rfl

def sample : List Args := [⟨[0x61], none, 3⟩, ⟨[0x62, 0x20], some fun i => .ofNat (i + 9), 17⟩]

theorem undump_commDump_sample :
    undump (sample.flatMap commDump) = some (sample.map Args.message) ∧
      (commDump ⟨[], some fun _ => 0xA5, 1⟩).drop 8 =
        [0x20, 0x41, 0x35, 0x0A, 0x20, 0x31] ++ unit ++ 0x0A :: (tag ++ [0x0A, 0x0A]) :=
  ⟨undump_commDump (by decide), by decide +kernel⟩

end LibComm.Dump

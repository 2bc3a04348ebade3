import Mathlib.Data.List.DropRight
import LibComm.ByteMemory
import LibComm.ConfigText

/-!
# Splitting the path of a pipe

`decomposePathName` splits the text of a PIPE at its last slash into the two
arrays of a mapping record. It is modelled by the bytes it writes, in order,
each with the array and the index that the code names, so that a write outside
its array can be seen; `run` is what the writes do to the record. The copy
loops are bounded by the text alone.
-/

namespace LibComm.PipePath
open ByteMemory CBuffer ConfigText

inductive Field where
  | pipePath
  | pipeName
  | descript
  deriving DecidableEq

def Field.offset : Field → ℕ
  | .pipePath => 0
  | .pipeName => 160
  | .descript => 240

def Field.size : Field → ℕ
  | .pipePath => 160
  | .pipeName => 80
  | .descript => 80

structure Write where
  field : Field
  index : ℕ
  byte : UInt8

def writes (f : Field) : ℕ → List UInt8 → List Write
  | _, [] => []
  | i, b :: bs => ⟨f, i, b⟩ :: writes f (i + 1) bs

def run (m : ℕ → UInt8) (ws : List Write) : ℕ → UInt8 :=
  ws.foldl (fun m w => store m (w.field.offset + w.index) [w.byte]) m

/-- Every byte is written inside the array that it is meant for. -/
def InBounds (ws : List Write) : Prop := ∀ w ∈ ws, w.index < w.field.size

/-- Every byte is written before the end of a record of which `n` bytes stand from `pipePath` on. -/
def Within (n : ℕ) (ws : List Write) : Prop := ∀ w ∈ ws, w.field.offset + w.index < n

instance (n : ℕ) (ws : List Write) : Decidable (Within n ws) :=
  inferInstanceAs (Decidable (∀ w ∈ ws, w.field.offset + w.index < n))

def Ends (m : ℕ → UInt8) (f : Field) : Prop := ∃ i < f.size, m (f.offset + i) = 0

def strncpy (f : Field) (s : List UInt8) (n : ℕ) : List Write :=
  writes f 0 ((s ++ List.replicate n 0).take n)

/-- A working directory that `getcwd( pPath, 159 )` has room for. -/
structure Cwd where
  path : CString
  fits : path.bytes.length < 159

def copyLoop (buf : List UInt8) (pIn : ℕ) : ℕ → ℕ → ℤ → List Write × ℤ
  | 0, _, target => ([], target)
  | fuel + 1, i, target =>
    if i < strlen buf pIn then
      let c := peek buf (pIn + i)
      let r := copyLoop buf pIn fuel (i + 1) (if c = 0x2F then i else target)
      (⟨.pipePath, i, c⟩ :: r.1, r.2)
    else ([], target)

def nameLoop (buf : List UInt8) (pIn : ℕ) : ℕ → ℕ → ℕ → List Write × ℕ
  | 0, i, _ => ([], i)
  | fuel + 1, i, j =>
    if j < strlen buf pIn then
      let r := nameLoop buf pIn fuel (i + 1) (j + 1)
      (⟨.pipeName, i, peek buf (pIn + j)⟩ :: r.1, r.2)
    else ([], i)

def decomposePathName (getcwd : Option Cwd) (buf : List UInt8) (pIn : ℕ) : List Write :=
  let (ws, target) := copyLoop buf pIn buf.length 0 (-1)
  if 0 ≤ target then
    let (ns, i) := nameLoop buf pIn buf.length 0 (target.toNat + 1)
    ws ++ [⟨.pipePath, target.toNat, 0⟩] ++ ns ++ [⟨.pipeName, i, 0⟩]
  else
    ws ++ getcwd.elim [] (fun c => writes .pipePath 0 (c.path.bytes ++ [0])) ++
      strncpy .pipeName (cstr buf pIn) 79

/-- A text of a record; `%s` reads on to the next zero byte. -/
def text (m : ℕ → UInt8) (f : Field) : List UInt8 := cstr (load m f.offset (320 - f.offset)) 0

def serverPath (pipePath pipeName : List UInt8) : List UInt8 := pipePath ++ 0x2F :: pipeName

def baseName (s : List UInt8) : List UInt8 := s.rtakeWhile (· != 0x2F)

def dirName (s : List UInt8) : List UInt8 := (s.rdropWhile (· != 0x2F)).dropLast

section Writes

variable {m : ℕ → UInt8} {ws ws' : List Write} {f : Field}

theorem run_append (m : ℕ → UInt8) (ws ws' : List Write) : run m (ws ++ ws') = run (run m ws) ws' :=
  List.foldl_append ..

theorem run_writes (m : ℕ → UInt8) (f : Field) (i : ℕ) (bs : List UInt8) :
    run m (writes f i bs) = store m (f.offset + i) bs := by
  induction bs generalizing m i with
  | nil =>
    funext k
    by_cases h : f.offset + i ≤ k <;> simp [writes, run, store, h]
  | cons b bs ih =>
    have hrec := ih (store m (f.offset + i) [b]) (i + 1)
    simp only [writes, run, List.foldl_cons] at hrec ⊢
    rw [hrec, ← Nat.add_assoc, store_cons]

theorem writes_append (f : Field) (i : ℕ) (bs bs' : List UInt8) :
    writes f i (bs ++ bs') = writes f i bs ++ writes f (i + bs.length) bs' := by
  induction bs generalizing i with
  | nil => rfl
  | cons b bs ih =>
    have hlen : i + 1 + bs.length = i + (bs.length + 1) := by omega
    simp only [List.cons_append, writes, ih, List.length_cons, hlen]

theorem inBounds_append : InBounds (ws ++ ws') ↔ InBounds ws ∧ InBounds ws' := by
  simp [InBounds, or_imp, forall_and]

theorem field_of_mem_writes {w : Write} {i : ℕ} {bs : List UInt8} (h : w ∈ writes f i bs) :
    w.field = f := by
  induction bs generalizing i with
  | nil => simp [writes] at h
  | cons b bs ih =>
    rw [writes, List.mem_cons] at h
    obtain rfl | h := h
    · rfl
    · exact ih h

theorem writes_index_lt {n i : ℕ} {bs : List UInt8} (hne : bs ≠ []) :
    (∀ w ∈ writes f i bs, w.index < n) ↔ i + bs.length ≤ n := by
  induction bs generalizing i with
  | nil => exact absurd rfl hne
  | cons b bs ih =>
    rw [writes, List.forall_mem_cons]
    cases bs with
    | nil =>
      simp only [writes, List.not_mem_nil, false_imp_iff, implies_true, and_true,
        List.length_singleton]
      omega
    | cons c cs =>
      rw [ih (by simp)]
      simp only [List.length_cons]
      omega

theorem inBounds_writes {i : ℕ} {bs : List UInt8} (hne : bs ≠ []) :
    InBounds (writes f i bs) ↔ i + bs.length ≤ f.size := by
  rw [← writes_index_lt (f := f) hne]
  refine forall₂_congr fun w hw => ?_
  rw [field_of_mem_writes hw]

theorem within_append {n : ℕ} : Within n (ws ++ ws') ↔ Within n ws ∧ Within n ws' := by
  simp [Within, or_imp, forall_and]

theorem within_writes {n i : ℕ} {bs : List UInt8} (hne : bs ≠ []) :
    Within n (writes f i bs) ↔ f.offset + (i + bs.length) ≤ n := by
  have hpos := List.length_pos_iff.mpr hne
  have hlt : Within n (writes f i bs) ↔ ∀ w ∈ writes f i bs, w.index < n - f.offset := by
    refine forall₂_congr fun w hw => ?_
    rw [field_of_mem_writes hw]
    omega
  rw [hlt, writes_index_lt hne]
  omega

end Writes

section Loops

variable {buf : List UInt8} {p : ℕ}

def lastSlash : ℤ → ℕ → List UInt8 → ℤ
  | target, _, [] => target
  | target, i, c :: cs => lastSlash (if c = 0x2F then i else target) (i + 1) cs

theorem lastSlash_append (target : ℤ) (i : ℕ) (xs ys : List UInt8) :
    lastSlash target i (xs ++ ys) = lastSlash (lastSlash target i xs) (i + xs.length) ys := by
  induction xs generalizing target i with
  | nil => rfl
  | cons x xs ih =>
    have hlen : i + 1 + xs.length = i + (xs.length + 1) := by omega
    simp only [List.cons_append, lastSlash, ih, List.length_cons, hlen]

theorem lastSlash_of_notMem (target : ℤ) (i : ℕ) {xs : List UInt8} (h : 0x2F ∉ xs) :
    lastSlash target i xs = target := by
  induction xs generalizing i with
  | nil => rfl
  | cons x xs ih =>
    rw [List.mem_cons, not_or] at h
    simp only [lastSlash, if_neg (Ne.symm h.1), ih (i + 1) h.2]

theorem copyLoop_eq (buf : List UInt8) (p fuel i : ℕ) (target : ℤ)
    (hf : strlen buf p ≤ i + fuel) :
    copyLoop buf p fuel i target =
      (writes .pipePath i ((cstr buf p).drop i), lastSlash target i ((cstr buf p).drop i)) := by
  induction fuel generalizing i target with
  | zero =>
    have hnil : (cstr buf p).drop i = [] := List.drop_eq_nil_of_le hf
    simp [copyLoop, hnil, writes, lastSlash]
  | succ fuel ih =>
    by_cases hlt : i < strlen buf p
    · have hcons := drop_cstr hlt
      have hrec := ih (i + 1) (if peek buf (p + i) = 0x2F then i else target) (by omega)
      simp only [copyLoop, hlt, if_true, hrec]
      rw [hcons]
      rfl
    · have hnil : (cstr buf p).drop i = [] := List.drop_eq_nil_of_le (not_lt.mp hlt)
      simp [copyLoop, hlt, hnil, writes, lastSlash]

theorem nameLoop_eq (buf : List UInt8) (p fuel i j : ℕ) (hf : strlen buf p ≤ j + fuel) :
    nameLoop buf p fuel i j =
      (writes .pipeName i ((cstr buf p).drop j), i + ((cstr buf p).drop j).length) := by
  induction fuel generalizing i j with
  | zero =>
    have hnil : (cstr buf p).drop j = [] := List.drop_eq_nil_of_le hf
    simp [nameLoop, hnil, writes]
  | succ fuel ih =>
    by_cases hlt : j < strlen buf p
    · have hcons := drop_cstr hlt
      have hrec := ih (i + 1) (j + 1) (by omega)
      have hlen : i + 1 + ((cstr buf p).drop (j + 1)).length =
          i + (((cstr buf p).drop (j + 1)).length + 1) := by omega
      simp only [nameLoop, hlt, if_true, hrec, hlen]
      rw [hcons]
      rfl
    · have hnil : (cstr buf p).drop j = [] := List.drop_eq_nil_of_le (not_lt.mp hlt)
      simp [nameLoop, hlt, hnil, writes]

theorem decomposePathName_slash (getcwd : Option Cwd) {d n : List UInt8} (hn : 0x2F ∉ n)
    (hs : cstr buf p = d ++ 0x2F :: n) :
    decomposePathName getcwd buf p =
      writes .pipePath 0 (d ++ 0x2F :: n) ++ [⟨.pipePath, d.length, 0⟩] ++
        writes .pipeName 0 (n ++ [0]) := by
  have hlen := strlen_le buf p
  have htarget : lastSlash (-1) 0 (d ++ 0x2F :: n) = d.length := by
    rw [lastSlash_append, lastSlash, lastSlash_of_notMem _ _ hn]
    simp
  have hname : (d ++ 0x2F :: n).drop (d.length + 1) = n := by
    rw [List.drop_append, List.drop_eq_nil_of_le (by omega)]
    simp
  have hcopy := copyLoop_eq buf p buf.length 0 (-1) (by omega)
  rw [hs, List.drop_zero, htarget] at hcopy
  have hloop := nameLoop_eq buf p buf.length 0 (d.length + 1) (by omega)
  rw [hs, hname, Nat.zero_add] at hloop
  have hpos : (0 : ℤ) ≤ (d.length : ℤ) := by omega
  simp only [decomposePathName, hcopy, hpos, if_true, Int.toNat_natCast, hloop]
  have hzero : writes .pipeName 0 (n ++ [0]) =
      writes .pipeName 0 n ++ [⟨.pipeName, n.length, 0⟩] := by
    rw [writes_append, Nat.zero_add]
    rfl
  rw [hzero, List.append_assoc]

theorem decomposePathName_plain (getcwd : Option Cwd) (hs : 0x2F ∉ cstr buf p) :
    decomposePathName getcwd buf p =
      writes .pipePath 0 (cstr buf p) ++
        getcwd.elim [] (fun c => writes .pipePath 0 (c.path.bytes ++ [0])) ++
        strncpy .pipeName (cstr buf p) 79 := by
  have hlen := strlen_le buf p
  have hcopy := copyLoop_eq buf p buf.length 0 (-1) (by omega)
  rw [List.drop_zero, lastSlash_of_notMem _ _ hs] at hcopy
  have hneg : ¬ (0 : ℤ) ≤ -1 := by omega
  simp only [decomposePathName, hcopy, hneg, if_false]

end Loops

section Split

variable {s d n : List UInt8}

theorem baseName_notMem (s : List UInt8) : 0x2F ∉ baseName s := by
  intro h
  have hq := List.mem_rtakeWhile_imp h
  simp at hq

theorem split_slash (h : 0x2F ∈ s) : s = dirName s ++ 0x2F :: baseName s := by
  have happend : s.rdropWhile (· != 0x2F) ++ baseName s = s :=
    List.rdropWhile_append_rtakeWhile ..
  have hne : s.rdropWhile (· != 0x2F) ≠ [] := by
    intro hnil
    rw [hnil, List.nil_append] at happend
    rw [← happend] at h
    exact baseName_notMem s h
  have hlast : (s.rdropWhile (· != 0x2F)).getLast hne = 0x2F := by
    have hq := List.rdropWhile_last_not _ _ hne
    simpa using hq
  have hdir : dirName s ++ [0x2F] = s.rdropWhile (· != 0x2F) := by
    have hdropLast := List.dropLast_append_getLast hne
    rw [hlast] at hdropLast
    exact hdropLast
  calc
    s = s.rdropWhile (· != 0x2F) ++ baseName s := happend.symm
    _ = dirName s ++ [0x2F] ++ baseName s := by rw [hdir]
    _ = dirName s ++ 0x2F :: baseName s := by simp

end Split

section Record

variable {m : ℕ → UInt8} {f : Field} {s d n : List UInt8}

theorem text_of_holds (hs : ∀ b ∈ s, b ≠ 0) (h : Holds m f.offset (s ++ [0]))
    (hlen : f.offset + s.length < 320) : text m f = s := by
  have hload : (load m f.offset (320 - f.offset)).take (s ++ [0]).length = s ++ [0] := by
    rw [load_take _ _ (by simp; omega)]
    exact load_eq_iff.mpr h
  have happend : load m f.offset (320 - f.offset) =
      s ++ 0 :: (load m f.offset (320 - f.offset)).drop (s ++ [0]).length := by
    calc
      _ = (load m f.offset (320 - f.offset)).take (s ++ [0]).length ++
          (load m f.offset (320 - f.offset)).drop (s ++ [0]).length :=
        (List.take_append_drop _ _).symm
      _ = _ := by rw [hload, List.append_assoc, List.singleton_append]
  rw [text, happend]
  exact cstr_of_append hs

theorem run_slash (m : ℕ → UInt8) (hd : d.length < 160) (n : List UInt8) :
    let m' := run m (writes .pipePath 0 (d ++ 0x2F :: n) ++ [⟨.pipePath, d.length, 0⟩] ++
      writes .pipeName 0 (n ++ [0]))
    Holds m' 0 (d ++ [0]) ∧ Holds m' 160 (n ++ [0]) ∧
      ∀ i, 160 + (n.length + 1) ≤ i → d.length + (n.length + 1) ≤ i → m' i = m i := by
  have hrun : run m (writes .pipePath 0 (d ++ 0x2F :: n) ++ [⟨.pipePath, d.length, 0⟩] ++
      writes .pipeName 0 (n ++ [0])) =
      store (store (store m 0 (d ++ 0x2F :: n)) d.length [0]) 160 (n ++ [0]) := by
    rw [run_append, run_append, run_writes, run_writes]
    simp [run, Field.offset]
  simp only [hrun]
  refine ⟨?_, holds_store _ _ _, fun i hi hi' => ?_⟩
  · rw [holds_store_of_disjoint (by simp; omega), holds_append, holds_store_of_disjoint (by simp)]
    have hall := holds_store m 0 (d ++ 0x2F :: n)
    rw [holds_append] at hall
    refine ⟨hall.1, ?_⟩
    rw [Nat.zero_add]
    exact holds_store _ _ _
  · rw [store_of_ge (by simpa using hi), store_of_ge (by simp; omega), store_of_ge (by simp; omega)]

end Record

/-- A path in the text of a PIPE is split without a write outside the arrays, and `"%s/%s"` puts it
together again. -/
theorem pipe_round_trip (getcwd : Option Cwd) {p s q rest : List UInt8}
    (hp : ∀ b ∈ p, isBlank b = true) (hs : Plain s) (hslash : 0x2F ∈ s)
    (hq : ∀ b ∈ q.head?, isBreak b = true) (hq0 : ∀ b ∈ q, b ≠ 0) (hlen : s.length ≤ 160)
    (hname : (baseName s).length ≤ 79) :
    let r := removeSpace (p ++ s ++ q ++ 0 :: rest) 0
    let ws := decomposePathName getcwd r.1 r.2
    let m := run (fun _ => 0) ws
    InBounds ws ∧ 0x2F ∉ text m .pipeName ∧
      serverPath (text m .pipePath) (text m .pipeName) = s := by
  intro r ws m
  have hsplit := split_slash hslash
  have hnm := baseName_notMem s
  generalize hd : dirName s = d at hsplit
  generalize hn : baseName s = n at hsplit hnm hname
  have hcut : (q.takeWhile fun b => !isBreak b) = [] := by
    cases q with
    | nil => rfl
    | cons b q => simp [hq b rfl]
  have hcstr : cstr r.1 r.2 = d ++ 0x2F :: n := by
    have hnz : ∀ b ∈ p ++ s ++ q, b ≠ 0 := nonzero_padded hp hs hq0
    rw [removeSpace_cstr, cstr_of_append hnz, trimmed_padded hp hs (List.ne_nil_of_mem hslash),
      hcut, List.append_nil, ← hsplit]
  have hws : ws = writes .pipePath 0 (d ++ 0x2F :: n) ++ [⟨.pipePath, d.length, 0⟩] ++
      writes .pipeName 0 (n ++ [0]) := decomposePathName_slash getcwd hnm hcstr
  have hlen' : d.length + (n.length + 1) ≤ 160 := by
    rw [hsplit] at hlen
    simpa using hlen
  have hmem : ∀ b ∈ d ++ 0x2F :: n, b ≠ 0 := hsplit ▸ hs.nonzero
  have hrun := run_slash (fun _ => 0) (d := d) (by omega) n
  rw [← hws] at hrun
  obtain ⟨hpath, hpipe, -⟩ := hrun
  have hpathText : text m .pipePath = d :=
    text_of_holds (fun b hb => hmem b (by simp [hb])) hpath (by simp only [Field.offset]; omega)
  have hnameText : text m .pipeName = n :=
    text_of_holds (fun b hb => hmem b (by simp [hb])) hpipe (by simp only [Field.offset]; omega)
  refine ⟨?_, ?_, ?_⟩
  · rw [hws, inBounds_append, inBounds_append, inBounds_writes (by simp), inBounds_writes (by simp)]
    refine ⟨⟨by simpa [Field.size] using hlen', ?_⟩, by simp [Field.size]; omega⟩
    intro w hw
    rw [List.mem_singleton.mp hw]
    simp only [Field.size]
    omega
  · rw [hnameText]
    exact hnm
  · rw [hpathText, hnameText, serverPath, ← hsplit]

theorem pipe_round_trip_padded :
    let r := removeSpace ([0x0A, 0x20] ++ [0x2F, 0x61, 0x2F] ++ [0x0A] ++ 0 :: []) 0
    let ws := decomposePathName none r.1 r.2
    let m := run (fun _ => 0) ws
    InBounds ws ∧ 0x2F ∉ text m .pipeName ∧
      serverPath (text m .pipePath) (text m .pipeName) = [0x2F, 0x61, 0x2F] :=
  pipe_round_trip none (by simp [isBlank, isBreak]) ⟨by simp [isBreak], by simp, by simp⟩ (by simp)
    (by simp [isBreak]) (by simp) (by simp) (by decide)

section Bounds

variable {s d n : List UInt8}

theorem inBounds_slash (d n : List UInt8) :
    InBounds (writes .pipePath 0 (d ++ 0x2F :: n) ++ [⟨.pipePath, d.length, 0⟩] ++
      writes .pipeName 0 (n ++ [0])) ↔ (d ++ 0x2F :: n).length ≤ 160 ∧ n.length ≤ 79 := by
  rw [inBounds_append, inBounds_append, inBounds_writes (by simp), inBounds_writes (by simp)]
  constructor
  · intro h
    obtain ⟨⟨hpath, -⟩, hname⟩ := h
    simp only [Field.size, Nat.zero_add, List.length_append, List.length_singleton] at hpath hname ⊢
    exact ⟨hpath, by omega⟩
  · intro h
    simp only [Field.size, Nat.zero_add, List.length_append, List.length_cons,
      List.length_nil] at h ⊢
    refine ⟨⟨h.1, ?_⟩, by omega⟩
    intro w hw
    rw [List.mem_singleton.mp hw]
    simp only [Field.size]
    omega

theorem strncpy_ne_nil (s : List UInt8) : (s ++ List.replicate 79 0).take 79 ≠ [] := by
  intro h
  have hlen := congrArg List.length h
  simp at hlen

theorem inBounds_plain (getcwd : Option Cwd) (s : List UInt8) :
    InBounds (writes .pipePath 0 s ++
      getcwd.elim [] (fun c => writes .pipePath 0 (c.path.bytes ++ [0])) ++
        strncpy .pipeName s 79) ↔ s.length ≤ 160 := by
  have hname : InBounds (strncpy .pipeName s 79) := by
    rw [strncpy, inBounds_writes (strncpy_ne_nil s)]
    simp [Field.size]
  have hcwd : InBounds (getcwd.elim [] fun c => writes .pipePath 0 (c.path.bytes ++ [0])) := by
    cases getcwd with
    | none => simp [InBounds]
    | some c =>
      have hfits := c.fits
      rw [Option.elim_some, inBounds_writes (by simp)]
      simp only [Field.size, List.length_append, List.length_singleton]
      omega
  rw [inBounds_append, inBounds_append]
  cases s with
  | nil =>
    have hnil : InBounds (writes .pipePath 0 []) := by simp [writes, InBounds]
    simp [hname, hcwd, hnil]
  | cons b s =>
    rw [inBounds_writes (by simp)]
    simp only [hname, hcwd, and_true, Nat.zero_add]
    rfl

theorem within_strncpy {n : ℕ} (hn : 320 ≤ n) (f : Field) (s : List UInt8) :
    Within n (strncpy f s 79) := by
  rw [strncpy, within_writes (strncpy_ne_nil s)]
  have hlen : ((s ++ List.replicate 79 0).take 79).length = 79 := by simp
  rw [hlen]
  cases f <;> simp only [Field.offset] <;> omega

/-- The writes for the text of a PIPE stay inside the record exactly if the text does, from the
first array on, and its last component does with a zero byte, from the second. -/
theorem within_decompose (getcwd : Option Cwd) {buf : List UInt8} {p m : ℕ} (hm : 320 ≤ m) :
    Within m (decomposePathName getcwd buf p) ↔
      (cstr buf p).length ≤ m ∧
        (0x2F ∈ cstr buf p → 160 + (baseName (cstr buf p)).length < m) := by
  by_cases hslash : 0x2F ∈ cstr buf p
  · have hsplit := split_slash hslash
    have hlen := congrArg List.length hsplit
    simp only [List.length_append, List.length_cons] at hlen
    rw [decomposePathName_slash getcwd (baseName_notMem _) hsplit, within_append, within_append,
      within_writes (by simp), within_writes (by simp)]
    simp only [Within, List.mem_singleton, forall_eq, Field.offset, List.length_append,
      List.length_cons, List.length_nil, hslash, true_imp_iff]
    omega
  · rw [decomposePathName_plain getcwd hslash, within_append, within_append]
    have hcwd : Within m (getcwd.elim [] fun c => writes .pipePath 0 (c.path.bytes ++ [0])) := by
      cases getcwd with
      | none => simp [Within]
      | some c =>
        have hfits := c.fits
        rw [Option.elim_some, within_writes (by simp)]
        simp only [Field.offset, List.length_append, List.length_singleton]
        omega
    have hname := within_strncpy hm .pipeName (cstr buf p)
    simp only [hcwd, hname, hslash, and_true, false_imp_iff]
    cases cstr buf p with
    | nil => simp [writes, Within]
    | cons b s =>
      rw [within_writes (by simp)]
      simp only [Field.offset, Nat.zero_add]

theorem ends_of_holds {m : ℕ → UInt8} {f : Field} (h : Holds m f.offset (s ++ [0]))
    (hlen : s.length < f.size) : Ends m f := by
  rw [holds_append] at h
  exact ⟨s.length, hlen, h.2.1⟩

theorem run_plain (m : ℕ → UInt8) (getcwd : Option Cwd) (s : List UInt8) :
    run m (writes .pipePath 0 s ++
      getcwd.elim [] (fun c => writes .pipePath 0 (c.path.bytes ++ [0])) ++
        strncpy .pipeName s 79) =
      store (getcwd.elim (store m 0 s) fun c => store (store m 0 s) 0 (c.path.bytes ++ [0])) 160
        ((s ++ List.replicate 79 0).take 79) := by
  rw [run_append, run_append, run_writes, strncpy, run_writes]
  cases getcwd with
  | none => rfl
  | some c =>
    simp only [Option.elim_some]
    rw [run_writes]
    rfl

theorem ends_plain (getcwd : Option Cwd) (hs : ∀ b ∈ s, b ≠ 0) (hlen : s.length ≤ 160) :
    let m := run (fun _ => 0) (writes .pipePath 0 s ++
      getcwd.elim [] (fun c => writes .pipePath 0 (c.path.bytes ++ [0])) ++
        strncpy .pipeName s 79)
    Ends m .pipeName ∧ (Ends m .pipePath ↔ (getcwd = none → s.length ≤ 159)) := by
  simp only [run_plain]
  have hfirst : ∀ m : ℕ → UInt8, ∀ i < 160,
      store m 160 ((s ++ List.replicate 79 0).take 79) i = m i := fun m i hi => store_of_lt hi
  constructor
  · refine ⟨79, by decide, ?_⟩
    simp only [Field.offset]
    rw [store_of_ge (by simp)]
    cases getcwd with
    | none =>
      simp only [Option.elim_none]
      exact store_of_ge (by omega)
    | some c =>
      have hfits := c.fits
      simp only [Option.elim_some]
      rw [store_of_ge (by simp; omega), store_of_ge (by omega)]
  · cases getcwd with
    | none =>
      simp only [Option.elim_none, true_imp_iff]
      constructor
      · intro h
        obtain ⟨i, hi, hz⟩ := h
        simp only [Field.offset, Field.size, Nat.zero_add] at hi hz
        rw [hfirst _ i hi] at hz
        by_contra hlong
        have hlt : i < s.length := by omega
        have hget := (holds_store (fun _ => 0) 0 s).getElem hlt
        rw [Nat.zero_add, hz] at hget
        exact hs _ (List.getElem_mem hlt) hget.symm
      · intro h
        refine ⟨s.length, by simp only [Field.size]; omega, ?_⟩
        simp only [Field.offset, Nat.zero_add]
        rw [hfirst _ s.length (by omega)]
        exact store_of_ge (by omega)
    | some c =>
      have hfits := c.fits
      simp only [Option.elim_some, reduceCtorEq, false_imp_iff, iff_true]
      apply ends_of_holds (s := c.path.bytes)
      · rw [holds_congr fun i _ hi => hfirst _ i ?_]
        · exact holds_store _ _ _
        · simp only [Field.offset, List.length_append, List.length_singleton] at hi
          omega
      · simp only [Field.size]
        omega

end Bounds

/-- The writes stay inside the arrays, and both arrays end with a zero byte, exactly for texts of
at most 160 bytes whose last component has at most 79; without a slash and without a working
directory one byte less. -/
theorem decompose_bounds (getcwd : Option Cwd) {s : List UInt8} (rest : List UInt8)
    (hs : ∀ b ∈ s, b ≠ 0) :
    let ws := decomposePathName getcwd (s ++ 0 :: rest) 0
    let m := run (fun _ => 0) ws
    (InBounds ws ∧ Ends m .pipePath ∧ Ends m .pipeName) ↔
      s.length ≤ 160 ∧
        if 0x2F ∈ s then (baseName s).length ≤ 79 else (getcwd = none → s.length ≤ 159) := by
  intro ws m
  have hcstr : cstr (s ++ 0 :: rest) 0 = s := cstr_of_append hs
  by_cases hslash : 0x2F ∈ s
  · have hsplit := split_slash hslash
    have hws : ws = writes .pipePath 0 (dirName s ++ 0x2F :: baseName s) ++
        [⟨.pipePath, (dirName s).length, 0⟩] ++ writes .pipeName 0 (baseName s ++ [0]) :=
      decomposePathName_slash getcwd (baseName_notMem s) (hcstr.trans hsplit)
    have hbounds := inBounds_slash (dirName s) (baseName s)
    rw [← hws, ← hsplit] at hbounds
    rw [if_pos hslash, ← hbounds]
    refine and_iff_left_of_imp fun hin => ?_
    obtain ⟨hlen, hname⟩ := hbounds.mp hin
    have hlen' : (dirName s).length < 160 := by
      have hlength := congrArg List.length hsplit
      simp only [List.length_append, List.length_cons] at hlength
      omega
    have hrun := run_slash (fun _ => 0) hlen' (baseName s)
    rw [← hws] at hrun
    exact ⟨ends_of_holds hrun.1 hlen', ends_of_holds hrun.2.1 (Nat.lt_succ_of_le hname)⟩
  · have hws : ws = writes .pipePath 0 s ++
        getcwd.elim [] (fun c => writes .pipePath 0 (c.path.bytes ++ [0])) ++
          strncpy .pipeName s 79 := by
      have hplain := decomposePathName_plain getcwd (hcstr.symm ▸ hslash)
      rwa [hcstr] at hplain
    have hbounds := inBounds_plain getcwd s
    rw [← hws] at hbounds
    rw [if_neg hslash, hbounds]
    refine and_congr_right fun hlen => ?_
    have hends := ends_plain getcwd hs hlen
    rw [← hws] at hends
    rw [← hends.2]
    exact and_iff_left hends.1

theorem decompose_bounds_cwd :
    let ws := decomposePathName none ([0x61] ++ 0 :: []) 0
    let m := run (fun _ => 0) ws
    (InBounds ws ∧ Ends m .pipePath ∧ Ends m .pipeName) ↔
      ([0x61] : List UInt8).length ≤ 160 ∧
        if 0x2F ∈ ([0x61] : List UInt8) then (baseName [0x61]).length ≤ 79
        else ((none : Option Cwd) = none → ([0x61] : List UInt8).length ≤ 159) :=
  decompose_bounds none [] (by simp)

/-- A path of 161 bytes is written one byte beyond its array. -/
theorem decompose_bounds_fails : ¬ ∀ (getcwd : Option Cwd) (s rest : List UInt8),
    (∀ b ∈ s, b ≠ 0) →
      let ws := decomposePathName getcwd (s ++ 0 :: rest) 0
      let m := run (fun _ => 0) ws
      InBounds ws ∧ Ends m .pipePath ∧ Ends m .pipeName := by
  intro hclaim
  have hs : ∀ b ∈ List.replicate 160 (0x61 : UInt8) ++ 0x2F :: [], b ≠ 0 := by simp
  have hin := (hclaim none (List.replicate 160 0x61 ++ 0x2F :: []) [] hs).1
  rw [decomposePathName_slash none (n := []) (by simp) (cstr_of_append hs), inBounds_slash] at hin
  simp at hin

end LibComm.PipePath

import Mathlib.Data.List.Basic
import LibComm.Daemon
import LibComm.DecimalText
import LibComm.PipePath

/-!
# The mapping table of a configuration file

`parseTagMapping` goes through the children of the root element and makes an
entry of the table for each MAPPING that is enabled, as long as there is room.
The result of `getAttribute` goes to `atoi` unseen and the text of a PIPE into
the record at any length, and `none` stands for a null pointer there and for a
write beyond the record.
-/

namespace LibComm.ConfigTable
open ByteMemory CBuffer ConfigText DecimalText PipePath

/-- An attribute; `children` is the content of its first child. -/
structure Attr where
  name : List UInt8
  children : Option CString

/-- A node with its children; comments and instructions have no content. -/
inductive Node where
  | element (name : List UInt8) (properties : List Attr) (children : List Node)
  | text (content : CString)
  | comment

def TAG_NAME_MAPPING : List UInt8 := [0x4D, 0x41, 0x50, 0x50, 0x49, 0x4E, 0x47]
def TAG_NAME_PORT : List UInt8 := [0x50, 0x4F, 0x52, 0x54]
def TAG_NAME_PIPE : List UInt8 := [0x50, 0x49, 0x50, 0x45]
def TAG_NAME_DESC : List UInt8 := [0x44, 0x45, 0x53, 0x43]
def ATT_NAME_ENABLE : List UInt8 := [0x65, 0x6E, 0x61, 0x62, 0x6C, 0x65]
def MAX_MAPPING_NUM : ℕ := 64

mutual

def Node.content : Node → List UInt8
  | .element _ _ children => contents children
  | .text content => content.bytes
  | .comment => []

def contents : List Node → List UInt8
  | [] => []
  | node :: nodes => node.content ++ contents nodes

end

def getAttribute (properties : List Attr) (pName : List UInt8) : Option CString :=
  (properties.find? fun pAttr => pAttr.name == pName).bind Attr.children

def firstChild (tag : List UInt8) : List Node → Option (List UInt8)
  | [] => none
  | .element name _ children :: nodes =>
    if name = tag then some (contents children) else firstChild tag nodes
  | _ :: nodes => firstChild tag nodes

/-- What the answer of `getcwd` is, and how many bytes of a `tMapping` stand from `pipePath` on: its
three arrays, then `wd`, `pTcpUser` and `index`. -/
structure Host where
  getcwd : Option Cwd
  size : ℕ
  texts_le : 320 ≤ size

/-- A `tMapping`; `texts` is the record from `pipePath` on. -/
structure Mapping where
  tcpServerHandle : ℕ
  ipcStreamHandle : ℕ
  tcpConnect : UInt8
  pipeConnect : UInt8
  tcpPort : UInt16
  texts : ℕ → UInt8
  wd : ℤ
  index : ℕ

def Mapping.zero : Mapping := ⟨0, 0, 0, 0, 0, fun _ => 0, 0, 0⟩

def Mapping.write (h : Host) (m : Mapping) (ws : List Write) : Option Mapping :=
  if Within h.size ws then some { m with texts := run m.texts ws } else none

def parseTagPort (children : List Node) (m : Mapping) : Mapping :=
  match firstChild TAG_NAME_PORT children with
  | some s => { m with tcpPort := UInt16.ofInt (atoi s) }
  | none => m

def parseTagPipe (h : Host) (children : List Node) (m : Mapping) : Option Mapping :=
  match firstChild TAG_NAME_PIPE children with
  | some s =>
    let r := removeSpace (s ++ [0]) 0
    m.write h (decomposePathName h.getcwd r.1 r.2)
  | none => some m

def parseTagDesc (h : Host) (children : List Node) (m : Mapping) : Option Mapping :=
  match firstChild TAG_NAME_DESC children with
  | some s =>
    let r := removeSpace (s ++ [0]) 0
    m.write h (strncpy .descript (cstr r.1 r.2) 79)
  | none => some m

def newMapping (h : Host) (children : List Node) (mappingNum : ℕ) : Option Mapping :=
  ((parseTagPipe h children (parseTagPort children .zero)).bind (parseTagDesc h children)).map
    fun m => { m with wd := -1, index := mappingNum }

structure Table where
  pMapping : ℕ → Option Mapping
  mappingNum : ℕ

def Table.empty : Table := ⟨fun _ => none, 0⟩

def Table.push (t : Table) (m : Mapping) : Table :=
  ⟨Function.update t.pMapping t.mappingNum (some m), t.mappingNum + 1⟩

def parseTagMapping (h : Host) : List Node → Table → Option Table
  | [], t => some t
  | .element name properties children :: nodes, t =>
    if name = TAG_NAME_MAPPING then
      match getAttribute properties ATT_NAME_ENABLE with
      | none => none
      | some s =>
        if atoi s.bytes ≠ 0 ∧ t.mappingNum < MAX_MAPPING_NUM then
          match newMapping h children t.mappingNum with
          | none => none
          | some m => parseTagMapping h nodes (t.push m)
        else parseTagMapping h nodes t
    else parseTagMapping h nodes t
  | _ :: nodes, t => parseTagMapping h nodes t

structure Element where
  properties : List Attr
  children : List Node

def asMapping : Node → Option Element
  | .element name properties children =>
    if name = TAG_NAME_MAPPING then some ⟨properties, children⟩ else none
  | _ => none

def mappings (nodes : List Node) : List Element := nodes.filterMap asMapping

def Element.enable (e : Element) : Option CString := getAttribute e.properties ATT_NAME_ENABLE

def Element.enabled (e : Element) : Bool := e.enable.any fun s => atoi s.bytes != 0

def taken (nodes : List Node) : List Element :=
  ((mappings nodes).filter Element.enabled).take MAX_MAPPING_NUM

def Element.port (e : Element) : Option ℕ := (firstChild TAG_NAME_PORT e.children).bind decimal

def Element.pipe (e : Element) : Option (List UInt8) :=
  (firstChild TAG_NAME_PIPE e.children).map trimmed

/-- The text of the PIPE, if there is one, stays inside the record where it is copied. -/
def Element.fits (n : ℕ) (e : Element) : Bool :=
  e.pipe.all fun s => s.length ≤ n && (!s.contains 0x2F || 160 + (baseName s).length < n)

def Element.desc (e : Element) : Option (List UInt8) :=
  (firstChild TAG_NAME_DESC e.children).map stripped

def Element.pipeWrites (getcwd : Option Cwd) (e : Element) : List Write :=
  (firstChild TAG_NAME_PIPE e.children).elim [] fun s =>
    let r := removeSpace (s ++ [0]) 0
    decomposePathName getcwd r.1 r.2

def Element.descWrites (e : Element) : List Write :=
  (firstChild TAG_NAME_DESC e.children).elim [] fun s =>
    let r := removeSpace (s ++ [0]) 0
    strncpy .descript (cstr r.1 r.2) 79

def Element.entry (getcwd : Option Cwd) (e : Element) (i : ℕ) : Mapping :=
  { parseTagPort e.children .zero with
    texts := run (run (fun _ => 0) (e.pipeWrites getcwd)) e.descWrites
    wd := -1
    index := i }

def Table.add (getcwd : Option Cwd) (t : Table) (es : List Element) : Table where
  pMapping i := if i < t.mappingNum then t.pMapping i else
    es[i - t.mappingNum]?.map fun e => e.entry getcwd i
  mappingNum := t.mappingNum + es.length

section Content

mutual

theorem Node.content_nonzero : (node : Node) → ∀ b ∈ node.content, b ≠ 0
  | .element _ _ children => contents_nonzero children
  | .text content => content.nonzero
  | .comment => by simp [Node.content]

theorem contents_nonzero : (nodes : List Node) → ∀ b ∈ contents nodes, b ≠ 0
  | [] => by simp [contents]
  | node :: nodes => by
    intro b hb
    rw [contents, List.mem_append] at hb
    exact hb.elim (node.content_nonzero b) (contents_nonzero nodes b)

end

theorem firstChild_nonzero {tag s : List UInt8} {nodes : List Node}
    (h : firstChild tag nodes = some s) : ∀ b ∈ s, b ≠ 0 := by
  induction nodes with
  | nil => simp [firstChild] at h
  | cons node nodes ih =>
    cases node with
    | element name properties children =>
      by_cases htag : name = tag
      · rw [firstChild, if_pos htag, Option.some.injEq] at h
        exact h ▸ contents_nonzero children
      · rw [firstChild, if_neg htag] at h
        exact ih h
    | text content => exact ih h
    | comment => exact ih h

theorem removeSpace_content {s : List UInt8} (hs : ∀ b ∈ s, b ≠ 0) :
    cstr (removeSpace (s ++ [0]) 0).1 (removeSpace (s ++ [0]) 0).2 = trimmed s := by
  rw [removeSpace_cstr, cstr_of_append hs]

theorem trimmed_nonzero {s : List UInt8} (hs : ∀ b ∈ s, b ≠ 0) : ∀ b ∈ trimmed s, b ≠ 0 := by
  intro b hb
  have hmem := (List.takeWhile_sublist _).subset hb
  exact hs b ((List.dropWhile_sublist _).subset hmem)

theorem pipeWrites_within (getcwd : Option Cwd) {n : ℕ} (hn : 320 ≤ n) (e : Element) :
    Within n (e.pipeWrites getcwd) ↔ e.fits n = true := by
  cases hs : firstChild TAG_NAME_PIPE e.children with
  | none => simp [Element.pipeWrites, Element.fits, Element.pipe, hs, Within]
  | some s =>
    simp only [Element.pipeWrites, hs, Option.elim_some, within_decompose getcwd hn,
      removeSpace_content (firstChild_nonzero hs)]
    by_cases hslash : 0x2F ∈ trimmed s <;> simp [Element.fits, Element.pipe, hs, hslash]

theorem descWrites_within {n : ℕ} (hn : 320 ≤ n) (e : Element) : Within n e.descWrites := by
  cases hs : firstChild TAG_NAME_DESC e.children with
  | none => simp [Element.descWrites, hs, Within]
  | some s =>
    rw [Element.descWrites, hs]
    exact within_strncpy hn .descript _

theorem parseTagPipe_eq (h : Host) (e : Element) (m : Mapping) :
    parseTagPipe h e.children m = m.write h (e.pipeWrites h.getcwd) := by
  unfold parseTagPipe Element.pipeWrites
  cases firstChild TAG_NAME_PIPE e.children with
  | none => simp [Mapping.write, Within, run]
  | some s => rfl

theorem parseTagDesc_eq (h : Host) (e : Element) (m : Mapping) :
    parseTagDesc h e.children m = m.write h e.descWrites := by
  unfold parseTagDesc Element.descWrites
  cases firstChild TAG_NAME_DESC e.children with
  | none => simp [Mapping.write, Within, run]
  | some s => rfl

theorem parseTagPort_texts (children : List Node) :
    (parseTagPort children .zero).texts = fun _ => 0 := by
  unfold parseTagPort
  split <;> rfl

theorem newMapping_eq (h : Host) (e : Element) (i : ℕ) :
    newMapping h e.children i =
      if e.fits h.size = true then some (e.entry h.getcwd i) else none := by
  have hdesc := descWrites_within h.texts_le e
  simp only [newMapping, parseTagPipe_eq, Mapping.write, pipeWrites_within h.getcwd h.texts_le]
  split_ifs
  · simp [parseTagDesc_eq, Mapping.write, hdesc, Element.entry, parseTagPort_texts]
  · rfl

end Content

section Parse

variable {h : Host} {getcwd : Option Cwd} {t : Table}

theorem mappings_cons (node : Node) (nodes : List Node) :
    mappings (node :: nodes) = (asMapping node).toList ++ mappings nodes := by
  rw [mappings, List.filterMap_cons]
  cases asMapping node <;> rfl

theorem add_cons (getcwd : Option Cwd) (t : Table) (e : Element) (es : List Element) :
    t.add getcwd (e :: es) =
      (t.push (e.entry getcwd t.mappingNum)).add getcwd es := by
  have hlen : t.mappingNum + (es.length + 1) = t.mappingNum + 1 + es.length := by omega
  simp only [Table.add, Table.push, List.length_cons, hlen, Table.mk.injEq, and_true]
  funext i
  by_cases hlt : i < t.mappingNum
  · have hne : i ≠ t.mappingNum := by omega
    have hlt' : i < t.mappingNum + 1 := by omega
    simp [hlt, hlt', hne]
  · by_cases heq : i = t.mappingNum
    · simp [heq]
    · obtain ⟨k, rfl⟩ := Nat.exists_eq_add_of_lt (by omega : t.mappingNum < i)
      have hk : t.mappingNum + k + 1 - t.mappingNum = k + 1 := by omega
      have hk' : t.mappingNum + k + 1 - (t.mappingNum + 1) = k := by omega
      have hge : ¬ t.mappingNum + k + 1 < t.mappingNum + 1 := by omega
      simp [hlt, hge, hk, hk']

theorem add_nil (hfree : ∀ i, t.mappingNum ≤ i → t.pMapping i = none) :
    t.add getcwd [] = t := by
  cases t with
  | mk pMapping mappingNum =>
    simp only [Table.add, List.length_nil, Nat.add_zero, Table.mk.injEq, and_true]
    funext i
    by_cases hlt : i < mappingNum
    · simp [hlt]
    · have hnone : pMapping i = none := hfree i (not_lt.mp hlt)
      simp [hlt, hnone]

theorem parseTagMapping_eq {nodes : List Node}
    (hfree : ∀ i, t.mappingNum ≤ i → t.pMapping i = none)
    (henable : ∀ e ∈ mappings nodes, e.enable.isSome)
    (hfits : ∀ e ∈ ((mappings nodes).filter Element.enabled).take
      (MAX_MAPPING_NUM - t.mappingNum), e.fits h.size = true) :
    parseTagMapping h nodes t =
      some (t.add h.getcwd (((mappings nodes).filter Element.enabled).take
        (MAX_MAPPING_NUM - t.mappingNum))) := by
  induction nodes generalizing t with
  | nil => simp [parseTagMapping, mappings, add_nil hfree]
  | cons node nodes ih =>
    rw [mappings_cons] at henable hfits ⊢
    cases node with
    | element name properties children =>
      by_cases htag : name = TAG_NAME_MAPPING
      · simp only [asMapping, htag, if_true, Option.toList_some, List.singleton_append,
          List.forall_mem_cons] at henable hfits ⊢
        obtain ⟨hon, hrest⟩ := henable
        obtain ⟨s, hs⟩ := Option.isSome_iff_exists.mp hon
        have hattr : getAttribute properties ATT_NAME_ENABLE = some s := hs
        simp only [parseTagMapping, if_true, hattr]
        by_cases hon : atoi s.bytes = 0
        · have hoff : Element.enabled ⟨properties, children⟩ = false := by
            simp [Element.enabled, hs, hon]
          simp only [hon, ne_eq, not_true_eq_false, false_and, if_false, hoff,
            Bool.false_eq_true, not_false_eq_true, List.filter_cons_of_neg] at hfits ⊢
          exact ih hfree hrest hfits
        · have hen : Element.enabled ⟨properties, children⟩ = true := by
            simp [Element.enabled, hs, hon]
          rw [List.filter_cons_of_pos hen] at hfits ⊢
          by_cases hroom : t.mappingNum < MAX_MAPPING_NUM
          · obtain ⟨k, hk⟩ := Nat.exists_eq_add_of_lt hroom
            have htake : MAX_MAPPING_NUM - t.mappingNum = k + 1 := by omega
            have htake' : MAX_MAPPING_NUM - (t.mappingNum + 1) = k := by omega
            rw [htake, List.take_succ_cons, List.forall_mem_cons] at hfits
            have hnew := newMapping_eq h ⟨properties, children⟩ t.mappingNum
            rw [if_pos hfits.1] at hnew
            have hfree' : ∀ i, t.mappingNum + 1 ≤ i →
                (t.push (Element.entry h.getcwd ⟨properties, children⟩ t.mappingNum)).pMapping i =
                  none := by
              intro i hi
              have hne : i ≠ t.mappingNum := by omega
              simp [Table.push, hne, hfree i (by omega)]
            simp only at hnew
            simp only [hon, ne_eq, not_false_eq_true, hroom, and_self, if_true, hnew]
            rw [ih hfree' hrest (by simpa only [Table.push, htake'] using hfits.2), htake,
              List.take_succ_cons, add_cons]
            simp only [Table.push, htake']
          · have htake : MAX_MAPPING_NUM - t.mappingNum = 0 := by omega
            have hrec := ih hfree hrest (by simp [htake])
            rw [htake, List.take_zero] at hrec ⊢
            rw [if_neg (fun hc => hroom hc.2)]
            exact hrec
      · simp only [asMapping, parseTagMapping, htag, if_false, Option.toList_none,
          List.nil_append] at henable hfits ⊢
        exact ih hfree henable hfits
    | text content => exact ih hfree henable hfits
    | comment => exact ih hfree henable hfits

theorem parseTagMapping_isSome {nodes : List Node} :
    (parseTagMapping h nodes t).isSome ↔ (∀ e ∈ mappings nodes, e.enable.isSome) ∧
      ∀ e ∈ ((mappings nodes).filter Element.enabled).take (MAX_MAPPING_NUM - t.mappingNum),
        e.fits h.size = true := by
  induction nodes generalizing t with
  | nil => simp [parseTagMapping, mappings]
  | cons node nodes ih =>
    rw [mappings_cons]
    cases node with
    | element name properties children =>
      by_cases htag : name = TAG_NAME_MAPPING
      · simp only [asMapping, parseTagMapping, htag, if_true, Option.toList_some,
          List.singleton_append, List.forall_mem_cons, Element.enable]
        cases hattr : getAttribute properties ATT_NAME_ENABLE with
        | none => simp
        | some s =>
          have hen : Element.enabled ⟨properties, children⟩ = (atoi s.bytes != 0) := by
            simp [Element.enabled, Element.enable, hattr]
          simp only [Option.isSome_some, true_and]
          split
          · rename_i hcond
            obtain ⟨k, hk⟩ := Nat.exists_eq_add_of_lt hcond.2
            have htake : MAX_MAPPING_NUM - t.mappingNum = k + 1 := by omega
            have htake' : MAX_MAPPING_NUM - (t.mappingNum + 1) = k := by omega
            have hnew := newMapping_eq h ⟨properties, children⟩ t.mappingNum
            rw [List.filter_cons_of_pos (by simp [hen, hcond.1]), htake, List.take_succ_cons,
              List.forall_mem_cons]
            by_cases hfit : Element.fits h.size ⟨properties, children⟩ = true
            · rw [if_pos hfit] at hnew
              simp only at hnew
              simp only [hnew, ih, Table.push, htake', hfit, true_and, Element.enable]
            · rw [if_neg hfit] at hnew
              simp only at hnew
              simp [hnew, hfit]
          · rename_i hcond
            by_cases hon : atoi s.bytes = 0
            · rw [List.filter_cons_of_neg (by simp [hen, hon])]
              exact ih
            · have htake : MAX_MAPPING_NUM - t.mappingNum = 0 := by
                have hroom : ¬ t.mappingNum < MAX_MAPPING_NUM := fun hr => hcond ⟨hon, hr⟩
                omega
              rw [ih, htake]
              simp [Element.enable]
      · simp only [asMapping, parseTagMapping, htag, if_false, Option.toList_none,
          List.nil_append]
        exact ih
    | text content => exact ih
    | comment => exact ih

end Parse

/-- The table of `Daemon`, which has its resources only, goes along with this one. -/
structure Follows (s : Daemon.State) (t : Table) : Prop where
  mappingNum : s.mappingNum = t.mappingNum
  index : ∀ i : Fin Daemon.maxMappingNum,
    (s.pMapping i).map Daemon.Mapping.index = (t.pMapping i).map Mapping.index

section Daemon

variable {h : Host} {nodes : List Node} {s : Daemon.State} {t t' : Table}

theorem Follows.push (hst : Follows s t) (hroom : s.mappingNum < Daemon.maxMappingNum)
    {m : Daemon.Mapping} {e : Mapping} (hindex : m.index = e.index) (L) :
    Follows { s.setMapping ⟨s.mappingNum, hroom⟩ (some m) with
      ledger := L, mappingNum := s.mappingNum + 1 } (t.push e) where
  mappingNum := congrArg (· + 1) hst.mappingNum
  index i := by
    simp only [Daemon.State.setMapping, Table.push, ← hst.mappingNum]
    by_cases hi : i = ⟨s.mappingNum, hroom⟩
    · simp [hi, hindex]
    · have hne : (i : ℕ) ≠ s.mappingNum := fun he => hi (Fin.ext he)
      rw [Function.update_of_ne hi, Function.update_of_ne hne]
      exact hst.index i

theorem Follows.parse (hst : Follows s t) (hparse : parseTagMapping h nodes t = some t') :
    Follows (Daemon.parseTagMapping ((mappings nodes).map Element.enabled) s) t' := by
  induction nodes generalizing s t with
  | nil => exact Option.some.inj hparse ▸ hst
  | cons node nodes ih =>
    rw [mappings_cons, List.map_append]
    cases node with
    | element name properties children =>
      by_cases htag : name = TAG_NAME_MAPPING
      · simp only [parseTagMapping, htag, if_true] at hparse
        simp only [asMapping, htag, if_true, Option.toList_some, List.map_cons, List.map_nil,
          List.singleton_append, Daemon.parseTagMapping]
        cases hattr : getAttribute properties ATT_NAME_ENABLE with
        | none => simp [hattr] at hparse
        | some v =>
          have hen : Element.enabled ⟨properties, children⟩ = (atoi v.bytes != 0) := by
            simp [Element.enabled, Element.enable, hattr]
          have hiff : (Element.enabled ⟨properties, children⟩ = true ∧
              s.mappingNum < Daemon.maxMappingNum) ↔
              (atoi v.bytes ≠ 0 ∧ t.mappingNum < MAX_MAPPING_NUM) := by
            rw [hen, bne_iff_ne, hst.mappingNum]
            rfl
          simp only [hattr] at hparse
          split at hparse
          case isTrue hcond =>
            cases hnew : newMapping h children t.mappingNum with
            | none => simp [hnew] at hparse
            | some m =>
              have hindex : m.index = t.mappingNum := by
                obtain ⟨m', -, rfl⟩ := Option.map_eq_some_iff.mp hnew
                rfl
              rw [hnew] at hparse
              rw [dif_pos (hiff.mpr hcond)]
              exact ih (hst.push _ (hst.mappingNum.trans hindex.symm) _) hparse
          case isFalse hcond =>
            rw [dif_neg (fun hc => hcond (hiff.mp hc))]
            exact ih hst hparse
      · simp only [parseTagMapping, htag, if_false] at hparse
        simp only [asMapping, htag, if_false]
        exact ih hst hparse
    | text content => exact ih hst hparse
    | comment => exact ih hst hparse

end Daemon

/-- A MAPPING in the documented format, with a pipe that fits the record and a description of one
line that no space follows. -/
structure Documented (e : Element) : Prop where
  enable : e.enable.isSome
  port : ∃ n, e.port = some n ∧ 1 ≤ n ∧ n ≤ 65535
  pipe : ∃ s, e.pipe = some s ∧ 0x2F ∈ s ∧ (dirName s).length < 160 ∧ (baseName s).length < 80
  desc : ∃ s, firstChild TAG_NAME_DESC e.children = some s ∧
    (∀ b ∈ stripped s, isBreak b = false) ∧ (behind s).head? ≠ some 0x20

structure EntryOf (e : Element) (i : ℕ) (m : Mapping) : Prop where
  index : m.index = i
  wd : m.wd = -1
  flags : m.tcpConnect = 0 ∧ m.pipeConnect = 0
  handles : m.tcpServerHandle = 0 ∧ m.ipcStreamHandle = 0
  port : e.port = some m.tcpPort.toNat
  pipePath : e.pipe.map dirName = some (text m.texts .pipePath)
  pipeName : e.pipe.map baseName = some (text m.texts .pipeName)
  descript : e.desc.map (List.take 79) = some (text m.texts .descript)

section Entry

variable {m : ℕ → UInt8} {f : Field}

theorem holds_strncpy {s : List UInt8} {n : ℕ} (hz : m (f.offset + n) = 0) :
    Holds (run m (strncpy f s n)) f.offset (s.take n ++ [0]) := by
  have hlen : ((s ++ List.replicate n 0).take n).length = n := by simp
  have hall : Holds (run m (strncpy f s n)) f.offset
      ((s ++ List.replicate n 0).take n ++ [0]) := by
    rw [strncpy, run_writes, Nat.add_zero, holds_append, hlen]
    refine ⟨holds_store _ _ _, ?_, trivial⟩
    rw [store_of_ge (by omega), hz]
  have hsplit : (s ++ List.replicate n 0).take n ++ [0] =
      s.take n ++ [0] ++ List.replicate (n - s.length) 0 := by
    have htake : n - s.length ≤ n := Nat.sub_le _ _
    rw [List.take_append, List.take_replicate, Nat.min_eq_left htake, List.append_assoc,
      List.append_assoc, ← List.replicate_succ', List.replicate_succ]
    rfl
  rw [hsplit, holds_append] at hall
  exact hall.1

theorem toNat_ofInt {n : ℕ} (h : n ≤ 65535) : (UInt16.ofInt (n : ℤ)).toNat = n := by
  simp only [UInt16.ofInt, UInt16.toNat_ofNat']
  omega

theorem entry_tcpPort (getcwd : Option Cwd) {e : Element} (i : ℕ) {n : ℕ}
    (h : e.port = some n) (hn : n ≤ 65535) : (e.entry getcwd i).tcpPort.toNat = n := by
  obtain ⟨s, hs, hdec⟩ := Option.bind_eq_some_iff.mp h
  have hport : (e.entry getcwd i).tcpPort = UInt16.ofInt (atoi s) := by
    simp only [Element.entry, parseTagPort, hs]
  rw [hport, atoi_decimal hdec (by omega), toNat_ofInt hn]

theorem entry_texts (getcwd : Option Cwd) {e : Element} (i : ℕ) {s d : List UInt8}
    (hpipe : e.pipe = some s) (hslash : 0x2F ∈ s) (hdir : (dirName s).length < 160)
    (hbase : (baseName s).length < 80) (hdesc : firstChild TAG_NAME_DESC e.children = some d) :
    let m := (e.entry getcwd i).texts
    text m .pipePath = dirName s ∧ text m .pipeName = baseName s ∧
      text m .descript = (trimmed d).take 79 := by
  intro m
  obtain ⟨s', hs', rfl⟩ := Option.map_eq_some_iff.mp hpipe
  have hs0 := firstChild_nonzero hs'
  have hd0 := firstChild_nonzero hdesc
  have hm : m = run (run (fun _ => 0) (decomposePathName getcwd (removeSpace (s' ++ [0]) 0).1
      (removeSpace (s' ++ [0]) 0).2)) (strncpy .descript (trimmed d) 79) := by
    simp only [m, Element.entry, Element.pipeWrites, Element.descWrites, hs', hdesc,
      Option.elim_some, removeSpace_content hd0]
  have hsplit := split_slash hslash
  have hnz := trimmed_nonzero hs0
  have hws := decomposePathName_slash getcwd (baseName_notMem (trimmed s'))
    ((removeSpace_content hs0).trans hsplit)
  have hrun := run_slash (fun _ => 0) hdir (baseName (trimmed s'))
  rw [← hws] at hrun
  generalize run (fun _ => 0) (decomposePathName getcwd (removeSpace (s' ++ [0]) 0).1
    (removeSpace (s' ++ [0]) 0).2) = m₀ at hm hrun
  generalize dirName (trimmed s') = p at hsplit hdir hrun ⊢
  generalize baseName (trimmed s') = n at hsplit hbase hrun ⊢
  obtain ⟨hpath, hname, hframe⟩ := hrun
  rw [hsplit] at hnz
  have hcopy : ∀ j bs, j + bs.length ≤ 240 → (Holds m j bs ↔ Holds m₀ j bs) := by
    intro j bs hj
    rw [hm, strncpy, run_writes]
    exact holds_store_of_disjoint (.inl hj)
  refine ⟨?_, ?_, ?_⟩
  · apply text_of_holds
    · exact fun b hb => hnz b (by simp [hb])
    · exact (hcopy _ _ (by simp [Field.offset]; omega)).mpr hpath
    · simp only [Field.offset]
      omega
  · apply text_of_holds
    · exact fun b hb => hnz b (by simp [hb])
    · exact (hcopy _ _ (by simp [Field.offset]; omega)).mpr hname
    · simp only [Field.offset]
      omega
  · apply text_of_holds
    · exact fun b hb => trimmed_nonzero hd0 b (List.mem_of_mem_take hb)
    · rw [hm]
      apply holds_strncpy
      apply hframe
      · simp only [Field.offset]
        omega
      · simp only [Field.offset]
        omega
    · simp only [Field.offset, List.length_take]
      omega

theorem entry_zero (getcwd : Option Cwd) (e : Element) (i : ℕ) :
    let m := e.entry getcwd i
    (m.tcpConnect = 0 ∧ m.pipeConnect = 0) ∧ m.tcpServerHandle = 0 ∧ m.ipcStreamHandle = 0 := by
  simp only [Element.entry, parseTagPort]
  split <;> exact ⟨⟨rfl, rfl⟩, rfl, rfl⟩

theorem Documented.fits {e : Element} (h : Documented e) {n : ℕ} (hn : 320 ≤ n) :
    e.fits n = true := by
  obtain ⟨s, hpipe, hslash, hdir, hbase⟩ := h.pipe
  have hlen := congrArg List.length (split_slash hslash)
  simp only [List.length_append, List.length_cons] at hlen
  simp only [Element.fits, hpipe, Option.all_some, Bool.and_eq_true, Bool.or_eq_true,
    decide_eq_true_eq]
  exact ⟨by omega, .inr (by omega)⟩

theorem entryOf_entry (getcwd : Option Cwd) {e : Element} (i : ℕ) (h : Documented e) :
    EntryOf e i (e.entry getcwd i) := by
  obtain ⟨n, hport, -, hn⟩ := h.port
  obtain ⟨s, hpipe, hslash, hdir, hbase⟩ := h.pipe
  obtain ⟨d, hdesc, hline, hspace⟩ := h.desc
  have htexts := entry_texts getcwd i hpipe hslash hdir hbase hdesc
  obtain ⟨hflags, hhandles⟩ := entry_zero getcwd e i
  refine ⟨rfl, rfl, hflags, hhandles, ?_, ?_, ?_, ?_⟩
  · rw [hport, entry_tcpPort getcwd i hport hn]
  · rw [hpipe, Option.map_some, htexts.1]
  · rw [hpipe, Option.map_some, htexts.2.1]
  · rw [Element.desc, hdesc, Option.map_some, Option.map_some, htexts.2.2,
      trimmed_eq_stripped hline hspace]

end Entry

section Empty

variable {h : Host} {nodes : List Node} {t : Table}

theorem parseTagMapping_empty (henable : ∀ e ∈ mappings nodes, e.enable.isSome)
    (hfits : ∀ e ∈ taken nodes, e.fits h.size = true) :
    parseTagMapping h nodes .empty = some (Table.empty.add h.getcwd (taken nodes)) :=
  parseTagMapping_eq (fun _ _ => rfl) henable hfits

theorem empty_add_pMapping (getcwd : Option Cwd) (es : List Element) (i : ℕ) :
    (Table.empty.add getcwd es).pMapping i = es[i]?.map fun e => e.entry getcwd i := by
  simp [Table.add, Table.empty]

theorem mem_taken {e : Element} (h : e ∈ taken nodes) : e ∈ mappings nodes :=
  List.mem_of_mem_filter (List.mem_of_mem_take h)

end Empty

/-- The table of a documented file: the first elements that `atoi` enables, in order, each with its
entry. -/
theorem mapping_table (h : Host) (nodes : List Node) (hdoc : ∀ e ∈ mappings nodes, Documented e) :
    ∃ t, parseTagMapping h nodes .empty = some t ∧ t.mappingNum = (taken nodes).length ∧
      t.mappingNum ≤ MAX_MAPPING_NUM ∧ (∀ i, t.mappingNum ≤ i → t.pMapping i = none) ∧
      ∀ i e, (taken nodes)[i]? = some e → ∃ m, t.pMapping i = some m ∧ EntryOf e i m := by
  refine ⟨_, parseTagMapping_empty (fun e he => (hdoc e he).enable)
    (fun e he => (hdoc e (mem_taken he)).fits h.texts_le), ?_, ?_, ?_, ?_⟩
  · simp [Table.add, Table.empty]
  · simp only [Table.add, Table.empty, taken, List.length_take]
    omega
  · intro i hi
    rw [empty_add_pMapping, List.getElem?_eq_none (by simpa [Table.add, Table.empty] using hi)]
    rfl
  · intro i e he
    have hmem := mem_taken (List.mem_of_getElem? he)
    refine ⟨_, ?_, entryOf_entry h.getcwd i (hdoc e hmem)⟩
    rw [empty_add_pMapping, he]
    rfl

def sample (enable port pipe desc : CString) : Node :=
  .element TAG_NAME_MAPPING [⟨ATT_NAME_ENABLE, some enable⟩]
    [.element TAG_NAME_PORT [] [.text port], .element TAG_NAME_PIPE [] [.text pipe],
      .element TAG_NAME_DESC [] [.text desc]]

def sampleOf (enable : CString) : Node :=
  sample enable ⟨[0x38, 0x30], by simp⟩ ⟨[0x2F, 0x61, 0x2F, 0x62], by simp⟩ ⟨[0x56, 0x4D], by simp⟩

theorem sampleOf_documented (enable : CString) :
    ∀ e ∈ mappings [sampleOf enable], Documented e := by
  intro e he
  have heq : mappings [sampleOf enable] = [⟨_, _⟩] := rfl
  rw [heq, List.mem_singleton] at he
  rw [he]
  refine ⟨rfl, ⟨80, rfl, ?_, ?_⟩, ⟨[0x2F, 0x61, 0x2F, 0x62], rfl, ?_, ?_, ?_⟩,
    ⟨[0x56, 0x4D], rfl, ?_, ?_⟩⟩
  · omega
  · omega
  · simp
  · decide
  · decide
  · have hline : stripped [0x56, 0x4D] = [0x56, 0x4D] := by decide
    simp [hline, isBreak]
  · decide

def host : Host := ⟨none, 340, by decide⟩

theorem mapping_table_sample :
    ∃ t, parseTagMapping host [sampleOf ⟨[0x31], by simp⟩] .empty = some t ∧
      t.mappingNum = (taken [sampleOf ⟨[0x31], by simp⟩]).length ∧
      t.mappingNum ≤ MAX_MAPPING_NUM ∧ (∀ i, t.mappingNum ≤ i → t.pMapping i = none) ∧
      ∀ i e, (taken [sampleOf ⟨[0x31], by simp⟩])[i]? = some e →
        ∃ m, t.pMapping i = some m ∧ EntryOf e i m :=
  mapping_table host _ (sampleOf_documented _)

/-- `atoi` reads `1st` as a one. -/
theorem mapping_table_fails : ¬ ∀ (h : Host) (nodes : List Node),
    (∀ e ∈ mappings nodes, Documented e) →
      ∃ t, parseTagMapping h nodes .empty = some t ∧
        t.mappingNum = (((mappings nodes).filter fun e => e.enable.any fun s =>
          (integer s.bytes).any (· != 0)).take MAX_MAPPING_NUM).length := by
  intro hclaim
  obtain ⟨t, ht, hnum⟩ := hclaim host [sampleOf ⟨[0x31, 0x73, 0x74], by simp⟩]
    (sampleOf_documented _)
  have hparse : (parseTagMapping host [sampleOf ⟨[0x31, 0x73, 0x74], by simp⟩] .empty).map
      Table.mappingNum = some 1 := by decide +kernel
  rw [ht, Option.map_some, hnum] at hparse
  exact absurd hparse (by decide)

/-- A MAPPING without a value to enable it, or whose port is not a number in the range. -/
def Element.malformed (e : Element) : Bool :=
  e.enable.isNone || !e.port.any fun n => 1 ≤ n && n ≤ 65535

def Node.kept (node : Node) : Bool := !(asMapping node).any Element.malformed

def withoutMalformed (nodes : List Node) : List Node := nodes.filter Node.kept

/-- Parsing comes to an end, malformed elements leave no trace in the table, and each entry has the
port that its element names. -/
def Contained (h : Host) (nodes : List Node) : Prop :=
  ∃ t, parseTagMapping h nodes .empty = some t ∧
    parseTagMapping h (withoutMalformed nodes) .empty = some t ∧
    ∀ i e m, (taken nodes)[i]? = some e → t.pMapping i = some m → e.port = some m.tcpPort.toNat

section Contained

variable {h : Host} {nodes : List Node}

theorem mappings_withoutMalformed (nodes : List Node) :
    mappings (withoutMalformed nodes) = (mappings nodes).filter fun e => !e.malformed := by
  induction nodes with
  | nil => rfl
  | cons node nodes ih =>
    rw [mappings_cons]
    cases hnode : asMapping node with
    | none =>
      have hkeep : node.kept = true := by simp [Node.kept, hnode]
      rw [withoutMalformed, List.filter_cons_of_pos hkeep, mappings_cons, hnode]
      exact ih
    | some e =>
      cases hbad : e.malformed with
      | true =>
        have hdrop : ¬ node.kept = true := by simp [Node.kept, hnode, hbad]
        rw [withoutMalformed, List.filter_cons_of_neg hdrop]
        simpa [withoutMalformed, hbad] using ih
      | false =>
        have hkeep : node.kept = true := by simp [Node.kept, hnode, hbad]
        rw [withoutMalformed, List.filter_cons_of_pos hkeep, mappings_cons, hnode]
        simpa [withoutMalformed, hbad] using ih

theorem malformed_eq_false {e : Element} (h : e.malformed = false) :
    e.enable.isSome ∧ ∃ n, e.port = some n ∧ 1 ≤ n ∧ n ≤ 65535 := by
  simp only [Element.malformed, Bool.or_eq_false_iff, Bool.not_eq_false'] at h
  obtain ⟨henable, hport⟩ := h
  refine ⟨by simpa using henable, ?_⟩
  simpa [Option.any_eq_true] using hport

theorem take_filter {α : Type*} {l : List α} {p : α → Bool} {n : ℕ}
    (h : ∀ x ∈ l.take n, p x = true) :
    (l.filter p).take n = l.take n := by
  induction l generalizing n with
  | nil => rfl
  | cons x l ih =>
    cases n with
    | zero => rfl
    | succ n =>
      rw [List.take_succ_cons, List.forall_mem_cons] at h
      rw [List.filter_cons_of_pos h.1, List.take_succ_cons, List.take_succ_cons, ih h.2]

theorem taken_withoutMalformed (h : ∀ e ∈ taken nodes, e.malformed = false) :
    taken (withoutMalformed nodes) = taken nodes := by
  rw [taken, taken, mappings_withoutMalformed, List.filter_comm]
  apply take_filter
  intro e he
  simp [h e he]

theorem withoutMalformed_enable (nodes : List Node) :
    ∀ e ∈ mappings (withoutMalformed nodes), e.malformed = false ∧ e.enable.isSome := by
  intro e he
  rw [mappings_withoutMalformed, List.mem_filter, Bool.not_eq_true'] at he
  exact ⟨he.2, (malformed_eq_false he.2).1⟩

theorem Contained.completes (hc : Contained h nodes) :
    (∀ e ∈ mappings nodes, e.enable.isSome) ∧ ∀ e ∈ taken nodes, e.fits h.size = true := by
  obtain ⟨t, hparse, -⟩ := hc
  exact parseTagMapping_isSome.mp (Option.isSome_of_eq_some hparse)

theorem Contained.malformed (hc : Contained h nodes) : ∀ e ∈ taken nodes, e.malformed = false := by
  obtain ⟨henable, hfits⟩ := hc.completes
  obtain ⟨t, hparse, hparse', hport⟩ := hc
  have henable' := withoutMalformed_enable nodes
  have hfits' := (parseTagMapping_isSome.mp (Option.isSome_of_eq_some hparse')).2
  rw [parseTagMapping_empty henable hfits, Option.some.injEq] at hparse
  rw [parseTagMapping_empty (fun e he => (henable' e he).2) hfits', Option.some.injEq] at hparse'
  intro e he
  obtain ⟨i, hi⟩ := List.mem_iff_getElem?.mp he
  have hentry : t.pMapping i = some (e.entry h.getcwd i) := by
    rw [← hparse, empty_add_pMapping, hi]
    rfl
  have hnum := hport i e _ hi hentry
  -- the entry is one of the table without malformed elements, so that its port is not zero
  rw [← hparse', empty_add_pMapping] at hentry
  obtain ⟨e', he', hentry⟩ := Option.map_eq_some_iff.mp hentry
  have hwell := henable' e' (mem_taken (List.mem_of_getElem? he'))
  obtain ⟨n, hn, hlow, hhigh⟩ := (malformed_eq_false hwell.1).2
  have hvalue := entry_tcpPort h.getcwd i hn hhigh
  rw [hentry] at hvalue
  rw [hvalue] at hnum
  have hsome := henable e (mem_taken he)
  simp only [Element.malformed, hnum, Option.any_some, Bool.or_eq_false_iff, Bool.not_eq_false',
    Bool.and_eq_true, decide_eq_true_eq]
  exact ⟨by simpa using hsome, hlow, hhigh⟩

end Contained

/-- Malformed elements are contained exactly if each MAPPING has a value to enable it, none that
gets an entry is malformed, and the pipes of these fit the record. -/
theorem malformed_contained (h : Host) (nodes : List Node) :
    Contained h nodes ↔
      (∀ e ∈ mappings nodes, e.enable.isSome) ∧
        ∀ e ∈ taken nodes, e.malformed = false ∧ e.fits h.size = true := by
  constructor
  · intro hc
    obtain ⟨henable, hfits⟩ := hc.completes
    exact ⟨henable, fun e he => ⟨hc.malformed e he, hfits e he⟩⟩
  · intro hc
    obtain ⟨henable, hall⟩ := hc
    have hwell : ∀ e ∈ taken nodes, e.malformed = false := fun e he => (hall e he).1
    have hfits : ∀ e ∈ taken nodes, e.fits h.size = true := fun e he => (hall e he).2
    have htaken := taken_withoutMalformed hwell
    refine ⟨_, parseTagMapping_empty henable hfits, ?_, ?_⟩
    · rw [parseTagMapping_empty (fun e he => (withoutMalformed_enable nodes e he).2)
        (by rwa [htaken]), htaken]
    · intro i e m he hm
      rw [empty_add_pMapping, he, Option.map_some, Option.some.injEq] at hm
      obtain ⟨n, hn, -, hhigh⟩ := (malformed_eq_false (hwell e (List.mem_of_getElem? he))).2
      rw [← hm, entry_tcpPort h.getcwd i hn hhigh, hn]

def longPipe : CString := ⟨List.replicate 341 0x61, fun b hb => by
  rw [List.eq_of_mem_replicate hb]
  decide⟩

/-- A MAPPING without an attribute faults, of port 74537 only the low 16 bits are kept, and a pipe
of 341 bytes is written beyond the record. -/
theorem malformed_contained_fails :
    ¬ Contained host [.element TAG_NAME_MAPPING [] []] ∧
      ¬ Contained host [sample ⟨[0x31], by simp⟩ ⟨[0x37, 0x34, 0x35, 0x33, 0x37], by simp⟩
        ⟨[0x2F, 0x61, 0x2F, 0x62], by simp⟩ ⟨[0x56, 0x4D], by simp⟩] ∧
      ¬ Contained host [sample ⟨[0x31], by simp⟩ ⟨[0x38, 0x30], by simp⟩ longPipe
        ⟨[0x56, 0x4D], by simp⟩] := by
  refine ⟨?_, ?_, ?_⟩
  · intro h
    obtain ⟨t, hparse, -⟩ := h
    exact absurd hparse (by simp [parseTagMapping, getAttribute])
  · intro h
    have hbad : (taken [sample ⟨[0x31], by simp⟩ ⟨[0x37, 0x34, 0x35, 0x33, 0x37], by simp⟩
        ⟨[0x2F, 0x61, 0x2F, 0x62], by simp⟩ ⟨[0x56, 0x4D], by simp⟩]).any Element.malformed =
        true := rfl
    obtain ⟨e, he, hmal⟩ := List.any_eq_true.mp hbad
    rw [h.malformed e he] at hmal
    exact absurd hmal (by simp)
  · intro h
    have hbad : (taken [sample ⟨[0x31], by simp⟩ ⟨[0x38, 0x30], by simp⟩ longPipe
        ⟨[0x56, 0x4D], by simp⟩]).any
          (fun e => !e.fits host.size) = true := by
      decide +kernel
    obtain ⟨e, he, hlong⟩ := List.any_eq_true.mp hbad
    rw [h.completes.2 e he] at hlong
    exact absurd hlong (by simp)

end LibComm.ConfigTable

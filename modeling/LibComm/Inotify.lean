import Mathlib.Data.Fintype.Fin
import LibComm.ByteMemory

/-!
# Reconnects on inotify events

`event_monitor` decodes the buffer it has read record by record, and searches
the mappings for each record with `strcmp` on the pipe name alone. The watch
descriptor that `event_init` has stored in the mapping is not looked at, and
the name of a record without a name is read from the bytes that follow it.
-/

namespace LibComm.Inotify
open ByteMemory

abbrev maxMappingNum : ℕ := 64

abbrev eventSize : ℕ := 16

abbrev eventBuffer : ℕ := (eventSize + 16) * 1024

structure Mapping where
  pipePath : CString
  pipeName : CString
  pipeConnect : Bool
  wd : Int32
  deriving DecidableEq

abbrev Mappings := Fin maxMappingNum → Option Mapping

def eventInit (inotifyAddWatch : CString → Int32) (mappingNum : ℕ) (g : Mappings) : Mappings :=
  fun i =>
    if i < mappingNum then
      (g i).map fun p =>
        let wd := inotifyAddWatch p.pipePath
        if wd < 0 then p else { p with wd := wd }
    else g i

structure Event where
  wd : Int32
  mask : UInt32
  cookie : UInt32
  name : Option CString
  padding : ℕ
  bound : name.elim 0 (fun n => n.bytes.length + (padding + 1)) < 4294967296

def Event.len (e : Event) : ℕ := e.name.elim 0 fun n => n.bytes.length + (e.padding + 1)

def Event.nameBytes (e : Event) : List UInt8 :=
  e.name.elim [] fun n => n.bytes ++ 0 :: List.replicate e.padding 0

def Event.bytes (e : Event) : List UInt8 :=
  le32 e.wd.toUInt32.toNat ++ le32 e.mask.toNat ++ le32 e.cookie.toNat ++ le32 e.len ++ e.nameBytes

/-- `buf` after `memset` and `read`, and the memory behind it. -/
def contents (bytes : List UInt8) (behind : ℕ → UInt8) (i : ℕ) : UInt8 :=
  if h : i < bytes.length then bytes[i] else if i < eventBuffer then 0 else behind i

def search (g : Mappings) (m : ℕ → UInt8) (name : ℕ) : Option (Fin maxMappingNum) :=
  Fin.find? fun i => (g i).any fun p => !p.pipeConnect && strcmp m name p.pipeName.bytes

/-- What happens between two searches: the outcome of the connect, if one is made, and the exit
callbacks of the receive tasks. -/
structure Interval where
  connected : Bool
  exits : Fin maxMappingNum → Bool

def settle (g : Mappings) (call : Option (Fin maxMappingNum)) (r : Interval) : Mappings := fun i =>
  (g i).map fun p =>
    { p with pipeConnect := (if call = some i then r.connected else p.pipeConnect) && !r.exits i }

/-- One search: where the record stands, what the mappings are then, and the mapping that
`proxy_connectIpc` is called on. -/
structure Visit where
  offset : ℕ
  mappings : Mappings
  call : Option (Fin maxMappingNum)

/-- The loop over the buffer; each record takes at least one byte of the fuel. -/
def eventLoop (m : ℕ → UInt8) (len : ℕ) (world : ℕ → Interval) : ℕ → ℕ → Mappings → List Visit
  | 0, _, _ => []
  | fuel + 1, j, g =>
    if j < len then
      let call := search g m (j + eventSize)
      ⟨j, g, call⟩ ::
        eventLoop m len world fuel (j + (eventSize + load32 m (j + 12))) (settle g call (world j))
    else []

def eventMonitor (bytes : List UInt8) (behind : ℕ → UInt8) (world : ℕ → Interval) (g : Mappings) :
    List Visit :=
  eventLoop (contents bytes behind) bytes.length world bytes.length 0 g

def Matches (p : Mapping) (e : Event) : Prop :=
  p.pipeConnect = false ∧ p.wd = e.wd ∧ e.name = some p.pipeName

instance (p : Mapping) (e : Event) : Decidable (Matches p e) :=
  inferInstanceAs (Decidable (_ ∧ _ ∧ _))

/-- A matching mapping is connected if there is one, and no other mapping is. -/
structure Right (e : Event) (v : Visit) : Prop where
  only : ∀ i, v.call = some i → ∃ p, v.mappings i = some p ∧ Matches p e
  some : (∃ i p, v.mappings i = some p ∧ Matches p e) →
    ∃ i p, v.call = some i ∧ v.mappings i = some p ∧ Matches p e

def Accepts (m : ℕ → UInt8) (name : ℕ) (p : Mapping) : Prop :=
  p.pipeConnect = false ∧ strcmp m name p.pipeName.bytes = true

/-- Each mapping that the inner loop would take for the event by mistake comes after one that
matches. -/
def MatchFirst (m : ℕ → UInt8) (e : Event) (v : Visit) : Prop :=
  ∀ i p, v.mappings i = some p → Accepts m (v.offset + eventSize) p → ¬ Matches p e →
    ∃ k < i, ∃ q, v.mappings k = some q ∧ Matches q e

def buffer (es : List Event) : List UInt8 := es.flatMap Event.bytes

def offsets : ℕ → List Event → List ℕ
  | _, [] => []
  | j, e :: es => j :: offsets (j + e.bytes.length) es

theorem nameBytes_length (e : Event) : e.nameBytes.length = e.len := by
  unfold Event.nameBytes Event.len
  cases e.name with
  | none => rfl
  | some n => simp

theorem bytes_length (e : Event) : e.bytes.length = 16 + e.len := by
  simp only [Event.bytes, List.length_append, le32_length, nameBytes_length]

theorem holds_contents (bs : List UInt8) (behind : ℕ → UInt8) :
    Holds (contents bs behind) 0 bs := by
  apply holds_getElem
  intro i hi
  simp [contents, hi]

section Record
variable {m : ℕ → UInt8} {j : ℕ} {e : Event}

theorem load_len (h : Holds m j e.bytes) : load32 m (j + 12) = e.len := by
  obtain ⟨h, -⟩ := holds_append.mp h
  obtain ⟨-, h⟩ := holds_append.mp h
  exact load32_le32 e.bound (by simpa using h)

theorem holds_name (h : Holds m j e.bytes) : Holds m (j + eventSize) e.nameBytes := by
  obtain ⟨-, h⟩ := holds_append.mp h
  simpa using h

theorem strcmp_name (h : Holds m j e.bytes) {n : CString} (hn : e.name = some n) (s : CString) :
    strcmp m (j + eventSize) s.bytes = true ↔ s = n := by
  have hb := holds_name h
  rw [Event.nameBytes, hn] at hb
  rw [strcmp_iff s.nonzero n.nonzero hb]
  exact ⟨CString.ext_bytes, congrArg CString.bytes⟩

theorem accepts_of_matches (h : Holds m j e.bytes) {p : Mapping} (hp : Matches p e) :
    Accepts m (j + eventSize) p := by
  obtain ⟨hc, -, hn⟩ := hp
  exact ⟨hc, (strcmp_name h hn p.pipeName).mpr rfl⟩

end Record

section Search
variable {g : Mappings} {m : ℕ → UInt8} {name : ℕ} {i : Fin maxMappingNum}

theorem search_some (h : search g m name = some i) :
    (∃ p, g i = some p ∧ Accepts m name p) ∧
      ∀ k < i, ∀ p, g k = some p → ¬ Accepts m name p := by
  obtain ⟨hi, hk⟩ := Fin.find?_eq_some_iff.mp h
  constructor
  · simpa [Option.any_eq_true, Accepts] using hi
  · intro k hlt p hp
    simpa [hp, Accepts] using hk k hlt

theorem search_none (h : search g m name = none) {p : Mapping} (hp : g i = some p) :
    ¬ Accepts m name p := by
  simpa [hp, Accepts] using Fin.find?_eq_none_iff.mp h i

end Search

theorem right_iff {m : ℕ → UInt8} {e : Event} {v : Visit} (hm : Holds m v.offset e.bytes)
    (hv : v.call = search v.mappings m (v.offset + eventSize)) : Right e v ↔ MatchFirst m e v := by
  constructor
  · intro h i p hp ha hn
    cases hc : v.call with
    | none => exact absurd ha (search_none (hv.symm.trans hc) hp)
    | some k =>
      obtain ⟨q, hq, hmatch⟩ := h.only k hc
      obtain ⟨-, hfirst⟩ := search_some (hv.symm.trans hc)
      refine ⟨k, ?_, q, hq, hmatch⟩
      rcases lt_trichotomy k i with hlt | rfl | hlt
      · exact hlt
      · obtain rfl := Option.some.inj (hp.symm.trans hq)
        exact absurd hmatch hn
      · exact absurd ha (hfirst i hlt p hp)
  · intro h
    have honly : ∀ i, v.call = some i → ∃ p, v.mappings i = some p ∧ Matches p e := by
      intro i hi
      obtain ⟨⟨p, hp, ha⟩, hfirst⟩ := search_some (hv.symm.trans hi)
      by_cases hmatch : Matches p e
      · exact ⟨p, hp, hmatch⟩
      · obtain ⟨k, hk, q, hq, hkm⟩ := h i p hp ha hmatch
        exact absurd (accepts_of_matches hm hkm) (hfirst k hk q hq)
    refine ⟨honly, ?_⟩
    intro hx
    obtain ⟨i, p, hp, hmatch⟩ := hx
    cases hc : v.call with
    | none => exact absurd (accepts_of_matches hm hmatch) (search_none (hv.symm.trans hc) hp)
    | some k =>
      obtain ⟨q, hq, hkm⟩ := honly k hc
      exact ⟨k, q, rfl, hq, hkm⟩

theorem eventLoop_visits {m : ℕ → UInt8} {world : ℕ → Interval} {es : List Event} {len fuel j : ℕ}
    {g : Mappings} (hm : Holds m j (buffer es)) (hlen : len = j + (buffer es).length)
    (hf : es.length ≤ fuel) :
    (eventLoop m len world fuel j g).map Visit.offset = offsets j es ∧
      ∀ x ∈ es.zip (eventLoop m len world fuel j g), Holds m x.2.offset x.1.bytes ∧
        x.2.call = search x.2.mappings m (x.2.offset + eventSize) := by
  induction es generalizing fuel j g with
  | nil =>
    have hj : ¬ j < len := by simp [hlen, buffer]
    cases fuel with
    | zero => simp [eventLoop, offsets]
    | succ fuel => simp [eventLoop, offsets, hj]
  | cons e es ih =>
    -- the length field leads from the record to the next one
    have hb : buffer (e :: es) = e.bytes ++ buffer es := rfl
    rw [hb] at hm hlen
    obtain ⟨he, hrest⟩ := holds_append.mp hm
    have hsize := bytes_length e
    rw [List.length_append] at hlen
    have hj : j < len := by omega
    have hnext : eventSize + load32 m (j + 12) = e.bytes.length := by
      rw [load_len he, hsize]
    cases fuel with
    | zero => simp at hf
    | succ fuel =>
      have hfuel : es.length ≤ fuel := by simpa using hf
      obtain ⟨hoff, hvis⟩ := ih (g := settle g (search g m (j + eventSize)) (world j)) hrest
        (by omega) hfuel
      simp only [eventLoop, hj, if_true, hnext]
      constructor
      · simp only [List.map_cons, offsets, hoff]
      · intro x hx
        simp only [List.zip_cons_cons, List.mem_cons] at hx
        obtain rfl | hx := hx
        · exact ⟨he, by simp only⟩
        · exact hvis x hx

theorem length_le_buffer (es : List Event) : es.length ≤ (buffer es).length := by
  induction es with
  | nil => simp
  | cons e es ih =>
    have hb : buffer (e :: es) = e.bytes ++ buffer es := rfl
    have hsize := bytes_length e
    rw [hb, List.length_cons, List.length_append]
    omega

/-- Each event is visited once, in order, and reaches the right mapping if and only if no mapping
with the same string at its name comes first. -/
theorem events_reach (inotifyAddWatch : CString → Int32) (mappingNum : ℕ) (g : Mappings)
    (es : List Event) (behind : ℕ → UInt8) (world : ℕ → Interval) :
    let visits := eventMonitor (buffer es) behind world (eventInit inotifyAddWatch mappingNum g)
    visits.map Visit.offset = offsets 0 es ∧
      ∀ x ∈ es.zip visits, Right x.1 x.2 ↔ MatchFirst (contents (buffer es) behind) x.1 x.2 := by
  obtain ⟨hoff, hvis⟩ := @eventLoop_visits (contents (buffer es) behind) world es _ _ 0
    (eventInit inotifyAddWatch mappingNum g) (holds_contents (buffer es) behind)
    (zero_add _).symm (length_le_buffer es)
  refine ⟨hoff, fun x hx => ?_⟩
  obtain ⟨hm, hv⟩ := hvis x hx
  exact right_iff hm hv

def twoWatches (path : CString) : Int32 := if path.bytes = [97] then 1 else 2

def samePipeName : Mappings := fun i =>
  if i = 0 then some ⟨⟨[97], by simp⟩, ⟨[112], by simp⟩, false, -1⟩
  else if i = 1 then some ⟨⟨[98], by simp⟩, ⟨[112], by simp⟩, false, -1⟩
  else none

def createdInB : Event := ⟨2, 256, 0, some ⟨[112], by simp⟩, 14, by decide⟩

def digitName : Mappings := fun i =>
  if i = 0 then some ⟨⟨[97], by simp⟩, ⟨[48], by simp⟩, false, -1⟩ else none

def unnamed : List Event :=
  [⟨1, 32768, 0, none, 0, by decide⟩, ⟨48, 256, 0, some ⟨[120], by simp⟩, 14, by decide⟩]

theorem events_reach_fails :
    (¬ ∀ (inotifyAddWatch : CString → Int32) (mappingNum : ℕ) (g : Mappings) (es : List Event)
      (behind : ℕ → UInt8) (world : ℕ → Interval),
      ∀ x ∈ es.zip (eventMonitor (buffer es) behind world (eventInit inotifyAddWatch mappingNum g)),
        x.1.name ≠ none → Right x.1 x.2) ∧
    ¬ ∀ (inotifyAddWatch : CString → Int32) (mappingNum : ℕ) (g : Mappings) (es : List Event)
      (behind : ℕ → UInt8) (world : ℕ → Interval),
      ∀ x ∈ es.zip (eventMonitor (buffer es) behind world (eventInit inotifyAddWatch mappingNum g)),
        x.1.name = none → Right x.1 x.2 := by
  constructor
  · intro hclaim
    have hrun : (eventMonitor (buffer [createdInB]) (fun _ => 0) (fun _ => ⟨true, fun _ => false⟩)
        (eventInit twoWatches 2 samePipeName)).map
          (fun v => (v.call, (v.mappings 0).map Mapping.wd)) = [(some 0, some 1)] := by
      decide +kernel
    obtain ⟨v, hv, he⟩ := List.map_eq_singleton_iff.mp hrun
    obtain ⟨hcall, hwd⟩ := Prod.mk.inj he
    have hright := hclaim twoWatches 2 samePipeName [createdInB] (fun _ => 0)
      (fun _ => ⟨true, fun _ => false⟩) (createdInB, v) (by simp [hv]) (by simp [createdInB])
    obtain ⟨p, hp, -, hmatch, -⟩ := hright.only 0 hcall
    rw [hp] at hwd
    have hone : p.wd = 1 := Option.some.inj hwd
    have htwo : (1 : Int32) = 2 := hone.symm.trans hmatch
    exact absurd htwo (by decide)
  · intro hclaim
    have hrun : (eventMonitor (buffer unnamed) (fun _ => 0) (fun _ => ⟨true, fun _ => false⟩)
        (eventInit twoWatches 1 digitName)).map Visit.call = [some 0, none] := by
      decide +kernel
    obtain ⟨v, vs, hv, hcall, -⟩ := List.map_eq_cons_iff.mp hrun
    have hright := hclaim twoWatches 1 digitName unnamed (fun _ => 0)
      (fun _ => ⟨true, fun _ => false⟩) (_, v)
      (by rw [hv]; exact List.mem_cons_self) rfl
    obtain ⟨p, -, -, -, hname⟩ := hright.only 0 hcall
    cases hname

def twoNames : Mappings := fun i =>
  if i = 0 then some ⟨⟨[97], by simp⟩, ⟨[112], by simp⟩, false, -1⟩
  else if i = 1 then some ⟨⟨[97], by simp⟩, ⟨[113], by simp⟩, false, -1⟩
  else none

theorem events_reach_twoNames :
    let es : List Event := [⟨1, 256, 0, some ⟨[113], by simp⟩, 14, by decide⟩,
      ⟨1, 256, 0, some ⟨[112], by simp⟩, 14, by decide⟩]
    let visits := eventMonitor (buffer es) (fun _ => 0) (fun _ => ⟨true, fun _ => false⟩)
      (eventInit twoWatches 2 twoNames)
    visits.map Visit.call = [some 1, some 0] ∧ visits.map Visit.offset = [0, 32] ∧
      ∀ x ∈ es.zip visits,
        Right x.1 x.2 ↔ MatchFirst (contents (buffer es) fun _ => 0) x.1 x.2 := by
  intro es visits
  have hcalls : visits.map Visit.call = [some 1, some 0] := by decide +kernel
  have hspec := events_reach twoWatches 2 twoNames es (fun _ => 0) fun _ => ⟨true, fun _ => false⟩
  exact ⟨hcalls, hspec.1, hspec.2⟩

end LibComm.Inotify

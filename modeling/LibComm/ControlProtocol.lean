import LibComm.DatagramSend
import LibComm.Daemon

/-!
# The control protocol of the daemon

`nptp_ctrl` sends a datagram for each option letter, and `ipcRecvFunc` of the
daemon compares the datagrams with the words that it knows. The two programs
share the words only as texts and the lengths as numbers written beside them.
-/

namespace LibComm.ControlProtocol
open ByteMemory DatagramSend
open RecvTask (commBufSize)
open DatagramTask (Callback ipcDgramRecvTask started)
open Daemon (maxMappingNum indices eventUninit)

def logMaskNone : BitVec 32 := 0x0
def logMask1 : BitVec 32 := 0x1
def logMask2 : BitVec 32 := 0x2
def logMask3 : BitVec 32 := 0x4
def logMaskAll : BitVec 32 := 0x7

def wordHelp : List UInt8 := [0x68, 0x65, 0x6C, 0x70]
def wordList : List UInt8 := [0x6C, 0x69, 0x73, 0x74]
def wordExit : List UInt8 := [0x65, 0x78, 0x69, 0x74]
def wordDump : List UInt8 := [0x64, 0x75, 0x6D, 0x70]

structure Texts where
  tcpPort : UInt16
  pipePath : List UInt8
  pipeName : List UInt8
  descript : List UInt8
  deriving DecidableEq

structure Row where
  texts : Texts
  tcpConnect : Bool
  pipeConnect : Bool
  deriving DecidableEq

inductive Output where
  | ready
  | dump (on : Bool)
  | table (rows : List Row)
  deriving DecidableEq

structure Serv where
  daemon : Daemon.State
  texts : Fin maxMappingNum → Texts
  logMask : BitVec 32
  dumpFlag : BitVec 32
  output : List Output

namespace Serv

def print (s : Serv) (o : Output) : Serv := { s with output := s.output ++ [o] }

def setLogMask (s : Serv) (mask : BitVec 32) : Serv := { s with logMask := mask &&& logMaskAll }

def setDumpFlag (s : Serv) (flag : BitVec 32) : Serv :=
  if flag ≠ 0 then { s.print (.dump true) with dumpFlag := 1 }
  else { s.print (.dump false) with dumpFlag := 0 }

def rows (s : Serv) : List Row :=
  (indices s.daemon.mappingNum).filterMap fun i =>
    (s.daemon.pMapping i).map fun m => ⟨s.texts i, m.tcpConnect, m.pipeConnect⟩

end Serv

def servList (s : Serv) : Serv := s.print (.table s.rows)

def ipcRecvFunc (pData : ℕ → UInt8) (size : ℕ) (s : Serv) : Serv :=
  let pData := store pData size [0]
  if strcmp pData 0 wordHelp then s.print .ready
  else if strcmp pData 0 wordList then servList s
  else if strcmp pData 0 wordExit then { s with daemon := eventUninit s.daemon }
  else if strcmp pData 0 wordDump then s.setDumpFlag (s.dumpFlag ^^^ 0x1)
  else if strcmp pData 0 [0x30] then s.setLogMask logMaskNone
  else if strcmp pData 0 [0x31] then s.setLogMask logMask1
  else if strcmp pData 0 [0x32] then s.setLogMask logMask2
  else if strcmp pData 0 [0x33] then s.setLogMask (logMask1 ||| logMask2)
  else if strcmp pData 0 [0x34] then s.setLogMask logMask3
  else if strcmp pData 0 [0x35] then s.setLogMask (logMask1 ||| logMask3)
  else if strcmp pData 0 [0x36] then s.setLogMask (logMask2 ||| logMask3)
  else if strcmp pData 0 [0x37] then s.setLogMask logMaskAll
  else s

def receive (x : (ℕ → UInt8) × Serv) (c : Callback) : (ℕ → UInt8) × Serv :=
  let recvMsg := store x.1 0 c.data
  (store recvMsg c.size [0], ipcRecvFunc recvMsg c.size x.2)

def receiveAll (ds : List (List UInt8)) (x : (ℕ → UInt8) × Serv) : (ℕ → UInt8) × Serv :=
  (ipcDgramRecvTask (ds.map recvfrom) started).1.calls.foldl receive x

/-- `comm_ipcDgramSendTo` of an open handle: the data and the size make a datagram, or none. -/
abbrev SendTo := (ℕ → UInt8) → UInt16 → Option (List UInt8)

def Sends (sendTo : SendTo) : Prop :=
  ∀ m size, size ≠ 0 → sendTo m size = some (load m 0 size.toNat)

def literal (memory : ℕ → UInt8) (bs : List UInt8) : ℕ → UInt8 := store memory 0 (bs ++ [0])

/-- The option letters of `nptp_ctrl`: `01234567dtxh`. -/
def optstring : List UInt8 :=
  [0x30, 0x31, 0x32, 0x33, 0x34, 0x35, 0x36, 0x37, 0x64, 0x74, 0x78, 0x68]

/-- `getopt` on one argument: the letters behind a dash, and a question mark for a wrong one. -/
def getopt (arg : List UInt8) : List UInt8 :=
  match arg with
  | 0x2D :: os => if os = [0x2D] then [] else os.map fun ch => if ch ∈ optstring then ch else 0x3F
  | _ => []

def send (sendTo : SendTo) (memory : ℕ → UInt8) (ch : UInt8) : Option (List UInt8) :=
  if 0x30 ≤ ch ∧ ch ≤ 0x37 then sendTo (literal memory [ch]) 2
  else if ch = 0x64 then sendTo (literal memory wordDump) 5
  else if ch = 0x74 then sendTo (literal memory wordList) 5
  else if ch = 0x78 then sendTo (literal memory wordExit) 5
  else sendTo (literal memory wordHelp) 5

/-- `main` of `nptp_ctrl` on the arguments behind its name, with what its `Init` answers. -/
def ctrlMain (sendTo : SendTo) (memory : ℕ → UInt8) (init : Bool) (args : List (List UInt8)) :
    List (List UInt8) :=
  match args with
  | [arg] => if init then (getopt arg).filterMap (send sendTo memory) else []
  | _ => []

def letters : List UInt8 := [0x30, 0x31, 0x32, 0x33, 0x34, 0x35, 0x36, 0x37, 0x64, 0x74, 0x68]

def isDigit (ch : UInt8) : Bool := 0x30 ≤ ch && ch ≤ 0x37

def words : List (List UInt8) :=
  [wordHelp, wordList, wordExit, wordDump, [0x30], [0x31], [0x32], [0x33], [0x34], [0x35], [0x36],
    [0x37]]

def word (d : List UInt8) : List UInt8 := d.takeWhile (· != 0)

def isTable : Output → Bool
  | .table _ => true
  | _ => false

/-- What the letters ask for has been done, and nothing else. -/
structure Obeyed (os : List UInt8) (s t : Serv) : Prop where
  logMask : t.logMask =
    (os.filter isDigit).getLast?.elim s.logMask fun ch => BitVec.ofNat 32 (ch.toNat - 0x30)
  dumpFlag : t.dumpFlag.toNat = (s.dumpFlag.toNat + os.count 0x64) % 2
  printed : ∃ out, t.output = s.output ++ out ∧ out.length = os.countP (fun ch => !isDigit ch) ∧
    out.filter isTable = List.replicate (os.count 0x74) (.table s.rows)
  daemon : t.daemon = s.daemon
  texts : t.texts = s.texts

/-- The protocol as the daemon has it: a table of its words. -/
def commands : List (List UInt8 × (Serv → Serv)) :=
  [(wordHelp, fun s => s.print .ready),
    (wordList, servList),
    (wordExit, fun s => { s with daemon := eventUninit s.daemon }),
    (wordDump, fun s => s.setDumpFlag (s.dumpFlag ^^^ 0x1)),
    ([0x30], fun s => { s with logMask := 0 }),
    ([0x31], fun s => { s with logMask := 1 }),
    ([0x32], fun s => { s with logMask := 2 }),
    ([0x33], fun s => { s with logMask := 3 }),
    ([0x34], fun s => { s with logMask := 4 }),
    ([0x35], fun s => { s with logMask := 5 }),
    ([0x36], fun s => { s with logMask := 6 }),
    ([0x37], fun s => { s with logMask := 7 })]

def command (w : List UInt8) (s : Serv) : Serv := (commands.lookup w).elim s fun f => f s

/-- The protocol as the control program has it: the word that a letter sends. -/
def wordOf (ch : UInt8) : List UInt8 :=
  if isDigit ch then [ch]
  else if ch = 0x64 then wordDump
  else if ch = 0x74 then wordList
  else if ch = 0x78 then wordExit
  else wordHelp

def asked (ch : UInt8) (s : Serv) : Serv :=
  if isDigit ch then { s with logMask := BitVec.ofNat 32 (ch.toNat - 0x30) }
  else if ch = 0x64 then s.setDumpFlag (s.dumpFlag ^^^ 0x1)
  else if ch = 0x74 then servList s
  else s.print .ready

theorem words_nonzero : ∀ t ∈ words, ∀ b ∈ t, b ≠ 0 := by
  simp [words, wordHelp, wordList, wordExit, wordDump]

theorem word_nonzero (d : List UInt8) : ∀ b ∈ word d, b ≠ 0 := by
  intro b hb
  simpa using List.mem_takeWhile_imp hb

theorem word_append (d : List UInt8) : ∃ rest, d ++ [0] = word d ++ 0 :: rest := by
  induction d with
  | nil => exact ⟨[], rfl⟩
  | cons b d ih =>
    obtain ⟨rest, hrest⟩ := ih
    by_cases hb : b = 0
    · exact ⟨d ++ [0], by simp [word, hb]⟩
    · refine ⟨rest, ?_⟩
      rw [List.cons_append, hrest]
      simp [word, hb]

theorem command_of_notMem {w : List UInt8} (h : w ∉ words) (s : Serv) : command w s = s := by
  have hnone : commands.lookup w = none := by
    simpa [words, commands] using h
  rw [command, hnone, Option.elim_none]

theorem lookup_cons_elim {f : Serv → Serv} {cs : List (List UInt8 × (Serv → Serv))}
    (w t : List UInt8) (s : Serv) :
    (List.lookup w ((t, f) :: cs)).elim s (fun f => f s) =
      if w = t then f s else (cs.lookup w).elim s fun f => f s := by
  by_cases h : w = t
  · simp [h]
  · simp [List.lookup_cons, beq_false_of_ne h, h]

theorem ipcRecvFunc_eq {pData : ℕ → UInt8} {size : ℕ} {w : List UInt8}
    (h : ∀ t ∈ words, strcmp (store pData size [0]) 0 t = true ↔ w = t) (s : Serv) :
    ipcRecvFunc pData size s = command w s := by
  simp only [words, List.forall_mem_cons] at h
  obtain ⟨hhelp, hlist, hexit, hdump, h0, h1, h2, h3, h4, h5, h6, h7, -⟩ := h
  simp only [ipcRecvFunc, command, commands, lookup_cons_elim, hhelp, hlist, hexit, hdump, h0, h1,
    h2, h3, h4, h5, h6, h7]
  rfl

theorem recvfrom_callback (d : List UInt8) :
    (recvfrom d).callback = ⟨d.take commBufSize, (d.take commBufSize).length⟩ := by
  have hcut : (d.take commBufSize).length < 65536 :=
    lt_of_le_of_lt (List.length_take_le _ _) (by decide)
  simp only [recvfrom, DatagramTask.Outcome.callback, DatagramTask.Outcome.bytes,
    DatagramTask.Outcome.len, Int.toNat_natCast, Nat.mod_eq_of_lt hcut]

theorem receive_serv (buf : ℕ → UInt8) (s : Serv) (d : List UInt8) :
    (receive (buf, s) (recvfrom d).callback).2 = command (word (d.take commBufSize)) s := by
  rw [recvfrom_callback]
  obtain ⟨rest, hrest⟩ := word_append (d.take commBufSize)
  have hholds : Holds (store (store buf 0 (d.take commBufSize)) (d.take commBufSize).length [0]) 0
      (word (d.take commBufSize) ++ 0 :: rest) := by
    rw [← hrest]
    exact (holds_store buf 0 _).store_append [0]
  refine ipcRecvFunc_eq (fun t ht => ?_) s
  exact (strcmp_iff (words_nonzero t ht) (word_nonzero _) hholds).trans eq_comm

theorem word_take {d : List UInt8} (h : word d ∉ words) :
    word (d.take commBufSize) ∉ words := by
  have hshort : ∀ t ∈ words, t.length < commBufSize := by decide
  intro hmem
  have hlt := hshort _ hmem
  rw [word, ← List.take_takeWhile, List.length_take] at hlt
  rw [word, ← List.take_takeWhile, List.take_of_length_le (by omega)] at hmem
  exact h hmem

theorem foldl_receive (ds : List (List UInt8)) (buf : ℕ → UInt8) (s : Serv) :
    ((ds.map fun d => (recvfrom d).callback).foldl receive (buf, s)).2 =
      ds.foldl (fun s d => command (word (d.take commBufSize)) s) s := by
  induction ds generalizing buf s with
  | nil => rfl
  | cons d ds ih =>
    rw [List.map_cons, List.foldl_cons, List.foldl_cons, ← receive_serv buf]
    exact ih _ _

theorem receiveAll_serv (ds : List (List UInt8)) (buf : ℕ → UInt8) (s : Serv) :
    (receiveAll ds (buf, s)).2 =
      ds.foldl (fun s d => command (word (d.take commBufSize)) s) s := by
  have hcalls : (ipcDgramRecvTask (ds.map recvfrom) started).1.calls =
      ds.map fun d => (recvfrom d).callback := DatagramTask.ipcDgramRecvTask_map _ ds
  rw [receiveAll, hcalls]
  exact foldl_receive ds buf s

theorem isDigit_iff {ch : UInt8} : isDigit ch = true ↔ 0x30 ≤ ch ∧ ch ≤ 0x37 := by
  simp [isDigit]

theorem send_eq {sendTo : SendTo} (hs : Sends sendTo) (memory : ℕ → UInt8) (ch : UInt8) :
    send sendTo memory ch = some (wordOf ch ++ [0]) := by
  have hsent : ∀ (bs : List UInt8) (size : UInt16), size ≠ 0 → size.toNat = (bs ++ [0]).length →
      sendTo (literal memory bs) size = some (bs ++ [0]) := by
    intro bs size hsize hlen
    rw [hs _ _ hsize, hlen, literal, load_store]
  simp only [send, wordOf, isDigit_iff]
  split_ifs
  · exact hsent _ _ (by decide) rfl
  · exact hsent _ _ (by decide) rfl
  · exact hsent _ _ (by decide) rfl
  · exact hsent _ _ (by decide) rfl
  · exact hsent _ _ (by decide) rfl

theorem getopt_letters {os : List UInt8} (ho : ∀ ch ∈ os, ch ∈ letters) :
    getopt (0x2D :: os) = os := by
  have hdash : os ≠ [0x2D] := by
    intro h
    exact absurd (ho 0x2D (by simp [h])) (by decide)
  have hopt : ∀ ch ∈ letters, ch ∈ optstring := by simp [letters, optstring]
  simp only [getopt, if_neg hdash]
  refine (List.map_congr_left fun ch hch => ?_).trans (List.map_id os)
  exact if_pos (hopt ch (ho ch hch))

theorem ctrlMain_letters {sendTo : SendTo} (hs : Sends sendTo) (memory : ℕ → UInt8)
    {os : List UInt8} (ho : ∀ ch ∈ os, ch ∈ letters) :
    ctrlMain sendTo memory true [0x2D :: os] = os.map fun ch => wordOf ch ++ [0] := by
  simp only [ctrlMain, if_true, getopt_letters ho]
  rw [← List.filterMap_eq_map']
  exact List.filterMap_congr fun ch _ => send_eq hs memory ch

theorem command_wordOf : ∀ ch ∈ letters, ∀ s,
    command (word ((wordOf ch ++ [0]).take commBufSize)) s = asked ch s := by
  simp only [letters, List.forall_mem_cons]
  refine ⟨?_, ?_, ?_, ?_, ?_, ?_, ?_, ?_, ?_, ?_, ?_, List.forall_mem_nil _⟩ <;> exact fun _ => rfl

theorem receiveAll_ctrlMain {sendTo : SendTo} (hs : Sends sendTo) (memory buf : ℕ → UInt8)
    {os : List UInt8} (ho : ∀ ch ∈ os, ch ∈ letters) (s : Serv) :
    (receiveAll (ctrlMain sendTo memory true [0x2D :: os]) (buf, s)).2 =
      os.foldl (fun s ch => asked ch s) s := by
  rw [receiveAll_serv, ctrlMain_letters hs memory ho, List.foldl_map]
  exact List.foldl_ext _ _ _ fun s ch hch => command_wordOf ch (ho ch hch) s

theorem Obeyed.rows {os : List UInt8} {s t : Serv} (h : Obeyed os s t) : t.rows = s.rows := by
  simp only [Serv.rows, h.daemon, h.texts]

theorem obeyed_nil {s : Serv} (hd : s.dumpFlag = 0 ∨ s.dumpFlag = 1) : Obeyed [] s s where
  logMask := rfl
  dumpFlag := by rcases hd with hd | hd <;> simp [hd]
  printed := ⟨[], by simp⟩
  daemon := rfl
  texts := rfl

theorem Obeyed.append {os os' : List UInt8} {s t u : Serv} (h : Obeyed os s t)
    (h' : Obeyed os' t u) : Obeyed (os ++ os') s u where
  logMask := by
    rw [h'.logMask, h.logMask, List.filter_append, List.getLast?_append]
    cases (os'.filter isDigit).getLast? <;> rfl
  dumpFlag := by
    rw [h'.dumpFlag, h.dumpFlag, List.count_append]
    omega
  printed := by
    obtain ⟨out, ho, hlen, htable⟩ := h.printed
    obtain ⟨out', ho', hlen', htable'⟩ := h'.printed
    refine ⟨out ++ out', by rw [ho', ho, List.append_assoc], ?_, ?_⟩
    · rw [List.length_append, hlen, hlen', List.countP_append]
    · rw [List.filter_append, htable, htable', h.rows, List.count_append,
        List.replicate_append_replicate]
  daemon := h'.daemon.trans h.daemon
  texts := h'.texts.trans h.texts

theorem dumpFlag_mod {s : Serv} (hd : s.dumpFlag = 0 ∨ s.dumpFlag = 1) :
    s.dumpFlag.toNat % 2 = s.dumpFlag.toNat := by
  rcases hd with hd | hd <;> simp [hd]

theorem count_digit {ch b : UInt8} (hch : isDigit ch = true) (hb : isDigit b = false) :
    [ch].count b = 0 := by
  apply List.count_eq_zero.mpr
  intro h
  rw [← List.mem_singleton.mp h, hb] at hch
  cases hch

theorem obeyed_digit {ch : UInt8} (hch : isDigit ch = true) {s : Serv}
    (hd : s.dumpFlag = 0 ∨ s.dumpFlag = 1) :
    Obeyed [ch] s { s with logMask := BitVec.ofNat 32 (ch.toNat - 0x30) } where
  logMask := by simp [hch]
  dumpFlag := by rw [count_digit hch rfl, Nat.add_zero, dumpFlag_mod hd]
  printed := ⟨[], by simp [hch, count_digit hch (b := 0x74) rfl]⟩
  daemon := rfl
  texts := rfl

theorem obeyed_dump {s : Serv} (hd : s.dumpFlag = 0 ∨ s.dumpFlag = 1) :
    Obeyed [0x64] s (s.setDumpFlag (s.dumpFlag ^^^ 0x1)) := by
  rcases hd with hd | hd
  · have hon : s.setDumpFlag (s.dumpFlag ^^^ 0x1) =
        { s.print (.dump true) with dumpFlag := 1 } := by
      rw [hd]
      rfl
    rw [hon]
    exact ⟨rfl, by rw [hd]; rfl, ⟨[.dump true], rfl, rfl, rfl⟩, rfl, rfl⟩
  · have hoff : s.setDumpFlag (s.dumpFlag ^^^ 0x1) =
        { s.print (.dump false) with dumpFlag := 0 } := by
      rw [hd]
      rfl
    rw [hoff]
    exact ⟨rfl, by rw [hd]; rfl, ⟨[.dump false], rfl, rfl, rfl⟩, rfl, rfl⟩

theorem obeyed_list {s : Serv} (hd : s.dumpFlag = 0 ∨ s.dumpFlag = 1) :
    Obeyed [0x74] s (servList s) where
  logMask := rfl
  dumpFlag := (dumpFlag_mod hd).symm
  printed := ⟨[.table s.rows], rfl, rfl, rfl⟩
  daemon := rfl
  texts := rfl

theorem obeyed_help {ch : UInt8} (hch : ¬isDigit ch = true) (h64 : ch ≠ 0x64) (h74 : ch ≠ 0x74)
    {s : Serv} (hd : s.dumpFlag = 0 ∨ s.dumpFlag = 1) : Obeyed [ch] s (s.print .ready) where
  logMask := by simp [hch, Serv.print]
  dumpFlag := by simp [h64, dumpFlag_mod hd, Serv.print]
  printed := ⟨[.ready], by simp [hch, h74, isTable, Serv.print]⟩
  daemon := rfl
  texts := rfl

theorem obeyed_asked (ch : UInt8) {s : Serv} (hd : s.dumpFlag = 0 ∨ s.dumpFlag = 1) :
    Obeyed [ch] s (asked ch s) := by
  unfold asked
  split_ifs with hch h64 h74
  · exact obeyed_digit hch hd
  · exact h64 ▸ obeyed_dump hd
  · exact h74 ▸ obeyed_list hd
  · exact obeyed_help hch h64 h74 hd

theorem asked_dumpFlag (ch : UInt8) {s : Serv} (hd : s.dumpFlag = 0 ∨ s.dumpFlag = 1) :
    (asked ch s).dumpFlag = 0 ∨ (asked ch s).dumpFlag = 1 := by
  unfold asked Serv.setDumpFlag
  split_ifs
  · exact hd
  · exact .inr rfl
  · exact .inl rfl
  · exact hd
  · exact hd

theorem obeyed_foldl (os : List UInt8) {s : Serv} (hd : s.dumpFlag = 0 ∨ s.dumpFlag = 1) :
    Obeyed os s (os.foldl (fun s ch => asked ch s) s) := by
  induction os generalizing s with
  | nil => exact obeyed_nil hd
  | cons ch os ih => exact (obeyed_asked ch hd).append (ih (asked_dumpFlag ch hd))

/-- After the datagrams of one run of `nptp_ctrl` the daemon has obeyed its letters. A datagram of
any other kind changes nothing, and the zero byte behind every datagram falls into the buffer. -/
theorem control_agrees {sendTo : SendTo} (hs : Sends sendTo) (memory buf : ℕ → UInt8) (s : Serv) :
    (s.dumpFlag = 0 ∨ s.dumpFlag = 1 → ∀ os : List UInt8, (∀ ch ∈ os, ch ∈ letters) →
      Obeyed os s (receiveAll (ctrlMain sendTo memory true [0x2D :: os]) (buf, s)).2) ∧
    ∀ d, (recvfrom d).callback.size < commBufSize + 1 ∧
      (word d ∉ words → (receive (buf, s) (recvfrom d).callback).2 = s) := by
  constructor
  · intro hd os ho
    rw [receiveAll_ctrlMain hs memory buf ho]
    exact obeyed_foldl os hd
  · intro d
    constructor
    · rw [recvfrom_callback]
      exact Nat.lt_succ_of_le (List.length_take_le _ _)
    · intro hw
      rw [receive_serv]
      exact command_of_notMem (word_take hw) s

def direct : SendTo := fun m size => SendCall.Args.request ⟨some 3, some m, size⟩

def idle : Serv :=
  ⟨⟨fun _ => none, 0, none, none, ⟨0, []⟩⟩, fun _ => ⟨0, [], [], []⟩, logMaskNone, 0, []⟩

theorem control_agrees_direct :
    Obeyed [0x33, 0x64, 0x74] idle (receiveAll
      (ctrlMain direct (fun _ => 0) true [[0x2D, 0x33, 0x64, 0x74]]) (fun _ => 0, idle)).2 ∧
    (receive (fun _ => 0, idle) (recvfrom [0x38]).callback).2 = idle := by
  have hs : Sends direct := fun _ _ hsize => SendCall.request_eq rfl (by decide) rfl hsize
  have h := control_agrees hs (fun _ => 0) (fun _ => 0) idle
  exact ⟨h.1 (.inl rfl) _ (by simp [letters]), (h.2 _).2 (by decide)⟩

end LibComm.ControlProtocol

import LibComm.PipePath
import LibComm.SendCall

/-!
# Paths of UNIX sockets

What the IPC calls do with the path that they get, as the copies that they make
and the address that goes to the kernel. `strncpy` into `localPath` cuts a path
at 255 bytes; `strcpy` into `sun_path` and `remotePath` does not look at the
size. `proxy_connectIpc` makes two paths from a mapping.
-/

namespace LibComm.SocketPath
open SendCall PipePath

structure Copy where
  room : ℕ
  text : List UInt8

def Copy.Fits (c : Copy) : Prop := c.text.length + 1 ≤ c.room

structure Trace where
  copies : List Copy
  address : Option (List UInt8)
  failed : Bool

/-- Failed before the path is used, or with copies that fit and the path itself as the address. -/
def Safe (path : List UInt8) (t : Trace) : Prop :=
  (t.failed = true ∧ t.copies = [] ∧ t.address = none) ∨
    (∀ c ∈ t.copies, c.Fits) ∧ ∀ a ∈ t.address, a = path

def sockaddr (s : List UInt8) (failed : Bool) : Trace := ⟨[⟨108, s⟩], some (s.take 108), failed⟩

def bindSocket (socket bind : ℤ) (localPath : List UInt8) : Trace :=
  if socket < 0 then ⟨[], none, true⟩ else sockaddr localPath (bind < 0)

def ipcDgramInit := bindSocket
def ipcStreamInitClient := bindSocket
def ipcStreamInitServer := bindSocket

def openContext (malloc : Bool) (init : List UInt8 → Trace) (threadFails : Bool)
    (pFileName : List UInt8) : Trace :=
  if !malloc then ⟨[], none, true⟩
  else
    let localPath := pFileName.take 255
    let t := init localPath
    ⟨⟨256, localPath⟩ :: t.copies, t.address, t.failed || threadFails⟩

def commIpcDgramInit (malloc : Bool) (socket bind : ℤ) (pRecvFunc : Bool) (pthreadCreate : ℤ) :=
  openContext malloc (ipcDgramInit socket bind) (pRecvFunc && pthreadCreate != 0)

def commIpcStreamClientInit (malloc : Bool) (socket bind : ℤ) :=
  openContext malloc (ipcStreamInitClient socket bind) false

def commIpcStreamInitServer (malloc : Bool) (socket bind pthreadCreate : ℤ) :=
  openContext malloc (ipcStreamInitServer socket bind) (pthreadCreate != 0)

def commIpcDgramSend (a : Args) (sendto : ℤ) (pFileName : List UInt8) : Trace :=
  if a.request.isNone then ⟨[], none, true⟩ else sockaddr pFileName (sendto < 0)

def commIpcStreamClientConnect (fd : Option ℤ) (connect pthreadCreate : ℤ)
    (pFileName : List UInt8) : Trace :=
  match fd with
  | none => ⟨[], none, true⟩
  | some fd =>
    if fd < 0 then ⟨[], none, true⟩
    else
      let t := sockaddr pFileName (connect < 0 || pthreadCreate != 0)
      { t with copies := ⟨256, pFileName⟩ :: t.copies }

inductive Call where
  | ipcDgramInit (malloc : Bool) (socket bind : ℤ) (pRecvFunc : Bool) (pthreadCreate : ℤ)
  | ipcDgramSend (a : Args) (sendto : ℤ)
  | ipcStreamClientInit (malloc : Bool) (socket bind : ℤ)
  | ipcStreamClientConnect (fd : Option ℤ) (connect pthreadCreate : ℤ)
  | ipcStreamInitServer (malloc : Bool) (socket bind pthreadCreate : ℤ)

def Call.trace : Call → List UInt8 → Trace
  | .ipcDgramInit malloc socket bind pRecvFunc pthreadCreate =>
    commIpcDgramInit malloc socket bind pRecvFunc pthreadCreate
  | .ipcDgramSend a sendto => commIpcDgramSend a sendto
  | .ipcStreamClientInit malloc socket bind => commIpcStreamClientInit malloc socket bind
  | .ipcStreamClientConnect fd connect pthreadCreate =>
    commIpcStreamClientConnect fd connect pthreadCreate
  | .ipcStreamInitServer malloc socket bind pthreadCreate =>
    commIpcStreamInitServer malloc socket bind pthreadCreate

/-- The call gets as far as the copy into `sun_path`. -/
def Call.reaches : Call → Bool
  | .ipcDgramInit malloc socket _ _ _ => malloc && 0 ≤ socket
  | .ipcDgramSend a _ => a.request.isSome
  | .ipcStreamClientInit malloc socket _ => malloc && 0 ≤ socket
  | .ipcStreamClientConnect fd _ _ => fd.any fun fd => 0 ≤ fd
  | .ipcStreamInitServer malloc socket _ _ => malloc && 0 ≤ socket

def bytes (s : String) : List UInt8 := s.toList.map fun c => .ofNat c.toNat

def IPC_STREAM_FILE_PATH : List UInt8 := bytes "./nptp_serv_stream.sock"

def clientPath (index : ℕ) : List UInt8 :=
  IPC_STREAM_FILE_PATH ++ (Nat.toDigits 10 index).map fun c => .ofNat c.toNat

structure Answers where
  malloc : Bool
  socket : ℤ
  bind : ℤ
  access : ℤ
  connect : ℤ
  pthreadCreate : ℤ

structure ProxyTrace where
  sprintf : List Copy
  calls : List (List UInt8 × Trace)

def ProxyTrace.Safe (t : ProxyTrace) : Prop :=
  (∀ c ∈ t.sprintf, c.Fits) ∧ ∀ call ∈ t.calls, SocketPath.Safe call.1 call.2

def proxyConnectIpc (r : Answers) (index : ℕ) (pipePath pipeName : List UInt8) : ProxyTrace :=
  let init := commIpcStreamClientInit r.malloc r.socket r.bind (clientPath index)
  if init.failed then ⟨[⟨256, clientPath index⟩], [(clientPath index, init)]⟩
  else
    let serverPath := serverPath pipePath pipeName
    ⟨[⟨256, clientPath index⟩, ⟨256, serverPath⟩],
      (clientPath index, init) ::
        if r.access = 0 then
          [(serverPath,
            commIpcStreamClientConnect (some r.socket) r.connect r.pthreadCreate serverPath)]
        else []⟩

def Answers.connects (r : Answers) : Bool :=
  r.malloc && 0 ≤ r.socket && 0 ≤ r.bind && r.access == 0

section Copies

variable {path : List UInt8}

theorem safe_refused (path : List UInt8) : Safe path ⟨[], none, true⟩ := .inl ⟨rfl, rfl, rfl⟩

theorem safe_openContext (malloc : Bool) (socket bind : ℤ) (threadFails : Bool) :
    Safe path (openContext malloc (bindSocket socket bind) threadFails path) ↔
      ((malloc && decide (0 ≤ socket)) = true → path.length < 108) := by
  cases malloc with
  | false => simp [openContext, safe_refused]
  | true =>
    by_cases hsocket : socket < 0
    · have hneg : ¬ 0 ≤ socket := by omega
      have hfits : Copy.Fits ⟨256, path.take 255⟩ := by
        simp only [Copy.Fits, List.length_take]
        omega
      have hsafe : Safe path (openContext true (bindSocket socket bind) threadFails path) := by
        simp only [openContext, bindSocket, hsocket, if_true, Bool.not_true, Bool.false_eq_true,
          if_false]
        exact .inr ⟨List.forall_mem_singleton.mpr hfits, by simp⟩
      exact iff_of_true hsafe (by simp [hneg])
    · have hpos : 0 ≤ socket := by omega
      simp only [openContext, bindSocket, hsocket, hpos, sockaddr, if_false, Bool.not_true,
        Bool.false_eq_true, decide_true, Bool.and_true, true_imp_iff, Safe, Copy.Fits,
        reduceCtorEq, and_false, false_or, List.forall_mem_cons, List.length_take,
        Option.mem_def, Option.some.injEq, forall_eq']
      constructor
      · intro h
        omega
      · intro h
        refine ⟨⟨by omega, by omega, by simp⟩, ?_⟩
        rw [List.take_of_length_le (by omega : path.length ≤ 255),
          List.take_of_length_le (by omega)]

theorem safe_sockaddr (path : List UInt8) (failed : Bool) (copies : List Copy)
    (h : ∀ c ∈ copies, c = ⟨256, path⟩) :
    Safe path { sockaddr path failed with copies := copies ++ [⟨108, path⟩] } ↔
      path.length < 108 := by
  have hne : copies ++ [⟨108, path⟩] ≠ [] := by simp
  simp only [Safe, sockaddr, hne, false_and, and_false, false_or, List.forall_mem_append,
    List.forall_mem_singleton, Copy.Fits, Option.mem_def, Option.some.injEq, forall_eq']
  constructor
  · intro hsafe
    omega
  · intro hlen
    refine ⟨⟨fun c hc => ?_, by omega⟩, List.take_of_length_le (by omega)⟩
    rw [h c hc]
    exact (by omega : path.length + 1 ≤ 256)

theorem safe_send (a : Args) (sendto : ℤ) :
    Safe path (commIpcDgramSend a sendto path) ↔ (a.request.isSome = true → path.length < 108) := by
  cases hreq : a.request with
  | none => simpa [commIpcDgramSend, hreq] using safe_refused path
  | some bs =>
    have hsafe := safe_sockaddr path (decide (sendto < 0)) [] (by simp)
    simpa [commIpcDgramSend, hreq, sockaddr] using hsafe

theorem safe_connect (fd : Option ℤ) (connect pthreadCreate : ℤ) (path : List UInt8) :
    Safe path (commIpcStreamClientConnect fd connect pthreadCreate path) ↔
      ((fd.any fun fd => decide (0 ≤ fd)) = true → path.length < 108) := by
  cases fd with
  | none => simpa [commIpcStreamClientConnect] using safe_refused path
  | some fd =>
    by_cases hfd : fd < 0
    · have hneg : ¬ 0 ≤ fd := by omega
      simpa [commIpcStreamClientConnect, hfd, hneg] using safe_refused path
    · have hpos : 0 ≤ fd := by omega
      have hsafe := safe_sockaddr path (decide (connect < 0) || pthreadCreate != 0) [⟨256, path⟩]
        (by simp)
      simpa [commIpcStreamClientConnect, hfd, hpos, sockaddr] using hsafe

theorem safe_call (call : Call) (path : List UInt8) :
    Safe path (call.trace path) ↔ (call.reaches = true → path.length < 108) := by
  cases call with
  | ipcDgramInit malloc socket bind pRecvFunc pthreadCreate =>
    exact safe_openContext malloc socket bind _
  | ipcDgramSend a sendto => exact safe_send a sendto
  | ipcStreamClientInit malloc socket bind => exact safe_openContext malloc socket bind _
  | ipcStreamClientConnect fd connect pthreadCreate =>
    exact safe_connect fd connect pthreadCreate path
  | ipcStreamInitServer malloc socket bind pthreadCreate =>
    exact safe_openContext malloc socket bind _

end Copies

section Proxy

variable {r : Answers} {index : ℕ} {pipePath pipeName : List UInt8}

theorem clientPath_length (h : index < 2147483648) : (clientPath index).length ≤ 33 := by
  have hdigits : (Nat.toDigits 10 index).length ≤ 10 :=
    (Nat.length_toDigits_le_iff (by omega) (by omega)).mpr (by omega)
  have hpath : IPC_STREAM_FILE_PATH.length = 23 := rfl
  rw [clientPath, List.length_append, List.length_map]
  omega

theorem clientInit_failed (r : Answers) (path : List UInt8) :
    (commIpcStreamClientInit r.malloc r.socket r.bind path).failed =
      !(r.malloc && decide (0 ≤ r.socket) && decide (0 ≤ r.bind)) := by
  cases hmalloc : r.malloc with
  | false => rfl
  | true =>
    by_cases hsocket : r.socket < 0
    · have hneg : ¬ 0 ≤ r.socket := by omega
      simp [commIpcStreamClientInit, openContext, ipcStreamInitClient, bindSocket, hsocket, hneg]
    · have hpos : 0 ≤ r.socket := by omega
      have hbind : decide (r.bind < 0) = !decide (0 ≤ r.bind) := by
        by_cases hb : r.bind < 0
        · simp [hb, Int.not_le.mpr hb]
        · simp [hb, Int.not_lt.mp hb]
      simp [commIpcStreamClientInit, openContext, ipcStreamInitClient, bindSocket, hsocket, hpos,
        sockaddr, hbind]

theorem safe_proxyConnectIpc (r : Answers) (hindex : index < 2147483648)
    (hpath : pipePath.length < 160) (hname : pipeName.length < 80) :
    (proxyConnectIpc r index pipePath pipeName).Safe ↔
      (r.connects = true → (serverPath pipePath pipeName).length < 108) := by
  have hclient := clientPath_length hindex
  have hserver :
      (serverPath pipePath pipeName).length = pipePath.length + (pipeName.length + 1) := by
    simp [serverPath]
  have hfits : Copy.Fits ⟨256, clientPath index⟩ := by
    exact (by omega : (clientPath index).length + 1 ≤ 256)
  have hfits' : Copy.Fits ⟨256, serverPath pipePath pipeName⟩ := by
    exact (by omega : (serverPath pipePath pipeName).length + 1 ≤ 256)
  have hinit : Safe (clientPath index)
      (commIpcStreamClientInit r.malloc r.socket r.bind (clientPath index)) :=
    (safe_call (.ipcStreamClientInit r.malloc r.socket r.bind) _).mpr fun _ => by omega
  have hfailed := clientInit_failed r (clientPath index)
  cases hok : r.malloc && decide (0 ≤ r.socket) && decide (0 ≤ r.bind) with
  | false =>
    rw [hok, Bool.not_false] at hfailed
    simp [proxyConnectIpc, ProxyTrace.Safe, hfailed, hfits, hinit, Answers.connects, hok]
  | true =>
    rw [hok, Bool.not_true] at hfailed
    by_cases haccess : r.access = 0
    · simp only [Bool.and_eq_true, decide_eq_true_eq] at hok
      obtain ⟨⟨hmalloc, hpos⟩, hbind⟩ := hok
      have hconnect := safe_connect (some r.socket) r.connect r.pthreadCreate
        (serverPath pipePath pipeName)
      have hconnects : r.connects = true := by
        simp [Answers.connects, hmalloc, hpos, hbind, haccess]
      simpa [proxyConnectIpc, ProxyTrace.Safe, hfailed, hfits, hfits', hinit, hconnects, haccess,
        hpos] using hconnect
    · simp [proxyConnectIpc, ProxyTrace.Safe, hfailed, hfits, hfits', hinit, Answers.connects,
        haccess]

/-- A call is safe exactly for paths of less than 108 bytes, unless it stops before the copy into
`sun_path`; the same holds for the path that `proxy_connectIpc` makes of a mapping. -/
theorem paths_fit (call : Call) (path : List UInt8) (r : Answers) (hindex : index < 2147483648)
    (hpath : pipePath.length < 160) (hname : pipeName.length < 80) :
    (Safe path (call.trace path) ↔ (call.reaches = true → path.length < 108)) ∧
      ((proxyConnectIpc r index pipePath pipeName).Safe ↔
        (r.connects = true → (serverPath pipePath pipeName).length < 108)) :=
  ⟨safe_call call path, safe_proxyConnectIpc r hindex hpath hname⟩

theorem paths_fit_mapping :
    (Safe [0x61] ((Call.ipcStreamInitServer true 3 0 0).trace [0x61]) ↔
        ((Call.ipcStreamInitServer true 3 0 0).reaches = true → ([0x61] : List UInt8).length < 108)) ∧
      ((proxyConnectIpc ⟨true, 3, 0, 0, 0, 0⟩ 0 [0x2F, 0x61] [0x62]).Safe ↔
        ((Answers.mk true 3 0 0 0 0).connects = true →
          (serverPath [0x2F, 0x61] [0x62]).length < 108)) :=
  paths_fit _ _ _ (by decide) (by decide) (by decide)

end Proxy

/-- The zero byte behind a path of 108 bytes is written beyond `sun_path`. -/
theorem paths_fit_fails : ¬ ∀ (call : Call) (path : List UInt8), Safe path (call.trace path) := by
  intro hclaim
  have hsafe := hclaim (.ipcDgramInit true 3 0 false 0) (List.replicate 108 0x61)
  rw [safe_call] at hsafe
  exact absurd (hsafe rfl) (by simp)

end LibComm.SocketPath

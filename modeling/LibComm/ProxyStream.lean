import LibComm.Proxy
import LibComm.StreamClient

/-!
# What the proxy forwards

The receive tasks of the TCP server and of the IPC client hand each chunk to
the callbacks of `proxy`, which send it on to the other end. `send` may take
only the first bytes of what it is given and returns how many it took; the
callbacks do not look at the result.
-/

namespace LibComm.ProxyStream
open ByteMemory SendCall
open RecvTask (Chunk Callbacks)

structure Connected (s : Proxy.State) : Prop where
  pipe : ∃ q, s.ipc.ipcStreamHandle = some q ∧ 0 ≤ (s.ipc.memory q.addr).fd
  tcp : ∃ p, s.tcp.pTcpUser = some p ∧ 0 ≤ (s.tcp.clients p.id).fd

/-- A chunk that is received, the rest of the receive buffer and the mapping at that time, and what
the `send` for it answers. -/
structure Forward where
  chunk : Chunk
  recvMsg : ℕ → UInt8
  state : Proxy.State
  connected : Connected state
  error : ℤ
  sent : 1 ≤ error ∧ error ≤ chunk.bytes.length

def transmitted (a : Args) (error : ℤ) : List UInt8 :=
  a.request.elim [] fun bs => bs.take error.toNat

def tcpIpv4RecvFunc (f : Forward) (data : List UInt8) (size : ℕ) : List UInt8 :=
  transmitted ⟨f.state.ipc.ipcStreamHandle.map fun q => (f.state.ipc.memory q.addr).fd,
    some (store f.recvMsg 0 data), .ofNat size⟩ f.error

def ipcStreamRecvFunc (f : Forward) (data : List UInt8) (size : ℕ) : List UInt8 :=
  match f.state.tcp.pTcpUser with
  | none => []
  | some p =>
    transmitted ⟨some (f.state.tcp.clients p.id).fd, some (store f.recvMsg 0 data), .ofNat size⟩
      f.error

structure Ends where
  task : RecvTask.Task
  receiving : 0 < task.fd ∧ task.calls = []
  client : StreamClient.Client
  running : client.running = true ∧ client.calls = []

def proxyCallbacks : Callbacks := ⟨true, true⟩

def onTcp (f : Forward) : RecvTask.Callback → List UInt8
  | .recv data size => tcpIpv4RecvFunc f data size
  | .exit => []

def onIpc (f : Forward) : StreamClient.Callback → List UInt8
  | .recv data size => ipcStreamRecvFunc f data size
  | .exit _ => []

def toPipe (e : Ends) (fs : List Forward) : List UInt8 :=
  (List.zipWith onTcp fs (RecvTask.tcpIpv4ServerRecvTask proxyCallbacks
    (fs.map fun f => .data f.chunk) e.task).1.calls).flatten

def toTcp (e : Ends) (fs : List Forward) : List UInt8 :=
  (List.zipWith onIpc fs (fs.foldl (fun c f =>
    StreamClient.ipcStreamClientRecvTask proxyCallbacks (.data f.chunk) c) e.client).calls).flatten

@[simp] theorem proxyCallbacks_recvFunc : proxyCallbacks.recvFunc = true := rfl

theorem tcp_calls (fs : List Forward) {s : RecvTask.Task} (h : 0 < s.fd) :
    (RecvTask.tcpIpv4ServerRecvTask proxyCallbacks (fs.map fun f => .data f.chunk) s).1.calls =
      s.calls ++ fs.map fun f => .recv f.chunk.bytes f.chunk.bytes.length := by
  induction fs generalizing s with
  | nil => simp [RecvTask.tcpIpv4ServerRecvTask, RecvTask.tcpServerRecvTask, h]
  | cons f fs ih =>
    have hlen : ¬ (RecvTask.Outcome.data f.chunk).len ≤ 0 := by
      simpa [RecvTask.Outcome.len] using List.ne_nil_of_length_pos f.chunk.pos
    have hrec := ih (s := s.receive proxyCallbacks (.data f.chunk)) (by simpa using h)
    simp only [RecvTask.tcpIpv4ServerRecvTask] at hrec ⊢
    simp only [List.map_cons, RecvTask.tcpServerRecvTask, h, hlen, if_true, if_false, hrec,
      RecvTask.receive_calls, proxyCallbacks_recvFunc, List.append_assoc, List.singleton_append]

theorem ipc_calls (fs : List Forward) {c : StreamClient.Client} (h : c.running = true) :
    (fs.foldl (fun c f =>
        StreamClient.ipcStreamClientRecvTask proxyCallbacks (.data f.chunk) c) c).calls =
      c.calls ++ fs.map fun f => .recv f.chunk.bytes f.chunk.bytes.length := by
  induction fs generalizing c with
  | nil => simp
  | cons f fs ih =>
    have hstep : StreamClient.ipcStreamClientRecvTask proxyCallbacks (.data f.chunk) c =
        c.receive proxyCallbacks (.data f.chunk) := StreamClient.recvTask_data h f.chunk
    have hrec := ih (c := c.receive proxyCallbacks (.data f.chunk))
      (by rw [StreamClient.receive_data]; exact h)
    rw [List.foldl_cons, hstep, hrec, StreamClient.receive_data]
    simp

theorem transmitted_chunk {fd : ℤ} (h : 0 ≤ fd) (f : Forward) :
    transmitted ⟨some fd, some (store f.recvMsg 0 f.chunk.bytes), .ofNat f.chunk.bytes.length⟩
      f.error = f.chunk.bytes.take f.error.toNat := by
  have hpos := f.chunk.pos
  have hle : f.chunk.bytes.length ≤ 8191 := f.chunk.le
  have hsize : (UInt16.ofNat f.chunk.bytes.length).toNat = f.chunk.bytes.length :=
    UInt16.toNat_ofNat_of_lt' (by simp only [UInt16.size]; omega)
  have hne : UInt16.ofNat f.chunk.bytes.length ≠ 0 := by
    intro h0
    have hz := congrArg UInt16.toNat h0
    rw [hsize, UInt16.toNat_zero] at hz
    omega
  rw [transmitted, request_eq rfl h rfl hne, Option.elim_some]
  simp only [hsize, load_store]

theorem toPipe_eq (e : Ends) (fs : List Forward) :
    toPipe e fs = fs.flatMap fun f => f.chunk.bytes.take f.error.toNat := by
  have hcall : ∀ f : Forward, tcpIpv4RecvFunc f f.chunk.bytes f.chunk.bytes.length =
      f.chunk.bytes.take f.error.toNat := by
    intro f
    obtain ⟨q, hq, hfd⟩ := f.connected.pipe
    simp only [tcpIpv4RecvFunc, hq, Option.map_some]
    exact transmitted_chunk hfd f
  rw [toPipe, tcp_calls fs e.receiving.1, e.receiving.2, List.nil_append, List.zipWith_map_right,
    List.zipWith_self]
  simp only [onTcp, hcall, List.flatMap]

theorem toTcp_eq (e : Ends) (fs : List Forward) :
    toTcp e fs = fs.flatMap fun f => f.chunk.bytes.take f.error.toNat := by
  have hcall : ∀ f : Forward, ipcStreamRecvFunc f f.chunk.bytes f.chunk.bytes.length =
      f.chunk.bytes.take f.error.toNat := by
    intro f
    obtain ⟨p, hp, hfd⟩ := f.connected.tcp
    simp only [ipcStreamRecvFunc, hp]
    exact transmitted_chunk hfd f
  rw [toTcp, ipc_calls fs e.running.1, e.running.2, List.nil_append, List.zipWith_map_right,
    List.zipWith_self]
  simp only [onIpc, hcall, List.flatMap]

theorem flatMap_take_eq_iff {fs : List Forward} :
    (fs.flatMap fun f => f.chunk.bytes.take f.error.toNat) = (fs.flatMap fun f => f.chunk.bytes) ↔
      ∀ f ∈ fs, f.error = f.chunk.bytes.length := by
  have hle : ∀ gs : List Forward, (gs.flatMap fun f => f.chunk.bytes.take f.error.toNat).length ≤
      (gs.flatMap fun f => f.chunk.bytes).length := by
    intro gs
    induction gs with
    | nil => exact le_rfl
    | cons g gs ih =>
      simp only [List.flatMap_cons, List.length_append, List.length_take]
      omega
  constructor
  · intro h
    induction fs with
    | nil => simp
    | cons f fs ih =>
      -- a short send makes the whole stream shorter, as the later ones cannot make up for it
      have hlen := congrArg List.length h
      have hrest := hle fs
      have hsent := f.sent
      simp only [List.flatMap_cons, List.length_append, List.length_take] at hlen
      have hf : f.error = f.chunk.bytes.length := by omega
      have htake : f.chunk.bytes.take f.error.toNat = f.chunk.bytes := by simp [hf]
      simp only [List.flatMap_cons, htake] at h
      simpa [hf] using ih (List.append_cancel_left h)
  · intro h
    refine List.flatMap_congr fun f hf => ?_
    simp [h f hf]

/-- Both directions transmit what is received exactly if every `send` takes its whole chunk. -/
theorem proxy_transparent (e : Ends) (fs gs : List Forward) :
    (toPipe e fs = (fs.flatMap fun f => f.chunk.bytes) ∧
        toTcp e gs = gs.flatMap fun f => f.chunk.bytes) ↔
      ∀ f ∈ fs ++ gs, f.error = f.chunk.bytes.length := by
  rw [toPipe_eq, toTcp_eq, flatMap_take_eq_iff, flatMap_take_eq_iff, List.forall_mem_append]

def mapping : Proxy.State where
  tcp := { Proxy.proxyLaunchTcp with
    tcpConnect := true, pTcpUser := some ⟨0, 0⟩, clients := fun _ => ⟨0, 4, .loop, false⟩ }
  ipc := { Proxy.ipcStart with
    pipeConnect := true, ipcStreamHandle := some ⟨0, 0⟩, memory := fun _ => ⟨0, 5, true, true⟩ }

def short : Forward where
  chunk := ⟨[7, 8], by decide, by decide⟩
  recvMsg := fun _ => 0
  state := mapping
  connected := ⟨⟨⟨0, 0⟩, rfl, by decide⟩, ⟨⟨0, 0⟩, rfl, by decide⟩⟩
  error := 1
  sent := by decide

def started : Ends where
  task := ⟨0, 4, [], [], .init 1, false⟩
  receiving := by decide
  client := ⟨5, true, true, .live, 1, [], 0⟩
  running := by decide

theorem proxy_transparent_fails : ¬ ∀ (e : Ends) (fs gs : List Forward),
    toPipe e fs = (fs.flatMap fun f => f.chunk.bytes) ∧
      toTcp e gs = gs.flatMap fun f => f.chunk.bytes := by
  intro hclaim
  have h := (hclaim started [short] []).1
  rw [toPipe_eq, flatMap_take_eq_iff] at h
  exact absurd (h short List.mem_cons_self) (by decide)

end LibComm.ProxyStream

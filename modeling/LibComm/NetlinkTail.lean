import LibComm.Netlink

/-!
# What a netlink send takes along

`comm_netlinkSendToKernel` copies its data to the front of the send buffer, and
`sendmsg` is handed the whole buffer. What stands behind the data is what the
earlier calls have left there: at each offset the byte of the last data that
was long enough to reach it.
-/

namespace LibComm.NetlinkTail
open ByteMemory SendCall Netlink
open RecvTask (commBufSize)

def payload (a : Call) : List UInt8 := Args.data ⟨none, a.pData, a.size⟩

def sendAll (c : Context) (as : List (Call × ℤ)) : Context :=
  as.foldl (fun c a => (netlinkSendToKernel c a.1 a.2).context) c

/-- What the calls leave at an offset where `b` has been. -/
def residue (b : UInt8) (i : ℕ) (as : List (Call × ℤ)) : UInt8 :=
  as.foldl (fun b a => (payload a.1)[i]?.getD b) b

variable {c : Context} {a : Call} {error : ℤ}

theorem request_cases (hfd : 0 ≤ c.fd) :
    a.request c = some (payload a) ∨ a.request c = none ∧ payload a = [] := by
  cases hp : a.pData with
  | none => exact .inr (by simp [Call.request, Args.request, payload, Args.data, hp])
  | some m =>
    by_cases hs : a.size = 0
    · exact .inr (by simp [Call.request, Args.request, payload, Args.data, hp, hs, load])
    · apply Or.inl
      have hr := request_eq (a := ⟨some c.fd, some m, a.size⟩) rfl hfd rfl hs
      simp only [Call.request, payload, Args.data, hp, hr, Option.elim_some]

theorem store_header {m : ℕ → UInt8} {j i : ℕ} {bs : List UInt8} (h : j + bs.length ≤ nlmsgHdrlen) :
    store m j bs (nlmsgHdrlen + i) = m (nlmsgHdrlen + i) :=
  store_of_ge (by omega)

theorem write_payload (a : Call) (m : ℕ → UInt8) (data : List UInt8) (i : ℕ) :
    a.write m data (nlmsgHdrlen + i) = data[i]?.getD (m (nlmsgHdrlen + i)) := by
  rw [Call.write, store_add]
  congr 1
  rw [store_header (by simp), store_header (by simp), store_header (by simp),
    store_header (by simp)]

theorem write_pid (a : Call) (m : ℕ → UInt8) (data : List UInt8) {j : ℕ} (h : 12 ≤ j)
    (hj : j < nlmsgHdrlen) : a.write m data j = m j := by
  rw [Call.write, store_of_lt hj, store_of_ge (by simp; omega), store_of_ge (by simp; omega),
    store_of_ge (by simp; omega), store_of_ge (by simp; omega)]

theorem write_header (a : Call) (m m' : ℕ → UInt8) (data data' : List UInt8) {j : ℕ}
    (h : j < 12) : a.write m data j = a.write m' data' j := by
  obtain ⟨hlen, htype, hflags, hseq, -⟩ := holds_write a m data
  obtain ⟨hlen', htype', hflags', hseq', -⟩ := holds_write a m' data'
  have agree : ∀ {k : ℕ} {bs : List UInt8}, Holds (a.write m data) k bs →
      Holds (a.write m' data') k bs → k ≤ j → j < k + bs.length →
        a.write m data j = a.write m' data' j := by
    intro k bs hb hb' hk hj
    obtain ⟨i, rfl⟩ := Nat.exists_eq_add_of_le hk
    have hi : i < bs.length := by omega
    rw [hb.getElem hi, hb'.getElem hi]
  by_cases h4 : j < 4
  · exact agree hlen hlen' (by omega) (by simpa using h4)
  by_cases h6 : j < 6
  · exact agree htype htype' (by omega) (by simpa using h6)
  by_cases h8 : j < 8
  · exact agree hflags hflags' (by omega) (by simpa using h8)
  · exact agree hseq hseq' (by omega) (by simpa using h)

theorem send_context (hfd : 0 ≤ c.fd) (a : Call) (error : ℤ) :
    (netlinkSendToKernel c a error).context.fd = c.fd ∧
    (netlinkSendToKernel c a error).context.sendIovLen = c.sendIovLen ∧
    (∀ j, 12 ≤ j → j < nlmsgHdrlen →
      (netlinkSendToKernel c a error).context.sendNlHdr j = c.sendNlHdr j) ∧
    ∀ i, (netlinkSendToKernel c a error).context.sendNlHdr (nlmsgHdrlen + i) =
      (payload a)[i]?.getD (c.sendNlHdr (nlmsgHdrlen + i)) := by
  obtain hr | ⟨hr, hp⟩ := request_cases (a := a) hfd
  · simp only [netlinkSendToKernel, hr, true_and]
    exact ⟨fun j h hj => write_pid a _ _ h hj, fun i => write_payload a _ _ i⟩
  · simp [netlinkSendToKernel, hr, hp]

theorem sendAll_context (hfd : 0 ≤ c.fd) (as : List (Call × ℤ)) :
    (sendAll c as).fd = c.fd ∧ (sendAll c as).sendIovLen = c.sendIovLen ∧
    (∀ j, 12 ≤ j → j < nlmsgHdrlen → (sendAll c as).sendNlHdr j = c.sendNlHdr j) ∧
    ∀ i, (sendAll c as).sendNlHdr (nlmsgHdrlen + i) =
      residue (c.sendNlHdr (nlmsgHdrlen + i)) i as := by
  induction as generalizing c with
  | nil => exact ⟨rfl, rfl, fun _ _ _ => rfl, fun _ => rfl⟩
  | cons a as ih =>
    obtain ⟨hf, hl, hp, hb⟩ := send_context hfd a.1 a.2
    obtain ⟨hf', hl', hp', hb'⟩ := ih (c := (netlinkSendToKernel c a.1 a.2).context) (by omega)
    refine ⟨hf'.trans hf, hl'.trans hl, fun j h hj => (hp' j h hj).trans (hp j h hj), fun i => ?_⟩
    have hi := hb' i
    rw [hb i] at hi
    exact hi

theorem sent_byte (error : ℤ) (hfd : 0 ≤ c.fd) (as : List (Call × ℤ))
    (hr : a.request c = some (payload a)) :
    ∃ m, (netlinkSendToKernel (sendAll c as) a error).iov = some (load m 0 c.sendIovLen) ∧
      (∀ j < 12, m j = a.write c.sendNlHdr (payload a) j) ∧
      (∀ j, 12 ≤ j → j < nlmsgHdrlen → m j = c.sendNlHdr j) ∧
      ∀ i, m (nlmsgHdrlen + i) =
        (payload a)[i]?.getD (residue (c.sendNlHdr (nlmsgHdrlen + i)) i as) := by
  obtain ⟨hf, hl, hp, hb⟩ := sendAll_context hfd as
  have hr' : a.request (sendAll c as) = some (payload a) := by
    simpa only [Call.request, hf] using hr
  refine ⟨a.write (sendAll c as).sendNlHdr (payload a), ?_, ?_, ?_, ?_⟩
  · rw [sent_iov hr', hl]
  · exact fun j h => write_header a _ _ _ _ h
  · exact fun j h hj => (write_pid a _ _ h hj).trans (hp j h hj)
  · intro i
    rw [write_payload, hb i]

variable {c₁ c₂ : Context} {fd fd₁ fd₂ : ℤ} {bound bound₁ bound₂ recv recv₁ recv₂ : Bool}
  {m : ℕ → UInt8} {pid : UInt32}

theorem netlinkInit_context (h : netlinkInit fd bound (some m) recv pid = some c) :
    0 ≤ c.fd ∧ c.sendIovLen = sendBufSize ∧
      c.sendNlHdr = store (store (store (store (store (store m 4 (le16 0)) 0
        (le32 (nlmsgSpace commBufSize))) 12 (le32 pid.toNat)) 8 (le32 0)) 6 (le16 0))
        nlmsgHdrlen [0] := by
  have hlen := netlinkInit_sendIovLen h
  simp only [netlinkInit, Option.ite_none_left_eq_some, Option.ite_none_right_eq_some,
    Option.some.injEq] at h
  obtain ⟨hfd, -, rfl⟩ := h
  exact ⟨by simp only; omega, hlen, rfl⟩

theorem netlinkInit_payload (h : netlinkInit fd bound (some m) recv pid = some c) {i : ℕ}
    (hi : 0 < i) : c.sendNlHdr (nlmsgHdrlen + i) = m (nlmsgHdrlen + i) := by
  rw [(netlinkInit_context h).2.2, store_of_ge (by simp only [List.length_singleton]; omega),
    store_header (by simp), store_header (by simp), store_header (by simp), store_header (by simp),
    store_header (by simp)]

/-- The bytes handed to `sendmsg` for a message are the same after two histories exactly if the
histories have left the same bytes behind its data. -/
theorem sends_alike (h₁ : netlinkInit fd₁ bound₁ (some m) recv₁ pid = some c₁)
    (h₂ : netlinkInit fd₂ bound₂ (some m) recv₂ pid = some c₂) (as₁ as₂ : List (Call × ℤ))
    (hp : a.pData ≠ none) (h0 : 0 < a.size.toNat) (error₁ error₂ : ℤ) :
    (netlinkSendToKernel (sendAll c₁ as₁) a error₁).iov =
        (netlinkSendToKernel (sendAll c₂ as₂) a error₂).iov ↔
      ∀ i, a.size.toNat ≤ i → i < payloadSize →
        residue (m (nlmsgHdrlen + i)) i as₁ = residue (m (nlmsgHdrlen + i)) i as₂ := by
  obtain ⟨hfd₁, hl₁, hm₁⟩ := netlinkInit_context h₁
  obtain ⟨hfd₂, hl₂, hm₂⟩ := netlinkInit_context h₂
  have hm : c₁.sendNlHdr = c₂.sendNlHdr := hm₁.trans hm₂.symm
  obtain ⟨p, hpd⟩ := Option.ne_none_iff_exists'.mp hp
  have hlen : (payload a).length = a.size.toNat := by simp [payload, Args.data, hpd]
  have request : ∀ {c : Context}, 0 ≤ c.fd → a.request c = some (payload a) := by
    intro c hc
    refine (request_cases hc).resolve_right ?_
    intro hx
    obtain ⟨-, hnil⟩ := hx
    rw [hnil] at hlen
    simp at hlen
    omega
  obtain ⟨m₁, hiov₁, hhdr₁, hpid₁, hb₁⟩ := sent_byte error₁ hfd₁ as₁ (request hfd₁)
  obtain ⟨m₂, hiov₂, hhdr₂, hpid₂, hb₂⟩ := sent_byte error₂ hfd₂ as₂ (request hfd₂)
  rw [hiov₁, hiov₂, hl₁, hl₂, Option.some.injEq, load_eq_load_iff]
  have hbyte : ∀ i, a.size.toNat ≤ i → (m₁ (nlmsgHdrlen + i) = m₂ (nlmsgHdrlen + i) ↔
      residue (m (nlmsgHdrlen + i)) i as₁ = residue (m (nlmsgHdrlen + i)) i as₂) := by
    intro i hi
    have hnone : (payload a)[i]? = none := List.getElem?_eq_none (by omega)
    rw [hb₁, hb₂, hnone, netlinkInit_payload h₁ (by omega), netlinkInit_payload h₂ (by omega)]
    rfl
  constructor
  · intro hall i hi hlt
    rw [← hbyte i hi]
    apply hall
    rw [payloadSize_eq] at hlt
    rw [nlmsgHdrlen_eq, sendBufSize_eq]
    omega
  · intro hres j hj
    by_cases h12 : j < 12
    · rw [hhdr₁ j h12, hhdr₂ j h12, hm]
    by_cases h16 : j < nlmsgHdrlen
    · rw [hpid₁ j (by omega) h16, hpid₂ j (by omega) h16, hm]
    obtain ⟨i, rfl⟩ := Nat.exists_eq_add_of_le (not_lt.mp h16)
    by_cases hi : a.size.toNat ≤ i
    · rw [hbyte i hi]
      apply hres i hi
      rw [nlmsgHdrlen_eq, sendBufSize_eq] at hj
      rw [payloadSize_eq]
      omega
    · have hlt : i < (payload a).length := by omega
      rw [hb₁, hb₂, List.getElem?_eq_getElem hlt]
      rfl

def secret : Call := ⟨some fun i => [115, 101, 99, 114, 101, 116].getD i 0, 6, 1, 2, 3⟩

theorem initialized_init : netlinkInit 3 true (some fun _ => 0) true 100 = some initialized := rfl

theorem sends_alike_hello :
    (netlinkSendToKernel (sendAll initialized []) hello 21).iov =
        (netlinkSendToKernel (sendAll initialized [(hello, 21)]) hello 21).iov ↔
      ∀ i, hello.size.toNat ≤ i → i < payloadSize →
        residue 0 i [] = residue 0 i [(hello, 21)] :=
  sends_alike initialized_init initialized_init [] [(hello, 21)] (by decide) (by decide) 21 21

/-- The message "hello" takes along the last byte of an earlier "secret". -/
theorem sends_alike_fails : ¬ ∀ (m : ℕ → UInt8) (pid : UInt32) (fd₁ fd₂ : ℤ) (c₁ c₂ : Context),
    netlinkInit fd₁ true (some m) true pid = some c₁ →
    netlinkInit fd₂ true (some m) true pid = some c₂ →
    ∀ (as₁ as₂ : List (Call × ℤ)) (a : Call), a.pData ≠ none → 0 < a.size.toNat →
      a.size.toNat ≤ payloadSize → ∀ error₁ error₂ : ℤ,
        (netlinkSendToKernel (sendAll c₁ as₁) a error₁).iov =
          (netlinkSendToKernel (sendAll c₂ as₂) a error₂).iov := by
  intro hclaim
  have heq := hclaim _ _ _ _ _ _ initialized_init initialized_init [] [(secret, 22)] hello
    (by decide) (by decide) (by decide) 21 21
  have hfd : 0 ≤ initialized.fd := by decide
  obtain ⟨m₁, hiov₁, -, -, hb₁⟩ := sent_byte 21 hfd [] hello_request
  obtain ⟨m₂, hiov₂, -, -, hb₂⟩ := sent_byte 21 hfd [(secret, 22)] hello_request
  rw [hiov₁, hiov₂, Option.some.injEq, load_eq_load_iff] at heq
  have hbyte := heq (nlmsgHdrlen + 5) (by decide)
  rw [hb₁, hb₂, netlinkInit_payload initialized_init (by decide)] at hbyte
  exact absurd hbyte (by decide)

end LibComm.NetlinkTail

import LibComm.ByteMemory
import LibComm.Connections

/-!
# A send to all clients while the server runs

`ServerSendAllClient` takes no lock. For each slot it reads the pointer, then
twice the descriptor of the user that it points to, and once more after a
`send` that fails; between any two of these reads the listening thread may fill
slots and the receive threads may clear them and free their users. What a
`send` reaches is the connection that the number refers to at that time.
-/

namespace LibComm.BroadcastRace
open ByteMemory ClientTable Connections Interleaving SlotLiveness StreamServer

/-- The statements of `ServerSendAllClient`, with the slot and the pointer read from it; at
`undefined` it has read a user that was freed. -/
inductive CastPc where
  | userNum
  | slot (i : ℕ)
  | testFd (i : ℕ) (p : Ptr)
  | loadFd (i : ℕ) (p : Ptr)
  | send (i : ℕ) (p : Ptr) (fd : ℤ)
  | logFd (i : ℕ) (p : Ptr)
  | returned
  | undefined
  deriving DecidableEq

/-- A `send` for a user, on the number read from it, and the client whose connection that was. -/
structure Sent where
  user : ℕ
  fd : ℤ
  conn : Option ℕ
  data : List UInt8

structure Cast where
  server : State
  pc : CastPc
  sent : List Sent

inductive Label where
  | server (l : StreamServer.Label)
  | cast
  | sendReturns (error : ℤ)

def request (pData : Option (ℕ → UInt8)) (size : UInt16) : Option (List UInt8) :=
  pData.bind fun m => if size = 0 then none else some (load m 0 size.toNat)

namespace Cast
variable (σ : Setup) (data : Option (List UInt8))

def goto (c : Cast) (pc : CastPc) : Cast := { c with pc := pc }

def reads (c : Cast) (p : Ptr) (next : Client → CastPc) : Cast :=
  let u := c.server.clients p.id
  c.goto (if u.frees = 0 then next u else .undefined)

def castStep (c : Cast) : Option Cast :=
  match c.pc with
  | .userNum =>
    some (c.goto (if c.server.table.userNum = 0 ∨ data = none then .returned else .slot 0))
  | .slot i =>
    if hi : i < tcpUserNum ∧ (i : ℤ) < c.server.table.maxUserNum then
      some (c.goto ((c.server.table.pUser ⟨i, hi.1⟩).elim (.slot (i + 1)) (.testFd i)))
    else some (c.goto .returned)
  | .testFd i p => some (c.reads p fun u => if u.fd > 0 then .loadFd i p else .slot (i + 1))
  | .loadFd i p => some (c.reads p fun u => .send i p u.fd)
  | .logFd i p => some (c.reads p fun _ => .slot (i + 1))
  | .send _ _ _ => none
  | .returned => none
  | .undefined => none

def sendReturns (c : Cast) (error : ℤ) : Option Cast :=
  match c.pc with
  | .send i p fd =>
    some { c with
      sent := c.sent ++ [⟨p.id, fd, connection c.server fd, data.getD []⟩]
      pc := if error < 0 then .logFd i p else .slot (i + 1) }
  | _ => none

def step (c : Cast) : Label → Option Cast
  | .server l => (StreamServer.step σ c.server l).map fun s => { c with server := s }
  | .cast => c.castStep data
  | .sendReturns error => c.sendReturns data error

end Cast

/-- The server's own threads, of which none searches the table before its user has been entered. -/
def Orderly (c : Cast) : Label → Prop
  | .server l => Serving l ∧ SearchAfterEntry c.server l
  | _ => True

instance (c : Cast) : ∀ l, Decidable (Orderly c l)
  | .server _ => inferInstanceAs (Decidable (_ ∧ _))
  | .cast => .isTrue trivial
  | .sendReturns _ => .isTrue trivial

structure Seen (s : State) (k i : ℕ) : Prop where
  pc : (s.clients k).pc ≠ .absent
  hand : s.listener.hand ≠ some k
  slot : ∀ j p, s.table.pUser j = some p → p.id = k → j.val = i

section Server
variable {σ : Setup} {s t : State} {l : StreamServer.Label} {k i : ℕ}

structure Kept (l : StreamServer.Label) (k : ℕ) (c c' : Client) : Prop where
  pc : c'.pc ≠ .absent
  sock : c'.sock = c.sock
  fd : c'.fd = c.fd ∨ c'.fd = -1
  frees : c'.frees = c.frees + if l = .thread k ∧ c.pc = .disconnect .free then 1 else 0

theorem kept_same {c : Client} (hpc : c.pc ≠ .absent)
    (hl : l = .thread k → c.pc ≠ .disconnect .free) : Kept l k c c where
  pc := hpc
  sock := rfl
  fd := .inl rfl
  frees := by
    rw [if_neg fun h => hl h.1 h.2]
    rfl

theorem kept_other {c : Client} {j : ℕ} (hpc : (s.clients k).pc ≠ .absent) (hjk : k ≠ j)
    (hl : l = .thread k → (s.clients k).pc ≠ .disconnect .free) :
    Kept l k (s.clients k) (Function.update s.clients j c k) := by
  rw [Function.update_of_ne hjk]
  exact kept_same hpc hl

theorem move_client (hs : Tracked s) (hm : Move σ s l t) (hpc : (s.clients k).pc ≠ .absent)
    (hh : s.listener.hand ≠ some k) : Kept l k (s.clients k) (t.clients k) := by
  cases hm with
  | control hl =>
    exact kept_same hpc fun h => absurd h (hl k)
  | listenFails | finish | increment | writeSlot =>
    exact kept_same hpc (by simp)
  | accept =>
    exact kept_other hpc (hs.lt hpc).ne (by simp)
  | @malloc a j i hl | @created j i hl | @notCreated j i hl | @acptFunc j i hl | @refuse j hl =>
    have hjk : k ≠ j := fun h => hh (by simp [hl, h])
    exact kept_other hpc hjk (by simp)
  | @search j hj | @decrement j hj =>
    by_cases hjk : k = j
    · subst hjk
      exact ⟨by simp, by simp, by simp, by simp [hj]⟩
    · exact kept_other hpc hjk fun h => by simp_all
  | @advance j c hs hd hc =>
    by_cases hjk : k = j
    · subst hjk
      obtain ⟨-, hsock, -, hpc'⟩ := advance_record hc
      obtain ⟨hfd, hfrees⟩ := advance_fd hc
      exact ⟨by simpa using hpc', by simpa using hsock, by simpa using hfd, by simpa using hfrees⟩
    · exact kept_other hpc hjk fun h => by simp_all
  | @recv j len hj =>
    by_cases hjk : k = j
    · subst hjk
      refine ⟨?_, by simp, by simp, by simp⟩
      simp only [State.setClient, Function.update_self, Client.at]
      split_ifs <;> simp
    · exact kept_other hpc hjk (by simp)

theorem move_hand (hm : Move σ s l t) (h : t.listener.hand = some k) :
    s.listener.hand = some k ∨ k = s.accepted := by
  cases hm with
  | control hl hh hc => exact .inl (hc.hand k h)
  | listenFails | finish | increment | writeSlot => simp at h
  | accept => exact .inr (by simpa using h.symm)
  | malloc hl | created hl | notCreated hl | acptFunc hl => exact .inl (by simpa [hl] using h)
  | refuse => simp at h
  | search | decrement | advance | recv => exact .inl h

theorem move_slot (hm : Move σ s l t) {j : Fin tcpUserNum} {p : Ptr}
    (h : t.table.pUser j = some p) :
    s.table.pUser j = some p ∨ s.listener.hand = some p.id := by
  cases hm with
  | control | listenFails | finish | accept | malloc | created | notCreated => exact .inl h
  | acptFunc | increment | refuse | advance | recv | decrement => exact .inl h
  | search => exact .inl (search_pUser h)
  | @writeSlot k i hl =>
    by_cases hj : j = i
    · obtain rfl : _ = p := by simpa [hj] using h
      exact .inr (by simp [hl])
    · exact .inl (by simpa [hj] using h)

theorem Seen.move (h : Seen s k i) (hs : Tracked s) (hm : Move σ s l t) : Seen t k i where
  pc := (move_client hs hm h.pc h.hand).pc
  hand hk := by
    obtain hk | hk := move_hand hm hk
    · exact h.hand hk
    · exact absurd (hs.lt h.pc) (by omega)
  slot j p hp hk := by
    obtain hp | hp := move_slot hm hp
    · exact h.slot j p hp hk
    · exact absurd (hk ▸ hp) h.hand

theorem seen_of_entry (h : Entered s) {j : Fin tcpUserNum} {p : Ptr}
    (hp : s.table.pUser j = some p) : Seen s p.id j where
  pc := h.slot j p hp
  hand hk := h.fresh p.id j p hk hp rfl
  slot j' q hq hk := congrArg Fin.val (h.slots j' j q p hq hp hk)

def Owns (s : State) : Prop := ∀ k, (s.clients k).fd = (s.clients k).sock ∨ (s.clients k).fd = -1

theorem owns_update {c : Client} (h : Owns s) (hc : c.fd = c.sock ∨ c.fd = -1) (j : ℕ) :
    ∀ k, (Function.update s.clients j c k).fd = (Function.update s.clients j c k).sock ∨
      (Function.update s.clients j c k).fd = -1 := by
  intro k
  by_cases hk : k = j
  · subst hk
    simpa using hc
  · simpa [hk] using h k

theorem Owns.move (h : Owns s) (hm : Move σ s l t) : Owns t := by
  cases hm with
  | control | listenFails | finish | increment | writeSlot => exact h
  | accept => exact owns_update h (by simp [Client.absent]) _
  | malloc => exact owns_update h (by simp) _
  | @created k | @notCreated k | @refuse k | @search k | @decrement k | @recv k =>
    refine owns_update h ?_ _
    exact h k
  | @acptFunc k i hl =>
    refine owns_update h ?_ _
    unfold Client.log
    split_ifs <;> exact h k
  | @advance k c hs hd hc =>
    obtain ⟨-, hsock, -, -⟩ := advance_record hc
    refine owns_update h ?_ _
    obtain hfd | hfd := (advance_fd hc).1
    · simpa [hfd, hsock] using h k
    · exact .inr hfd

end Server

@[simp] def CastPc.hand : CastPc → Option (ℕ × Ptr)
  | .testFd i p | .loadFd i p | .send i p _ | .logFd i p => some (i, p)
  | .userNum | .slot _ | .returned | .undefined => none

@[simp] def CastPc.target : CastPc → Option ℕ
  | .testFd _ p | .loadFd _ p | .send _ p _ => some p.id
  | .userNum | .slot _ | .logFd _ _ | .returned | .undefined => none

@[simp] def CastPc.passed : CastPc → ℕ → Prop
  | .userNum, _ => False
  | .slot j, i | .testFd j _, i | .loadFd j _, i | .send j _ _, i => i < j
  | .logFd j _, i => i ≤ j
  | .returned, _ | .undefined, _ => True

/-- Each client that has been sent to was found in one slot, behind the call by now. -/
structure Inv (data : Option (List UInt8)) (c : Cast) : Prop where
  entered : Entered c.server
  owns : Owns c.server
  hand : ∀ i p, c.pc.hand = some (i, p) → Seen c.server p.id i
  target : ∀ k, c.pc.target = some k → ∀ x ∈ c.sent, x.user ≠ k
  fd : ∀ i p fd, c.pc = .send i p fd → fd = (c.server.clients p.id).sock ∨ fd = -1
  sent : ∀ x ∈ c.sent, ∃ i, c.pc.passed i ∧ Seen c.server x.user i
  nodup : (c.sent.map Sent.user).Nodup
  sock : ∀ x ∈ c.sent, x.fd = (c.server.clients x.user).sock ∨ x.fd = -1
  whole : ∀ x ∈ c.sent, data = some x.data
  given : data = none → c.pc = .userNum ∨ c.pc = .returned

section Calls
variable {σ : Setup} {data : Option (List UInt8)} {c t : Cast} {l : Label} {s : State}

def start (σ : Setup) : Cast := ⟨serverInit σ, .userNum, []⟩

theorem inv_start : Inv data (start σ) where
  entered := entered_init σ
  owns _ := .inr rfl
  hand := by simp [start]
  target := by simp [start]
  fd := by simp [start]
  sent := by simp [start]
  nodup := by simp [start]
  sock := by simp [start]
  whole := by simp [start]
  given _ := .inl rfl

theorem Inv.server (h : Inv data c) {m : StreamServer.Label} (hm : Move σ c.server m s)
    (hg : SearchAfterEntry c.server m) : Inv data { c with server := s } := by
  have hs := h.entered.toTracked
  have hsock : ∀ k i, Seen c.server k i → (s.clients k).sock = (c.server.clients k).sock :=
    fun k i hk => (move_client hs hm hk.pc hk.hand).sock
  refine ⟨h.entered.move hm hg, h.owns.move hm, fun i p hp => (h.hand i p hp).move hs hm, h.target,
    fun i p fd hp => ?_, fun x hx => ?_, h.nodup, fun x hx => ?_, h.whole, h.given⟩
  · dsimp only at hp ⊢
    rw [hsock p.id i (h.hand i p (by simp [hp]))]
    exact h.fd i p fd hp
  · obtain ⟨i, hi, hx⟩ := h.sent x hx
    exact ⟨i, hi, hx.move hs hm⟩
  · obtain ⟨i, -, hseen⟩ := h.sent x hx
    dsimp only
    rw [hsock x.user i hseen]
    exact h.sock x hx

theorem Inv.goto (h : Inv data c) {pc : CastPc}
    (hhand : ∀ i p, pc.hand = some (i, p) → Seen c.server p.id i)
    (htarget : ∀ k, pc.target = some k → ∀ x ∈ c.sent, x.user ≠ k)
    (hfd : ∀ i p fd, pc = .send i p fd → fd = (c.server.clients p.id).sock ∨ fd = -1)
    (hpassed : ∀ i, c.pc.passed i → pc.passed i)
    (hgiven : data = none → pc = .returned) : Inv data (c.goto pc) where
  entered := h.entered
  owns := h.owns
  hand := hhand
  target := htarget
  fd := hfd
  sent x hx := by
    obtain ⟨i, hi, hx⟩ := h.sent x hx
    exact ⟨i, hpassed i hi, hx⟩
  nodup := h.nodup
  sock := h.sock
  whole := h.whole
  given hd := .inr (hgiven hd)

theorem Inv.reads (h : Inv data c) {p : Ptr} {next : Client → CastPc}
    (hn : Inv data (c.goto (next (c.server.clients p.id))))
    (hd : data ≠ none) : Inv data (c.reads p next) := by
  unfold Cast.reads
  dsimp only
  split_ifs
  · exact hn
  · exact h.goto (by simp) (by simp) (by simp) (by simp) fun hx => absurd hx hd

theorem Inv.castStep (h : Inv data c) (ht : c.castStep data = some t) : Inv data t := by
  have hgiven := h.given
  have hhand := h.hand
  have htarget := h.target
  unfold Cast.castStep at ht
  cases hpc : c.pc with
  | userNum =>
    simp only [hpc, Option.some.injEq] at ht
    subst ht
    refine h.goto ?_ ?_ ?_ (by simp [hpc]) fun hd => by simp [hd]
    all_goals split_ifs <;> simp
  | slot i =>
    have hd : data ≠ none := fun hd => by simpa [hpc] using hgiven hd
    simp only [hpc] at ht
    split_ifs at ht with hi
    · obtain rfl := Option.some.inj ht
      cases hp : c.server.table.pUser ⟨i, hi.1⟩ with
      | none =>
        exact h.goto (by simp) (by simp) (by simp) (by simp only [hpc]; simp; omega)
          fun hx => absurd hx hd
      | some p =>
        have hseen := seen_of_entry h.entered hp
        refine h.goto (fun j q hq => ?_) (fun k hk x hx hxk => ?_) (by simp) (by simp [hpc])
          fun hx => absurd hx hd
        · obtain ⟨rfl, rfl⟩ : i = j ∧ p = q := by simpa using hq
          exact hseen
        · -- a client that was sent to before is in a slot before this one
          obtain ⟨j, hj, hx⟩ := h.sent x hx
          obtain rfl : p.id = k := by simpa using hk
          have hji : i = j := hx.slot ⟨i, hi.1⟩ p hp hxk.symm
          rw [hpc] at hj
          simp only [CastPc.passed] at hj
          omega
    · obtain rfl := Option.some.inj ht
      exact h.goto (by simp) (by simp) (by simp) (by simp) fun hx => absurd hx hd
  | testFd i p =>
    have hd : data ≠ none := fun hd => by simpa [hpc] using hgiven hd
    simp only [hpc, Option.some.injEq] at ht
    subst ht
    rw [hpc] at hhand htarget
    refine h.reads ?_ hd
    split_ifs
    · exact h.goto hhand htarget (by simp) (by simp [hpc]) fun hx => absurd hx hd
    · refine h.goto (by simp) (by simp) (by simp) (fun j hj => ?_) fun hx => absurd hx hd
      rw [hpc] at hj
      simp only [CastPc.passed] at hj ⊢
      omega
  | loadFd i p =>
    have hd : data ≠ none := fun hd => by simpa [hpc] using hgiven hd
    simp only [hpc, Option.some.injEq] at ht
    subst ht
    rw [hpc] at hhand htarget
    refine h.reads (h.goto hhand htarget (fun j q fd hq => ?_) (by simp [hpc])
      fun hx => absurd hx hd) hd
    obtain ⟨rfl, rfl, rfl⟩ : i = j ∧ p = q ∧ _ = fd := by simpa using hq
    exact h.owns p.id
  | logFd i p =>
    have hd : data ≠ none := fun hd => by simpa [hpc] using hgiven hd
    simp only [hpc, Option.some.injEq] at ht
    subst ht
    refine h.reads (h.goto (by simp) (by simp) (by simp) (fun j hj => ?_)
      fun hx => absurd hx hd) hd
    rw [hpc] at hj
    simp only [CastPc.passed] at hj ⊢
    omega
  | send i p fd | returned | undefined => simp [hpc] at ht

theorem Inv.sendReturns (h : Inv data c) {error : ℤ} (ht : c.sendReturns data error = some t) :
    Inv data t := by
  unfold Cast.sendReturns at ht
  cases hpc : c.pc with
  | send i p fd =>
    obtain ⟨bs, hbs⟩ : ∃ bs, data = some bs := Option.ne_none_iff_exists'.mp fun hd => by
      simpa [hpc] using h.given hd
    simp only [hpc, Option.some.injEq] at ht
    subst ht
    have hseen := h.hand i p (by simp [hpc])
    have hnew := h.target p.id (by simp [hpc])
    refine ⟨h.entered, h.owns, ?_, ?_, ?_, fun x hx => ?_, ?_, fun x hx => ?_, fun x hx => ?_,
      fun hd => by simp [hbs] at hd⟩
    · dsimp only
      split_ifs
      · intro j q hq
        obtain ⟨rfl, rfl⟩ : i = j ∧ p = q := by simpa using hq
        exact hseen
      · simp
    · dsimp only
      split_ifs <;> simp
    · dsimp only
      split_ifs <;> simp
    · obtain hx | hx := List.mem_append.mp hx
      · obtain ⟨j, hj, hx⟩ := h.sent x hx
        rw [hpc] at hj
        simp only [CastPc.passed] at hj
        refine ⟨j, ?_, hx⟩
        split_ifs <;> simp only [CastPc.passed] <;> omega
      · obtain rfl := List.mem_singleton.mp hx
        refine ⟨i, ?_, hseen⟩
        split_ifs <;> simp
    · rw [List.map_append, List.map_singleton]
      refine h.nodup.append (List.nodup_singleton _) ?_
      simpa using fun x hx => hnew x hx
    · obtain hx | hx := List.mem_append.mp hx
      · exact h.sock x hx
      · obtain rfl := List.mem_singleton.mp hx
        exact h.fd i p fd hpc
    · obtain hx | hx := List.mem_append.mp hx
      · exact h.whole x hx
      · obtain rfl := List.mem_singleton.mp hx
        simp [hbs]
  | userNum | slot i | testFd i p | loadFd i p | logFd i p | returned | undefined =>
    simp [hpc] at ht

theorem Inv.step (h : Inv data c) (hg : Orderly c l) (ht : c.step σ data l = some t) :
    Inv data t := by
  cases l with
  | server m =>
    obtain ⟨s, hs, rfl⟩ := Option.map_eq_some_iff.mp ht
    exact h.server (step_move hs hg.1) hg.2
  | cast => exact h.castStep ht
  | sendReturns error => exact h.sendReturns ht

@[simp] def CastPc.held : CastPc → Option ℤ
  | .send _ _ fd => some fd
  | .userNum | .slot _ | .testFd _ _ | .loadFd _ _ | .logFd _ _ | .returned | .undefined => none

/-- `accept` returns no number that a user or the call still holds. -/
def Fresh (c : Cast) : Label → Prop
  | .server l => Unheld c.server l ∧ ∀ fd ∈ c.pc.held, 0 ≤ fd → l ≠ .acceptReturns fd
  | _ => True

instance (c : Cast) : ∀ l, Decidable (Fresh c l)
  | .server _ => inferInstanceAs (Decidable (_ ∧ ∀ fd ∈ c.pc.held, _))
  | .cast => .isTrue trivial
  | .sendReturns _ => .isTrue trivial

/-- What the call has sent for a user has gone to no other connection, and so will what it is about
to send. -/
structure Reached (c : Cast) : Prop where
  numbered : Numbered c.server
  held : ∀ i p fd, c.pc = .send i p fd → 0 ≤ fd → Only c.server fd p.id
  conn : ∀ x ∈ c.sent, ∀ k ∈ x.conn, k = x.user

theorem castStep_frame (ht : c.castStep data = some t) :
    t.server = c.server ∧ t.sent = c.sent := by
  unfold Cast.castStep at ht
  cases hpc : c.pc with
  | slot i =>
    simp only [hpc] at ht
    split_ifs at ht <;> exact Option.some.inj ht ▸ ⟨rfl, rfl⟩
  | userNum | testFd i p | loadFd i p | logFd i p =>
    simp only [hpc, Option.some.injEq] at ht
    exact ht ▸ ⟨rfl, rfl⟩
  | send i p fd | returned | undefined => simp [hpc] at ht

theorem castStep_send (ht : c.castStep data = some t) {i : ℕ} {p : Ptr} {fd : ℤ}
    (hpc : t.pc = .send i p fd) :
    (c.server.clients p.id).frees = 0 ∧ fd = (c.server.clients p.id).fd := by
  unfold Cast.castStep at ht
  cases hc : c.pc with
  | userNum =>
    simp only [hc, Option.some.injEq] at ht
    subst ht
    simp only [Cast.goto] at hpc
    split_ifs at hpc
  | slot j =>
    simp only [hc] at ht
    split_ifs at ht with hj <;> obtain rfl := Option.some.inj ht
    · cases hp : c.server.table.pUser ⟨j, hj.1⟩ <;> simp [Cast.goto, hp] at hpc
    · simp [Cast.goto] at hpc
  | testFd j q | logFd j q =>
    simp only [hc, Option.some.injEq] at ht
    subst ht
    simp only [Cast.reads, Cast.goto] at hpc
    split_ifs at hpc
  | loadFd j q =>
    simp only [hc, Option.some.injEq] at ht
    subst ht
    simp only [Cast.reads, Cast.goto] at hpc
    split_ifs at hpc with hf
    obtain ⟨-, rfl, rfl⟩ : j = i ∧ q = p ∧ _ = fd := by simpa using hpc
    exact ⟨hf, rfl⟩
  | send j q fd' | returned | undefined => simp [hc] at ht

theorem Reached.step (h : Reached c) (hi : Inv data c) (ho : Orderly c l) (hf : Fresh c l)
    (ht : c.step σ data l = some t) : Reached t := by
  cases l with
  | server m =>
    obtain ⟨s, hs, rfl⟩ := Option.map_eq_some_iff.mp ht
    have hm := step_move hs ho.1
    refine ⟨h.numbered.move hi.entered.toTracked hm hf.1, fun i p fd hp hfd => ?_, h.conn⟩
    dsimp only at hp
    exact (h.held i p fd hp hfd).move hm (hf.2 fd (by simp [hp]) hfd)
  | cast =>
    obtain ⟨hserver, hsent⟩ := castStep_frame ht
    refine ⟨hserver ▸ h.numbered, fun i p fd hp hfd => ?_, hsent ▸ h.conn⟩
    obtain ⟨hfrees, rfl⟩ := castStep_send ht hp
    exact hserver ▸ h.numbered.user p.id hfrees hfd
  | sendReturns error =>
    simp only [Cast.step, Cast.sendReturns] at ht
    cases hpc : c.pc with
    | send i p fd =>
      simp only [hpc, Option.some.injEq] at ht
      subst ht
      refine ⟨h.numbered, fun j q fd' hq => ?_, fun x hx k hk => ?_⟩
      · dsimp only at hq
        split_ifs at hq
      · obtain hx | hx := List.mem_append.mp hx
        · exact h.conn x hx k hk
        · obtain rfl := List.mem_singleton.mp hx
          by_cases hfd : 0 ≤ fd
          · exact (h.held i p fd hpc hfd).connection hk
          · simp [h.numbered.negative (not_le.mp hfd)] at hk
    | userNum | slot j | testFd j q | loadFd j q | logFd j q | returned | undefined =>
      simp [hpc] at ht

theorem reached_start : Reached (start σ) := ⟨numbered_init σ, by simp [start], by simp [start]⟩

theorem reached_exec {ls : List Label} (ho : Obeys (Cast.step σ data) Orderly (start σ) ls)
    (hf : Obeys (Cast.step σ data) Fresh (start σ) ls)
    (hrun : exec (Cast.step σ data) (start σ) ls = some c) : Inv data c ∧ Reached c :=
  invariant (I := fun c => Inv data c ∧ Reached c)
    (fun _ _ _ h hg ht => ⟨h.1.step hg.1 ht, h.2.step h.1 hg.1 hg.2 ht⟩) ⟨inv_start, reached_start⟩
    (ho.and hf) hrun

theorem conns_sublist {xs : List Sent} (h : ∀ x ∈ xs, ∀ k ∈ x.conn, k = x.user) :
    (xs.filterMap Sent.conn).Sublist (xs.map Sent.user) := by
  induction xs with
  | nil => exact .slnil
  | cons x xs ih =>
    have hrest := ih fun y hy => h y (List.mem_cons_of_mem x hy)
    cases hx : x.conn with
    | none => simpa [List.filterMap_cons, hx] using hrest.cons _
    | some k =>
      obtain rfl := h x List.mem_cons_self k hx
      simpa [List.filterMap_cons, hx] using hrest

structure Once (data : Option (List UInt8)) (c : Cast) : Prop where
  users : (c.sent.map Sent.user).Nodup
  conns : (c.sent.filterMap Sent.conn).Nodup
  own : ∀ x ∈ c.sent, x.fd = (c.server.clients x.user).sock ∨ x.fd = -1
  conn : ∀ x ∈ c.sent, ∀ k ∈ x.conn, k = x.user
  whole : ∀ x ∈ c.sent, data = some x.data

section Reach
variable {i : Fin tcpUserNum} {p : Ptr} {bs : List UInt8}

/-- The call finds a client counted. -/
def Counts (c : Cast) : Label → Prop
  | .cast => c.pc = .userNum → c.server.table.userNum ≠ 0
  | _ => True

instance (c : Cast) : ∀ l, Decidable (Counts c l)
  | .server _ => .isTrue trivial
  | .cast => inferInstanceAs (Decidable (_ → _))
  | .sendReturns _ => .isTrue trivial

/-- The client stays in its slot with its descriptor, which stays open. -/
def Stays (i : Fin tcpUserNum) (p : Ptr) (c : Cast) (l : Label) : Prop :=
  c.server.table.pUser i = some p ∧ 0 < (c.server.clients p.id).fd ∧
    (c.server.clients p.id).closes = 0 ∧ Counts c l

instance (i : Fin tcpUserNum) (p : Ptr) (c : Cast) (l : Label) : Decidable (Stays i p c l) :=
  inferInstanceAs (Decidable (_ ∧ _ ∧ _ ∧ _))

def Ahead (i : Fin tcpUserNum) (p : Ptr) (sock : ℤ) : CastPc → Prop
  | .userNum | .undefined => True
  | .slot j => j ≤ i
  | .testFd j q | .loadFd j q => j < i ∨ j = i ∧ q = p
  | .send j q fd => j < i ∨ j = i ∧ q = p ∧ fd = sock
  | .logFd j _ => j < i
  | .returned => False

def Reaches (i : Fin tcpUserNum) (p : Ptr) (sock : ℤ) (bs : List UInt8) (c : Cast) : Prop :=
  (c.server.clients p.id).sock = sock ∧
    (⟨p.id, sock, some p.id, bs⟩ ∈ c.sent ∨ Ahead i p sock c.pc)

theorem ahead_reads {sock : ℤ} {j : ℕ} {q : Ptr} {next : Client → CastPc}
    (hfrees : (c.server.clients p.id).frees = 0) (hq : j < i ∨ j = i ∧ q = p)
    (hbefore : ∀ u, j < i → Ahead i p sock (next u))
    (hown : Ahead i p sock (next (c.server.clients p.id))) :
    Ahead i p sock (c.reads q next).pc := by
  unfold Cast.reads Cast.goto
  dsimp only
  obtain hj | ⟨-, rfl⟩ := hq
  · split_ifs
    · exact hbefore _ hj
    · trivial
  · rw [if_pos hfrees]
    exact hown

theorem ahead_castStep {sock : ℤ} (hi : Inv (some bs) c) (hg : Stays i p c .cast)
    (hsock : (c.server.clients p.id).sock = sock) (ha : Ahead i p sock c.pc)
    (ht : c.castStep (some bs) = some t) : Ahead i p sock t.pc := by
  obtain ⟨hp, hfd, -, hnum⟩ := hg
  have hlive : (c.server.clients p.id).frees = 0 := by
    obtain ⟨hlist, -⟩ := hi.entered.entry i p hp
    have hrun := hi.entered.running p.id (listed_pc hlist).1 (listed_pc hlist).2
    simp only [Client.live, Bool.and_eq_true, beq_iff_eq] at hrun
    exact hrun.2
  unfold Cast.castStep at ht
  cases hpc : c.pc with
  | userNum =>
    simp only [hpc, hnum hpc, Option.some.injEq] at ht
    subst ht
    simp [Cast.goto, Ahead]
  | slot j =>
    rw [hpc] at ha
    have hle : j ≤ i := ha
    have hlimit := hi.entered.below i p hp
    have hguard : j < tcpUserNum ∧ (j : ℤ) < c.server.table.maxUserNum :=
      ⟨hle.trans_lt i.isLt, by omega⟩
    simp only [hpc, dif_pos hguard, Option.some.injEq] at ht
    subst ht
    have hslot : j = i → c.server.table.pUser ⟨j, hguard.1⟩ = some p := by
      intro hj
      rw [← hp]
      exact congrArg _ (Fin.ext hj)
    cases hq : c.server.table.pUser ⟨j, hguard.1⟩ with
    | none =>
      have hne : j ≠ i := fun hj => by simp [hslot hj] at hq
      simp only [Cast.goto, Option.elim_none, Ahead]
      omega
    | some q =>
      simp only [Cast.goto, Option.elim_some, Ahead]
      obtain hj | hj := Nat.lt_or_eq_of_le hle
      · exact .inl hj
      · exact .inr ⟨hj, Option.some.inj (hq.symm.trans (hslot hj))⟩
  | testFd j q =>
    rw [hpc] at ha
    simp only [hpc, Option.some.injEq] at ht
    subst ht
    refine ahead_reads hlive ha (fun u hj => ?_) ?_
    · split_ifs
      · exact .inl hj
      · exact hj
    · rw [if_pos hfd]
      exact ha
  | loadFd j q =>
    rw [hpc] at ha
    simp only [hpc, Option.some.injEq] at ht
    subst ht
    refine ahead_reads hlive ha (fun u hj => .inl hj) ?_
    -- the descriptor is positive, so it is the client's own
    have hown : (c.server.clients p.id).fd = sock := by
      obtain h | h := hi.owns p.id
      · exact h.trans hsock
      · omega
    exact ha.imp_right fun hq => ⟨hq.1, hq.2, hown⟩
  | logFd j q =>
    rw [hpc] at ha
    simp only [hpc, Option.some.injEq] at ht
    subst ht
    have hj : j < i := ha
    exact ahead_reads hlive (.inl hj) (fun u hj => hj) hj
  | send j q fd | returned | undefined => simp [hpc] at ht

theorem Reaches.step {sock : ℤ} (h : Reaches i p sock bs c) (hi : Inv (some bs) c)
    (hr : Reached c) (ho : Orderly c l) (hg : Stays i p c l)
    (ht : c.step σ (some bs) l = some t) : Reaches i p sock bs t := by
  obtain ⟨hsock, h⟩ := h
  cases l with
  | server m =>
    obtain ⟨s, hs, rfl⟩ := Option.map_eq_some_iff.mp ht
    have hseen := seen_of_entry hi.entered hg.1
    have hkept := move_client hi.entered.toTracked (step_move hs ho.1) hseen.pc hseen.hand
    exact ⟨hkept.sock.trans hsock, h⟩
  | cast =>
    obtain ⟨hserver, hsent⟩ := castStep_frame ht
    refine ⟨hserver ▸ hsock, ?_⟩
    rw [hsent]
    exact h.imp_right fun ha => ahead_castStep hi hg hsock ha ht
  | sendReturns error =>
    simp only [Cast.step, Cast.sendReturns] at ht
    cases hpc : c.pc with
    | send j q fd =>
      simp only [hpc, Option.some.injEq] at ht
      subst ht
      refine ⟨hsock, ?_⟩
      rw [hpc] at h
      obtain h | hj | ⟨-, rfl, rfl⟩ := h
      · exact .inl (List.mem_append_left _ h)
      · right
        dsimp only
        split_ifs
        · exact hj
        · exact hj
      · have hlt := hi.entered.toTracked.lt (seen_of_entry hi.entered hg.1).pc
        have hown := hr.numbered.own hlt hg.2.2.1
        rw [hsock] at hown
        exact .inl (List.mem_append_right _ (by simp [hown]))
    | userNum | slot j | testFd j q | loadFd j q | logFd j q | returned | undefined =>
      simp [hpc] at ht

def served : List Label :=
  ([.listenReturns true, .listener, .listener, .acceptReturns 4, .listener, .listener, .listener,
    .mallocReturns (some 100), .createReturns true, .listener, .listener, .listener,
    .listener, .listener, .acceptReturns 5, .listener, .listener, .listener,
    .mallocReturns (some 200), .createReturns true, .listener, .listener,
    .listener] : List StreamServer.Label).map .server

def leaving : List Label :=
  [.cast, .cast, .cast, .server (.thread 0), .server (.thread 0), .server (.thread 0),
    .server (.recvReturns 0 0), .server (.thread 0), .server (.thread 0)]

def sending : List Label :=
  [.cast, .sendReturns (-1), .cast, .cast, .cast, .cast, .sendReturns 2, .cast]

def twoClients : Setup := ⟨.tcpIpv4, 2, true, true, true, 3⟩

end Reach

section Freed

@[simp] def CastPc.reading : CastPc → Option ℕ
  | .testFd _ p | .loadFd _ p | .logFd _ p => some p.id
  | .userNum | .slot _ | .send _ _ _ | .returned | .undefined => none

/-- No user is freed that the call is about to read, nor one whose send then fails. -/
def Spares (c : Cast) : Label → Prop
  | .server m => ∀ k, c.pc.reading = some k →
      ¬ (m = .thread k ∧ (c.server.clients k).pc = .disconnect .free)
  | .cast => True
  | .sendReturns error => error < 0 → ∀ k, c.pc.target = some k →
      (c.server.clients k).frees = 0

def Spoiled (c : Cast) : Prop :=
  c.pc = .undefined ∨ ∃ k, c.pc.reading = some k ∧ (c.server.clients k).frees ≠ 0

theorem reading_hand {pc : CastPc} {k : ℕ} (h : pc.reading = some k) :
    ∃ i p, pc.hand = some (i, p) ∧ p.id = k := by
  cases pc with
  | testFd i p | loadFd i p | logFd i p =>
    obtain rfl := Option.some.inj h
    exact ⟨i, p, rfl, rfl⟩
  | userNum | slot i | send i p fd | returned | undefined => simp at h

theorem spoiled_server (hi : Inv data c) {m : StreamServer.Label} (hm : Move σ c.server m s) :
    Spoiled { c with server := s } ↔ Spoiled c ∨ ¬ Spares c (.server m) := by
  have hfrees : ∀ k, c.pc.reading = some k → ((s.clients k).frees ≠ 0 ↔
      (c.server.clients k).frees ≠ 0 ∨
        m = .thread k ∧ (c.server.clients k).pc = .disconnect .free) := by
    intro k hk
    obtain ⟨i, p, hp, rfl⟩ := reading_hand hk
    have hseen := hi.hand i p hp
    rw [(move_client hi.entered.toTracked hm hseen.pc hseen.hand).frees]
    split_ifs with hf <;> simp [hf]
  cases hr : c.pc.reading with
  | none =>
    simp only [Spoiled, Spares, hr]
    simp
  | some k =>
    have hk := hfrees k hr
    have hne : c.pc ≠ .undefined := fun hx => by simp [hx] at hr
    simp only [Spoiled, Spares, hr, hne, Option.some.injEq, exists_eq_left', forall_eq', false_or,
      not_not]
    exact hk

theorem spoiled_reads {p : Ptr} {next : Client → CastPc}
    (hr : ∀ k, (next (c.server.clients p.id)).reading = some k → k = p.id)
    (hne : next (c.server.clients p.id) ≠ .undefined) :
    Spoiled (c.reads p next) ↔ (c.server.clients p.id).frees ≠ 0 := by
  unfold Cast.reads Cast.goto Spoiled
  dsimp only
  by_cases hf : (c.server.clients p.id).frees = 0
  · simp only [if_pos hf, hne, false_or]
    refine iff_of_false (fun hx => ?_) (not_not_intro hf)
    obtain ⟨k, hk, hfk⟩ := hx
    exact hfk (hr k hk ▸ hf)
  · exact iff_of_true (.inl (if_neg hf)) hf

theorem spoiled_castStep (hi : Inv data c) (ht : c.castStep data = some t) :
    Spoiled t ↔ Spoiled c := by
  unfold Cast.castStep at ht
  cases hpc : c.pc with
  | userNum =>
    simp only [hpc, Option.some.injEq] at ht
    subst ht
    unfold Spoiled Cast.goto
    split_ifs <;> simp [hpc]
  | slot i =>
    simp only [hpc] at ht
    split_ifs at ht with hguard <;> obtain rfl := Option.some.inj ht
    · cases hp : c.server.table.pUser ⟨i, hguard.1⟩ with
      | none => simp [Spoiled, Cast.goto, hpc]
      | some p =>
        obtain ⟨hlist, -⟩ := hi.entered.entry _ p hp
        have hlive := hi.entered.running p.id (listed_pc hlist).1 (listed_pc hlist).2
        simp only [Client.live, Bool.and_eq_true, beq_iff_eq] at hlive
        simp [Spoiled, Cast.goto, hpc, hlive.2]
    · simp [Spoiled, Cast.goto, hpc]
  | testFd i p =>
    simp only [hpc, Option.some.injEq] at ht
    subst ht
    rw [spoiled_reads]
    · simp [Spoiled, hpc]
    · split_ifs <;> simp
    · split_ifs <;> simp
  | loadFd i p | logFd i p =>
    simp only [hpc, Option.some.injEq] at ht
    subst ht
    rw [spoiled_reads (by simp) (by simp)]
    simp [Spoiled, hpc]
  | send i p fd | returned | undefined => simp [hpc] at ht

theorem spoiled_step (hi : Inv data c) (ho : Orderly c l) (ht : c.step σ data l = some t) :
    Spoiled t ↔ Spoiled c ∨ ¬ Spares c l := by
  cases l with
  | server m =>
    obtain ⟨s, hs, rfl⟩ := Option.map_eq_some_iff.mp ht
    exact spoiled_server hi (step_move hs ho.1)
  | cast => simpa [Spares] using spoiled_castStep hi ht
  | sendReturns error =>
    simp only [Cast.step, Cast.sendReturns] at ht
    cases hpc : c.pc with
    | send i p fd =>
      simp only [hpc, Option.some.injEq] at ht
      subst ht
      by_cases herror : error < 0 <;> simp [Spoiled, Spares, hpc, herror]
    | userNum | slot j | testFd j q | loadFd j q | logFd j q | returned | undefined =>
      simp [hpc] at ht

/-- A call gets to read a freed user exactly if a user is freed between the read of its slot and
the last read of the user. -/
theorem cast_spoiled_iff {ls : List Label}
    (ho : Obeys (Cast.step σ data) Orderly (start σ) ls)
    (hrun : exec (Cast.step σ data) (start σ) ls = some t) :
    (Spoiled t ↔ ¬ Obeys (Cast.step σ data) Spares (start σ) ls) ∧
      (Spoiled t → t.pc = .undefined ∨ t.castStep data = some (t.goto .undefined)) := by
  constructor
  · suffices hgen : ∀ c, Inv data c → Obeys (Cast.step σ data) Orderly c ls →
        exec (Cast.step σ data) c ls = some t →
        (Spoiled t ↔ Spoiled c ∨ ¬ Obeys (Cast.step σ data) Spares c ls) by
      rw [hgen (start σ) inv_start ho hrun]
      simp [Spoiled, start]
    clear ho hrun
    induction ls with
    | nil =>
      intro c _ _ hrun
      obtain rfl := Option.some.inj hrun
      simp [Obeys]
    | cons l ls ih =>
      intro c hi ho hrun
      obtain ⟨u, hu, hr⟩ := exec_cons.mp hrun
      obtain ⟨hg, ho⟩ := (obeys_cons hu).mp ho
      rw [ih u (hi.step hg hu) ho hr, spoiled_step hi hg hu, obeys_cons hu, or_assoc,
        not_and_or]
  · intro h
    refine h.imp_right fun hx => ?_
    obtain ⟨k, hk, hf⟩ := hx
    cases hpc : t.pc with
    | testFd i p | loadFd i p | logFd i p =>
      rw [hpc] at hk
      obtain rfl := Option.some.inj hk
      simp [Cast.castStep, Cast.reads, hpc, hf]
    | userNum | slot i | send i p fd | returned | undefined => simp [hpc] at hk

def freeing : List Label :=
  [.server (.thread 0), .server (.thread 0), .server (.thread 0), .server (.thread 0),
    .server (.thread 0)]

theorem cast_spoiled_iff_leaving : ∃ t,
    exec (Cast.step twoClients (request (some fun _ => 7) 2)) (start twoClients)
        (served ++ (leaving ++ freeing)) = some t ∧
      (Spoiled t ↔ ¬ Obeys (Cast.step twoClients (request (some fun _ => 7) 2)) Spares
        (start twoClients) (served ++ (leaving ++ freeing))) := by
  obtain ⟨t, ht⟩ := Option.isSome_iff_exists.mp (by decide +kernel :
    (exec (Cast.step twoClients (request (some fun _ => 7) 2)) (start twoClients)
      (served ++ (leaving ++ freeing))).isSome = true)
  exact ⟨t, ht, (cast_spoiled_iff (by decide +kernel) ht).1⟩

end Freed
end Calls
end LibComm.BroadcastRace

import LibComm.StreamServer

/-!
# The order of the application callbacks

The receive thread of a user runs before the listening thread makes the accept
callback for it. Every schedule keeps the order accept, receive, exit unless a
receive thread makes a callback in that gap, and then the log of that user is
out of order for good, since a log only grows.
-/

namespace LibComm.CallbackOrder
open ClientTable Interleaving StreamServer

def opening (σ : Setup) : List Callback := if σ.acptFunc then [.accept] else []

/-- One accept callback if the server has one, receive callbacks, at most one exit callback. -/
def Protocol (σ : Setup) (calls : List Callback) : Prop :=
  ∃ sizes : List ℕ, calls <+: opening σ ++ sizes.map .recv ++ [.exit]

def announced (σ : Setup) (s : State) : Option ℕ :=
  match s.listener with
  | .acptFunc k _ => if σ.acptFunc then some k else none
  | _ => none

def calls (σ : Setup) : RecvPc → Bool
  | .exitFunc => σ.exitFunc
  | .recvFunc _ => σ.recvFunc
  | _ => false

/-- No receive thread makes a callback for a user that is still to be announced. -/
def AnnouncedFirst (σ : Setup) : State → Label → Prop := OnThreads fun s k =>
  ¬ (announced σ s = some k ∧ calls σ (s.clients k).pc = true)

instance (σ : Setup) (s : State) (l : Label) : Decidable (AnnouncedFirst σ s l) :=
  inferInstanceAs (Decidable (OnThreads _ s l))

def talking : RecvPc → Bool
  | .loop | .testcancel | .callRecv | .recv | .close | .clearFd | .exitFunc => true
  | .received _ | .recvFunc _ => true
  | .absent | .disconnect _ | .ended | .cancelled => false

def Open (σ : Setup) (l : List Callback) : Prop :=
  ∃ sizes : List ℕ, l = opening σ ++ sizes.map .recv

def Closed (σ : Setup) (l : List Callback) : Prop :=
  ∃ sizes : List ℕ, l = opening σ ++ sizes.map .recv ++ [.exit]

def Fits (σ : Setup) (c : Client) : Prop :=
  Open σ c.callbacks ∨ Closed σ c.callbacks ∧ talking c.pc = false

structure Ordered (σ : Setup) (s : State) : Prop extends Tracked s where
  silent : ∀ k, (s.clients k).pc = .absent → (s.clients k).callbacks = []
  waits : ∀ k, announced σ s = some k → (s.clients k).callbacks = []
  fits : ∀ k, (s.clients k).pc ≠ .absent → announced σ s ≠ some k → Fits σ (s.clients k)

theorem open_recv {σ : Setup} {l : List Callback} (h : Open σ l) (given : Bool) (size : ℕ) :
    Open σ (if given then l ++ [.recv size] else l) := by
  obtain ⟨sizes, rfl⟩ := h
  cases given with
  | false => exact ⟨sizes, rfl⟩
  | true => exact ⟨sizes ++ [size], by simp⟩

theorem open_exit {σ : Setup} {l : List Callback} (h : Open σ l) (given : Bool) :
    Open σ (if given then l ++ [.exit] else l) ∨ Closed σ (if given then l ++ [.exit] else l) := by
  obtain ⟨sizes, rfl⟩ := h
  cases given with
  | false => exact .inl ⟨sizes, rfl⟩
  | true => exact .inr ⟨sizes, rfl⟩

theorem Fits.protocol {σ : Setup} {c : Client} (h : Fits σ c) : Protocol σ c.callbacks := by
  rcases h with ⟨sizes, he⟩ | ⟨⟨sizes, he⟩, -⟩
  · exact ⟨sizes, he ▸ List.prefix_append _ _⟩
  · exact ⟨sizes, he ▸ List.prefix_refl _⟩

theorem log_callbacks (c : Client) (given : Bool) (f : Callback) :
    (c.log given f).callbacks = if given then c.callbacks ++ [f] else c.callbacks := by
  unfold Client.log
  split <;> rfl

theorem advance_callbacks {σ : Setup} {c c' : Client} (h : c.advance σ = some c') :
    (c.pc = .exitFunc ∧ talking c'.pc = false ∧
        c'.callbacks = if σ.exitFunc then c.callbacks ++ [.exit] else c.callbacks) ∨
      (∃ len, c.pc = .recvFunc len ∧ ∃ size,
        c'.callbacks = if σ.recvFunc then c.callbacks ++ [.recv size] else c.callbacks) ∨
      (calls σ c.pc = false ∧ (talking c'.pc = true → talking c.pc = true) ∧
        c'.callbacks = c.callbacks) := by
  unfold Client.advance at h
  cases hpc : c.pc with
  | absent | ended | cancelled => simp [hpc] at h
  | exitFunc =>
    obtain rfl : _ = c' := by simpa only [hpc, Option.some.injEq] using h
    exact .inl ⟨rfl, rfl, log_callbacks c _ _⟩
  | recvFunc len =>
    obtain rfl : _ = c' := by simpa only [hpc, Option.some.injEq] using h
    exact .inr (.inl ⟨len, rfl, _, log_callbacks c _ _⟩)
  | disconnect d =>
    refine .inr (.inr ⟨rfl, ?_⟩)
    simp only [hpc] at h
    cases d <;> simp_all [Client.disconnect, Client.closeFd] <;> grind [talking]
  | loop | testcancel | callRecv | recv | close | clearFd | received =>
    refine .inr (.inr ⟨rfl, fun _ => rfl, ?_⟩)
    simp only [hpc] at h
    simp_all [Client.closeFd]
    grind

theorem fits_advance {σ : Setup} {c c' : Client} (h : c.advance σ = some c') (hf : Fits σ c) :
    Fits σ c' := by
  have hopen : talking c.pc = true → Open σ c.callbacks := fun ht => by
    rcases hf with ho | ⟨-, hn⟩
    · exact ho
    · simp [ht] at hn
  rcases advance_callbacks h with ⟨hpc, ht, hc⟩ | ⟨len, hpc, size, hc⟩ | ⟨-, ht, hc⟩
  · unfold Fits
    rw [hc]
    exact (open_exit (hopen (by simp [hpc, talking])) _).imp_right fun hx => ⟨hx, ht⟩
  · unfold Fits
    rw [hc]
    exact .inl (open_recv (hopen (by simp [hpc, talking])) _ _)
  · unfold Fits
    rw [hc]
    rcases hf with ho | ⟨hx, hn⟩
    · exact .inl ho
    · refine .inr ⟨hx, ?_⟩
      by_contra hc'
      simp [ht (by simpa using hc')] at hn

theorem ordered_init (σ : Setup) : Ordered σ (serverInit σ) where
  toTracked := tracked_init σ
  silent := by simp [serverInit, Client.absent]
  waits := by simp [serverInit, announced]
  fits := by simp [serverInit]

theorem Ordered.replace {σ : Setup} {s t : State} (h : Ordered σ s) (ht : Tracked t) {k : ℕ}
    (hother : ∀ j ≠ k, t.clients j = s.clients j)
    (han : ∀ j ≠ k, announced σ t = some j ↔ announced σ s = some j)
    (hs : (t.clients k).pc = .absent → (t.clients k).callbacks = [])
    (hw : announced σ t = some k → (t.clients k).callbacks = [])
    (hf : (t.clients k).pc ≠ .absent → announced σ t ≠ some k → Fits σ (t.clients k)) :
    Ordered σ t := by
  refine { ht with silent := fun j hj => ?_, waits := fun j hj => ?_, fits := fun j hj hja => ?_ }
  all_goals by_cases hjk : j = k
  · exact hjk ▸ hs (hjk ▸ hj)
  · rw [hother j hjk] at hj ⊢
    exact h.silent j hj
  · exact hjk ▸ hw (hjk ▸ hj)
  · rw [hother j hjk]
    exact h.waits j ((han j hjk).mp hj)
  · exact hjk ▸ hf (hjk ▸ hj) (hjk ▸ hja)
  · rw [hother j hjk] at hj ⊢
    exact h.fits j hj fun ha => hja ((han j hjk).mpr ha)

theorem Ordered.idle {σ : Setup} {s t : State} (h : Ordered σ s) (ht : Tracked t)
    (hc : t.clients = s.clients) (han : announced σ t = announced σ s) : Ordered σ t := by
  refine { ht with silent := ?_, waits := ?_, fits := ?_ }
  · exact hc ▸ h.silent
  · exact hc ▸ han ▸ h.waits
  · exact hc ▸ han ▸ h.fits

theorem announced_of_admits {σ : Setup} {s : State} (h : s.listener.admits = none) :
    announced σ s = none := by
  unfold announced
  split
  · rename_i hl
    simp [hl] at h
  · rfl

theorem update_ne {s : State} {k j : ℕ} (h : j ≠ k) (c : Client) :
    Function.update s.clients k c j = s.clients j := Function.update_of_ne h _ _

theorem Ordered.move {σ : Setup} {s t : State} {l : Label} (h : Ordered σ s) (hm : Move σ s l t)
    (hg : AnnouncedFirst σ s l) : Ordered σ t := by
  have ht : Tracked t := h.toTracked.move hm
  cases hm with
  | control hl hh hc =>
    refine h.idle ht rfl ?_
    rw [announced_of_admits hc.free, announced_of_admits hc.admits]
  | listenFails hl | finish hl | increment hl =>
    exact h.idle ht rfl (by simp [announced, hl])
  | @writeSlot k i hl =>
    exact h.idle ht rfl (by simp [announced, hl])
  | @accept fd hl hfd =>
    refine h.replace ht (k := s.accepted) (fun j hj => update_ne hj _)
      (fun j hj => by simp [announced, hl]) (fun _ => ?_) (by simp [announced]) (fun hpc => ?_)
    · simp [Client.absent]
    · simp [Client.absent] at hpc
  | @malloc a k i hl ha =>
    have hpc : (s.clients k).pc = .absent := h.waiting k (by simp [hl]) (by simp [hl])
    refine h.replace ht (k := k) (fun j hj => update_ne hj _) (fun j hj => by simp [announced, hl])
      (fun _ => ?_) (by simp [announced]) (fun hne => absurd hpc (by simpa using hne))
    simpa using h.silent k hpc
  | @created k i hl =>
    have hpc : (s.clients k).pc = .absent := h.waiting k (by simp [hl]) (by simp [hl])
    have hc := h.silent k hpc
    refine h.replace ht (k := k) (fun j hj => update_ne hj _) (fun j hj => ?_) (by simp)
      (fun _ => by simpa using hc) fun _ hna => .inl ⟨[], ?_⟩
    · simp [announced, hl, hj.symm]
    · have hnone : σ.acptFunc = false := by simpa [announced] using hna
      simp [hc, opening, hnone]
  | @notCreated k i hl =>
    have hpc : (s.clients k).pc = .absent := h.waiting k (by simp [hl]) (by simp [hl])
    refine h.replace ht (k := k) (fun j hj => update_ne hj _) (fun j hj => by simp [announced, hl])
      (fun _ => ?_) (by simp [announced]) (fun hne => absurd hpc (by simpa using hne))
    simpa using h.silent k hpc
  | @acptFunc k i hl =>
    have hpc : (s.clients k).pc ≠ .absent := h.admits k (by simp [hl])
    refine h.replace ht (k := k) (fun j hj => update_ne hj _) (fun j hj => ?_)
      (fun hc => ?_) (by simp [announced]) fun _ _ => ?_
    · simp [announced, hl, hj.symm]
    · exact absurd (by simpa [log_client] using hc) hpc
    · -- the accept callback opens the log; without one the log may have begun already
      cases hacpt : σ.acptFunc with
      | true =>
        have hc := h.waits k (by simp [announced, hl, hacpt])
        exact .inl ⟨[], by simp [log_callbacks, hc, opening, hacpt]⟩
      | false =>
        have hf := h.fits k hpc (by simp [announced, hl, hacpt])
        simpa [Client.log] using hf
  | @refuse k hl hp =>
    have hpc : (s.clients k).pc = .absent := h.waiting k (by simp [hl]) (by simp [hl])
    refine h.replace ht (k := k) (fun j hj => update_ne hj _) (fun j hj => by simp [announced, hl])
      (fun _ => ?_) (by simp [announced]) (fun hne => absurd hpc (by simpa using hne))
    simpa using h.silent k hpc
  | @search k hpc =>
    refine h.replace ht (k := k) (fun j hj => update_ne hj _) (fun j hj => Iff.rfl) (by simp)
      (fun ha => ?_) fun _ ha => ?_
    · simpa using h.waits k ha
    · have hf := h.fits k (by simp [hpc]) ha
      simpa [Fits, talking, hpc] using hf
  | @decrement k hpc =>
    refine h.replace ht (k := k) (fun j hj => update_ne hj _) (fun j hj => Iff.rfl) (by simp)
      (fun ha => ?_) fun _ ha => ?_
    · simpa using h.waits k ha
    · have hf := h.fits k (by simp [hpc]) ha
      simpa [Fits, talking, hpc] using hf
  | @advance k c hs hd hc =>
    obtain ⟨-, -, hpc, hpc'⟩ := advance_record hc
    refine h.replace ht (k := k) (fun j hj => update_ne hj _) (fun j hj => Iff.rfl)
      (fun ha => absurd ha (by simpa using hpc')) (fun ha => ?_) fun _ ha => ?_
    · -- while it is announced the thread makes no callback
      have hw := h.waits k ha
      have hquiet : calls σ (s.clients k).pc = false := by
        simpa [AnnouncedFirst, OnThreads, show announced σ s = some k from ha] using hg
      rcases advance_callbacks hc with ⟨hpe, -, he⟩ | ⟨len, hpe, size, he⟩ | ⟨-, -, he⟩
      · simp_all [calls]
      · simp_all [calls]
      · simpa [he] using hw
    · simpa using fits_advance hc (h.fits k hpc ha)
  | @recv k len hpc hp =>
    refine h.replace ht (k := k) (fun j hj => update_ne hj _) (fun j hj => Iff.rfl) ?_
      (fun ha => ?_) fun _ ha => ?_
    · simp only [State.setClient, Function.update_self, Client.at]
      split_ifs <;> simp
    · simpa using h.waits k ha
    · have hf := h.fits k (by simp [hpc]) ha
      simp only [Fits, hpc, talking] at hf
      exact .inl (by simpa using hf)

theorem protocol_nil (σ : Setup) : Protocol σ [] := ⟨[], List.nil_prefix⟩

theorem Ordered.protocol {σ : Setup} {s : State} (h : Ordered σ s) (k : ℕ) :
    Protocol σ (s.clients k).callbacks := by
  by_cases hpc : (s.clients k).pc = .absent
  · exact h.silent k hpc ▸ protocol_nil σ
  by_cases ha : announced σ s = some k
  · exact h.waits k ha ▸ protocol_nil σ
  · exact (h.fits k hpc ha).protocol

theorem update_callbacks {s : State} {k : ℕ} {c : Client}
    (hc : (s.clients k).callbacks <+: c.callbacks) (j : ℕ) :
    (s.clients j).callbacks <+: (Function.update s.clients k c j).callbacks := by
  by_cases hj : j = k
  · simpa [hj] using hc
  · simp [hj]

theorem move_callbacks {σ : Setup} {s t : State} {l : Label} (h : Tracked s) (hm : Move σ s l t)
    (j : ℕ) : (s.clients j).callbacks <+: (t.clients j).callbacks := by
  cases hm with
  | control | listenFails | finish | writeSlot | increment => exact List.prefix_refl _
  | accept hl hfd =>
    refine update_callbacks ?_ j
    simp [h.absent s.accepted le_rfl, Client.absent]
  | malloc | created | notCreated | refuse | search | decrement | recv =>
    refine update_callbacks ?_ j
    exact List.prefix_refl _
  | acptFunc hl =>
    refine update_callbacks ?_ j
    rw [log_callbacks]
    split_ifs
    · exact List.prefix_append _ _
    · exact List.prefix_refl _
  | advance hs hd hc =>
    refine update_callbacks ?_ j
    rcases advance_callbacks hc with ⟨-, -, he⟩ | ⟨len, -, size, he⟩ | ⟨-, -, he⟩ <;> rw [he]
    · split_ifs <;> simp
    · split_ifs <;> simp

theorem exec_callbacks {σ : Setup} {s t : State} {ls : List Label} (h : Tracked s)
    (hl : ∀ l ∈ ls, Serving l) (ht : exec (step σ) s ls = some t) (j : ℕ) :
    (s.clients j).callbacks <+: (t.clients j).callbacks := by
  refine (invariant (I := fun t => Tracked t ∧ (s.clients j).callbacks <+: (t.clients j).callbacks)
    (fun u l v hu hl hv => ?_) ⟨h, List.prefix_refl _⟩ (obeys_of_forall hl s) ht).2
  exact ⟨hu.1.step hv, hu.2.trans (move_callbacks hu.1 (step_move hv hl) j)⟩

theorem not_protocol_of_head {σ : Setup} {f : Callback} {l : List Callback} (hf : f ≠ .accept)
    (ha : σ.acptFunc = true) (h : [f] <+: l) : ¬ Protocol σ l := by
  intro hx
  obtain ⟨sizes, hl⟩ := hx
  obtain ⟨rest, hr⟩ := h.trans hl
  simp only [opening, ha, if_true, List.cons_append, List.nil_append, List.cons.injEq] at hr
  exact hf hr.1

theorem early_callback {σ : Setup} {s t : State} {k : ℕ} (h : Ordered σ s)
    (hm : Move σ s (.thread k) t) (hg : ¬ AnnouncedFirst σ s (.thread k)) :
    σ.acptFunc = true ∧ ∃ f, f ≠ .accept ∧ (t.clients k).callbacks = [f] := by
  obtain ⟨ha, hcall⟩ : announced σ s = some k ∧ calls σ (s.clients k).pc = true := by
    simpa [AnnouncedFirst, OnThreads] using hg
  have hnil := h.waits k ha
  have hacpt : σ.acptFunc = true := by
    unfold announced at ha
    split at ha
    · split_ifs at ha with hacpt
      exact hacpt
    · cases ha
  refine ⟨hacpt, ?_⟩
  cases hm with
  | control hl hh hc => exact absurd rfl (hl k)
  | search hpc | decrement hpc => simp [calls, hpc] at hcall
  | advance hs hd hc =>
    rcases advance_callbacks hc with ⟨hpc, -, he⟩ | ⟨len, hpc, size, he⟩ | ⟨hq, -, -⟩
    · exact ⟨.exit, by simp, by simp_all [calls]⟩
    · exact ⟨.recv size, by simp, by simp_all [calls]⟩
    · simp [hq] at hcall

/-- The callbacks of every user keep their order exactly if no receive thread makes a callback
for a user between the creation of the thread and the accept callback. -/
theorem callbacks_ordered (σ : Setup) {ls : List Label} {s : State} (hl : ∀ l ∈ ls, Serving l)
    (h : exec (step σ) (serverInit σ) ls = some s) :
    (∀ k, Protocol σ (s.clients k).callbacks) ↔
      Obeys (step σ) (AnnouncedFirst σ) (serverInit σ) ls := by
  have hkeep : ∀ s l t, Ordered σ s → Serving l ∧ AnnouncedFirst σ s l → step σ s l = some t →
      Ordered σ t := fun s l t hs hg ht => hs.move (step_move ht hg.1) hg.2
  constructor
  · intro hp
    by_contra hn
    obtain ⟨xs, l, ys, t, v, rfl, hx, ht, hg, hv, hy⟩ := first_violation h hn
    have hlx : ∀ l ∈ xs, Serving l := fun l hx => hl l (by simp [hx])
    have hly : ∀ l ∈ ys, Serving l := fun l hy => hl l (by simp [hy])
    have ho : Ordered σ t :=
      invariant hkeep (ordered_init σ) ((obeys_of_forall hlx _).and hx) ht
    have hm := step_move hv (hl l (by simp))
    cases l with
    | thread k =>
      obtain ⟨hacpt, f, hf, hc⟩ := early_callback ho hm hg
      have hgrow := exec_callbacks (ho.toTracked.move hm) hly hy k
      exact not_protocol_of_head hf hacpt (hc ▸ hgrow) (hp k)
    | listener | listenReturns | acceptReturns | mallocReturns | createReturns => exact hg trivial
    | recvReturns | uninit => exact hg trivial
  · intro ho k
    exact (invariant hkeep (ordered_init σ) ((obeys_of_forall hl _).and ho) h).protocol k

def exitFirst : List Label :=
  [.listenReturns true, .listener, .listener, .acceptReturns 4, .listener, .listener, .listener,
    .mallocReturns (some 100), .createReturns true,
    .thread 0, .thread 0, .thread 0, .recvReturns 0 (-1), .thread 0, .thread 0, .thread 0]

theorem callbacks_ordered_fails : ¬ ∃ kind : Kind, ∀ (ls : List Label) (s : State),
    (∀ l ∈ ls, Serving l) →
    exec (step ⟨kind, 1, true, true, true, 3⟩) (serverInit ⟨kind, 1, true, true, true, 3⟩) ls =
      some s →
    ∀ k, Protocol ⟨kind, 1, true, true, true, 3⟩ (s.clients k).callbacks := by
  intro hx
  obtain ⟨kind, hclaim⟩ := hx
  have hrun : (exec (step ⟨kind, 1, true, true, true, 3⟩)
      (serverInit ⟨kind, 1, true, true, true, 3⟩) exitFirst).map
        (fun s => (s.clients 0).callbacks) = some [.exit] := by
    cases kind <;> decide +kernel
  obtain ⟨s, hs, he⟩ := Option.map_eq_some_iff.mp hrun
  have hp := hclaim exitFirst s (by decide) hs 0
  exact not_protocol_of_head (f := .exit) (by simp) rfl (he ▸ List.prefix_refl _) hp

def announceFirst : List Label :=
  [.listenReturns true, .listener, .listener, .acceptReturns 4, .listener, .listener, .listener,
    .mallocReturns (some 100), .createReturns true, .thread 0, .thread 0, .thread 0, .listener,
    .recvReturns 0 5, .thread 0, .thread 0, .thread 0, .thread 0, .thread 0, .recvReturns 0 (-1),
    .thread 0, .thread 0, .thread 0]

theorem callbacks_ordered_announceFirst : ∃ s : State,
    (s.clients 0).callbacks = [.accept, .recv 5, .exit] ∧
    ((∀ k, Protocol ⟨.ipcStream, 1, true, true, true, 3⟩ (s.clients k).callbacks) ↔
      Obeys (step ⟨.ipcStream, 1, true, true, true, 3⟩)
        (AnnouncedFirst ⟨.ipcStream, 1, true, true, true, 3⟩)
        (serverInit ⟨.ipcStream, 1, true, true, true, 3⟩) announceFirst) := by
  have hrun : (exec (step ⟨.ipcStream, 1, true, true, true, 3⟩)
      (serverInit ⟨.ipcStream, 1, true, true, true, 3⟩) announceFirst).map
        (fun s => (s.clients 0).callbacks) = some [.accept, .recv 5, .exit] := by
    decide +kernel
  obtain ⟨s, hs, he⟩ := Option.map_eq_some_iff.mp hrun
  exact ⟨s, he, callbacks_ordered ⟨.ipcStream, 1, true, true, true, 3⟩ (by decide) hs⟩

end LibComm.CallbackOrder

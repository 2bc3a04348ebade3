import LibComm.ByteStream
import LibComm.StreamClient

/-!
# The reading end of a stream

What a blocking `read` or `recv` may answer on a channel: between one byte and
a full buffer of what is queued, 0 once the channel is empty and its writers
are gone, or an error at any time. `Reads` relates the answers of a receive task
to the channel that they come from, and `taken` is what the other end has put
in.
-/

namespace LibComm.StreamEnd
open ByteStream
open RecvTask (Outcome Callbacks last commBufSize)

variable {α : Type*}

inductive Take where
  | bytes (n : ℕ)
  | closed
  | error

/-- The channel after an answer and the answer, where `f` is the byte that an element carries and
`gone` says that nobody can write any more. -/
def answer (f : α → UInt8) (gone : Bool) (c : Channel α) : Take → Option (Channel α × Outcome)
  | .bytes n =>
    if h : 0 < n ∧ n ≤ commBufSize ∧ n ≤ c.queue.length then
      some (c.read n h.2.2, .data
        ⟨(c.queue.take n).map f, by simp [List.length_take, h.1, h.1.trans_le h.2.2], by
          simp [List.length_take, h.2.1]⟩)
    else none
  | .closed => if c.queue.length = 0 ∧ gone = true then some (c, .closed) else none
  | .error => some (c, .error)

structure Reads (f : α → UInt8) (c : Channel α) (rs : List Outcome) : Prop where
  bytes : rs.flatMap Outcome.bytes = c.delivered.map f
  closed : .closed ∈ rs → c.queue = []

variable {f : α → UInt8} {gone : Bool} {c c' : Channel α} {rs : List Outcome} {r : Outcome}
  {a : Take} {xs : List α}

theorem reads_empty : Reads f (Channel.empty : Channel α) [] := ⟨rfl, by simp⟩

theorem answer_written (h : answer f gone c a = some (c', r)) : c'.written = c.written := by
  cases a with
  | bytes n =>
    simp only [answer, Option.dite_none_right_eq_some, Option.some.injEq, Prod.mk.injEq] at h
    obtain ⟨-, rfl, -⟩ := h
    rfl
  | closed =>
    simp only [answer, Option.ite_none_right_eq_some, Option.some.injEq, Prod.mk.injEq] at h
    rw [h.2.1]
  | error =>
    simp only [answer, Option.some.injEq, Prod.mk.injEq] at h
    rw [h.1]

theorem answer_closed (h : answer f gone c a = some (c', .closed)) :
    c' = c ∧ c.queue = [] ∧ gone = true := by
  cases a with
  | bytes n => simp [answer] at h
  | closed =>
    simp only [answer, Option.ite_none_right_eq_some, Option.some.injEq, Prod.mk.injEq] at h
    exact ⟨h.2.1.symm, List.eq_nil_of_length_eq_zero h.1.1, h.1.2⟩
  | error => simp [answer] at h

theorem answer_delivered (h : answer f gone c a = some (c', r)) :
    c'.delivered.map f = c.delivered.map f ++ r.bytes := by
  cases a with
  | bytes n =>
    simp only [answer, Option.dite_none_right_eq_some, Option.some.injEq, Prod.mk.injEq] at h
    obtain ⟨-, rfl, rfl⟩ := h
    simp [Channel.read_delivered, Outcome.bytes]
  | closed =>
    simp only [answer, Option.ite_none_right_eq_some, Option.some.injEq, Prod.mk.injEq] at h
    obtain ⟨-, rfl, rfl⟩ := h
    simp [Outcome.bytes]
  | error =>
    simp only [answer, Option.some.injEq, Prod.mk.injEq] at h
    obtain ⟨rfl, rfl⟩ := h
    simp [Outcome.bytes]

theorem answer_queue (h : answer f gone c a = some (c', r)) (hq : c.queue = []) :
    c'.queue = [] := by
  cases a with
  | bytes n =>
    simp only [answer, Option.dite_none_right_eq_some] at h
    obtain ⟨hn, -⟩ := h
    have hpos := hn.1.trans_le hn.2.2
    simp [hq] at hpos
  | closed =>
    simp only [answer, Option.ite_none_right_eq_some, Option.some.injEq, Prod.mk.injEq] at h
    exact h.2.1 ▸ hq
  | error =>
    simp only [answer, Option.some.injEq, Prod.mk.injEq] at h
    exact h.1 ▸ hq

theorem Reads.answer (h : Reads f c rs) (ha : answer f gone c a = some (c', r)) :
    Reads f c' (rs ++ [r]) where
  bytes := by rw [List.flatMap_append, List.flatMap_singleton, h.bytes, answer_delivered ha]
  closed hc := by
    obtain hc | hc := List.mem_append.mp hc
    · exact answer_queue ha (h.closed hc)
    · obtain rfl : .closed = r := List.mem_singleton.mp hc
      obtain ⟨rfl, hq, -⟩ := answer_closed ha
      exact hq

theorem Reads.write (h : Reads f c rs) (hc : .closed ∈ rs → xs = []) :
    Reads f (c.write xs) rs where
  bytes := by rw [h.bytes, Channel.write_delivered]
  closed hr := by rw [Channel.write_queue, h.closed hr, hc hr, List.nil_append]

theorem not_closed (h : rs.any last = false) : .closed ∉ rs :=
  fun hc => absurd (List.any_eq_false.mp h .closed hc) (by decide)

/-- A reader that has been told the end has everything that was ever written. -/
theorem Reads.whole (h : Reads f c rs) (hc : .closed ∈ rs) :
    rs.flatMap Outcome.bytes = c.written.map f := by
  rw [h.bytes, Channel.delivered_of_queue (h.closed hc)]

section Calls

def taken (ds : List (List UInt8 × ℤ)) : List UInt8 := ds.flatMap fun d => d.1.take d.2.toNat

@[simp] theorem taken_append (ds ds' : List (List UInt8 × ℤ)) :
    taken (ds ++ ds') = taken ds ++ taken ds' := List.flatMap_append

@[simp] theorem taken_singleton (data : List UInt8) (n : ℤ) :
    taken [(data, n)] = data.take n.toNat := by
  simp [taken]

end Calls

section Callbacks

def clientBytes : StreamClient.Callback → List UInt8
  | .recv data _ => data
  | .exit _ => []

def serverBytes : RecvTask.Callback → List UInt8
  | .recv data _ => data
  | .exit => []

theorem last_bytes (h : last r = true) : r.bytes = [] := by
  cases r with
  | data m => simp [RecvTask.last_eq_false.mpr ⟨m, rfl⟩] at h
  | closed | error => rfl

theorem dropWhile_bytes (h : (rs.dropWhile fun r => !last r).length ≤ 1) :
    (rs.dropWhile fun r => !last r).flatMap Outcome.bytes = [] := by
  cases hd : rs.dropWhile fun r => !last r with
  | nil => rfl
  | cons r rest =>
    have hlast : last r = true := by
      simpa [hd] using List.head_dropWhile_not (l := rs) (fun r => !last r) (by simp [hd])
    rw [hd, List.length_cons] at h
    obtain rfl : rest = [] := List.eq_nil_of_length_eq_zero (by omega)
    simp [last_bytes hlast]

theorem callbacks_bytes {σ : Callbacks} (hσ : σ.recvFunc = true)
    (h : (rs.dropWhile fun r => !last r).length ≤ 1) :
    (StreamClient.callbacks σ rs).flatMap clientBytes = rs.flatMap Outcome.bytes := by
  have hexit : (if σ.exitFunc then
      ((rs.find? last).map fun r => StreamClient.Callback.exit r.len).toList else []).flatMap
        clientBytes = [] := by
    cases σ.exitFunc with
    | false => rfl
    | true => cases rs.find? last <;> rfl
  conv_rhs => rw [← List.takeWhile_append_dropWhile (p := fun r => !last r) (l := rs)]
  simp only [StreamClient.callbacks, hσ, if_true, List.flatMap_append, hexit, List.append_nil,
    dropWhile_bytes h, List.flatMap_map, clientBytes]

theorem exit_mem {σ : Callbacks} {code : ℤ} (h : .exit code ∈ StreamClient.callbacks σ rs) :
    ∃ r ∈ rs, last r = true ∧ r.len = code := by
  simp only [StreamClient.callbacks, List.mem_append] at h
  cases h with
  | inl h => split at h <;> simp at h
  | inr h =>
    split at h
    · simp only [Option.mem_toList, Option.map_eq_some_iff, StreamClient.Callback.exit.injEq] at h
      obtain ⟨r, hr, hlen⟩ := h
      exact ⟨r, List.mem_of_find?_eq_some hr, List.find?_some hr, hlen⟩
    · simp at h

theorem closed_of_exit {σ : Callbacks} (h : .exit 0 ∈ StreamClient.callbacks σ rs) :
    .closed ∈ rs := by
  obtain ⟨r, hr, hlast, hlen⟩ := exit_mem h
  cases r with
  | data m => simp [RecvTask.last_eq_false.mpr ⟨m, rfl⟩] at hlast
  | closed => exact hr
  | error => simp [Outcome.len] at hlen

end Callbacks
end LibComm.StreamEnd

import Mathlib.Data.List.Flatten
import Mathlib.Data.List.Infix

/-!
# Byte streams between two ends

A channel keeps everything that has been written into it and how far the
reader is, so that what has been read is a prefix of what has been written by
construction. Several writers share a channel when every element carries the
writer that it comes from; the share of a writer is what it has contributed.
-/

namespace LibComm.ByteStream
variable {α ι : Type*}

structure Channel (α : Type*) where
  written : List α
  taken : ℕ
  le : taken ≤ written.length

namespace Channel

def empty : Channel α := ⟨[], 0, Nat.le_refl 0⟩

def delivered (c : Channel α) : List α := c.written.take c.taken

def queue (c : Channel α) : List α := c.written.drop c.taken

def write (c : Channel α) (xs : List α) : Channel α where
  written := c.written ++ xs
  taken := c.taken
  le := by
    rw [List.length_append]
    exact Nat.le_add_right_of_le c.le

def read (c : Channel α) (n : ℕ) (h : n ≤ c.queue.length) : Channel α where
  written := c.written
  taken := c.taken + n
  le := by
    have hle := c.le
    rw [queue, List.length_drop] at h
    omega

variable {c : Channel α} {xs : List α} {n : ℕ}

@[simp] theorem empty_delivered : (empty : Channel α).delivered = [] := rfl

@[simp] theorem empty_written : (empty : Channel α).written = [] := rfl

@[simp] theorem write_written : (c.write xs).written = c.written ++ xs := rfl

@[simp] theorem write_delivered : (c.write xs).delivered = c.delivered :=
  List.take_append_of_le_length c.le

@[simp] theorem write_queue : (c.write xs).queue = c.queue ++ xs :=
  List.drop_append_of_le_length c.le

theorem read_delivered (h : n ≤ c.queue.length) :
    (c.read n h).delivered = c.delivered ++ c.queue.take n :=
  List.take_add

theorem delivered_append_queue (c : Channel α) : c.delivered ++ c.queue = c.written :=
  List.take_append_drop _ _

theorem delivered_initial (c : Channel α) : c.delivered <+: c.written :=
  List.take_prefix _ _

theorem delivered_of_queue (h : c.queue = []) : c.delivered = c.written := by
  rw [← delivered_append_queue c, h, List.append_nil]

end Channel

section Writers

variable [DecidableEq ι]

/-- The part of a stream that comes from one writer. -/
def share (i : ι) (xs : List (ι × α)) : List α :=
  xs.filterMap fun x => if x.1 = i then some x.2 else none

variable {i j : ι} {xs ys : List (ι × α)} {zs : List α}

@[simp] theorem share_append : share i (xs ++ ys) = share i xs ++ share i ys :=
  List.filterMap_append

theorem share_initial (h : xs <+: ys) : share i xs <+: share i ys := by
  obtain ⟨zs, rfl⟩ := h
  rw [share_append]
  exact List.prefix_append _ _

@[simp] theorem share_written : share i (zs.map fun x => (j, x)) = if j = i then zs else [] := by
  by_cases h : j = i <;> simp [share, h]

end Writers

section Families

theorem flatMap_range_snoc {f g : ℕ → List α} {n : ℕ} (xs : List α) (hn : g n = f n ++ xs)
    (hrest : ∀ i < n, g i = f i) :
    (List.range (n + 1)).flatMap g = (List.range (n + 1)).flatMap f ++ xs := by
  have hbelow : (List.range n).flatMap g = (List.range n).flatMap f :=
    List.flatMap_congr fun i hi => hrest i (List.mem_range.mp hi)
  simp [List.range_succ, hn, hbelow]

theorem flatMap_range_succ {f : ℕ → List α} {n : ℕ} (hn : f n = []) :
    (List.range (n + 1)).flatMap f = (List.range n).flatMap f := by
  simp [List.range_succ, hn]

/-- Pieces that are each the beginning of another make up the same stream only if they are whole. -/
theorem flatMap_prefix_eq_iff {β : Type*} {l : List β} {f g : β → List α}
    (h : ∀ x ∈ l, f x <+: g x) : l.flatMap f = l.flatMap g ↔ ∀ x ∈ l, f x = g x := by
  refine ⟨fun heq => ?_, fun hx => List.flatMap_congr hx⟩
  induction l with
  | nil => simp
  | cons x l ih =>
    have hrest : ∀ y ∈ l, f y <+: g y := fun y hy => h y (List.mem_cons_of_mem x hy)
    have hx := h x List.mem_cons_self
    -- the later pieces cannot make up for a piece that is too short
    have hle := (List.Sublist.flatMap_right l fun y hy => (hrest y hy).sublist).length_le
    have hlen := congrArg List.length heq
    simp only [List.flatMap_cons, List.length_append] at hlen
    have heqx : f x = g x := hx.eq_of_length (by have := hx.length_le; omega)
    rw [List.flatMap_cons, List.flatMap_cons, heqx] at heq
    exact List.forall_mem_cons.mpr ⟨heqx, ih hrest (List.append_cancel_left heq)⟩

end Families
end LibComm.ByteStream

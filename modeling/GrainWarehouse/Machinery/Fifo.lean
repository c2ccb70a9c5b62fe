import Mathlib.Data.List.Basic

/-!
# Machinery/Fifo — a bounded queue, and how two readers share it

`Fifo α cap` is a queue of at most `cap` items, as an operating system offers it to its tasks: a
sender puts an item behind the others or finds no room, a reader takes the first one away.

A `Ledger` remembers what has left its queue: all that was ever sent, and found room, is `gone` and
then the items.

Two readers of one queue share its items between them.  `Shuffle xs ys zs` says how: `zs` is what
they took, in order, `xs` the items of the one and `ys` those of the other.
-/

namespace GrainWarehouse

variable {α : Type*} {cap : ℕ}

/-- A queue that holds at most `cap` items, the oldest first. -/
structure Fifo (α : Type*) (cap : ℕ) where
  items : List α
  le : items.length ≤ cap

namespace Fifo

instance [DecidableEq α] : DecidableEq (Fifo α cap) := fun q q' =>
  decidable_of_iff (q.items = q'.items) ⟨fun h => by cases q; cases q'; congr, fun h => h ▸ rfl⟩

/-- No items. -/
def empty : Fifo α cap := ⟨[], Nat.zero_le cap⟩

/-- There is a free slot. -/
def Room (q : Fifo α cap) : Prop := q.items.length < cap

instance (q : Fifo α cap) : Decidable q.Room := inferInstanceAs (Decidable (_ < _))

/-- Put `a` behind the others, if there is room. -/
def send (a : α) (q : Fifo α cap) : Option (Fifo α cap) :=
  if h : q.Room then some ⟨q.items ++ [a], by rw [List.length_append]; exact h⟩ else none

/-- Take the oldest item away, if there is one. -/
def receive : Fifo α cap → Option (α × Fifo α cap)
  | ⟨[], _⟩ => none
  | ⟨a :: items, h⟩ => some (a, ⟨items, Nat.le_of_succ_le h⟩)

theorem send_isSome {a : α} {q : Fifo α cap} : (q.send a).isSome ↔ q.Room := by
  rw [send]
  split
  · next h => exact iff_of_true rfl h
  · next h => exact iff_of_false (by simp) h

/-- **What is sent is the last to be received.** -/
theorem items_send {a : α} {q q' : Fifo α cap} (h : q.send a = some q') :
    q'.items = q.items ++ [a] := by
  rw [send] at h
  split at h
  · cases h
    rfl
  · cases h

/-- **What is received was the first.** -/
theorem items_receive {a : α} {q q' : Fifo α cap} (h : q.receive = some (a, q')) :
    q.items = a :: q'.items := by
  obtain ⟨_ | ⟨b, items⟩, hle⟩ := q
  · cases h
  · cases h
    rfl

end Fifo

/-- A queue, and all that has left it, in order. -/
structure Ledger (α : Type*) (cap : ℕ) where
  queue : Fifo α cap
  gone : List α

namespace Ledger

/-- No items yet. -/
def empty : Ledger α cap := ⟨Fifo.empty, []⟩

/-- Send `a`; without room for it nothing happens. -/
def send (a : α) (l : Ledger α cap) : Ledger α cap :=
  match l.queue.send a with
  | some q => { l with queue := q }
  | none => l

/-- The `k` oldest items leave. -/
def remove (k : ℕ) (l : Ledger α cap) : Ledger α cap where
  queue := ⟨l.queue.items.drop k, by
    rw [List.length_drop]
    exact Nat.le_trans (Nat.sub_le _ _) l.queue.le⟩
  gone := l.gone ++ l.queue.items.take k

theorem send_of_room {a : α} {l : Ledger α cap} (h : l.queue.Room) :
    (l.send a).queue.items = l.queue.items ++ [a] ∧ (l.send a).gone = l.gone := by
  rw [send, Fifo.send, dif_pos h]
  exact ⟨rfl, rfl⟩

theorem send_of_full {a : α} {l : Ledger α cap} (h : ¬ l.queue.Room) : l.send a = l := by
  rw [send, Fifo.send, dif_neg h]

end Ledger

/-- `zs` is `xs` and `ys`, interleaved. -/
inductive Shuffle : List α → List α → List α → Prop
  | nil : Shuffle [] [] []
  | left {xs ys zs : List α} (a : α) : Shuffle xs ys zs → Shuffle (xs ++ [a]) ys (zs ++ [a])
  | right {xs ys zs : List α} (a : α) : Shuffle xs ys zs → Shuffle xs (ys ++ [a]) (zs ++ [a])

namespace Shuffle

variable {xs ys zs : List α}

/-- **Each item is on one side only.** -/
theorem perm (h : Shuffle xs ys zs) : zs.Perm (xs ++ ys) := by
  induction h with
  | nil => exact List.Perm.refl _
  | left a _ ih => exact (ih.append_right [a]).trans (by
      rw [List.append_assoc, List.append_assoc]
      exact List.perm_append_comm.append_left _)
  | right a _ ih => exact (ih.append_right [a]).trans (by rw [List.append_assoc])

/-- …in the order in which it came. -/
theorem sublists (h : Shuffle xs ys zs) : xs.Sublist zs ∧ ys.Sublist zs := by
  induction h with
  | nil => exact ⟨List.Sublist.refl _, List.Sublist.refl _⟩
  | left a _ ih => exact ⟨ih.1.append_right [a], ih.2.trans (List.sublist_append_left _ _)⟩
  | right a _ ih => exact ⟨ih.1.trans (List.sublist_append_left _ _), ih.2.append_right [a]⟩

/-- **Both sides have everything only if there is nothing.** -/
theorem eq_nil_iff (h : Shuffle xs ys zs) : xs = zs ∧ ys = zs ↔ zs = [] := by
  have hlen := h.perm.length_eq
  rw [List.length_append] at hlen
  constructor
  · rintro ⟨rfl, rfl⟩
    exact List.length_eq_zero_iff.mp (by omega)
  · intro hz
    rw [hz, List.length_nil] at hlen
    exact ⟨(List.length_eq_zero_iff.mp (by omega)).trans hz.symm,
      (List.length_eq_zero_iff.mp (by omega)).trans hz.symm⟩

end Shuffle

end GrainWarehouse

import Mathlib.Data.List.Basic

/-!
# Machinery/Reads — programs on pointers, and where they read

`Reads α` is a value with the addresses that were read to find it.  A function on pointers is
written in it as in C, so that its footprint is part of what it computes: `Within lo hi m` says that
`m` reads from `lo` up to `hi` only, `Spec lo hi Q m` that it returns something in `Q` as well, and
both hold of a program if they hold of its parts.

`slice mem p n` lists the `n` cells of a memory from `p` on.
-/

namespace GrainWarehouse

variable {α β : Type}

/-- A value, and the addresses read for it, in order. -/
structure Reads (α : Type) where
  val : α
  addrs : List ℕ

namespace Reads

instance : Monad Reads where
  pure a := ⟨a, []⟩
  bind m f := ⟨(f m.val).val, m.addrs ++ (f m.val).addrs⟩

/-- `mem[i]`. -/
abbrev read (mem : ℕ → α) (i : ℕ) : Reads α := ⟨mem i, [i]⟩

@[simp] theorem val_pure (a : α) : (pure a : Reads α).val = a := rfl

@[simp] theorem val_bind (m : Reads α) (f : α → Reads β) : (m >>= f).val = (f m.val).val := rfl

@[simp] theorem addrs_bind (m : Reads α) (f : α → Reads β) :
    (m >>= f).addrs = m.addrs ++ (f m.val).addrs := rfl

/-! ## Footprints -/

/-- All that is read stands from `lo` up to `hi`. -/
def Within (lo hi : ℕ) (m : Reads α) : Prop := ∀ i ∈ m.addrs, lo ≤ i ∧ i < hi

variable {lo hi : ℕ}

theorem within_pure (a : α) : (pure a : Reads α).Within lo hi := fun _ h => by cases h

theorem within_read (mem : ℕ → α) {i : ℕ} (hlo : lo ≤ i) (hhi : i < hi) :
    (read mem i).Within lo hi := fun _ h => by
  obtain rfl := List.mem_singleton.mp h
  exact ⟨hlo, hhi⟩

/-- **A program reads what its parts read.** -/
theorem within_bind_iff {m : Reads α} {f : α → Reads β} :
    (m >>= f).Within lo hi ↔ m.Within lo hi ∧ (f m.val).Within lo hi := by
  simp only [Within, addrs_bind, List.mem_append]
  exact ⟨fun h => ⟨fun i hi => h i (Or.inl hi), fun i hi => h i (Or.inr hi)⟩,
    fun h i hi => hi.elim (h.1 i) (h.2 i)⟩

/-- Reading less is reading from more. -/
theorem Within.mono {m : Reads α} {lo' hi' : ℕ} (h : m.Within lo hi) (hlo : lo' ≤ lo)
    (hhi : hi ≤ hi') : m.Within lo' hi' := fun i hi =>
  ⟨Nat.le_trans hlo (h i hi).1, Nat.lt_of_lt_of_le (h i hi).2 hhi⟩

/-- The program reads from `lo` up to `hi` only, and what it returns meets `Q`. -/
def Spec (lo hi : ℕ) (Q : α → Prop) (m : Reads α) : Prop := m.Within lo hi ∧ Q m.val

variable {Q : α → Prop}

theorem spec_pure {a : α} (h : Q a) : (pure a : Reads α).Spec lo hi Q := ⟨within_pure a, h⟩

theorem spec_read (mem : ℕ → α) {i : ℕ} (hlo : lo ≤ i) (hhi : i < hi) :
    (read mem i).Spec lo hi (· = mem i) := ⟨within_read mem hlo hhi, rfl⟩

/-- **The parts of a program, one after the other.** -/
theorem Spec.bind {m : Reads β} {R : β → Prop} {f : β → Reads α} (hm : m.Spec lo hi R)
    (hf : ∀ b, R b → (f b).Spec lo hi Q) : (m >>= f).Spec lo hi Q :=
  ⟨within_bind_iff.mpr ⟨hm.1, (hf _ hm.2).1⟩, (hf _ hm.2).2⟩

theorem Spec.mono {m : Reads α} {lo' hi' : ℕ} {Q' : α → Prop} (h : m.Spec lo hi Q)
    (hlo : lo' ≤ lo) (hhi : hi ≤ hi') (hQ : ∀ a, Q a → Q' a) : m.Spec lo' hi' Q' :=
  ⟨h.1.mono hlo hhi, hQ _ h.2⟩

end Reads

/-! ## Slices -/

/-- The `n` cells from `p` on. -/
def slice (mem : ℕ → α) (p n : ℕ) : List α := (List.range n).map fun i => mem (p + i)

@[simp] theorem length_slice (mem : ℕ → α) (p n : ℕ) : (slice mem p n).length = n := by
  simp [slice]

@[simp] theorem slice_zero (mem : ℕ → α) (p : ℕ) : slice mem p 0 = [] := rfl

theorem slice_succ (mem : ℕ → α) (p n : ℕ) :
    slice mem p (n + 1) = mem p :: slice mem (p + 1) n := by
  rw [slice, List.range_succ_eq_map, List.map_cons, List.map_map]
  refine congrArg₂ List.cons rfl (List.map_congr_left fun i _ => ?_)
  exact congrArg mem (by simp only [Nat.succ_eq_add_one]; omega)

theorem take_slice (mem : ℕ → α) (p k n : ℕ) :
    (slice mem p n).take k = slice mem p (min k n) := by
  rw [slice, slice, ← List.map_take, List.take_range]

/-- **Dropping from a slice moves its start.** -/
theorem drop_slice (mem : ℕ → α) : ∀ (k p n : ℕ),
    (slice mem p n).drop k = slice mem (p + k) (n - k)
  | 0, p, n => by rw [List.drop_zero, Nat.add_zero, Nat.sub_zero]
  | k + 1, p, 0 => by rw [slice_zero, List.drop_nil, Nat.zero_sub, slice_zero]
  | k + 1, p, n + 1 => by
      rw [slice_succ, List.drop_succ_cons, drop_slice mem k, Nat.add_sub_add_right, Nat.add_assoc,
        Nat.add_comm 1 k]

theorem headD_slice (mem : ℕ → α) (p : ℕ) {n : ℕ} (h : 0 < n) (a : α) :
    (slice mem p n).headD a = mem p := by
  obtain ⟨n, rfl⟩ := Nat.exists_eq_add_of_le' h
  rw [slice_succ, List.headD_cons]

theorem tail_slice (mem : ℕ → α) (p n : ℕ) :
    (slice mem p n).tail = slice mem (p + 1) (n - 1) := by
  rw [← List.drop_one, drop_slice]

/-- A slice of two cells or more. -/
theorem slice_of_two_le (mem : ℕ → α) (p : ℕ) {n : ℕ} (h : 2 ≤ n) :
    slice mem p n = mem p :: mem (p + 1) :: slice mem (p + 2) (n - 2) := by
  obtain ⟨n, rfl⟩ := Nat.exists_eq_add_of_le' h
  rw [slice_succ, slice_succ, Nat.add_sub_cancel]

/-- A slice is its front and what follows. -/
theorem slice_split (mem : ℕ → α) (p : ℕ) {k n : ℕ} (h : k ≤ n) :
    slice mem p n = slice mem p k ++ slice mem (p + k) (n - k) := by
  rw [← List.take_append_drop k (slice mem p n), take_slice, drop_slice, Nat.min_eq_left h]

/-- `memcpy` of `n` cells. -/
def Reads.copy (mem : ℕ → α) (p n : ℕ) : Reads (List α) :=
  ⟨slice mem p n, (List.range n).map (p + ·)⟩

theorem Reads.spec_copy (mem : ℕ → α) {p n lo hi : ℕ} (hlo : lo ≤ p) (hhi : p + n ≤ hi) :
    (Reads.copy mem p n).Spec lo hi (· = slice mem p n) := by
  refine ⟨fun i hi => ?_, rfl⟩
  obtain ⟨j, hj, rfl⟩ := List.mem_map.mp hi
  have := List.mem_range.mp hj
  omega

end GrainWarehouse

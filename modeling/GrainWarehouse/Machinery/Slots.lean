import GrainWarehouse.Machinery.Circular

/-!
# Machinery/Slots — fixed-size slots in a byte memory

A queue that copies its items lays them out in one block of memory, slot behind slot.  `slots` is
that block as an array of byte strings: **copying an item to the place of a slot is an update of the
array** (`slots_memcpy`), and **nothing outside the block changes** (`memcpy_of_outside`).

`window_update_pred` is the companion of `window_update_succ` for writing in front of a window.
-/

namespace GrainWarehouse

/-! ## Bytes in memory -/

/-- The `n` bytes from `a` on. -/
def bytesAt (mem : ℤ → UInt8) (a : ℤ) (n : ℕ) : List UInt8 :=
  (List.range n).map fun i : ℕ => mem (a + (i : ℤ))

/-- `memcpy`: these bytes go to `dst`. -/
def memcpy (mem : ℤ → UInt8) (dst : ℤ) (xs : List UInt8) : ℤ → UInt8 := fun a =>
  if dst ≤ a then xs.getD (a - dst).toNat (mem a) else mem a

@[simp] theorem length_bytesAt (mem : ℤ → UInt8) (a : ℤ) (n : ℕ) :
    (bytesAt mem a n).length = n := by
  rw [bytesAt, List.length_map, List.length_range]

/-- **A copy changes nothing outside its destination.** -/
theorem memcpy_of_outside {mem : ℤ → UInt8} {dst a : ℤ} {xs : List UInt8}
    (h : a < dst ∨ dst + xs.length ≤ a) : memcpy mem dst xs a = mem a := by
  rw [memcpy]
  split
  · next hle => exact List.getD_eq_default _ _ (by omega)
  · rfl

theorem bytesAt_congr {mem mem' : ℤ → UInt8} {a : ℤ} {n : ℕ}
    (h : ∀ i : ℕ, i < n → mem (a + i) = mem' (a + i)) : bytesAt mem a n = bytesAt mem' a n :=
  List.map_congr_left fun i hi => h i (List.mem_range.mp hi)

/-- …and puts its bytes there. -/
theorem bytesAt_memcpy_self (mem : ℤ → UInt8) (dst : ℤ) (xs : List UInt8) :
    bytesAt (memcpy mem dst xs) dst xs.length = xs := by
  refine List.ext_getElem (length_bytesAt _ _ _) fun i hi hi' => ?_
  have hle : dst ≤ dst + (i : ℤ) := by omega
  have hidx : (dst + (i : ℤ) - dst).toNat = i := by omega
  simp only [bytesAt, List.getElem_map, List.getElem_range, memcpy, if_pos hle, hidx]
  exact List.getD_eq_getElem _ _ hi'

/-! ## Slots -/

variable {n size : ℕ}

/-- The place of slot `i`. -/
def slotAt (head : ℤ) (size : ℕ) (i : Fin n) : ℤ := head + (i.val * size : ℕ)

/-- `n` slots of `size` bytes, from `head` on. -/
def slots (mem : ℤ → UInt8) (head : ℤ) (size : ℕ) : Fin n → List UInt8 := fun i =>
  bytesAt mem (slotAt head size i) size

/-- A slot lies within the block. -/
theorem slotAt_bounds (head : ℤ) (size : ℕ) (i : Fin n) :
    head ≤ slotAt head size i ∧ slotAt head size i + size ≤ head + (n * size : ℕ) := by
  have hmul : (i.val + 1) * size ≤ n * size := Nat.mul_le_mul_right size i.isLt
  rw [Nat.succ_mul] at hmul
  simp only [slotAt]
  omega

/-- **Copying an item into a slot updates that slot**, and no other. -/
theorem slots_memcpy (mem : ℤ → UInt8) (head : ℤ) (j : Fin n) {x : List UInt8}
    (hx : x.length = size) :
    slots (memcpy mem (slotAt head size j) x) head size =
      Function.update (slots mem head size) j x := by
  funext i
  rcases eq_or_ne i j with rfl | hne
  · rw [Function.update_self, slots, ← hx]
    exact bytesAt_memcpy_self _ _ _
  · rw [Function.update_of_ne hne]
    refine bytesAt_congr fun k hk => memcpy_of_outside ?_
    have hval : i.val ≠ j.val := fun h => hne (Fin.ext h)
    simp only [slotAt, hx]
    rcases Nat.lt_or_gt_of_ne hval with hlt | hlt
    · have hmul : (i.val + 1) * size ≤ j.val * size := Nat.mul_le_mul_right size hlt
      rw [Nat.succ_mul] at hmul
      omega
    · have hmul : (j.val + 1) * size ≤ i.val * size := Nat.mul_le_mul_right size hlt
      rw [Nat.succ_mul] at hmul
      omega

/-- …and nothing outside the block. -/
theorem memcpy_slot_of_outside {mem : ℤ → UInt8} {head a : ℤ} {j : Fin n} {x : List UInt8}
    (hx : x.length = size) (h : a < head ∨ head + (n * size : ℕ) ≤ a) :
    memcpy mem (slotAt head size j) x a = mem a := by
  obtain ⟨hlo, hhi⟩ := slotAt_bounds head size j
  exact memcpy_of_outside (by omega)

variable [NeZero n]

/-- **A pointer that moves on by a slot**, and starts again behind the last one, is at the next
slot… -/
theorem slotAt_next (head : ℤ) (hsize : 0 < size) (i : Fin n) :
    (if head + (n * size : ℕ) ≤ slotAt head size i + size then head
      else slotAt head size i + size) = slotAt head size (i + 1) := by
  rcases Nat.lt_or_ge (i.val + 1) n with hnext | hlast
  · have hval : (i + 1 : Fin n).val = i.val + 1 := by
      rw [Fin.val_add, Fin.val_one', Nat.add_mod_mod, Nat.mod_eq_of_lt hnext]
    have hmul : (i.val + 1 + 1) * size ≤ n * size := Nat.mul_le_mul_right size hnext
    rw [Nat.succ_mul, Nat.succ_mul] at hmul
    rw [slotAt, slotAt, hval, Nat.succ_mul, if_neg (by omega)]
    omega
  · have hval : (i + 1 : Fin n).val = 0 := by
      have hn : i.val + 1 = n := Nat.le_antisymm i.isLt hlast
      rw [Fin.val_add, Fin.val_one', Nat.add_mod_mod, hn, Nat.mod_self]
    have hmul : n * size ≤ (i.val + 1) * size := Nat.mul_le_mul_right size hlast
    rw [Nat.succ_mul] at hmul
    rw [slotAt, slotAt, hval, Nat.zero_mul, if_pos (by omega)]
    omega

/-- …and one that moves back is at the slot before. -/
theorem slotAt_prev (head : ℤ) (hsize : 0 < size) (i : Fin n) :
    (if slotAt head size i - size < head then head + (n * size : ℕ) - size
      else slotAt head size i - size) = slotAt head size (i - 1) := by
  obtain ⟨j, rfl⟩ : ∃ j : Fin n, i = j + 1 := ⟨i - 1, (sub_add_cancel i 1).symm⟩
  have hbounds := slotAt_bounds head size j
  have hnext := slotAt_next head hsize j
  rw [add_sub_cancel_right]
  split_ifs at hnext with hlast
  · rw [← hnext, if_pos (by omega)]
    omega
  · rw [← hnext, if_neg (by omega)]
    omega

/-! ## Writing in front of a window -/

variable {β : Type*}

/-- **Writing the slot before a window puts a value in front of it**, while a slot is left. -/
theorem window_update_pred (b : Fin n → β) (s : Fin n) {k : ℕ} (hk : k < n) (x : β) :
    window (Function.update b (s - 1) x) (s - 1) (k + 1) = x :: window b s k := by
  have hpred : s - 1 = s + Fin.ofNat n (n - 1) := by
    have hone : (1 : Fin n) + Fin.ofNat n (n - 1) = 0 := by
      refine Fin.ext ?_
      have hpos := NeZero.pos n
      simp only [Fin.val_add, Fin.val_one', Fin.val_ofNat, Nat.add_mod_mod, Nat.mod_add_mod,
        Fin.val_zero]
      rw [Nat.add_sub_cancel' hpos, Nat.mod_self]
    rw [sub_eq_iff_eq_add, add_assoc, add_comm (Fin.ofNat n (n - 1)), hone, add_zero]
  rw [window_cons, sub_add_cancel, Function.update_self, hpred,
    window_update_of_le b s (by omega) (by have := NeZero.pos n; omega)]

end GrainWarehouse

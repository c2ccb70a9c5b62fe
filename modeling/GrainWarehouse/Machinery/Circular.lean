import Mathlib

/-!
# Machinery/Circular — reading a circular array as a list

`window b s k` lists the `k` slots of a circular array `b : Fin n → β` from slot `s` on.  A ring
buffer holds exactly one window: pushing writes the slot after it (`window_update_succ`), taking
from the front moves its start (`drop_window`, `take_window`).
-/

namespace GrainWarehouse

variable {n : ℕ} [NeZero n] {β : Type*}

/-- The `k` slots of a circular array from `s` on. -/
def window (b : Fin n → β) (s : Fin n) (k : ℕ) : List β :=
  (List.range k).map fun i => b (s + Fin.ofNat n i)

@[simp] theorem length_window (b : Fin n → β) (s : Fin n) (k : ℕ) : (window b s k).length = k := by
  simp [window]

@[simp] theorem window_zero (b : Fin n → β) (s : Fin n) : window b s 0 = [] := rfl

theorem window_succ (b : Fin n → β) (s : Fin n) (k : ℕ) :
    window b s (k + 1) = window b s k ++ [b (s + Fin.ofNat n k)] := by
  simp [window, List.range_succ]

theorem add_ofNat_succ (s : Fin n) (i : ℕ) :
    s + Fin.ofNat n (i + 1) = s + 1 + Fin.ofNat n i := by
  refine Fin.ext ?_
  simp only [Fin.val_add, Fin.val_ofNat, Fin.val_one', Nat.add_mod_mod, Nat.mod_add_mod]
  congr 1
  omega

theorem window_cons (b : Fin n → β) (s : Fin n) (k : ℕ) :
    window b s (k + 1) = b s :: window b (s + 1) k := by
  rw [window, window, List.range_succ_eq_map, List.map_cons, List.map_map]
  refine congrArg₂ List.cons (congrArg b (by simp)) (List.map_congr_left fun i _ => ?_)
  exact congrArg b (add_ofNat_succ s i)

/-- **Dropping from the front of a window moves its start.** -/
theorem drop_window (b : Fin n → β) : ∀ (j : ℕ) (s : Fin n) (k : ℕ),
    (window b s k).drop j = window b (s + Fin.ofNat n j) (k - j)
  | 0, s, k => by simp
  | j + 1, s, 0 => by simp
  | j + 1, s, k + 1 => by
      rw [window_cons, List.drop_succ_cons, drop_window b j, add_ofNat_succ, Nat.add_sub_add_right]

theorem take_window (b : Fin n → β) (s : Fin n) (j k : ℕ) :
    (window b s k).take j = window b s (min j k) := by
  rw [window, window, ← List.map_take, List.take_range]

/-- A write outside a window is not seen in it. -/
theorem window_update_of_le (b : Fin n → β) (s : Fin n) {k d : ℕ}
    (hk : k ≤ d) (hd : d < n) (x : β) :
    window (Function.update b (s + Fin.ofNat n d) x) s k = window b s k := by
  refine List.map_congr_left fun i hi => Function.update_of_ne (fun h => ?_) _ _
  have hik : i < k := List.mem_range.mp hi
  have hid : Fin.ofNat n i = Fin.ofNat n d := add_left_cancel h
  have := congrArg Fin.val hid
  rw [Fin.val_ofNat, Fin.val_ofNat, Nat.mod_eq_of_lt hd, Nat.mod_eq_of_lt (by omega)] at this
  omega

/-- **Writing the slot after a window appends to it**, while a slot is left. -/
theorem window_update_succ (b : Fin n → β) (s : Fin n) {k : ℕ} (hk : k < n) (x : β) :
    window (Function.update b (s + Fin.ofNat n k) x) s (k + 1) = window b s k ++ [x] := by
  rw [window_succ, window_update_of_le b s le_rfl hk, Function.update_self]

end GrainWarehouse

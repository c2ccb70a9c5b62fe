import Mathlib.Data.List.Basic
import Mathlib.Logic.Function.Basic

/-!
# Machinery/Writes — filling a buffer through a cursor

Code that fills a buffer through a moving pointer is the list of its stores, each an address and a
value, and the place where the pointer ends.  **What a cursor has put is read back**
(`contents_storeAll_storesAt`), whatever the buffer held, and **it stores nowhere else**
(`mem_storesAt`).
-/

namespace GrainWarehouse

variable {α : Type*}

/-! ## Stores -/

/-- The `n` values from `p` on. -/
def contents (mem : ℕ → α) (p n : ℕ) : List α := (List.range n).map fun i => mem (p + i)

@[simp] theorem length_contents (mem : ℕ → α) (p n : ℕ) : (contents mem p n).length = n := by
  rw [contents, List.length_map, List.length_range]

theorem contents_succ (mem : ℕ → α) (p n : ℕ) :
    contents mem p (n + 1) = mem p :: contents mem (p + 1) n := by
  rw [contents, List.range_succ_eq_map, List.map_cons, List.map_map]
  refine congrArg _ (List.map_congr_left fun i _ => congrArg mem ?_)
  exact Nat.add_right_comm p i 1

/-- The stores of these values, one behind the other from `p` on. -/
def storesAt : ℕ → List α → List (ℕ × α)
  | _, [] => []
  | p, x :: xs => (p, x) :: storesAt (p + 1) xs

theorem storesAt_append : ∀ (p : ℕ) (xs ys : List α),
    storesAt p (xs ++ ys) = storesAt p xs ++ storesAt (p + xs.length) ys
  | _, [], _ => rfl
  | p, x :: xs, ys => by
      rw [List.cons_append, storesAt, storesAt_append (p + 1) xs ys, List.length_cons,
        Nat.add_right_comm, Nat.add_assoc]
      rfl

/-- **They stay within their own length.** -/
theorem mem_storesAt : ∀ {p : ℕ} {xs : List α} {w : ℕ × α},
    w ∈ storesAt p xs → p ≤ w.1 ∧ w.1 < p + xs.length
  | p, x :: xs, w, h => by
      rw [List.length_cons]
      rcases List.mem_cons.mp h with rfl | h
      · exact ⟨Nat.le_refl _, Nat.lt_add_of_pos_right (Nat.succ_pos _)⟩
      · have := mem_storesAt h
        omega

/-- The buffer after these stores. -/
def storeAll (mem : ℕ → α) : List (ℕ × α) → ℕ → α
  | [] => mem
  | (p, x) :: ws => storeAll (Function.update mem p x) ws

/-- What nobody stores into is as before. -/
theorem storeAll_of_forall_ne : ∀ {ws : List (ℕ × α)} {mem : ℕ → α} {q : ℕ},
    (∀ w ∈ ws, w.1 ≠ q) → storeAll mem ws q = mem q
  | [], _, _, _ => rfl
  | (p, x) :: ws, mem, q, h => by
      rw [storeAll, storeAll_of_forall_ne fun w hw => h w (List.mem_cons_of_mem _ hw)]
      exact Function.update_of_ne (h _ List.mem_cons_self).symm x mem

/-- **What was stored is read back**, whatever the buffer held. -/
theorem contents_storeAll_storesAt : ∀ (xs : List α) (p : ℕ) (mem : ℕ → α),
    contents (storeAll mem (storesAt p xs)) p xs.length = xs
  | [], _, _ => rfl
  | x :: xs, p, mem => by
      have hfirst : storeAll (Function.update mem p x) (storesAt (p + 1) xs) p = x := by
        rw [storeAll_of_forall_ne fun w hw => Nat.ne_of_gt (mem_storesAt hw).1]
        exact Function.update_self p x mem
      rw [storesAt, storeAll, List.length_cons, contents_succ, hfirst,
        contents_storeAll_storesAt xs]

/-! ## The cursor -/

/-- A buffer as far as it is filled: the stores made, in order, and the place for the next. -/
structure Cursor (α : Type*) where
  stores : List (ℕ × α)
  p : ℕ

namespace Cursor

/-- At the front of the buffer. -/
def start : Cursor α := ⟨[], 0⟩

/-- Putting these values, and moving on. -/
def put (c : Cursor α) (xs : List α) : Cursor α :=
  ⟨c.stores ++ storesAt c.p xs, c.p + xs.length⟩

/-- The cursor that has put these values. -/
def of (xs : List α) : Cursor α := ⟨storesAt 0 xs, xs.length⟩

theorem start_put (xs : List α) : start.put xs = of xs := by
  rw [put, of, start, List.nil_append, Nat.zero_add]

/-- **Values put one after the other are put together.** -/
theorem of_put (xs ys : List α) : (of xs).put ys = of (xs ++ ys) := by
  rw [put, of, of, storesAt_append, Nat.zero_add, List.length_append]

end Cursor

end GrainWarehouse

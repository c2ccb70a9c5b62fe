import GrainWarehouse.Machinery.Circular

/-!
# Machinery/Recent — a ring that keeps the last values

A ring of `n` slots with a write position and a count, which stops at `n`: writing goes on over the
oldest value.  **After the values `xs` it holds the last `n` of them** (`Holds.push`), and reading
backwards from the write position lists the latest (`Holds.latest_eq`).
-/

namespace GrainWarehouse

variable {n : ℕ} [NeZero n] {β : Type*}

/-- The slots, the next slot to write, and how many have been written. -/
structure Recent (n : ℕ) (β : Type*) where
  buf : Fin n → β
  head : Fin n
  count : ℕ

namespace Recent

/-- A ring that has not been written. -/
def init (x : β) : Recent n β := ⟨fun _ => x, 0, 0⟩

/-- A value is written. -/
def push (r : Recent n β) (x : β) : Recent n β where
  buf := Function.update r.buf r.head x
  head := r.head + 1
  count := if r.count < n then r.count + 1 else r.count

/-- The written slots, in the order of the array. -/
def slots (r : Recent n β) : List β := window r.buf 0 r.count

/-- The slot `i` before the last one written: `head - 1 - i`, or `n` more if that is negative. -/
def back (head : Fin n) (i : ℕ) : Fin n :=
  let idx : ℤ := (head : ℕ) - 1 - i
  Fin.ofNat n (if idx < 0 then idx + n else idx).toNat

/-- The last `k` values, the latest first. -/
def latest (r : Recent n β) (k : ℕ) : List β := (List.range k).map fun i => r.buf (back r.head i)

/-- **What the ring holds after the values `xs`.** -/
structure Holds (r : Recent n β) (xs : List β) : Prop where
  head : r.head = Fin.ofNat n xs.length
  count : r.count = min xs.length n
  held : window r.buf (Fin.ofNat n (xs.length - r.count)) r.count = xs.rtake n

theorem holds_init (x : β) : (init x : Recent n β).Holds [] where
  head := rfl
  count := (Nat.zero_min n).symm
  held := (List.rtake_nil n).symm

theorem ofNat_succ (a : ℕ) : Fin.ofNat n (a + 1) = Fin.ofNat n a + 1 := by
  have h := add_ofNat_succ (0 : Fin n) a
  rw [zero_add, zero_add] at h
  rw [h, add_comm]

theorem ofNat_add_ofNat (a b : ℕ) : Fin.ofNat n a + Fin.ofNat n b = Fin.ofNat n (a + b) := by
  induction b with
  | zero => exact add_zero _
  | succ b ih => rw [ofNat_succ, ← add_assoc, ih, ← Nat.add_assoc, ofNat_succ]

/-- A window read backwards. -/
theorem reverse_window (b : Fin n → β) (s : Fin n) : ∀ k : ℕ,
    (window b s k).reverse = (List.range k).map fun i => b (s + Fin.ofNat n (k - 1 - i))
  | 0 => rfl
  | k + 1 => by
      rw [window_succ, List.reverse_append, reverse_window b s k, List.range_succ_eq_map,
        List.map_cons, List.map_map]
      refine congrArg (List.cons _) (List.map_congr_left fun i _ => ?_)
      rw [Function.comp_apply, Nat.succ_eq_add_one, Nat.add_sub_cancel, Nat.sub_sub, Nat.add_comm 1]

/-- **Going back from the slot after a window.** -/
theorem back_add (s : Fin n) {k i : ℕ} (hk : k ≤ n) (hi : i < k) :
    back (s + Fin.ofNat n k) i = s + Fin.ofNat n (k - 1 - i) := by
  have hs := s.isLt
  have hhead : ((s + Fin.ofNat n k : Fin n) : ℕ) = (s + k) % n := by
    rw [Fin.val_add, Fin.val_ofNat, Nat.add_mod_mod]
  refine Fin.ext ?_
  rw [back, Fin.val_ofNat, hhead, Fin.val_add, Fin.val_ofNat, Nat.add_mod_mod]
  by_cases hwrap : s + k < n
  · rw [Nat.mod_eq_of_lt hwrap, if_neg (by omega)]
    congr 1
    omega
  · have hmod : ((s : ℕ) + k) % n = s + k - n := by
      rw [Nat.mod_eq_sub_mod (by omega), Nat.mod_eq_of_lt (by omega)]
    rw [hmod]
    split_ifs
    · congr 1
      omega
    · rw [Nat.mod_eq_sub_mod (by omega : (s : ℕ) + (k - 1 - i) ≥ n)]
      congr 1
      omega

namespace Holds

variable {r : Recent n β} {xs : List β}

/-- **Writing a value makes it the last one.** -/
theorem push (h : r.Holds xs) (x : β) : (r.push x).Holds (xs ++ [x]) := by
  have hcount := h.count
  have hpos : 0 < n := Nat.pos_of_ne_zero (NeZero.ne n)
  have hlen : (xs ++ [x]).length = xs.length + 1 := List.length_append
  have hhead : (r.push x).head = Fin.ofNat n (xs ++ [x]).length := by
    rw [hlen, ofNat_succ, ← h.head]
    rfl
  by_cases hroom : r.count < n
  · have hlt : xs.length < n := by omega
    have hall : r.count = xs.length := by omega
    have hnext : (r.push x).count = r.count + 1 := if_pos hroom
    refine ⟨hhead, by omega, ?_⟩
    have hheld := h.held
    rw [hall, Nat.sub_self, List.rtake, Nat.sub_eq_zero_of_le hlt.le, List.drop_zero] at hheld
    have hbuf : (r.push x).buf = Function.update r.buf (0 + Fin.ofNat n xs.length) x := by
      rw [zero_add, ← h.head]
      rfl
    rw [hnext, hall, hlen, Nat.sub_self, Fin.ofNat_zero, hbuf, window_update_succ _ _ hlt,
      List.rtake, Nat.sub_eq_zero_of_le (hlen.trans_le hlt), List.drop_zero]
    exact congrArg (· ++ [x]) hheld
  · have hfull : r.count = n := by omega
    have hge : n ≤ xs.length := by omega
    have hnext : (r.push x).count = n := (if_neg hroom).trans hfull
    refine ⟨hhead, by omega, ?_⟩
    obtain ⟨m, rfl⟩ := Nat.exists_eq_add_of_le' hpos
    -- the oldest value stood in the slot that is written
    have hstart :
        Fin.ofNat (m + 1) (xs.length - (m + 1)) + 1 = Fin.ofNat (m + 1) (xs.length - m) := by
      rw [← ofNat_succ]
      congr 1
      omega
    have hslot : r.head = Fin.ofNat (m + 1) (xs.length - m) + Fin.ofNat (m + 1) m := by
      rw [h.head, ofNat_add_ofNat, Nat.sub_add_cancel (by omega)]
    have hheld := h.held
    rw [hfull, window_cons, hstart] at hheld
    have htail : window r.buf (Fin.ofNat (m + 1) (xs.length - m)) m = xs.rtake m := by
      have hdrop := congrArg (List.drop 1) hheld
      rw [List.drop_one, List.tail_cons, List.rtake, List.drop_drop] at hdrop
      rw [hdrop, List.rtake]
      congr 1
      omega
    have hbuf : (r.push x).buf = Function.update r.buf r.head x := rfl
    rw [hnext, hlen, Nat.add_sub_add_right, hbuf, hslot,
      window_update_succ _ _ (Nat.lt_succ_self m), List.rtake_concat_succ, htail]

/-- The last values stand before the write position. -/
theorem window_eq (h : r.Holds xs) {k : ℕ} (hk : k ≤ r.count) :
    window r.buf (Fin.ofNat n (xs.length - k)) k = xs.rtake k := by
  have hcount := h.count
  have hdrop := congrArg (List.drop (r.count - k)) h.held
  rw [drop_window, ofNat_add_ofNat, List.rtake, List.drop_drop] at hdrop
  have hstart : xs.length - r.count + (r.count - k) = xs.length - k := by omega
  have hlen : r.count - (r.count - k) = k := by omega
  have hskip : xs.length - n + (r.count - k) = xs.length - k := by omega
  rwa [hstart, hlen, hskip] at hdrop

/-- The values in the order in which they came: from the first slot on, or from the write position
when the ring is full. -/
theorem window_oldest (h : r.Holds xs) :
    window r.buf (if r.count < n then 0 else r.head) r.count = xs.rtake n := by
  have hcount := h.count
  have hstart : (if r.count < n then 0 else r.head) = Fin.ofNat n (xs.length - r.count) := by
    split_ifs with hroom
    · rw [(by omega : xs.length - r.count = 0), Fin.ofNat_zero]
    · have hfull : xs.length = xs.length - r.count + n := by omega
      rw [h.head]
      refine Fin.ext ?_
      rw [Fin.val_ofNat, Fin.val_ofNat, hfull, Nat.add_mod_right, ← hfull]
  rw [hstart, h.held]

/-- **Reading backwards lists the last values.** -/
theorem latest_eq (h : r.Holds xs) {k : ℕ} (hk : k ≤ r.count) :
    r.latest k = (xs.rtake k).reverse := by
  have hcount := h.count
  have hhead : r.head = Fin.ofNat n (xs.length - k) + Fin.ofNat n k := by
    rw [h.head, ofNat_add_ofNat, Nat.sub_add_cancel (by omega)]
  rw [← h.window_eq hk, reverse_window, latest, hhead]
  refine List.map_congr_left fun i hi => ?_
  rw [back_add _ (by omega) (List.mem_range.mp hi)]

end Holds

/-- Each value is mapped. -/
def map {γ : Type*} (f : β → γ) (r : Recent n β) : Recent n γ :=
  ⟨fun i => f (r.buf i), r.head, r.count⟩

theorem rtake_map {γ : Type*} (f : β → γ) (xs : List β) (k : ℕ) :
    (xs.map f).rtake k = (xs.rtake k).map f := by
  rw [List.rtake, List.rtake, List.length_map, List.map_drop]

theorem window_map {γ : Type*} (f : β → γ) (b : Fin n → β) (s : Fin n) (k : ℕ) :
    window (fun i => f (b i)) s k = (window b s k).map f := by
  rw [window, window, List.map_map]
  rfl

theorem slots_map {γ : Type*} (f : β → γ) (r : Recent n β) : (r.map f).slots = r.slots.map f :=
  window_map f r.buf 0 r.count

/-- **A ring of mapped values holds them.** -/
theorem Holds.map {γ : Type*} {r : Recent n β} {xs : List β} (h : r.Holds xs) (f : β → γ) :
    (r.map f).Holds (xs.map f) where
  head := by
    rw [List.length_map]
    exact h.head
  count := by
    rw [List.length_map]
    exact h.count
  held := by
    rw [rtake_map, List.length_map, ← h.held]
    exact window_map f r.buf _ r.count

/-- The slots of the array sum up like a window of all of them. -/
theorem sum_window [AddCommMonoid β] (b : Fin n → β) (s : Fin n) :
    (window b s n).sum = ∑ i, b i := by
  have hrange : (window b s n).sum = ∑ i ∈ Finset.range n, b (s + Fin.ofNat n i) := rfl
  rw [hrange, Finset.sum_range]
  simp only [Fin.ofNat_val_eq_self]
  exact Equiv.sum_comp (Equiv.addLeft s) b

/-- **The written slots sum up to the last values.** -/
theorem Holds.sum_slots [AddCommMonoid β] {r : Recent n β} {xs : List β} (h : r.Holds xs) :
    r.slots.sum = (xs.rtake n).sum := by
  have hcount := h.count
  rw [slots, ← h.held]
  by_cases hfull : r.count = n
  · rw [hfull, sum_window, sum_window]
  · have hall : r.count = xs.length := by omega
    rw [hall, Nat.sub_self, Fin.ofNat_zero]

end Recent

end GrainWarehouse

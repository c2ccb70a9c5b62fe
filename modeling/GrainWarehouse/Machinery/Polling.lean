import Mathlib

/-!
# Machinery/Polling — a program that watches a line

A program on a clock: each of its delays takes the time that was asked for, and some more.  The
level of the line at each moment is a function `ℕ → Bool`.  `Watch.await` looks at the line again
and again, a delay after each look, until the line leaves a level or there are no looks left.

**An edge within reach is found, and not much later than it comes** (`await_edge`), however late the
delays end; and whatever the line does, `await` comes to an end in time (`spends_await`).
-/

namespace GrainWarehouse

/-- The clock of a program, and how much later than asked each of its delays to come will end. -/
structure Watch where
  now : ℕ
  late : ℕ → ℕ

namespace Watch

variable {line : ℕ → Bool} {level : Bool} {period slack : ℕ}

/-- No delay to come is later than this. -/
def Late (slack : ℕ) (w : Watch) : Prop := ∀ i, w.late i ≤ slack

/-- A delay. -/
def delay (n : ℕ) (w : Watch) : Watch := ⟨w.now + n + w.late 0, fun i => w.late (i + 1)⟩

/-- Looks at the line, `n` times at most, as long as it is at this level; whether it was found to
have left it. -/
def await (line : ℕ → Bool) (level : Bool) (period : ℕ) : ℕ → Watch → Bool × Watch
  | 0, w => (false, w)
  | n + 1, w => if line w.now = level then await line level period n (w.delay period) else (true, w)

theorem Late.delay {w : Watch} (h : w.Late slack) (n : ℕ) : (w.delay n).Late slack :=
  fun i => h (i + 1)

theorem Late.now_delay {w : Watch} (h : w.Late slack) (n : ℕ) :
    w.now + n ≤ (w.delay n).now ∧ (w.delay n).now ≤ w.now + n + slack :=
  ⟨Nat.le_add_right _ _, Nat.add_le_add_left (h 0) _⟩

/-- From one moment to the other at most `d` goes by. -/
structure Spends (slack d : ℕ) (w w' : Watch) : Prop where
  late : w'.Late slack
  now : w'.now ≤ w.now + d

theorem Spends.trans {d d' : ℕ} {w w' w'' : Watch} (h : Spends slack d w w')
    (h' : Spends slack d' w' w'') : Spends slack (d + d') w w'' :=
  ⟨h'.late, by rw [← Nat.add_assoc]; exact h'.now.trans (Nat.add_le_add_right h.now d')⟩

theorem Late.spends_delay {w : Watch} (h : w.Late slack) (n : ℕ) :
    Spends slack (n + slack) w (w.delay n) :=
  ⟨h.delay n, (h.now_delay n).2.trans_eq (Nat.add_assoc _ _ _)⟩

variable (line level period) in
/-- **Whatever the line does, there is an end to it.** -/
theorem Late.spends_await : ∀ (n : ℕ) {w : Watch}, w.Late slack →
    Spends slack (n * (period + slack)) w (Watch.await line level period n w).2
  | 0, _, h => ⟨h, Nat.le_add_right _ _⟩
  | n + 1, w, h => by
      rw [Watch.await]
      split
      · have hsum : (n + 1) * (period + slack) = period + slack + n * (period + slack) := by
          rw [Nat.succ_mul, Nat.add_comm]
        rw [hsum]
        exact (h.spends_delay period).trans (Late.spends_await n (h.delay period))
      · exact ⟨h, Nat.le_add_right _ _⟩

theorem now_le_delay (w : Watch) (n : ℕ) : w.now ≤ (w.delay n).now :=
  (Nat.le_add_right _ _).trans (Nat.le_add_right _ _)

/-- A line that stays at the level. -/
theorem await_of_eq (period : ℕ) : ∀ {w : Watch}, (∀ t, w.now ≤ t → line t = level) →
    ∀ n : ℕ, (await line level period n w).1 = false
  | _, _, 0 => rfl
  | w, h, n + 1 => by
      rw [await, if_pos (h w.now le_rfl)]
      exact await_of_eq period (fun t ht => h t ((w.now_le_delay period).trans ht)) n

/-- A line that has already left the level. -/
theorem await_of_ne {w : Watch} (h : line w.now ≠ level) (n : ℕ) :
    await line level period (n + 1) w = (true, w) := by
  rw [await, if_neg h]

/-- **An edge within reach is found**, less than a look later than it comes. -/
theorem await_edge {edge : ℕ} (hpost : ∀ t, edge ≤ t → t < edge + (period + slack) → line t ≠ level)
    (hperiod : 0 < period) : ∀ (n : ℕ) {w : Watch}, w.Late slack → w.now ≤ edge →
    (∀ t, w.now ≤ t → t < edge → line t = level) → edge ≤ w.now + n * period →
      (await line level period (n + 1) w).1 = true ∧
        edge ≤ (await line level period (n + 1) w).2.now ∧
        (await line level period (n + 1) w).2.now < edge + (period + slack)
  | n, w, hlate, hle, hpre, hreach => by
      rcases Nat.eq_or_lt_of_le hle with heq | hlt
      · rw [await_of_ne (hpost w.now heq.ge (by omega))]
        refine ⟨rfl, heq.ge, ?_⟩
        change w.now < _
        omega
      obtain ⟨n, rfl⟩ : ∃ n', n = n' + 1 := by
        refine Nat.exists_eq_succ_of_ne_zero ?_
        rintro rfl
        omega
      rw [await, if_pos (hpre w.now le_rfl hlt)]
      have hnow := hlate.now_delay period
      rw [Nat.succ_mul] at hreach
      rcases Nat.lt_or_ge (w.delay period).now edge with hbefore | hafter
      · exact await_edge hpost hperiod n (hlate.delay period) hbefore.le
          (fun t ht => hpre t (by omega)) (by omega)
      · rw [await_of_ne (hpost _ hafter (by omega))]
        refine ⟨rfl, hafter, ?_⟩
        change (w.delay period).now < _
        omega

end Watch

/-! ## Bytes, highest bit first -/

/-- The bits of a byte, the highest first. -/
def msbFirst (b : UInt8) : List Bool := (List.range 8).map fun i => b.toNat.testBit (7 - i)

@[simp] theorem length_msbFirst (b : UInt8) : (msbFirst b).length = 8 := rfl

/-- `dat <<= 1; dat |= bit;` -/
def shiftIn (dat : UInt8) (bit : Bool) : UInt8 := (dat <<< 1) ||| if bit then 1 else 0

/-- **Bits shifted in one after the other make up the byte.** -/
theorem foldl_shiftIn_msbFirst (b : UInt8) : (msbFirst b).foldl shiftIn 0 = b := by
  have hall : ∀ n : Fin 256, (msbFirst (UInt8.ofNat n)).foldl shiftIn 0 = UInt8.ofNat n := by
    decide +kernel
  have hb := hall ⟨b.toNat, b.toNat_lt⟩
  rwa [UInt8.ofNat_toNat] at hb

end GrainWarehouse

import Mathlib

/-!
# Machinery/Numeral — decimal numerals as bytes

`decimal n` is what C's `%u` prints.  `numeralValue` is the Horner loop `acc * 10 + (c - '0')` every
hand-written parser runs, over any semiring — unbounded in `ℕ`, wrapping in a machine word — and
`numeralValue_decimal` says that reading what was printed gives the number back.
-/

namespace GrainWarehouse

/-- A C string constant, without its terminating NUL. -/
def ascii (s : String) : List UInt8 := s.toList.map fun c => UInt8.ofNat c.toNat

/-- `snprintf` into a buffer of this size. -/
def snprintf (size : ℕ) (s : List UInt8) : List UInt8 := s.take (size - 1)

/-- `'0' ≤ c && c ≤ '9'`. -/
def isDigit (c : UInt8) : Bool := 48 ≤ c && c ≤ 57

/-- **The decimal numeral of `n`**, without leading zeros. -/
def decimal (n : ℕ) : List UInt8 := (Nat.toDigits 10 n).map fun c => UInt8.ofNat c.toNat

/-- Horner's loop over a digit string, in the arithmetic of `R`. -/
def numeralValue {R : Type*} [Semiring R] (acc : R) : List UInt8 → R
  | [] => acc
  | c :: cs => numeralValue (acc * 10 + ((c - 48).toNat : R)) cs

theorem numeralValue_append {R : Type*} [Semiring R] : ∀ (l m : List UInt8) (acc : R),
    numeralValue acc (l ++ m) = numeralValue (numeralValue acc l) m
  | [], _, _ => rfl
  | c :: cs, m, acc => numeralValue_append cs m (acc * 10 + ((c - 48).toNat : R))

/-- **Horner's loop commutes with the cast**: the numeral of a word is that of `ℕ`, wrapped. -/
theorem numeralValue_natCast {R : Type*} [Semiring R] : ∀ (l : List UInt8) (acc : ℕ),
    numeralValue (acc : R) l = (numeralValue acc l : ℕ)
  | [], _ => rfl
  | c :: cs, acc => by
      rw [numeralValue, numeralValue, ← numeralValue_natCast cs]
      push_cast
      rfl

/-- The number a run of digits writes. -/
def number (d : List UInt8) : ℕ := numeralValue 0 d

/-- **A run of digits ends at the first character that is no digit.** -/
theorem takeWhile_digits {d l : List UInt8} {c : UInt8} (hd : ∀ c ∈ d, isDigit c = true)
    (hc : isDigit c = false) :
    (d ++ c :: l).takeWhile isDigit = d ∧ (d ++ c :: l).dropWhile isDigit = c :: l := by
  have hc' : ¬ isDigit c = true := by simp [hc]
  rw [List.takeWhile_append_of_pos hd, List.dropWhile_append_of_pos hd,
    List.takeWhile_cons_of_neg hc', List.dropWhile_cons_of_neg hc', List.append_nil]
  exact ⟨rfl, rfl⟩

/-- …so a run, and what follows it, are determined by the text. -/
theorem digits_unique {d d' l l' : List UInt8} {c c' : UInt8} (hd : ∀ c ∈ d, isDigit c = true)
    (hd' : ∀ c ∈ d', isDigit c = true) (hc : isDigit c = false) (hc' : isDigit c' = false)
    (h : d ++ c :: l = d' ++ c' :: l') : d = d' ∧ c = c' ∧ l = l' := by
  obtain ⟨htake, hdrop⟩ := takeWhile_digits (l := l) hd hc
  obtain ⟨htake', hdrop'⟩ := takeWhile_digits (l := l') hd' hc'
  rw [h] at htake hdrop
  obtain ⟨hcc, hll⟩ := List.cons.inj (hdrop.symm.trans hdrop')
  exact ⟨htake.symm.trans htake', hcc, hll⟩

/-- A digit character, as a byte. -/
theorem ofNat_digitChar {d : ℕ} (hd : d < 10) :
    UInt8.ofNat (Nat.digitChar d).toNat = UInt8.ofNat (48 + d) := by
  rw [Nat.toNat_digitChar_of_lt_ten hd]

theorem isDigit_ofNat {d : ℕ} (hd : d < 10) : isDigit (UInt8.ofNat (48 + d)) = true := by
  interval_cases d <;> decide

theorem toNat_ofNat_sub {d : ℕ} (hd : d < 10) : (UInt8.ofNat (48 + d) - 48).toNat = d := by
  interval_cases d <;> decide

theorem decimal_of_lt {n : ℕ} (hn : n < 10) : decimal n = [UInt8.ofNat (48 + n)] := by
  rw [decimal, Nat.toDigits_of_lt_base hn, List.map_singleton, ofNat_digitChar hn]

/-- The last digit comes off the end of a numeral. -/
theorem decimal_of_le {n : ℕ} (hn : 10 ≤ n) :
    decimal n = decimal (n / 10) ++ [UInt8.ofNat (48 + n % 10)] := by
  rw [decimal, Nat.toDigits_of_base_le (by decide) hn, List.map_append, List.map_singleton,
    ofNat_digitChar (Nat.mod_lt n (by decide))]
  rfl

theorem decimal_ne_nil (n : ℕ) : decimal n ≠ [] :=
  fun h => Nat.toDigits_ne_nil (List.map_eq_nil_iff.mp h)

theorem length_decimal_le {n k : ℕ} (hk : 0 < k) (hn : n < 10 ^ k) : (decimal n).length ≤ k := by
  rw [decimal, List.length_map]
  exact (Nat.length_toDigits_le_iff (by decide) hk).mpr hn

/-- **A numeral is made of digits.** -/
theorem isDigit_of_mem_decimal {n : ℕ} : ∀ c ∈ decimal n, isDigit c = true := by
  induction n using Nat.strong_induction_on with
  | _ n ih =>
    intro c hc
    rcases Nat.lt_or_ge n 10 with hn | hn
    · rw [decimal_of_lt hn, List.mem_singleton] at hc
      exact hc ▸ isDigit_ofNat hn
    · rw [decimal_of_le hn, List.mem_append, List.mem_singleton] at hc
      rcases hc with hc | rfl
      · exact ih (n / 10) (by omega) c hc
      · exact isDigit_ofNat (Nat.mod_lt n (by decide))

/-- No character but a digit stands in a numeral. -/
theorem notMem_decimal {c : UInt8} (hc : isDigit c = false) (n : ℕ) : c ∉ decimal n := fun h => by
  rw [isDigit_of_mem_decimal c h] at hc
  cases hc

/-- **Reading a printed numeral gives its number**, in any semiring. -/
theorem numeralValue_decimal {R : Type*} [Semiring R] (n : ℕ) :
    numeralValue (0 : R) (decimal n) = n := by
  induction n using Nat.strong_induction_on with
  | _ n ih =>
    rcases Nat.lt_or_ge n 10 with hn | hn
    · rw [decimal_of_lt hn, numeralValue, numeralValue, toNat_ofNat_sub hn, zero_mul, zero_add]
    · rw [decimal_of_le hn, numeralValue_append, ih (n / 10) (by omega), numeralValue, numeralValue,
        toNat_ofNat_sub (Nat.mod_lt n (by decide))]
      have h : n / 10 * 10 + n % 10 = n := by omega
      exact_mod_cast congrArg (Nat.cast (R := R)) h

theorem number_decimal (n : ℕ) : number (decimal n) = n := numeralValue_decimal n

/-! ## Two bytes -/

/-- **A 16-bit number is its high byte and its low byte.** -/
theorem or_high_low (v : UInt16) :
    (v >>> 8).toUInt8.toUInt16 <<< 8 ||| v.toUInt8.toUInt16 = v := by
  have h8 : (8 : UInt16).toNat = 8 := rfl
  have hv := v.toNat_lt
  refine UInt16.toNat_inj.mp ?_
  simp only [UInt16.toNat_or, UInt16.toNat_shiftLeft, UInt8.toNat_toUInt16, UInt16.toNat_toUInt8,
    UInt16.toNat_shiftRight, h8, Nat.shiftRight_eq_div_pow, Nat.shiftLeft_eq]
  rw [Nat.mod_eq_of_lt (a := 8) (by decide), Nat.mod_eq_of_lt (b := 2 ^ 8) (by omega),
    Nat.mod_eq_of_lt (b := 2 ^ 16) (by omega), Nat.mul_comm,
    ← Nat.two_pow_add_eq_or_of_lt (Nat.mod_lt _ (by decide))]
  omega

end GrainWarehouse

import GrainWarehouse.Esp8266.Frames

/-!
# Esp8266/Header — which strings are an `+IPD` header, and which `parse_ipd_header` takes for one

A header begins with `+IPD,[link,]length:`, both numbers of any number of digits, the link at most
127 and the length from 1 to 65535.  `parse_ipd_header` reads runs of digits that may be empty, and
narrows the two sums to `int8_t` and `uint16_t` before its caller compares them with anything.

So it errs exactly where the narrowed numbers look right and the written ones are not
(`headerRight_iff`): a link or a length out of range, or a comma with no link before it.
-/

namespace GrainWarehouse

/-! ## The grammar -/

/-- `link,`, if there is one. -/
def linkField : Option (List UInt8) → List UInt8
  | none => []
  | some d => d ++ [44]

/-- **The string begins with `+IPD,[a,]b:`**, where `a` and `b` are runs of digits, empty or not. -/
structure HeaderForm (line : List UInt8) (a : Option (List UInt8)) (b : List UInt8) : Prop where
  link_digits : ∀ d ∈ a, ∀ c ∈ d, isDigit c = true
  digits : ∀ c ∈ b, isDigit c = true
  form : ∃ rest, line = ascii "+IPD," ++ (linkField a ++ (b ++ 58 :: rest))

/-- The link that is written, 0 when none is. -/
def linkNumber (a : Option (List UInt8)) : ℕ := a.elim 0 number

/-- **The string begins with a header**, whose numbers are `link` and `len`. -/
def IsHeader (line : List UInt8) (link : ℤ) (len : ℕ) : Prop :=
  ∃ a b, HeaderForm line a b ∧ a ≠ some [] ∧ b ≠ [] ∧
    link = linkNumber a ∧ linkNumber a ≤ 127 ∧ len = number b ∧ 1 ≤ len ∧ len ≤ 65535

/-- **`parse_ipd_header` reads the string right**: it returns a link and a length that its caller
takes exactly for a header, and these are the header's. -/
def HeaderRight (line : List UInt8) : Prop :=
  ∀ link len, (parseIpdHeader line = (link, len) ∧ 0 ≤ link ∧ len ≠ 0) ↔ IsHeader line link len

/-! ## What is read -/

theorem linkField_none (l : List UInt8) : linkField none ++ l = l := rfl

theorem linkField_some (d l : List UInt8) : linkField (some d) ++ l = d ++ 44 :: l := by
  rw [linkField, List.append_assoc, List.singleton_append]

theorem isDigit_comma : isDigit 44 = false := by decide

theorem isDigit_colon : isDigit 58 = false := by decide

/-- **The runs of a string are determined by it.** -/
theorem HeaderForm.unique {line : List UInt8} {a a' : Option (List UInt8)} {b b' : List UInt8}
    (h : HeaderForm line a b) (h' : HeaderForm line a' b') : a = a' ∧ b = b' := by
  obtain ⟨ha, hb, rest, rfl⟩ := h
  obtain ⟨ha', hb', rest', heq⟩ := h'
  have heq := List.append_cancel_left heq
  match a, a', ha, ha', heq with
  | none, none, _, _, heq =>
    exact ⟨rfl, (digits_unique hb hb' isDigit_colon isDigit_colon heq).1⟩
  | none, some d', _, ha', heq =>
    rw [linkField_none, linkField_some] at heq
    have hc := (digits_unique hb (ha' d' rfl) isDigit_colon isDigit_comma heq).2.1
    exact absurd hc (by decide)
  | some d, none, ha, _, heq =>
    rw [linkField_none, linkField_some] at heq
    have hc := (digits_unique (ha d rfl) hb' isDigit_comma isDigit_colon heq).2.1
    exact absurd hc (by decide)
  | some d, some d', ha, ha', heq =>
    rw [linkField_some, linkField_some] at heq
    obtain ⟨rfl, -, hrest⟩ := digits_unique (ha d rfl) (ha' d' rfl) isDigit_comma isDigit_comma heq
    exact ⟨rfl, (digits_unique hb hb' isDigit_colon isDigit_colon hrest).1⟩

/-- A sum of digits in an `int`. -/
theorem leadingInt_digits {d l : List UInt8} {c : UInt8} (hd : ∀ c ∈ d, isDigit c = true)
    (hc : isDigit c = false) : leadingInt (d ++ c :: l) = (number d : BitVec 32) := by
  rw [leadingInt, (takeWhile_digits hd hc).1, number]
  exact numeralValue_natCast d 0

/-- Casting to `int8_t` and to `uint16_t` reduces the written number. -/
theorem setWidth_natCast {n w : ℕ} (hw : w ≤ 32) :
    ((n : BitVec 32).setWidth w).toNat = n % 2 ^ w := by
  rw [BitVec.natCast_eq_ofNat, BitVec.setWidth_ofNat_of_le hw, BitVec.toNat_ofNat]

theorem drop_ipd (l : List UInt8) : (ascii "+IPD," ++ l).drop 5 = l :=
  List.drop_left' rfl

theorem isPrefixOf_ipd (l : List UInt8) : (ascii "+IPD,").isPrefixOf (ascii "+IPD," ++ l) = true :=
  List.isPrefixOf_iff_prefix.mpr (List.prefix_append _ _)

/-- **A string of the form is read, and its numbers narrowed.** -/
theorem parseIpdHeader_of_form {line : List UInt8} {a : Option (List UInt8)} {b : List UInt8}
    (h : HeaderForm line a b) :
    parseIpdHeader line =
      (((linkNumber a : BitVec 32).setWidth 8).toInt, number b % 2 ^ 16) := by
  obtain ⟨ha, hb, rest, rfl⟩ := h
  have hcomma : ¬ (some 58 : Option UInt8) = some 44 := by decide
  simp only [parseIpdHeader, isPrefixOf_ipd, if_true, drop_ipd]
  cases a with
  | none =>
    simp only [linkField_none, (takeWhile_digits hb isDigit_colon).2, List.head?_cons,
      if_neg hcomma, if_true, leadingInt_digits hb isDigit_colon,
      setWidth_natCast (by decide : 16 ≤ 32)]
    rfl
  | some d =>
    have hd := ha d rfl
    simp only [linkField_some, (takeWhile_digits hd isDigit_comma).2, List.head?_cons, if_true,
      List.tail_cons, (takeWhile_digits hb isDigit_colon).2, leadingInt_digits hb isDigit_colon,
      leadingInt_digits hd isDigit_comma, setWidth_natCast (by decide : 16 ≤ 32)]
    rfl

/-- A text whose first character after its digits is `c`. -/
theorem digits_of_head? {p : List UInt8} {c : UInt8} (h : (p.dropWhile isDigit).head? = some c) :
    ∃ d rest, (∀ c ∈ d, isDigit c = true) ∧ p = d ++ c :: rest := by
  obtain ⟨rest, hrest⟩ := List.head?_eq_some_iff.mp h
  refine ⟨p.takeWhile isDigit, rest, fun c hc => List.mem_takeWhile_imp hc, ?_⟩
  rw [← hrest, List.takeWhile_append_dropWhile]

/-- **…and only a string of the form is.** -/
theorem exists_form_of_parseIpdHeader {line : List UInt8} (h : 0 ≤ (parseIpdHeader line).1) :
    ∃ a b, HeaderForm line a b := by
  obtain ⟨p, rfl⟩ := prefix_of_parseIpdHeader h
  simp only [parseIpdHeader, isPrefixOf_ipd, if_true, drop_ipd] at h
  split_ifs at h with hlink hcolon hcolon
  · obtain ⟨d, rest, hd, rfl⟩ := digits_of_head? hlink
    rw [(takeWhile_digits hd isDigit_comma).2, List.tail_cons] at hcolon
    obtain ⟨b, rest', hb, rfl⟩ := digits_of_head? hcolon
    refine ⟨some d, b, ?_, hb, rest', by rw [linkField_some]⟩
    rintro d' ⟨⟩
    exact hd
  · exact absurd h (by decide)
  · obtain ⟨b, rest, hb, rfl⟩ := digits_of_head? hcolon
    exact ⟨none, b, fun d' hd' => absurd hd' (Option.not_mem_none d'), hb, rest, rfl⟩
  · exact absurd h (by decide)

/-! ## The exact condition -/

/-- The narrowed numbers pass the caller's check. -/
def PassesNarrowed (a : Option (List UInt8)) (b : List UInt8) : Prop :=
  linkNumber a % 256 ≤ 127 ∧ number b % 65536 ≠ 0

/-- The written numbers are those of a header. -/
def InRange (a : Option (List UInt8)) (b : List UInt8) : Prop :=
  a ≠ some [] ∧ linkNumber a ≤ 127 ∧ number b ≤ 65535

theorem toInt_narrowed (n : ℕ) : ((n : BitVec 32).setWidth 8).toInt =
    if n % 256 ≤ 127 then ((n % 256 : ℕ) : ℤ) else (n % 256 : ℕ) - 256 := by
  rw [BitVec.toInt_eq_toNat_cond, setWidth_natCast (by decide)]
  split_ifs <;> omega

/-- The caller takes what was read exactly when the narrowed numbers pass. -/
theorem accepted_iff {line : List UInt8} {a : Option (List UInt8)} {b : List UInt8}
    (h : HeaderForm line a b) {link : ℤ} {len : ℕ} :
    (parseIpdHeader line = (link, len) ∧ 0 ≤ link ∧ len ≠ 0) ↔
      PassesNarrowed a b ∧ link = (linkNumber a % 256 : ℕ) ∧ len = number b % 65536 := by
  rw [parseIpdHeader_of_form h, toInt_narrowed, Prod.mk.injEq, PassesNarrowed]
  constructor
  · rintro ⟨⟨rfl, rfl⟩, hlink, hlen⟩
    split_ifs at hlink ⊢ with hn
    · exact ⟨⟨hn, hlen⟩, rfl, rfl⟩
    · omega
  · rintro ⟨⟨hn, hlen⟩, rfl, rfl⟩
    rw [if_pos hn]
    exact ⟨⟨rfl, rfl⟩, Int.natCast_nonneg _, hlen⟩

/-- **Where the string is read right**, its written numbers are in range if the narrowed ones
pass. -/
theorem HeaderRight.inRange {line : List UInt8} (h : HeaderRight line)
    {a : Option (List UInt8)} {b : List UInt8} (hform : HeaderForm line a b)
    (hpass : PassesNarrowed a b) : InRange a b := by
  obtain ⟨a', b', hform', ha, -, -, hlink, hlen, hpos, hle⟩ :=
    (h _ _).mp ((accepted_iff hform).mpr ⟨hpass, rfl, rfl⟩)
  obtain ⟨rfl, rfl⟩ := hform.unique hform'
  exact ⟨ha, hlink, by omega⟩

/-- **`parse_ipd_header` reads a string right if and only if** it is not of the form `+IPD,[a,]b:`,
or its narrowed numbers are refused, or the written ones are in range. -/
theorem headerRight_iff (line : List UInt8) : HeaderRight line ↔
    ∀ a b, HeaderForm line a b → PassesNarrowed a b → InRange a b := by
  refine ⟨fun h a b hform hpass => h.inRange hform hpass, fun h link len => ⟨fun hacc => ?_, ?_⟩⟩
  · obtain ⟨a, b, hform⟩ : ∃ a b, HeaderForm line a b := by
      refine exists_form_of_parseIpdHeader ?_
      rw [hacc.1]
      exact hacc.2.1
    obtain ⟨hpass, hlink, hlen⟩ := (accepted_iff hform).mp hacc
    obtain ⟨ha, hlink', hlen'⟩ := h a b hform hpass
    have hb : b ≠ [] := by
      rintro rfl
      exact hpass.2 rfl
    refine ⟨a, b, hform, ha, hb, ?_, hlink', ?_, ?_, ?_⟩
    · rw [hlink, Nat.mod_eq_of_lt (by omega)]
    · rw [hlen, Nat.mod_eq_of_lt (by omega)]
    · have := hpass.2
      omega
    · omega
  · rintro ⟨a, b, hform, -, -, rfl, hlink, rfl, hpos, hle⟩
    refine (accepted_iff hform).mpr ⟨⟨?_, ?_⟩, ?_, ?_⟩
    · omega
    · omega
    · rw [Nat.mod_eq_of_lt (by omega)]
    · rw [Nat.mod_eq_of_lt (by omega)]

/-- Link 256 is taken for link 0. -/
theorem headerRight_wrapped : ¬ HeaderRight (ascii "+IPD,256,5:") := by
  intro h
  have hform : HeaderForm (ascii "+IPD,256,5:") (some (ascii "256")) (ascii "5") := by
    refine ⟨?_, by decide +kernel, [], by decide +kernel⟩
    rintro d ⟨⟩
    decide +kernel
  have hpass : PassesNarrowed (some (ascii "256")) (ascii "5") :=
    ⟨by decide +kernel, by decide +kernel⟩
  exact absurd (h.inRange hform hpass).2.1 (by decide +kernel)

end GrainWarehouse

import GrainWarehouse.Machinery.Numeral

/-!
# Machinery/Json — flat objects of unsigned numbers, read back

A reader for the JSON texts that small devices print with one `snprintf`: an object whose members
are numbers, without white space.  `jsonObject_intercalate` says that it finds the members in the
text, `jsonNumber_decimal` and `jsonNumber_tenths` what it makes of a number in them.
-/

namespace GrainWarehouse

/-- One digit or more. -/
def isNumeral (text : List UInt8) : Bool := !text.isEmpty && text.all isDigit

/-- A number: a numeral, and perhaps a point and another. -/
def jsonNumber (text : List UInt8) : Option ℚ :=
  match text.splitOn 46 with
  | [whole] => if isNumeral whole then some (numeralValue 0 whole) else none
  | [whole, frac] =>
    if isNumeral whole && isNumeral frac then
      some (numeralValue 0 whole + numeralValue 0 frac / 10 ^ frac.length)
    else none
  | _ => none

/-- A member: a key in quotes, a colon, a number. -/
def jsonMember (text : List UInt8) : Option (List UInt8 × ℚ) :=
  match text.splitOn 34 with
  | [[], key, 58 :: number] => (jsonNumber number).map fun q => (key, q)
  | _ => none

/-- An object: members between commas, all of them in braces. -/
def jsonObject (text : List UInt8) : Option (List (List UInt8 × ℚ)) :=
  match text with
  | 123 :: text =>
    if text.getLast? = some 125 then (text.dropLast.splitOn 44).mapM jsonMember else none
  | _ => none

/-- What a member looks like. -/
def memberText (key number : List UInt8) : List UInt8 := 34 :: (key ++ 34 :: 58 :: number)

/-! ## Numbers -/

theorem isNumeral_decimal (n : ℕ) : isNumeral (decimal n) = true := by
  rw [isNumeral, Bool.and_eq_true, Bool.not_eq_true', List.isEmpty_eq_false_iff, List.all_eq_true]
  exact ⟨decimal_ne_nil n, isDigit_of_mem_decimal⟩

theorem jsonNumber_decimal (n : ℕ) : jsonNumber (decimal n) = some (n : ℚ) := by
  rw [jsonNumber, List.splitOn_eq_singleton (notMem_decimal (by decide) n)]
  simp only [isNumeral_decimal, if_true, numeralValue_decimal]

/-- A number of tenths. -/
def tenthsText (n : ℕ) : List UInt8 := decimal (n / 10) ++ 46 :: decimal (n % 10)

/-- **Tenths behind a point read back as a tenth of their number.** -/
theorem jsonNumber_tenths (n : ℕ) : jsonNumber (tenthsText n) = some ((n : ℚ) / 10) := by
  have hlen : (decimal (n % 10)).length = 1 := by
    rw [decimal_of_lt (Nat.mod_lt n (by decide)), List.length_singleton]
  have hn : (n : ℚ) = (n / 10 : ℕ) * 10 + (n % 10 : ℕ) := by
    exact_mod_cast (Nat.div_add_mod' n 10).symm
  rw [jsonNumber, tenthsText,
    List.splitOn_append_cons_self_of_not_mem (notMem_decimal (by decide) (n / 10)),
    List.splitOn_eq_singleton (notMem_decimal (by decide) (n % 10))]
  simp only [isNumeral_decimal, Bool.and_self, if_true, numeralValue_decimal, hlen, pow_one]
  rw [hn, add_div, mul_div_cancel_right₀ _ (by norm_num)]

theorem notMem_tenthsText {c : UInt8} (hc : isDigit c = false) (hpoint : c ≠ 46) (n : ℕ) :
    c ∉ tenthsText n := fun h => by
  rcases List.mem_append.mp h with h | h
  · exact notMem_decimal hc _ h
  · exact (List.mem_cons.mp h).elim hpoint (notMem_decimal hc _)

/-! ## Members and objects -/

theorem notMem_memberText {c : UInt8} {key number : List UInt8} (hquote : c ≠ 34) (hcolon : c ≠ 58)
    (hkey : c ∉ key) (hnum : c ∉ number) : c ∉ memberText key number := by
  simp only [memberText, List.mem_cons, List.mem_append, not_or]
  exact ⟨hquote, hkey, hquote, hcolon, hnum⟩

theorem jsonMember_memberText {key number : List UInt8} (hkey : 34 ∉ key) (hnum : 34 ∉ number) :
    jsonMember (memberText key number) = (jsonNumber number).map fun q => (key, q) := by
  have hnum' : 34 ∉ 58 :: number := fun h =>
    (List.mem_cons.mp h).elim (fun h => absurd h (by decide)) hnum
  have hsplit : (memberText key number).splitOn 34 = [[], key, 58 :: number] := by
    have hfirst : memberText key number = [] ++ 34 :: (key ++ 34 :: 58 :: number) := rfl
    rw [hfirst, List.splitOn_append_cons_self_of_not_mem List.not_mem_nil,
      List.splitOn_append_cons_self_of_not_mem hkey, List.splitOn_eq_singleton hnum']
  rw [jsonMember, hsplit]
  rfl

/-- **The members of an object are found between its commas.** -/
theorem jsonObject_intercalate {members : List (List UInt8)} (hcomma : ∀ m ∈ members, 44 ∉ m)
    (hne : members ≠ []) :
    jsonObject (123 :: ([44].intercalate members ++ [125])) = members.mapM jsonMember := by
  simp only [jsonObject, List.getLast?_append, List.getLast?_singleton, Option.some_or, if_true,
    List.dropLast_concat, List.splitOn_intercalate 44 hcomma hne]

end GrainWarehouse

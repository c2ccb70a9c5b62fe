import Mathlib
import GrainWarehouse.Machinery.Search
import GrainWarehouse.Actuator.Downlink

/-!
# Mqtt/Message — a command, from the text of a message

`mqtt_on_message` of `task_mqtt.c`: 127 bytes of the payload are kept as a C string, the target and
the value are looked up in it by `strstr`, and the command goes to the actuators.

`IntAt` says what integer a text begins with.  `json_find_int` sums its digits in an `int32_t`, so
it returns **the written integer modulo 2³²** (`jsonFindInt_of_written`).
-/

namespace GrainWarehouse

/-- `*p == ' ' || *p == '\t'`. -/
def isBlank (c : UInt8) : Bool := c = 32 || c = 9

/-- A C string: the bytes up to the first NUL. -/
def cString (l : List UInt8) : List UInt8 := l.takeWhile (· ≠ 0)

/-! ## The finders -/

/-- `"key":`. -/
def intNeedle (key : List UInt8) : List UInt8 := ascii "\"" ++ key ++ ascii "\":"

/-- `"key":"`. -/
def strNeedle (key : List UInt8) : List UInt8 := ascii "\"" ++ key ++ ascii "\":\""

/-- The integer at `p`: blanks, a minus sign, digits summed in an `int32_t`; `-1` without digits. -/
def readInt (p : List UInt8) : ℤ :=
  let p := p.dropWhile isBlank
  let neg := p.head? = some 45
  let p := if neg then p.tail else p
  if isDigit (p.headD 0) = false then -1
  else
    let val : BitVec 32 := numeralValue 0 (p.takeWhile isDigit)
    (if neg then -val else val).toInt

/-- `json_find_int`. -/
def jsonFindInt (json key : List UInt8) : ℤ :=
  -- `needle[32]`
  if 32 ≤ (intNeedle key).length then -1
  else
    match findSub (intNeedle key) json with
    | none => -1
    | some at' => readInt (json.drop (at' + (intNeedle key).length))

/-- `json_find_str`: the text in `out`, `none` for `-1`. -/
def jsonFindStr (json key : List UInt8) (outSize : ℕ) : Option (List UInt8) :=
  if 32 ≤ (strNeedle key).length then none
  else
    (findSub (strNeedle key) json).map fun at' =>
      ((json.drop (at' + (strNeedle key).length)).takeWhile (· ≠ 34)).take (outSize - 1)

/-- `mqtt_on_message`, from the C string `json` on. -/
def jsonCommand (json : List UInt8) : Option ApplayMsg :=
  match jsonFindStr json (ascii "target") 16 with
  | none => none
  | some target =>
    if target.length = 0 then none
    else networkCommand target (jsonFindInt json (ascii "value"))

/-- `json[128]`. -/
def kept (payload : List UInt8) : List UInt8 := cString (payload.take 127)

/-- **`mqtt_on_message`**: the message it puts in `ActuatorCmdQueue`. -/
def mqttOnMessage (payload : List UInt8) : Option ApplayMsg :=
  if payload.length = 0 then none else jsonCommand (kept payload)

/-! ## Integers in a text -/

/-- `-`, or nothing. -/
def sign (neg : Bool) : List UInt8 := if neg then [45] else []

/-- The integer that a sign and digits write. -/
def signed (neg : Bool) (d : List UInt8) : ℤ := if neg then -number d else number d

/-- **The text begins with an integer**: blanks, perhaps a minus sign, and then all the digits there
are; the first digit stands at `lead`. -/
structure IntAt (p : List UInt8) (lead : ℕ) (neg : Bool) (d : List UInt8) : Prop where
  digits : ∀ c ∈ d, isDigit c = true
  ne_nil : d ≠ []
  text : ∃ blanks rest, p = blanks ++ (sign neg ++ (d ++ rest)) ∧
    (∀ c ∈ blanks, isBlank c = true) ∧ (∀ c ∈ rest.head?, isDigit c = false) ∧
    lead = blanks.length + (sign neg).length

/-- A run of digits that goes on with no digit is what is taken. -/
theorem takeWhile_run {d rest : List UInt8} (hd : ∀ c ∈ d, isDigit c = true)
    (hrest : ∀ c ∈ rest.head?, isDigit c = false) : (d ++ rest).takeWhile isDigit = d := by
  rw [List.takeWhile_append_of_pos hd]
  cases rest with
  | nil => rw [List.takeWhile_nil, List.append_nil]
  | cons c rest =>
    rw [List.takeWhile_cons_of_neg (by simp [hrest c rfl]), List.append_nil]

/-- The sign and the digits are all that is left once the blanks are passed. -/
theorem dropWhile_blank {blanks d : List UInt8} (rest : List UInt8) {neg : Bool}
    (hb : ∀ c ∈ blanks, isBlank c = true) (hd : ∀ c ∈ d, isDigit c = true) (hne : d ≠ []) :
    (blanks ++ (sign neg ++ (d ++ rest))).dropWhile isBlank = sign neg ++ (d ++ rest) := by
  rw [List.dropWhile_append_of_pos hb]
  obtain ⟨c, d, rfl⟩ := List.exists_cons_of_ne_nil hne
  have hc : isDigit c = true := hd c List.mem_cons_self
  cases neg with
  | true => rfl
  | false =>
    refine List.dropWhile_cons_of_neg ?_
    intro hblank
    simp [isBlank] at hblank
    rcases hblank with rfl | rfl <;> simp [isDigit] at hc

/-- Nothing but a sign tells a minus from a digit. -/
theorem head?_eq_minus_iff {d : List UInt8} (rest : List UInt8) {neg : Bool}
    (hd : ∀ c ∈ d, isDigit c = true) (hne : d ≠ []) :
    (sign neg ++ (d ++ rest)).head? = some 45 ↔ neg = true := by
  obtain ⟨c, d, rfl⟩ := List.exists_cons_of_ne_nil hne
  have hc : isDigit c = true := hd c List.mem_cons_self
  cases neg with
  | true => exact iff_of_true rfl rfl
  | false =>
    refine iff_of_false (fun h => ?_) Bool.false_ne_true
    obtain rfl : c = 45 := Option.some.inj h
    exact absurd hc (by decide)

/-- An `int32_t` sum of digits, with its sign. -/
theorem toInt_signed (neg : Bool) (d : List UInt8) :
    (if neg then -(number d : BitVec 32) else (number d : BitVec 32)).toInt =
      (signed neg d).bmod (2 ^ 32) := by
  have hcast : (number d : BitVec 32) = BitVec.ofInt 32 (number d : ℤ) := by
    rw [BitVec.natCast_eq_ofNat, BitVec.ofInt_natCast]
  cases neg with
  | true => rw [if_pos rfl, hcast, ← BitVec.ofInt_neg, BitVec.toInt_ofInt, signed, if_pos rfl]
  | false =>
    rw [if_neg Bool.false_ne_true, hcast, BitVec.toInt_ofInt, signed, if_neg Bool.false_ne_true]

namespace IntAt

variable {p : List UInt8} {lead lead' : ℕ} {neg neg' : Bool} {d d' : List UInt8}

/-- **What is read is the written integer, modulo 2³².** -/
theorem readInt_eq (h : IntAt p lead neg d) : readInt p = (signed neg d).bmod (2 ^ 32) := by
  obtain ⟨hd, hne, blanks, rest, rfl, hb, hrest, -⟩ := h
  have htail : (if neg = true then (sign neg ++ (d ++ rest)).tail else sign neg ++ (d ++ rest)) =
      d ++ rest := by
    cases neg with
    | true => rfl
    | false => rfl
  have hhead : isDigit ((d ++ rest).headD 0) = true := by
    obtain ⟨c, d, rfl⟩ := List.exists_cons_of_ne_nil hne
    exact hd c List.mem_cons_self
  have hval : numeralValue (0 : BitVec 32) d = (number d : BitVec 32) := numeralValue_natCast d 0
  simp only [readInt, dropWhile_blank _ hb hd hne, head?_eq_minus_iff _ hd hne, htail, hhead,
    takeWhile_run hd hrest, hval, Bool.true_eq_false, if_false]
  exact toInt_signed neg d

/-- **Only where an integer is written something other than `-1` is read.** -/
theorem of_readInt_ne (h : readInt p ≠ -1) : ∃ lead neg d, IntAt p lead neg d := by
  set q := p.dropWhile isBlank with hq
  set r := if q.head? = some 45 then q.tail else q with hr
  have hdigit : isDigit (r.headD 0) = true := by
    refine Bool.eq_true_of_not_eq_false fun hno => h ?_
    simp only [readInt, ← hq, ← hr, hno, if_true]
  have hsign : q = sign (decide (q.head? = some 45)) ++ r := by
    by_cases hneg : q.head? = some 45
    · rw [hr, if_pos hneg, hneg]
      obtain ⟨l, hl⟩ := List.head?_eq_some_iff.mp hneg
      rw [hl]
      rfl
    · rw [hr, if_neg hneg, decide_eq_false hneg]
      rfl
  refine ⟨_, decide (q.head? = some 45), r.takeWhile isDigit, fun c hc => List.mem_takeWhile_imp hc,
    ?_, p.takeWhile isBlank, r.dropWhile isDigit, ?_, fun c hc => List.mem_takeWhile_imp hc, ?_,
    rfl⟩
  · cases hcons : r with
    | nil => simp [hcons, isDigit] at hdigit
    | cons c r =>
      rw [hcons, List.headD_cons] at hdigit
      rw [List.takeWhile_cons_of_pos hdigit]
      exact List.cons_ne_nil _ _
  · rw [List.takeWhile_append_dropWhile, ← hsign, hq, List.takeWhile_append_dropWhile]
  · intro c hc
    have hstop := List.head?_dropWhile_not isDigit r
    rw [Option.mem_def.mp hc] at hstop
    exact hstop

/-- **A text begins with one integer.** -/
theorem unique (h : IntAt p lead neg d) (h' : IntAt p lead' neg' d') :
    lead = lead' ∧ neg = neg' ∧ d = d' := by
  obtain ⟨hd, hne, blanks, rest, heq, hb, hrest, rfl⟩ := h
  obtain ⟨hd', hne', blanks', rest', heq', hb', hrest', rfl⟩ := h'
  have hpass : sign neg ++ (d ++ rest) = sign neg' ++ (d' ++ rest') := by
    rw [← dropWhile_blank rest hb hd hne, ← dropWhile_blank rest' hb' hd' hne',
      ← heq, ← heq']
  have hneg : neg = neg' := by
    rw [Bool.eq_iff_iff, ← head?_eq_minus_iff rest hd hne, hpass,
      head?_eq_minus_iff rest' hd' hne']
  subst hneg
  have hlen := congrArg List.length (heq.symm.trans heq')
  rw [← hpass] at hlen
  simp only [List.length_append] at hlen
  refine ⟨by omega, rfl, ?_⟩
  rw [← takeWhile_run hd hrest, List.append_cancel_left hpass, takeWhile_run hd' hrest']

/-- **An integer may go on where the text does.** -/
theorem append (h : IntAt p lead neg d) (u : List UInt8) :
    IntAt (p ++ u) lead neg
      (d ++ if lead + d.length = p.length then u.takeWhile isDigit else []) := by
  obtain ⟨hd, hne, blanks, rest, rfl, hb, hrest, rfl⟩ := h
  simp only [List.length_append]
  cases rest with
  | nil =>
    rw [if_pos (by rw [List.length_nil]; omega)]
    refine ⟨?_, List.append_ne_nil_of_left_ne_nil hne _, blanks, u.dropWhile isDigit, ?_, hb, ?_,
      rfl⟩
    · intro c hc
      exact (List.mem_append.mp hc).elim (hd c) List.mem_takeWhile_imp
    · simp only [List.append_nil, List.append_assoc, List.takeWhile_append_dropWhile]
    · intro c hc
      have hstop := List.head?_dropWhile_not isDigit u
      rw [Option.mem_def.mp hc] at hstop
      exact hstop
  | cons c rest =>
    rw [if_neg (by rw [List.length_cons]; omega), List.append_nil]
    exact ⟨hd, hne, blanks, (c :: rest) ++ u, by simp only [List.append_assoc], hb, hrest, rfl⟩

/-- **A cut behind the first digit leaves the digits before it.** -/
theorem take (h : IntAt p lead neg d) {n : ℕ} (hn : lead < n) :
    IntAt (p.take n) lead neg (d.take (n - lead)) := by
  obtain ⟨hd, hne, blanks, rest, rfl, hb, hrest, rfl⟩ := h
  refine ⟨fun c hc => hd c (List.mem_of_mem_take hc), ?_, blanks,
    rest.take (n - (blanks.length + (sign neg).length) - d.length), ?_, hb, ?_, rfl⟩
  · rw [ne_eq, List.take_eq_nil_iff, not_or]
    exact ⟨by omega, hne⟩
  · rw [List.take_append, List.take_of_length_le (by omega), List.take_append,
      List.take_of_length_le (by omega), List.take_append, Nat.sub_sub]
  · intro c hc
    refine hrest c ?_
    cases rest with
    | nil => simp at hc
    | cons c' rest =>
      rw [List.head?_take] at hc
      split_ifs at hc
      · cases hc
      · exact hc

end IntAt

/-! ## Integers behind a key -/

/-- **The text holds the key with an integer**: its first `"key":` is followed by blanks, perhaps a
minus sign, and the digits `d`, the first of them at `start`. -/
def Written (json key : List UInt8) (start : ℕ) (neg : Bool) (d : List UInt8) : Prop :=
  ∃ at' lead, findSub (intNeedle key) json = some at' ∧
    IntAt (json.drop (at' + (intNeedle key).length)) lead neg d ∧
    start = at' + (intNeedle key).length + lead

theorem length_intNeedle (key : List UInt8) : (intNeedle key).length = key.length + 3 := by
  rw [intNeedle, List.length_append, List.length_append]
  exact Nat.add_comm 1 key.length ▸ rfl

/-- **`json_find_int` returns the written integer modulo 2³²**, if the key fits its buffer. -/
theorem jsonFindInt_of_written {json key : List UInt8} {start : ℕ} {neg : Bool} {d : List UInt8}
    (h : Written json key start neg d) (hkey : key.length ≤ 28) :
    jsonFindInt json key = (signed neg d).bmod (2 ^ 32) := by
  obtain ⟨at', lead, hat, hint, -⟩ := h
  have hlen := length_intNeedle key
  simp only [jsonFindInt, hat]
  rw [if_neg (by omega), hint.readInt_eq]

/-- …and `-1` for a key that does not, or that no integer follows. -/
theorem written_of_jsonFindInt {json key : List UInt8} (h : jsonFindInt json key ≠ -1) :
    key.length ≤ 28 ∧ ∃ start neg d, Written json key start neg d := by
  have hlen := length_intNeedle key
  rw [jsonFindInt] at h
  split_ifs at h with hfit
  · exact absurd rfl h
  · refine ⟨by omega, ?_⟩
    cases hat : findSub (intNeedle key) json with
    | none =>
      rw [hat] at h
      exact absurd rfl h
    | some at' =>
      rw [hat] at h
      obtain ⟨lead, neg, d, hint⟩ := IntAt.of_readInt_ne h
      exact ⟨_, neg, d, at', lead, hat, hint, rfl⟩

namespace Written

variable {json key : List UInt8} {start start' : ℕ} {neg neg' : Bool} {d d' : List UInt8}

theorem unique (h : Written json key start neg d) (h' : Written json key start' neg' d') :
    start = start' ∧ neg = neg' ∧ d = d' := by
  obtain ⟨at', lead, hat, hint, rfl⟩ := h
  obtain ⟨at'', lead', hat', hint', rfl⟩ := h'
  obtain rfl : at' = at'' := Option.some.inj (hat.symm.trans hat')
  obtain ⟨rfl, rfl, rfl⟩ := hint.unique hint'
  exact ⟨rfl, rfl, rfl⟩

/-- **More text may lengthen the digits, and does nothing else.** -/
theorem append (h : Written json key start neg d) (u : List UInt8) :
    Written (json ++ u) key start neg
      (d ++ if start + d.length = json.length then u.takeWhile isDigit else []) := by
  obtain ⟨at', lead, hat, hint, rfl⟩ := h
  have hle := findSub_add_le hat
  have happ := hint.append u
  rw [← List.drop_append_of_le_length hle, List.length_drop] at happ
  have hsame : lead + d.length = json.length - (at' + (intNeedle key).length) ↔
      at' + (intNeedle key).length + lead + d.length = json.length := by omega
  rw [if_congr hsame rfl rfl] at happ
  exact ⟨at', lead, findSub_append_right hat u, happ, rfl⟩

/-- **A cut behind the first digit leaves the digits before it.** -/
theorem take (h : Written json key start neg d) {n : ℕ} (hn : start < n) :
    Written (json.take n) key start neg (d.take (n - start)) := by
  obtain ⟨at', lead, hat, hint, rfl⟩ := h
  have hcut := hint.take (n := n - (at' + (intNeedle key).length)) (by omega)
  rw [← List.drop_take, Nat.sub_sub] at hcut
  exact ⟨at', lead, findSub_take hat (by omega), hcut, rfl⟩

end Written

end GrainWarehouse

import GrainWarehouse.Mqtt.Message

/-!
# Mqtt/Value — which integers of a message are taken for what they are

`json_find_int` wraps, and its caller looks only at what came out: a number beyond the `int32_t`
that comes round to a gear or a switch position is obeyed.  And of a payload that is longer than 127
bytes it sees a part, so the digits that count are those before the cut.

`intRight_iff` and `commandRight_iff` say for which texts, and for which payloads, the integer that
is obeyed is the one that was written.
-/

namespace GrainWarehouse

/-- The integer is one of `int32_t`. -/
def FitsInt32 (z : ℤ) : Prop := -2 ^ 31 ≤ z ∧ z < 2 ^ 31

/-- An integer summed in an `int32_t`. -/
def wrapped (z : ℤ) : ℤ := z.bmod (2 ^ 32)

/-- **`json_find_int` finds the integer that is written**, or, when there is no room for it, returns
what its caller rejects. -/
def IntRight (json key : List UInt8) : Prop :=
  ∀ start neg d, Written json key start neg d →
    (FitsInt32 (signed neg d) → jsonFindInt json key = signed neg d) ∧
      (¬ FitsInt32 (signed neg d) → jsonFindInt json key < 0)

/-- **A command is obeyed for the integer that is written** as the value in the payload: for a fan
one of its gears, for the others none below 0. -/
def CommandRight (payload : List UInt8) : Prop :=
  ∀ start neg d, Written (cString payload) (ascii "value") start neg d →
    ∀ m, mqttOnMessage payload = some m →
      (m.target = .fan → 0 ≤ signed neg d ∧ signed neg d ≤ 3) ∧
        (m.target ≠ .fan → 0 ≤ signed neg d)

theorem wrapped_of_fits {z : ℤ} (h : FitsInt32 z) : wrapped z = z := by
  obtain ⟨hlo, hhi⟩ := h
  exact Int.bmod_eq_of_le_mul_two (by push_cast; omega) (by push_cast; omega)

/-- **`json_find_int` is right about a text exactly when**, for a key that fits its buffer, the
integer behind it fits an `int32_t` or wraps to a negative one. -/
theorem intRight_iff (json key : List UInt8) : IntRight json key ↔
    ∀ start neg d, Written json key start neg d →
      (key.length ≤ 28 → FitsInt32 (signed neg d) ∨ wrapped (signed neg d) < 0) ∧
        (28 < key.length → FitsInt32 (signed neg d) → signed neg d = -1) := by
  refine forall₄_congr fun start neg d hw => ?_
  rcases Nat.lt_or_ge 28 key.length with hkey | hkey
  · -- the needle does not fit, so `-1` is returned whatever stands there
    have hnone : jsonFindInt json key = -1 := by
      by_contra hne
      exact absurd (written_of_jsonFindInt hne).1 (Nat.not_le.mpr hkey)
    rw [hnone]
    constructor
    · exact fun h => ⟨fun hle => absurd hkey (Nat.not_lt.mpr hle), fun _ hfits => (h.1 hfits).symm⟩
    · exact fun h => ⟨fun hfits => (h.2 hkey hfits).symm, fun _ => by decide⟩
  · have hread := jsonFindInt_of_written hw hkey
    change jsonFindInt json key = wrapped (signed neg d) at hread
    rw [hread]
    constructor
    · refine fun h => ⟨fun _ => ?_, fun hlt => absurd hlt (Nat.not_lt.mpr hkey)⟩
      by_cases hfits : FitsInt32 (signed neg d)
      · exact Or.inl hfits
      · exact Or.inr (h.2 hfits)
    · rintro ⟨h, -⟩
      exact ⟨wrapped_of_fits, fun hno => (h hkey).resolve_left hno⟩

/-! ## The message -/

/-- A C string is cut where its bytes are. -/
theorem kept_eq (payload : List UInt8) : kept payload = (cString payload).take 127 :=
  (List.take_takeWhile ..).symm

/-- **What is obeyed**: the value, for the target that is found. -/
theorem jsonCommand_eq (json : List UInt8) : jsonCommand json =
    (jsonFindStr json (ascii "target") 16).bind fun target =>
      networkCommand target (jsonFindInt json (ascii "value")) := by
  rw [jsonCommand]
  cases jsonFindStr json (ascii "target") 16 with
  | none => rfl
  | some target =>
    rw [Option.bind_some]
    dsimp only
    split_ifs with hnil
    · -- an empty name is none of the three
      obtain rfl := List.length_eq_zero_iff.mp hnil
      refine (Option.eq_none_iff_forall_ne_some.mpr fun m hm => ?_).symm
      rcases (networkCommand_eq_some hm).2 with ⟨hfan, -⟩ | ⟨hheat | hhumid, -⟩
      · exact absurd hfan (by decide)
      · exact absurd hheat (by decide)
      · exact absurd hhumid (by decide)
    · rfl

theorem jsonCommand_eq_some_iff {json : List UInt8} {m : ApplayMsg} :
    jsonCommand json = some m ↔ ∃ target, jsonFindStr json (ascii "target") 16 = some target ∧
      networkCommand target (jsonFindInt json (ascii "value")) = some m := by
  rw [jsonCommand_eq, Option.bind_eq_some_iff]

/-- Nothing is written in no text. -/
theorem Written.lt_length {json key : List UInt8} {start : ℕ} {neg : Bool} {d : List UInt8}
    (h : Written json key start neg d) : start < json.length := by
  obtain ⟨at', lead, hat, ⟨-, hne, blanks, rest, htext, -, -, rfl⟩, rfl⟩ := h
  have hle := findSub_add_le hat
  have hpos := List.length_pos_of_ne_nil hne
  have hlen := congrArg List.length htext
  simp only [List.length_drop, List.length_append] at hlen
  omega

theorem mqttOnMessage_eq (payload : List UInt8) :
    mqttOnMessage payload = jsonCommand ((cString payload).take 127) := by
  rw [mqttOnMessage, kept_eq]
  split_ifs with hnil
  · obtain rfl := List.length_eq_zero_iff.mp hnil
    decide
  · rfl

/-- The key `value` fits its buffer. -/
theorem length_value : (ascii "value").length ≤ 28 := by decide

/-- **What a message with a value makes of it**: the value of the digits that were kept, if any
were. -/
theorem jsonFindInt_take {json : List UInt8} {start : ℕ} {neg : Bool} {d : List UInt8}
    (h : Written json (ascii "value") start neg d) {n : ℕ} (hn : start < n) :
    jsonFindInt (json.take n) (ascii "value") = wrapped (signed neg (d.take (n - start))) :=
  jsonFindInt_of_written (h.take hn) length_value

/-- …and without a digit kept there is none. -/
theorem lt_of_jsonFindInt_take {json : List UInt8} {start : ℕ} {neg : Bool} {d : List UInt8}
    (h : Written json (ascii "value") start neg d) {n : ℕ}
    (hread : jsonFindInt (json.take n) (ascii "value") ≠ -1) : start < n := by
  obtain ⟨-, start', neg', d', hw⟩ := written_of_jsonFindInt hread
  have happ := hw.append (json.drop n)
  rw [List.take_append_drop] at happ
  obtain ⟨rfl, -, -⟩ := h.unique happ
  exact hw.lt_length.trans_le (List.length_take_le _ _)

/-- **A payload orders only what is written in it exactly when** the digits that are kept of its
value, wrapped, are not a gear while the number is none, nor a switch position while it is negative.
-/
theorem commandRight_iff (payload : List UInt8) : CommandRight payload ↔
    ∀ start neg d, Written (cString payload) (ascii "value") start neg d → start < 127 →
      ∀ target, jsonFindStr ((cString payload).take 127) (ascii "target") 16 = some target →
        0 ≤ wrapped (signed neg (d.take (127 - start))) →
          (target = ascii "fan" → wrapped (signed neg (d.take (127 - start))) ≤ 3 →
            0 ≤ signed neg d ∧ signed neg d ≤ 3) ∧
          (target = ascii "heat" ∨ target = ascii "humid" → 0 ≤ signed neg d) := by
  refine forall₄_congr fun start neg d hw => ?_
  rw [mqttOnMessage_eq]
  constructor
  · intro h hlt target htarget hpos
    have hread := jsonFindInt_take hw hlt
    rw [← hread] at hpos ⊢
    constructor
    · rintro rfl hle
      exact (h _ (jsonCommand_eq_some_iff.mpr ⟨_, htarget, networkCommand_fan hpos hle⟩)).1 rfl
    · intro hswitch
      obtain ⟨m, hm, hne⟩ := networkCommand_switch hswitch hpos
      exact (h m (jsonCommand_eq_some_iff.mpr ⟨_, htarget, hm⟩)).2 hne
  · intro h m hm
    obtain ⟨target, htarget, hcmd⟩ := jsonCommand_eq_some_iff.mp hm
    obtain ⟨hpos, hcases⟩ := networkCommand_eq_some hcmd
    have hlt := lt_of_jsonFindInt_take (n := 127) hw (by omega)
    rw [jsonFindInt_take hw hlt] at hpos hcases
    obtain ⟨hfan, hswitch⟩ := h hlt target htarget hpos
    rcases hcases with ⟨rfl, htgt, hle⟩ | ⟨ht, htgt⟩
    · exact ⟨fun _ => hfan rfl hle, fun hne => absurd htgt hne⟩
    · exact ⟨fun heq => absurd heq htgt, fun _ => hswitch ht⟩

/-- **The two conditions together**: the finder on a text, and the commands of a payload. -/
theorem written_value_iff (json key payload : List UInt8) :
    (IntRight json key ↔ ∀ start neg d, Written json key start neg d →
      (key.length ≤ 28 → FitsInt32 (signed neg d) ∨ wrapped (signed neg d) < 0) ∧
        (28 < key.length → FitsInt32 (signed neg d) → signed neg d = -1)) ∧
    (CommandRight payload ↔
      ∀ start neg d, Written (cString payload) (ascii "value") start neg d → start < 127 →
        ∀ target, jsonFindStr ((cString payload).take 127) (ascii "target") 16 = some target →
          0 ≤ wrapped (signed neg (d.take (127 - start))) →
            (target = ascii "fan" → wrapped (signed neg (d.take (127 - start))) ≤ 3 →
              0 ≤ signed neg d ∧ signed neg d ≤ 3) ∧
            (target = ascii "heat" ∨ target = ascii "humid" → 0 ≤ signed neg d)) :=
  ⟨intRight_iff json key, commandRight_iff payload⟩

/-- A gear of 2³² + 1. -/
def wrappedGear : List UInt8 := ascii "\x7b\"target\":\"fan\",\"value\":4294967297\x7d"

theorem written_wrappedGear :
    Written wrappedGear (ascii "value") 24 false (ascii "4294967297") := by
  refine ⟨16, 0, by decide +kernel,
    ⟨by decide +kernel, by decide +kernel, [], ascii "\x7d", ?_⟩, ?_⟩
  · decide +kernel
  · decide +kernel

/-- It is read as 1, and the fan is set to its first gear. -/
theorem wrappedGear_obeyed :
    ¬ IntRight wrappedGear (ascii "value") ∧ ¬ CommandRight wrappedGear := by
  have hz : signed false (ascii "4294967297") = 4294967297 := by decide +kernel
  constructor
  · intro h
    have hneg := (h 24 false _ written_wrappedGear).2
    rw [hz] at hneg
    have hread : jsonFindInt wrappedGear (ascii "value") = 1 := by decide +kernel
    rw [hread] at hneg
    exact absurd (hneg fun hfits => absurd hfits.2 (by decide)) (by decide)
  · intro h
    have hstr : cString wrappedGear = wrappedGear := by decide +kernel
    have hcmd : mqttOnMessage wrappedGear = some ⟨.fan, 1, .network⟩ := by decide +kernel
    have hgear := (h 24 false _ (by rw [hstr]; exact written_wrappedGear) _ hcmd).1 rfl
    rw [hz] at hgear
    exact absurd hgear.2 (by decide)

end GrainWarehouse

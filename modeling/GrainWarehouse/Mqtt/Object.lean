import GrainWarehouse.Machinery.JsonText
import GrainWarehouse.Mqtt.Value

/-!
# Mqtt/Object — commands that come as JSON objects

`mqtt_on_message` does not parse: it looks for `"target":"` and `"value":` and reads on behind them.
So a blank in front of the target, a tab before a colon, an escape, or the same text earlier in the
object makes a difference, and two texts of one object may order different things
(`illegible_objects`).

An object is *legible* when the first `"target":"` and the first `"value":` of its text are those of
its own fields.  **What a legible object orders is determined by its target and its value**
(`mqttOnMessage_of_legible`), whatever else it holds and however it is laid out.
-/

namespace GrainWarehouse

/-! ## What an object says -/

/-- A target that means something. -/
def IsName (target : List UInt8) : Prop :=
  target = ascii "fan" ∨ target = ascii "heat" ∨ target = ascii "humid"

/-- **What a target and a value order**: one of the gears of the fan, or a switch on or off. -/
def ordered (target : List UInt8) (value : ℤ) : Option ApplayMsg :=
  if target = ascii "fan" ∧ 0 ≤ value ∧ value ≤ 3 then some ⟨.fan, value, .network⟩
  else if target = ascii "heat" ∧ 0 ≤ value then
    some ⟨.heat, if value = 0 then applayValOff else applayValOn, .network⟩
  else if target = ascii "humid" ∧ 0 ≤ value then
    some ⟨.humid, if value = 0 then applayValOff else applayValOn, .network⟩
  else none

namespace JsonObject

/-- The object has a field `target` with this string. -/
def HasTarget (o : JsonObject) (target : List UInt8) : Prop :=
  ∃ f ∈ o.fields, Spells f.name (ascii "target") ∧
    ∃ l, f.value = 34 :: (l ++ [34]) ∧ Spells l target

/-- The object has a field `value` with this integer. -/
def HasValue (o : JsonObject) (value : ℤ) : Prop :=
  ∃ f ∈ o.fields, Spells f.name (ascii "value") ∧
    ∃ neg d, IntDigits d ∧ f.value = sign neg ++ d ∧ value = signed neg d

/-- The place of the name of a field that these precede. -/
def nameAt (o : JsonObject) (a : List JsonField) (f : JsonField) : ℕ :=
  (o.upTo a ++ f.before).length

/-- **The fields `target` and `value` are found by their plain text**: the first `"target":"` and
the first `"value":` are theirs, with no white space at the colons but blanks and tabs in front of
the value; a target that means something is written without escapes, and the value is an `int32_t`.
-/
structure Legible (o : JsonObject) (target : List UInt8) (value : ℤ) : Prop where
  targetField : ∃ a f b l, o.fields = a ++ f :: b ∧ f.name = ascii "target" ∧ f.behindName = [] ∧
    f.behindColon = [] ∧ f.value = 34 :: (l ++ [34]) ∧ Spells l target ∧
    (IsName target → l = target) ∧
    findSub (strNeedle (ascii "target")) o.text = some (o.nameAt a f)
  valueField : ∃ a f b neg d, o.fields = a ++ f :: b ∧ f.name = ascii "value" ∧ f.behindName = [] ∧
    (∀ c ∈ f.behindColon, isBlank c = true) ∧ IntDigits d ∧ f.value = sign neg ++ d ∧
    value = signed neg d ∧ findSub (intNeedle (ascii "value")) o.text = some (o.nameAt a f)
  fits : FitsInt32 value

/-- A legible object has the target and the value it is read for. -/
theorem Legible.has {o : JsonObject} {target : List UInt8} {value : ℤ}
    (h : o.Legible target value) : o.HasTarget target ∧ o.HasValue value := by
  obtain ⟨a, f, b, l, hf, hname, -, -, hval, hl, -⟩ := h.targetField
  obtain ⟨a', f', b', neg, d, hf', hname', -, -, hd, hval', hv, -⟩ := h.valueField
  have hplain (s : String) (hs : (ascii s).all isJsonPlain = true) : Spells (ascii s) (ascii s) :=
    spells_self (List.all_eq_true.mp hs)
  refine ⟨⟨f, by simp [hf], ?_, l, hval, hl⟩,
    ⟨f', by simp [hf'], ?_, neg, d, hd, hval', hv⟩⟩
  · rw [hname]
    exact hplain "target" (by decide)
  · rw [hname']
    exact hplain "value" (by decide)

end JsonObject

/-! ## Reading a legible object -/

/-- A text without a NUL that fits is kept whole. -/
theorem kept_of_fits {l : List UInt8} (hlen : l.length ≤ 127) (h : NineLe l) : kept l = l := by
  rw [kept, List.take_of_length_le hlen, cString, List.takeWhile_eq_self_iff]
  intro c hc
  have hc9 := h c hc
  rw [decide_eq_true_eq]
  rintro rfl
  exact absurd hc9 (by decide)

/-- **What is read of a string** is the string itself, or holds the backslash of its first escape.
-/
theorem takeWhile_of_spells : ∀ {l t : List UInt8}, Spells l t →
    (l = t ∧ ∀ u : List UInt8, (l ++ 34 :: u).takeWhile (· ≠ 34) = t) ∨
      ∀ u : List UInt8, 92 ∈ (l ++ 34 :: u).takeWhile (· ≠ 34)
  | _, _, Spells.nil => Or.inl ⟨rfl, fun _ => rfl⟩
  | _, _, @Spells.plain c l t hc h => by
      have hquote : c ≠ 34 := by
        rintro rfl
        exact absurd hc (by decide)
      have hstep (u : List UInt8) : (c :: l ++ 34 :: u).takeWhile (· ≠ 34) =
          c :: (l ++ 34 :: u).takeWhile (· ≠ 34) :=
        List.takeWhile_cons_of_pos (decide_eq_true hquote)
      rcases takeWhile_of_spells h with ⟨rfl, hall⟩ | hback
      · exact Or.inl ⟨rfl, fun u => by rw [hstep, hall]⟩
      · exact Or.inr fun u => by
          rw [hstep]
          exact List.mem_cons_of_mem c (hback u)
  | _, _, Spells.escape _ _ => Or.inr fun _ => List.mem_cons_self
  | _, _, Spells.unicode _ _ _ => Or.inr fun _ => List.mem_cons_self

/-- What means nothing orders nothing. -/
theorem ordered_of_not_name {target : List UInt8} (h : ¬ IsName target) (value : ℤ) :
    ordered target value = none := by
  rw [IsName, not_or, not_or] at h
  simp only [ordered, h, false_and, if_false]

/-- The names are short, and hold no backslash. -/
theorem spec_of_isName {target : List UInt8} (h : IsName target) :
    target.length < 15 ∧ 92 ∉ target ∧ target ≠ [] := by
  rcases h with rfl | rfl | rfl
  all_goals decide

/-- **What stands behind the place of a field's needle**: the rest of the field, and of the
object. -/
theorem exists_drop_nameAt {o : JsonObject} {a b : List JsonField} {f : JsonField}
    {needle u : List UInt8} (hf : o.fields = a ++ f :: b)
    (htext : f.text = f.before ++ (needle ++ u)) :
    ∃ rest, (∀ c ∈ rest.head?, c = 44 ∨ c = 125) ∧
      o.text.drop (o.nameAt a f + needle.length) = u ++ rest := by
  obtain ⟨rest, ho, hrest⟩ := JsonObject.text_eq hf
  refine ⟨rest, hrest, ?_⟩
  have hsplit : o.text = (o.upTo a ++ f.before) ++ (needle ++ (u ++ rest)) := by
    rw [ho, htext]
    simp only [List.append_assoc]
  rw [hsplit, JsonObject.nameAt, ← List.drop_drop, List.drop_left, List.drop_left]

/-- What was cut off after fifteen bytes, or holds a backslash, is no name. -/
theorem not_isName_take {w : List UInt8} (hw : 15 ≤ w.length ∨ 92 ∈ w) : ¬ IsName (w.take 15) := by
  intro hn
  obtain ⟨hlen, hback, -⟩ := spec_of_isName hn
  rw [List.length_take] at hlen
  rcases hw with hw | hw
  · omega
  · rw [List.take_of_length_le (by omega)] at hback
    exact hback hw

/-- **The target is found**, or something that means as little. -/
theorem jsonFindStr_of_legible {o : JsonObject} {target : List UInt8} {value : ℤ}
    (h : o.Legible target value) : ∃ w, jsonFindStr o.text (ascii "target") 16 = some w ∧
      ∀ v : ℤ, ordered w v = ordered target v := by
  obtain ⟨a, f, b, l, hf, hname, hgap, hlead, hval, hl, hplain, hfind⟩ := h.targetField
  have htext : f.text = f.before ++ (strNeedle (ascii "target") ++ (l ++ 34 :: f.after)) := by
    rw [JsonField.text, hname, hgap, hlead, hval]
    simp only [strNeedle, List.append_assoc, List.cons_append, List.nil_append]
    rfl
  obtain ⟨rest, -, hdrop⟩ := exists_drop_nameAt hf htext
  rw [List.append_assoc, List.cons_append] at hdrop
  have hshort : ¬ 32 ≤ (strNeedle (ascii "target")).length := by decide
  refine ⟨((l ++ 34 :: (f.after ++ rest)).takeWhile (· ≠ 34)).take 15, ?_, fun v => ?_⟩
  · rw [jsonFindStr, if_neg hshort, hfind, Option.map_some, hdrop]
  rcases takeWhile_of_spells hl with ⟨rfl, hall⟩ | hback
  · rw [hall]
    rcases Nat.lt_or_ge l.length 15 with hlt | hle
    · rw [List.take_of_length_le hlt.le]
    · have hnot : ¬ IsName l := fun hn => absurd (spec_of_isName hn).1 (Nat.not_lt.mpr hle)
      rw [ordered_of_not_name (not_isName_take (Or.inl hle)), ordered_of_not_name hnot]
  · have hnot : ¬ IsName target := by
      intro hn
      have hmem := (List.takeWhile_prefix _).subset (hback [])
      rw [hplain hn, List.mem_append] at hmem
      exact hmem.elim (spec_of_isName hn).2.1 (by decide)
    rw [ordered_of_not_name (not_isName_take (Or.inr (hback _))), ordered_of_not_name hnot]

/-- White space is no digit. -/
theorem isDigit_of_isJsonWs {c : UInt8} (h : isJsonWs c = true) : isDigit c = false := by
  simp only [isJsonWs, Bool.or_eq_true, decide_eq_true_eq] at h
  rcases h with ((rfl | rfl) | rfl) | rfl
  all_goals decide

/-- **The value is found**, and is the integer that is written. -/
theorem jsonFindInt_of_legible {o : JsonObject} {target : List UInt8} {value : ℤ}
    (ho : o.Valid) (h : o.Legible target value) :
    jsonFindInt o.text (ascii "value") = value := by
  obtain ⟨a, f, b, neg, d, hf, hname, hgap, hblank, hd, hval, rfl, hfind⟩ := h.valueField
  have hspaced := ho.spaced f (by rw [hf]; exact List.mem_append_right a List.mem_cons_self)
  have htext : f.text = f.before ++ (intNeedle (ascii "value") ++
      (f.behindColon ++ (sign neg ++ (d ++ f.after)))) := by
    rw [JsonField.text, hname, hgap, hval]
    simp only [intNeedle, List.append_assoc, List.nil_append]
    rfl
  obtain ⟨rest, hrest, hdrop⟩ := exists_drop_nameAt hf htext
  simp only [List.append_assoc] at hdrop
  -- white space, a comma or a brace ends the digits
  have hend : ∀ c ∈ (f.after ++ rest).head?, isDigit c = false := by
    intro c hc
    cases hafter : f.after with
    | nil =>
      rw [hafter, List.nil_append] at hc
      rcases hrest c hc with rfl | rfl
      · decide
      · decide
    | cons x after =>
      rw [hafter] at hc
      obtain rfl := Option.some.inj hc
      exact isDigit_of_isJsonWs (hspaced.after x (by rw [hafter]; exact List.mem_cons_self))
  have hint : IntAt (o.text.drop (o.nameAt a f + (intNeedle (ascii "value")).length))
      (f.behindColon.length + (sign neg).length) neg d :=
    ⟨hd.2.1, hd.1, f.behindColon, f.after ++ rest, hdrop, hblank, hend, rfl⟩
  rw [jsonFindInt_of_written ⟨_, _, hfind, hint, rfl⟩ length_value]
  exact wrapped_of_fits h.fits

theorem networkCommand_eq_ordered (target : List UInt8) (value : ℤ) :
    networkCommand target value = ordered target value := by
  have hnames : ascii "heat" ≠ ascii "fan" ∧ ascii "humid" ≠ ascii "fan" ∧
      ascii "humid" ≠ ascii "heat" := by decide
  rw [networkCommand, ordered]
  by_cases hneg : value < 0
  · simp [hneg, not_le.mpr hneg]
  · have hpos := not_lt.mp hneg
    rw [if_neg hneg]
    by_cases hfan : target = ascii "fan"
    · simp [hfan, remoteMsg, hpos, hnames.1.symm, hnames.2.1.symm]
    · by_cases hheat : target = ascii "heat"
      · simp [hheat, remoteMsg, hpos, hnames.1]
      · simp [hfan, hheat, remoteMsg, hpos]

/-- **A legible object orders what its target and its value order.** -/
theorem mqttOnMessage_of_legible {o : JsonObject} {target : List UInt8} {value : ℤ} (ho : o.Valid)
    (hlen : o.text.length ≤ 127) (h : o.Legible target value) :
    mqttOnMessage o.text = ordered target value := by
  have hpos : o.text.length ≠ 0 := by
    rw [JsonObject.text, List.length_append, List.length_cons]
    omega
  obtain ⟨w, hfound, hsame⟩ := jsonFindStr_of_legible h
  rw [mqttOnMessage, if_neg hpos, kept_of_fits hlen (JsonObject.nine_le ho), jsonCommand, hfound,
    jsonFindInt_of_legible ho h]
  dsimp only
  rw [networkCommand_eq_ordered, hsame]
  split
  · next hempty =>
    -- nothing was found, and it means nothing
    rw [← hsame, List.length_eq_zero_iff.mp hempty]
    exact (ordered_of_not_name (fun hn => (spec_of_isName hn).2.2 rfl) value).symm
  · rfl

/-! ## Objects that are legible, and objects that are not -/

/-- A field without white space. -/
def tightField (name value : List UInt8) : JsonField := ⟨[], name, [], [], value, []⟩

/-- A string in its quotes. -/
def quoted (l : List UInt8) : List UInt8 := 34 :: (l ++ [34])

theorem jsonValue_quoted {l : List UInt8} (h : l.all isJsonPlain = true) : JsonValue (quoted l) :=
  JsonValue.string (spells_self (List.all_eq_true.mp h))

theorem jsonValue_integer {neg : Bool} {d : List UInt8} (h : IntDigits d) :
    JsonValue (sign neg ++ d) :=
  JsonValue.number ⟨neg, d, [], [], h, Or.inl rfl, Or.inl rfl, by
    rw [List.append_nil, List.append_nil]
    rfl⟩

/-- White space by computation, and a name that is plain. -/
theorem spaced_of_all {f : JsonField}
    (hws : (f.before ++ (f.behindName ++ (f.behindColon ++ f.after))).all isJsonWs = true)
    (hname : f.name.all isJsonPlain = true) : f.Spaced := by
  have hall := List.all_eq_true.mp hws
  obtain ⟨hbefore, hrest⟩ := List.forall_mem_append.mp hall
  obtain ⟨hbehindName, hrest⟩ := List.forall_mem_append.mp hrest
  obtain ⟨hbehindColon, hafter⟩ := List.forall_mem_append.mp hrest
  exact ⟨hbefore, ⟨_, spells_self (List.all_eq_true.mp hname)⟩, hbehindName, hbehindColon, hafter⟩

theorem valid_of_fields {fs : List JsonField} (h : ∀ f ∈ fs, f.Spaced ∧ JsonValue f.value) :
    (⟨[], fs, []⟩ : JsonObject).Valid :=
  ⟨fun _ hc => absurd hc List.not_mem_nil, fun f hf => (h f hf).1, fun f hf => (h f hf).2,
    fun _ hc => absurd hc List.not_mem_nil⟩

/-- An integer without a sign. -/
theorem jsonValue_digits {d : List UInt8} (h : IntDigits d) : JsonValue d :=
  show JsonValue (sign false ++ d) from jsonValue_integer h

theorem intDigits_of_all {d : List UInt8} (hne : d ≠ []) (hd : d.all isDigit = true)
    (hzero : d.head? ≠ some 48) : IntDigits d :=
  ⟨hne, List.all_eq_true.mp hd, fun h => absurd h hzero⟩

/-- Two fields. -/
theorem valid_pair {f g : JsonField} (hf : f.Spaced ∧ JsonValue f.value)
    (hg : g.Spaced ∧ JsonValue g.value) : (⟨[], [f, g], []⟩ : JsonObject).Valid := by
  refine valid_of_fields ?_
  simp only [List.forall_mem_cons]
  exact ⟨hf, hg, fun _ h => absurd h List.not_mem_nil⟩

/-- The fields `"target":"fan"` and `"value":2`. -/
def fanField : JsonField := tightField (ascii "target") (quoted (ascii "fan"))

def twoField : JsonField := tightField (ascii "value") (ascii "2")

theorem spaced_fanField : fanField.Spaced ∧ JsonValue fanField.value :=
  ⟨spaced_of_all (by decide) (by decide), jsonValue_quoted (by decide)⟩

theorem intDigits_two : IntDigits (ascii "2") :=
  intDigits_of_all (by decide) (by decide) (by decide)

theorem spaced_twoField : twoField.Spaced ∧ JsonValue twoField.value :=
  ⟨spaced_of_all (by decide) (by decide), jsonValue_digits intDigits_two⟩

/-- …with white space where it does no harm. -/
def wideFanField : JsonField := { fanField with before := [32], after := [10] }

def wideTwoField : JsonField :=
  { twoField with before := [32], behindColon := [32, 9], after := [13] }

/-- The value first, and white space. -/
def laidOut : JsonObject := ⟨[], [wideTwoField, wideFanField], []⟩

theorem valid_laidOut : laidOut.Valid :=
  valid_pair ⟨spaced_of_all (by decide) (by decide), spaced_twoField.2⟩
    ⟨spaced_of_all (by decide) (by decide), spaced_fanField.2⟩

theorem legible_laidOut : laidOut.Legible (ascii "fan") 2 where
  targetField := ⟨[wideTwoField], wideFanField, [], ascii "fan", rfl, rfl, rfl, rfl, rfl,
    spells_self (List.all_eq_true.mp (by decide)), fun _ => rfl, by decide +kernel⟩
  valueField := ⟨[], wideTwoField, [wideFanField], false, ascii "2", rfl, rfl, rfl,
    List.all_eq_true.mp (by decide), intDigits_two, rfl, by decide +kernel, by decide +kernel⟩
  fits := ⟨by norm_num, by norm_num⟩

theorem mqttOnMessage_of_legible_laidOut :
    mqttOnMessage laidOut.text = ordered (ascii "fan") 2 :=
  mqttOnMessage_of_legible valid_laidOut (by decide +kernel) legible_laidOut

/-- **An object that is misread**: its target and its value order one thing, its text another. -/
def JsonObject.Misread (o : JsonObject) (target : List UInt8) (value : ℤ) : Prop :=
  (o.Valid ∧ o.text.length ≤ 127 ∧ o.HasTarget target ∧ o.HasValue value) ∧
    mqttOnMessage o.text ≠ ordered target value

/-- A blank in front of the target. -/
def blankInFront : JsonObject := ⟨[], [{ fanField with behindColon := [32] }, twoField], []⟩

/-- A blank behind the name of the value. -/
def blankBehind : JsonObject := ⟨[], [fanField, { twoField with behindName := [32] }], []⟩

/-- A line feed in front of the value. -/
def nextLine : JsonObject := ⟨[], [fanField, { twoField with behindColon := [10] }], []⟩

/-- A field of a nested object first. -/
def nested : JsonObject :=
  ⟨[], [tightField (ascii "a") (123 :: ((tightField (ascii "value") (ascii "3")).text ++ [125])),
    fanField, twoField], []⟩

/-- `\u0066an`. -/
def escaped : JsonObject :=
  ⟨[], [tightField (ascii "target") (quoted (ascii "\\u0066an")), twoField], []⟩

theorem spells_escaped : Spells (ascii "\\u0066an") (ascii "fan") := by
  have hraw : ascii "\\u0066an" = 92 :: 117 :: (ascii "0066" ++ ascii "an") := by decide
  have hunit : ascii "fan" = utf8Unit (hexNumber (ascii "0066")) ++ ascii "an" := by decide
  rw [hraw, hunit]
  exact Spells.unicode (by decide) (List.all_eq_true.mp (by decide))
    (spells_self (List.all_eq_true.mp (by decide)))

/-- An integer beyond `int32_t`. -/
def huge : JsonObject :=
  ⟨[], [fanField, tightField (ascii "value") (ascii "4294967298")], []⟩

theorem hasTarget_fan {o : JsonObject}
    (h : ∃ f ∈ o.fields, f.name = ascii "target" ∧ f.value = quoted (ascii "fan")) :
    o.HasTarget (ascii "fan") := by
  obtain ⟨f, hf, hname, hval⟩ := h
  refine ⟨f, hf, ?_, ascii "fan", hval, spells_self (List.all_eq_true.mp (by decide))⟩
  rw [hname]
  exact spells_self (List.all_eq_true.mp (by decide))

theorem hasValue_of_digits {o : JsonObject} {d : List UInt8} (hd : IntDigits d)
    (h : ∃ f ∈ o.fields, f.name = ascii "value" ∧ f.value = d) : o.HasValue (number d) := by
  obtain ⟨f, hf, hname, hval⟩ := h
  refine ⟨f, hf, ?_, false, d, hd, hval, rfl⟩
  rw [hname]
  exact spells_self (List.all_eq_true.mp (by decide))

theorem hasValue_two {o : JsonObject}
    (h : ∃ f ∈ o.fields, f.name = ascii "value" ∧ f.value = ascii "2") : o.HasValue 2 :=
  hasValue_of_digits intDigits_two h

theorem valid_nested : nested.Valid := by
  have hthree : IntDigits (ascii "3") := intDigits_of_all (by decide) (by decide) (by decide)
  have hinner : JsonValue (123 :: ([44].intercalate
      ([tightField (ascii "value") (ascii "3")].map JsonField.text) ++ [125])) :=
    JsonValue.object (List.cons_ne_nil _ _)
      (List.forall_mem_singleton.mpr (spaced_of_all (by decide) (by decide)))
      (List.forall_mem_singleton.mpr (jsonValue_digits hthree))
  rw [List.map_singleton, List.intercalate_singleton] at hinner
  refine valid_of_fields ?_
  simp only [List.forall_mem_cons]
  exact ⟨⟨spaced_of_all (by decide) (by decide), hinner⟩, spaced_fanField, spaced_twoField,
    fun _ h => absurd h List.not_mem_nil⟩

/-- **Objects that are misread**, each for a reason of its own. -/
theorem illegible_objects :
    blankInFront.Misread (ascii "fan") 2 ∧ blankBehind.Misread (ascii "fan") 2 ∧
      nextLine.Misread (ascii "fan") 2 ∧ nested.Misread (ascii "fan") 2 ∧
      escaped.Misread (ascii "fan") 2 ∧ huge.Misread (ascii "fan") 4294967298 := by
  have hdigits : IntDigits (ascii "4294967298") :=
    intDigits_of_all (by decide) (by decide) (by decide)
  have hnumber : (number (ascii "4294967298") : ℤ) = 4294967298 := by decide +kernel
  have hspaced {f : JsonField} (hval : JsonValue f.value)
      (hws : (f.before ++ (f.behindName ++ (f.behindColon ++ f.after))).all isJsonWs = true)
      (hname : f.name.all isJsonPlain = true) : f.Spaced ∧ JsonValue f.value :=
    ⟨spaced_of_all hws hname, hval⟩
  have htwo {o : JsonObject} (ho : o.Valid)
      (hfields : ∃ f ∈ o.fields, f.name = ascii "value" ∧ f.value = ascii "2")
      (hfan : o.HasTarget (ascii "fan")) (hlen : o.text.length ≤ 127)
      (hmiss : mqttOnMessage o.text ≠ ordered (ascii "fan") 2) : o.Misread (ascii "fan") 2 :=
    ⟨⟨ho, hlen, hfan, hasValue_two hfields⟩, hmiss⟩
  refine ⟨htwo ?_ (by decide +kernel) (hasTarget_fan (by decide +kernel)) (by decide +kernel)
      (by decide +kernel), htwo ?_ (by decide +kernel) (hasTarget_fan (by decide +kernel))
      (by decide +kernel) (by decide +kernel), htwo ?_ (by decide +kernel)
      (hasTarget_fan (by decide +kernel)) (by decide +kernel) (by decide +kernel),
    htwo valid_nested (by decide +kernel) (hasTarget_fan (by decide +kernel)) (by decide +kernel)
      (by decide +kernel), htwo ?_ (by decide +kernel) ?_ (by decide +kernel) (by decide +kernel),
    ⟨⟨?_, by decide +kernel, hasTarget_fan (by decide +kernel), ?_⟩, by decide +kernel⟩⟩
  · exact valid_pair (hspaced spaced_fanField.2 (by decide) (by decide)) spaced_twoField
  · exact valid_pair spaced_fanField (hspaced spaced_twoField.2 (by decide) (by decide))
  · exact valid_pair spaced_fanField (hspaced spaced_twoField.2 (by decide) (by decide))
  · exact valid_pair (hspaced (JsonValue.string spells_escaped) (by decide) (by decide))
      spaced_twoField
  · exact ⟨_, List.mem_cons_self, spells_self (List.all_eq_true.mp (by decide)),
      ascii "\\u0066an", rfl, spells_escaped⟩
  · exact valid_pair spaced_fanField (hspaced (jsonValue_digits hdigits) (by decide) (by decide))
  · rw [← hnumber]
    exact hasValue_of_digits hdigits (by decide +kernel)

end GrainWarehouse

import GrainWarehouse.Machinery.Json
import GrainWarehouse.Report.Uplinks

/-!
# Report/Encoding — one report in two encodings

What a receiver can read out of a report: `decodeLora` takes the fields of a LoRa frame from their
offsets, `decodeJson` those of the published text from its members.  **Both give back what the
average says** (`decode_reports`), and the text is always whole.
-/

namespace GrainWarehouse

/-- What a report tells of an average. -/
structure ReportFields where
  tempAvgX10 : UInt16
  humiAvgX10 : UInt16
  rainFlag : UInt8
  co2Avg : UInt16
  coAvg : UInt16
  errBits : UInt8
  deriving DecidableEq

/-- The fields of an `env_avg_t` that are reported. -/
def EnvAvg.fields (avg : EnvAvg) : ReportFields where
  tempAvgX10 := avg.tempAvgX10
  humiAvgX10 := avg.humiAvgX10
  rainFlag := avg.rainFlag
  co2Avg := avg.co2Avg
  coAvg := avg.coAvg
  errBits := avg.errBits

/-! ## The LoRa frame -/

/-- The big-endian number at an offset. -/
def getBe16 (frame : List UInt8) (offset : ℕ) : UInt16 :=
  (frame.getD offset 0).toUInt16 <<< 8 ||| (frame.getD (offset + 1) 0).toUInt16

/-- The fields of a REPORT frame. -/
def decodeLora (frame : List UInt8) : Option ReportFields :=
  if frame.length = 13 ∧ frame.take 2 = [0xAA, 0x20] then
    some {
      tempAvgX10 := getBe16 frame 3
      humiAvgX10 := getBe16 frame 5
      rainFlag := frame.getD 7 0
      co2Avg := getBe16 frame 8
      coAvg := getBe16 frame 10
      errBits := frame.getD 12 0 }
  else none

theorem decodeLora_loraReport (seq : UInt8) (avg : EnvAvg) :
    decodeLora (loraReport seq avg) = some avg.fields := by
  have htemp := or_high_low avg.tempAvgX10
  have hhumi := or_high_low avg.humiAvgX10
  have hco2 := or_high_low avg.co2Avg
  have hco := or_high_low avg.coAvg
  rw [decodeLora, if_pos ⟨rfl, rfl⟩]
  simp only [loraReport, putBe16, getBe16, EnvAvg.fields, List.cons_append, List.nil_append,
    List.getD_cons_succ, List.getD_cons_zero, htemp, hhumi, hco2, hco]

/-! ## The JSON text -/

/-- A member's value, scaled, if that makes it a natural number. -/
def jsonField (members : List (List UInt8 × ℚ)) (key : String) (scale : ℚ) : Option ℕ :=
  (members.lookup (ascii key)).bind fun q =>
    if (q * scale).den = 1 ∧ 0 ≤ (q * scale).num then some (q * scale).num.toNat else none

/-- The fields of a published text; temperature and humidity are in tenths there. -/
def decodeJson (text : List UInt8) : Option ReportFields := do
  let members ← jsonObject text
  let t ← jsonField members "t" 10
  let h ← jsonField members "h" 10
  let rain ← jsonField members "rain" 1
  let co2 ← jsonField members "co2" 1
  let co ← jsonField members "co" 1
  let err ← jsonField members "err" 1
  return {
    tempAvgX10 := UInt16.ofNat t
    humiAvgX10 := UInt16.ofNat h
    rainFlag := UInt8.ofNat rain
    co2Avg := UInt16.ofNat co2
    coAvg := UInt16.ofNat co
    errBits := UInt8.ofNat err }

/-- The members of a published text. -/
def reportMembers (avg : EnvAvg) : List (List UInt8) :=
  [memberText (ascii "t") (tenthsText avg.tempAvgX10.toNat),
    memberText (ascii "h") (tenthsText avg.humiAvgX10.toNat),
    memberText (ascii "rain") (decimal avg.rainFlag.toNat),
    memberText (ascii "co2") (decimal avg.co2Avg.toNat),
    memberText (ascii "co") (decimal avg.coAvg.toNat),
    memberText (ascii "err") (decimal avg.errBits.toNat)]

/-- **The text is the object of its members.** -/
theorem reportJson_eq (avg : EnvAvg) :
    reportJson avg = 123 :: ([44].intercalate (reportMembers avg) ++ [125]) := by
  have hlit : ascii "\x7b\"t\":" = [123, 34, 116, 34, 58] ∧
      ascii ",\"h\":" = [44, 34, 104, 34, 58] ∧
      ascii ",\"rain\":" = [44, 34, 114, 97, 105, 110, 34, 58] ∧
      ascii ",\"co2\":" = [44, 34, 99, 111, 50, 34, 58] ∧
      ascii ",\"co\":" = [44, 34, 99, 111, 34, 58] ∧
      ascii ",\"err\":" = [44, 34, 101, 114, 114, 34, 58] ∧ ascii "\x7d" = [125] ∧
      ascii "." = [46] := by decide
  obtain ⟨ht, hh, hrain, hco2, hco, herr, hend, hpoint⟩ := hlit
  simp only [reportJson, ht, hh, hrain, hco2, hco, herr, hend, hpoint, reportMembers, memberText,
    tenthsText, List.intercalate_cons_cons, List.intercalate_singleton, List.append_assoc,
    List.cons_append, List.nil_append]
  rfl

/-- The commas of the text stand between its members. -/
theorem comma_notMem_reportMembers (avg : EnvAvg) : ∀ m ∈ reportMembers avg, 44 ∉ m := by
  have member {key number : List UInt8} (hkey : 44 ∉ key) (hnum : 44 ∉ number) :
      44 ∉ memberText key number := notMem_memberText (by decide) (by decide) hkey hnum
  have hdec (n : ℕ) : 44 ∉ decimal n := notMem_decimal (by decide) n
  have hten (n : ℕ) : 44 ∉ tenthsText n := notMem_tenthsText (by decide) (by decide) n
  simp only [reportMembers, List.forall_mem_cons]
  exact ⟨member (by decide) (hten _), member (by decide) (hten _), member (by decide) (hdec _),
    member (by decide) (hdec _), member (by decide) (hdec _), member (by decide) (hdec _),
    fun _ h => absurd h List.not_mem_nil⟩

/-- What the members of the text say. -/
def reportValues (avg : EnvAvg) : List (List UInt8 × ℚ) :=
  [(ascii "t", (avg.tempAvgX10.toNat : ℚ) / 10), (ascii "h", (avg.humiAvgX10.toNat : ℚ) / 10),
    (ascii "rain", avg.rainFlag.toNat), (ascii "co2", avg.co2Avg.toNat),
    (ascii "co", avg.coAvg.toNat), (ascii "err", avg.errBits.toNat)]

theorem jsonObject_reportJson (avg : EnvAvg) :
    jsonObject (reportJson avg) = some (reportValues avg) := by
  have hdec {key : List UInt8} (hkey : 34 ∉ key) (n : ℕ) :
      jsonMember (memberText key (decimal n)) = some (key, (n : ℚ)) := by
    rw [jsonMember_memberText hkey (notMem_decimal (by decide) n), jsonNumber_decimal]
    rfl
  have hten {key : List UInt8} (hkey : 34 ∉ key) (n : ℕ) :
      jsonMember (memberText key (tenthsText n)) = some (key, (n : ℚ) / 10) := by
    rw [jsonMember_memberText hkey (notMem_tenthsText (by decide) (by decide) n),
      jsonNumber_tenths]
    rfl
  rw [reportJson_eq, jsonObject_intercalate (comma_notMem_reportMembers avg)
    (List.cons_ne_nil _ _)]
  simp only [reportMembers, List.mapM_cons, List.mapM_nil]
  rw [hten (by decide), hten (by decide), hdec (by decide), hdec (by decide), hdec (by decide),
    hdec (by decide)]
  rfl

/-- A field is found under its key. -/
theorem jsonField_of_lookup {members : List (List UInt8 × ℚ)} {key : String} {scale q : ℚ} {n : ℕ}
    (h : members.lookup (ascii key) = some q) (hn : q * scale = n) :
    jsonField members key scale = some n := by
  rw [jsonField, h, Option.bind_some, hn, if_pos ⟨Rat.den_natCast n, by simp⟩]
  simp

theorem decodeJson_reportJson (avg : EnvAvg) : decodeJson (reportJson avg) = some avg.fields := by
  have hten (n : ℕ) : (n : ℚ) / 10 * 10 = n := div_mul_cancel₀ _ (by norm_num)
  have ht : jsonField (reportValues avg) "t" 10 = some avg.tempAvgX10.toNat :=
    jsonField_of_lookup rfl (hten _)
  have hh : jsonField (reportValues avg) "h" 10 = some avg.humiAvgX10.toNat :=
    jsonField_of_lookup rfl (hten _)
  have hrain : jsonField (reportValues avg) "rain" 1 = some avg.rainFlag.toNat :=
    jsonField_of_lookup rfl (mul_one _)
  have hco2 : jsonField (reportValues avg) "co2" 1 = some avg.co2Avg.toNat :=
    jsonField_of_lookup rfl (mul_one _)
  have hco : jsonField (reportValues avg) "co" 1 = some avg.coAvg.toNat :=
    jsonField_of_lookup rfl (mul_one _)
  have herr : jsonField (reportValues avg) "err" 1 = some avg.errBits.toNat :=
    jsonField_of_lookup rfl (mul_one _)
  simp only [decodeJson, jsonObject_reportJson, ht, hh, hrain, hco2, hco, herr, Option.bind_eq_bind,
    Option.bind_some, UInt16.ofNat_toNat, UInt8.ofNat_toNat]
  rfl

/-- **Both encodings of an average say the same**, and `snprintf` never cuts the text short. -/
theorem decode_reports (seq : UInt8) (avg : EnvAvg) :
    decodeLora (loraReport seq avg) = some avg.fields ∧
      decodeJson (snprintf 192 (reportJson avg)) = some avg.fields ∧
      (reportJson avg).length < 192 := by
  have hlen := length_reportJson_lt avg
  have hwhole : snprintf 192 (reportJson avg) = reportJson avg :=
    List.take_of_length_le (Nat.le_of_lt_succ hlen)
  refine ⟨decodeLora_loraReport seq avg, ?_, hlen⟩
  rw [hwhole]
  exact decodeJson_reportJson avg

end GrainWarehouse

import GrainWarehouse.Sensor.Mq135
import GrainWarehouse.Machinery.Numeral

/-!
# Sensor/Sgp30 — what the sensor task knows of the CO2

`IsSgp30` is what is taken of an SGP30, whichever `Peripheral` it is: it acknowledges its address
and what is written to it; the command to measure makes a measurement, of the CO2 and of a second
value, and six bytes of an answer with two checksums; past the end of an answer it leaves the data
line alone.

`MQ135_ReadCO2` reads three bytes, and acknowledges the third.  The sensor goes on with the highest
bit of its second value.  If that bit is low, the start of the next call is not noticed: the call
finds no acknowledge, returns the value of the last one, and its stop sets the sensor free.
**So a measurement is made in a call exactly if the one before has not left a low bit on the line**
(`co2_reads`), and with second values below 2¹⁵ in every other call.
-/

namespace GrainWarehouse

/-! ## The sensor -/

/-- `SGP30_CRC8`, the eight steps for a byte. -/
def crcBits : ℕ → UInt8 → UInt8
  | 0, crc => crc
  | n + 1, crc => crcBits n (if crc &&& 0x80 ≠ 0 then crc <<< 1 ^^^ 0x31 else crc <<< 1)

/-- `SGP30_CRC8`. -/
def sgp30Crc8 (data : List UInt8) : UInt8 := data.foldl (fun crc d => crcBits 8 (crc ^^^ d)) 0xFF

/-- The checksum of a value. -/
def crcOf (v : UInt16) : UInt8 := sgp30Crc8 [(v >>> 8).toUInt8, v.toUInt8]

/-- A value and its checksum. -/
def sgp30Word (v : UInt16) : List UInt8 := [(v >>> 8).toUInt8, v.toUInt8, crcOf v]

/-- What an SGP30 remembers between two bytes. -/
structure Sgp30Chip where
  /-- The measurements that it has made. -/
  made : ℕ
  /-- What was written to it in this transfer. -/
  written : List UInt8
  /-- What is left of its answer. -/
  answer : List UInt8

/-- **This device is an SGP30** that will measure these values, `chip` being what its state says of
measurements, writes and answers. -/
structure IsSgp30 {α : Type} (P : Peripheral α) (measured : ℕ → UInt16 × UInt16)
    (chip : α → Sgp30Chip) : Prop where
  /-- It acknowledges its address for writing, and a transfer begins. -/
  callWrite : ∀ a, (P.call 0xB0 a).1 = true ∧ (chip (P.call 0xB0 a).2).made = (chip a).made ∧
    (chip (P.call 0xB0 a).2).written = []
  /-- It acknowledges its address for reading when there is an answer. -/
  callRead : ∀ a, (chip a).answer ≠ [] →
    (P.call 0xB1 a).1 = true ∧ (chip (P.call 0xB1 a).2).made = (chip a).made ∧
      (chip (P.call 0xB1 a).2).answer = (chip a).answer
  /-- It acknowledges what is written to it. -/
  write : ∀ byte a,
    (P.write byte a).1 = true ∧ (chip (P.write byte a).2).written = (chip a).written ++ [byte]
  /-- The command to measure makes a measurement, and an answer. -/
  measures : ∀ byte a, (chip a).written ++ [byte] = [0x20, 0x08] →
    (chip (P.write byte a).2).made = (chip a).made + 1 ∧ (chip (P.write byte a).2).answer =
      sgp30Word (measured (chip a).made).1 ++ sgp30Word (measured (chip a).made).2
  /-- Nothing else makes one. -/
  others : ∀ byte a, (chip a).written ++ [byte] ≠ [0x20, 0x08] →
    (chip (P.write byte a).2).made = (chip a).made
  /-- It sends its answer byte by byte, and leaves the data line alone after that. -/
  next : ∀ a, (P.next a).1 = (chip a).answer.headD 0xFF ∧
    (chip (P.next a).2).made = (chip a).made ∧ (chip (P.next a).2).answer = (chip a).answer.tail

/-- An SGP30 that is nothing but what it remembers. -/
def sgp30 (measured : ℕ → UInt16 × UInt16) : Peripheral Sgp30Chip where
  call byte chip :=
    if byte = 0xB0 then (true, { chip with written := [] })
    else if byte = 0xB1 then (chip.answer ≠ [], chip)
    else (false, chip)
  write byte chip :=
    let written := chip.written ++ [byte]
    if written = [0x20, 0x08] then
      let (co2, tvoc) := measured chip.made
      (true, ⟨chip.made + 1, written, sgp30Word co2 ++ sgp30Word tvoc⟩)
    else (true, { chip with written := written })
  next chip := (chip.answer.headD 0xFF, { chip with answer := chip.answer.tail })

theorem isSgp30_sgp30 (measured : ℕ → UInt16 × UInt16) : IsSgp30 (sgp30 measured) measured id where
  callWrite _ := ⟨rfl, rfl, rfl⟩
  callRead _ h := ⟨decide_eq_true h, rfl, rfl⟩
  write byte a := by
    simp only [sgp30]
    split
    all_goals exact ⟨rfl, rfl⟩
  measures byte a h := by
    simp only [sgp30, id_eq] at h ⊢
    rw [if_pos h]
    exact ⟨rfl, rfl⟩
  others byte a h := by
    simp only [sgp30, id_eq] at h ⊢
    rw [if_neg h]
  next _ := ⟨rfl, rfl, rfl⟩

/-! ## Bytes -/

/-- The first byte of a value begins with its highest bit. -/
theorem msbFirst_high (v : UInt16) :
    ∃ bits : List Bool, bits.length = 7 ∧
      msbFirst (v >>> 8).toUInt8 = (!decide (v < 0x8000)) :: bits := by
  have hv := v.toNat_lt
  have hlt : v < 0x8000 ↔ v.toNat < 32768 := UInt16.lt_iff_toNat_lt
  have hhigh : (v >>> 8).toUInt8.toNat.testBit 7 = !decide (v < 0x8000) := by
    have h8 : (8 : UInt16).toNat = 8 := rfl
    rw [UInt16.toNat_toUInt8, UInt16.toNat_shiftRight, h8, Nat.testBit_eq_decide_div_mod_eq,
      Nat.shiftRight_eq_div_pow, ← decide_not, decide_eq_decide, hlt,
      Nat.mod_eq_of_lt (a := 8) (by decide)]
    omega
  exact ⟨(msbFirst (v >>> 8).toUInt8).tail, rfl, by rw [← hhigh]; rfl⟩

/-- A bit that the sensor takes for its own clock… -/
theorem send_level {α : Type} (P : Peripheral α) (a : α) :
    ((P.send a).1).level = (P.next a).1.toNat.testBit 7 := rfl

/-- …is an acknowledge for the program if it is low. -/
theorem i2cWaitAck_send {α : Type} (P : Peripheral α) (a : α) :
    i2cWaitAck P.wires ⟨false, false, (P.send a).1, (P.send a).2⟩ =
        (1, ⟨true, true, .idle, (P.send a).2⟩) ∨
      ∃ bits : List Bool, bits.length = 7 ∧
        i2cWaitAck P.wires ⟨false, false, (P.send a).1, (P.send a).2⟩ =
          (0, ⟨false, true, .sending bits, (P.send a).2⟩) := by
  cases hlevel : ((P.send a).1).level with
  | true => exact Or.inl (i2cWaitAck_high P hlevel)
  | false =>
    refine Or.inr ⟨(msbFirst (P.next a).1).tail, rfl, ?_⟩
    rw [i2cWaitAck_low P hlevel]
    rfl

variable {α : Type} {P : Peripheral α} {measured : ℕ → UInt16 × UInt16} {chip : α → Sgp30Chip}

namespace IsSgp30

variable (h : IsSgp30 P measured chip)

include h

/-- The next byte of an answer. -/
theorem send_cons {a : α} {byte : UInt8} {rest : List UInt8} (ha : (chip a).answer = byte :: rest) :
    ∃ a', (chip a').made = (chip a).made ∧ (chip a').answer = rest ∧
      P.send a = (.sending (msbFirst byte), a') := by
  obtain ⟨hbyte, hmade, hanswer⟩ := h.next a
  rw [ha] at hbyte hanswer
  exact ⟨_, hmade, hanswer, by rw [Peripheral.send, hbyte]; rfl⟩

/-- Sending makes no measurement… -/
theorem made_send (a : α) : (chip (P.send a).2).made = (chip a).made := (h.next a).2.1

/-- …and uses up the answer. -/
theorem answer_send (a : α) : (chip (P.send a).2).answer = (chip a).answer.tail := (h.next a).2.2

/-- The address for writing… -/
theorem sendAck_callWrite (s : Bool) (a : α) :
    ∃ a', (chip a').made = (chip a).made ∧ (chip a').written = [] ∧
      sendAck P.wires (sgp30Addr <<< 1) ⟨false, s, .receiving true [], a⟩ =
        (0, ⟨false, true, .receiving false [], a'⟩) := by
  obtain ⟨hack, hmade, hwritten⟩ := h.callWrite a
  have htake : P.take true 0xB0 a = (.acknowledging false, (P.call 0xB0 a).2) := by
    rw [Peripheral.take, if_pos rfl, hack, if_pos rfl]
    rfl
  exact ⟨_, hmade, hwritten, sendAck_taken P s true (sgp30Addr <<< 1) false htake⟩

/-- …and that for reading. -/
theorem sendAck_callRead (s : Bool) {a : α} (ha : (chip a).answer ≠ []) :
    ∃ a', (chip a').made = (chip a).made ∧ (chip a').answer = (chip a).answer ∧
      sendAck P.wires (sgp30Addr <<< 1 ||| 0x01) ⟨false, s, .receiving true [], a⟩ =
        (0, ⟨false, true, (P.send a').1, (P.send a').2⟩) := by
  obtain ⟨hack, hmade, hanswer⟩ := h.callRead a ha
  have htake : P.take true 0xB1 a = (.acknowledging true, (P.call 0xB1 a).2) := by
    rw [Peripheral.take, if_pos rfl, hack, if_pos rfl]
    rfl
  exact ⟨_, hmade, hanswer, sendAck_taken P s true (sgp30Addr <<< 1 ||| 0x01) true htake⟩

/-- A byte that is written. -/
theorem sendAck_write (byte : UInt8) (a : α) :
    sendAck P.wires byte ⟨false, true, .receiving false [], a⟩ =
      (0, ⟨false, true, .receiving false [], (P.write byte a).2⟩) := by
  have htake : P.take false byte a = (.acknowledging false, (P.write byte a).2) := by
    rw [Peripheral.take, if_neg Bool.false_ne_true, (h.write byte a).1, if_pos rfl]
    rfl
  exact sendAck_taken P true false byte false htake

/-- A byte that is not the last one of the command to measure. -/
theorem sendAck_other (byte : UInt8) {a : α} {written : List UInt8}
    (hwritten : (chip a).written = written) (hother : written ++ [byte] ≠ [0x20, 0x08]) :
    ∃ a', (chip a').made = (chip a).made ∧ (chip a').written = written ++ [byte] ∧
      sendAck P.wires byte ⟨false, true, .receiving false [], a⟩ =
        (0, ⟨false, true, .receiving false [], a'⟩) := by
  subst hwritten
  exact ⟨_, h.others byte a hother, (h.write byte a).2, h.sendAck_write byte a⟩

end IsSgp30

/-! ## A call -/

section Call

variable (h : IsSgp30 P measured chip)

include h

/-- A sensor that lets go of the data line notices the start of a call, and acknowledges all of its
four bytes: it has made a measurement, and is about to send it. -/
theorem sgp30_called {c s : Bool} {p : Phase} (hp : p.level = true) (a : α) :
    ∃ (l₁ l₂ l₃ : Lines α) (a' : α), (chip a').made = (chip a).made + 1 ∧
      (chip a').answer =
        sgp30Word (measured (chip a).made).1 ++ sgp30Word (measured (chip a).made).2 ∧
      sendAck P.wires (sgp30Addr <<< 1) (i2cStart P.wires ⟨c, s, p, a⟩) = (0, l₁) ∧
      sendAck P.wires (cmd sgp30MeasureCmd).1 l₁ = (0, l₂) ∧
      sendAck P.wires (cmd sgp30MeasureCmd).2 l₂ = (0, l₃) ∧
      sendAck P.wires (sgp30Addr <<< 1 ||| 0x01)
          (i2cStart P.wires (P.wires.delay 30000 (i2cStop P.wires l₃))) =
        (0, ⟨false, true, (P.send a').1, (P.send a').2⟩) := by
  obtain ⟨a₁, hmade₁, hwritten₁, hwrite⟩ := h.sendAck_callWrite false a
  obtain ⟨a₂, hmade₂, hwritten₂, hcommand1⟩ := h.sendAck_other (cmd sgp30MeasureCmd).1
    hwritten₁ (by decide)
  have hcommand2 := h.sendAck_write (cmd sgp30MeasureCmd).2 a₂
  obtain ⟨hmade₃, hanswer₃⟩ := h.measures (cmd sgp30MeasureCmd).2 a₂ (by rw [hwritten₂]; rfl)
  rw [hmade₂, hmade₁] at hmade₃ hanswer₃
  obtain ⟨a₄, hmade₄, hanswer₄, hread⟩ := h.sendAck_callRead (s := false)
    (a := (P.write (cmd sgp30MeasureCmd).2 a₂).2) (by rw [hanswer₃]; exact List.cons_ne_nil _ _)
  refine ⟨_, _, _, a₄, hmade₄.trans hmade₃, hanswer₄.trans hanswer₃, ?_, hcommand1, hcommand2, ?_⟩
  · rw [i2cStart_noticed P hp]
    exact hwrite
  · rw [wires_delay, i2cStop_low P rfl, i2cStart_noticed P rfl]
    exact hread

/-- **A call whose start is noticed**: a measurement is made, and its first value read.  The sensor
is left with its second value. -/
theorem readCo2_noticed {c s : Bool} {p : Phase} (hp : p.level = true) (a : α) (m : Mq135) :
    let (co2, tvoc) := measured (chip a).made
    ∃ a', (chip a').made = (chip a).made + 1 ∧ (chip a').answer = [tvoc.toUInt8, crcOf tvoc] ∧
      Mq135.readCo2 P.wires ⟨c, s, p, a⟩ m =
        (mq135ReadCo2 ⟨true, true, true, true, (co2 >>> 8).toUInt8, co2.toUInt8, crcOf co2⟩ m,
          ⟨false, false, .sending (msbFirst (tvoc >>> 8).toUInt8), a'⟩) := by
  obtain ⟨l₁, l₂, l₃, a₁, hmade, hanswer, hwrite, hcommand1, hcommand2, hread⟩ :=
    sgp30_called h (c := c) (s := s) hp a
  rcases hmeasured : measured (chip a).made with ⟨co2, tvoc⟩
  rw [hmeasured] at hanswer
  have hdata := readCo2_data hwrite hcommand1 hcommand2 hread m
  -- the three bytes that are read, and the one behind them
  obtain ⟨a₂, hmade₂, hanswer₂, hsend₁⟩ := h.send_cons hanswer
  obtain ⟨a₃, hmade₃, hanswer₃, hsend₂⟩ := h.send_cons hanswer₂
  obtain ⟨a₄, hmade₄, hanswer₄, hsend₃⟩ := h.send_cons hanswer₃
  obtain ⟨a₅, hmade₅, hanswer₅, hsend₄⟩ := h.send_cons hanswer₄
  refine ⟨a₅, by rw [hmade₅, hmade₄, hmade₃, hmade₂, hmade], hanswer₅, ?_⟩
  simp only [hsend₁, i2cReadByte_sending, i2cAck_released, hsend₂, hsend₃, hsend₄] at hdata
  exact hdata

/-- **A call whose start is not noticed**: no measurement is made, the last value is returned, and
the sensor is free. -/
theorem readCo2_missed {s : Bool} {bits : List Bool} (hbits : bits.length = 7) {a : α}
    {x y : UInt8} (hanswer : (chip a).answer = [x, y]) (m : Mq135) :
    ∃ a', (chip a').made = (chip a).made ∧
      Mq135.readCo2 P.wires ⟨false, s, .sending (false :: bits), a⟩ m =
        (m.readError, ⟨true, true, .idle, a'⟩) := by
  obtain ⟨bit, bits', rfl⟩ : ∃ bit bits', bits = bit :: bits' :=
    List.exists_cons_of_length_eq_add_one hbits
  have hwrite : sendAck P.wires (sgp30Addr <<< 1)
        (i2cStart P.wires ⟨false, s, .sending (false :: bit :: bits'), a⟩) =
      i2cWaitAck P.wires ⟨false, false, (P.send a).1, (P.send a).2⟩ := by
    rw [i2cStart_missed P]
    exact sendAck_through P false hbits (sgp30Addr <<< 1) rfl
  rcases i2cWaitAck_send P a with hack | ⟨held₁, hheld₁, hack⟩
  · exact ⟨_, h.made_send a, readCo2_write (hwrite.trans hack) (by decide) m⟩
  rw [hack] at hwrite
  have hcommand1 := sendAck_through P (a := (P.send a).2) true hheld₁
    (cmd sgp30MeasureCmd).1 rfl
  rcases i2cWaitAck_send P (P.send a).2 with hack₁ | ⟨held₂, hheld₂, hack₁⟩
  · exact ⟨_, by rw [h.made_send, h.made_send],
      readCo2_command1 hwrite (hcommand1.trans hack₁) (by decide) m⟩
  rw [hack₁] at hcommand1
  -- the answer is at its end, and the data line left alone
  have hend : (P.next (P.send (P.send a).2).2).1 = 0xFF := by
    rw [(h.next _).1, h.answer_send, h.answer_send, hanswer]
    rfl
  have hhigh : ((P.send (P.send (P.send a).2).2).1).level = true := by
    rw [send_level, hend]
    decide
  have hcommand2 := sendAck_through P (a := (P.send (P.send a).2).2) true hheld₂
    (cmd sgp30MeasureCmd).2 rfl
  rw [i2cWaitAck_high P hhigh] at hcommand2
  exact ⟨_, by rw [h.made_send, h.made_send, h.made_send],
    readCo2_command2 hwrite hcommand1 hcommand2 (by decide) m⟩

/-- **`MQ135_Init` on lines that nobody uses**: the sensor is found, and no measurement made. -/
theorem mq135Init_idle (c s : Bool) (a : α) :
    ∃ a', (chip a').made = (chip a).made ∧
      mq135Init P.wires ⟨c, s, .idle, a⟩ = (true, ⟨true, true, .idle, a'⟩) := by
  have hfree : P.wires.sda true (P.wires.scl true ⟨c, s, .idle, a⟩) = ⟨true, true, .idle, a⟩ := by
    cases c <;> cases s <;> rfl
  have hpulses := Function.iterate_fixed (f := fun b => P.wires.scl true (P.wires.scl false b))
    (x := ⟨true, true, .idle, a⟩) rfl 9
  obtain ⟨a₁, hmade₁, hwritten₁, hcall⟩ := h.sendAck_callWrite false a
  obtain ⟨a₂, hmade₂, hwritten₂, hinit1⟩ := h.sendAck_other (cmd sgp30InitCmd).1
    hwritten₁ (by decide)
  obtain ⟨a₃, hmade₃, -, hinit2⟩ := h.sendAck_other (cmd sgp30InitCmd).2
    hwritten₂ (by decide)
  obtain ⟨a₄, hmade₄, hwritten₄, hcall'⟩ := h.sendAck_callWrite false a₃
  obtain ⟨a₅, hmade₅, hwritten₅, hbyte1⟩ := h.sendAck_other 0x20 hwritten₄ (by decide)
  obtain ⟨a₆, hmade₆, hwritten₆, hbyte2⟩ := h.sendAck_other 0x1E hwritten₅ (by decide)
  obtain ⟨a₇, hmade₇, hwritten₇, hbyte3⟩ := h.sendAck_other 0x00 hwritten₆ (by decide)
  obtain ⟨a₈, hmade₈, -, hbyte4⟩ := h.sendAck_other 0x01 hwritten₇ (by decide)
  refine ⟨a₈, by rw [hmade₈, hmade₇, hmade₆, hmade₅, hmade₄, hmade₃, hmade₂, hmade₁], ?_⟩
  have hstart (a : α) := i2cStart_noticed P (c := true) (s := true) (p := .idle) (a := a) rfl
  simp only [mq135Init, wires_delay, hfree, hpulses, hstart, hcall, if_true, hinit1, hinit2,
    i2cStop_low P (rfl : (Phase.receiving false []).level = true), hcall', hbyte1, hbyte2, hbyte3,
    hbyte4]

end Call

/-! ## All calls -/

section Calls

/-- The last of the first `k` measurements that is in range. -/
def lastGood (measured : ℕ → UInt16 × UInt16) : ℕ → UInt16
  | 0 => 400
  | k + 1 =>
    if 400 ≤ (measured k).1 ∧ (measured k).1 ≤ 60000 then (measured k).1 else lastGood measured k

/-- A call in which everything is acknowledged returns the new value if it is in range. -/
theorem mq135ReadCo2_word (v : UInt16) (x : UInt8) (m : Mq135) :
    (mq135ReadCo2 ⟨true, true, true, true, (v >>> 8).toUInt8, v.toUInt8, x⟩ m).1 =
        (if 400 ≤ v ∧ v ≤ 60000 then v else m.lastValid) ∧
      (mq135ReadCo2 ⟨true, true, true, true, (v >>> 8).toUInt8, v.toUInt8, x⟩ m).2.lastValid =
        (if 400 ≤ v ∧ v ≤ 60000 then v else m.lastValid) := by
  rw [mq135ReadCo2_acked, or_high_low]
  by_cases hrange : v ≥ 400 ∧ v ≤ 60000
  · simp only [if_pos hrange, and_self]
  · simp only [if_neg hrange, and_self]

/-- **Between two calls**: the last value is the last good one of the measurements made so far, and
a sensor that holds the line is at the first bit of its second value. -/
structure Between (measured : ℕ → UInt16 × UInt16) (chip : α → Sgp30Chip) (r : Lines α × Mq135) :
    Prop where
  kept : r.2.lastValid = lastGood measured (chip r.1.device).made
  held : r.1.phase.level = false → ∃ (s : Bool) (bits : List Bool) (a : α) (x y : UInt8),
    bits.length = 7 ∧ (chip a).answer = [x, y] ∧ r.1 = ⟨false, s, .sending (false :: bits), a⟩

/-- What a call does between two such moments: it measures if the line is free, leaves it held if it
has measured and the second value is low, and returns the last good value. -/
structure Called (measured : ℕ → UInt16 × UInt16) (chip : α → Sgp30Chip) (l l' : Lines α)
    (value : UInt16) : Prop where
  made : (chip l'.device).made = (chip l.device).made + if l.phase.level then 1 else 0
  held : l'.phase.level = false ↔
    l.phase.level = true ∧ (measured (chip l.device).made).2 < 0x8000
  value : value = lastGood measured (chip l'.device).made

/-- **One cycle.** -/
theorem called_co2Cycle (h : IsSgp30 P measured chip) (period : ℕ) {r : Lines α × Mq135}
    (hr : Between measured chip r) :
    Between measured chip (co2Cycle P.wires period r) ∧
      Called measured chip r.1 (co2Cycle P.wires period r).1
        (Mq135.readCo2 P.wires r.1 r.2).1.1 := by
  obtain ⟨l, m⟩ := r
  cases hlevel : l.phase.level with
  | false =>
    obtain ⟨s, bits, a, x, y, hbits, hanswer, rfl⟩ := hr.held hlevel
    obtain ⟨a', hmade, hread⟩ := readCo2_missed h (s := s) hbits hanswer m
    have hkept : m.lastValid = lastGood measured (chip a').made := by
      rw [hmade]
      exact hr.kept
    simp only [co2Cycle, hread]
    exact ⟨⟨hkept, nofun⟩, hmade, iff_of_false nofun fun h => Bool.false_ne_true h.1, hkept⟩
  | true =>
    obtain ⟨c, s, p, a⟩ := l
    have hlevel' : p.level = true := hlevel
    obtain ⟨a', hmade, hanswer, hread⟩ := readCo2_noticed h (c := c) (s := s) hlevel' a m
    obtain ⟨bits, hbits, hhigh⟩ := msbFirst_high (measured (chip a).made).2
    obtain ⟨hvalue, hkept⟩ := mq135ReadCo2_word (measured (chip a).made).1
      (crcOf (measured (chip a).made).1) m
    have hlast : (if 400 ≤ (measured (chip a).made).1 ∧ (measured (chip a).made).1 ≤ 60000 then
        (measured (chip a).made).1 else m.lastValid) = lastGood measured (chip a').made := by
      rw [hmade, lastGood, ← hr.kept]
    rw [hlast] at hvalue hkept
    simp only [co2Cycle, hread, hhigh]
    refine ⟨⟨hkept, fun hlow => ?_⟩, ?_, ?_, hvalue⟩
    · obtain hlow : (!decide ((measured (chip a).made).2 < 0x8000)) = false := hlow
      rw [hlow]
      exact ⟨false, bits, a', _, _, hbits, hanswer, rfl⟩
    · rw [if_pos hlevel']
      exact hmade
    · rw [and_iff_right hlevel']
      change (!decide ((measured (chip a).made).2 < 0x8000)) = false ↔ _
      rw [Bool.not_eq_false', decide_eq_true_iff]

/-- **All cycles.** -/
theorem called_iterate (h : IsSgp30 P measured chip) (period : ℕ) {r : Lines α × Mq135}
    (hr : Between measured chip r) (i : ℕ) :
    let r' := (co2Cycle P.wires period)^[i] r
    Between measured chip r' ∧
      Called measured chip r'.1 ((co2Cycle P.wires period)^[i + 1] r).1
        (Mq135.readCo2 P.wires r'.1 r'.2).1.1 := by
  induction i with
  | zero => exact ⟨hr, (called_co2Cycle h period hr).2⟩
  | succ i ih =>
    have hnext : Between measured chip ((co2Cycle P.wires period)^[i + 1] r) := by
      rw [Function.iterate_succ_apply']
      exact (called_co2Cycle h period ih.1).1
    refine ⟨hnext, ?_⟩
    rw [Function.iterate_succ_apply' _ (i + 1)]
    exact (called_co2Cycle h period hnext).2

/-- A line that is held after each call that measures is free for every other call. -/
theorem free_everyOther {made : ℕ → ℕ} {free : ℕ → Bool} (hzero : made 0 = 0 ∧ free 0 = true)
    (hmade : ∀ i, made (i + 1) = made i + if free i then 1 else 0)
    (hheld : ∀ i, free (i + 1) = false ↔ free i = true) :
    ∀ i, made i = (i + 1) / 2 ∧ (free i = true ↔ i % 2 = 0)
  | 0 => ⟨hzero.1, iff_of_true hzero.2 rfl⟩
  | i + 1 => by
      obtain ⟨hcount, hfree⟩ := free_everyOther hzero hmade hheld i
      rw [hmade, hcount]
      cases hi : free i with
      | true =>
        have heven := hfree.mp hi
        rw [(hheld i).mpr hi]
        exact ⟨by rw [if_pos rfl]; omega, iff_of_false Bool.false_ne_true (by omega)⟩
      | false =>
        have hodd : ¬ i % 2 = 0 := fun h => by
          rw [hfree.mpr h] at hi
          cases hi
        have hnext : free (i + 1) = true := (Bool.not_eq_false _).mp fun h => by
          rw [(hheld i).mp h] at hi
          cases hi
        rw [hnext]
        exact ⟨by rw [if_neg Bool.false_ne_true]; omega, iff_of_true rfl (by omega)⟩

/-- **What the sensor task reads from boot on**, with any SGP30 that follows the rules of the bus:
`MQ135_Init` finds it; each call measures exactly if the line is free, and leaves the line held
exactly if it has measured and the second value is low; and each value is the last good one of the
measurements made so far.  With second values below 2¹⁵ every other call measures, and each
measurement is returned twice. -/
theorem co2_reads (h : IsSgp30 P measured chip) (c s : Bool) {a : α} (ha : (chip a).made = 0)
    (period : ℕ) :
    let init := mq135Init P.wires ⟨c, s, .idle, a⟩
    let lines (i : ℕ) : Lines α := ((co2Cycle P.wires period)^[i] (init.2, .boot)).1
    let made (i : ℕ) : ℕ := (chip (lines i).device).made
    let free (i : ℕ) : Bool := (lines i).phase.level
    init.1 = true ∧ made 0 = 0 ∧ free 0 = true ∧
      (∀ i, made (i + 1) = (made i + if free i then 1 else 0) ∧
        (free (i + 1) = false ↔ free i = true ∧ (measured (made i)).2 < 0x8000)) ∧
      (∀ n, co2Reads P.wires period n init.2 .boot =
        (List.range n).map fun i => lastGood measured (made (i + 1))) ∧
      ((∀ k, (measured k).2 < 0x8000) → (∀ i, made i = (i + 1) / 2) ∧
        ∀ n, co2Reads P.wires period n init.2 .boot =
          (List.range n).map fun i => lastGood measured (i / 2 + 1)) := by
  obtain ⟨a', hmade, hinit⟩ := mq135Init_idle h c s a
  intro init lines made free
  have hinit' : init = (true, ⟨true, true, .idle, a'⟩) := hinit
  clear_value init
  subst hinit'
  have hboot : Between measured chip (⟨true, true, .idle, a'⟩, Mq135.boot) := by
    refine ⟨?_, nofun⟩
    change _ = lastGood measured (chip a').made
    rw [hmade, ha]
    rfl
  have hcalled (i : ℕ) := (called_iterate h period hboot i).2
  have hzero : made 0 = 0 ∧ free 0 = true := ⟨hmade.trans ha, rfl⟩
  have hreads (n : ℕ) : co2Reads P.wires period n ⟨true, true, .idle, a'⟩ .boot =
      (List.range n).map fun i => lastGood measured (made (i + 1)) := by
    rw [co2Reads_eq_map]
    exact List.map_congr_left fun i _ => (hcalled i).value
  refine ⟨rfl, hzero.1, hzero.2, fun i => ⟨(hcalled i).made, (hcalled i).held⟩, hreads,
    fun hlow => ?_⟩
  have hhalf := free_everyOther hzero (fun i => (hcalled i).made)
    fun i => (hcalled i).held.trans (and_iff_left (hlow _))
  refine ⟨fun i => (hhalf i).1, fun n => ?_⟩
  rw [hreads]
  refine List.map_congr_left fun i _ => ?_
  rw [(hhalf (i + 1)).1, Nat.add_assoc, Nat.add_div_right i (by decide)]

/-- CO2 of 500, 501, … with a second value of 10. -/
theorem co2_reads_everyOther : co2Reads (sgp30 fun k => (500 + UInt16.ofNat k, 10)).wires 0 4
    (mq135Init (sgp30 fun k => (500 + UInt16.ofNat k, 10)).wires
      ⟨true, true, .idle, ⟨0, [], []⟩⟩).2 .boot = [500, 500, 501, 501] := by
  obtain ⟨-, -, -, -, -, hlow⟩ :=
    co2_reads (isSgp30_sgp30 fun k => (500 + UInt16.ofNat k, 10)) true true
      (rfl : (id (⟨0, [], []⟩ : Sgp30Chip)).made = 0) 0
  rw [(hlow fun _ => (by decide : (10 : UInt16) < 0x8000)).2 4]
  decide

end Calls

end GrainWarehouse

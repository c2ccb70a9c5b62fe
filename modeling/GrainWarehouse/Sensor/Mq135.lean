import GrainWarehouse.Machinery.TwoWire
import GrainWarehouse.Actuator.Cycle

/-!
# Sensor/Mq135 — reading CO2 with two pins

`mq135.c` plays the master of a two-wire bus by hand.  `MQ135_ReadCO2` acknowledges the last byte
that it reads, too, and ends without a stop: the sensor is left on the bus, with the highest bit of
its next byte on the data line, and the first bits of the next call go by while it sends on.

**On any wires, what the call returns is what `mq135ReadCo2` makes of the acknowledges and the bytes
that come in** (`readCo2_eq`), so it is never out of the range of the sensor.  **With a sensor that
follows the rules of the bus, a call that leaves a low bit on the line is followed by one that reads
nothing** (`co2_reads`): as long as the second value of the sensor is below 2¹⁵, each of its
measurements is returned twice.
-/

namespace GrainWarehouse

/-! ## The driver -/

section Driver

variable {β : Type} (W : Wires β)

/-- `I2C_Start`. -/
def i2cStart (b : β) : β :=
  W.scl false (W.delay 4 (W.sda false (W.delay 4 (W.scl true (W.sda true b)))))

/-- `I2C_Stop`. -/
def i2cStop (b : β) : β :=
  W.delay 4 (W.sda true (W.delay 4 (W.scl true (W.sda false b))))

/-- The loop of `I2C_WaitAck`, with `n` looks at the data line left. -/
def waitLow : ℕ → β → Bool × β
  | 0, b => (false, b)
  | n + 1, b => if (W.read b).1 then waitLow n (W.read b).2 else (true, (W.read b).2)

/-- `I2C_WaitAck`: `1` without an acknowledge. -/
def i2cWaitAck (b : β) : UInt8 × β :=
  let got := waitLow W 251 (W.delay 4 (W.scl true (W.delay 4 (W.sda true b))))
  if got.1 then (0, W.scl false got.2) else (1, i2cStop W got.2)

/-- `I2C_Ack`. -/
def i2cAck (b : β) : β := W.clock 4 (W.scl false b) false

/-- The loop of `I2C_SendByte`, with `n` bits left. -/
def sendBits : ℕ → UInt8 → β → β
  | 0, _, b => b
  | n + 1, txd, b => sendBits n (txd <<< 1) (W.clock 4 b (txd &&& 0x80 ≠ 0))

/-- `I2C_SendByte`. -/
def i2cSendByte (txd : UInt8) (b : β) : β := sendBits W 8 txd (W.scl false b)

/-- The loop of `I2C_ReadByte`, with `n` bits left. -/
def receiveBits : ℕ → UInt8 → β → UInt8 × β
  | 0, receive, b => (receive, b)
  | n + 1, receive, b =>
    let bit := W.sample 4 b
    receiveBits n (if bit.1 then receive <<< 1 + 1 else receive <<< 1) bit.2

/-- `I2C_ReadByte`. -/
def i2cReadByte (b : β) : UInt8 × β :=
  let received := receiveBits W 8 0 (W.sda true b)
  (received.1, W.scl false received.2)

/-- `SGP30_ADDR`. -/
def sgp30Addr : UInt8 := 0x58

/-- `SGP30_INIT_CMD`. -/
def sgp30InitCmd : UInt16 := 0x2003

/-- `SGP30_MEASURE_CMD`. -/
def sgp30MeasureCmd : UInt16 := 0x2008

/-- The two bytes of a command. -/
def cmd (c : UInt16) : UInt8 × UInt8 := ((c >>> 8).toUInt8, c.toUInt8)

/-- A byte, and whether it is acknowledged: `0` if it is. -/
def sendAck (txd : UInt8) (b : β) : UInt8 × β := i2cWaitAck W (i2cSendByte W txd b)

/-- `MQ135_Init`, the pins being configured: the lines, and `sgp30_initialized`. -/
def mq135Init (b : β) : Bool × β :=
  let b := W.delay 100000 (W.sda true (W.scl true b))
  let b := (fun b => W.delay 4 (W.scl true (W.delay 4 (W.scl false b))))^[9] b
  let called := sendAck W (sgp30Addr <<< 1) (i2cStart W b)
  if called.1 = 0 then
    let b := (sendAck W (cmd sgp30InitCmd).1 called.2).2
    let b := (sendAck W (cmd sgp30InitCmd).2 b).2
    let b := W.delay 300000 (i2cStop W b)
    let called := sendAck W (sgp30Addr <<< 1) (i2cStart W b)
    if called.1 = 0 then
      let b := (sendAck W 0x20 called.2).2
      let b := (sendAck W 0x1E b).2
      let b := (sendAck W 0x00 b).2
      let b := (sendAck W 0x01 b).2
      (true, i2cStop W b)
    else (false, called.2)
  else (false, called.2)

/-- `MQ135_ReadCO2`, on the pins. -/
def Mq135.readCo2 (b : β) (m : Mq135) : (UInt16 × Mq135) × β :=
  let write := sendAck W (sgp30Addr <<< 1) (i2cStart W b)
  if write.1 ≠ 0 then (m.readError, write.2)
  else
    let command1 := sendAck W (cmd sgp30MeasureCmd).1 write.2
    if command1.1 ≠ 0 then (m.readError, command1.2)
    else
      let command2 := sendAck W (cmd sgp30MeasureCmd).2 command1.2
      if command2.1 ≠ 0 then (m.readError, command2.2)
      else
        let b := W.delay 30000 (i2cStop W command2.2)
        let read := sendAck W (sgp30Addr <<< 1 ||| 0x01) (i2cStart W b)
        if read.1 ≠ 0 then (m.readError, read.2)
        else
          let data0 := i2cReadByte W read.2
          let data1 := i2cReadByte W (i2cAck W data0.2)
          let data2 := i2cReadByte W (i2cAck W data1.2)
          let b := i2cAck W data2.2
          let co2Eq := data0.1.toUInt16 <<< 8 ||| data1.1.toUInt16
          if co2Eq ≥ 400 ∧ co2Eq ≤ 60000 then ((co2Eq, ⟨co2Eq, 0⟩), b)
          else ((m.lastValid, m), b)

/-- The values of a call in which everything is acknowledged. -/
theorem mq135ReadCo2_acked (data0 data1 data2 : UInt8) (m : Mq135) :
    mq135ReadCo2 ⟨true, true, true, true, data0, data1, data2⟩ m =
      if data0.toUInt16 <<< 8 ||| data1.toUInt16 ≥ 400 ∧
          data0.toUInt16 <<< 8 ||| data1.toUInt16 ≤ 60000 then
        (data0.toUInt16 <<< 8 ||| data1.toUInt16,
          ⟨data0.toUInt16 <<< 8 ||| data1.toUInt16, 0⟩)
      else (m.lastValid, m) := rfl

/-! ### The ways through a call -/

section Ways

variable {W} {b b₁ b₂ b₃ b₄ : β} {r : UInt8}

/-- The address is not acknowledged… -/
theorem readCo2_write (hwrite : sendAck W (sgp30Addr <<< 1) (i2cStart W b) = (r, b₁)) (hr : r ≠ 0)
    (m : Mq135) : Mq135.readCo2 W b m = (m.readError, b₁) := by
  simp only [Mq135.readCo2, hwrite, if_pos hr]

variable (hwrite : sendAck W (sgp30Addr <<< 1) (i2cStart W b) = (0, b₁))

include hwrite

/-- …the first byte of the command is not… -/
theorem readCo2_command1 (hcommand1 : sendAck W (cmd sgp30MeasureCmd).1 b₁ = (r, b₂)) (hr : r ≠ 0)
    (m : Mq135) : Mq135.readCo2 W b m = (m.readError, b₂) := by
  simp only [Mq135.readCo2, hwrite, ne_eq, not_true_eq_false, if_false, hcommand1, if_pos hr]

variable (hcommand1 : sendAck W (cmd sgp30MeasureCmd).1 b₁ = (0, b₂))

include hcommand1

/-- …the second is not… -/
theorem readCo2_command2 (hcommand2 : sendAck W (cmd sgp30MeasureCmd).2 b₂ = (r, b₃)) (hr : r ≠ 0)
    (m : Mq135) : Mq135.readCo2 W b m = (m.readError, b₃) := by
  simp only [Mq135.readCo2, hwrite, ne_eq, not_true_eq_false, if_false, hcommand1, hcommand2,
    if_pos hr]

variable (hcommand2 : sendAck W (cmd sgp30MeasureCmd).2 b₂ = (0, b₃))

include hcommand2

/-- …the address for reading is not… -/
theorem readCo2_read (hread : sendAck W (sgp30Addr <<< 1 ||| 0x01)
      (i2cStart W (W.delay 30000 (i2cStop W b₃))) = (r, b₄)) (hr : r ≠ 0) (m : Mq135) :
    Mq135.readCo2 W b m = (m.readError, b₄) := by
  simp only [Mq135.readCo2, hwrite, ne_eq, not_true_eq_false, if_false, hcommand1, hcommand2, hread,
    if_pos hr]

/-- …or everything is, and three bytes are read. -/
theorem readCo2_data (hread : sendAck W (sgp30Addr <<< 1 ||| 0x01)
      (i2cStart W (W.delay 30000 (i2cStop W b₃))) = (0, b₄)) (m : Mq135) :
    let data0 := i2cReadByte W b₄
    let data1 := i2cReadByte W (i2cAck W data0.2)
    let data2 := i2cReadByte W (i2cAck W data1.2)
    Mq135.readCo2 W b m =
      (mq135ReadCo2 ⟨true, true, true, true, data0.1, data1.1, data2.1⟩ m, i2cAck W data2.2) := by
  intro data0 data1 data2
  rw [mq135ReadCo2_acked]
  simp only [Mq135.readCo2, hwrite, ne_eq, not_true_eq_false, if_false, hcommand1, hcommand2, hread]
  by_cases hrange : data0.1.toUInt16 <<< 8 ||| data1.1.toUInt16 ≥ 400 ∧
      data0.1.toUInt16 <<< 8 ||| data1.1.toUInt16 ≤ 60000
  · rw [if_pos hrange, if_pos hrange]
  · rw [if_neg hrange, if_neg hrange]

end Ways

/-! ## Any wires -/

/-- What comes in during a call, if it goes on to the end. -/
def Sgp30.ofWires (b : β) : Sgp30 :=
  let write := sendAck W (sgp30Addr <<< 1) (i2cStart W b)
  let command1 := sendAck W (cmd sgp30MeasureCmd).1 write.2
  let command2 := sendAck W (cmd sgp30MeasureCmd).2 command1.2
  let read := sendAck W (sgp30Addr <<< 1 ||| 0x01)
    (i2cStart W (W.delay 30000 (i2cStop W command2.2)))
  let data0 := i2cReadByte W read.2
  let data1 := i2cReadByte W (i2cAck W data0.2)
  let data2 := i2cReadByte W (i2cAck W data1.2)
  ⟨write.1 = 0, command1.1 = 0, command2.1 = 0, read.1 = 0, data0.1, data1.1, data2.1⟩

/-- **What the call returns is what `mq135ReadCo2` makes of that.** -/
theorem readCo2_eq (b : β) (m : Mq135) :
    (Mq135.readCo2 W b m).1 = mq135ReadCo2 (Sgp30.ofWires W b) m := by
  rcases hwrite : sendAck W (sgp30Addr <<< 1) (i2cStart W b) with ⟨write, b₁⟩
  by_cases h₁ : write = 0
  swap
  · simp [readCo2_write hwrite h₁, mq135ReadCo2, Sgp30.ofWires, hwrite, h₁]
  subst h₁
  rcases hcommand1 : sendAck W (cmd sgp30MeasureCmd).1 b₁ with ⟨command1, b₂⟩
  by_cases h₂ : command1 = 0
  swap
  · simp [readCo2_command1 hwrite hcommand1 h₂, mq135ReadCo2, Sgp30.ofWires, hwrite, hcommand1, h₂]
  subst h₂
  rcases hcommand2 : sendAck W (cmd sgp30MeasureCmd).2 b₂ with ⟨command2, b₃⟩
  by_cases h₃ : command2 = 0
  swap
  · simp [readCo2_command2 hwrite hcommand1 hcommand2 h₃, mq135ReadCo2, Sgp30.ofWires, hwrite,
      hcommand1, hcommand2, h₃]
  subst h₃
  rcases hread : sendAck W (sgp30Addr <<< 1 ||| 0x01)
    (i2cStart W (W.delay 30000 (i2cStop W b₃))) with ⟨read, b₄⟩
  by_cases h₄ : read = 0
  swap
  · simp [readCo2_read hwrite hcommand1 hcommand2 hread h₄, mq135ReadCo2, Sgp30.ofWires, hwrite,
      hcommand1, hcommand2, hread, h₄]
  subst h₄
  rw [readCo2_data hwrite hcommand1 hcommand2 hread]
  simp only [Sgp30.ofWires, hwrite, hcommand1, hcommand2, hread, decide_true]

/-- The values of `n` cycles of the sensor task. -/
def co2Reads (period : ℕ) : ℕ → β → Mq135 → List UInt16
  | 0, _, _ => []
  | n + 1, b, m =>
    let read := Mq135.readCo2 W b m
    read.1.1 :: co2Reads period n (W.delay period read.2) read.1.2

/-- One cycle: the lines, and what the program remembers. -/
def co2Cycle (period : ℕ) (r : β × Mq135) : β × Mq135 :=
  let read := Mq135.readCo2 W r.1 r.2
  (W.delay period read.2, read.1.2)

/-- Each value is read where the cycles before have led. -/
theorem co2Reads_eq_map (period : ℕ) : ∀ (n : ℕ) (b : β) (m : Mq135),
    co2Reads W period n b m = (List.range n).map fun i =>
      let r := (co2Cycle W period)^[i] (b, m)
      (Mq135.readCo2 W r.1 r.2).1.1
  | 0, _, _ => rfl
  | n + 1, b, m => by
      rw [co2Reads, co2Reads_eq_map period n, List.range_succ_eq_map, List.map_cons, List.map_map]
      rfl

/-- What is returned is kept, and in the range of the sensor. -/
theorem mq135ReadCo2_range (bus : Sgp30) {m : Mq135}
    (hm : 400 ≤ m.lastValid ∧ m.lastValid ≤ 60000) :
    (400 ≤ (mq135ReadCo2 bus m).1 ∧ (mq135ReadCo2 bus m).1 ≤ 60000) ∧
      (mq135ReadCo2 bus m).2.lastValid = (mq135ReadCo2 bus m).1 := by
  rcases hbus : bus.fresh with _ | v
  · obtain ⟨hvalue, hkept⟩ := mq135ReadCo2_of_none hbus m
    rw [hvalue, hkept]
    exact ⟨hm, rfl⟩
  · rw [mq135ReadCo2_of_fresh hbus]
    rw [Sgp30.fresh, Option.ite_none_right_eq_some] at hbus
    obtain ⟨⟨-, -, -, -, hge, hle⟩, hv⟩ := hbus
    exact ⟨Option.some.inj hv ▸ ⟨hge, hle⟩, rfl⟩

/-- **Whatever is on the wires, no cycle has a value out of that range.** -/
theorem co2Reads_range (period : ℕ) : ∀ (n : ℕ) (b : β) {m : Mq135},
    400 ≤ m.lastValid ∧ m.lastValid ≤ 60000 →
      ∀ v ∈ co2Reads W period n b m, 400 ≤ v ∧ v ≤ 60000
  | 0, _, _, _, v, hv => absurd hv List.not_mem_nil
  | n + 1, b, m, hm, v, hv => by
      obtain ⟨hrange, hkept⟩ := mq135ReadCo2_range (Sgp30.ofWires W b) hm
      rw [← readCo2_eq] at hrange hkept
      rcases List.mem_cons.mp hv with rfl | hv
      · exact hrange
      · exact co2Reads_range period n _ (by rw [hkept]; exact hrange) v hv

/-- **On any wires, a call is a call of the driver of bytes**, with some acknowledges and some
bytes, and so no cycle of the sensor task from boot on has a value out of the range of the sensor.
-/
theorem mq135_onAnyWires :
    (∀ b m, (Mq135.readCo2 W b m).1 = mq135ReadCo2 (Sgp30.ofWires W b) m) ∧
      ∀ (b : β) (period n : ℕ), ∀ v ∈ co2Reads W period n b .boot, 400 ≤ v ∧ v ≤ 60000 :=
  ⟨readCo2_eq W, fun b period n => co2Reads_range W period n b ⟨by decide, by decide⟩⟩

end Driver

/-! ## The driver and a device -/

section Device

variable {α : Type} (P : Peripheral α) {s c : Bool} {p : Phase} {a : α}

/-- The bits that `I2C_SendByte` looks at, `n` of them. -/
def topBits : ℕ → UInt8 → List Bool
  | 0, _ => []
  | n + 1, txd => (txd &&& 0x80 ≠ 0) :: topBits n (txd <<< 1)

theorem topBits_eq (txd : UInt8) : topBits 8 txd = msbFirst txd := by
  have hall : ∀ n : Fin 256, topBits 8 (UInt8.ofNat n) = msbFirst (UInt8.ofNat n) := by
    decide +kernel
  have htxd := hall ⟨txd.toNat, txd.toNat_lt⟩
  rwa [UInt8.ofNat_toNat] at htxd

theorem sendBits_eq {β : Type} (W : Wires β) : ∀ (n : ℕ) (txd : UInt8) (b : β),
    sendBits W n txd b = (topBits n txd).foldl (W.clock 4) b
  | 0, _, _ => rfl
  | n + 1, txd, _ => sendBits_eq W n (txd <<< 1) _

/-- `receive <<= 1; receive++;` -/
theorem shiftIn_eq (receive : UInt8) (bit : Bool) :
    (if bit then receive <<< 1 + 1 else receive <<< 1) = shiftIn receive bit := by
  have hall : ∀ n : Fin 256, UInt8.ofNat n <<< (1 : UInt8) + 1 = shiftIn (UInt8.ofNat n) true := by
    decide +kernel
  have hreceive := hall ⟨receive.toNat, receive.toNat_lt⟩
  rw [UInt8.ofNat_toNat] at hreceive
  cases bit
  · exact (UInt8.or_zero).symm
  · exact hreceive

theorem receiveBits_eq {β : Type} (W : Wires β) : ∀ (n : ℕ) (receive : UInt8) (b : β),
    receiveBits W n receive b = W.samples 4 n receive b
  | 0, _, _ => rfl
  | n + 1, receive, b => by
      rw [receiveBits, Wires.samples, shiftIn_eq, receiveBits_eq W n]

/-- `I2C_Start` is noticed… -/
theorem i2cStart_noticed (hp : p.level = true) :
    i2cStart P.wires ⟨c, s, p, a⟩ = ⟨false, false, .receiving true [], a⟩ :=
  start_noticed P s c p a hp

/-- …or taken for a clock. -/
theorem i2cStart_missed (bit : Bool) (bits : List Bool) :
    i2cStart P.wires ⟨false, s, .sending (false :: bit :: bits), a⟩ =
      ⟨false, false, .sending (bit :: bits), a⟩ :=
  start_missed P s a bit bits

/-- `I2C_Stop`, with the clock low… -/
theorem i2cStop_low (hp : p.level = true) :
    i2cStop P.wires ⟨false, s, p, a⟩ = ⟨true, true, .idle, a⟩ :=
  wires_stop P (p.rise false) a (by rw [Phase.level_rise, hp])

/-- …and with the clock high, where the data line falls first. -/
theorem i2cStop_high (hp : p.level = true) :
    i2cStop P.wires ⟨true, true, p, a⟩ = ⟨true, true, .idle, a⟩ := by
  have hstart := wires_start P p a hp
  simp only [i2cStop, wires_delay, hstart, wires_scl_same]
  exact wires_stop P _ a rfl

theorem waitLow_high {l : Lines α} (h : l.level = true) : ∀ n, waitLow P.wires n l = (false, l)
  | 0 => rfl
  | n + 1 => by
      rw [waitLow, wires_read, if_pos h]
      exact waitLow_high h n

/-- A device that holds the data line low acknowledges… -/
theorem i2cWaitAck_low (hp : p.level = false) : i2cWaitAck P.wires ⟨false, s, p, a⟩ =
    (0, ⟨false, true, (P.fall (p.rise false) a).1, (P.fall (p.rise false) a).2⟩) := by
  have hlow : waitLow P.wires 251 ⟨true, true, p.rise false, a⟩ =
      (true, ⟨true, true, p.rise false, a⟩) := by
    rw [waitLow, wires_read, if_neg]
    rw [level_mk, Phase.level_rise, hp]
    exact Bool.false_ne_true
  simp only [i2cWaitAck, wires_sda_low, wires_delay, wires_rise, hp, Bool.and_false, hlow, if_true,
    wires_fall]

/-- …and one that does not is left with a stop. -/
theorem i2cWaitAck_high (hp : p.level = true) :
    i2cWaitAck P.wires ⟨false, s, p, a⟩ = (1, ⟨true, true, .idle, a⟩) := by
  have hhigh := waitLow_high P (l := ⟨true, true, p.rise true, a⟩)
    (by rw [level_mk, Phase.level_rise, hp]; rfl) 251
  have hstop := i2cStop_high P (p := p.rise true) (a := a) (by rw [Phase.level_rise, hp])
  simp only [i2cWaitAck, wires_sda_low, wires_delay, wires_rise, hp, Bool.and_self, hhigh,
    Bool.false_eq_true, if_false, hstop]

/-- **A byte that the device acknowledges.** -/
theorem sendAck_taken (s first : Bool) (byte : UInt8) (sends : Bool) {a' : α}
    (h : P.take first byte a = (.acknowledging sends, a')) :
    sendAck P.wires byte ⟨false, s, .receiving first [], a⟩ =
      (0, ⟨false, true, (P.fall (.acknowledging sends) a').1,
        (P.fall (.acknowledging sends) a').2⟩) := by
  obtain ⟨s', hbyte⟩ := clocks_byte P s a 4 first byte
  rw [sendAck, i2cSendByte, wires_scl_same, sendBits_eq, topBits_eq, hbyte, h, i2cWaitAck_low P rfl]
  rfl

/-- A byte that goes by while the device is sending, with a low bit for an acknowledge: what the
program takes for one is the highest bit of the next byte. -/
theorem sendAck_through (s : Bool) {held : List Bool} (hheld : held.length = 7) (byte : UInt8)
    (hbyte : byte.toNat.testBit 0 = false) :
    sendAck P.wires byte ⟨false, s, .sending held, a⟩ =
      i2cWaitAck P.wires ⟨false, false, (P.send a).1, (P.send a).2⟩ := by
  obtain ⟨s', hthrough⟩ := clocks_through P s a 4 hheld hbyte
  rw [sendAck, i2cSendByte, wires_scl_same, sendBits_eq, topBits_eq, hthrough]
  rfl

/-- **`I2C_ReadByte` reads what the device sends**… -/
theorem i2cReadByte_sending (byte : UInt8) :
    i2cReadByte P.wires ⟨false, s, .sending (msbFirst byte), a⟩ =
      (byte, ⟨false, true, .released false, a⟩) := by
  have hne : msbFirst byte ≠ [] := fun h => by
    have hlen := length_msbFirst byte
    rw [h] at hlen
    cases hlen
  obtain ⟨hread, hend⟩ := samples_sending P a 4 (msbFirst byte) 0
    ⟨false, true, .sending (msbFirst byte), a⟩ hne (wires_scl_same P true false _ a)
  rw [length_msbFirst] at hread hend
  rw [i2cReadByte, receiveBits_eq, wires_sda_low]
  simp only [hread, hend, foldl_shiftIn_msbFirst]

/-- …and with `I2C_Ack` the device goes on to its next byte. -/
theorem i2cAck_released {more : Bool} :
    i2cAck P.wires ⟨false, s, .released more, a⟩ = ⟨false, false, (P.send a).1, (P.send a).2⟩ := rfl

end Device

end GrainWarehouse

import GrainWarehouse.Machinery.Polling
import GrainWarehouse.Actuator.Cycle

/-!
# Sensor/Dht11 — reading forty bits off one wire

The sensor writes a bit as a stretch of low level and one of high level, and the length of the
latter tells `0` from `1`.  `DHT11_Read_Bit` looks at the line every microsecond, and once more
forty microseconds after it has found the rising edge; its delays end when the scheduler lets
them.

`Carries` says what a sensor may do: it is the data sheet with the lateness of the reader taken into
account, and **whatever it transmits so is what `dht11ReadData` is given** (`dht11_reads`).
-/

namespace GrainWarehouse

/-- A microsecond, in units of the clock. -/
abbrev us : ℕ := 1000

/-! ## The driver -/

/-- `delay_ms`. -/
def delayMs (n : ℕ) (w : Watch) : Watch := (Watch.delay (1000 * us))^[n] w

/-- `DHT11_Rst`: the line is pulled low for 20 ms, and released for 30 µs. -/
def Dht11.rst (w : Watch) : Watch := (delayMs 20 w).delay (30 * us)

/-- `DHT11_Check`: `1` if there is no answer. -/
def Dht11.check (line : ℕ → Bool) (w : Watch) : UInt8 × Watch :=
  let high := w.await line true us 100
  if ¬ high.1 then (1, high.2)
  else
    let low := high.2.await line false us 100
    if ¬ low.1 then (1, low.2) else (0, low.2)

/-- `DHT11_Read_Bit`: it goes on even if an edge has not come. -/
def Dht11.readBit (line : ℕ → Bool) (w : Watch) : Bool × Watch :=
  let high := w.await line true us 100
  let low := high.2.await line false us 100
  let sample := low.2.delay (40 * us)
  (line sample.now, sample)

/-- The loop of `DHT11_Read_Byte`, `n` bits left. -/
def Dht11.readBits (line : ℕ → Bool) : ℕ → UInt8 → Watch → UInt8 × Watch
  | 0, dat, w => (dat, w)
  | n + 1, dat, w =>
    let bit := Dht11.readBit line w
    Dht11.readBits line n (shiftIn dat bit.1) bit.2

/-- `DHT11_Read_Byte`. -/
def Dht11.readByte (line : ℕ → Bool) (w : Watch) : UInt8 × Watch := Dht11.readBits line 8 0 w

/-- The loop of `DHT11_Read_Data`, `n` bytes left. -/
def Dht11.readBytes (line : ℕ → Bool) : ℕ → Watch → List UInt8 × Watch
  | 0, w => ([], w)
  | n + 1, w =>
    let byte := Dht11.readByte line w
    let rest := Dht11.readBytes line n byte.2
    (byte.1 :: rest.1, rest.2)

/-- The check of the sum, in `int`. -/
def sumRight (buf : List UInt8) : Bool :=
  (buf.getD 0 0).toNat + (buf.getD 1 0).toNat + (buf.getD 2 0).toNat + (buf.getD 3 0).toNat =
    (buf.getD 4 0).toNat

/-- `DHT11_Read_Data`: what it returns, and `*temp` and `*humi` after it.  A wrong sum is not an
error. -/
def Dht11.readData (line : ℕ → Bool) (temp humi : UInt8) (w : Watch) :
    (UInt8 × UInt8 × UInt8) × Watch :=
  let check := Dht11.check line (Dht11.rst w)
  if check.1 = 0 then
    let buf := Dht11.readBytes line 5 check.2
    if sumRight buf.1 then ((0, buf.1.getD 2 0, buf.1.getD 0 0), buf.2)
    else ((0, temp, humi), buf.2)
  else ((1, temp, humi), check.2)

/-! ## The sensor -/

/-- The line is at this level from one moment to another. -/
def Holds (line : ℕ → Bool) (level : Bool) (from' to' : ℕ) : Prop :=
  ∀ t, from' ≤ t → t < to' → line t = level

/-- How long a low level lasts at least: a look is taken at most this much behind an edge. -/
abbrev lowTime (slack : ℕ) : ℕ := 21 * us + 2 * slack

/-- **Bits on the line from `t` on**, readable for a program whose delays end up to `slack` late.
The data sheet has 50 µs of low level for each bit, 26 to 28 µs of high level for a `0`, and 70 µs
for a `1`. -/
inductive Carries (slack : ℕ) (line : ℕ → Bool) : ℕ → List Bool → Prop
  | done {t low : ℕ} (hlow : lowTime slack ≤ low) (hold : Holds line false t (t + low)) :
      Carries slack line t []
  | bit {t low high : ℕ} {b : Bool} {bits : List Bool} (hlow : lowTime slack ≤ low)
      (hlow' : low ≤ 99 * us) (hold : Holds line false t (t + low))
      (hhigh : us + slack ≤ high) (hzero : b = false → 20 * us ≤ high ∧ high ≤ 40 * us)
      (hone : b = true → 41 * us + 2 * slack ≤ high ∧ high ≤ 99 * us)
      (hold' : Holds line true (t + low) (t + low + high))
      (rest : Carries slack line (t + low + high) bits) : Carries slack line t (b :: bits)

/-- **The answer of a sensor that is released at `t`**: after 20 to 40 µs it pulls the line low for
80 µs, lets it rise for as long, and transmits its bytes. -/
structure Answers (slack : ℕ) (line : ℕ → Bool) (t : ℕ) (bytes : List UInt8) : Prop where
  answer : ∃ wait low high, wait ≤ 129 * us ∧ us + slack ≤ low ∧ low ≤ 99 * us ∧
    30 * us + slack < wait + low ∧ us + slack ≤ high ∧ high ≤ 99 * us ∧
    Holds line true t (t + wait) ∧ Holds line false (t + wait) (t + wait + low) ∧
    Holds line true (t + wait + low) (t + wait + low + high) ∧
    Carries slack line (t + wait + low + high) (bytes.flatMap msbFirst)

theorem Carries.low {slack : ℕ} {line : ℕ → Bool} {t : ℕ} {bits : List Bool}
    (h : Carries slack line t bits) : Holds line false t (t + lowTime slack) := by
  cases h with
  | done hlow hold => exact fun u hu hu' => hold u hu (by omega)
  | bit hlow hlow' hold => exact fun u hu hu' => hold u hu (by omega)

/-- **The reader is in time for the low level that begins at `t`.** -/
structure Ready (slack : ℕ) (line : ℕ → Bool) (t : ℕ) (w : Watch) : Prop where
  late : w.Late slack
  high : Holds line true w.now t
  soon : t ≤ w.now + 99 * us
  early : w.now < t + lowTime slack

/-! ## Reading -/

section Reading

variable {slack : ℕ} {line : ℕ → Bool}

/-- The edge to a level that holds for a while is found. -/
theorem await_holds {level : Bool} {edge length : ℕ} {w : Watch} (hlate : w.Late slack)
    (hpre : Holds line level w.now edge) (hsoon : edge ≤ w.now + 99 * us) (hle : w.now ≤ edge)
    (hpost : Holds line (!level) edge (edge + length)) (hlength : us + slack ≤ length) :
    ∃ w' : Watch, w.await line level us 100 = (true, w') ∧ w'.Late slack ∧ edge ≤ w'.now ∧
      w'.now < edge + (us + slack) := by
  have hne (t : ℕ) (ht : edge ≤ t) (ht' : t < edge + (us + slack)) : line t ≠ level := by
    rw [hpost t ht (by omega)]
    exact Bool.not_ne_self level
  obtain ⟨hfound, hge, hlt⟩ := Watch.await_edge hne (by decide) 99 hlate hle hpre hsoon
  exact ⟨_, Prod.ext hfound rfl, (hlate.spends_await line level us 100).late, hge, hlt⟩

/-- **A bit is read**, and the reader is in time for the next one. -/
theorem readBit_carries {t : ℕ} {w : Watch} {b : Bool} {bits : List Bool}
    (hw : Ready slack line t w) (h : Carries slack line t (b :: bits)) :
    ∃ t', Carries slack line t' bits ∧ (Dht11.readBit line w).1 = b ∧
      Ready slack line t' (Dht11.readBit line w).2 := by
  have hus : us = 1000 := rfl
  have hlowTime : lowTime slack = 21 * us + 2 * slack := rfl
  cases h with
  | @bit t low high b bits hlow hlow' hold hhigh hzero hone hold' rest =>
    -- the falling edge may have come already
    obtain ⟨w₁, hfall, hlate₁, hge₁, hlt₁⟩ : ∃ w₁ : Watch, w.await line true us 100 = (true, w₁) ∧
        w₁.Late slack ∧ t ≤ w₁.now ∧ w₁.now < t + low := by
      rcases Nat.lt_or_ge w.now t with hbefore | hafter
      · obtain ⟨w₁, heq, hlate, hge, hlt⟩ :=
          await_holds hw.late hw.high hw.soon hbefore.le hold (by omega)
        exact ⟨w₁, heq, hlate, hge, by omega⟩
      · have hnow := hw.early
        refine ⟨w, Watch.await_of_ne ?_ 99, hw.late, hafter, by omega⟩
        rw [hold w.now hafter (by omega)]
        exact Bool.false_ne_true
    obtain ⟨w₂, hrise, hlate₂, hge₂, hlt₂⟩ := await_holds hlate₁
      (fun u hu hu' => hold u (by omega) hu') (by omega) (by omega) hold' hhigh
    have hbit : Dht11.readBit line w =
        (line (w₂.delay (40 * us)).now, w₂.delay (40 * us)) := by
      simp only [Dht11.readBit, hfall, hrise]
    have hsample := hlate₂.now_delay (40 * us)
    have hlate₃ := hlate₂.delay (40 * us)
    rw [hbit]
    generalize w₂.delay (40 * us) = sample at hsample hlate₃
    cases b with
    | false =>
      -- the level has fallen, and the next bit has begun
      obtain ⟨hmin, hmax⟩ := hzero rfl
      have hready : Ready slack line (t + low + high) sample :=
        ⟨hlate₃, fun u hu hu' => by omega, by omega, by omega⟩
      exact ⟨t + low + high, rest, rest.low sample.now (by omega) (by omega), hready⟩
    | true =>
      obtain ⟨hmin, hmax⟩ := hone rfl
      have hready : Ready slack line (t + low + high) sample :=
        ⟨hlate₃, fun u hu hu' => hold' u (by omega) hu', by omega, by omega⟩
      exact ⟨t + low + high, rest, hold' sample.now (by omega) (by omega), hready⟩

/-- …and so are the bits of a byte, one shifted in behind the other… -/
theorem readBits_carries : ∀ {bits rest : List Bool} {t : ℕ} {w : Watch} (dat : UInt8),
    Ready slack line t w → Carries slack line t (bits ++ rest) →
      ∃ t', Carries slack line t' rest ∧
        (Dht11.readBits line bits.length dat w).1 = bits.foldl shiftIn dat ∧
        Ready slack line t' (Dht11.readBits line bits.length dat w).2
  | [], _, t, _, _, hw, h => ⟨t, h, rfl, hw⟩
  | b :: bits, rest, t, w, dat, hw, h => by
      obtain ⟨t₁, hrest, hbit, hw₁⟩ := readBit_carries hw h
      obtain ⟨t₂, hrest₂, hbits, hw₂⟩ := readBits_carries (shiftIn dat b) hw₁ hrest
      refine ⟨t₂, hrest₂, ?_, ?_⟩
      · rw [List.length_cons, Dht11.readBits, hbit, hbits, List.foldl_cons]
      · rw [List.length_cons, Dht11.readBits, hbit]
        exact hw₂

/-- …and the bytes. -/
theorem readBytes_carries : ∀ {bytes : List UInt8} {t : ℕ} {w : Watch}, Ready slack line t w →
    Carries slack line t (bytes.flatMap msbFirst) →
      (Dht11.readBytes line bytes.length w).1 = bytes
  | [], _, _, _, _ => rfl
  | b :: bytes, t, w, hw, h => by
      rw [List.flatMap_cons] at h
      obtain ⟨t₁, hrest, hbyte, hw₁⟩ := readBits_carries 0 hw h
      rw [length_msbFirst, foldl_shiftIn_msbFirst] at hbyte
      rw [length_msbFirst] at hw₁
      rw [List.length_cons, Dht11.readBytes, Dht11.readByte, hbyte]
      dsimp only
      rw [readBytes_carries hw₁ hrest]

/-- **A sensor that answers is found**, and the reader is in time for its first bit. -/
theorem check_answers {bytes : List UInt8} {w : Watch} (hlate : w.Late slack)
    (h : Answers slack line w.now bytes) : ∃ t,
      (Dht11.check line (w.delay (30 * us))).1 = 0 ∧
      Carries slack line t (bytes.flatMap msbFirst) ∧
      Ready slack line t (Dht11.check line (w.delay (30 * us))).2 := by
  obtain ⟨wait, low, high, hwait, hlow, hlow', hreach, hhigh, hhigh', hold, hold', hold'', hbits⟩ :=
    h.answer
  have hus : us = 1000 := rfl
  have hlowTime : lowTime slack = 21 * us + 2 * slack := rfl
  have hstart := hlate.now_delay (30 * us)
  have hlate₀ := hlate.delay (30 * us)
  generalize w.delay (30 * us) = w₀ at hstart hlate₀
  obtain ⟨w₁, hfall, hlate₁, hge₁, hlt₁⟩ : ∃ w₁ : Watch, w₀.await line true us 100 = (true, w₁) ∧
      w₁.Late slack ∧ w.now + wait ≤ w₁.now ∧ w₁.now < w.now + wait + low := by
    rcases Nat.lt_or_ge w₀.now (w.now + wait) with hbefore | hafter
    · obtain ⟨w₁, heq, hlate₁, hge, hlt⟩ := await_holds hlate₀
        (fun u hu hu' => hold u (by omega) hu') (by omega) hbefore.le hold' (by omega)
      exact ⟨w₁, heq, hlate₁, hge, by omega⟩
    · refine ⟨w₀, Watch.await_of_ne ?_ 99, hlate₀, hafter, by omega⟩
      rw [hold' w₀.now hafter (by omega)]
      exact Bool.false_ne_true
  obtain ⟨w₂, hrise, hlate₂, hge₂, hlt₂⟩ := await_holds hlate₁
    (fun u hu hu' => hold' u (by omega) hu') (by omega) (by omega) hold'' hhigh
  have hcheck : Dht11.check line w₀ = (0, w₂) := by
    simp only [Dht11.check, hfall, hrise, not_true_eq_false, if_false]
  have hready : Ready slack line (w.now + wait + low + high) w₂ :=
    ⟨hlate₂, fun u hu hu' => hold'' u (by omega) hu', by omega, by omega⟩
  rw [hcheck]
  exact ⟨_, rfl, hbits, hready⟩

end Reading

/-! ## How long it takes -/

section Time

variable {slack : ℕ}

theorem spends_delayMs : ∀ (n : ℕ) {w : Watch}, w.Late slack →
    w.Spends slack (n * (1000 * us + slack)) (delayMs n w)
  | 0, _, h => ⟨h, Nat.le_add_right _ _⟩
  | n + 1, w, h => by
      have hrest := (h.spends_delay (1000 * us)).trans (spends_delayMs n (h.delay (1000 * us)))
      rw [delayMs, Function.iterate_succ_apply, Nat.add_comm n 1, Nat.add_mul, Nat.one_mul]
      exact hrest

/-- What a bit takes at most: two waits and a delay. -/
def bitTime (slack : ℕ) : ℕ := 100 * (us + slack) + 100 * (us + slack) + (40 * us + slack)

variable (line : ℕ → Bool)

theorem spends_readBit {w : Watch} (h : w.Late slack) :
    w.Spends slack (bitTime slack) (Dht11.readBit line w).2 := by
  have hfall := h.spends_await line true us 100
  have hrise := hfall.late.spends_await line false us 100
  exact (hfall.trans hrise).trans (hrise.late.spends_delay (40 * us))

theorem spends_readBits : ∀ (n : ℕ) (dat : UInt8) {w : Watch}, w.Late slack →
    w.Spends slack (n * bitTime slack) (Dht11.readBits line n dat w).2
  | 0, _, _, h => ⟨h, Nat.le_add_right _ _⟩
  | n + 1, dat, w, h => by
      have hbit := spends_readBit line h
      rw [Nat.add_comm n 1, Nat.add_mul, Nat.one_mul, Nat.add_comm 1 n]
      exact hbit.trans (spends_readBits n (shiftIn dat (Dht11.readBit line w).1) hbit.late)

theorem spends_readBytes : ∀ (n : ℕ) {w : Watch}, w.Late slack →
    w.Spends slack (n * (8 * bitTime slack)) (Dht11.readBytes line n w).2
  | 0, _, h => ⟨h, Nat.le_add_right _ _⟩
  | n + 1, w, h => by
      have hbyte := spends_readBits line 8 0 h
      rw [Nat.add_comm n 1, Nat.add_mul, Nat.one_mul, Nat.add_comm 1 n]
      exact hbyte.trans (spends_readBytes n hbyte.late)

theorem spends_check {w : Watch} (h : w.Late slack) :
    w.Spends slack (100 * (us + slack) + 100 * (us + slack)) (Dht11.check line w).2 := by
  have hfall := h.spends_await line true us 100
  have hrise := hfall.late.spends_await line false us 100
  simp only [Dht11.check]
  split_ifs
  · exact hfall.trans hrise
  · exact hfall.trans hrise
  · exact ⟨hfall.late, hfall.now.trans (by omega)⟩

/-- What `DHT11_Read_Data` takes at most. -/
def readTime (slack : ℕ) : ℕ :=
  20 * (1000 * us + slack) + (30 * us + slack) + (100 * (us + slack) + 100 * (us + slack)) +
    5 * (8 * bitTime slack)

/-- **The call ends in time, whatever is on the line**, if nothing at all. -/
theorem spends_readData (temp humi : UInt8) {w : Watch} (h : w.Late slack) :
    w.Spends slack (readTime slack) (Dht11.readData line temp humi w).2 := by
  have hrst := (spends_delayMs 20 h).trans ((spends_delayMs 20 h).late.spends_delay (30 * us))
  have hcheck := hrst.trans (spends_check line hrst.late)
  have hread := hcheck.trans (spends_readBytes line 5 hcheck.late)
  simp only [Dht11.readData]
  split_ifs
  · exact hread
  · exact hread
  · exact ⟨hcheck.late, hcheck.now.trans (Nat.add_le_add_left (Nat.le_add_right _ _) _)⟩

end Time

/-! ## What is returned -/

/-- The moment at which `DHT11_Read_Data` releases the line. -/
def released (w : Watch) : Watch := delayMs 20 w

/-- The bytes of a transmission. -/
def Dht11.bytes (bus : Dht11) : List UInt8 := [bus.buf0, bus.buf1, bus.buf2, bus.buf3, bus.buf4]

/-- What the reader makes of the line. -/
def Dht11.ofLine (line : ℕ → Bool) (w : Watch) : Dht11 :=
  let check := Dht11.check line (Dht11.rst w)
  let buf := (Dht11.readBytes line 5 check.2).1
  ⟨check.1 = 0, buf.getD 0 0, buf.getD 1 0, buf.getD 2 0, buf.getD 3 0, buf.getD 4 0⟩

/-- The call returns what the bits it has seen stand for… -/
theorem readData_eq (line : ℕ → Bool) (temp humi : UInt8) (w : Watch) :
    (Dht11.readData line temp humi w).1 = dht11ReadData (Dht11.ofLine line w) temp humi := by
  by_cases hcheck : (Dht11.check line (Dht11.rst w)).1 = 0
  · simp only [Dht11.readData, dht11ReadData, Dht11.ofLine, sumRight, hcheck, decide_true, if_true,
      decide_eq_true_eq, apply_ite Prod.fst]
  · simp only [Dht11.readData, dht11ReadData, Dht11.ofLine, hcheck, decide_false, if_false,
      Bool.false_eq_true]

/-- …which are those of the sensor… -/
theorem ofLine_answers {slack : ℕ} {line : ℕ → Bool} {w : Watch} (hlate : w.Late slack)
    {bus : Dht11} (hbus : bus.answers = true)
    (h : Answers slack line (released w).now bus.bytes) : Dht11.ofLine line w = bus := by
  obtain ⟨t, hcheck, hbits, hready⟩ := check_answers (spends_delayMs 20 hlate).late h
  have hbytes : (Dht11.readBytes line 5 (Dht11.check line (Dht11.rst w)).2).1 = bus.bytes :=
    readBytes_carries hready hbits
  have hcheck' : (Dht11.check line (Dht11.rst w)).1 = 0 := hcheck
  simp only [Dht11.ofLine, hbytes, hcheck', decide_true]
  rw [← hbus]
  rfl

/-- …and nothing at all, if the line does not move. -/
theorem ofLine_dead {line : ℕ → Bool} {w : Watch} {level : Bool}
    (h : ∀ u, (released w).now ≤ u → line u = level) : (Dht11.ofLine line w).answers = false := by
  have hle := (released w).now_le_delay (30 * us)
  change decide ((Dht11.check line ((released w).delay (30 * us))).1 = 0) = false
  cases level with
  | true =>
    -- it is not pulled low
    have hfall := Watch.await_of_eq us (fun u hu => h u (hle.trans hu)) 100
    simp [Dht11.check, hfall]
  | false =>
    -- it is low, and does not rise
    have hfall : Watch.await line true us 100 ((released w).delay (30 * us)) =
        (true, (released w).delay (30 * us)) :=
      Watch.await_of_ne (by rw [h _ hle]; exact Bool.false_ne_true) 99
    have hrise := Watch.await_of_eq us (fun u hu => h u (hle.trans hu)) 100
    simp [Dht11.check, hfall, hrise]

/-- **The sensor task reads what the sensor transmits**, however the delays of the reader end up to
`slack` late: a call returns, in time, what the driver of bytes returns for some transmission, which
is the one of the sensor if it answers, and none if the line does not move. -/
theorem dht11_reads {slack : ℕ} {w : Watch} (hlate : w.Late slack) (line : ℕ → Bool) :
    ∃ bus : Dht11,
      (∀ temp humi, (Dht11.readData line temp humi w).1 = dht11ReadData bus temp humi ∧
        (Dht11.readData line temp humi w).2.now ≤ w.now + readTime slack) ∧
      (∀ sensor : Dht11, sensor.answers = true →
        Answers slack line (released w).now sensor.bytes → bus = sensor) ∧
      ∀ level, (∀ u, (released w).now ≤ u → line u = level) → bus.answers = false :=
  ⟨Dht11.ofLine line w,
    fun temp humi => ⟨readData_eq line temp humi w, (spends_readData line temp humi hlate).now⟩,
    fun _ => ofLine_answers hlate, fun _ => ofLine_dead⟩

/-! ## A sensor by the data sheet -/

/-- A line that takes these levels one after the other, and is pulled up then. -/
def waveAt : List (Bool × ℕ) → ℕ → Bool
  | [], _ => true
  | (level, length) :: wave, t => if t < length then level else waveAt wave (t - length)

/-- A bit by the data sheet. -/
def bitWave (b : Bool) : List (Bool × ℕ) :=
  [(false, 50 * us), (true, if b then 70 * us else 27 * us)]

/-- The answer of a sensor by the data sheet, released at `t`. -/
def sensorLine (t : ℕ) (bytes : List UInt8) (u : ℕ) : Bool :=
  waveAt ([(true, 30 * us), (false, 80 * us), (true, 80 * us)] ++
    ((bytes.flatMap msbFirst).flatMap bitWave ++ [(false, 50 * us)])) (u - t)

theorem waveAt_of_lt {level : Bool} {length t : ℕ} {wave : List (Bool × ℕ)} (h : t < length) :
    waveAt ((level, length) :: wave) t = level := if_pos h

theorem waveAt_of_le {level : Bool} {length t : ℕ} {wave : List (Bool × ℕ)} (h : length ≤ t) :
    waveAt ((level, length) :: wave) t = waveAt wave (t - length) := if_neg (Nat.not_lt.mpr h)

/-- What a wave shows is its first level, and what the rest of it shows then. -/
theorem holds_waveAt {line : ℕ → Bool} {t length : ℕ} {level : Bool} {wave : List (Bool × ℕ)}
    (h : ∀ u, t ≤ u → line u = waveAt ((level, length) :: wave) (u - t)) :
    Holds line level t (t + length) ∧
      ∀ u, t + length ≤ u → line u = waveAt wave (u - (t + length)) := by
  refine ⟨fun u hu hu' => ?_, fun u hu => ?_⟩
  · rw [h u hu]
    exact waveAt_of_lt (by omega)
  · rw [h u (by omega), waveAt_of_le (by omega), Nat.sub_sub]

/-- Its bits can be read by a program whose delays end up to 14 µs late… -/
theorem carries_bitWave {slack : ℕ} (hslack : slack ≤ 14 * us) {line : ℕ → Bool} :
    ∀ {bits : List Bool} {t : ℕ},
      (∀ u, t ≤ u → line u = waveAt (bits.flatMap bitWave ++ [(false, 50 * us)]) (u - t)) →
        Carries slack line t bits
  | [], t, h => by
      have hlow : lowTime slack ≤ 50 * us := by
        simp only [lowTime]
        omega
      exact .done hlow (holds_waveAt h).1
  | b :: bits, t, h => by
      have hus : us = 1000 := rfl
      have hlowTime : lowTime slack = 21 * us + 2 * slack := rfl
      obtain ⟨hlow, h₁⟩ := holds_waveAt h
      obtain ⟨hhigh, h₂⟩ := holds_waveAt h₁
      refine .bit (by omega) (by omega) hlow ?_ (fun hb => ?_) (fun hb => ?_) hhigh
        (carries_bitWave hslack h₂)
      · split
        · omega
        · omega
      · subst hb
        exact ⟨by decide, by decide⟩
      · subst hb
        rw [if_pos rfl]
        exact ⟨by omega, by decide⟩

/-- …and so can its bytes. -/
theorem answers_sensorLine {slack : ℕ} (hslack : slack ≤ 14 * us) (t : ℕ) (bytes : List UInt8) :
    Answers slack (sensorLine t bytes) t bytes := by
  have hus : us = 1000 := rfl
  have h₀ : ∀ u, t ≤ u → sensorLine t bytes u = waveAt ((true, 30 * us) :: (false, 80 * us) ::
      (true, 80 * us) :: ((bytes.flatMap msbFirst).flatMap bitWave ++ [(false, 50 * us)]))
        (u - t) :=
    fun u _ => rfl
  obtain ⟨hwait, h₁⟩ := holds_waveAt h₀
  obtain ⟨hlow, h₂⟩ := holds_waveAt h₁
  obtain ⟨hhigh, h₃⟩ := holds_waveAt h₂
  exact ⟨30 * us, 80 * us, 80 * us, by omega, by omega, by omega, by omega, by omega, by omega,
    hwait, hlow, hhigh, carries_bitWave hslack h₃⟩

/-- 24 degrees and 60 percent, read with every seventh delay 14 µs late. -/
theorem dht11_reads_late :
    (Dht11.readData (sensorLine (released ⟨0, fun i => if i % 7 = 0 then 14 * us else 0⟩).now
      [60, 0, 24, 0, 84]) 0 0 ⟨0, fun i => if i % 7 = 0 then 14 * us else 0⟩).1 = (0, 24, 60) := by
  have hlate : Watch.Late (14 * us) ⟨0, fun i => if i % 7 = 0 then 14 * us else 0⟩ := fun i => by
    change (if i % 7 = 0 then 14 * us else 0) ≤ 14 * us
    split
    · exact le_rfl
    · exact Nat.zero_le _
  obtain ⟨bus, hread, hbus, -⟩ := dht11_reads hlate (sensorLine _ [60, 0, 24, 0, 84])
  rw [(hread 0 0).1, hbus ⟨true, 60, 0, 24, 0, 84⟩ rfl (answers_sensorLine le_rfl _ _)]
  decide

end GrainWarehouse

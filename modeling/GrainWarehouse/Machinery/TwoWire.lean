import GrainWarehouse.Machinery.Polling

/-!
# Machinery/TwoWire — a clock line and a data line

The two lines are open: each is high unless somebody pulls it low.  `Wires` is what a program can do
with them; `Peripheral` is a device byte by byte, and `Peripheral.wires` puts it on the lines.  It
follows the rules of the bus: the data line changes while the clock is low, but for the start and
the stop of a transfer; a bit counts when the clock rises; the ninth clock of a byte is for the
acknowledge of the one who has received it.

**A start is noticed exactly if the device lets go of the data line** (`start_noticed`,
`start_missed`): one that is still sending takes it for a clock.
-/

namespace GrainWarehouse

/-- What a program can do with the lines: let a line go (`true`) or pull it low, wait, and look at
the data line. -/
structure Wires (β : Type) where
  scl : Bool → β → β
  sda : Bool → β → β
  delay : ℕ → β → β
  read : β → Bool × β

namespace Wires

variable {β : Type} (W : Wires β)

/-- A bit of the program, and a clock for it. -/
def clock (period : ℕ) (b : β) (bit : Bool) : β :=
  W.scl false (W.delay period (W.scl true (W.delay period (W.sda bit b))))

/-- A clock, and a look at the data line while it is high.  It is left high. -/
def sample (period : ℕ) (b : β) : Bool × β :=
  let level := W.read (W.scl true (W.delay period (W.scl false b)))
  (level.1, W.delay period level.2)

end Wires

/-! ## A device on the bus -/

/-- A device, byte by byte. -/
structure Peripheral (α : Type) where
  /-- An address, with the direction in its lowest bit; whether the device acknowledges it. -/
  call : UInt8 → α → Bool × α
  /-- A byte for the device, and whether it acknowledges that. -/
  write : UInt8 → α → Bool × α
  /-- The next byte of the device. -/
  next : α → UInt8 × α

/-- Where a device is in a transfer. -/
inductive Phase
  | idle
  /-- These bits of a byte have come, of the first one or of another. -/
  | receiving (first : Bool) (bits : List Bool)
  /-- It pulls the data line low for the ninth clock, and sends after that, or receives. -/
  | acknowledging (sends : Bool)
  /-- The first of these bits is on the line. -/
  | sending (bits : List Bool)
  /-- It waits for the acknowledge of a byte that it has sent; whether there is one. -/
  | released (more : Bool)
  deriving DecidableEq

namespace Phase

/-- The level to which the device leaves the data line. -/
def level : Phase → Bool
  | acknowledging _ => false
  | sending bits => bits.headD true
  | idle | receiving _ _ | released _ => true

/-- The clock rises. -/
def rise (sda : Bool) : Phase → Phase
  | idle => idle
  | receiving first bits => receiving first (bits ++ [sda])
  | acknowledging sends => acknowledging sends
  | sending bits => sending bits
  | released _ => released (!sda)

@[simp] theorem level_rise (sda : Bool) (p : Phase) : (p.rise sda).level = p.level := by
  cases p <;> rfl

end Phase

namespace Peripheral

variable {α : Type} (P : Peripheral α)

/-- The device has received a byte: the first one of a transfer is the address. -/
def take (first : Bool) (byte : UInt8) (a : α) : Phase × α :=
  let taken := if first then P.call byte a else P.write byte a
  (if taken.1 then .acknowledging (first && byte &&& 1 = 1) else .idle, taken.2)

/-- The device starts to send its next byte. -/
def send (a : α) : Phase × α := (.sending (msbFirst (P.next a).1), (P.next a).2)

/-- The clock falls. -/
def fall : Phase → α → Phase × α
  | .idle, a => (.idle, a)
  | .receiving first bits, a =>
    if bits.length < 8 then (.receiving first bits, a)
    else P.take first (bits.foldl shiftIn 0) a
  | .acknowledging sends, a => if sends then P.send a else (.receiving false [], a)
  | .sending bits, a =>
    if bits.tail = [] then (.released false, a) else (.sending bits.tail, a)
  | .released more, a => if more then P.send a else (.idle, a)

end Peripheral

/-- The two lines as the program leaves them, and a device on them. -/
structure Lines (α : Type) where
  scl : Bool
  sda : Bool
  phase : Phase
  device : α

namespace Lines

variable {α : Type}

/-- The level of the data line. -/
def level (l : Lines α) : Bool := l.sda && l.phase.level

/-- The program lets the clock line go, or pulls it low. -/
def setScl (P : Peripheral α) (high : Bool) (l : Lines α) : Lines α :=
  match l.scl, high with
  | false, true => { l with scl := true, phase := l.phase.rise l.level }
  | true, false =>
    ⟨false, l.sda, (P.fall l.phase l.device).1, (P.fall l.phase l.device).2⟩
  | _, _ => l

/-- The program lets the data line go, or pulls it low.  While the clock is high, an edge of the
data line starts a transfer or stops it. -/
def setSda (high : Bool) (l : Lines α) : Lines α :=
  let l' := { l with sda := high }
  if l.scl = true ∧ l.level ≠ l'.level then
    { l' with phase := if high then .idle else .receiving true [] }
  else l'

end Lines

/-- The lines with this device on them. -/
def Peripheral.wires {α : Type} (P : Peripheral α) : Wires (Lines α) where
  scl := Lines.setScl P
  sda := Lines.setSda
  delay := fun _ l => l
  read := fun l => (l.level, l)

section Device

variable {α : Type} (P : Peripheral α) (s c : Bool) (p : Phase) (a : α)

@[simp] theorem wires_delay (n : ℕ) (l : Lines α) : P.wires.delay n l = l := rfl

@[simp] theorem wires_read (l : Lines α) : P.wires.read l = (l.level, l) := rfl

@[simp] theorem level_mk : (⟨c, s, p, a⟩ : Lines α).level = (s && p.level) := rfl

@[simp] theorem wires_rise :
    P.wires.scl true ⟨false, s, p, a⟩ = ⟨true, s, p.rise (s && p.level), a⟩ := rfl

@[simp] theorem wires_fall :
    P.wires.scl false ⟨true, s, p, a⟩ = ⟨false, s, (P.fall p a).1, (P.fall p a).2⟩ := rfl

@[simp] theorem wires_scl_same : P.wires.scl c ⟨c, s, p, a⟩ = ⟨c, s, p, a⟩ := by
  cases c <;> rfl

/-- While the clock is low, the data line is free to change. -/
@[simp] theorem wires_sda_low (high : Bool) :
    P.wires.sda high ⟨false, s, p, a⟩ = ⟨false, high, p, a⟩ := rfl

/-- **A start**: the data line falls while the clock is high… -/
theorem wires_start (hp : p.level = true) :
    P.wires.sda false ⟨true, true, p, a⟩ = ⟨true, false, .receiving true [], a⟩ := by
  simp [Peripheral.wires, Lines.setSda, Lines.level, hp]

/-- …**a stop**: it rises… -/
theorem wires_stop (hp : p.level = true) :
    P.wires.sda true ⟨true, false, p, a⟩ = ⟨true, true, .idle, a⟩ := by
  simp [Peripheral.wires, Lines.setSda, Lines.level, hp]

/-- …and neither of them, as long as the device holds the line. -/
theorem wires_sda_held (high : Bool) (hp : p.level = false) :
    P.wires.sda high ⟨true, s, p, a⟩ = ⟨true, high, p, a⟩ := by
  simp [Peripheral.wires, Lines.setSda, Lines.level, hp]

@[simp] theorem wires_sda_same : P.wires.sda s ⟨c, s, p, a⟩ = ⟨c, s, p, a⟩ := by
  simp [Peripheral.wires, Lines.setSda]

/-! ## Starts -/

variable (period : ℕ)

/-- **A start is noticed by a device that lets go of the data line**, wherever it is… -/
theorem start_noticed (hp : p.level = true) :
    P.wires.scl false (P.wires.sda false (P.wires.scl true (P.wires.sda true ⟨c, s, p, a⟩))) =
      ⟨false, false, .receiving true [], a⟩ := by
  cases c with
  | false =>
    rw [wires_sda_low, wires_rise, wires_start P _ a (by rw [Phase.level_rise, hp]), wires_fall]
    rfl
  | true =>
    have hhigh : ∃ q : Phase, q.level = true ∧
        P.wires.sda true ⟨true, s, p, a⟩ = ⟨true, true, q, a⟩ := by
      cases s with
      | true => exact ⟨p, hp, wires_sda_same P true true p a⟩
      | false => exact ⟨.idle, rfl, wires_stop P p a hp⟩
    obtain ⟨q, hq, hsda⟩ := hhigh
    rw [hsda, wires_scl_same, wires_start P q a hq, wires_fall]
    rfl

/-- …**and not by one that sends a low bit**, which goes on to its next bit. -/
theorem start_missed (bit : Bool) (bits : List Bool) :
    P.wires.scl false (P.wires.sda false (P.wires.scl true (P.wires.sda true
        ⟨false, s, .sending (false :: bit :: bits), a⟩))) =
      ⟨false, false, .sending (bit :: bits), a⟩ := by
  rw [wires_sda_low, wires_rise, wires_sda_held P _ _ _ _ rfl, wires_fall]
  rfl

/-! ## Clocks -/

/-- What a clock does to a device: it takes the bit, and goes on. -/
theorem clock_eq (bit : Bool) :
    P.wires.clock period ⟨false, s, p, a⟩ bit =
      ⟨false, bit, (P.fall (p.rise (bit && p.level)) a).1,
        (P.fall (p.rise (bit && p.level)) a).2⟩ := rfl

/-- The bits of a byte add up… -/
theorem clocks_receiving (first : Bool) : ∀ (bits pre : List Bool) (s : Bool),
    pre.length + bits.length < 8 →
      ∃ s', bits.foldl (P.wires.clock period) ⟨false, s, .receiving first pre, a⟩ =
        ⟨false, s', .receiving first (pre ++ bits), a⟩
  | [], pre, s, _ => ⟨s, by rw [List.append_nil]; rfl⟩
  | bit :: bits, pre, s, h => by
      rw [List.length_cons] at h
      have hlen : (pre ++ [bit]).length < 8 := by
        rw [List.length_append, List.length_singleton]
        omega
      obtain ⟨s', hrest⟩ := clocks_receiving first bits (pre ++ [bit]) bit (by
        rw [List.length_append, List.length_singleton]
        omega)
      refine ⟨s', ?_⟩
      have hclock : P.wires.clock period ⟨false, s, .receiving first pre, a⟩ bit =
          ⟨false, bit, .receiving first (pre ++ [bit]), a⟩ := by
        rw [clock_eq, Phase.level, Bool.and_true, Phase.rise, Peripheral.fall, if_pos hlen]
      rw [List.foldl_cons, hclock, hrest, List.append_assoc, List.singleton_append]

/-- …**and with the eighth of them the byte is taken**. -/
theorem clocks_byte (first : Bool) (byte : UInt8) :
    ∃ s', (msbFirst byte).foldl (P.wires.clock period) ⟨false, s, .receiving first [], a⟩ =
      ⟨false, s', (P.take first byte a).1, (P.take first byte a).2⟩ := by
  have hsplit : msbFirst byte = (msbFirst byte).take 7 ++ [byte.toNat.testBit 0] := rfl
  obtain ⟨s₁, hbits⟩ := clocks_receiving P a period first ((msbFirst byte).take 7) [] s (by
    change 0 + 7 < 8
    omega)
  refine ⟨byte.toNat.testBit 0, ?_⟩
  rw [hsplit, List.foldl_append, hbits, List.nil_append, List.foldl_cons, List.foldl_nil, clock_eq,
    Phase.level, Bool.and_true, Phase.rise, ← hsplit, Peripheral.fall,
    if_neg (length_msbFirst byte).not_lt, foldl_shiftIn_msbFirst]

/-- The bits of a device go by… -/
theorem clocks_sending : ∀ (bits held : List Bool) (s : Bool), bits.length = held.length →
    held ≠ [] → ∃ s', bits.foldl (P.wires.clock period) ⟨false, s, .sending held, a⟩ =
      ⟨false, s', .released false, a⟩
  | [], held, _, h, hne => absurd (List.length_eq_zero_iff.mp h.symm) hne
  | bit :: bits, [], _, _, hne => absurd rfl hne
  | [bit], [_], _, _, _ => ⟨bit, rfl⟩
  | bit :: bit' :: bits, [x], _, h, _ => by
      rw [List.length_cons, List.length_cons, List.length_singleton] at h
      omega
  | bit :: bits, x :: y :: held, s, h, _ => by
      have hne : (x :: y :: held).tail ≠ [] := List.cons_ne_nil y held
      obtain ⟨s', hrest⟩ := clocks_sending bits (y :: held) bit (Nat.succ.inj h) hne
      refine ⟨s', ?_⟩
      rw [List.foldl_cons, clock_eq, Phase.rise, Peripheral.fall, if_neg hne]
      exact hrest

/-- …**and if the program has clocked a byte with a low bit at its end, this is an acknowledge for
the device that was sending**, which sends on. -/
theorem clocks_through {held : List Bool} (hheld : held.length = 7) {byte : UInt8}
    (hbyte : byte.toNat.testBit 0 = false) :
    ∃ s', (msbFirst byte).foldl (P.wires.clock period) ⟨false, s, .sending held, a⟩ =
      ⟨false, s', (P.send a).1, (P.send a).2⟩ := by
  have hsplit : msbFirst byte = (msbFirst byte).take 7 ++ [byte.toNat.testBit 0] := rfl
  have hlen : ((msbFirst byte).take 7).length = held.length := hheld.symm
  have hne : held ≠ [] := fun h => by
    rw [h] at hheld
    cases hheld
  obtain ⟨s₁, hbits⟩ := clocks_sending P a period _ held s hlen hne
  refine ⟨false, ?_⟩
  rw [hsplit, List.foldl_append, hbits, List.foldl_cons, List.foldl_nil, clock_eq, hbyte]
  rfl

/-! ## Samples -/

/-- `n` samples, one shifted in behind the other. -/
def Wires.samples {β : Type} (W : Wires β) (period : ℕ) : ℕ → UInt8 → β → UInt8 × β
  | 0, byte, b => (byte, b)
  | n + 1, byte, b =>
    let sampled := W.sample period b
    W.samples period n (shiftIn byte sampled.1) sampled.2

/-- **A program that samples reads what the device sends.** -/
theorem samples_sending : ∀ (bits : List Bool) (byte : UInt8) (b : Lines α), bits ≠ [] →
    P.wires.scl false b = ⟨false, true, .sending bits, a⟩ →
      (P.wires.samples period bits.length byte b).1 = bits.foldl shiftIn byte ∧
        P.wires.scl false (P.wires.samples period bits.length byte b).2 =
          ⟨false, true, .released false, a⟩
  | [], _, _, hne, _ => absurd rfl hne
  | x :: bits, byte, b, _, hb => by
      have hsample : P.wires.sample period b = (x, ⟨true, true, .sending (x :: bits), a⟩) := by
        simp only [Wires.sample, hb, wires_delay, wires_rise, wires_read, level_mk, Phase.level,
          List.headD_cons, Bool.true_and, Phase.rise]
      rw [List.length_cons, Wires.samples, hsample, List.foldl_cons]
      cases bits with
      | nil => exact ⟨rfl, rfl⟩
      | cons y bits =>
        exact samples_sending (y :: bits) (shiftIn byte x) _ (List.cons_ne_nil y bits) rfl

end Device

end GrainWarehouse

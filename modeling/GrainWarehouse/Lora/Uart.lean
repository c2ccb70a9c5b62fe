import Mathlib.Data.List.Basic
import GrainWarehouse.Machinery.Runs
import GrainWarehouse.Actuator.Downlink

/-!
# Lora/Uart — the receiver of the LoRa module

The interrupt of USART3 stores a byte and starts the frame timer anew; the interrupt of the timer
marks the frame as finished; `lora_task` looks for the mark, copies a frame's first four bytes and
begins again.  The task can be interrupted between any two of its steps.  A state is described by
what it holds: bytes left behind (`Waiting`), a frame that is being received (`Filling`) or has
been marked (`Complete`), or one that is being served (`Serving`).
-/

namespace GrainWarehouse.Lora

/-- `ATK_MW1278D_UART_RX_BUF_SIZE`. -/
abbrev uartRxBufSize : ℕ := 128

/-- The ticks of the frame timer until it expires. -/
abbrev timPeriod : ℕ := 100

/-- `g_uart_rx_frame`, and the frame timer. -/
structure Uart where
  buf : List UInt8
  len : ℕ
  finsh : Bool
  counter : ℕ
  enabled : Bool
  deriving DecidableEq

namespace Uart

/-- `ATK_MW1278D_UART_IRQHandler`: a byte has been received. -/
def uartIRQHandler (u : Uart) (tmp : UInt8) : Uart :=
  if u.len < uartRxBufSize - 1 then
    { u with
      counter := 0
      enabled := if u.len = 0 then true else u.enabled
      buf := u.buf.set u.len tmp
      len := u.len + 1 }
  else { u with buf := u.buf.set 0 tmp, len := 1 }

/-- `ATK_MW1278D_TIM_IRQHandler`: the frame timer has expired. -/
def timIRQHandler (u : Uart) : Uart := { u with finsh := true, enabled := false }

/-- A tick of the frame timer. -/
def tick (u : Uart) : Uart :=
  if u.enabled then
    if u.counter + 1 < timPeriod then { u with counter := u.counter + 1 }
    else { u with counter := 0 }.timIRQHandler
  else u

/-- `atk_mw1278d_uart_rx_get_frame_len`. -/
def rxGetFrameLen (u : Uart) : ℕ := if u.finsh then u.len else 0

/-- `atk_mw1278d_uart_rx_get_frame`, which terminates the frame. -/
def rxGetFrame (u : Uart) : Uart := if u.finsh then { u with buf := u.buf.set u.len 0 } else u

theorem tick_of_disabled {u : Uart} (h : u.enabled = false) : u.tick = u := by
  rw [tick, h]
  rfl

theorem rxGetFrameLen_of_not_finsh {u : Uart} (h : u.finsh = false) : u.rxGetFrameLen = 0 := by
  rw [rxGetFrameLen, h]
  rfl

end Uart

/-- Where the receiving half of `lora_task` stands. -/
inductive RxStage
  | poll
  | get
  | copy
  /-- The first half of `atk_mw1278d_uart_rx_restart`. -/
  | clearLen (localBuf : List UInt8)
  /-- The second half. -/
  | clearFinsh (localBuf : List UInt8)
  | dispatch (localBuf : List UInt8)
  deriving DecidableEq

/-- The receiver, with what it has put on `ActuatorCmdQueue`. -/
structure LoraRx where
  uart : Uart
  stage : RxStage
  sent : List ApplayMsg
  deriving DecidableEq

/-- What happens while no byte is received. -/
inductive Pause
  /-- The frame timer ticks. -/
  | tick
  /-- `lora_task` takes a step. -/
  | task
  deriving DecidableEq

namespace LoraRx

/-- A step of `lora_task`; `ActuatorCmdQueue` accepts every send. -/
def task (s : LoraRx) : LoraRx :=
  match s.stage with
  | .poll => if loraFrameLen ≤ s.uart.rxGetFrameLen then { s with stage := .get } else s
  | .get => { s with uart := s.uart.rxGetFrame, stage := .copy }
  | .copy => { s with stage := .clearLen (s.uart.buf.take loraFrameLen) }
  | .clearLen b => { s with uart := { s.uart with len := 0 }, stage := .clearFinsh b }
  | .clearFinsh b => { s with uart := { s.uart with finsh := false }, stage := .dispatch b }
  | .dispatch b => { s with stage := .poll, sent := s.sent ++ (loraCommand b).toList }

/-- A byte is received. -/
def byte (s : LoraRx) (b : UInt8) : LoraRx := { s with uart := s.uart.uartIRQHandler b }

/-- No byte is received. -/
def pass (s : LoraRx) : Pause → LoraRx
  | .tick => { s with uart := s.uart.tick }
  | .task => s.task

end LoraRx

/-- The ticks in a pause. -/
abbrev ticks (ps : List Pause) : ℕ := ps.count .tick

/-! ## Bytes in the buffer -/

theorem take_set_length {buf : List UInt8} {n : ℕ} (hn : n < buf.length) (b : UInt8) :
    (buf.set n b).take (n + 1) = buf.take n ++ [b] := by
  rw [List.take_add_one, List.take_set_of_le (Nat.le_refl n), List.getElem?_set_self hn]
  rfl

/-- **The receiver holds `bytes`**, and `lora_task` is about to poll. -/
structure Holding (q : List ApplayMsg) (bytes : List UInt8) (s : LoraRx) : Prop where
  stage : s.stage = .poll
  sent : s.sent = q
  size : s.uart.buf.length = uartRxBufSize
  len : s.uart.len = bytes.length
  held : s.uart.buf.take bytes.length = bytes

/-- **It has been marked as finished**, and no poll has noticed it. -/
structure Complete (q : List ApplayMsg) (bytes : List UInt8) (s : LoraRx) : Prop
    extends Holding q bytes s where
  enabled : s.uart.enabled = false
  finsh : s.uart.finsh = true

/-- **It is less than a frame**, and has been left behind.  With a byte left behind the frame counts
as finished, and the frame timer is off. -/
structure Waiting (q : List ApplayMsg) (left : List UInt8) (s : LoraRx) : Prop
    extends Holding q left s where
  enabled : s.uart.enabled = false
  finsh : s.uart.finsh = !left.isEmpty
  short : left.length < loraFrameLen

/-- **It is being received**: the last byte came `c` ticks ago, and the frame timer is running. -/
structure Filling (q : List ApplayMsg) (bytes : List UInt8) (c : ℕ) (s : LoraRx) : Prop
    extends Holding q bytes s where
  enabled : s.uart.enabled = true
  finsh : s.uart.finsh = false
  counter : s.uart.counter = c

section

variable {q : List ApplayMsg} {bytes left : List UInt8} {c : ℕ} {s : LoraRx}

/-- **A byte joins the others.** -/
theorem Holding.byte (h : Holding q bytes s) (hroom : bytes.length < uartRxBufSize - 1)
    (b : UInt8) :
    Holding q (bytes ++ [b]) (s.byte b) := by
  rw [LoraRx.byte, Uart.uartIRQHandler, h.len, if_pos hroom]
  constructor
  · exact h.stage
  · exact h.sent
  · exact List.length_set.trans h.size
  · rw [List.length_append, List.length_singleton]
  · rw [List.length_append, List.length_singleton, take_set_length, h.held]
    rw [h.size]
    omega

theorem Holding.enabled_byte (h : Holding q bytes s) (hroom : bytes.length < uartRxBufSize - 1)
    (b : UInt8) : (s.byte b).uart.enabled = if bytes.length = 0 then true else s.uart.enabled := by
  rw [LoraRx.byte, Uart.uartIRQHandler, h.len, if_pos hroom]

theorem Holding.counter_byte (h : Holding q bytes s) (hroom : bytes.length < uartRxBufSize - 1)
    (b : UInt8) : (s.byte b).uart.counter = 0 := by
  rw [LoraRx.byte, Uart.uartIRQHandler, h.len, if_pos hroom]

theorem finsh_byte (s : LoraRx) (b : UInt8) : (s.byte b).uart.finsh = s.uart.finsh := by
  rw [LoraRx.byte, Uart.uartIRQHandler]
  split_ifs <;> rfl

/-- After bytes that have been left behind, the mark still stands. -/
theorem Waiting.byte (h : Waiting q left s) (hne : left ≠ []) (b : UInt8) :
    Complete q (left ++ [b]) (s.byte b) := by
  have hroom : left.length < uartRxBufSize - 1 := Nat.lt_trans h.short (by decide)
  refine ⟨h.toHolding.byte hroom b, ?_, ?_⟩
  · rw [h.enabled_byte hroom, if_neg fun h0 => hne (List.length_eq_zero_iff.mp h0), h.enabled]
  · rw [finsh_byte, h.finsh, List.isEmpty_eq_false_iff.mpr hne]
    rfl

/-- **The first byte starts the frame timer.** -/
theorem Waiting.byte_of_nil (h : Waiting q [] s) (b : UInt8) : Filling q [b] 0 (s.byte b) := by
  have hroom : ([] : List UInt8).length < uartRxBufSize - 1 := by decide
  refine ⟨h.toHolding.byte hroom b, ?_, ?_, h.counter_byte hroom b⟩
  · rw [h.enabled_byte hroom]
    rfl
  · rw [finsh_byte, h.finsh]
    rfl

/-- **…and the next one starts it anew.** -/
theorem Filling.byte (h : Filling q bytes c s) (hroom : bytes.length < uartRxBufSize - 1)
    (b : UInt8) : Filling q (bytes ++ [b]) 0 (s.byte b) := by
  refine ⟨h.toHolding.byte hroom b, ?_, ?_, h.counter_byte hroom b⟩
  · rw [h.enabled_byte hroom, h.enabled, ite_self]
  · rw [finsh_byte, h.finsh]

end

/-! ## Bytes that have been left behind -/

namespace Waiting

variable {q : List ApplayMsg} {left : List UInt8} {s : LoraRx}

/-- **Time and polls change nothing.** -/
theorem pass_eq (h : Waiting q left s) (p : Pause) : s.pass p = s := by
  cases p with
  | tick => rw [LoraRx.pass, Uart.tick_of_disabled h.enabled]
  | task =>
    have hlen : ¬ loraFrameLen ≤ s.uart.rxGetFrameLen := by
      have hshort := h.short
      rw [Uart.rxGetFrameLen, h.len]
      split_ifs
      · omega
      · decide
    rw [LoraRx.pass, LoraRx.task, h.stage]
    exact if_neg hlen

theorem pass_run (h : Waiting q left s) : ∀ ps : List Pause, runFrom LoraRx.pass s ps = s
  | [] => rfl
  | p :: ps => by rw [runFrom_cons, h.pass_eq p, h.pass_run ps]

end Waiting

namespace Complete

variable {q : List ApplayMsg} {bytes : List UInt8} {s : LoraRx}

/-- Less than a frame is left behind. -/
theorem waiting (h : Complete q bytes s) (hne : bytes ≠ []) (hshort : bytes.length < loraFrameLen) :
    Waiting q bytes s := by
  refine ⟨h.toHolding, h.enabled, ?_, hshort⟩
  rw [h.finsh, List.isEmpty_eq_false_iff.mpr hne]
  rfl

theorem tick_eq (h : Complete q bytes s) : s.pass .tick = s := by
  rw [LoraRx.pass, Uart.tick_of_disabled h.enabled]

end Complete

/-! ## A frame that is being received -/

namespace Filling

variable {q : List ApplayMsg} {bytes : List UInt8} {c : ℕ} {s : LoraRx}

/-- A poll finds no finished frame. -/
theorem task_eq (h : Filling q bytes c s) : s.task = s := by
  rw [LoraRx.task, h.stage]
  exact if_neg (by rw [Uart.rxGetFrameLen_of_not_finsh h.finsh]; decide)

theorem tick (h : Filling q bytes c s) (hc : c + 1 < timPeriod) :
    Filling q bytes (c + 1) (s.pass .tick) := by
  rw [LoraRx.pass, Uart.tick, if_pos h.enabled, h.counter, if_pos hc]
  exact ⟨⟨h.stage, h.sent, h.size, h.len, h.held⟩, h.enabled, h.finsh, rfl⟩

/-- **The frame timer expires.** -/
theorem expire (h : Filling q bytes c s) (hc : ¬ c + 1 < timPeriod) :
    Complete q bytes (s.pass .tick) := by
  rw [LoraRx.pass, Uart.tick, if_pos h.enabled, h.counter, if_neg hc]
  exact ⟨⟨h.stage, h.sent, h.size, h.len, h.held⟩, rfl, rfl⟩

/-- **A gap shorter than the frame timer goes unnoticed.** -/
theorem pass_run : ∀ {ps : List Pause} {c : ℕ} {s : LoraRx}, Filling q bytes c s →
    c + ticks ps < timPeriod → Filling q bytes (c + ticks ps) (runFrom LoraRx.pass s ps)
  | [], _, _, h, _ => h
  | .task :: ps, c, s, h, hc => by
      have hcount : ticks (.task :: ps) = ticks ps := List.count_cons_of_ne (by decide)
      rw [hcount] at hc ⊢
      rw [runFrom_cons, LoraRx.pass, h.task_eq]
      exact h.pass_run hc
  | .tick :: ps, c, s, h, hc => by
      have hcount : ticks (.tick :: ps) = ticks ps + 1 := List.count_cons_self
      rw [hcount] at hc ⊢
      rw [runFrom_cons, ← Nat.add_assoc, Nat.add_right_comm]
      exact (h.tick (by omega)).pass_run (by omega)

end Filling

/-! ## A frame that is being served -/

/-- **`lora_task` serves `frame`**: what it has done so far. -/
def Serving (q : List ApplayMsg) (frame : List UInt8) (s : LoraRx) : Prop :=
  s.uart.buf.length = uartRxBufSize ∧ s.uart.enabled = false ∧
    match s.stage with
    | .poll => s.uart.len = 0 ∧ s.uart.finsh = false ∧ s.sent = q ++ (loraCommand frame).toList
    | .get => loraFrameLen ≤ s.uart.len ∧ s.uart.buf.take loraFrameLen = frame ∧ s.sent = q
    | .copy => s.uart.buf.take loraFrameLen = frame ∧ s.sent = q
    | .clearLen b => b = frame ∧ s.sent = q
    | .clearFinsh b => s.uart.len = 0 ∧ b = frame ∧ s.sent = q
    | .dispatch b => s.uart.len = 0 ∧ s.uart.finsh = false ∧ b = frame ∧ s.sent = q

namespace Serving

variable {q : List ApplayMsg} {frame : List UInt8} {s : LoraRx}

/-- **Every step serves on.** -/
theorem pass (h : Serving q frame s) (p : Pause) : Serving q frame (s.pass p) := by
  obtain ⟨u, stage, sent⟩ := s
  obtain ⟨hsize, henabled, hstage⟩ := h
  cases p with
  | tick =>
    rw [LoraRx.pass, Uart.tick_of_disabled henabled]
    exact ⟨hsize, henabled, hstage⟩
  | task =>
    cases stage with
    | poll =>
      have hnone : ¬ loraFrameLen ≤ u.rxGetFrameLen := by
        rw [Uart.rxGetFrameLen_of_not_finsh hstage.2.1]
        decide
      rw [LoraRx.pass, LoraRx.task]
      simp only [if_neg hnone]
      exact ⟨hsize, henabled, hstage⟩
    | get =>
      obtain ⟨hlen, htake, hsent⟩ := hstage
      simp only [LoraRx.pass, LoraRx.task, Uart.rxGetFrame]
      split_ifs
      · exact ⟨List.length_set.trans hsize, henabled,
          (List.take_set_of_le hlen).trans htake, hsent⟩
      · exact ⟨hsize, henabled, htake, hsent⟩
    | copy => exact ⟨hsize, henabled, hstage⟩
    | clearLen b => exact ⟨hsize, henabled, rfl, hstage⟩
    | clearFinsh b => exact ⟨hsize, henabled, hstage.1, rfl, hstage.2⟩
    | dispatch b =>
      obtain ⟨hlen, hfinsh, rfl, rfl⟩ := hstage
      exact ⟨hsize, henabled, hlen, hfinsh, rfl⟩

/-- **A frame has been served** when the task polls again. -/
theorem waiting (h : Serving q frame s) (hstage : s.stage = .poll) :
    Waiting (q ++ (loraCommand frame).toList) [] s := by
  obtain ⟨hsize, henabled, hserved⟩ := h
  rw [hstage] at hserved
  exact ⟨⟨hstage, hserved.2.2, hsize, hserved.1, rfl⟩, henabled, hserved.2.1, by decide⟩

end Serving

/-- **A finished frame is noticed by the first poll.** -/
theorem Complete.task {q : List ApplayMsg} {bytes : List UInt8} {s : LoraRx}
    (h : Complete q bytes s) (hlong : loraFrameLen ≤ bytes.length) :
    Serving q (bytes.take loraFrameLen) s.task := by
  have hpoll : loraFrameLen ≤ s.uart.rxGetFrameLen := by
    rw [Uart.rxGetFrameLen, if_pos h.finsh, h.len]
    exact hlong
  rw [LoraRx.task, h.stage]
  simp only [if_pos hpoll]
  refine ⟨h.size, h.enabled, h.len ▸ hlong, ?_, h.sent⟩
  have hheld := congrArg (List.take loraFrameLen) h.held
  rwa [List.take_take, Nat.min_eq_left hlong] at hheld

end GrainWarehouse.Lora

import GrainWarehouse.FreeRtos.Queue
import GrainWarehouse.Machinery.Clock
import GrainWarehouse.Machinery.Runs

/-!
# FreeRtos/Blocking — calls that block, try again and give up

`xQueueGenericSend`, `xQueueReceive` and `xQueuePeek` are loops: a critical section that tries, and
if it is refused and there is time left, a look at the clock with the scheduler suspended.  Between
any two of these sections any other task may run, and any time may pass.

* **The history of a queue is that of one caller after the other** (`queue_replays`): its answers
  are those of a bounded queue asked in the order in which the calls end, and a call that gives up
  had been refused while it ran.
* **The time of a call is up when it is, and not before** (`queue_verdicts`), also when the tick
  counter wraps.
-/

namespace GrainWarehouse

/-- `TimeOut_t`. -/
structure TimeOutT where
  xOverflowCount : UInt32
  xTimeOnEntering : UInt32

/-- `xNumOfOverflows`, the counter having started at 0. -/
def xNumOfOverflows (now : ℕ) : UInt32 := UInt32.ofNat (now / 2 ^ 32)

/-- `vTaskInternalSetTimeOutState`. -/
def vTaskInternalSetTimeOutState (now : ℕ) : TimeOutT := ⟨xNumOfOverflows now, tick now⟩

/-- `portMAX_DELAY`. -/
abbrev portMaxDelay : UInt32 := 0xFFFFFFFF

/-- `xTaskCheckForTimeOut`: the result, `*pxTimeOut` and `*pxTicksToWait`.  Nobody aborts delays. -/
def xTaskCheckForTimeOut (now : ℕ) (pxTimeOut : TimeOutT) (pxTicksToWait : UInt32) :
    Bool × TimeOutT × UInt32 :=
  let xElapsedTime := tick now - pxTimeOut.xTimeOnEntering
  if pxTicksToWait = portMaxDelay then (false, pxTimeOut, pxTicksToWait)
  else if xNumOfOverflows now ≠ pxTimeOut.xOverflowCount ∧ tick now ≥ pxTimeOut.xTimeOnEntering then
    (true, pxTimeOut, 0)
  else if xElapsedTime < pxTicksToWait then
    (false, vTaskInternalSetTimeOutState now, pxTicksToWait - xElapsedTime)
  else (true, pxTimeOut, 0)

/-- Where a call stands in its loop. -/
inductive CallPhase
  /-- Before its critical section. -/
  | trying
  /-- Refused, before the look at the clock. -/
  | refused
  /-- A reader out of time, before its last look at the queue. -/
  | late
  deriving DecidableEq

/-- A running call: its arguments and local variables, and what we remember of it. -/
structure QueueCall where
  req : Fifo.Request (List UInt8)
  /-- The block time it was called with. -/
  block : UInt32
  xTicksToWait : UInt32
  xEntryTimeSet : Bool
  xTimeOut : TimeOutT
  phase : CallPhase
  /-- How many calls had ended when it began. -/
  since : ℕ
  /-- How many had ended when it was last refused. -/
  refusedAt : ℕ
  /-- The time of its first refusal. -/
  firstAt : ℕ
  /-- The time in `xTimeOut`. -/
  lookedAt : ℕ

/-- A decision on the clock: the time of a call that may block so long and has waited so long is up,
or it is not. -/
structure Verdict where
  block : UInt32
  waited : ℕ
  timeUp : Bool

/-- The queue, the time, the running calls, and the record. -/
structure KernelQueue (ι : Type*) where
  queue : QueueT
  now : ℕ
  calls : ι → Option QueueCall
  record : List (Outcome (Fifo.Request (List UInt8)) (Option (List UInt8)))
  verdicts : List Verdict

/-- What may happen: time passes, a task calls, or it executes its next section. -/
inductive QueueAct (ι : Type*)
  | ticks (k : ℕ)
  | call (t : ι) (r : Fifo.Request (List UInt8)) (xTicksToWait : UInt32)
  | step (t : ι)

/-- A reader looks at the queue again when its time is over; a sender does not. -/
def isReader : Fifo.Request (List UInt8) → Bool
  | .receive => true
  | .peek => true
  | _ => false

/-- How long a call has waited. -/
def QueueCall.waited (now : ℕ) (c : QueueCall) : ℕ := if c.xEntryTimeSet then now - c.firstAt else 0

/-- A call as it begins. -/
def QueueCall.start (r : Fifo.Request (List UInt8)) (xTicksToWait : UInt32) (since : ℕ) :
    QueueCall where
  req := r
  block := xTicksToWait
  xTicksToWait := xTicksToWait
  xEntryTimeSet := false
  xTimeOut := ⟨0, 0⟩
  phase := .trying
  since := since
  refusedAt := 0
  firstAt := 0
  lookedAt := 0

namespace KernelQueue

variable {ι : Type*} [DecidableEq ι]

/-- The call of `t` goes on like this. -/
def keep (t : ι) (c : QueueCall) (s : KernelQueue ι) : KernelQueue ι :=
  { s with calls := Function.update s.calls t (some c) }

/-- The call of `t` ends so. -/
def finish (t : ι) (o : Outcome (Fifo.Request (List UInt8)) (Option (List UInt8)))
    (s : KernelQueue ι) : KernelQueue ι :=
  { s with calls := Function.update s.calls t none, record := s.record ++ [o] }

@[simp] theorem keep_calls (t : ι) (c : QueueCall) (s : KernelQueue ι) :
    (s.keep t c).calls = Function.update s.calls t (some c) := rfl

@[simp] theorem finish_calls (t : ι)
    (o : Outcome (Fifo.Request (List UInt8)) (Option (List UInt8))) (s : KernelQueue ι) :
    (s.finish t o).calls = Function.update s.calls t none := rfl

/-- A decision is remembered. -/
def judge (c : QueueCall) (timeUp : Bool) (s : KernelQueue ι) : KernelQueue ι :=
  { s with verdicts := s.verdicts ++ [⟨c.block, c.waited s.now, timeUp⟩] }

/-- The next section of the call of `t`. -/
def stepCall (t : ι) (c : QueueCall) (s : KernelQueue ι) : KernelQueue ι :=
  match c.phase with
  | .trying =>
    match QueueT.attempt c.req s.queue with
    | some (b, q) => finish t (.answered c.since c.req b) { s with queue := q }
    | none =>
      if c.xTicksToWait = 0 then
        finish t (.gaveUp c.since s.record.length c.req) (judge c true s)
      else
        let c := { c with phase := .refused, refusedAt := s.record.length }
        if c.xEntryTimeSet then keep t c s
        else
          keep t { c with
            xEntryTimeSet := true
            xTimeOut := vTaskInternalSetTimeOutState s.now
            firstAt := s.now
            lookedAt := s.now } s
  | .refused =>
    let r := xTaskCheckForTimeOut s.now c.xTimeOut c.xTicksToWait
    if r.1 then
      if isReader c.req then
        keep t { c with phase := .late, xTicksToWait := r.2.2 } (judge c true s)
      else finish t (.gaveUp c.since c.refusedAt c.req) (judge c true s)
    else
      keep t { c with
        phase := .trying
        xTimeOut := r.2.1
        xTicksToWait := r.2.2
        lookedAt := if c.xTicksToWait = portMaxDelay then c.lookedAt else s.now } (judge c false s)
  | .late =>
    if s.queue.uxMessagesWaiting = 0 then
      finish t (.gaveUp c.since s.record.length c.req) (judge c true s)
    else keep t { c with phase := .trying } s

/-- What an action does. -/
def next (s : KernelQueue ι) : QueueAct ι → KernelQueue ι
  | .ticks k => { s with now := s.now + k }
  | .call t r xTicksToWait =>
    if (s.calls t).isSome then s else keep t (.start r xTicksToWait s.record.length) s
  | .step t =>
    match s.calls t with
    | some c => stepCall t c s
    | none => s

/-- A queue nobody has called yet. -/
def start (q : QueueT) : KernelQueue ι := ⟨q, 0, fun _ => none, [], []⟩

/-- The state after these actions. -/
def run (q : QueueT) (as : List (QueueAct ι)) : KernelQueue ι := runFrom next (start q) as

end KernelQueue

/-! ## The history -/

variable {ι : Type*} [DecidableEq ι] {n : ℕ} [NeZero n] {size : ℕ}

/-- What is known of a running call while these have ended. -/
structure QueueCall.Sound (n size : ℕ)
    (os : List (Outcome (Fifo.Request (List UInt8)) (Option (List UInt8)))) (c : QueueCall) :
    Prop where
  fits : FitsQueue n size c.req
  since : c.since ≤ os.length
  refused : c.phase = .refused →
    RefusedAt Fifo.attempt (Fifo.empty : Fifo (List UInt8) n) os c.since c.refusedAt c.req
  reader : c.phase = .late → isReader c.req

/-- **The record is that of a bounded queue**, and what it holds now is what the queue holds. -/
structure KernelQueue.Sound (n size : ℕ) [NeZero n] (q₀ : QueueT) (s : KernelQueue ι) : Prop where
  held : ∃ f : Fifo (List UInt8) n, s.queue.Holds size f ∧
    Replays Fifo.attempt Fifo.empty s.record f
  within : q₀.Within n size s.queue
  calls : ∀ t, ∀ c ∈ s.calls t, c.Sound n size s.record

/-- Calls ask for what fits. -/
def QueueAct.Fits (n size : ℕ) : QueueAct ι → Prop
  | .call _ r _ => FitsQueue n size r
  | _ => True

omit [NeZero n] in
/-- A call at the start of its loop. -/
theorem QueueCall.Sound.of_trying {os : List (Outcome (Fifo.Request (List UInt8))
    (Option (List UInt8)))} {c : QueueCall} (hfits : FitsQueue n size c.req)
    (hsince : c.since ≤ os.length) (hphase : c.phase = .trying) : c.Sound n size os where
  fits := hfits
  since := hsince
  refused hc := by
    rw [hphase] at hc
    cases hc
  reader hc := by
    rw [hphase] at hc
    cases hc

omit [NeZero n] in
/-- A call is not harmed by others that end. -/
theorem QueueCall.Sound.append {os : List (Outcome (Fifo.Request (List UInt8))
    (Option (List UInt8)))} {c : QueueCall} (h : c.Sound n size os)
    (o : Outcome (Fifo.Request (List UInt8)) (Option (List UInt8))) :
    c.Sound n size (os ++ [o]) where
  fits := h.fits
  since := by
    rw [List.length_append]
    exact Nat.le_add_right_of_le h.since
  refused hc := (h.refused hc).append o
  reader := h.reader

namespace KernelQueue.Sound

variable {q₀ : QueueT} {s : KernelQueue ι}

/-- A call that goes on. -/
theorem keep (h : s.Sound n size q₀) (t : ι) {c : QueueCall} (hc : c.Sound n size s.record) :
    (s.keep t c).Sound n size q₀ where
  held := h.held
  within := h.within
  calls t' c' hc' := by
    rcases eq_or_ne t' t with rfl | hne
    · rw [keep_calls, Function.update_self] at hc'
      obtain rfl := Option.some.inj hc'
      exact hc
    · rw [keep_calls, Function.update_of_ne hne] at hc'
      exact h.calls t' c' hc'

/-- A call that ends. -/
theorem finish (t : ι) {o : Outcome (Fifo.Request (List UInt8)) (Option (List UInt8))}
    (hheld : ∃ f : Fifo (List UInt8) n, s.queue.Holds size f ∧
      Replays Fifo.attempt Fifo.empty (s.record ++ [o]) f)
    (hwithin : q₀.Within n size s.queue) (hcalls : ∀ t, ∀ c ∈ s.calls t, c.Sound n size s.record) :
    (s.finish t o).Sound n size q₀ where
  held := hheld
  within := hwithin
  calls t' c' hc' := by
    rcases eq_or_ne t' t with rfl | hne
    · rw [finish_calls, Function.update_self] at hc'
      cases hc'
    · rw [finish_calls, Function.update_of_ne hne] at hc'
      exact (hcalls t' c' hc').append o

/-- Giving up after a refusal. -/
theorem giveUp (h : s.Sound n size q₀) (t : ι) {since k : ℕ} {r : Fifo.Request (List UInt8)}
    (hrefused : RefusedAt Fifo.attempt (Fifo.empty : Fifo (List UInt8) n) s.record since k r) :
    (s.finish t (.gaveUp since k r)).Sound n size q₀ := by
  obtain ⟨f, hf, hrun⟩ := h.held
  exact finish t ⟨f, hf, hrefused.gaveUp hrun⟩ h.within h.calls

omit [DecidableEq ι] in
/-- A refusal now. -/
theorem refusedNow (h : s.Sound n size q₀) {since : ℕ} {r : Fifo.Request (List UInt8)}
    (hsince : since ≤ s.record.length) (hrefuse : QueueT.attempt r s.queue = none) :
    RefusedAt Fifo.attempt (Fifo.empty : Fifo (List UInt8) n) s.record since s.record.length r := by
  obtain ⟨f, hf, hrun⟩ := h.held
  exact hrun.refusedAt hsince (attempt_none hf hrefuse)

omit [DecidableEq ι] in
/-- The record of decisions is nobody's business here. -/
theorem judge (h : s.Sound n size q₀) (c : QueueCall) (timeUp : Bool) :
    (s.judge c timeUp).Sound n size q₀ := ⟨h.held, h.within, h.calls⟩

/-- **A section keeps the account.** -/
theorem stepCall (hsize : 0 < size) (h : s.Sound n size q₀) {t : ι} {c : QueueCall}
    (hc : c ∈ s.calls t) : (s.stepCall t c).Sound n size q₀ := by
  have hcall := h.calls t c hc
  rw [KernelQueue.stepCall]
  split
  · next hphase =>
    split
    · next b q hq =>
      obtain ⟨f, hf, hrun⟩ := h.held
      obtain ⟨f', hf', hq', hwithin⟩ := attempt_some hf hsize hcall.fits hq
      exact finish t ⟨f', hq', hrun.answered hcall.since hf'⟩ (h.within.trans hwithin) h.calls
    · next hq =>
      have hrefused := h.refusedNow hcall.since hq
      split
      · exact (h.judge c true).giveUp t hrefused
      · dsimp only
        have hnow : ∀ c' : QueueCall, c'.req = c.req → c'.since = c.since →
            c'.refusedAt = s.record.length → c'.phase = .refused → c'.Sound n size s.record := by
          intro c' hreq hsince hat hph
          refine ⟨hreq ▸ hcall.fits, hsince ▸ hcall.since, fun _ => ?_, fun hl => ?_⟩
          · rw [hreq, hsince, hat]
            exact hrefused
          · rw [hph] at hl
            cases hl
        split
        · exact h.keep t (hnow _ rfl rfl rfl rfl)
        · exact h.keep t (hnow _ rfl rfl rfl rfl)
  · next hphase =>
    dsimp only
    split
    · split
      · next hreader =>
        exact (h.judge c true).keep t
          ⟨hcall.fits, hcall.since, fun hc => (by cases hc), fun _ => hreader⟩
      · exact (h.judge c true).giveUp t (hcall.refused hphase)
    · exact (h.judge c false).keep t (.of_trying hcall.fits hcall.since rfl)
  · next hphase =>
    split
    · next hempty =>
      refine (h.judge c true).giveUp t (h.refusedNow hcall.since ?_)
      have hno : ¬ s.queue.uxMessagesWaiting > 0 := by
        rw [hempty]
        decide
      have hreader := hcall.reader hphase
      generalize c.req = r at hreader ⊢
      cases r with
      | receive => rw [QueueT.attempt, QueueT.receiveSection, if_neg hno]; rfl
      | peek => rw [QueueT.attempt, QueueT.peekSection, if_neg hno]; rfl
      | send x => cases hreader
      | sendFront x => cases hreader
      | overwrite x => cases hreader
    · exact h.keep t (.of_trying hcall.fits hcall.since rfl)

/-- …and so does every action. -/
theorem next (hsize : 0 < size) (h : s.Sound n size q₀) {a : QueueAct ι} (ha : a.Fits n size) :
    (s.next a).Sound n size q₀ := by
  cases a with
  | ticks k => exact ⟨h.held, h.within, h.calls⟩
  | call t r w =>
    rw [KernelQueue.next]
    split
    · exact h
    · exact h.keep t (.of_trying ha le_rfl rfl)
  | step t =>
    rw [KernelQueue.next]
    split
    · next c hc => exact h.stepCall hsize hc
    · exact h

end KernelQueue.Sound

/-- **The history of a queue is that of one caller after the other.**  However the tasks that use it
are interleaved, whatever they wait and whenever they give up: the answers they got are those of a
bounded queue asked in the order of the record, which leads to what the queue holds now; without
pushes in front and overwrites, what was received and what is left is what was sent; and nothing
outside its memory has changed. -/
theorem queue_replays {sizeofQueue uxQueueLength uxItemSize : UInt32} {block : Option ℤ}
    {fresh q : QueueT} (hn : uxQueueLength.toNat = n) (hsize : uxItemSize.toNat = size)
    (hpos : 0 < size)
    (h : xQueueGenericCreate sizeofQueue uxQueueLength uxItemSize block fresh = some q)
    (as : List (QueueAct ι)) (has : ∀ a ∈ as, a.Fits n size) :
    (∃ f : Fifo (List UInt8) n, (KernelQueue.run q as).queue.Holds size f ∧
      Replays Fifo.attempt Fifo.empty (KernelQueue.run q as).record f ∧
      ((∀ o ∈ (KernelQueue.run q as).record, o.req.Plain) →
        Fifo.received (KernelQueue.run q as).record ++ f.items =
          Fifo.sent (KernelQueue.run q as).record)) ∧
    q.Within n size (KernelQueue.run q as).queue := by
  have hstart : (KernelQueue.start q : KernelQueue ι).Sound n size q := by
    refine ⟨⟨Fifo.empty, holds_xQueueGenericCreate hn hsize h, Replays.nil⟩, .refl q, ?_⟩
    exact fun t c hc => by cases hc
  have hrun := EachStep.run (C := fun _ (a : QueueAct ι) => a.Fits n size)
    (P := fun s => KernelQueue.Sound n size q s)
    (fun s a hs ha => hs.next hpos ha) as hstart ((EachStep.const_iff _ _).mpr has)
  obtain ⟨f, hf, hreplays⟩ := hrun.held
  exact ⟨⟨f, hf, hreplays, hreplays.received_append⟩, hrun.within⟩

/-- A queue of one slot of one byte. -/
def oneByteQueue : QueueT :=
  (xQueueGenericCreate 80 1 1 (some 0x20001000) ⟨0, 0, 0, 0, 0, 0, 0, fun _ => 0⟩).getD
    ⟨0, 0, 0, 0, 0, 0, 0, fun _ => 0⟩

/-- Task 0 fills it, task 1 blocks until task 0 reads. -/
theorem queue_replays_oneByte :
    ∃ f : Fifo (List UInt8) 1,
      (KernelQueue.run oneByteQueue [.call 0 (.send [7]) 0, .step 0, .call 1 (.send [8]) 100,
        .step 1, .call 0 .receive 0, .step 0, .step 1, .step 1]).queue.Holds 1 f ∧
      Replays Fifo.attempt Fifo.empty (KernelQueue.run oneByteQueue [.call 0 (.send [7]) 0, .step 0,
        .call 1 (.send [8]) 100, .step 1, .call 0 .receive 0, .step 0, .step 1, .step 1]).record
        f := by
  obtain ⟨⟨f, hf, hreplays, -⟩, -⟩ := queue_replays UInt32.toNat_one UInt32.toNat_one Nat.one_pos
    (rfl : xQueueGenericCreate 80 1 1 (some 0x20001000) ⟨0, 0, 0, 0, 0, 0, 0, fun _ => 0⟩ =
      some oneByteQueue)
    [.call (0 : ℕ) (.send [7]) 0, .step 0, .call 1 (.send [8]) 100, .step 1, .call 0 .receive 0,
      .step 0, .step 1, .step 1] (by simp [QueueAct.Fits, FitsQueue])
  exact ⟨f, hf, hreplays⟩

/-! ## The clock -/

/-- **The look at the clock is right** up to a round of the counter. -/
theorem xTaskCheckForTimeOut_eq {now looked : ℕ} {ticksToWait : UInt32} (hle : looked ≤ now)
    (hlt : now < looked + 2 ^ 32) (hmax : ticksToWait ≠ portMaxDelay) :
    xTaskCheckForTimeOut now (vTaskInternalSetTimeOutState looked) ticksToWait =
      if now - looked < ticksToWait.toNat then
        (false, vTaskInternalSetTimeOutState now, ticksToWait - (tick now - tick looked))
      else (true, vTaskInternalSetTimeOutState looked, 0) := by
  have hround : ¬ (xNumOfOverflows now ≠ (vTaskInternalSetTimeOutState looked).xOverflowCount ∧
      tick now ≥ (vTaskInternalSetTimeOutState looked).xTimeOnEntering) := by
    rintro ⟨hne, hge⟩
    change tick looked ≤ tick now at hge
    rw [UInt32.le_iff_toNat_le, toNat_tick, toNat_tick] at hge
    have hdiv : now / 2 ^ 32 = looked / 2 ^ 32 := by omega
    exact hne (congrArg UInt32.ofNat hdiv)
  have hleft : tick now - (vTaskInternalSetTimeOutState looked).xTimeOnEntering < ticksToWait ↔
      now - looked < ticksToWait.toNat := tick_sub_lt_iff hle hlt ticksToWait
  simp only [xTaskCheckForTimeOut, if_neg hmax, if_neg hround, hleft]
  rfl

/-- **A verdict is right** if the time is up exactly when the block time has passed. -/
def Verdict.Right (v : Verdict) : Prop :=
  v.timeUp = true ↔ v.block ≠ portMaxDelay ∧ v.block.toNat ≤ v.waited

/-- What a running call knows of the time. -/
structure QueueCall.Timed (now : ℕ) (c : QueueCall) : Prop where
  unset : c.xEntryTimeSet = false → c.xTicksToWait = c.block ∧ c.phase = .trying
  looked : c.xEntryTimeSet = true → c.xTimeOut = vTaskInternalSetTimeOutState c.lookedAt ∧
    c.firstAt ≤ c.lookedAt ∧ c.lookedAt ≤ now
  forever : c.block = portMaxDelay → c.xTicksToWait = portMaxDelay ∧ c.phase ≠ .late
  -- there is time left, or there is none
  left : c.xEntryTimeSet = true → c.block ≠ portMaxDelay →
    (c.phase ≠ .late ∧ c.lookedAt - c.firstAt < c.block.toNat ∧
      c.xTicksToWait.toNat = c.block.toNat - (c.lookedAt - c.firstAt)) ∨
    (c.phase ≠ .refused ∧ c.xTicksToWait = 0 ∧ c.block.toNat ≤ now - c.firstAt)

/-- All calls and all verdicts so far are in time. -/
structure KernelQueue.Timed (s : KernelQueue ι) : Prop where
  calls : ∀ t, ∀ c ∈ s.calls t, c.Timed s.now
  verdicts : ∀ v ∈ s.verdicts, v.Right

/-- **No call is kept from the clock for a whole round of the counter.** -/
def LooksInTime (s : KernelQueue ι) : QueueAct ι → Prop
  | .step t => ∀ c ∈ s.calls t, c.phase = .refused → c.block ≠ portMaxDelay →
    s.now < c.lookedAt + 2 ^ 32
  | _ => True

theorem QueueCall.Timed.mono {now now' : ℕ} (hle : now ≤ now') {c : QueueCall} (h : c.Timed now) :
    c.Timed now' where
  unset := h.unset
  looked hset := ⟨(h.looked hset).1, (h.looked hset).2.1, (h.looked hset).2.2.trans hle⟩
  forever := h.forever
  left hset hmax := (h.left hset hmax).imp_right fun ⟨hphase, hzero, hover⟩ =>
    ⟨hphase, hzero, hover.trans (Nat.sub_le_sub_right hle _)⟩

namespace KernelQueue.Timed

variable {s : KernelQueue ι}

/-- A call that goes on. -/
theorem keep (h : s.Timed) (t : ι) {c : QueueCall} (hc : c.Timed s.now) : (s.keep t c).Timed where
  verdicts := h.verdicts
  calls t' c' hc' := by
    rcases eq_or_ne t' t with rfl | hne
    · rw [keep_calls, Function.update_self] at hc'
      obtain rfl := Option.some.inj hc'
      exact hc
    · rw [keep_calls, Function.update_of_ne hne] at hc'
      exact h.calls t' c' hc'

/-- A call that ends. -/
theorem finish (h : s.Timed) (t : ι)
    (o : Outcome (Fifo.Request (List UInt8)) (Option (List UInt8))) : (s.finish t o).Timed where
  verdicts := h.verdicts
  calls t' c' hc' := by
    rcases eq_or_ne t' t with rfl | hne
    · rw [finish_calls, Function.update_self] at hc'
      cases hc'
    · rw [finish_calls, Function.update_of_ne hne] at hc'
      exact h.calls t' c' hc'

omit [DecidableEq ι] in
/-- A right verdict. -/
theorem judge (h : s.Timed) {c : QueueCall} {timeUp : Bool}
    (hv : Verdict.Right ⟨c.block, c.waited s.now, timeUp⟩) : (s.judge c timeUp).Timed :=
  ⟨h.calls, List.forall_mem_append.mpr ⟨h.verdicts, List.forall_mem_singleton.mpr hv⟩⟩

omit [DecidableEq ι] in
theorem queue (h : s.Timed) (q : QueueT) : Timed { s with queue := q } := ⟨h.calls, h.verdicts⟩

omit [DecidableEq ι] in
/-- A call that is out of time says so. -/
theorem judge_late (h : s.Timed) {c : QueueCall} (hmax : c.block ≠ portMaxDelay)
    (hover : c.block.toNat ≤ c.waited s.now) : (s.judge c true).Timed :=
  h.judge (iff_of_true rfl ⟨hmax, hover⟩)

/-- **A section keeps the time**: the one that tries… -/
theorem stepTrying (h : s.Timed) {t : ι} {c : QueueCall} (hc : c ∈ s.calls t)
    (hphase : c.phase = .trying) : (s.stepCall t c).Timed := by
  have hcall := h.calls t c hc
  simp only [KernelQueue.stepCall, hphase]
  split
  · exact (h.queue _).finish t _
  · split_ifs with hzero hset
    · -- refused, and there is no time left
      have hmax : c.block ≠ portMaxDelay := fun hmax => by
        rw [(hcall.forever hmax).1] at hzero
        cases hzero
      refine (h.judge_late hmax ?_).finish t _
      cases hset : c.xEntryTimeSet with
      | false =>
        rw [← (hcall.unset hset).1, hzero]
        exact Nat.zero_le _
      | true =>
        rw [QueueCall.waited, if_pos hset]
        rcases hcall.left hset hmax with ⟨-, hlt, hleft⟩ | ⟨-, -, hover⟩
        · rw [hzero, UInt32.toNat_zero] at hleft
          omega
        · exact hover
    · -- refused again
      refine h.keep t ⟨fun hc => ?_, hcall.looked, fun hmax => ?_, fun _ hmax => ?_⟩
      · rw [hset] at hc
        cases hc
      · exact ⟨(hcall.forever hmax).1, nofun⟩
      · rcases hcall.left hset hmax with ⟨-, hlt, hleft⟩ | ⟨-, hnone, -⟩
        · exact Or.inl ⟨nofun, hlt, hleft⟩
        · exact absurd hnone hzero
    · -- refused for the first time
      have hblock := (hcall.unset (Bool.eq_false_iff.mpr hset)).1
      refine h.keep t ⟨fun hc => ?_, fun _ => ⟨rfl, le_rfl, le_rfl⟩, fun hmax => ?_, fun _ _ => ?_⟩
      · cases hc
      · exact ⟨hblock.trans hmax, nofun⟩
      · have hpos : 0 < c.block.toNat := by
          rw [Nat.pos_iff_ne_zero, ← UInt32.toNat_zero, Ne, UInt32.toNat_inj, ← hblock]
          exact hzero
        exact Or.inl ⟨nofun, by simpa using hpos, by simp [hblock]⟩

/-- …the one that looks at the clock… -/
theorem stepRefused (h : s.Timed) {t : ι} {c : QueueCall} (hc : c ∈ s.calls t)
    (hphase : c.phase = .refused) (hlook : LooksInTime s (.step t)) : (s.stepCall t c).Timed := by
  have hcall := h.calls t c hc
  have hset : c.xEntryTimeSet = true := by
    by_contra hunset
    rw [(hcall.unset (Bool.eq_false_iff.mpr hunset)).2] at hphase
    cases hphase
  obtain ⟨htimeOut, hfirst, hnow⟩ := hcall.looked hset
  have hwaited : c.waited s.now = s.now - c.firstAt := if_pos hset
  simp only [KernelQueue.stepCall, hphase, htimeOut]
  by_cases hmax : c.block = portMaxDelay
  · -- a call that waits for ever
    have hticks := (hcall.forever hmax).1
    have hcheck : xTaskCheckForTimeOut s.now (vTaskInternalSetTimeOutState c.lookedAt)
        c.xTicksToWait = (false, vTaskInternalSetTimeOutState c.lookedAt, c.xTicksToWait) := by
      rw [xTaskCheckForTimeOut, if_pos hticks]
    simp only [hcheck, Bool.false_eq_true, if_false, if_pos hticks]
    refine (h.judge (iff_of_false Bool.false_ne_true fun hc => hc.1 hmax)).keep t
      ⟨fun hc => ?_, fun _ => ⟨rfl, hfirst, hnow⟩, fun _ => ⟨hticks, nofun⟩, fun _ hne => ?_⟩
    · rw [hset] at hc
      cases hc
    · exact absurd hmax hne
  · obtain ⟨-, hlt, hleft⟩ | ⟨hne, -, -⟩ := hcall.left hset hmax
    swap
    · exact absurd hphase hne
    have hblock := c.block.toNat_lt
    have hticks : c.xTicksToWait ≠ portMaxDelay := fun hc => by
      have h1 : c.block.toNat ≠ portMaxDelay.toNat := fun h => hmax (UInt32.toNat_inj.mp h)
      have h2 : portMaxDelay.toNat = 2 ^ 32 - 1 := by decide
      rw [hc] at hleft
      omega
    have hround := hlook c hc hphase hmax
    simp only [xTaskCheckForTimeOut_eq hnow hround hticks, if_neg hticks]
    by_cases hover : s.now - c.lookedAt < c.xTicksToWait.toNat
    · -- there is time left
      simp only [if_pos hover, Bool.false_eq_true, if_false]
      refine (h.judge (iff_of_false Bool.false_ne_true fun hc => ?_)).keep t
        ⟨fun hc => ?_, fun _ => ⟨rfl, hfirst.trans hnow, le_rfl⟩, fun hc => absurd hc hmax,
          fun _ _ => Or.inl ⟨nofun, ?_, ?_⟩⟩
      · have hle : c.block.toNat ≤ c.waited s.now := hc.2
        rw [hwaited] at hle
        omega
      · rw [hset] at hc
        cases hc
      · change s.now - c.firstAt < c.block.toNat
        omega
      · have helapsed := toNat_tick_sub hnow hround
        have hle : tick s.now - tick c.lookedAt ≤ c.xTicksToWait := by
          rw [UInt32.le_iff_toNat_le, helapsed]
          exact hover.le
        change (c.xTicksToWait - (tick s.now - tick c.lookedAt)).toNat =
          c.block.toNat - (s.now - c.firstAt)
        rw [UInt32.toNat_sub_of_le _ _ hle, helapsed]
        omega
    · -- the time is over
      have hend : c.block.toNat ≤ s.now - c.firstAt := by omega
      have hjudged := h.judge_late hmax (hwaited ▸ hend)
      simp only [if_neg hover, if_true]
      split_ifs
      · refine hjudged.keep t ⟨fun hc => ?_, fun _ => ⟨rfl, hfirst, hnow⟩,
          fun hc => absurd hc hmax, fun _ _ => Or.inr ⟨nofun, rfl, hend⟩⟩
        rw [hset] at hc
        cases hc
      · exact hjudged.finish t _

/-- …and the last look of a reader. -/
theorem stepLate (h : s.Timed) {t : ι} {c : QueueCall} (hc : c ∈ s.calls t)
    (hphase : c.phase = .late) : (s.stepCall t c).Timed := by
  have hcall := h.calls t c hc
  have hset : c.xEntryTimeSet = true := by
    by_contra hunset
    rw [(hcall.unset (Bool.eq_false_iff.mpr hunset)).2] at hphase
    cases hphase
  have hmax : c.block ≠ portMaxDelay := fun hmax => (hcall.forever hmax).2 hphase
  obtain ⟨hne, -, -⟩ | ⟨-, hzero, hover⟩ := hcall.left hset hmax
  · exact absurd hphase hne
  have hwaited : c.waited s.now = s.now - c.firstAt := if_pos hset
  simp only [KernelQueue.stepCall, hphase]
  split_ifs
  · exact (h.judge_late hmax (hwaited ▸ hover)).finish t _
  · refine h.keep t ⟨fun hc => ?_, hcall.looked, fun hc => absurd hc hmax,
      fun _ _ => Or.inr ⟨nofun, hzero, hover⟩⟩
    rw [hset] at hc
    cases hc

/-- **Every action keeps the time.** -/
theorem next (h : s.Timed) {a : QueueAct ι} (ha : LooksInTime s a) : (s.next a).Timed := by
  cases a with
  | ticks k => exact ⟨fun t c hc => (h.calls t c hc).mono (Nat.le_add_right _ _), h.verdicts⟩
  | call t r w =>
    rw [KernelQueue.next]
    split
    · exact h
    · refine h.keep t ⟨fun _ => ⟨rfl, rfl⟩, fun hc => ?_, fun hmax => ⟨hmax, ?_⟩, fun hc => ?_⟩
      · cases hc
      · exact fun hc => by cases hc
      · cases hc
  | step t =>
    rw [KernelQueue.next]
    split
    · next c hc =>
      cases hphase : c.phase with
      | trying => exact h.stepTrying hc hphase
      | refused => exact h.stepRefused hc hphase ha
      | late => exact h.stepLate hc hphase
    · exact h

end KernelQueue.Timed

instance (s : KernelQueue ι) : ∀ a : QueueAct ι, Decidable (LooksInTime s a)
  | .step t => inferInstanceAs (Decidable (∀ c ∈ s.calls t, _ → _ → _))
  | .ticks _ | .call _ _ _ => inferInstanceAs (Decidable True)

/-- **The time of a call is up when it is, and not before.**  In every run in which no call is kept
from the clock for a round of the counter, whenever a call looks whether its time is up, the answer
is yes if and only if its block time is finite and has passed since it was first refused.  A sender
whose time is up gives up; a reader looks at the queue once more. -/
theorem queue_verdicts (q : QueueT) (as : List (QueueAct ι))
    (h : EachStep KernelQueue.next LooksInTime (.start q) as) :
    ∀ v ∈ (KernelQueue.run q as).verdicts, v.Right := by
  have hstart : (KernelQueue.start q : KernelQueue ι).Timed :=
    ⟨fun t c hc => (by cases hc), fun v hv => absurd hv List.not_mem_nil⟩
  exact (EachStep.run (fun s a hs ha => hs.next ha) as hstart h).verdicts

/-- A sender that may block for 100 ticks looks at the clock after 60 and after 120 ticks, the
counter having wrapped. -/
theorem queue_verdicts_wrapped :
    let s := KernelQueue.run oneByteQueue
      [.call (0 : ℕ) (.send [7]) 0, .step 0, .ticks (2 ^ 32 - 50), .call 1 (.send [8]) 100, .step 1,
        .ticks 60, .step 1, .step 1, .ticks 60, .step 1]
    s.verdicts.length = 2 ∧ ∀ v ∈ s.verdicts, v.Right :=
  ⟨by decide +kernel, queue_verdicts oneByteQueue
    [.call (0 : ℕ) (.send [7]) 0, .step 0, .ticks (2 ^ 32 - 50), .call 1 (.send [8]) 100, .step 1,
      .ticks 60, .step 1, .step 1, .ticks 60, .step 1] (by decide +kernel)⟩

end GrainWarehouse

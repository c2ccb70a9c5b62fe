import GrainWarehouse.Machinery.Replay
import GrainWarehouse.Machinery.Slots

/-!
# FreeRtos/Queue — the kernel's queue is a bounded queue

`queue.c` keeps its items by copy in a block of memory, and four pointers into it: `pcReadFrom` is
the place *last* read from, `pcWriteTo` the place to write next.  What the callers see happens in
critical sections, and `QueueT.attempt` is the section of each call: it does its work, or finds the
queue full or empty.

`QueueT.Holds` says which items a queue holds, and **each section does what a bounded queue does**,
writing nowhere outside the block (`attempt_some`, `attempt_none`); a queue starts empty
(`holds_xQueueGenericCreate`).
-/

namespace GrainWarehouse

/-- `Queue_t` and the memory it lies in.  The lists of waiting tasks and the two locks are left out:
they tell the kernel whom to wake, and no item depends on them. -/
structure QueueT where
  pcHead : ℤ
  pcWriteTo : ℤ
  pcTail : ℤ
  pcReadFrom : ℤ
  uxMessagesWaiting : UInt32
  uxLength : UInt32
  uxItemSize : UInt32
  mem : ℤ → UInt8

/-- `queueSEND_TO_BACK` and its siblings. -/
inductive CopyPosition
  | sendToBack | sendToFront | overwrite
  deriving DecidableEq

/-- `xQueueGenericReset`, as far as the items go: `none` for `pdFAIL`. -/
def xQueueGenericReset (q : QueueT) : Option QueueT :=
  if q.uxLength ≥ 1 ∧ 0xFFFFFFFF / q.uxLength ≥ q.uxItemSize then
    some { q with
      pcTail := q.pcHead + (q.uxLength * q.uxItemSize).toNat
      uxMessagesWaiting := 0
      pcWriteTo := q.pcHead
      pcReadFrom := q.pcHead + ((q.uxLength - 1) * q.uxItemSize).toNat }
  else none

/-- `prvInitialiseNewQueue`, the structure lying at `address`: the result of the reset is thrown
away. -/
def prvInitialiseNewQueue (uxQueueLength uxItemSize : UInt32) (pucQueueStorage address : ℤ)
    (pxNewQueue : QueueT) : QueueT :=
  let q := { pxNewQueue with
    -- a queue without storage points to itself, `NULL` being the mark of a mutex
    pcHead := if uxItemSize = 0 then address else pucQueueStorage
    uxLength := uxQueueLength
    uxItemSize := uxItemSize }
  (xQueueGenericReset q).getD q

/-- `xQueueGenericCreate`, `block` being what `pvPortMalloc` returns and `fresh` the structure that
lies there. -/
def xQueueGenericCreate (sizeofQueue uxQueueLength uxItemSize : UInt32) (block : Option ℤ)
    (fresh : QueueT) : Option QueueT :=
  if uxQueueLength > 0 ∧ 0xFFFFFFFF / uxQueueLength ≥ uxItemSize ∧
      0xFFFFFFFF - sizeofQueue ≥ uxQueueLength * uxItemSize then
    block.map fun pxNewQueue =>
      prvInitialiseNewQueue uxQueueLength uxItemSize (pxNewQueue + sizeofQueue.toNat) pxNewQueue
        fresh
  else none

/-- `prvCopyDataToQueue`. -/
def prvCopyDataToQueue (pvItemToQueue : List UInt8) (xPosition : CopyPosition) (q : QueueT) :
    QueueT :=
  if q.uxItemSize = 0 then { q with uxMessagesWaiting := q.uxMessagesWaiting + 1 }
  else if xPosition = .sendToBack then
    let pcWriteTo := q.pcWriteTo + q.uxItemSize.toNat
    { q with
      mem := memcpy q.mem q.pcWriteTo pvItemToQueue
      pcWriteTo := if q.pcTail ≤ pcWriteTo then q.pcHead else pcWriteTo
      uxMessagesWaiting := q.uxMessagesWaiting + 1 }
  else
    let pcReadFrom := q.pcReadFrom - q.uxItemSize.toNat
    { q with
      mem := memcpy q.mem q.pcReadFrom pvItemToQueue
      pcReadFrom := if pcReadFrom < q.pcHead then q.pcTail - q.uxItemSize.toNat else pcReadFrom
      uxMessagesWaiting :=
        -- an item is not added but overwritten
        (if xPosition = .overwrite ∧ q.uxMessagesWaiting > 0 then q.uxMessagesWaiting - 1
          else q.uxMessagesWaiting) + 1 }

/-- `prvCopyDataFromQueue`: the item, and the place it was read from. -/
def prvCopyDataFromQueue (q : QueueT) : List UInt8 × QueueT :=
  if q.uxItemSize ≠ 0 then
    let pcReadFrom := q.pcReadFrom + q.uxItemSize.toNat
    let pcReadFrom := if q.pcTail ≤ pcReadFrom then q.pcHead else pcReadFrom
    (bytesAt q.mem pcReadFrom q.uxItemSize.toNat, { q with pcReadFrom := pcReadFrom })
  else ([], q)

/-! ## The critical sections -/

namespace QueueT

/-- In `xQueueGenericSend`. -/
def sendSection (item : List UInt8) (xCopyPosition : CopyPosition) (q : QueueT) : Option QueueT :=
  if q.uxMessagesWaiting < q.uxLength ∨ xCopyPosition = .overwrite then
    some (prvCopyDataToQueue item xCopyPosition q)
  else none

/-- In `xQueueReceive`. -/
def receiveSection (q : QueueT) : Option (List UInt8 × QueueT) :=
  if q.uxMessagesWaiting > 0 then
    let r := prvCopyDataFromQueue q
    some (r.1, { r.2 with uxMessagesWaiting := q.uxMessagesWaiting - 1 })
  else none

/-- In `xQueuePeek`: the item is left where it is. -/
def peekSection (q : QueueT) : Option (List UInt8 × QueueT) :=
  if q.uxMessagesWaiting > 0 then
    let r := prvCopyDataFromQueue q
    some (r.1, { r.2 with pcReadFrom := q.pcReadFrom })
  else none

/-- **The section of each call.** -/
def attempt : Attempt (Fifo.Request (List UInt8)) (Option (List UInt8)) QueueT
  | .send x, q => (q.sendSection x .sendToBack).map fun q' => (none, q')
  | .sendFront x, q => (q.sendSection x .sendToFront).map fun q' => (none, q')
  | .overwrite x, q => (q.sendSection x .overwrite).map fun q' => (none, q')
  | .receive, q => q.receiveSection.map fun (x, q') => (some x, q')
  | .peek, q => q.peekSection.map fun (x, q') => (some x, q')

end QueueT

/-! ## What a queue holds -/

variable {n : ℕ} [NeZero n] {size : ℕ}

/-- **The queue holds these items**, the oldest in slot `s`. -/
structure QueueT.HoldsAt (size : ℕ) (q : QueueT) (s : Fin n) (items : List (List UInt8)) :
    Prop where
  uxLength : q.uxLength.toNat = n
  uxItemSize : q.uxItemSize.toNat = size
  pcTail : q.pcTail = q.pcHead + (n * size : ℕ)
  pcReadFrom : q.pcReadFrom = slotAt q.pcHead size (s - 1)
  pcWriteTo : q.pcWriteTo = slotAt q.pcHead size (s + Fin.ofNat n items.length)
  uxMessagesWaiting : q.uxMessagesWaiting.toNat = items.length
  items : window (slots q.mem q.pcHead size) s items.length = items

/-- …as a bounded queue. -/
def QueueT.Holds (size : ℕ) (q : QueueT) (f : Fifo (List UInt8) n) : Prop :=
  ∃ s : Fin n, q.HoldsAt size s f.items

/-- What may be asked of a queue of `n` slots of `size` bytes: items have that size, and only a
mailbox is overwritten (`configASSERT`). -/
def FitsQueue (n size : ℕ) : Fifo.Request (List UInt8) → Prop
  | .send x => x.length = size
  | .sendFront x => x.length = size
  | .overwrite x => x.length = size ∧ n = 1
  | .receive => True
  | .peek => True

/-- One queue after another: the block is the same, and memory outside it is untouched. -/
structure QueueT.Within (n size : ℕ) (q q' : QueueT) : Prop where
  pcHead : q'.pcHead = q.pcHead
  mem : ∀ a, a < q.pcHead ∨ q.pcHead + (n * size : ℕ) ≤ a → q'.mem a = q.mem a

omit [NeZero n] in
theorem QueueT.Within.refl (q : QueueT) : q.Within n size q := ⟨rfl, fun _ _ => rfl⟩

omit [NeZero n] in
theorem QueueT.Within.trans {q q' q'' : QueueT} (h : q.Within n size q')
    (h' : q'.Within n size q'') : q.Within n size q'' :=
  ⟨h'.pcHead.trans h.pcHead,
    fun a ha => (h'.mem a (by rwa [h.pcHead])).trans (h.mem a ha)⟩

/-- **A queue starts empty**, if it is created at all. -/
theorem holds_xQueueGenericCreate {sizeofQueue uxQueueLength uxItemSize : UInt32}
    {block : Option ℤ} {fresh q : QueueT} (hn : uxQueueLength.toNat = n)
    (hsize : uxItemSize.toNat = size)
    (h : xQueueGenericCreate sizeofQueue uxQueueLength uxItemSize block fresh = some q) :
    q.Holds size (Fifo.empty : Fifo (List UInt8) n) := by
  rw [xQueueGenericCreate] at h
  split at h
  swap
  · cases h
  next hcheck =>
  obtain ⟨hpos, hmul, -⟩ := hcheck
  obtain ⟨pxNewQueue, -, rfl⟩ := Option.map_eq_some_iff.mp h
  have hnpos := NeZero.pos n
  have hone : (1 : UInt32) ≤ uxQueueLength := by
    rw [UInt32.le_iff_toNat_le, hn]
    exact hnpos
  -- the check of the overflow
  have hbound : n * size ≤ 0xFFFFFFFF := by
    rw [ge_iff_le, UInt32.le_iff_toNat_le, UInt32.toNat_div, hn, hsize] at hmul
    rw [Nat.mul_comm]
    exact (Nat.le_div_iff_mul_le hnpos).mp hmul
  have hle : (n - 1) * size ≤ n * size := Nat.mul_le_mul_right size (Nat.sub_le n 1)
  have htail : (uxQueueLength * uxItemSize).toNat = n * size := by
    rw [UInt32.toNat_mul, hn, hsize, Nat.mod_eq_of_lt (by omega)]
  have hread : ((uxQueueLength - 1) * uxItemSize).toNat = (n - 1) * size := by
    rw [UInt32.toNat_mul, UInt32.toNat_sub_of_le _ _ hone, hn, hsize, UInt32.toNat_one,
      Nat.mod_eq_of_lt (by omega)]
  have hlast : ((0 : Fin n) - 1).val = n - 1 := by
    rw [Fin.val_sub, Fin.val_zero, Nat.add_zero, Fin.val_one']
    rcases Nat.lt_or_ge 1 n with h1 | h1
    · rw [Nat.mod_eq_of_lt h1, Nat.mod_eq_of_lt (by omega)]
    · obtain rfl : n = 1 := by omega
      rfl
  rw [prvInitialiseNewQueue, xQueueGenericReset, if_pos ⟨hone, hmul⟩, Option.getD_some]
  refine ⟨0, hn, hsize, ?_, ?_, ?_, rfl, rfl⟩
  · rw [htail]
  · rw [hread, slotAt, hlast]
  · simp [slotAt, Fifo.empty]

/-! ## Each section does what a bounded queue does -/

section Sections

variable {q q' : QueueT} {f : Fifo (List UInt8) n} {s : Fin n} {x : List UInt8}

/-- There is room in the one exactly when there is in the other. -/
theorem QueueT.HoldsAt.room_iff (h : q.HoldsAt size s f.items) :
    q.uxMessagesWaiting < q.uxLength ↔ f.Room := by
  rw [UInt32.lt_iff_toNat_lt, h.uxMessagesWaiting, h.uxLength]
  exact Iff.rfl

theorem QueueT.HoldsAt.ne_nil_iff {items : List (List UInt8)} (h : q.HoldsAt size s items) :
    q.uxMessagesWaiting > 0 ↔ items ≠ [] := by
  rw [gt_iff_lt, UInt32.lt_iff_toNat_lt, h.uxMessagesWaiting, ← List.length_pos_iff]
  exact Iff.rfl

theorem QueueT.HoldsAt.uxItemSize_ne_zero {items : List (List UInt8)}
    (h : q.HoldsAt size s items) (hsize : 0 < size) : q.uxItemSize ≠ 0 := by
  intro hzero
  have := h.uxItemSize
  rw [hzero, UInt32.toNat_zero] at this
  omega

/-- The count after one more, while there is room. -/
theorem QueueT.HoldsAt.count_succ {items : List (List UInt8)} (h : q.HoldsAt size s items)
    (hroom : items.length < n) : (q.uxMessagesWaiting + 1).toNat = items.length + 1 := by
  have hn := q.uxLength.toNat_lt
  rw [h.uxLength] at hn
  rw [UInt32.toNat_add, h.uxMessagesWaiting, UInt32.toNat_one, Nat.mod_eq_of_lt (by omega)]

/-- **A copy to the back** puts the item behind the others. -/
theorem holdsAt_sendToBack {items : List (List UInt8)} (h : q.HoldsAt size s items)
    (hsize : 0 < size) (hx : x.length = size) (hroom : items.length < n) :
    (prvCopyDataToQueue x .sendToBack q).HoldsAt size s (items ++ [x]) ∧
      q.Within n size (prvCopyDataToQueue x .sendToBack q) := by
  rw [prvCopyDataToQueue, if_neg (h.uxItemSize_ne_zero hsize), if_pos rfl]
  have hlen : (items ++ [x]).length = items.length + 1 := List.length_append
  refine ⟨⟨h.uxLength, h.uxItemSize, h.pcTail, h.pcReadFrom, ?_, ?_, ?_⟩, rfl, fun a ha => ?_⟩
  · dsimp only
    rw [h.uxItemSize, h.pcTail, h.pcWriteTo, slotAt_next _ hsize, hlen, add_ofNat_succ,
      add_right_comm]
  · rw [hlen]
    exact h.count_succ hroom
  · dsimp only
    rw [hlen, h.pcWriteTo, slots_memcpy _ _ _ hx, window_update_succ _ _ hroom, h.items]
  · dsimp only
    rw [h.pcWriteTo]
    exact memcpy_slot_of_outside hx ha

/-- **A copy to the front** puts it before the others… -/
theorem holdsAt_sendToFront {items : List (List UInt8)} (h : q.HoldsAt size s items)
    (hsize : 0 < size) (hx : x.length = size) (hroom : items.length < n) :
    (prvCopyDataToQueue x .sendToFront q).HoldsAt size (s - 1) (x :: items) ∧
      q.Within n size (prvCopyDataToQueue x .sendToFront q) := by
  rw [prvCopyDataToQueue, if_neg (h.uxItemSize_ne_zero hsize), if_neg (by decide)]
  refine ⟨⟨h.uxLength, h.uxItemSize, h.pcTail, ?_, ?_, ?_, ?_⟩, rfl, fun a ha => ?_⟩
  · dsimp only
    rw [h.uxItemSize, h.pcTail, h.pcReadFrom, slotAt_prev _ hsize]
  · rw [h.pcWriteTo, List.length_cons, add_ofNat_succ, sub_add_cancel]
  · have hpos : ¬ (CopyPosition.sendToFront = .overwrite ∧ q.uxMessagesWaiting > 0) :=
      fun hc => by cases hc.1
    rw [if_neg hpos]
    exact h.count_succ hroom
  · dsimp only
    rw [h.pcReadFrom, slots_memcpy _ _ _ hx, List.length_cons, window_update_pred _ _ hroom,
      h.items]
  · dsimp only
    rw [h.pcReadFrom]
    exact memcpy_slot_of_outside hx ha

/-- …and an overwrite leaves nothing else in a mailbox. -/
theorem holdsAt_overwrite {items : List (List UInt8)} (h : q.HoldsAt size s items)
    (hsize : 0 < size) (hx : x.length = size) (hn : n = 1) (hle : items.length ≤ n) :
    (prvCopyDataToQueue x .overwrite q).HoldsAt size (s - 1) [x] ∧
      q.Within n size (prvCopyDataToQueue x .overwrite q) := by
  subst hn
  rw [prvCopyDataToQueue, if_neg (h.uxItemSize_ne_zero hsize), if_neg (by decide)]
  refine ⟨⟨h.uxLength, h.uxItemSize, h.pcTail, ?_, ?_, ?_, ?_⟩, rfl, fun a ha => ?_⟩
  · dsimp only
    rw [h.uxItemSize, h.pcTail, h.pcReadFrom, slotAt_prev _ hsize]
  · rw [h.pcWriteTo]
    exact congrArg _ (Subsingleton.elim _ _)
  · have hcount := h.uxMessagesWaiting
    by_cases hpos : q.uxMessagesWaiting > 0
    · have h1 : q.uxMessagesWaiting = 1 := by
        rw [← UInt32.toNat_inj, UInt32.toNat_one]
        rw [gt_iff_lt, UInt32.lt_iff_toNat_lt, UInt32.toNat_zero] at hpos
        omega
      rw [if_pos ⟨rfl, hpos⟩, h1]
      rfl
    · rw [if_neg fun hc => hpos hc.2]
      have h0 : q.uxMessagesWaiting = 0 := by
        rw [gt_iff_lt, UInt32.not_lt] at hpos
        exact UInt32.le_zero_iff.mp hpos
      rw [h0]
      rfl
  · dsimp only
    rw [h.pcReadFrom, slots_memcpy _ _ _ hx]
    exact window_update_pred _ s Nat.one_pos x
  · dsimp only
    rw [h.pcReadFrom]
    exact memcpy_slot_of_outside hx ha

/-- **The place read is that of the oldest item.** -/
theorem prvCopyDataFromQueue_eq {items : List (List UInt8)} (h : q.HoldsAt size s (x :: items))
    (hsize : 0 < size) :
    prvCopyDataFromQueue q = (x, { q with pcReadFrom := slotAt q.pcHead size s }) := by
  have hread := h.items
  rw [List.length_cons, window_cons] at hread
  rw [prvCopyDataFromQueue, if_pos (h.uxItemSize_ne_zero hsize), h.uxItemSize, h.pcTail,
    h.pcReadFrom]
  dsimp only
  rw [slotAt_next _ hsize, sub_add_cancel]
  exact congrArg (·, _) (List.cons.inj hread).1

/-- Taking the oldest item moves on to the next. -/
theorem holdsAt_receive {items : List (List UInt8)} (h : q.HoldsAt size s (x :: items)) :
    QueueT.HoldsAt size { q with
      pcReadFrom := slotAt q.pcHead size s
      uxMessagesWaiting := q.uxMessagesWaiting - 1 } (s + 1) items := by
  have hcount := h.uxMessagesWaiting
  have hwindow := h.items
  rw [List.length_cons] at hcount
  rw [List.length_cons, window_cons] at hwindow
  refine ⟨h.uxLength, h.uxItemSize, h.pcTail, ?_, ?_, ?_, (List.cons.inj hwindow).2⟩
  · rw [add_sub_cancel_right]
  · rw [← add_ofNat_succ]
    exact h.pcWriteTo
  · have hone : (1 : UInt32) ≤ q.uxMessagesWaiting := by
      rw [UInt32.le_iff_toNat_le, hcount, UInt32.toNat_one]
      exact Nat.succ_le_succ (Nat.zero_le _)
    rw [UInt32.toNat_sub_of_le _ _ hone, hcount, UInt32.toNat_one, Nat.add_sub_cancel]

/-- A send that goes on found room, or overwrites. -/
theorem QueueT.sendSection_eq_some {pos : CopyPosition} (h : q.sendSection x pos = some q') :
    (q.uxMessagesWaiting < q.uxLength ∨ pos = .overwrite) ∧ q' = prvCopyDataToQueue x pos q := by
  rw [sendSection] at h
  split at h
  · next hroom => exact ⟨hroom, (Option.some.inj h).symm⟩
  · cases h

theorem QueueT.full_of_sendSection {pos : CopyPosition} (h : q.sendSection x pos = none) :
    ¬ q.uxMessagesWaiting < q.uxLength := by
  intro hroom
  rw [sendSection, if_pos (Or.inl hroom)] at h
  cases h

/-- **A section that does its work does what a bounded queue does**, within the block. -/
theorem attempt_some {r : Fifo.Request (List UInt8)} {b : Option (List UInt8)}
    (h : q.Holds size f) (hsize : 0 < size) (hr : FitsQueue n size r)
    (hq : QueueT.attempt r q = some (b, q')) :
    ∃ f', Fifo.attempt r f = some (b, f') ∧ q'.Holds size f' ∧ q.Within n size q' := by
  obtain ⟨s, hs⟩ := h
  -- what is read, when there is something to read
  have oldest : q.uxMessagesWaiting > 0 → ∃ x rest, f.items = x :: rest :=
    fun hpos => List.exists_cons_of_ne_nil (hs.ne_nil_iff.mp hpos)
  cases r with
  | send x =>
    obtain ⟨q₁, hsec, heq⟩ := Option.map_eq_some_iff.mp hq
    obtain ⟨rfl, rfl⟩ := Prod.mk.inj heq
    obtain ⟨hroom, rfl⟩ := QueueT.sendSection_eq_some hsec
    have hroom := hs.room_iff.mp (hroom.resolve_right (by decide))
    obtain ⟨hholds, hwithin⟩ := holdsAt_sendToBack hs hsize hr hroom
    exact ⟨_, by rw [Fifo.attempt, Fifo.send, dif_pos hroom]; rfl, ⟨s, hholds⟩, hwithin⟩
  | sendFront x =>
    obtain ⟨q₁, hsec, heq⟩ := Option.map_eq_some_iff.mp hq
    obtain ⟨rfl, rfl⟩ := Prod.mk.inj heq
    obtain ⟨hroom, rfl⟩ := QueueT.sendSection_eq_some hsec
    have hroom := hs.room_iff.mp (hroom.resolve_right (by decide))
    obtain ⟨hholds, hwithin⟩ := holdsAt_sendToFront hs hsize hr hroom
    exact ⟨_, by rw [Fifo.attempt, Fifo.sendFront, dif_pos hroom]; rfl, ⟨s - 1, hholds⟩, hwithin⟩
  | overwrite x =>
    obtain ⟨q₁, hsec, heq⟩ := Option.map_eq_some_iff.mp hq
    obtain ⟨rfl, rfl⟩ := Prod.mk.inj heq
    obtain ⟨-, rfl⟩ := QueueT.sendSection_eq_some hsec
    obtain ⟨hholds, hwithin⟩ := holdsAt_overwrite hs hsize hr.1 hr.2 f.le
    exact ⟨_, by rw [Fifo.attempt, Fifo.overwrite, dif_pos (NeZero.pos n)]; rfl,
      ⟨s - 1, hholds⟩, hwithin⟩
  | receive =>
    obtain ⟨⟨x₁, q₁⟩, hsec, heq⟩ := Option.map_eq_some_iff.mp hq
    obtain ⟨rfl, rfl⟩ := Prod.mk.inj heq
    rw [QueueT.receiveSection] at hsec
    split_ifs at hsec with hpos
    obtain ⟨x, rest, hitems⟩ := oldest hpos
    obtain ⟨items, hle⟩ := f
    obtain rfl : items = x :: rest := hitems
    rw [prvCopyDataFromQueue_eq hs hsize] at hsec
    obtain ⟨rfl, rfl⟩ := Prod.mk.inj (Option.some.inj hsec)
    have hrest := holdsAt_receive hs
    exact ⟨⟨rest, Nat.le_of_succ_le hle⟩, rfl, ⟨s + 1, hrest⟩, rfl, fun _ _ => rfl⟩
  | peek =>
    obtain ⟨⟨x₁, q₁⟩, hsec, heq⟩ := Option.map_eq_some_iff.mp hq
    obtain ⟨rfl, rfl⟩ := Prod.mk.inj heq
    rw [QueueT.peekSection] at hsec
    split_ifs at hsec with hpos
    obtain ⟨x, rest, hitems⟩ := oldest hpos
    obtain ⟨items, hle⟩ := f
    obtain rfl : items = x :: rest := hitems
    rw [prvCopyDataFromQueue_eq hs hsize] at hsec
    obtain ⟨rfl, rfl⟩ := Prod.mk.inj (Option.some.inj hsec)
    exact ⟨⟨x :: rest, hle⟩, rfl, ⟨s, hs⟩, rfl, fun _ _ => rfl⟩

/-- **…and one that finds the queue full or empty finds the bounded queue so.** -/
theorem attempt_none {r : Fifo.Request (List UInt8)} (h : q.Holds size f)
    (hq : QueueT.attempt r q = none) : Fifo.attempt r f = none := by
  obtain ⟨s, hs⟩ := h
  -- an empty queue gives nothing to read
  have nothing (hpos : ¬ q.uxMessagesWaiting > 0) : f.items = [] :=
    not_not.mp fun hne => hpos (hs.ne_nil_iff.mpr hne)
  cases r with
  | send x =>
    have hsec := Option.map_eq_none_iff.mp hq
    have hfull := mt hs.room_iff.mpr (QueueT.full_of_sendSection hsec)
    rw [Fifo.attempt, Fifo.send, dif_neg hfull]
    rfl
  | sendFront x =>
    have hsec := Option.map_eq_none_iff.mp hq
    have hfull := mt hs.room_iff.mpr (QueueT.full_of_sendSection hsec)
    rw [Fifo.attempt, Fifo.sendFront, dif_neg hfull]
    rfl
  | overwrite x =>
    rw [QueueT.attempt, QueueT.sendSection, if_pos (Or.inr rfl)] at hq
    cases hq
  | receive =>
    have hsec := Option.map_eq_none_iff.mp hq
    rw [QueueT.receiveSection] at hsec
    split_ifs at hsec with hpos
    obtain ⟨items, hle⟩ := f
    obtain rfl : items = [] := nothing hpos
    rfl
  | peek =>
    have hsec := Option.map_eq_none_iff.mp hq
    rw [QueueT.peekSection] at hsec
    split_ifs at hsec with hpos
    rw [Fifo.attempt, nothing hpos]
    rfl

end Sections

end GrainWarehouse

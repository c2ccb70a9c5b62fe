import GrainWarehouse.Machinery.Fifo
import GrainWarehouse.Machinery.Interrupt
import GrainWarehouse.Esp8266.Ring

/-!
# Esp8266/Shared — the receive ring as two parties see it

`Esp8266/Ring` takes each ring operation as one step on indices that cannot leave the buffer.  Here
`ring_t` is as declared, with `uint16_t` indices, and the operations of the task are programs of
single accesses, so that `ESP_UART_IRQHandler` may come in between any two of them.

Under every schedule the ring is a queue of capacity 1023 (`ring_refines_fifo`): the task's calls do
what `fifoCall` does to a `Ledger`, whatever arrives while they run.
-/

namespace GrainWarehouse.Shared

open Prog

/-- `ESP_RXBUF_MASK`. -/
abbrev espRxbufMask : UInt16 := 1023

/-- `ring_t`; `buf` is the memory from the buffer on, whose first 1024 bytes are the buffer. -/
structure Ring where
  buf : ℕ → UInt8
  head : UInt16
  tail : UInt16

/-- `static ring_t s_rx = { {0}, 0, 0 }`. -/
def Ring.empty : Ring := ⟨fun _ => 0, 0, 0⟩

/-- `(head - tail) & ESP_RXBUF_MASK`. -/
def used (head tail : UInt16) : UInt16 := (head - tail) &&& espRxbufMask

/-- `ring_used`. -/
def ringUsed (r : Ring) : UInt16 := used r.head r.tail

/-- `ring_free`. -/
def ringFree (r : Ring) : UInt16 := 1024 - 1 - ringUsed r

/-- `ring_push`. -/
def ringPush (r : Ring) (b : UInt8) : ℤ × Ring :=
  if ringFree r = 0 then (-1, r)
  else
    (0, { r with
      buf := Function.update r.buf r.head.toNat b
      head := (r.head + 1) &&& espRxbufMask })

namespace Ring

/-- Both indices are positions of the buffer. -/
structure InRange (r : Ring) : Prop where
  head : r.head.toNat < 1024
  tail : r.tail.toNat < 1024

/-- The ring of `Esp8266/Ring`. -/
def view (r : Ring) : RingT where
  buf i := r.buf i
  head := ⟨r.head.toNat % espRxbufSize, Nat.mod_lt _ (Nat.succ_pos _)⟩
  tail := ⟨r.tail.toNat % espRxbufSize, Nat.mod_lt _ (Nat.succ_pos _)⟩

theorem view_eq (r : Ring) :
    r.view = ⟨fun i => r.buf i, Fin.ofNat _ r.head.toNat, Fin.ofNat _ r.tail.toNat⟩ := rfl

/-- The unread bytes. -/
abbrev bytes (r : Ring) : List UInt8 := r.view.bytes

end Ring

theorem toNat_and_mask (i : UInt16) : (i &&& espRxbufMask).toNat = i.toNat % 1024 := by
  have h : espRxbufMask.toNat = 2 ^ 10 - 1 := rfl
  rw [UInt16.toNat_and, h, Nat.and_two_pow_sub_one_eq_mod]

/-- **`ring_used` counts the unread bytes.** -/
theorem toNat_ringUsed (r : Ring) : (ringUsed r).toNat = r.bytes.length := by
  have hhead := r.head.toNat_lt
  have htail := r.tail.toNat_lt
  rw [length_bytes, GrainWarehouse.ringUsed, ringUsed, used, toNat_and_mask, UInt16.toNat_sub,
    Ring.view_eq, Fin.sub_def]
  simp only [Fin.val_ofNat]
  change _ = (1024 - _ % 1024 + _ % 1024) % 1024
  omega

/-- Moving `tail` by `n` moves that of the view. -/
theorem view_tail_add (r : Ring) (n : UInt16) :
    ({ r with tail := (r.tail + n) &&& espRxbufMask } : Ring).view =
      { r.view with tail := r.view.tail + Fin.ofNat _ n.toNat } := by
  have htail : Fin.ofNat espRxbufSize ((r.tail + n) &&& espRxbufMask).toNat =
      Fin.ofNat espRxbufSize r.tail.toNat + Fin.ofNat _ n.toNat := by
    refine Fin.ext ?_
    rw [Fin.val_add, Fin.val_ofNat, Fin.val_ofNat, Fin.val_ofNat, toNat_and_mask, UInt16.toNat_add]
    change _ % 1024 % 1024 = (_ % 1024 + _ % 1024) % 1024
    omega
  simp only [Ring.view_eq, htail]

/-- The slot a position of the buffer names. -/
theorem view_buf (r : Ring) {i : ℕ} (h : i < 1024) : r.view.buf (Fin.ofNat _ i) = r.buf i := by
  change r.buf (i % 1024) = r.buf i
  rw [Nat.mod_eq_of_lt h]

theorem Ring.length_bytes_le (r : Ring) : r.bytes.length ≤ 1023 := by
  have hlt := ringUsed_lt r.view
  rw [← length_bytes] at hlt
  exact Nat.le_of_lt_succ hlt

theorem toNat_ringFree (r : Ring) : (ringFree r).toNat = 1023 - r.bytes.length := by
  have hle : ringUsed r ≤ 1024 - 1 := by
    rw [UInt16.le_iff_toNat_le, toNat_ringUsed]
    exact r.length_bytes_le
  rw [ringFree, UInt16.toNat_sub_of_le _ _ hle, toNat_ringUsed]
  rfl

theorem ringFree_eq_zero_iff (r : Ring) : ringFree r = 0 ↔ r.bytes.length = 1023 := by
  have hle := r.length_bytes_le
  rw [← UInt16.toNat_inj, toNat_ringFree, UInt16.toNat_zero]
  omega

/-- **A full ring refuses the byte** and is left as it is. -/
theorem ringPush_full {r : Ring} (h : r.bytes.length = 1023) (b : UInt8) :
    ringPush r b = (-1, r) := if_pos ((ringFree_eq_zero_iff r).mpr h)

/-- A push writes the slot of the view at its `head`. -/
theorem view_push {r : Ring} (h : r.InRange) (b : UInt8) :
    ({ r with
      buf := Function.update r.buf r.head.toNat b
      head := (r.head + 1) &&& espRxbufMask } : Ring).view =
    { r.view with
      buf := Function.update r.view.buf r.view.head b
      head := r.view.head + 1 } := by
  have hbuf : (fun i : Fin espRxbufSize => Function.update r.buf r.head.toNat b i) =
      Function.update r.view.buf r.view.head b := by
    funext i
    have hhead : r.view.head.val = r.head.toNat := Nat.mod_eq_of_lt h.head
    by_cases hi : i = r.view.head
    · rw [hi, Function.update_self, hhead, Function.update_self]
    · rw [Function.update_of_ne hi, Function.update_of_ne fun heq => hi (Fin.ext ?_)]
      · rfl
      · rw [heq, hhead]
  have hhead : Fin.ofNat espRxbufSize ((r.head + 1) &&& espRxbufMask).toNat =
      Fin.ofNat espRxbufSize r.head.toNat + 1 := by
    refine Fin.ext ?_
    rw [Fin.val_add, Fin.val_ofNat, Fin.val_ofNat, toNat_and_mask, UInt16.toNat_add]
    change (r.head.toNat + 1) % 65536 % 1024 % 1024 = (r.head.toNat % 1024 + 1) % 1024
    omega
  simp only [Ring.view_eq, hhead]
  exact congrArg (fun buf => RingT.mk buf _ _) hbuf

/-- **A ring with room appends the byte.** -/
theorem ringPush_room {r : Ring} (h : r.InRange) (hroom : r.bytes.length < 1023) (b : UInt8) :
    (ringPush r b).1 = 0 ∧ (ringPush r b).2.bytes = r.bytes ++ [b] := by
  have hfree : ¬ ringFree r = 0 := by
    rw [ringFree_eq_zero_iff]
    exact hroom.ne
  have hfree' : ¬ GrainWarehouse.ringFree r.view = 0 := by
    rw [GrainWarehouse.ringFree_eq_zero_iff]
    exact hroom.ne
  have hpush := (bytes_ringPush hroom b).1
  rw [GrainWarehouse.ringPush, if_neg hfree'] at hpush
  rw [ringPush, if_neg hfree]
  refine ⟨rfl, ?_⟩
  rw [Ring.bytes, view_push h]
  exact hpush

theorem inRange_ringPush {r : Ring} (h : r.InRange) (b : UInt8) : (ringPush r b).2.InRange := by
  rw [ringPush]
  split
  · exact h
  · refine ⟨?_, h.tail⟩
    rw [toNat_and_mask]
    exact Nat.mod_lt _ (by decide)

/-! ## The two parties -/

/-- The ring, and every byte it has taken in, in order. -/
structure Rx where
  ring : Ring
  taken : List UInt8

/-- `s_rx` at reset. -/
def Rx.boot : Rx := ⟨Ring.empty, []⟩

/-- `ESP_UART_IRQHandler` with `b` in the data register. -/
def espUartIrq (b : UInt8) (s : Rx) : Rx :=
  let r := ringPush s.ring b
  { ring := r.2, taken := if r.1 = 0 then s.taken ++ [b] else s.taken }

/-- `r->tail = i`. -/
def setTail (i : UInt16) (s : Rx) : Rx := { s with ring.tail := i }

/-- `ring_consume`, the first access made. -/
def ringConsumeFrom (n head : UInt16) : Prog Rx Unit := do
  let tail ← load (·.ring.tail)
  let used := used head tail
  let n := if n > used then used else n
  let tail ← load (·.ring.tail)
  store (setTail ((tail + n) &&& espRxbufMask))

/-- `ring_consume`.  C leaves open which index is read first; only `head` can move in between. -/
def ringConsume (n : UInt16) : Prog Rx Unit := do
  let head ← load (·.ring.head)
  ringConsumeFrom n head

/-- The loop of `ring_copy_out`, this many bytes before its end; `dst` has been written so far. -/
def copyLoop : ℕ → (dst : List UInt8) → Prog Rx (List UInt8)
  | 0, dst => return dst
  | n + 1, dst => do
    let tail ← load (·.ring.tail)
    let b ← load (·.ring.buf tail.toNat)
    let tail ← load (·.ring.tail)
    store (setTail ((tail + 1) &&& espRxbufMask))
    copyLoop n (dst ++ [b])

/-- `ring_copy_out`, the first access made. -/
def ringCopyOutFrom (maxlen head : UInt16) : Prog Rx (List UInt8) := do
  let tail ← load (·.ring.tail)
  let used := used head tail
  let maxlen := if maxlen > used then used else maxlen
  copyLoop maxlen.toNat []

/-- `ring_copy_out`: what it has written to `dst`. -/
def ringCopyOut (maxlen : UInt16) : Prog Rx (List UInt8) := do
  let head ← load (·.ring.head)
  ringCopyOutFrom maxlen head

/-- A call of the task. -/
inductive RxCall
  | consume (n : UInt16)
  | copyOut (maxlen : UInt16)

/-- How many bytes the call asks for. -/
def RxCall.len : RxCall → ℕ
  | consume n => n.toNat
  | copyOut maxlen => maxlen.toNat

/-- What the call hands to its caller of the bytes it removed. -/
def RxCall.returned : RxCall → List UInt8 → List UInt8
  | consume _, _ => []
  | copyOut _, removed => removed

/-- A call, the first access made. -/
def ringCallFrom (head : UInt16) : RxCall → Prog Rx (List UInt8)
  | .consume n => do
    ringConsumeFrom n head
    return []
  | .copyOut maxlen => ringCopyOutFrom maxlen head

def ringCall : RxCall → Prog Rx (List UInt8)
  | .consume n => do
    ringConsume n
    return []
  | .copyOut maxlen => ringCopyOut maxlen

theorem ringCall_eq (c : RxCall) :
    ringCall c = load (·.ring.head) >>= fun head => ringCallFrom head c := by
  cases c <;> rfl

/-! ## What the calls mean -/

/-- The queue of capacity 1023 and what has left it. -/
abbrev Queue : Type := Ledger UInt8 1023

/-- The `k` oldest items leave one by one. -/
def fifoCopy : ℕ → Prog Queue Unit
  | 0 => return ()
  | k + 1 => do
    store (Ledger.remove 1)
    fifoCopy k

/-- A call on a queue that held these bytes when it began: the oldest `min n used` of them leave,
at once or one by one. -/
def fifoCallFrom (held : List UInt8) (c : RxCall) : Prog Queue (List UInt8) := do
  let k := min c.len held.length
  match c with
  | .consume _ => store (Ledger.remove k)
  | .copyOut _ => fifoCopy k
  return held.take k

def fifoCall (c : RxCall) : Prog Queue (List UInt8) := do
  let held ← load (·.queue.items)
  fifoCallFrom held c

/-- **The ring shows the queue.** -/
structure Shows (s : Rx) (l : Queue) : Prop where
  inRange : s.ring.InRange
  bytes : s.ring.bytes = l.queue.items
  taken : s.taken = l.gone ++ l.queue.items

/-- **The interrupt sends to the queue.** -/
theorem Shows.irq {s : Rx} {l : Queue} (h : Shows s l) (b : UInt8) :
    Shows (espUartIrq b s) (l.send b) ∧ (espUartIrq b s).ring.tail = s.ring.tail ∧
      (l.send b).gone = l.gone ∧ l.queue.items <+: (l.send b).queue.items := by
  have hle := s.ring.length_bytes_le
  have htail : (ringPush s.ring b).2.tail = s.ring.tail := by
    rw [ringPush]
    split <;> rfl
  have hrange := inRange_ringPush h.inRange b
  by_cases hfull : s.ring.bytes.length = 1023
  · have hpush := ringPush_full hfull b
    have hsend : l.send b = l := Ledger.send_of_full fun hroom : l.queue.items.length < 1023 => by
      rw [← h.bytes] at hroom
      exact hroom.ne hfull
    have hirq : espUartIrq b s = s := by
      rw [espUartIrq, hpush]
      rfl
    rw [hirq, hsend]
    exact ⟨h, rfl, rfl, List.prefix_refl _⟩
  · obtain ⟨hret, hbytes⟩ := ringPush_room h.inRange (by omega) b
    obtain ⟨hitems, hgone⟩ := Ledger.send_of_room (a := b) (l := l) <| by
      change l.queue.items.length < 1023
      rw [← h.bytes]
      omega
    have htaken : (espUartIrq b s).taken = s.taken ++ [b] := by
      simp only [espUartIrq, hret, if_true]
    have hring : (espUartIrq b s).ring = (ringPush s.ring b).2 := by simp only [espUartIrq]
    refine ⟨⟨?_, ?_, ?_⟩, ?_, hgone, ?_⟩
    · rw [hring]
      exact hrange
    · rw [hring, hitems, ← h.bytes, hbytes]
    · rw [htaken, hitems, hgone, h.taken, List.append_assoc]
    · rw [hring, htail]
    · rw [hitems]
      exact List.prefix_append _ _

/-- **What the task knows between two accesses**: `tail` is its own, the bytes it found are still
the oldest, and what has left is what it took. -/
structure Since (tail : UInt16) (held gone : List UInt8) (s : Rx) (l : Queue) : Prop where
  shows : Shows s l
  tail : s.ring.tail = tail
  held : held <+: l.queue.items
  gone : l.gone = gone

theorem stable_since (tail : UInt16) (held gone : List UInt8) :
    Stable espUartIrq Ledger.send Shows (Since tail held gone) where
  base _ _ h := h.shows
  irq b _ _ h := by
    obtain ⟨hshows, htail, hgone, hitems⟩ := h.shows.irq b
    exact ⟨hshows, htail.trans h.tail, h.held.trans hitems, hgone.trans h.gone⟩

/-- **Moving `tail` takes bytes off the queue.** -/
theorem Since.remove {tail n : UInt16} {held gone : List UInt8} {s : Rx} {l : Queue}
    (h : Since tail held gone s l) (hn : n.toNat ≤ held.length) :
    Since ((tail + n) &&& espRxbufMask) (held.drop n.toNat) (gone ++ held.take n.toNat)
      (setTail ((tail + n) &&& espRxbufMask) s) (l.remove n.toNat) := by
  obtain ⟨later, hitems⟩ := h.held
  have hbytes : s.ring.bytes = held ++ later := h.shows.bytes.trans hitems.symm
  have hused : n.toNat ≤ GrainWarehouse.ringUsed s.ring.view := by
    have hlen := congrArg List.length hbytes
    rw [length_bytes, List.length_append] at hlen
    exact hlen ▸ hn.trans (Nat.le_add_right _ _)
  have hmove : (setTail ((tail + n) &&& espRxbufMask) s).ring.bytes =
      s.ring.bytes.drop n.toNat := by
    rw [← bytes_tail_add hused, ← view_tail_add, h.tail]
    rfl
  have htake : l.queue.items.take n.toNat = held.take n.toNat := by
    rw [← hitems, List.take_append_of_le_length hn]
  refine ⟨⟨⟨h.shows.inRange.head, ?_⟩, ?_, ?_⟩, rfl, ?_, ?_⟩
  · rw [setTail, toNat_and_mask]
    exact Nat.mod_lt _ (by decide)
  · rw [hmove, h.shows.bytes]
    rfl
  · change s.taken = (l.gone ++ l.queue.items.take n.toNat) ++ l.queue.items.drop n.toNat
    rw [h.shows.taken, List.append_assoc, List.take_append_drop]
  · change held.drop n.toNat <+: l.queue.items.drop n.toNat
    rw [← hitems, List.drop_append_of_le_length hn]
    exact List.prefix_append _ _
  · change l.gone ++ l.queue.items.take n.toNat = _
    rw [htake, h.gone]

/-- The byte at `tail` is the oldest. -/
theorem Since.buf {tail : UInt16} {b : UInt8} {held gone : List UInt8} {s : Rx} {l : Queue}
    (h : Since tail (b :: held) gone s l) : s.ring.buf tail.toNat = b := by
  obtain ⟨later, hitems⟩ := h.held
  have hbytes : s.ring.bytes = b :: (held ++ later) := h.shows.bytes.trans hitems.symm
  have hlen := congrArg List.length hbytes
  rw [length_bytes, List.length_cons] at hlen
  rw [Ring.bytes, RingT.bytes, hlen, window_cons] at hbytes
  rw [← (List.cons.inj hbytes).1, ← h.tail]
  exact (view_buf s.ring h.shows.inRange.tail).symm

/-! ## The calls under interrupts -/

/-- What a call has done when it returns: `held` were the bytes it found. -/
structure Answered (c : RxCall) (held gone a b : List UInt8) (s : Rx) (l : Queue) : Prop where
  removed : b = held.take (min c.len held.length)
  returned : a = c.returned b
  since : ∃ tail, Since tail (held.drop (min c.len held.length)) (gone ++ b) s l

theorem toNat_clamp (n used : UInt16) :
    (if n > used then used else n).toNat = min n.toNat used.toNat := by
  split
  · next h => exact (min_eq_right (UInt16.lt_iff_toNat_lt.mp h).le).symm
  · next h => exact (min_eq_left (Nat.not_lt.mp fun hlt => h (UInt16.lt_iff_toNat_lt.mpr hlt))).symm

/-- **The copying loop takes the oldest bytes**, one by one. -/
theorem sim_copyLoop {V : List UInt8 → List UInt8 → Rx → Queue → Prop} {out : List UInt8} :
    ∀ {k : ℕ} {tail : UInt16} {held gone dst : List UInt8}, k ≤ held.length →
    (∀ tail s l, Since tail (held.drop k) (gone ++ held.take k) s l →
      V (dst ++ held.take k) out s l) →
    Sim espUartIrq Ledger.send Shows V (Since tail held gone) (copyLoop k dst)
      (fifoCopy k >>= fun _ => return out)
  | 0, tail, held, gone, dst, _, hV => by
      refine .ret (stable_since tail held gone) fun s l h => ?_
      have := hV tail s l
      rw [List.drop_zero, List.take_zero, List.append_nil, List.append_nil] at this
      exact this h
  | k + 1, tail, [], gone, dst, hk, _ => absurd hk (Nat.not_succ_le_zero k)
  | k + 1, tail, b :: held, gone, dst, hk, hV => by
      refine .load (fun _ _ h => h.tail) (.load (fun _ _ h => h.buf)
        (.load (fun _ _ h => h.tail) ?_))
      have hone : (1 : UInt16).toNat ≤ (b :: held).length := Nat.succ_le_succ (Nat.zero_le _)
      change Sim _ _ _ V _ _ (store (Ledger.remove (1 : UInt16).toNat) >>= fun _ =>
        fifoCopy k >>= fun _ => return out)
      refine .store (stable_since tail (b :: held) gone) (fun s l h => h.remove hone) ?_
      · refine sim_copyLoop (Nat.le_of_succ_le_succ hk) fun tail' s l h => ?_
        have := hV tail' s l
        simpa using this (by simpa using h)

/-- **A call does what it means**, once it has read `head`. -/
theorem sim_ringCallFrom {s₀ : Rx} {l₀ : Queue} (h₀ : Shows s₀ l₀) (c : RxCall) :
    Sim espUartIrq Ledger.send Shows (Answered c l₀.queue.items l₀.gone)
      (Since s₀.ring.tail l₀.queue.items l₀.gone) (ringCallFrom s₀.ring.head c)
      (fifoCallFrom l₀.queue.items c) := by
  have hused : (used s₀.ring.head s₀.ring.tail).toNat = l₀.queue.items.length := by
    rw [← h₀.bytes]
    exact toNat_ringUsed s₀.ring
  have hle : min c.len l₀.queue.items.length ≤ l₀.queue.items.length := min_le_right _ _
  cases c with
  | consume n =>
    have hk := toNat_clamp n (used s₀.ring.head s₀.ring.tail)
    rw [hused] at hk
    set k := if n > used s₀.ring.head s₀.ring.tail then used s₀.ring.head s₀.ring.tail else n
    have hremove (s : Rx) (l : Queue) (h : Since s₀.ring.tail l₀.queue.items l₀.gone s l) :=
      h.remove (n := k) (hk.trans_le hle)
    simp only [hk] at hremove
    simp only [ringCallFrom, ringConsumeFrom, fifoCallFrom, bind_assoc]
    refine .load (fun _ _ h => h.tail) (.load (fun _ _ h => h.tail) ?_)
    exact .store (stable_since ..) hremove (.ret (stable_since ..) fun s l h => ⟨rfl, rfl, _, h⟩)
  | copyOut maxlen =>
    have hk := toNat_clamp maxlen (used s₀.ring.head s₀.ring.tail)
    rw [hused] at hk
    refine .load (fun _ _ h => h.tail) ?_
    dsimp only
    rw [hk]
    exact sim_copyLoop hle fun tail s l h => ⟨rfl, rfl, tail, h⟩

/-- The queue, and what has left it when a call begins. -/
def Fresh (gone : List UInt8) (s : Rx) (l : Queue) : Prop := Shows s l ∧ l.gone = gone

theorem stable_fresh (gone : List UInt8) :
    Stable espUartIrq Ledger.send Shows (Fresh gone) where
  base _ _ h := h.1
  irq b _ _ h := by
    obtain ⟨hshows, -, hgone, -⟩ := h.1.irq b
    exact ⟨hshows, hgone.trans h.2⟩

/-- A call from the state in which it reads `head`. -/
theorem sim_ringCall (c : RxCall) (gone : List UInt8) :
    Sim espUartIrq Ledger.send Shows
      (fun a b s l => a = c.returned b ∧ Fresh (gone ++ b) s l) (Fresh gone)
      (ringCall c) (fifoCall c) := by
  rw [ringCall_eq, fifoCall]
  refine .both (fun s l => Since s.ring.tail l.queue.items l.gone) (stable_fresh gone)
    (fun s l h => ⟨h.1, rfl, List.prefix_refl _, rfl⟩) fun s l h => ?_
  refine (sim_ringCallFrom h.1 c).mono fun a b s' l' hans => ?_
  obtain ⟨tail, hsince⟩ := hans.since
  exact ⟨hans.returned, hsince.shows, hsince.gone.trans (by rw [h.2])⟩

/-- **A sequence of calls**: what each removed lies side by side. -/
theorem sim_ringCalls : ∀ (calls : List RxCall) (gone : List UInt8),
    Sim espUartIrq Ledger.send Shows
      (fun results removed s l => results = List.zipWith RxCall.returned calls removed ∧
        Fresh (gone ++ removed.flatten) s l) (Fresh gone)
      (each ringCall calls) (each fifoCall calls)
  | [], gone => .ret (stable_fresh gone) fun s l h => ⟨rfl, by simpa using h⟩
  | c :: calls, gone => by
      refine (sim_ringCall c gone).bind fun a b => ?_
      refine ((sim_ringCalls calls (gone ++ b)).frame (a = c.returned b)).bind fun as bs => ?_
      have hstable := stable_fresh (gone ++ b ++ bs.flatten)
      refine .ret ⟨fun s l h => hstable.base s l h.2.2, fun k s l h =>
        ⟨h.1, h.2.1, hstable.irq k s l h.2.2⟩⟩ fun s l h => ?_
      obtain ⟨rfl, rfl, hfresh⟩ := h
      refine ⟨rfl, ?_⟩
      rw [List.flatten_cons, ← List.append_assoc]
      exact hfresh

/-! ## The ring is a queue -/

theorem shows_boot : Fresh [] Rx.boot Ledger.empty := by
  refine ⟨⟨⟨by decide, by decide⟩, rfl, rfl⟩, rfl⟩

/-- A ring as it stands, and the queue it shows. -/
theorem shows_of_inRange {r : Ring} (h : r.InRange) :
    Shows ⟨r, r.bytes⟩ ⟨⟨r.bytes, r.length_bytes_le⟩, []⟩ := ⟨h, rfl, rfl⟩

/-- **A call that has returned** handed out, and removed, the oldest of the bytes there were when it
read `head`; what arrived meanwhile is behind the others. -/
theorem ringCall_returned {r : Ring} (h : r.InRange) {c : RxCall} {sched : List (Option UInt8)}
    {result : List UInt8}
    (hret : (exec espUartIrq (none :: sched) (ringCall c) ⟨r, r.bytes⟩).1 = .ret result) :
    result = c.returned (r.bytes.take (min c.len r.bytes.length)) ∧
      ∃ arrived, (exec espUartIrq (none :: sched) (ringCall c) ⟨r, r.bytes⟩).2.taken =
          r.bytes ++ arrived ∧
        (exec espUartIrq (none :: sched) (ringCall c) ⟨r, r.bytes⟩).2.ring.bytes =
          r.bytes.drop (min c.len r.bytes.length) ++ arrived := by
  have hshows := shows_of_inRange h
  have hsim := sim_ringCallFrom hshows c
  rw [ringCall_eq] at hret ⊢
  obtain ⟨sched', -, -, hdone⟩ := hsim.exec sched ⟨hshows, rfl, List.prefix_refl _, rfl⟩
  obtain ⟨removed, -, hans⟩ := hdone result hret
  obtain ⟨tail, hsince⟩ := hans.since
  obtain ⟨arrived, hitems⟩ := hsince.held
  refine ⟨hans.removed ▸ hans.returned, arrived, ?_, ?_⟩
  · refine hsince.shows.taken.trans ?_
    rw [hsince.gone, ← hitems, hans.removed, List.nil_append, ← List.append_assoc,
      List.take_append_drop]
  · exact hsince.shows.bytes.trans hitems.symm

theorem bounded_copyLoop : ∀ (n : ℕ) (dst : List UInt8), Bounded (4 * n) (copyLoop n dst)
  | 0, dst => .ret dst
  | n + 1, _ => .atom fun _ => .atom fun _ => .atom fun _ => .atom fun _ => bounded_copyLoop n _

/-- A call makes four accesses, and four more for every byte it copies. -/
theorem bounded_ringCall (c : RxCall) : Bounded (4 * c.len + 4) (ringCall c) := by
  cases c with
  | consume n =>
    have h : Bounded (3 + 1) (ringCall (.consume n)) :=
      .atom fun _ => .atom fun _ => .atom fun _ => .atom fun _ => .ret []
    exact h.mono (by omega)
  | copyOut maxlen =>
    refine .atom (n := 4 * maxlen.toNat + 3) fun s => .atom (n := 4 * maxlen.toNat + 2) fun s' => ?_
    have hle := (toNat_clamp maxlen (used s.ring.head s'.ring.tail)).trans_le (min_le_left _ _)
    exact (bounded_copyLoop _ []).mono ((Nat.mul_le_mul_left 4 hle).trans (Nat.le_add_right _ 2))

/-- What `ring_push` does to a ring: it appends the byte and returns 0 or, 1023 bytes being held,
returns -1 and changes nothing. -/
structure Pushes (r : Ring) (b : UInt8) : Prop where
  le : r.bytes.length ≤ 1023
  room : r.bytes.length < 1023 → (ringPush r b).1 = 0 ∧ (ringPush r b).2.bytes = r.bytes ++ [b]
  full : r.bytes.length = 1023 → ringPush r b = (-1, r)

theorem pushes {r : Ring} (h : r.InRange) (b : UInt8) : Pushes r b :=
  ⟨r.length_bytes_le, fun hroom => ringPush_room h hroom b, fun hfull => ringPush_full hfull b⟩

/-- **The receive ring is a queue of capacity 1023**, wherever the interrupt comes in: a sequence of
calls does to the ring what it means for the queue, and has handed out what the queue lost. -/
theorem ring_refines_fifo :
    (∀ (calls : List RxCall) (sched : List (Option UInt8)), ∃ sched' : List (Option UInt8),
      sched'.reduceOption = sched.reduceOption ∧
      let run := exec espUartIrq sched (each ringCall calls) Rx.boot
      let spec := exec Ledger.send sched' (each fifoCall calls) Ledger.empty
      Shows run.2 spec.2 ∧ (∀ b, Pushes run.2.ring b) ∧
        ∀ results, run.1 = .ret results → ∃ removed, spec.1 = .ret removed ∧
          results = List.zipWith RxCall.returned calls removed ∧ spec.2.gone = removed.flatten) ∧
    ∀ (r : Ring) (c : RxCall) (sched : List (Option UInt8)), r.InRange →
      let run := exec espUartIrq (none :: sched) (ringCall c) ⟨r, r.bytes⟩
      let k := min c.len r.bytes.length
      (∀ result, run.1 = .ret result → result = c.returned (r.bytes.take k) ∧
        ∃ arrived, run.2.taken = r.bytes ++ arrived ∧
          run.2.ring.bytes = r.bytes.drop k ++ arrived) ∧
      (4 * c.len + 3 ≤ sched.countP Option.isNone → ∃ result, run.1 = .ret result) := by
  refine ⟨fun calls sched => ?_, fun r c sched hr => ⟨fun result hret => ?_, fun hcount => ?_⟩⟩
  · obtain ⟨sched', hirqs, hshows, hdone⟩ := (sim_ringCalls calls []).exec sched shows_boot
    refine ⟨sched', hirqs, hshows, pushes hshows.inRange, fun results hret => ?_⟩
    obtain ⟨removed, hspec, hresults, hfresh⟩ := hdone results hret
    exact ⟨removed, hspec, hresults, hfresh.2⟩
  · exact ringCall_returned hr hret
  · refine (bounded_ringCall c).exec espUartIrq (none :: sched) _ ?_
    rw [List.countP_cons_of_pos rfl]
    exact Nat.succ_le_succ hcount

/-- A ring that holds `A`, and a copy during which `B` arrives: before `tail` is read, and again
between the copy and the move of `tail`. -/
theorem ring_refines_fifo_meanwhile :
    let r := (ringPush Ring.empty 65).2
    let run := exec espUartIrq [none, some 66, none, none, none, some 66, none, none]
      (ringCall (.copyOut 4)) ⟨r, r.bytes⟩
    ∃ arrived, run.2.taken = r.bytes ++ arrived ∧
      run.2.ring.bytes = r.bytes.drop (min 4 r.bytes.length) ++ arrived :=
  (((ring_refines_fifo.2 (ringPush Ring.empty 65).2 (.copyOut 4)
    [some 66, none, none, none, some 66, none, none] ⟨by decide, by decide⟩).1 [65] rfl).2)

end GrainWarehouse.Shared

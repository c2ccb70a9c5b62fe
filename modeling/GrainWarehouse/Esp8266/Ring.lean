import GrainWarehouse.Machinery.Circular

/-!
# Esp8266/Ring — the receive ring of the ESP8266 driver

`ring_t` of `esp8266.c`: 1024 bytes, written at `head` by the UART interrupt and read at `tail` by
the task.  Both indices are masked with `ESP_RXBUF_MASK` at every update, so they are `Fin 1024`
and index arithmetic is the arithmetic of `Fin 1024`.

`RingT.bytes` is the abstract view, the unread bytes in order.  Every operation is that of a FIFO
of capacity 1023 on it (`bytes_ringPush`, `bytes_ringConsume`, `ringCopyOut_eq`).
-/

namespace GrainWarehouse

/-- `ESP_RXBUF_SIZE`. -/
abbrev espRxbufSize : ℕ := 1024

/-- `ring_t`. -/
structure RingT where
  buf : Fin espRxbufSize → UInt8
  /-- Where the next byte is written. -/
  head : Fin espRxbufSize
  /-- Where the next byte is read. -/
  tail : Fin espRxbufSize

/-- `static ring_t s_rx = { {0}, 0, 0 }`. -/
def RingT.empty : RingT := ⟨fun _ => 0, 0, 0⟩

/-- `(head - tail) & ESP_RXBUF_MASK`. -/
def ringUsed (r : RingT) : ℕ := (r.head - r.tail).val

/-- `ESP_RXBUF_SIZE - 1 - used`. -/
def ringFree (r : RingT) : ℕ := espRxbufSize - 1 - ringUsed r

/-- `ring_push`: the new ring, and whether the byte was taken (`0`) or refused (`-1`). -/
def ringPush (r : RingT) (b : UInt8) : RingT × Bool :=
  if ringFree r = 0 then (r, false)
  else ({ r with buf := Function.update r.buf r.head b, head := r.head + 1 }, true)

/-- `ring_consume`: drop the first `n` bytes, at most all of them. -/
def ringConsume (r : RingT) (n : ℕ) : RingT :=
  let used := ringUsed r
  let n := if n > used then used else n
  { r with tail := r.tail + Fin.ofNat _ n }

/-- The copying loop of `ring_copy_out`, `n` bytes still to copy. -/
def copyLoop : ℕ → RingT → List UInt8 × RingT
  | 0, r => ([], r)
  | n + 1, r =>
    let rest := copyLoop n { r with tail := r.tail + 1 }
    (r.buf r.tail :: rest.1, rest.2)

/-- `ring_copy_out`: take the first `maxlen` bytes out, at most all of them. -/
def ringCopyOut (r : RingT) (maxlen : ℕ) : List UInt8 × RingT :=
  let used := ringUsed r
  copyLoop (if maxlen > used then used else maxlen) r

/-- The unread bytes, oldest first: what a loop `for (i = 0; i < used; i++)` sees at
`buf[(tail + i) & ESP_RXBUF_MASK]`. -/
def RingT.bytes (r : RingT) : List UInt8 := window r.buf r.tail (ringUsed r)

/-! ## The ring is a FIFO -/

@[simp] theorem length_bytes (r : RingT) : r.bytes.length = ringUsed r := length_window _ _ _

theorem ringUsed_lt (r : RingT) : ringUsed r < 1024 := (r.head - r.tail).isLt

/-- The write index is `used` slots after the read index. -/
theorem tail_add_used (r : RingT) : r.tail + Fin.ofNat _ (ringUsed r) = r.head := by
  rw [ringUsed, Fin.ofNat_val_eq_self, add_sub_cancel]

theorem ringFree_eq_zero_iff (r : RingT) : ringFree r = 0 ↔ r.bytes.length = 1023 := by
  have := ringUsed_lt r
  rw [ringFree, length_bytes]
  change 1024 - 1 - ringUsed r = 0 ↔ _
  omega

theorem ringPush_full {r : RingT} (h : r.bytes.length = 1023) (b : UInt8) :
    ringPush r b = (r, false) := if_pos ((ringFree_eq_zero_iff r).mpr h)

/-- **A push on a ring that is not full appends its byte.** -/
theorem bytes_ringPush {r : RingT} (h : r.bytes.length < 1023) (b : UInt8) :
    (ringPush r b).1.bytes = r.bytes ++ [b] ∧ (ringPush r b).2 = true := by
  have hfree : ¬ ringFree r = 0 := by rw [ringFree_eq_zero_iff]; omega
  have hlt : ringUsed r + 1 < espRxbufSize := by
    rw [length_bytes] at h
    change ringUsed r + 1 < 1024
    omega
  have hused : (r.head + 1 - r.tail).val = ringUsed r + 1 := by
    have h1 : r.head + 1 - r.tail = r.head - r.tail + 1 := by rw [add_sub_right_comm]
    rw [h1, Fin.val_add_one_of_lt' hlt]
    rfl
  rw [ringPush, if_neg hfree]
  refine ⟨?_, rfl⟩
  change window (Function.update r.buf r.head b) r.tail (r.head + 1 - r.tail).val = _
  rw [hused, ← tail_add_used r]
  exact window_update_succ r.buf r.tail (ringUsed_lt r) b

/-- Moving the read index by `n ≤ used` leaves `used - n` bytes. -/
theorem ringUsed_tail_add {r : RingT} {n : ℕ} (hn : n ≤ ringUsed r) :
    (r.head - (r.tail + Fin.ofNat _ n)).val = ringUsed r - n := by
  have hlt := ringUsed_lt r
  have hsub : r.head - (r.tail + Fin.ofNat _ n) = (r.head - r.tail) - Fin.ofNat _ n := by
    rw [sub_add_eq_sub_sub]
  have hval : (Fin.ofNat espRxbufSize n).val = n := by
    rw [Fin.val_ofNat]
    exact Nat.mod_eq_of_lt (by change n < 1024; omega)
  rw [hsub, Fin.sub_val_of_le (by rw [Fin.le_def, hval]; exact hn), hval]
  rfl

theorem bytes_tail_add {r : RingT} {n : ℕ} (hn : n ≤ ringUsed r) :
    ({ r with tail := r.tail + Fin.ofNat _ n } : RingT).bytes = r.bytes.drop n := by
  change window r.buf (r.tail + Fin.ofNat _ n) (r.head - (r.tail + Fin.ofNat _ n)).val = _
  rw [ringUsed_tail_add hn, RingT.bytes, drop_window]

/-- **Consuming drops bytes from the front.** -/
@[simp] theorem bytes_ringConsume (r : RingT) (n : ℕ) :
    (ringConsume r n).bytes = r.bytes.drop n := by
  rw [ringConsume]
  by_cases h : n > ringUsed r
  · rw [if_pos h, bytes_tail_add le_rfl, List.drop_of_length_le (length_bytes r).le,
      List.drop_of_length_le (by rw [length_bytes]; omega)]
  · rw [if_neg h]
    exact bytes_tail_add (by omega)

theorem copyLoop_eq : ∀ (n : ℕ) (r : RingT),
    copyLoop n r = (window r.buf r.tail n, { r with tail := r.tail + Fin.ofNat _ n })
  | 0, r => by simp [copyLoop]
  | n + 1, r => by
      rw [copyLoop, copyLoop_eq n, window_cons, add_ofNat_succ]

/-- **Copying out takes the front bytes and drops exactly them.** -/
theorem ringCopyOut_eq (r : RingT) (m : ℕ) :
    (ringCopyOut r m).1 = r.bytes.take m ∧ (ringCopyOut r m).2.bytes = r.bytes.drop m := by
  have hmin : (if m > ringUsed r then ringUsed r else m) = min m (ringUsed r) := by
    split <;> omega
  rw [ringCopyOut, copyLoop_eq]
  simp only [hmin]
  refine ⟨(take_window _ _ _ _).symm, ?_⟩
  rw [bytes_tail_add (min_le_right _ _)]
  rcases le_total m (ringUsed r) with h | h
  · rw [min_eq_left h]
  · rw [min_eq_right h, List.drop_of_length_le (length_bytes r).le,
      List.drop_of_length_le (by rw [length_bytes]; omega)]

end GrainWarehouse

import GrainWarehouse.Machinery.Cells
import GrainWarehouse.Esp8266.Frames
import GrainWarehouse.Esp8266.Shared

/-!
# Esp8266/Buffers — `esp8266_loop` on its buffers, index by index

The two passes of `Esp8266/Frames` once more, as loops over `hdr[64]`, `ipd_buf[512]`, `line[128]`
and the 1024 bytes of the ring: every access is checked, and a program that leaves an array returns
`none`.

A round of either pass returns, and is the round of `Esp8266/Frames` (`parseRound_checked`,
`lineBody_checked`); so it lowers the number of unread bytes or is the last, and
`esp8266_loop` ends (`esp8266Loop_terminates`).
-/

namespace GrainWarehouse.Shared

/-! ## The ring, undisturbed -/

/-- `s_rx.buf[i]`. -/
def Ring.read (r : Ring) (i : ℕ) : Option UInt8 := if i < 1024 then some (r.buf i) else none

/-- `(s_rx.tail + i) & ESP_RXBUF_MASK`. -/
def slot (r : Ring) (i : ℕ) : ℕ := (r.tail.toNat + i) &&& 1023

/-- `ring_consume`, with no interrupt. -/
def consume (r : Ring) (n : UInt16) : Ring :=
  let n := if n > ringUsed r then ringUsed r else n
  { r with tail := (r.tail + n) &&& espRxbufMask }

/-- The loop of `ring_copy_out`, this many bytes before its end, `n` written to `dst`. -/
def copyOutLoop {m : ℕ} : ℕ → Cells UInt8 m → (n : ℕ) → Ring → Option (Cells UInt8 m × ℕ × Ring)
  | 0, dst, n, r => some (dst, n, r)
  | left + 1, dst, n, r => do
    let b ← r.read r.tail.toNat
    let dst ← dst.write n b
    copyOutLoop left dst (n + 1) { r with tail := (r.tail + 1) &&& espRxbufMask }

/-- `ring_copy_out`, with no interrupt: `dst`, how many bytes were written to it, and the ring. -/
def copyOut {m : ℕ} (r : Ring) (dst : Cells UInt8 m) (maxlen : UInt16) :
    Option (Cells UInt8 m × ℕ × Ring) :=
  let maxlen := if maxlen > ringUsed r then ringUsed r else maxlen
  copyOutLoop maxlen.toNat dst 0 r

/-! ## The frame pass -/

/-- The comparison at `i`, `k` bytes of the needle having matched. -/
def matchLoop (r : Ring) (i : ℕ) : List UInt8 → (k : ℕ) → Option Bool
  | [], _ => some true
  | c :: needle, k => do
    let b ← r.read (slot r (i + k))
    if b ≠ c then some false else matchLoop r i needle (k + 1)

/-- The search from `i` on: the first place at which the needle stands. -/
def findLoop (r : Ring) (needle : List UInt8) (used : ℕ) : ℕ → (i : ℕ) → Option (Option ℕ)
  | 0, _ => some none
  | n + 1, i =>
    if i + needle.length ≤ used then do
      if ← matchLoop r i needle 0 then some (some i) else findLoop r needle used n (i + 1)
    else some none

/-- The copy of the header from `k` on, `hdrLen` bytes of it being there. -/
def hdrLoop (r : Ring) (used : ℕ) : ℕ → (k : ℕ) → Cells UInt8 64 → (hdrLen : ℕ) →
    Option (Cells UInt8 64 × ℕ)
  | 0, _, hdr, hdrLen => some (hdr, hdrLen)
  | n + 1, k, hdr, hdrLen =>
    if k < used ∧ hdrLen < 63 then do
      let c ← r.read (slot r k)
      let hdr ← hdr.write hdrLen c
      if c = 58 then some (hdr, hdrLen + 1) else hdrLoop r used n (k + 1) hdr (hdrLen + 1)
    else some (hdr, hdrLen)

/-- The digits at `p`, summed up in an `int`, and where they end. -/
def readInt (line : Cells UInt8 64) (p : ℕ) : Option (BitVec 32 × ℕ) :=
  line.foldWhile isDigit (fun v c => v * 10 + ((c - 48).toNat : BitVec 32)) 65 p 0

/-- `parse_ipd_header` from the length on, at `p`. -/
def parseIpdLen (line : Cells UInt8 64) (link : BitVec 32) (p : ℕ) : Option (ℤ × ℕ) := do
  let (len, p) ← readInt line p
  let c ← line.read p
  if c ≠ 58 then some (-1, 0) else some ((link.setWidth 8).toInt, (len.setWidth 16).toNat)

/-- `parse_ipd_header`. -/
def parseIpdHeader (line : Cells UInt8 64) : Option (ℤ × ℕ) := do
  if ← line.startsWith (ascii "+IPD,") 0 then
    let (_, q) ← line.foldWhile isDigit (fun u _ => u) 65 5 ()
    let c ← line.read q
    if c = 44 then
      let (link, p) ← readInt line 5
      let c ← line.read p
      if c ≠ 44 then some (-1, 0) else parseIpdLen line link (p + 1)
    else parseIpdLen line 0 5
  else some (-1, 0)

/-- `hdr[hdr_len - 1]`; there is no cell before the first. -/
def lastOfHdr (hdr : Cells UInt8 64) : (hdrLen : ℕ) → Option UInt8
  | 0 => none
  | k + 1 => hdr.read k

/-- The end of a round, once the header has been read: the frame, if it is delivered, and the ring;
`none` where the function returns. -/
def takeFrame (r : Ring) (used hit hdrLen : ℕ) (link : ℤ) (dlen : ℕ) :
    Option (Option (Option (ℤ × List UInt8) × Ring)) :=
  if link < 0 ∨ dlen = 0 then some (some (none, consume r 1))
  else if used < hit + hdrLen + dlen then some none
  else
    let rx := consume r (UInt16.ofNat (hit + hdrLen))
    if 512 < dlen then some (some (none, consume rx (UInt16.ofNat dlen)))
    else do
      let (ipdBuf, got, rx) ← copyOut rx (Cells.of [] : Cells UInt8 512) (UInt16.ofNat dlen)
      if got ≠ dlen then some (some (none, consume rx (UInt16.ofNat (used - hit - hdrLen))))
      else some (some (some (link, ipdBuf.front dlen), rx))

/-- One round of `parse_ipd_frames`, up to the callback. -/
def parseRound (r : Ring) : Option (Option (Option (ℤ × List UInt8) × Ring)) :=
  let used := (ringUsed r).toNat
  if used < 6 then some none
  else do
    match ← findLoop r (ascii "+IPD,") used (used + 1) 0 with
    | none => some none
    | some hit =>
      let (hdr, hdrLen) ← hdrLoop r used 64 hit (Cells.of []) 0
      let last ← lastOfHdr hdr hdrLen
      if last ≠ 58 then some none
      else do
        let (link, dlen) ← parseIpdHeader hdr
        takeFrame r used hit hdrLen link dlen

/-! ## The line pass -/

/-- The static state of the driver that the line pass uses, over a state of the layer above. -/
structure Driver (β : Type) where
  sRx : Ring
  sWifiConnected : Bool
  sLinkState : Fin espMaxLinkId → Bool
  up : β

variable {α β : Type}

/-- The loop that cuts trailing CRs and LFs, from the cell before `k` down. -/
def trimLoop : (k : ℕ) → Cells UInt8 128 → Option (Cells UInt8 128)
  | 0, line => some line
  | k + 1, line => do
    let c ← line.read k
    if c = CR ∨ c = LF then do
      let line ← line.write k 0
      trimLoop k line
    else some line

/-- `if (id < ESP_MAX_LINK_ID) s_link_state[id] = up;`. -/
def setLinkState (id : ℕ) (up : Bool) (s : Driver β) : Driver β :=
  if h : id < espMaxLinkId then
    { s with sLinkState := Function.update s.sLinkState ⟨id, h⟩ up }
  else s

/-- `line[0] >= '0' && line[0] <= '4' && line[1] == ','`, and the link it names. -/
def linkTag (line : Cells UInt8 128) : Option (Option ℕ) := do
  let c ← line.read 0
  if 48 ≤ c ∧ c ≤ 52 then do
    let comma ← line.read 1
    if comma = 44 then some (some (c - 48).toNat) else some none
  else some none

/-- What a line with this tag and this text does to the flags. -/
def report : Option ℕ → (text : List UInt8) → Driver β → Driver β
  | some id, text, s =>
    if contains text (ascii "CONNECTED") then setLinkState id true s
    else if contains text (ascii "CLOSED") then setLinkState id false s
    else s
  | none, text, s =>
    if text = ascii "CLOSED" ∨ contains text (ascii "CLOSED\r\n") then setLinkState 0 false s
    else if contains text (ascii "WIFI DISCONNECT") then
      { s with sWifiConnected := false, sLinkState := fun _ => false }
    else if contains text (ascii "WIFI CONNECTED") ∨ contains text (ascii "WIFI GOT IP") then
      { s with sWifiConnected := true }
    else s

/-- The line in `line[128]` is read: `printf`, `strcmp` and `strstr` go up to its NUL. -/
def applyUrc (line : Cells UInt8 128) (s : Driver β) : Option (Driver β) := do
  let tag ← linkTag line
  let text ← line.stringAt 129 0
  some (report tag text s)

/-- One round of the line pass; `some none` where it breaks. -/
def lineBody (s : Driver β) : Option (Option (Driver β)) :=
  let used := (ringUsed s.sRx).toNat
  if used = 0 then some none
  else do
    match ← findLoop s.sRx [LF] used (used + 1) 0 with
    | none => some none
    | some last =>
      let copyLen := if last + 1 < 128 then last + 1 else 127
      let (line, _, rx) ← copyOut s.sRx (Cells.of []) (UInt16.ofNat copyLen)
      let line ← line.write copyLen 0
      let line ← trimLoop copyLen line
      let s ← applyUrc line { s with sRx := rx }
      some (some s)

/-! ## `esp8266_loop` -/

/-- One round of `parse_ipd_frames`; a callback that is not set is one that does nothing. -/
def parseBody (cb : ℤ → List UInt8 → Driver β → Driver β) (s : Driver β) :
    Option (Option (Driver β)) := do
  match ← parseRound s.sRx with
  | none => some none
  | some (none, rx) => some (some { s with sRx := rx })
  | some (some (link, data), rx) => some (some (cb link data { s with sRx := rx }))

/-- `esp8266_loop`, with at most `n` rounds of either pass. -/
def esp8266Loop (cb : ℤ → List UInt8 → Driver β → Driver β) (n : ℕ) (s : Driver β) :
    Option (Option (Driver β)) := do
  match ← tryLoop (parseBody cb) n s with
  | none => some none
  | some s => tryLoop lineBody n s

/-! ## …and that it keeps to the buffers -/

/-- **The slots of the unread bytes are in the buffer**, and hold them. -/
theorem read_slot {r : Ring} {i : ℕ} (h : i < r.bytes.length) :
    r.read (slot r i) = some r.bytes[i] := by
  have hslot : slot r i = (r.tail.toNat + i) % 1024 := Nat.and_two_pow_sub_one_eq_mod _ 10
  have hlt : slot r i < 1024 := hslot.trans_lt (Nat.mod_lt _ (by decide))
  have hval : (Fin.ofNat espRxbufSize r.tail.toNat + Fin.ofNat espRxbufSize i).val = slot r i := by
    rw [hslot, Fin.val_add, Fin.val_ofNat, Fin.val_ofNat]
    exact (Nat.add_mod _ _ _).symm
  rw [Ring.read, if_pos hlt, ← hval]
  simp only [Ring.bytes, RingT.bytes, window, List.getElem_map, List.getElem_range]
  rfl

theorem drop_bytes {r : Ring} {i : ℕ} (h : i < r.bytes.length) :
    r.bytes.drop i = r.bytes[i] :: r.bytes.drop (i + 1) := List.drop_eq_getElem_cons h

theorem matchLoop_eq {r : Ring} {i : ℕ} : ∀ {needle : List UInt8} {k : ℕ},
    i + k + needle.length ≤ r.bytes.length →
    matchLoop r i needle k = some (needle.isPrefixOf (r.bytes.drop (i + k)))
  | [], _, _ => by rw [matchLoop, List.isPrefixOf_nil_left]
  | c :: needle, k, h => by
      rw [List.length_cons] at h
      have hlt : i + k < r.bytes.length := by omega
      rw [matchLoop, read_slot hlt, Option.bind_eq_bind, Option.bind_some, drop_bytes hlt,
        List.isPrefixOf_cons_cons]
      by_cases hc : r.bytes[i + k] = c
      · rw [if_neg (not_not_intro hc), matchLoop_eq (k := k + 1) (by omega), hc, beq_self_eq_true,
          Bool.true_and, Nat.add_assoc]
      · rw [if_pos hc, beq_eq_false_iff_ne.mpr (Ne.symm hc), Bool.false_and]

/-- **The search loop is a search** of the unread bytes. -/
theorem findLoop_eq {r : Ring} {needle : List UInt8} (hne : needle ≠ []) : ∀ {n i : ℕ},
    r.bytes.length < i + n →
    findLoop r needle r.bytes.length n i = some ((findSub needle (r.bytes.drop i)).map (· + i))
  | 0, i, h => by
      rw [findLoop, List.drop_of_length_le (by omega), findSub, if_neg (by simpa using hne)]
      rfl
  | n + 1, i, h => by
      have hpos : 0 < needle.length := List.length_pos_of_ne_nil hne
      rw [findLoop]
      split
      · next hfits =>
        rw [matchLoop_eq (k := 0) (by omega), Option.bind_eq_bind, Option.bind_some, Nat.add_zero]
        by_cases hp : needle <+: r.bytes.drop i
        · rw [if_pos (List.isPrefixOf_iff_prefix.mpr hp), findSub_prefix_self hp, Option.map_some,
            Nat.zero_add]
        · have hlt : i < r.bytes.length := by omega
          rw [if_neg (by rwa [List.isPrefixOf_iff_prefix]), findLoop_eq hne (by omega)]
          rw [drop_bytes hlt] at hp ⊢
          rw [findSub_cons_of_not hp, Option.map_map]
          refine congrArg (fun f => some (Option.map f _)) (funext fun j => ?_)
          simp only [Function.comp_apply]
          omega
      · next hfits =>
        cases hfind : findSub needle (r.bytes.drop i) with
        | none => rfl
        | some j =>
          have := findSub_add_le hfind
          rw [List.length_drop] at this
          omega

/-- The bytes through the first `:`, `room` of them at most. -/
def throughColon (room : ℕ) (l : List UInt8) : List UInt8 :=
  (l.take room).take (upThrough 58 (l.take room))

theorem throughColon_of_nil {room : ℕ} {l : List UInt8} (h : room = 0 ∨ l = []) :
    throughColon room l = [] := by
  rcases h with rfl | rfl <;> simp [throughColon]

theorem throughColon_cons (room : ℕ) (c : UInt8) (l : List UInt8) :
    throughColon (room + 1) (c :: l) = c :: if c = 58 then [] else throughColon room l := by
  rw [throughColon, List.take_succ_cons, upThrough]
  split
  · rw [List.take_succ_cons, List.take_zero]
  · rw [List.take_succ_cons, throughColon]

/-- **The header loop** copies what is left of the header. -/
theorem hdrLoop_eq {r : Ring} : ∀ {n k : ℕ} {acc : List UInt8}, acc.length ≤ 63 →
    63 < acc.length + n →
    hdrLoop r r.bytes.length n k (Cells.of acc) acc.length =
      some (Cells.of (acc ++ throughColon (63 - acc.length) (r.bytes.drop k)),
        (acc ++ throughColon (63 - acc.length) (r.bytes.drop k)).length)
  | 0, _, acc, hle, hn => by omega
  | n + 1, k, acc, hle, hn => by
      rw [hdrLoop]
      split
      · next h =>
        obtain ⟨hk, hroom⟩ := h
        obtain ⟨room, hroomEq⟩ : ∃ room, 63 - acc.length = room + 1 := ⟨62 - acc.length, by omega⟩
        have hlen : (acc ++ [r.bytes[k]]).length = acc.length + 1 := by simp
        rw [read_slot hk, Option.bind_eq_bind, Option.bind_some, Cells.write_of _ (by omega),
          Option.bind_eq_bind, Option.bind_some, drop_bytes hk, hroomEq, throughColon_cons]
        by_cases hc : r.bytes[k] = 58
        · rw [if_pos hc, if_pos hc, hlen]
        · have ih : hdrLoop r r.bytes.length n (k + 1) (Cells.of (acc ++ [r.bytes[k]])) _ = _ :=
            hdrLoop_eq (by omega) (by omega)
          rw [hlen, Nat.sub_add_eq, hroomEq, Nat.add_sub_cancel, List.append_assoc,
            List.singleton_append] at ih
          rw [if_neg hc, if_neg hc, ih]
      · next h =>
        have hnil : throughColon (63 - acc.length) (r.bytes.drop k) = [] := by
          refine throughColon_of_nil ?_
          rcases Nat.lt_or_ge k r.bytes.length with hk | hk
          · have := not_and.mp h hk
            exact Or.inl (by omega)
          · exact Or.inr (List.drop_of_length_le hk)
        rw [hnil, List.append_nil]

/-- A text that ends in `:` has a first character that is no digit. -/
theorem exists_digits {t : List UInt8} (h : t.getLast? = some 58) :
    ∃ d c rest, t = d ++ c :: rest ∧ (∀ b ∈ d, isDigit b = true) ∧ isDigit c = false := by
  have hne : t.dropWhile isDigit ≠ [] := fun hnil => by
    have hall := List.dropWhile_eq_nil_iff.mp hnil 58 (List.mem_of_getLast? h)
    exact absurd hall (by decide)
  obtain ⟨c, rest, hdrop⟩ := List.exists_cons_of_ne_nil hne
  refine ⟨t.takeWhile isDigit, c, rest, ?_, fun b hb => List.mem_takeWhile_imp hb, ?_⟩
  · rw [← hdrop, List.takeWhile_append_dropWhile]
  · have := List.head_dropWhile_not isDigit hne
    simpa [hdrop] using this

/-- What stands behind another character still ends in `:`. -/
theorem getLast?_behind {front rest : List UInt8} {c : UInt8} (hc : c ≠ 58)
    (h : (front ++ c :: rest).getLast? = some 58) : rest.getLast? = some 58 := by
  rw [List.getLast?_append_cons, List.getLast?_cons] at h
  cases hrest : rest.getLast? with
  | none =>
    rw [hrest] at h
    exact absurd (Option.some.inj h) hc
  | some last => rwa [hrest] at h

theorem readInt_of {d pre rest : List UInt8} {c : UInt8}
    (h : (pre ++ (d ++ c :: rest)).length ≤ 64) (hd : ∀ b ∈ d, isDigit b = true)
    (hc : isDigit c = false) :
    readInt (Cells.of (pre ++ (d ++ c :: rest))) pre.length =
      some (leadingInt (d ++ c :: rest), pre.length + d.length) := by
  have hfold : ∀ (d : List UInt8) (v : BitVec 32),
      d.foldl (fun v c => v * 10 + ((c - 48).toNat : BitVec 32)) v = numeralValue v d := by
    intro d
    induction d with
    | nil => exact fun v => rfl
    | cons c d ih => exact fun v => ih _
  have hlen : d.length < 65 := by
    simp only [List.length_append] at h
    omega
  rw [readInt, Cells.foldWhile_of _ _ h hd hc hlen, hfold, leadingInt, (takeWhile_digits hd hc).1]

/-- The length field, read from an array that holds the text to its last `:`. -/
theorem parseIpdLen_of {pre t : List UInt8} (link : BitVec 32) (h : (pre ++ t).length ≤ 64)
    (hlast : t.getLast? = some 58) :
    parseIpdLen (Cells.of (pre ++ t)) link pre.length =
      some (if (t.dropWhile isDigit).head? = some 58 then
        ((link.setWidth 8).toInt, ((leadingInt t).setWidth 16).toNat) else (-1, 0)) := by
  obtain ⟨d, c, rest, rfl, hd, hc⟩ := exists_digits hlast
  have hread : (Cells.of (pre ++ (d ++ c :: rest)) : Cells UInt8 64).read (pre.length + d.length) =
      some c := by
    rw [← List.append_assoc, ← List.length_append]
    exact Cells.read_of_append (by simpa using h)
  rw [parseIpdLen, readInt_of h hd hc, Option.bind_eq_bind, Option.bind_some]
  simp only [hread, Option.bind_eq_bind, Option.bind_some, (takeWhile_digits hd hc).2,
    List.head?_cons, Option.some.injEq]
  by_cases h58 : c = 58
  · rw [if_neg (not_not_intro h58), if_pos h58]
  · rw [if_pos h58, if_neg h58]

/-- **The header is parsed within `hdr`**, when it has been copied to its `:`. -/
theorem parseIpdHeader_of {t : List UInt8} (h : (ascii "+IPD," ++ t).length ≤ 64)
    (hlast : t.getLast? = some 58) :
    parseIpdHeader (Cells.of (ascii "+IPD," ++ t)) =
      some (GrainWarehouse.parseIpdHeader (ascii "+IPD," ++ t)) := by
  have hstart : (Cells.of (ascii "+IPD," ++ t) : Cells UInt8 64).startsWith (ascii "+IPD,") 0 =
      some true := @Cells.startsWith_of UInt8 64 _ _ (ascii "+IPD,") [] t h
  have hpre : (ascii "+IPD,").isPrefixOf (ascii "+IPD," ++ t) = true :=
    List.isPrefixOf_iff_prefix.mpr (List.prefix_append _ _)
  have hdrop : (ascii "+IPD," ++ t).drop 5 = t := List.drop_left' rfl
  have hlen := parseIpdLen_of 0 h hlast
  obtain ⟨d, c, rest, rfl, hd, hc⟩ := exists_digits hlast
  have hd65 : d.length < 65 := by
    simp only [List.length_append] at h
    omega
  have hskip := Cells.foldWhile_of (fun u _ => u) () h hd hc hd65
  have hread : (Cells.of (ascii "+IPD," ++ (d ++ c :: rest)) : Cells UInt8 64).read
      ((ascii "+IPD,").length + d.length) = some c := by
    rw [← List.append_assoc, ← List.length_append]
    exact Cells.read_of_append (by simpa using h)
  rw [GrainWarehouse.parseIpdHeader, if_pos hpre, hdrop]
  simp only [(takeWhile_digits hd hc).2, List.head?_cons, Option.some.injEq, List.tail_cons]
  rw [parseIpdHeader, hstart, Option.bind_eq_bind, Option.bind_some, if_pos rfl]
  change ((Cells.of _ : Cells UInt8 64).foldWhile isDigit _ 65 (ascii "+IPD,").length () >>= _) = _
  rw [hskip, Option.bind_eq_bind, Option.bind_some]
  simp only [hread, Option.bind_eq_bind, Option.bind_some]
  by_cases hcomma : c = 44
  · subst hcomma
    have hassoc : ascii "+IPD," ++ (d ++ 44 :: rest) = (ascii "+IPD," ++ (d ++ [44])) ++ rest := by
      simp
    have hp : (ascii "+IPD," ++ (d ++ [44])).length = (ascii "+IPD,").length + d.length + 1 := by
      simp only [List.length_append, List.length_singleton, Nat.add_assoc]
    have hlink := parseIpdLen_of (leadingInt (d ++ 44 :: rest)) (hassoc ▸ h)
      (getLast?_behind (by decide) hlast)
    rw [← hassoc, hp] at hlink
    simp only [if_true]
    change (readInt (Cells.of _) (ascii "+IPD,").length >>= _) = _
    rw [readInt_of h hd hc, Option.bind_eq_bind, Option.bind_some]
    simp only [hread, Option.bind_some, ne_eq, not_true_eq_false, if_false]
    exact hlink
  · rw [if_neg hcomma]
    simp only [if_neg hcomma]
    exact hlen

/-- The clamp to the unread bytes is that of the view. -/
theorem clamp_view (r : Ring) (n : UInt16) :
    (if n.toNat > GrainWarehouse.ringUsed r.view then GrainWarehouse.ringUsed r.view
      else n.toNat) = (if n > ringUsed r then ringUsed r else n).toNat := by
  rw [toNat_clamp, toNat_ringUsed, length_bytes]
  split <;> omega

theorem consume_view (r : Ring) (n : UInt16) :
    (consume r n).view = GrainWarehouse.ringConsume r.view n.toNat := by
  simp only [consume, view_tail_add, GrainWarehouse.ringConsume, clamp_view]

theorem inRange_tail {r : Ring} (h : r.InRange) (i : UInt16) :
    ({ r with tail := i &&& espRxbufMask } : Ring).InRange := by
  refine ⟨h.head, ?_⟩
  rw [toNat_and_mask]
  exact Nat.mod_lt _ (by decide)

theorem inRange_consume {r : Ring} (h : r.InRange) (n : UInt16) : (consume r n).InRange :=
  inRange_tail h _

/-- **The copying loop stays in both arrays**, while `dst` has room. -/
theorem copyOutLoop_eq {m : ℕ} : ∀ {left : ℕ} {acc : List UInt8} {r : Ring}, r.InRange →
    acc.length + left ≤ m → ∃ r' : Ring, r'.InRange ∧
      r'.view = (GrainWarehouse.copyLoop left r.view).2 ∧
      copyOutLoop left (Cells.of acc : Cells UInt8 m) acc.length r =
        some (Cells.of (acc ++ (GrainWarehouse.copyLoop left r.view).1),
          (acc ++ (GrainWarehouse.copyLoop left r.view).1).length, r')
  | 0, acc, r, h, _ => ⟨r, h, rfl, by rw [GrainWarehouse.copyLoop, List.append_nil]; rfl⟩
  | left + 1, acc, r, h, hroom => by
      have hview := view_tail_add r 1
      have hbuf : r.view.buf r.view.tail = r.buf r.tail.toNat := view_buf r h.tail
      set r₁ : Ring := { r with tail := (r.tail + 1) &&& espRxbufMask } with hr₁
      have hacc : (acc ++ [r.buf r.tail.toNat]).length = acc.length + 1 := by simp
      obtain ⟨r', hr', hr'view, hloop⟩ : ∃ r' : Ring, r'.InRange ∧
          r'.view = (GrainWarehouse.copyLoop left r₁.view).2 ∧
          copyOutLoop left (Cells.of (acc ++ [r.buf r.tail.toNat]) : Cells UInt8 m) _ r₁ = _ :=
        copyOutLoop_eq (inRange_tail h (r.tail + 1)) (by omega)
      rw [hacc, List.append_assoc, List.singleton_append] at hloop
      have hone : Fin.ofNat espRxbufSize (1 : UInt16).toNat = 1 := rfl
      have hread : r.read r.tail.toNat = some (r.buf r.tail.toNat) := if_pos h.tail
      rw [hone] at hview
      rw [GrainWarehouse.copyLoop, ← hview, hbuf]
      refine ⟨r', hr', hr'view, ?_⟩
      rw [copyOutLoop, hread, Option.bind_eq_bind, Option.bind_some, Cells.write_of _ (by omega),
        Option.bind_eq_bind, Option.bind_some]
      exact hloop

/-- With no interrupt, the program of `Esp8266/Shared` is this function. -/
theorem exec_ringConsume (s : Rx) (n : UInt16) :
    Prog.exec espUartIrq (List.replicate 4 none) (ringConsume n) s =
      (.ret (), { s with ring := consume s.ring n }) := rfl

/-- …and so is the copying loop. -/
theorem exec_copyLoop {m : ℕ} : ∀ {left : ℕ} {acc : List UInt8} {s : Rx}, s.ring.InRange →
    acc.length + left ≤ m → ∃ out r', Prog.exec espUartIrq (List.replicate (4 * left) none)
        (copyLoop left acc) s = (.ret out, { s with ring := r' }) ∧
      copyOutLoop left (Cells.of acc : Cells UInt8 m) acc.length s.ring =
        some (Cells.of out, out.length, r')
  | 0, acc, s, _, _ => ⟨acc, s.ring, rfl, rfl⟩
  | left + 1, acc, s, h, hroom => by
      have hacc : (acc ++ [s.ring.buf s.ring.tail.toNat]).length = acc.length + 1 := by simp
      have hread : s.ring.read s.ring.tail.toNat = some (s.ring.buf s.ring.tail.toNat) :=
        if_pos h.tail
      set s₁ := setTail ((s.ring.tail + 1) &&& espRxbufMask) s
      obtain ⟨out, r', hexec, hloop⟩ : ∃ out r', _ ∧ copyOutLoop left
          (Cells.of (acc ++ [s.ring.buf s.ring.tail.toNat]) : Cells UInt8 m) _ s₁.ring = _ :=
        exec_copyLoop (inRange_tail h _) (by omega)
      refine ⟨out, r', hexec, ?_⟩
      rw [copyOutLoop, hread, Option.bind_eq_bind, Option.bind_some, Cells.write_of _ (by omega),
        Option.bind_eq_bind, Option.bind_some, ← hacc]
      exact hloop

/-- …and so is `ring_copy_out`. -/
theorem exec_ringCopyOut {m : ℕ} {s : Rx} (h : s.ring.InRange) {maxlen : UInt16}
    (hm : maxlen.toNat ≤ m) : ∃ k out r', Prog.exec espUartIrq (List.replicate (4 * k + 2) none)
        (ringCopyOut maxlen) s = (.ret out, { s with ring := r' }) ∧
      copyOut s.ring (Cells.of [] : Cells UInt8 m) maxlen =
        some (Cells.of out, out.length, r') := by
  have hle := (toNat_clamp maxlen (ringUsed s.ring)).trans_le ((min_le_left _ _).trans hm)
  obtain ⟨out, r', hexec, hloop⟩ : ∃ out r', _ ∧
      copyOutLoop _ (Cells.of [] : Cells UInt8 m) _ s.ring = _ :=
    exec_copyLoop h ((Nat.zero_add _).trans_le hle)
  exact ⟨_, out, r', hexec, hloop⟩

/-- **`ring_copy_out` stays in `dst`**, when `maxlen` is at most its size. -/
theorem copyOut_eq {m : ℕ} {r : Ring} (h : r.InRange) {maxlen : UInt16} (hm : maxlen.toNat ≤ m) :
    ∃ r' : Ring, r'.InRange ∧ r'.view = (GrainWarehouse.ringCopyOut r.view maxlen.toNat).2 ∧
      copyOut r (Cells.of [] : Cells UInt8 m) maxlen =
        some (Cells.of (GrainWarehouse.ringCopyOut r.view maxlen.toNat).1,
          (GrainWarehouse.ringCopyOut r.view maxlen.toNat).1.length, r') := by
  have hle := (toNat_clamp maxlen (ringUsed r)).trans_le ((min_le_left _ _).trans hm)
  rw [GrainWarehouse.ringCopyOut, clamp_view]
  exact copyOutLoop_eq h ((Nat.zero_add _).trans_le hle)

theorem lastOfHdr_of {hdr : List UInt8} (h : hdr.length ≤ 64) :
    lastOfHdr (Cells.of hdr) hdr.length = hdr.getLast? := by
  rcases List.eq_nil_or_concat hdr with rfl | ⟨front, c, rfl⟩
  · rfl
  · rw [List.concat_eq_append] at h ⊢
    rw [List.length_append, List.length_singleton, lastOfHdr, Cells.read_of_append h,
      List.getLast?_concat]

/-- The header begins with what was searched for. -/
theorem headerAt_eq {ring post : List UInt8} {hit : ℕ}
    (h : ring.drop hit = ascii "+IPD," ++ post) :
    headerAt ring hit = ascii "+IPD," ++ throughColon 58 post := by
  have hipd : ascii "+IPD," = [43, 73, 80, 68, 44] := by decide
  change throughColon 63 (ring.drop hit) = _
  rw [h, hipd]
  simp only [List.cons_append, List.nil_append, throughColon_cons]
  rfl

theorem length_headerAt_le (ring : List UInt8) (hit : ℕ) : (headerAt ring hit).length ≤ 63 :=
  (List.length_take_le' _ _).trans (List.length_take_le _ _)

/-- **The header keeps to `hdr`**: it is copied there, its last byte is read there, and if that is
a `:` it is parsed there. -/
theorem header_checked {r : Ring} {hit : ℕ} (h : findSub (ascii "+IPD,") r.bytes = some hit) :
    hdrLoop r r.bytes.length 64 hit (Cells.of []) 0 =
        some (Cells.of (headerAt r.bytes hit), (headerAt r.bytes hit).length) ∧
      ∃ last, (headerAt r.bytes hit).getLast? = some last ∧
        lastOfHdr (Cells.of (headerAt r.bytes hit)) (headerAt r.bytes hit).length = some last ∧
        (last = 58 → parseIpdHeader (Cells.of (headerAt r.bytes hit)) =
          some (GrainWarehouse.parseIpdHeader (headerAt r.bytes hit))) := by
  obtain ⟨pre, post, hsplit, hpre⟩ := findSub_eq_some h
  have hdrop : r.bytes.drop hit = ascii "+IPD," ++ post := by
    rw [hsplit, List.append_assoc, ← hpre, List.drop_left]
  have hheader := headerAt_eq hdrop
  have hshort : (headerAt r.bytes hit).length ≤ 64 := (length_headerAt_le _ _).trans (by decide)
  refine ⟨hdrLoop_eq (Nat.zero_le _) (by decide), ?_⟩
  rw [lastOfHdr_of hshort]
  have hne : headerAt r.bytes hit ≠ [] := by
    rw [hheader]
    exact List.append_ne_nil_of_left_ne_nil (by decide) _
  obtain ⟨last, hlast⟩ := Option.ne_none_iff_exists'.mp (mt List.getLast?_eq_none_iff.mp hne)
  refine ⟨last, hlast, hlast, ?_⟩
  rintro rfl
  rw [hheader] at hlast hshort ⊢
  refine parseIpdHeader_of hshort ?_
  rcases hnil : throughColon 58 post with _ | ⟨c, rest⟩
  · rw [hnil, List.append_nil] at hlast
    exact absurd hlast (by decide)
  · rwa [hnil, List.getLast?_append_of_ne_nil _ (List.cons_ne_nil _ _)] at hlast

theorem parseIpdHeader_lt (line : List UInt8) : (GrainWarehouse.parseIpdHeader line).2 < 65536 := by
  simp only [GrainWarehouse.parseIpdHeader]
  split_ifs
  all_goals first | exact BitVec.isLt _ | exact Nat.succ_pos _

theorem takeFrame_checked {r : Ring} (h : r.InRange) {hit hdrLen dlen : ℕ} (link : ℤ)
    (hhdr : hit + hdrLen < 65536) (hdlen : dlen < 65536) :
    ∃ o, takeFrame r r.bytes.length hit hdrLen link dlen = some o ∧ (∀ x ∈ o, x.2.InRange) ∧
      (o.map fun x => (x.1, x.2.view)) =
        if link < 0 ∨ dlen = 0 then some (none, GrainWarehouse.ringConsume r.view 1)
        else if r.bytes.length < hit + hdrLen + dlen then none
        else
          let rx := GrainWarehouse.ringConsume r.view (hit + hdrLen)
          if 512 < dlen then some (none, GrainWarehouse.ringConsume rx dlen)
          else
            let out := GrainWarehouse.ringCopyOut rx dlen
            if out.1.length ≠ dlen then
              some (none, GrainWarehouse.ringConsume out.2 (r.bytes.length - hit - hdrLen))
            else some (some (link, out.1), out.2) := by
  have hle := r.length_bytes_le
  have hone {x : Option (ℤ × List UInt8)} {r' : Ring} (hr' : r'.InRange) :
      ∀ y ∈ some (x, r'), y.2.InRange := fun y hy => by
    cases hy
    exact hr'
  rw [takeFrame]
  split
  · exact ⟨_, rfl, hone (inRange_consume h 1),
      congrArg (fun v => some (none, v)) (consume_view r 1)⟩
  · split
    · exact ⟨none, rfl, fun y hy => (Option.not_mem_none y hy).elim, rfl⟩
    · have hrx := consume_view r (UInt16.ofNat (hit + hdrLen))
      rw [UInt16.toNat_ofNat_of_lt' hhdr] at hrx
      have hrange := inRange_consume h (UInt16.ofNat (hit + hdrLen))
      simp only [← hrx]
      set rx := consume r (UInt16.ofNat (hit + hdrLen))
      split
      · have hskip := consume_view rx (UInt16.ofNat dlen)
        rw [UInt16.toNat_ofNat_of_lt' hdlen] at hskip
        exact ⟨_, rfl, hone (inRange_consume hrange _), congrArg (fun v => some (none, v)) hskip⟩
      · next hbig =>
        obtain ⟨r', hr', hview, hcopy⟩ : ∃ r' : Ring, r'.InRange ∧
            r'.view = (GrainWarehouse.ringCopyOut rx.view (UInt16.ofNat dlen).toNat).2 ∧
            copyOut rx (Cells.of [] : Cells UInt8 512) (UInt16.ofNat dlen) = _ :=
          copyOut_eq hrange (by rw [UInt16.toNat_ofNat_of_lt' hdlen]; omega)
        rw [UInt16.toNat_ofNat_of_lt' hdlen] at hview hcopy
        rw [hcopy, Option.bind_eq_bind, Option.bind_some]
        simp only
        split
        · have hskip := consume_view r' (UInt16.ofNat (r.bytes.length - hit - hdrLen))
          rw [UInt16.toNat_ofNat_of_lt' (by change _ < 65536; omega), hview] at hskip
          exact ⟨_, rfl, hone (inRange_consume hr' _), congrArg (fun v => some (none, v)) hskip⟩
        · next hgot =>
          refine ⟨_, rfl, hone hr', ?_⟩
          have hlen := Decidable.of_not_not hgot
          set out := GrainWarehouse.ringCopyOut rx.view dlen
          have hfront : (Cells.of out.1 : Cells UInt8 512).front dlen = out.1 := by
            have := Cells.front_of (n := 512) (l := out.1) (by omega)
            rwa [hlen] at this
          rw [Option.map_some, hview, hfront]

/-- **A round of the frame pass keeps to the buffers**, and is the round of `Esp8266/Frames`. -/
theorem parseRound_checked {r : Ring} (h : r.InRange) {e : Esp α} (he : e.sRx = r.view) :
    ∃ o, parseRound r = some o ∧ (∀ x ∈ o, x.2.InRange) ∧
      (GrainWarehouse.parseRound e).map (fun x => (x.1, x.2.sRx)) =
        o.map fun x => (x.1, x.2.view) := by
  have hring : e.ring = r.bytes := congrArg RingT.bytes he
  have hle := r.length_bytes_le
  have hfind : findLoop r (ascii "+IPD,") r.bytes.length (r.bytes.length + 1) 0 = _ :=
    findLoop_eq (by decide) (by omega)
  have hreturn : ∀ x ∈ (none : Option (Option (ℤ × List UInt8) × Ring)), x.2.InRange :=
    fun x hx => (Option.not_mem_none x hx).elim
  simp only [parseRound, GrainWarehouse.parseRound, hring, toNat_ringUsed, hfind]
  by_cases hused : r.bytes.length < 6
  · simp only [if_pos hused]
    exact ⟨none, rfl, hreturn, rfl⟩
  simp only [if_neg hused, List.drop_zero, Option.bind_eq_bind, Option.bind_some]
  cases hhit : findSub (ascii "+IPD,") r.bytes with
  | none => exact ⟨none, rfl, hreturn, rfl⟩
  | some hit =>
    obtain ⟨hloop, last, hlast, hread, hparse⟩ := header_checked hhit
    simp only [Option.map_some, Nat.add_zero, hloop, Option.bind_some, hread, hlast]
    by_cases h58 : last = 58
    · subst h58
      have hhit := findSub_add_le hhit
      have hlen := length_headerAt_le r.bytes hit
      obtain ⟨o, ho, hrange, hview⟩ := takeFrame_checked h
        (GrainWarehouse.parseIpdHeader (headerAt r.bytes hit)).1
        (show hit + (headerAt r.bytes hit).length < 65536 by omega)
        (parseIpdHeader_lt (headerAt r.bytes hit))
      simp only [ne_eq, not_true_eq_false, if_false, hparse rfl, Option.bind_some]
      refine ⟨o, ho, hrange, hview ▸ ?_⟩
      simp only [apply_ite (Option.map _), Option.map_some, Option.map_none, he, delivered]
    · have h58' : ¬ some last = some 58 := fun heq => h58 (Option.some.inj heq)
      simp only [ne_eq, h58, h58', not_false_eq_true, if_true]
      exact ⟨none, rfl, hreturn, rfl⟩

/-- **The trailing CRs and LFs are cut within `line`.** -/
theorem trimLoop_of (l : List UInt8) (h : l.length ≤ 128) :
    trimLoop l.length (Cells.of l) =
      some (Cells.of (l.rdropWhile fun c => c = CR || c = LF)) := by
  induction l using List.reverseRecOn with
  | nil => rfl
  | append_singleton l c ih =>
    rw [List.length_append, List.length_singleton] at h ⊢
    rw [trimLoop, Cells.read_of_append (by simpa using h), Option.bind_eq_bind, Option.bind_some]
    by_cases hc : c = CR ∨ c = LF
    · rw [if_pos hc, Cells.write_of_append c 0 (by omega), Option.bind_eq_bind, Option.bind_some,
        Cells.of_append_zero, ih (by omega), List.rdropWhile_concat_pos _ _ _ (by simpa using hc)]
    · rw [if_neg hc, List.rdropWhile_concat_neg _ _ _ (by simpa using hc)]

/-- **A line keeps to `line`**: it is copied there, and terminated and trimmed there. -/
theorem line_checked {r : Ring} (h : r.InRange) {n : ℕ} (hn : n < 128)
    (hfull : n ≤ r.bytes.length) {out : List UInt8 × RingT}
    (hout : GrainWarehouse.ringCopyOut r.view n = out) :
    ∃ rx : Ring, rx.InRange ∧ rx.view = out.2 ∧
      copyOut r (Cells.of [] : Cells UInt8 128) (UInt16.ofNat n) =
        some (Cells.of out.1, out.1.length, rx) ∧
      (Cells.of out.1 : Cells UInt8 128).write n 0 = some (Cells.of out.1) ∧
      trimLoop n (Cells.of out.1) =
        some (Cells.of (out.1.rdropWhile fun c => c = CR || c = LF)) ∧
      (out.1.rdropWhile fun c => c = CR || c = LF).length < 128 := by
  have hnat : (UInt16.ofNat n).toNat = n := UInt16.toNat_ofNat_of_lt' (by change _ < 65536; omega)
  obtain ⟨rx, hrx, hview, hcopy⟩ : ∃ rx : Ring, rx.InRange ∧
      rx.view = (GrainWarehouse.ringCopyOut r.view (UInt16.ofNat n).toNat).2 ∧
      copyOut r (Cells.of [] : Cells UInt8 128) (UInt16.ofNat n) = _ :=
    copyOut_eq h (by omega)
  rw [hnat, hout] at hview hcopy
  have hlen : out.1.length = n := by
    rw [← hout, (ringCopyOut_eq _ n).1, List.length_take]
    exact min_eq_left hfull
  have hzero := Cells.write_of (n := 128) (l := out.1) 0 (by omega)
  rw [hlen, Cells.of_append_zero] at hzero
  have htrim := trimLoop_of out.1 (by omega)
  rw [hlen] at htrim
  exact ⟨rx, hrx, hview, hcopy, hzero, htrim,
    (List.rdropWhile_prefix _ _).length_le.trans_lt (by omega)⟩

/-- The flags and the ring of the driver are those of `Esp8266/Frames`. -/
structure Mirrors (e : Esp α) (s : Driver β) : Prop where
  sRx : e.sRx = s.sRx.view
  sWifiConnected : e.sWifiConnected = s.sWifiConnected
  sLinkState : e.sLinkState = s.sLinkState

/-- The tag of the line is that of the string in it. -/
theorem linkTag_of (t : List UInt8) : linkTag (Cells.of t) = some
    (if (t.takeWhile (· ≠ 0)).length ≥ 2 ∧ 48 ≤ (t.takeWhile (· ≠ 0)).headD 0 ∧
        (t.takeWhile (· ≠ 0)).headD 0 ≤ 52 ∧ (t.takeWhile (· ≠ 0)).tail.headD 0 = 44 then
      some ((t.takeWhile (· ≠ 0)).headD 0 - 48).toNat
    else none) := by
  have hread (i : ℕ) (hi : i < 128) : (Cells.of t : Cells UInt8 128).read i = some (t.getD i 0) :=
    Cells.read_of hi
  simp only [linkTag, hread 0 (by decide), hread 1 (by decide), Option.bind_eq_bind,
    Option.bind_some]
  rcases t with _ | ⟨a, _ | ⟨b, t⟩⟩
  · rfl
  · by_cases ha : a = 0 <;> simp [ha]
  · by_cases ha : a = 0
    · simp [ha]
    · by_cases hb : b = 0
      · simp [ha, hb]
      · have htake : (a :: b :: t).takeWhile (· ≠ 0) = a :: b :: t.takeWhile (· ≠ 0) := by
          rw [List.takeWhile_cons_of_pos (by simpa using ha),
            List.takeWhile_cons_of_pos (by simpa using hb)]
        have hlen : (a :: b :: t.takeWhile (· ≠ 0)).length ≥ 2 := Nat.le_add_left 2 _
        simp only [htake, hlen, true_and, List.getD_cons_zero, List.getD_cons_succ, List.headD_cons,
          List.tail_cons, ← and_assoc]
        by_cases hc : 48 ≤ a ∧ a ≤ 52
        · simp only [hc, true_and, and_self, if_true, apply_ite some]
        · rw [if_neg hc, if_neg fun h => hc h.1]

theorem mirrors_setLinkState {e : Esp α} {s : Driver β} (h : Mirrors e s) {id : ℕ}
    (hid : id < espMaxLinkId) (up : Bool) :
    Mirrors { e with sLinkState := Function.update e.sLinkState (Fin.ofNat espMaxLinkId id) up }
      (setLinkState id up s) ∧ (setLinkState id up s).sRx = s.sRx ∧
        (setLinkState id up s).up = s.up := by
  have hfin : Fin.ofNat espMaxLinkId id = ⟨id, hid⟩ := Fin.ext (Nat.mod_eq_of_lt hid)
  rw [setLinkState, dif_pos hid, hfin]
  exact ⟨⟨h.sRx, h.sWifiConnected, by rw [h.sLinkState]⟩, rfl, rfl⟩

/-- **The report is read within `line`**, and does what it does in `Esp8266/Frames`. -/
theorem applyUrc_checked {t : List UInt8} (ht : t.length < 128) {e : Esp α} {s : Driver β}
    (h : Mirrors e s) : ∃ s', applyUrc (Cells.of t) s = some s' ∧
      Mirrors (GrainWarehouse.applyUrc (t.takeWhile (· ≠ 0)) e) s' ∧ s'.sRx = s.sRx ∧
        s'.up = s.up := by
  have htext : (Cells.of t : Cells UInt8 128).stringAt 129 0 = some (t.takeWhile (· ≠ 0)) :=
    @Cells.stringAt_of UInt8 128 _ _ 129 t [] ht (by omega)
  refine ⟨_, by rw [applyUrc, linkTag_of, htext]; rfl, ?_⟩
  set text := t.takeWhile (· ≠ 0)
  rw [GrainWarehouse.applyUrc]
  split
  · next htag =>
    have hid : (text.headD 0 - 48).toNat < espMaxLinkId := by
      have hle := UInt8.le_iff_toNat_le.mp htag.2.2.1
      rw [UInt8.toNat_sub_of_le _ _ htag.2.1]
      change _ ≤ 52 at hle
      change _ - 48 < 5
      omega
    have hset := mirrors_setLinkState h hid
    simp only [report]
    split_ifs
    · exact hset true
    · exact hset false
    · exact ⟨h, rfl, rfl⟩
  · simp only [report]
    split_ifs
    · exact mirrors_setLinkState h (show 0 < espMaxLinkId by decide) false
    · exact ⟨⟨h.sRx, rfl, rfl⟩, rfl, rfl⟩
    · exact ⟨⟨h.sRx, rfl, h.sLinkState⟩, rfl, rfl⟩
    · exact ⟨h, rfl, rfl⟩

/-- **A round of the line pass keeps to the buffers**, and is the round of `Esp8266/Frames`. -/
theorem lineBody_checked {e : Esp α} {s : Driver β} (h : s.sRx.InRange) (hm : Mirrors e s) :
    (lineBody s = some none ∧ GrainWarehouse.lineBody e = none) ∨
    ∃ s' e', lineBody s = some (some s') ∧ GrainWarehouse.lineBody e = some e' ∧ Mirrors e' s' ∧
      s'.sRx.InRange ∧ s'.up = s.up := by
  have hring : e.ring = s.sRx.bytes := congrArg RingT.bytes hm.sRx
  have hle := s.sRx.length_bytes_le
  have hfind : findLoop s.sRx [LF] s.sRx.bytes.length (s.sRx.bytes.length + 1) 0 = _ :=
    findLoop_eq (by decide) (by omega)
  simp only [lineBody, GrainWarehouse.lineBody, hring, toNat_ringUsed, hfind, List.drop_zero]
  by_cases hused : s.sRx.bytes.length = 0
  · rw [if_pos hused, if_pos hused]
    exact Or.inl ⟨rfl, rfl⟩
  rw [if_neg hused, if_neg hused]
  cases hlast : findSub [LF] s.sRx.bytes with
  | none => exact Or.inl ⟨rfl, rfl⟩
  | some last =>
    have hn : (if last + 1 < 128 then last + 1 else 127) < 128 := by split <;> omega
    have hin := findSub_add_le hlast
    rw [List.length_singleton] at hin
    have hfull : (if last + 1 < 128 then last + 1 else 127) ≤ s.sRx.bytes.length := by
      split <;> omega
    simp only [Option.map_some, Nat.add_zero, Option.bind_eq_bind, Option.bind_some]
    generalize (if last + 1 < 128 then last + 1 else 127) = n at hn hfull ⊢
    rw [takeLine, hm.sRx]
    obtain ⟨rx, hrx, hview, hcopy, hzero, htrim, hcut⟩ := line_checked h hn hfull rfl
    set out := GrainWarehouse.ringCopyOut s.sRx.view n
    rw [hcopy]
    have hm' : Mirrors { e with sRx := out.2, log := e.log ++ [.line out.1 e.up] }
        { s with sRx := rx } := ⟨hview.symm, hm.sWifiConnected, hm.sLinkState⟩
    obtain ⟨s', hs', hmirrors, hring', hup⟩ := applyUrc_checked hcut hm'
    refine Or.inr ⟨s', _, ?_, rfl, hmirrors, hring' ▸ hrx, hup⟩
    simp only [Option.bind_some, hzero, htrim, hs']

/-! ## `esp8266_loop` ends -/

/-- The callback only consumes from the ring. -/
def OnlyConsumes (cb : ℤ → List UInt8 → Driver β → Driver β) : Prop :=
  ∀ link data s, ∃ n, (cb link data s).sRx = consume s.sRx n

theorem bytes_consume (r : Ring) (n : UInt16) : (consume r n).bytes = r.bytes.drop n.toNat := by
  rw [Ring.bytes, consume_view, bytes_ringConsume]

/-- **Every iteration of `parse_ipd_frames`** returns, or lowers the number of unread bytes. -/
theorem parseBody_progress {cb : ℤ → List UInt8 → Driver β → Driver β} (hcb : OnlyConsumes cb)
    {s : Driver β} (h : s.sRx.InRange) : ∃ o, parseBody cb s = some o ∧
      ∀ s' ∈ o, s'.sRx.InRange ∧ s'.sRx.bytes.length < s.sRx.bytes.length := by
  obtain ⟨o, ho, hrange, hview⟩ := parseRound_checked h
    (e := { Esp.boot () [] with sRx := s.sRx.view }) rfl
  rw [parseBody, ho, Option.bind_eq_bind, Option.bind_some]
  rcases o with _ | ⟨frame, rx⟩
  · exact ⟨none, rfl, fun s' hs' => (Option.not_mem_none s' hs').elim⟩
  · obtain ⟨⟨frame', e'⟩, hround, heq⟩ := Option.map_eq_some_iff.mp hview
    have hlt := pending_parseRound hround
    have hrx : e'.sRx = rx.view := congrArg Prod.snd heq
    have hless : rx.bytes.length < s.sRx.bytes.length := by
      change e'.ring.length + _ < s.sRx.bytes.length + 0 at hlt
      rw [Ring.bytes, ← hrx]
      change e'.ring.length < _
      omega
    have hr := hrange _ rfl
    cases frame with
    | none => exact ⟨_, rfl, fun s' hs' => by cases hs'; exact ⟨hr, hless⟩⟩
    | some frame =>
      refine ⟨_, rfl, fun s' hs' => ?_⟩
      cases hs'
      obtain ⟨n, hn⟩ := hcb frame.1 frame.2 { s with sRx := rx }
      rw [hn, bytes_consume, List.length_drop]
      exact ⟨inRange_consume hr n, (Nat.sub_le _ _).trans_lt hless⟩

/-- **Every iteration of the line loop** breaks, or lowers the number of unread bytes. -/
theorem lineBody_progress {s : Driver β} (h : s.sRx.InRange) : ∃ o, lineBody s = some o ∧
    ∀ s' ∈ o, s'.sRx.InRange ∧ s'.sRx.bytes.length < s.sRx.bytes.length := by
  let e : Esp Unit := { Esp.boot () [] with
    sRx := s.sRx.view
    sWifiConnected := s.sWifiConnected
    sLinkState := s.sLinkState }
  rcases lineBody_checked (e := e) h ⟨rfl, rfl, rfl⟩ with
    ⟨hbody, -⟩ | ⟨s', e', hbody, hround, hm, hr, -⟩
  · exact ⟨none, hbody, fun s' hs' => (Option.not_mem_none s' hs').elim⟩
  · refine ⟨some s', hbody, fun s'' hs'' => ?_⟩
    cases hs''
    obtain ⟨n, last, hfind, -, hn, rfl⟩ := lineBody_cases hround
    have hin := findSub_add_le hfind
    rw [List.length_singleton] at hin
    have hring : s'.sRx.bytes = s.sRx.bytes.drop n := by
      rw [Ring.bytes, ← hm.sRx]
      exact ring_takeLine n e
    refine ⟨hr, ?_⟩
    rw [hring, List.length_drop]
    change last + 1 ≤ s.sRx.bytes.length at hin
    omega

/-- **`esp8266_loop` ends, and keeps to its buffers**, whatever the ring holds, while nothing
arrives and the callback only consumes: no round goes wrong, each is the last of its loop or lowers
the number of unread bytes, and more rounds than there are unread bytes are never needed. -/
theorem esp8266Loop_terminates {cb : ℤ → List UInt8 → Driver β → Driver β} (hcb : OnlyConsumes cb)
    {s : Driver β} (h : s.sRx.InRange) :
    (∃ o, parseBody cb s = some o ∧
      ∀ s' ∈ o, s'.sRx.InRange ∧ s'.sRx.bytes.length < s.sRx.bytes.length) ∧
    (∃ o, lineBody s = some o ∧
      ∀ s' ∈ o, s'.sRx.InRange ∧ s'.sRx.bytes.length < s.sRx.bytes.length) ∧
    ∃ s', ∀ n, s.sRx.bytes.length < n → esp8266Loop cb n s = some (some s') := by
  refine ⟨parseBody_progress hcb h, lineBody_progress h, ?_⟩
  obtain ⟨s₁, h₁, hle, hparse⟩ := tryLoop_exit (P := fun s : Driver β => s.sRx.InRange)
    (μ := fun s => s.sRx.bytes.length) (fun _ hs => parseBody_progress hcb hs) h le_rfl
  obtain ⟨s₂, -, -, hline⟩ := tryLoop_exit (P := fun s : Driver β => s.sRx.InRange)
    (μ := fun s => s.sRx.bytes.length) (fun _ hs => lineBody_progress hs) h₁ le_rfl
  refine ⟨s₂, fun n hn => ?_⟩
  rw [esp8266Loop, hparse n hn, Option.bind_eq_bind, Option.bind_some]
  exact hline n (hle.trans_lt hn)

/-- A header without a length, a frame that is not all there, and a line. -/
def garbled : Driver Unit where
  sRx := (ascii "+IPD,:\n+IPD,9:A").foldl (fun r b => (ringPush r b).2) Ring.empty
  sWifiConnected := true
  sLinkState := fun _ => true
  up := ()

theorem esp8266Loop_terminates_garbled :
    ∃ s', ∀ n, garbled.sRx.bytes.length < n →
      esp8266Loop (fun _ _ s => { s with sRx := consume s.sRx 2 }) n garbled = some (some s') :=
  (esp8266Loop_terminates (fun _ _ _ => ⟨2, rfl⟩) ⟨by decide +kernel, by decide +kernel⟩).2.2

end GrainWarehouse.Shared

import GrainWarehouse.Machinery.Loop
import GrainWarehouse.Esp8266.Device

/-!
# Esp8266/Frames — `esp8266_loop`: the `+IPD` frame parser and the line eater

`esp8266_loop` makes two passes over one ring.  `parse_ipd_frames` delivers every complete
`+IPD,[id,]n:payload` it finds and skips whatever stands before one; the second pass takes off every
line that is left, up to the last LF of the ring, and reads it as an unsolicited report.

What a round of either pass can do is said once, by `parseRound_cases` and `lineBody_cases`; both
lower the number of bytes still to be read, so the loops are left through their bodies and not for
want of rounds (`urcLines_exit`, and `parseIpdFrames_exit` for callbacks that only send).
-/

namespace GrainWarehouse

variable {α : Type}

/-! ## The header -/

/-- The loop `n = n * 10 + (*p - '0')` over the digits at `p`, in an `int` that wraps. -/
def leadingInt (p : List UInt8) : BitVec 32 := numeralValue 0 (p.takeWhile isDigit)

/-- `parse_ipd_header`, on the C string `line`: the link and the length, `(-1, 0)` when it is no
header.  Both numbers are C `int`s, then cast to `int8_t` and `uint16_t`. -/
def parseIpdHeader (line : List UInt8) : ℤ × ℕ :=
  if (ascii "+IPD,").isPrefixOf line then
    let p := line.drop 5
    let q := p.dropWhile isDigit
    -- a comma after the first number makes it the link id, with the length to follow
    let hasLink := q.head? = some 44
    let link := if hasLink then leadingInt p else 0
    let p := if hasLink then q.tail else p
    if (p.dropWhile isDigit).head? = some 58 then
      ((link.setWidth 8).toInt, ((leadingInt p).setWidth 16).toNat)
    else (-1, 0)
  else (-1, 0)

/-- The local copy `hdr[64]`: from the `+` through the first `:`, at most 63 bytes. -/
def headerAt (ring : List UInt8) (hit : ℕ) : List UInt8 :=
  let h := (ring.drop hit).take 63
  h.take (upThrough 58 h)

/-! ## The frame pass -/

/-- The type of `s_recv_cb`. -/
abbrev RecvCb (α : Type) := ℤ → List UInt8 → Esp α → Esp α

/-- The callback is about to be made: the frame is off the ring. -/
def delivered (hit : ℕ) (link : ℤ) (data : List UInt8) (rx : RingT) (e : Esp α) : Esp α :=
  { e with
    sRx := rx
    frameAt := e.rxd - e.ring.length + hit
    log := e.log ++ [.recv link data] }

/-- One round of `parse_ipd_frames`, up to the callback: the frame it took off the ring, if it took
one, and `none` where the function returns. -/
def parseRound (e : Esp α) : Option (Option (ℤ × List UInt8) × Esp α) :=
  let used := e.ring.length
  if used < 6 then none
  else
    match findSub (ascii "+IPD,") e.ring with
    | none => none
    | some hit =>
      let hdr := headerAt e.ring hit
      -- the header is not all there yet
      if hdr.getLast? ≠ some 58 then none
      else
        let link := (parseIpdHeader hdr).1
        let dlen := (parseIpdHeader hdr).2
        if link < 0 ∨ dlen = 0 then some (none, { e with sRx := ringConsume e.sRx 1 })
        -- the payload is not all there yet
        else if used < hit + hdr.length + dlen then none
        else
          let rx := ringConsume e.sRx (hit + hdr.length)
          if 512 < dlen then some (none, { e with sRx := ringConsume rx dlen })
          else
            let out := ringCopyOut rx dlen
            if out.1.length ≠ dlen then
              some (none, { e with sRx := ringConsume out.2 (used - hit - hdr.length) })
            else some (some (link, out.1), delivered hit link out.1 out.2 e)

/-- One round of `parse_ipd_frames`. -/
def parseBody (cb : RecvCb α) (e : Esp α) : Option (Esp α) :=
  (parseRound e).map fun r =>
    match r.1 with
    | none => r.2
    | some (link, data) => cb link data r.2

/-- All the bytes there are, received or to come. -/
def Esp.pending (e : Esp α) : ℕ := e.ring.length + e.coming.length

/-- What is left to happen: pauses of the script, and bytes to read. -/
def Esp.todo (e : Esp α) : ℕ := e.air.length + e.pending

/-- `parse_ipd_frames`. -/
def parseIpdFrames (cb : RecvCb α) (e : Esp α) : Esp α :=
  loop (parseBody cb) (e.todo + 1) e

/-! ## The line pass -/

/-- `strstr(line, text) != NULL`. -/
def contains (line text : List UInt8) : Bool := (findSub text line).isSome

/-- The C string in `line[128]` after its trailing CRs and LFs have been cut. -/
def urcLine (piece : List UInt8) : List UInt8 :=
  (piece.rdropWhile fun c => c = CR || c = LF).takeWhile (· ≠ 0)

/-- What a reported line does to `s_link_state` and `s_wifi_connected`. -/
def applyUrc (line : List UInt8) (e : Esp α) : Esp α :=
  if line.length ≥ 2 ∧ 48 ≤ line.headD 0 ∧ line.headD 0 ≤ 52 ∧ line.tail.headD 0 = 44 then
    let id := Fin.ofNat espMaxLinkId (line.headD 0 - 48).toNat
    if contains line (ascii "CONNECTED") then
      { e with sLinkState := Function.update e.sLinkState id true }
    else if contains line (ascii "CLOSED") then
      { e with sLinkState := Function.update e.sLinkState id false }
    else e
  else if line = ascii "CLOSED" ∨ contains line (ascii "CLOSED\r\n") then
    { e with sLinkState := Function.update e.sLinkState 0 false }
  else if contains line (ascii "WIFI DISCONNECT") then
    { e with sWifiConnected := false, sLinkState := fun _ => false }
  else if contains line (ascii "WIFI CONNECTED") ∨ contains line (ascii "WIFI GOT IP") then
    { e with sWifiConnected := true }
  else e

/-- `n` bytes come off the ring as one line. -/
def takeLine (n : ℕ) (e : Esp α) : Esp α :=
  let out := ringCopyOut e.sRx n
  applyUrc (urcLine out.1) { e with sRx := out.2, log := e.log ++ [.line out.1 e.up] }

/-- One round of the line pass: the bytes through the first LF, at most 127 of them. -/
def lineBody (e : Esp α) : Option (Esp α) :=
  if e.ring.length = 0 then none
  else
    match findSub [LF] e.ring with
    | none => none
    | some last => some (takeLine (if last + 1 < 128 then last + 1 else 127) e)

/-- The second half of `esp8266_loop`. -/
def urcLines (e : Esp α) : Esp α := loop lineBody (e.ring.length + 1) e

/-- `esp8266_loop`. -/
def esp8266Loop (cb : RecvCb α) (e : Esp α) : Esp α := urcLines (parseIpdFrames cb e)

/-! ## What a round can do -/

theorem headerAt_prefix (ring : List UInt8) (hit : ℕ) : headerAt ring hit <+: ring.drop hit :=
  (List.take_prefix _ _).trans (List.take_prefix _ _)

/-- Only a text that starts with `+IPD,` is a header. -/
theorem prefix_of_parseIpdHeader {line : List UInt8} (h : 0 ≤ (parseIpdHeader line).1) :
    ascii "+IPD," <+: line := by
  rw [parseIpdHeader] at h
  split_ifs at h with hp
  · exact List.isPrefixOf_iff_prefix.mp hp
  · exact absurd h (by decide)

/-- **A round of the frame pass** drops bytes from the front of the ring, or takes a frame off it
for the callback. -/
theorem parseRound_cases {e e' : Esp α} {o : Option (ℤ × List UInt8)}
    (h : parseRound e = some (o, e')) :
    (o = none ∧ ∃ rx n, 0 < n ∧ n ≤ e.ring.length ∧ rx.bytes = e.ring.drop n ∧
      e' = { e with sRx := rx }) ∨
    (∃ pre hdr link data rx, o = some (link, data) ∧
      e.ring = pre ++ (hdr ++ (data ++ rx.bytes)) ∧ ascii "+IPD," <+: hdr ∧
      e' = delivered pre.length link data rx e) := by
  simp only [parseRound] at h
  split_ifs at h with hused
  split at h
  · cases h
  next hit hfind =>
  set hdr := headerAt e.ring hit with hhdr
  set dlen := (parseIpdHeader hdr).2 with hdlen
  split_ifs at h with hcolon hbad hshort hbig hgot
  · obtain ⟨rfl, rfl⟩ := Prod.mk.inj (Option.some.inj h)
    exact Or.inl ⟨rfl, _, 1, one_pos, by omega, bytes_ringConsume _ _, rfl⟩
  · obtain ⟨rfl, rfl⟩ := Prod.mk.inj (Option.some.inj h)
    refine Or.inl ⟨rfl, _, hit + hdr.length + dlen, by omega, by omega, ?_, rfl⟩
    rw [bytes_ringConsume, bytes_ringConsume, List.drop_drop]
  · -- the ring holds the payload, so the copy is never short
    refine absurd ?_ hgot
    rw [(ringCopyOut_eq _ _).1, bytes_ringConsume, List.length_take, List.length_drop]
    exact min_eq_left (by change dlen ≤ e.ring.length - _; omega)
  · obtain ⟨rfl, rfl⟩ := Prod.mk.inj (Option.some.inj h)
    obtain ⟨pre, post, hring, rfl⟩ := findSub_eq_some hfind
    obtain ⟨rest, hrest⟩ := headerAt_prefix e.ring pre.length
    have hpre : e.ring = pre ++ e.ring.drop pre.length := by
      conv_lhs => rw [← List.take_append_drop pre.length e.ring]
      rw [hring, List.append_assoc, List.take_left]
    have hdrop : e.ring.drop (pre.length + hdr.length) = rest := by
      rw [← List.drop_drop, ← hrest, List.drop_left]
    refine Or.inr ⟨pre, hdr, _, _, _, rfl, ?_, prefix_of_parseIpdHeader (by omega), rfl⟩
    rw [(ringCopyOut_eq _ _).1, (ringCopyOut_eq _ _).2, bytes_ringConsume, hdrop,
      List.take_append_drop, hhdr, hrest]
    exact hpre

/-- …and the callback comes last. -/
theorem parseBody_cases {cb : RecvCb α} {e e' : Esp α} (h : parseBody cb e = some e') :
    parseRound e = some (none, e') ∨
    ∃ link data e₀, parseRound e = some (some (link, data), e₀) ∧ e' = cb link data e₀ := by
  obtain ⟨⟨o, e₀⟩, hround, rfl⟩ := Option.map_eq_some_iff.mp h
  cases o with
  | none => exact Or.inl hround
  | some d => exact Or.inr ⟨d.1, d.2, e₀, hround, rfl⟩

theorem parseBody_eq_none_iff {cb : RecvCb α} {e : Esp α} :
    parseBody cb e = none ↔ parseRound e = none := Option.map_eq_none_iff

/-- A round of the frame pass lowers the number of bytes to read. -/
theorem pending_parseRound {e e' : Esp α} {o : Option (ℤ × List UInt8)}
    (h : parseRound e = some (o, e')) : e'.pending < e.pending := by
  rcases parseRound_cases h with
    ⟨-, rx, n, hn, hle, hrx, rfl⟩ | ⟨pre, hdr, link, data, rx, -, hring, hp, rfl⟩
  · change rx.bytes.length + e.coming.length < e.ring.length + e.coming.length
    rw [hrx, List.length_drop]
    omega
  · have hpos : (ascii "+IPD,").length ≤ hdr.length := hp.length_le
    have h5 : (ascii "+IPD,").length = 5 := by decide
    change rx.bytes.length + e.coming.length < e.ring.length + e.coming.length
    rw [hring]
    simp only [List.length_append]
    omega

/-- **A round of the line pass** takes a piece that is not empty off the front of the ring, of the
first line there. -/
theorem lineBody_cases {e e' : Esp α} (h : lineBody e = some e') :
    ∃ n last, findSub [LF] e.ring = some last ∧ n ≤ last + 1 ∧ 0 < n ∧ e' = takeLine n e := by
  rw [lineBody] at h
  split_ifs at h with hused
  split at h
  · cases h
  next last hfind =>
  refine ⟨_, last, hfind, ?_, ?_, (Option.some.inj h).symm⟩ <;> split <;> omega

/-- The line pass stops only at a ring without an LF. -/
theorem lineBody_eq_none_iff {e : Esp α} : lineBody e = none ↔ LF ∉ e.ring := by
  rw [lineBody]
  split
  · next hused => simp [List.length_eq_zero_iff.mp hused]
  · split
    · next hfind => simpa [List.singleton_infix_iff] using findSub_eq_none_iff.mp hfind
    · next last hfind =>
      obtain ⟨pre, post, hring, -⟩ := findSub_eq_some hfind
      simp [hring]

/-- A report changes the link flags and nothing else. -/
theorem applyUrc_eq (line : List UInt8) (e : Esp α) : ∃ w ls,
    applyUrc line e = { e with sWifiConnected := w, sLinkState := ls } := by
  simp only [applyUrc]
  split_ifs
  all_goals exact ⟨_, _, rfl⟩

/-- …and taking a line off the ring does that and no more. -/
theorem takeLine_eq (n : ℕ) (e : Esp α) : ∃ rx w ls, rx.bytes = e.ring.drop n ∧
    takeLine n e = { e with
      sRx := rx
      sWifiConnected := w
      sLinkState := ls
      log := e.log ++ [.line (e.ring.take n) e.up] } := by
  obtain ⟨htake, hdrop⟩ := ringCopyOut_eq e.sRx n
  obtain ⟨w, ls, heq⟩ := applyUrc_eq (urcLine (ringCopyOut e.sRx n).1)
    { e with
      sRx := (ringCopyOut e.sRx n).2
      log := e.log ++ [.line (ringCopyOut e.sRx n).1 e.up] }
  exact ⟨_, w, ls, hdrop, by rw [← htake]; exact heq⟩

theorem ring_takeLine (n : ℕ) (e : Esp α) : (takeLine n e).ring = e.ring.drop n := by
  obtain ⟨rx, w, ls, hrx, heq⟩ := takeLine_eq n e
  rw [heq]
  exact hrx

/-- **Only the callback touches the layer above**: a round of the frame pass does not… -/
theorem up_parseRound {o : Option (ℤ × List UInt8)} {e e' : Esp α}
    (h : parseRound e = some (o, e')) : e'.up = e.up := by
  rcases parseRound_cases h with
    ⟨-, rx, n, -, -, -, rfl⟩ | ⟨pre, hdr, link, data, rx, -, -, -, rfl⟩
  all_goals rfl

/-- …nor does one of the line pass… -/
theorem up_lineBody {e e' : Esp α} (h : lineBody e = some e') : e'.up = e.up := by
  obtain ⟨n, -, -, -, -, rfl⟩ := lineBody_cases h
  obtain ⟨rx, w, ls, -, heq⟩ := takeLine_eq n e
  rw [heq]

/-- …so the line pass does not. -/
theorem up_urcLines (e : Esp α) : (urcLines e).up = e.up :=
  loop_invariant (P := fun e' => e'.up = e.up) (fun _ _ hline ih => (up_lineBody hline).trans ih)
    _ e rfl

/-- **The line pass ends**: no LF is left in the ring. -/
theorem urcLines_exit (e : Esp α) : lineBody (urcLines e) = none := by
  refine loop_exit (μ := fun e => e.ring.length) (fun s s' hs => ?_) _ e (Nat.lt_succ_self _)
  obtain ⟨n, last, hfind, -, hn, rfl⟩ := lineBody_cases hs
  have hlast := findSub_add_le hfind
  rw [List.length_singleton] at hlast
  rw [ring_takeLine, List.length_drop]
  omega

end GrainWarehouse

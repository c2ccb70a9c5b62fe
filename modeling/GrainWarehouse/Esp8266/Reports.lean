import GrainWarehouse.Esp8266.Stream

/-!
# Esp8266/Reports — which of the module's reports reach the link flags

A stream of reports and `+IPD` frames (`Piece`) lies whole in the ring.  The frame pass takes each
frame off **with the text in front of it**, so the line pass sees the reports behind the last frame
and no others (`flags_esp8266Loop`).  The flags are right all the same exactly when what was skipped
makes no difference (`reportsApplied_iff`).
-/

namespace GrainWarehouse

/-! ## Reports -/

/-- A flag of the driver. -/
inductive Flag
  | wifi
  | link (id : Fin espMaxLinkId)
  deriving DecidableEq

/-- What the module reports without being asked. -/
inductive Report
  | connected (id : Fin espMaxLinkId)
  | closed (id : Fin espMaxLinkId)
  /-- The only link there is. -/
  | onlyClosed
  | wifiDisconnect
  | wifiConnected
  | wifiGotIp

namespace Report

def text : Report → List UInt8
  | connected id => decimal id ++ ascii ",CONNECTED"
  | closed id => decimal id ++ ascii ",CLOSED"
  | onlyClosed => ascii "CLOSED"
  | wifiDisconnect => ascii "WIFI DISCONNECT"
  | wifiConnected => ascii "WIFI CONNECTED"
  | wifiGotIp => ascii "WIFI GOT IP"

/-- The line on the wire. -/
def bytes (r : Report) : List UInt8 := r.text ++ [CR, LF]

/-- The value a report gives to a flag, if it is about it.  Without WiFi there are no links. -/
def sets : Report → Flag → Option Bool
  | connected id, .link id' => if id' = id then some true else none
  | closed id, .link id' => if id' = id then some false else none
  | onlyClosed, .link id' => if id' = 0 then some false else none
  | wifiDisconnect, _ => some false
  | wifiConnected, .wifi => some true
  | wifiGotIp, .wifi => some true
  | _, _ => none

/-- A report comes in. -/
def apply (flags : Flag → Bool) (r : Report) : Flag → Bool := fun x => (r.sets x).getD (flags x)

/-- A property of every report there is. -/
theorem forall_of {P : Report → Prop} (hc : ∀ id, P (connected id)) (hd : ∀ id, P (closed id))
    (ho : P onlyClosed) (hw : P wifiDisconnect) (hj : P wifiConnected) (hi : P wifiGotIp) :
    ∀ r, P r
  | connected id => hc id
  | closed id => hd id
  | onlyClosed => ho
  | wifiDisconnect => hw
  | wifiConnected => hj
  | wifiGotIp => hi

/-- **A report is one line of text**, short, without a `+`, and read back as it was sent. -/
theorem bytes_spec : ∀ r : Report, LF ∉ r.text ++ [CR] ∧ PLUS ∉ r.bytes ∧ r.bytes.length < 128 ∧
    urcLine r.bytes = r.text := by
  refine forall_of ?_ ?_ ?_ ?_ ?_ ?_
  all_goals decide +kernel

end Report

/-- The last value that a list of reports gives to a flag. -/
def lastSet (x : Flag) : List Report → Option Bool
  | [] => none
  | r :: rs => (lastSet x rs).or (r.sets x)

theorem lastSet_append (x : Flag) : ∀ rs rs' : List Report,
    lastSet x (rs ++ rs') = (lastSet x rs').or (lastSet x rs)
  | [], rs' => (Option.or_none).symm
  | r :: rs, rs' => by
      rw [List.cons_append, lastSet, lastSet_append x rs rs', lastSet, Option.or_assoc]

/-- **A flag is what the last report about it says.** -/
theorem foldl_apply (x : Flag) : ∀ (rs : List Report) (flags : Flag → Bool),
    rs.foldl Report.apply flags x = (lastSet x rs).getD (flags x)
  | [], _ => rfl
  | r :: rs, flags => by
      rw [List.foldl_cons, foldl_apply x rs, lastSet, Report.apply]
      cases lastSet x rs with
      | none => rw [Option.none_or, Option.getD_none]
      | some b => rw [Option.some_or, Option.getD_some, Option.getD_some]

/-! ## The line pass on reports -/

variable {α : Type}

/-- The flags of the driver. -/
def Esp.flags (e : Esp α) : Flag → Bool
  | .wifi => e.sWifiConnected
  | .link id => e.sLinkState id

/-- The text before the comma, as `applyUrc` reads it. -/
theorem text_id : ∀ id : Fin espMaxLinkId,
    ((Report.connected id).text.length ≥ 2 ∧ 48 ≤ (Report.connected id).text.headD 0 ∧
        (Report.connected id).text.headD 0 ≤ 52 ∧ (Report.connected id).text.tail.headD 0 = 44) ∧
      ((Report.closed id).text.length ≥ 2 ∧ 48 ≤ (Report.closed id).text.headD 0 ∧
        (Report.closed id).text.headD 0 ≤ 52 ∧ (Report.closed id).text.tail.headD 0 = 44) ∧
      contains (Report.connected id).text (ascii "CONNECTED") = true ∧
      contains (Report.closed id).text (ascii "CONNECTED") = false ∧
      contains (Report.closed id).text (ascii "CLOSED") = true ∧
      Fin.ofNat espMaxLinkId ((Report.connected id).text.headD 0 - 48).toNat = id ∧
      Fin.ofNat espMaxLinkId ((Report.closed id).text.headD 0 - 48).toNat = id := by
  decide +kernel

/-- Writing a link flag, and no other. -/
theorem flags_update (e : Esp α) (id : Fin espMaxLinkId) (b : Bool) :
    Esp.flags { e with sLinkState := Function.update e.sLinkState id b } =
      Function.update e.flags (.link id) b := by
  funext x
  cases x with
  | wifi => rfl
  | link id' => simp only [Esp.flags, Function.update_apply, Flag.link.injEq]

/-- A report about one link sets its flag. -/
theorem Report.apply_eq_update {r : Report} {id : Fin espMaxLinkId} {b : Bool}
    (hwifi : r.sets .wifi = none)
    (hlink : ∀ id', r.sets (.link id') = if id' = id then some b else none) (flags : Flag → Bool) :
    r.apply flags = Function.update flags (.link id) b := by
  funext x
  cases x with
  | wifi => rw [Report.apply, hwifi, Function.update_of_ne (by simp), Option.getD_none]
  | link id' =>
    rw [Report.apply, hlink, Function.update_apply]
    simp only [Flag.link.injEq]
    split
    · rfl
    · rfl

/-- **The line pass reads a report for what it says.** -/
theorem flags_applyUrc (e : Esp α) (r : Report) :
    (applyUrc r.text e).flags = r.apply e.flags := by
  cases r with
  | connected id =>
    obtain ⟨hid, -, hconn, -, -, hval, -⟩ := text_id id
    simp only [applyUrc]
    rw [if_pos hid, if_pos hconn, hval, flags_update,
      Report.apply_eq_update rfl (fun _ => rfl)]
  | closed id =>
    obtain ⟨-, hid, -, hconn, hclosed, -, hval⟩ := text_id id
    simp only [applyUrc]
    rw [if_pos hid, if_neg (by rw [hconn]; exact Bool.false_ne_true), if_pos hclosed, hval,
      flags_update, Report.apply_eq_update rfl (fun _ => rfl)]
  | onlyClosed =>
    simp only [applyUrc]
    rw [if_neg (by decide +kernel), if_pos (by decide +kernel), flags_update,
      Report.apply_eq_update rfl (fun _ => rfl)]
  | wifiDisconnect =>
    simp only [applyUrc]
    rw [if_neg (by decide +kernel), if_neg (by decide +kernel), if_pos (by decide +kernel)]
    funext x
    cases x <;> rfl
  | wifiConnected =>
    simp only [applyUrc]
    rw [if_neg (by decide +kernel), if_neg (by decide +kernel), if_neg (by decide +kernel),
      if_pos (by decide +kernel)]
    funext x
    cases x <;> rfl
  | wifiGotIp =>
    simp only [applyUrc]
    rw [if_neg (by decide +kernel), if_neg (by decide +kernel), if_neg (by decide +kernel),
      if_pos (by decide +kernel)]
    funext x
    cases x <;> rfl

/-- The reports on the wire. -/
def reportBytes (rs : List Report) : List UInt8 := rs.flatMap Report.bytes

/-- A round of the line pass takes the first report. -/
theorem lineBody_report {e : Esp α} {r : Report} {rs : List Report}
    (h : e.ring = reportBytes (r :: rs)) :
    ∃ e', lineBody e = some e' ∧ e'.ring = reportBytes rs ∧ e'.flags = r.apply e.flags := by
  obtain ⟨hlf, -, hlen, hline⟩ := r.bytes_spec
  have hbytes : r.bytes = r.text ++ [CR] ++ [LF] := by
    rw [Report.bytes, List.append_assoc, List.singleton_append]
  have hring : e.ring = r.text ++ [CR] ++ ([LF] ++ reportBytes rs) := by
    rw [h, reportBytes, List.flatMap_cons, hbytes, List.append_assoc]
    rfl
  have hfind : findSub [LF] e.ring = some (r.text ++ [CR]).length := by
    rw [hring, findSub_append_left hlf, findSub_prefix_self (List.prefix_append _ _),
      Option.map_some, Nat.zero_add]
  have hpos : e.ring.length ≠ 0 := by
    rw [hring]
    simp
  have htaken : (ringCopyOut e.sRx r.bytes.length).1 = r.bytes ∧
      (ringCopyOut e.sRx r.bytes.length).2.bytes = reportBytes rs := by
    obtain ⟨htake, hdrop⟩ := ringCopyOut_eq e.sRx r.bytes.length
    rw [htake, hdrop]
    change e.ring.take _ = _ ∧ e.ring.drop _ = _
    rw [h, reportBytes, List.flatMap_cons, List.take_left, List.drop_left]
    exact ⟨rfl, rfl⟩
  have hn : (r.text ++ [CR]).length + 1 = r.bytes.length := by
    rw [hbytes, List.length_append, List.length_append, List.length_append, List.length_singleton]
    rfl
  refine ⟨takeLine r.bytes.length e, ?_, ?_, ?_⟩
  · simp only [lineBody, hfind]
    rw [if_neg hpos, hn, if_pos hlen]
  · rw [ring_takeLine, h, reportBytes, List.flatMap_cons, List.drop_left]
    rfl
  · rw [takeLine]
    simp only [htaken.1, hline, flags_applyUrc]
    rfl

/-- **The line pass applies the reports in the ring, in order.** -/
theorem flags_lines : ∀ (n : ℕ) (rs : List Report) (e : Esp α), e.ring = reportBytes rs →
    rs.length < n → (loop lineBody n e).flags = rs.foldl Report.apply e.flags
  | 0, _, _, _, hn => absurd hn (Nat.not_lt_zero _)
  | n + 1, [], e, h, _ => by
      have hnone : lineBody e = none := lineBody_eq_none_iff.mpr (by rw [h]; exact List.not_mem_nil)
      rw [loop_of_none hnone]
      rfl
  | n + 1, r :: rs, e, h, hn => by
      obtain ⟨e', hround, hring, hflags⟩ := lineBody_report h
      rw [loop_succ_of_some hround, flags_lines n rs e' hring (Nat.lt_of_succ_lt_succ hn), hflags]
      rfl

theorem length_le_reportBytes : ∀ rs : List Report, rs.length ≤ (reportBytes rs).length
  | [] => le_rfl
  | r :: rs => by
      have ih := length_le_reportBytes rs
      rw [reportBytes, List.flatMap_cons, List.length_append, List.length_cons, Report.bytes,
        List.length_append]
      change rs.length + 1 ≤ r.text.length + 2 + (reportBytes rs).length
      omega

/-! ## The frame pass on reports and frames -/

/-- A piece of the module's output. -/
inductive Piece
  | report (r : Report)
  | frame (f : Frame)

namespace Piece

def bytes : Piece → List UInt8
  | report r => r.bytes
  | frame f => f.bytes

def isFrame : Piece → Bool
  | report _ => false
  | frame _ => true

def report? : Piece → Option Report
  | report r => some r
  | frame _ => none

def frame? : Piece → Option Frame
  | report _ => none
  | frame f => some f

end Piece

/-- The pieces on the wire. -/
def pieceBytes (pieces : List Piece) : List UInt8 := pieces.flatMap Piece.bytes

/-- The reports behind the last frame. -/
def behind : List Piece → List Report
  | [] => []
  | .report r :: pieces => if pieces.any Piece.isFrame then behind pieces else r :: behind pieces
  | .frame _ :: pieces => behind pieces

/-- The reports in front of it. -/
def inFront : List Piece → List Report
  | [] => []
  | .report r :: pieces => if pieces.any Piece.isFrame then r :: inFront pieces else inFront pieces
  | .frame _ :: pieces => inFront pieces

/-- Without a frame there is nothing in front of one. -/
theorem inFront_of_none : ∀ {pieces : List Piece}, pieces.any Piece.isFrame = false →
    inFront pieces = []
  | [], _ => rfl
  | .report r :: pieces, h => by
      have h' : pieces.any Piece.isFrame = false := by simpa [Piece.isFrame] using h
      rw [inFront, if_neg (by rw [h']; exact Bool.false_ne_true), inFront_of_none h']
  | .frame f :: pieces, h => by simp [Piece.isFrame] at h

/-- **The reports of a stream** are those in front of the last frame, and those behind it. -/
theorem filterMap_report : ∀ pieces : List Piece,
    pieces.filterMap Piece.report? = inFront pieces ++ behind pieces
  | [] => rfl
  | .report r :: pieces => by
      have hcons : (Piece.report r :: pieces).filterMap Piece.report? =
          r :: pieces.filterMap Piece.report? := rfl
      rw [hcons, filterMap_report pieces, inFront, behind]
      split
      · rfl
      · next h => rw [inFront_of_none (by simpa using h), List.nil_append, List.nil_append]
  | .frame f :: pieces => filterMap_report pieces

/-- A stream is reports, or reports up to its first frame. -/
theorem first_frame : ∀ pieces : List Piece,
    (∃ rs : List Report, pieces.any Piece.isFrame = false ∧ pieceBytes pieces = reportBytes rs ∧
      behind pieces = rs) ∨
    ∃ (rs : List Report) (f : Frame) (rest : List Piece), pieces.any Piece.isFrame = true ∧
      pieceBytes pieces = reportBytes rs ++ (f.bytes ++ pieceBytes rest) ∧
      behind pieces = behind rest ∧ .frame f :: rest <:+ pieces
  | [] => Or.inl ⟨[], rfl, rfl, rfl⟩
  | .frame f :: pieces => Or.inr ⟨[], f, pieces, rfl, rfl, rfl, List.suffix_refl _⟩
  | .report r :: pieces => by
      have hcons {l : List UInt8} (h : pieceBytes pieces = l) :
          pieceBytes (.report r :: pieces) = r.bytes ++ l := by
        rw [← h]
        rfl
      rcases first_frame pieces with ⟨rs, hany, hbytes, hbehind⟩ |
        ⟨rs, f, rest, hany, hbytes, hbehind, hsuf⟩
      · refine Or.inl ⟨r :: rs, hany, hcons hbytes, ?_⟩
        rw [behind, if_neg (by rw [hany]; exact Bool.false_ne_true), hbehind]
      · refine Or.inr ⟨r :: rs, f, rest, hany, ?_, ?_, hsuf.trans (List.suffix_cons _ _)⟩
        · rw [hcons hbytes, reportBytes, reportBytes, List.flatMap_cons, List.append_assoc]
        · rw [behind, if_pos hany, hbehind]

theorem plus_notMem_reportBytes (rs : List Report) : PLUS ∉ reportBytes rs := by
  intro h
  obtain ⟨r, -, hr⟩ := List.mem_flatMap.mp h
  exact r.bytes_spec.2.1 hr

/-- Each callback of the frame pass leaves the ring and the flags as it found them. -/
def UndisturbedRounds (cb : RecvCb α) : ℕ → Esp α → Prop
  | 0, _ => True
  | n + 1, e =>
    match parseRound e with
    | none => True
    | some (none, e') => UndisturbedRounds cb n e'
    | some (some (link, data), e') =>
      ((cb link data e').ring = e'.ring ∧ (cb link data e').flags = e'.flags) ∧
        UndisturbedRounds cb n (cb link data e')

/-- …in a whole call of `esp8266_loop`. -/
def Undisturbed (cb : RecvCb α) (e : Esp α) : Prop := UndisturbedRounds cb (e.todo + 1) e

/-- **A stream disturbs nothing** if the callback leaves the driver alone on each of its frames. -/
theorem undisturbedRounds_of_pieces {cb : RecvCb α} : ∀ (n : ℕ) (pieces : List Piece) (e : Esp α),
    e.ring = pieceBytes pieces →
    (∀ f, Piece.frame f ∈ pieces → ∀ e', (cb f.link f.payload e').ring = e'.ring ∧
      (cb f.link f.payload e').flags = e'.flags) → UndisturbedRounds cb n e
  | 0, _, _, _, _ => trivial
  | n + 1, pieces, e, h, hcb => by
      rw [UndisturbedRounds]
      rcases first_frame pieces with ⟨rs, -, hbytes, -⟩ | ⟨rs, f, rest, -, hbytes, -, hsuf⟩
      · rw [parseRound_text (by rw [h, hbytes]; exact plus_notMem_reportBytes rs)]
        trivial
      · obtain ⟨rx, hrx, hround⟩ :=
          parseRound_whole (plus_notMem_reportBytes rs) f (h.trans hbytes)
        rw [hround]
        have hf := hcb f (hsuf.subset List.mem_cons_self)
          (delivered (reportBytes rs).length f.link f.payload rx e)
        exact ⟨hf, undisturbedRounds_of_pieces n rest _ (hf.1.trans hrx)
          fun g hg => hcb g (hsuf.subset (List.mem_cons_of_mem _ hg))⟩

theorem undisturbed_of_pieces {cb : RecvCb α} {pieces : List Piece} {e : Esp α}
    (h : e.ring = pieceBytes pieces) (hcb : ∀ f, Piece.frame f ∈ pieces → ∀ e',
      (cb f.link f.payload e').ring = e'.ring ∧ (cb f.link f.payload e').flags = e'.flags) :
    Undisturbed cb e := undisturbedRounds_of_pieces _ pieces e h hcb

/-- **The frame pass leaves the reports behind the last frame**, and the flags as they are. -/
theorem frames_pass {cb : RecvCb α} : ∀ (n : ℕ) (pieces : List Piece) (e : Esp α),
    e.ring = pieceBytes pieces → pieces.length < n → UndisturbedRounds cb n e →
      (loop (parseBody cb) n e).ring = reportBytes (behind pieces) ∧
        (loop (parseBody cb) n e).flags = e.flags
  | 0, _, _, _, hn, _ => absurd hn (Nat.not_lt_zero _)
  | n + 1, pieces, e, h, hn, hcb => by
      rcases first_frame pieces with ⟨rs, -, hbytes, hbehind⟩ |
        ⟨rs, f, rest, -, hbytes, hbehind, hsuf⟩
      · have hnone : parseBody cb e = none := parseBody_eq_none_iff.mpr
          (parseRound_text (by rw [h, hbytes]; exact plus_notMem_reportBytes rs))
        rw [loop_of_none hnone, h, hbytes, hbehind]
        exact ⟨rfl, rfl⟩
      · obtain ⟨rx, hrx, hround⟩ :=
          parseRound_whole (plus_notMem_reportBytes rs) f (h.trans hbytes)
        have hbody : parseBody cb e = some (cb f.link f.payload
            (delivered (reportBytes rs).length f.link f.payload rx e)) := by
          rw [parseBody, hround]
          rfl
        rw [UndisturbedRounds, hround] at hcb
        obtain ⟨⟨hring, hflags⟩, hcb'⟩ := hcb
        have hlen : rest.length < n :=
          Nat.lt_of_succ_le (hsuf.length_le.trans (Nat.le_of_lt_succ hn))
        obtain ⟨ihring, ihflags⟩ := frames_pass n rest _ (hring.trans hrx) hlen hcb'
        rw [loop_succ_of_some hbody, hbehind]
        exact ⟨ihring, ihflags.trans hflags⟩

theorem length_le_pieceBytes : ∀ pieces : List Piece, pieces.length ≤ (pieceBytes pieces).length
  | [] => le_rfl
  | p :: pieces => by
      have ih := length_le_pieceBytes pieces
      have hpos : 0 < p.bytes.length := by
        cases p with
        | report r => simp [Piece.bytes, Report.bytes]
        | frame f => simp [Piece.bytes, Frame.bytes, Frame.header]
      rw [pieceBytes, List.flatMap_cons, List.length_append, List.length_cons]
      change pieces.length + 1 ≤ p.bytes.length + (pieceBytes pieces).length
      omega

/-- **`esp8266_loop` applies the reports behind the last frame**, and no others. -/
theorem flags_esp8266Loop {cb : RecvCb α} {pieces : List Piece} {e : Esp α}
    (h : e.ring = pieceBytes pieces) (hcb : Undisturbed cb e) :
    (esp8266Loop cb e).flags = (behind pieces).foldl Report.apply e.flags := by
  have hpieces := length_le_pieceBytes pieces
  rw [← h] at hpieces
  have htodo : pieces.length < e.todo + 1 := by
    rw [Esp.todo, Esp.pending]
    omega
  obtain ⟨hring, hflags⟩ := frames_pass (e.todo + 1) pieces e h htodo hcb
  have hlines := length_le_reportBytes (behind pieces)
  rw [← hring] at hlines
  rw [esp8266Loop, urcLines, ← hflags]
  exact flags_lines _ _ _ hring (Nat.lt_succ_of_le hlines)

/-! ## The exact condition -/

/-- **The flags are what all the reports make them**, in order, whatever the frames hold. -/
def ReportsApplied (cb : RecvCb α) (pieces : List Piece) (e : Esp α) : Prop :=
  (esp8266Loop cb e).flags = (pieces.filterMap Piece.report?).foldl Report.apply e.flags

/-- **The reports are applied if and only if**, for each flag that no report behind the last frame
is about, the last one in front of it says what the flag already was. -/
theorem reportsApplied_iff {cb : RecvCb α} {pieces : List Piece} {e : Esp α}
    (h : e.ring = pieceBytes pieces) (hcb : Undisturbed cb e) :
    ReportsApplied cb pieces e ↔ ∀ x, lastSet x (behind pieces) = none →
      ∀ b ∈ lastSet x (inFront pieces), b = e.flags x := by
  rw [ReportsApplied, flags_esp8266Loop h hcb, filterMap_report, funext_iff]
  refine forall_congr' fun x => ?_
  rw [foldl_apply, foldl_apply, lastSet_append]
  cases lastSet x (behind pieces) with
  | some b => simp
  | none =>
    rw [Option.none_or, Option.getD_none]
    cases lastSet x (inFront pieces) with
    | none => simp
    | some b => simp [eq_comm]

/-- A frame of one byte. -/
def oneByte : Frame := Frame.plain [33] (by decide)

/-- The driver with these pieces in its ring. -/
def withPieces (pieces : List Piece) : Esp Unit := (Esp.boot () []).receive (pieceBytes pieces)

/-- A report behind the frame is applied. -/
theorem reportsApplied_iff_behind :
    ReportsApplied (fun _ _ e => e) [.frame oneByte, .report .wifiConnected]
      (withPieces [.frame oneByte, .report .wifiConnected]) := by
  have hring : (withPieces [.frame oneByte, .report .wifiConnected]).ring =
      pieceBytes [.frame oneByte, .report .wifiConnected] := by
    decide +kernel
  have hfront : inFront [.frame oneByte, .report .wifiConnected] = [] := rfl
  generalize withPieces [.frame oneByte, .report .wifiConnected] = e at hring ⊢
  have hcb : Undisturbed (fun _ _ e => e) e :=
    undisturbed_of_pieces hring fun _ _ _ => ⟨rfl, rfl⟩
  refine (reportsApplied_iff hring hcb).mpr ?_
  intro x _ b hb
  rw [hfront] at hb
  cases hb

/-- The same report in front of the frame is not. -/
theorem reportThenFrame_skipped :
    (withPieces [.report .wifiConnected, .frame oneByte]).ring =
        pieceBytes [.report .wifiConnected, .frame oneByte] ∧
      ¬ ReportsApplied (fun _ _ e => e) [.report .wifiConnected, .frame oneByte]
        (withPieces [.report .wifiConnected, .frame oneByte]) := by
  have hleft : (esp8266Loop (fun _ _ e => e)
      (withPieces [.report .wifiConnected, .frame oneByte])).sWifiConnected = false := by
    decide +kernel
  refine ⟨by decide +kernel, fun h => ?_⟩
  have hwifi := congrFun h .wifi
  rw [Esp.flags, hleft] at hwifi
  cases hwifi

end GrainWarehouse

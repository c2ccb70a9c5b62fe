import GrainWarehouse.Esp8266.Header

/-!
# Esp8266/Stream — what the module sends, and what the frame pass makes of it

The module's output is text — answers, reports, blank lines — with `+IPD` frames in between.  Only
frames hold a `+`, so the first `+` of a stream is the start of its first frame: `Layout s fs` says
that `s` is text with the frames `fs` in it, in order.

`parseRound_frame` is the frame pass on such a stream: a round delivers the first frame, payload and
link intact, exactly when the ring holds all of it, and leaves the ring alone otherwise.
-/

namespace GrainWarehouse

/-- `'+'`. -/
abbrev PLUS : UInt8 := 43

/-- A well-formed frame, `+IPD,[id,]n:payload`. -/
structure Frame where
  id : Option ℕ
  payload : List UInt8
  id_le : ∀ i ∈ id, i ≤ 127
  payload_pos : 0 < payload.length
  payload_le : payload.length ≤ 512

namespace Frame

/-- A frame without a link id. -/
def plain (payload : List UInt8) (h : 0 < payload.length ∧ payload.length ≤ 512) : Frame :=
  ⟨none, payload, fun _ hi => absurd hi (Option.not_mem_none _), h.1, h.2⟩

/-- The link of a frame; a frame without one is on link 0. -/
def link (f : Frame) : ℤ := (f.id.getD 0 : ℕ)

/-- `id,`, if the frame has one. -/
def idField (f : Frame) : List UInt8 :=
  match f.id with
  | none => []
  | some i => decimal i ++ [44]

/-- The header without its final colon. -/
def stem (f : Frame) : List UInt8 := ascii "+IPD," ++ (f.idField ++ decimal f.payload.length)

/-- `+IPD,[id,]n:`. -/
def header (f : Frame) : List UInt8 := f.stem ++ [58]

/-- The frame on the wire. -/
def bytes (f : Frame) : List UInt8 := f.header ++ f.payload

/-- What the receive callback is to be given. -/
def pair (f : Frame) : ℤ × List UInt8 := (f.link, f.payload)

/-! ## The header of a frame -/

theorem stem_eq_cons (f : Frame) :
    f.stem = PLUS :: (ascii "IPD," ++ (f.idField ++ decimal f.payload.length)) := rfl

theorem prefix_header (f : Frame) : ascii "+IPD," <+: f.header := by
  rw [header, stem, List.append_assoc]
  exact List.prefix_append _ _

theorem prefix_bytes (f : Frame) : ascii "+IPD," <+: f.bytes :=
  f.prefix_header.trans (List.prefix_append _ _)

/-- No digit is one of the other characters a header uses. -/
theorem notMem_decimal {c : UInt8} (hc : isDigit c = false) (n : ℕ) : c ∉ decimal n :=
  fun h => by simp [isDigit_of_mem_decimal c h] at hc

theorem notMem_idField {c : UInt8} (hc : isDigit c = false) (h44 : c ≠ 44) (f : Frame) :
    c ∉ f.idField := by
  rw [idField]
  split
  · exact List.not_mem_nil
  · next i _ => simp [notMem_decimal hc i, h44]

/-- **A header holds one `+`, at its start.** -/
theorem plus_notMem_tail (f : Frame) :
    PLUS ∉ ascii "IPD," ++ (f.idField ++ decimal f.payload.length) := by
  rw [List.mem_append, List.mem_append, not_or, not_or]
  exact ⟨by decide, notMem_idField (by decide) (by decide) f, notMem_decimal (by decide) _⟩

/-- A header holds one colon, at its end. -/
theorem colon_notMem_stem (f : Frame) : (58 : UInt8) ∉ f.stem := by
  rw [stem, List.mem_append, List.mem_append, not_or, not_or]
  exact ⟨by decide, notMem_idField (by decide) (by decide) f, notMem_decimal (by decide) _⟩

theorem length_idField_le (f : Frame) : f.idField.length ≤ 4 := by
  rw [idField]
  split
  · exact Nat.zero_le _
  · next i hi =>
    have hle := f.id_le i hi
    have := length_decimal_le (n := i) (k := 3) (by decide) (by omega)
    rw [List.length_append, List.length_singleton]
    omega

theorem length_stem_le (f : Frame) : f.stem.length ≤ 12 := by
  have h1 := f.length_idField_le
  have h2 := length_decimal_le (n := f.payload.length) (k := 3) (by decide)
    (by have := f.payload_le; omega)
  have h3 : (ascii "+IPD,").length = 5 := by decide
  rw [stem, List.length_append, List.length_append, h3]
  omega

theorem five_lt_length_stem (f : Frame) : 5 < f.stem.length := by
  have h2 := List.length_pos_of_ne_nil (decimal_ne_nil f.payload.length)
  have h3 : (ascii "+IPD,").length = 5 := by decide
  rw [stem, List.length_append, List.length_append, h3]
  omega

/-! ## Reading a header -/

/-- The header has the form of one, its runs of digits being numerals. -/
theorem headerForm_header (f : Frame) :
    HeaderForm f.header (f.id.map decimal) (decimal f.payload.length) where
  link_digits d hd := by
    obtain ⟨i, -, rfl⟩ := Option.map_eq_some_iff.mp hd
    exact isDigit_of_mem_decimal
  digits := isDigit_of_mem_decimal
  form := by
    refine ⟨[], ?_⟩
    rw [header, stem, List.append_assoc, List.append_assoc, idField]
    cases f.id with
    | none => rfl
    | some i => rfl

/-- …and its link is written. -/
theorem linkNumber_map_decimal : ∀ a : Option ℕ, linkNumber (a.map decimal) = a.getD 0
  | none => rfl
  | some i => number_decimal i

theorem id_getD_le (f : Frame) : f.id.getD 0 ≤ 127 := by
  have hle := f.id_le
  cases hid : f.id with
  | none => exact Nat.zero_le _
  | some i => exact hle i hid

/-- **The header of a well-formed frame parses to its link and its length**: neither is narrowed. -/
theorem parseIpdHeader_header (f : Frame) :
    parseIpdHeader f.header = (f.link, f.payload.length) := by
  have hid := f.id_getD_le
  have hlen := f.payload_le
  rw [parseIpdHeader_of_form f.headerForm_header, linkNumber_map_decimal, number_decimal,
    toInt_narrowed, Nat.mod_eq_of_lt (by omega : f.id.getD 0 < 256), if_pos hid,
    Nat.mod_eq_of_lt (by omega), link]

end Frame

/-! ## Text with frames in it -/

/-- **`s` is text with the frames `fs` in it**, in order; the text holds no `+`. -/
inductive Layout : List UInt8 → List Frame → Prop
  | text {g : List UInt8} (hg : PLUS ∉ g) : Layout g []
  | frame {g s : List UInt8} {fs : List Frame} (hg : PLUS ∉ g) (f : Frame) (h : Layout s fs) :
      Layout (g ++ (f.bytes ++ s)) (f :: fs)

namespace Layout

/-- **Taking text off the front of a stream leaves its frames.** -/
theorem of_append {a s : List UInt8} {fs : List Frame} (h : Layout (a ++ s) fs)
    (ha : PLUS ∉ a) : Layout s fs := by
  generalize hl : a ++ s = l at h
  cases h with
  | text hg => exact text fun hs => hg (hl ▸ List.mem_append_right a hs)
  | @frame g s' fs hg f h =>
    -- `a` ends before the first `+`, so it is a part of `g`
    rcases List.append_eq_append_iff.mp hl with ⟨c, rfl, rfl⟩ | ⟨c, rfl, hc⟩
    · exact frame (fun hc => hg (List.mem_append_right a hc)) f h
    · cases c with
      | nil =>
        rw [List.nil_append] at hc
        exact hc ▸ frame (g := []) List.not_mem_nil f h
      | cons x c =>
        rw [Frame.bytes, Frame.header, Frame.stem_eq_cons] at hc
        obtain ⟨rfl, -⟩ : PLUS = x ∧ _ := List.cons.inj hc
        exact absurd (by simp) ha

/-- **A stream holds one `+` for each frame, and those of the payloads.** -/
theorem count_plus : ∀ {s : List UInt8} {fs : List Frame}, Layout s fs →
    s.count PLUS = (fs.map fun f => 1 + f.payload.count PLUS).sum
  | _, _, text hg => by simp [List.count_eq_zero.mpr hg]
  | _, _, @frame g s fs hg f h => by
      have hstem : f.stem.count PLUS = 1 := by
        rw [Frame.stem_eq_cons, List.count_cons_self, List.count_eq_zero.mpr f.plus_notMem_tail]
      have hcolon : ([58] : List UInt8).count PLUS = 0 := by decide
      rw [List.map_cons, List.sum_cons, ← count_plus h, List.count_append, List.count_append,
        Frame.bytes, Frame.header, List.count_append, List.count_append, hstem, hcolon,
        List.count_eq_zero.mpr hg]
      omega

end Layout

/-! ## The frame pass on a stream -/

/-- The header in a ring that holds all of it. -/
theorem headerAt_header (f : Frame) {pre : List UInt8} (r : List UInt8) :
    headerAt (pre ++ (f.header ++ r)) pre.length = f.header := by
  have hlen := f.length_stem_le
  have h63 : (f.header ++ r).take 63 = f.stem ++ 58 :: r.take (63 - f.header.length) := by
    rw [List.take_append, List.take_of_length_le (by simp [Frame.header]; omega), Frame.header,
      List.append_assoc, List.singleton_append]
  rw [headerAt, List.drop_left]
  simp only [h63, upThrough_append_cons f.colon_notMem_stem]
  rw [List.take_append, List.take_of_length_le (by omega), Nat.add_sub_cancel_left,
    List.take_succ_cons, List.take_zero, Frame.header]

/-- …and in one that does not hold its colon yet. -/
theorem headerAt_stem (f : Frame) {pre p : List UInt8} (hp : p <+: f.stem) :
    (headerAt (pre ++ p) pre.length).getLast? ≠ some 58 := by
  rw [headerAt, List.drop_left]
  intro h
  have hmem := List.mem_of_mem_take (List.mem_of_mem_take (List.mem_of_getLast? h))
  exact f.colon_notMem_stem (hp.subset hmem)

variable {α : Type}

/-- A ring without a `+` is left alone. -/
theorem parseRound_text {e : Esp α} (h : PLUS ∉ e.ring) : parseRound e = none := by
  have hfind : findSub (ascii "+IPD,") e.ring = none := findSub_of_notMem h
  simp only [parseRound, hfind, ite_self]

/-- **A ring that holds all of the first frame gives it up**, text and all. -/
theorem parseRound_whole {e : Esp α} {g r : List UInt8} (hg : PLUS ∉ g) (f : Frame)
    (h : e.ring = g ++ (f.bytes ++ r)) :
    ∃ rx, rx.bytes = r ∧
      parseRound e = some (some f.pair, delivered g.length f.link f.payload rx e) := by
  have hring : e.ring = g ++ (f.header ++ (f.payload ++ r)) := by
    rw [h, Frame.bytes, List.append_assoc]
  have hfind : findSub (ascii "+IPD,") e.ring = some g.length := by
    have : ascii "+IPD," = PLUS :: ascii "IPD," := rfl
    rw [h, this, findSub_append_left hg, ← this,
      findSub_prefix_self (f.prefix_bytes.trans (List.prefix_append _ _))]
    simp
  have hhdr : headerAt e.ring g.length = f.header := by rw [hring, headerAt_header]
  have hcolon : f.header.getLast? = some 58 := by simp [Frame.header]
  have hlen : e.ring.length = g.length + f.header.length + (f.payload.length + r.length) := by
    rw [hring]
    simp only [List.length_append]
    omega
  have h6 := f.five_lt_length_stem
  have hh : f.header.length = f.stem.length + 1 := by simp [Frame.header]
  have hpos := f.payload_pos
  have hle := f.payload_le
  have hlink : ¬ (f.link < 0 ∨ f.payload.length = 0) := by
    rw [Frame.link]
    omega
  have hrest : (ringConsume e.sRx (g.length + f.header.length)).bytes = f.payload ++ r := by
    rw [bytes_ringConsume, ← List.drop_drop]
    change (e.ring.drop g.length).drop f.header.length = _
    rw [hring, List.drop_left, List.drop_left]
  have hout := ringCopyOut_eq (ringConsume e.sRx (g.length + f.header.length)) f.payload.length
  rw [hrest, List.take_left, List.drop_left] at hout
  refine ⟨_, hout.2, ?_⟩
  simp only [parseRound, hfind, hhdr, hcolon, Frame.parseIpdHeader_header, hout.1, hlen]
  rw [if_neg (by omega), if_neg (not_not_intro rfl), if_neg hlink, if_neg (by omega),
    if_neg (by omega), if_neg (not_not_intro rfl)]
  rfl

/-- **A ring that holds a part of the first frame is left alone.** -/
theorem parseRound_part {e : Esp α} {g p : List UInt8} (hg : PLUS ∉ g) (f : Frame)
    (h : e.ring = g ++ p) (hp : p <+: f.bytes) (hlt : p.length < f.bytes.length) :
    parseRound e = none := by
  have h5 : (ascii "+IPD,").length = 5 := by decide
  have hfind : findSub (ascii "+IPD,") e.ring = (findSub (ascii "+IPD,") p).map (· + g.length) := by
    rw [h]
    exact findSub_append_left hg p
  rcases Nat.lt_or_ge p.length 5 with hp5 | hp5
  · have hnone : findSub (ascii "+IPD,") p = none :=
      findSub_eq_none_iff.mpr fun hin => by have := hin.length_le; omega
    rw [hnone] at hfind
    simp only [parseRound, hfind, Option.map_none, ite_self]
  have hpre : ascii "+IPD," <+: p := List.prefix_of_prefix_length_le f.prefix_bytes hp (by omega)
  rw [findSub_prefix_self hpre, Option.map_some, Nat.zero_add] at hfind
  rcases Nat.lt_or_ge f.stem.length p.length with hstem | hstem
  · -- the header is there, the payload is not
    have hheader : f.header <+: p :=
      List.prefix_of_prefix_length_le (List.prefix_append _ _) hp (by simp [Frame.header]; omega)
    obtain ⟨d, rfl⟩ := hheader
    have hhdr : headerAt e.ring g.length = f.header := by rw [h, headerAt_header]
    have hcolon : f.header.getLast? = some 58 := by simp [Frame.header]
    have hlink : ¬ (f.link < 0 ∨ f.payload.length = 0) := by
      have := f.payload_pos
      rw [Frame.link]
      omega
    have hshort : e.ring.length < g.length + f.header.length + f.payload.length := by
      rw [h]
      simp only [Frame.bytes, List.length_append] at hlt ⊢
      omega
    simp only [parseRound, hfind, hhdr, hcolon, Frame.parseIpdHeader_header, if_neg hlink,
      if_pos hshort, ne_eq, not_true_eq_false, ite_self]
  · have hshort : (headerAt e.ring g.length).getLast? ≠ some 58 := by
      rw [h]
      refine headerAt_stem f (List.prefix_of_prefix_length_le hp ?_ hstem)
      rw [Frame.bytes, Frame.header, List.append_assoc]
      exact List.prefix_append _ _
    simp only [parseRound, hfind, if_pos hshort, ite_self]

/-- **The frame pass on a stream**: a round delivers the first frame once the ring holds all of
it. -/
theorem parseRound_layout {e : Esp α} {fut : List UInt8} {fs : List Frame}
    (h : Layout (e.ring ++ fut) fs) :
    parseRound e = none ∧ (fut = [] → fs = []) ∨
    ∃ g f fs' rx, fs = f :: fs' ∧ Layout (rx.bytes ++ fut) fs' ∧ PLUS ∉ g ∧
      e.ring = g ++ (f.bytes ++ rx.bytes) ∧
      parseRound e = some (some f.pair, delivered g.length f.link f.payload rx e) := by
  generalize hs : e.ring ++ fut = s at h
  cases h with
  | text hg =>
    exact Or.inl ⟨parseRound_text fun hr => hg (hs ▸ List.mem_append_left fut hr), fun _ => rfl⟩
  | @frame g s fs hg f h =>
    rw [← List.append_assoc] at hs
    have hends : (∃ c, e.ring = g ++ f.bytes ++ c ∧ s = c ++ fut) ∨
        ∃ x c, g ++ f.bytes = e.ring ++ x :: c ∧ fut = x :: c ++ s := by
      rcases List.append_eq_append_iff.mp hs with ⟨c, hc, hfut⟩ | ⟨c, hc, hcs⟩
      · cases c with
        | nil => exact Or.inl ⟨[], by simpa using hc.symm, by simpa using hfut.symm⟩
        | cons x c => exact Or.inr ⟨x, c, hc, hfut⟩
      · exact Or.inl ⟨c, hc, hcs⟩
    rcases hends with ⟨c, hc, hcs⟩ | ⟨x, c, hc, hfut⟩
    · rw [List.append_assoc] at hc
      obtain ⟨rx, hrx, hround⟩ := parseRound_whole hg f hc
      exact Or.inr ⟨g, f, fs, rx, rfl, by rwa [hrx, ← hcs], hg, by rw [hrx]; exact hc, hround⟩
    · -- the ring ends inside the text or inside the frame
      refine Or.inl ⟨?_, fun hnil => by simp [hnil] at hfut⟩
      rcases List.append_eq_append_iff.mp hc with ⟨p, hp, hrest⟩ | ⟨p, hp, hrest⟩
      · refine parseRound_part hg f hp ⟨x :: c, hrest.symm⟩ ?_
        rw [hrest]
        simp
      · exact parseRound_text fun hr => hg (hp ▸ List.mem_append_left p hr)

end GrainWarehouse

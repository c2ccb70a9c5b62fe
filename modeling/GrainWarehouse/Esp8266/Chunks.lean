import GrainWarehouse.Esp8266.Delivery

/-!
# Esp8266/Chunks — a stream of frames, cut into chunks

A stream of `+IPD` frames reaches the ring in chunks, with one `esp8266_loop` after each.  The frame
pass waits for the rest of an unfinished frame, but the line pass that follows it takes *every* line
off the ring, frame or not: an LF among the bytes of the unfinished frame costs it its header.

So the frames come out whole, whatever the chunks, exactly when no chunk ends while the ring holds
an LF of an unfinished frame (`feed_frames_iff`); in particular when the stream comes in one chunk
(`feed_frames_whole`).
-/

namespace GrainWarehouse

/-- A frame of the stream, with or without a CR LF before it. -/
structure Item where
  crlf : Bool
  frame : Frame

namespace Item

def lead (i : Item) : List UInt8 := if i.crlf then [CR, LF] else []

def bytes (i : Item) : List UInt8 := i.lead ++ i.frame.bytes

theorem plus_notMem_lead (i : Item) : PLUS ∉ i.lead := by
  rw [lead]
  split <;> decide

end Item

/-- The stream. -/
def render (items : List Item) : List UInt8 := (items.map Item.bytes).flatten

/-- **No LF of an unfinished frame has come** when `m` bytes of the stream are still to come. -/
def cleanCut : List Item → ℕ → Prop
  | [], _ => True
  | i :: rest, m =>
    if (render rest).length < m then
      LF ∉ i.frame.bytes.take (i.frame.bytes.length + (render rest).length - m)
    else cleanCut rest m

/-- …after each of the chunks. -/
def CleanCuts (items : List Item) : List Arrival → Prop
  | [] => True
  | _ :: rest => cleanCut items (rest.map Arrival.bytes).flatten.length ∧ CleanCuts items rest

variable {α : Type}

/-- A callback that looks at its frame and leaves the driver alone. -/
def handler (h : ℤ → List UInt8 → α → α) : RecvCb α :=
  fun link data e => { e with up := h link data e.up }

/-- A chunk, then `esp8266_loop`, `n` times. -/
def feed (cb : RecvCb α) : ℕ → Esp α → Esp α
  | 0, e => e
  | n + 1, e => feed cb n (esp8266Loop cb (e.pass 0))

theorem sendsOnly_handler (h : ℤ → List UInt8 → α → α) : (handler h).SendsOnly :=
  fun _ hP _ _ e he => hP.up _ e he

theorem Esp.Carried.feed {P : Esp α → Prop} (hP : Esp.Carried P) {cb : RecvCb α}
    (hcb : cb.SendsOnly) : ∀ (n : ℕ) {e : Esp α}, P e → P (feed cb n e)
  | 0, _, h => h
  | n + 1, _, h => feed hP hcb n (hP.esp8266Loop hcb (hP.pass 0 _ h))

/-! ## Where the stream stands -/

/-- The stream from its first frame on. -/
def frameOn : List Item → List UInt8
  | [] => []
  | i :: rest => i.frame.bytes ++ render rest

theorem render_cons (i : Item) (rest : List Item) :
    render (i :: rest) = i.lead ++ frameOn (i :: rest) := by
  rw [render, List.map_cons, List.flatten_cons, Item.bytes, List.append_assoc]
  rfl

theorem exists_lead (items : List Item) :
    ∃ l, PLUS ∉ l ∧ render items = l ++ frameOn items := by
  cases items with
  | nil => exact ⟨[], List.not_mem_nil, rfl⟩
  | cons i rest => exact ⟨i.lead, i.plus_notMem_lead, render_cons i rest⟩

theorem layout_render : ∀ items : List Item, Layout (render items) (items.map Item.frame)
  | [] => Layout.text List.not_mem_nil
  | i :: rest => by
      rw [render_cons]
      exact Layout.frame i.plus_notMem_lead i.frame (layout_render rest)

theorem layout_frameOn {l : List UInt8} (hl : PLUS ∉ l) (items : List Item) :
    Layout (l ++ frameOn items) (items.map Item.frame) := by
  cases items with
  | nil => exact Layout.text (by simpa [frameOn] using hl)
  | cons i rest => exact Layout.frame hl i.frame (layout_render rest)

/-- **The bytes to be read are the stream from some frame on**, with text before it, and all bytes
up to that frame have come. -/
def Esp.Reads (items : List Item) (e : Esp α) : Prop :=
  ∃ done its l, items = done ++ its ∧ PLUS ∉ l ∧ e.ring ++ e.coming = l ++ frameOn its ∧
    e.coming.length ≤ (render its).length

/-- Only the frames that have not come matter to a cut. -/
theorem cleanCut_append {its : List Item} {m : ℕ} (h : m ≤ (render its).length) :
    ∀ done : List Item, cleanCut (done ++ its) m ↔ cleanCut its m
  | [] => Iff.rfl
  | i :: done => by
      have hle : m ≤ (render (done ++ its)).length := by
        rw [render, List.map_append, List.flatten_append, List.length_append]
        exact h.trans (Nat.le_add_left _ _)
      rw [List.cons_append, cleanCut, if_neg (by omega)]
      exact cleanCut_append h done

theorem cleanCut_zero (items : List Item) : cleanCut items 0 := by
  have happend := cleanCut_append (Nat.zero_le (render []).length) items
  rw [List.append_nil] at happend
  exact happend.mpr trivial

theorem head?_frameOn (items : List Item) :
    frameOn items = [] ∨ (frameOn items).head? = some PLUS := by
  cases items with
  | nil => exact Or.inl rfl
  | cons i rest => exact Or.inr rfl

/-- A tail that begins with a `+` survives the removal of bytes that hold none. -/
theorem suffix_of_plus {a b p : List UInt8} (h : p <:+ a ++ b)
    (hp : p = [] ∨ p.head? = some PLUS) (ha : PLUS ∉ a) : p <:+ b := by
  obtain ⟨t, ht⟩ := h
  rcases List.append_eq_append_iff.mp ht with ⟨c, hc, hp'⟩ | ⟨c, hc, hb⟩
  · rcases c with _ | ⟨x, c⟩
    · exact hp' ▸ List.suffix_refl _
    · obtain rfl : x = PLUS := by simpa [hp'] using hp
      exact absurd (hc ▸ List.mem_append_right t List.mem_cons_self) ha
  · exact ⟨c, hb.symm⟩

/-! ## The two passes on the stream -/

/-- The frame pass moves on to the next frame. -/
theorem reads_round {items : List Item} {o : Option (ℤ × List UInt8)} {e e' : Esp α}
    (h : e.Reads items) (hround : parseRound e = some (o, e')) : e'.Reads items := by
  obtain ⟨done, its, l, rfl, hl, hs, hle⟩ := h
  rcases parseRound_layout (hs ▸ layout_frameOn hl its) with
    ⟨hnone, -⟩ | ⟨g, f, fs', rx, hfs, -, hg, hring, hsome⟩
  · rw [hnone] at hround
    cases hround
  obtain ⟨-, rfl⟩ := Prod.mk.inj (Option.some.inj (hsome.symm.trans hround))
  cases its with
  | nil => cases hfs
  | cons i rest =>
    obtain ⟨rfl, -⟩ := List.cons.inj hfs
    -- the first `+` is where both say the frame begins
    rw [hring, List.append_assoc, List.append_assoc] at hs
    have h₁ : frameOn (i :: rest) <:+ i.frame.bytes ++ (rx.bytes ++ e.coming) :=
      suffix_of_plus ⟨l, hs.symm⟩ (head?_frameOn _) hg
    have h₂ : i.frame.bytes ++ (rx.bytes ++ e.coming) <:+ frameOn (i :: rest) :=
      suffix_of_plus ⟨g, hs⟩ (Or.inr rfl) hl
    have hrest : rx.bytes ++ e.coming = render rest :=
      List.append_cancel_left (h₂.eq_of_length_le h₁.length_le)
    obtain ⟨l', hl', hlead⟩ := exists_lead rest
    refine ⟨done ++ [i], rest, l', by simp, hl', hrest.trans hlead, ?_⟩
    rw [← hrest, List.length_append]
    exact Nat.le_add_left _ _

/-- **What the frame pass leaves in the ring**: text, and the part of an unfinished frame that has
come; the cut is clean when that part holds no LF. -/
theorem exists_part {items : List Item} {e : Esp α} (h : e.Reads items)
    (hnone : parseRound e = none) :
    ∃ l p, e.ring = l ++ p ∧ PLUS ∉ l ∧ (p = [] ∨ p.head? = some PLUS) ∧
      (cleanCut items e.coming.length ↔ LF ∉ p) := by
  obtain ⟨done, its, l, rfl, hl, hs, hle⟩ := h
  simp only [cleanCut_append hle]
  cases its with
  | nil =>
    refine ⟨e.ring, [], by simp, fun hr => hl ?_, Or.inl rfl, by simp [cleanCut]⟩
    rw [frameOn, List.append_nil] at hs
    exact hs ▸ List.mem_append_left _ hr
  | cons i rest =>
    rw [frameOn, ← List.append_assoc] at hs
    obtain ⟨c, hc, hcoming, hpos⟩ : ∃ c, l ++ i.frame.bytes = e.ring ++ c ∧
        e.coming = c ++ render rest ∧ 0 < c.length := by
      have notWhole : ∀ r, e.ring ≠ l ++ (i.frame.bytes ++ r) := fun r hr => by
        obtain ⟨rx, -, hsome⟩ := parseRound_whole hl i.frame hr
        rw [hnone] at hsome
        cases hsome
      rcases List.append_eq_append_iff.mp hs with ⟨c, hc, hcoming⟩ | ⟨c, hc, -⟩
      · refine ⟨c, hc, hcoming, List.length_pos_of_ne_nil fun hnil => notWhole [] ?_⟩
        simpa [hnil] using hc.symm
      · exact absurd (hc.trans (List.append_assoc _ _ _)) (notWhole c)
    have hcut : cleanCut (i :: rest) e.coming.length ↔
        LF ∉ i.frame.bytes.take (i.frame.bytes.length - c.length) := by
      rw [cleanCut, hcoming, List.length_append, if_pos (by omega), Nat.add_sub_add_right]
    rw [hcut]
    rcases List.append_eq_append_iff.mp hc with ⟨p, hp, hbytes⟩ | ⟨p, hp, hbytes⟩
    · refine ⟨l, p, hp, hl, ?_, ?_⟩
      · rcases p with _ | ⟨x, p⟩
        · exact Or.inl rfl
        · exact Or.inr (congrArg List.head? hbytes).symm
      · rw [hbytes, List.length_append, Nat.add_sub_cancel, List.take_left]
    · refine ⟨e.ring, [], by simp, fun hr => hl (hp ▸ List.mem_append_left _ hr), Or.inl rfl, ?_⟩
      rw [hbytes, List.length_append, Nat.sub_eq_zero_of_le (Nat.le_add_left _ _)]
      simp

/-- **The line pass is harmless exactly when no LF stands behind the first `+`.** -/
theorem urcLines_unharmed_iff {e : Esp α} {l p : List UInt8} (hring : e.ring = l ++ p)
    (hl : PLUS ∉ l) (hp : p = [] ∨ p.head? = some PLUS) :
    (urcLines e).Unharmed ↔ e.Unharmed ∧ LF ∉ p := by
  constructor
  · intro h
    refine ⟨?_, fun hLF => ?_⟩
    · by_contra hun
      exact carried_harmed.urcLines hun h
    · -- the part behind the `+` is never touched, and the pass leaves no LF
      have hsuf : (urcLines e).Unharmed → p <:+ (urcLines e).ring := by
        refine loop_invariant (P := fun e => e.Unharmed → p <:+ e.ring)
          (fun e e' hline ih hun => ?_) _ e fun _ => hring ▸ List.suffix_append l p
        obtain ⟨n, -, -, -, -, rfl⟩ := lineBody_cases hline
        obtain ⟨rx, w, ls, hrx, heq⟩ := takeLine_eq n e
        rw [heq] at hun ⊢
        obtain ⟨hun, hev⟩ := unharmed_append hun
        refine suffix_of_plus (a := e.ring.take n) ?_ hp hev
        change p <:+ e.ring.take n ++ rx.bytes
        rw [hrx, List.take_append_drop]
        exact ih hun
      exact lineBody_eq_none_iff.mp (urcLines_exit e) ((hsuf h).subset hLF)
  · rintro ⟨hun, hLF⟩
    suffices h : (urcLines e).Unharmed ∧ ∃ l, (urcLines e).ring = l ++ p ∧ PLUS ∉ l from h.1
    refine loop_invariant (P := fun e => e.Unharmed ∧ ∃ l, e.ring = l ++ p ∧ PLUS ∉ l)
      (fun e e' hline ih => ?_) _ e ⟨hun, l, hring, hl⟩
    obtain ⟨hun, l, hring, hl⟩ := ih
    obtain ⟨n, last, hfind, hn, -, rfl⟩ := lineBody_cases hline
    obtain ⟨rx, w, ls, hrx, heq⟩ := takeLine_eq n e
    -- the first LF of the ring is in the text
    have hnl : n ≤ l.length := by
      cases hl' : findSub [LF] l with
      | none =>
        have hno : LF ∉ l := fun h =>
          findSub_eq_none_iff.mp hl' (List.singleton_infix_iff _ _ |>.mpr h)
        rw [hring, findSub_append_left hno, findSub_of_notMem hLF] at hfind
        cases hfind
      | some j =>
        have hj := findSub_add_le hl'
        rw [hring, findSub_append_right hl' p, Option.some.injEq] at hfind
        rw [List.length_singleton] at hj
        omega
    have htake : e.ring.take n = l.take n := by rw [hring, List.take_append_of_le_length hnl]
    rw [heq]
    refine ⟨unharmed_snoc hun fun h => hl (List.mem_of_mem_take (htake ▸ h)), l.drop n, ?_,
      fun h => hl (List.mem_of_mem_drop h)⟩
    change rx.bytes = _
    rw [hrx, hring, List.drop_append_of_le_length hnl]

/-- A harmless line pass stays in the text. -/
theorem reads_urcLines {items : List Item} {e : Esp α} (h : e.Reads items)
    (hun : (urcLines e).Unharmed) : (urcLines e).Reads items := by
  refine loop_invariant (P := fun e => e.Unharmed → e.Reads items)
    (fun e e' hline ih hun => ?_) _ e (fun _ => h) hun
  obtain ⟨n, -, -, -, -, rfl⟩ := lineBody_cases hline
  obtain ⟨rx, w, ls, hrx, heq⟩ := takeLine_eq n e
  rw [heq] at hun ⊢
  obtain ⟨hun, hev⟩ := unharmed_append hun
  obtain ⟨done, its, l, hitems, hl, hs, hle⟩ := ih hun
  have hs' : e.ring.take n ++ (rx.bytes ++ e.coming) = l ++ frameOn its := by
    rw [hrx, ← List.append_assoc, List.take_append_drop, hs]
  obtain ⟨l', hl'⟩ := suffix_of_plus ⟨l, hs'.symm⟩ (head?_frameOn its) hev
  refine ⟨done, its, l', hitems, fun h => hl ?_, hl'.symm, hle⟩
  rw [← hl', ← List.append_assoc] at hs'
  rw [← List.append_cancel_right hs']
  exact List.mem_append_right _ h

/-! ## The run -/

theorem air_pass (ms : UInt32) (e : Esp α) : (e.pass ms).air = e.air.tail := by
  obtain ⟨t, r, k, bs, -, -, -, heq⟩ := e.pass_eq ms
  rw [heq]

/-- With such a callback, what a round takes off the ring is all the frame pass does. -/
theorem parseIpdFrames_invariant {P : Esp α → Prop} (h : ℤ → List UInt8 → α → α)
    (hround : ∀ o e e', parseRound e = some (o, e') → P e → P e')
    (hup : ∀ u e, P e → P { e with up := u }) {e : Esp α} (he : P e) :
    P (parseIpdFrames (handler h) e) := by
  refine loop_invariant (fun e e' hs he => ?_) _ e he
  rcases parseBody_cases hs with hr | ⟨link, data, e₀, hr, rfl⟩
  · exact hround _ _ _ hr he
  · exact hup _ e₀ (hround _ _ _ hr he)

/-- A round of the frame pass adds a delivery to the record at most, and reads no script. -/
theorem parseRound_frame {o : Option (ℤ × List UInt8)} {e e' : Esp α}
    (h : parseRound e = some (o, e')) : e'.air = e.air ∧ (e.Unharmed → e'.Unharmed) := by
  rcases parseRound_cases h with
    ⟨-, rx, n, -, -, -, rfl⟩ | ⟨pre, hdr, link, data, rx, -, -, -, rfl⟩
  · exact ⟨rfl, id⟩
  · exact ⟨rfl, fun hun => unharmed_snoc hun trivial⟩

theorem air_parseIpdFrames (h : ℤ → List UInt8 → α → α) (e : Esp α) :
    (parseIpdFrames (handler h) e).air = e.air :=
  parseIpdFrames_invariant (P := fun e' => e'.air = e.air) h
    (fun _ _ _ hr ih => (parseRound_frame hr).1.trans ih) (fun _ _ ih => ih) rfl

theorem air_urcLines (e : Esp α) : (urcLines e).air = e.air := by
  refine loop_invariant (P := fun e' => e'.air = e.air) (fun e₁ e₂ hline ih => ?_) _ e rfl
  obtain ⟨n, -, -, -, -, rfl⟩ := lineBody_cases hline
  obtain ⟨rx, w, ls, -, heq⟩ := takeLine_eq n e₁
  rw [heq]
  exact ih

theorem reads_pass {items : List Item} {e : Esp α} {ms : UInt32} (h : e.Reads items)
    (hlost : (e.pass ms).lost = 0) : (e.pass ms).Reads items := by
  obtain ⟨done, its, l, hitems, hl, hs, hle⟩ := h
  obtain ⟨-, hring, -⟩ := pass_lost hlost
  refine ⟨done, its, l, hitems, hl, hring.trans hs, le_trans ?_ hle⟩
  obtain ⟨t, r, k, bs, -, hcoming, -, heq⟩ := e.pass_eq ms
  rw [heq, hcoming, List.length_append]
  exact Nat.le_add_left _ _

/-- **A run removes only text exactly when its cuts are clean.** -/
theorem feed_unharmed_iff (h : ℤ → List UInt8 → α → α) (items : List Item) :
    ∀ (air : List Arrival) {e : Esp α}, e.air = air → e.Reads items → e.Unharmed →
      (feed (handler h) air.length e).lost = 0 →
      ((feed (handler h) air.length e).Unharmed ↔ CleanCuts items air)
  | [], _, _, _, hun, _ => iff_of_true hun trivial
  | a :: rest, e, hair, hreads, hun, hlost => by
      have hcb := sendsOnly_handler h
      set e₂ := parseIpdFrames (handler h) (e.pass 0) with he₂
      have hle {e' : Esp α} (hrun : feed (handler h) rest.length e' =
          feed (handler h) (a :: rest).length e) : e'.lost = 0 :=
        Nat.le_zero.mp (hlost ▸ hrun ▸ (carried_lost e'.lost).feed hcb rest.length le_rfl)
      have hlost₁ : (e.pass 0).lost = 0 := by
        have := (carried_lost (e.pass 0).lost).esp8266Loop hcb (e := e.pass 0) le_rfl
        rw [hle rfl] at this
        exact Nat.le_zero.mp this
      have hun₂ : e₂.Unharmed := by
        refine parseIpdFrames_invariant h (fun _ _ _ hr => (parseRound_frame hr).2)
          (fun _ _ ih => ih) ?_
        rw [Esp.Unharmed, (pass_lost hlost₁).2.2]
        exact hun
      have hreads₂ : e₂.Reads items :=
        parseIpdFrames_invariant h (fun _ _ _ hr ih => reads_round ih hr) (fun _ _ ih => ih)
          (reads_pass hreads hlost₁)
      have hair₂ : e₂.air = rest := by
        rw [he₂, air_parseIpdFrames, air_pass, hair, List.tail_cons]
      have hair₃ : (urcLines e₂).air = rest := by rw [air_urcLines, hair₂]
      obtain ⟨l, p, hring, hl, hp, hcut⟩ := exists_part hreads₂ (parseIpdFrames_exit hcb _)
      have hiff := urcLines_unharmed_iff hring hl hp
      rw [← hcut, Esp.coming, hair₂] at hiff
      change (feed (handler h) rest.length (urcLines e₂)).Unharmed ↔ _ ∧ _
      by_cases hclean : cleanCut items (rest.map Arrival.bytes).flatten.length
      · have hun₃ := hiff.mpr ⟨hun₂, hclean⟩
        exact (feed_unharmed_iff h items rest hair₃ (reads_urcLines hreads₂ hun₃) hun₃ hlost).trans
          (and_iff_right hclean).symm
      · have hun₃ : ¬ (urcLines e₂).Unharmed := fun hun₃ => hclean (hiff.mp hun₃).2
        exact iff_of_false (carried_harmed.feed hcb rest.length hun₃) fun hc => hclean hc.1

theorem air_feed (h : ℤ → List UInt8 → α → α) : ∀ (n : ℕ) (e : Esp α),
    (feed (handler h) n e).air = e.air.drop n
  | 0, _ => rfl
  | n + 1, e => by
      rw [feed, air_feed h n, esp8266Loop, air_urcLines, air_parseIpdFrames, air_pass,
        List.drop_tail]

theorem complete_feed {cb : RecvCb α} (hcb : cb.SendsOnly) {total : List (ℤ × List UInt8)} :
    ∀ (n : ℕ) {e : Esp α}, e.Kept total → e.Complete total → (feed cb n e).Complete total
  | 0, _, _, h => h
  | n + 1, _, hkept, _ => by
      have hpass := (carried_kept total).pass 0 _ hkept
      exact complete_feed hcb n ((carried_kept total).esp8266Loop hcb hpass)
        (complete_esp8266Loop hcb hpass)

/-- A stream reaches the callback whole exactly when only text was removed from the ring. -/
theorem feed_frames_iff_unharmed (h : ℤ → List UInt8 → α → α) {items : List Item} {e : Esp α}
    (hfresh : e.Fresh) (hstream : e.coming = render items)
    (hlost : (feed (handler h) e.air.length e).lost = 0) :
    (feed (handler h) e.air.length e).frames = items.map (fun i => i.frame.pair) ↔
      (feed (handler h) e.air.length e).Unharmed := by
  have hcb := sendsOnly_handler h
  have hlay : Layout e.coming (items.map Item.frame) := hstream ▸ layout_render items
  have hcoming : (feed (handler h) e.air.length e).coming = [] := by
    rw [Esp.coming, air_feed, List.drop_length, List.map_nil, List.flatten_nil]
  have hiff := frames_eq_iff
    (complete_feed hcb _ (hfresh.kept hlay) (hfresh.complete hlay))
    ((carried_spent _).feed hcb _ (hfresh.spent hlay)) hlost hcoming
  rwa [List.map_map] at hiff

theorem reads_of_fresh {items : List Item} {e : Esp α} (h : e.Fresh)
    (hstream : e.coming = render items) : e.Reads items := by
  obtain ⟨l, hl, hlead⟩ := exists_lead items
  exact ⟨[], items, l, rfl, hl, by rw [h.ring, hstream, List.nil_append, hlead], by rw [hstream]⟩

/-- **A stream in one chunk reaches the callback whole.** -/
theorem feed_frames_whole (h : ℤ → List UInt8 → α → α) {items : List Item} {e : Esp α}
    {a : Arrival} (hfresh : e.Fresh) (hair : e.air = [a]) (hstream : e.coming = render items)
    (hlost : (feed (handler h) 1 e).lost = 0) :
    (feed (handler h) 1 e).frames = items.map (fun i => i.frame.pair) := by
  have hlen : e.air.length = 1 := by rw [hair, List.length_singleton]
  rw [← hlen] at hlost ⊢
  refine (feed_frames_iff_unharmed h hfresh hstream hlost).mpr ?_
  exact (feed_unharmed_iff h items e.air rfl (reads_of_fresh hfresh hstream)
    hfresh.unharmed hlost).mpr (hair ▸ ⟨cleanCut_zero items, trivial⟩)

/-- **A stream reaches the callback whole exactly when its cuts are clean**: the pairs handed over
are the frames in order, if and only if no chunk ends while the ring holds an LF of an unfinished
frame. -/
theorem feed_frames_iff (h : ℤ → List UInt8 → α → α) (items : List Item) (e : Esp α)
    (hfresh : e.Fresh) (hstream : e.coming = render items)
    (hlost : (feed (handler h) e.air.length e).lost = 0) :
    (feed (handler h) e.air.length e).frames = items.map (fun i => i.frame.pair) ↔
      CleanCuts items e.air :=
  (feed_frames_iff_unharmed h hfresh hstream hlost).trans
    (feed_unharmed_iff h items e.air rfl (reads_of_fresh hfresh hstream)
      hfresh.unharmed hlost)

/-- The frame `+IPD,2:` with an LF and an `X`. -/
def lfFrame : Frame := .plain [LF, 88] (by decide)

/-- It comes in two chunks, cut after the LF. -/
def lfSplit : Esp Unit :=
  Esp.boot () [⟨0, ascii "+IPD,2:" ++ [LF]⟩, ⟨0, [88]⟩]

theorem feed_frames_iff_lfSplit :
    (feed (handler fun _ _ u => u) 2 lfSplit).frames = [lfFrame.pair] ↔
      CleanCuts [⟨false, lfFrame⟩] lfSplit.air :=
  feed_frames_iff (fun _ _ u => u) [⟨false, lfFrame⟩] lfSplit ⟨rfl, rfl, rfl⟩ (by decide)
    (by decide +kernel)

/-- Nothing is delivered, though nothing was lost. -/
theorem lfSplit_frames :
    lfSplit.Fresh ∧ lfSplit.coming = render [⟨false, lfFrame⟩] ∧
      (feed (handler fun _ _ u => u) lfSplit.air.length lfSplit).lost = 0 ∧
      (feed (handler fun _ _ u => u) lfSplit.air.length lfSplit).frames ≠ [lfFrame.pair] :=
  ⟨⟨rfl, rfl, rfl⟩, by decide, by decide +kernel, by decide +kernel⟩

end GrainWarehouse

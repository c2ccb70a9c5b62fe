import GrainWarehouse.Esp8266.Answers
import GrainWarehouse.Esp8266.Commands

/-!
# Esp8266/Confirm — what makes `esp8266_tcp_connect` report success

`esp8266_tcp_connect` looks for `CONNECT` anywhere in the ring, so any line with these letters in it
will do: `WIFI DISCONNECT`, `ALREADY CONNECTED`, `CONNECT FAIL`.

The module's output is a sequence of lines, and comes in at any pace.  The call reports success on a
confirmation alone as long as **the first line with `CONNECT` in it, if there is one, is a
confirmation** (`confirmed_of_genuine`), and not otherwise: if it is another line, the call already
succeeds when that line is in (`exists_unconfirmed`).
-/

namespace GrainWarehouse

/-! ## Lines -/

/-- What `esp8266_tcp_connect` looks for. -/
def connectText : List UInt8 := ascii "CONNECT"

/-- **A confirmation**: `CONNECT`, or `n,CONNECT` or `n,CONNECTED` for a link `n`. -/
def Genuine (l : List UInt8) : Prop :=
  l = connectText ∨ ∃ id : Fin espMaxLinkId,
    l = decimal id ++ ascii ",CONNECT" ∨ l = decimal id ++ ascii ",CONNECTED"

instance : DecidablePred Genuine := fun _ =>
  inferInstanceAs (Decidable (_ ∨ ∃ _ : Fin espMaxLinkId, _))

/-- Lines on the wire. -/
def lineBytes (ls : List (List UInt8)) : List UInt8 := ls.flatMap (· ++ [CR, LF])

theorem lineBytes_cons (l : List UInt8) (ls : List (List UInt8)) :
    lineBytes (l :: ls) = l ++ CR :: LF :: lineBytes ls := by
  rw [lineBytes, List.flatMap_cons, List.append_assoc]
  rfl

theorem lineBytes_append (ls ls' : List (List UInt8)) :
    lineBytes (ls ++ ls') = lineBytes ls ++ lineBytes ls' := List.flatMap_append

theorem infix_of_genuine {l : List UInt8} (h : Genuine l) : connectText <:+: l := by
  have hid : ∀ id : Fin espMaxLinkId, connectText <:+: decimal id ++ ascii ",CONNECT" ∧
      connectText <:+: decimal id ++ ascii ",CONNECTED" := by
    decide +kernel
  rcases h with rfl | ⟨id, rfl | rfl⟩
  · exact List.infix_refl _
  · exact (hid id).1
  · exact (hid id).2

/-- **The first `CONNECT` of a sequence of lines stands in the first line that has one.** -/
theorem findSub_lineBytes : ∀ {ls : List (List UInt8)} {p : ℕ},
    findSub connectText (lineBytes ls) = some p →
    ∃ pre l post at', ls = pre ++ l :: post ∧ findSub connectText l = some at' ∧
      (∀ l' ∈ pre, ¬ connectText <:+: l') ∧ p = (lineBytes pre).length + at'
  | [], _, h => by
      have hnone : findSub connectText (lineBytes []) = none := by decide
      rw [hnone] at h
      cases h
  | l :: ls, p, h => by
      rw [lineBytes_cons] at h
      by_cases hin : connectText <:+: l
      · obtain ⟨at', hat⟩ := exists_findSub_iff.mpr hin
        rw [findSub_append_right hat] at h
        obtain rfl := Option.some.inj h
        exact ⟨[], l, ls, at', rfl, hat, fun _ hl' => absurd hl' List.not_mem_nil,
          (Nat.zero_add _).symm⟩
      · -- neither the CR nor the LF is a letter of `CONNECT`
        have hskip : findSub connectText (LF :: lineBytes ls) =
            (findSub connectText (lineBytes ls)).map (· + 1) :=
          findSub_append_cons (a := []) (by decide) (by decide) (by decide) _
        rw [findSub_append_cons (by decide) (by decide) hin, hskip, Option.map_map,
          Option.map_eq_some_iff] at h
        obtain ⟨q, hq, rfl⟩ := h
        obtain ⟨pre, l', post, at', rfl, hat, hpre, rfl⟩ := findSub_lineBytes hq
        refine ⟨l :: pre, l', post, at', rfl, hat, List.forall_mem_cons.mpr ⟨hin, hpre⟩, ?_⟩
        rw [lineBytes_cons]
        simp only [Function.comp_apply, List.length_append, List.length_cons]
        omega

/-! ## What the ring has seen -/

variable {α : Type}

/-- What the ring has taken from `e₀` to `e`, if it has lost nothing. -/
def Esp.taken (e₀ e : Esp α) : List UInt8 := e₀.coming.take (e.rxd - e₀.rxd)

/-- **The driver has only waited since `e₀`**, and the ring was clear then: it holds the end of what
it has taken, unless bytes have been lost. -/
structure Esp.Since (e₀ e : Esp α) : Prop where
  rxd : e₀.rxd ≤ e.rxd
  lost : e₀.lost ≤ e.lost
  links : e.sLinkState = e₀.sLinkState
  ring : e.lost = e₀.lost → e.ring <:+ e₀.taken e
  coming : e.lost = e₀.lost → e.coming = e₀.coming.drop (e.rxd - e₀.rxd)

theorem stable_since (e₀ : Esp α) : Esp.Stable e₀.Since where
  pass ms e h := by
    obtain ⟨t, r, k, bs, hk, hcoming, hr, heq⟩ := e.pass_eq ms
    rw [heq]
    refine ⟨h.rxd.trans (Nat.le_add_right _ _), h.lost.trans (Nat.le_add_right _ _), h.links,
      ?_, ?_⟩
    all_goals
      intro hlost
      have hlost' : e.lost + (bs.length - k) = e₀.lost := hlost
      have hle := h.lost
      obtain rfl : k = bs.length := by omega
      have hsame : e.lost = e₀.lost := by omega
      have hrxd := h.rxd
      have hsub : e.rxd + bs.length - e₀.rxd = e.rxd - e₀.rxd + bs.length := by omega
      have hfuture := h.coming hsame
    · have hring : r.bytes <:+ e₀.coming.take (e.rxd + bs.length - e₀.rxd) := by
        obtain ⟨pre, hpre⟩ := h.ring hsame
        refine ⟨pre, ?_⟩
        rw [hr, ← List.append_assoc, hpre, hsub, List.take_add, ← hfuture, hcoming, List.take_left,
          List.take_length, Esp.taken]
      exact hring
    · have hrest : (e.air.tail.map Arrival.bytes).flatten =
          e₀.coming.drop (e.rxd + bs.length - e₀.rxd) := by
        rw [hsub, ← List.drop_drop, ← hfuture, hcoming, List.drop_left]
      exact hrest
  sent _ _ h := ⟨h.rxd, h.lost, h.links, h.ring, h.coming⟩
  cleared e h := ⟨h.rxd, h.lost, h.links, fun _ => by
    rw [ring_clearRing]
    exact List.nil_suffix, h.coming⟩
  found needle at' e _ h := ⟨h.rxd, h.lost, h.links, fun hlost => by
    change (ringConsume e.sRx _).bytes <:+ _
    rw [bytes_ringConsume]
    exact (List.drop_suffix _ _).trans (h.ring hlost), h.coming⟩

theorem since_iterate {e₀ : Esp α} : ∀ (n : ℕ) {e : Esp α}, e₀.Since e →
    e₀.Since ((Esp.pass 10)^[n] e)
  | 0, _, h => h
  | n + 1, e, h => by
      rw [Function.iterate_succ_apply]
      exact since_iterate n ((stable_since e₀).pass 10 e h)

/-- **What a wait has found was taken by the ring.** -/
theorem infix_taken_of_found {e₀ e : Esp α} (h : e₀.Since e) {needle : List UInt8} {ms : ℕ}
    (hsome : (atWaitFor needle ms e).1.isSome)
    (hlost : (atWaitFor needle ms e).2.lost = e₀.lost) :
    needle <:+: e₀.taken (atWaitFor needle ms e).2 := by
  rw [atWaitFor] at hsome hlost ⊢
  rcases atWaitLoop_cases needle ((ms + 9) / 10) e with ⟨i, at', -, -, hat, heq⟩ | ⟨-, heq⟩
  · rw [heq] at hlost ⊢
    exact (exists_findSub_iff.mp ⟨at', hat⟩).trans ((since_iterate i h).ring hlost).isInfix
  · rw [heq] at hsome
    cases hsome

/-! ## The call -/

/-- The loop has returned failure, or has seen `CONNECT`. -/
def Esp.Told (e₀ : Esp α) (r : Option ℤ × Esp α) : Prop :=
  (r.1 = none → e₀.Since r.2) ∧
    ∀ res ∈ r.1, (res < 0 ∧ r.2.sLinkState = e₀.sLinkState) ∨
      (r.2.lost = e₀.lost → connectText <:+: e₀.taken r.2)

theorem told_step {e₀ : Esp α} {t0 : UInt32} {r r' : Option ℤ × Esp α}
    (h : connectBody t0 r = some r') (hr : e₀.Told r) : e₀.Told r' := by
  have hold : connectText <:+: ascii "0,CONNECTED" := by decide
  obtain ⟨_ | res, e⟩ := r
  · have hs := hr.1 rfl
    have hP := stable_since e₀
    have h₁ := hP.atWaitFor (ascii "0,CONNECTED") 200 hs
    have h₂ := hP.atWaitFor connectText 200 h₁
    have h₃ := hP.atWaitFor (ascii "OK") 100 h₂
    have h₄ := hP.atWaitFor (ascii "ERROR") 100 h₃
    have h₅ := hP.atWaitFor (ascii "0,CLOSED") 100 h₄
    have hnone {e' : Esp α} (he : e₀.Since e') : e₀.Told (none, e') :=
      ⟨fun _ => he, fun _ hres => by cases hres⟩
    have hfail {e' : Esp α} (he : e₀.Since e') : e₀.Told (some (-1), e') := by
      refine ⟨fun hn => absurd hn (Option.some_ne_none _), ?_⟩
      rintro res ⟨⟩
      exact Or.inl ⟨by decide, he.links⟩
    simp only [connectBody] at h
    split_ifs at h with hover hc₁ hc₂
    all_goals cases h
    · refine ⟨fun hn => absurd hn (Option.some_ne_none _), ?_⟩
      rintro res ⟨⟩
      exact Or.inr fun hlost => hold.trans (infix_taken_of_found hs hc₁ hlost)
    · refine ⟨fun hn => absurd hn (Option.some_ne_none _), ?_⟩
      rintro res ⟨⟩
      exact Or.inr fun hlost => infix_taken_of_found h₁ hc₂ hlost
    · exact hnone h₃
    · exact hfail h₄
    · exact hfail h₅
    · exact hnone h₅
  · cases h

/-- **A call that reports success has seen `CONNECT`.** -/
theorem connect_seen {host : List UInt8} {port : UInt16} {e : Esp α}
    (hlinked : 0 ≤ (tcpConnect host port e).1 ∨
      (tcpConnect host port e).2.sLinkState ≠ e.sLinkState)
    (hlost : (tcpConnect host port e).2.lost = e.lost) :
    connectText <:+: e.taken (tcpConnect host port e).2 := by
  have hsince : e.Since (connecting host port e) := by
    have hclear : e.Since (clearRing e) := by
      refine ⟨le_rfl, le_rfl, rfl, fun _ => ?_, fun _ => ?_⟩
      · rw [ring_clearRing]
        exact List.nil_suffix
      · change e.coming = e.coming.drop (e.rxd - e.rxd)
        rw [Nat.sub_self, List.drop_zero]
    exact (stable_since e).atSendLine _ hclear
  have htold (t0 : UInt32) (n : ℕ) :
      e.Told (loop (connectBody t0) n (none, connecting host port e)) :=
    loop_invariant (fun _ _ hr => told_step hr) n _ ⟨fun _ => hsince, fun _ hres => by cases hres⟩
  rw [tcpConnect] at hlinked hlost ⊢
  split at hlinked
  · next hwifi =>
    rw [if_pos hwifi] at hlost ⊢
    dsimp only at hlinked hlost ⊢
    have hend := htold (connecting host port e).halTick (connectRounds (connecting host port e))
    set r := loop (connectBody (connecting host port e).halTick)
      (connectRounds (connecting host port e)) (none, connecting host port e)
    cases hres : r.1 with
    | none =>
      rw [hres, Option.getD_none] at hlinked
      exact absurd (hend.1 hres).links (hlinked.resolve_left (by decide))
    | some res =>
      rw [hres, Option.getD_some] at hlinked
      rcases hend.2 res hres with ⟨hneg, hlinks⟩ | hseen
      · exact absurd hlinks (hlinked.resolve_left (not_le.mpr hneg))
      · exact hseen hlost
  · dsimp only at hlinked
    exact absurd rfl (hlinked.resolve_left (by decide))

/-! ## The exact condition -/

/-- **Success is reported on a confirmation**: if the call returns a link, or touches a link flag, a
confirmation is among the lines that have come in — as far as its `CONNECT`, at least. -/
def Confirmed (ls : List (List UInt8)) (host : List UInt8) (port : UInt16) (e : Esp α) : Prop :=
  0 ≤ (tcpConnect host port e).1 ∨ (tcpConnect host port e).2.sLinkState ≠ e.sLinkState →
    ∃ pre l post at', ls = pre ++ l :: post ∧ Genuine l ∧ findSub connectText l = some at' ∧
      (lineBytes pre).length + at' + 7 ≤ (tcpConnect host port e).2.rxd - e.rxd

/-- **…in every run** in which the module says these lines, or the first of them, at any pace, and
the ring loses none of it. -/
def AlwaysConfirmed (α : Type) (ls : List (List UInt8)) : Prop :=
  ∀ host port (e : Esp α), e.coming <+: lineBytes ls →
    (tcpConnect host port e).2.lost = e.lost → Confirmed ls host port e

/-- The first line with `CONNECT` in it is a confirmation. -/
def FirstGenuine (ls : List (List UInt8)) : Prop :=
  ∀ pre l post, ls = pre ++ l :: post → connectText <:+: l →
    (∀ l' ∈ pre, ¬ connectText <:+: l') → Genuine l

/-- **If the first line with `CONNECT` in it is a confirmation, success is always reported on
one.** -/
theorem confirmed_of_genuine {ls : List (List UInt8)} (h : FirstGenuine ls) :
    AlwaysConfirmed α ls := by
  intro host port e hcoming hlost hlinked
  have hseen := connect_seen hlinked hlost
  rw [Esp.taken] at hseen
  obtain ⟨p, hp⟩ := exists_findSub_iff.mpr hseen
  have hle := findSub_add_le hp
  have h7 : connectText.length = 7 := by decide
  obtain ⟨rest, hrest⟩ := (List.take_prefix _ _).trans hcoming
  have hfind : findSub connectText (lineBytes ls) = some p := by
    rw [← hrest]
    exact findSub_append_right hp rest
  obtain ⟨pre, l, post, at', rfl, hat, hpre, rfl⟩ := findSub_lineBytes hfind
  refine ⟨pre, l, post, at', rfl, h pre l post rfl (exists_findSub_iff.mp ⟨at', hat⟩) hpre, hat, ?_⟩
  rw [List.length_take, h7] at hle
  exact hle.trans (min_le_left _ _)

/-- A module that has nothing more to say. -/
structure Esp.Silent (rxd lost : ℕ) (e : Esp α) : Prop where
  air : e.air = []
  rxd : e.rxd = rxd
  lost : e.lost = lost

theorem pass_of_silent {ms : UInt32} {e : Esp α} (h : e.air = []) :
    e.pass ms = { e with halTick := e.halTick + if ms = 0 then 1 else ms } := by
  rw [Esp.pass, h]

theorem stable_silent (rxd lost : ℕ) : Esp.Stable (Esp.Silent (α := α) rxd lost) where
  pass ms e h := by
    rw [pass_of_silent h.air]
    exact ⟨h.air, h.rxd, h.lost⟩
  sent _ _ h := ⟨h.air, h.rxd, h.lost⟩
  cleared _ h := ⟨h.air, h.rxd, h.lost⟩
  found _ _ _ _ h := ⟨h.air, h.rxd, h.lost⟩

theorem ring_iterate_of_silent : ∀ (n : ℕ) {e : Esp α}, e.air = [] →
    ((Esp.pass 10)^[n] e).ring = e.ring
  | 0, _, _ => rfl
  | n + 1, e, h => by
      have hair : (e.pass 10).air = [] := by
        rw [pass_of_silent h]
        exact h
      rw [Function.iterate_succ_apply, ring_iterate_of_silent n hair, pass_of_silent h]

/-- Lines that come in all at once, while `AT+CIPSTART` goes out. -/
def atOnce (up : α) (bs : List UInt8) : Esp α := setWifi true (Esp.boot up [⟨0, bs⟩])

theorem connecting_atOnce (up : α) {bs : List UInt8} (hfit : bs.length ≤ 1023)
    (host : List UInt8) (port : UInt16) :
    (connecting host port (atOnce up bs)).ring = bs ∧
      (connecting host port (atOnce up bs)).Silent bs.length 0 := by
  have hpass : (clearRing (atOnce up bs)).pass 0 =
      Esp.receive bs { clearRing (atOnce up bs) with air := [] } := rfl
  have hclear : ({ clearRing (atOnce up bs) with air := [] } : Esp α).ring = [] :=
    ring_clearRing (atOnce up bs)
  obtain ⟨r, hr, heq⟩ := Esp.receive_room bs { clearRing (atOnce up bs) with air := [] }
    (by rw [hclear, List.length_nil]; omega)
  rw [connecting, atSendLine, uartSend, hpass, heq]
  refine ⟨by rw [hclear, List.nil_append] at hr; exact hr, rfl, Nat.zero_add _, rfl⟩

/-- A wait that fails leaves the ring as it was. -/
theorem ring_atWaitFor_of_silent {needle : List UInt8} {ms : ℕ} {e : Esp α} (h : e.air = [])
    (hnot : ¬ (atWaitFor needle ms e).1.isSome) : (atWaitFor needle ms e).2.ring = e.ring := by
  rw [atWaitFor] at hnot ⊢
  rcases atWaitLoop_cases needle ((ms + 9) / 10) e with ⟨i, at', -, -, -, heq⟩ | ⟨-, heq⟩
  · rw [heq] at hnot
    exact absurd rfl hnot
  · rw [heq, ring_iterate_of_silent _ h]

/-- The first round succeeds on a `CONNECT` in the ring: one of its first two waits finds it. -/
theorem connectBody_of_silent {rxd lost : ℕ} {c : Esp α} (h : c.Silent rxd lost)
    (hin : connectText <:+: c.ring) :
    ∃ e', connectBody c.halTick (none, c) = some (some 0, e') ∧ e'.Silent rxd lost := by
  have hS := stable_silent (α := α) rxd lost
  have h₁ := hS.atWaitFor (ascii "0,CONNECTED") 200 h
  have h₂ := hS.atWaitFor connectText 200 h₁
  have hover : ¬ 15000 ≤ c.halTick - c.halTick := by
    rw [UInt32.sub_self]
    decide
  simp only [connectBody, if_neg hover]
  by_cases hc₁ : (atWaitFor (ascii "0,CONNECTED") 200 c).1.isSome
  · rw [if_pos hc₁]
    exact ⟨_, rfl, h₁.air, h₁.rxd, h₁.lost⟩
  · have hfound :
        (atWaitFor connectText 200 (atWaitFor (ascii "0,CONNECTED") 200 c).2).1.isSome := by
      rw [atWaitFor, atWaitLoop_isSome_iff]
      refine ⟨0, by decide, ?_⟩
      rw [Function.iterate_zero_apply, ring_atWaitFor_of_silent h.air hc₁]
      exact hin
    rw [if_neg hc₁, ← connectText, if_pos hfound]
    exact ⟨_, rfl, h₂.air, h₂.rxd, h₂.lost⟩

/-- **The call succeeds on any `CONNECT` that is there when it begins to look.** -/
theorem tcpConnect_atOnce (up : α) {bs : List UInt8} (hfit : bs.length ≤ 1023)
    (hin : connectText <:+: bs) (host : List UInt8) (port : UInt16) :
    (tcpConnect host port (atOnce up bs)).1 = 0 ∧
      (tcpConnect host port (atOnce up bs)).2.Silent bs.length 0 := by
  obtain ⟨hring, hsilent⟩ := connecting_atOnce up hfit host port
  have hwifi : (atOnce up bs).sWifiConnected = true := rfl
  rw [tcpConnect, if_pos hwifi]
  generalize connecting host port (atOnce up bs) = c at hring hsilent ⊢
  rw [← hring] at hin
  obtain ⟨e', hbody, he'⟩ := connectBody_of_silent hsilent hin
  have hrounds : connectRounds c = 15001 + 1 := by
    rw [connectRounds, hsilent.air]
    rfl
  dsimp only
  rw [hrounds, loop_succ_of_some hbody, loop_of_none rfl]
  exact ⟨rfl, he'⟩

/-- Two places in a list, one of them not behind the other. -/
theorem exists_of_append_cons {β : Type} {pre pre' post post' : List β} {l l' : β}
    (h : pre ++ l :: post = pre' ++ l' :: post') :
    l' ∈ pre ∨ l' = l ∨ ∃ mid, pre' = pre ++ l :: mid := by
  rcases List.append_eq_append_iff.mp h with ⟨c, rfl, hc⟩ | ⟨c, rfl, hc⟩
  · cases c with
    | nil => exact Or.inr (Or.inl (List.cons.inj hc).1.symm)
    | cons x c =>
      obtain ⟨rfl, -⟩ := List.cons.inj hc
      exact Or.inr (Or.inr ⟨c, rfl⟩)
  · cases c with
    | nil => exact Or.inr (Or.inl (List.cons.inj hc).1)
    | cons x c =>
      obtain ⟨rfl, -⟩ := List.cons.inj hc
      exact Or.inl (List.mem_append_right _ List.mem_cons_self)

/-- **If the first line with `CONNECT` in it is not a confirmation**, the call succeeds on it when
the lines so far come in at once. -/
theorem exists_unconfirmed (up : α) {pre post : List (List UInt8)} {l : List UInt8}
    (hin : connectText <:+: l) (hpre : ∀ l' ∈ pre, ¬ connectText <:+: l') (hnot : ¬ Genuine l)
    (hfit : (lineBytes (pre ++ [l])).length ≤ 1023) :
    ¬ AlwaysConfirmed α (pre ++ l :: post) := by
  have hhere : connectText <:+: lineBytes (pre ++ [l]) := by
    rw [lineBytes_append, lineBytes_cons]
    exact hin.trans ((List.prefix_append _ _).isInfix.trans (List.suffix_append _ _).isInfix)
  obtain ⟨hok, hsilent⟩ := tcpConnect_atOnce up hfit hhere [] 0
  have hcoming : (atOnce up (lineBytes (pre ++ [l]))).coming <+: lineBytes (pre ++ l :: post) := by
    have hall : (atOnce up (lineBytes (pre ++ [l]))).coming = lineBytes (pre ++ [l]) :=
      List.append_nil _
    rw [hall, List.append_cons pre l post, lineBytes_append (pre ++ [l]) post]
    exact List.prefix_append _ _
  intro h
  obtain ⟨pre', l', post', at', hsplit, hgen, -, hle⟩ :=
    h [] 0 _ hcoming hsilent.lost (Or.inl hok.ge)
  have hrxd : (tcpConnect [] 0 (atOnce up (lineBytes (pre ++ [l])))).2.rxd -
      (atOnce up (lineBytes (pre ++ [l]))).rxd = (lineBytes (pre ++ [l])).length := hsilent.rxd
  rcases exists_of_append_cons hsplit with hmem | rfl | ⟨mid, rfl⟩
  · exact hpre l' hmem (infix_of_genuine hgen)
  · exact hnot hgen
  · -- that line has not come in
    rw [hrxd, List.append_cons, lineBytes_append, List.length_append] at hle
    omega

/-- The ring holds all the lines through the first one with `CONNECT` in it. -/
def FirstFits (ls : List (List UInt8)) : Prop :=
  ∀ pre l post, ls = pre ++ l :: post → connectText <:+: l →
    (∀ l' ∈ pre, ¬ connectText <:+: l') → (lineBytes (pre ++ [l])).length ≤ 1023

/-- **Success is always reported on a confirmation if the first line with `CONNECT` in it is one**;
and only if, where the ring holds the lines up to there. -/
theorem alwaysConfirmed_iff (up : α) (ls : List (List UInt8)) :
    (FirstGenuine ls → AlwaysConfirmed α ls) ∧
      (FirstFits ls → (AlwaysConfirmed α ls ↔ FirstGenuine ls)) := by
  refine ⟨confirmed_of_genuine, fun hfit => ⟨fun hall => ?_, confirmed_of_genuine⟩⟩
  rintro pre l post rfl hin hpre
  by_contra hnot
  exact exists_unconfirmed up hin hpre hnot (hfit pre l post rfl hin hpre) hall

/-- The call succeeds when the module reports the loss of the WiFi. -/
theorem wifiDisconnect_connects : ¬ AlwaysConfirmed Unit [ascii "WIFI DISCONNECT"] :=
  @exists_unconfirmed Unit () [] [] (ascii "WIFI DISCONNECT") (by decide +kernel)
    (fun _ hl' => absurd hl' List.not_mem_nil) (by decide +kernel) (by decide +kernel)

end GrainWarehouse

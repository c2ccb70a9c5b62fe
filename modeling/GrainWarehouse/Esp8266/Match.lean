import GrainWarehouse.Esp8266.Device

/-!
# Esp8266/Match — what `at_wait_for` removes from the ring

`at_wait_for` measures the line of its match, from the needle through the LF, and drops **as many
bytes from the front of the ring**.  What stands behind the line survives, but so may the line
itself: it does whenever the text in front of it is long enough to pay for it.

`waitsCleanly_iff` is the exact condition: every occurrence of the needle in the matched line begins
among the first bytes of the ring, as many as the line has.
-/

namespace GrainWarehouse

variable {α : Type}

namespace Esp

/-- The ring of `e'` is that of `e`, and behind it all that the ring has taken since; nothing was
transmitted or removed. -/
def Grown (e e' : Esp α) : Prop :=
  (∃ new, e'.ring = e.ring ++ new ∧ e'.rxd = e.rxd + new.length) ∧ e'.log = e.log

theorem Grown.refl (e : Esp α) : e.Grown e := ⟨⟨[], (List.append_nil _).symm, rfl⟩, rfl⟩

theorem Grown.trans {e₁ e₂ e₃ : Esp α} (h₁ : e₁.Grown e₂) (h₂ : e₂.Grown e₃) : e₁.Grown e₃ := by
  obtain ⟨⟨new₁, hring₁, hrxd₁⟩, hlog₁⟩ := h₁
  obtain ⟨⟨new₂, hring₂, hrxd₂⟩, hlog₂⟩ := h₂
  refine ⟨⟨new₁ ++ new₂, ?_, ?_⟩, hlog₂.trans hlog₁⟩
  · rw [hring₂, hring₁, List.append_assoc]
  · rw [hrxd₂, hrxd₁, List.length_append, Nat.add_assoc]

/-- **A pause loses nothing that is in the ring.** -/
theorem grown_pass (ms : UInt32) (e : Esp α) : e.Grown (e.pass ms) := by
  obtain ⟨t, r, k, bs, hk, -, hr, heq⟩ := e.pass_eq ms
  rw [heq]
  refine ⟨⟨bs.take k, hr, ?_⟩, rfl⟩
  rw [List.length_take, min_eq_left hk]

theorem grown_iterate (e : Esp α) : ∀ i : ℕ, e.Grown ((Esp.pass 10)^[i] e)
  | 0 => Grown.refl e
  | i + 1 => by
      rw [Function.iterate_succ_apply']
      exact (grown_iterate e i).trans (grown_pass 10 _)

end Esp

/-! ## The contract of a wait -/

/-- The needle stands at `j`, in the line that begins at `at'`. -/
def InLine (needle ring : List UInt8) (at' j : ℕ) : Prop :=
  at' ≤ j ∧ j < at' + lineSpan ring at' ∧ needle <+: ring.drop j

/-- **The wait matched at `at'` and left the ring `left`**: what stood behind the matched line is
there, in order, and no occurrence of the needle in that line is. -/
def LineGone (needle ring : List UInt8) (at' : ℕ) (left : List UInt8) : Prop :=
  ring.drop (at' + lineSpan ring at') <:+ left ∧
    ∀ j, InLine needle ring at' j → ¬ ring.drop j <:+ left

/-- **A wait treats the ring as its callers rely on**: a failed one loses no byte, and one that
found its needle in `seen` removes the matched line and nothing behind it. -/
def WaitsCleanly (needle : List UInt8) (timeoutMs : ℕ) (e : Esp α) : Prop :=
  (∀ e', atWaitFor needle timeoutMs e = (none, e') → e.Grown e') ∧
  ∀ line e', atWaitFor needle timeoutMs e = (some line, e') →
    ∃ seen at', e.Grown seen ∧ findSub needle seen.ring = some at' ∧
      e'.log = e.log ++ [.found seen.ring at'] ∧ LineGone needle seen.ring at' e'.ring

/-- The ring of the first poll that holds the needle, the needle at `at'`. -/
def FirstSeen (needle : List UInt8) (polls : ℕ) (e : Esp α) (ring : List UInt8) (at' : ℕ) : Prop :=
  ∃ i < polls, (∀ j < i, ¬ needle <:+: ((Esp.pass 10)^[j] e).ring) ∧
    ((Esp.pass 10)^[i] e).ring = ring ∧ findSub needle ring = some at'

/-! ## What the bytes dropped from the front leave -/

theorem lineSpan_le (ring : List UInt8) (at' : ℕ) : lineSpan ring at' ≤ (ring.drop at').length :=
  upThrough_le_length _ _

/-- **What follows a place of the ring survives exactly when that place is not dropped.** -/
theorem drop_suffix_drop_iff {l : List UInt8} {n j : ℕ} (hj : j < l.length) :
    l.drop j <:+ l.drop n ↔ n ≤ j := by
  constructor
  · intro h
    have hle := h.length_le
    rw [List.length_drop, List.length_drop] at hle
    omega
  · intro h
    obtain ⟨k, rfl⟩ := Nat.exists_eq_add_of_le h
    rw [← List.drop_drop]
    exact List.drop_suffix k _

/-- **The matched line is gone exactly when each occurrence of the needle in it begins among the
bytes dropped.** -/
theorem lineGone_drop_iff {needle ring : List UInt8} {at' : ℕ} :
    LineGone needle ring at' (ring.drop (lineSpan ring at')) ↔
      ∀ j, InLine needle ring at' j → j < lineSpan ring at' := by
  have hspan := lineSpan_le ring at'
  rw [List.length_drop] at hspan
  have hbehind : ring.drop (at' + lineSpan ring at') <:+ ring.drop (lineSpan ring at') := by
    rw [Nat.add_comm, ← List.drop_drop]
    exact List.drop_suffix _ _
  constructor
  · intro h j hj
    have hlt : j < ring.length := by have := hj.1; have := hj.2.1; omega
    exact Nat.lt_of_not_le fun hle => h.2 j hj ((drop_suffix_drop_iff hlt).mpr hle)
  · intro h
    refine ⟨hbehind, fun j hj hsuf => ?_⟩
    have hlt : j < ring.length := by have := hj.1; have := hj.2.1; omega
    exact absurd (h j hj) (Nat.not_lt.mpr ((drop_suffix_drop_iff hlt).mp hsuf))

/-! ## The exact condition -/

/-- The ring of the first poll that holds the needle is one ring. -/
theorem firstSeen_unique {needle : List UInt8} {polls i at' k : ℕ} {e : Esp α} {ring : List UInt8}
    (hbefore : ∀ j < i, ¬ needle <:+: ((Esp.pass 10)^[j] e).ring)
    (hat : findSub needle ((Esp.pass 10)^[i] e).ring = some at')
    (h : FirstSeen needle polls e ring k) : ((Esp.pass 10)^[i] e).ring = ring ∧ at' = k := by
  obtain ⟨i', -, hbefore', rfl, hat'⟩ := h
  have hii : i = i' := by
    refine le_antisymm (not_lt.mp fun hlt => ?_) (not_lt.mp fun hlt => ?_)
    · exact hbefore i' hlt (exists_findSub_iff.mp ⟨k, hat'⟩)
    · exact hbefore' i hlt (exists_findSub_iff.mp ⟨at', hat⟩)
  subst hii
  exact ⟨rfl, Option.some.inj (hat.symm.trans hat')⟩

/-- What the driver leaves when it finds the needle: the ring without its first bytes. -/
theorem dropLine_spec {e seen : Esp α} (hgrown : e.Grown seen) (at' : ℕ) :
    (dropLine at' seen).ring = seen.ring.drop (lineSpan seen.ring at') ∧
      (dropLine at' seen).log = e.log ++ [.found seen.ring at'] := by
  refine ⟨bytes_ringConsume _ _, ?_⟩
  rw [← hgrown.2]
  rfl

/-- A wait that treats the ring well has its line gone from the ring the needle was first seen
in. -/
theorem WaitsCleanly.lineGone {needle ring : List UInt8} {timeoutMs at' : ℕ} {e : Esp α}
    (h : WaitsCleanly needle timeoutMs e)
    (hseen : FirstSeen needle ((timeoutMs + 9) / 10) e ring at') :
    LineGone needle ring at' (ring.drop (lineSpan ring at')) := by
  rw [WaitsCleanly, atWaitFor] at h
  rcases atWaitLoop_cases needle ((timeoutMs + 9) / 10) e with
    ⟨i, k, -, hbefore, hat, heq⟩ | ⟨hnone, -⟩
  · obtain ⟨rfl, rfl⟩ := firstSeen_unique hbefore hat hseen
    obtain ⟨hleft, hlog⟩ := dropLine_spec (e.grown_iterate i) k
    rw [heq] at h
    obtain ⟨seen', at'', -, -, hlog', hgone⟩ := h.2 _ _ rfl
    -- the record says which ring was searched, so the two are one
    obtain ⟨hring, rfl⟩ : ((Esp.pass 10)^[i] e).ring = seen'.ring ∧ k = at'' := by
      simpa using hlog.symm.trans hlog'
    rwa [← hring, hleft] at hgone
  · obtain ⟨i, hi, -, rfl, hat⟩ := hseen
    exact absurd (exists_findSub_iff.mp ⟨at', hat⟩) (hnone i hi)

/-- …and one whose line is gone from there treats the ring well. -/
theorem waitsCleanly_of_lineGone {needle : List UInt8} {timeoutMs : ℕ} {e : Esp α}
    (h : ∀ ring at', FirstSeen needle ((timeoutMs + 9) / 10) e ring at' →
      LineGone needle ring at' (ring.drop (lineSpan ring at'))) :
    WaitsCleanly needle timeoutMs e := by
  rw [WaitsCleanly, atWaitFor]
  rcases atWaitLoop_cases needle ((timeoutMs + 9) / 10) e with
    ⟨i, at', hi, hbefore, hat, heq⟩ | ⟨hnone, heq⟩
  · obtain ⟨hleft, hlog⟩ := dropLine_spec (e.grown_iterate i) at'
    rw [heq]
    refine ⟨fun e' he' => absurd (congrArg Prod.fst he') (Option.some_ne_none _), ?_⟩
    rintro line e' he'
    obtain ⟨-, rfl⟩ := Prod.mk.inj he'
    refine ⟨_, at', e.grown_iterate i, hat, hlog, ?_⟩
    rw [hleft]
    exact h _ at' ⟨i, hi, hbefore, rfl, hat⟩
  · -- no poll finds the needle, and a pause removes nothing
    rw [heq]
    refine ⟨fun e' he' => ?_, fun line e' he' => ?_⟩
    · obtain ⟨-, rfl⟩ := Prod.mk.inj he'
      exact e.grown_iterate _
    · cases congrArg Prod.fst he'

/-- **A wait treats the ring as its callers rely on if and only if**, in the ring it finds its
needle in, each occurrence of the needle in the matched line begins among the first bytes, as many
as the line has from the match on. -/
theorem waitsCleanly_iff (needle : List UInt8) (timeoutMs : ℕ) (e : Esp α) :
    WaitsCleanly needle timeoutMs e ↔
      ∀ ring at', FirstSeen needle ((timeoutMs + 9) / 10) e ring at' →
        ∀ j, InLine needle ring at' j → j < lineSpan ring at' := by
  constructor
  · intro h ring at' hseen
    exact lineGone_drop_iff.mp (h.lineGone hseen)
  · intro h
    exact waitsCleanly_of_lineGone fun ring at' hseen => lineGone_drop_iff.mpr (h ring at' hseen)

/-- A report and an answer behind it. -/
def reportThenOk : Esp Unit :=
  Esp.receive (ascii "WIFI CONNECTED\r\nOK\r\n") (Esp.boot () [])

/-- The wait for `OK` drops the four bytes `WIFI`, and its answer stays in the ring. -/
theorem reportThenOk_stays : ¬ WaitsCleanly (ascii "OK") 100 reportThenOk := by
  intro h
  have hring : reportThenOk.ring = ascii "WIFI CONNECTED\r\nOK\r\n" := by decide +kernel
  have hseen : FirstSeen (ascii "OK") 10 reportThenOk (ascii "WIFI CONNECTED\r\nOK\r\n") 16 :=
    ⟨0, by decide, fun j hj => absurd hj (Nat.not_lt_zero j), hring, by decide⟩
  have hgone := lineGone_drop_iff.mp (h.lineGone hseen) 16 ⟨le_rfl, by decide, by decide⟩
  exact absurd hgone (by decide)

end GrainWarehouse

import Mathlib

/-!
# Machinery/Tiling — stretches of memory that fill a range

A stretch is an address and a size.  Stretches **tile** a range if each address of it lies in one of
them, and in one only; said with a count (`cover`), this does not depend on their order, and cutting
a stretch in two or joining two that touch changes nothing (`cover_cut`).

What follows from it: any two of them lie apart (`Tiles.apart`), their sizes add up to that of the
range (`Tiles.sum_size`), and if none of them touches another there is only one (`Tiles.single`).
-/

namespace GrainWarehouse

/-- A stretch of memory. -/
structure Stretch where
  addr : ℕ
  size : ℕ
  deriving DecidableEq

namespace Stretch

/-- The first address behind it. -/
def stop (b : Stretch) : ℕ := b.addr + b.size

/-- The address lies in the stretch. -/
def Contains (x : ℕ) (b : Stretch) : Prop := b.addr ≤ x ∧ x < b.stop

instance (x : ℕ) (b : Stretch) : Decidable (b.Contains x) := inferInstanceAs (Decidable (_ ∧ _))

/-- One of the two lies behind the other. -/
def Apart (b c : Stretch) : Prop := b.stop ≤ c.addr ∨ c.stop ≤ b.addr

theorem Apart.symm {b c : Stretch} (h : b.Apart c) : c.Apart b := Or.symm h

/-- **Each of the stretches lies behind the one before, and does not touch it.** -/
def Separated (bs : List Stretch) : Prop := bs.Pairwise fun b c => b.stop < c.addr

/-- In how many of the stretches an address lies. -/
def cover (bs : List Stretch) (x : ℕ) : ℕ := bs.countP fun b => b.Contains x

/-- **The stretches tile the addresses from `lo` to `hi`.** -/
def Tiles (lo hi : ℕ) (bs : List Stretch) : Prop :=
  ∀ x, cover bs x = if lo ≤ x ∧ x < hi then 1 else 0

/-- The sizes, added up. -/
def total (bs : List Stretch) : ℕ := (bs.map size).sum

@[simp] theorem total_nil : total [] = 0 := rfl

@[simp] theorem total_cons (b : Stretch) (bs : List Stretch) :
    total (b :: bs) = b.size + total bs := rfl

@[simp] theorem total_append (bs cs : List Stretch) : total (bs ++ cs) = total bs + total cs := by
  rw [total, List.map_append, List.sum_append, total, total]

@[simp] theorem cover_nil (x : ℕ) : cover [] x = 0 := rfl

theorem cover_cons (b : Stretch) (bs : List Stretch) (x : ℕ) :
    cover (b :: bs) x = (if b.addr ≤ x ∧ x < b.addr + b.size then 1 else 0) + cover bs x := by
  by_cases hx : b.addr ≤ x ∧ x < b.addr + b.size
  · have hcons : cover (b :: bs) x = cover bs x + 1 := List.countP_cons_of_pos (decide_eq_true hx)
    rw [hcons, if_pos hx, Nat.add_comm]
  · have hcons : cover (b :: bs) x = cover bs x := List.countP_cons_of_neg (by
      rw [decide_eq_true_eq]
      exact hx)
    rw [hcons, if_neg hx, Nat.zero_add]

/-- A stretch covers its addresses… -/
theorem cover_pos {b : Stretch} {bs : List Stretch} (hb : b ∈ bs) {x : ℕ} (hx : b.Contains x) :
    0 < cover bs x := List.countP_pos_iff.mpr ⟨b, hb, decide_eq_true hx⟩

/-- …and no others are covered. -/
theorem cover_eq_zero {bs : List Stretch} {x : ℕ} (h : ∀ b ∈ bs, x < b.addr ∨ b.stop ≤ x) :
    cover bs x = 0 := by
  refine List.countP_eq_zero.mpr fun b hb hx => ?_
  obtain ⟨hge, hlt⟩ := of_decide_eq_true hx
  rcases h b hb with hbefore | hbehind
  · omega
  · omega

@[simp] theorem cover_append (bs cs : List Stretch) (x : ℕ) :
    cover (bs ++ cs) x = cover bs x + cover cs x := List.countP_append

/-- **A stretch that is cut in two.** -/
theorem cover_cut (a s t x : ℕ) :
    cover [⟨a, s + t⟩] x = cover [⟨a, s⟩, ⟨a + s, t⟩] x := by
  simp only [cover_cons, cover_nil]
  split_ifs <;> omega

/-- Counting the addresses of each stretch, or the stretches of each address. -/
theorem sum_cover {hi : ℕ} : ∀ {bs : List Stretch}, (∀ b ∈ bs, b.stop ≤ hi) →
    ∑ x ∈ Finset.range hi, cover bs x = total bs
  | [], _ => Finset.sum_const_zero
  | b :: bs, h => by
      have hb := h b List.mem_cons_self
      rw [stop] at hb
      have hfilter : (Finset.range hi).filter (fun x => b.addr ≤ x ∧ x < b.addr + b.size) =
          Finset.Ico b.addr (b.addr + b.size) := by
        ext x
        simp only [Finset.mem_filter, Finset.mem_range, Finset.mem_Ico]
        omega
      simp only [cover_cons, Finset.sum_add_distrib]
      rw [sum_cover fun c hc => h c (List.mem_cons_of_mem b hc), Finset.sum_boole, Nat.cast_id,
        hfilter, Nat.card_Ico, Nat.add_sub_cancel_left, total_cons]

namespace Tiles

variable {lo hi : ℕ} {bs cs : List Stretch}

/-- What covers the same tiles the same. -/
theorem of_cover (h : Tiles lo hi bs) (hcover : ∀ x, cover cs x = cover bs x) : Tiles lo hi cs :=
  fun x => (hcover x).trans (h x)

theorem perm (h : Tiles lo hi bs) (hperm : cs.Perm bs) : Tiles lo hi cs :=
  h.of_cover fun _ => hperm.countP_eq _

theorem cover_le (h : Tiles lo hi bs) (x : ℕ) : cover bs x ≤ 1 := by
  rw [h x]
  split_ifs <;> decide

/-- **No two of them have an address in common.** -/
theorem apart (h : Tiles lo hi bs) :
    bs.Pairwise fun b c => 0 < b.size → 0 < c.size → b.Apart c := by
  rw [List.pairwise_iff_forall_sublist]
  intro b c hsub hb hc
  by_contra hapart
  -- the later of the two beginnings lies in both
  have hle : cover [b, c] (max b.addr c.addr) ≤ cover bs (max b.addr c.addr) :=
    hsub.countP_le
  have hone := h.cover_le (max b.addr c.addr)
  simp only [cover_cons, cover_nil] at hle
  simp only [Apart, stop, not_or] at hapart
  rw [if_pos (by omega), if_pos (by omega)] at hle
  omega

/-- Each of them lies in the range. -/
theorem within (h : Tiles lo hi bs) {b : Stretch} (hb : b ∈ bs) (hpos : 0 < b.size) :
    lo ≤ b.addr ∧ b.stop ≤ hi := by
  have hin (x : ℕ) (hx : b.Contains x) : lo ≤ x ∧ x < hi := by
    by_contra hout
    have hpos := cover_pos hb hx
    rw [h x, if_neg hout] at hpos
    exact absurd hpos (lt_irrefl 0)
  have hfirst := hin b.addr ⟨le_rfl, by rw [stop]; omega⟩
  have hlast := hin (b.stop - 1) ⟨by rw [stop]; omega, by rw [stop]; omega⟩
  exact ⟨hfirst.1, by omega⟩

/-- **Their sizes add up** to that of the range. -/
theorem sum_size (h : Tiles lo hi bs) (hpos : ∀ b ∈ bs, 0 < b.size) : total bs = hi - lo := by
  rw [← sum_cover fun b hb => (h.within hb (hpos b hb)).2]
  simp only [h _]
  rw [Finset.sum_boole, Nat.cast_id]
  have hfilter : (Finset.range hi).filter (fun x => lo ≤ x ∧ x < hi) = Finset.Ico lo hi := by
    ext x
    simp only [Finset.mem_filter, Finset.mem_range, Finset.mem_Ico]
    omega
  rw [hfilter, Nat.card_Ico]

/-- **Stretches that do not touch are one stretch**, if they tile. -/
theorem single (h : Tiles lo hi bs) (hlt : lo < hi) (hsep : Separated bs)
    (hpos : ∀ b ∈ bs, 0 < b.size) : bs = [⟨lo, hi - lo⟩] := by
  cases bs with
  | nil =>
    have hlo := h lo
    rw [if_pos ⟨le_rfl, hlt⟩] at hlo
    cases hlo
  | cons b rest =>
    obtain ⟨hbehind, hsep⟩ := List.pairwise_cons.mp hsep
    obtain ⟨hge, hle⟩ := h.within List.mem_cons_self (hpos b List.mem_cons_self)
    -- nothing can lie behind a gap
    have hrest : rest = [] := by
      rcases rest with _ | ⟨c, rest⟩
      · rfl
      have hc := h.within (List.mem_cons_of_mem b List.mem_cons_self)
        (hpos c (List.mem_cons_of_mem b List.mem_cons_self))
      have hbc := hbehind c List.mem_cons_self
      have hgap := h b.stop
      rw [stop] at hc
      have hc0 := hpos c (List.mem_cons_of_mem b List.mem_cons_self)
      rw [if_pos ⟨hge.trans (Nat.le_add_right _ _), by omega⟩, cover_eq_zero] at hgap
      · cases hgap
      · intro d hd
        rcases List.mem_cons.mp hd with rfl | hd
        · exact Or.inr le_rfl
        · exact Or.inl (hbehind d hd)
    subst hrest
    have hb := hpos b List.mem_cons_self
    have hfirst := h lo
    have hlast := h (hi - 1)
    rw [if_pos (by omega), cover_cons, cover_nil] at hfirst hlast
    obtain ⟨addr, size⟩ := b
    simp only [stop] at *
    have hlo : addr = lo := by
      by_contra hne
      rw [if_neg (by omega)] at hfirst
      cases hfirst
    have hhi : addr + size = hi := by
      by_contra hne
      rw [if_neg (by omega)] at hlast
      cases hlast
    rw [hlo, ← hhi, hlo, Nat.add_sub_cancel_left]

end Tiles

/-- **Between two stretches that do not touch there is another one.** -/
theorem length_le_of_cover {hi : ℕ} : ∀ {bs cs : List Stretch}, Separated bs →
    (∀ b ∈ bs, 0 < b.size) → (∀ x, cover (bs ++ cs) x ≤ 1) → (∀ b ∈ bs, b.stop ≤ hi) →
      (∀ b ∈ bs.head?, ∀ x, b.addr ≤ x → x < hi → 0 < cover (bs ++ cs) x) →
        bs.length ≤ cs.length + 1
  | [], _, _, _, _, _, _ => Nat.zero_le _
  | [_], _, _, _, _, _, _ => Nat.succ_le_succ (Nat.zero_le _)
  | b :: d :: bs, cs, hsep, hpos, hone, hhi, hfull => by
      obtain ⟨hbehind, hsep'⟩ := List.pairwise_cons.mp hsep
      have hbd := hbehind d List.mem_cons_self
      have hb0 := hpos b List.mem_cons_self
      have hd0 := hpos d (List.mem_cons_of_mem b List.mem_cons_self)
      have hdhi := hhi d (List.mem_cons_of_mem b List.mem_cons_self)
      have hstop : b.stop = b.addr + b.size := rfl
      have hdstop : d.stop = d.addr + d.size := rfl
      -- what lies behind `b`
      obtain ⟨u, hu, hgap⟩ : ∃ u ∈ cs, u.Contains b.stop := by
        have hcover := hfull b rfl b.stop (by omega) (by omega)
        rw [cover_append, cover_eq_zero, Nat.zero_add] at hcover
        · obtain ⟨u, hu, hx⟩ := List.countP_pos_iff.mp hcover
          exact ⟨u, hu, of_decide_eq_true hx⟩
        · intro e he
          rcases List.mem_cons.mp he with rfl | he
          · exact Or.inr le_rfl
          · exact Or.inl (hbehind e he)
      -- it ends before the next one begins
      have hbefore : u.stop ≤ d.addr := by
        by_contra hlt
        have hdd : 0 < cover (b :: d :: bs) d.addr :=
          cover_pos (List.mem_cons_of_mem b List.mem_cons_self) ⟨le_rfl, by omega⟩
        have hud : 0 < cover cs d.addr :=
          cover_pos hu ⟨hgap.1.trans hbd.le, by omega⟩
        have hle := hone d.addr
        rw [cover_append] at hle
        omega
      obtain ⟨cs₁, cs₂, rfl⟩ := List.append_of_mem hu
      have hrest (x : ℕ) : cover (b :: d :: bs ++ (cs₁ ++ u :: cs₂)) x =
          (if b.addr ≤ x ∧ x < b.addr + b.size then 1 else 0) +
            (if u.addr ≤ x ∧ x < u.addr + u.size then 1 else 0) +
            cover (d :: bs ++ (cs₁ ++ cs₂)) x := by
        simp only [cover_append, cover_cons]
        omega
      have hlen : (d :: bs).length ≤ (cs₁ ++ cs₂).length + 1 := by
        refine length_le_of_cover hsep' (fun e he => hpos e (List.mem_cons_of_mem b he))
          (fun x => (Nat.le_add_left _ _).trans ((hrest x).symm.le.trans (hone x)))
          (fun e he => hhi e (List.mem_cons_of_mem b he)) fun e he x hx hxhi => ?_
        obtain rfl : d = e := Option.some.inj he
        have hcover := hfull b rfl x (by omega) hxhi
        have hustop : u.stop = u.addr + u.size := rfl
        rw [hrest, if_neg (by omega), if_neg (by omega)] at hcover
        omega
      simp only [List.length_cons, List.length_append] at hlen ⊢
      omega

/-- **There is at most one more** of those that do not touch than of the others. -/
theorem Tiles.length_le {lo hi : ℕ} {bs cs : List Stretch} (h : Tiles lo hi (bs ++ cs))
    (hsep : Separated bs) (hpos : ∀ b ∈ bs ++ cs, 0 < b.size) : bs.length ≤ cs.length + 1 := by
  have hbs (b : Stretch) (hb : b ∈ bs) : 0 < b.size := hpos b (List.mem_append_left cs hb)
  have hin (b : Stretch) (hb : b ∈ bs) : lo ≤ b.addr ∧ b.stop ≤ hi :=
    h.within (List.mem_append_left cs hb) (hbs b hb)
  refine length_le_of_cover hsep hbs h.cover_le (fun b hb => (hin b hb).2) fun b hb x hx hxhi => ?_
  have hlo := (hin b (List.mem_of_mem_head? hb)).1
  rw [h x, if_pos ⟨hlo.trans hx, hxhi⟩]
  exact Nat.one_pos

theorem length_le_total : ∀ {bs : List Stretch}, (∀ b ∈ bs, 0 < b.size) → bs.length ≤ total bs
  | [], _ => le_rfl
  | b :: bs, h => by
      obtain ⟨hb, hbs⟩ := List.forall_mem_cons.mp h
      have hrest := length_le_total hbs
      rw [total_cons, List.length_cons]
      omega

/-- Stretches that are all smaller than `s`. -/
theorem total_lt {s : ℕ} : ∀ {bs : List Stretch}, (∀ b ∈ bs, b.size < s) →
    total bs + bs.length ≤ bs.length * s
  | [], _ => Nat.zero_le _
  | b :: bs, h => by
      obtain ⟨hb, hbs⟩ := List.forall_mem_cons.mp h
      have hrest := total_lt hbs
      rw [total_cons, List.length_cons, Nat.succ_mul]
      omega

/-- **A stretch finds its place** among stretches that lie one behind the other. -/
theorem Separated.exists_split {b : Stretch} (hb : 0 < b.size) :
    ∀ {bs : List Stretch}, Separated bs →
    (∀ c ∈ bs, 0 < c.size) → (∀ c ∈ bs, b.Apart c) →
      ∃ l r, bs = l ++ r ∧ (∀ c ∈ l, c.stop ≤ b.addr) ∧ ∀ c ∈ r, b.stop ≤ c.addr
  | [], _, _, _ => ⟨[], [], rfl, fun c hc => absurd hc List.not_mem_nil,
      fun c hc => absurd hc List.not_mem_nil⟩
  | c :: bs, hsep, hpos, hapart => by
      obtain ⟨hc, hsep⟩ := List.pairwise_cons.mp hsep
      rcases hapart c List.mem_cons_self with hbefore | hbehind
      · refine ⟨[], c :: bs, rfl, fun d hd => absurd hd List.not_mem_nil, fun d hd => ?_⟩
        rcases List.mem_cons.mp hd with rfl | hd
        · exact hbefore
        · have hlt := hc d hd
          rw [stop] at hlt
          omega
      · obtain ⟨l, r, rfl, hl, hr⟩ := Separated.exists_split hb hsep
          (fun d hd => hpos d (List.mem_cons_of_mem c hd))
          (fun d hd => hapart d (List.mem_cons_of_mem c hd))
        exact ⟨c :: l, r, rfl, List.forall_mem_cons.mpr ⟨hbehind, hl⟩, hr⟩

end Stretch

end GrainWarehouse

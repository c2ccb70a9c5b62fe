import GrainWarehouse.FreeRtos.Malloc
import GrainWarehouse.Machinery.Runs

/-!
# FreeRtos/Loans — memory on loan

The tasks ask for memory, write to what they have got, and give it back.  A `Loan` is what a task
holds, with all that it has written there; `HeapUse.next` is a step of any of them.  As long as they
give back and write to what is on loan only (`HeapAct.Fair`):

* **Loans lie apart**, in the heap, and what was written to them is still there (`loans_kept`).
* **Once nothing is on loan, the heap is one free block again** (`heap_whole`).
* **The accounts are right** (`heap_accounts`): what is free, and what has been free at least.
* **A request is served** if enough is free for one block more than there are loans
  (`malloc_served`).
-/

namespace GrainWarehouse

open Stretch

/-! ## The tasks -/

/-- Memory on loan: its address, how many bytes were asked for, and what has been written to it
since, in pieces of eight bytes. -/
structure Loan where
  addr : ℕ
  asked : UInt32
  written : ℕ → Option BlockLink

/-- The heap, what is on loan, and how many bytes have been free after each call since the first
`pvPortMalloc`. -/
structure HeapUse where
  heap : Heap
  loans : List Loan
  frees : List ℕ

/-- A step of a task. -/
inductive HeapAct
  | malloc (n : UInt32)
  | free (p : ℕ)
  /-- The holder of `p` writes its piece `k`. -/
  | write (p k : ℕ) (v : BlockLink)

/-- A piece is written. -/
def Loan.write (p k : ℕ) (v : BlockLink) (l : Loan) : Loan :=
  if l.addr = p then { l with written := Function.update l.written k (some v) } else l

/-- **What a step does.** -/
def HeapUse.next (L : HeapLayout) (s : HeapUse) : HeapAct → HeapUse
  | .malloc n =>
    let r := pvPortMalloc L n s.heap
    { heap := r.2
      loans := if r.1 = 0 then s.loans else ⟨r.1, n, fun _ => none⟩ :: s.loans
      frees := r.2.xFreeBytesRemaining :: s.frees }
  | .free p =>
    let h := vPortFree L p s.heap
    { heap := h
      loans := s.loans.eraseP fun l => l.addr = p
      frees := if h.pxEnd = 0 then s.frees else h.xFreeBytesRemaining :: s.frees }
  | .write p k v =>
    { s with
      heap := { s.heap with mem := Function.update s.heap.mem (p + 8 * k) v }
      loans := s.loans.map (Loan.write p k v) }

/-- **The tasks give back and write to what is on loan only.** -/
def HeapAct.Fair (s : HeapUse) : HeapAct → Prop
  | .malloc _ => True
  | .free p => p = 0 ∨ ∃ l ∈ s.loans, l.addr = p
  | .write p k _ => ∃ l ∈ s.loans, l.addr = p ∧ 8 * k < l.asked.toNat

instance (s : HeapUse) : (a : HeapAct) → Decidable (a.Fair s)
  | .malloc _ => inferInstanceAs (Decidable True)
  | .free p => inferInstanceAs (Decidable (p = 0 ∨ ∃ l ∈ s.loans, l.addr = p))
  | .write p k _ => inferInstanceAs (Decidable (∃ l ∈ s.loans, l.addr = p ∧ 8 * k < l.asked.toNat))

/-- Before the first call. -/
def HeapUse.start (mem : ℕ → BlockLink) : HeapUse := ⟨Heap.boot mem, [], []⟩

/-- A run of the tasks. -/
def HeapUse.run (L : HeapLayout) (mem : ℕ → BlockLink) (as : List HeapAct) : HeapUse :=
  runFrom (HeapUse.next L) (.start mem) as

/-- **A fair run.** -/
def FairRun (L : HeapLayout) (mem : ℕ → BlockLink) (as : List HeapAct) : Prop :=
  EachStep (HeapUse.next L) (fun s a => a.Fair s) (.start mem) as

instance (L : HeapLayout) (mem : ℕ → BlockLink) (as : List HeapAct) :
    Decidable (FairRun L mem as) := inferInstanceAs (Decidable (EachStep _ _ _ _))

/-- A heap that is not aligned. -/
def oddHeap : HeapLayout where
  ucHeap := 0x20000104
  xStart := 0x20010000
  pos := by decide
  below := by decide
  apart := by decide

/-- Two loans, of which the first is given back, and a smaller one takes its place. -/
def threeLoans : List HeapAct :=
  [.malloc 100, .malloc 20, .write 0x20000110 3 ⟨1, 2⟩, .write 0x20000180 1 ⟨3, 4⟩,
    .free 0x20000110, .malloc 40, .write 0x20000110 4 ⟨5, 6⟩]

/-! ## Loans and blocks -/

/-- **The block of a loan**, with what has been written. -/
structure Held (mem : ℕ → BlockLink) (l : Loan) (b : Stretch) : Prop where
  addr : l.addr = b.addr + xHeapStructSize
  size : blockSize l.asked.toNat ≤ b.size
  spare : b.size ≤ blockSize l.asked.toNat + heapMinimumBlockSize
  written : ∀ k v, l.written k = some v → 8 * k < l.asked.toNat ∧ mem (l.addr + 8 * k) = v

section Held

variable {L : HeapLayout} {mem mem' : ℕ → BlockLink} {l : Loan} {b : Stretch}
  {free used : List Stretch} {loans : List Loan}

theorem le_blockSize (n : ℕ) : n + 8 ≤ blockSize n := by
  rw [blockSize]
  omega

/-- The pieces of a loan lie in its block, behind the link. -/
theorem Held.contains (h : Held mem l b) {k : ℕ} (hk : 8 * k < l.asked.toNat) :
    b.Contains (l.addr + 8 * k) ∧ l.addr + 8 * k ≠ b.addr := by
  have hstruct : xHeapStructSize = 8 := rfl
  have hsize := (le_blockSize l.asked.toNat).trans h.size
  rw [h.addr]
  exact ⟨⟨by omega, by rw [Stretch.stop]; omega⟩, by omega⟩

/-- **What stays as it is in the block stays as it was written.** -/
theorem Held.keeps (h : Held mem l b) (heq : ∀ w, b.Contains w → mem' w = mem w) :
    Held mem' l b where
  addr := h.addr
  size := h.size
  spare := h.spare
  written := fun k v hv => by
    obtain ⟨hk, hmem⟩ := h.written k v hv
    exact ⟨hk, (heq _ (h.contains hk).1).trans hmem⟩

/-- The holders of blocks that lie apart. -/
theorem Held.addr_ne {l' : Loan} {b' : Stretch} (h : Held mem l b) (h' : Held mem l' b')
    (hapart : b.Apart b') (hb : 0 < b.size) (hb' : 0 < b'.size) : l'.addr ≠ l.addr := by
  rw [h.addr, h'.addr]
  rcases hapart with hlt | hlt
  · rw [Stretch.stop] at hlt
    omega
  · rw [Stretch.stop] at hlt
    omega

/-- Loans and their blocks, each with what is known of its block. -/
theorem forall₂_imp_mem {α β : Type*} {R S : α → β → Prop} :
    ∀ {xs : List α} {ys : List β}, List.Forall₂ R xs ys →
      (∀ x y, y ∈ ys → R x y → S x y) → List.Forall₂ S xs ys
  | _, _, .nil, _ => .nil
  | _, _, .cons h hs, himp => .cons (himp _ _ List.mem_cons_self h)
      (forall₂_imp_mem hs fun x y hy => himp x y (List.mem_cons_of_mem _ hy))

/-- …of which one is looked at. -/
theorem forall₂_split {α β : Type*} {R : α → β → Prop} : ∀ {xs₁ xs₂ : List α} {x : α} {ys : List β},
    List.Forall₂ R (xs₁ ++ x :: xs₂) ys → ∃ ys₁ y ys₂, ys = ys₁ ++ y :: ys₂ ∧
      List.Forall₂ R xs₁ ys₁ ∧ R x y ∧ List.Forall₂ R xs₂ ys₂
  | [], _, _, _, .cons h hs => ⟨[], _, _, rfl, .nil, h, hs⟩
  | _ :: _, _, _, _, .cons h hs => by
      obtain ⟨ys₁, y, ys₂, rfl, hs₁, hy, hs₂⟩ := forall₂_split hs
      exact ⟨_ :: ys₁, y, ys₂, rfl, .cons h hs₁, hy, hs₂⟩

/-- Other blocks have been changed. -/
theorem held_keeps (h : List.Forall₂ (Held mem) loans used) (hkeeps : Keeps used mem mem') :
    List.Forall₂ (Held mem') loans used :=
  forall₂_imp_mem h fun _ b hb hl => hl.keeps (hkeeps b hb)

end Held

/-! ## The invariant -/

/-- **What holds from the first `pvPortMalloc` on.** -/
structure HeapUse.Kept (L : HeapLayout) (s : HeapUse) (free used : List Stretch) : Prop where
  sound : s.heap.Sound L free used
  held : List.Forall₂ (Held s.heap.mem) s.loans used
  least : s.heap.xMinimumEverFreeBytesRemaining = s.frees.foldr min (L.last - L.first)

/-- Nothing has been asked for so far. -/
structure HeapUse.Fresh (s : HeapUse) : Prop where
  pxEnd : s.heap.pxEnd = 0
  loans : s.loans = []
  frees : s.frees = []

section Steps

variable {L : HeapLayout} {s : HeapUse} {free used : List Stretch}

/-- **Memory is asked for.** -/
theorem HeapUse.Kept.malloc (h : s.Kept L free used) (n : UInt32) :
    ∃ free' used', (s.next L (.malloc n)).Kept L free' used' := by
  by_cases hn : Refused n free
  · have hcall := pvPortMalloc_refused h.sound hn
    refine ⟨free, used, ?_, ?_, ?_⟩
    · rw [next, hcall]
      exact h.sound
    · rw [next, hcall]
      exact h.held
    · simp only [next, hcall, List.foldr_cons, ← h.least]
      exact (min_eq_right h.sound.least).symm
  · obtain ⟨b, free', haddr, hout⟩ := pvPortMalloc_handsOut h.sound hn
    have hne : (pvPortMalloc L n s.heap).1 ≠ 0 := by
      rw [haddr]
      exact Nat.succ_ne_zero _
    refine ⟨free', b :: used, hout.sound, ?_, ?_⟩
    · rw [next, if_neg hne]
      exact .cons ⟨haddr, hout.enough, hout.spare, fun k v hv => by cases hv⟩
        (held_keeps h.held hout.keeps)
    · simp only [next, List.foldr_cons, ← h.least]
      rw [hout.least, min_comm]

/-- The first call makes the heap. -/
theorem pvPortMalloc_first {h : Heap} (h0 : h.pxEnd = 0) (n : UInt32) :
    pvPortMalloc L n h = pvPortMalloc L n (prvHeapInit L h) := by
  have hend : ¬ (prvHeapInit L h).pxEnd = 0 := layout_last_ne_zero L
  simp only [pvPortMalloc, if_pos h0, if_neg hend]

theorem HeapUse.Fresh.malloc (h : s.Fresh) (n : UInt32) :
    ∃ free' used', (s.next L (.malloc n)).Kept L free' used' := by
  have hnext : s.next L (.malloc n) =
      HeapUse.next L ⟨prvHeapInit L s.heap, [], []⟩ (.malloc n) := by
    rw [next, next, pvPortMalloc_first h.pxEnd, h.loans, h.frees]
  rw [hnext]
  have hsound := sound_prvHeapInit L s.heap
  refine HeapUse.Kept.malloc ⟨hsound, .nil, ?_⟩ n
  exact hsound.remaining

/-- **Memory is given back.** -/
theorem HeapUse.Kept.giveBack {p : ℕ} (h : s.Kept L free used) (hp : ∃ l ∈ s.loans, l.addr = p) :
    ∃ free' used', (s.next L (.free p)).Kept L free' used' := by
  obtain ⟨l, hl, hlp⟩ := hp
  obtain ⟨l, l₁, l₂, -, hlp, hloans, herase⟩ :=
    List.exists_of_eraseP (p := fun l : Loan => l.addr = p) hl (decide_eq_true hlp)
  have hheld := h.held
  rw [hloans] at hheld
  obtain ⟨used₁, b, used₂, rfl, hheld₁, hb, hheld₂⟩ := forall₂_split hheld
  obtain ⟨free', hsound, hkeeps, hfree, hleast⟩ := sound_vPortFree h.sound
  rw [← hb.addr, of_decide_eq_true hlp] at hsound hkeeps hfree hleast
  refine ⟨free', used₁ ++ used₂, hsound, ?_, ?_⟩
  · rw [next, herase]
    exact held_keeps (List.rel_append hheld₁ hheld₂) hkeeps
  · have hend : ¬ (vPortFree L p s.heap).pxEnd = 0 := by
      rw [hsound.started]
      exact layout_last_ne_zero L
    simp only [next, if_neg hend, List.foldr_cons, ← h.least, hleast, hfree]
    exact (min_eq_right (h.sound.least.trans (Nat.le_add_right _ _))).symm

/-- `NULL` is given back. -/
theorem HeapUse.Kept.giveBack_null (h : s.Kept L free used) :
    ∃ free' used', (s.next L (.free 0)).Kept L free' used' := by
  have hcall : vPortFree L 0 s.heap = s.heap := if_neg (not_not.mpr rfl)
  have hend : ¬ s.heap.pxEnd = 0 := by
    rw [h.sound.started]
    exact layout_last_ne_zero L
  have hnone : s.loans.eraseP (fun l => l.addr = 0) = s.loans := by
    refine List.eraseP_of_forall_not fun l hl h0 => ?_
    obtain ⟨l₁, l₂, hloans⟩ := List.append_of_mem hl
    have hheld := h.held
    rw [hloans] at hheld
    obtain ⟨-, b, -, -, -, hb, -⟩ := forall₂_split hheld
    rw [decide_eq_true_eq, hb.addr] at h0
    cases h0
  refine ⟨free, used, ?_, ?_, ?_⟩
  · rw [next, hcall]
    exact h.sound
  · rw [next, hcall, hnone]
    exact h.held
  · simp only [next, hcall, if_neg hend, List.foldr_cons, ← h.least]
    exact (min_eq_right h.sound.least).symm

/-- **A piece of a loan is written.** -/
theorem HeapUse.Kept.write {p k : ℕ} (h : s.Kept L free used) (v : BlockLink)
    (hp : ∃ l ∈ s.loans, l.addr = p ∧ 8 * k < l.asked.toNat) :
    (s.next L (.write p k v)).Kept L free used := by
  obtain ⟨l, hl, rfl, hk⟩ := hp
  obtain ⟨l₁, l₂, hloans⟩ := List.append_of_mem hl
  have hheld := h.held
  rw [hloans] at hheld
  obtain ⟨used₁, b, used₂, rfl, hheld₁, hb, hheld₂⟩ := forall₂_split hheld
  obtain ⟨hin, hne⟩ := hb.contains hk
  have hshape := h.sound.shape.perm List.perm_middle.symm
  have hbmem : b ∈ used₁ ++ b :: used₂ := List.mem_append_right used₁ List.mem_cons_self
  have hother (c : Stretch) (hc : c ∈ used₁ ++ used₂) : c ∈ used₁ ++ b :: used₂ :=
    List.perm_middle.symm.mem_iff.mp (List.mem_cons_of_mem b hc)
  have hpos (c : Stretch) (hc : c ∈ used₁ ++ b :: used₂) : 0 < c.size :=
    (h.sound.shape.cells c (List.mem_append_right free hc)).pos
  obtain ⟨hshape', hkeeps⟩ := hshape.write (Function.update s.heap.mem (l.addr + 8 * k) v)
    fun w hw => Function.update_of_ne (fun heq => hw (by rw [heq]; exact hin)) _ _
  -- the other loans are left alone
  have hrest (x : Loan) (c : Stretch) (hc : c ∈ used₁ ++ used₂) (hx : Held s.heap.mem x c) :
      Held (Function.update s.heap.mem (l.addr + 8 * k) v) (x.write l.addr k v) c := by
    have hapart := (List.pairwise_cons.mp (List.pairwise_append.mp hshape.apart).2.1).1 c hc
    rw [Loan.write, if_neg (hb.addr_ne hx hapart (hpos b hbmem) (hpos c (hother c hc)))]
    exact hx.keeps (hkeeps c hc)
  have hthis : Held (Function.update s.heap.mem (l.addr + 8 * k) v) (l.write l.addr k v) b := by
    rw [Loan.write, if_pos rfl]
    refine ⟨hb.addr, hb.size, hb.spare, fun j u hu => ?_⟩
    dsimp only at hu ⊢
    by_cases hj : j = k
    · subst hj
      rw [Function.update_self] at hu ⊢
      exact ⟨hk, Option.some.inj hu⟩
    · rw [Function.update_of_ne hj] at hu
      rw [Function.update_of_ne (by omega)]
      exact hb.written j u hu
  refine ⟨⟨h.sound.started, h.sound.bit, hshape'.perm List.perm_middle, ?_, h.sound.remaining,
    h.sound.least⟩, ?_, h.least⟩
  · intro c hc
    have hcell : Function.update s.heap.mem (l.addr + 8 * k) v c.addr = s.heap.mem c.addr := by
      rcases List.mem_cons.mp (List.perm_middle.mem_iff.mp hc) with rfl | hc
      · exact Function.update_of_ne hne.symm _ _
      · exact hkeeps c hc c.addr (contains_addr (hpos c (hother c hc)))
    simp only [next, nextAt, sizeAt, hcell]
    exact h.sound.marked c hc
  · rw [next, hloans, List.map_append, List.map_cons]
    refine List.rel_append ?_ (.cons hthis ?_)
    · exact List.forall₂_map_left_iff.mpr (forall₂_imp_mem hheld₁ fun x c hc =>
        hrest x c (List.mem_append_left used₂ hc))
    · exact List.forall₂_map_left_iff.mpr (forall₂_imp_mem hheld₂ fun x c hc =>
        hrest x c (List.mem_append_right used₁ hc))

end Steps

/-! ## Over a whole run -/

/-- **The invariant.** -/
def HeapUse.Lawful (L : HeapLayout) (s : HeapUse) : Prop :=
  s.Fresh ∨ ∃ free used, s.Kept L free used

section Runs

variable {L : HeapLayout} {s : HeapUse} {mem : ℕ → BlockLink} {as : List HeapAct}

/-- **A fair step keeps the invariant.** -/
theorem HeapUse.Lawful.next (h : s.Lawful L) {a : HeapAct} (ha : a.Fair s) :
    (s.next L a).Lawful L := by
  rcases h with hfresh | ⟨free, used, hkept⟩
  · -- only a `malloc` can do something
    cases a with
    | malloc n => exact Or.inr (hfresh.malloc n)
    | free p =>
      rcases ha with rfl | ⟨l, hl, -⟩
      · have hcall : vPortFree L 0 s.heap = s.heap := if_neg (not_not.mpr rfl)
        refine Or.inl ⟨?_, ?_, ?_⟩
        · rw [HeapUse.next, hcall]
          exact hfresh.pxEnd
        · rw [HeapUse.next, hfresh.loans]
          rfl
        · simp only [HeapUse.next, hcall, if_pos hfresh.pxEnd]
          exact hfresh.frees
      · rw [hfresh.loans] at hl
        cases hl
    | write p k v =>
      obtain ⟨l, hl, -⟩ := ha
      rw [hfresh.loans] at hl
      cases hl
  · cases a with
    | malloc n => exact Or.inr (hkept.malloc n)
    | free p =>
      rcases ha with rfl | hp
      · exact Or.inr hkept.giveBack_null
      · exact Or.inr (hkept.giveBack hp)
    | write p k v => exact Or.inr ⟨free, used, hkept.write v ha⟩

theorem lawful_run (h : FairRun L mem as) : (HeapUse.run L mem as).Lawful L :=
  EachStep.run (fun _ _ hs ha => hs.next ha) as (Or.inl ⟨rfl, rfl, rfl⟩) h

/-- After the first `pvPortMalloc`. -/
theorem HeapUse.Lawful.kept (h : s.Lawful L) (hcalled : s.heap.pxEnd ≠ 0) :
    ∃ free used, s.Kept L free used := h.resolve_left fun hfresh => hcalled hfresh.pxEnd

/-- Loans are as their blocks are. -/
theorem pairwise_of_forall₂ {α β : Type*} {R : α → β → Prop} {S : β → β → Prop}
    {T : α → α → Prop} (hT : ∀ x y x' y', R x y → R x' y' → S y y' → T x x') :
    ∀ {xs : List α} {ys : List β}, List.Forall₂ R xs ys → ys.Pairwise S → xs.Pairwise T
  | _, _, .nil, _ => .nil
  | _, _, .cons hx hs, hys => by
      obtain ⟨hy, hys⟩ := List.pairwise_cons.mp hys
      refine List.pairwise_cons.mpr ⟨fun x' hx' => ?_, pairwise_of_forall₂ hT hs hys⟩
      obtain ⟨xs₁, xs₂, rfl⟩ := List.append_of_mem hx'
      obtain ⟨ys₁, y', ys₂, rfl, -, hR, -⟩ := forall₂_split hs
      exact hT _ _ _ _ hx hR (hy y' (List.mem_append_right ys₁ List.mem_cons_self))

/-- **Loans lie apart, and keep what is written to them.**  After every fair run each loan is
aligned and lies in the heap, each piece of it that has been written holds what was written last,
and no two loans have a byte in common. -/
theorem loans_kept (L : HeapLayout) (mem : ℕ → BlockLink) (as : List HeapAct)
    (h : FairRun L mem as) :
    (∀ l ∈ (HeapUse.run L mem as).loans, 8 ∣ l.addr ∧ L.ucHeap ≤ l.addr ∧
      l.addr + l.asked.toNat ≤ L.ucHeap + configTotalHeapSize ∧
      ∀ k v, l.written k = some v → (HeapUse.run L mem as).heap.mem (l.addr + 8 * k) = v) ∧
    (HeapUse.run L mem as).loans.Pairwise fun l l' =>
      l.addr + l.asked.toNat ≤ l'.addr ∨ l'.addr + l'.asked.toNat ≤ l.addr := by
  have hstruct : xHeapStructSize = 8 := rfl
  rcases lawful_run h with hfresh | ⟨free, used, hkept⟩
  · rw [hfresh.loans]
    exact ⟨fun l hl => absurd hl List.not_mem_nil, .nil⟩
  refine ⟨fun l hl => ?_, pairwise_of_forall₂ (fun l b l' b' hb hb' hapart => ?_) hkept.held
    (List.pairwise_append.mp hkept.sound.shape.apart).2.1⟩
  · obtain ⟨l₁, l₂, hloans⟩ := List.append_of_mem hl
    have hheld := hkept.held
    rw [hloans] at hheld
    obtain ⟨used₁, b, used₂, rfl, -, hb, -⟩ := forall₂_split hheld
    have hmem : b ∈ free ++ (used₁ ++ b :: used₂) :=
      List.mem_append_right free (List.mem_append_right used₁ List.mem_cons_self)
    obtain ⟨hge, hle⟩ := hkept.sound.shape.within hmem
    obtain ⟨-, -, hfirst, -, hlast⟩ := layout_bounds L
    have hsize := (le_blockSize l.asked.toNat).trans hb.size
    rw [Stretch.stop] at hle
    rw [hb.addr]
    refine ⟨dvd_add (hkept.sound.shape.cells b hmem).addr (dvd_refl 8), by omega, by omega,
      fun k v hv => ?_⟩
    rw [← hb.addr]
    exact (hb.written k v hv).2
  · have hsize := (le_blockSize l.asked.toNat).trans hb.size
    have hsize' := (le_blockSize l'.asked.toNat).trans hb'.size
    rw [hb.addr, hb'.addr]
    rcases hapart with hlt | hlt
    · rw [Stretch.stop] at hlt
      omega
    · rw [Stretch.stop] at hlt
      omega

theorem loans_kept_odd :
    (HeapUse.run oddHeap (fun _ => ⟨0, 0⟩) threeLoans).loans.length = 2 ∧
    (∀ l ∈ (HeapUse.run oddHeap (fun _ => ⟨0, 0⟩) threeLoans).loans,
      8 ∣ l.addr ∧ oddHeap.ucHeap ≤ l.addr ∧
      l.addr + l.asked.toNat ≤ oddHeap.ucHeap + configTotalHeapSize ∧
      ∀ k v, l.written k = some v →
        (HeapUse.run oddHeap (fun _ => ⟨0, 0⟩) threeLoans).heap.mem (l.addr + 8 * k) = v) ∧
    (HeapUse.run oddHeap (fun _ => ⟨0, 0⟩) threeLoans).loans.Pairwise fun l l' =>
      l.addr + l.asked.toNat ≤ l'.addr ∨ l'.addr + l'.asked.toNat ≤ l.addr :=
  ⟨by decide +kernel, loans_kept oddHeap (fun _ => ⟨0, 0⟩) threeLoans (by decide +kernel)⟩

/-- **The heap can be whole again.**  Whenever nothing is on loan after a fair run, the heap is one
free block, as it was in the beginning. -/
theorem heap_whole (L : HeapLayout) (mem : ℕ → BlockLink) (as : List HeapAct)
    (h : FairRun L mem as) (hcalled : (HeapUse.run L mem as).heap.pxEnd ≠ 0)
    (hnone : (HeapUse.run L mem as).loans = []) :
    nextAt (HeapUse.run L mem as).heap.mem L.xStart = L.first ∧
      sizeAt (HeapUse.run L mem as).heap.mem L.first = L.last - L.first ∧
      nextAt (HeapUse.run L mem as).heap.mem L.first = L.last ∧
      (HeapUse.run L mem as).heap.xFreeBytesRemaining = L.last - L.first := by
  obtain ⟨free, used, hkept⟩ := (lawful_run h).kept hcalled
  obtain rfl : used = [] := by
    have hheld := hkept.held
    rw [hnone] at hheld
    cases hheld
    rfl
  have hshape := hkept.sound.shape
  have htiles := hshape.tiles
  rw [List.append_nil] at htiles
  obtain rfl := htiles.single (layout_bounds L).2.2.2.1 hshape.separated
    fun b hb => (hshape.cells b (List.mem_append_left [] hb)).pos
  obtain ⟨hnext, hsize, hlast⟩ := hshape.chain
  exact ⟨hnext, hsize, hlast, hkept.sound.remaining⟩

theorem heap_whole_odd :
    nextAt (HeapUse.run oddHeap (fun _ => ⟨0, 0⟩)
        (threeLoans ++ [.free 0x20000110, .free 0x20000180])).heap.mem oddHeap.xStart =
          oddHeap.first ∧
      sizeAt (HeapUse.run oddHeap (fun _ => ⟨0, 0⟩)
        (threeLoans ++ [.free 0x20000110, .free 0x20000180])).heap.mem oddHeap.first =
          oddHeap.last - oddHeap.first ∧
      nextAt (HeapUse.run oddHeap (fun _ => ⟨0, 0⟩)
        (threeLoans ++ [.free 0x20000110, .free 0x20000180])).heap.mem oddHeap.first =
          oddHeap.last ∧
      (HeapUse.run oddHeap (fun _ => ⟨0, 0⟩)
        (threeLoans ++ [.free 0x20000110, .free 0x20000180])).heap.xFreeBytesRemaining =
          oddHeap.last - oddHeap.first :=
  heap_whole oddHeap (fun _ => ⟨0, 0⟩) (threeLoans ++ [.free 0x20000110, .free 0x20000180])
    (by decide +kernel) (by decide +kernel) (List.eq_nil_of_length_eq_zero (by decide +kernel))

/-- What a loan takes, at least. -/
def Loan.least (l : Loan) : ℕ := blockSize l.asked.toNat

theorem sum_held {loans : List Loan} {used : List Stretch}
    (h : List.Forall₂ (Held mem) loans used) :
    (loans.map Loan.least).sum ≤ total used ∧
      total used ≤ (loans.map Loan.least).sum + heapMinimumBlockSize * loans.length := by
  induction h with
  | nil => exact ⟨le_rfl, le_rfl⟩
  | cons hb _ ih =>
    have hsize := hb.size
    have hspare := hb.spare
    rw [List.map_cons, List.sum_cons, total_cons, List.length_cons, Nat.mul_succ, Loan.least]
    omega

/-- **The accounts are right.**  After every fair run the bytes that are not free are those of the
blocks on loan, each of which has at most 16 bytes more than it needs, and
`xMinimumEverFreeBytesRemaining` is the least that has been free after any call. -/
theorem heap_accounts (L : HeapLayout) (mem : ℕ → BlockLink) (as : List HeapAct)
    (h : FairRun L mem as) (hcalled : (HeapUse.run L mem as).heap.pxEnd ≠ 0) :
    ((HeapUse.run L mem as).loans.map Loan.least).sum +
        (HeapUse.run L mem as).heap.xFreeBytesRemaining ≤ L.last - L.first ∧
      L.last - L.first ≤ ((HeapUse.run L mem as).loans.map Loan.least).sum +
        heapMinimumBlockSize * (HeapUse.run L mem as).loans.length +
        (HeapUse.run L mem as).heap.xFreeBytesRemaining ∧
      (HeapUse.run L mem as).heap.xMinimumEverFreeBytesRemaining =
        (HeapUse.run L mem as).frees.foldr min (L.last - L.first) := by
  obtain ⟨free, used, hkept⟩ := (lawful_run h).kept hcalled
  have hsum := hkept.sound.shape.tiles.sum_size fun b hb => (hkept.sound.shape.cells b hb).pos
  obtain ⟨hge, hle⟩ := sum_held hkept.held
  rw [total_append, ← hkept.sound.remaining] at hsum
  exact ⟨by omega, by omega, hkept.least⟩

theorem heap_accounts_odd :
    ((HeapUse.run oddHeap (fun _ => ⟨0, 0⟩) threeLoans).loans.map Loan.least).sum +
        (HeapUse.run oddHeap (fun _ => ⟨0, 0⟩) threeLoans).heap.xFreeBytesRemaining ≤
          oddHeap.last - oddHeap.first ∧
      oddHeap.last - oddHeap.first ≤
        ((HeapUse.run oddHeap (fun _ => ⟨0, 0⟩) threeLoans).loans.map Loan.least).sum +
        heapMinimumBlockSize *
          (HeapUse.run oddHeap (fun _ => ⟨0, 0⟩) threeLoans).loans.length +
        (HeapUse.run oddHeap (fun _ => ⟨0, 0⟩) threeLoans).heap.xFreeBytesRemaining ∧
      (HeapUse.run oddHeap (fun _ => ⟨0, 0⟩) threeLoans).heap.xMinimumEverFreeBytesRemaining =
        (HeapUse.run oddHeap (fun _ => ⟨0, 0⟩) threeLoans).frees.foldr min
          (oddHeap.last - oddHeap.first) :=
  heap_accounts oddHeap (fun _ => ⟨0, 0⟩) threeLoans (by decide +kernel) (by decide +kernel)

/-- **A request is served if enough is free for one block more than there are loans.**  Free blocks
do not touch, so there is at most one more of them than of loans, and one of them is large
enough. -/
theorem malloc_served (L : HeapLayout) (mem : ℕ → BlockLink) (as : List HeapAct)
    (h : FairRun L mem as) (hcalled : (HeapUse.run L mem as).heap.pxEnd ≠ 0) (n : UInt32)
    (hn0 : n ≠ 0) (hn : n.toNat < 2 ^ 31)
    (hroom : ((HeapUse.run L mem as).loans.length + 1) * blockSize n.toNat ≤
      (HeapUse.run L mem as).heap.xFreeBytesRemaining) :
    (pvPortMalloc L n (HeapUse.run L mem as).heap).1 ≠ 0 := by
  obtain ⟨free, used, hkept⟩ := (lawful_run h).kept hcalled
  have hshape := hkept.sound.shape
  have hlen := hshape.tiles.length_le hshape.separated fun b hb => (hshape.cells b hb).pos
  rw [← hkept.held.length_eq] at hlen
  have hpos : 0 < blockSize n.toNat := by
    have hle := le_blockSize n.toNat
    omega
  have hserved : ¬ Refused n free := by
    rintro (h0 | hbig | hsmall)
    · exact hn0 (UInt32.toNat_inj.mp h0)
    · omega
    · -- all free blocks together are smaller than what is free
      have htotal := total_lt hsmall
      rw [← hkept.sound.remaining] at htotal
      have hmul := Nat.mul_le_mul_right (blockSize n.toNat) hlen
      have hsome : blockSize n.toNat ≤
          ((HeapUse.run L mem as).loans.length + 1) * blockSize n.toNat :=
        Nat.le_mul_of_pos_left _ (Nat.succ_pos _)
      have hnone : free.length = 0 := by omega
      rw [hnone, Nat.zero_mul] at htotal
      omega
  obtain ⟨b, free', haddr, -⟩ := pvPortMalloc_handsOut hkept.sound hserved
  rw [haddr]
  exact Nat.succ_ne_zero _

theorem malloc_served_odd :
    (pvPortMalloc oddHeap 20000 (HeapUse.run oddHeap (fun _ => ⟨0, 0⟩) threeLoans).heap).1 ≠ 0 :=
  malloc_served oddHeap (fun _ => ⟨0, 0⟩) threeLoans (by decide +kernel) (by decide +kernel) 20000
    (by decide) (by decide) (by decide +kernel)

end Runs

end GrainWarehouse

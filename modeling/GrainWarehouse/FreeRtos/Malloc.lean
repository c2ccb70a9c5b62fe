import GrainWarehouse.FreeRtos.Heap

/-!
# FreeRtos/Malloc — the invariant of the heap

`HeapShape` says that the blocks tile the heap and that the memory links the free ones.  A block is
taken out of the list (`HeapShape.unlink`), cut (`HeapShape.cut`), written to (`HeapShape.write`)
and put back (`HeapShape.insert`), and what is outside it stays as it is (`Keeps`).

`pvPortMalloc` and `vPortFree` are made up of these steps, and keep the invariant `Heap.Sound`: a
call hands out a block if there is one (`pvPortMalloc_handsOut`), or changes nothing
(`pvPortMalloc_refused`); a block comes back to the list (`sound_vPortFree`).
-/

namespace GrainWarehouse

open Stretch

/-! ## The place of the heap -/

section Layout

variable (L : HeapLayout)

theorem alignDown_spec (x : ℕ) : 8 ∣ alignDown x ∧ alignDown x ≤ x ∧ x < alignDown x + 8 := by
  rw [alignDown]
  omega

/-- The bounds of the heap. -/
theorem layout_bounds : 8 ∣ L.first ∧ 8 ∣ L.last ∧ L.ucHeap ≤ L.first ∧ L.first < L.last ∧
    L.last + 8 ≤ L.ucHeap + configTotalHeapSize := by
  obtain ⟨hdvd, hle, hlt⟩ := alignDown_spec (L.ucHeap + 7)
  have htotal : configTotalHeapSize = 61440 := rfl
  have hfirst : 8 ∣ L.first ∧ L.ucHeap ≤ L.first ∧ L.first < L.ucHeap + 8 := by
    rw [HeapLayout.first]
    split_ifs with h
    · exact ⟨hdvd, by omega, by omega⟩
    · exact ⟨by omega, by omega, by omega⟩
  obtain ⟨hdvd', hle', hlt'⟩ := alignDown_spec
    (L.first + (configTotalHeapSize - (L.first - L.ucHeap)) - xHeapStructSize)
  have hlast : L.last =
      alignDown (L.first + (configTotalHeapSize - (L.first - L.ucHeap)) - xHeapStructSize) := rfl
  have hstruct : xHeapStructSize = 8 := rfl
  rw [← hlast] at hdvd' hle' hlt'
  exact ⟨hfirst.1, hdvd', hfirst.2.1, by omega, by omega⟩

theorem layout_pos : 0 < L.first := L.pos.trans_le (layout_bounds L).2.2.1

theorem layout_last_ne_zero : L.last ≠ 0 := ((layout_pos L).trans (layout_bounds L).2.2.2.1).ne'

/-- `xStart` is not in the heap. -/
theorem xStart_ne {w : ℕ} (hge : L.first ≤ w) (hle : w ≤ L.last) : w ≠ L.xStart := by
  obtain ⟨-, -, hfirst, -, hlast⟩ := layout_bounds L
  have hstruct : xHeapStructSize = 8 := rfl
  rcases L.apart with h | h
  · omega
  · omega

end Layout

/-! ## Blocks and their list -/

theorem contains_addr {b : Stretch} (hpos : 0 < b.size) : b.Contains b.addr :=
  ⟨le_rfl, Nat.lt_add_of_pos_right hpos⟩

/-- What is in these blocks stays as it is. -/
def Keeps (cs : List Stretch) (mem mem' : ℕ → BlockLink) : Prop :=
  ∀ c ∈ cs, ∀ w, c.Contains w → mem' w = mem w

theorem Keeps.trans {cs : List Stretch} {mem mem' mem'' : ℕ → BlockLink} (h : Keeps cs mem mem')
    (h' : Keeps cs mem' mem'') : Keeps cs mem mem'' :=
  fun c hc w hw => (h' c hc w hw).trans (h c hc w hw)

/-- **The blocks tile the heap, and the memory links the free ones.** -/
structure HeapShape (L : HeapLayout) (mem : ℕ → BlockLink) (free others : List Stretch) : Prop
    where
  chain : Chain (nextAt mem) (sizeAt mem) L.last L.xStart free
  start : sizeAt mem L.xStart = 0
  stop : nextAt mem L.last = 0
  separated : Separated free
  tiles : Tiles L.first L.last (free ++ others)
  cells : ∀ b ∈ free ++ others, InPieces b

namespace HeapShape

variable {L : HeapLayout} {mem mem' : ℕ → BlockLink} {free others : List Stretch} {b : Stretch}

theorem perm {others' : List Stretch} (h : HeapShape L mem free others)
    (hperm : others'.Perm others) : HeapShape L mem free others' where
  chain := h.chain
  start := h.start
  stop := h.stop
  separated := h.separated
  tiles := h.tiles.perm (hperm.append_left free)
  cells := fun b hb => h.cells b ((hperm.append_left free).mem_iff.mp hb)

/-- A block lies in the heap. -/
theorem within (h : HeapShape L mem free others) (hb : b ∈ free ++ others) :
    L.first ≤ b.addr ∧ b.stop ≤ L.last := h.tiles.within hb (h.cells b hb).pos

theorem addr_lt (h : HeapShape L mem free others) (hb : b ∈ free ++ others) :
    L.first ≤ b.addr ∧ b.addr < L.last := by
  obtain ⟨hge, hle⟩ := h.within hb
  have hpos := (h.cells b hb).pos
  rw [Stretch.stop] at hle
  exact ⟨hge, by omega⟩

theorem addr_ne_xStart (h : HeapShape L mem free others) (hb : b ∈ free ++ others) :
    b.addr ≠ L.xStart := xStart_ne L (h.addr_lt hb).1 (h.addr_lt hb).2.le

/-- What lies in a block is not `xStart`. -/
theorem ne_xStart (h : HeapShape L mem free others) (hb : b ∈ free ++ others) {w : ℕ}
    (hw : b.Contains w) : w ≠ L.xStart := by
  obtain ⟨hge, hle⟩ := h.within hb
  obtain ⟨hge', hlt⟩ := hw
  exact xStart_ne L (by omega) (by omega)

/-- The blocks lie apart. -/
theorem apart (h : HeapShape L mem free others) : (free ++ others).Pairwise Apart :=
  h.tiles.apart.imp_of_mem fun {b c} hb hc hbc => hbc (h.cells b hb).pos (h.cells c hc).pos

theorem apart_of_mem (h : HeapShape L mem free others) {c : Stretch} (hb : b ∈ free)
    (hc : c ∈ others) : b.Apart c := (List.pairwise_append.mp h.apart).2.2 b hb c hc

/-- The place of a block is that of no other one. -/
theorem addr_ne {c : Stretch} {w : ℕ} (hapart : b.Apart c) (hpos : 0 < b.size)
    (hw : c.Contains w) : w ≠ b.addr := by
  rintro rfl
  obtain ⟨hge, hlt⟩ := hw
  rcases hapart with h | h
  · rw [Stretch.stop] at h
    omega
  · omega

/-- There are fewer blocks than bytes. -/
theorem length_lt (h : HeapShape L mem free others) : free.length < configTotalHeapSize := by
  have hsum := h.tiles.sum_size fun b hb => (h.cells b hb).pos
  have hfree := length_le_total fun b hb => (h.cells b (List.mem_append_left others hb)).pos
  obtain ⟨-, -, hfirst, hlt, hlast⟩ := layout_bounds L
  rw [total_append] at hsum
  omega

variable (mem') in
/-- **Writing to a block that is not free.** -/
theorem write (h : HeapShape L mem free (b :: others))
    (heq : ∀ w, ¬ b.Contains w → mem' w = mem w) :
    HeapShape L mem' free (b :: others) ∧ Keeps others mem mem' := by
  have hmem : b ∈ free ++ b :: others := List.mem_append_right free List.mem_cons_self
  have hin := h.within hmem
  have hpos := (h.cells b hmem).pos
  have hout {w : ℕ} (hw : w < L.first ∨ L.last ≤ w ∨ ∃ c ∈ free, w = c.addr) : mem' w = mem w := by
    refine heq w fun hcontains => ?_
    obtain ⟨hge, hlt⟩ := hcontains
    rcases hw with hw | hw | ⟨c, hc, rfl⟩
    · omega
    · omega
    · exact addr_ne (h.apart_of_mem hc List.mem_cons_self)
        (h.cells c (List.mem_append_left _ hc)).pos ⟨hge, hlt⟩ rfl
  have hstart : mem' L.xStart = mem L.xStart := by
    refine heq _ fun hcontains => ?_
    obtain ⟨hge, hlt⟩ := hcontains
    exact xStart_ne L (by omega) (by omega) rfl
  refine ⟨⟨h.chain.congr ?_ fun c hc => ?_, ?_, ?_, h.separated, h.tiles, h.cells⟩,
    fun c hc w hw => heq w fun hb => ?_⟩
  · rw [nextAt, hstart, nextAt]
  · rw [nextAt, sizeAt, hout (Or.inr (Or.inr ⟨c, hc, rfl⟩))]
    exact ⟨rfl, rfl⟩
  · rw [sizeAt, hstart]
    exact h.start
  · rw [nextAt, hout (Or.inr (Or.inl le_rfl))]
    exact h.stop
  · have hbc := (List.pairwise_cons.mp (List.pairwise_append.mp h.apart).2.1).1 c hc
    obtain ⟨hge, hlt⟩ := hb
    obtain ⟨hge', hlt'⟩ := hw
    rcases hbc with hbc | hbc
    · omega
    · omega

/-- **A free block is taken out of the list.** -/
theorem unlink {l r : List Stretch} (h : HeapShape L mem (l ++ b :: r) others) :
    HeapShape L (setNext (lastAddr L.xStart l) (nextAt mem b.addr) mem) (l ++ r) (b :: others) ∧
      Keeps (b :: others) mem (setNext (lastAddr L.xStart l) (nextAt mem b.addr) mem) := by
  obtain ⟨hchainl, hnext, -, hchainr⟩ := Chain.append.mp h.chain
  obtain ⟨hsepl, hsepr, hseplr⟩ := List.pairwise_append.mp h.separated
  have hl (d : Stretch) (hd : d ∈ l) : d ∈ l ++ b :: r ++ others :=
    List.mem_append_left others (List.mem_append_left _ hd)
  have hb : b ∈ l ++ b :: r ++ others :=
    List.mem_append_left others (List.mem_append_right l List.mem_cons_self)
  have hperm : (l ++ r ++ b :: others).Perm (l ++ b :: r ++ others) :=
    List.perm_middle.trans (List.perm_middle.symm.append_right others)
  have hcase : lastAddr L.xStart l = L.xStart ∨ ∃ d ∈ l, lastAddr L.xStart l = d.addr :=
    lastAddr_eq L.xStart l
  have hnodup : (L.xStart :: l.map addr).Nodup := by
    refine List.nodup_cons.mpr ⟨fun hmem => ?_, nodup_addr hsepl⟩
    obtain ⟨d, hd, heq⟩ := List.mem_map.mp hmem
    exact h.addr_ne_xStart (hl d hd) heq
  generalize hit : lastAddr L.xStart l = it at hnext hcase
  refine ⟨⟨?_, ?_, ?_, ?_, h.tiles.perm hperm, fun c hc => h.cells c (hperm.mem_iff.mp hc)⟩,
    fun c hc w hw => setNext_of_ne _ _ ?_⟩
  · refine Chain.append.mpr ⟨hchainl.relink hnodup ?_ (fun q _ hq => ?_) fun c _ => ?_,
      hchainr.congr ?_ fun c hc => ?_⟩
    · rw [hit, nextAt_setNext, if_pos rfl]
      exact hchainr.next_eq
    · rw [hit] at hq
      rw [nextAt_setNext, if_neg hq]
    · exact sizeAt_setNext _ _ _ _
    · rw [hit, nextAt_setNext, if_pos rfl]
    · have hne : c.addr ≠ it := by
        rcases hcase with rfl | ⟨d, hd, rfl⟩
        · exact h.addr_ne_xStart
            (List.mem_append_left others (List.mem_append_right l (List.mem_cons_of_mem b hc)))
        · have hdc := hseplr d hd c (List.mem_cons_of_mem b hc)
          rw [Stretch.stop] at hdc
          omega
      rw [nextAt_setNext, if_neg hne, sizeAt_setNext]
      exact ⟨rfl, rfl⟩
  · rw [sizeAt_setNext]
    exact h.start
  · have hne : L.last ≠ it := by
      rcases hcase with rfl | ⟨d, hd, rfl⟩
      · exact xStart_ne L (layout_bounds L).2.2.2.1.le le_rfl
      · exact (h.addr_lt (hl d hd)).2.ne'
    rw [nextAt_setNext, if_neg hne]
    exact h.stop
  · exact List.pairwise_append.mpr ⟨hsepl, (List.pairwise_cons.mp hsepr).2,
      fun d hd c hc => hseplr d hd c (List.mem_cons_of_mem b hc)⟩
  · have hc' : c ∈ l ++ b :: r ++ others := hperm.mem_iff.mp (List.mem_append_right _ hc)
    rcases hcase with rfl | ⟨d, hd, rfl⟩
    · exact h.ne_xStart hc' hw
    · refine addr_ne ?_ (h.cells d (hl d hd)).pos hw
      rcases List.mem_cons.mp hc with rfl | hc
      · exact Or.inl (hseplr d hd c List.mem_cons_self).le
      · exact h.apart_of_mem (List.mem_append_left _ hd) hc

/-- A block is cut in two. -/
theorem cut {a s t : ℕ} (h : HeapShape L mem free (⟨a, s + t⟩ :: others)) (hs : 8 ∣ s) (hs0 : 0 < s)
    (ht0 : 0 < t) : HeapShape L mem free (⟨a + s, t⟩ :: ⟨a, s⟩ :: others) where
  chain := h.chain
  start := h.start
  stop := h.stop
  separated := h.separated
  tiles := h.tiles.of_cover fun x => by
    have hcut := cover_cut a s t x
    simp only [cover_append, cover_cons, cover_nil] at hcut ⊢
    omega
  cells := by
    have hcells := h.cells ⟨a, s + t⟩ (List.mem_append_right free List.mem_cons_self)
    have ht : 8 ∣ t := (Nat.dvd_add_right hs).mp hcells.size
    intro b hb
    rcases List.mem_append.mp hb with hb | hb
    · exact h.cells b (List.mem_append_left _ hb)
    rcases List.mem_cons.mp hb with rfl | hb
    · exact ⟨dvd_add hcells.addr hs, ht, ht0⟩
    rcases List.mem_cons.mp hb with rfl | hb
    · exact ⟨hcells.addr, hs, hs0⟩
    · exact h.cells b (List.mem_append_right free (List.mem_cons_of_mem _ hb))

/-- **A block is put into the list.** -/
theorem insert (h : HeapShape L mem free (b :: others)) (hb : sizeAt mem b.addr = b.size) :
    ∃ free', HeapShape L (prvInsertBlockIntoFreeList L L.last b.addr mem) free' others ∧
      total free' = b.size + total free ∧
      Keeps others mem (prvInsertBlockIntoFreeList L L.last b.addr mem) := by
  have hmem : b ∈ free ++ b :: others := List.mem_append_right free List.mem_cons_self
  have hall (c : Stretch) (hc : c ∈ b :: free) : c ∈ free ++ b :: others := by
    rcases List.mem_cons.mp hc with rfl | hc
    · exact hmem
    · exact List.mem_append_left _ hc
  obtain ⟨free', hchain, hreg, hstart, hframe⟩ := insert_spec h.chain hb h.start
    (fun c hc => h.cells c (hall c hc)) h.separated
    (fun c hc => (h.apart_of_mem hc List.mem_cons_self).symm) (fun c hc => (h.within (hall c hc)).2)
    (fun c hc => h.addr_ne_xStart (hall c hc)) h.length_lt
  refine ⟨free', ⟨hchain, hstart.trans h.start, ?_, hreg.separated, ?_, ?_⟩, hreg.total,
    fun c hc w hw => hframe w ?_ fun d hd => ?_⟩
  · rw [nextAt, hframe L.last (xStart_ne L (layout_bounds L).2.2.2.1.le le_rfl)
      fun c hc => (h.addr_lt (hall c hc)).2.ne']
    exact h.stop
  · refine h.tiles.of_cover fun x => ?_
    have hcover := hreg.cover x
    simp only [cover_append, cover_cons] at hcover ⊢
    omega
  · intro c hc
    rcases List.mem_append.mp hc with hc | hc
    · exact hreg.cells c hc
    · exact h.cells c (List.mem_append_right free (List.mem_cons_of_mem b hc))
  · exact h.ne_xStart (List.mem_append_right free (List.mem_cons_of_mem b hc)) hw
  · refine addr_ne ?_ (h.cells d (hall d hd)).pos hw
    rcases List.mem_cons.mp hd with rfl | hd
    · exact (List.pairwise_cons.mp (List.pairwise_append.mp h.apart).2.1).1 c hc
    · exact h.apart_of_mem hd (List.mem_cons_of_mem b hc)

end HeapShape

/-! ## The size of a block -/

theorem toNat_and_seven (x : UInt32) : (x &&& 7).toNat = x.toNat % 8 := by
  rw [UInt32.toNat_and]
  exact Nat.and_two_pow_sub_one_eq_mod x.toNat 3

/-- **The size is rounded up**, with eight bytes for the link.  A size without the highest bit does
not wrap. -/
theorem toNat_wantedSize {x : UInt32} (hx : x.toNat < 2 ^ 31) :
    (wantedSize x).toNat = if x.toNat = 0 then 0 else (x.toNat + 15) / 8 * 8 := by
  have h8 : (8 : UInt32).toNat = 8 := rfl
  have hsum : (x + 8).toNat = x.toNat + 8 := by
    rw [UInt32.toNat_add, h8, Nat.mod_eq_of_lt (by omega)]
  have hpos : x > 0 ↔ x.toNat ≠ 0 := by
    rw [gt_iff_lt, UInt32.lt_iff_toNat_lt]
    exact Nat.pos_iff_ne_zero
  have hgrows : x + 8 > x := by
    rw [gt_iff_lt, UInt32.lt_iff_toNat_lt, hsum]
    omega
  have hand := toNat_and_seven (x + 8)
  rw [hsum] at hand
  have hfill : (8 - ((x + 8) &&& 7)).toNat = 8 - (x.toNat + 8) % 8 := by
    rw [UInt32.toNat_sub_of_le, h8, hand]
    rw [UInt32.le_iff_toNat_le, h8, hand]
    omega
  have hsum' : (x + 8 + (8 - ((x + 8) &&& 7))).toNat = x.toNat + 8 + (8 - (x.toNat + 8) % 8) := by
    rw [UInt32.toNat_add, hsum, hfill, Nat.mod_eq_of_lt (by omega)]
  have hgrows' : x + 8 + (8 - ((x + 8) &&& 7)) > x + 8 := by
    rw [gt_iff_lt, UInt32.lt_iff_toNat_lt, hsum, hsum']
    omega
  have haligned : ((x + 8) &&& 7 ≠ 0) ↔ (x.toNat + 8) % 8 ≠ 0 := by
    rw [ne_eq, ← UInt32.toNat_inj, hand]
    rfl
  simp only [wantedSize, hpos, hgrows, hgrows', haligned, and_true, if_true]
  by_cases h₀ : x.toNat = 0
  · rw [if_neg (not_not.mpr h₀), if_pos h₀]
    rfl
  rw [if_pos h₀, if_neg h₀]
  split_ifs with h₁
  · rw [hsum']
    omega
  · rw [hsum]
    omega

/-- The highest bit of a number of 32 bits. -/
theorem and_allocatedBit {x : ℕ} (hx : x < 2 ^ 32) : x &&& 2 ^ 31 = 0 ↔ x < 2 ^ 31 := by
  rw [Nat.and_two_pow, Nat.testBit_eq_decide_div_mod_eq]
  by_cases h : x / 2 ^ 31 % 2 = 1
  · simp only [h, decide_true, Bool.toNat_true]
    omega
  · simp only [h, decide_false, Bool.toNat_false]
    omega

/-! ## The invariant -/

/-- The blocks that are handed out carry the mark. -/
def Marked (mem : ℕ → BlockLink) (used : List Stretch) : Prop :=
  ∀ b ∈ used, nextAt mem b.addr = 0 ∧ sizeAt mem b.addr = b.size + 2 ^ 31

theorem Marked.keeps {mem mem' : ℕ → BlockLink} {used : List Stretch} (h : Marked mem used)
    (hpos : ∀ b ∈ used, 0 < b.size) (hkeeps : Keeps used mem mem') : Marked mem' used := by
  intro b hb
  have heq := hkeeps b hb b.addr (contains_addr (hpos b hb))
  rw [nextAt, sizeAt, heq]
  exact h b hb

/-- **The invariant of the heap**, between two calls. -/
structure Heap.Sound (L : HeapLayout) (h : Heap) (free used : List Stretch) : Prop where
  started : h.pxEnd = L.last
  bit : h.xBlockAllocatedBit = 2 ^ 31
  shape : HeapShape L h.mem free used
  marked : Marked h.mem used
  remaining : h.xFreeBytesRemaining = total free
  least : h.xMinimumEverFreeBytesRemaining ≤ h.xFreeBytesRemaining

/-- The block of the whole heap. -/
def HeapLayout.whole (L : HeapLayout) : Stretch := ⟨L.first, L.last - L.first⟩

/-- **After `prvHeapInit` there is one block**, and it is free. -/
theorem sound_prvHeapInit (L : HeapLayout) (h : Heap) :
    (prvHeapInit L h).Sound L [L.whole] [] := by
  obtain ⟨hfirst, hlast, -, hlt, -⟩ := layout_bounds L
  have hstart₁ : L.first ≠ L.xStart := xStart_ne L le_rfl hlt.le
  have hstart₂ : L.last ≠ L.xStart := xStart_ne L hlt.le le_rfl
  refine ⟨rfl, rfl,
    ⟨⟨?_, ?_, ?_⟩, ?_, ?_, List.pairwise_singleton _ _, fun x => ?_, fun b hb => ?_⟩,
    fun b hb => absurd hb List.not_mem_nil, ?_, le_rfl⟩
  · simp [prvHeapInit, hstart₁.symm, hstart₂.symm, HeapLayout.whole]
  · simp [prvHeapInit, HeapLayout.whole]
  · simp [prvHeapInit, HeapLayout.whole, Chain]
  · simp [prvHeapInit, hstart₁.symm, hstart₂.symm]
  · simp [prvHeapInit, hlt.ne']
  · rw [List.append_nil, cover_cons, cover_nil, HeapLayout.whole, Nat.add_zero]
    congr 1
    simp only [eq_iff_iff]
    omega
  · rw [List.append_nil, List.mem_singleton] at hb
    subst hb
    exact ⟨hfirst, Nat.dvd_sub hlast hfirst, Nat.sub_pos_of_lt hlt⟩
  · simp [prvHeapInit, HeapLayout.whole]

/-! ## Handing out a block -/

/-- The size of a block for `n` bytes: a link and the bytes, rounded up. -/
def blockSize (n : ℕ) : ℕ := (n + 15) / 8 * 8

/-- **No block can be handed out**: nothing is asked for, or too much, or more than there is in any
free block. -/
def Refused (n : UInt32) (free : List Stretch) : Prop :=
  n.toNat = 0 ∨ 2 ^ 31 ≤ n.toNat ∨ ∀ b ∈ free, b.size < blockSize n.toNat

/-- **What a call that succeeds has done**: the first free block that is large enough has become
this block, and what was left of it is free. -/
structure HandedOut (L : HeapLayout) (n : UInt32) (h h' : Heap) (free used free' : List Stretch)
    (b : Stretch) : Prop where
  first : (free.find? fun c => blockSize n.toNat ≤ c.size).map addr = some b.addr
  enough : blockSize n.toNat ≤ b.size
  spare : b.size ≤ blockSize n.toNat + heapMinimumBlockSize
  sound : h'.Sound L free' (b :: used)
  keeps : Keeps used h.mem h'.mem
  least : h'.xMinimumEverFreeBytesRemaining =
    min h.xMinimumEverFreeBytesRemaining h'.xFreeBytesRemaining

section Calls

variable {L : HeapLayout} {mem : ℕ → BlockLink} {free used : List Stretch} {b c : Stretch}
  {h : Heap} {n : UInt32} {wanted : ℕ}

theorem HeapShape.size_lt (h : HeapShape L mem free used) (hb : b ∈ free ++ used) :
    b.size < 2 ^ 31 := by
  obtain ⟨hge, hle⟩ := h.within hb
  obtain ⟨-, -, hfirst, -, hlast⟩ := layout_bounds L
  have htotal : configTotalHeapSize = 61440 := rfl
  rw [Stretch.stop] at hle
  omega

/-- **The block is marked.** -/
theorem HeapShape.mark (h : HeapShape L mem free (b :: used)) (hsize : sizeAt mem b.addr = b.size)
    (hm : Marked mem used) :
    HeapShape L (setNext b.addr 0 (setSize b.addr (sizeAt mem b.addr ||| 2 ^ 31) mem)) free
        (b :: used) ∧
      Marked (setNext b.addr 0 (setSize b.addr (sizeAt mem b.addr ||| 2 ^ 31) mem)) (b :: used) ∧
      Keeps used mem (setNext b.addr 0 (setSize b.addr (sizeAt mem b.addr ||| 2 ^ 31) mem)) := by
  have hb : b ∈ free ++ b :: used := List.mem_append_right free List.mem_cons_self
  have hor : b.size ||| 2 ^ 31 = b.size + 2 ^ 31 := by
    rw [Nat.or_comm, Nat.add_comm]
    have hmul := Nat.two_pow_add_eq_or_of_lt (h.size_lt hb) 1
    rw [Nat.mul_one] at hmul
    exact hmul.symm
  obtain ⟨hshape, hkeeps⟩ := h.write
    (setNext b.addr 0 (setSize b.addr (sizeAt mem b.addr ||| 2 ^ 31) mem)) fun w hw => by
      have hne : w ≠ b.addr := fun heq => hw (heq ▸ contains_addr (h.cells b hb).pos)
      rw [setNext_of_ne _ _ hne, setSize_of_ne _ _ hne]
  refine ⟨hshape, fun d hd => ?_, hkeeps⟩
  rcases List.mem_cons.mp hd with rfl | hd
  · rw [nextAt_setNext, if_pos rfl, sizeAt_setNext, sizeAt_setSize, if_pos rfl, hsize, hor]
    exact ⟨rfl, rfl⟩
  · exact hm.keeps (fun e he => (h.cells e
      (List.mem_append_right free (List.mem_cons_of_mem b he))).pos) hkeeps d hd

/-- **What is not needed of a block is cut off**, and goes back to the list. -/
theorem HeapShape.carve (h : HeapShape L mem free (c :: used)) (hsize : sizeAt mem c.addr = c.size)
    (hfit : wanted ≤ c.size) (hdvd : 8 ∣ wanted) (hpos : 0 < wanted) :
    ∃ mem' b free',
      mem' = (if sizeAt mem c.addr - wanted > heapMinimumBlockSize then
        prvInsertBlockIntoFreeList L L.last (c.addr + wanted)
          (setSize c.addr wanted (setSize (c.addr + wanted) (sizeAt mem c.addr - wanted) mem))
        else mem) ∧
      b.addr = c.addr ∧ wanted ≤ b.size ∧ b.size ≤ wanted + heapMinimumBlockSize ∧
      b.size + total free' = c.size + total free ∧ HeapShape L mem' free' (b :: used) ∧
      sizeAt mem' b.addr = b.size ∧ Keeps used mem mem' := by
  have hmin : heapMinimumBlockSize = 16 := rfl
  rw [hsize]
  by_cases hbig : c.size - wanted > heapMinimumBlockSize
  · rw [if_pos hbig]
    obtain ⟨a, s⟩ := c
    obtain ⟨t, rfl⟩ : ∃ t, s = wanted + t := Nat.exists_eq_add_of_le hfit
    dsimp only at hsize hbig ⊢
    rw [Nat.add_sub_cancel_left] at hbig ⊢
    have ht : 0 < t := by omega
    obtain ⟨hwrite, hk⟩ := h.write
      (setSize a wanted (setSize (a + wanted) t mem)) fun w hw => by
        have hne : w ≠ a := fun heq => hw (heq ▸ contains_addr (Nat.add_pos_left hpos t))
        have hne' : w ≠ a + wanted := fun heq => hw
          ⟨by rw [heq]; exact Nat.le_add_right _ _, by rw [heq, Stretch.stop]; dsimp only; omega⟩
        rw [setSize_of_ne _ _ hne, setSize_of_ne _ _ hne']
    obtain ⟨free', hshape, htotal, hkeeps⟩ := (hwrite.cut hdvd hpos ht).insert <| by
      rw [sizeAt_setSize, if_neg (Nat.lt_add_of_pos_right hpos).ne', sizeAt_setSize, if_pos rfl]
    refine ⟨_, ⟨a, wanted⟩, free', rfl, rfl, le_rfl, Nat.le_add_right _ _, ?_, hshape, ?_,
      hk.trans fun d hd => hkeeps d (List.mem_cons_of_mem _ hd)⟩
    · dsimp only at htotal ⊢
      omega
    · have heq := hkeeps ⟨a, wanted⟩ List.mem_cons_self a (contains_addr hpos)
      rw [sizeAt, heq, ← sizeAt, sizeAt_setSize, if_pos rfl]
  · rw [if_neg hbig]
    exact ⟨mem, c, free, rfl, rfl, hfit, by omega, rfl, h, hsize, fun _ _ _ _ => rfl⟩

/-- The places of the free blocks are addresses. -/
theorem Heap.Sound.addr_ne_zero (hs : h.Sound L free used) (hb : b ∈ free) : b.addr ≠ 0 :=
  ((layout_pos L).trans_le (hs.shape.addr_lt (List.mem_append_left used hb)).1).ne'

theorem toNat_wantedSize_eq (hn0 : ¬ n.toNat = 0) (hn31 : n.toNat < 2 ^ 31) :
    (wantedSize n).toNat = blockSize n.toNat := by
  rw [toNat_wantedSize hn31, if_neg hn0, blockSize]

/-- **The walk ends at the first block that is large enough.** -/
theorem Heap.Sound.finds (hs : h.Sound L free used) (hfit : ∃ d ∈ free, wanted ≤ d.size) :
    ∃ l c r, free = l ++ c :: r ∧ (free.find? fun d => wanted ≤ d.size) = some c ∧
      wanted ≤ c.size ∧
      loop (fitStep (nextAt h.mem) (sizeAt h.mem) wanted) configTotalHeapSize
        (L.xStart, nextAt h.mem L.xStart) = (lastAddr L.xStart l, c.addr) := by
  obtain ⟨d, hd, hdsize⟩ := hfit
  have hsome : (free.find? fun d => wanted ≤ d.size).isSome :=
    List.find?_isSome.mpr ⟨d, hd, decide_eq_true hdsize⟩
  obtain ⟨c, hfind⟩ := Option.isSome_iff_exists.mp hsome
  obtain ⟨hc, l, r, rfl, hl⟩ := List.find?_eq_some_iff_append.mp hfind
  have hc : wanted ≤ c.size := of_decide_eq_true hc
  have hsmall (e : Stretch) (he : e ∈ l) : e.size < wanted := by simpa using hl e he
  have hlen := hs.shape.length_lt
  rw [List.length_append] at hlen
  exact ⟨l, c, r, rfl, hfind, hc, loop_firstFit hs.shape.stop (Or.inr ⟨c, r, rfl, hc⟩)
    hs.shape.chain hsmall (fun e he => hs.addr_ne_zero he) (layout_last_ne_zero L)
    (Nat.lt_of_le_of_lt (Nat.le_add_right _ _) hlen)⟩

/-- **A call that can succeed succeeds.** -/
theorem pvPortMalloc_handsOut (hs : h.Sound L free used) (hn : ¬ Refused n free) :
    ∃ b free', (pvPortMalloc L n h).1 = b.addr + xHeapStructSize ∧
      HandedOut L n h (pvPortMalloc L n h).2 free used free' b := by
  simp only [Refused, not_or, not_le, not_forall, not_lt] at hn
  obtain ⟨hn0, hn31, d, hd, hfit⟩ := hn
  have hwanted := toNat_wantedSize_eq hn0 hn31
  have hdvd : 8 ∣ blockSize n.toNat := Nat.dvd_mul_left 8 _
  have hpos : 0 < blockSize n.toNat := by
    rw [blockSize]
    omega
  obtain ⟨l, c, r, rfl, hfind, hc, hwalk⟩ := hs.finds ⟨d, hd, hfit⟩
  -- it is taken out of the list, cut and marked
  have hcmem : c ∈ l ++ c :: r := List.mem_append_right l List.mem_cons_self
  have hcsize := hs.shape.chain.size_eq c hcmem
  have hprev : nextAt h.mem (lastAddr L.xStart l) = c.addr :=
    (Chain.append.mp hs.shape.chain).2.next_eq
  obtain ⟨hunlink, hkeeps₁⟩ := hs.shape.unlink
  obtain ⟨mem₂, b, free', hmem₂, haddr, henough, hspare, htotal, hshape₂, hsize₂, hkeeps₂⟩ :=
    hunlink.carve (by rw [sizeAt_setNext, hcsize]) hc hdvd hpos
  have hkeeps₁' : Keeps used h.mem _ := fun e he => hkeeps₁ e (List.mem_cons_of_mem c he)
  have hused (e : Stretch) (he : e ∈ used) : 0 < e.size :=
    (hs.shape.cells e (List.mem_append_right _ he)).pos
  obtain ⟨hshape₃, hmarked, hkeeps₃⟩ :=
    hshape₂.mark hsize₂ ((hs.marked.keeps hused hkeeps₁').keeps hused hkeeps₂)
  -- what the call leaves
  have hcall : pvPortMalloc L n h = (c.addr + xHeapStructSize,
      { h with
        mem := setNext c.addr 0 (setSize c.addr (sizeAt mem₂ c.addr ||| 2 ^ 31) mem₂)
        xFreeBytesRemaining := h.xFreeBytesRemaining - sizeAt mem₂ c.addr
        xMinimumEverFreeBytesRemaining :=
          if h.xFreeBytesRemaining - sizeAt mem₂ c.addr < h.xMinimumEverFreeBytesRemaining then
            h.xFreeBytesRemaining - sizeAt mem₂ c.addr
          else h.xMinimumEverFreeBytesRemaining }) := by
    have hend : ¬ L.last = 0 := layout_last_ne_zero L
    have hbit : n.toNat &&& 2 ^ 31 = 0 := (and_allocatedBit n.toNat_lt).mpr hn31
    have hfree : 0 < blockSize n.toNat ∧ blockSize n.toNat ≤ h.xFreeBytesRemaining := by
      rw [hs.remaining, total_append, total_cons]
      exact ⟨hpos, by omega⟩
    have hne : c.addr ≠ L.last :=
      (hs.shape.addr_lt (List.mem_append_left used hcmem)).2.ne
    rw [hmem₂]
    simp only [pvPortMalloc, hs.started, if_neg hend, hs.bit, if_pos hbit, hwanted, if_pos hfree,
      hwalk, if_pos hne, hprev]
  have hremaining := hs.remaining
  rw [total_append, total_cons] at hremaining
  rw [total_append] at htotal
  rw [hcall, ← haddr, hsize₂]
  have hrest : h.xFreeBytesRemaining - b.size = total free' := by omega
  refine ⟨b, free', rfl, ⟨by rw [hfind, haddr]; rfl, henough, hspare,
    ⟨hs.started, hs.bit, ?_, ?_, hrest, ?_⟩, ?_, ?_⟩⟩
  · rw [← hsize₂]
    exact hshape₃
  · rw [← hsize₂]
    exact hmarked
  · dsimp only
    split_ifs
    · exact le_rfl
    · omega
  · rw [← hsize₂]
    exact hkeeps₁'.trans (hkeeps₂.trans hkeeps₃)
  · dsimp only
    split_ifs
    · omega
    · omega

/-- **…and one that cannot returns `NULL`**, and changes nothing. -/
theorem pvPortMalloc_refused (hs : h.Sound L free used) (hn : Refused n free) :
    pvPortMalloc L n h = (0, h) := by
  have hend : ¬ h.pxEnd = 0 := by
    rw [hs.started]
    exact layout_last_ne_zero L
  simp only [pvPortMalloc, if_neg hend, hs.bit]
  by_cases hbit : n.toNat &&& 2 ^ 31 = 0
  swap
  · rw [if_neg hbit]
  rw [if_pos hbit]
  have hn31 := (and_allocatedBit n.toNat_lt).mp hbit
  by_cases hfree : 0 < (wantedSize n).toNat ∧ (wantedSize n).toNat ≤ h.xFreeBytesRemaining
  swap
  · rw [if_neg hfree]
  rw [if_pos hfree]
  have hn0 : ¬ n.toNat = 0 := fun h0 => by
    rw [toNat_wantedSize hn31, if_pos h0] at hfree
    exact lt_irrefl 0 hfree.1
  have hwanted := toNat_wantedSize_eq hn0 hn31
  -- the walk goes up to the end
  have hsmall := (hn.resolve_left hn0).resolve_left (Nat.not_le.mpr hn31)
  have hchain : Chain (nextAt h.mem) (sizeAt h.mem) L.last L.xStart (free ++ []) := by
    rw [List.append_nil]
    exact hs.shape.chain
  have hwalk := loop_firstFit hs.shape.stop (Or.inl rfl) hchain hsmall
    (fun e he => hs.addr_ne_zero (by rwa [List.append_nil] at he)) (layout_last_ne_zero L)
    hs.shape.length_lt
  rw [hwanted, hwalk, headAddr, hs.started, if_neg (not_not.mpr rfl)]

/-! ## Taking it back -/

/-- **A block is taken back**, and the others stay as they are. -/
theorem sound_vPortFree {used₁ used₂ : List Stretch} (hs : h.Sound L free (used₁ ++ b :: used₂)) :
    ∃ free', (vPortFree L (b.addr + xHeapStructSize) h).Sound L free' (used₁ ++ used₂) ∧
      Keeps (used₁ ++ used₂) h.mem (vPortFree L (b.addr + xHeapStructSize) h).mem ∧
      (vPortFree L (b.addr + xHeapStructSize) h).xFreeBytesRemaining =
        h.xFreeBytesRemaining + b.size ∧
      (vPortFree L (b.addr + xHeapStructSize) h).xMinimumEverFreeBytesRemaining =
        h.xMinimumEverFreeBytesRemaining := by
  have hmem : b ∈ used₁ ++ b :: used₂ := List.mem_append_right used₁ List.mem_cons_self
  have hshape := hs.shape.perm List.perm_middle.symm
  have hb : b ∈ free ++ b :: (used₁ ++ used₂) := List.mem_append_right free List.mem_cons_self
  have hlt := hshape.size_lt hb
  obtain ⟨hnext, hsize⟩ := hs.marked b hmem
  have hunmark : b.size + 2 ^ 31 &&& (2 ^ 32 - 1 - 2 ^ 31) = b.size := by
    rw [show 2 ^ 32 - 1 - 2 ^ 31 = 2 ^ 31 - 1 from rfl, Nat.and_two_pow_sub_one_eq_mod,
      Nat.add_mod_right, Nat.mod_eq_of_lt hlt]
  obtain ⟨hwrite, hkeeps⟩ := hshape.write (setSize b.addr b.size h.mem) fun w hw =>
    setSize_of_ne _ _ fun heq => hw (heq ▸ contains_addr (hshape.cells b hb).pos)
  obtain ⟨free', hshape', htotal, hkeeps'⟩ := hwrite.insert (by rw [sizeAt_setSize, if_pos rfl])
  have hcall : vPortFree L (b.addr + xHeapStructSize) h =
      { h with
        mem := prvInsertBlockIntoFreeList L L.last b.addr (setSize b.addr b.size h.mem)
        xFreeBytesRemaining := h.xFreeBytesRemaining + b.size } := by
    have hmark : b.size + 2 ^ 31 &&& 2 ^ 31 ≠ 0 := fun hzero =>
      absurd ((and_allocatedBit (by omega)).mp hzero) (by omega)
    have hpv : b.addr + xHeapStructSize ≠ 0 := Nat.succ_ne_zero _
    simp only [vPortFree, if_pos hpv, Nat.add_sub_cancel, hsize, hs.bit, if_pos hmark, hnext,
      if_true, hunmark, hs.started, sizeAt_setSize]
  have hall := hkeeps.trans hkeeps'
  rw [hcall]
  refine ⟨free', ⟨hs.started, hs.bit, hshape', ?_, ?_, ?_⟩, hall, rfl, rfl⟩
  · refine Marked.keeps (fun e he => hs.marked e ?_) (fun e he => ?_) hall
    · exact List.perm_middle.symm.mem_iff.mp (List.mem_cons_of_mem b he)
    · exact (hshape.cells e (List.mem_append_right free (List.mem_cons_of_mem b he))).pos
  · dsimp only
    rw [hs.remaining, htotal, Nat.add_comm]
  · exact hs.least.trans (Nat.le_add_right _ _)

end Calls

end GrainWarehouse

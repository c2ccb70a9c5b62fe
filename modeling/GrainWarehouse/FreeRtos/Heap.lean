import GrainWarehouse.Machinery.Chain

/-!
# FreeRtos/Heap — memory that is handed out and taken back

`heap_4.c` keeps the free blocks of its memory in a list, in the order of their addresses; the links
and the sizes stand in the first eight bytes of the blocks themselves.  `pvPortMalloc` takes the
first block that is large enough, and cuts off what is not needed; `vPortFree` puts a block back,
and joins it with the free blocks before and behind it.

A block that is put into the list may be joined twice (`insert_apart`, `insert_touch`): what is left
is the same memory in other blocks, which do not touch (`insert_spec`).

Addresses and sizes are numbers: the heap lies below 2³², and nothing wraps but, maybe, the size
that is asked for.
-/

namespace GrainWarehouse

open Stretch

/-! ## The allocator -/

/-- `configTOTAL_HEAP_SIZE`. -/
def configTotalHeapSize : ℕ := 60 * 1024

/-- `BlockLink_t`, in the first eight bytes of a block. -/
structure BlockLink where
  pxNextFreeBlock : ℕ
  xBlockSize : ℕ

/-- `xHeapStructSize`. -/
def xHeapStructSize : ℕ := 8

/-- `heapMINIMUM_BLOCK_SIZE`. -/
def heapMinimumBlockSize : ℕ := xHeapStructSize * 2

/-- `x & ~portBYTE_ALIGNMENT_MASK`. -/
def alignDown (x : ℕ) : ℕ := x / 8 * 8

/-- Where the linker has put `ucHeap` and `xStart`. -/
structure HeapLayout where
  ucHeap : ℕ
  xStart : ℕ
  pos : 0 < ucHeap
  below : ucHeap + configTotalHeapSize ≤ 2 ^ 32
  apart : xStart + xHeapStructSize ≤ ucHeap ∨ ucHeap + configTotalHeapSize ≤ xStart

/-- The memory, in pieces of eight bytes, and the static variables of `heap_4.c`. -/
structure Heap where
  mem : ℕ → BlockLink
  /-- `NULL` before the first call. -/
  pxEnd : ℕ
  xFreeBytesRemaining : ℕ
  xMinimumEverFreeBytesRemaining : ℕ
  xBlockAllocatedBit : ℕ

/-- Before the first call, the memory being as it is. -/
def Heap.boot (mem : ℕ → BlockLink) : Heap := ⟨mem, 0, 0, 0, 0⟩

/-- `a->pxNextFreeBlock`. -/
def nextAt (mem : ℕ → BlockLink) (a : ℕ) : ℕ := (mem a).pxNextFreeBlock

/-- `a->xBlockSize`. -/
def sizeAt (mem : ℕ → BlockLink) (a : ℕ) : ℕ := (mem a).xBlockSize

/-- `a->pxNextFreeBlock = v`. -/
def setNext (a v : ℕ) (mem : ℕ → BlockLink) : ℕ → BlockLink :=
  Function.update mem a { mem a with pxNextFreeBlock := v }

/-- `a->xBlockSize = v`. -/
def setSize (a v : ℕ) (mem : ℕ → BlockLink) : ℕ → BlockLink :=
  Function.update mem a { mem a with xBlockSize := v }

/-- The beginning of the heap, aligned. -/
def HeapLayout.first (L : HeapLayout) : ℕ :=
  if L.ucHeap % 8 ≠ 0 then alignDown (L.ucHeap + 7) else L.ucHeap

/-- The place of `pxEnd`. -/
def HeapLayout.last (L : HeapLayout) : ℕ :=
  let xTotalHeapSize := configTotalHeapSize - (L.first - L.ucHeap)
  alignDown (L.first + xTotalHeapSize - xHeapStructSize)

/-- `prvHeapInit`. -/
def prvHeapInit (L : HeapLayout) (h : Heap) : Heap :=
  let mem := setSize L.xStart 0 (setNext L.xStart L.first h.mem)
  let mem := setNext L.last 0 (setSize L.last 0 mem)
  let mem := setNext L.first L.last (setSize L.first (L.last - L.first) mem)
  { mem := mem
    pxEnd := L.last
    xFreeBytesRemaining := sizeAt mem L.first
    xMinimumEverFreeBytesRemaining := sizeAt mem L.first
    xBlockAllocatedBit := 2 ^ 31 }

/-- The first half of `prvInsertBlockIntoFreeList`: if the block begins where the one before it
ends, it becomes a part of that. -/
def joinBefore (pxIterator pxBlockToInsert : ℕ) (mem : ℕ → BlockLink) : ℕ × (ℕ → BlockLink) :=
  if pxIterator + sizeAt mem pxIterator = pxBlockToInsert then
    (pxIterator, setSize pxIterator (sizeAt mem pxIterator + sizeAt mem pxBlockToInsert) mem)
  else (pxBlockToInsert, mem)

/-- The second half: if it ends where the next one begins, that becomes a part of it. -/
def joinBehind (pxEnd pxIterator pxBlockToInsert : ℕ) (mem : ℕ → BlockLink) : ℕ → BlockLink :=
  if pxBlockToInsert + sizeAt mem pxBlockToInsert = nextAt mem pxIterator then
    if nextAt mem pxIterator ≠ pxEnd then
      let mem := setSize pxBlockToInsert
        (sizeAt mem pxBlockToInsert + sizeAt mem (nextAt mem pxIterator)) mem
      setNext pxBlockToInsert (nextAt mem (nextAt mem pxIterator)) mem
    else setNext pxBlockToInsert pxEnd mem
  else setNext pxBlockToInsert (nextAt mem pxIterator) mem

/-- `prvInsertBlockIntoFreeList`.  There are never as many blocks as bytes in the heap. -/
def prvInsertBlockIntoFreeList (L : HeapLayout) (pxEnd pxBlockToInsert : ℕ)
    (mem : ℕ → BlockLink) : ℕ → BlockLink :=
  let pxIterator := loop (beforeStep (nextAt mem) pxBlockToInsert) configTotalHeapSize L.xStart
  let before := joinBefore pxIterator pxBlockToInsert mem
  let mem := joinBehind pxEnd pxIterator before.1 before.2
  if pxIterator ≠ before.1 then setNext pxIterator before.1 mem else mem

/-- The size of a block for so many bytes, in the arithmetic of `size_t`; `0` if there is none. -/
def wantedSize (xWantedSize : UInt32) : UInt32 :=
  if xWantedSize > 0 ∧ xWantedSize + 8 > xWantedSize then
    let xWantedSize := xWantedSize + 8
    if xWantedSize &&& 7 ≠ 0 then
      if xWantedSize + (8 - (xWantedSize &&& 7)) > xWantedSize then
        xWantedSize + (8 - (xWantedSize &&& 7))
      else 0
    else xWantedSize
  else 0

/-- `pvPortMalloc`: the address, or `0`. -/
def pvPortMalloc (L : HeapLayout) (xWantedSize : UInt32) (h : Heap) : ℕ × Heap :=
  let h := if h.pxEnd = 0 then prvHeapInit L h else h
  if xWantedSize.toNat &&& h.xBlockAllocatedBit = 0 then
    let wanted := (wantedSize xWantedSize).toNat
    if 0 < wanted ∧ wanted ≤ h.xFreeBytesRemaining then
      let found := loop (fitStep (nextAt h.mem) (sizeAt h.mem) wanted) configTotalHeapSize
        (L.xStart, nextAt h.mem L.xStart)
      let pxPreviousBlock := found.1
      let pxBlock := found.2
      if pxBlock ≠ h.pxEnd then
        let pvReturn := nextAt h.mem pxPreviousBlock + xHeapStructSize
        let mem := setNext pxPreviousBlock (nextAt h.mem pxBlock) h.mem
        let mem :=
          if sizeAt mem pxBlock - wanted > heapMinimumBlockSize then
            let pxNewBlockLink := pxBlock + wanted
            let mem := setSize pxNewBlockLink (sizeAt mem pxBlock - wanted) mem
            let mem := setSize pxBlock wanted mem
            prvInsertBlockIntoFreeList L h.pxEnd pxNewBlockLink mem
          else mem
        let xFreeBytesRemaining := h.xFreeBytesRemaining - sizeAt mem pxBlock
        let mem := setSize pxBlock (sizeAt mem pxBlock ||| h.xBlockAllocatedBit) mem
        (pvReturn,
          { h with
            mem := setNext pxBlock 0 mem
            xFreeBytesRemaining := xFreeBytesRemaining
            xMinimumEverFreeBytesRemaining :=
              if xFreeBytesRemaining < h.xMinimumEverFreeBytesRemaining then xFreeBytesRemaining
              else h.xMinimumEverFreeBytesRemaining })
      else (0, h)
    else (0, h)
  else (0, h)

/-- `vPortFree`. -/
def vPortFree (L : HeapLayout) (pv : ℕ) (h : Heap) : Heap :=
  if pv ≠ 0 then
    let pxLink := pv - xHeapStructSize
    if sizeAt h.mem pxLink &&& h.xBlockAllocatedBit ≠ 0 then
      if nextAt h.mem pxLink = 0 then
        let mem := setSize pxLink
          (sizeAt h.mem pxLink &&& (2 ^ 32 - 1 - h.xBlockAllocatedBit)) h.mem
        { h with
          mem := prvInsertBlockIntoFreeList L h.pxEnd pxLink mem
          xFreeBytesRemaining := h.xFreeBytesRemaining + sizeAt mem pxLink }
      else h
    else h
  else h

/-! ## The memory -/

section Memory

variable (mem : ℕ → BlockLink) (a v w : ℕ)

@[simp] theorem nextAt_setNext :
    nextAt (setNext a v mem) w = if w = a then v else nextAt mem w := by
  rw [nextAt, setNext, Function.update_apply]
  split_ifs
  · rfl
  · rfl

@[simp] theorem sizeAt_setNext : sizeAt (setNext a v mem) w = sizeAt mem w := by
  rw [sizeAt, setNext, Function.update_apply]
  split_ifs with h
  · rw [h]
    rfl
  · rfl

@[simp] theorem nextAt_setSize : nextAt (setSize a v mem) w = nextAt mem w := by
  rw [nextAt, setSize, Function.update_apply]
  split_ifs with h
  · rw [h]
    rfl
  · rfl

@[simp] theorem sizeAt_setSize :
    sizeAt (setSize a v mem) w = if w = a then v else sizeAt mem w := by
  rw [sizeAt, setSize, Function.update_apply]
  split_ifs
  · rfl
  · rfl

variable {w a} in
theorem setNext_of_ne (h : w ≠ a) : setNext a v mem w = mem w := Function.update_of_ne h _ _

variable {w a} in
theorem setSize_of_ne (h : w ≠ a) : setSize a v mem w = mem w := Function.update_of_ne h _ _

end Memory

/-! ## Putting a block into the list -/

/-- A block is made up of pieces of eight bytes. -/
structure InPieces (b : Stretch) : Prop where
  addr : 8 ∣ b.addr
  size : 8 ∣ b.size
  pos : 0 < b.size

/-- **The same memory in other blocks**, which do not touch. -/
structure Regrouped (bs bs' : List Stretch) : Prop where
  total : total bs' = total bs
  cover : ∀ x, cover bs' x = cover bs x
  separated : Separated bs'
  cells : ∀ c ∈ bs', InPieces c

namespace Regrouped

variable {b c : Stretch} {bs bs' cs l : List Stretch}

/-- Blocks that are left as they are. -/
theorem refl (hsep : Separated bs) (hcells : ∀ c ∈ bs, InPieces c) : Regrouped bs bs :=
  ⟨rfl, fun _ => rfl, hsep, hcells⟩

theorem perm (h : Regrouped bs bs') (hperm : cs.Perm bs) : Regrouped cs bs' where
  total := h.total.trans (hperm.map size).sum_eq.symm
  cover := fun x => (h.cover x).trans (hperm.countP_eq _).symm
  separated := h.separated
  cells := h.cells

/-- **Two blocks that touch** are as one. -/
theorem cut (h : Regrouped (⟨b.addr, b.size + c.size⟩ :: bs) bs') (htouch : b.stop = c.addr) :
    Regrouped (b :: c :: bs) bs' where
  total := by
    rw [h.total]
    simp only [total_cons]
    omega
  cover := fun x => by
    have hcut := cover_cut b.addr b.size c.size x
    rw [stop] at htouch
    rw [htouch] at hcut
    rw [h.cover]
    simp only [cover_cons, cover_nil] at hcut ⊢
    omega
  separated := h.separated
  cells := h.cells

/-- **Blocks before them.** -/
theorem behind (h : Regrouped bs bs') (hsep : Separated l) (hcells : ∀ c ∈ l, InPieces c)
    (hlt : ∀ c ∈ l, ∀ d ∈ bs', c.stop < d.addr) : Regrouped (l ++ bs) (l ++ bs') where
  total := by rw [total_append, total_append, h.total]
  cover := fun x => by rw [cover_append, cover_append, h.cover]
  separated := List.pairwise_append.mpr ⟨hsep, h.separated, hlt⟩
  cells := fun c hc => (List.mem_append.mp hc).elim (hcells c) (h.cells c)

end Regrouped

section Insert

variable {mem : ℕ → BlockLink} {last p : ℕ} {b : Stretch} {l r : List Stretch}

/-- **The block and those behind it**, with the first of them joined if it touches. -/
theorem joinBehind_spec (hchain : Chain (nextAt mem) (sizeAt mem) last p r)
    (hb : sizeAt mem b.addr = b.size) (hcells : ∀ c ∈ b :: r, InPieces c) (hsep : Separated r)
    (hr : ∀ c ∈ r, b.stop ≤ c.addr) (hlast : ∀ c ∈ r, c.addr ≠ last) :
    ∃ b' r', b'.addr = b.addr ∧
      sizeAt (joinBehind last p b.addr mem) b.addr = b'.size ∧
      Chain (nextAt (joinBehind last p b.addr mem)) (sizeAt (joinBehind last p b.addr mem)) last
        b.addr r' ∧
      Regrouped (b :: r) (b' :: r') ∧ (∀ c ∈ r', c ∈ r) ∧
      ∀ w, w ≠ b.addr → joinBehind last p b.addr mem w = mem w := by
  have hpos := (hcells b List.mem_cons_self).pos
  rcases r with _ | ⟨d, r⟩
  · -- nothing behind it
    have hnext : nextAt mem p = last := hchain
    have hjoin : joinBehind last p b.addr mem = setNext b.addr last mem := by
      simp only [joinBehind, hnext, ne_eq, not_true_eq_false, if_false, ite_self]
    rw [hjoin]
    refine ⟨b, [], rfl, by rw [sizeAt_setNext, hb], ?_,
      .refl (List.pairwise_singleton _ _) hcells, fun c hc => hc,
      fun w hw => setNext_of_ne mem last hw⟩
    rw [Chain, nextAt_setNext, if_pos rfl]
  have hnext : nextAt mem p = d.addr := hchain.1
  have hd : sizeAt mem d.addr = d.size := hchain.2.1
  have hrest : Chain (nextAt mem) (sizeAt mem) last d.addr r := hchain.2.2
  have hdlast : d.addr ≠ last := hlast d List.mem_cons_self
  obtain ⟨hdr, hsep'⟩ := List.pairwise_cons.mp hsep
  have hbd := hr d List.mem_cons_self
  have hne (c : Stretch) (hc : c ∈ d :: r) : c.addr ≠ b.addr := by
    have hbc := hr c hc
    rw [stop] at hbc
    omega
  by_cases htouch : b.addr + b.size = d.addr
  · -- they become one
    have hjoin : joinBehind last p b.addr mem =
        setNext b.addr (nextAt mem d.addr) (setSize b.addr (b.size + d.size) mem) := by
      simp only [joinBehind, hb, hnext, htouch, if_true, ne_eq, hdlast, not_false_eq_true, hd,
        nextAt_setSize]
    have hdcells := hcells d (List.mem_cons_of_mem b List.mem_cons_self)
    have hbcells := hcells b List.mem_cons_self
    rw [hjoin]
    refine ⟨⟨b.addr, b.size + d.size⟩, r, rfl, by simp, ?_, Regrouped.cut (.refl ?_ ?_) htouch,
      fun c hc => List.mem_cons_of_mem d hc, fun w hw => ?_⟩
    · refine hrest.congr (by rw [nextAt_setNext, if_pos rfl]) fun c hc => ?_
      have hcb := hne c (List.mem_cons_of_mem d hc)
      rw [nextAt_setNext, if_neg hcb, nextAt_setSize, sizeAt_setNext, sizeAt_setSize, if_neg hcb]
      exact ⟨rfl, rfl⟩
    · refine List.pairwise_cons.mpr ⟨fun c hc => ?_, hsep'⟩
      have hdc := hdr c hc
      rw [stop] at hdc ⊢
      change b.addr + (b.size + d.size) < c.addr
      omega
    · refine List.forall_mem_cons.mpr ⟨⟨hbcells.addr, dvd_add hbcells.size hdcells.size, ?_⟩,
        fun c hc => hcells c (List.mem_cons_of_mem b (List.mem_cons_of_mem d hc))⟩
      exact Nat.add_pos_left hpos d.size
    · rw [setNext_of_ne _ _ hw, setSize_of_ne _ _ hw]
  · -- there is something between them
    have hjoin : joinBehind last p b.addr mem = setNext b.addr d.addr mem := by
      simp only [joinBehind, hb, hnext, htouch, if_false]
    rw [hjoin]
    refine ⟨b, d :: r, rfl, by rw [sizeAt_setNext, hb], ⟨?_, ?_, ?_⟩,
      .refl ?_ hcells, fun c hc => hc, fun w hw => setNext_of_ne mem d.addr hw⟩
    · rw [nextAt_setNext, if_pos rfl]
    · rw [sizeAt_setNext, hd]
    · refine hrest.congr ?_ fun c hc => ?_
      · rw [nextAt_setNext, if_neg (hne d List.mem_cons_self)]
      · rw [nextAt_setNext, if_neg (hne c (List.mem_cons_of_mem d hc)), sizeAt_setNext]
        exact ⟨rfl, rfl⟩
    · refine List.pairwise_cons.mpr ⟨fun c hc => ?_, hsep⟩
      rcases List.mem_cons.mp hc with rfl | hc
      · rw [stop] at hbd ⊢
        omega
      · have hdc := hdr c hc
        rw [stop] at hbd hdc ⊢
        omega

/-- What a block that has been put into the list leaves. -/
structure Inserted (L : HeapLayout) (last : ℕ) (bs bs' : List Stretch) (mem mem' : ℕ → BlockLink) :
    Prop where
  chain : Chain (nextAt mem') (sizeAt mem') last L.xStart bs'
  regrouped : Regrouped bs bs'
  start : sizeAt mem' L.xStart = sizeAt mem L.xStart
  frame : ∀ w, w ≠ L.xStart → (∀ c ∈ bs, w ≠ c.addr) → mem' w = mem w

variable {L : HeapLayout}

theorem headAddr_ge {a : ℕ} (hr : ∀ c ∈ r, a ≤ c.addr) (hlast : a ≤ last) :
    a ≤ headAddr last r := by
  cases r with
  | nil => exact hlast
  | cons c r => exact hr c List.mem_cons_self

/-- The addresses of blocks that lie one behind the other are different. -/
theorem nodup_addr {bs : List Stretch} (hsep : Separated bs) : (bs.map addr).Nodup := by
  refine List.pairwise_map.mpr (hsep.imp fun {c d} hcd => ?_)
  rw [stop] at hcd
  omega

/-- A block that does not touch the one before it… -/
theorem insert_apart (hchain : Chain (nextAt mem) (sizeAt mem) last L.xStart (l ++ r))
    (hb : sizeAt mem b.addr = b.size) (hstart : sizeAt mem L.xStart = 0)
    (hcells : ∀ c ∈ b :: (l ++ r), InPieces c) (hsep : Separated (l ++ r))
    (hl : ∀ c ∈ l, c.stop < b.addr) (hr : ∀ c ∈ r, b.stop ≤ c.addr)
    (hlast : ∀ c ∈ b :: (l ++ r), c.stop ≤ last) (hfresh : ∀ c ∈ b :: (l ++ r), c.addr ≠ L.xStart)
    (hlen : l.length < configTotalHeapSize) :
    ∃ bs', Inserted L last (b :: (l ++ r)) bs' mem
      (prvInsertBlockIntoFreeList L last b.addr mem) := by
  obtain ⟨hbcells, hcells⟩ := List.forall_mem_cons.mp hcells
  obtain ⟨hbfresh, hfresh⟩ := List.forall_mem_cons.mp hfresh
  obtain ⟨hblast, hlast⟩ := List.forall_mem_cons.mp hlast
  obtain ⟨hchainl, hchainr⟩ := Chain.append.mp hchain
  obtain ⟨hsepl, hsepr, hseplr⟩ := List.pairwise_append.mp hsep
  have hpos := hbcells.pos
  -- the place before the block
  have hlt (c : Stretch) (hc : c ∈ l) : c.addr < b.addr := by
    have hcb := hl c hc
    rw [stop] at hcb
    omega
  have hgt (c : Stretch) (hc : c ∈ r) : b.addr < c.addr := by
    have hbc := hr c hc
    rw [stop] at hbc
    omega
  have hhead : b.addr ≤ headAddr last r := by
    rw [stop] at hblast
    exact headAddr_ge (fun c hc => (hgt c hc).le) (by omega)
  have hplace := loop_before hhead hchain hlt hlen
  have hcase : lastAddr L.xStart l = L.xStart ∨ ∃ c ∈ l, lastAddr L.xStart l = c.addr :=
    lastAddr_eq L.xStart l
  generalize hit : lastAddr L.xStart l = it at hplace hchainr hcase
  have hne : it ≠ b.addr := by
    rcases hcase with rfl | ⟨c, hc, rfl⟩
    · exact hbfresh.symm
    · exact (hlt c hc).ne
  have hbefore : joinBefore it b.addr mem = (b.addr, mem) := by
    refine if_neg ?_
    rcases hcase with rfl | ⟨c, hc, rfl⟩
    · rw [hstart]
      exact hbfresh.symm
    · rw [hchain.size_eq c (List.mem_append_left r hc)]
      exact (hl c hc).ne
  have hitr (c : Stretch) (hc : c ∈ r) : c.addr ≠ it := by
    rcases hcase with rfl | ⟨d, hd, rfl⟩
    · exact hfresh c (List.mem_append_right l hc)
    · exact ((hlt d hd).trans (hgt c hc)).ne'
  obtain ⟨b', r', haddr, hsize, hchain', hreg, hsub, hframe⟩ := joinBehind_spec hchainr hb
    (List.forall_mem_cons.mpr ⟨hbcells, fun c hc => hcells c (List.mem_append_right l hc)⟩) hsepr hr
    fun c hc hcl => by
      have hcl' := hlast c (List.mem_append_right l hc)
      have hc0 := (hcells c (List.mem_append_right l hc)).pos
      rw [stop] at hcl'
      omega
  have hinsert : prvInsertBlockIntoFreeList L last b.addr mem =
      setNext it b.addr (joinBehind last it b.addr mem) := by
    simp only [prvInsertBlockIntoFreeList, hplace, hbefore, if_pos hne]
  rw [hinsert]
  generalize joinBehind last it b.addr mem = mem' at hsize hchain' hframe
  refine ⟨l ++ b' :: r', ?_, Regrouped.perm (hreg.behind hsepl (fun c hc => ?_) fun c hc d hd => ?_)
    List.perm_middle.symm, ?_, fun w hw hwb => ?_⟩
  · refine Chain.append.mpr ⟨?_, ?_, ?_, ?_⟩
    · refine hchainl.relink ?_ ?_ (fun q hq hqit => ?_) fun c hc => ?_
      · refine List.nodup_cons.mpr ⟨fun hmem => ?_, nodup_addr hsepl⟩
        obtain ⟨c, hc, heq⟩ := List.mem_map.mp hmem
        exact hfresh c (List.mem_append_left r hc) heq
      · rw [hit, nextAt_setNext, if_pos rfl, headAddr, haddr]
      · have hqb : q ≠ b.addr := by
          rcases List.mem_cons.mp hq with rfl | hq
          · exact hbfresh.symm
          · obtain ⟨c, hc, rfl⟩ := List.mem_map.mp hq
            exact (hlt c hc).ne
        rw [hit] at hqit
        rw [nextAt_setNext, if_neg hqit, nextAt, hframe q hqb, nextAt]
      · rw [sizeAt_setNext, sizeAt, hframe c.addr (hlt c hc).ne, sizeAt]
    · rw [hit, nextAt_setNext, if_pos rfl, haddr]
    · rw [sizeAt_setNext, haddr, hsize]
    · rw [haddr]
      refine hchain'.congr (by rw [nextAt_setNext, if_neg hne.symm]) fun c hc => ?_
      rw [nextAt_setNext, if_neg (hitr c (hsub c hc)), sizeAt_setNext]
      exact ⟨rfl, rfl⟩
  · exact hcells c (List.mem_append_left r hc)
  · rcases List.mem_cons.mp hd with rfl | hd
    · rw [haddr]
      exact hl c hc
    · exact hseplr c hc d (hsub d hd)
  · rw [sizeAt_setNext, sizeAt, hframe _ hbfresh.symm, sizeAt]
  · obtain ⟨hwb, hwlr⟩ := List.forall_mem_cons.mp hwb
    have hwit : w ≠ it := by
      rcases hcase with rfl | ⟨c, hc, rfl⟩
      · exact hw
      · exact hwlr c (List.mem_append_left r hc)
    rw [setNext_of_ne _ _ hwit, hframe w hwb]

/-- …and one that does. -/
theorem insert_touch {c : Stretch}
    (hchain : Chain (nextAt mem) (sizeAt mem) last L.xStart (l ++ c :: r))
    (hb : sizeAt mem b.addr = b.size) (hcells : ∀ d ∈ b :: (l ++ c :: r), InPieces d)
    (hsep : Separated (l ++ c :: r)) (htouch : c.stop = b.addr) (hr : ∀ d ∈ r, b.stop ≤ d.addr)
    (hlast : ∀ d ∈ b :: (l ++ c :: r), d.stop ≤ last)
    (hfresh : ∀ d ∈ b :: (l ++ c :: r), d.addr ≠ L.xStart)
    (hlen : l.length + 1 < configTotalHeapSize) :
    ∃ bs', Inserted L last (b :: (l ++ c :: r)) bs' mem
      (prvInsertBlockIntoFreeList L last b.addr mem) := by
  obtain ⟨hbcells, hcells⟩ := List.forall_mem_cons.mp hcells
  obtain ⟨hblast, hlast⟩ := List.forall_mem_cons.mp hlast
  have hfresh' := (List.forall_mem_cons.mp hfresh).2
  obtain ⟨hchainl, hcnext, hcsize, hchainr⟩ := Chain.append.mp hchain
  obtain ⟨hsepl, hsepr, hseplr⟩ := List.pairwise_append.mp hsep
  obtain ⟨hcr, hsepr⟩ := List.pairwise_cons.mp hsepr
  have hmem : c ∈ l ++ c :: r := List.mem_append_right l List.mem_cons_self
  have hright (d : Stretch) (hd : d ∈ r) : d ∈ l ++ c :: r :=
    List.mem_append_right l (List.mem_cons_of_mem c hd)
  have hcpos := (hcells c hmem).pos
  have hpos := hbcells.pos
  -- the place before the block is the block that it touches
  have hlt (d : Stretch) (hd : d ∈ l) : d.addr < c.addr := by
    have hdc := hseplr d hd c List.mem_cons_self
    rw [stop] at hdc
    omega
  have hgt (d : Stretch) (hd : d ∈ r) : c.addr < d.addr := by
    have hcd := hcr d hd
    rw [stop] at hcd
    omega
  rw [stop] at htouch hblast
  have hplace : loop (beforeStep (nextAt mem) b.addr) configTotalHeapSize L.xStart = c.addr := by
    have hhead : b.addr ≤ headAddr last r :=
      headAddr_ge (fun d hd => (Nat.le_add_right _ _).trans (hr d hd)) (by omega)
    have hbefore (d : Stretch) (hd : d ∈ l ++ [c]) : d.addr < b.addr := by
      rcases List.mem_append.mp hd with hd | hd
      · have hdc := hlt d hd
        omega
      · rw [List.mem_singleton.mp hd]
        omega
    rw [List.append_cons] at hchain
    rw [loop_before hhead hchain hbefore (by rw [List.length_append]; exact hlen),
      lastAddr_append_singleton]
  have hbefore : joinBefore c.addr b.addr mem =
      (c.addr, setSize c.addr (c.size + b.size) mem) := by
    rw [joinBefore, hcsize, if_pos htouch, hb]
  have hchain₁ : Chain (nextAt (setSize c.addr (c.size + b.size) mem))
      (sizeAt (setSize c.addr (c.size + b.size) mem)) last c.addr r := by
    refine hchainr.congr (nextAt_setSize _ _ _ _) fun d hd => ?_
    rw [nextAt_setSize, sizeAt_setSize, if_neg (hgt d hd).ne']
    exact ⟨rfl, rfl⟩
  obtain ⟨b', r', haddr, hsize, hchain', hreg, hsub, hframe⟩ :=
    joinBehind_spec (b := ⟨c.addr, c.size + b.size⟩) hchain₁
      (by rw [sizeAt_setSize, if_pos rfl])
      (List.forall_mem_cons.mpr ⟨⟨(hcells c hmem).addr,
        dvd_add (hcells c hmem).size hbcells.size, Nat.add_pos_left hcpos _⟩,
        fun d hd => hcells d (hright d hd)⟩) hsepr
      (fun d hd => by
        have hbd := hr d hd
        rw [stop] at hbd ⊢
        change c.addr + (c.size + b.size) ≤ d.addr
        omega)
      fun d hd hdl => by
        have hdl' := hlast d (hright d hd)
        have hd0 := (hcells d (hright d hd)).pos
        rw [stop] at hdl'
        omega
  have hinsert : prvInsertBlockIntoFreeList L last b.addr mem =
      joinBehind last c.addr c.addr (setSize c.addr (c.size + b.size) mem) := by
    simp only [prvInsertBlockIntoFreeList, hplace, hbefore, ne_eq, not_true_eq_false, if_false]
  rw [hinsert]
  dsimp only at haddr hsize hchain' hframe
  generalize joinBehind last c.addr c.addr (setSize c.addr (c.size + b.size) mem) = mem'
    at hsize hchain' hframe
  have hframe' (w : ℕ) (hw : w ≠ c.addr) : mem' w = mem w := by
    rw [hframe w hw, setSize_of_ne _ _ hw]
  have hstart : L.xStart ≠ c.addr := (hfresh' c hmem).symm
  have hperm : (b :: (l ++ c :: r)).Perm (l ++ c :: b :: r) :=
    List.perm_middle.symm.trans ((List.Perm.swap c b r).append_left l)
  refine ⟨l ++ b' :: r', ?_, Regrouped.perm ((hreg.cut htouch).behind hsepl (fun d hd => ?_)
    fun d hd e he => ?_) hperm, ?_, fun w hw hwb => ?_⟩
  · have hlink (w : ℕ) (hw : w ≠ c.addr) : nextAt mem' w = nextAt mem w ∧
        sizeAt mem' w = sizeAt mem w := by
      rw [nextAt, sizeAt, hframe' w hw]
      exact ⟨rfl, rfl⟩
    refine Chain.append.mpr ⟨?_, ?_, ?_, ?_⟩
    · rw [headAddr, haddr]
      exact hchainl.congr (hlink _ hstart).1 fun d hd => hlink d.addr (hlt d hd).ne
    · have hlastl : lastAddr L.xStart l ≠ c.addr := by
        rcases lastAddr_eq L.xStart l with heq | ⟨d, hd, heq⟩
        · rw [heq]
          exact hstart
        · rw [heq]
          exact (hlt d hd).ne
      rw [(hlink _ hlastl).1, hcnext, haddr]
    · rw [haddr, hsize]
    · rw [haddr]
      exact hchain'
  · exact hcells d (List.mem_append_left _ hd)
  · rcases List.mem_cons.mp he with rfl | he
    · rw [haddr]
      exact hseplr d hd c List.mem_cons_self
    · exact hseplr d hd e (List.mem_cons_of_mem c (hsub e he))
  · rw [sizeAt, hframe' _ hstart, sizeAt]
  · exact hframe' w (hwb c (List.mem_cons_of_mem b hmem))

/-- **A block finds its place in the list**, and is joined with the free blocks that it touches. -/
theorem insert_spec {bs : List Stretch} (hchain : Chain (nextAt mem) (sizeAt mem) last L.xStart bs)
    (hb : sizeAt mem b.addr = b.size) (hstart : sizeAt mem L.xStart = 0)
    (hcells : ∀ c ∈ b :: bs, InPieces c) (hsep : Separated bs) (hapart : ∀ c ∈ bs, b.Apart c)
    (hlast : ∀ c ∈ b :: bs, c.stop ≤ last) (hfresh : ∀ c ∈ b :: bs, c.addr ≠ L.xStart)
    (hlen : bs.length < configTotalHeapSize) :
    ∃ bs', Inserted L last (b :: bs) bs' mem (prvInsertBlockIntoFreeList L last b.addr mem) := by
  obtain ⟨l, r, rfl, hl, hr⟩ := Separated.exists_split (hcells b List.mem_cons_self).pos hsep
    (fun c hc => (hcells c (List.mem_cons_of_mem b hc)).pos) hapart
  rw [List.length_append] at hlen
  by_cases hstrict : ∀ c ∈ l, c.stop < b.addr
  · exact insert_apart hchain hb hstart hcells hsep hstrict hr hlast hfresh (by omega)
  -- only the last one can touch it
  push Not at hstrict
  obtain ⟨c, hc, hge⟩ := hstrict
  have htouch : c.stop = b.addr := le_antisymm (hl c hc) hge
  obtain ⟨l₁, l₂, rfl⟩ := List.append_of_mem hc
  have hl₂ : l₂ = [] := by
    rcases l₂ with _ | ⟨d, l₂⟩
    · rfl
    have hd : d ∈ l₁ ++ c :: d :: l₂ :=
      List.mem_append_right l₁ (List.mem_cons_of_mem c List.mem_cons_self)
    have hcd := (List.pairwise_cons.mp (List.pairwise_append.mp
      (List.pairwise_append.mp hsep).1).2.1).1 d List.mem_cons_self
    have hdb := hl d hd
    have hdpos := (hcells d (List.mem_cons_of_mem b (List.mem_append_left r hd))).pos
    rw [stop] at hdb
    omega
  subst hl₂
  rw [List.append_assoc, List.singleton_append] at *
  rw [List.length_append, List.length_singleton] at hlen
  exact insert_touch hchain hb hcells hsep htouch hr hlast hfresh (by omega)

end Insert

end GrainWarehouse

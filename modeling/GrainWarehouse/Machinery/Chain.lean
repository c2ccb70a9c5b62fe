import GrainWarehouse.Machinery.Loop
import GrainWarehouse.Machinery.Tiling

/-!
# Machinery/Chain — a list of stretches, linked in memory

`Chain next size last p bs` says that from `p` on the memory links the stretches `bs`, with their
sizes, and ends at `last`.  A chain is split where its list is (`Chain.append`), and a change of the
memory elsewhere does not matter (`Chain.congr`), so an operation on one place of it is told by what
it does to that place.

Two loops walk along a chain: one up to the first stretch that is large enough (`loop_firstFit`),
the other up to the last one before an address (`loop_before`).
-/

namespace GrainWarehouse

open Stretch

variable {next size next' size' : ℕ → ℕ} {last p : ℕ} {bs l r : List Stretch}

/-- **The memory links these stretches**, from `p` on, up to `last`. -/
def Chain (next size : ℕ → ℕ) (last : ℕ) : ℕ → List Stretch → Prop
  | p, [] => next p = last
  | p, b :: bs => next p = b.addr ∧ size b.addr = b.size ∧ Chain next size last b.addr bs

/-- The address of the first stretch, or else this one. -/
def headAddr (last : ℕ) : List Stretch → ℕ
  | [] => last
  | b :: _ => b.addr

/-- The address of the last stretch, or else this one. -/
def lastAddr : ℕ → List Stretch → ℕ
  | p, [] => p
  | _, b :: bs => lastAddr b.addr bs

@[simp] theorem lastAddr_append_singleton : ∀ (p : ℕ) (l : List Stretch) (b : Stretch),
    lastAddr p (l ++ [b]) = b.addr
  | _, [], _ => rfl
  | _, c :: l, b => lastAddr_append_singleton c.addr l b

theorem lastAddr_eq :
    ∀ (p : ℕ) (l : List Stretch), lastAddr p l = p ∨ ∃ b ∈ l, lastAddr p l = b.addr
  | _, [] => Or.inl rfl
  | p, c :: l => by
      rcases lastAddr_eq c.addr l with h | ⟨b, hb, h⟩
      · exact Or.inr ⟨c, List.mem_cons_self, h⟩
      · exact Or.inr ⟨b, List.mem_cons_of_mem c hb, h⟩

namespace Chain

theorem next_eq (h : Chain next size last p bs) : next p = headAddr last bs := by
  cases bs with
  | nil => exact h
  | cons b bs => exact h.1

/-- **A chain is split where its list is.** -/
theorem append : ∀ {p : ℕ} {l : List Stretch}, Chain next size last p (l ++ r) ↔
    Chain next size (headAddr last r) p l ∧ Chain next size last (lastAddr p l) r
  | p, [] => ⟨fun h => ⟨h.next_eq, h⟩, fun h => h.2⟩
  | p, b :: l => by
      rw [List.cons_append, Chain, Chain, append, and_assoc, and_assoc]
      rfl

/-- **A chain depends on its links and its sizes only**, also where it begins. -/
theorem congr : ∀ {p p' : ℕ} {bs : List Stretch}, Chain next size last p bs → next' p' = next p →
    (∀ b ∈ bs, next' b.addr = next b.addr ∧ size' b.addr = size b.addr) →
      Chain next' size' last p' bs
  | _, _, [], h, hp, _ => hp.trans h
  | _, _, b :: bs, h, hp, heq => by
      obtain ⟨hnext, hsize⟩ := heq b List.mem_cons_self
      exact ⟨hp.trans h.1, hsize.trans h.2.1,
        h.2.2.congr hnext fun c hc => heq c (List.mem_cons_of_mem b hc)⟩

/-- The sizes are those of the stretches. -/
theorem size_eq : ∀ {p : ℕ} {bs : List Stretch}, Chain next size last p bs →
    ∀ b ∈ bs, size b.addr = b.size
  | _, _ :: _, h, b, hb => by
      rcases List.mem_cons.mp hb with rfl | hb
      · exact h.2.1
      · exact h.2.2.size_eq b hb

/-- **The last link of a chain is set**, and nothing else of it. -/
theorem relink {last' : ℕ} : ∀ {p : ℕ} {bs : List Stretch}, Chain next size last p bs →
    (p :: bs.map addr).Nodup → next' (lastAddr p bs) = last' →
    (∀ q ∈ p :: bs.map addr, q ≠ lastAddr p bs → next' q = next q) →
    (∀ b ∈ bs, size' b.addr = size b.addr) → Chain next' size' last' p bs
  | _, [], _, _, hlast, _, _ => hlast
  | p, b :: bs, h, hnodup, hlast, hnext, hsize => by
      rw [List.map_cons, List.nodup_cons] at hnodup
      have hne : p ≠ lastAddr b.addr bs := fun hp => hnodup.1 <| by
        rw [hp, List.mem_cons]
        rcases lastAddr_eq b.addr bs with heq | ⟨c, hc, heq⟩
        · exact Or.inl heq
        · exact Or.inr (heq ▸ List.mem_map_of_mem hc)
      exact ⟨(hnext p List.mem_cons_self hne).trans h.1,
        (hsize b List.mem_cons_self).trans h.2.1,
        h.2.2.relink hnodup.2 hlast (fun q hq => hnext q (List.mem_cons_of_mem p hq))
          fun c hc => hsize c (List.mem_cons_of_mem b hc)⟩

end Chain

/-! ## Walking along a chain -/

/-- One step of a walk to the first stretch that is large enough: the place before it, and its
address. -/
def fitStep (next size : ℕ → ℕ) (wanted : ℕ) (s : ℕ × ℕ) : Option (ℕ × ℕ) :=
  if size s.2 < wanted ∧ next s.2 ≠ 0 then some (s.2, next s.2) else none

/-- **The walk ends at the first stretch that is large enough**, or at the end. -/
theorem loop_firstFit {wanted : ℕ} (hlast : next last = 0)
    (hr : r = [] ∨ ∃ b r', r = b :: r' ∧ wanted ≤ b.size) :
    ∀ {l : List Stretch} {p n : ℕ}, Chain next size last p (l ++ r) → (∀ b ∈ l, b.size < wanted) →
      (∀ b ∈ l ++ r, b.addr ≠ 0) → last ≠ 0 → l.length < n →
        loop (fitStep next size wanted) n (p, next p) = (lastAddr p l, headAddr last r)
  | [], p, n, h, _, _, _, _ => by
      have hend : fitStep next size wanted (p, next p) = none := by
        refine if_neg fun hgo => ?_
        rcases hr with rfl | ⟨b, r', rfl, hfit⟩
        · exact hgo.2 ((congrArg next h).trans hlast)
        · have hsize : size (next p) = b.size := (congrArg size h.1).trans h.2.1
          exact absurd hgo.1 (by rw [hsize]; exact Nat.not_lt.mpr hfit)
      rw [loop_of_none hend, lastAddr, h.next_eq]
      rfl
  | b :: l, p, n, h, hsmall, hne, hlast0, hn => by
      obtain ⟨n, rfl⟩ : ∃ n', n = n' + 1 := Nat.exists_eq_succ_of_ne_zero (by omega)
      have hnext : next b.addr ≠ 0 := by
        have hb : next b.addr = headAddr last (l ++ r) := h.2.2.next_eq
        rw [hb]
        cases hlr : l ++ r with
        | nil => exact hlast0
        | cons c cs =>
          have hc : c ∈ l ++ r := hlr ▸ List.mem_cons_self
          exact hne c (List.mem_cons_of_mem b hc)
      have hstep : fitStep next size wanted (p, next p) = some (b.addr, next b.addr) := by
        have hp : next p = b.addr := h.1
        have hb : size b.addr = b.size := h.2.1
        simp only [fitStep, hp, hb]
        exact if_pos ⟨hsmall b List.mem_cons_self, hnext⟩
      rw [loop_succ_of_some hstep]
      exact loop_firstFit hlast hr h.2.2 (fun c hc => hsmall c (List.mem_cons_of_mem b hc))
        (fun c hc => hne c (List.mem_cons_of_mem b hc)) hlast0
        (by rw [List.length_cons] at hn; omega)

/-- One step of a walk to the place of an address. -/
def beforeStep (next : ℕ → ℕ) (a p : ℕ) : Option ℕ := if next p < a then some (next p) else none

/-- **The walk ends at the last stretch before the address.** -/
theorem loop_before {a : ℕ} (hr : a ≤ headAddr last r) :
    ∀ {l : List Stretch} {p n : ℕ}, Chain next size last p (l ++ r) → (∀ b ∈ l, b.addr < a) →
      l.length < n → loop (beforeStep next a) n p = lastAddr p l
  | [], p, n, h, _, _ => by
      have hend : beforeStep next a p = none := by
        refine if_neg ?_
        rw [h.next_eq]
        exact Nat.not_lt.mpr hr
      rw [loop_of_none hend]
      rfl
  | b :: l, p, n, h, hbefore, hn => by
      obtain ⟨n, rfl⟩ : ∃ n', n = n' + 1 := Nat.exists_eq_succ_of_ne_zero (by omega)
      have hstep : beforeStep next a p = some b.addr := by
        have hp : next p = b.addr := h.1
        rw [beforeStep, hp, if_pos (hbefore b List.mem_cons_self)]
      rw [loop_succ_of_some hstep]
      exact loop_before hr h.2.2 (fun c hc => hbefore c (List.mem_cons_of_mem b hc))
        (by rw [List.length_cons] at hn; omega)

end GrainWarehouse

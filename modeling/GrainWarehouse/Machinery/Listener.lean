import Mathlib

/-!
# Machinery/Listener — a line that carries commands and blocks of announced length

On one line two kinds of things arrive: texts, each ended by two marks, and blocks of data, whose
length a text has announced and for which the listener has given leave (`Listener.go`).

* `Listener.follow` is told of each leave, **takes in a text and a block as what they are**
  (`hear_line`, `hear_block`), **and loses nothing that arrives** (`spelled_follow`).
* `Listener.alone` decides for itself, block by block, and goes by the bytes and nothing else: it
  knows nothing of where the sender's calls begin and end.

**The two are the same as long as the decisions are the leaves** (`alone_eq`).
-/

namespace GrainWarehouse

variable {β : Type*}

/-- What has been taken in. -/
inductive Heard (β : Type*)
  | line (text : List β)
  | block (data : List β)

/-- How the line is divided up: the two marks that end a text, and the length that a text
announces. -/
structure Marks (β : Type*) where
  cr : β
  lf : β
  announces : List β → Option ℕ

/-- The listener at the end of the line. -/
structure Listener (β : Type*) where
  heard : List (Heard β)
  /-- What has come of the next text or block. -/
  got : List β
  /-- The length that the last text has announced, nothing having come since. -/
  announced : Option ℕ
  /-- How much is still to come of a block; `0` between blocks. -/
  due : ℕ

namespace Listener

/-- Nothing has come yet. -/
def start : Listener β := ⟨[], [], none, 0⟩

variable [DecidableEq β] (m : Marks β)

/-- One byte comes. -/
def byte (s : Listener β) (b : β) : Listener β :=
  if s.due = 0 then
    if b = m.lf ∧ s.got.getLast? = some m.cr then
      ⟨s.heard ++ [.line s.got.dropLast], [], m.announces s.got.dropLast, 0⟩
    else { s with got := s.got ++ [b], announced := none }
  else if s.due = 1 then ⟨s.heard ++ [.block (s.got ++ [b])], [], none, 0⟩
  else ⟨s.heard, s.got ++ [b], none, s.due - 1⟩

/-- Bytes come. -/
def hear (s : Listener β) (bytes : List β) : Listener β := bytes.foldl (byte m) s

omit [DecidableEq β] in
/-- Leave is given for the block that was announced, if one was. -/
def go (s : Listener β) : Listener β :=
  match s.announced with
  | none => s
  | some n => { s with announced := none, due := n }

/-- A byte comes, or leave is given. -/
def follow (s : Listener β) : Option β → Listener β
  | some b => s.byte m b
  | none => s.go

omit [DecidableEq β] in
/-- What was announced is forgotten. -/
def forget (s : Listener β) : Listener β := { s with announced := none }

/-- The data that have been taken in. -/
def blocks : List (Heard β) → List (List β) :=
  List.filterMap fun
    | .block data => some data
    | .line _ => none

omit [DecidableEq β] in
theorem blocks_append (hs hs' : List (Heard β)) : blocks (hs ++ hs') = blocks hs ++ blocks hs' :=
  List.filterMap_append

omit [DecidableEq β] in
/-- **Between two things**: no text and no block has been begun. -/
structure Idle (s : Listener β) : Prop where
  got : s.got = []
  due : s.due = 0

instance (s : Listener β) : Decidable s.Idle :=
  decidable_of_iff (s.got = [] ∧ s.due = 0) ⟨fun h => ⟨h.1, h.2⟩, fun h => ⟨h.got, h.due⟩⟩

theorem hear_append (s : Listener β) (l l' : List β) :
    s.hear m (l ++ l') = (s.hear m l).hear m l' := List.foldl_append

/-! ## Texts and blocks -/

/-- Without marks, what comes is put down. -/
theorem hear_text : ∀ {text : List β} {s : Listener β}, s.due = 0 → m.cr ∉ text →
    (∀ c ∈ s.got.getLast?, c ≠ m.cr) → text ≠ [] →
      s.hear m text = ⟨s.heard, s.got ++ text, none, 0⟩
  | b :: text, s, hdue, hcr, hlast, _ => by
      have hb : b ≠ m.cr := fun h => hcr (h ▸ List.mem_cons_self)
      have hbyte : s.byte m b = ⟨s.heard, s.got ++ [b], none, 0⟩ := by
        rw [byte, if_pos hdue, if_neg fun h => hlast m.cr h.2 rfl, hdue]
      rw [hear, List.foldl_cons, hbyte]
      cases text with
      | nil => rfl
      | cons b' text =>
        have hnext : hear m ⟨s.heard, s.got ++ [b], none, 0⟩ (b' :: text) =
            ⟨s.heard, s.got ++ [b] ++ b' :: text, none, 0⟩ :=
          hear_text rfl (fun h => hcr (List.mem_cons_of_mem b h)) (by simpa using hb)
            (List.cons_ne_nil _ _)
        rw [hear] at hnext
        rw [hnext, List.append_assoc, List.singleton_append]

/-- **A text is taken in at its end**, with what it announces. -/
theorem Idle.hear_line {s : Listener β} (h : s.Idle) {text : List β} (hcr : m.cr ∉ text)
    (hne : m.cr ≠ m.lf) : s.hear m (text ++ [m.cr, m.lf]) =
      ⟨s.heard ++ [.line text], [], m.announces text, 0⟩ := by
  obtain ⟨heard, got, announced, due⟩ := s
  obtain ⟨rfl, rfl⟩ : got = [] ∧ due = 0 := ⟨h.got, h.due⟩
  have htext : ∃ a, hear m ⟨heard, [], announced, 0⟩ text = ⟨heard, text, a, 0⟩ := by
    cases text with
    | nil => exact ⟨announced, rfl⟩
    | cons b text => exact ⟨none, hear_text m rfl hcr (by simp) (List.cons_ne_nil _ _)⟩
  obtain ⟨a, htext⟩ := htext
  rw [hear_append, htext]
  simp [hear, byte, hne]

/-- **A block is taken in when it is all there.** -/
theorem hear_block : ∀ {data : List β} {s : Listener β}, s.due = data.length → data ≠ [] →
    s.hear m data = ⟨s.heard ++ [.block (s.got ++ data)], [], none, 0⟩
  | [b], s, hdue, _ => by
      have hdue : s.due = 1 := hdue
      simp [hear, byte, hdue]
  | b :: b' :: data, s, hdue, _ => by
      rw [List.length_cons, List.length_cons] at hdue
      have hbyte : s.byte m b = ⟨s.heard, s.got ++ [b], none, s.due - 1⟩ := by
        rw [byte, if_neg (by omega), if_neg (by omega)]
      have hnext : hear m ⟨s.heard, s.got ++ [b], none, s.due - 1⟩ (b' :: data) =
          ⟨s.heard ++ [.block (s.got ++ [b] ++ b' :: data)], [], none, 0⟩ :=
        hear_block (by rw [List.length_cons]; exact hdue ▸ rfl) (List.cons_ne_nil _ _)
      rw [hear] at hnext
      rw [hear, List.foldl_cons, hbyte, hnext, List.append_assoc, List.singleton_append]

/-! ## Nothing is lost -/

/-- How it came over the line. -/
def spelled : List (Heard β) → List β :=
  List.flatMap fun
    | .line text => text ++ [m.cr, m.lf]
    | .block data => data

omit [DecidableEq β] in
theorem spelled_append (hs hs' : List (Heard β)) :
    spelled m (hs ++ hs') = spelled m hs ++ spelled m hs' := List.flatMap_append

/-- A byte is put down, or is the last of a text or a block. -/
theorem spelled_byte (s : Listener β) (b : β) :
    spelled m (s.byte m b).heard ++ (s.byte m b).got = spelled m s.heard ++ s.got ++ [b] := by
  rw [byte]
  split_ifs with hdue hend
  · obtain ⟨rfl, hlast⟩ := hend
    have hgot := List.dropLast_append_getLast? _ hlast
    have hline : spelled m [.line s.got.dropLast] = s.got ++ [m.lf] := by
      simp only [spelled, List.flatMap_cons, List.flatMap_nil, List.append_nil]
      rw [← List.singleton_append, ← List.append_assoc, hgot]
    rw [spelled_append, hline, List.append_nil, List.append_assoc]
  · rw [List.append_assoc]
  · have hblock : spelled m [.block (s.got ++ [b])] = s.got ++ [b] := by
      simp only [spelled, List.flatMap_cons, List.flatMap_nil, List.append_nil]
    rw [spelled_append, hblock, List.append_nil, List.append_assoc]
  · rw [List.append_assoc]

omit [DecidableEq β] in
theorem go_same (s : Listener β) : s.go.heard = s.heard ∧ s.go.got = s.got := by
  rw [go]
  split
  all_goals exact ⟨rfl, rfl⟩

/-- **All that came has been taken in, or is part of what is coming.** -/
theorem spelled_follow : ∀ (sounds : List (Option β)) (s : Listener β),
    spelled m (sounds.foldl (follow m) s).heard ++ (sounds.foldl (follow m) s).got =
      spelled m s.heard ++ s.got ++ sounds.reduceOption
  | [], s => (List.append_nil _).symm
  | none :: sounds, s => by
      have hnext := spelled_follow sounds s.go
      rw [s.go_same.1, s.go_same.2] at hnext
      exact hnext
  | some b :: sounds, s => by
      have hnext := spelled_follow sounds (s.byte m b)
      rw [spelled_byte, List.append_assoc, List.singleton_append] at hnext
      exact hnext

/-! ## A listener that decides for itself -/

omit [DecidableEq β] in
/-- The decision on what has been announced, if anything has: leave is given for the `k`-th block,
or the announcement is forgotten. -/
def settle (leave : ℕ → Bool) (s : Listener β) (k : ℕ) : Listener β × ℕ :=
  match s.announced with
  | none => (s, k)
  | some _ => (if leave k then s.go else s.forget, k + 1)

/-- One byte comes, and what it announces is decided at once; the decisions are counted. -/
def aloneByte (leave : ℕ → Bool) (r : Listener β × ℕ) (b : β) : Listener β × ℕ :=
  settle leave (r.1.byte m b) r.2

/-- **A listener on its own**, behind these bytes. -/
def alone (leave : ℕ → Bool) (bytes : List β) : Listener β :=
  (bytes.foldl (aloneByte m leave) (start, 0)).1

/-- What became of the announcements, one after the other: whether leave was given before the next
byte came. -/
def leaves : Listener β → List (Option β) → List Bool
  | s, [] => if s.announced.isSome then [false] else []
  | s, none :: sounds => (if s.announced.isSome then [true] else []) ++ leaves s.go sounds
  | s, some b :: sounds =>
    (if s.announced.isSome then [false] else []) ++ leaves (s.byte m b) sounds

omit [DecidableEq β] in
theorem announced_go (s : Listener β) : s.go.announced = none := by
  rw [go]
  split
  · next h => exact h
  · rfl

omit [DecidableEq β] in
theorem settle_of_none {leave : ℕ → Bool} {s : Listener β} (h : s.announced = none) (k : ℕ) :
    settle leave s k = (s, k) := by
  rw [settle, h]

omit [DecidableEq β] in
theorem settle_of_some {leave : ℕ → Bool} {s : Listener β} (h : s.announced.isSome) (k : ℕ) :
    settle leave s k = (if leave k then s.go else s.forget, k + 1) := by
  obtain ⟨n, hn⟩ := Option.isSome_iff_exists.mp h
  rw [settle, hn]

/-- A byte makes an announcement obsolete. -/
theorem byte_forget (s : Listener β) (b : β) : s.forget.byte m b = s.byte m b := rfl

/-- A first decision, and those that follow it. -/
theorem decisions_cons {leave : ℕ → Bool} {d : Bool} {ds : List Bool} {k : ℕ}
    (h : d :: ds = (List.range' k (d :: ds).length).map leave) :
    leave k = d ∧ ds = (List.range' (k + 1) ds.length).map leave := by
  rw [List.length_cons, List.range'_succ, List.map_cons] at h
  exact ⟨(List.cons.inj h).1.symm, (List.cons.inj h).2⟩

/-- From any moment on. -/
theorem alone_eq_from (leave : ℕ → Bool) : ∀ (sounds : List (Option β)) (s : Listener β) (k : ℕ),
    leaves m s sounds = (List.range' k (leaves m s sounds).length).map leave →
      (sounds.reduceOption.foldl (aloneByte m leave) (settle leave s k)).1 =
        (sounds.foldl (follow m) s).forget
  | [], s, k, h => by
      change (settle leave s k).1 = s.forget
      rcases hs : s.announced with _ | n
      · rw [settle_of_none hs, forget, ← hs]
      · have hsome : s.announced.isSome := by rw [hs]; rfl
        rw [leaves, if_pos hsome] at h
        rw [settle_of_some hsome, (decisions_cons h).1, if_neg Bool.false_ne_true]
  | none :: sounds, s, k, h => by
      rw [leaves] at h
      change (sounds.reduceOption.foldl (aloneByte m leave) (settle leave s k)).1 =
        (sounds.foldl (follow m) s.go).forget
      rcases hs : s.announced with _ | n
      · have hgo : s.go = s := by rw [go, hs]
        rw [hs, hgo] at h
        rw [hgo]
        exact alone_eq_from leave sounds s k h
      · have hsome : s.announced.isSome := by rw [hs]; rfl
        rw [if_pos hsome] at h
        obtain ⟨hleave, hrest⟩ := decisions_cons h
        rw [settle_of_some hsome, hleave, if_pos rfl, ← settle_of_none s.announced_go (k + 1)]
        exact alone_eq_from leave sounds s.go (k + 1) hrest
  | some b :: sounds, s, k, h => by
      rw [leaves] at h
      change (sounds.reduceOption.foldl (aloneByte m leave)
        (aloneByte m leave (settle leave s k) b)).1 = (sounds.foldl (follow m) (s.byte m b)).forget
      rcases hs : s.announced with _ | n
      · rw [hs] at h
        rw [settle_of_none hs]
        exact alone_eq_from leave sounds (s.byte m b) k h
      · have hsome : s.announced.isSome := by rw [hs]; rfl
        rw [if_pos hsome] at h
        obtain ⟨hleave, hrest⟩ := decisions_cons h
        rw [settle_of_some hsome, hleave, if_neg Bool.false_ne_true, aloneByte, byte_forget]
        exact alone_eq_from leave sounds (s.byte m b) (k + 1) hrest

/-- **A listener on its own hears what one that is told the leaves hears**, as long as it decides
as they were given. -/
theorem alone_eq {leave : ℕ → Bool} {sounds : List (Option β)}
    (h : leaves m start sounds = (List.range (leaves m start sounds).length).map leave) :
    alone m leave sounds.reduceOption = (sounds.foldl (follow m) start).forget :=
  alone_eq_from m leave sounds start 0 (by rwa [List.range_eq_range'] at h)

end Listener

end GrainWarehouse

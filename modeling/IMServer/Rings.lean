import Mathlib.Data.List.Chain
import Mathlib.Data.List.Nodup
import Mathlib.Logic.Function.Basic

/-! # Rings of cells linked both ways

    A memory of cells, each with a link to the next and to the previous one.  The
    cells of a ring, in the order of the links and with the head at both ends, are
    a chain: `Ring m h xs`.  Inserting a chain of cells between two neighbours and
    taking a cell out change the links of the neighbours only, and the frame lemma
    `isChain_congr` leaves the rest alone.

    `Holds` is a memory with any number of rings in it, no two with a common
    cell. -/

namespace IMRings

variable {P : Type}

/-- The links of all cells. -/
structure Links (P : Type) where
  next : P → P
  prev : P → P

/-- `b` comes behind `a`, read from either side. -/
def Linked (m : Links P) (a b : P) : Prop :=
  m.next a = b ∧ m.prev b = a

/-- The ring with the head `h` and the entries `xs`. -/
structure Ring (m : Links P) (h : P) (xs : List P) : Prop where
  linked : (h :: (xs ++ [h])).IsChain (Linked m)
  nodup : (h :: xs).Nodup

/-! ## Chains -/

/-- **THE FRAME LEMMA**: a chain reads the next cells of all but its last, and the
    previous cells of all but its first. -/
theorem isChain_congr {m m' : Links P} : ∀ {l : List P},
    l.IsChain (Linked m) → (∀ a ∈ l.dropLast, m'.next a = m.next a) →
      (∀ b ∈ l.tail, m'.prev b = m.prev b) → l.IsChain (Linked m') := by
  intro l
  induction l with
  | nil => exact fun _ _ _ => .nil
  | cons a l ih =>
      intro h hnext hprev
      cases l with
      | nil => exact .singleton a
      | cons b l =>
          rw [List.isChain_cons_cons] at h ⊢
          obtain ⟨⟨hab, hba⟩, hrest⟩ := h
          refine ⟨⟨?_, ?_⟩, ih hrest ?_ ?_⟩
          · rw [hnext a (by rw [List.dropLast_cons_cons]; exact List.mem_cons_self ..)]
            exact hab
          · rw [hprev b (List.mem_cons_self ..)]
            exact hba
          · intro c hc
            exact hnext c (by
              rw [List.dropLast_cons_cons]
              exact List.mem_cons_of_mem _ hc)
          · exact fun c hc => hprev c (List.mem_cons_of_mem _ hc)

/-- Where two cells are neighbours, the others are before both or behind both. -/
theorem around {u v : List P} {p q : P} (hd : (u ++ p :: q :: v).dropLast.Nodup)
    (ht : (u ++ p :: q :: v).tail.Nodup) :
    (p ∉ u ∧ p ∉ (q :: v).dropLast) ∧ q ∉ (u ++ [p]).tail ∧ q ∉ v := by
  have htail : (u ++ p :: q :: v).tail = (u ++ [p]).tail ++ q :: v := by
    rw [← List.tail_append_of_ne_nil (by simp), List.append_assoc]
    rfl
  rw [List.dropLast_append_of_ne_nil (List.cons_ne_nil _ _), List.dropLast_cons_cons,
    List.nodup_middle, List.nodup_cons, List.mem_append, not_or] at hd
  rw [htail, List.nodup_middle, List.nodup_cons, List.mem_append, not_or] at ht
  exact ⟨hd.1, ht.1⟩

/-- The memory after a chain from `first` to `last` has been put between `p` and
    `q`. -/
structure Joined (m m' : Links P) (p first last q : P) : Prop where
  front : Linked m' p first
  back : Linked m' last q
  next : ∀ a, a ≠ p → a ≠ last → m'.next a = m.next a
  prev : ∀ b, b ≠ q → b ≠ first → m'.prev b = m.prev b

/-- **INSERTION**: the chain with the new cells in it. -/
theorem isChain_insert {m m' : Links P} {u v seg : List P} {p q first last : P}
    (hl : (u ++ p :: q :: v).IsChain (Linked m))
    (hd : (u ++ p :: q :: v).dropLast.Nodup)
    (ht : (u ++ p :: q :: v).tail.Nodup) (hseg : seg.IsChain (Linked m))
    (hnd : seg.Nodup) (hfirst : seg.head? = some first)
    (hlast : seg.getLast? = some last) (hdis : ∀ a ∈ seg, a ∉ u ++ p :: q :: v)
    (hj : Joined m m' p first last q) :
    (u ++ p :: (seg ++ q :: v)).IsChain (Linked m') := by
  obtain ⟨⟨hpu, hpv⟩, hqu, hqv⟩ := around hd ht
  have hfm : first ∉ u ++ p :: q :: v :=
    hdis first (List.mem_of_mem_head? hfirst)
  have hlm : last ∉ u ++ p :: q :: v :=
    hdis last (List.mem_of_getLast? hlast)
  have hsplit : u ++ p :: (seg ++ q :: v) = (u ++ [p]) ++ (seg ++ (q :: v)) := by
    simp
  have hold : u ++ p :: q :: v = (u ++ [p]) ++ (q :: v) := by simp
  rw [hold] at hl hfm hlm hdis
  obtain ⟨hl₁, hl₂, -⟩ := List.isChain_append.mp hl
  -- the links of a part change at `p`, `last`, `q` and `first` only
  have hpart : ∀ {l : List P}, l.IsChain (Linked m) → p ∉ l.dropLast →
      last ∉ l.dropLast → q ∉ l.tail → first ∉ l.tail →
      l.IsChain (Linked m') := by
    intro l hl hp hla hq hf
    exact isChain_congr hl
      (fun a ha => hj.next a (fun e => hp (e ▸ ha)) (fun e => hla (e ▸ ha)))
      (fun b hb => hj.prev b (fun e => hq (e ▸ hb)) (fun e => hf (e ▸ hb)))
  rw [hsplit]
  refine List.isChain_append.mpr ⟨hpart hl₁ ?_ ?_ hqu ?_,
    List.isChain_append.mpr ⟨hpart hseg ?_ ?_ ?_ ?_, hpart hl₂ hpv ?_ hqv ?_, ?_⟩,
    ?_⟩
  · rw [List.dropLast_concat]
    exact hpu
  · exact fun h => hlm (List.mem_append_left _ (List.dropLast_subset _ h))
  · exact fun h => hfm (List.mem_append_left _ (List.mem_of_mem_tail h))
  · exact fun h => hdis p (List.dropLast_subset _ h)
      (List.mem_append_left _ (List.mem_append_right _ (List.mem_singleton_self p)))
  · -- a chain without repetition has its last cell once
    obtain ⟨ys, rfl⟩ := List.getLast?_eq_some_iff.mp hlast
    rw [List.dropLast_concat]
    exact fun h => (List.nodup_append.mp hnd).2.2 last h last
      (List.mem_singleton_self _) rfl
  · exact fun h => hdis q (List.mem_of_mem_tail h)
      (List.mem_append_right _ (List.mem_cons_self ..))
  · obtain ⟨ys, rfl⟩ := List.head?_eq_some_iff.mp hfirst
    exact (List.nodup_cons.mp hnd).1
  · exact fun h => hlm (List.mem_append_right _ (List.dropLast_subset _ h))
  · exact fun h => hfm (List.mem_append_right _ (List.mem_of_mem_tail h))
  · intro x hx y hy
    rw [hlast] at hx
    cases hx
    cases hy
    exact hj.back
  · intro x hx y hy
    rw [List.getLast?_concat] at hx
    rw [List.head?_append_of_ne_nil _ (by rintro rfl; cases hfirst), hfirst] at hy
    cases hx
    cases hy
    exact hj.front

/-- The memory after the cell `n` between `p` and `q` has been taken out. -/
structure Parted (m m' : Links P) (p n q : P) : Prop where
  closed : Linked m' p q
  next : ∀ a, a ≠ p → a ≠ n → m'.next a = m.next a
  prev : ∀ b, b ≠ q → b ≠ n → m'.prev b = m.prev b

/-- **REMOVAL**: the chain without the cell. -/
theorem isChain_remove {m m' : Links P} {u v : List P} {p n q : P}
    (hl : (u ++ p :: n :: q :: v).IsChain (Linked m))
    (hd : (u ++ p :: n :: q :: v).dropLast.Nodup)
    (ht : (u ++ p :: n :: q :: v).tail.Nodup) (hp : Parted m m' p n q) :
    (u ++ p :: q :: v).IsChain (Linked m') := by
  obtain ⟨⟨hpu, hpv⟩, hnu, hnv⟩ := around hd ht
  have hback : u ++ p :: n :: q :: v = (u ++ [p]) ++ n :: q :: v := by simp
  rw [hback] at hl hd ht
  obtain ⟨⟨hnu', hnv'⟩, hqu, hqv⟩ := around hd ht
  obtain ⟨hl₁, hl₂, -⟩ := List.isChain_append.mp hl
  have hl₃ := (List.isChain_cons_cons.mp hl₂).2
  have hsplit : u ++ p :: q :: v = (u ++ [p]) ++ (q :: v) := by simp
  rw [hsplit]
  refine List.isChain_append.mpr ⟨isChain_congr hl₁ ?_ ?_,
    isChain_congr hl₃ ?_ ?_, ?_⟩
  · intro a ha
    rw [List.dropLast_concat] at ha
    exact hp.next a (fun e => hpu (e ▸ ha))
      (fun e => hnu' (e ▸ List.mem_append_left _ ha))
  · intro b hb
    refine hp.prev b (fun e => hqu ?_) (fun e => hnu (e ▸ hb))
    rw [List.tail_append_of_ne_nil (by simp)]
    exact List.mem_append_left _ (e ▸ hb)
  · intro a ha
    refine hp.next a (fun e => hpv ?_) (fun e => hnv' (e ▸ ha))
    rw [List.dropLast_cons_cons]
    exact List.mem_cons_of_mem _ (e ▸ ha)
  · intro b hb
    exact hp.prev b (fun e => hqv (e ▸ hb))
      (fun e => hnv (e ▸ List.mem_cons_of_mem _ hb))
  · intro x hx y hy
    rw [List.getLast?_concat] at hx
    cases hx
    cases hy
    exact hp.closed

/-! ## Rings -/

section Ring

variable {m m' : Links P} {h : P} {s t xs : List P}

theorem Ring.nodup_dropLast (hr : Ring m h xs) :
    (h :: (xs ++ [h])).dropLast.Nodup := by
  rw [← List.cons_append, List.dropLast_concat]
  exact hr.nodup

theorem Ring.nodup_tail (hr : Ring m h xs) : (h :: (xs ++ [h])).tail.Nodup :=
  (List.perm_append_singleton h xs).nodup_iff.mpr hr.nodup

/-- The cells around a place in the ring. -/
theorem ring_split {u v : List P} {p q : P} (hp : h :: s = u ++ [p])
    (hq : t ++ [h] = q :: v) :
    h :: (s ++ t ++ [h]) = u ++ p :: q :: v := by
  rw [List.append_assoc, ← List.cons_append, hp, hq]
  simp

theorem mem_around {u v : List P} {p q : P} (hp : h :: s = u ++ [p])
    (hq : t ++ [h] = q :: v) :
    p ∈ h :: (s ++ t) ∧ q ∈ h :: (s ++ t) := by
  refine ⟨?_, ?_⟩
  · rw [← List.cons_append, hp]
    simp
  · have hmem : q ∈ t ++ [h] := hq ▸ List.mem_cons_self ..
    rcases List.mem_append.mp hmem with h1 | h2
    · exact List.mem_cons_of_mem _ (List.mem_append_right _ h1)
    · exact List.mem_singleton.mp h2 ▸ List.mem_cons_self ..

theorem Ring.neighbours (hr : Ring m h (s ++ t)) {u v : List P} {p q : P}
    (hp : h :: s = u ++ [p]) (hq : t ++ [h] = q :: v) : Linked m p q := by
  have hl := hr.linked
  rw [ring_split hp hq] at hl
  exact (List.isChain_append_cons_cons.mp hl).2.1

/-- The link of the head to the first entry. -/
theorem Ring.next_head {x : P} (hr : Ring m h (x :: xs)) : m.next h = x :=
  (hr.neighbours (s := []) (t := x :: xs) (u := []) (v := xs ++ [h]) rfl
    rfl).1

/-- The cell in front of the head, also when it is the head itself. -/
theorem Ring.prev_last (hr : Ring m h xs) {u : List P} {p : P}
    (hp : h :: xs = u ++ [p]) : m.prev h = p := by
  have hr' : Ring m h (xs ++ []) := by
    rw [List.append_nil]
    exact hr
  exact (hr'.neighbours (v := []) hp rfl).2

theorem Ring.prev_head {x : P} (hr : Ring m h (xs ++ [x])) : m.prev h = x :=
  hr.prev_last (u := h :: xs) rfl

/-- **INSERTION** of a chain of new cells into a ring. -/
theorem Ring.insert (hr : Ring m h (s ++ t)) {u v seg : List P}
    {p q first last : P} (hp : h :: s = u ++ [p]) (hq : t ++ [h] = q :: v)
    (hseg : seg.IsChain (Linked m)) (hnd : seg.Nodup)
    (hfirst : seg.head? = some first) (hlast : seg.getLast? = some last)
    (hdis : ∀ a ∈ seg, a ∉ h :: (s ++ t))
    (hj : Joined m m' p first last q) : Ring m' h (s ++ seg ++ t) := by
  have hl := hr.linked
  have hd := hr.nodup_dropLast
  have ht := hr.nodup_tail
  rw [ring_split hp hq] at hl hd ht
  refine ⟨?_, ?_⟩
  · have hsplit : h :: (s ++ seg ++ t ++ [h])
        = u ++ p :: (seg ++ q :: v) := by
      rw [List.append_assoc, List.append_assoc, ← List.cons_append, hp, hq]
      simp
    rw [hsplit]
    refine isChain_insert hl hd ht hseg hnd hfirst hlast ?_ hj
    intro a ha hmem
    rw [← ring_split hp hq, ← List.cons_append, List.mem_append,
      List.mem_singleton] at hmem
    rcases hmem with h1 | rfl
    · exact hdis a ha h1
    · exact hdis a ha (List.mem_cons_self ..)
  · have hperm : (h :: (s ++ seg ++ t)).Perm (seg ++ h :: (s ++ t)) := by
      rw [← List.cons_append, ← List.cons_append, List.append_assoc]
      refine List.perm_append_comm_assoc .. |>.trans ?_
      rw [List.cons_append]
    refine hperm.nodup_iff.mpr (List.nodup_append.mpr ⟨hnd, hr.nodup, ?_⟩)
    exact fun a ha b hb e => hdis a ha (e ▸ hb)

/-- **REMOVAL** of a cell from a ring. -/
theorem Ring.remove {n : P} (hr : Ring m h (s ++ n :: t)) {u v : List P}
    {p q : P} (hp : h :: s = u ++ [p]) (hq : t ++ [h] = q :: v)
    (hpart : Parted m m' p n q) : Ring m' h (s ++ t) := by
  have hl := hr.linked
  have hd := hr.nodup_dropLast
  have ht := hr.nodup_tail
  have hsplit : h :: (s ++ n :: t ++ [h]) = u ++ p :: n :: q :: v := by
    rw [ring_split hp (t := n :: t) (v := q :: v) (by rw [← hq]; rfl)]
  rw [hsplit] at hl hd ht
  refine ⟨?_, ?_⟩
  · rw [ring_split hp hq]
    exact isChain_remove hl hd ht hpart
  · have hnd := hr.nodup
    rw [← List.cons_append, List.nodup_middle, List.nodup_cons] at hnd
    exact hnd.2

/-- A ring read backwards. -/
theorem Ring.flip (hr : Ring m h xs) : Ring ⟨m.prev, m.next⟩ h xs.reverse := by
  refine ⟨?_, ?_⟩
  · have hback : h :: (xs.reverse ++ [h]) = (h :: (xs ++ [h])).reverse := by simp
    rw [hback, List.isChain_reverse]
    exact hr.linked.imp fun a b hab => ⟨hab.2, hab.1⟩
  · exact ((List.reverse_perm xs).cons h).nodup_iff.mpr hr.nodup

end Ring

/-! ## Walking -/

/-- Follow a link from `p` until `stop` is reached. -/
def walk [DecidableEq P] (link : P → P) (stop : P) : Nat → P → Option (List P)
  | 0, _ => none
  | fuel + 1, p =>
      if p = stop then some []
      else (walk link stop fuel (link p)).map (p :: ·)

theorem walk_chain [DecidableEq P] {m : Links P} {h : P} : ∀ {xs : List P} {a : P}
    {fuel : Nat}, (a :: (xs ++ [h])).IsChain (Linked m) → h ∉ xs →
      xs.length < fuel → walk m.next h fuel (m.next a) = some xs := by
  intro xs
  induction xs with
  | nil =>
      intro a fuel hl _ hf
      obtain ⟨fuel, rfl⟩ := Nat.exists_eq_add_one_of_ne_zero (Nat.ne_of_gt hf)
      rw [walk, if_pos (List.isChain_cons_cons.mp hl).1.1]
  | cons x xs ih =>
      intro a fuel hl hh hf
      obtain ⟨⟨hax, -⟩, hrest⟩ := List.isChain_cons_cons.mp hl
      obtain ⟨fuel, rfl⟩ := Nat.exists_eq_add_one_of_ne_zero
        (Nat.ne_of_gt (Nat.zero_lt_of_lt hf))
      rw [List.mem_cons, not_or] at hh
      rw [hax, walk, if_neg (fun e => hh.1 e.symm), ih hrest hh.2
        (Nat.lt_of_succ_lt_succ hf), Option.map_some]

/-- **A WALK** goes through the entries of a ring, and ends. -/
theorem Ring.walk_next [DecidableEq P] {m : Links P} {h : P} {xs : List P}
    (hr : Ring m h xs) {fuel : Nat} (hf : xs.length < fuel) :
    walk m.next h fuel (m.next h) = some xs :=
  walk_chain hr.linked (List.nodup_cons.mp hr.nodup).1 hf

theorem Ring.walk_prev [DecidableEq P] {m : Links P} {h : P} {xs : List P}
    (hr : Ring m h xs) {fuel : Nat} (hf : xs.length < fuel) :
    walk m.prev h fuel (m.prev h) = some xs.reverse :=
  hr.flip.walk_next (by rwa [List.length_reverse])

/-- The cell behind a cell of a ring. -/
theorem Ring.next_mem {m : Links P} {h : P} {xs : List P} (hr : Ring m h xs)
    {a : P} (ha : a ∈ h :: xs) : m.next a ∈ h :: xs := by
  obtain ⟨u, v, huv⟩ := List.append_of_mem ha
  have hl := hr.linked
  rw [← List.cons_append, huv, List.append_assoc, List.cons_append] at hl
  have hnext : ∀ {b l}, (a :: b :: l).IsChain (Linked m) → m.next a = b :=
    fun hc => (List.isChain_cons_cons.mp hc).1.1
  have htail := (List.isChain_split.mp hl).2
  cases v with
  | nil => exact hnext htail ▸ List.mem_cons_self ..
  | cons b v =>
      rw [hnext htail, huv]
      simp

theorem Ring.prev_mem {m : Links P} {h : P} {xs : List P} (hr : Ring m h xs)
    {a : P} (ha : a ∈ h :: xs) : m.prev a ∈ h :: xs := by
  have hperm := (List.reverse_perm xs).cons h
  exact hperm.mem_iff.mp (hr.flip.next_mem (hperm.mem_iff.mpr ha))

/-- The links say what the entries are. -/
theorem Ring.unique [DecidableEq P] {m : Links P} {h : P} {xs ys : List P}
    (hx : Ring m h xs) (hy : Ring m h ys) : xs = ys := by
  have hfuel := Nat.lt_succ_self (xs.length + ys.length)
  have hwalk := hx.walk_next (Nat.lt_of_le_of_lt (Nat.le_add_right ..) hfuel)
  rw [hy.walk_next (Nat.lt_of_le_of_lt (Nat.le_add_left ..) hfuel)] at hwalk
  exact (Option.some.inj hwalk).symm

/-- A walk inside a ring does not come to a cell of another. -/
theorem Ring.walk_other [DecidableEq P] {m : Links P} {h : P} {xs : List P}
    (hr : Ring m h xs) {a stop : P} (ha : a ∈ h :: xs) (hstop : stop ∉ h :: xs) :
    ∀ fuel, walk m.next stop fuel a = none := by
  intro fuel
  induction fuel generalizing a with
  | zero => rfl
  | succ fuel ih =>
      rw [walk, if_neg (fun e : a = stop => hstop (e ▸ ha)), ih (hr.next_mem ha),
        Option.map_none]

/-! ## A memory with many rings -/

/-- The entries of each head; other cells are no heads. -/
abbrev Heads (P : Type) := P → Option (List P)

/-- A cell of some ring. -/
def Cell (A : Heads P) (p : P) : Prop :=
  ∃ h xs, A h = some xs ∧ p ∈ h :: xs

/-- A cell when the ring of one head has changed. -/
theorem Cell.of_update [DecidableEq P] {A : Heads P} {head p : P} {xs : List P}
    (h : Cell (Function.update A head (some xs)) p) :
    p ∈ head :: xs ∨ Cell A p := by
  obtain ⟨g, ys, hg, hm⟩ := h
  by_cases hgh : g = head
  · rw [hgh, Function.update_self] at hg
    obtain rfl := Option.some.inj hg
    exact Or.inl (hgh ▸ hm)
  · rw [Function.update_of_ne hgh] at hg
    exact Or.inr ⟨g, ys, hg, hm⟩

theorem not_cell_none (p : P) : ¬ Cell (fun _ => none) p :=
  fun ⟨_, _, h, _⟩ => (by cases h)

/-- The rings are there, and have no common cell. -/
structure Holds (m : Links P) (A : Heads P) : Prop where
  ring : ∀ h xs, A h = some xs → Ring m h xs
  apart : ∀ h xs g ys, A h = some xs → A g = some ys → h ≠ g →
    ∀ p ∈ h :: xs, p ∉ g :: ys

/-- A ring that keeps its links. -/
theorem Ring.congr {m m' : Links P} {h : P} {xs : List P} (hr : Ring m h xs)
    (hsame : ∀ p ∈ h :: xs, m'.next p = m.next p ∧ m'.prev p = m.prev p) :
    Ring m' h xs := by
  refine ⟨isChain_congr hr.linked (fun a ha => (hsame a ?_).1)
    (fun b hb => (hsame b ?_).2), hr.nodup⟩
  · rwa [← List.cons_append, List.dropLast_concat] at ha
  · rcases List.mem_append.mp hb with h1 | h2
    · exact List.mem_cons_of_mem _ h1
    · exact List.mem_singleton.mp h2 ▸ List.mem_cons_self ..

theorem Holds.not_mem {m : Links P} {A : Heads P} (hA : Holds m A) {h g p : P}
    {xs ys : List P} (hh : A h = some xs) (hg : A g = some ys) (hgh : g ≠ h)
    (hp : p ∈ g :: ys) : p ∉ h :: xs :=
  hA.apart g ys h xs hg hh hgh p hp

variable [DecidableEq P]

/-- **ONE RING CHANGES**: its cells are its own or cells of no ring, and the
    links of the others stay. -/
theorem Holds.replace {m m' : Links P} {A : Heads P} (hA : Holds m A) {h : P}
    {xs : List P} (hr : Ring m' h xs)
    (hfresh : ∀ g ys, g ≠ h → A g = some ys → ∀ p ∈ g :: ys, p ∉ h :: xs)
    (hsame : ∀ g ys, g ≠ h → A g = some ys →
      ∀ p ∈ g :: ys, m'.next p = m.next p ∧ m'.prev p = m.prev p) :
    Holds m' (Function.update A h (some xs)) := by
  refine ⟨?_, ?_⟩
  · intro g ys hg
    by_cases hgh : g = h
    · subst hgh
      rw [Function.update_self] at hg
      exact Option.some.inj hg ▸ hr
    · rw [Function.update_of_ne hgh] at hg
      exact (hA.ring g ys hg).congr (hsame g ys hgh hg)
  · intro f ys g zs hf hg hfg p hp
    by_cases hfh : f = h
    · subst hfh
      rw [Function.update_self] at hf
      rw [Function.update_of_ne hfg.symm] at hg
      obtain rfl := Option.some.inj hf
      exact fun hpg => hfresh g zs hfg.symm hg p hpg hp
    · rw [Function.update_of_ne hfh] at hf
      by_cases hgh : g = h
      · subst hgh
        rw [Function.update_self] at hg
        obtain rfl := Option.some.inj hg
        exact hfresh f ys hfh hf p hp
      · rw [Function.update_of_ne hgh] at hg
        exact hA.apart f ys g zs hf hg hfg p hp

/-- A ring is given up; its cells belong to no ring. -/
theorem Holds.drop {m : Links P} {A : Heads P} (hA : Holds m A) (h : P) :
    Holds m (Function.update A h none) := by
  have hold : ∀ {g ys}, Function.update A h none g = some ys → A g = some ys := by
    intro g ys hg
    by_cases hgh : g = h
    · rw [hgh, Function.update_self] at hg
      cases hg
    · rwa [Function.update_of_ne hgh] at hg
  exact ⟨fun g ys hg => hA.ring g ys (hold hg),
    fun f ys g zs hf hg => hA.apart f ys g zs (hold hf) (hold hg)⟩

/-- **INSERTION** of a chain of cells that are in no ring. -/
theorem Holds.insert {m m' : Links P} {A : Heads P} (hA : Holds m A)
    {h p q first last : P} {s t u v seg : List P}
    (hh : A h = some (s ++ t)) (hp : h :: s = u ++ [p])
    (hq : t ++ [h] = q :: v) (hseg : seg.IsChain (Linked m))
    (hnd : seg.Nodup) (hfirst : seg.head? = some first)
    (hlast : seg.getLast? = some last) (hnew : ∀ a ∈ seg, ¬ Cell A a)
    (hj : Joined m m' p first last q) :
    Holds m' (Function.update A h (some (s ++ seg ++ t))) := by
  have hring := hA.ring h _ hh
  obtain ⟨hpm, hqm⟩ := mem_around hp hq
  have hother : ∀ {g ys r}, A g = some ys → r ∈ g :: ys → r ∉ seg :=
    fun hg hr hm => hnew _ hm ⟨_, _, hg, hr⟩
  refine hA.replace (hring.insert hp hq hseg hnd hfirst hlast
    (fun a ha hm => hother hh hm ha) hj) ?_ ?_
  · intro g ys hgh hg r hr hm
    have hout := hA.not_mem hh hg hgh hr
    rw [List.mem_cons, List.mem_append, List.mem_append] at hm
    rw [List.mem_cons, List.mem_append] at hout
    rcases hm with h1 | (h2 | h3) | h4
    · exact hout (Or.inl h1)
    · exact hout (Or.inr (Or.inl h2))
    · exact hother hg hr h3
    · exact hout (Or.inr (Or.inr h4))
  · intro g ys hgh hg r hr
    have hout := hA.not_mem hh hg hgh hr
    have hnot := hother hg hr
    exact ⟨hj.next r (fun e => hout (e ▸ hpm))
        (fun e => hnot (e ▸ List.mem_of_getLast? hlast)),
      hj.prev r (fun e => hout (e ▸ hqm))
        (fun e => hnot (e ▸ List.mem_of_mem_head? hfirst))⟩

/-- **REMOVAL** of an entry, which is then in no ring. -/
theorem Holds.remove {m m' : Links P} {A : Heads P} (hA : Holds m A)
    {h p n q : P} {s t u v : List P} (hh : A h = some (s ++ n :: t))
    (hp : h :: s = u ++ [p]) (hq : t ++ [h] = q :: v)
    (hpart : Parted m m' p n q) :
    Holds m' (Function.update A h (some (s ++ t)))
      ∧ ¬ Cell (Function.update A h (some (s ++ t))) n := by
  have hring := hA.ring h _ hh
  have hsub : ∀ {r}, r ∈ h :: (s ++ t) → r ∈ h :: (s ++ n :: t) := by
    intro r hr
    rw [List.mem_cons, List.mem_append] at hr ⊢
    exact hr.imp_right (Or.imp_right (List.mem_cons_of_mem n))
  obtain ⟨hpm, hqm⟩ := mem_around hp hq
  have hnm : n ∈ h :: (s ++ n :: t) := by simp
  refine ⟨hA.replace (hring.remove hp hq hpart) ?_ ?_, ?_⟩
  · exact fun g ys hgh hg r hr hm => hA.not_mem hh hg hgh hr (hsub hm)
  · intro g ys hgh hg r hr
    have hout := hA.not_mem hh hg hgh hr
    exact ⟨hpart.next r (fun e => hout (e ▸ hsub hpm)) (fun e => hout (e ▸ hnm)),
      hpart.prev r (fun e => hout (e ▸ hsub hqm)) (fun e => hout (e ▸ hnm))⟩
  · rintro ⟨g, ys, hg, hn⟩
    by_cases hgh : g = h
    · subst hgh
      rw [Function.update_self] at hg
      obtain rfl := Option.some.inj hg
      have hnd := hring.nodup
      rw [← List.cons_append, List.nodup_middle, List.nodup_cons] at hnd
      exact hnd.1 hn
    · rw [Function.update_of_ne hgh] at hg
      exact hA.not_mem hh hg hgh hn hnm

/-- A new ring of one cell. -/
theorem Holds.single {m m' : Links P} {A : Heads P} (hA : Holds m A) {h : P}
    (hnew : ¬ Cell A h) (hself : Linked m' h h)
    (hsame : ∀ p, p ≠ h → m'.next p = m.next p ∧ m'.prev p = m.prev p) :
    Holds m' (Function.update A h (some [])) := by
  have hout : ∀ {g ys p}, A g = some ys → p ∈ g :: ys → p ≠ h :=
    fun hg hp e => hnew ⟨_, _, hg, e ▸ hp⟩
  refine hA.replace ⟨?_, List.nodup_singleton h⟩ ?_ ?_
  · exact List.isChain_cons_cons.mpr ⟨hself, .singleton h⟩
  · exact fun g ys _ hg p hp hm => hout hg hp (List.mem_singleton.mp hm)
  · exact fun g ys _ hg p hp => hsame p (hout hg hp)

end IMRings

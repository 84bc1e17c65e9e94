import Mathlib.Algebra.GroupWithZero.Nat
import Mathlib.Data.List.Infix

/-! # Insertion — a word put in front of the places of a list

    `inside word w c` is `w` with `c p` copies of `word` in front of its place
    `p`.  A word without borders can be put in front of a list or further inside
    with the same result only behind copies of itself. -/

namespace IMInsertion

variable {α : Type}

/-- `n` copies of the word. -/
def copies (word : List α) (n : Nat) : List α :=
  (List.replicate n word).flatten

@[simp] theorem copies_zero (word : List α) : copies word 0 = [] := rfl

theorem copies_succ (word : List α) (n : Nat) :
    copies word (n + 1) = word ++ copies word n := rfl

theorem length_copies (word : List α) : ∀ n,
    (copies word n).length = n * word.length
  | 0 => (Nat.zero_mul _).symm
  | n + 1 => by
      rw [copies_succ, List.length_append, length_copies word n, Nat.succ_mul,
        Nat.add_comm]

/-- `c p` copies of the word in front of each place `p` of the list. -/
def inside (word : List α) : List α → (Nat → Nat) → List α
  | [], _ => []
  | b :: w, c => copies word (c 0) ++ b :: inside word w (fun p => c (p + 1))

/-- The same, and the copies behind the last place. -/
def weave (word w : List α) (c : Nat → Nat) : List α :=
  inside word w c ++ copies word (c w.length)

theorem inside_append (word : List α) : ∀ (w t : List α) (c : Nat → Nat),
    inside word (w ++ t) c
      = inside word w c ++ inside word t (fun p => c (w.length + p))
  | [], t, c => by simp [inside]
  | b :: w, t, c => by
      rw [List.cons_append, inside, inside, inside_append word w t,
        List.append_assoc, List.cons_append, List.length_cons]
      simp only [Nat.add_right_comm]

theorem weave_append (word w t : List α) (c : Nat → Nat) :
    weave word (w ++ t) c
      = inside word w c ++ weave word t (fun p => c (w.length + p)) := by
  rw [weave, weave, inside_append, List.append_assoc, List.length_append]

/-- One more copy in front of everything. -/
theorem weave_here (word : List α) (c : Nat → Nat) : ∀ w : List α,
    weave word w (fun p => (if p = 0 then 1 else 0) + c p)
      = word ++ weave word w c
  | [] => by simp [weave, inside, Nat.add_comm 1, copies_succ]
  | b :: w => by
      simp [weave, inside, Nat.add_comm 1, copies_succ]

theorem inside_congr (word : List α) : ∀ {w : List α} {c d : Nat → Nat},
    (∀ p < w.length, c p = d p) → inside word w c = inside word w d
  | [], _, _, _ => rfl
  | b :: w, c, d, h => by
      rw [inside, inside, h 0 (Nat.succ_pos _),
        inside_congr word fun p hp => h (p + 1) (Nat.succ_lt_succ hp)]

/-- No copies change nothing. -/
theorem inside_zero (word : List α) : ∀ w : List α,
    inside word w (fun _ => 0) = w
  | [] => rfl
  | b :: w => by rw [inside, inside_zero word w, copies_zero, List.nil_append]

/-- One copy, at `r`. -/
theorem inside_single (word : List α) : ∀ {w : List α} {r : Nat}, r < w.length →
    inside word w (fun p => if p = r then 1 else 0)
      = w.take r ++ word ++ w.drop r
  | b :: w, 0, _ => by
      have hrest : (fun p => if p + 1 = 0 then 1 else 0) = fun _ : Nat => 0 := by
        funext p
        exact if_neg (Nat.succ_ne_zero p)
      rw [inside, hrest, inside_zero]
      simp [copies]
  | b :: w, r + 1, h => by
      have hrest : (fun p => if p + 1 = r + 1 then 1 else 0)
          = fun p : Nat => if p = r then 1 else 0 := by
        funext p
        simp only [Nat.add_right_cancel_iff]
      rw [inside, hrest, inside_single word (Nat.lt_of_succ_lt_succ h),
        if_neg (Nat.succ_ne_zero r).symm]
      simp

theorem mem_copies {word : List α} {b : α} : ∀ {n : Nat},
    b ∈ copies word n → b ∈ word
  | 0, h => absurd h List.not_mem_nil
  | n + 1, h => by
      rw [copies_succ] at h
      exact (List.mem_append.mp h).elim id mem_copies

theorem mem_inside {word : List α} {b : α} : ∀ {w : List α} {c : Nat → Nat},
    b ∈ inside word w c → b ∈ word ∨ b ∈ w
  | [], _, h => absurd h List.not_mem_nil
  | x :: w, c, h => by
      rw [inside] at h
      rcases List.mem_append.mp h with h | h
      · exact Or.inl (mem_copies h)
      · rcases List.mem_cons.mp h with rfl | h
        · exact Or.inr List.mem_cons_self
        · exact (mem_inside h).imp_right (List.mem_cons_of_mem x)

/-- How many copies there are in front of the first `n` places. -/
def total (c : Nat → Nat) (n : Nat) : Nat :=
  ((List.range n).map c).sum

theorem total_succ (c : Nat → Nat) (n : Nat) :
    total c (n + 1) = c 0 + total (fun p => c (p + 1)) n := by
  rw [total, List.range_succ_eq_map, List.map_cons, List.sum_cons, List.map_map]
  rfl

theorem total_eq_zero {c : Nat → Nat} {n : Nat} :
    total c n = 0 ↔ ∀ p < n, c p = 0 := by
  rw [total, List.sum_eq_zero_iff_forall_eq_nat]
  simp

/-- A total of one is one copy in front of one place. -/
theorem total_eq_one : ∀ {n : Nat} {c : Nat → Nat}, total c n = 1 →
    ∃ r < n, ∀ p < n, c p = if p = r then 1 else 0
  | 0, _, h => by cases h
  | n + 1, c, h => by
      rw [total_succ] at h
      by_cases h0 : c 0 = 0
      · obtain ⟨r, hr, hrest⟩ := total_eq_one (n := n)
          (c := fun p => c (p + 1)) (by omega)
        refine ⟨r + 1, Nat.succ_lt_succ hr, fun p hp => ?_⟩
        cases p with
        | zero => rw [h0, if_neg (Nat.succ_ne_zero r).symm]
        | succ p =>
            rw [hrest p (Nat.lt_of_succ_lt_succ hp)]
            simp only [Nat.add_right_cancel_iff]
      · have hrest := total_eq_zero.mp
          (show total (fun p => c (p + 1)) n = 0 by omega)
        refine ⟨0, Nat.succ_pos n, fun p hp => ?_⟩
        cases p with
        | zero =>
            rw [if_pos rfl]
            omega
        | succ p => rw [hrest p (Nat.lt_of_succ_lt_succ hp),
            if_neg (Nat.succ_ne_zero p)]

theorem length_inside (word : List α) : ∀ (w : List α) (c : Nat → Nat),
    (inside word w c).length = w.length + total c w.length * word.length
  | [], _ => by simp [inside, total]
  | b :: w, c => by
      rw [inside, List.length_append, length_copies, List.length_cons,
        length_inside word w, List.length_cons, total_succ, Nat.add_mul]
      omega

/-- No proper part of the word is both its start and its end. -/
def Unbordered (word : List α) : Prop :=
  ∀ v, v ≠ [] → v <+: word → v <:+ word → v = word

/-- **COMMUTING**: only copies of an unbordered word commute with it. -/
theorem append_comm_iff {word : List α} (hne : word ≠ [])
    (h : Unbordered word) {u : List α} :
    u ++ word = word ++ u ↔ ∃ k, u = copies word k := by
  constructor
  · induction hn : u.length using Nat.strongRecOn generalizing u with
    | ind n ih =>
        intro hcomm
        by_cases hu : u = []
        · exact ⟨0, hu⟩
        have hpos := List.length_pos_iff.mpr hne
        rcases Nat.lt_or_ge u.length word.length with hlt | hge
        · -- a short `u` would be a border
          have hpre : u <+: word := by
            have hword : u <+: word ++ u := ⟨word, hcomm⟩
            exact List.prefix_of_prefix_length_le hword
              (List.prefix_append _ _) hlt.le
          have hsuf : u <:+ word := by
            have hword : u <:+ u ++ word := ⟨word, hcomm.symm⟩
            exact List.suffix_of_suffix_length_le hword
              (List.suffix_append _ _) hlt.le
          rw [h u hu hpre hsuf] at hlt
          exact absurd hlt (Nat.lt_irrefl _)
        · obtain ⟨u', rfl⟩ : word <+: u := by
            have hu : word <+: u ++ word := ⟨u, hcomm.symm⟩
            exact List.prefix_of_prefix_length_le hu (List.prefix_append _ _) hge
          rw [List.append_assoc] at hcomm
          obtain ⟨k, hk⟩ := ih u'.length
            (by rw [← hn, List.length_append]; omega) rfl
            (List.append_cancel_left hcomm)
          exact ⟨k + 1, by rw [copies_succ, hk]⟩
  · rintro ⟨k, rfl⟩
    induction k with
    | zero => simp
    | succ k ih => rw [copies_succ, List.append_assoc, ih]

end IMInsertion

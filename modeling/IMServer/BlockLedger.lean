import Mathlib.Data.List.Nodup

/-! # Blocks on a ledger — acquired, live, released

    Each allocation draws a fresh token, which is live until it is released.
    `Ran l l' lost` says what a piece of a program did to the ledger: of the
    tokens it drew, those in `lost` are still live and every other one has been
    released once.  `Ran.trans` composes two pieces and `Ran.bracket` closes an
    allocation around one; `balanced_iff` reads the balance off `lost`.
    `Accounts` names the live blocks of a whole program, whose pieces need not
    be nested. -/

namespace IMBlockLedger

/-- The tokens drawn are those below `next`. -/
structure Ledger where
  next : Nat
  live : List Nat
  freed : List Nat

namespace Ledger

/-- Nothing has been allocated. -/
def empty : Ledger := ⟨0, [], []⟩

/-- An allocation: the token, and the ledger. -/
def acquire (l : Ledger) : Nat × Ledger :=
  (l.next, ⟨l.next + 1, l.next :: l.live, l.freed⟩)

/-- The block of a token is released. -/
def release (l : Ledger) (token : Nat) : Ledger :=
  ⟨l.next, l.live.erase token, token :: l.freed⟩

/-- Only tokens that were drawn have been released. -/
def FreedDrawn (l : Ledger) : Prop := ∀ token ∈ l.freed, token < l.next

end Ledger

open Ledger

/-- **WHAT A PIECE DID** to the ledger. -/
structure Ran (l l' : Ledger) (lost : List Nat) : Prop where
  next : l.next ≤ l'.next
  live : l'.live = lost ++ l.live
  freed : ∃ back, l'.freed = back ++ l.freed
    ∧ (lost ++ back).Perm (List.range' l.next (l'.next - l.next))

theorem Ran.refl (l : Ledger) : Ran l l [] where
  next := Nat.le_refl _
  live := rfl
  freed := ⟨[], rfl, by rw [Nat.sub_self]; exact List.Perm.refl _⟩

/-- Two pieces, one after the other. -/
theorem Ran.trans {l l₁ l₂ : Ledger} {lost lost' : List Nat}
    (h : Ran l l₁ lost) (h' : Ran l₁ l₂ lost') : Ran l l₂ (lost' ++ lost) := by
  obtain ⟨back, hfreed, hperm⟩ := h.freed
  obtain ⟨back', hfreed', hperm'⟩ := h'.freed
  refine ⟨Nat.le_trans h.next h'.next, ?_, back' ++ back, ?_, ?_⟩
  · rw [h'.live, h.live, List.append_assoc]
  · rw [hfreed', hfreed, List.append_assoc]
  · have hsplit : List.range' l.next (l₂.next - l.next)
        = List.range' l.next (l₁.next - l.next)
          ++ List.range' l₁.next (l₂.next - l₁.next) := by
      have hnext := h.next
      have hnext' := h'.next
      rw [show l₂.next - l.next = (l₁.next - l.next) + (l₂.next - l₁.next) by omega,
        ← List.range'_append_1, Nat.add_sub_cancel' hnext]
    rw [hsplit]
    refine List.Perm.trans ?_ (hperm.append hperm')
    -- the lost and the released tokens of both pieces, sorted by piece
    calc List.Perm ((lost' ++ lost) ++ (back' ++ back))
          ((lost ++ lost') ++ (back' ++ back)) :=
          List.perm_append_comm.append_right _
      _ = lost ++ ((lost' ++ back') ++ back) := by
          simp only [List.append_assoc]
      List.Perm _ (lost ++ (back ++ (lost' ++ back'))) :=
          List.perm_append_comm.append_left _
      _ = (lost ++ back) ++ (lost' ++ back') := by rw [List.append_assoc]

theorem ran_acquire (l : Ledger) : Ran l l.acquire.2 [l.next] where
  next := Nat.le_succ _
  live := rfl
  freed := ⟨[], rfl, by
    rw [acquire, Nat.add_sub_cancel_left]
    exact List.Perm.refl _⟩

/-- A token that is drawn or released later is not an earlier one. -/
theorem Ran.lost_ge {l l' : Ledger} {lost : List Nat} (h : Ran l l' lost) :
    ∀ token ∈ lost, l.next ≤ token := by
  intro token ht
  obtain ⟨back, -, hperm⟩ := h.freed
  exact (List.mem_range'_1.mp
    (hperm.mem_iff.mp (List.mem_append_left back ht))).1

/-- **BRACKET RULE**: a block allocated in front of a piece and released behind it
    is balanced. -/
theorem Ran.bracket {l l' : Ledger} {lost : List Nat}
    (h : Ran l.acquire.2 l' lost) : Ran l (l'.release l.acquire.1) lost := by
  have hlost := h.lost_ge
  obtain ⟨back, hfreed, hperm⟩ := h.freed
  have hnext : l.next + 1 ≤ l'.next := h.next
  refine ⟨Nat.le_of_succ_le hnext, ?_, l.next :: back, ?_, ?_⟩
  · show l'.live.erase l.next = _
    rw [h.live]
    have hnot : l.next ∉ lost := fun hm => Nat.lt_irrefl _ (hlost _ hm)
    rw [List.erase_append_right _ hnot]
    exact congrArg (lost ++ ·) (List.erase_cons_head ..)
  · show l.next :: l'.freed = _
    rw [hfreed]
    rfl
  · have hrange : List.range' l.next (l'.next - l.next)
        = l.next :: List.range' (l.next + 1) (l'.next - (l.next + 1)) := by
      rw [show l'.next - l.next = (l'.next - (l.next + 1)) + 1 by omega]
      exact List.range'_succ
    show (lost ++ l.next :: back).Perm (List.range' l.next (l'.next - l.next))
    rw [hrange]
    exact List.perm_middle.trans (List.Perm.cons _ hperm)

/-! ## Balance -/

/-- **BALANCED**: every token drawn has been released exactly once, and there are
    as many live ones as before. -/
structure Balanced (l l' : Ledger) : Prop where
  once : ∀ token, l.next ≤ token → token < l'.next → l'.freed.count token = 1
  live : l'.live.length = l.live.length

theorem Ran.freedDrawn {l l' : Ledger} {lost : List Nat} (h : Ran l l' lost)
    (hl : l.FreedDrawn) : l'.FreedDrawn := by
  obtain ⟨back, hfreed, hperm⟩ := h.freed
  intro token ht
  rw [hfreed] at ht
  rcases List.mem_append.mp ht with h1 | h2
  · have := (List.mem_range'_1.mp
      (hperm.mem_iff.mp (List.mem_append_right lost h1))).2
    have := h.next
    omega
  · exact Nat.lt_of_lt_of_le (hl token h2) h.next

/-- **BALANCE, EXACTLY**: a piece is balanced when it loses no token. -/
theorem balanced_iff {l l' : Ledger} {lost : List Nat} (hl : l.FreedDrawn)
    (h : Ran l l' lost) : Balanced l l' ↔ lost = [] := by
  obtain ⟨back, hfreed, hperm⟩ := h.freed
  have hcount : ∀ token, l.next ≤ token → l'.freed.count token = back.count token := by
    intro token ht
    rw [hfreed, List.count_append, List.count_eq_zero.mpr fun hm =>
      absurd (hl token hm) (Nat.not_lt.mpr ht)]
    rfl
  constructor
  · intro hbal
    have hlen := hbal.live
    rw [h.live, List.length_append] at hlen
    exact List.eq_nil_of_length_eq_zero (by omega)
  · rintro rfl
    refine ⟨fun token hge hlt => ?_, congrArg List.length h.live⟩
    rw [List.nil_append] at hperm
    rw [hcount token hge, hperm.count_eq]
    have hnext := h.next
    exact List.count_eq_one_of_mem List.nodup_range'
      (List.mem_range'_1.mpr ⟨hge, by omega⟩)

/-! ## Accounts -/

/-- **ACCOUNTS**: the live blocks are the given ones, and every token drawn is
    either live or has been released, once. -/
structure Ledger.Accounts (l : Ledger) (blocks : List Nat) : Prop where
  live : l.live.Perm blocks
  drawn : (l.live ++ l.freed).Perm (List.range l.next)

namespace Ledger.Accounts

variable {l l' : Ledger} {blocks blocks' lost : List Nat} {token : Nat}

theorem ofEmpty : Ledger.empty.Accounts [] := ⟨.refl _, .refl _⟩

theorem perm (h : l.Accounts blocks) (hp : blocks.Perm blocks') :
    l.Accounts blocks' :=
  ⟨h.live.trans hp, h.drawn⟩

/-- A piece of the program adds what it loses. -/
theorem ran (h : l.Accounts blocks) (hran : Ran l l' lost) :
    l'.Accounts (lost ++ blocks) := by
  obtain ⟨back, hfreed, hperm⟩ := hran.freed
  refine ⟨?_, ?_⟩
  · rw [hran.live]
    exact h.live.append_left lost
  · have hrange : List.range l'.next
        = List.range l.next ++ List.range' l.next (l'.next - l.next) := by
      have hsplit := List.range'_append_1 (s := 0) (m := l.next)
        (n := l'.next - l.next)
      rw [Nat.zero_add, Nat.add_sub_cancel' hran.next] at hsplit
      rw [List.range_eq_range', List.range_eq_range', hsplit]
    rw [hran.live, hfreed, hrange]
    -- the tokens from before, and those of the piece
    calc List.Perm ((lost ++ l.live) ++ (back ++ l.freed))
          ((l.live ++ lost) ++ (back ++ l.freed)) :=
          List.perm_append_comm.append_right _
      _ = l.live ++ ((lost ++ back) ++ l.freed) := by
          simp only [List.append_assoc]
      List.Perm _ (l.live ++ (l.freed ++ (lost ++ back))) :=
          List.perm_append_comm.append_left _
      _ = (l.live ++ l.freed) ++ (lost ++ back) := by
          rw [List.append_assoc]
      List.Perm _ _ := h.drawn.append hperm

theorem acquire (h : l.Accounts blocks) :
    l.acquire.2.Accounts (l.next :: blocks) :=
  h.ran (ran_acquire l)

/-- Only a live block can be released. -/
theorem release (h : l.Accounts (token :: blocks)) :
    (l.release token).Accounts blocks := by
  have hmem : token ∈ l.live := h.live.mem_iff.mpr (List.mem_cons_self ..)
  refine ⟨?_, ?_⟩
  · exact (h.live.erase token).trans (by rw [List.erase_cons_head])
  · refine List.Perm.trans ?_ h.drawn
    exact List.perm_middle.trans
      ((List.perm_cons_erase hmem).symm.append_right l.freed)

/-- No block is released twice, and none that is in use. -/
theorem count_freed (h : l.Accounts blocks) (hlt : token < l.next) :
    l.freed.count token + blocks.count token = 1 := by
  have hcount := h.drawn.count_eq token
  rw [List.count_append, h.live.count_eq] at hcount
  rw [Nat.add_comm, hcount]
  exact List.count_eq_one_of_mem List.nodup_range (List.mem_range.mpr hlt)

end Ledger.Accounts

end IMBlockLedger

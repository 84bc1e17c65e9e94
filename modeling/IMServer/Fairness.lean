import IMServer.Transition
import Mathlib.Order.WellFounded

/-! # Infinite runs — what happens in the end

    A safety property is about finite runs, a property of progress about infinite
    ones.  `LeadsTo` says that a state with `P` is followed by one with `Q`.  The
    rule behind all of it is `leadsTo_of_rank`: the steps that count, of which
    there are infinitely many, come down in a well-founded order, and the others
    do not go up. -/

namespace IMFairness

open IMTransition

variable {S E : Type} {sys : System S E}

/-- An infinite run from a reachable state. -/
structure InfiniteRun (sys : System S E) where
  state : Nat → S
  event : Nat → E
  reach : Reachable sys (state 0)
  step : ∀ n, sys.step (state n) (event n) = some (state (n + 1))

namespace InfiniteRun

theorem reachable (ρ : InfiniteRun sys) : ∀ n, Reachable sys (ρ.state n) := by
  intro n
  induction n with
  | zero => exact ρ.reach
  | succ n ih => exact .step ih (ρ.step n)

/-- Steps with `K` come again and again. -/
def Often (ρ : InfiniteRun sys) (K : S → E → Prop) : Prop :=
  ∀ n, ∃ m, n ≤ m ∧ K (ρ.state m) (ρ.event m)

/-- A state with `P` is followed by one with `Q`. -/
def LeadsTo (ρ : InfiniteRun sys) (P Q : S → Prop) : Prop :=
  ∀ n, P (ρ.state n) → ∃ m, n ≤ m ∧ Q (ρ.state m)

variable {ρ : InfiniteRun sys}

theorem LeadsTo.trans {P Q R : S → Prop} (hPQ : ρ.LeadsTo P Q)
    (hQR : ρ.LeadsTo Q R) : ρ.LeadsTo P R := by
  intro n hP
  obtain ⟨m, hnm, hQ⟩ := hPQ n hP
  obtain ⟨k, hmk, hR⟩ := hQR m hQ
  exact ⟨k, Nat.le_trans hnm hmk, hR⟩

section Rank

variable {α : Type} [Preorder α] [WellFoundedLT α]

/-- **RANK RULE**: while `P` holds, every step reaches `Q` or keeps `P` without
    raising the rank, and the steps with `K` lower it. -/
theorem leadsTo_of_rank {P Q : S → Prop} {K : S → E → Prop} (rank : S → α)
    (hK : ρ.Often K)
    (hkeep : ∀ n, P (ρ.state n) → Q (ρ.state (n + 1))
      ∨ (P (ρ.state (n + 1)) ∧ rank (ρ.state (n + 1)) ≤ rank (ρ.state n)))
    (hlower : ∀ n, P (ρ.state n) → K (ρ.state n) (ρ.event n) →
      Q (ρ.state (n + 1)) ∨ rank (ρ.state (n + 1)) < rank (ρ.state n)) :
    ρ.LeadsTo P Q := by
  intro n hP
  induction hr : rank (ρ.state n) using WellFoundedLT.induction generalizing n with
  | ind r ih =>
      subst hr
      obtain ⟨m, hnm, hm⟩ := hK n
      -- up to the next step that counts
      have hmid : ∀ d, (∃ k, n ≤ k ∧ Q (ρ.state k))
          ∨ (P (ρ.state (n + d))
            ∧ rank (ρ.state (n + d)) ≤ rank (ρ.state n)) := by
        intro d
        induction d with
        | zero => exact Or.inr ⟨hP, le_refl _⟩
        | succ d ihd =>
            rcases ihd with h | ⟨hP', hle⟩
            · exact Or.inl h
            · rcases hkeep (n + d) hP' with hQ | ⟨hP'', hle'⟩
              · exact Or.inl ⟨n + d + 1, by omega, hQ⟩
              · exact Or.inr ⟨hP'', hle'.trans hle⟩
      obtain ⟨d, rfl⟩ := Nat.exists_eq_add_of_le hnm
      rcases hmid d with h | ⟨hP', hle⟩
      · exact h
      · rcases hkeep (n + d) hP' with hQ | ⟨hP'', -⟩
        · exact ⟨n + d + 1, by omega, hQ⟩
        · rcases hlower (n + d) hP' hm with hQ | hlt
          · exact ⟨n + d + 1, by omega, hQ⟩
          · obtain ⟨k, hk, hQ⟩ := ih _ (hlt.trans_le hle) (n + d + 1) hP'' rfl
            exact ⟨k, by omega, hQ⟩

end Rank

/-! ## Building runs -/

/-- One step in front. -/
def cons (ρ : InfiniteRun sys) (s : S) (e : E) (hs : Reachable sys s)
    (h : sys.step s e = some (ρ.state 0)) : InfiniteRun sys where
  state := fun n => match n with
    | 0 => s
    | n + 1 => ρ.state n
  event := fun n => match n with
    | 0 => e
    | n + 1 => ρ.event n
  reach := hs
  step := fun n => match n with
    | 0 => h
    | n + 1 => ρ.step n

/-- A finite run in front: the infinite run begins where it begins, takes its
    steps, and goes on. -/
theorem exists_prepend (ρ : InfiniteRun sys) : ∀ (es : List E) (s : S),
    Reachable sys s → runFrom sys s es = some (ρ.state 0) →
    ∃ ρ' : InfiniteRun sys, ρ'.state 0 = s
      ∧ (∀ P : S → E → Prop, Along sys P s es →
        ∀ n, n < es.length → P (ρ'.state n) (ρ'.event n))
      ∧ ∀ n, ρ'.state (es.length + n) = ρ.state n
        ∧ ρ'.event (es.length + n) = ρ.event n := by
  intro es
  induction es with
  | nil =>
      intro s _ h
      refine ⟨ρ, (Option.some.inj h).symm,
        fun _ _ n hn => absurd hn (Nat.not_lt_zero n), fun n => ?_⟩
      rw [List.length_nil, Nat.zero_add]
      exact ⟨rfl, rfl⟩
  | cons e es ih =>
      intro s hs h
      obtain ⟨s₁, hstep, hrun⟩ := Option.bind_eq_some_iff.mp h
      obtain ⟨ρ₁, h0, hfront, htail⟩ := ih s₁ (.step hs hstep) hrun
      refine ⟨ρ₁.cons s e hs (h0 ▸ hstep), rfl, fun P hP n hn => ?_, fun n => ?_⟩
      · cases n with
        | zero => exact hP.1
        | succ n => exact hfront P (hP.2 s₁ hstep) n (Nat.lt_of_succ_lt_succ hn)
      · have hlen : (e :: es).length + n = es.length + n + 1 := by
          rw [List.length_cons]
          omega
        rw [hlen]
        exact htail n

/-- What comes again and again in a tail of a run does so in the run. -/
theorem often_of_tail {ρ ρ' : InfiniteRun sys} {K : S → E → Prop} {k : Nat}
    (h : ∀ n, ρ'.state (k + n) = ρ.state n ∧ ρ'.event (k + n) = ρ.event n)
    (hK : ρ.Often K) : ρ'.Often K := by
  intro n
  obtain ⟨m, hnm, hm⟩ := hK n
  obtain ⟨hstate, hevent⟩ := h m
  refine ⟨k + m, by omega, ?_⟩
  rw [hstate, hevent]
  exact hm

/-- Where a run that repeats the events `ls` from `s` on stands. -/
def loopState (sys : System S E) (s : S) (ls : List E) (n : Nat) : S :=
  (runFrom sys s (ls.take (n % ls.length))).getD s

theorem loopState_step {ls : List E} {s : S} (hloop : runFrom sys s ls = some s)
    {n : Nat} (h : n % ls.length < ls.length) :
    sys.step (loopState sys s ls n) (ls.get ⟨n % ls.length, h⟩)
      = some (loopState sys s ls (n + 1)) := by
  have hhere := hloop
  rw [← List.take_append_drop (n % ls.length + 1) ls, runFrom_append] at hhere
  obtain ⟨t', ht', -⟩ := Option.bind_eq_some_iff.mp hhere
  have hround := ht'
  rw [List.take_succ_eq_append_getElem h, runFrom_append] at hround
  obtain ⟨t, ht, hrest⟩ := Option.bind_eq_some_iff.mp hround
  obtain ⟨t₁, hstep, heq⟩ := Option.bind_eq_some_iff.mp hrest
  obtain rfl := Option.some.inj heq
  have hsucc := Nat.add_mod n 1 ls.length
  have hnext : loopState sys s ls (n + 1) = t₁ := by
    rcases Nat.lt_or_eq_of_le (Nat.succ_le_of_lt h) with hlt | hend
    · -- inside the list
      have hlt : n % ls.length + 1 < ls.length := hlt
      rw [Nat.mod_eq_of_lt (Nat.lt_of_le_of_lt (Nat.succ_le_succ (Nat.zero_le _)) hlt),
        Nat.mod_eq_of_lt hlt] at hsucc
      rw [loopState, hsucc, ht']
      rfl
    · -- the next round
      have hend : n % ls.length + 1 = ls.length := hend
      have hall : t₁ = s := by
        rw [hend, List.take_length, hloop] at ht'
        exact (Option.some.inj ht').symm
      have hzero : (n + 1) % ls.length = 0 := by
        have hdiv := Nat.div_add_mod n ls.length
        have hmul : n + 1 = ls.length * (n / ls.length + 1) := by
          rw [Nat.mul_succ]
          omega
        rw [hmul, Nat.mul_mod_right]
      rw [loopState, hzero, hall]
      rfl
  rw [hnext, loopState, ht]
  exact hstep

theorem loopState_along {P : S → E → Prop} {ls : List E} {s : S}
    (hloop : runFrom sys s ls = some s) (hP : Along sys P s ls) {n : Nat}
    (h : n % ls.length < ls.length) :
    P (loopState sys s ls n) (ls.get ⟨n % ls.length, h⟩) := by
  have hsplit : ls = ls.take (n % ls.length)
      ++ ls.get ⟨n % ls.length, h⟩ :: ls.drop (n % ls.length + 1) := by
    rw [List.get_eq_getElem, ← List.drop_eq_getElem_cons h, List.take_append_drop]
  have hhere := hloop
  rw [hsplit, runFrom_append] at hhere
  obtain ⟨t, ht, -⟩ := Option.bind_eq_some_iff.mp hhere
  have hrest := ((along_append sys).mp (hsplit ▸ hP)).2 t ht
  rw [loopState, ht]
  exact hrest.1

/-- The steps of a loop for ever. -/
theorem exists_loop {ls : List E} (hne : ls ≠ []) {s : S} (hs : Reachable sys s)
    (hloop : runFrom sys s ls = some s) :
    ∃ ρ : InfiniteRun sys, ρ.state 0 = s
      ∧ (∀ n, ls[n % ls.length]? = some (ρ.event n))
      ∧ ∀ P : S → E → Prop, Along sys P s ls →
        ∀ n, P (ρ.state n) (ρ.event n) := by
  have hlt : ∀ n, n % ls.length < ls.length :=
    fun n => Nat.mod_lt n (List.length_pos_iff.mpr hne)
  have h0 : loopState sys s ls 0 = s := by
    rw [loopState, Nat.zero_mod]
    rfl
  exact ⟨⟨loopState sys s ls, fun n => ls.get ⟨n % ls.length, hlt n⟩, h0.symm ▸ hs,
    fun n => loopState_step hloop (hlt n)⟩, h0,
    fun n => List.getElem?_eq_getElem (hlt n),
    fun _ hP n => loopState_along hloop hP (hlt n)⟩

/-- An event of the loop comes again and again. -/
theorem often_of_loop {ρ : InfiniteRun sys} {ls : List E} {K : S → E → Prop}
    (hloop : ∀ n, ls[n % ls.length]? = some (ρ.event n)) {e : E} (he : e ∈ ls)
    (hK : ∀ s, K s e) : ρ.Often K := by
  intro n
  obtain ⟨i, hi, rfl⟩ := List.getElem_of_mem he
  refine ⟨ls.length * n + i, ?_, ?_⟩
  · have := Nat.le_mul_of_pos_left n (Nat.zero_lt_of_lt hi)
    omega
  · have hevent := hloop (ls.length * n + i)
    rw [Nat.mul_add_mod, Nat.mod_eq_of_lt hi, List.getElem?_eq_getElem hi] at hevent
    exact Option.some.inj hevent ▸ hK _

/-- **LASSO**: a finite run that ends in a loop makes an infinite run.  What holds
    along the two parts holds at its steps, and the events of the loop come again
    and again. -/
theorem exists_lasso {es ls : List E} (hne : ls ≠ []) {s t : S} (hs : Reachable sys s)
    (hes : runFrom sys s es = some t) (hls : runFrom sys t ls = some t) :
    ∃ ρ : InfiniteRun sys, ρ.state 0 = s
      ∧ (∀ P : S → E → Prop, Along sys P s es → Along sys P t ls →
        ∀ n, P (ρ.state n) (ρ.event n))
      ∧ ∀ (K : S → E → Prop) (e : E), e ∈ ls → (∀ s, K s e) → ρ.Often K := by
  obtain ⟨ρ, h0, hloop, hsteps⟩ :=
    exists_loop hne (runFrom_reachable sys es hs hes) hls
  obtain ⟨ρ', h0', hfront, htail⟩ := ρ.exists_prepend es s hs (h0.symm ▸ hes)
  refine ⟨ρ', h0', fun P hes hls n => ?_, fun K e he hK => ?_⟩
  · by_cases hn : n < es.length
    · exact hfront P hes n hn
    · obtain ⟨m, rfl⟩ := Nat.exists_eq_add_of_le (Nat.le_of_not_lt hn)
      rw [(htail m).1, (htail m).2]
      exact hsteps P hls m
  · exact often_of_tail htail (often_of_loop hloop he hK)

end InfiniteRun

end IMFairness

import Mathlib.Data.List.Basic
import Mathlib.Data.Nat.Find

/-! # Transition systems — guarded steps, reachable states, whole runs

    `step s e` is `some s'` when the event `e` can happen in `s` and leads to
    `s'`, and `none` when it cannot.  A property of whole runs is stated with
    `Along`: the predicate holds at every step the run takes.  The two rules
    below carry a one-step argument to every reachable state and to every step
    of every run; `along_iff` and `along_congr` turn an equivalence of two step
    predicates into an equivalence of the run properties. -/

namespace IMTransition

/-- A transition system over states `S` and events `E`. -/
structure System (S E : Type) where
  start : S → Prop
  step : S → E → Option S

variable {S E : Type} (sys : System S E)

/-- The states some run from a start state ends in. -/
inductive Reachable : S → Prop where
  | start {s : S} : sys.start s → Reachable s
  | step {s s' : S} {e : E} : Reachable s → sys.step s e = some s' → Reachable s'

/-- The state after a run, when every event of it can happen. -/
def runFrom : S → List E → Option S
  | s, [] => some s
  | s, e :: es => (sys.step s e).bind fun s' => runFrom s' es

/-- `P` holds at every step of the run. -/
def Along (P : S → E → Prop) : S → List E → Prop
  | _, [] => True
  | s, e :: es => P s e ∧ ∀ s', sys.step s e = some s' → Along P s' es

/-- **INVARIANT RULE**: what holds at the start and is kept by every step holds
    in every reachable state. -/
theorem reachable_inv {I : S → Prop} (h0 : ∀ s, sys.start s → I s)
    (hs : ∀ s e s', I s → sys.step s e = some s' → I s') {s : S}
    (h : Reachable sys s) : I s := by
  induction h with
  | start h => exact h0 _ h
  | step _ he ih => exact hs _ _ _ ih he

/-- **RUN RULE**: an invariant that the steps allowed by `C` keep gives, at every
    step of a run of such steps, whatever the invariant implies there. -/
theorem along_of_inv {I : S → Prop} {C P : S → E → Prop}
    (hs : ∀ s e s', I s → C s e → sys.step s e = some s' → I s')
    (hP : ∀ s e, I s → C s e → P s e) :
    ∀ (es : List E) (s : S), I s → Along sys C s es → Along sys P s es := by
  intro es
  induction es with
  | nil => intro s _ _; exact trivial
  | cons e es ih =>
      intro s hI hC
      obtain ⟨hc, hrest⟩ := hC
      refine ⟨hP s e hI hc, ?_⟩
      intro s' hstep
      exact ih s' (hs s e s' hI hc hstep) (hrest s' hstep)

/-- An invariant that the steps allowed by `C` keep holds where a run of such
    steps ends. -/
theorem runFrom_inv {I : S → Prop} {C : S → E → Prop}
    (hs : ∀ s e s', I s → C s e → sys.step s e = some s' → I s') :
    ∀ (es : List E) {s s' : S}, I s → Along sys C s es →
      runFrom sys s es = some s' → I s' := by
  intro es
  induction es with
  | nil => exact fun hI _ h => Option.some.inj h ▸ hI
  | cons e es ih =>
      intro s s' hI hC h
      obtain ⟨s₁, hstep, hrun⟩ := Option.bind_eq_some_iff.mp h
      exact ih (hs s e s₁ hI hC.1 hstep) (hC.2 s₁ hstep) hrun

/-- Both predicates hold at every step. -/
theorem Along.and {P Q : S → E → Prop} :
    ∀ {es : List E} {s : S}, Along sys P s es → Along sys Q s es →
      Along sys (fun s e => P s e ∧ Q s e) s es := by
  intro es
  induction es with
  | nil => intro s _ _; exact trivial
  | cons e es ih =>
      intro s hP hQ
      exact ⟨⟨hP.1, hQ.1⟩, fun s' h => ih (hP.2 s' h) (hQ.2 s' h)⟩

/-- **UNWINDING RULE**: two runs with the same inputs stay related, when a step
    without input keeps either run related to the other, and a step of both with
    the same input keeps them related. -/
theorem unwinding {I : Type} (input : E → Option I) {R : S → S → Prop}
    (hsymm : ∀ s t, R s t → R t s)
    (hsilent : ∀ s t e s', R s t → input e = none → sys.step s e = some s' →
      R s' t)
    (hboth : ∀ s t e e' s' t' i, R s t → input e = some i →
      input e' = some i → sys.step s e = some s' → sys.step t e' = some t' →
      R s' t') :
    ∀ (es es' : List E) (s t s' t' : S), R s t →
      es.filterMap input = es'.filterMap input → runFrom sys s es = some s' →
      runFrom sys t es' = some t' → R s' t' := by
  intro es
  induction es with
  | nil =>
      intro es'
      induction es' with
      | nil =>
          intro s t s' t' h _ hs ht
          exact Option.some.inj hs ▸ Option.some.inj ht ▸ h
      | cons e es' ih =>
          intro s t s' t' h hin hs ht
          obtain ⟨t₁, hstep, hrun⟩ := Option.bind_eq_some_iff.mp ht
          cases he : input e with
          | none =>
              rw [List.filterMap_cons_none he] at hin
              exact ih s t₁ s' t' (hsymm _ _ (hsilent t s e t₁ (hsymm _ _ h) he
                hstep)) hin hs hrun
          | some i =>
              rw [List.filterMap_cons_some he] at hin
              cases hin
  | cons e es ih =>
      intro es'
      induction es' with
      | nil =>
          intro s t s' t' h hin hs ht
          obtain ⟨s₁, hstep, hrun⟩ := Option.bind_eq_some_iff.mp hs
          cases he : input e with
          | none =>
              rw [List.filterMap_cons_none he] at hin
              exact ih [] s₁ t s' t' (hsilent s t e s₁ h he hstep) hin hrun ht
          | some i =>
              rw [List.filterMap_cons_some he] at hin
              cases hin
      | cons e' es' ih' =>
          intro s t s' t' h hin hs ht
          obtain ⟨s₁, hstep, hrun⟩ := Option.bind_eq_some_iff.mp hs
          obtain ⟨t₁, hstep', hrun'⟩ := Option.bind_eq_some_iff.mp ht
          cases he : input e with
          | none =>
              rw [List.filterMap_cons_none he] at hin
              exact ih (e' :: es') s₁ t s' t' (hsilent s t e s₁ h he hstep) hin
                hrun ht
          | some i =>
              cases he' : input e' with
              | none =>
                  rw [List.filterMap_cons_none he'] at hin
                  exact ih' s t₁ s' t' (hsymm _ _ (hsilent t s e' t₁
                    (hsymm _ _ h) he' hstep')) hin hs hrun'
              | some i' =>
                  rw [List.filterMap_cons_some he,
                    List.filterMap_cons_some he'] at hin
                  obtain ⟨rfl, hin'⟩ := List.cons.inj hin
                  exact ih es' s₁ t₁ s' t' (hboth s t e e' s₁ t₁ i h he he' hstep
                    hstep') hin' hrun hrun'

/-- A condition on the events alone. -/
theorem along_of_mem {K : E → Prop} :
    ∀ (es : List E) (s : S), (∀ e ∈ es, K e) → Along sys (fun _ e => K e) s es := by
  intro es
  induction es with
  | nil => intro s _; exact trivial
  | cons e es ih =>
      intro s h
      exact ⟨h e (List.mem_cons_self ..),
        fun s' _ => ih s' (fun e' he' => h e' (List.mem_cons_of_mem _ he'))⟩

/-- Two step predicates that agree under an invariant, which the steps that meet
    them keep, agree along every run of steps allowed by `K`. -/
theorem along_iff {I : S → Prop} {K P Q : S → E → Prop}
    (hs : ∀ s e s', I s → K s e → Q s e → sys.step s e = some s' → I s')
    (hPQ : ∀ s e, I s → K s e → (P s e ↔ Q s e)) (es : List E) (s : S)
    (hI : I s) (hK : Along sys K s es) :
    Along sys P s es ↔ Along sys Q s es := by
  constructor
  · intro hP
    exact along_of_inv (C := fun s e => K s e ∧ P s e) sys
      (fun s e s' h hC => hs s e s' h hC.1 ((hPQ s e h hC.1).mp hC.2))
      (fun s e h hC => (hPQ s e h hC.1).mp hC.2) es s hI (hK.and sys hP)
  · intro hQ
    exact along_of_inv (C := fun s e => K s e ∧ Q s e) sys
      (fun s e s' h hC => hs s e s' h hC.1 hC.2)
      (fun s e h hC => (hPQ s e h hC.1).mpr hC.2) es s hI (hK.and sys hQ)

/-- Two step predicates that agree under an invariant agree along every run of
    steps allowed by `K`. -/
theorem along_congr {I : S → Prop} {K P Q : S → E → Prop}
    (hs : ∀ s e s', I s → K s e → sys.step s e = some s' → I s')
    (hPQ : ∀ s e, I s → K s e → (P s e ↔ Q s e)) (es : List E) (s : S)
    (hI : I s) (hK : Along sys K s es) :
    Along sys P s es ↔ Along sys Q s es :=
  along_iff sys (fun s e s' h hk _ => hs s e s' h hk) hPQ es s hI hK

/-- One event. -/
theorem runFrom_single {s s' : S} {e : E} (h : sys.step s e = some s') :
    runFrom sys s [e] = some s' := by
  rw [runFrom, h]
  rfl

/-- A run in two parts. -/
theorem runFrom_append : ∀ (es : List E) {es' : List E} {s : S},
    runFrom sys s (es ++ es') = (runFrom sys s es).bind fun s' =>
      runFrom sys s' es' := by
  intro es
  induction es with
  | nil => intro es' s; rfl
  | cons e es ih =>
      intro es' s
      rw [List.cons_append, runFrom, runFrom, Option.bind_assoc]
      exact congrArg _ (funext fun s' => ih)

/-- What holds along a run in two parts. -/
theorem along_append {P : S → E → Prop} : ∀ {es es' : List E} {s : S},
    Along sys P s (es ++ es') ↔ Along sys P s es
      ∧ ∀ s', runFrom sys s es = some s' → Along sys P s' es' := by
  intro es
  induction es with
  | nil =>
      intro es' s
      constructor
      · intro h
        exact ⟨trivial, fun s' hs => Option.some.inj hs ▸ h⟩
      · rintro ⟨-, h⟩
        exact h s rfl
  | cons e es ih =>
      intro es' s
      constructor
      · rintro ⟨hp, hrest⟩
        refine ⟨⟨hp, fun s₁ h₁ => (ih.mp (hrest s₁ h₁)).1⟩, ?_⟩
        intro s' hs
        obtain ⟨s₁, h₁, hrun⟩ := Option.bind_eq_some_iff.mp hs
        exact (ih.mp (hrest s₁ h₁)).2 s' hrun
      · rintro ⟨⟨hp, hrest⟩, h⟩
        refine ⟨hp, fun s₁ h₁ => ih.mpr ⟨hrest s₁ h₁, fun s' hs => h s' ?_⟩⟩
        exact Option.bind_eq_some_iff.mpr ⟨s₁, h₁, hs⟩

/-- A run goes on with steps along which the same holds. -/
theorem Along.append {P : S → E → Prop} {es es' : List E} {s s' : S}
    (h : Along sys P s es) (hrun : runFrom sys s es = some s')
    (h' : Along sys P s' es') : Along sys P s (es ++ es') := by
  refine (along_append sys).mpr ⟨h, fun s₁ h₁ => ?_⟩
  rw [hrun] at h₁
  exact Option.some.inj h₁ ▸ h'

/-- The run, checked step by step. -/
def checkRun (p : S → E → Bool) : S → List E → Bool
  | _, [] => true
  | s, e :: es => p s e && match sys.step s e with
    | none => true
    | some s' => checkRun p s' es

theorem along_of_checkRun {P : S → E → Prop} [∀ s e, Decidable (P s e)] :
    ∀ {es : List E} {s : S},
      checkRun sys (fun s e => decide (P s e)) s es = true → Along sys P s es := by
  intro es
  induction es with
  | nil => intro s _; exact trivial
  | cons e es ih =>
      intro s h
      obtain ⟨hp, hrest⟩ := Bool.and_eq_true_iff.mp h
      refine ⟨of_decide_eq_true hp, fun s' hs => ih ?_⟩
      rw [hs] at hrest
      exact hrest

/-! ## Simulations -/

variable {T F : Type}

/-- The events of another system that stand for those of a run: `image s e` for
    the event `e` in the state `s`. -/
def imageRun (image : S → E → List F) : S → List E → List F
  | _, [] => []
  | s, e :: es => image s e ++ match sys.step s e with
    | none => []
    | some s' => imageRun image s' es

/-- **SIMULATION RULE**: when every step allowed by `C` is followed by the events
    that stand for it, every run of such steps is. -/
theorem simulation (sys' : System T F) {image : S → E → List F} {R : S → T → Prop}
    {C : S → E → Prop}
    (hs : ∀ s e s' t, R s t → C s e → sys.step s e = some s' →
      ∃ t', runFrom sys' t (image s e) = some t' ∧ R s' t') :
    ∀ (es : List E) {s s' : S} {t : T}, R s t → Along sys C s es →
      runFrom sys s es = some s' →
      ∃ t', runFrom sys' t (imageRun sys image s es) = some t' ∧ R s' t' := by
  intro es
  induction es with
  | nil =>
      intro s s' t h _ hrun
      exact ⟨t, rfl, Option.some.inj hrun ▸ h⟩
  | cons e es ih =>
      intro s s' t h hC hrun
      obtain ⟨s₁, hstep, hrest⟩ := Option.bind_eq_some_iff.mp hrun
      obtain ⟨t₁, ht₁, h₁⟩ := hs s e s₁ t h hC.1 hstep
      obtain ⟨t', ht', h'⟩ := ih h₁ (hC.2 s₁ hstep) hrest
      refine ⟨t', ?_, h'⟩
      rw [imageRun, hstep, runFrom_append, ht₁]
      exact ht'

/-- A replay from a reachable state ends in a reachable state. -/
theorem runFrom_reachable : ∀ (es : List E) {s s' : S}, Reachable sys s →
    runFrom sys s es = some s' → Reachable sys s' := by
  intro es
  induction es with
  | nil =>
      intro s s' hs h
      exact Option.some.inj h ▸ hs
  | cons e es ih =>
      intro s s' hs h
      obtain ⟨s₁, hstep, hrun⟩ := Option.bind_eq_some_iff.mp h
      exact ih (Reachable.step hs hstep) hrun

/-! ## While loops

    A loop has a test and a body, and both may depend on the number of the
    iteration, for what the surroundings contribute to it.  `EndsAfter` says that
    the test succeeds `n` times and then fails; `ends_of_measure` finds `n` when
    the body lowers a measure. -/

/-- A loop over states `S`. -/
structure Loop (S : Type) where
  test : Nat → S → Bool
  body : Nat → S → S

/-- The state at test number `k`. -/
def Loop.stateAt (loop : Loop S) (s : S) : Nat → S
  | 0 => s
  | k + 1 => loop.body k (loop.stateAt s k)

/-- The loop ends after `n` iterations. -/
structure Loop.EndsAfter (loop : Loop S) (s : S) (n : Nat) : Prop where
  goesOn : ∀ k < n, loop.test k (loop.stateAt s k) = true
  stops : loop.test n (loop.stateAt s n) = false

/-- While the loop goes on, the invariant holds and each iteration has lowered the
    measure. -/
theorem measure_falls (loop : Loop S) {I : S → Prop} {m : S → Nat}
    (hI : ∀ k s, I s → loop.test k s = true → I (loop.body k s))
    (hm : ∀ k s, I s → loop.test k s = true → m (loop.body k s) < m s) {s : S}
    (h : I s) : ∀ n, (∀ k < n, loop.test k (loop.stateAt s k) = true) →
      I (loop.stateAt s n) ∧ m (loop.stateAt s n) + n ≤ m s := by
  intro n
  induction n with
  | zero => intro _; exact ⟨h, Nat.le_refl _⟩
  | succ n ih =>
      intro hgo
      obtain ⟨hinv, hle⟩ := ih fun k hk => hgo k (Nat.lt_succ_of_lt hk)
      have htest := hgo n (Nat.lt_succ_self n)
      refine ⟨hI n _ hinv htest, ?_⟩
      have hlt := hm n _ hinv htest
      show m (loop.body n (loop.stateAt s n)) + (n + 1) ≤ m s
      omega

/-- **MEASURE RULE**: the loop ends after at most as many iterations as the measure
    of its first state, and the invariant holds at every test. -/
theorem ends_of_measure (loop : Loop S) {I : S → Prop} {m : S → Nat}
    (hI : ∀ k s, I s → loop.test k s = true → I (loop.body k s))
    (hm : ∀ k s, I s → loop.test k s = true → m (loop.body k s) < m s) {s : S}
    (h : I s) : ∃ n, loop.EndsAfter s n ∧ n ≤ m s
      ∧ ∀ k ≤ n, I (loop.stateAt s k) := by
  have hfalls := measure_falls loop hI hm h
  have hend : ∃ n, loop.test n (loop.stateAt s n) = false := by
    by_contra hno
    have hgo : ∀ k < m s + 1, loop.test k (loop.stateAt s k) = true :=
      fun k _ => (Bool.not_eq_false _).mp fun hk => hno ⟨k, hk⟩
    have := (hfalls (m s + 1) hgo).2
    omega
  have hgo : ∀ k < Nat.find hend, loop.test k (loop.stateAt s k) = true :=
    fun k hk => (Bool.not_eq_false _).mp (Nat.find_min hend hk)
  refine ⟨Nat.find hend, ⟨hgo, Nat.find_spec hend⟩, ?_, ?_⟩
  · have := (hfalls _ hgo).2
    omega
  · intro k hk
    exact (hfalls k fun j hj => hgo j (Nat.lt_of_lt_of_le hj hk)).1

end IMTransition

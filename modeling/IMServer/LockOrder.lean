import Mathlib.Logic.Function.Basic
import Mathlib.Logic.Relation
import IMServer.Transition

/-! # Locks taken in order — threads that block one another

    A program is kept as far as its locks go: a `Script` says in which order
    locks are taken and given back, and where the thread waits for something
    outside of the program.  Conditions are left to chance, so a script has every
    run the program has.

    `Fits` is the discipline: each lock ranks above those already held, locks go
    back in the reverse order, and outside waits happen only under the locks
    allowed there.  Threads with fitting scripts never wait for one another in a
    circle (`not_waitsFor_cycle`), and whoever waits for a lock waits, through the
    holders, for a thread that can go on or is in an outside wait
    (`waitsFor_ends`). -/

namespace IMLockOrder

open IMTransition

variable {T L W I : Type}

/-! ## Scripts -/

/-- What a thread does with its locks. -/
inductive Act (L W : Type) where
  | acquire (l : L)
  | release (l : L)
  | wait (w : W)

/-- Code, as far as its locks go. -/
inductive Script (L W I : Type) where
  | skip
  | act (a : Act L W)
  | seq (p q : Script L W I)
  | alt (p q : Script L W I)
  | loop (p : Script L W I)
  | any (p : I → Script L W I)

/-- How a condition turns out. -/
inductive Choice (I : Type) where
  | go
  | left
  | right
  | pick (i : I)

/-- The code behind one step of control. -/
def Script.next : Script L W I → Choice I → Option (List (Script L W I))
  | .skip, .go => some []
  | .seq p q, .go => some [p, q]
  | .alt p _, .left => some [p]
  | .alt _ q, .right => some [q]
  | .loop p, .left => some [p, .loop p]
  | .loop _, .right => some []
  | .any p, .pick i => some [p i]
  | _, _ => none

/-! ## The discipline -/

variable (rank : L → Nat) (mayWait : W → List L → Prop)

/-- From the locks `h`, the last taken first, the code ends with `h'`. -/
inductive Fits : Script L W I → List L → List L → Prop where
  | skip {h : List L} : Fits .skip h h
  | acquire {l : L} {h : List L} : (∀ m ∈ h, rank m < rank l) →
      Fits (.act (.acquire l)) h (l :: h)
  | release {l : L} {h : List L} : Fits (.act (.release l)) (l :: h) h
  | wait {w : W} {h : List L} : mayWait w h → Fits (.act (.wait w)) h h
  | seq {p q : Script L W I} {h h₁ h' : List L} : Fits p h h₁ → Fits q h₁ h' →
      Fits (.seq p q) h h'
  | alt {p q : Script L W I} {h h' : List L} : Fits p h h' → Fits q h h' →
      Fits (.alt p q) h h'
  | loop {p : Script L W I} {h : List L} : Fits p h h → Fits (.loop p) h h
  | any {p : I → Script L W I} {h h' : List L} : (∀ i, Fits (p i) h h') →
      Fits (.any p) h h'

/-- The same for the rest of a thread's code. -/
inductive FitsAll : List (Script L W I) → List L → List L → Prop where
  | nil {h : List L} : FitsAll [] h h
  | cons {p : Script L W I} {k : List (Script L W I)} {h h₁ h' : List L} :
      Fits rank mayWait p h h₁ → FitsAll k h₁ h' → FitsAll (p :: k) h h'

variable {rank mayWait}

theorem FitsAll.append {k k' : List (Script L W I)} {h h₁ h' : List L}
    (hk : FitsAll rank mayWait k h h₁) (hk' : FitsAll rank mayWait k' h₁ h') :
    FitsAll rank mayWait (k ++ k') h h' := by
  induction hk with
  | nil => exact hk'
  | cons hp _ ih => exact .cons hp (ih hk')

/-- A step of control keeps to the discipline. -/
theorem Fits.next {p : Script L W I} {choice : Choice I}
    {ps : List (Script L W I)} {h h' : List L} (hp : Fits rank mayWait p h h')
    (hn : p.next choice = some ps) : FitsAll rank mayWait ps h h' := by
  cases hp with
  | skip => cases choice <;> cases hn; exact .nil
  | acquire _ => cases choice <;> cases hn
  | release => cases choice <;> cases hn
  | wait _ => cases choice <;> cases hn
  | seq h₁ h₂ => cases choice <;> cases hn; exact .cons h₁ (.cons h₂ .nil)
  | alt h₁ h₂ =>
      cases choice <;> cases hn
      · exact .cons h₁ .nil
      · exact .cons h₂ .nil
  | loop h₁ =>
      cases choice <;> cases hn
      · exact .cons h₁ (.cons (.loop h₁) .nil)
      · exact .nil
  | any h₁ =>
      cases choice <;> cases hn
      exact .cons (h₁ _) .nil

/-- A pair of lock and unlock around a script. -/
def guarded (l : L) (p : Script L W I) : Script L W I :=
  .seq (.act (.acquire l)) (.seq p (.act (.release l)))

theorem fits_guarded {l : L} {p : Script L W I} {h : List L}
    (hl : ∀ m ∈ h, rank m < rank l)
    (hp : Fits rank mayWait p (l :: h) (l :: h)) :
    Fits rank mayWait (guarded l p) h h :=
  .seq (.acquire hl) (.seq hp .release)

/-- Code that may be left out. -/
def optional (p : Script L W I) : Script L W I := .alt .skip p

theorem fits_optional {p : Script L W I} {h : List L}
    (hp : Fits rank mayWait p h h) : Fits rank mayWait (optional p) h h :=
  .alt .skip hp

/-! ## The threads -/

/-- The threads with the code each has still to run, and who holds which lock. -/
structure State (T L W I : Type) where
  code : T → List (Script L W I)
  holder : L → Option T

section Steps

variable [DecidableEq T]

/-- The thread `t` has `k` still to run. -/
def State.goOn (s : State T L W I) (t : T) (k : List (Script L W I)) :
    State T L W I :=
  { s with code := Function.update s.code t k }

variable [DecidableEq L]

/-- A free lock is taken, a lock of the thread's own given back.  An outside wait
    may end at any time. -/
def actStep (s : State T L W I) (t : T) : Act L W → Option (State T L W I)
  | .acquire l =>
      if s.holder l = none then
        some { s with holder := Function.update s.holder l (some t) }
      else none
  | .release l =>
      if s.holder l = some t then
        some { s with holder := Function.update s.holder l none }
      else none
  | .wait _ => some s

/-- One step of one thread. -/
def step (s : State T L W I) : T × Choice I → Option (State T L W I)
  | (t, choice) => match s.code t with
    | [] => none
    | .act a :: k => (actStep s t a).map fun s => s.goOn t k
    | p :: k => (p.next choice).map fun ps => s.goOn t (ps ++ k)

/-- All locks are free when the threads start. -/
def lockSystem (program : T → Script L W I) :
    System (State T L W I) (T × Choice I) where
  start := fun s => (∀ t, s.code t = [program t]) ∧ ∀ l, s.holder l = none
  step := step

theorem step_control {s : State T L W I} {t : T} {choice : Choice I}
    {p : Script L W I} {k ps : List (Script L W I)} (hcode : s.code t = p :: k)
    (hps : p.next choice = some ps) :
    step s (t, choice) = some (s.goOn t (ps ++ k)) := by
  cases p with
  | act a => cases choice <;> cases hps
  | _ => simp only [step, hcode, hps, Option.map_some]

theorem step_act {s : State T L W I} {t : T} {choice : Choice I} {a : Act L W}
    {k : List (Script L W I)} (hcode : s.code t = .act a :: k) :
    step s (t, choice) = (actStep s t a).map fun s => s.goOn t k := by
  simp only [step, hcode]

end Steps

/-! ## The invariant -/

variable (rank mayWait) in
/-- **THE LOCK INVARIANT**: each thread holds the locks its code still gives
    back, and each of them ranks above those it took before. -/
structure Ordered (s : State T L W I) (held : T → List L) : Prop where
  fits : ∀ t, FitsAll rank mayWait (s.code t) (held t) []
  holds : ∀ t l, l ∈ held t ↔ s.holder l = some t
  ranks : ∀ t, (held t).Pairwise fun l m => rank m < rank l

theorem ordered_start [DecidableEq T] [DecidableEq L] {program : T → Script L W I}
    (hp : ∀ t, Fits rank mayWait (program t) [] []) {s : State T L W I}
    (hs : (lockSystem program).start s) :
    Ordered rank mayWait s fun _ => [] where
  fits := fun t => by
    rw [hs.1 t]
    exact .cons (hp t) .nil
  holds := fun t l => by
    rw [hs.2 l]
    exact iff_of_false List.not_mem_nil (fun h => by cases h)
  ranks := fun _ => .nil

/-- The held list of one thread changes, the others keep theirs. -/
theorem Ordered.update [DecidableEq T] {s : State T L W I} {held : T → List L}
    (h : Ordered rank mayWait s held) {t : T} {k : List (Script L W I)}
    {holder : L → Option T} {locks : List L}
    (hk : FitsAll rank mayWait k locks [])
    (hown : ∀ l, l ∈ locks ↔ holder l = some t)
    (hother : ∀ u, u ≠ t → ∀ l, holder l = some u ↔ s.holder l = some u)
    (hranks : locks.Pairwise fun l m => rank m < rank l) :
    Ordered rank mayWait ⟨Function.update s.code t k, holder⟩
      (Function.update held t locks) := by
  refine ⟨fun u => ?_, fun u l => ?_, fun u => ?_⟩
  · dsimp only
    by_cases hu : u = t
    · rw [hu, Function.update_self, Function.update_self]
      exact hk
    · rw [Function.update_of_ne hu, Function.update_of_ne hu]
      exact h.fits u
  · by_cases hu : u = t
    · rw [hu, Function.update_self]
      exact hown l
    · rw [Function.update_of_ne hu]
      exact (h.holds u l).trans (hother u hu l).symm
  · by_cases hu : u = t
    · rw [hu, Function.update_self]
      exact hranks
    · rw [Function.update_of_ne hu]
      exact h.ranks u

section Runs

variable [DecidableEq T] [DecidableEq L]

/-- What an action does to the locks of its thread. -/
theorem Ordered.act {s s' : State T L W I} {held : T → List L}
    (h : Ordered rank mayWait s held) {t : T} {a : Act L W}
    {k : List (Script L W I)} (hcode : s.code t = .act a :: k)
    (hs : actStep s t a = some s') :
    ∃ held', Ordered rank mayWait (s'.goOn t k) held' := by
  have hfits := h.fits t
  rw [hcode] at hfits
  generalize hlocks : held t = locks at hfits
  cases hfits with
  | cons ha hk =>
      cases ha with
      | acquire hl =>
          rename_i l
          rw [actStep] at hs
          obtain ⟨hfree, hs⟩ := Option.ite_none_right_eq_some.mp hs
          obtain rfl := Option.some.inj hs
          refine ⟨_, h.update (t := t) hk ?_ ?_ ?_⟩
          · intro m
            dsimp only
            by_cases hm : m = l
            · rw [hm, Function.update_self]
              exact iff_of_true (List.mem_cons_self ..) rfl
            · rw [Function.update_of_ne hm, ← h.holds t m, hlocks,
                List.mem_cons, or_iff_right hm]
          · intro u hu m
            dsimp only
            by_cases hm : m = l
            · rw [hm, Function.update_self, hfree]
              exact iff_of_false (fun e => hu (Option.some.inj e).symm)
                (fun e => by cases e)
            · rw [Function.update_of_ne hm]
          · exact List.pairwise_cons.mpr ⟨hl, hlocks ▸ h.ranks t⟩
      | release =>
          rename_i l
          rw [actStep] at hs
          obtain ⟨hheld, hs⟩ := Option.ite_none_right_eq_some.mp hs
          obtain rfl := Option.some.inj hs
          have hranks := h.ranks t
          rw [hlocks, List.pairwise_cons] at hranks
          refine ⟨_, h.update (t := t) hk ?_ ?_ hranks.2⟩
          · intro m
            dsimp only
            by_cases hm : m = l
            · rw [hm, Function.update_self]
              exact iff_of_false (fun e => Nat.lt_irrefl _ (hranks.1 l e))
                (fun e => by cases e)
            · rw [Function.update_of_ne hm, ← h.holds t m, hlocks,
                List.mem_cons, or_iff_right hm]
          · intro u hu m
            dsimp only
            by_cases hm : m = l
            · rw [hm, Function.update_self, hheld]
              exact iff_of_false (fun e => by cases e)
                (fun e => hu (Option.some.inj e).symm)
            · rw [Function.update_of_ne hm]
      | wait _ =>
          obtain rfl := Option.some.inj hs
          exact ⟨_, h.update (t := t) hk (fun m => by rw [← h.holds t m, hlocks])
            (fun u _ m => Iff.rfl) (hlocks ▸ h.ranks t)⟩

/-- The step lemma. -/
theorem ordered_step {s s' : State T L W I} {e : T × Choice I}
    (h : ∃ held, Ordered rank mayWait s held) (hs : step s e = some s') :
    ∃ held, Ordered rank mayWait s' held := by
  obtain ⟨held, h⟩ := h
  obtain ⟨t, choice⟩ := e
  cases hcode : s.code t with
  | nil => simp only [step, hcode, reduceCtorEq] at hs
  | cons p k =>
      by_cases hact : ∃ a, p = .act a
      · obtain ⟨a, rfl⟩ := hact
        rw [step_act hcode] at hs
        obtain ⟨s₁, h₁, rfl⟩ := Option.map_eq_some_iff.mp hs
        exact h.act hcode h₁
      · -- a step of control leaves the locks alone
        obtain ⟨ps, hps, rfl⟩ : ∃ ps, p.next choice = some ps
            ∧ s.goOn t (ps ++ k) = s' := by
          cases p with
          | act a => exact absurd ⟨a, rfl⟩ hact
          | _ =>
              simp only [step, hcode] at hs
              exact Option.map_eq_some_iff.mp hs
        have hfits := h.fits t
        rw [hcode] at hfits
        generalize hlocks : held t = locks at hfits
        cases hfits with
        | cons hp hk =>
            refine ⟨_, h.update (t := t) ((hp.next hps).append hk)
              (fun m => ?_) (fun u _ m => Iff.rfl) (hlocks ▸ h.ranks t)⟩
            rw [← hlocks]
            exact h.holds t m

theorem ordered_reachable {program : T → Script L W I}
    (hp : ∀ t, Fits rank mayWait (program t) [] []) {s : State T L W I}
    (h : Reachable (lockSystem program) s) :
    ∃ held, Ordered rank mayWait s held :=
  reachable_inv (lockSystem program) (fun _ hs => ⟨_, ordered_start hp hs⟩)
    (fun _ _ _ => ordered_step) h

end Runs

/-! ## Waiting -/

/-- The thread is in an outside wait. -/
def AtWait (s : State T L W I) (t : T) (w : W) : Prop :=
  ∃ k, s.code t = .act (.wait w) :: k

/-- The thread wants a lock. -/
def Wants (s : State T L W I) (t : T) (l : L) : Prop :=
  ∃ k, s.code t = .act (.acquire l) :: k

/-- The thread wants a lock that another has. -/
def WaitsFor (s : State T L W I) (t t' : T) : Prop :=
  ∃ l, Wants s t l ∧ s.holder l = some t'

/-- The thread can take a step of its own. -/
def CanGo [DecidableEq T] [DecidableEq L] (s : State T L W I) (t : T) : Prop :=
  (∀ w, ¬ AtWait s t w) ∧ ∃ choice, (step s (t, choice)).isSome

/-- What a thread wants ranks above all it holds. -/
theorem Ordered.wants {s : State T L W I} {held : T → List L}
    (h : Ordered rank mayWait s held) {t : T} {l : L} (hw : Wants s t l) :
    ∀ m, s.holder m = some t → rank m < rank l := by
  obtain ⟨k, hk⟩ := hw
  have hfits := h.fits t
  rw [hk] at hfits
  intro m hm
  have hmem := (h.holds t m).mpr hm
  generalize held t = locks at hfits hmem
  cases hfits with
  | cons ha _ =>
      cases ha with
      | acquire hl => exact hl m hmem

/-- An outside wait is one the thread may be in. -/
theorem Ordered.atWait {s : State T L W I} {held : T → List L}
    (h : Ordered rank mayWait s held) {t : T} {w : W} (hw : AtWait s t w) :
    mayWait w (held t) := by
  obtain ⟨k, hk⟩ := hw
  have hfits := h.fits t
  rw [hk] at hfits
  cases hfits with
  | cons ha _ =>
      cases ha with
      | wait hw => exact hw

/-- **PROGRESS**: a thread with code left goes on, is in an outside wait it may be
    in, or waits for another thread. -/
theorem Ordered.progress [DecidableEq T] [DecidableEq L] [Nonempty I]
    {s : State T L W I} {held : T → List L}
    (h : Ordered rank mayWait s held) {t : T} (ht : s.code t ≠ []) :
    CanGo s t ∨ (∃ w, AtWait s t w ∧ mayWait w (held t))
      ∨ ∃ t', WaitsFor s t t' := by
  obtain ⟨p, k, hcode⟩ := List.exists_cons_of_ne_nil ht
  have hgo : ∀ choice ps, p.next choice = some ps → CanGo s t := by
    intro choice ps hps
    refine ⟨?_, choice, ?_⟩
    · rintro w ⟨k', hk'⟩
      obtain ⟨rfl, -⟩ := List.cons.inj (hcode.symm.trans hk')
      cases choice <;> cases hps
    · rw [step_control hcode hps]
      rfl
  cases p with
  | skip => exact Or.inl (hgo .go _ rfl)
  | seq p q => exact Or.inl (hgo .go _ rfl)
  | alt p q => exact Or.inl (hgo .left _ rfl)
  | loop p => exact Or.inl (hgo .left _ rfl)
  | any p => exact Or.inl (hgo (.pick (Classical.arbitrary I)) _ rfl)
  | act a =>
      have hact : (actStep s t a).isSome → (∀ w, a ≠ .wait w) → CanGo s t := by
        intro hs hw
        refine ⟨?_, .go, ?_⟩
        · rintro w ⟨k', hk'⟩
          exact hw w (Script.act.inj (List.cons.inj (hcode.symm.trans hk')).1)
        · rw [step_act hcode, Option.isSome_map]
          exact hs
      have hfits := h.fits t
      rw [hcode] at hfits
      generalize hlocks : held t = locks at hfits ⊢
      cases hfits with
      | cons ha hk =>
          cases ha with
          | acquire hl =>
              rename_i l
              cases hfree : s.holder l with
              | none =>
                  refine Or.inl (hact ?_ (fun w e => by cases e))
                  rw [actStep, if_pos hfree]
                  rfl
              | some t' => exact Or.inr (Or.inr ⟨t', l, ⟨k, hcode⟩, hfree⟩)
          | release =>
              rename_i l
              have hown := (h.holds t l).mp (hlocks ▸ List.mem_cons_self ..)
              refine Or.inl (hact ?_ (fun w e => by cases e))
              rw [actStep, if_pos hown]
              rfl
          | wait hw => exact Or.inr (Or.inl ⟨_, ⟨k, hcode⟩, hw⟩)

/-- A thread that holds a lock has code left: it gives the lock back. -/
theorem Ordered.code_ne_nil {s : State T L W I} {held : T → List L}
    (h : Ordered rank mayWait s held) {t : T} {l : L}
    (hl : s.holder l = some t) : s.code t ≠ [] := by
  intro hcode
  have hmem := (h.holds t l).mpr hl
  have hfits := h.fits t
  rw [hcode] at hfits
  generalize held t = locks at hfits hmem
  cases hfits
  cases hmem

/-- **NO CIRCLE**: no threads wait for one another in a circle, none for
    itself. -/
theorem Ordered.not_waitsFor_cycle {s : State T L W I} {held : T → List L}
    (h : Ordered rank mayWait s held) (t : T) :
    ¬ Relation.TransGen (WaitsFor s) t t := by
  -- along a chain of waits the wanted locks rank higher and higher
  have hchain : ∀ {t u}, Relation.TransGen (WaitsFor s) t u →
      ∃ l m, Wants s t l ∧ s.holder m = some u ∧ rank l ≤ rank m := by
    intro t u htu
    induction htu with
    | single hw =>
        obtain ⟨l, hl, hu⟩ := hw
        exact ⟨l, l, hl, hu, Nat.le_refl _⟩
    | tail _ hw ih =>
        obtain ⟨l, m, hl, hm, hle⟩ := ih
        obtain ⟨n, hn, hu⟩ := hw
        exact ⟨l, n, hl, hu, Nat.le_of_lt (Nat.lt_of_le_of_lt hle
          (h.wants hn m hm))⟩
  intro hcycle
  obtain ⟨l, m, hl, hm, hle⟩ := hchain hcycle
  exact Nat.lt_irrefl _ (Nat.lt_of_le_of_lt hle (h.wants hl m hm))

/-- **WHERE A WAIT ENDS**: the chain of holders ends with a thread that holds a
    lock and can go on, or is in an outside wait allowed under its locks. -/
theorem Ordered.waitsFor_ends [DecidableEq T] [DecidableEq L] [Nonempty I]
    {s : State T L W I} {held : T → List L} (h : Ordered rank mayWait s held)
    {bound : Nat} (hbound : ∀ l, rank l < bound) {t t' : T} (hw : WaitsFor s t t') :
    ∃ u, Relation.TransGen (WaitsFor s) t u ∧ held u ≠ []
      ∧ (CanGo s u ∨ ∃ w, AtWait s u w ∧ mayWait w (held u)) := by
  obtain ⟨l, hl, ht'⟩ := hw
  -- by induction on how far the wanted lock is from the highest rank
  generalize hn : bound - rank l = n
  induction n using Nat.strongRecOn generalizing t t' l with
  | ind n ih =>
      have hstep : Relation.TransGen (WaitsFor s) t t' := .single ⟨l, hl, ht'⟩
      have hheld : held t' ≠ [] :=
        List.ne_nil_of_mem ((h.holds t' l).mpr ht')
      rcases h.progress (h.code_ne_nil ht') with hgo | hwait | ⟨u, m, hm, hu⟩
      · exact ⟨t', hstep, hheld, Or.inl hgo⟩
      · exact ⟨t', hstep, hheld, Or.inr hwait⟩
      · have hlt := h.wants hm l ht'
        have hb := hbound m
        obtain ⟨v, hv, hend⟩ := ih (bound - rank m) (by omega) m hm hu rfl
        exact ⟨v, hstep.trans hv, hend⟩

end IMLockOrder

import IMServer.PoolOwnership

/-! # How much the pool grows — `io/cache.c` over whole histories

    The pool never frees a block, so what it has created only grows.  It grows no
    further than its callers make it: of each size there are exactly as many
    caches as were held at the same time at the worst moment so far.

    This rests on the caches of a size waiting in one class, the one
    `get_new_cache` looks into for that size, also when the sizes read behind the
    table repeat (`FirstFiled`). -/

namespace IMPoolPeak

open IMBytes IMCString IMCachePool IMPoolOwnership IMTransition

/-! ## One class for each size -/

/-- Behind a class, the classes of the same size are empty. -/
def FirstFiled (p : CachePool) : Prop :=
  p.availableCacheNode.Pairwise fun c d =>
    d.allocatedCacheSize = c.allocatedCacheSize → d.list = []

/-- Another list for one class, when no class before it has its size. -/
theorem firstFiled_replace {pre post : List SpecifiedSizeCacheList}
    {c : SpecifiedSizeCacheList} {l : List Addr}
    (h : (pre ++ c :: post).Pairwise fun c d =>
      d.allocatedCacheSize = c.allocatedCacheSize → d.list = [])
    (hpre : ∀ d ∈ pre, d.allocatedCacheSize ≠ c.allocatedCacheSize) :
    (pre ++ { c with list := l } :: post).Pairwise fun c d =>
      d.allocatedCacheSize = c.allocatedCacheSize → d.list = [] := by
  obtain ⟨h1, h2, h3⟩ := List.pairwise_append.mp h
  refine List.pairwise_append.mpr ⟨h1, ?_, ?_⟩
  · exact List.pairwise_cons.mpr (List.pairwise_cons.mp h2)
  · intro d hd e he
    rcases List.mem_cons.mp he with rfl | he
    · exact fun hsize => absurd hsize.symm (hpre d hd)
    · exact h3 d hd e (List.mem_cons_of_mem _ he)

theorem firstFiled_makeSureCacheMm {p : CachePool} (h : FirstFiled p) :
    FirstFiled (makeSureCacheMm p) := by
  rw [makeSureCacheMm]
  split
  · refine List.pairwise_map.mpr (List.pairwise_of_forall ?_)
    exact fun _ _ _ => rfl
  · exact h

/-- `get_new_cache` takes the first class that is large enough. -/
theorem takeCache_first {n : Int} :
    ∀ {cs cs' : List SpecifiedSizeCacheList} {size : Int} {o : Option Addr},
      takeCache n cs = some (size, o, cs') →
      ∃ pre c post, cs = pre ++ c :: post ∧ c.allocatedCacheSize = size
        ∧ (∀ d ∈ pre, d.allocatedCacheSize ≠ size)
        ∧ ((o = none ∧ cs' = cs ∧ c.list = [])
          ∨ ∃ a l, o = some a ∧ c.list = a :: l
            ∧ cs' = pre ++ { c with list := l } :: post) := by
  intro cs
  induction cs with
  | nil => intro cs' size o h; cases h
  | cons c cs ih =>
      intro cs' size o h
      rw [takeCache] at h
      by_cases hc : c.allocatedCacheSize ≥ n
      · rw [if_pos hc] at h
        cases hl : c.list with
        | nil =>
            rw [hl] at h
            obtain ⟨rfl, rfl, rfl⟩ : c.allocatedCacheSize = size
                ∧ none = o ∧ c :: cs = cs' := by simpa using h
            exact ⟨[], c, cs, rfl, rfl, fun _ hd => (by cases hd),
              Or.inl ⟨rfl, rfl, hl⟩⟩
        | cons a l =>
            rw [hl] at h
            obtain ⟨rfl, rfl, rfl⟩ : c.allocatedCacheSize = size
                ∧ some a = o ∧ { c with list := l } :: cs = cs' := by
              simpa using h
            exact ⟨[], c, cs, rfl, rfl, fun _ hd => (by cases hd),
              Or.inr ⟨a, l, rfl, hl, rfl⟩⟩
      · rw [if_neg hc] at h
        obtain ⟨⟨size₁, o₁, cs₁⟩, hr, heq⟩ := Option.map_eq_some_iff.mp h
        obtain ⟨rfl, rfl, rfl⟩ : size₁ = size ∧ o₁ = o ∧ c :: cs₁ = cs' := by
          simpa using heq
        -- the class that serves is large enough, this one is not
        have hlarge : n ≤ size₁ := by
          have hfind := takeCache_size n cs
          rw [hr] at hfind
          simpa using List.find?_some hfind.symm
        obtain ⟨pre, d, post, rfl, hsize, hpre, hcase⟩ := ih hr
        refine ⟨c :: pre, d, post, rfl, hsize, ?_, ?_⟩
        · intro e he
          rcases List.mem_cons.mp he with rfl | he
          · omega
          · exact hpre e he
        · rcases hcase with ⟨ho, hcs', hl⟩ | ⟨a, l, ho, hl, hcs'⟩
          · exact Or.inl ⟨ho, by rw [hcs'], hl⟩
          · exact Or.inr ⟨a, l, ho, hl, by rw [hcs']; rfl⟩

/-- `recycle_cache` takes the first class of the size. -/
theorem putCache_first {size : Int} {a : Addr} :
    ∀ {cs cs' : List SpecifiedSizeCacheList}, putCache size a cs = some cs' →
      ∃ pre c post, cs = pre ++ c :: post ∧ c.allocatedCacheSize = size
        ∧ (∀ d ∈ pre, d.allocatedCacheSize ≠ size)
        ∧ cs' = pre ++ { c with list := c.list ++ [a] } :: post := by
  intro cs
  induction cs with
  | nil => intro cs' h; cases h
  | cons c cs ih =>
      intro cs' h
      rw [putCache] at h
      by_cases hc : c.allocatedCacheSize = size
      · rw [if_pos hc] at h
        exact ⟨[], c, cs, rfl, hc, fun _ hd => (by cases hd),
          (Option.some.inj h).symm⟩
      · rw [if_neg hc] at h
        obtain ⟨cs₁, hr, rfl⟩ := Option.map_eq_some_iff.mp h
        obtain ⟨pre, d, post, rfl, hsize, hpre, rfl⟩ := ih hr
        refine ⟨c :: pre, d, post, rfl, hsize, ?_, rfl⟩
        intro e he
        rcases List.mem_cons.mp he with rfl | he
        · exact hc
        · exact hpre e he

theorem firstFiled_recycleCache {p : CachePool} (h : FirstFiled p) (a : Addr) :
    FirstFiled (recycleCache p a).2 := by
  have hq := firstFiled_makeSureCacheMm h
  rw [recycleCache]
  cases hput : putCache ((makeSureCacheMm p).mem a).allocatedSize a
      (makeSureCacheMm p).availableCacheNode with
  | none => exact hq
  | some classes =>
      obtain ⟨pre, c, post, hcs, hsize, hpre, rfl⟩ := putCache_first hput
      rw [FirstFiled, hcs] at hq
      exact firstFiled_replace hq (hsize ▸ hpre)

/-- The size of a cache never changes. -/
theorem recycleCache_size {p : CachePool} (h : PoolInv p) (a b : Addr) :
    ((recycleCache p a).2.mem b).allocatedSize = (p.mem b).allocatedSize := by
  obtain ⟨-, -, -, hmem, -⟩ := makeSureCacheMm_spec h
  have hsize : ∀ c : Cache, c.allocatedSize = (p.mem a).allocatedSize →
      (Function.update (makeSureCacheMm p).mem a c b).allocatedSize
        = (p.mem b).allocatedSize := by
    intro c hc
    by_cases hb : b = a
    · rw [hb, Function.update_self, hc]
    · rw [Function.update_of_ne hb, hmem]
  rw [recycleCache]
  cases putCache ((makeSureCacheMm p).mem a).allocatedSize a
      (makeSureCacheMm p).availableCacheNode with
  | none => exact hsize _ (by rw [hmem])
  | some classes => exact hsize _ (by rw [hmem])

/-! ## Counting -/

/-- How many of these caches have this size. -/
def countSize (p : CachePool) (size : Int) (l : List Addr) : Nat :=
  l.countP fun a => decide ((p.mem a).allocatedSize = size)

/-- The caches of a size the pool has created. -/
def createdOf (p : CachePool) (size : Int) : Nat :=
  countSize p size (List.range p.created)

theorem countSize_congr {p p' : CachePool} {size : Int} {l : List Addr}
    (h : ∀ a ∈ l, (p'.mem a).allocatedSize = (p.mem a).allocatedSize) :
    countSize p' size l = countSize p size l := by
  refine List.countP_congr fun a ha => ?_
  rw [h a ha]

theorem countSize_cons (p : CachePool) (size : Int) (a : Addr) (l : List Addr) :
    countSize p size (a :: l) = countSize p size l
      + if (p.mem a).allocatedSize = size then 1 else 0 := by
  rw [countSize, List.countP_cons]
  simp only [decide_eq_true_eq]
  rfl

/-- What `get_new_cache` does to the numbers. -/
structure CountedOut (p p' : CachePool) (a : Addr) : Prop where
  sizes : ∀ b < p.created, (p'.mem b).allocatedSize = (p.mem b).allocatedSize
  filed : FirstFiled p'
  source : (a = p.created ∧ p'.created = p.created + 1
      ∧ countSize p (p'.mem a).allocatedSize (freeList p) = 0)
    ∨ (a < p.created ∧ p'.created = p.created)

/-- **`get_new_cache`** creates a cache only when none of its size waits. -/
theorem getNewCache_counted {p p' : CachePool} {n : Int} {a : Addr}
    (h : PoolInv p) (hf : FirstFiled p) (hget : getNewCache p n = (some a, p')) :
    CountedOut p p' a := by
  obtain ⟨hq, -, hfree, hmem, hcre, -, -⟩ := makeSureCacheMm_spec h
  have hqf := firstFiled_makeSureCacheMm hf
  rw [getNewCache] at hget
  generalize makeSureCacheMm p = q at *
  simp only at hget
  cases htake : takeCache n q.availableCacheNode with
  | none =>
      rw [htake] at hget
      cases congrArg Prod.fst hget
  | some r =>
      obtain ⟨size, o, classes⟩ := r
      rw [htake] at hget
      obtain ⟨pre, c, post, hav, rfl, hpre, hcase⟩ := takeCache_first htake
      rcases hcase with ⟨rfl, rfl, hempty⟩ | ⟨b, l, rfl, hl, rfl⟩
      · obtain rfl : q.created = a := Option.some.inj (congrArg Prod.fst hget)
        obtain rfl := congrArg Prod.snd hget
        refine ⟨?_, hqf, Or.inl ⟨hcre, by dsimp only; rw [hcre], ?_⟩⟩
        · intro b hb
          have hne : b ≠ q.created := by omega
          dsimp only
          rw [Function.update_of_ne hne, hmem]
        · -- a waiting cache of this size would stand in the class itself
          dsimp only
          rw [Function.update_self, countSize, List.countP_eq_zero]
          intro b hb hsize
          rw [← hfree, freeList, List.mem_flatMap] at hb
          obtain ⟨d, hd, hbd⟩ := hb
          rw [decide_eq_true_eq, ← hmem, hq.filed d hd b hbd] at hsize
          rw [FirstFiled, hav] at hqf
          rw [hav] at hd
          rcases List.mem_append.mp hd with h1 | h2
          · exact hpre d h1 hsize
          · rcases List.mem_cons.mp h2 with rfl | h3
            · rw [hempty] at hbd
              cases hbd
            · have hnil := (List.pairwise_cons.mp
                (List.pairwise_append.mp hqf).2.1).1 d h3 hsize
              rw [hnil] at hbd
              cases hbd
      · obtain rfl : b = a := Option.some.inj (congrArg Prod.fst hget)
        obtain rfl := congrArg Prod.snd hget
        have hbfree : b ∈ freeList q := by
          rw [freeList, hav, flatMap_split, hl]
          simp
        refine ⟨?_, ?_, Or.inr ⟨hcre ▸ hq.freeLt b hbfree, hcre⟩⟩
        · intro d _
          dsimp only
          by_cases hdb : d = b
          · rw [hdb, Function.update_self, hmem]
          · rw [Function.update_of_ne hdb, hmem]
        · rw [FirstFiled, hav] at hqf
          exact firstFiled_replace hqf hpre

/-! ## The peak -/

variable {κ : Type} [DecidableEq κ]

/-- The caches of a size that callers hold. -/
def heldOf (s : PoolUse κ) (size : Int) : Nat :=
  countSize s.pool size (s.handed.map Prod.snd)

/-- A history together with the most caches of each size that were held at the
    same time so far. -/
structure Peak (κ : Type) where
  use : PoolUse κ
  peak : Int → Nat

/-- One call, after which the callers' holdings are counted. -/
def peakStep (s : Peak κ) (e : PoolCall κ) : Option (Peak κ) :=
  (poolStep s.use e).map fun use =>
    ⟨use, fun size => max (s.peak size) (heldOf use size)⟩

def peakSystem (κ : Type) [DecidableEq κ] : System (Peak κ) (PoolCall κ) where
  start := fun s => (poolSystem κ).start s.use ∧ ∀ size, s.peak size = 0
  step := peakStep

/-- **THE PEAK INVARIANT**. -/
structure PeakInv (s : Peak κ) : Prop where
  own : OwnershipInv s.use
  filed : FirstFiled s.use.pool
  held : ∀ size, heldOf s.use size ≤ s.peak size
  created : ∀ size, createdOf s.use.pool size = s.peak size

theorem peakInv_start {s : Peak κ} (h : (peakSystem κ).start s) : PeakInv s := by
  obtain ⟨hstart, hpeak⟩ := h
  have hown := ownershipInv_start hstart
  obtain ⟨⟨mem, pastTable, mallocs, hpool⟩, hhanded⟩ := hstart
  refine ⟨hown, ?_, ?_, ?_⟩
  · rw [FirstFiled, hpool]
    exact .nil
  · intro size
    rw [heldOf, hhanded]
    exact Nat.zero_le _
  · intro size
    rw [hpeak, hpool]
    rfl

omit [DecidableEq κ] in
/-- Held and waiting caches of a size are the created ones. -/
theorem held_add_waiting {s : PoolUse κ} (h : OwnershipInv s) (size : Int) :
    heldOf s size + countSize s.pool size (freeList s.pool)
      = createdOf s.pool size := by
  rw [heldOf, countSize, countSize, ← List.countP_append]
  exact h.placed.countP_eq _

/-- A hand-out. -/
theorem PeakInv.handOut {s : Peak κ} (h : PeakInv s) {n : Int} {a : Addr}
    {p' : CachePool} (holder : κ)
    (hget : getNewCache s.use.pool n = (some a, p')) (size : Int) :
    createdOf p' size
      = max (s.peak size) (heldOf ⟨p', (holder, a) :: s.use.handed⟩ size) := by
  have hc := getNewCache_counted h.own.pool h.filed hget
  have hsplit := held_add_waiting h.own size
  have hle := h.held size
  have hpeak := h.created size
  -- the caches handed out before keep their sizes
  have hbefore : countSize p' size (s.use.handed.map Prod.snd)
      = heldOf s.use size :=
    countSize_congr fun b hb => hc.sizes b (h.own.held hb).1
  have hheld : heldOf ⟨p', (holder, a) :: s.use.handed⟩ size
      = heldOf s.use size
        + if (p'.mem a).allocatedSize = size then 1 else 0 := by
    rw [heldOf, List.map_cons, countSize_cons, hbefore]
  have hrange : countSize p' size (List.range s.use.pool.created)
      = createdOf s.use.pool size :=
    countSize_congr fun b hb => hc.sizes b (List.mem_range.mp hb)
  rcases hc.source with ⟨rfl, hcre, hnone⟩ | ⟨hlt, hcre⟩
  · have hcreated : createdOf p' size = createdOf s.use.pool size
        + if (p'.mem s.use.pool.created).allocatedSize = size then 1 else 0 := by
      rw [createdOf, hcre, List.range_succ, countSize, List.countP_append,
        ← countSize, hrange, List.countP_singleton]
      simp only [decide_eq_true_eq]
    rw [hcreated, hheld]
    by_cases hsize : (p'.mem s.use.pool.created).allocatedSize = size
    · -- none of this size waits: all that exist are held
      rw [hsize] at hnone
      rw [if_pos hsize]
      omega
    · rw [if_neg hsize]
      omega
  · -- a cache that was there is one more that is held
    have hcreated : createdOf p' size = createdOf s.use.pool size := by
      rw [createdOf, hcre, hrange]
    have hroom : heldOf ⟨p', (holder, a) :: s.use.handed⟩ size
        ≤ createdOf p' size := by
      have hnext : (poolSystem κ).step s.use (.getNewCache holder n)
          = some ⟨p', (holder, a) :: s.use.handed⟩ := by
        show poolStep s.use (.getNewCache holder n) = _
        rw [poolStep, hget]
      have := held_add_waiting (ownershipInv_step h.own hnext) size
      dsimp only at this
      omega
    omega

/-- The step lemma. -/
theorem peakInv_step {s s' : Peak κ} {e : PoolCall κ} (h : PeakInv s)
    (hstep : (peakSystem κ).step s e = some s') : PeakInv s' := by
  obtain ⟨use, huse, rfl⟩ := Option.map_eq_some_iff.mp hstep
  have hown := ownershipInv_step h.own huse
  -- a call that creates nothing and after which no more is held
  have hkeep : FirstFiled use.pool →
      (∀ size, createdOf use.pool size = createdOf s.use.pool size) →
      PeakInv ⟨use, fun size => max (s.peak size) (heldOf use size)⟩ := by
    intro hfiled hcreated
    refine ⟨hown, hfiled, fun size => Nat.le_max_right _ _, fun size => ?_⟩
    have := held_add_waiting hown size
    have := h.created size
    have := hcreated size
    dsimp only
    omega
  cases e with
  | getNewCache holder n =>
      rw [poolStep] at huse
      cases hget : getNewCache s.use.pool n with
      | mk o p' =>
          rw [hget] at huse
          cases o with
          | some a =>
              obtain rfl := Option.some.inj huse
              exact ⟨hown, (getNewCache_counted h.own.pool h.filed hget).filed,
                fun size => Nat.le_max_right _ _, h.handOut holder hget⟩
          | none =>
              obtain rfl := Option.some.inj huse
              obtain ⟨-, rfl⟩ := getNewCache_none h.own.pool hget
              obtain ⟨-, -, -, hmem, hcre, -⟩ := makeSureCacheMm_spec h.own.pool
              refine hkeep (firstFiled_makeSureCacheMm h.filed) fun size => ?_
              rw [createdOf, hcre]
              exact countSize_congr fun b _ => by rw [hmem]
  | recycleCache holder a =>
      rw [poolStep] at huse
      obtain ⟨hmem, huse⟩ := Option.ite_none_right_eq_some.mp huse
      obtain rfl := Option.some.inj huse
      have hheld := h.own.held (List.mem_map_of_mem hmem)
      have hback := (recycleCache_spec h.own.pool hheld).2
      refine hkeep (firstFiled_recycleCache h.filed a) fun size => ?_
      rw [createdOf, hback.created]
      exact countSize_congr fun b _ => recycleCache_size h.own.pool a b
  | write holder a off bytes =>
      rw [poolStep] at huse
      obtain ⟨-, huse⟩ := Option.ite_none_right_eq_some.mp huse
      obtain rfl := Option.some.inj huse
      refine hkeep h.filed fun size => countSize_congr fun b _ => ?_
      by_cases hb : b = a
      · rw [hb, writeCache, setBuff]
        dsimp only
        rw [Function.update_self]
      · rw [mem_writeCache_of_ne _ hb]

theorem peakInv_reachable {s : Peak κ} (h : Reachable (peakSystem κ) s) :
    PeakInv s :=
  reachable_inv (peakSystem κ) (fun _ => peakInv_start)
    (fun _ _ _ => peakInv_step) h

/-- **THE POOL GROWS WITH THE PEAK**: after every history, the caches of a size
    that exist are as many as were held at the same time at the worst moment. -/
theorem created_eq_peak {s : Peak κ} (h : Reachable (peakSystem κ) s)
    (size : Int) : createdOf s.use.pool size = s.peak size :=
  (peakInv_reachable h).created size

/-- Three hand-outs of small caches, two of them at the same time. -/
def threeHandOuts : List (PoolCall Unit) :=
  [.getNewCache () 40, .recycleCache () 0, .getNewCache () 64,
    .getNewCache () 1]

def freshPeak : Peak Unit := ⟨freshPool, fun _ => 0⟩

theorem created_eq_peak_threeHandOuts :
    ∃ s, runFrom (peakSystem Unit) freshPeak threeHandOuts = some s
      ∧ s.peak 64 = 2 ∧ createdOf s.use.pool 64 = s.peak 64 := by
  have hrun : ((runFrom (peakSystem Unit) freshPeak threeHandOuts).any fun s =>
      decide (s.peak 64 = 2)) = true := by decide +kernel
  obtain ⟨s, hs, hp⟩ := (Option.any_eq_true _ _).mp hrun
  exact ⟨s, hs, of_decide_eq_true hp, created_eq_peak (runFrom_reachable
    (peakSystem Unit) _ (.start ⟨freshPool_start, fun _ => rfl⟩) hs) 64⟩

end IMPoolPeak

import Mathlib.Order.Bounds.Defs
import IMServer.CachePool
import IMServer.Transition

/-! # Best fit — the size classes of the pool

    `get_new_cache` takes the first class that is large enough.  The classes are
    the table and, because `make_sure_cache_mm` counts bytes instead of entries,
    18 values from behind it; the table is sorted, so the first class is the
    smallest one as long as the table has one. -/

namespace IMBestFit

open IMCachePool IMTransition

/-! ## Histories of the pool -/

/-- A call of the module. -/
inductive CacheCall where
  | getNewCache (expectedSize : Int)
  | recycleCache (cache : Addr)

/-- The pool after a call.  Every cache created so far may be recycled, waiting
    or not. -/
def cacheStep (p : CachePool) : CacheCall → Option CachePool
  | .getNewCache expectedSize => some (getNewCache p expectedSize).2
  | .recycleCache cache =>
      if cache < p.created then some (recycleCache p cache).2 else none

/-- Histories start from the untouched module, whatever the memory holds. -/
def cacheSystem : System CachePool CacheCall where
  start := fun p => ∃ mem pastTable mallocs, p = emptyPool mem pastTable mallocs
  step := cacheStep

/-- The indices at which `make_sure_cache_mm` reads `specified_cache_size`. -/
def tableReads (p : CachePool) : List Nat :=
  if p.availableCacheNode.isEmpty then List.range sizeofSpecifiedCacheSize
  else []

/-- What the loop of `make_sure_cache_mm` builds from the values it reads. -/
theorem makeSureCacheMm_reads (p : CachePool) :
    (makeSureCacheMm p).availableCacheNode
      = p.availableCacheNode ++ (tableReads p).map fun index =>
          ⟨specifiedCacheSize.getD index (p.pastTable index), []⟩ := by
  rw [makeSureCacheMm, tableReads]
  cases hav : p.availableCacheNode with
  | nil => exact List.map_map
  | cons c cs =>
      rw [List.isEmpty_cons, if_neg Bool.false_ne_true,
        if_neg Bool.false_ne_true, List.map_nil, List.append_nil]
      exact hav

/-! ## The classes -/

/-- The values behind the table that become size classes. -/
def pastSizes (p : CachePool) : List Int :=
  (List.range' 6 18).map p.pastTable

theorem classSizes_eq (p : CachePool) :
    classSizes p = specifiedCacheSize ++ pastSizes p := rfl

theorem forall_pastSizes {p : CachePool} {n : Int} :
    (∀ size ∈ pastSizes p, size < n)
      ↔ ∀ index, 6 ≤ index → index < 24 → p.pastTable index < n := by
  constructor
  · intro h index h0 h1
    exact h _ (List.mem_map_of_mem (List.mem_range'_1.mpr ⟨h0, h1⟩))
  · intro h size hs
    obtain ⟨index, hi, rfl⟩ := List.mem_map.mp hs
    obtain ⟨h0, h1⟩ := List.mem_range'_1.mp hi
    exact h index h0 h1

/-- In a sorted list the first entry that is large enough is the smallest. -/
theorem isLeast_of_find {l : List Int} (hl : l.Pairwise (· ≤ ·)) {n size : Int}
    (h : l.find? (fun x => decide (n ≤ x)) = some size) :
    IsLeast {x | x ∈ l ∧ n ≤ x} size := by
  obtain ⟨hn, front, back, rfl, hfront⟩ := List.find?_eq_some_iff_append.mp h
  refine ⟨⟨List.mem_append_right _ (List.mem_cons_self ..),
    of_decide_eq_true hn⟩, ?_⟩
  rintro x ⟨hx, hnx⟩
  rcases List.mem_append.mp hx with h1 | h2
  · have := hfront x h1
    rw [decide_eq_true hnx] at this
    cases this
  · rcases List.mem_cons.mp h2 with rfl | h3
    · exact Int.le_refl _
    · exact List.rel_of_pairwise_cons (List.pairwise_append.mp hl).2.1 h3

theorem forall_specified {n : Int} :
    (∀ size ∈ specifiedCacheSize, size < n) ↔ 2048 < n := by
  simp only [specifiedCacheSize, List.forall_mem_cons, List.not_mem_nil,
    IsEmpty.forall_iff, implies_true, and_true]
  omega

/-- A size the table has a class for is served from the table. -/
theorem find_classSizes {p : CachePool} {n size : Int} (hn : n ≤ 2048)
    (h : (classSizes p).find? (fun x => decide (n ≤ x)) = some size) :
    IsLeast {x | x ∈ specifiedCacheSize ∧ n ≤ x} size := by
  refine isLeast_of_find (by decide) ?_
  rw [classSizes_eq, List.find?_append] at h
  cases ht : specifiedCacheSize.find? (fun x => decide (n ≤ x)) with
  | none =>
      have hall := List.find?_eq_none.mp ht
      have := (forall_specified (n := n)).mp fun size hs => by
        have := hall size hs
        rw [decide_eq_true_eq] at this
        omega
      omega
  | some size' =>
      rw [ht] at h
      exact h

/-! ## The invariant -/

/-- The classes are those that were read, and a cache waits in the class of its
    own size. -/
structure FitInv (p : CachePool) : Prop where
  classes : p.availableCacheNode = []
    ∨ p.availableCacheNode.map (·.allocatedCacheSize) = classSizes p
  filed : ∀ c ∈ p.availableCacheNode, ∀ a ∈ c.list,
    a < p.created ∧ (p.mem a).allocatedSize = c.allocatedCacheSize

theorem fitInv_start {p : CachePool} (h : cacheSystem.start p) : FitInv p := by
  obtain ⟨mem, pastTable, mallocs, rfl⟩ := h
  exact ⟨Or.inl rfl, fun _ hc => absurd hc List.not_mem_nil⟩

/-- Building the classes. -/
theorem fitInv_makeSureCacheMm {p : CachePool} (h : FitInv p) :
    FitInv (makeSureCacheMm p)
      ∧ (makeSureCacheMm p).availableCacheNode.map (·.allocatedCacheSize)
        = classSizes p := by
  have hmap := sizes_newClasses (classSizes p)
  rw [makeSureCacheMm]
  cases hav : p.availableCacheNode with
  | nil =>
      refine ⟨⟨Or.inr hmap, ?_⟩, hmap⟩
      intro c hc a ha
      obtain ⟨size, -, rfl⟩ := List.mem_map.mp hc
      cases ha
  | cons c cs =>
      have hsizes := h.classes.resolve_left (by rw [hav]; exact List.cons_ne_nil _ _)
      rw [hav] at hsizes
      exact ⟨h, by rw [List.isEmpty_cons, if_neg Bool.false_ne_true, hav, hsizes]⟩

/-- Replacing one class by one of the same size with other caches of it. -/
theorem fitInv_replace {p p' : CachePool} {pre post : List SpecifiedSizeCacheList}
    {c : SpecifiedSizeCacheList} {l : List Addr} (h : FitInv p)
    (hc : p.availableCacheNode = pre ++ c :: post)
    (hc' : p'.availableCacheNode = pre ++ { c with list := l } :: post)
    (hpast : p'.pastTable = p.pastTable) (hcreated : p'.created = p.created)
    (hmem : ∀ a, (p'.mem a).allocatedSize = (p.mem a).allocatedSize)
    (hl : ∀ a ∈ l, a < p.created
      ∧ (p.mem a).allocatedSize = c.allocatedCacheSize) : FitInv p' where
  classes := by
    right
    have hsizes := h.classes.resolve_left (by rw [hc]; simp)
    rw [hc, List.map_append, List.map_cons] at hsizes
    rw [hc', List.map_append, List.map_cons, classSizes, hpast]
    exact hsizes
  filed := by
    intro d hd a ha
    rw [hcreated, hmem]
    rw [hc'] at hd
    rcases List.mem_append.mp hd with h1 | h2
    · exact h.filed d (by rw [hc]; exact List.mem_append_left _ h1) a ha
    · rcases List.mem_cons.mp h2 with rfl | h3
      · exact hl a ha
      · exact h.filed d (by
          rw [hc]
          exact List.mem_append_right _ (List.mem_cons_of_mem _ h3)) a ha

/-- **`get_new_cache`** serves from the first class that is large enough. -/
theorem getNewCache_first {p : CachePool} {n : Int} (h : FitInv p) :
    FitInv (getNewCache p n).2
      ∧ (classSizes p).find? (fun x => decide (n ≤ x))
        = (getNewCache p n).1.map fun a =>
            ((getNewCache p n).2.mem a).allocatedSize := by
  obtain ⟨hinv, hsizes⟩ := fitInv_makeSureCacheMm h
  rw [getNewCache, ← hsizes, ← takeCache_size]
  cases ht : takeCache n (makeSureCacheMm p).availableCacheNode with
  | none => exact ⟨hinv, rfl⟩
  | some r =>
      obtain ⟨size, o, classes⟩ := r
      obtain ⟨pre, c, post, hcs, rfl, hcase⟩ := takeCache_eq_some ht
      rcases hcase with ⟨rfl, rfl⟩ | ⟨a, l, rfl, hl, rfl⟩
      · -- a new cache is created in no list
        refine ⟨⟨hinv.classes, ?_⟩, ?_⟩
        · intro d hd a ha
          obtain ⟨hlt, hsize⟩ := hinv.filed d hd a ha
          refine ⟨Nat.lt_succ_of_lt hlt, ?_⟩
          show (Function.update (makeSureCacheMm p).mem _ _ a).allocatedSize = _
          rw [Function.update_of_ne (Nat.ne_of_lt hlt)]
          exact hsize
        · show some _ = some (Function.update (makeSureCacheMm p).mem _ _
            (makeSureCacheMm p).created).allocatedSize
          rw [Function.update_self]
      · have hmem : ∀ b, (Function.update (makeSureCacheMm p).mem a
            { (makeSureCacheMm p).mem a with cacheSize := n } b).allocatedSize
            = ((makeSureCacheMm p).mem b).allocatedSize := by
          intro b
          by_cases hb : b = a
          · rw [hb, Function.update_self]
          · rw [Function.update_of_ne hb]
        have hin : ∀ b ∈ c.list, b < (makeSureCacheMm p).created
            ∧ ((makeSureCacheMm p).mem b).allocatedSize = c.allocatedCacheSize :=
          hinv.filed c (by
            rw [hcs]
            exact List.mem_append_right _ (List.mem_cons_self ..))
        rw [hl] at hin
        refine ⟨fitInv_replace hinv hcs rfl rfl rfl hmem
          fun b hb => hin b (List.mem_cons_of_mem _ hb), ?_⟩
        exact congrArg some
          ((hmem a).trans (hin a (List.mem_cons_self ..)).2).symm

/-- **`recycle_cache`** files a cache under its own size. -/
theorem fitInv_recycleCache {p : CachePool} {a : Addr} (h : FitInv p)
    (ha : a < p.created) : FitInv (recycleCache p a).2 := by
  obtain ⟨hinv, -⟩ := fitInv_makeSureCacheMm h
  have hcreated : (makeSureCacheMm p).created = p.created := by
    rw [makeSureCacheMm]
    split <;> rfl
  have hmem : ∀ b, (Function.update (makeSureCacheMm p).mem a
      { (makeSureCacheMm p).mem a with
        buff := IMBytes.overwrite ((makeSureCacheMm p).mem a).buff 0
          (List.replicate ((makeSureCacheMm p).mem a).allocatedSize.toNat 0)
        cacheSize := 0 } b).allocatedSize
      = ((makeSureCacheMm p).mem b).allocatedSize := by
    intro b
    by_cases hb : b = a
    · rw [hb, Function.update_self]
    · rw [Function.update_of_ne hb]
  rw [recycleCache]
  cases hput : putCache ((makeSureCacheMm p).mem a).allocatedSize a
      (makeSureCacheMm p).availableCacheNode with
  | none =>
      dsimp only
      exact ⟨hinv.classes, fun d hd b hb =>
        ⟨(hinv.filed d hd b hb).1, (hmem b).trans (hinv.filed d hd b hb).2⟩⟩
  | some classes =>
      dsimp only
      obtain ⟨pre, c, post, hcs, hsize, rfl⟩ := putCache_eq_some hput
      refine fitInv_replace hinv hcs rfl rfl rfl hmem fun b hb => ?_
      rcases List.mem_append.mp hb with h1 | h2
      · exact hinv.filed c (by
          rw [hcs]
          exact List.mem_append_right _ (List.mem_cons_self ..)) b h1
      · rw [List.mem_singleton.mp h2]
        exact ⟨hcreated ▸ ha, hsize.symm⟩

theorem fitInv_step {p p' : CachePool} {e : CacheCall} (h : FitInv p)
    (hstep : cacheSystem.step p e = some p') : FitInv p' := by
  cases e with
  | getNewCache n =>
      obtain rfl := Option.some.inj hstep
      exact (getNewCache_first h).1
  | recycleCache a =>
      obtain ⟨ha, hstep'⟩ := Option.ite_none_right_eq_some.mp hstep
      obtain rfl := Option.some.inj hstep'
      exact fitInv_recycleCache h ha

theorem fitInv_reachable {p : CachePool} (h : Reachable cacheSystem p) :
    FitInv p :=
  reachable_inv cacheSystem (fun _ => fitInv_start)
    (fun _ _ _ => fitInv_step) h

/-! ## Best fit -/

/-- The smallest entry of the table that is large enough, and no cache exactly
    for sizes above the largest entry. -/
structure BestFit (p : CachePool) (n : Int) : Prop where
  null : (getNewCache p n).1 = none ↔ 2048 < n
  least : ∀ a, (getNewCache p n).1 = some a →
    IsLeast {x | x ∈ specifiedCacheSize ∧ n ≤ x}
      ((getNewCache p n).2.mem a).allocatedSize

theorem bestFit_iff {p : CachePool} {n : Int} (h : FitInv p) :
    BestFit p n ↔ n ≤ 2048
      ∨ ∀ index, 6 ≤ index → index < 24 → p.pastTable index < n := by
  have hfind := (getNewCache_first (n := n) h).2
  have hnone : (getNewCache p n).1 = none
      ↔ 2048 < n ∧ ∀ size ∈ pastSizes p, size < n := by
    rw [← Option.map_eq_none_iff, ← hfind, List.find?_eq_none,
      ← forall_specified, classSizes_eq, List.forall_mem_append]
    simp only [decide_eq_true_eq, Int.not_le]
  rw [← forall_pastSizes]
  constructor
  · intro hfit
    by_cases hn : n ≤ 2048
    · exact Or.inl hn
    · exact Or.inr (hnone.mp (hfit.null.mpr (by omega))).2
  · intro hcond
    refine ⟨⟨fun hnull => (hnone.mp hnull).1, fun hn => ?_⟩, ?_⟩
    · exact hnone.mpr ⟨hn, hcond.resolve_left (by omega)⟩
    · intro a ha
      have hn : n ≤ 2048 := by
        by_contra hlarge
        have := hnone.mpr ⟨by omega, hcond.resolve_left hlarge⟩
        rw [ha] at this
        cases this
      rw [ha] at hfind
      exact find_classSizes hn hfind

/-- **THE CLASSES, EXACTLY**: a call is best fit over the table and reads nothing
    but the table if and only if the classes have been built before and, for a
    size above the largest entry, nothing that was read behind the table is as
    large.  For the other sizes every call is best fit. -/
theorem best_fit_iff {p : CachePool} (h : Reachable cacheSystem p) (n : Int) :
    (BestFit p n ∧ (∀ index ∈ tableReads p, index < specifiedCacheSize.length)
      ↔ p.availableCacheNode ≠ [] ∧ (n ≤ 2048
        ∨ ∀ index, 6 ≤ index → index < 24 → p.pastTable index < n))
    ∧ (n ≤ 2048 → BestFit p n) := by
  have hinv := fitInv_reachable h
  have hreads : (∀ index ∈ tableReads p, index < specifiedCacheSize.length)
      ↔ p.availableCacheNode ≠ [] := by
    rw [tableReads]
    cases p.availableCacheNode with
    | nil =>
        refine ⟨fun hall => ?_, fun hne => absurd rfl hne⟩
        exact absurd (hall 6 (by decide)) (by decide)
    | cons c cs =>
        exact ⟨fun _ => List.cons_ne_nil _ _,
          fun _ _ hi => absurd hi List.not_mem_nil⟩
  rw [hreads, bestFit_iff hinv]
  exact ⟨and_comm, fun hn => Or.inl hn⟩

/-- The pool before the first call, with the value 4096 behind the table. -/
def freshModule : CachePool :=
  emptyPool (fun _ => ⟨0, 0, []⟩) (fun _ => 4096) []

theorem freshModule_reachable : Reachable cacheSystem freshModule :=
  Reachable.start ⟨_, _, _, rfl⟩

/-- The second call for 100 bytes gets 128 bytes. -/
theorem best_fit_secondCall :
    BestFit (getNewCache freshModule 100).2 100
      ∧ ∀ index ∈ tableReads (getNewCache freshModule 100).2,
          index < specifiedCacheSize.length :=
  (best_fit_iff (Reachable.step (e := .getNewCache 100) freshModule_reachable rfl)
    100).1.mpr ⟨by decide +kernel, Or.inl (by decide)⟩

/-- The first call reads 18 values behind the table, and 3000 bytes, which no
    entry of the table has room for, are served from one of them. -/
theorem best_fit_pastTable : Reachable cacheSystem freshModule
    ∧ 23 ∈ tableReads freshModule
    ∧ ¬ (∀ index ∈ tableReads freshModule, index < specifiedCacheSize.length)
    ∧ (getNewCache freshModule 3000).1 = some 0
    ∧ ((getNewCache freshModule 3000).2.mem 0).allocatedSize = 4096
    ∧ ¬ BestFit freshModule 3000 := by
  refine ⟨freshModule_reachable, by decide, fun hall => ?_, by decide +kernel,
    by decide +kernel, fun hfit => ?_⟩
  · exact absurd (hall 23 (by decide)) (by decide)
  · have := hfit.null.mpr (by decide)
    exact absurd this (by decide +kernel)

end IMBestFit

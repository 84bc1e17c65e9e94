import Mathlib.Data.List.Count
import IMServer.CachePool
import IMServer.Transition

/-! # Pool ownership — who holds a cache over a whole history

    The pool together with its callers: a call to `get_new_cache` or
    `recycle_cache` by one of them, or a write into a block it holds.  The ghost
    list `handed` has one entry for every hand-out that has not been given
    back.  The invariant is one permutation: the handed out caches and the
    waiting ones together are the created ones, each once. -/

namespace IMPoolOwnership

open IMBytes IMCString IMCachePool IMTransition

variable {κ : Type}

/-- A call into the module by the caller `holder`, or a write of that caller. -/
inductive PoolCall (κ : Type) where
  | getNewCache (holder : κ) (expectedSize : Int)
  | recycleCache (holder : κ) (cache : Addr)
  | write (holder : κ) (cache : Addr) (off : Nat) (bytes : List UInt8)

/-- The pool and the hand-outs not yet given back. -/
structure PoolUse (κ : Type) where
  pool : CachePool
  handed : List (κ × Addr)

/-- **THE OWNERSHIP INVARIANT**: handed out or waiting, each cache once. -/
structure OwnershipInv (s : PoolUse κ) : Prop where
  pool : PoolInv s.pool
  placed : (s.handed.map Prod.snd ++ freeList s.pool).Perm
    (List.range s.pool.created)

theorem OwnershipInv.nodup {s : PoolUse κ} (h : OwnershipInv s) :
    (s.handed.map Prod.snd ++ freeList s.pool).Nodup :=
  h.placed.nodup_iff.mpr List.nodup_range

theorem OwnershipInv.held {s : PoolUse κ} (h : OwnershipInv s) {a : Addr}
    (ha : a ∈ s.handed.map Prod.snd) : Held s.pool a := by
  constructor
  · exact List.mem_range.mp
      (h.placed.mem_iff.mp (List.mem_append.mpr (Or.inl ha)))
  · exact fun hf => (List.nodup_append.mp h.nodup).2.2 a ha a hf rfl

/-- The cache is with exactly one caller and in no free list. -/
def HeldOnce (s : PoolUse κ) (a : Addr) : Prop :=
  (∃ holder, (holder, a) ∈ s.handed) ∧ (s.handed.map Prod.snd).count a = 1
    ∧ ∀ c ∈ s.pool.availableCacheNode, a ∉ c.list

/-- The cache is with no caller and stands once, in one free list, that of a
    class of its own size. -/
def WaitsOnce (s : PoolUse κ) (a : Addr) : Prop :=
  (∀ holder, (holder, a) ∉ s.handed)
    ∧ ∃ pre c post, s.pool.availableCacheNode = pre ++ c :: post
      ∧ c.list.count a = 1
      ∧ c.allocatedCacheSize = (s.pool.mem a).allocatedSize
      ∧ ∀ d ∈ pre ++ post, a ∉ d.list

theorem OwnershipInv.heldOnce {s : PoolUse κ} (h : OwnershipInv s) {a : Addr}
    (ha : a ∈ s.handed.map Prod.snd) : HeldOnce s a := by
  obtain ⟨hnd, -, hdisj⟩ := List.nodup_append.mp h.nodup
  refine ⟨?_, List.count_eq_one_of_mem hnd ha, ?_⟩
  · obtain ⟨⟨holder, b⟩, hm, rfl⟩ := List.mem_map.mp ha
    exact ⟨holder, hm⟩
  · intro c hc hm
    exact hdisj a ha a (List.mem_flatMap.mpr ⟨c, hc, hm⟩) rfl

theorem OwnershipInv.waitsOnce {s : PoolUse κ} (h : OwnershipInv s) {a : Addr}
    (ha : a ∈ freeList s.pool) : WaitsOnce s a := by
  obtain ⟨-, hnd, hdisj⟩ := List.nodup_append.mp h.nodup
  refine ⟨fun holder hm => hdisj a (List.mem_map_of_mem hm) a ha rfl, ?_⟩
  obtain ⟨c, hc, hm⟩ := List.mem_flatMap.mp ha
  obtain ⟨pre, post, hav⟩ := List.append_of_mem hc
  have hcount : (freeList s.pool).count a = 1 :=
    List.count_eq_one_of_mem hnd ha
  rw [freeList, hav, flatMap_split, List.count_append, List.count_append]
    at hcount
  have hpos : 0 < c.list.count a := List.count_pos_iff.mpr hm
  refine ⟨pre, c, post, hav, by omega, (h.pool.filed c hc a hm).symm, ?_⟩
  intro d hd hdm
  have hother : 0 < (pre.flatMap fun e => e.list).count a
      + (post.flatMap fun e => e.list).count a := by
    rcases List.mem_append.mp hd with h1 | h2
    · exact Nat.add_pos_left (List.count_pos_iff.mpr
        (List.mem_flatMap.mpr ⟨d, h1, hdm⟩)) _
    · exact Nat.add_pos_right _ (List.count_pos_iff.mpr
        (List.mem_flatMap.mpr ⟨d, h2, hdm⟩))
  omega

/-! ## Histories -/

variable [DecidableEq κ]

/-- One call.  A caller gives back what it holds, once for each hand-out, and
    writes inside the blocks it holds; other calls cannot happen. -/
def poolStep (s : PoolUse κ) : PoolCall κ → Option (PoolUse κ)
  | .getNewCache holder expectedSize =>
      match getNewCache s.pool expectedSize with
      | (some cache, pool) => some ⟨pool, (holder, cache) :: s.handed⟩
      | (none, pool) => some ⟨pool, s.handed⟩
  | .recycleCache holder cache =>
      if (holder, cache) ∈ s.handed then
        some ⟨(recycleCache s.pool cache).2, s.handed.erase (holder, cache)⟩
      else none
  | .write holder cache off bytes =>
      if (holder, cache) ∈ s.handed
          ∧ off + bytes.length ≤ (s.pool.mem cache).allocatedSize.toNat then
        some ⟨writeCache s.pool cache off bytes, s.handed⟩
      else none

/-- Histories start from the untouched module, whatever the memory holds. -/
def poolSystem (κ : Type) [DecidableEq κ] : System (PoolUse κ) (PoolCall κ) where
  start := fun s => (∃ mem pastTable mallocs,
    s.pool = emptyPool mem pastTable mallocs) ∧ s.handed = []
  step := poolStep

theorem ownershipInv_start {s : PoolUse κ} (h : (poolSystem κ).start s) :
    OwnershipInv s := by
  obtain ⟨⟨mem, pastTable, mallocs, hpool⟩, hhanded⟩ := h
  refine ⟨hpool ▸ poolInv_empty mem pastTable mallocs, ?_⟩
  rw [hpool, hhanded]
  exact List.Perm.refl _

theorem ownershipInv_step {s s' : PoolUse κ} {e : PoolCall κ}
    (h : OwnershipInv s) (hstep : (poolSystem κ).step s e = some s') :
    OwnershipInv s' := by
  have hstep' : poolStep s e = some s' := hstep
  cases e with
  | getNewCache holder n =>
      rw [poolStep] at hstep'
      cases hget : getNewCache s.pool n with
      | mk o p' =>
          rw [hget] at hstep'
          cases o with
          | some a =>
              have hs' := Option.some.inj hstep'
              subst hs'
              have hout := getNewCache_spec h.pool hget
              refine ⟨hout.inv, ?_⟩
              show ((holder, a).2 :: s.handed.map Prod.snd ++ freeList p').Perm _
              rw [List.cons_append]
              rcases hout.source with ⟨rfl, hcre, hfree⟩ | ⟨hcre, hperm⟩
              · rw [hfree, hcre, List.range_succ]
                exact (h.placed.cons _).trans
                  (List.perm_append_singleton _ _).symm
              · rw [hcre]
                exact List.perm_middle.symm.trans
                  ((hperm.symm.append_left _).trans h.placed)
          | none =>
              have hs' := Option.some.inj hstep'
              subst hs'
              obtain ⟨-, rfl⟩ := getNewCache_none h.pool hget
              obtain ⟨hinv, -, hfree, -, hcre, -⟩ := makeSureCacheMm_spec h.pool
              refine ⟨hinv, ?_⟩
              rw [hfree, hcre]
              exact h.placed
  | recycleCache holder a =>
      rw [poolStep] at hstep'
      by_cases hmem : (holder, a) ∈ s.handed
      · rw [if_pos hmem] at hstep'
        have hs' := Option.some.inj hstep'
        subst hs'
        have hback := (recycleCache_spec h.pool
          (h.held (List.mem_map_of_mem hmem))).2
        refine ⟨hback.inv, ?_⟩
        have hmap : (s.handed.map Prod.snd).Perm
            (a :: (s.handed.erase (holder, a)).map Prod.snd) :=
          (List.perm_cons_erase hmem).map Prod.snd
        rw [hback.created]
        refine List.Perm.trans ?_ h.placed
        refine (hback.free.append_left _).trans ?_
        refine List.perm_middle.trans ?_
        rw [← List.cons_append]
        exact hmap.symm.append_right _
      · rw [if_neg hmem] at hstep'
        cases hstep'
  | write holder a off bytes =>
      rw [poolStep] at hstep'
      by_cases hok : (holder, a) ∈ s.handed
          ∧ off + bytes.length ≤ (s.pool.mem a).allocatedSize.toNat
      · rw [if_pos hok] at hstep'
        have hs' := Option.some.inj hstep'
        subst hs'
        have hheld := h.held (List.mem_map_of_mem hok.1)
        refine ⟨poolInv_writeCache h.pool hheld ?_, h.placed⟩
        rw [h.pool.buffLen a hheld.1]
        exact hok.2
      · rw [if_neg hok] at hstep'
        cases hstep'

theorem ownershipInv_reachable {s : PoolUse κ}
    (h : Reachable (poolSystem κ) s) : OwnershipInv s :=
  reachable_inv (poolSystem κ) (fun _ => ownershipInv_start)
    (fun _ _ _ => ownershipInv_step) h

/-- **POOL OWNERSHIP**: after every history, each cache ever created is with one
    caller or waits once in one free list of its size, never both; `get_new_cache`
    hands out no cache that a caller still holds; `all_node` has one entry for
    each cache ever created. -/
theorem pool_ownership {s : PoolUse κ} (h : Reachable (poolSystem κ) s) :
    (∀ a < s.pool.created,
      (HeldOnce s a ∧ ¬ WaitsOnce s a) ∨ (WaitsOnce s a ∧ ¬ HeldOnce s a))
    ∧ (∀ n a p', getNewCache s.pool n = (some a, p') →
        ∀ holder, (holder, a) ∉ s.handed)
    ∧ (∀ a, s.pool.allNode.count a = if a < s.pool.created then 1 else 0) := by
  have hinv := ownershipInv_reachable h
  refine ⟨?_, ?_, ?_⟩
  · intro a ha
    have hplaced := hinv.placed.mem_iff.mpr (List.mem_range.mpr ha)
    rcases List.mem_append.mp hplaced with hheld | hfree
    · have hh := hinv.heldOnce hheld
      obtain ⟨holder, hm⟩ := hh.1
      exact Or.inl ⟨hh, fun hw => hw.1 holder hm⟩
    · have hw := hinv.waitsOnce hfree
      refine Or.inr ⟨hw, fun hh => ?_⟩
      obtain ⟨holder, hm⟩ := hh.1
      exact hw.1 holder hm
  · intro n a p' hget holder hm
    exact (getNewCache_spec hinv.pool hget).not_held
      (hinv.held (List.mem_map_of_mem hm))
  · intro a
    rw [hinv.pool.allNode]
    by_cases ha : a < s.pool.created
    · rw [if_pos ha]
      exact List.count_eq_one_of_mem List.nodup_range (List.mem_range.mpr ha)
    · rw [if_neg ha]
      exact List.count_eq_zero_of_not_mem (fun hm => ha (List.mem_range.mp hm))

/-- A cache goes out, a long name is written to it, and it comes back. -/
def usedCache : List (PoolCall Unit) :=
  [.getNewCache () 40, .write () 0 0 (ascii "a name of no less than 30 letters"),
    .recycleCache () 0]

/-- The module before the first call, on blank memory. -/
def freshPool : PoolUse Unit :=
  ⟨emptyPool (fun _ => ⟨0, 0, []⟩) (fun _ => 0) [], []⟩

theorem freshPool_start : (poolSystem Unit).start freshPool :=
  ⟨⟨_, _, _, rfl⟩, rfl⟩

theorem pool_ownership_usedCache :
    ∃ s, runFrom (poolSystem Unit) freshPool usedCache = some s
      ∧ WaitsOnce s 0 := by
  have hrun : ((runFrom (poolSystem Unit) freshPool usedCache).any fun s =>
      decide (0 < s.pool.created ∧ s.handed = [])) = true := by decide +kernel
  obtain ⟨s, hs, hp⟩ := (Option.any_eq_true _ _).mp hrun
  obtain ⟨hcreated, hhanded⟩ := of_decide_eq_true hp
  have hown := (pool_ownership (runFrom_reachable (poolSystem Unit) usedCache
    (.start freshPool_start) hs)).1 0 hcreated
  refine ⟨s, hs, (hown.resolve_left ?_).1⟩
  rintro ⟨⟨⟨holder, hm⟩, -⟩, -⟩
  rw [hhanded] at hm
  cases hm

end IMPoolOwnership

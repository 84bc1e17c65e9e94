import Mathlib.Logic.Function.Basic
import Mathlib.Data.List.Perm.Basic
import Mathlib.Data.List.Nodup
import Mathlib.Data.List.Range
import IMServer.CString
import IMServer.Bytes

/-! # The cache pool — `io/cache.c`

    Blocks of fixed size classes, handed out by `get_new_cache` and taken back by
    `recycle_cache`.  A cache is never freed: it is either held by the caller it
    was handed to or waits, zeroed, in the free list of its size class.

    The pool is the static state of the module together with the memory of the
    caches.  Two fields stand for the environment: `pastTable` is what the
    memory behind the size table holds (`make_sure_cache_mm` counts bytes, not
    entries, and reads there), and `mallocs` answers the coming allocations
    whose result the code checks, success once the list is used up. -/

namespace IMCachePool

open IMBytes IMCString

/-- A pointer to a cache. -/
abbrev Addr := Nat

/-- `struct _cache`, with the block `buff` points to. -/
structure Cache where
  allocatedSize : Int
  cacheSize : Int
  buff : List UInt8

/-- `SpecifiedSizeCacheList`: a size class and the caches that wait in it. -/
structure SpecifiedSizeCacheList where
  allocatedCacheSize : Int
  list : List Addr

/-- The static variables of the module and the memory of the caches; the next
    cache is created at address `created`. -/
structure CachePool where
  mem : Addr → Cache
  created : Nat
  allNode : List Addr
  availableCacheNode : List SpecifiedSizeCacheList
  pastTable : Nat → Int
  mallocs : List Bool

/-- `specified_cache_size`. -/
def specifiedCacheSize : List Int := [64, 128, 256, 512, 1024, 2048]

/-- `sizeof(specified_cache_size)`: a size in bytes, four for each entry. -/
def sizeofSpecifiedCacheSize : Nat := 4 * specifiedCacheSize.length

/-- The sizes `make_sure_cache_mm` reads: the table and what lies behind it. -/
def classSizes (p : CachePool) : List Int :=
  (List.range sizeofSpecifiedCacheSize).map fun index =>
    specifiedCacheSize.getD index (p.pastTable index)

/-- The pool before the first call. -/
def emptyPool (mem : Addr → Cache) (pastTable : Nat → Int)
    (mallocs : List Bool) : CachePool where
  mem := mem
  created := 0
  allNode := []
  availableCacheNode := []
  pastTable := pastTable
  mallocs := mallocs

/-- `make_sure_cache_mm`: build the size classes on the first call. -/
def makeSureCacheMm (p : CachePool) : CachePool :=
  if p.availableCacheNode.isEmpty then
    { p with availableCacheNode := (classSizes p).map fun size => ⟨size, []⟩ }
  else p

/-- The two searches of `get_new_cache`: the first class that is large enough,
    and the first cache of its list.  Returns the size of the class, the cache
    (none when the list is empty) and the classes without that cache. -/
def takeCache (expectedSize : Int) :
    List SpecifiedSizeCacheList →
      Option (Int × Option Addr × List SpecifiedSizeCacheList)
  | [] => none
  | curr :: rest =>
      if curr.allocatedCacheSize ≥ expectedSize then
        match curr.list with
        | [] => some (curr.allocatedCacheSize, none, curr :: rest)
        | cache :: list =>
            some (curr.allocatedCacheSize, some cache,
              { curr with list := list } :: rest)
      else
        (takeCache expectedSize rest).map fun r => (r.1, r.2.1, curr :: r.2.2)

/-- `get_new_cache`.  The node of a reused cache is freed just before its
    `cache` field is read; the read sees the value the field had. -/
def getNewCache (p : CachePool) (expectedSize : Int) :
    Option Addr × CachePool :=
  let p := makeSureCacheMm p
  match takeCache expectedSize p.availableCacheNode with
  | none => (none, p)
  | some (size, none, _) =>
      (some p.created,
        { p with
          mem := Function.update p.mem p.created
            ⟨size, expectedSize, List.replicate size.toNat 0⟩
          created := p.created + 1
          allNode := p.allNode ++ [p.created] })
  | some (_, some cache, classes) =>
      (some cache,
        { p with
          mem := Function.update p.mem cache
            { p.mem cache with cacheSize := expectedSize }
          availableCacheNode := classes })

/-- The search of `recycle_cache`: append to the first class of this size. -/
def putCache (allocatedSize : Int) (cache : Addr) :
    List SpecifiedSizeCacheList → Option (List SpecifiedSizeCacheList)
  | [] => none
  | curr :: rest =>
      if curr.allocatedCacheSize = allocatedSize then
        some ({ curr with list := curr.list ++ [cache] } :: rest)
      else (putCache allocatedSize cache rest).map (curr :: ·)

/-- `recycle_cache`: blank the block and file the cache under its size. -/
def recycleCache (p : CachePool) (cache : Addr) : Int × CachePool :=
  let p := makeSureCacheMm p
  let c := p.mem cache
  let p := { p with
    mem := Function.update p.mem cache
      { c with
        buff := overwrite c.buff 0 (List.replicate c.allocatedSize.toNat 0)
        cacheSize := 0 } }
  match putCache c.allocatedSize cache p.availableCacheNode with
  | none => (-1, p)
  | some classes => (0, { p with availableCacheNode := classes })

/-- The pool after a holder stored into its block. -/
def setBuff (p : CachePool) (cache : Addr) (buff : List UInt8) : CachePool :=
  { p with
    mem := Function.update p.mem cache { p.mem cache with buff := buff } }

/-- A holder copies `bytes` to offset `off` of the block. -/
def writeCache (p : CachePool) (cache : Addr) (off : Nat)
    (bytes : List UInt8) : CachePool :=
  setBuff p cache (overwrite (p.mem cache).buff off bytes)

/-- One allocation whose result the code checks. -/
def malloc (p : CachePool) : Bool × CachePool :=
  match p.mallocs with
  | [] => (true, p)
  | ok :: rest => (ok, { p with mallocs := rest })

/-! ## Who has a cache -/

/-- The caches that wait in some free list. -/
def freeList (p : CachePool) : List Addr :=
  p.availableCacheNode.flatMap fun c => c.list

/-- A cache that has been handed out and not been taken back. -/
def Held (p : CachePool) (a : Addr) : Prop :=
  a < p.created ∧ a ∉ freeList p

/-- The pool invariant: every created cache has its entry in `all_node`, waits
    at most once, under its own size and blank. -/
structure PoolInv (p : CachePool) : Prop where
  allNode : p.allNode = List.range p.created
  freeNodup : (freeList p).Nodup
  freeLt : ∀ a ∈ freeList p, a < p.created
  filed : ∀ c ∈ p.availableCacheNode, ∀ a ∈ c.list,
    (p.mem a).allocatedSize = c.allocatedCacheSize
  blank : ∀ a ∈ freeList p,
    (p.mem a).buff = List.replicate (p.mem a).allocatedSize.toNat 0
  buffLen : ∀ a < p.created,
    (p.mem a).buff.length = (p.mem a).allocatedSize.toNat
  hasClass : ∀ a < p.created,
    (p.mem a).allocatedSize ∈ p.availableCacheNode.map (·.allocatedCacheSize)
  classes : p.availableCacheNode = [] ∨
    p.availableCacheNode.map (·.allocatedCacheSize) = classSizes p

theorem poolInv_empty (mem : Addr → Cache) (pastTable : Nat → Int)
    (mallocs : List Bool) : PoolInv (emptyPool mem pastTable mallocs) where
  allNode := rfl
  freeNodup := List.nodup_nil
  freeLt := fun _ h => by cases h
  filed := fun _ h => by cases h
  blank := fun _ h => by cases h
  buffLen := fun _ h => by cases h
  hasClass := fun _ h => by cases h
  classes := Or.inl rfl

/-- What a call may do to the rest of the pool: the caches outside `S` that were
    held stay held and keep their bytes, and the environment only advances. -/
structure Keeps (p p' : CachePool) (S : List Addr) : Prop where
  held : ∀ a, Held p a → a ∉ S → Held p' a
  mem : ∀ a, Held p a → a ∉ S → p'.mem a = p.mem a
  pastTable : p'.pastTable = p.pastTable
  mallocs : ∀ ok ∈ p'.mallocs, ok ∈ p.mallocs

theorem Keeps.refl (p : CachePool) (S : List Addr) : Keeps p p S where
  held := fun _ h _ => h
  mem := fun _ _ _ => rfl
  pastTable := rfl
  mallocs := fun _ h => h

/-- Two calls in a row; the second may touch what the first acquired. -/
theorem Keeps.trans {p p₁ p₂ : CachePool} {S S' : List Addr}
    (h : Keeps p p₁ S) (h' : Keeps p₁ p₂ S')
    (hS : ∀ a ∈ S', a ∈ S ∨ ¬ Held p a) : Keeps p p₂ S := by
  have hout : ∀ a, Held p a → a ∉ S → a ∉ S' := by
    intro a ha hn hm
    rcases hS a hm with h1 | h2
    · exact hn h1
    · exact h2 ha
  refine ⟨?_, ?_, h'.pastTable.trans h.pastTable,
    fun ok hok => h.mallocs ok (h'.mallocs ok hok)⟩
  · intro a ha hn
    exact h'.held a (h.held a ha hn) (hout a ha hn)
  · intro a ha hn
    rw [h'.mem a (h.held a ha hn) (hout a ha hn), h.mem a ha hn]

theorem Keeps.mono {p p' : CachePool} {S S' : List Addr} (h : Keeps p p' S)
    (hS : ∀ a ∈ S, a ∈ S') : Keeps p p' S' where
  held := fun a ha hn => h.held a ha (fun hm => hn (hS a hm))
  mem := fun a ha hn => h.mem a ha (fun hm => hn (hS a hm))
  pastTable := h.pastTable
  mallocs := h.mallocs

/-! ## The size classes -/

theorem mem_classSizes {p : CachePool} (size : Int)
    (h : size ∈ specifiedCacheSize) : size ∈ classSizes p := by
  simp only [specifiedCacheSize, List.mem_cons, List.not_mem_nil, or_false] at h
  have hall : specifiedCacheSize <+: classSizes p := ⟨_, rfl⟩
  refine hall.subset ?_
  simp only [specifiedCacheSize, List.mem_cons, List.not_mem_nil, or_false]
  exact h

theorem sizes_newClasses (sizes : List Int) :
    (sizes.map fun size => (⟨size, []⟩ : SpecifiedSizeCacheList)).map
      (·.allocatedCacheSize) = sizes := by
  rw [List.map_map]
  exact List.map_id _

/-- Building the classes changes neither a cache nor a free list. -/
theorem makeSureCacheMm_spec {p : CachePool} (h : PoolInv p) :
    PoolInv (makeSureCacheMm p)
      ∧ (makeSureCacheMm p).availableCacheNode.map (·.allocatedCacheSize)
          = classSizes p
      ∧ freeList (makeSureCacheMm p) = freeList p
      ∧ (makeSureCacheMm p).mem = p.mem
      ∧ (makeSureCacheMm p).created = p.created
      ∧ (makeSureCacheMm p).pastTable = p.pastTable
      ∧ (makeSureCacheMm p).mallocs = p.mallocs := by
  rw [makeSureCacheMm]
  cases hav : p.availableCacheNode with
  | nil =>
      have hmap := sizes_newClasses (classSizes p)
      have hfree : ((classSizes p).map fun size =>
          (⟨size, []⟩ : SpecifiedSizeCacheList)).flatMap (fun c => c.list)
          = [] := by
        rw [List.flatMap_map, List.flatMap_eq_nil_iff]
        intro _ _
        rfl
      have hold : freeList p = [] := by
        rw [freeList, hav]
        rfl
      rw [if_pos (show ([] : List SpecifiedSizeCacheList).isEmpty = true from rfl)]
      refine ⟨?_, hmap, hfree.trans hold.symm, rfl, rfl, rfl, rfl⟩
      have hnone : ∀ a, ¬ a < p.created := by
        intro a ha
        have := h.hasClass a ha
        rw [hav] at this
        cases this
      exact {
        allNode := h.allNode
        freeNodup := by
          show (List.flatMap _ _).Nodup
          rw [hfree]
          exact List.nodup_nil
        freeLt := by
          intro a ha
          have ha' : a ∈ List.flatMap _ _ := ha
          rw [hfree] at ha'
          cases ha'
        filed := by
          intro c hc a ha
          obtain ⟨size, -, rfl⟩ := List.mem_map.mp hc
          cases ha
        blank := by
          intro a ha
          have ha' : a ∈ List.flatMap _ _ := ha
          rw [hfree] at ha'
          cases ha'
        buffLen := h.buffLen
        hasClass := fun a ha => absurd ha (hnone a)
        classes := Or.inr hmap }
  | cons c cs =>
      rw [if_neg (by simp)]
      refine ⟨h, ?_, rfl, rfl, rfl, rfl, rfl⟩
      rcases h.classes with h0 | h1
      · rw [hav] at h0
        cases h0
      · exact h1

/-- Where `get_new_cache` ends up: in a class, whose first cache it takes. -/
theorem takeCache_eq_some {n : Int} :
    ∀ {cs cs' : List SpecifiedSizeCacheList} {size : Int} {o : Option Addr},
      takeCache n cs = some (size, o, cs') →
      ∃ pre c post, cs = pre ++ c :: post ∧ c.allocatedCacheSize = size
        ∧ ((o = none ∧ cs' = cs)
          ∨ ∃ a l, o = some a ∧ c.list = a :: l
              ∧ cs' = pre ++ { c with list := l } :: post) := by
  intro cs
  induction cs with
  | nil => intro cs' size o h; cases h
  | cons c cs ih =>
      intro cs' size o h
      rw [takeCache] at h
      by_cases hc : c.allocatedCacheSize ≥ n
      · rw [if_pos hc] at h
        cases hl : c.list with
        | nil =>
            rw [hl] at h
            obtain ⟨rfl, rfl, rfl⟩ : c.allocatedCacheSize = size
                ∧ none = o ∧ c :: cs = cs' := by simpa using h
            exact ⟨[], c, cs, rfl, rfl, Or.inl ⟨rfl, rfl⟩⟩
        | cons a l =>
            rw [hl] at h
            obtain ⟨rfl, rfl, rfl⟩ : c.allocatedCacheSize = size
                ∧ some a = o ∧ { c with list := l } :: cs = cs' := by
              simpa using h
            exact ⟨[], c, cs, rfl, rfl, Or.inr ⟨a, l, rfl, hl, rfl⟩⟩
      · rw [if_neg hc] at h
        obtain ⟨⟨size₁, o₁, cs₁⟩, hr, heq⟩ := Option.map_eq_some_iff.mp h
        obtain ⟨rfl, rfl, rfl⟩ : size₁ = size ∧ o₁ = o ∧ c :: cs₁ = cs' := by
          simpa using heq
        obtain ⟨pre, d, post, hcs, hsize, hcase⟩ := ih hr
        refine ⟨c :: pre, d, post, by rw [hcs]; rfl, hsize, ?_⟩
        rcases hcase with ⟨ho, hcs'⟩ | ⟨a, l, ho, hl, hcs'⟩
        · exact Or.inl ⟨ho, by rw [hcs']⟩
        · exact Or.inr ⟨a, l, ho, hl, by rw [hcs']; rfl⟩

/-- The class that serves is the first one that is large enough. -/
theorem takeCache_size (n : Int) : ∀ cs : List SpecifiedSizeCacheList,
    (takeCache n cs).map (·.1)
      = (cs.map (·.allocatedCacheSize)).find? (fun size => decide (n ≤ size)) := by
  intro cs
  induction cs with
  | nil => rfl
  | cons c cs ih =>
      rw [takeCache, List.map_cons]
      by_cases hc : c.allocatedCacheSize ≥ n
      · rw [if_pos hc, List.find?_cons_of_pos (by exact decide_eq_true hc)]
        cases c.list <;> rfl
      · rw [if_neg hc, List.find?_cons_of_neg (by rwa [decide_eq_true_eq]), ← ih,
          Option.map_map]
        rfl

theorem takeCache_eq_none {n : Int} {cs : List SpecifiedSizeCacheList} :
    takeCache n cs = none ↔ ∀ c ∈ cs, c.allocatedCacheSize < n := by
  rw [← Option.map_eq_none_iff, takeCache_size, List.find?_eq_none,
    List.forall_mem_map]
  simp only [decide_eq_true_eq, Int.not_le]

/-- Where `recycle_cache` files the cache: the first class of its size. -/
theorem putCache_eq_some {size : Int} {a : Addr} :
    ∀ {cs cs' : List SpecifiedSizeCacheList}, putCache size a cs = some cs' →
      ∃ pre c post, cs = pre ++ c :: post ∧ c.allocatedCacheSize = size
        ∧ cs' = pre ++ { c with list := c.list ++ [a] } :: post := by
  intro cs
  induction cs with
  | nil => intro cs' h; cases h
  | cons c cs ih =>
      intro cs' h
      rw [putCache] at h
      by_cases hc : c.allocatedCacheSize = size
      · rw [if_pos hc] at h
        exact ⟨[], c, cs, rfl, hc, (Option.some.inj h).symm⟩
      · rw [if_neg hc] at h
        obtain ⟨cs₁, hr, rfl⟩ := Option.map_eq_some_iff.mp h
        obtain ⟨pre, d, post, hcs, hsize, hcs'⟩ := ih hr
        exact ⟨c :: pre, d, post, by rw [hcs]; rfl, hsize, by rw [hcs']; rfl⟩

theorem putCache_isSome {size : Int} {a : Addr}
    {cs : List SpecifiedSizeCacheList}
    (h : size ∈ cs.map (·.allocatedCacheSize)) :
    ∃ cs', putCache size a cs = some cs' := by
  induction cs with
  | nil => cases h
  | cons c cs ih =>
      rw [putCache]
      by_cases hc : c.allocatedCacheSize = size
      · rw [if_pos hc]
        exact ⟨_, rfl⟩
      · rw [if_neg hc]
        have hrest : size ∈ cs.map (·.allocatedCacheSize) := by
          rcases List.mem_cons.mp h with heq | hmem
          · exact absurd heq.symm hc
          · exact hmem
        obtain ⟨cs', hcs'⟩ := ih hrest
        exact ⟨c :: cs', by rw [hcs']; rfl⟩

/-- The free caches before, in and behind one class. -/
theorem flatMap_split (pre : List SpecifiedSizeCacheList)
    (c : SpecifiedSizeCacheList) (post : List SpecifiedSizeCacheList) :
    (pre ++ c :: post).flatMap (fun d => d.list)
      = pre.flatMap (fun d => d.list)
        ++ (c.list ++ post.flatMap fun d => d.list) := by
  rw [List.flatMap_append, List.flatMap_cons]

/-! ## `get_new_cache` -/

/-- What `get_new_cache` returns: a blank cache that is large enough, either
    newly created or taken off a free list. -/
structure HandedOut (p p' : CachePool) (n : Int) (a : Addr) : Prop where
  inv : PoolInv p'
  first : (classSizes p).find? (fun size => decide (n ≤ size))
    = some (p'.mem a).allocatedSize
  blank : (p'.mem a).buff = List.replicate (p'.mem a).allocatedSize.toNat 0
  others : ∀ b, b ≠ a → p'.mem b = p.mem b
  pastTable : p'.pastTable = p.pastTable
  mallocs : p'.mallocs = p.mallocs
  source : (a = p.created ∧ p'.created = p.created + 1
        ∧ freeList p' = freeList p)
      ∨ (p'.created = p.created ∧ (freeList p).Perm (a :: freeList p'))

/-- A new cache is added to the pool. -/
private theorem poolInv_create {p : CachePool} (h : PoolInv p) {size n : Int}
    (hsize : size ∈ p.availableCacheNode.map (·.allocatedCacheSize)) :
    PoolInv { p with
      mem := Function.update p.mem p.created
        ⟨size, n, List.replicate size.toNat 0⟩
      created := p.created + 1
      allNode := p.allNode ++ [p.created] } := by
  have hold : ∀ {b : Addr}, b < p.created →
      Function.update p.mem p.created
        ⟨size, n, List.replicate size.toNat 0⟩ b = p.mem b :=
    fun hb => Function.update_of_ne (Nat.ne_of_lt hb) _ _
  have hfiled : ∀ c ∈ p.availableCacheNode, ∀ a ∈ c.list, a < p.created :=
    fun c hc a ha => h.freeLt a (List.mem_flatMap.mpr ⟨c, hc, ha⟩)
  exact {
    allNode := by
      show p.allNode ++ [p.created] = List.range (p.created + 1)
      rw [List.range_succ, h.allNode]
    freeNodup := h.freeNodup
    freeLt := fun a ha => Nat.lt_succ_of_lt (h.freeLt a ha)
    filed := by
      intro c hc a ha
      show (Function.update p.mem p.created _ a).allocatedSize = _
      rw [hold (hfiled c hc a ha)]
      exact h.filed c hc a ha
    blank := by
      intro a ha
      show (Function.update p.mem p.created _ a).buff
        = List.replicate (Function.update p.mem p.created _ a).allocatedSize.toNat 0
      rw [hold (h.freeLt a ha)]
      exact h.blank a ha
    buffLen := by
      intro a ha
      show (Function.update p.mem p.created _ a).buff.length
        = (Function.update p.mem p.created _ a).allocatedSize.toNat
      rcases Nat.lt_succ_iff_lt_or_eq.mp ha with hlt | heq
      · rw [hold hlt]
        exact h.buffLen a hlt
      · rw [heq, Function.update_self, List.length_replicate]
    hasClass := by
      intro a ha
      show (Function.update p.mem p.created _ a).allocatedSize ∈ _
      rcases Nat.lt_succ_iff_lt_or_eq.mp ha with hlt | heq
      · rw [hold hlt]
        exact h.hasClass a hlt
      · rw [heq, Function.update_self]
        exact hsize
    classes := h.classes }

/-- The free list loses the cache that is handed out again. -/
private theorem poolInv_reuse {p : CachePool} (h : PoolInv p) {n : Int}
    {pre post : List SpecifiedSizeCacheList} {c : SpecifiedSizeCacheList}
    {a : Addr} {l : List Addr}
    (hav : p.availableCacheNode = pre ++ c :: post) (hl : c.list = a :: l) :
    PoolInv { p with
        mem := Function.update p.mem a { p.mem a with cacheSize := n }
        availableCacheNode := pre ++ { c with list := l } :: post }
      ∧ (freeList p).Perm
          (a :: (pre ++ { c with list := l } :: post).flatMap fun d => d.list) := by
  have hperm : (freeList p).Perm
      (a :: (pre ++ { c with list := l } :: post).flatMap fun d => d.list) := by
    rw [freeList, hav, flatMap_split, flatMap_split, hl, List.cons_append]
    exact List.perm_middle
  refine ⟨?_, hperm⟩
  have hsub : ∀ b, b ∈ (pre ++ { c with list := l } :: post).flatMap
      (fun d => d.list) → b ∈ freeList p :=
    fun b hb => hperm.mem_iff.mpr (List.mem_cons_of_mem _ hb)
  -- only `cache_size` of the reused cache changes
  have hsize : ∀ b, (Function.update p.mem a { p.mem a with cacheSize := n }
      b).allocatedSize = (p.mem b).allocatedSize := by
    intro b
    by_cases hb : b = a
    · rw [hb, Function.update_self]
    · rw [Function.update_of_ne hb]
  have hbuff : ∀ b, (Function.update p.mem a { p.mem a with cacheSize := n }
      b).buff = (p.mem b).buff := by
    intro b
    by_cases hb : b = a
    · rw [hb, Function.update_self]
    · rw [Function.update_of_ne hb]
  have hmap : (pre ++ { c with list := l } :: post).map
        (fun d => d.allocatedCacheSize)
      = p.availableCacheNode.map (fun d => d.allocatedCacheSize) := by
    rw [hav, List.map_append, List.map_append, List.map_cons, List.map_cons]
  exact {
    allNode := h.allNode
    freeNodup := (List.nodup_cons.mp (hperm.nodup_iff.mp h.freeNodup)).2
    freeLt := fun b hb => h.freeLt b (hsub b hb)
    filed := by
      intro d hd b hb
      refine (hsize b).trans ?_
      rcases List.mem_append.mp hd with h1 | h2
      · exact h.filed d (by rw [hav]; simp [h1]) b hb
      · rcases List.mem_cons.mp h2 with heq | h3
        · subst heq
          exact h.filed c (by rw [hav]; simp) b
            (by rw [hl]; exact List.mem_cons_of_mem _ hb)
        · exact h.filed d (by rw [hav]; simp [h3]) b hb
    blank := by
      intro b hb
      show (Function.update p.mem a _ b).buff
        = List.replicate (Function.update p.mem a _ b).allocatedSize.toNat 0
      rw [hsize, hbuff]
      exact h.blank b (hsub b hb)
    buffLen := by
      intro b hb
      show (Function.update p.mem a _ b).buff.length
        = (Function.update p.mem a _ b).allocatedSize.toNat
      rw [hsize, hbuff]
      exact h.buffLen b hb
    hasClass := by
      intro b hb
      show (Function.update p.mem a _ b).allocatedSize
        ∈ (pre ++ { c with list := l } :: post).map (fun d => d.allocatedCacheSize)
      rw [hsize, hmap]
      exact h.hasClass b hb
    classes := by
      right
      show (pre ++ { c with list := l } :: post).map
        (fun d => d.allocatedCacheSize) = classSizes p
      rw [hmap]
      rcases h.classes with h0 | h1
      · rw [hav] at h0
        simp at h0
      · exact h1 }

/-- **`get_new_cache`** hands out a blank cache that is large enough and that
    nobody holds, and leaves all others alone. -/
theorem getNewCache_spec {p p' : CachePool} {n : Int} {a : Addr}
    (h : PoolInv p) (hget : getNewCache p n = (some a, p')) :
    HandedOut p p' n a := by
  obtain ⟨hq, hmap, hfree, hmem, hcre, hpast, hmal⟩ := makeSureCacheMm_spec h
  rw [getNewCache] at hget
  generalize hqdef : makeSureCacheMm p = q at *
  simp only at hget
  cases htake : takeCache n q.availableCacheNode with
  | none =>
      rw [htake] at hget
      cases congrArg Prod.fst hget
  | some r =>
      obtain ⟨size, o, classes⟩ := r
      rw [htake] at hget
      obtain ⟨pre, c, post, hav, hsize, hcase⟩ := takeCache_eq_some htake
      have hfirst : (classSizes p).find? (fun size => decide (n ≤ size))
          = some size := by
        rw [← hmap, ← takeCache_size, htake]
        rfl
      have hin : size ∈ q.availableCacheNode.map (·.allocatedCacheSize) := by
        rw [hav, ← hsize]
        simp
      rcases hcase with ⟨rfl, rfl⟩ | ⟨b, l, rfl, hl, rfl⟩
      · have ha : q.created = a := Option.some.inj (congrArg Prod.fst hget)
        have hp' := congrArg Prod.snd hget
        subst ha
        subst hp'
        refine ⟨poolInv_create hq hin, ?_, ?_, ?_, hpast, hmal, ?_⟩
        · simpa using hfirst
        · simp
        · intro b hb
          show Function.update q.mem q.created _ b = p.mem b
          rw [Function.update_of_ne hb, hmem]
        · refine Or.inl ⟨hcre, ?_, hfree⟩
          show q.created + 1 = p.created + 1
          rw [hcre]
      · have ha : b = a := Option.some.inj (congrArg Prod.fst hget)
        have hp' := congrArg Prod.snd hget
        subst ha
        subst hp'
        obtain ⟨hinv, hperm⟩ := poolInv_reuse hq (n := n) hav hl
        have hbfree : b ∈ freeList q := hperm.mem_iff.mpr (List.mem_cons_self ..)
        have hbsize : (q.mem b).allocatedSize = size := by
          rw [← hsize]
          exact hq.filed c (by rw [hav]; simp) b (by rw [hl]; simp)
        refine ⟨hinv, ?_, ?_, ?_, hpast, hmal, ?_⟩
        · simpa [hbsize] using hfirst
        · simpa using hq.blank b hbfree
        · intro d hd
          show Function.update q.mem b _ d = p.mem d
          rw [Function.update_of_ne hd, hmem]
        · refine Or.inr ⟨hcre, ?_⟩
          rw [← hfree]
          exact hperm

/-- No class is large enough: nothing is handed out and nothing changes. -/
theorem getNewCache_none {p p' : CachePool} {n : Int} (h : PoolInv p)
    (hget : getNewCache p n = (none, p')) :
    (∀ size ∈ classSizes p, size < n) ∧ p' = makeSureCacheMm p := by
  obtain ⟨-, hmap, -⟩ := makeSureCacheMm_spec h
  rw [getNewCache] at hget
  simp only at hget
  cases htake : takeCache n (makeSureCacheMm p).availableCacheNode with
  | none =>
      rw [htake] at hget
      refine ⟨?_, (congrArg Prod.snd hget).symm⟩
      intro size hsize
      rw [← hmap] at hsize
      obtain ⟨c, hc, rfl⟩ := List.mem_map.mp hsize
      exact takeCache_eq_none.mp htake c hc
  | some r =>
      obtain ⟨size, o, classes⟩ := r
      rw [htake] at hget
      cases o with
      | none => cases congrArg Prod.fst hget
      | some a => cases congrArg Prod.fst hget

/-- A class that is large enough makes `get_new_cache` succeed. -/
theorem getNewCache_isSome {p : CachePool} {n size : Int} (h : PoolInv p)
    (hsize : size ∈ classSizes p) (hn : n ≤ size) :
    ∃ a p', getNewCache p n = (some a, p') := by
  cases hget : getNewCache p n with
  | mk o p' =>
      cases o with
      | some a => exact ⟨a, p', rfl⟩
      | none =>
          have := (getNewCache_none h hget).1 size hsize
          omega

section HandedOut

variable {p p' : CachePool} {n : Int} {a : Addr}

theorem HandedOut.large (h : HandedOut p p' n a) :
    n ≤ (p'.mem a).allocatedSize := by
  simpa using List.find?_some h.first

/-- A block of the smallest class is handed out when that is large enough. -/
theorem HandedOut.smallest (h : HandedOut p p' n a) (hn : n ≤ 64) :
    (p'.mem a).allocatedSize = 64 := by
  have hcons : ∃ rest, classSizes p = 64 :: rest := ⟨_, rfl⟩
  obtain ⟨rest, hrest⟩ := hcons
  have hfirst := h.first
  rw [hrest, List.find?_cons_of_pos (by simpa using hn)] at hfirst
  exact (Option.some.inj hfirst).symm

/-- The handed out cache was held by nobody. -/
theorem HandedOut.not_held (h : HandedOut p p' n a) : ¬ Held p a := by
  rcases h.source with ⟨rfl, -, -⟩ | ⟨-, hperm⟩
  · exact fun hh => Nat.lt_irrefl _ hh.1
  · exact fun hh => hh.2 (hperm.mem_iff.mpr (List.mem_cons_self ..))

/-- Afterwards the held caches are the old ones and the new one. -/
theorem HandedOut.held_iff (hp : PoolInv p) (h : HandedOut p p' n a)
    (b : Addr) : Held p' b ↔ b = a ∨ Held p b := by
  unfold Held
  rcases h.source with ⟨rfl, hcre, hfree⟩ | ⟨hcre, hperm⟩
  · rw [hcre, hfree, Nat.lt_succ_iff_lt_or_eq]
    constructor
    · rintro ⟨hlt | rfl, hn⟩
      · exact Or.inr ⟨hlt, hn⟩
      · exact Or.inl rfl
    · rintro (rfl | ⟨hlt, hn⟩)
      · exact ⟨Or.inr rfl, fun hm => Nat.lt_irrefl _ (hp.freeLt _ hm)⟩
      · exact ⟨Or.inl hlt, hn⟩
  · have hnd := List.nodup_cons.mp (hperm.nodup_iff.mp hp.freeNodup)
    rw [hcre, hperm.mem_iff, List.mem_cons]
    constructor
    · rintro ⟨hlt, hn⟩
      by_cases hb : b = a
      · exact Or.inl hb
      · exact Or.inr ⟨hlt, by simp [hb, hn]⟩
    · rintro (rfl | ⟨hlt, hn⟩)
      · exact ⟨hp.freeLt _ (hperm.mem_iff.mpr (List.mem_cons_self ..)), hnd.1⟩
      · exact ⟨hlt, fun hm => hn (Or.inr hm)⟩

theorem HandedOut.held (hp : PoolInv p) (h : HandedOut p p' n a) : Held p' a :=
  (h.held_iff hp a).mpr (Or.inl rfl)

theorem HandedOut.keeps (hp : PoolInv p) (h : HandedOut p p' n a) :
    Keeps p p' [] where
  held := fun b hb _ => (h.held_iff hp b).mpr (Or.inr hb)
  mem := by
    intro b hb _
    refine h.others b ?_
    rintro rfl
    exact h.not_held hb
  pastTable := h.pastTable
  mallocs := fun ok hok => h.mallocs ▸ hok

theorem HandedOut.length (h : HandedOut p p' n a) :
    n.toNat ≤ (p'.mem a).buff.length := by
  rw [h.blank, List.length_replicate]
  have := h.large
  omega

end HandedOut

/-- A failing `get_new_cache` leaves the held caches alone. -/
theorem keeps_makeSureCacheMm {p : CachePool} (h : PoolInv p)
    (S : List Addr) : Keeps p (makeSureCacheMm p) S := by
  obtain ⟨-, -, hfree, hmem, hcre, hpast, hmal⟩ := makeSureCacheMm_spec h
  refine ⟨?_, ?_, hpast, fun ok hok => hmal ▸ hok⟩
  · intro a ha _
    rw [Held]
    rw [hfree, hcre]
    exact ha
  · intro a _ _
    rw [hmem]

/-! ## `recycle_cache`, `memcpy` into a cache, `malloc` -/

/-- Taking a cache back: it waits, blank, and the others stay as they are. -/
structure TakenBack (p p' : CachePool) (a : Addr) : Prop where
  inv : PoolInv p'
  free : (freeList p').Perm (a :: freeList p)
  created : p'.created = p.created
  others : ∀ b, b ≠ a → p'.mem b = p.mem b
  pastTable : p'.pastTable = p.pastTable
  mallocs : p'.mallocs = p.mallocs

/-- **`recycle_cache`** of a held cache finds its class and files it there. -/
theorem recycleCache_spec {p : CachePool} {a : Addr} (h : PoolInv p)
    (ha : Held p a) :
    (recycleCache p a).1 = 0 ∧ TakenBack p (recycleCache p a).2 a := by
  obtain ⟨hq, hmap, hfree, hmem, hcre, hpast, hmal⟩ := makeSureCacheMm_spec h
  have hlt : a < (makeSureCacheMm p).created := by
    rw [hcre]
    exact ha.1
  obtain ⟨classes, hput⟩ := putCache_isSome (a := a) (hq.hasClass a hlt)
  rw [recycleCache]
  generalize hqdef : makeSureCacheMm p = q at *
  simp only [hput]
  refine ⟨trivial, ?_⟩
  obtain ⟨pre, c, post, hav, hsize, rfl⟩ := putCache_eq_some hput
  have hperm : ((pre ++ { c with list := c.list ++ [a] } :: post).flatMap
      fun d => d.list).Perm (a :: freeList q) := by
    rw [freeList, hav, flatMap_split, flatMap_split, List.append_assoc c.list,
      List.singleton_append]
    exact (List.Perm.append_left _ List.perm_middle).trans List.perm_middle
  have hnot : a ∉ freeList q := by
    rw [hfree]
    exact ha.2
  have hall : ∀ b, b ∈ (pre ++ { c with list := c.list ++ [a] } :: post).flatMap
      (fun d => d.list) → b = a ∨ b ∈ freeList q :=
    fun b hb => List.mem_cons.mp (hperm.mem_iff.mp hb)
  have hasize : ∀ b, (Function.update q.mem a
      { q.mem a with
        buff := overwrite (q.mem a).buff 0
          (List.replicate (q.mem a).allocatedSize.toNat 0)
        cacheSize := 0 } b).allocatedSize = (q.mem b).allocatedSize := by
    intro b
    by_cases hb : b = a
    · rw [hb, Function.update_self]
    · rw [Function.update_of_ne hb]
  have hblank : overwrite (q.mem a).buff 0
      (List.replicate (q.mem a).allocatedSize.toNat 0)
      = List.replicate (q.mem a).allocatedSize.toNat 0 := by
    simp only [overwrite, List.take_zero, List.nil_append,
      List.length_replicate, Nat.zero_add]
    rw [List.drop_of_length_le (Nat.le_of_eq (hq.buffLen a hlt)),
      List.append_nil]
  have hmap' : (pre ++ { c with list := c.list ++ [a] } :: post).map
        (fun d => d.allocatedCacheSize)
      = q.availableCacheNode.map (fun d => d.allocatedCacheSize) := by
    rw [hav, List.map_append, List.map_append, List.map_cons, List.map_cons]
  refine ⟨?_, hfree ▸ hperm, hcre, ?_, hpast, hmal⟩
  · exact {
      allNode := hq.allNode
      freeNodup := hperm.nodup_iff.mpr (List.nodup_cons.mpr ⟨hnot, hq.freeNodup⟩)
      freeLt := by
        intro b hb
        rcases hall b hb with rfl | hb'
        · exact hlt
        · exact hq.freeLt b hb'
      filed := by
        intro d hd b hb
        refine (hasize b).trans ?_
        rcases List.mem_append.mp hd with h1 | h2
        · exact hq.filed d (by rw [hav]; simp [h1]) b hb
        · rcases List.mem_cons.mp h2 with heq | h3
          · subst heq
            rcases List.mem_append.mp hb with h4 | h5
            · exact hq.filed c (by rw [hav]; simp) b h4
            · rw [List.mem_singleton.mp h5]
              exact hsize.symm
          · exact hq.filed d (by rw [hav]; simp [h3]) b hb
      blank := by
        intro b hb
        show (Function.update q.mem a _ b).buff
          = List.replicate (Function.update q.mem a _ b).allocatedSize.toNat 0
        rw [hasize]
        by_cases hba : b = a
        · rw [hba, Function.update_self]
          exact hblank
        · rw [Function.update_of_ne hba]
          rcases hall b hb with heq | hb'
          · exact absurd heq hba
          · exact hq.blank b hb'
      buffLen := by
        intro b hb
        show (Function.update q.mem a _ b).buff.length
          = (Function.update q.mem a _ b).allocatedSize.toNat
        rw [hasize]
        by_cases hba : b = a
        · rw [hba, Function.update_self]
          show (overwrite _ _ _).length = _
          rw [hblank, List.length_replicate]
        · rw [Function.update_of_ne hba]
          exact hq.buffLen b hb
      hasClass := by
        intro b hb
        show (Function.update q.mem a _ b).allocatedSize
          ∈ (pre ++ { c with list := c.list ++ [a] } :: post).map
            (fun d => d.allocatedCacheSize)
        rw [hasize, hmap']
        exact hq.hasClass b hb
      classes := by
        right
        show (pre ++ { c with list := c.list ++ [a] } :: post).map
          (fun d => d.allocatedCacheSize) = classSizes q
        rw [hmap', hmap]
        unfold classSizes
        rw [hpast] }
  · intro b hb
    show Function.update q.mem a _ b = p.mem b
    rw [Function.update_of_ne hb, hmem]

theorem TakenBack.held_iff {p p' : CachePool} {a : Addr}
    (h : TakenBack p p' a) (b : Addr) : Held p' b ↔ b ≠ a ∧ Held p b := by
  rw [Held]
  rw [h.created, h.free.mem_iff, List.mem_cons, not_or]
  exact and_left_comm

theorem TakenBack.keeps {p p' : CachePool} {a : Addr} (h : TakenBack p p' a) :
    Keeps p p' [a] where
  held := fun b hb hn => (h.held_iff b).mpr ⟨fun e => hn (by simp [e]), hb⟩
  mem := fun b _ hn => h.others b (fun e => hn (by simp [e]))
  pastTable := h.pastTable
  mallocs := fun ok hok => h.mallocs ▸ hok

@[simp] theorem held_writeCache (p : CachePool) (a : Addr) (off : Nat)
    (bytes : List UInt8) (b : Addr) :
    Held (writeCache p a off bytes) b ↔ Held p b := Iff.rfl

theorem buff_writeCache (p : CachePool) (a : Addr) (off : Nat)
    (bytes : List UInt8) :
    ((writeCache p a off bytes).mem a).buff
      = overwrite (p.mem a).buff off bytes := by
  show (Function.update p.mem a _ a).buff = _
  rw [Function.update_self]

theorem mem_writeCache_of_ne (p : CachePool) {a b : Addr} (hb : b ≠ a)
    (off : Nat) (bytes : List UInt8) :
    (writeCache p a off bytes).mem b = p.mem b :=
  Function.update_of_ne hb _ _

/-- A holder that stays inside the block keeps the pool invariant. -/
theorem poolInv_writeCache {p : CachePool} (h : PoolInv p) {a : Addr}
    (ha : Held p a) {off : Nat} {bytes : List UInt8}
    (hfit : off + bytes.length ≤ (p.mem a).buff.length) :
    PoolInv (writeCache p a off bytes) := by
  have hsize : ∀ b, ((writeCache p a off bytes).mem b).allocatedSize
      = (p.mem b).allocatedSize := by
    intro b
    by_cases hb : b = a
    · rw [hb]
      show (Function.update p.mem a _ a).allocatedSize = _
      rw [Function.update_self]
    · rw [mem_writeCache_of_ne p hb]
  exact {
    allNode := h.allNode
    freeNodup := h.freeNodup
    freeLt := h.freeLt
    filed := fun c hc b hb => (hsize b).trans (h.filed c hc b hb)
    blank := by
      intro b hb
      have hne : b ≠ a := fun e => ha.2 (e ▸ hb)
      rw [mem_writeCache_of_ne p hne]
      exact h.blank b hb
    buffLen := by
      intro b hb
      rw [hsize]
      by_cases hba : b = a
      · rw [hba, buff_writeCache, length_overwrite hfit]
        exact h.buffLen a ha.1
      · rw [mem_writeCache_of_ne p hba]
        exact h.buffLen b hb
    hasClass := by
      intro b hb
      rw [hsize]
      exact h.hasClass b hb
    classes := h.classes }

theorem keeps_writeCache (p : CachePool) (a : Addr) (off : Nat)
    (bytes : List UInt8) : Keeps p (writeCache p a off bytes) [a] where
  held := fun _ hb _ => hb
  mem := fun b _ hn => mem_writeCache_of_ne p (fun e => hn (by simp [e])) _ _
  pastTable := rfl
  mallocs := fun _ h => h

/-- Only checked allocations happened: the pool advanced its environment. -/
def Allocated (p p' : CachePool) : Prop :=
  ∃ ms, p' = { p with mallocs := ms } ∧ ∀ ok ∈ ms, ok ∈ p.mallocs

theorem Allocated.refl (p : CachePool) : Allocated p p :=
  ⟨p.mallocs, rfl, fun _ h => h⟩

theorem Allocated.trans {p p₁ p₂ : CachePool} (h : Allocated p p₁)
    (h' : Allocated p₁ p₂) : Allocated p p₂ := by
  obtain ⟨ms, rfl, hsub⟩ := h
  obtain ⟨ms', rfl, hsub'⟩ := h'
  exact ⟨ms', rfl, fun ok hok => hsub ok (hsub' ok hok)⟩

theorem allocated_malloc (p : CachePool) : Allocated p (malloc p).2 := by
  rw [malloc]
  cases hm : p.mallocs with
  | nil => exact ⟨p.mallocs, rfl, fun _ h => hm ▸ h⟩
  | cons ok rest => exact ⟨rest, rfl, fun _ h => hm ▸ List.mem_cons_of_mem _ h⟩

theorem Allocated.inv {p p' : CachePool} (ha : Allocated p p')
    (h : PoolInv p) : PoolInv p' := by
  obtain ⟨ms, rfl, -⟩ := ha
  exact ⟨h.allNode, h.freeNodup, h.freeLt, h.filed, h.blank, h.buffLen,
    h.hasClass, h.classes⟩

theorem Allocated.keeps {p p' : CachePool} (ha : Allocated p p')
    (S : List Addr) : Keeps p p' S := by
  obtain ⟨ms, rfl, hsub⟩ := ha
  exact ⟨fun _ h _ => h, fun _ _ _ => rfl, rfl, hsub⟩

theorem Allocated.mem {p p' : CachePool} (ha : Allocated p p') :
    p'.mem = p.mem := by
  obtain ⟨ms, rfl, -⟩ := ha
  rfl

theorem Allocated.held_iff {p p' : CachePool} (ha : Allocated p p')
    (a : Addr) : Held p' a ↔ Held p a := by
  obtain ⟨ms, rfl, -⟩ := ha
  rfl

/-- A cache taken from the pool for a while: from `p` to `p'` the caller has got
    `a`, and the caches others hold are untouched. -/
structure Borrowed (p p' : CachePool) (a : Addr) : Prop where
  inv : PoolInv p'
  keeps : Keeps p p' []
  fresh : ¬ Held p a
  held : Held p' a

theorem HandedOut.borrowed {p p' : CachePool} {n : Int} {a : Addr}
    (hp : PoolInv p) (h : HandedOut p p' n a) : Borrowed p p' a :=
  ⟨h.inv, h.keeps hp, h.not_held, h.held hp⟩

theorem Borrowed.write {p p' : CachePool} {a : Addr} (h : Borrowed p p' a)
    (bytes : List UInt8) (hfit : bytes.length ≤ (p'.mem a).buff.length) :
    Borrowed p (writeCache p' a 0 bytes) a where
  inv := poolInv_writeCache h.inv h.held (by rw [Nat.zero_add]; exact hfit)
  keeps := h.keeps.trans (keeps_writeCache p' a 0 bytes) (by
    intro b hb
    rw [List.mem_singleton.mp hb]
    exact Or.inr h.fresh)
  fresh := h.fresh
  held := h.held

theorem Borrowed.alloc {p p' p'' : CachePool} {a : Addr}
    (h : Borrowed p p' a) (ha : Allocated p' p'') : Borrowed p p'' a where
  inv := ha.inv h.inv
  keeps := h.keeps.trans (ha.keeps []) (fun _ hb => by cases hb)
  fresh := h.fresh
  held := (ha.held_iff a).mpr h.held

/-- Given back, it has left no trace in the caches others hold. -/
theorem Borrowed.recycle {p p' : CachePool} {a : Addr} (h : Borrowed p p' a) :
    PoolInv (recycleCache p' a).2 ∧ Keeps p (recycleCache p' a).2 [] := by
  have hback := (recycleCache_spec h.inv h.held).2
  refine ⟨hback.inv, h.keeps.trans hback.keeps ?_⟩
  intro b hb
  rw [List.mem_singleton.mp hb]
  exact Or.inr h.fresh

/-- No checked allocation will fail. -/
def NoFail (p : CachePool) : Prop :=
  ∀ ok ∈ p.mallocs, ok = true

theorem NoFail.malloc {p : CachePool} (h : NoFail p) :
    (malloc p).1 = true := by
  rw [IMCachePool.malloc]
  cases hm : p.mallocs with
  | nil => rfl
  | cons ok rest => exact h ok (by rw [hm]; exact List.mem_cons_self ..)

theorem NoFail.keeps {p p' : CachePool} {S : List Addr} (h : NoFail p)
    (hk : Keeps p p' S) : NoFail p' :=
  fun ok hok => h ok (hk.mallocs ok hok)

end IMCachePool

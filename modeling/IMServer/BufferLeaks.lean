import IMServer.BufferQueue

/-! # Leaks — the caches handed out for buffers

    Nothing may be lost between the calls on the buffers: a cache that was handed
    out for a buffer hangs on one of its nodes until it is given back.  Taking
    bytes and destroying a buffer keep this whatever the sizes and counts are.
    Appending keeps it when the nodes the call added are spliced to the buffer,
    and they are when the `int` the call returns is positive. -/

namespace IMBufferLeaks

open IMBytes IMMachineInt IMCachePool IMBuffer IMBufferInvariant IMBufferAppend
  IMBufferTake IMBufferQueue IMTransition

/-! ## Keeping account of the caches -/

/-- What is held after a call hangs on the buffer, or others held it before. -/
def NoneLost (p p' : CachePool) (b b' : Buffer) : Prop :=
  ∀ a, Held p' a → a ∈ owned b' ∨ (Held p a ∧ a ∉ owned b)

theorem NoneLost.refl (p : CachePool) (b : Buffer) : NoneLost p p b b := by
  intro a ha
  by_cases hb : a ∈ owned b
  · exact Or.inl hb
  · exact Or.inr ⟨ha, hb⟩

theorem NoneLost.trans {p p₁ p₂ : CachePool} {b b₁ b₂ : Buffer}
    (h : NoneLost p p₁ b b₁) (h' : NoneLost p₁ p₂ b₁ b₂) :
    NoneLost p p₂ b b₂ := by
  intro a ha
  rcases h' a ha with h1 | ⟨hheld, hnot⟩
  · exact Or.inl h1
  · exact Or.inr ((h a hheld).resolve_left hnot)

/-- The nodes of a list have different caches, all of them held. -/
structure Attached (p : CachePool) (b : Buffer) : Prop where
  pool : PoolInv p
  held : ∀ a ∈ owned b, Held p a
  nodup : (owned b).Nodup

theorem attached_of_inv {p : CachePool} {b : Buffer} (hp : PoolInv p)
    (hb : BufferInv p b) : Attached p b :=
  ⟨hp, fun _ => hb.heldOwned, hb.nodup⟩

/-- A node whose offsets move keeps its cache. -/
theorem noneLost_offsets {p p' : CachePool} {node : InnerNode}
    {rest b' : Buffer} (r : Int) (h : Attached p (node :: rest))
    (hloop : Attached p ({ node with rOffset := r } :: rest) →
      NoneLost p p' ({ node with rOffset := r } :: rest) b') :
    NoneLost p p' (node :: rest) b' :=
  hloop ⟨h.pool, h.held, h.nodup⟩

/-- A node that leaves the list gives its cache back. -/
theorem noneLost_recycle {p : CachePool} {node : InnerNode} {b : Buffer}
    (h : Attached p (node :: b)) :
    Attached (recycleCache p node.cache).2 b
      ∧ NoneLost p (recycleCache p node.cache).2 (node :: b) b := by
  obtain ⟨hnot, hnd⟩ := List.nodup_cons.mp h.nodup
  have hback := (recycleCache_spec h.pool (h.held _ (List.mem_cons_self ..))).2
  refine ⟨⟨hback.inv, ?_, hnd⟩, ?_⟩
  · intro a ha
    refine (hback.held_iff a).mpr ⟨?_, h.held a (List.mem_cons_of_mem _ ha)⟩
    rintro rfl
    exact hnot ha
  · intro a ha
    obtain ⟨hne, hheld⟩ := (hback.held_iff a).mp ha
    by_cases hb : a ∈ owned b
    · exact Or.inl hb
    · refine Or.inr ⟨hheld, fun hm => ?_⟩
      rcases List.mem_cons.mp hm with h1 | h2
      · exact hne h1
      · exact hb h2

/-! ## Taking and destroying -/

theorem noneLost_readFromLoop (expected : Nat) :
    ∀ (fuel already : Nat) (b : Buffer) (p : CachePool) (target : List UInt8),
      Attached p b →
      NoneLost p (readFromLoop expected fuel already b p target).pool b
        (readFromLoop expected fuel already b p target).buffer := by
  intro fuel
  induction fuel with
  | zero => intro already b p target _; exact NoneLost.refl p b
  | succ fuel ih =>
      intro already b p target h
      rw [readFromLoop.eq_def]
      dsimp only
      split
      · cases b with
        | nil => exact NoneLost.refl p []
        | cons node rest =>
            dsimp only
            split
            · obtain ⟨hrest, hlost⟩ := noneLost_recycle h
              exact hlost.trans (ih _ _ _ _ hrest)
            · exact noneLost_offsets _ h (ih _ _ _ _)
      · exact NoneLost.refl p b

theorem noneLost_writeFromLoop (size : Nat) :
    ∀ (fuel already : Nat) (b : Buffer) (p : CachePool)
      (writes : List WriteOutcome) (sent : List UInt8) (calls : List WriteCall),
      Attached p b →
      NoneLost p (writeFromLoop size fuel already b p writes sent calls).pool b
        (writeFromLoop size fuel already b p writes sent calls).buffer := by
  intro fuel
  induction fuel with
  | zero => intro already b p writes sent calls _; exact NoneLost.refl p b
  | succ fuel ih =>
      intro already b p writes sent calls h
      rw [writeFromLoop.eq_def]
      dsimp only
      split
      · cases b with
        | nil => exact NoneLost.refl p []
        | cons node rest =>
            dsimp only
            rw [if_neg (Nat.not_lt_zero _)]
            split
            · obtain ⟨hrest, hlost⟩ := noneLost_recycle h
              exact hlost.trans (ih _ _ _ _ _ _ hrest)
            · exact noneLost_offsets _ h (ih _ _ _ _ _ _)
      · exact NoneLost.refl p b

/-- **`destroy_buffer`** gives every cache back. -/
theorem noneLost_destroyBuffer {p : CachePool} : ∀ {b : Buffer},
    PoolInv p → BufferInv p b → NoneLost p (destroyBuffer p b) b [] := by
  intro b hp
  induction b with
  | nil => exact fun _ => NoneLost.refl p []
  | cons node b ih =>
      intro hb
      have hm := moves_destroyBuffer hp hb.tail
      have hnot : node.cache ∉ owned b := (List.nodup_cons.mp hb.nodup).1
      have hheld : Held (destroyBuffer p b) node.cache :=
        hm.keeps.held _ (hb.held node (List.mem_cons_self ..)) hnot
      have hback := (recycleCache_spec hm.pool hheld).2
      intro a ha
      obtain ⟨hne, hbefore⟩ := (hback.held_iff a).mp ha
      rcases ih hb.tail a hbefore with h1 | ⟨hp', hout⟩
      · cases h1
      · refine Or.inr ⟨hp', fun hmem => ?_⟩
        rcases List.mem_cons.mp hmem with h1 | h2
        · exact hne h1
        · exact hout h2

/-! ## Appending: the new nodes -/

/-- The outcomes still to come when both allocations of a node succeed. -/
def nodeMallocs : List Bool → Option (List Bool)
  | [] => some []
  | [ok] => if ok then some [] else none
  | ok :: ok' :: rest => if ok && ok' then some rest else none

/-- A new node, or none and not a cache more handed out. -/
theorem newInnerNode_cases {p p' : CachePool} {o : Option InnerNode}
    (hp : PoolInv p) (h : newInnerNode p = (o, p')) :
    (o = none ∧ nodeMallocs p.mallocs = none ∧ Allocated p p')
    ∨ ∃ node, o = some node ∧ nodeMallocs p.mallocs = some p'.mallocs
        ∧ ∀ a, Held p' a ↔ a = node.cache ∨ Held p a := by
  -- when both calls of malloc succeed, the pool has a cache
  have hcache : ∀ q, Allocated p q → nodeMallocs p.mallocs = some q.mallocs →
      (∀ a q', getNewCache q cacheSize = (some a, q') →
        newInnerNode p = (some ⟨0, 0, a⟩, q')) →
      ∃ node, o = some node ∧ nodeMallocs p.mallocs = some p'.mallocs
        ∧ ∀ a, Held p' a ↔ a = node.cache ∨ Held p a := by
    intro q hq hms hnew
    obtain ⟨a, p₃, hget⟩ := getNewCache_isSome (hq.inv hp)
      (mem_classSizes cacheSize (by decide)) (Int.le_refl cacheSize)
    rw [hnew a p₃ hget] at h
    obtain ⟨rfl, rfl⟩ := Prod.mk.inj h
    have hout := getNewCache_spec (hq.inv hp) hget
    refine ⟨_, rfl, by rw [hms, hout.mallocs], fun b => ?_⟩
    rw [hout.held_iff (hq.inv hp), hq.held_iff]
  have hnil : ∀ ok ∈ ([] : List Bool), ok ∈ p.mallocs :=
    fun _ hok => absurd hok List.not_mem_nil
  rcases hm : p.mallocs with _ | ⟨ok, _ | ⟨ok', rest⟩⟩
  · rw [← hm]
    exact Or.inr (hcache p (Allocated.refl p) (by rw [hm]; rfl) fun a q' hget => by
      simp only [newInnerNode, malloc, hm, hget])
  · cases ok with
    | false =>
        simp only [newInnerNode, malloc, hm] at h
        obtain ⟨rfl, rfl⟩ := Prod.mk.inj h
        exact Or.inl ⟨rfl, rfl, [], rfl, hnil⟩
    | true =>
        rw [← hm]
        exact Or.inr (hcache { p with mallocs := [] } ⟨[], rfl, hnil⟩
          (by rw [hm]; rfl) fun a q' hget => by
            simp only [newInnerNode, malloc, hm, hget])
  · have hrest : ∀ ok₁ ∈ rest, ok₁ ∈ p.mallocs := fun ok₁ h₁ => by
      rw [hm]
      exact List.mem_cons_of_mem _ (List.mem_cons_of_mem _ h₁)
    have hrest' : ∀ ok₁ ∈ ok' :: rest, ok₁ ∈ p.mallocs := fun ok₁ h₁ => by
      rw [hm]
      exact List.mem_cons_of_mem _ h₁
    cases ok with
    | false =>
        simp only [newInnerNode, malloc, hm] at h
        obtain ⟨rfl, rfl⟩ := Prod.mk.inj h
        exact Or.inl ⟨rfl, rfl, _, rfl, hrest'⟩
    | true =>
        cases ok' with
        | false =>
            simp only [newInnerNode, malloc, hm] at h
            obtain ⟨rfl, rfl⟩ := Prod.mk.inj h
            exact Or.inl ⟨rfl, rfl, _, rfl, hrest⟩
        | true =>
            rw [← hm]
            exact Or.inr (hcache { p with mallocs := rest } ⟨rest, rfl, hrest⟩
              (by rw [hm]; rfl) fun a q' hget => by
                simp only [newInnerNode, malloc, hm, hget])

section FillRun

variable {σ : Type} {next : Nat → σ → Option (List UInt8) × σ} {size : Nat}
  {done : List InnerNode} {node : InnerNode} {p : CachePool} {s : σ}
  {got : List UInt8} {out : FillOut σ}

theorem owned_filled (done : List InnerNode) (node : InnerNode)
    (bs : List UInt8) : owned (done ++ [filled node bs]) = owned (done ++ [node]) := by
  rw [owned_append, owned_append]
  rfl

/-- The loop loses no cache: what it is handed out goes to its list. -/
theorem fillRun_noneLost (h : FillRun next size done node p s got out) :
    NoneLost p out.pool (done ++ [node]) out.nodes := by
  -- a round stores into a cache the list has
  have hround : ∀ {done : List InnerNode} {node : InnerNode} {p : CachePool}
      (bs : List UInt8), NoneLost p
        (writeCache p node.cache node.wOffset.toNat bs) (done ++ [node])
        (done ++ [filled node bs]) := by
    intro done node p bs a ha
    rw [owned_filled]
    exact NoneLost.refl p (done ++ [node]) a ha
  induction h with
  | nothing _ _ => exact NoneLost.refl _ _
  | failed _ _ _ => exact NoneLost.refl _ _
  | last _ _ => exact hround _
  | noNode hr _ hnew =>
      intro a ha
      rcases newInnerNode_cases hr.moves.1.pool hnew with ⟨-, -, halloc⟩ | ⟨_, h, -⟩
      · exact hround _ a ((halloc.held_iff a).mp ha)
      · cases h
  | @more done node p _ _ bs _ node' p' _ hr _ hnew _ ih =>
      refine ((hround bs).trans ?_).trans ih
      intro a ha
      rcases newInnerNode_cases hr.moves.1.pool hnew with ⟨h, -⟩ | ⟨node₁, h, -, hheld⟩
      · cases h
      · obtain rfl := Option.some.inj h
        rw [owned_append]
        rcases (hheld a).mp ha with rfl | hbefore
        · exact Or.inl (List.mem_append_right _ (List.mem_singleton.mpr rfl))
        · exact (NoneLost.refl _ _ a hbefore).imp_left (List.mem_append_left _)

/-- Every node takes at most 512 bytes. -/
theorem fillRun_length (h : FillRun next size done node p s got out) :
    out.got.length + 512 * done.length ≤ got.length + 512 * out.nodes.length := by
  have hround : ∀ {done : List InnerNode} {node : InnerNode} {p : CachePool}
      {s s' : σ} {got bs : List UInt8}, Round next size done node p s got bs s' →
      bs.length ≤ 512 := by
    intro done node p s s' got bs hr
    have hle := hr.le
    have ho := (hr.here.inv.offsets node (by simp)).nonneg
    simp only [askSize, cacheSize] at hle
    omega
  induction h with
  | nothing _ _ =>
      simp only [List.length_append, List.length_singleton]
      omega
  | failed _ _ _ =>
      simp only [List.length_append, List.length_singleton]
      omega
  | last hr _ =>
      have := hround hr
      simp only [List.length_append, List.length_singleton]
      omega
  | noNode hr _ _ =>
      have := hround hr
      simp only [List.length_append, List.length_singleton]
      omega
  | more hr _ _ _ ih =>
      have := hround hr
      simp only [List.length_append, List.length_singleton] at ih
      omega

/-- How many bytes an append can store, when the node at hand has `room`: up to
    a source that runs short, or a node that cannot be allocated. -/
def storable (next : Nat → σ → Option (List UInt8) × σ) :
    Nat → Nat → Nat → List Bool → σ → Nat
  | 0, _, _, _, _ => 0
  | fuel + 1, size, room, mallocs, s =>
      if size = 0 then 0
      else match next (min size room) s with
        | (none, _) => 0
        | (some bs, s) =>
            if bs.length = size ∨ bs.length < min size room then bs.length
            else match nodeMallocs mallocs with
              | none => bs.length
              | some mallocs =>
                  bs.length + storable next fuel (size - bs.length) 512 mallocs s

/-- The loop stores what can be stored. -/
theorem fillRun_storable (h : FillRun next size done node p s got out) :
    ∀ fuel, size < fuel + got.length → out.got.length = got.length
      + storable next fuel (size - got.length) (cacheSize - node.wOffset).toNat
        p.mallocs s := by
  -- what a round gets, and when it is the last one
  have hround : ∀ {done : List InnerNode} {node : InnerNode} {p : CachePool}
      {s s' : σ} {got bs : List UInt8} (fuel : Nat),
      Round next size done node p s got bs s' →
      storable next (fuel + 1) (size - got.length)
          (cacheSize - node.wOffset).toNat p.mallocs s
        = if bs.length = size - got.length ∨ bs.length < askSize size got node
          then bs.length
          else match nodeMallocs p.mallocs with
            | none => bs.length
            | some mallocs => bs.length
                + storable next fuel (size - got.length - bs.length) 512 mallocs s' := by
    intro done node p s s' got bs fuel hr
    have hlt := hr.lt
    have hread := hr.read
    simp only [askSize] at hread ⊢
    rw [storable, if_neg (by omega), hread]
    rfl
  have hlast : ∀ {node : InnerNode} {got bs : List UInt8}, got.length < size →
      ((bs.length = size - got.length ∨ bs.length < askSize size got node)
        ↔ LastRound size node got bs) := by
    intro node got bs hlt
    rw [LastRound, List.length_append]
    omega
  induction h with
  | nothing _ hsize =>
      intro fuel hfuel
      obtain ⟨fuel, rfl⟩ := Nat.exists_eq_succ_of_ne_zero (n := fuel) (by
        rw [List.length_nil] at hfuel
        omega)
      rw [storable, if_pos (by omega)]
      rfl
  | @failed _ node _ s got s' _ hlt hread =>
      intro fuel hfuel
      obtain ⟨fuel, rfl⟩ := Nat.exists_eq_succ_of_ne_zero (n := fuel) (by omega)
      simp only [askSize] at hread
      rw [storable, if_neg (by omega), hread]
      rfl
  | last hr hend =>
      intro fuel hfuel
      have hlt := hr.lt
      obtain ⟨fuel, rfl⟩ := Nat.exists_eq_succ_of_ne_zero (n := fuel) (by omega)
      rw [hround fuel hr, if_pos ((hlast hlt).mpr hend)]
      exact List.length_append
  | @noNode _ _ p _ _ _ _ _ hr hend hnew =>
      intro fuel hfuel
      have hlt := hr.lt
      obtain ⟨fuel, rfl⟩ := Nat.exists_eq_succ_of_ne_zero (n := fuel) (by omega)
      have hms : nodeMallocs p.mallocs = none := by
        rcases newInnerNode_cases hr.moves.1.pool hnew with ⟨-, h, -⟩ | ⟨_, h, -⟩
        · exact h
        · cases h
      rw [hround fuel hr, if_neg (fun h => hend ((hlast hlt).mp h)), hms]
      exact List.length_append
  | @more _ _ p _ got bs _ node' p' _ hr hend hnew _ ih =>
      intro fuel hfuel
      have hlt := hr.lt
      obtain ⟨fuel, rfl⟩ := Nat.exists_eq_succ_of_ne_zero (n := fuel) (by omega)
      have hms : nodeMallocs p.mallocs = some p'.mallocs := by
        rcases newInnerNode_cases hr.moves.1.pool hnew with ⟨h, -⟩ | ⟨_, -, h, -⟩
        · cases h
        · exact h
      have hw := ((newInnerNode_spec hr.moves.1.pool hnew).2.2.1 node' rfl).wOffset
      have hgrow := (hr.newNode hend hnew).2.2.2
      have hlen : (got ++ bs).length = got.length + bs.length :=
        List.length_append
      rw [hround fuel hr, if_neg (fun h => hend ((hlast hlt).mp h)), hms,
        ih fuel (by omega), hlen, hw, ← Nat.sub_sub, Nat.add_assoc]
      rfl

end FillRun

/-! ## Appending: the splice -/

/-- The call starts with a new node: there is none, or the last one is full. -/
def needsNode (b : Buffer) : Bool :=
  match b.getLast? with
  | none => true
  | some last => decide (last.wOffset = cacheSize)

theorem needsNode_of_last {b : Buffer}
    (h : ∀ last ∈ b.getLast?, last.wOffset = cacheSize) : needsNode b = true := by
  rw [needsNode]
  cases hlast : b.getLast? with
  | none => rfl
  | some last => exact decide_eq_true (h last hlast)

/-- The bytes an append to the buffer can store. -/
def bytesStored {σ : Type} (next : Nat → σ → Option (List UInt8) × σ)
    (size : Nat) (b : Buffer) (mallocs : List Bool) (s : σ) : Nat :=
  if needsNode b then
    match nodeMallocs mallocs with
    | none => 0
    | some mallocs => storable next (size + 1) size 512 mallocs s
  else
    storable next (size + 1) size
      (512 - (b.getLast?.map fun last => last.wOffset).getD 0).toNat mallocs s

/-- **WHEN THE NEW NODES ARE SPLICED**: a call that starts with a new node stores
    a byte, and the number of bytes is positive as an `int`, unless it is zero. -/
structure Spliced {σ : Type} (next : Nat → σ → Option (List UInt8) × σ)
    (size : Nat) (b : Buffer) (mallocs : List Bool) (s : σ) : Prop where
  first : needsNode b = true → nodeMallocs mallocs ≠ none →
    0 < bytesStored next size b mallocs s
  fits : bytesStored next size b mallocs s = 0
    ∨ 0 < cInt (bytesStored next size b mallocs s)

/-- A call after which the caches are all accounted for. -/
structure Accounted (p p' : CachePool) (b b' : Buffer) : Prop where
  moves : Moves p p' b b'
  noneLost : NoneLost p p' b b'

/-- A call after which a cache it was handed out hangs on no node. -/
def Loses (p p' : CachePool) (b' : Buffer) : Prop :=
  ∃ a, Held p' a ∧ ¬ Held p a ∧ a ∉ owned b'

section Splice

variable {σ : Type} {next : Nat → σ → Option (List UInt8) × σ} {size : Nat}
  {p p₁ : CachePool} {b chain : Buffer} {out : FillOut σ} {w : Nat}

/-- What the splice does with the nodes `tmp` the call added behind `b'`. -/
theorem finishFill_account {b' tmp : Buffer} (hf : out.failed = false)
    (hm : Moves p out.pool b out.nodes) (hl : NoneLost p out.pool b out.nodes)
    (hnodes : out.nodes = b' ++ tmp) (hlen : b'.length = b.length)
    (howned : owned b' = owned b) :
    (tmp = [] ∨ 0 < out.ret →
      Accounted p (finishFill b w out).pool b (finishFill b w out).buffer)
    ∧ (¬ (tmp = [] ∨ 0 < out.ret) →
      Loses p (finishFill b w out).pool (finishFill b w out).buffer) := by
  have htake : out.nodes.take b.length = b' := by
    rw [hnodes, ← hlen, List.take_left]
  have hdrop : out.nodes.drop b.length = tmp := by
    rw [hnodes, ← hlen, List.drop_left]
  rw [finishFill]
  simp only [hf, Bool.false_eq_true, if_false, htake, hdrop]
  constructor
  · intro hcond
    by_cases hpos : out.ret > 0 ∧ tmp ≠ []
    · rw [if_pos hpos]
      exact ⟨hnodes ▸ hm, hnodes ▸ hl⟩
    · rw [if_neg hpos]
      have htmp : tmp = [] := by
        rcases hcond with h1 | h2
        · exact h1
        · by_contra hne
          exact hpos ⟨h2, hne⟩
      rw [htmp, List.append_nil] at hnodes
      exact ⟨hnodes ▸ hm, hnodes ▸ hl⟩
  · intro hcond
    obtain ⟨htmp, hret⟩ := not_or.mp hcond
    rw [if_neg (fun h => hret h.1)]
    -- the first of the nodes that stay in `tmp_list`
    obtain ⟨node, rest, rfl⟩ := List.exists_cons_of_ne_nil htmp
    have hmem : node.cache ∈ owned out.nodes := by
      rw [hnodes]
      exact mem_owned (List.mem_append_right _ (List.mem_cons_self ..))
    have hnd := hm.inv.nodup
    rw [hnodes, owned_append] at hnd
    have hnot : node.cache ∉ owned b' := fun hin =>
      (List.nodup_append.mp hnd).2.2 _ hin _
        (mem_owned (List.mem_cons_self ..)) rfl
    refine ⟨node.cache, hm.inv.heldOwned hmem, ?_, hnot⟩
    exact (hm.fresh _ hmem).resolve_left (howned ▸ hnot)

end Splice

/-- What the loop returns is the number of bytes as an `int`. -/
theorem ret_of_run {σ : Type} {next : Nat → σ → Option (List UInt8) × σ}
    {size n : Nat} {done : List InnerNode} {node : InnerNode} {p : CachePool}
    {s : σ} {out : FillOut σ} (h : FillRun next size done node p s [] out)
    (hf : out.failed = false)
    (hn : n = storable next (size + 1) size (cacheSize - node.wOffset).toNat
      p.mallocs s) : out.got.length = n ∧ out.ret = cInt n := by
  have hcount := fillRun_storable h (size + 1) (Nat.lt_succ_self size)
  rw [List.length_nil, Nat.zero_add, Nat.sub_zero, ← hn] at hcount
  exact ⟨hcount, by rw [(h.stores (Nat.zero_le _)).ret hf, hcount]⟩

section Append

variable {σ : Type} {next : Nat → σ → Option (List UInt8) × σ} {size : Nat}
  {p : CachePool} {b : Buffer} {s : σ} {ok : σ → Prop}

/-- What an append should do with the caches, exactly when it does. -/
def AccountedIff (p : CachePool) (b : Buffer) (cond : Prop) (r : IoResult σ) :
    Prop :=
  (cond → Accounted p r.pool b r.buffer) ∧ (¬ cond → Loses p r.pool r.buffer)

/-- The start with a new node: it is spliced when the call returns a positive
    `int`. -/
theorem fillNewNode_account (hnext : Bounded next) (hok : NeverFails next ok)
    (hs : ok s) (hp : PoolInv p) (hb : BufferInv p b)
    (hneeds : needsNode b = true) (hfull : ∀ n ∈ b, n.wOffset = cacheSize) :
    AccountedIff p b (Spliced next size b p.mallocs s)
      (fillNewNode next size p b s) := by
  rw [fillNewNode]
  cases hnew : newInnerNode p with
  | mk o p' =>
      obtain ⟨hp', hk', hsome, -⟩ := newInnerNode_spec hp hnew
      rcases newInnerNode_cases hp hnew with ⟨rfl, hms, halloc⟩
        | ⟨node, rfl, hms, hheld⟩
      · have hn : bytesStored next size b p.mallocs s = 0 := by
          rw [bytesStored, if_pos hneeds, hms]
        refine ⟨fun _ => ⟨⟨hp', (hb.keeps hk' (fun _ _ h => by cases h)).1,
          hk'.mono (fun _ h => by cases h), fun _ h => Or.inl h⟩, ?_⟩,
          fun hnot => absurd ⟨fun _ h => absurd hms h, Or.inl hn⟩ hnot⟩
        intro a ha
        exact NoneLost.refl p b a ((halloc.held_iff a).mp ha)
      · have hnn := hsome node rfl
        obtain ⟨hstart, -⟩ := moves_newNode hb hfull hnn
        have hlost : NoneLost p p' b (b ++ [node]) := by
          intro a ha
          rw [owned_append]
          rcases (hheld a).mp ha with rfl | hbefore
          · exact Or.inl (List.mem_append_right _ (List.mem_singleton.mpr rfl))
          · exact (NoneLost.refl p b a hbefore).imp_left (List.mem_append_left _)
        have hn : bytesStored next size b p.mallocs s
            = storable next (size + 1) size (cacheSize - node.wOffset).toNat
              p'.mallocs s := by
          rw [bytesStored, if_pos hneeds, hms, hnn.wOffset]
          rfl
        have hrun := fillLoop_run hnext (size + 1) b node p' s []
          ⟨hstart.pool, hstart.inv, by rw [hnn.wOffset]; decide⟩
          (Nat.zero_le size) (Or.inr rfl) (Nat.lt_succ_self size)
        have hf := fillLoop_not_failed hok size (size + 1) b node p' s [] hs
        obtain ⟨-, w, extra, -, hnodes⟩ := fillLoop_nodes next size (size + 1) b
          node p' s []
        dsimp only
        generalize fillLoop next size (size + 1) b node p' s [] = out at *
        obtain ⟨hadd, hlose⟩ := finishFill_account (w := sizeT (-1)) hf
          (hstart.trans (hrun.stores (Nat.zero_le _)).moves)
          (hlost.trans (fillRun_noneLost hrun)) hnodes rfl rfl
        -- there is a node to splice
        have hiff : (({ node with wOffset := w } :: extra : Buffer) = []
            ∨ 0 < out.ret) ↔ Spliced next size b p.mallocs s := by
          rw [(ret_of_run hrun hf hn).2]
          constructor
          · rintro (h1 | h2)
            · cases h1
            · refine ⟨fun _ _ => Nat.pos_of_ne_zero fun h0 => ?_, Or.inr h2⟩
              rw [h0, cInt_natCast (by decide)] at h2
              exact absurd h2 (Int.lt_irrefl 0)
          · intro h
            have hpos := h.first hneeds (by rw [hms]; exact Option.some_ne_none _)
            exact Or.inr (h.fits.resolve_left (Nat.ne_of_gt hpos))
        exact ⟨fun h => hadd (hiff.mpr h), fun h => hlose fun h' => h (hiff.mp h')⟩

/-- The start in the last node: only nodes behind it have to be spliced, and then
    there are bytes. -/
theorem fillLast_account {front : Buffer} {last : InnerNode} {w₀ : Nat}
    (hnext : Bounded next) (hok : NeverFails next ok) (hs : ok s)
    (hp : PoolInv p) (hb : BufferInv p (front ++ [last]))
    (hlt : last.wOffset < cacheSize) :
    AccountedIff p (front ++ [last])
      (Spliced next size (front ++ [last]) p.mallocs s)
      (finishFill (front ++ [last]) w₀
        (fillLoop next size (size + 1) front last p s [])) := by
  have hlast : (front ++ [last]).getLast? = some last := List.getLast?_concat
  have hneeds : needsNode (front ++ [last]) = false := by
    rw [needsNode, hlast]
    exact decide_eq_false (by omega)
  have hn : bytesStored next size (front ++ [last]) p.mallocs s
      = storable next (size + 1) size (cacheSize - last.wOffset).toNat
        p.mallocs s := by
    rw [bytesStored, hneeds, if_neg Bool.false_ne_true, hlast]
    rfl
  have hrun := fillLoop_run hnext (size + 1) front last p s [] ⟨hp, hb, hlt⟩
    (Nat.zero_le size) (Or.inr rfl) (Nat.lt_succ_self size)
  have hf := fillLoop_not_failed hok size (size + 1) front last p s [] hs
  obtain ⟨-, w, extra, -, hnodes⟩ := fillLoop_nodes next size (size + 1) front
    last p s []
  rw [← List.singleton_append, ← List.append_assoc] at hnodes
  generalize fillLoop next size (size + 1) front last p s [] = out at *
  have hfill := hrun.stores (Nat.zero_le _)
  have hlen : (front ++ [{ last with wOffset := w }]).length
      = (front ++ [last]).length := by
    rw [List.length_append, List.length_append]
    rfl
  obtain ⟨hadd, hlose⟩ := finishFill_account (w := w₀) hf hfill.moves
    (fillRun_noneLost hrun) hnodes hlen (by
      rw [owned_append, owned_append]
      rfl)
  obtain ⟨hgot, hret⟩ := ret_of_run hrun hf hn
  have hiff : (extra = [] ∨ 0 < out.ret)
      ↔ Spliced next size (front ++ [last]) p.mallocs s := by
    rw [hret]
    constructor
    · rintro (h1 | h2)
      · -- one node: the number is small
        have hmax := fillRun_length hrun
        rw [hnodes, h1, List.append_nil, List.length_append,
          List.length_singleton, List.length_nil] at hmax
        refine ⟨fun h => absurd h (by rw [hneeds]; exact Bool.false_ne_true), ?_⟩
        rw [cInt_natCast (by omega)]
        omega
      · exact ⟨fun h => absurd h (by rw [hneeds]; exact Bool.false_ne_true),
          Or.inr h2⟩
    · intro h
      rcases h.fits with h0 | h1
      · -- nothing stored: no node added
        obtain ⟨more, hgot', -, hsame⟩ := hfill.stored
        rw [h0] at hgot
        have hmore : more = [] := by
          rw [List.nil_append] at hgot'
          rw [← hgot']
          exact List.length_eq_zero_iff.mp hgot
        have hall := congrArg List.length ((hsame hmore).symm.trans hnodes)
        have hmore : (front ++ [{ last with wOffset := w }] ++ extra).length
            = (front ++ [last]).length + extra.length := by
          rw [List.length_append, hlen]
        exact Or.inl (List.length_eq_zero_iff.mp (by omega))
      · exact Or.inr h1
  exact ⟨fun h => hadd (hiff.mpr h), fun h => hlose fun h' => h (hiff.mp h')⟩

/-- **APPENDING AND THE CACHES**: all are accounted for when the new nodes are
    spliced, and else one is lost. -/
theorem fillBuffer_account (size : Nat) (hnext : Bounded next)
    (hok : NeverFails next ok) (hs : ok s) (hp : PoolInv p) (hb : BufferInv p b) :
    AccountedIff p b (Spliced next size b p.mallocs s)
      (fillBuffer next size p b s) := by
  rcases fillBuffer_cases next size p b s with ⟨hlast, heq⟩
    | ⟨front, last, rfl, hw, heq⟩
  · rw [heq]
    exact fillNewNode_account hnext hok hs hp hb (needsNode_of_last hlast)
      (allFull_of_last hb hlast)
  · rw [heq]
    exact fillLast_account hnext hok hs hp hb (lastRoom hb hw).2

end Append

/-! ## Sequences of calls -/

variable {ι : Type} [DecidableEq ι]

/-- The buffers that have been created and not destroyed, over one pool. -/
structure BufferUse (ι : Type) where
  heap : BufferHeap ι
  live : ι → Bool

/-- A call of the module: those on a buffer, and its two ends. -/
inductive BufferEvent (ι : Type) where
  | createNewBuffer (i : ι)
  | call (i : ι) (c : BufferCall)
  | destroyBuffer (i : ι)

/-- `create_new_buffer`: an empty list, when the block can be allocated. -/
def createNewBuffer (u : BufferUse ι) (i : ι) : BufferUse ι :=
  match malloc u.heap.pool with
  | (false, p) => ⟨u.heap.put i p [], u.live⟩
  | (true, p) => ⟨u.heap.put i p [], Function.update u.live i true⟩

/-- The calls on a buffer happen between its creation and its destruction. -/
def bufferStep (u : BufferUse ι) : BufferEvent ι → Option (BufferUse ι)
  | .createNewBuffer i => if u.live i then none else some (createNewBuffer u i)
  | .call i c =>
      if u.live i then some ⟨(callBuffer u.heap i c).heap, u.live⟩ else none
  | .destroyBuffer i =>
      if u.live i then
        some ⟨u.heap.put i (destroyBuffer u.heap.pool (u.heap.buf i)) [],
          Function.update u.live i false⟩
      else none

/-- Sequences of calls start without buffers, over a pool of which nothing is
    handed out. -/
def bufferSystem (ι : Type) [DecidableEq ι] :
    System (BufferUse ι) (BufferEvent ι) where
  start := fun u => PoolInv u.heap.pool ∧ (∀ a, ¬ Held u.heap.pool a)
    ∧ ∀ i, u.live i = false ∧ u.heap.buf i = []
  step := bufferStep

/-- The system calls report no error, and the sizes are `size_t`s. -/
def BufferEvent.Ok : BufferEvent ι → Prop
  | .call _ c => c.Ok
  | _ => True

/-- **NO LEAK**: the caches handed out are those on the nodes of the live
    buffers, each on one node. -/
structure NoLeak (u : BufferUse ι) : Prop where
  exact : ∀ a, Held u.heap.pool a
    ↔ ∃ i, u.live i = true ∧ a ∈ owned (u.heap.buf i)
  once : ∀ i, u.live i = true → (owned (u.heap.buf i)).Nodup
  apart : ∀ i j, u.live i = true → u.live j = true → i ≠ j →
    ∀ a ∈ owned (u.heap.buf i), a ∉ owned (u.heap.buf j)

/-- The condition of `Spliced` at an appending call on a live buffer. -/
def SplicesNodes (u : BufferUse ι) : BufferEvent ι → Prop
  | .call i (.writeIntoBuffer src) => u.live i = true →
      Spliced srcCopy src.length (u.heap.buf i) u.heap.pool.mallocs src
  | .call i (.readIntoBuffer size reads) => u.live i = true →
      Spliced fdRead size (u.heap.buf i) u.heap.pool.mallocs reads
  | _ => True

/-- The invariant of sequences without a leak. -/
structure UseInv (u : BufferUse ι) : Prop where
  heap : HeapInv u.heap
  dead : ∀ i, u.live i = false → u.heap.buf i = []
  held : ∀ a, Held u.heap.pool a → ∃ i, a ∈ owned (u.heap.buf i)

theorem useInv_start {u : BufferUse ι} (h : (bufferSystem ι).start u) :
    UseInv u where
  heap := heapInv_start ⟨h.1, fun i => (h.2.2 i).2⟩
  dead := fun i _ => (h.2.2 i).2
  held := fun a ha => absurd ha (h.2.1 a)

omit [DecidableEq ι] in
theorem UseInv.noLeak {u : BufferUse ι} (h : UseInv u) : NoLeak u where
  exact := by
    intro a
    constructor
    · intro ha
      obtain ⟨i, hi⟩ := h.held a ha
      refine ⟨i, ?_, hi⟩
      cases hlive : u.live i with
      | true => rfl
      | false =>
          rw [h.dead i hlive] at hi
          cases hi
    · rintro ⟨i, -, hi⟩
      exact (h.heap.inv i).heldOwned hi
  once := fun i _ => (h.heap.inv i).nodup
  apart := fun i j _ _ hij => h.heap.apart i j hij

/-- **A CALL THAT ACCOUNTS FOR ITS CACHES** keeps the invariant. -/
theorem UseInv.put {u : BufferUse ι} {i : ι} {p : CachePool} {b : Buffer}
    {live : ι → Bool} (h : UseInv u) (ha : Accounted u.heap.pool p (u.heap.buf i) b)
    (hlive : ∀ j, j ≠ i → live j = u.live j) (hdead : live i = false → b = []) :
    UseInv ⟨u.heap.put i p b, live⟩ where
  heap := (h.heap.put ha.moves).1
  dead := by
    intro j hj
    show Function.update u.heap.buf i b j = []
    by_cases hji : j = i
    · rw [hji, Function.update_self]
      exact hdead (hji ▸ hj)
    · rw [Function.update_of_ne hji]
      exact h.dead j (hlive j hji ▸ hj)
  held := by
    intro a hheld
    rcases ha.noneLost a hheld with hin | ⟨hbefore, hout⟩
    · exact ⟨i, by rw [buf_put]; exact hin⟩
    · obtain ⟨j, hj⟩ := h.held a hbefore
      have hji : j ≠ i := fun e => hout (e ▸ hj)
      refine ⟨j, ?_⟩
      show a ∈ owned (Function.update u.heap.buf i b j)
      rw [Function.update_of_ne hji]
      exact hj

/-- A call that loses a cache leaks it. -/
theorem not_noLeak_of_loses {u : BufferUse ι} {i : ι} {p : CachePool}
    {b : Buffer} {live : ι → Bool} (h : UseInv u)
    (hl : Loses u.heap.pool p b) : ¬ NoLeak ⟨u.heap.put i p b, live⟩ := by
  obtain ⟨a, hheld, hfresh, hout⟩ := hl
  intro hno
  obtain ⟨j, -, hj⟩ := (hno.exact a).mp hheld
  have hj' : a ∈ owned (Function.update u.heap.buf i b j) := hj
  by_cases hji : j = i
  · rw [hji, Function.update_self] at hj'
    exact hout hj'
  · rw [Function.update_of_ne hji] at hj'
    exact hfresh ((h.heap.inv j).heldOwned hj')

/-- Emptying an empty list. -/
theorem accounted_malloc {p p' : CachePool} (hp : PoolInv p)
    (h : Allocated p p') : Accounted p p' [] [] where
  moves := ⟨h.inv hp, bufferInv_nil p', h.keeps _, fun _ ha => Or.inl ha⟩
  noneLost := fun a ha => Or.inr ⟨(h.held_iff a).mp ha, List.not_mem_nil⟩

/-- What a call on a live buffer does with the caches. -/
theorem callBuffer_account {u : BufferUse ι} {i : ι} {c : BufferCall}
    (h : UseInv u) (hok : c.Ok) (hlive : u.live i = true) :
    (SplicesNodes u (.call i c) →
      UseInv ⟨(callBuffer u.heap i c).heap, u.live⟩)
    ∧ (¬ SplicesNodes u (.call i c) →
      ¬ NoLeak ⟨(callBuffer u.heap i c).heap, u.live⟩) := by
  have hdead : ∀ {b : Buffer}, u.live i = false → b = [] := fun h' => by
    rw [hlive] at h'
    cases h'
  have hp := h.heap.pool
  have hb := h.heap.inv i
  cases c with
  | writeIntoBuffer src =>
      obtain ⟨hadd, hlose⟩ := fillBuffer_account src.length bounded_srcCopy
        neverFails_srcCopy (s := src) trivial hp hb
      exact ⟨fun hc => h.put (hadd (hc hlive)) (fun _ _ => rfl) hdead,
        fun hc => not_noLeak_of_loses h (hlose fun hs => hc fun _ => hs)⟩
  | readIntoBuffer size reads =>
      obtain ⟨hadd, hlose⟩ := fillBuffer_account size bounded_fdRead
        neverFails_fdRead hok hp hb
      exact ⟨fun hc => h.put (hadd (hc hlive)) (fun _ _ => rfl) hdead,
        fun hc => not_noLeak_of_loses h (hlose fun hs => hc fun _ => hs)⟩
  | readFromBuffer size =>
      refine ⟨fun _ => h.put ⟨moves_readFromBuffer hp hb hok, ?_⟩
        (fun _ _ => rfl) hdead, fun hc => absurd trivial hc⟩
      exact noneLost_readFromLoop _ _ _ _ _ _ (attached_of_inv hp hb)
  | writeFromBuffer size writes =>
      refine ⟨fun _ => h.put ⟨(writeFromBuffer_spec hp hb hok.1 hok.2).moves, ?_⟩
        (fun _ _ => rfl) hdead, fun hc => absurd trivial hc⟩
      exact noneLost_writeFromLoop _ _ _ _ _ _ _ _ (attached_of_inv hp hb)

/-- The step lemma: the invariant is kept where the new nodes are spliced, and
    elsewhere there is a leak. -/
theorem bufferStep_account {u u' : BufferUse ι} {e : BufferEvent ι}
    (h : UseInv u) (hok : e.Ok) (hstep : (bufferSystem ι).step u e = some u') :
    (SplicesNodes u e → UseInv u') ∧ (¬ SplicesNodes u e → ¬ NoLeak u') := by
  cases e with
  | createNewBuffer i =>
      obtain ⟨hlive, hstep'⟩ := Option.ite_none_left_eq_some.mp hstep
      obtain rfl := Option.some.inj hstep'
      refine ⟨fun _ => ?_, fun hc => absurd trivial hc⟩
      have hnil := h.dead i (Bool.eq_false_iff.mpr hlive)
      have hacc := accounted_malloc h.heap.pool (allocated_malloc u.heap.pool)
      rw [← hnil] at hacc
      rw [createNewBuffer]
      cases hm : malloc u.heap.pool with
      | mk okay p =>
          rw [hm, hnil] at hacc
          cases okay with
          | false => exact h.put (by rw [hnil]; exact hacc) (fun _ _ => rfl) fun _ => rfl
          | true =>
              exact h.put (by rw [hnil]; exact hacc)
                (fun _ hj => Function.update_of_ne hj ..) fun _ => rfl
  | call i c =>
      obtain ⟨hlive, hstep'⟩ := Option.ite_none_right_eq_some.mp hstep
      obtain rfl := Option.some.inj hstep'
      exact callBuffer_account h hok hlive
  | destroyBuffer i =>
      obtain ⟨-, hstep'⟩ := Option.ite_none_right_eq_some.mp hstep
      obtain rfl := Option.some.inj hstep'
      have hb := h.heap.inv i
      exact ⟨fun _ => h.put ⟨moves_destroyBuffer h.heap.pool hb,
        noneLost_destroyBuffer h.heap.pool hb⟩
        (fun _ hj => Function.update_of_ne hj ..) fun _ => rfl,
        fun hc => absurd trivial hc⟩

/-! ## Leaks, exactly -/

/-- **LEAKS, EXACTLY**: over every sequence of calls, whatever their sizes, counts
    and failing allocations, no cache leaks if and only if the new nodes of every
    appending call are spliced. -/
theorem no_leak_iff {u : BufferUse ι} (hs : (bufferSystem ι).start u)
    {es : List (BufferEvent ι)} (hok : ∀ e ∈ es, e.Ok) :
    Along (bufferSystem ι)
        (fun u e => ∀ u', (bufferSystem ι).step u e = some u' → NoLeak u') u es
      ↔ Along (bufferSystem ι) SplicesNodes u es := by
  refine along_iff (I := UseInv) (K := fun _ e => e.Ok) (bufferSystem ι)
    (fun u e u' h hk hc hstep => (bufferStep_account h hk hstep).1 hc) ?_ es u
    (useInv_start hs) (along_of_mem (bufferSystem ι) es u hok)
  intro u e h hk
  cases hstep : (bufferSystem ι).step u e with
  | some u' =>
      obtain ⟨hkeep, hleak⟩ := bufferStep_account h hk hstep
      constructor
      · intro hno
        by_contra hc
        exact hleak hc (hno u' rfl)
      · intro hc u'' h''
        exact Option.some.inj h'' ▸ (hkeep hc).noLeak
  | none =>
      -- a call that cannot happen
      refine ⟨fun _ => ?_, fun _ _ h'' => by cases h''⟩
      cases e with
      | createNewBuffer i => exact trivial
      | destroyBuffer i => exact trivial
      | call i c =>
          have hdead : ¬ u.live i = true := by
            intro hl
            have hstep' : (if u.live i = true then some _ else none) = none := hstep
            rw [if_pos hl] at hstep'
            cases hstep'
          cases c with
          | writeIntoBuffer src => exact fun hl => absurd hl hdead
          | readIntoBuffer size reads => exact fun hl => absurd hl hdead
          | readFromBuffer size => exact trivial
          | writeFromBuffer size writes => exact trivial

instance {σ : Type} (next : Nat → σ → Option (List UInt8) × σ) (size : Nat)
    (b : Buffer) (mallocs : List Bool) (s : σ) :
    Decidable (Spliced next size b mallocs s) :=
  decidable_of_iff ((needsNode b = true → nodeMallocs mallocs ≠ none →
      0 < bytesStored next size b mallocs s)
    ∧ (bytesStored next size b mallocs s = 0
      ∨ 0 < cInt (bytesStored next size b mallocs s)))
    ⟨fun h => ⟨h.1, h.2⟩, fun h => ⟨h.first, h.fits⟩⟩

instance (u : BufferUse ι) : ∀ e, Decidable (SplicesNodes u e)
  | .call _ (.writeIntoBuffer _) => inferInstanceAs (Decidable (_ → _))
  | .call _ (.readIntoBuffer _ _) => inferInstanceAs (Decidable (_ → _))
  | .call _ (.readFromBuffer _) => isTrue trivial
  | .call _ (.writeFromBuffer _ _) => isTrue trivial
  | .createNewBuffer _ => isTrue trivial
  | .destroyBuffer _ => isTrue trivial

/-- No buffer, over the untouched pool. -/
def noBuffers : BufferUse Unit :=
  ⟨⟨emptyPool (fun _ => ⟨0, 0, []⟩) (fun _ => 0) [], fun _ => []⟩, fun _ => false⟩

theorem noBuffers_start : (bufferSystem Unit).start noBuffers :=
  ⟨poolInv_empty _ _ _, fun _ h => absurd h.1 (Nat.not_lt_zero _),
    fun _ => ⟨rfl, rfl⟩⟩

/-- A buffer is created, filled over two nodes, emptied and destroyed. -/
def filledAndDestroyed : List (BufferEvent Unit) :=
  [.createNewBuffer (), .call () (.writeIntoBuffer (List.replicate 600 97)),
    .call () (.readFromBuffer 0), .call () (.writeFromBuffer 550 [.count 7]),
    .call () (.readFromBuffer 100), .destroyBuffer ()]

theorem no_leak_filledAndDestroyed : Along (bufferSystem Unit)
    (fun u e => ∀ u', (bufferSystem Unit).step u e = some u' → NoLeak u')
    noBuffers filledAndDestroyed := by
  refine (no_leak_iff noBuffers_start ?_).mpr
    (along_of_checkRun (bufferSystem Unit) (by decide +kernel))
  intro e he
  simp only [filledAndDestroyed, List.mem_cons, List.not_mem_nil, or_false] at he
  rcases he with rfl | rfl | rfl | rfl | rfl | rfl
  · exact trivial
  · exact trivial
  · show 0 < 2 ^ 64
    decide
  · show 550 < 2 ^ 64 ∧ WritesOk [.count 7]
    decide
  · show 100 < 2 ^ 64
    decide
  · exact trivial

/-- The peer of an empty buffer closes: the node for the bytes that do not come
    is lost with its cache. -/
theorem leak_at_endOfFile : (bufferSystem Unit).start noBuffers
    ∧ (∀ e ∈ ([.createNewBuffer (), .call () (.readIntoBuffer 1016 [])]
        : List (BufferEvent Unit)), e.Ok)
    ∧ ¬ Along (bufferSystem Unit)
      (fun u e => ∀ u', (bufferSystem Unit).step u e = some u' → NoLeak u')
      noBuffers [.createNewBuffer (), .call () (.readIntoBuffer 1016 [])] := by
  refine ⟨noBuffers_start, ?_, ?_⟩
  · intro e he
    simp only [List.mem_cons, List.not_mem_nil, or_false] at he
    rcases he with rfl | rfl
    · exact trivial
    · exact fun _ h => absurd h List.not_mem_nil
  · rintro ⟨-, h⟩
    have hno := (h _ rfl).1 _ rfl
    obtain ⟨i, -, hi⟩ := (hno.exact 0).mp ⟨by decide +kernel, by decide +kernel⟩
    have hnil : owned ((callBuffer (createNewBuffer noBuffers ()).heap ()
        (.readIntoBuffer 1016 [])).heap.buf ()) = [] := by
      decide +kernel
    rw [hnil] at hi
    cases hi

end IMBufferLeaks

import IMServer.BufferInvariant

/-! # Appending to a buffer — `read_into_buffer` and `write_into_buffer`

    The loop does two things to the nodes: it fills the last one (`moves_fill`)
    and, when that is full, adds an empty one behind it (`moves_newNode`).  Both
    keep the invariant and the first extends the content by the bytes stored, so
    `fillLoop_spec` follows by induction on the rounds, and the two functions
    append exactly what their source delivered, under any pattern of allocation
    failures. -/

namespace IMBufferAppend

open IMBytes IMCString IMMachineInt IMCachePool IMBuffer IMBufferInvariant

/-- A call on a buffer: the caches it does not own are left alone, and those it
    owns afterwards it owned before or nobody held. -/
structure Moves (p p' : CachePool) (b b' : Buffer) : Prop where
  pool : PoolInv p'
  inv : BufferInv p' b'
  keeps : Keeps p p' (owned b)
  fresh : ∀ a ∈ owned b', a ∈ owned b ∨ ¬ Held p a

theorem Moves.refl {p : CachePool} {b : Buffer} (hp : PoolInv p)
    (hb : BufferInv p b) : Moves p p b b where
  pool := hp
  inv := hb
  keeps := Keeps.refl p _
  fresh := fun _ h => Or.inl h

theorem Moves.trans {p p₁ p₂ : CachePool} {b b₁ b₂ : Buffer}
    (h : Moves p p₁ b b₁) (h' : Moves p₁ p₂ b₁ b₂) : Moves p p₂ b b₂ where
  pool := h'.pool
  inv := h'.inv
  keeps := h.keeps.trans h'.keeps h.fresh
  fresh := by
    intro a ha
    rcases h'.fresh a ha with h1 | h2
    · exact h.fresh a h1
    · by_cases hb : a ∈ owned b
      · exact Or.inl hb
      · exact Or.inr (fun hh => h2 (h.keeps.held a hh hb))

/-- A buffer that is given up with its caches still handed out. -/
theorem moves_forget {p : CachePool} (hp : PoolInv p) (b : Buffer) :
    Moves p p b [] where
  pool := hp
  inv := bufferInv_nil p
  keeps := Keeps.refl p _
  fresh := fun _ h => by cases h

/-! ## A new node -/

/-- An allocated node is empty, its cache was held by nobody. -/
structure NewNode (p p' : CachePool) (node : InnerNode) : Prop where
  pool : PoolInv p'
  keeps : Keeps p p' []
  wOffset : node.wOffset = 0
  rOffset : node.rOffset = 0
  fresh : ¬ Held p node.cache
  held : Held p' node.cache
  room : cacheSize.toNat ≤ (p'.mem node.cache).buff.length

theorem newInnerNode_spec {p p' : CachePool} {o : Option InnerNode}
    (hp : PoolInv p) (h : newInnerNode p = (o, p')) :
    PoolInv p' ∧ Keeps p p' []
      ∧ (∀ node, o = some node → NewNode p p' node)
      ∧ (NoFail p → ∃ node, o = some node) := by
  rw [newInnerNode] at h
  have hp1 := (allocated_malloc p).inv hp
  have hk1 := (allocated_malloc p).keeps []
  cases hm1 : malloc p with
  | mk ok1 p1 =>
      rw [hm1] at h hp1 hk1
      cases ok1 with
      | false =>
          obtain ⟨rfl, rfl⟩ := Prod.mk.inj h
          refine ⟨hp1, hk1, (fun _ h => by cases h), fun hnf => ?_⟩
          have := hnf.malloc
          rw [hm1] at this
          cases this
      | true =>
          simp only at h
          have hp2 := (allocated_malloc p1).inv hp1
          have hk2 := hk1.trans ((allocated_malloc p1).keeps [])
            (fun _ h => by cases h)
          cases hm2 : malloc p1 with
          | mk ok2 p2 =>
              rw [hm2] at h hp2 hk2
              cases ok2 with
              | false =>
                  obtain ⟨rfl, rfl⟩ := Prod.mk.inj h
                  refine ⟨hp2, hk2, (fun _ h => by cases h), fun hnf => ?_⟩
                  have := (hnf.keeps hk1).malloc
                  rw [hm2] at this
                  cases this
              | true =>
                  simp only at h
                  -- the class of 512 bytes is in the table
                  obtain ⟨a, p3, hget⟩ := getNewCache_isSome hp2
                    (mem_classSizes cacheSize (by decide))
                    (Int.le_refl cacheSize)
                  rw [hget] at h
                  obtain ⟨rfl, rfl⟩ := Prod.mk.inj h
                  have hout := getNewCache_spec hp2 hget
                  have hk3 := hk2.trans (hout.keeps hp2) (fun _ h => by cases h)
                  refine ⟨hout.inv, hk3, ?_, fun _ => ⟨_, rfl⟩⟩
                  intro node hnode
                  obtain rfl := Option.some.inj hnode
                  exact {
                    pool := hout.inv
                    keeps := hk3
                    wOffset := rfl
                    rOffset := rfl
                    fresh := fun hh =>
                      hout.not_held (hk2.held a hh (List.not_mem_nil))
                    held := hout.held hp2
                    room := hout.length }

/-- **ADDING A NODE** behind nodes that are all full. -/
theorem moves_newNode {p p' : CachePool} {b : Buffer} {node : InnerNode}
    (hb : BufferInv p b) (hfull : ∀ n ∈ b, n.wOffset = cacheSize)
    (hn : NewNode p p' node) :
    Moves p p' b (b ++ [node]) ∧ content p' (b ++ [node]) = content p b := by
  obtain ⟨hb', hcont⟩ := hb.keeps hn.keeps (fun _ _ h => by cases h)
  have hnew : node.cache ∉ owned b := fun h => hn.fresh (hb.heldOwned h)
  have hempty : nodeBytes p' node = [] :=
    nodeBytes_empty (by rw [nodeSize, hn.wOffset, hn.rOffset]; rfl)
  refine ⟨⟨hn.pool, ?_, hn.keeps.mono (fun _ h => by cases h), ?_⟩, ?_⟩
  · refine ⟨?_, ?_, ?_, ?_, ?_⟩
    · intro n hmem
      rcases List.mem_append.mp hmem with h1 | h2
      · exact hb'.held n h1
      · rw [List.mem_singleton.mp h2]
        exact hn.held
    · rw [owned_append]
      exact List.nodup_append.mpr ⟨hb.nodup, List.nodup_singleton _, by
        intro a ha c hc
        rw [List.mem_singleton.mp hc]
        rintro rfl
        exact hnew ha⟩
    · intro n hmem
      rcases List.mem_append.mp hmem with h1 | h2
      · exact hb'.room n h1
      · rw [List.mem_singleton.mp h2]
        exact hn.room
    · intro n hmem
      rcases List.mem_append.mp hmem with h1 | h2
      · exact hb'.offsets n h1
      · rw [List.mem_singleton.mp h2]
        refine ⟨Int.le_of_eq hn.rOffset.symm, ?_, Or.inr ⟨hn.rOffset, hn.wOffset⟩⟩
        rw [hn.wOffset]
        decide
    · intro n hmem
      rw [List.dropLast_concat] at hmem
      exact hfull n hmem
  · intro a ha
    rw [owned_append] at ha
    rcases List.mem_append.mp ha with h1 | h2
    · exact Or.inl h1
    · rw [List.mem_singleton.mp h2]
      exact Or.inr hn.fresh
  · rw [content_append, content_singleton, hempty, List.append_nil, hcont]

/-! ## Filling the last node -/

/-- **STORING BYTES** in the last node, which has room for them. -/
theorem moves_fill {p : CachePool} {done : List InnerNode} {node : InnerNode}
    {bs : List UInt8} (hp : PoolInv p) (hb : BufferInv p (done ++ [node]))
    (hfit : node.wOffset + bs.length ≤ cacheSize) :
    Moves p (writeCache p node.cache node.wOffset.toNat bs) (done ++ [node])
        (done ++ [{ node with wOffset := node.wOffset + bs.length }])
      ∧ content (writeCache p node.cache node.wOffset.toNat bs)
          (done ++ [{ node with wOffset := node.wOffset + bs.length }])
        = content p (done ++ [node]) ++ bs := by
  have hmem : node ∈ done ++ [node] := by simp
  have ho := hb.offsets node hmem
  have hon := ho.nonneg
  have hroom := hb.room node hmem
  have hfit' : node.wOffset.toNat + bs.length
      ≤ (p.mem node.cache).buff.length := by
    simp only [cacheSize] at *
    omega
  have hnd := hb.nodup
  rw [owned_append] at hnd
  have hnotin : ∀ n ∈ done, n.cache ≠ node.cache := by
    intro n hn e
    exact (List.nodup_append.mp hnd).2.2 _ (mem_owned hn) node.cache
      (List.mem_singleton.mpr rfl) e
  have howned : owned (done ++ [{ node with wOffset := node.wOffset + bs.length }])
      = owned (done ++ [node]) := by
    rw [owned_append, owned_append]
    rfl
  have hlen := length_overwrite hfit'
  refine ⟨⟨poolInv_writeCache hp (hb.held node hmem) hfit', ?_, ?_, ?_⟩, ?_⟩
  · refine ⟨?_, ?_, ?_, ?_, ?_⟩
    · intro n hn
      rcases List.mem_append.mp hn with h1 | h2
      · exact hb.held n (List.mem_append.mpr (Or.inl h1))
      · rw [List.mem_singleton.mp h2]
        exact hb.held node hmem
    · rw [howned]
      exact hb.nodup
    · intro n hn
      rcases List.mem_append.mp hn with h1 | h2
      · rw [mem_writeCache_of_ne p (hnotin n h1)]
        exact hb.room n (List.mem_append.mpr (Or.inl h1))
      · rw [List.mem_singleton.mp h2]
        show _ ≤ ((writeCache p node.cache _ bs).mem node.cache).buff.length
        rw [buff_writeCache, hlen]
        exact hroom
    · intro n hn
      rcases List.mem_append.mp hn with h1 | h2
      · exact hb.offsets n (List.mem_append.mpr (Or.inl h1))
      · rw [List.mem_singleton.mp h2]
        obtain ⟨h3, -, h4⟩ := ho
        refine ⟨h3, hfit, ?_⟩
        show node.rOffset < node.wOffset + bs.length
          ∨ (node.rOffset = 0 ∧ node.wOffset + bs.length = 0)
        omega
    · intro n hn
      rw [List.dropLast_concat] at hn
      exact hb.full n (by rw [List.dropLast_concat]; exact hn)
  · refine (keeps_writeCache p node.cache _ bs).mono ?_
    intro a ha
    rw [List.mem_singleton.mp ha]
    exact mem_owned hmem
  · intro a ha
    rw [howned] at ha
    exact Or.inl ha
  · have hdone : content (writeCache p node.cache node.wOffset.toNat bs) done
        = content p done := by
      refine content_congr ?_
      intro a ha
      obtain ⟨n, hn, rfl⟩ := List.mem_map.mp ha
      exact mem_writeCache_of_ne p (hnotin n hn) _ _
    have hsize : (nodeSize { node with wOffset := node.wOffset + bs.length }).toNat
        = node.wOffset.toNat - node.rOffset.toNat + bs.length := by
      simp only [nodeSize]
      omega
    have hold : (nodeSize node).toNat = node.wOffset.toNat - node.rOffset.toNat := by
      simp only [nodeSize]
      omega
    rw [content_append, content_append, content_singleton, content_singleton,
      hdone, List.append_assoc]
    simp only [nodeBytes]
    rw [buff_writeCache, hsize, hold, slice_overwrite_append (by omega)
      (by omega)]

/-! ## The loop -/

variable {σ : Type} {next : Nat → σ → Option (List UInt8) × σ}

/-- A source delivers at most what it is asked for. -/
def Bounded (next : Nat → σ → Option (List UInt8) × σ) : Prop :=
  ∀ n s bs s', next n s = (some bs, s') → bs.length ≤ n

/-- What the loop leaves behind. -/
structure Filled (next : Nat → σ → Option (List UInt8) × σ) (p : CachePool)
    (b : Buffer) (size : Nat) (got : List UInt8) (out : FillOut σ) : Prop where
  moves : Moves p out.pool b out.nodes
  stored : ∃ more, out.got = got ++ more
    ∧ content out.pool out.nodes = content p b ++ more
    ∧ (more = [] → out.nodes = b)
  le : out.got.length ≤ size
  ret : out.failed = false → out.ret = cInt out.got.length
  stop : NoFail p → out.failed = false → out.got.length = size
    ∨ ∃ n s bs, next n s = (some bs, out.src) ∧ bs.length < n

/-- A round asks for what is missing, at most the room of the node. -/
theorem readSize_eq {node : InnerNode} (h0 : 0 ≤ node.wOffset)
    (hw : node.wOffset < cacheSize) (size n : Nat) :
    minSizeT (size - n) (sizeT (cacheSize - node.wOffset))
      = min (size - n) (cacheSize - node.wOffset).toNat := by
  have hroom : sizeT (cacheSize - node.wOffset)
      = (cacheSize - node.wOffset).toNat := by
    simp only [cacheSize] at *
    exact sizeT_of_nonneg (by omega) (by omega)
  rw [hroom, minSizeT]
  split <;> omega

/-- When a round got what it asked for and bytes are missing, all nodes are
    full. -/
theorem full_of_round {p : CachePool} {done : List InnerNode}
    {node : InnerNode} {size n k : Nat} (hb : BufferInv p (done ++ [node]))
    (hw : node.wOffset < cacheSize) (hn : n < size)
    (hk : k ≤ min (size - n) (cacheSize - node.wOffset).toNat)
    (hend : ¬ (n + k = size
      ∨ k < min (size - n) (cacheSize - node.wOffset).toNat)) :
    ∀ m ∈ done ++ [{ node with wOffset := node.wOffset + k }],
      m.wOffset = cacheSize := by
  have ho := (hb.offsets node (by simp)).nonneg
  intro m hm
  rcases List.mem_append.mp hm with h1 | h2
  · exact hb.full m (by rw [List.dropLast_concat]; exact h1)
  · rw [List.mem_singleton.mp h2]
    simp only [cacheSize] at *
    omega

/-- The loop is at `node`, which has room, behind `done`. -/
structure AtNode (p : CachePool) (done : List InnerNode) (node : InnerNode) :
    Prop where
  pool : PoolInv p
  inv : BufferInv p (done ++ [node])
  room : node.wOffset < cacheSize

/-- What a round asks the source for. -/
def askSize (size : Nat) (got : List UInt8) (node : InnerNode) : Nat :=
  min (size - got.length) (cacheSize - node.wOffset).toNat

/-- The node behind the bytes a round stored. -/
def filled (node : InnerNode) (bs : List UInt8) : InnerNode :=
  { node with wOffset := node.wOffset + bs.length }

/-- A round that stores the bytes `bs`. -/
structure Round (next : Nat → σ → Option (List UInt8) × σ) (size : Nat)
    (done : List InnerNode) (node : InnerNode) (p : CachePool) (s : σ)
    (got bs : List UInt8) (s' : σ) : Prop where
  here : AtNode p done node
  lt : got.length < size
  read : next (askSize size got node) s = (some bs, s')
  le : bs.length ≤ askSize size got node

/-- The round ends the loop: it got all that is missing, or less than it asked
    for. -/
def LastRound (size : Nat) (node : InnerNode) (got bs : List UInt8) : Prop :=
  (got ++ bs).length = size ∨ bs.length < askSize size got node

/-- **THE RUNS OF THE LOOP**, one constructor for each way a round ends, with the
    invariant at every round. -/
inductive FillRun (next : Nat → σ → Option (List UInt8) × σ) (size : Nat) :
    List InnerNode → InnerNode → CachePool → σ → List UInt8 → FillOut σ → Prop
  | nothing {done node p s} : AtNode p done node → size = 0 →
      FillRun next size done node p s [] ⟨0, false, done ++ [node], p, s, []⟩
  | failed {done node p s got s'} : AtNode p done node → got.length < size →
      next (askSize size got node) s = (none, s') →
      FillRun next size done node p s got ⟨-1, true, done ++ [node], p, s', got⟩
  | last {done node p s got bs s'} : Round next size done node p s got bs s' →
      LastRound size node got bs →
      FillRun next size done node p s got
        ⟨cInt (got ++ bs).length, false, done ++ [filled node bs],
          writeCache p node.cache node.wOffset.toNat bs, s', got ++ bs⟩
  | noNode {done node p s got bs s' p'} :
      Round next size done node p s got bs s' → ¬ LastRound size node got bs →
      newInnerNode (writeCache p node.cache node.wOffset.toNat bs) = (none, p') →
      FillRun next size done node p s got
        ⟨cInt (got ++ bs).length, false, done ++ [filled node bs], p', s',
          got ++ bs⟩
  | more {done node p s got bs s' node' p' out} :
      Round next size done node p s got bs s' → ¬ LastRound size node got bs →
      newInnerNode (writeCache p node.cache node.wOffset.toNat bs)
        = (some node', p') →
      FillRun next size (done ++ [filled node bs]) node' p' s' (got ++ bs) out →
      FillRun next size done node p s got out

/-- A round keeps the invariant and extends the content. -/
theorem Round.moves {size : Nat} {done : List InnerNode} {node : InnerNode}
    {p : CachePool} {s s' : σ} {got bs : List UInt8}
    (h : Round next size done node p s got bs s') :
    Moves p (writeCache p node.cache node.wOffset.toNat bs) (done ++ [node])
        (done ++ [filled node bs])
      ∧ content (writeCache p node.cache node.wOffset.toNat bs)
          (done ++ [filled node bs])
        = content p (done ++ [node]) ++ bs := by
  have hle := h.le
  have hroom := h.here.room
  refine moves_fill h.here.pool h.here.inv ?_
  simp only [askSize, cacheSize] at *
  omega

/-- Behind a round that is not the last one all nodes are full, and a new node
    keeps the invariant. -/
theorem Round.newNode {size : Nat} {done : List InnerNode}
    {node node' : InnerNode} {p p' : CachePool} {s s' : σ}
    {got bs : List UInt8} (h : Round next size done node p s got bs s')
    (hend : ¬ LastRound size node got bs)
    (hnew : newInnerNode (writeCache p node.cache node.wOffset.toNat bs)
      = (some node', p')) :
    AtNode p' (done ++ [filled node bs]) node'
      ∧ Moves p p' (done ++ [node]) (done ++ [filled node bs] ++ [node'])
      ∧ content p' (done ++ [filled node bs] ++ [node'])
        = content p (done ++ [node]) ++ bs
      ∧ 0 < bs.length := by
  obtain ⟨hmoves, hcont⟩ := h.moves
  have hnn := (newInnerNode_spec hmoves.pool hnew).2.2.1 node' rfl
  have hend' : ¬ (got.length + bs.length = size
      ∨ bs.length < min (size - got.length) (cacheSize - node.wOffset).toNat) := by
    rw [LastRound, List.length_append] at hend
    exact hend
  obtain ⟨hmoves', hcont'⟩ := moves_newNode hmoves.inv
    (full_of_round h.here.inv h.here.room h.lt h.le hend') hnn
  have hroom := h.here.room
  have hlt := h.lt
  refine ⟨⟨hmoves'.pool, hmoves'.inv, ?_⟩, hmoves.trans hmoves',
    hcont'.trans hcont, ?_⟩
  · rw [hnn.wOffset]
    decide
  · simp only [cacheSize] at *
    omega

/-- The loop makes such a run. -/
theorem fillLoop_run (hnext : Bounded next) {size : Nat} :
    ∀ (fuel : Nat) (done : List InnerNode) (node : InnerNode) (p : CachePool)
      (s : σ) (got : List UInt8), AtNode p done node →
      got.length ≤ size → (got.length < size ∨ got = []) →
      size < fuel + got.length →
      FillRun next size done node p s got
        (fillLoop next size fuel done node p s got) := by
  intro fuel
  induction fuel with
  | zero => intro done node p s got _ hle _ hfuel; omega
  | succ fuel ih =>
      intro done node p s got hat hle hgot hfuel
      have ho := (hat.inv.offsets node (by simp)).nonneg
      rw [fillLoop]
      by_cases hlt : got.length < size
      · rw [if_pos hlt]
        simp only [readSize_eq (Int.le_trans ho.1 ho.2.1) hat.room size got.length]
        cases hread : next (min (size - got.length)
            (cacheSize - node.wOffset).toNat) s with
        | mk o s' =>
            cases o with
            | none => exact FillRun.failed hat hlt hread
            | some bs =>
                have hround : Round next size done node p s got bs s' :=
                  ⟨hat, hlt, hread, hnext _ _ _ _ hread⟩
                by_cases hend : (got ++ bs).length = size
                    ∨ bs.length < min (size - got.length)
                        (cacheSize - node.wOffset).toNat
                · dsimp only
                  rw [if_pos hend]
                  exact FillRun.last hround hend
                · -- the node is full and bytes are missing: one more node
                  dsimp only
                  rw [if_neg hend]
                  cases hnew : newInnerNode
                      (writeCache p node.cache node.wOffset.toNat bs) with
                  | mk o p' =>
                      cases o with
                      | none => exact FillRun.noNode hround hend hnew
                      | some node' =>
                          obtain ⟨hat', -, -, hgrow⟩ := hround.newNode hend hnew
                          have hle' := hround.le
                          have hne : (got ++ bs).length ≠ size :=
                            fun e => hend (Or.inl e)
                          have hlen : (got ++ bs).length = got.length + bs.length :=
                            List.length_append
                          simp only [askSize] at hle'
                          refine FillRun.more hround hend hnew
                            (ih _ node' p' s' (got ++ bs) hat' ?_ ?_ ?_)
                          · omega
                          · exact Or.inl (by omega)
                          · omega
      · rw [if_neg hlt]
        have hnil : got = [] := hgot.resolve_left hlt
        subst hnil
        exact FillRun.nothing hat (Nat.le_zero.mp (Nat.le_of_not_lt hlt))

/-- A round that ends the loop, by itself or for want of a node. -/
theorem Round.filled_of_stop {size : Nat} {done : List InnerNode}
    {node : InnerNode} {p p' : CachePool} {s s' : σ} {got bs : List UInt8}
    (h : Round next size done node p s got bs s')
    (hm : Moves (writeCache p node.cache node.wOffset.toNat bs) p'
      (done ++ [filled node bs]) (done ++ [filled node bs]))
    (hc : content p' (done ++ [filled node bs])
      = content (writeCache p node.cache node.wOffset.toNat bs)
        (done ++ [filled node bs]))
    (hend : NoFail p → LastRound size node got bs) :
    Filled next p (done ++ [node]) size got
      ⟨cInt (got ++ bs).length, false, done ++ [filled node bs], p', s',
        got ++ bs⟩ := by
  obtain ⟨hmoves, hcont⟩ := h.moves
  have hle := h.le
  refine ⟨hmoves.trans hm, ⟨bs, rfl, hc.trans hcont, ?_⟩, ?_, (fun _ => rfl),
    fun hnf _ => ?_⟩
  · intro hnil
    rw [hnil]
    simp [filled]
  · show (got ++ bs).length ≤ size
    have hlt := h.lt
    rw [List.length_append]
    simp only [askSize] at hle
    omega
  · rcases hend hnf with h1 | h2
    · exact Or.inl h1
    · exact Or.inr ⟨_, s, bs, h.read, h2⟩

/-- A run stores what it got, by induction on its rounds. -/
theorem FillRun.stores {size : Nat} {done : List InnerNode} {node : InnerNode}
    {p : CachePool} {s : σ} {got : List UInt8} {out : FillOut σ}
    (h : FillRun next size done node p s got out) (hle : got.length ≤ size) :
    Filled next p (done ++ [node]) size got out := by
  induction h with
  | nothing hat hsize =>
      exact ⟨Moves.refl hat.pool hat.inv, ⟨[], rfl, (List.append_nil _).symm,
        fun _ => rfl⟩, hle, fun _ => (cInt_natCast (by decide : 0 < 2 ^ 31)).symm,
        fun _ _ => Or.inl hsize.symm⟩
  | failed hat _ _ =>
      exact ⟨Moves.refl hat.pool hat.inv, ⟨[], (List.append_nil _).symm,
        (List.append_nil _).symm, fun _ => rfl⟩, hle, (fun h => by cases h),
        fun _ h => by cases h⟩
  | last hround hend =>
      obtain ⟨hmoves, -⟩ := hround.moves
      exact hround.filled_of_stop (Moves.refl hmoves.pool hmoves.inv) rfl
        (fun _ => hend)
  | noNode hround hend hnew =>
      obtain ⟨hmoves, -⟩ := hround.moves
      obtain ⟨hp', hk', -, hfail⟩ := newInnerNode_spec hmoves.pool hnew
      obtain ⟨hinv', hcont'⟩ := hmoves.inv.keeps hk' (fun _ _ h => by cases h)
      refine hround.filled_of_stop ⟨hp', hinv', hk'.mono (fun _ h => by cases h),
        fun _ h => Or.inl h⟩ hcont' fun hnf => ?_
      obtain ⟨_, hnone⟩ := hfail (hnf.keeps hmoves.keeps)
      cases hnone
  | @more _ _ _ _ _ bs _ _ _ _ hround hend hnew _ ih =>
      obtain ⟨-, hmoves, hcont, hgrow⟩ := hround.newNode hend hnew
      have hle' := hround.le
      obtain ⟨hm, ⟨more, hgot', hc, -⟩, hle', hret, hs⟩ := ih (by
        have hlt := hround.lt
        rw [List.length_append]
        simp only [askSize] at hle'
        omega)
      refine ⟨hmoves.trans hm, ⟨bs ++ more, ?_, ?_, ?_⟩, hle', hret,
        fun hnf => hs (hnf.keeps hmoves.keeps)⟩
      · rw [hgot', List.append_assoc]
      · rw [hc, hcont, List.append_assoc]
      · intro hnil
        have := congrArg List.length hnil
        rw [List.length_append, List.length_nil] at this
        omega

theorem fillLoop_spec (hnext : Bounded next) {size : Nat} :
    ∀ (fuel : Nat) (done : List InnerNode) (node : InnerNode) (p : CachePool)
      (s : σ) (got : List UInt8),
      PoolInv p → BufferInv p (done ++ [node]) → node.wOffset < cacheSize →
      got.length ≤ size → (got.length < size ∨ got = []) →
      size < fuel + got.length →
      Filled next p (done ++ [node]) size got
        (fillLoop next size fuel done node p s got) := by
  intro fuel done node p s got hp hb hw hle hgot hfuel
  exact (fillLoop_run hnext fuel done node p s got ⟨hp, hb, hw⟩ hle hgot
    hfuel).stores hle

/-- A source that never reports an error, from the states `ok` on. -/
def NeverFails (next : Nat → σ → Option (List UInt8) × σ) (ok : σ → Prop) :
    Prop :=
  ∀ n s, ok s → ∃ bs s', next n s = (some bs, s') ∧ ok s'

theorem fillLoop_not_failed {ok : σ → Prop} (hok : NeverFails next ok)
    (size : Nat) :
    ∀ (fuel : Nat) (done : List InnerNode) (node : InnerNode) (p : CachePool)
      (s : σ) (got : List UInt8), ok s →
      (fillLoop next size fuel done node p s got).failed = false := by
  intro fuel
  induction fuel with
  | zero => intro done node p s got _; rfl
  | succ fuel ih =>
      intro done node p s got hs
      rw [fillLoop]
      by_cases hlt : got.length < size
      · rw [if_pos hlt]
        obtain ⟨bs, s', hread, hs'⟩ := hok (minSizeT (size - got.length)
          (sizeT (cacheSize - node.wOffset))) s hs
        simp only [hread]
        split
        · rfl
        · split
          · rfl
          · exact ih _ _ _ _ _ hs'
      · rw [if_neg hlt]

/-! ## The two functions -/

/-- The nodes in front keep the invariant without the last one. -/
theorem bufferInv_of_append {p : CachePool} {b : Buffer} {node : InnerNode}
    (h : BufferInv p (b ++ [node])) : BufferInv p b where
  held := fun n hn => h.held n (List.mem_append.mpr (Or.inl hn))
  nodup := by
    have hnd := h.nodup
    rw [owned_append] at hnd
    exact (List.nodup_append.mp hnd).1
  room := fun n hn => h.room n (List.mem_append.mpr (Or.inl hn))
  offsets := fun n hn => h.offsets n (List.mem_append.mpr (Or.inl hn))
  full := by
    intro n hn
    refine h.full n ?_
    rw [List.dropLast_concat]
    exact List.dropLast_subset _ hn

/-- **WHAT AN APPEND DOES**: it appends the bytes it got and returns their
    number, or fails before it has taken a byte. -/
structure Appended (next : Nat → σ → Option (List UInt8) × σ) (p : CachePool)
    (b : Buffer) (size : Nat) (r : IoResult σ) : Prop where
  moves : Moves p r.pool b r.buffer
  content : content r.pool r.buffer = content p b ++ r.got
  le : r.got.length ≤ size
  ret : r.ret = r.got.length ∨ (r.ret = sizeT (-1) ∧ r.got = [] ∧ ¬ NoFail p)
  clean : r.strayWrite = false
  stop : NoFail p → r.got.length = size
    ∨ ∃ n s bs, next n s = (some bs, r.src) ∧ bs.length < n

/-- The splice: behind the loop the buffer has the nodes of the loop, or, when
    nothing was stored, its own. -/
private theorem finishFill_spec {p p₁ : CachePool} {b chain : Buffer}
    {size : Nat} {out : FillOut σ} {w : Nat} (hsize : size < 2 ^ 31)
    (hstart : Moves p p₁ b chain) (hcont : content p₁ chain = content p b)
    (hchain : chain = b
      ∨ ∃ node, nodeSize node = 0 ∧ chain = b ++ [node])
    (h : Filled next p₁ chain size [] out) (hf : out.failed = false) :
    Appended next p b size (finishFill b w out) := by
  obtain ⟨more, hgot, hc, hnil⟩ := h.stored
  rw [List.nil_append] at hgot
  have hle := h.le
  have hret : out.ret = out.got.length :=
    (h.ret hf).trans (cInt_natCast (by omega))
  have hstop : NoFail p → out.got.length = size
      ∨ ∃ n s bs, next n s = (some bs, out.src) ∧ bs.length < n :=
    fun hnf => h.stop (hnf.keeps hstart.keeps) hf
  have hmoves := hstart.trans h.moves
  rw [hcont, ← hgot] at hc
  have hsz : sizeT out.ret = out.got.length := by
    rw [hret]
    exact sizeT_natCast (by omega)
  rw [finishFill]
  simp only [hf, Bool.false_eq_true, if_false]
  by_cases hpos : out.ret > 0 ∧ out.nodes.drop b.length ≠ []
  · simp only [if_pos hpos, List.take_append_drop]
    exact ⟨hmoves, hc, hle, Or.inl hsz, rfl, hstop⟩
  · simp only [if_neg hpos]
    by_cases hzero : out.got = []
    · -- nothing stored: what was added to the list is dropped again
      have hnodes := hnil (by rw [← hgot]; exact hzero)
      have htake : out.nodes.take b.length = b := by
        rcases hchain with rfl | ⟨node, -, rfl⟩
        · rw [hnodes, List.take_length]
        · rw [hnodes]
          exact List.take_left
      rw [htake]
      have hinv : BufferInv out.pool b := by
        rcases hchain with rfl | ⟨node, -, rfl⟩
        · rw [← hnodes]
          exact hmoves.inv
        · have := hmoves.inv
          rw [hnodes] at this
          exact bufferInv_of_append this
      have hsame : content out.pool b = content p b := by
        rcases hchain with rfl | ⟨node, hempty, rfl⟩
        · rw [hnodes, hzero, List.append_nil] at hc
          exact hc
        · rw [hnodes, hzero, List.append_nil, content_append,
            content_singleton, nodeBytes_empty hempty, List.append_nil] at hc
          exact hc
      refine ⟨⟨hmoves.pool, hinv, hmoves.keeps, fun _ h => Or.inl h⟩, ?_, hle,
        Or.inl hsz, rfl, hstop⟩
      show content out.pool b = content p b ++ out.got
      rw [hzero, List.append_nil]
      exact hsame
    · have hlen : 0 < out.got.length := List.length_pos_iff.mpr hzero
      have hdrop : out.nodes.drop b.length = [] := by
        by_contra hne
        exact hpos ⟨by rw [hret]; omega, hne⟩
      have htake : out.nodes.take b.length = out.nodes :=
        List.take_of_length_le (List.drop_eq_nil_iff.mp hdrop)
      rw [htake]
      exact ⟨hmoves, hc, hle, Or.inl hsz, rfl, hstop⟩

/-- The loop moves the `w_offset` of the node at hand forward and adds nodes
    behind it; when it fails it says `-1`. -/
theorem fillLoop_nodes (next : Nat → σ → Option (List UInt8) × σ) (size : Nat) :
    ∀ (fuel : Nat) (done : List InnerNode) (node : InnerNode) (p : CachePool)
      (s : σ) (got : List UInt8),
      ((fillLoop next size fuel done node p s got).failed = true →
        (fillLoop next size fuel done node p s got).ret = -1)
      ∧ ∃ w extra, node.wOffset ≤ w
        ∧ (fillLoop next size fuel done node p s got).nodes
          = done ++ { node with wOffset := w } :: extra := by
  have hfine : ∀ {P : Prop}, false = true → P := fun h => by cases h
  intro fuel
  induction fuel with
  | zero =>
      intro done node _ _ _
      exact ⟨hfine, node.wOffset, [], Int.le_refl _, rfl⟩
  | succ fuel ih =>
      intro done node p s got
      rw [fillLoop]
      by_cases hlt : got.length < size
      · rw [if_pos hlt]
        dsimp only
        cases next (minSizeT (size - got.length)
            (sizeT (cacheSize - node.wOffset))) s with
        | mk o s' =>
            cases o with
            | none => exact ⟨fun _ => rfl, node.wOffset, [], Int.le_refl _, rfl⟩
            | some bs =>
                have hle : node.wOffset ≤ node.wOffset + bs.length := by omega
                dsimp only
                split
                · exact ⟨hfine, _, [], hle, rfl⟩
                · split
                  · exact ⟨hfine, _, [], hle, rfl⟩
                  · next node' p' _ =>
                      obtain ⟨hret, w, extra, -, hnodes⟩ := ih (done
                        ++ [{ node with wOffset := node.wOffset + bs.length }])
                        node' p' s' (got ++ bs)
                      refine ⟨hret, _, { node' with wOffset := w } :: extra, hle, ?_⟩
                      rw [hnodes, List.append_assoc]
                      rfl
      · rw [if_neg hlt]
        exact ⟨hfine, node.wOffset, [], Int.le_refl _, rfl⟩

/-- A call begins with a new node when there is no last node with room, and in
    the last node otherwise. -/
theorem fillBuffer_cases (next : Nat → σ → Option (List UInt8) × σ) (size : Nat)
    (p : CachePool) (b : Buffer) (s : σ) :
    ((∀ last ∈ b.getLast?, last.wOffset = cacheSize)
      ∧ fillBuffer next size p b s = fillNewNode next size p b s)
    ∨ ∃ front last, b = front ++ [last] ∧ last.wOffset ≠ cacheSize
      ∧ fillBuffer next size p b s = finishFill b (sizeT last.wOffset)
        (fillLoop next size (size + 1) front last p s []) := by
  rcases List.eq_nil_or_concat b with rfl | ⟨front, last, rfl⟩
  · exact Or.inl ⟨fun _ h => absurd h (Option.not_mem_none _), rfl⟩
  · rw [List.concat_eq_append, fillBuffer, List.getLast?_concat,
      List.dropLast_concat]
    by_cases hw : last.wOffset = cacheSize
    · exact Or.inl ⟨fun _ h => Option.some.inj h ▸ hw, if_pos hw⟩
    · exact Or.inr ⟨front, last, rfl, hw, if_neg hw⟩

/-- When the last node is full, all nodes are. -/
theorem allFull_of_last {p : CachePool} {b : Buffer} (hb : BufferInv p b)
    (h : ∀ last ∈ b.getLast?, last.wOffset = cacheSize) :
    ∀ n ∈ b, n.wOffset = cacheSize := by
  rcases List.eq_nil_or_concat b with rfl | ⟨front, last, rfl⟩
  · exact fun _ hn => absurd hn List.not_mem_nil
  · rw [List.concat_eq_append] at *
    intro n hn
    rcases List.mem_append.mp hn with h1 | h2
    · exact hb.full n (by rw [List.dropLast_concat]; exact h1)
    · rw [List.mem_singleton.mp h2]
      exact h last List.getLast?_concat

/-- A last node that is not full has room. -/
theorem lastRoom {p : CachePool} {front : Buffer} {last : InnerNode}
    (hb : BufferInv p (front ++ [last])) (hw : last.wOffset ≠ cacheSize) :
    0 ≤ last.wOffset ∧ last.wOffset < cacheSize := by
  have ho := hb.offsets last (by simp)
  have hnonneg := ho.nonneg
  have hle := ho.2.1
  omega

/-- **ANY APPEND** from a source that reports no error, whatever the allocations
    do. -/
theorem fillBuffer_spec (hnext : Bounded next) {ok : σ → Prop}
    (hok : NeverFails next ok) {size : Nat} (hsize : size < 2 ^ 31)
    {p : CachePool} {b : Buffer} {s : σ} (hs : ok s) (hp : PoolInv p)
    (hb : BufferInv p b) : Appended next p b size (fillBuffer next size p b s) := by
  have hfresh : (∀ n ∈ b, n.wOffset = cacheSize) →
      Appended next p b size (fillNewNode next size p b s) := by
    intro hfull
    rw [fillNewNode]
    cases hnew : newInnerNode p with
    | mk o p' =>
        obtain ⟨hp', hk', hsome, hfail⟩ := newInnerNode_spec hp hnew
        cases o with
        | none =>
            obtain ⟨hinv', hcont'⟩ := hb.keeps hk' (fun _ _ h => by cases h)
            have hnot : ¬ NoFail p := by
              intro hnf
              obtain ⟨node, hnode⟩ := hfail hnf
              cases hnode
            refine ⟨⟨hp', hinv', hk'.mono (fun _ h => by cases h),
              fun _ h => Or.inl h⟩, ?_, Nat.zero_le _,
              Or.inr ⟨rfl, rfl, hnot⟩, rfl, fun hnf => absurd hnf hnot⟩
            show content p' b = content p b ++ []
            rw [List.append_nil, hcont']
        | some node =>
            have hnn := hsome node rfl
            obtain ⟨hmoves, hcont⟩ := moves_newNode hb hfull hnn
            refine finishFill_spec hsize hmoves hcont
              (Or.inr ⟨node, by rw [nodeSize, hnn.wOffset, hnn.rOffset]; rfl, rfl⟩)
              (fillLoop_spec hnext (size + 1) b node p' s [] hmoves.pool
                hmoves.inv (by rw [hnn.wOffset]; decide) (Nat.zero_le _)
                (Or.inr rfl) (Nat.lt_succ_self size))
              (fillLoop_not_failed hok _ _ _ _ _ _ _ hs)
  rcases fillBuffer_cases next size p b s with ⟨hlast, heq⟩
    | ⟨front, last, rfl, hw, heq⟩
  · rw [heq]
    exact hfresh (allFull_of_last hb hlast)
  · rw [heq]
    exact finishFill_spec hsize (Moves.refl hp hb) rfl (Or.inl rfl)
      (fillLoop_spec hnext (size + 1) front last p s [] hp hb (lastRoom hb hw).2
        (Nat.zero_le _) (Or.inr rfl) (Nat.lt_succ_self size))
      (fillLoop_not_failed hok _ _ _ _ _ _ _ hs)

/-! ### Where the bytes come from -/

/-- What holds of the bytes got and the state of the source, and is kept when the
    source gives more, holds behind the loop. -/
theorem fillLoop_source {I : List UInt8 → σ → Prop}
    (hI : ∀ n got s, I got s → I (got ++ (next n s).1.getD []) (next n s).2)
    (size : Nat) :
    ∀ (fuel : Nat) (done : List InnerNode) (node : InnerNode) (p : CachePool)
      (s : σ) (got : List UInt8), I got s →
      I (fillLoop next size fuel done node p s got).got
        (fillLoop next size fuel done node p s got).src := by
  intro fuel
  induction fuel with
  | zero => intro done node p s got h; exact h
  | succ fuel ih =>
      intro done node p s got h
      rw [fillLoop]
      by_cases hlt : got.length < size
      · rw [if_pos hlt]
        dsimp only
        have hmore := hI (minSizeT (size - got.length)
          (sizeT (cacheSize - node.wOffset))) got s h
        generalize minSizeT (size - got.length)
          (sizeT (cacheSize - node.wOffset)) = n at hmore
        cases hn : next n s with
        | mk o s' =>
            rw [hn] at hmore
            cases o with
            | none =>
                rw [Option.getD_none, List.append_nil] at hmore
                exact hmore
            | some bs =>
                rw [Option.getD_some] at hmore
                dsimp only
                split
                · exact hmore
                · split
                  · exact hmore
                  · exact ih _ _ _ _ _ hmore
      · rw [if_neg hlt]
        exact h

theorem finishFill_got_src (b : Buffer) (w : Nat) (out : FillOut σ) :
    (finishFill b w out).got = out.got ∧ (finishFill b w out).src = out.src := by
  unfold finishFill
  dsimp only
  split <;> split <;> exact ⟨rfl, rfl⟩

/-- The rule for a whole call. -/
theorem fillBuffer_source {I : List UInt8 → σ → Prop}
    (hI : ∀ n got s, I got s → I (got ++ (next n s).1.getD []) (next n s).2)
    (size : Nat) (p : CachePool) (b : Buffer) {s : σ} (hs : I [] s) :
    I (fillBuffer next size p b s).got (fillBuffer next size p b s).src := by
  have hfresh : I (fillNewNode next size p b s).got
      (fillNewNode next size p b s).src := by
    rw [fillNewNode]
    split
    · exact hs
    · rw [(finishFill_got_src _ _ _).1, (finishFill_got_src _ _ _).2]
      exact fillLoop_source hI size _ _ _ _ _ _ hs
  rcases fillBuffer_cases next size p b s with ⟨-, heq⟩ | ⟨front, last, -, -, heq⟩
  · rw [heq]
    exact hfresh
  · rw [heq, (finishFill_got_src _ _ _).1, (finishFill_got_src _ _ _).2]
    exact fillLoop_source hI size _ _ _ _ _ _ hs

/-- A call of the source: what it was asked for, and what it gave. -/
structure SourceCall where
  size : Nat
  given : Option (List UInt8)

/-- The source with a record of its calls. -/
def recorded (next : Nat → σ → Option (List UInt8) × σ) (n : Nat)
    (s : σ × List SourceCall) : Option (List UInt8) × σ × List SourceCall :=
  let r := next n s.1
  (r.1, r.2, s.2 ++ [⟨n, r.1⟩])

/-- The calls of the source that `fillBuffer` makes. -/
def sourceCalls (next : Nat → σ → Option (List UInt8) × σ) (size : Nat)
    (p : CachePool) (b : Buffer) (s : σ) : List SourceCall :=
  (fillBuffer (recorded next) size p b (s, [])).src.2

/-- All bytes the calls gave, in their order. -/
def delivered (calls : List SourceCall) : List UInt8 :=
  calls.flatMap fun call => call.given.getD []

section Record

variable {τ : Type} {next' : Nat → τ → Option (List UInt8) × τ} {f : σ → τ}

def FillOut.mapSrc (f : σ → τ) (out : FillOut σ) : FillOut τ :=
  ⟨out.ret, out.failed, out.nodes, out.pool, f out.src, out.got⟩

def IoResult.mapSrc (f : σ → τ) (r : IoResult σ) : IoResult τ :=
  ⟨r.ret, r.buffer, r.pool, f r.src, r.got, r.strayWrite⟩

/-- The loop looks at what its source gives and at nothing else of it. -/
theorem fillLoop_mapSrc (hf : ∀ n s, next' n (f s) = ((next n s).1, f (next n s).2))
    (size : Nat) :
    ∀ (fuel : Nat) (done : List InnerNode) (node : InnerNode) (p : CachePool)
      (s : σ) (got : List UInt8),
      fillLoop next' size fuel done node p (f s) got
        = FillOut.mapSrc f (fillLoop next size fuel done node p s got) := by
  intro fuel
  induction fuel with
  | zero => intro done node p s got; rfl
  | succ fuel ih =>
      intro done node p s got
      rw [fillLoop, fillLoop]
      by_cases hlt : got.length < size
      · rw [if_pos hlt, if_pos hlt]
        dsimp only
        generalize minSizeT (size - got.length)
          (sizeT (cacheSize - node.wOffset)) = n
        rw [hf]
        cases next n s with
        | mk o s' =>
            cases o with
            | none => rfl
            | some bs =>
                dsimp only
                split
                · rfl
                · split
                  · rfl
                  · exact ih _ _ _ _ _
      · rw [if_neg hlt, if_neg hlt]
        rfl

theorem finishFill_mapSrc (f : σ → τ) (b : Buffer) (w : Nat) (out : FillOut σ) :
    finishFill b w (FillOut.mapSrc f out) = IoResult.mapSrc f (finishFill b w out) := by
  unfold finishFill
  dsimp only [FillOut.mapSrc]
  rw [apply_ite (IoResult.mapSrc f), apply_ite (IoResult.mapSrc f),
    apply_ite (IoResult.mapSrc f)]
  rfl

theorem fillBuffer_mapSrc
    (hf : ∀ n s, next' n (f s) = ((next n s).1, f (next n s).2)) (size : Nat)
    (p : CachePool) (b : Buffer) (s : σ) :
    fillBuffer next' size p b (f s)
      = IoResult.mapSrc f (fillBuffer next size p b s) := by
  have hfresh : fillNewNode next' size p b (f s)
      = IoResult.mapSrc f (fillNewNode next size p b s) := by
    rw [fillNewNode, fillNewNode]
    cases newInnerNode p with
    | mk o p' =>
        cases o with
        | none => rfl
        | some node =>
            dsimp only
            rw [fillLoop_mapSrc hf, finishFill_mapSrc]
  rw [fillBuffer, fillBuffer]
  split
  · exact hfresh
  · split
    · exact hfresh
    · rw [fillLoop_mapSrc hf, finishFill_mapSrc]

end Record

/-- **A CALL STORES WHAT IT WAS GIVEN**: the record of the source's calls changes
    nothing else, and what they gave is what was got. -/
theorem fillBuffer_delivered (next : Nat → σ → Option (List UInt8) × σ)
    (size : Nat) (p : CachePool) (b : Buffer) (s : σ) :
    fillBuffer next size p b s
        = IoResult.mapSrc Prod.fst (fillBuffer (recorded next) size p b (s, []))
      ∧ (fillBuffer next size p b s).got = delivered (sourceCalls next size p b s) := by
  have hsame : fillBuffer next size p b s
      = IoResult.mapSrc Prod.fst (fillBuffer (recorded next) size p b (s, [])) :=
    fillBuffer_mapSrc (f := Prod.fst) (fun _ _ => rfl) size p b (s, [])
  have hgot : (fillBuffer (recorded next) size p b (s, [])).got
      = delivered (sourceCalls next size p b s) := by
    refine fillBuffer_source
      (I := fun got (t : σ × List SourceCall) => got = delivered t.2)
      (fun n got t h => ?_) size p b rfl
    rw [h, delivered, delivered]
    show _ = (t.2 ++ [_]).flatMap _
    rw [List.flatMap_append, List.flatMap_singleton]
    rfl
  exact ⟨hsame, (congrArg IoResult.got hsame).trans hgot⟩

/-! ### `read_into_buffer` -/

/-- The coming `read` calls report no error. -/
def ReadsOk (reads : List ReadOutcome) : Prop :=
  ∀ r ∈ reads, r ≠ .error

instance (reads : List ReadOutcome) : Decidable (ReadsOk reads) :=
  inferInstanceAs (Decidable (∀ r ∈ reads, r ≠ .error))

theorem bounded_fdRead : Bounded fdRead := by
  intro n reads bs reads' h
  cases reads with
  | nil =>
      obtain rfl := Option.some.inj (congrArg Prod.fst h)
      exact Nat.zero_le _
  | cons r rest =>
      cases r with
      | error => cases congrArg Prod.fst h
      | bytes data =>
          obtain rfl := Option.some.inj (congrArg Prod.fst h)
          exact List.length_take_le _ _

theorem neverFails_fdRead : NeverFails fdRead ReadsOk := by
  intro n reads h
  cases reads with
  | nil => exact ⟨[], [], rfl, h⟩
  | cons r rest =>
      cases r with
      | error => exact absurd rfl (h .error (List.mem_cons_self ..))
      | bytes data =>
          exact ⟨_, rest, rfl, fun r hr => h r (List.mem_cons_of_mem _ hr)⟩

/-- The calls of `read` that `read_into_buffer` makes, with what they return. -/
def readCalls (p : CachePool) (b : Buffer) (size : Nat)
    (reads : List ReadOutcome) : List SourceCall :=
  sourceCalls fdRead size p b reads

theorem readIntoBuffer_got (p : CachePool) (b : Buffer) (size : Nat)
    (reads : List ReadOutcome) :
    (readIntoBuffer p b size reads).got = delivered (readCalls p b size reads) :=
  (fillBuffer_delivered fdRead size p b reads).2

/-- **`read_into_buffer`** without a `read` error appends the bytes `read`
    delivered. -/
theorem readIntoBuffer_spec {p : CachePool} {b : Buffer} {size : Nat}
    {reads : List ReadOutcome} (hp : PoolInv p) (hb : BufferInv p b)
    (hsize : size < 2 ^ 31) (hr : ReadsOk reads) :
    Appended fdRead p b size (readIntoBuffer p b size reads) :=
  fillBuffer_spec bounded_fdRead neverFails_fdRead hsize hr hp hb

/-! ### `write_into_buffer` -/

theorem bounded_srcCopy : Bounded srcCopy := by
  intro n src bs src' h
  obtain rfl := Option.some.inj (congrArg Prod.fst h)
  exact List.length_take_le _ _

theorem neverFails_srcCopy : NeverFails srcCopy (fun _ => True) :=
  fun n src _ => ⟨src.take n, src.drop n, rfl, trivial⟩

/-- The bytes stored and the source still to come are the source. -/
theorem srcCopy_source (size : Nat) (p : CachePool) (b : Buffer) (src : List UInt8) :
    (fillBuffer srcCopy size p b src).got ++ (fillBuffer srcCopy size p b src).src
      = src := by
  refine fillBuffer_source (I := fun got rest => got ++ rest = src)
    (fun n got rest h => ?_) size p b (List.nil_append src)
  show (got ++ List.take n rest) ++ List.drop n rest = src
  rw [List.append_assoc, List.take_append_drop, h]

/-- **`write_into_buffer`** appends the first bytes of the source, as many as it
    is asked for when no allocation fails. -/
theorem writeIntoBuffer_spec {p : CachePool} {b : Buffer} (src : List UInt8)
    {size : Nat} (hp : PoolInv p) (hb : BufferInv p b)
    (hsize : size < 2 ^ 31) :
    Appended srcCopy p b size (writeIntoBuffer p b src size)
      ∧ (writeIntoBuffer p b src size).got
          = src.take (writeIntoBuffer p b src size).got.length
      ∧ (NoFail p → (writeIntoBuffer p b src size).got = src.take size) := by
  have happ : Appended srcCopy p b size (writeIntoBuffer p b src size) :=
    fillBuffer_spec bounded_srcCopy neverFails_srcCopy hsize trivial hp hb
  have hsource : (writeIntoBuffer p b src size).got
      ++ (writeIntoBuffer p b src size).src = src :=
    srcCopy_source size p b src
  have hgot : (writeIntoBuffer p b src size).got
      = src.take (writeIntoBuffer p b src size).got.length := by
    generalize writeIntoBuffer p b src size = r at *
    rw [← hsource]
    exact List.take_left.symm
  refine ⟨happ, hgot, fun hnf => ?_⟩
  rcases happ.stop hnf with hlen | ⟨n, s, bs, hshort, hbs⟩
  · rw [hgot, hlen]
  · -- a short copy means the source is used up
    obtain ⟨h1, h2⟩ := Prod.mk.inj hshort
    have hsb := congrArg List.length (Option.some.inj h1)
    rw [List.length_take] at hsb
    have hnil : (writeIntoBuffer p b src size).src = [] := by
      rw [← h2]
      exact List.drop_of_length_le (by omega)
    rw [hnil, List.append_nil] at hsource
    have hle := happ.le
    rw [hsource] at hle ⊢
    rw [List.take_of_length_le hle]

/-- A buffer with five bytes. -/
def hello : IoResult (List UInt8) :=
  writeIntoBuffer (emptyPool (fun _ => ⟨0, 0, []⟩) (fun _ => 0) []) []
    (ascii "hello") 5

theorem hello_inv : PoolInv hello.pool ∧ BufferInv hello.pool hello.buffer := by
  have h := (writeIntoBuffer_spec (ascii "hello") (poolInv_empty
    (fun _ => ⟨0, 0, []⟩) (fun _ => 0) []) (bufferInv_nil _)
    (by decide : 5 < 2 ^ 31)).1.moves
  exact ⟨h.pool, h.inv⟩

end IMBufferAppend

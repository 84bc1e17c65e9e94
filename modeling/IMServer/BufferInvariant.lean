import IMServer.Buffer

/-! # The buffer invariant — nodes, their caches and the content

    `BufferInv` is the representation invariant: the nodes hold different caches
    of at least 512 bytes, the offsets are ordered, only the last node may have
    room, and a node without bytes is the untouched last one.  `content` is the
    abstraction: the bytes between the offsets, in node order.  A call into the
    pool that keeps the caches of a buffer keeps both. -/

namespace IMBufferInvariant

open IMBytes IMMachineInt IMCachePool IMBuffer

/-- The caches of a buffer's nodes. -/
def owned (b : Buffer) : List Addr :=
  b.map fun node => node.cache

/-- The bytes of a node. -/
def nodeBytes (p : CachePool) (node : InnerNode) : List UInt8 :=
  slice (p.mem node.cache).buff node.rOffset.toNat (nodeSize node).toNat

/-- **THE ABSTRACT CONTENT**: the bytes `[r_offset, w_offset)` of the nodes in
    list order. -/
def content (p : CachePool) (b : Buffer) : List UInt8 :=
  b.flatMap (nodeBytes p)

/-- The offsets of a node; a node without bytes has not been used yet. -/
def Offsets (node : InnerNode) : Prop :=
  0 ≤ node.rOffset ∧ node.wOffset ≤ cacheSize
    ∧ (node.rOffset < node.wOffset ∨ (node.rOffset = 0 ∧ node.wOffset = 0))

/-- **THE REPRESENTATION INVARIANT**. -/
structure BufferInv (p : CachePool) (b : Buffer) : Prop where
  held : ∀ node ∈ b, Held p node.cache
  nodup : (owned b).Nodup
  room : ∀ node ∈ b, cacheSize.toNat ≤ (p.mem node.cache).buff.length
  offsets : ∀ node ∈ b, Offsets node
  full : ∀ node ∈ b.dropLast, node.wOffset = cacheSize

theorem Offsets.nonneg {node : InnerNode} (h : Offsets node) :
    0 ≤ node.rOffset ∧ node.rOffset ≤ node.wOffset
      ∧ node.wOffset ≤ 512 ∧ 0 ≤ nodeSize node ∧ nodeSize node ≤ 512 := by
  obtain ⟨h1, h2, h3⟩ := h
  simp only [cacheSize, nodeSize] at *
  omega

theorem bufferInv_nil (p : CachePool) : BufferInv p [] where
  held := fun _ h => by cases h
  nodup := List.nodup_nil
  room := fun _ h => by cases h
  offsets := fun _ h => by cases h
  full := fun _ h => by cases h

@[simp] theorem content_nil (p : CachePool) : content p [] = [] := rfl

theorem content_cons (p : CachePool) (node : InnerNode) (b : Buffer) :
    content p (node :: b) = nodeBytes p node ++ content p b := rfl

theorem content_append (p : CachePool) (b b' : Buffer) :
    content p (b ++ b') = content p b ++ content p b' :=
  List.flatMap_append

theorem content_singleton (p : CachePool) (node : InnerNode) :
    content p [node] = nodeBytes p node := by
  rw [content_cons, content_nil, List.append_nil]

theorem owned_append (b b' : Buffer) : owned (b ++ b') = owned b ++ owned b' :=
  List.map_append

theorem mem_owned {node : InnerNode} {b : Buffer} (h : node ∈ b) :
    node.cache ∈ owned b :=
  List.mem_map_of_mem h

theorem BufferInv.heldOwned {p : CachePool} {b : Buffer} (h : BufferInv p b)
    {a : Addr} (ha : a ∈ owned b) : Held p a := by
  obtain ⟨node, hn, rfl⟩ := List.mem_map.mp ha
  exact h.held node hn

/-- The content depends on the caches of the nodes only. -/
theorem content_congr {p p' : CachePool} {b : Buffer}
    (h : ∀ a ∈ owned b, p'.mem a = p.mem a) : content p' b = content p b := by
  induction b with
  | nil => rfl
  | cons node b ih =>
      rw [content_cons, content_cons, ih (fun a ha => h a (by
        rw [owned, List.map_cons]
        exact List.mem_cons_of_mem _ ha))]
      have hn : p'.mem node.cache = p.mem node.cache :=
        h node.cache (mem_owned (List.mem_cons_self ..))
      simp only [nodeBytes, hn]

/-- **FRAME**: a call that leaves the caches of a buffer alone keeps the
    invariant and the content of that buffer. -/
theorem BufferInv.keeps {p p' : CachePool} {b : Buffer} {S : List Addr}
    (h : BufferInv p b) (hk : Keeps p p' S) (hS : ∀ a ∈ owned b, a ∉ S) :
    BufferInv p' b ∧ content p' b = content p b := by
  have hmem : ∀ a ∈ owned b, p'.mem a = p.mem a :=
    fun a ha => hk.mem a (h.heldOwned ha) (hS a ha)
  refine ⟨?_, content_congr hmem⟩
  exact {
    held := fun node hn => hk.held _ (h.held node hn) (hS _ (mem_owned hn))
    nodup := h.nodup
    room := by
      intro node hn
      rw [hmem _ (mem_owned hn)]
      exact h.room node hn
    offsets := h.offsets
    full := h.full }

theorem length_nodeBytes {p : CachePool} {node : InnerNode}
    (ho : Offsets node)
    (hr : cacheSize.toNat ≤ (p.mem node.cache).buff.length) :
    (nodeBytes p node).length = (nodeSize node).toNat := by
  have := ho.nonneg
  refine length_slice ?_
  simp only [nodeSize, cacheSize] at *
  omega

theorem nodeBytes_empty {p : CachePool} {node : InnerNode}
    (h : nodeSize node = 0) : nodeBytes p node = [] := by
  rw [nodeBytes, h]
  exact slice_zero _ _

/-- The bytes of the first node. -/
theorem BufferInv.length_first {p : CachePool} {node : InnerNode} {b : Buffer}
    (h : BufferInv p (node :: b)) :
    (nodeBytes p node).length = (nodeSize node).toNat :=
  length_nodeBytes (h.offsets node (List.mem_cons_self ..))
    (h.room node (List.mem_cons_self ..))

/-- The content is as long as the first node and the content behind it. -/
theorem BufferInv.length_cons {p : CachePool} {node : InnerNode} {b : Buffer}
    (h : BufferInv p (node :: b)) :
    (content p (node :: b)).length
      = (nodeSize node).toNat + (content p b).length := by
  rw [content_cons, List.length_append, h.length_first]

/-- The invariant of the nodes behind the first. -/
theorem BufferInv.tail {p : CachePool} {node : InnerNode} {b : Buffer}
    (h : BufferInv p (node :: b)) : BufferInv p b where
  held := fun n hn => h.held n (List.mem_cons_of_mem _ hn)
  nodup := (List.nodup_cons.mp h.nodup).2
  room := fun n hn => h.room n (List.mem_cons_of_mem _ hn)
  offsets := fun n hn => h.offsets n (List.mem_cons_of_mem _ hn)
  full := by
    intro n hn
    cases b with
    | nil => cases hn
    | cons m b => exact h.full n (List.mem_cons_of_mem _ hn)

/-- The first node may move its `r_offset` forward while bytes remain. -/
theorem BufferInv.advance {p : CachePool} {node : InnerNode} {b : Buffer}
    (h : BufferInv p (node :: b)) {r : Int} (h0 : 0 ≤ r)
    (hr : r < node.wOffset) :
    BufferInv p ({ node with rOffset := r } :: b) where
  held := by
    intro n hn
    rcases List.mem_cons.mp hn with rfl | hn'
    · exact h.held node (List.mem_cons_self ..)
    · exact h.held n (List.mem_cons_of_mem _ hn')
  nodup := h.nodup
  room := by
    intro n hn
    rcases List.mem_cons.mp hn with rfl | hn'
    · exact h.room node (List.mem_cons_self ..)
    · exact h.room n (List.mem_cons_of_mem _ hn')
  offsets := by
    intro n hn
    rcases List.mem_cons.mp hn with rfl | hn'
    · obtain ⟨-, h2, -⟩ := h.offsets node (List.mem_cons_self ..)
      exact ⟨h0, h2, Or.inl hr⟩
    · exact h.offsets n (List.mem_cons_of_mem _ hn')
  full := by
    intro n hn
    cases b with
    | nil => cases hn
    | cons m b =>
        rcases List.mem_cons.mp hn with rfl | hn'
        · exact h.full node (List.mem_cons_self ..)
        · exact h.full n (List.mem_cons_of_mem _ hn')

/-! ## `buffer_size` -/

theorem foldl_bufferSize {p : CachePool} :
    ∀ {b : Buffer} (acc : Nat), BufferInv p b →
      acc + (content p b).length < 2 ^ 64 →
      b.foldl (fun size node => sizeT ((size : Int) + nodeSize node)) acc
        = acc + (content p b).length := by
  intro b
  induction b with
  | nil => intro acc _ _; rfl
  | cons node b ih =>
      intro acc h hlt
      have ho := (h.offsets node (List.mem_cons_self ..)).nonneg
      rw [h.length_cons] at hlt ⊢
      rw [List.foldl_cons]
      have hacc : sizeT ((acc : Int) + nodeSize node)
          = acc + (nodeSize node).toNat := by
        rw [sizeT_of_nonneg (by omega) (by omega)]
        omega
      rw [hacc, ih _ h.tail (by omega)]
      omega

theorem bufferSize_lt (b : Buffer) : bufferSize b < 2 ^ 64 := by
  rw [bufferSize]
  rcases List.eq_nil_or_concat b with rfl | ⟨front, last, rfl⟩
  · exact Nat.two_pow_pos 64
  · rw [List.concat_eq_append, List.foldl_append, List.foldl_cons,
      List.foldl_nil]
    exact sizeT_lt _

/-- **`buffer_size`** is the length of the content. -/
theorem bufferSize_eq {p : CachePool} {b : Buffer} (h : BufferInv p b)
    (hlt : (content p b).length < 2 ^ 64) :
    bufferSize b = (content p b).length := by
  have := foldl_bufferSize 0 h (by omega)
  rw [bufferSize, this, Nat.zero_add]

end IMBufferInvariant

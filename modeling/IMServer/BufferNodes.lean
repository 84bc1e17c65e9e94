import IMServer.BufferQueue
import IMServer.ListHead

/-! # Buffers, node by node — `_InnerNode`

    A buffer is modelled as the list of its nodes (`IMBuffer`).  Here it is what it
    is in memory: `_InnerNode`s linked through `cache_list`, filled in a temporary
    list and spliced behind `cache_list.prev`.  `nodes_refine_buffers` says that in
    every run of calls, whatever allocations and system calls fail, the two have
    the same results. -/

namespace IMBufferNodes

open IMBytes IMCString IMMachineInt IMCachePool IMBuffer IMBufferAppend
  IMBufferQueue IMRings IMListHead

/-- The pool, the links of all cells, and the `_InnerNode` around each. -/
structure NodeMem where
  links : ListHeads
  node : PListHead → InnerNode
  pool : CachePool

namespace NodeMem

def setNode (m : NodeMem) (p : PListHead) (node : InnerNode) : NodeMem :=
  { m with node := Function.update m.node p node }

def setLinks (m : NodeMem) (links : ListHeads) : NodeMem := { m with links := links }

def setPool (m : NodeMem) (pool : CachePool) : NodeMem := { m with pool := pool }

end NodeMem

/-! ## The functions

    `blocks` are the blocks `malloc` gives for nodes, one after the other, and
    `tmp` is the variable `tmp_list`. -/

/-- A new node in the block `a`. -/
def newNode (m : NodeMem) (a : PListHead) : Bool × NodeMem :=
  match newInnerNode m.pool with
  | (none, p) => (false, m.setPool p)
  | (some node, p) => (true, (m.setPool p).setNode a node)

/-- The node goes to the temporary list. -/
def linkNode (m : NodeMem) (a tmp : PListHead) : NodeMem :=
  m.setLinks (listAddTail m.links a tmp)

/-- How the loop that fills nodes ends. -/
structure FillEnd (σ : Type) where
  ret : Int
  failed : Bool
  mem : NodeMem
  src : σ
  got : List UInt8

/-- The loop `while (already_read_size < size)`, with `node` at `pos`. -/
def fillNodes {σ : Type} (next : Nat → σ → Option (List UInt8) × σ)
    (size : Nat) (tmp : PListHead) :
    Nat → (Nat → PListHead) → PListHead → NodeMem → σ → List UInt8 → FillEnd σ
  | 0, _, _, m, s, got => ⟨0, false, m, s, got⟩
  | fuel + 1, blocks, pos, m, s, got =>
      if got.length < size then
        let node := m.node pos
        let readSize := minSizeT (size - got.length)
          (sizeT (cacheSize - node.wOffset))
        match next readSize s with
        | (none, s) => ⟨-1, true, m, s, got⟩
        | (some bs, s) =>
            let m := m.setPool
              (writeCache m.pool node.cache node.wOffset.toNat bs)
            let got := got ++ bs
            let m := m.setNode pos { node with wOffset := node.wOffset + bs.length }
            if got.length = size ∨ bs.length < readSize then
              ⟨cInt got.length, false, m, s, got⟩
            else
              match newNode m (blocks 0) with
              | (false, m) => ⟨cInt got.length, false, m, s, got⟩
              | (true, m) =>
                  fillNodes next size tmp fuel (fun k => blocks (k + 1))
                    (blocks 0) (linkNode m (blocks 0) tmp) s got
      else ⟨0, false, m, s, got⟩

/-- `while (!list_empty(list))`: unlink, recycle and free the last node.  None
    when the fuel runs out. -/
def recycleList (head : PListHead) : Nat → NodeMem → Option NodeMem
  | 0, _ => none
  | fuel + 1, m =>
      if listEmpty m.links head then some m
      else
        let p := listLastEntry m.links head
        recycleList head fuel ((m.setLinks (listDel m.links p)).setPool
          (recycleCache m.pool (m.node p).cache).2)

/-- The value, the bytes delivered and the memory after a call. -/
structure NodeResult where
  ret : Nat
  bytes : List UInt8
  mem : NodeMem

/-- Behind the loop. -/
def finishNodes {σ : Type} (head tmp : PListHead) (lastWOffset fuel : Nat)
    (out : FillEnd σ) : Option NodeResult :=
  let m := out.mem
  if out.failed then
    let last := listLastEntry m.links head
    let m := if lastWOffset ≥ 0 then
      m.setNode last { m.node last with wOffset := cInt lastWOffset } else m
    (recycleList tmp fuel m).map fun m => ⟨sizeT out.ret, [], m⟩
  else if out.ret > 0 ∧ listEmpty m.links tmp = false then
    some ⟨sizeT out.ret, [],
      m.setLinks (listSplice m.links tmp (m.links.prev head))⟩
  else some ⟨sizeT out.ret, [], m⟩

/-- The common body of `read_into_buffer` and `write_into_buffer`. -/
def appendNodes {σ : Type} (next : Nat → σ → Option (List UInt8) × σ)
    (size : Nat) (head tmp : PListHead) (blocks : Nat → PListHead) (m : NodeMem)
    (s : σ) : Option NodeResult :=
  let m := m.setLinks (initListHead m.links tmp)
  let last := listLastEntry m.links head
  if listEmpty m.links head = true ∨ (m.node last).wOffset = cacheSize then
    match newNode m (blocks 0) with
    | (false, m) => some ⟨sizeT (-1), [], m⟩
    | (true, m) =>
        finishNodes head tmp (sizeT (-1)) (size + 3)
          (fillNodes next size tmp (size + 1) (fun k => blocks (k + 1)) (blocks 0)
            (linkNode m (blocks 0) tmp) s [])
  else
    finishNodes head tmp (sizeT (m.node last).wOffset) (size + 3)
      (fillNodes next size tmp (size + 1) blocks last m s [])

/-- A used-up node is unlinked, recycled and freed. -/
def dropIfUsedUp (m : NodeMem) (pos : PListHead) : NodeMem :=
  if (m.node pos).rOffset = (m.node pos).wOffset then
    (m.setLinks (listDel m.links pos)).setPool
      (recycleCache m.pool (m.node pos).cache).2
  else m

/-- The loop of `write_from_buffer`. -/
def sendNodes (size : Nat) (head : PListHead) :
    Nat → Nat → NodeMem → List WriteOutcome → List UInt8 → NodeResult
  | 0, already, m, _, sent => ⟨already, sent, m⟩
  | fuel + 1, already, m, ws, sent =>
      if already < size then
        match listFirstEntryOrNull m.links head with
        | none => ⟨already, sent, m⟩
        | some pos =>
            let node := m.node pos
            let writeSize := minSizeT (sizeT (nodeSize node)) (size - already)
            let (k, ws) := fdWrite writeSize ws
            let tmpWriteSize := sizeT k
            if tmpWriteSize < 0 then ⟨already, sent, m⟩
            else
              let sent := sent
                ++ slice (m.pool.mem node.cache).buff node.rOffset.toNat k.toNat
              let already := sizeT ((already : Int) + tmpWriteSize)
              let m := m.setNode pos { node with
                rOffset := cInt ((sizeT node.rOffset : Int) + tmpWriteSize) }
              sendNodes size head fuel already (dropIfUsedUp m pos) ws sent
      else ⟨already, sent, m⟩

/-- The body of the first loop of `read_from_buffer`. -/
def expectedBody (m : NodeMem) (size : Nat) (ptr : PListHead) (acc : Nat) :
    Nat × Bool :=
  let acc := sizeT ((acc : Int) + nodeSize (m.node ptr))
  if acc ≥ size then (size, true) else (acc, false)

/-- The second loop of `read_from_buffer`. -/
def takeNodes (expected : Nat) (head : PListHead) :
    Nat → Nat → NodeMem → List UInt8 → NodeResult
  | 0, already, m, target => ⟨already, target, m⟩
  | fuel + 1, already, m, target =>
      if already < expected then
        match listFirstEntryOrNull m.links head with
        | none => ⟨already, target, m⟩
        | some pos =>
            let node := m.node pos
            let writeSize := cInt
              (minSizeT (sizeT (nodeSize node)) (expected - already))
            let target := overwrite target already
              (slice (m.pool.mem node.cache).buff node.rOffset.toNat
                writeSize.toNat)
            let m := m.setNode pos
              { node with rOffset := node.rOffset + writeSize }
            let already := sizeT ((already : Int) + writeSize)
            takeNodes expected head fuel already (dropIfUsedUp m pos) target
      else ⟨already, target, m⟩

/-- `read_from_buffer`. -/
def readNodes (head : PListHead) (fuel size : Nat) (m : NodeMem) :
    Option NodeResult :=
  let expected := if listEmpty m.links head then some 0
    else listForEach (fun _ => m.links) head (expectedBody m size) fuel 0
  expected.map fun expected =>
    takeNodes expected head fuel 0 m (List.replicate expected 0)

/-- `write_from_buffer`. -/
def writeNodes (head : PListHead) (fuel size : Nat) (m : NodeMem)
    (writes : List WriteOutcome) : NodeResult :=
  if listEmpty m.links head then ⟨0, [], m⟩
  else sendNodes size head fuel 0 m writes []

/-- The body of the loop of `find_in_buffer`: `node_first_pos` and
    `node_index_pos`. -/
def findBody (m : NodeMem) (after : Addr → List UInt8)
    (index : List UInt8 → Int → Nat) (startPos : Nat) (ptr : PListHead)
    (t : Nat × Nat) : (Nat × Nat) × Bool :=
  let cur := m.node ptr
  let startPtr := (m.pool.mem cur.cache).buff.drop cur.rOffset.toNat
    ++ after cur.cache
  if t.1 ≥ startPos then
    let idx := index startPtr (nodeSize cur)
    if idx ≥ 0 then ((sizeT ((t.1 : Int) + idx), idx), true)
    else ((sizeT ((t.1 : Int) + nodeSize cur), idx), false)
  else if sizeT ((t.1 : Int) + cur.wOffset - cur.rOffset) > startPos then
    let startPosInNode := cInt ((startPos : Int) - t.1)
    let idx := index (startPtr.drop startPosInNode.toNat)
      (nodeSize cur - startPosInNode)
    if idx ≥ 0 then ((sizeT ((t.1 : Int) + startPosInNode + idx), idx), true)
    else ((sizeT ((t.1 : Int) + nodeSize cur), idx), false)
  else ((sizeT ((t.1 : Int) + nodeSize cur), t.2), false)

/-- `find_in_buffer`. -/
def findNodes (m : NodeMem) (after : Addr → List UInt8) (head : PListHead)
    (fuel startPos : Nat) (index : Option (UInt8 → List UInt8 → Int → Nat))
    (arg : UInt8) : Option Nat :=
  let index := index.getD simpleIndexFunc
  (listForEach (fun _ => m.links) head (findBody m after (index arg) startPos)
    fuel (0, sizeT (-1))).map fun r => if r.2 ≥ 0 then r.1 else sizeT (-1)

/-- `buffer_size`. -/
def sizeOfNodes (m : NodeMem) (head : PListHead) (fuel : Nat) : Option Nat :=
  if listEmpty m.links head then some 0
  else listForEach (fun _ => m.links) head
    (fun ptr size => (sizeT ((size : Int) + nodeSize (m.node ptr)), false)) fuel 0

/-- `create_new_buffer`, with its list at `head`. -/
def createNodes (m : NodeMem) (head : PListHead) : NodeMem :=
  m.setLinks (initListHead m.links head)

/-- `destroy_buffer`. -/
def destroyNodes (m : NodeMem) (head : PListHead) (fuel : Nat) : Option NodeMem :=
  recycleList head fuel m

/-- A call on the buffer at `head`, which has `n` nodes. -/
def callNodes (m : NodeMem) (head tmp : PListHead) (blocks : Nat → PListHead)
    (n : Nat) : BufferCall → Option NodeResult
  | .writeIntoBuffer src =>
      appendNodes srcCopy src.length head tmp blocks m src
  | .readIntoBuffer size reads => appendNodes fdRead size head tmp blocks m reads
  | .readFromBuffer size => readNodes head (n + 1) size m
  | .writeFromBuffer size writes =>
      some (writeNodes head (size + 2 * writes.length + n + 1) size m writes)

/-! ## Filling nodes -/

/-- The blocks `malloc` gives are in no list and distinct. -/
structure Fresh (A : Heads PListHead) (blocks : Nat → PListHead) : Prop where
  new : ∀ k, ¬ Cell A (blocks k)
  distinct : Function.Injective blocks

/-- The blocks that are left when the first one has gone to a list. -/
theorem Fresh.tail {A : Heads PListHead} {blocks : Nat → PListHead}
    (h : Fresh A blocks) {tmp : PListHead} {ts : List PListHead}
    (ht : A tmp = some ts) :
    Fresh (Function.update A tmp (some (ts ++ [blocks 0])))
      (fun k => blocks (k + 1)) where
  new := by
    intro k hcell
    refine h.new (k + 1) ?_
    rcases hcell.of_update with hm | hcell
    · rcases List.mem_cons.mp hm with hm | hm
      · exact ⟨tmp, ts, ht, List.mem_cons.mpr (Or.inl hm)⟩
      · rcases List.mem_append.mp hm with hm | hm
        · exact ⟨tmp, ts, ht, List.mem_cons_of_mem _ hm⟩
        · exact absurd (h.distinct (List.mem_singleton.mp hm)) (Nat.succ_ne_zero k)
    · exact hcell
  distinct := fun j k e => Nat.succ_injective (h.distinct e)

theorem newNode_none {m : NodeMem} {p : CachePool}
    (h : newInnerNode m.pool = (none, p)) (a : PListHead) :
    newNode m a = (false, m.setPool p) := by
  rw [newNode, h]

theorem newNode_some {m : NodeMem} {p : CachePool} {node : InnerNode}
    (h : newInnerNode m.pool = (some node, p)) (a : PListHead) :
    newNode m a = (true, (m.setPool p).setNode a node) := by
  rw [newNode, h]

theorem map_update_of_notMem {f : PListHead → InnerNode} {p : PListHead}
    {xs : List PListHead} (h : p ∉ xs) (node : InnerNode) :
    xs.map (Function.update f p node) = xs.map f :=
  List.map_congr_left fun _ hq =>
    Function.update_of_ne (ne_of_mem_of_not_mem hq h) ..

/-- A store to the last node. -/
theorem map_update_last {f : PListHead → InnerNode} {p : PListHead}
    {front : List PListHead} (h : p ∉ front) (node : InnerNode) :
    (front ++ [p]).map (Function.update f p node) = front.map f ++ [node] := by
  rw [List.map_append, map_update_of_notMem h, List.map_singleton,
    Function.update_self]

/-- The entries of two lists. -/
theorem nodup_entries {m : ListHeads} {A : Heads PListHead} (hA : Holds m A)
    {head tmp : PListHead} {xs ts : List PListHead} (hh : A head = some xs)
    (ht : A tmp = some ts) (hne : head ≠ tmp) : (xs ++ ts).Nodup := by
  refine List.nodup_append'.mpr ⟨(List.nodup_cons.mp (hA.ring head xs hh).nodup).2,
    (List.nodup_cons.mp (hA.ring tmp ts ht).nodup).2, fun q hq hq' => ?_⟩
  exact hA.apart head xs tmp ts hh ht hne q (List.mem_cons_of_mem _ hq)
    (List.mem_cons_of_mem _ hq')

/-- `xs` and `ts` are the nodes of `cache_list` and of `tmp_list`. -/
structure TwoLists (A : Heads PListHead) (head tmp : PListHead)
    (xs ts : List PListHead) (m : NodeMem) : Prop where
  holds : Holds m.links A
  cacheList : A head = some xs
  tmpList : A tmp = some ts
  ne : head ≠ tmp

/-- Where the filling loop stands: `pos` is the last of these nodes. -/
structure AtNode (A : Heads PListHead) (head tmp : PListHead)
    (xs ts front : List PListHead) (pos : PListHead) (m : NodeMem) : Prop
    extends TwoLists A head tmp xs ts m where
  split : xs ++ ts = front ++ [pos]

/-- The nodes of the other lists stay. -/
def OthersStay (A : Heads PListHead) (head tmp : PListHead) (m m' : NodeMem) :
    Prop :=
  ∀ g ys, g ≠ head → g ≠ tmp → A g = some ys → ∀ q ∈ ys, m'.node q = m.node q

section AtNode

variable {A : Heads PListHead} {head tmp pos : PListHead}
  {xs ts front : List PListHead} {m : NodeMem}

theorem AtNode.entries (h : AtNode A head tmp xs ts front pos m) :
    (xs ++ ts).map m.node = front.map m.node ++ [m.node pos] := by
  rw [h.split, List.map_append]
  rfl

theorem AtNode.not_mem_front (h : AtNode A head tmp xs ts front pos m) :
    pos ∉ front := by
  have hnd := nodup_entries h.holds h.cacheList h.tmpList h.ne
  rw [h.split] at hnd
  exact fun hm => (List.nodup_append'.mp hnd).2.2 hm (List.mem_singleton_self pos)

/-- A store to the node at hand. -/
theorem AtNode.stored (h : AtNode A head tmp xs ts front pos m) (p : CachePool)
    (node : InnerNode) :
    AtNode A head tmp xs ts front pos ((m.setPool p).setNode pos node)
      ∧ front.map ((m.setPool p).setNode pos node).node = front.map m.node
      ∧ OthersStay A head tmp m ((m.setPool p).setNode pos node) := by
  refine ⟨⟨⟨h.holds, h.cacheList, h.tmpList, h.ne⟩, h.split⟩,
    map_update_of_notMem h.not_mem_front node, ?_⟩
  intro g ys hgh hgt hg q hq
  refine Function.update_of_ne ?_ ..
  rintro rfl
  have hm : q ∈ xs ++ ts := by
    rw [h.split]
    exact List.mem_append_right _ (List.mem_singleton_self q)
  rcases List.mem_append.mp hm with h1 | h2
  · exact h.holds.apart g ys head xs hg h.cacheList hgh q (List.mem_cons_of_mem _ hq)
      (List.mem_cons_of_mem _ h1)
  · exact h.holds.apart g ys tmp ts hg h.tmpList hgt q (List.mem_cons_of_mem _ hq)
      (List.mem_cons_of_mem _ h2)

/-- A new node behind the others. -/
theorem TwoLists.linked (h : TwoLists A head tmp xs ts m) {a : PListHead}
    (ha : ¬ Cell A a) (p : CachePool) (node : InnerNode) :
    AtNode (Function.update A tmp (some (ts ++ [a]))) head tmp xs (ts ++ [a])
        (xs ++ ts) a (linkNode ((m.setPool p).setNode a node) a tmp)
      ∧ (xs ++ ts).map (linkNode ((m.setPool p).setNode a node) a tmp).node
        = (xs ++ ts).map m.node
      ∧ OthersStay A head tmp m
        (linkNode ((m.setPool p).setNode a node) a tmp) := by
  have hout : a ∉ xs ++ ts := by
    intro hm
    rcases List.mem_append.mp hm with h1 | h2
    · exact ha ⟨head, xs, h.cacheList, List.mem_cons_of_mem _ h1⟩
    · exact ha ⟨tmp, ts, h.tmpList, List.mem_cons_of_mem _ h2⟩
  refine ⟨⟨⟨holds_listAddTail h.holds h.tmpList ha, ?_, Function.update_self ..,
    h.ne⟩, (List.append_assoc ..).symm⟩, map_update_of_notMem hout node, ?_⟩
  · rw [Function.update_of_ne h.ne, h.cacheList]
  · intro g ys _ _ hg q hq
    refine Function.update_of_ne ?_ ..
    rintro rfl
    exact ha ⟨g, ys, hg, List.mem_cons_of_mem _ hq⟩

end AtNode

/-- The end of the loop over the nodes is that of the loop over their list:
    `xs ++ ts` are then the nodes of `cache_list` and `tmp_list`. -/
structure FillsLike {σ : Type} (A : Heads PListHead) (head tmp : PListHead)
    (xs ts : List PListHead) (m : NodeMem) (e : FillEnd σ) (o : FillOut σ) :
    Prop where
  holds : Holds e.mem.links (Function.update A tmp (some ts))
  nodes : (xs ++ ts).map e.mem.node = o.nodes
  ret : e.ret = o.ret
  failed : e.failed = o.failed
  pool : e.mem.pool = o.pool
  others : OthersStay A head tmp m e.mem

theorem AtNode.fillsLike {σ : Type} {A : Heads PListHead}
    {head tmp pos : PListHead} {xs ts front : List PListHead} {m m' : NodeMem}
    (h : AtNode A head tmp xs ts front pos m') (ho : OthersStay A head tmp m m')
    (ret : Int) (failed : Bool) (s : σ) (got : List UInt8) :
    FillsLike A head tmp xs ts m ⟨ret, failed, m', s, got⟩
      ⟨ret, failed, front.map m'.node ++ [m'.node pos], m'.pool, s, got⟩ := by
  refine ⟨?_, h.entries, rfl, rfl, rfl, ho⟩
  rw [← h.tmpList, Function.update_eq_self]
  exact h.holds

/-- A round before the loop. -/
theorem FillsLike.behind {σ : Type} {A : Heads PListHead} {head tmp : PListHead}
    {xs ts ts' : List PListHead} {m m₁ m₂ : NodeMem} {e : FillEnd σ}
    {o : FillOut σ}
    (h : FillsLike (Function.update A tmp (some ts)) head tmp xs ts' m₂ e o)
    (h₁ : OthersStay A head tmp m m₁) (h₂ : OthersStay A head tmp m₁ m₂) :
    FillsLike A head tmp xs ts' m e o where
  holds := by
    have hh := h.holds
    rwa [Function.update_idem] at hh
  nodes := h.nodes
  ret := h.ret
  failed := h.failed
  pool := h.pool
  others := by
    intro g ys hgh hgt hg q hq
    rw [h.others g ys hgh hgt (by rw [Function.update_of_ne hgt, hg]) q hq,
      h₂ g ys hgh hgt hg q hq, h₁ g ys hgh hgt hg q hq]

/-- **THE FILLING LOOP** over the nodes is the loop over their list. -/
theorem fillNodes_eq {σ : Type} (next : Nat → σ → Option (List UInt8) × σ)
    (size : Nat) {head tmp : PListHead} {xs : List PListHead} :
    ∀ (fuel : Nat) (blocks : Nat → PListHead) (pos : PListHead) (m : NodeMem)
      (s : σ) (got : List UInt8) (A : Heads PListHead)
      (ts front : List PListHead), AtNode A head tmp xs ts front pos m →
      Fresh A blocks → ∃ ts', ts'.length ≤ ts.length + fuel
        ∧ FillsLike A head tmp xs ts' m
          (fillNodes next size tmp fuel blocks pos m s got)
          (fillLoop next size fuel (front.map m.node) (m.node pos) m.pool s
            got) := by
  intro fuel
  induction fuel with
  | zero =>
      intro blocks pos m s got A ts front h _
      exact ⟨ts, Nat.le_refl _, h.fillsLike (fun _ _ _ _ _ _ _ => rfl) ..⟩
  | succ fuel ih =>
      intro blocks pos m s got A ts front h hfresh
      have hle : ts.length ≤ ts.length + (fuel + 1) := Nat.le_add_right ..
      rw [fillNodes, fillLoop]
      by_cases hlt : got.length < size
      · rw [if_pos hlt, if_pos hlt]
        dsimp only
        cases next (minSizeT (size - got.length)
            (sizeT (cacheSize - (m.node pos).wOffset))) s with
        | mk o s' =>
            cases o with
            | none => exact ⟨ts, hle, h.fillsLike (fun _ _ _ _ _ _ _ => rfl) ..⟩
            | some bs =>
                dsimp only
                generalize hpool : writeCache m.pool _ _ bs = p
                generalize hfilled : InnerNode.mk _ _ _ = node
                -- the loop stops here, with whatever is left of the pool
                have hstop : ∀ p', FillsLike A head tmp xs ts m
                    ⟨cInt (got ++ bs).length, false,
                      (m.setPool p').setNode pos node, s', got ++ bs⟩
                    ⟨cInt (got ++ bs).length, false, front.map m.node ++ [node],
                      p', s', got ++ bs⟩ := by
                  intro p'
                  obtain ⟨hstored, hfront, hothers⟩ := h.stored p' node
                  have hlike := hstored.fillsLike hothers
                    (cInt (got ++ bs).length) false s' (got ++ bs)
                  rw [hfront, NodeMem.setNode] at hlike
                  dsimp only at hlike
                  rw [Function.update_self] at hlike
                  exact hlike
                split
                · exact ⟨ts, hle, hstop p⟩
                · cases hnew : newInnerNode p with
                  | mk o p' =>
                      cases o with
                      | none =>
                          rw [newNode_none (m := (m.setPool p).setNode pos node)
                            hnew]
                          exact ⟨ts, hle, hstop p'⟩
                      | some node' =>
                          rw [newNode_some (m := (m.setPool p).setNode pos node)
                            hnew]
                          obtain ⟨hstored, hfront, hothers⟩ := h.stored p node
                          obtain ⟨hlinked, hentries, hothers'⟩ := hstored.linked
                            (hfresh.new 0) p' node'
                          obtain ⟨ts', hlen, hlike⟩ := ih (fun k => blocks (k + 1))
                            (blocks 0) _ s' (got ++ bs) _ _ _ hlinked
                            (hfresh.tail h.tmpList)
                          rw [hentries, hstored.entries, hfront] at hlike
                          have hsame := hlike.behind hothers hothers'
                          simp only [linkNode, NodeMem.setNode, NodeMem.setPool,
                            NodeMem.setLinks, Function.update_self] at hsame
                          refine ⟨ts', ?_, hsame⟩
                          rw [List.length_append, List.length_singleton] at hlen
                          omega
      · rw [if_neg hlt, if_neg hlt]
        exact ⟨ts, hle, h.fillsLike (fun _ _ _ _ _ _ _ => rfl) ..⟩

/-! ## Behind the loop -/

/-- What a call on the list at `head` leaves: that list holds the nodes `b`, and
    the other lists keep theirs. -/
structure Called (A : Heads PListHead) (head : PListHead) (m m' : NodeMem)
    (b : Buffer) : Prop where
  list : ∃ xs, Holds m'.links (Function.update A head (some xs))
    ∧ xs.map m'.node = b
  others : ∀ g ys, g ≠ head → A g = some ys → ∀ q ∈ ys, m'.node q = m.node q

/-- **`while (!list_empty(list))`** recycles the nodes from the last one on. -/
theorem recycleList_eq {head : PListHead} : ∀ (ts : List PListHead) (fuel : Nat)
    (m : NodeMem) (A : Heads PListHead), Holds m.links A → A head = some ts →
    ts.length < fuel → ∃ m', recycleList head fuel m = some m'
      ∧ Holds m'.links (Function.update A head (some [])) ∧ m'.node = m.node
      ∧ m'.pool = recycleNodes m.pool (ts.map m.node) := by
  intro ts
  induction ts using List.reverseRecOn with
  | nil =>
      intro fuel m A hA hh hf
      obtain ⟨fuel, rfl⟩ := Nat.exists_eq_add_one_of_ne_zero (Nat.ne_of_gt hf)
      rw [recycleList, if_pos ((listEmpty_iff hA hh).mpr rfl)]
      refine ⟨m, rfl, ?_, rfl, rfl⟩
      rw [← hh, Function.update_eq_self]
      exact hA
  | append_singleton ts p ih =>
      intro fuel m A hA hh hf
      obtain ⟨fuel, rfl⟩ := Nat.exists_eq_add_one_of_ne_zero
        (Nat.ne_of_gt (Nat.zero_lt_of_lt hf))
      have hne : ¬ listEmpty m.links head = true := fun e =>
        List.append_ne_nil_of_right_ne_nil ts (List.cons_ne_nil p [])
          ((listEmpty_iff hA hh).mp e)
      rw [List.length_append, List.length_singleton] at hf
      rw [recycleList, if_neg hne, listLastEntry, (hA.ring head _ hh).prev_head]
      obtain ⟨m', hm', hrings, hnode, hpool⟩ := ih fuel
        ((m.setLinks (listDel m.links p)).setPool
          (recycleCache m.pool (m.node p).cache).2) _
        (holds_listDel hA hh).1 (by rw [Function.update_self, List.append_nil])
        (Nat.lt_of_succ_lt_succ hf)
      refine ⟨m', hm', ?_, hnode, ?_⟩
      · rwa [Function.update_idem] at hrings
      · rw [hpool, recycleNodes, recycleNodes, List.map_append, List.foldr_append]
        rfl

section Finish

variable {σ : Type} {A : Heads PListHead} {head tmp : PListHead}
  {xs ts : List PListHead} {m : NodeMem} {e : FillEnd σ} {o : FillOut σ}

/-- The lists when `tmp_list` has been given up. -/
theorem holds_dropTmp {links : ListHeads} {l : Option (List PListHead)}
    (hA : Holds links (Function.update A tmp l)) (htmp : A tmp = none) :
    Holds links A := by
  have h := hA.drop tmp
  rwa [Function.update_idem, ← htmp, Function.update_eq_self] at h

/-- `list_last_entry(list)->w_offset = w`. -/
theorem setLast_eq {links : ListHeads} (hA : Holds links A)
    (hh : A head = some xs) (f : PListHead → InnerNode) (w : Int) :
    xs.map (Function.update f (links.prev head)
        { f (links.prev head) with wOffset := w }) = setLastWOffset (xs.map f) w
      ∧ ∀ g ys, g ≠ head → A g = some ys → ∀ q ∈ ys,
        Function.update f (links.prev head)
          { f (links.prev head) with wOffset := w } q = f q := by
  have hring := hA.ring head xs hh
  have hmem : links.prev head ∈ head :: xs := hring.prev_mem (List.mem_cons_self ..)
  refine ⟨?_, fun g ys hgh hg q hq => Function.update_of_ne ?_ ..⟩
  · rcases List.eq_nil_or_concat xs with rfl | ⟨front, last, rfl⟩
    · rfl
    · rw [List.concat_eq_append] at hring ⊢
      have hnd := (List.nodup_cons.mp hring.nodup).2
      have hlast : last ∉ front := fun h =>
        (List.nodup_append'.mp hnd).2.2 h (List.mem_singleton_self last)
      rw [hring.prev_head, map_update_last hlast, List.map_append,
        List.map_singleton, setLastWOffset, List.getLast?_concat]
      dsimp only
      rw [List.dropLast_concat]
  · rintro rfl
    exact hA.apart g ys head xs hg hh hgh _ (List.mem_cons_of_mem _ hq) hmem

/-- **BEHIND THE LOOP** over the nodes, as behind the loop over their list. -/
theorem finishNodes_eq {w fuel : Nat} (hh : A head = some xs)
    (htmp : A tmp = none)
    (h : FillsLike (Function.update A tmp (some [])) head tmp xs ts m e o)
    (hf : ts.length < fuel) :
    ∃ r, finishNodes head tmp w fuel e = some r ∧ r.bytes = []
      ∧ r.ret = (finishFill (xs.map m.node) w o).ret
      ∧ r.mem.pool = (finishFill (xs.map m.node) w o).pool
      ∧ Called A head m r.mem (finishFill (xs.map m.node) w o).buffer := by
  have hne : tmp ≠ head := by
    rintro rfl
    rw [htmp] at hh
    cases hh
  have hA := h.holds
  rw [Function.update_idem] at hA
  have hh' : Function.update A tmp (some ts) head = some xs := by
    rw [Function.update_of_ne hne.symm, hh]
  have hothers : ∀ g ys, g ≠ head → A g = some ys → ∀ q ∈ ys,
      e.mem.node q = m.node q := by
    intro g ys hgh hg q hq
    have hgt : g ≠ tmp := fun e => (by rw [e, htmp] at hg; cases hg)
    exact h.others g ys hgh hgt (by rw [Function.update_of_ne hgt, hg]) q hq
  have hcache : o.nodes.take (xs.map m.node).length = xs.map e.mem.node := by
    rw [← h.nodes, List.map_append, List.length_map]
    exact List.take_left' (List.length_map _)
  have htmpList : o.nodes.drop (xs.map m.node).length = ts.map e.mem.node := by
    rw [← h.nodes, List.map_append, List.length_map]
    exact List.drop_left' (List.length_map _)
  rw [finishNodes, finishFill, hcache, htmpList, h.failed, h.ret]
  dsimp only
  by_cases hfailed : o.failed = true
  · rw [if_pos hfailed, if_pos hfailed, if_pos (Nat.zero_le w),
      if_pos (Nat.zero_le w)]
    obtain ⟨hlast, hstay⟩ := setLast_eq hA hh' e.mem.node (cInt w)
    obtain ⟨m', hm', hrings, hnode, hpool⟩ := recycleList_eq ts fuel
      (e.mem.setNode (e.mem.links.prev head) { e.mem.node (e.mem.links.prev head)
        with wOffset := cInt w }) _ hA (Function.update_self ..) hf
    rw [listLastEntry, hm']
    refine ⟨_, rfl, rfl, rfl, ?_, ⟨xs, ?_, ?_⟩, ?_⟩
    · rw [hpool, ← h.pool]
      congr 1
      exact List.map_congr_left (hstay tmp ts hne (Function.update_self ..))
    · rw [← hh, Function.update_eq_self]
      rw [Function.update_idem] at hrings
      exact holds_dropTmp hrings htmp
    · rw [hnode]
      exact hlast
    · intro g ys hgh hg q hq
      have hgt : g ≠ tmp := fun e => (by rw [e, htmp] at hg; cases hg)
      rw [hnode, ← hothers g ys hgh hg q hq]
      exact hstay g ys hgh (by rw [Function.update_of_ne hgt, hg]) q hq
  · rw [if_neg hfailed, if_neg hfailed]
    have hempty := listEmpty_iff hA (Function.update_self tmp (some ts) A)
    by_cases hgo : o.ret > 0 ∧ ts.map e.mem.node ≠ []
    · have hts : ts ≠ [] := fun e => hgo.2 (by rw [e, List.map_nil])
      have hnot := mt hempty.mp hts
      rw [if_pos hgo, if_pos ⟨hgo.1, Bool.eq_false_iff.mpr hnot⟩]
      obtain ⟨u, place, hplace⟩ := exists_concat head xs
      have hspliced := (holds_listSpliceBetween hA (Function.update_self ..) hts
        (t := []) (by rw [hh', List.append_nil]) hne hplace).1
      rw [Function.update_idem, ← htmp, Function.update_eq_self,
        List.append_nil] at hspliced
      refine ⟨_, rfl, rfl, rfl, h.pool, ⟨xs ++ ts, ?_, List.map_append⟩, hothers⟩
      rw [(hA.ring head xs hh').prev_last hplace]
      show Holds (listSplice e.mem.links tmp place) _
      rw [listSplice, if_neg hnot]
      exact hspliced
    · have hstop : ¬ (o.ret > 0 ∧ listEmpty e.mem.links tmp = false) := by
        rintro ⟨hpos, hfalse⟩
        refine hgo ⟨hpos, fun hnil => ?_⟩
        rw [hempty.mpr (List.map_eq_nil_iff.mp hnil)] at hfalse
        cases hfalse
      rw [if_neg hgo, if_neg hstop]
      refine ⟨_, rfl, rfl, rfl, h.pool, ⟨xs, ?_, rfl⟩, hothers⟩
      rw [← hh, Function.update_eq_self]
      exact holds_dropTmp hA htmp

end Finish

/-- **`read_into_buffer`, `write_into_buffer`** over the nodes. -/
theorem appendNodes_eq {σ : Type} (next : Nat → σ → Option (List UInt8) × σ)
    (size : Nat) {A : Heads PListHead} {head tmp : PListHead}
    {blocks : Nat → PListHead} {m : NodeMem} {xs : List PListHead} (s : σ)
    (hA : Holds m.links A) (hh : A head = some xs) (htmp : ¬ Cell A tmp)
    (hfresh : Fresh A blocks) (hblocks : ∀ k, blocks k ≠ tmp) :
    ∃ r, appendNodes next size head tmp blocks m s = some r
      ∧ r.bytes = []
      ∧ r.ret = (fillBuffer next size m.pool (xs.map m.node) s).ret
      ∧ r.mem.pool = (fillBuffer next size m.pool (xs.map m.node) s).pool
      ∧ Called A head m r.mem
        (fillBuffer next size m.pool (xs.map m.node) s).buffer := by
  have hnone : A tmp = none := Option.eq_none_iff_forall_ne_some.mpr
    fun ts h => htmp ⟨tmp, ts, h, List.mem_cons_self ..⟩
  have hne : head ≠ tmp := fun e => htmp ⟨head, xs, hh, e ▸ List.mem_cons_self ..⟩
  have hstart : TwoLists (Function.update A tmp (some [])) head tmp xs []
      (m.setLinks (initListHead m.links tmp)) :=
    ⟨holds_initListHead hA htmp, by rw [Function.update_of_ne hne, hh],
      Function.update_self .., hne⟩
  have hfresh' : Fresh (Function.update A tmp (some [])) blocks := by
    refine ⟨fun k hcell => ?_, hfresh.distinct⟩
    rcases hcell.of_update with hm | hcell
    · exact hblocks k (List.mem_singleton.mp hm)
    · exact hfresh.new k hcell
  have hempty := listEmpty_iff hstart.holds hstart.cacheList
  generalize hm₁ : m.setLinks (initListHead m.links tmp) = m₁ at hstart hempty
  have hnode : m₁.node = m.node := hm₁ ▸ rfl
  have hpool : m₁.pool = m.pool := hm₁ ▸ rfl
  have hothers : OthersStay (Function.update A tmp (some [])) head tmp m m₁ :=
    fun _ _ _ _ _ _ _ => by rw [hnode]
  have hring := hstart.holds.ring head xs hstart.cacheList
  rw [appendNodes, hm₁, listLastEntry]
  rcases fillBuffer_cases next size m.pool (xs.map m.node) s with
    ⟨hfull, hcall⟩ | ⟨front, last, hsplit, hroom, hcall⟩
  · -- the buffer is empty, or its last node full
    have hfirst : listEmpty m₁.links head = true
        ∨ (m₁.node (m₁.links.prev head)).wOffset = cacheSize := by
      rcases List.eq_nil_or_concat xs with rfl | ⟨ys, q, rfl⟩
      · exact Or.inl (hempty.mpr rfl)
      · rw [List.concat_eq_append] at hring hfull
        rw [hring.prev_head, hnode]
        refine Or.inr (hfull _ ?_)
        rw [List.map_append, List.map_singleton, List.getLast?_concat]
        rfl
    rw [if_pos hfirst, hcall, fillNewNode, ← hpool]
    cases hnew : newInnerNode m₁.pool with
    | mk o p =>
        cases o with
        | none =>
            rw [newNode_none hnew]
            refine ⟨_, rfl, rfl, rfl, rfl, ⟨xs, ?_, by rw [← hnode]; rfl⟩, ?_⟩
            · rw [← hh, Function.update_eq_self]
              exact holds_dropTmp hstart.holds hnone
            · exact fun _ _ _ _ _ _ => by rw [← hnode]; rfl
        | some node =>
            rw [newNode_some hnew]
            obtain ⟨hlinked, hentries, hothers'⟩ :=
              hstart.linked (hfresh'.new 0) p node
            obtain ⟨ts, hlen, hlike⟩ := fillNodes_eq next size (size + 1)
              (fun k => blocks (k + 1)) (blocks 0) _ s [] _ _ _ hlinked
              (hfresh'.tail hstart.tmpList)
            have hsame := hlike.behind hothers hothers'
            rw [hentries, hnode, List.append_nil] at hsame
            simp only [linkNode, NodeMem.setNode, NodeMem.setPool,
              NodeMem.setLinks, Function.update_self] at hsame
            refine finishNodes_eq hh hnone hsame ?_
            rw [List.nil_append, List.length_singleton] at hlen
            omega
  · -- the last node of the buffer has room
    rcases List.eq_nil_or_concat xs with rfl | ⟨ys, q, rfl⟩
    · exact absurd hsplit.symm (List.append_ne_nil_of_right_ne_nil front
        (List.cons_ne_nil last []))
    · rw [List.concat_eq_append] at hring hempty hstart hsplit hh hcall ⊢
      rw [List.map_append, List.map_singleton] at hsplit
      obtain ⟨hys, hq⟩ := List.append_inj' hsplit rfl
      obtain rfl := hys
      obtain rfl := (List.cons.inj hq).1
      have hnot : ¬ (listEmpty m₁.links head = true
          ∨ (m₁.node (m₁.links.prev head)).wOffset = cacheSize) := by
        rw [hring.prev_head, hnode]
        rintro (h | h)
        · exact List.append_ne_nil_of_right_ne_nil ys (List.cons_ne_nil q [])
            (hempty.mp h)
        · exact hroom h
      have hat : AtNode (Function.update A tmp (some [])) head tmp (ys ++ [q]) []
          ys q m₁ := ⟨hstart, List.append_nil _⟩
      obtain ⟨ts, hlen, hlike⟩ := fillNodes_eq next size (size + 1) blocks q m₁ s
        [] _ _ _ hat hfresh'
      rw [if_neg hnot, hcall, hring.prev_head, hnode, ← hpool]
      rw [hnode] at hlike
      refine finishNodes_eq hh hnone ⟨hlike.holds, hlike.nodes, hlike.ret,
        hlike.failed, hlike.pool, ?_⟩ ?_
      · intro g ys' hgh hgt hg p hp
        rw [hlike.others g ys' hgh hgt hg p hp, hnode]
      · rw [List.length_nil] at hlen
        omega

/-! ## Taking from nodes -/

section Take

variable {A : Heads PListHead} {head pos : PListHead} {xs : List PListHead}
  {m : NodeMem}

theorem Called.refl (hA : Holds m.links A) (hh : A head = some xs) :
    Called A head m m (xs.map m.node) := by
  refine ⟨⟨xs, ?_, rfl⟩, fun _ _ _ _ _ _ => rfl⟩
  rw [← hh, Function.update_eq_self]
  exact hA

/-- A round before the loop. -/
theorem Called.behind {m₁ m₂ : NodeMem} {b : Buffer}
    (h : Called (Function.update A head (some xs)) head m₁ m₂ b)
    (h₁ : ∀ g ys, g ≠ head → A g = some ys → ∀ q ∈ ys, m₁.node q = m.node q) :
    Called A head m m₂ b := by
  obtain ⟨⟨ys, hys, hb⟩, hothers⟩ := h
  rw [Function.update_idem] at hys
  refine ⟨⟨ys, hys, hb⟩, fun g zs hgh hg q hq => ?_⟩
  rw [hothers g zs hgh (by rw [Function.update_of_ne hgh, hg]) q hq,
    h₁ g zs hgh hg q hq]

/-- The first node gets new offsets, and is unlinked when it is used up. -/
structure FirstChanged (A : Heads PListHead) (head : PListHead) (m m' : NodeMem)
    (node : InnerNode) (rest : Buffer) (xs : List PListHead) : Prop where
  holds : Holds m'.links (Function.update A head (some xs))
  others : ∀ g ys, g ≠ head → A g = some ys → ∀ q ∈ ys, m'.node q = m.node q
  usedUp : node.rOffset = node.wOffset → xs.map m'.node = rest
    ∧ m'.pool = (recycleCache m.pool node.cache).2
  stays : node.rOffset ≠ node.wOffset → xs.map m'.node = node :: rest
    ∧ m'.pool = m.pool

theorem dropIfUsedUp_eq (hA : Holds m.links A) (hh : A head = some (pos :: xs))
    (node : InnerNode) : ∃ xs', FirstChanged A head m
      (dropIfUsedUp (m.setNode pos node) pos) node (xs.map m.node) xs' := by
  have hnd := List.nodup_cons.mp (List.nodup_cons.mp (hA.ring head _ hh).nodup).2
  have hself : (m.setNode pos node).node pos = node := Function.update_self ..
  have hmap := map_update_of_notMem (f := m.node) hnd.1 node
  have hothers : ∀ g ys, g ≠ head → A g = some ys → ∀ q ∈ ys,
      (m.setNode pos node).node q = m.node q := by
    intro g ys hgh hg q hq
    refine Function.update_of_ne ?_ ..
    rintro rfl
    exact hA.apart g ys head _ hg hh hgh q (List.mem_cons_of_mem _ hq)
      (List.mem_cons_of_mem _ (List.mem_cons_self ..))
  rw [dropIfUsedUp, hself]
  by_cases hused : node.rOffset = node.wOffset
  · rw [if_pos hused]
    exact ⟨xs, (holds_listDel (s := []) hA hh).1, hothers,
      fun _ => ⟨hmap, rfl⟩, fun h => absurd hused h⟩
  · rw [if_neg hused]
    refine ⟨pos :: xs, ?_, hothers, fun h => absurd h hused, fun _ => ⟨?_, rfl⟩⟩
    · rw [← hh, Function.update_eq_self]
      exact hA
    · rw [List.map_cons, hself]
      exact congrArg (node :: ·) hmap

/-- The result of a call over the nodes is that of the call over their list. -/
structure TakesLike (A : Heads PListHead) (head : PListHead) (m : NodeMem)
    (r : NodeResult) (o : TakeOut) : Prop where
  ret : r.ret = o.ret
  bytes : r.bytes = o.bytes
  pool : r.mem.pool = o.pool
  called : Called A head m r.mem o.buffer

theorem takesLike_stop (hA : Holds m.links A) (hh : A head = some xs)
    (already : Nat) (bytes : List UInt8) :
    TakesLike A head m ⟨already, bytes, m⟩
      ⟨already, bytes, xs.map m.node, m.pool⟩ :=
  ⟨rfl, rfl, rfl, .refl hA hh⟩

/-- A round before the loop, over the nodes and over their list. -/
theorem FirstChanged.round {m' : NodeMem} {node : InnerNode} {rest : Buffer}
    {r : NodeResult} (h : FirstChanged A head m m' node rest xs)
    (loop : Buffer → CachePool → TakeOut)
    (hloop : TakesLike (Function.update A head (some xs)) head m' r
      (loop (xs.map m'.node) m'.pool)) :
    TakesLike A head m r (if node.rOffset = node.wOffset then
        loop rest (recycleCache m.pool node.cache).2
      else loop (node :: rest) m.pool) := by
  have hbehind := hloop.called.behind h.others
  by_cases hused : node.rOffset = node.wOffset
  · obtain ⟨hnodes, hpool⟩ := h.usedUp hused
    rw [if_pos hused, ← hnodes, ← hpool]
    exact ⟨hloop.ret, hloop.bytes, hloop.pool, hbehind⟩
  · obtain ⟨hnodes, hpool⟩ := h.stays hused
    rw [if_neg hused, ← hnodes, ← hpool]
    exact ⟨hloop.ret, hloop.bytes, hloop.pool, hbehind⟩

/-- **THE LOOP OF `write_from_buffer`** over the nodes. -/
theorem sendNodes_eq (size : Nat) : ∀ (fuel already : Nat) (m : NodeMem)
    (ws : List WriteOutcome) (sent : List UInt8) (calls : List WriteCall)
    (A : Heads PListHead) (xs : List PListHead), Holds m.links A →
    A head = some xs → TakesLike A head m
      (sendNodes size head fuel already m ws sent)
      (writeFromLoop size fuel already (xs.map m.node) m.pool ws sent
        calls).toTakeOut := by
  have hnever : ∀ k : Int, ¬ sizeT k < 0 := fun _ => Nat.not_lt_zero _
  intro fuel
  induction fuel with
  | zero => exact fun _ _ _ _ _ _ _ hA hh => takesLike_stop hA hh ..
  | succ fuel ih =>
      intro already m ws sent calls A xs hA hh
      rw [sendNodes, writeFromLoop.eq_def, (shows_of_holds hA hh).first]
      dsimp only
      by_cases hlt : already < size
      · rw [if_pos hlt, if_pos hlt]
        cases xs with
        | nil => exact takesLike_stop hA hh ..
        | cons pos xs =>
            rw [List.head?_cons, List.map_cons]
            dsimp only
            cases fdWrite (minSizeT (sizeT (nodeSize (m.node pos)))
                (size - already)) ws with
            | mk k ws =>
                dsimp only
                rw [if_neg (hnever k), if_neg (hnever k),
                  apply_ite WriteOut.toTakeOut]
                obtain ⟨xs', h⟩ := dropIfUsedUp_eq hA hh { m.node pos with
                  rOffset := cInt
                    ((sizeT (m.node pos).rOffset : Int) + sizeT k) }
                exact h.round (fun b p => (writeFromLoop size fuel _ b p ws _
                  _).toTakeOut) (ih _ _ ws _ _ _ xs' h.holds
                  (Function.update_self ..))
      · rw [if_neg hlt, if_neg hlt]
        exact takesLike_stop hA hh ..

/-- **THE LOOP OF `read_from_buffer`** over the nodes. -/
theorem takeNodes_eq (expected : Nat) : ∀ (fuel already : Nat) (m : NodeMem)
    (target : List UInt8) (A : Heads PListHead) (xs : List PListHead),
    Holds m.links A → A head = some xs → TakesLike A head m
      (takeNodes expected head fuel already m target)
      (readFromLoop expected fuel already (xs.map m.node) m.pool target) := by
  intro fuel
  induction fuel with
  | zero => exact fun _ _ _ _ _ hA hh => takesLike_stop hA hh ..
  | succ fuel ih =>
      intro already m target A xs hA hh
      rw [takeNodes, readFromLoop.eq_def, (shows_of_holds hA hh).first]
      dsimp only
      by_cases hlt : already < expected
      · rw [if_pos hlt, if_pos hlt]
        cases xs with
        | nil => exact takesLike_stop hA hh ..
        | cons pos xs =>
            rw [List.head?_cons, List.map_cons]
            dsimp only
            generalize cInt (minSizeT (sizeT (nodeSize (m.node pos)))
              (expected - already)) = k
            obtain ⟨xs', h⟩ := dropIfUsedUp_eq hA hh { m.node pos with
              rOffset := (m.node pos).rOffset + k }
            exact h.round (fun b p => readFromLoop expected fuel _ b p _)
              (ih _ _ _ _ xs' h.holds (Function.update_self ..))
      · rw [if_neg hlt, if_neg hlt]
        exact takesLike_stop hA hh ..

end Take

/-! ## Going through nodes -/

section Visit

variable {A : Heads PListHead} {head : PListHead} {xs : List PListHead}
  {m : NodeMem}

/-- A loop over a buffer that changes no link. -/
theorem listForEach_nodes {τ : Type} (hA : Holds m.links A)
    (hh : A head = some xs) (body : PListHead → τ → τ × Bool) (t : τ)
    {fuel : Nat} (hf : xs.length < fuel) :
    listForEach (fun _ => m.links) head body fuel t = some (visit body xs t) :=
  listForEach_eq (fun _ => m.links) t hA hh (fun _ _ _ _ _ => rfl) hf

theorem visit_expectedBody (m : NodeMem) (size : Nat) :
    ∀ (xs : List PListHead) (acc : Nat), visit (expectedBody m size) xs acc
      = expectedReadSize size acc (xs.map m.node) := by
  intro xs
  induction xs with
  | nil => intro acc; rfl
  | cons x xs ih =>
      intro acc
      rw [visit, expectedBody, List.map_cons, expectedReadSize]
      by_cases hge : sizeT ((acc : Int) + nodeSize (m.node x)) ≥ size
      · rw [if_pos hge, if_pos hge, if_pos rfl]
      · rw [if_neg hge, if_neg hge, if_neg Bool.false_ne_true]
        exact ih _

theorem visit_findBody (m : NodeMem) (after : Addr → List UInt8)
    (index : List UInt8 → Int → Nat) (startPos : Nat) :
    ∀ (xs : List PListHead) (t : Nat × Nat),
      visit (findBody m after index startPos) xs t
        = findLoop m.pool after index startPos t.1 t.2 (xs.map m.node) := by
  intro xs
  induction xs with
  | nil => intro t; rfl
  | cons x xs ih =>
      intro t
      rw [visit, findBody, List.map_cons, findLoop]
      dsimp only
      split
      · rw [if_pos (Nat.zero_le _), if_pos (Nat.zero_le _), if_pos rfl]
      · split
        · rw [if_pos (Nat.zero_le _), if_pos (Nat.zero_le _), if_pos rfl]
        · rw [if_neg Bool.false_ne_true]
          exact ih _

theorem visit_size (m : NodeMem) : ∀ (xs : List PListHead) (size : Nat),
    visit (fun ptr size => (sizeT ((size : Int) + nodeSize (m.node ptr)), false))
        xs size
      = (xs.map m.node).foldl
        (fun size node => sizeT ((size : Int) + nodeSize node)) size := by
  intro xs
  induction xs with
  | nil => intro size; rfl
  | cons x xs ih =>
      intro size
      rw [visit, if_neg Bool.false_ne_true]
      exact ih _

/-- **`buffer_size`**, **`find_in_buffer`**, **`read_from_buffer`** and
    **`write_from_buffer`** over the nodes. -/
theorem sizeOfNodes_eq (hA : Holds m.links A) (hh : A head = some xs) {fuel : Nat}
    (hf : xs.length < fuel) :
    sizeOfNodes m head fuel = some (bufferSize (xs.map m.node)) := by
  rw [sizeOfNodes]
  by_cases hempty : listEmpty m.links head = true
  · rw [if_pos hempty, (listEmpty_iff hA hh).mp hempty]
    rfl
  · rw [if_neg hempty, listForEach_nodes hA hh _ _ hf, visit_size]
    rfl

theorem findNodes_eq (hA : Holds m.links A) (hh : A head = some xs) {fuel : Nat}
    (hf : xs.length < fuel) (after : Addr → List UInt8) (startPos : Nat)
    (index : Option (UInt8 → List UInt8 → Int → Nat)) (arg : UInt8) :
    findNodes m after head fuel startPos index arg
      = some (findInBuffer m.pool after (xs.map m.node) startPos index arg) := by
  rw [findNodes, listForEach_nodes hA hh _ _ hf, visit_findBody]
  rfl

theorem readNodes_eq (hA : Holds m.links A) (hh : A head = some xs)
    (size : Nat) : ∃ r, readNodes head (xs.length + 1) size m = some r
      ∧ TakesLike A head m r (readFromBuffer m.pool (xs.map m.node) size) := by
  have hexpected : (if listEmpty m.links head then some 0
      else listForEach (fun _ => m.links) head (expectedBody m size)
        (xs.length + 1) 0) = some (expectedReadSize size 0 (xs.map m.node)) := by
    by_cases hempty : listEmpty m.links head = true
    · rw [if_pos hempty, (listEmpty_iff hA hh).mp hempty]
      rfl
    · rw [if_neg hempty, listForEach_nodes hA hh _ _ (Nat.lt_succ_self _),
        visit_expectedBody]
  rw [readNodes, hexpected, readFromBuffer, List.length_map]
  exact ⟨_, rfl, takeNodes_eq _ _ _ m _ A xs hA hh⟩

theorem writeNodes_eq (hA : Holds m.links A) (hh : A head = some xs)
    (size : Nat) (writes : List WriteOutcome) :
    TakesLike A head m
      (writeNodes head (size + 2 * writes.length + xs.length + 1) size m writes)
      (writeFromBuffer m.pool (xs.map m.node) size writes).toTakeOut := by
  rw [writeNodes, writeFromBuffer, List.length_map]
  by_cases hempty : listEmpty m.links head = true
  · obtain rfl := (listEmpty_iff hA hh).mp hempty
    have hnone : ∀ fuel, (writeFromLoop size fuel 0 [] m.pool writes [] []).toTakeOut
        = ⟨0, [], [], m.pool⟩ := by
      intro fuel
      cases fuel with
      | zero => rfl
      | succ fuel =>
          rw [writeFromLoop.eq_def]
          dsimp only
          split <;> rfl
    rw [if_pos hempty, List.map_nil, hnone]
    exact takesLike_stop hA hh ..
  · rw [if_neg hempty]
    exact sendNodes_eq size _ _ m writes [] [] A xs hA hh

end Visit

/-! ## Runs -/

/-- The memory holds the buffers of the heap, each named by its head. -/
structure Represents (m : NodeMem) (A : Heads PListHead)
    (h : BufferHeap PListHead) : Prop where
  holds : Holds m.links A
  nodes : ∀ head xs, A head = some xs → xs.map m.node = h.buf head
  pool : m.pool = h.pool

/-- The memory and the buffers after the same calls.  `A` has the nodes of each
    live buffer, and a call gets blocks that are in none of them; `other` is all
    other code, which leaves the nodes alone. -/
inductive NodeRun :
    NodeMem → Heads PListHead → BufferHeap PListHead → Prop where
  | start (m : NodeMem) : NodeRun m (fun _ => none) ⟨m.pool, fun _ => []⟩
  | other {m m' : NodeMem} {A : Heads PListHead} {h : BufferHeap PListHead} :
      NodeRun m A h →
      (∀ p, Cell A p → m'.links.next p = m.links.next p
        ∧ m'.links.prev p = m.links.prev p ∧ m'.node p = m.node p) →
      NodeRun m' A { h with pool := m'.pool }
  | create {m : NodeMem} {A : Heads PListHead} {h : BufferHeap PListHead}
      {head : PListHead} : NodeRun m A h → ¬ Cell A head →
      NodeRun (createNodes m head) (Function.update A head (some []))
        (h.put head h.pool [])
  | call {m : NodeMem} {A : Heads PListHead} {h : BufferHeap PListHead}
      {head tmp : PListHead} {blocks : Nat → PListHead} {xs xs' : List PListHead}
      {c : BufferCall} {r : NodeResult} : NodeRun m A h → A head = some xs →
      ¬ Cell A tmp → Fresh A blocks → (∀ k, blocks k ≠ tmp) →
      callNodes m head tmp blocks xs.length c = some r →
      Ring r.mem.links head xs' →
      NodeRun r.mem (Function.update A head (some xs')) (callBuffer h head c).heap
  | destroy {m m' : NodeMem} {A : Heads PListHead} {h : BufferHeap PListHead}
      {head : PListHead} {xs : List PListHead} : NodeRun m A h →
      A head = some xs → destroyNodes m head (xs.length + 1) = some m' →
      NodeRun m' (Function.update A head none)
        (h.put head (destroyBuffer h.pool (h.buf head)) [])

section Runs

variable {m : NodeMem} {A : Heads PListHead} {h : BufferHeap PListHead}
  {head : PListHead} {xs : List PListHead}

/-- A call on one buffer. -/
theorem Represents.called (hr : Represents m A h) {m' : NodeMem} {b : Buffer}
    {xs' : List PListHead} (hcalled : Called A head m m' b)
    (hring : Ring m'.links head xs') :
    Represents m' (Function.update A head (some xs')) (h.put head m'.pool b) := by
  obtain ⟨⟨ys, hys, hb⟩, hothers⟩ := hcalled
  obtain rfl := hring.unique (hys.ring head ys (Function.update_self ..))
  refine ⟨hys, fun g zs hg => ?_, rfl⟩
  by_cases hgh : g = head
  · subst hgh
    rw [Function.update_self] at hg
    rw [← Option.some.inj hg, hb, buf_put]
  · rw [Function.update_of_ne hgh] at hg
    show zs.map m'.node = Function.update h.buf head b g
    rw [Function.update_of_ne hgh, ← hr.nodes g zs hg]
    exact List.map_congr_left (hothers g zs hgh hg)

/-- A call leaves the pool and its own buffer changed. -/
theorem callBuffer_put (h : BufferHeap PListHead) (head : PListHead)
    (c : BufferCall) : (callBuffer h head c).heap
      = h.put head (callBuffer h head c).heap.pool
        ((callBuffer h head c).heap.buf head) := by
  cases c with
  | writeIntoBuffer | readIntoBuffer | readFromBuffer | writeFromBuffer =>
      simp only [callBuffer, buf_put]
      rfl

/-- **ONE CALL** over the nodes has the result of the call on the list. -/
theorem callNodes_eq (hr : Represents m A h) (hh : A head = some xs)
    {tmp : PListHead} {blocks : Nat → PListHead} (htmp : ¬ Cell A tmp)
    (hfresh : Fresh A blocks) (hblocks : ∀ k, blocks k ≠ tmp) (c : BufferCall) :
    ∃ r, callNodes m head tmp blocks xs.length c = some r
      ∧ r.ret = (callBuffer h head c).ret ∧ r.bytes = (callBuffer h head c).bytes
      ∧ r.mem.pool = (callBuffer h head c).heap.pool
      ∧ Called A head m r.mem ((callBuffer h head c).heap.buf head) := by
  cases c with
  | writeIntoBuffer src =>
      obtain ⟨r, hrun, hbytes, hret, hpool, hcalled⟩ := appendNodes_eq srcCopy
        src.length src hr.holds hh htmp hfresh hblocks
      rw [hr.nodes head xs hh, hr.pool] at hret hpool hcalled
      refine ⟨r, hrun, hret, hbytes, hpool, ?_⟩
      rw [callBuffer, buf_put]
      exact hcalled
  | readIntoBuffer size reads =>
      obtain ⟨r, hrun, hbytes, hret, hpool, hcalled⟩ := appendNodes_eq fdRead
        size reads hr.holds hh htmp hfresh hblocks
      rw [hr.nodes head xs hh, hr.pool] at hret hpool hcalled
      refine ⟨r, hrun, hret, hbytes, hpool, ?_⟩
      rw [callBuffer, buf_put]
      exact hcalled
  | readFromBuffer size =>
      obtain ⟨r, hrun, htakes⟩ := readNodes_eq hr.holds hh size
      rw [hr.nodes head xs hh, hr.pool] at htakes
      refine ⟨r, hrun, htakes.ret, htakes.bytes, htakes.pool, ?_⟩
      rw [callBuffer, buf_put]
      exact htakes.called
  | writeFromBuffer size writes =>
      have htakes := writeNodes_eq hr.holds hh size writes
      rw [hr.nodes head xs hh, hr.pool] at htakes
      refine ⟨_, rfl, htakes.ret, htakes.bytes, htakes.pool, ?_⟩
      rw [callBuffer, buf_put]
      exact htakes.called

theorem represents_run (hrun : NodeRun m A h) : Represents m A h := by
  induction hrun with
  | start m =>
      exact ⟨holds_inUse (.start m.links), fun _ _ h => (by cases h), rfl⟩
  | @other m m' A h _ hsame ih =>
      refine ⟨⟨fun g ys hg => (ih.holds.ring g ys hg).congr fun p hp =>
        ⟨(hsame p ⟨g, ys, hg, hp⟩).1, (hsame p ⟨g, ys, hg, hp⟩).2.1⟩,
        ih.holds.apart⟩, fun g ys hg => ?_, rfl⟩
      rw [← ih.nodes g ys hg]
      exact List.map_congr_left
        fun p hp => (hsame p ⟨g, ys, hg, List.mem_cons_of_mem _ hp⟩).2.2
  | @create m A h head _ hnew ih =>
      have hcalled : Called A head m (createNodes m head) [] :=
        ⟨⟨[], holds_initListHead ih.holds hnew, rfl⟩, fun _ _ _ _ _ _ => rfl⟩
      have hrep := ih.called hcalled
        ((holds_initListHead ih.holds hnew).ring head [] (Function.update_self ..))
      exact ih.pool ▸ hrep
  | @call m A h head tmp blocks xs xs' c r _ hh htmp hfresh hblocks hcall hring
    ih =>
      obtain ⟨r', hrun, -, -, hpool, hcalled⟩ :=
        callNodes_eq ih hh htmp hfresh hblocks c
      rw [hcall] at hrun
      obtain rfl := Option.some.inj hrun
      have hrep := ih.called hcalled hring
      rwa [hpool, ← callBuffer_put] at hrep
  | @destroy m m' A h head xs _ hh hdestroy ih =>
      obtain ⟨m₁, hm₁, hrings, hnode, hpool⟩ := recycleList_eq xs _ m A ih.holds hh
        (Nat.lt_succ_self _)
      rw [destroyNodes, hm₁] at hdestroy
      obtain rfl := Option.some.inj hdestroy
      have hdrop := hrings.drop head
      rw [Function.update_idem] at hdrop
      refine ⟨hdrop, fun g ys hg => ?_, ?_⟩
      · have hgh : g ≠ head := by
          rintro rfl
          rw [Function.update_self] at hg
          cases hg
        rw [Function.update_of_ne hgh] at hg
        show ys.map m₁.node = Function.update h.buf head [] g
        rw [Function.update_of_ne hgh, hnode, ih.nodes g ys hg]
      · rw [hpool, ih.nodes head xs hh, ih.pool]
        rfl

/-- The nodes of a buffer read the same in both directions, they are those of the
    list and in no other buffer, and all calls on it end and have the results of
    the calls on the list. -/
structure RunsLike (m : NodeMem) (A : Heads PListHead)
    (h : BufferHeap PListHead) (head : PListHead) (xs : List PListHead) :
    Prop where
  shows : Shows m.links head xs
  nodes : xs.map m.node = h.buf head
  apart : ∀ other ys, A other = some ys → head ≠ other →
    ∀ p ∈ head :: xs, p ∉ other :: ys
  call : ∀ (c : BufferCall) (tmp : PListHead) (blocks : Nat → PListHead),
    ¬ Cell A tmp → Fresh A blocks → (∀ k, blocks k ≠ tmp) →
    ∃ r, callNodes m head tmp blocks xs.length c = some r
      ∧ r.ret = (callBuffer h head c).ret ∧ r.bytes = (callBuffer h head c).bytes
      ∧ ∃ xs', NodeRun r.mem (Function.update A head (some xs'))
        (callBuffer h head c).heap
  size : ∀ fuel, xs.length < fuel →
    sizeOfNodes m head fuel = some (bufferSize (h.buf head))
  find : ∀ (after : Addr → List UInt8) (fuel startPos : Nat)
    (index : Option (UInt8 → List UInt8 → Int → Nat)) (arg : UInt8),
    xs.length < fuel → findNodes m after head fuel startPos index arg
      = some (findInBuffer h.pool after (h.buf head) startPos index arg)
  destroy : ∃ m', destroyNodes m head (xs.length + 1) = some m'
    ∧ m'.pool = destroyBuffer h.pool (h.buf head)

/-- **THE NODES ARE THE BUFFERS**: in every run of calls, whatever fails, each
    buffer in memory is the list it is modelled as, and so are all its calls. -/
theorem nodes_refine_buffers (hrun : NodeRun m A h) (hh : A head = some xs) :
    RunsLike m A h head xs := by
  have hr := represents_run hrun
  have hnodes := hr.nodes head xs hh
  have hpool := hr.pool
  refine ⟨shows_of_holds hr.holds hh, hnodes,
    fun other ys => hr.holds.apart head xs other ys hh, ?_, ?_, ?_, ?_⟩
  · intro c tmp blocks htmp hfresh hblocks
    obtain ⟨r, hcall, hret, hbytes, -, hcalled⟩ :=
      callNodes_eq hr hh htmp hfresh hblocks c
    obtain ⟨⟨xs', hrings, -⟩, -⟩ := id hcalled
    exact ⟨r, hcall, hret, hbytes, xs', .call hrun hh htmp hfresh hblocks hcall
      (hrings.ring head xs' (Function.update_self ..))⟩
  · intro fuel hf
    rw [sizeOfNodes_eq hr.holds hh hf, hnodes]
  · intro after fuel startPos index arg hf
    rw [findNodes_eq hr.holds hh hf, hnodes, hpool]
  · obtain ⟨m', hm', -, -, hpool'⟩ := recycleList_eq xs _ m A hr.holds hh
      (Nat.lt_succ_self _)
    rw [hnodes, hpool] at hpool'
    exact ⟨m', hm', hpool'⟩

end Runs

/-- The memory before any buffer. -/
def emptyNodes : NodeMem :=
  ⟨⟨id, id⟩, fun _ => ⟨0, 0, 0⟩, emptyPool (fun _ => ⟨0, 0, []⟩) (fun _ => 0) []⟩

/-- Two new buffers, at 1 and at 10. -/
def twoBuffers : NodeMem := createNodes (createNodes emptyNodes 1) 10

theorem nodeRun_twoBuffers : ∃ A h, NodeRun twoBuffers A h ∧ A 1 = some []
    ∧ (∀ p : PListHead, p ≠ 1 → p ≠ 10 → ¬ Cell A p)
    ∧ h = ⟨emptyNodes.pool, Function.update (Function.update (fun _ => []) 1 []) 10 []⟩ := by
  have hone := (NodeRun.start emptyNodes).create (not_cell_none 1)
  have htwo : NodeRun twoBuffers _ _ := hone.create fun h =>
    h.of_update.elim (by decide) (not_cell_none 10)
  refine ⟨_, _, htwo, rfl, fun p h1 h10 h => ?_, rfl⟩
  rcases h.of_update with hm | h
  · exact h10 (List.mem_singleton.mp hm)
  · exact h.of_update.elim (fun hm => h1 (List.mem_singleton.mp hm))
      (not_cell_none p)

/-- Two letters go into the first buffer, in a node at 20, and out again, which
    uses the node up. -/
theorem nodes_refine_buffers_twoLetters : ∃ r r',
    callNodes twoBuffers 1 2 (fun k => k + 20) 0 (.writeIntoBuffer [104, 105]) = some r
      ∧ r.mem.links.next 1 = 20
      ∧ callNodes r.mem 1 2 (fun k => k + 30) 1 (.readFromBuffer 2) = some r'
      ∧ r'.ret = 2 ∧ r'.bytes = [104, 105]
      ∧ listEmpty r'.mem.links 1 = true := by
  obtain ⟨A, h, hrun, h1, hout, rfl⟩ := nodeRun_twoBuffers
  have hfresh : Fresh A fun k => k + 20 :=
    ⟨fun k => hout (k + 20) (Nat.ne_of_gt (by omega)) (Nat.ne_of_gt (by omega)),
      fun j k e => Nat.add_right_cancel e⟩
  obtain ⟨r, hr, -⟩ := (nodes_refine_buffers hrun h1).call
    (.writeIntoBuffer [104, 105]) 2 _ (hout 2 (by decide) (by decide)) hfresh
    (fun k => show k + 20 ≠ 2 by omega)
  have hlinks : ((callNodes twoBuffers 1 2 (fun k => k + 20) 0
      (.writeIntoBuffer [104, 105])).all fun r => decide (r.mem.links.next 1 = 20
        ∧ r.mem.links.prev 20 = 1 ∧ r.mem.links.next 20 = 1
        ∧ r.mem.links.prev 1 = 20)) = true := by
    decide +kernel
  rw [show callNodes twoBuffers 1 2 (fun k => k + 20) 0 _ = some r from hr] at hlinks
  obtain ⟨hl1, hl2, hl3, hl4⟩ := of_decide_eq_true hlinks
  have hring : Ring r.mem.links 1 [20] :=
    ⟨.cons_cons ⟨hl1, hl2⟩ (.cons_cons ⟨hl3, hl4⟩ (.singleton _)), by decide⟩
  have hrun' := NodeRun.call hrun h1 (hout 2 (by decide) (by decide)) hfresh
    (fun k => show k + 20 ≠ 2 by omega) hr hring
  have hout' : ∀ p : PListHead, p ≠ 1 → p ≠ 10 → p ≠ 20 →
      ¬ Cell (Function.update A 1 (some [20])) p := by
    intro p hp1 hp10 hp20 h
    rcases h.of_update with hm | h
    · rcases List.mem_cons.mp hm with rfl | hm
      · exact hp1 rfl
      · exact hp20 (List.mem_singleton.mp hm)
    · exact hout p hp1 hp10 h
  obtain ⟨r', hr', hret, hbytes, xs', hrun''⟩ :=
    (nodes_refine_buffers hrun' (Function.update_self ..)).call (.readFromBuffer 2) 2
      (fun k => k + 30) (hout' 2 (by decide) (by decide) (by decide))
      ⟨fun k => hout' (k + 30) (Nat.ne_of_gt (by omega)) (Nat.ne_of_gt (by omega))
        (Nat.ne_of_gt (by omega)), fun j k e => Nat.add_right_cancel e⟩
      (fun k => show k + 30 ≠ 2 by omega)
  have hlike := nodes_refine_buffers hrun'' (Function.update_self ..)
  have hlen := congrArg List.length hlike.nodes
  rw [List.length_map] at hlen
  exact ⟨r, r', hr, hl1, hr', hret.trans (by decide +kernel),
    hbytes.trans (by decide +kernel), hlike.shows.empty.mpr
      (List.eq_nil_of_length_eq_zero (hlen.trans (by decide +kernel)))⟩

end IMBufferNodes

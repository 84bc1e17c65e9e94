import IMServer.CachePool

/-! # The buffer — `io/buffer.c`

    A buffer is a list of nodes, each with a 512-byte cache of the pool and the
    offsets between which its bytes stand.  Bytes are appended behind the last
    node's `w_offset` and taken from the first node's `r_offset`.

    The system calls are answered by the environment: `read` and `write` take
    their outcomes from a list (an exhausted list means end of file, and a write
    of everything).  The offsets are `int`s and the counters `size_t`s, and the
    conversions between them are those of the code. -/

namespace IMBuffer

open IMBytes IMCString IMMachineInt IMCachePool

/-- `CACHE_SIZE`. -/
def cacheSize : Int := 512

/-- `_InnerNode`. -/
structure InnerNode where
  wOffset : Int
  rOffset : Int
  cache : Addr

/-- `_InnerBuffer`: its `cache_list`. -/
abbrev Buffer := List InnerNode

/-- `NODE_SIZE`. -/
def nodeSize (node : InnerNode) : Int :=
  node.wOffset - node.rOffset

/-- The macro `min` at type `size_t`. -/
def minSizeT (x y : Nat) : Nat :=
  if x < y then x else y

/-- A new node with an empty cache.  The code checks two results, that of
    `malloc` and that of `get_new_cache`. -/
def newInnerNode (p : CachePool) : Option InnerNode × CachePool :=
  match malloc p with
  | (false, p) => (none, p)
  | (true, p) =>
      match malloc p with
      | (false, p) => (none, p)
      | (true, p) =>
          match getNewCache p cacheSize with
          | (none, p) => (none, p)
          | (some cache, p) => (some ⟨0, 0, cache⟩, p)

/-! ## Appending: `read_into_buffer` and `write_into_buffer`

    The two functions differ in one statement, where the bytes come from; the
    model has one loop with that statement as a parameter.  While the loop runs,
    `done ++ [node]` are the nodes of `cache_list` followed by those of
    `tmp_list`, `node` the one being filled. -/

/-- What a call of `read` gives: `-1`, or bytes (as many of them as asked for). -/
inductive ReadOutcome where
  | error
  | bytes (bs : List UInt8)
  deriving DecidableEq

/-- `read(fd, ., n)`. -/
def fdRead (n : Nat) :
    List ReadOutcome → Option (List UInt8) × List ReadOutcome
  | [] => (some [], [])
  | .error :: rest => (none, rest)
  | .bytes bs :: rest => (some (bs.take n), rest)

/-- `memcpy(., src + already_read_size, n)`: `src` is the memory still to come. -/
def srcCopy (n : Nat) (src : List UInt8) :
    Option (List UInt8) × List UInt8 :=
  (some (src.take n), src.drop n)

/-- How the loop ends; `got` are the bytes the calls of its source returned, one
    call after the other, so that `already_read_size` is the length of `got`. -/
structure FillOut (σ : Type) where
  ret : Int
  failed : Bool
  nodes : List InnerNode
  pool : CachePool
  src : σ
  got : List UInt8

/-- The loop `while (already_read_size < size)`. -/
def fillLoop {σ : Type} (next : Nat → σ → Option (List UInt8) × σ)
    (size : Nat) :
    Nat → List InnerNode → InnerNode → CachePool → σ → List UInt8 → FillOut σ
  | 0, done, node, p, s, got => ⟨0, false, done ++ [node], p, s, got⟩
  | fuel + 1, done, node, p, s, got =>
      if got.length < size then
        let readSize := minSizeT (size - got.length)
          (sizeT (cacheSize - node.wOffset))
        match next readSize s with
        | (none, s) => ⟨-1, true, done ++ [node], p, s, got⟩
        | (some bs, s) =>
            let p := writeCache p node.cache node.wOffset.toNat bs
            let got := got ++ bs
            let node := { node with wOffset := node.wOffset + bs.length }
            if got.length = size ∨ bs.length < readSize then
              ⟨cInt got.length, false, done ++ [node], p, s, got⟩
            else
              match newInnerNode p with
              | (none, p) => ⟨cInt got.length, false, done ++ [node], p, s, got⟩
              | (some node', p) =>
                  fillLoop next size fuel (done ++ [node]) node' p s got
      else ⟨0, false, done ++ [node], p, s, got⟩

/-- The result of a call.  `strayWrite` records a write to the `w_offset` of a
    node that is not there: the last entry of an empty list. -/
structure IoResult (σ : Type) where
  ret : Nat
  buffer : Buffer
  pool : CachePool
  src : σ
  got : List UInt8
  strayWrite : Bool

/-- `list_last_entry(list)->w_offset = w`. -/
def setLastWOffset (b : Buffer) (w : Int) : Buffer :=
  match b.getLast? with
  | none => b
  | some last => b.dropLast ++ [{ last with wOffset := w }]

/-- Recycle the nodes of a list one by one, from its end. -/
def recycleNodes (p : CachePool) (nodes : List InnerNode) : CachePool :=
  nodes.foldr (fun node p => (recycleCache p node.cache).2) p

/-- Behind the loop: splice `tmp_list` to the buffer, or undo (`error_with_read`).
    The nodes that were in the buffer at the start are the first ones. -/
def finishFill {σ : Type} (b : Buffer) (lastWOffset : Nat) (out : FillOut σ) :
    IoResult σ :=
  let cacheList := out.nodes.take b.length
  let tmpList := out.nodes.drop b.length
  if out.failed then
    if lastWOffset ≥ 0 then
      ⟨sizeT out.ret, setLastWOffset cacheList (cInt lastWOffset),
        recycleNodes out.pool tmpList, out.src, out.got, cacheList.isEmpty⟩
    else
      ⟨sizeT out.ret, cacheList, recycleNodes out.pool tmpList, out.src,
        out.got, false⟩
  else if out.ret > 0 ∧ tmpList ≠ [] then
    ⟨sizeT out.ret, cacheList ++ tmpList, out.pool, out.src, out.got, false⟩
  else ⟨sizeT out.ret, cacheList, out.pool, out.src, out.got, false⟩

/-- The start with a node of `tmp_list`: the buffer is empty or its last node
    full. -/
def fillNewNode {σ : Type} (next : Nat → σ → Option (List UInt8) × σ)
    (size : Nat) (p : CachePool) (b : Buffer) (s : σ) : IoResult σ :=
  match newInnerNode p with
  | (none, p) => ⟨sizeT (-1), b, p, s, [], false⟩
  | (some node, p) =>
      finishFill b (sizeT (-1)) (fillLoop next size (size + 1) b node p s [])

/-- The common body of the two functions. -/
def fillBuffer {σ : Type} (next : Nat → σ → Option (List UInt8) × σ)
    (size : Nat) (p : CachePool) (b : Buffer) (s : σ) : IoResult σ :=
  match b.getLast? with
  | none => fillNewNode next size p b s
  | some last =>
      if last.wOffset = cacheSize then fillNewNode next size p b s
      else
        finishFill b (sizeT last.wOffset)
          (fillLoop next size (size + 1) b.dropLast last p s [])

/-- `read_into_buffer`. -/
def readIntoBuffer (p : CachePool) (b : Buffer) (size : Nat)
    (reads : List ReadOutcome) : IoResult (List ReadOutcome) :=
  fillBuffer fdRead size p b reads

/-- `write_into_buffer`. -/
def writeIntoBuffer (p : CachePool) (b : Buffer) (src : List UInt8)
    (size : Nat) : IoResult (List UInt8) :=
  fillBuffer srcCopy size p b src

/-! ## Taking: `write_from_buffer` and `read_from_buffer` -/

/-- What a call of `write` gives: `-1`, or a count. -/
inductive WriteOutcome where
  | error
  | count (k : Nat)
  deriving DecidableEq

/-- `write(fd, ., n)`: a short count is between 1 and `n`, and 0 for `n = 0`. -/
def fdWrite (n : Nat) : List WriteOutcome → Int × List WriteOutcome
  | [] => (n, [])
  | .error :: rest => (-1, rest)
  | .count k :: rest => (((if n = 0 then 0 else max 1 (min k n) : Nat) : Int), rest)

/-- The result of a call: its value, the bytes it delivered, and the state. -/
structure TakeOut where
  ret : Nat
  bytes : List UInt8
  buffer : Buffer
  pool : CachePool

/-- A call of `write` on a block: where in the block it began, and what it
    returned. -/
structure WriteCall where
  rOffset : Int
  ret : Int

/-- The result of `write_from_buffer`, and the calls of `write` it made. -/
structure WriteOut extends TakeOut where
  calls : List WriteCall

/-- The loop of `write_from_buffer`.  Behind a failed call `r_offset` may stand
    in front of the block; the bytes sent from there are nobody's, and the model
    takes those the block begins with. -/
def writeFromLoop (size : Nat) :
    Nat → Nat → Buffer → CachePool → List WriteOutcome → List UInt8 →
      List WriteCall → WriteOut
  | 0, already, b, p, _, sent, calls => ⟨⟨already, sent, b, p⟩, calls⟩
  | fuel + 1, already, b, p, ws, sent, calls =>
      if already < size then
        match b with
        | [] => ⟨⟨already, sent, [], p⟩, calls⟩
        | node :: rest =>
            let writeSize := minSizeT (sizeT (nodeSize node)) (size - already)
            let (k, ws) := fdWrite writeSize ws
            let calls := calls ++ [⟨node.rOffset, k⟩]
            let tmpWriteSize := sizeT k
            if tmpWriteSize < 0 then
              ⟨⟨already, sent, node :: rest, p⟩, calls⟩
            else
              let sent := sent
                ++ slice (p.mem node.cache).buff node.rOffset.toNat k.toNat
              let already := sizeT ((already : Int) + tmpWriteSize)
              let node := { node with
                rOffset := cInt ((sizeT node.rOffset : Int) + tmpWriteSize) }
              if node.rOffset = node.wOffset then
                writeFromLoop size fuel already rest
                  (recycleCache p node.cache).2 ws sent calls
              else writeFromLoop size fuel already (node :: rest) p ws sent calls
      else ⟨⟨already, sent, b, p⟩, calls⟩

/-- `write_from_buffer`. -/
def writeFromBuffer (p : CachePool) (b : Buffer) (size : Nat)
    (writes : List WriteOutcome) : WriteOut :=
  writeFromLoop size (size + 2 * writes.length + b.length + 1) 0 b p writes [] []

/-- The first loop of `read_from_buffer`: `expected_read_size`. -/
def expectedReadSize (size : Nat) : Nat → Buffer → Nat
  | acc, [] => acc
  | acc, curr :: rest =>
      let acc := sizeT ((acc : Int) + nodeSize curr)
      if acc ≥ size then size else expectedReadSize size acc rest

/-- The second loop of `read_from_buffer`; `target` is the allocated block. -/
def readFromLoop (expected : Nat) :
    Nat → Nat → Buffer → CachePool → List UInt8 → TakeOut
  | 0, already, b, p, target => ⟨already, target, b, p⟩
  | fuel + 1, already, b, p, target =>
      if already < expected then
        match b with
        | [] => ⟨already, target, [], p⟩
        | node :: rest =>
            let writeSize := cInt
              (minSizeT (sizeT (nodeSize node)) (expected - already))
            let target := overwrite target already
              (slice (p.mem node.cache).buff node.rOffset.toNat writeSize.toNat)
            let node := { node with rOffset := node.rOffset + writeSize }
            let already := sizeT ((already : Int) + writeSize)
            if node.rOffset = node.wOffset then
              readFromLoop expected fuel already rest
                (recycleCache p node.cache).2 target
            else readFromLoop expected fuel already (node :: rest) p target
      else ⟨already, target, b, p⟩

/-- `read_from_buffer`: the value and the block `*target`. -/
def readFromBuffer (p : CachePool) (b : Buffer) (size : Nat) : TakeOut :=
  let expected := expectedReadSize size 0 b
  readFromLoop expected (b.length + 1) 0 b p (List.replicate expected 0)

/-! ## Searching: `find_in_buffer` -/

/-- `simple_index_func`. -/
def simpleIndexFunc (arg : UInt8) (ptr : List UInt8) (size : Int) : Nat :=
  match strchr ptr arg with
  | none => sizeT (-1)
  | some target => if (target : Int) ≥ size then target else sizeT (-1)

/-- The loop of `find_in_buffer`: `node_first_pos` and `node_index_pos`.  The
    pointer given to `index` reaches to the end of the cache and on into the
    memory `after` it. -/
def findLoop (p : CachePool) (after : Addr → List UInt8)
    (index : List UInt8 → Int → Nat) (startPos : Nat) :
    Nat → Nat → Buffer → Nat × Nat
  | first, idx, [] => (first, idx)
  | first, idx, cur :: rest =>
      let startPtr := (p.mem cur.cache).buff.drop cur.rOffset.toNat
        ++ after cur.cache
      if first ≥ startPos then
        let idx := index startPtr (nodeSize cur)
        if idx ≥ 0 then (sizeT ((first : Int) + idx), idx)
        else findLoop p after index startPos
          (sizeT ((first : Int) + nodeSize cur)) idx rest
      else if sizeT ((first : Int) + cur.wOffset - cur.rOffset) > startPos then
        let startPosInNode := cInt ((startPos : Int) - first)
        let idx := index (startPtr.drop startPosInNode.toNat)
          (nodeSize cur - startPosInNode)
        if idx ≥ 0 then (sizeT ((first : Int) + startPosInNode + idx), idx)
        else findLoop p after index startPos
          (sizeT ((first : Int) + nodeSize cur)) idx rest
      else findLoop p after index startPos
        (sizeT ((first : Int) + nodeSize cur)) idx rest

/-- `find_in_buffer`; without an index function the default one is used. -/
def findInBuffer (p : CachePool) (after : Addr → List UInt8) (b : Buffer)
    (startPos : Nat) (index : Option (UInt8 → List UInt8 → Int → Nat))
    (arg : UInt8) : Nat :=
  let index := index.getD simpleIndexFunc
  let r := findLoop p after (index arg) startPos 0 (sizeT (-1)) b
  if r.2 ≥ 0 then r.1 else sizeT (-1)

/-- `buffer_size`. -/
def bufferSize (b : Buffer) : Nat :=
  b.foldl (fun size node => sizeT ((size : Int) + nodeSize node)) 0

/-- `destroy_buffer`: every node goes back to the pool, from the last on. -/
def destroyBuffer (p : CachePool) (b : Buffer) : CachePool :=
  recycleNodes p b

end IMBuffer

import IMServer.BufferTake
import IMServer.Transition

/-! # Buffers as byte queues — the refinement

    All buffers of the server share one pool.  `HeapInv` says that each satisfies
    its invariant and that no cache belongs to two of them; a call on one buffer
    (`HeapInv.put`) keeps it and leaves the content of the others alone.  Under
    it every call of the module is one step of a byte queue. -/

namespace IMBufferQueue

open IMBytes IMMachineInt IMCachePool IMBuffer IMBufferInvariant IMBufferAppend
  IMBufferTake IMTransition

/-! ## The abstract queue -/

/-- What a byte queue can be asked. -/
inductive QueueOp where
  | append (bytes : List UInt8)
  | remove (n : Nat)

/-- **THE BYTE QUEUE**: the number returned, the bytes delivered, the queue. -/
def queueStep (q : List UInt8) : QueueOp → Nat × List UInt8 × List UInt8
  | .append bytes => (bytes.length, [], q ++ bytes)
  | .remove n => (min n q.length, q.take n, q.drop n)

/-! ## Buffers over one pool -/

/-- The pool and the buffers whose nodes have caches of it. -/
structure BufferHeap (ι : Type) where
  pool : CachePool
  buf : ι → Buffer

variable {ι : Type}

/-- The content of a buffer of the heap. -/
def BufferHeap.content (h : BufferHeap ι) (i : ι) : List UInt8 :=
  IMBufferInvariant.content h.pool (h.buf i)

/-- **THE HEAP INVARIANT**: no cache belongs to two buffers. -/
structure HeapInv (h : BufferHeap ι) : Prop where
  pool : PoolInv h.pool
  inv : ∀ i, BufferInv h.pool (h.buf i)
  apart : ∀ i j, i ≠ j → ∀ a ∈ owned (h.buf i), a ∉ owned (h.buf j)

/-- The buffer `i` and the caches of its nodes are the same in both heaps. -/
structure Same (h h' : BufferHeap ι) (i : ι) : Prop where
  buf : h'.buf i = h.buf i
  mem : ∀ a ∈ owned (h.buf i), h'.pool.mem a = h.pool.mem a

theorem Same.refl (h : BufferHeap ι) (i : ι) : Same h h i :=
  ⟨rfl, fun _ _ => rfl⟩

theorem Same.trans {h h₁ h₂ : BufferHeap ι} {i : ι} (h01 : Same h h₁ i)
    (h12 : Same h₁ h₂ i) : Same h h₂ i where
  buf := h12.buf.trans h01.buf
  mem := by
    intro a ha
    rw [h12.mem a (h01.buf ▸ ha), h01.mem a ha]

theorem Same.content {h h' : BufferHeap ι} {i : ι} (hs : Same h h' i) :
    h'.content i = h.content i := by
  rw [BufferHeap.content, hs.buf]
  exact content_congr hs.mem

/-- **FRAME**: a call into the pool that touches no buffer's cache. -/
theorem HeapInv.pool_call {h : BufferHeap ι} {p : CachePool} {S : List Addr}
    (hi : HeapInv h) (hp : PoolInv p) (hk : Keeps h.pool p S)
    (hS : ∀ i, ∀ a ∈ owned (h.buf i), a ∉ S) :
    HeapInv { h with pool := p } ∧ ∀ i, Same h { h with pool := p } i :=
  ⟨⟨hp, fun i => ((hi.inv i).keeps hk (hS i)).1, hi.apart⟩,
    fun i => ⟨rfl, fun a ha => hk.mem a ((hi.inv i).heldOwned ha) (hS i a ha)⟩⟩

/-- The caches that are in no buffer stay so and stay held. -/
structure Outside (h h' : BufferHeap ι) : Prop where
  held : ∀ a, Held h.pool a → (∀ i, a ∉ owned (h.buf i)) → Held h'.pool a
  apart : ∀ a, Held h.pool a → (∀ i, a ∉ owned (h.buf i)) →
    ∀ i, a ∉ owned (h'.buf i)
  mallocs : ∀ ok ∈ h'.pool.mallocs, ok ∈ h.pool.mallocs

theorem Outside.refl (h : BufferHeap ι) : Outside h h :=
  ⟨fun _ ha _ => ha, fun _ _ hn => hn, fun _ hok => hok⟩

theorem Outside.trans {h h₁ h₂ : BufferHeap ι} (h01 : Outside h h₁)
    (h12 : Outside h₁ h₂) : Outside h h₂ where
  held := fun a ha hn => h12.held a (h01.held a ha hn) (h01.apart a ha hn)
  apart := fun a ha hn => h12.apart a (h01.held a ha hn) (h01.apart a ha hn)
  mallocs := fun ok hok => h01.mallocs ok (h12.mallocs ok hok)

theorem Outside.noFail {h h' : BufferHeap ι} (ho : Outside h h')
    (hnf : NoFail h.pool) : NoFail h'.pool :=
  fun ok hok => hnf ok (ho.mallocs ok hok)

theorem outside_pool {h : BufferHeap ι} {p : CachePool}
    (hk : Keeps h.pool p []) : Outside h { h with pool := p } where
  held := fun a ha _ => hk.held a ha List.not_mem_nil
  apart := fun _ _ hn => hn
  mallocs := hk.mallocs

variable [DecidableEq ι]

/-- The heap after a call on one buffer. -/
def BufferHeap.put (h : BufferHeap ι) (i : ι) (p : CachePool) (b : Buffer) :
    BufferHeap ι where
  pool := p
  buf := Function.update h.buf i b

theorem content_put (h : BufferHeap ι) (i : ι) (p : CachePool) (b : Buffer) :
    (h.put i p b).content i = IMBufferInvariant.content p b := by
  show IMBufferInvariant.content p (Function.update h.buf i b i) = _
  rw [Function.update_self]

theorem buf_put (h : BufferHeap ι) (i : ι) (p : CachePool) (b : Buffer) :
    (h.put i p b).buf i = b :=
  Function.update_self ..

/-- **A CALL ON ONE BUFFER** keeps the invariant and the other buffers. -/
theorem HeapInv.put {h : BufferHeap ι} {i : ι} {p : CachePool} {b : Buffer}
    (hi : HeapInv h) (hm : Moves h.pool p (h.buf i) b) :
    HeapInv (h.put i p b) ∧ ∀ j, j ≠ i → Same h (h.put i p b) j := by
  have hnew : ∀ j, j ≠ i → ∀ a ∈ owned b, a ∉ owned (h.buf j) := by
    intro j hj a ha hm'
    rcases hm.fresh a ha with h1 | h2
    · exact hi.apart i j (Ne.symm hj) a h1 hm'
    · exact h2 ((hi.inv j).heldOwned hm')
  refine ⟨⟨hm.pool, ?_, ?_⟩, ?_⟩
  · intro j
    show BufferInv p (Function.update h.buf i b j)
    by_cases hj : j = i
    · rw [hj, Function.update_self]
      exact hm.inv
    · rw [Function.update_of_ne hj]
      exact ((hi.inv j).keeps hm.keeps (hi.apart j i hj)).1
  · intro j k hjk a ha
    simp only [BufferHeap.put] at ha ⊢
    by_cases hj : j = i
    · rw [hj, Function.update_self] at ha
      rw [Function.update_of_ne (fun e => hjk (hj.trans e.symm))]
      exact hnew k (fun e => hjk (hj.trans e.symm)) a ha
    · rw [Function.update_of_ne hj] at ha
      by_cases hk : k = i
      · rw [hk, Function.update_self]
        exact fun hm' => hnew j hj a hm' ha
      · rw [Function.update_of_ne hk]
        exact hi.apart j k hjk a ha
  · intro j hj
    refine ⟨Function.update_of_ne hj .., ?_⟩
    intro a ha
    exact hm.keeps.mem a ((hi.inv j).heldOwned ha) (hi.apart j i hj a ha)

theorem outside_put {h : BufferHeap ι} {i : ι} {p : CachePool} {b : Buffer}
    (hm : Moves h.pool p (h.buf i) b) : Outside h (h.put i p b) where
  held := fun a ha hn => hm.keeps.held a ha (hn i)
  apart := by
    intro a ha hn j
    show a ∉ owned (Function.update h.buf i b j)
    by_cases hj : j = i
    · rw [hj, Function.update_self]
      intro hmem
      rcases hm.fresh a hmem with h1 | h2
      · exact hn i h1
      · exact h2 ha
    · rw [Function.update_of_ne hj]
      exact hn j
  mallocs := hm.keeps.mallocs

/-! ## The calls -/

/-- A call of `buffer.c` on a buffer. -/
inductive BufferCall where
  | writeIntoBuffer (src : List UInt8)
  | readIntoBuffer (size : Nat) (reads : List ReadOutcome)
  | readFromBuffer (size : Nat)
  | writeFromBuffer (size : Nat) (writes : List WriteOutcome)

/-- The value of a call, the bytes it delivered, and the heap after it. -/
structure CallResult (ι : Type) where
  ret : Nat
  bytes : List UInt8
  heap : BufferHeap ι

/-- The call on buffer `i`. -/
def callBuffer (h : BufferHeap ι) (i : ι) : BufferCall → CallResult ι
  | .writeIntoBuffer src =>
      let r := writeIntoBuffer h.pool (h.buf i) src src.length
      ⟨r.ret, [], h.put i r.pool r.buffer⟩
  | .readIntoBuffer size reads =>
      let r := readIntoBuffer h.pool (h.buf i) size reads
      ⟨r.ret, [], h.put i r.pool r.buffer⟩
  | .readFromBuffer size =>
      let r := readFromBuffer h.pool (h.buf i) size
      ⟨r.ret, r.bytes, h.put i r.pool r.buffer⟩
  | .writeFromBuffer size writes =>
      let r := writeFromBuffer h.pool (h.buf i) size writes
      ⟨r.ret, r.bytes, h.put i r.pool r.buffer⟩

/-- What the call asks of the queue: to append the bytes given, or all those the
    `read` calls of the call returned, or to remove a number of bytes. -/
def QueueOp.Of (h : BufferHeap ι) (i : ι) : BufferCall → QueueOp → Prop
  | .writeIntoBuffer src, op => op = .append src
  | .readIntoBuffer size reads, op =>
      op = .append (delivered (readCalls h.pool (h.buf i) size reads))
  | .readFromBuffer size, op => op = .remove size
  | .writeFromBuffer size _, op => op = .remove size

/-- The system calls of the call report no error, and its size is a `size_t`. -/
def BufferCall.Ok : BufferCall → Prop
  | .writeIntoBuffer _ => True
  | .readIntoBuffer _ reads => ReadsOk reads
  | .readFromBuffer size => size < 2 ^ 64
  | .writeFromBuffer size writes => size < 2 ^ 64 ∧ WritesOk writes

/-- How many bytes the call may append. -/
def BufferCall.room : BufferCall → Nat
  | .writeIntoBuffer src => src.length
  | .readIntoBuffer size _ => size
  | .readFromBuffer _ => 0
  | .writeFromBuffer _ _ => 0

/-- **ONE CALL REFINES THE QUEUE**: its value and the bytes it delivers are those
    of a queue step, the other buffers stay, and afterwards `buffer_size` is the
    length of the content, for every buffer. -/
structure Refines (h : BufferHeap ι) (i : ι) (c : BufferCall) : Prop where
  step : ∃ op, QueueOp.Of h i c op ∧ queueStep (h.content i) op
    = ((callBuffer h i c).ret, (callBuffer h i c).bytes,
        (callBuffer h i c).heap.content i)
  others : ∀ j, j ≠ i →
    (callBuffer h i c).heap.content j = h.content j
  size : ∀ j, bufferSize ((callBuffer h i c).heap.buf j)
    = ((callBuffer h i c).heap.content j).length

/-- A call that moved a buffer: the invariant, the frame and the pool. -/
theorem heapInv_callBuffer {h : BufferHeap ι} {i : ι} {p : CachePool}
    {b : Buffer} (hi : HeapInv h) (hnf : NoFail h.pool)
    (hm : Moves h.pool p (h.buf i) b) :
    HeapInv (h.put i p b) ∧ NoFail (h.put i p b).pool
      ∧ ∀ j, j ≠ i → (h.put i p b).content j = h.content j :=
  ⟨(hi.put hm).1, hnf.keeps hm.keeps, fun j hj => ((hi.put hm).2 j hj).content⟩

/-- A call that takes bytes is a removal from the queue. -/
theorem queueStep_taken {h : BufferHeap ι} {i : ι} {size : Nat} {r : TakeOut}
    (ht : Taken h.pool (h.buf i) [] size r) :
    queueStep (h.content i) (.remove size)
        = (r.ret, r.bytes, (h.put i r.pool r.buffer).content i)
      ∧ ((h.put i r.pool r.buffer).content i).length
        ≤ (h.content i).length := by
  have hafter := (content_put h i _ _).trans ht.content
  have hret := ht.ret
  rw [List.length_nil, Nat.zero_add] at hret
  refine ⟨Prod.ext hret.symm (Prod.ext ht.bytes.symm hafter.symm), ?_⟩
  refine (congrArg List.length hafter).trans_le ?_
  rw [List.length_drop]
  exact Nat.sub_le _ _

/-- The step lemma: a call is a queue step, appends no more than its room, and
    keeps the invariant. -/
theorem callBuffer_spec {h : BufferHeap ι} {i : ι} {c : BufferCall}
    (hi : HeapInv h) (hnf : NoFail h.pool) (hok : c.Ok)
    (hroom : (h.content i).length + c.room < 2 ^ 31) :
    (∃ op, QueueOp.Of h i c op ∧ queueStep (h.content i) op
      = ((callBuffer h i c).ret, (callBuffer h i c).bytes,
          (callBuffer h i c).heap.content i))
    ∧ ((callBuffer h i c).heap.content i).length
        ≤ (h.content i).length + c.room
    ∧ HeapInv (callBuffer h i c).heap ∧ NoFail (callBuffer h i c).heap.pool
    ∧ ∀ j, j ≠ i → (callBuffer h i c).heap.content j = h.content j := by
  cases c with
  | writeIntoBuffer src =>
      have hsize : src.length < 2 ^ 31 := by
        simp only [BufferCall.room] at hroom
        omega
      obtain ⟨happ, -, hall⟩ := writeIntoBuffer_spec src hi.pool
        (hi.inv i) hsize
      have hgot := hall hnf
      rw [List.take_of_length_le (Nat.le_refl _)] at hgot
      have hret := happ.ret.resolve_right (fun hf => hf.2.2 hnf)
      have hcont := happ.content
      rw [hgot] at hret hcont
      have hafter := (content_put h i _ _).trans hcont
      refine ⟨⟨.append src, rfl, ?_⟩, ?_,
        heapInv_callBuffer hi hnf happ.moves⟩
      · exact Prod.ext hret.symm (Prod.ext rfl hafter.symm)
      · exact (congrArg List.length hafter).trans_le
          (Nat.le_of_eq List.length_append)
  | readIntoBuffer size reads =>
      have hsize : size < 2 ^ 31 := by
        simp only [BufferCall.room] at hroom
        omega
      have happ := readIntoBuffer_spec hi.pool (hi.inv i) hsize hok
      have hret := happ.ret.resolve_right (fun hf => hf.2.2 hnf)
      have hafter := (content_put h i _ _).trans happ.content
      refine ⟨⟨.append _, congrArg _ (readIntoBuffer_got _ _ size reads), ?_⟩, ?_,
        heapInv_callBuffer hi hnf happ.moves⟩
      · exact Prod.ext hret.symm (Prod.ext rfl hafter.symm)
      · refine (congrArg List.length hafter).trans_le ?_
        rw [List.length_append]
        exact Nat.add_le_add_left happ.le _
  | readFromBuffer size =>
      have htaken := readFromBuffer_spec hi.pool (hi.inv i) hok
        (Or.inl (show (h.content i).length < 2 ^ 64 by omega))
      obtain ⟨hstep, hlen⟩ := queueStep_taken htaken
      exact ⟨⟨.remove size, rfl, hstep⟩, hlen,
        heapInv_callBuffer hi hnf htaken.moves⟩
  | writeFromBuffer size writes =>
      have htaken := writeFromBuffer_spec hi.pool (hi.inv i) hok.1 hok.2
      obtain ⟨hstep, hlen⟩ := queueStep_taken htaken
      exact ⟨⟨.remove size, rfl, hstep⟩, hlen,
        heapInv_callBuffer hi hnf htaken.moves⟩

/-! ## Sequences of calls -/

/-- Sequences of calls start with empty buffers over any pool. -/
def queueSystem (ι : Type) [DecidableEq ι] :
    System (BufferHeap ι) (ι × BufferCall) where
  start := fun h => PoolInv h.pool ∧ ∀ i, h.buf i = []
  step := fun h e => some (callBuffer h e.1 e.2).heap

theorem heapInv_start {h : BufferHeap ι} (hs : (queueSystem ι).start h) :
    HeapInv h where
  pool := hs.1
  inv := by
    intro i
    rw [hs.2 i]
    exact bufferInv_nil _
  apart := by
    intro i j _ a ha
    rw [hs.2 i] at ha
    cases ha

/-- The run lemma, by induction on the calls: the content and the bytes that
    may still be appended stay below `2 ^ 31`. -/
theorem along_refines : ∀ (calls : List (ι × BufferCall)) (h : BufferHeap ι),
    HeapInv h → NoFail h.pool → (∀ e ∈ calls, e.2.Ok) →
    (∀ i, (h.content i).length + (calls.map fun e => e.2.room).sum < 2 ^ 31) →
    Along (queueSystem ι) (fun h e => Refines h e.1 e.2) h calls := by
  intro calls
  induction calls with
  | nil => intro h _ _ _ _; exact trivial
  | cons e calls ih =>
      intro h hi hnf hok htotal
      simp only [List.map_cons, List.sum_cons] at htotal
      obtain ⟨hstep, hle, hi', hnf', hother⟩ := callBuffer_spec hi hnf
        (hok e (List.mem_cons_self ..)) (c := e.2) (i := e.1)
        (by have := htotal e.1; omega)
      have hlen : ∀ j, ((callBuffer h e.1 e.2).heap.content j).length
          + (calls.map fun e => e.2.room).sum < 2 ^ 31 := by
        intro j
        have := htotal j
        by_cases hj : j = e.1
        · rw [hj] at this ⊢
          omega
        · rw [hother j hj]
          omega
      refine ⟨⟨hstep, hother, ?_⟩, ?_⟩
      · intro j
        exact bufferSize_eq (hi'.inv j)
          (show ((callBuffer h e.1 e.2).heap.content j).length < 2 ^ 64 by
            have := hlen j
            omega)
      · intro h' hh'
        have heq : (callBuffer h e.1 e.2).heap = h' := Option.some.inj hh'
        subst heq
        exact ih _ hi' hnf'
          (fun e' he' => hok e' (List.mem_cons_of_mem _ he')) hlen

/-- **BUFFERS REFINE BYTE QUEUES**: over every sequence of calls that append less
    than `2 ^ 31` bytes, with any short reads and writes, each call is a queue
    step of its buffer and `buffer_size` is the length of the content. -/
theorem buffers_refine_queues {h : BufferHeap ι}
    (hs : (queueSystem ι).start h) (hnf : NoFail h.pool)
    {calls : List (ι × BufferCall)} (hok : ∀ e ∈ calls, e.2.Ok)
    (htotal : (calls.map fun e => e.2.room).sum < 2 ^ 31) :
    Along (queueSystem ι) (fun h e => Refines h e.1 e.2) h calls := by
  refine along_refines calls h (heapInv_start hs) hnf hok ?_
  intro i
  have hnil : h.content i = [] := by
    rw [BufferHeap.content, hs.2 i]
    rfl
  rw [hnil, List.length_nil, Nat.zero_add]
  exact htotal

/-- Two letters in, one more from a socket, one out. -/
theorem buffers_refine_queues_twoLetters :
    Along (queueSystem Unit) (fun h e => Refines h e.1 e.2)
      ⟨emptyPool (fun _ => ⟨0, 0, []⟩) (fun _ => 0) [], fun _ => []⟩
      [((), .writeIntoBuffer [104, 105]), ((), .readIntoBuffer 3 [.bytes [33]]),
        ((), .readFromBuffer 1)] := by
  refine buffers_refine_queues ⟨poolInv_empty _ _ _, fun _ => rfl⟩
    (fun _ h => absurd h List.not_mem_nil) ?_ (by decide)
  intro e he
  rcases List.mem_cons.mp he with rfl | he
  · exact trivial
  rcases List.mem_cons.mp he with rfl | he
  · show ReadsOk [.bytes [33]]
    decide
  · rw [List.mem_singleton.mp he]
    show 1 < 2 ^ 64
    decide

end IMBufferQueue

import IMServer.ClientInfo

/-! # Taking lines from a reading buffer

    `fetch_msg_from_client` looks at the first node only: `find_in_buffer`
    accepts whatever the index function returns there, because "not found" is
    the largest `size_t`.  So the next line is the one that ends inside the
    first node before any NUL byte (`nextLine`), and when there is none the
    wrapped index makes a read of zero bytes. -/

namespace IMLineFraming

open IMBytes IMCString IMMachineInt IMCachePool IMBuffer IMBufferInvariant
  IMBufferAppend IMBufferTake IMBufferQueue IMClientInfo

/-- The offset of the newline that ends the next line. -/
def nextLine (m : Clients) (c : PClientInfo) : Option Nat :=
  match m.heap.buf (c, .reading) with
  | [] => none
  | node :: _ => strchr (nodeBytes m.heap.pool node) 10

/-! ## The search -/

theorem checkCommandSuffix_append (c : UInt8) (bytes tail : List UInt8) :
    checkCommandSuffix c (bytes ++ tail) bytes.length
      = (strchr bytes c).getD (sizeT (-1)) := by
  cases hs : strchr bytes c with
  | some i =>
      obtain ⟨pre, post, rfl, rfl, hcp, hz⟩ := strchr_eq_some hs
      have happ : strchr ((pre ++ c :: post) ++ tail) c = some pre.length := by
        rw [List.append_assoc, List.cons_append]
        exact strchr_append _ hcp hz
      rw [checkCommandSuffix, happ]
      simp only
      rw [if_pos (by
        rw [List.length_append, List.length_cons]
        omega), Option.getD_some]
  | none =>
      rw [checkCommandSuffix, Option.getD_none]
      cases ht : strchr (bytes ++ tail) c with
      | none => rfl
      | some i =>
          simp only
          refine if_neg ?_
          intro hlt
          -- what is found in front of the end stands in `bytes`
          obtain ⟨pre, post, hsplit, hlen, hcp, hz⟩ := strchr_eq_some ht
          have hpre : pre ++ [c] <+: bytes := by
            refine @List.prefix_of_prefix_length_le _ _ _ (bytes ++ tail)
              ⟨post, ?_⟩ (List.prefix_append _ _) ?_
            · rw [hsplit, List.append_assoc]
              rfl
            · rw [List.length_append, List.length_singleton]
              omega
          obtain ⟨rest, rfl⟩ := hpre
          rw [List.append_assoc, List.singleton_append,
            strchr_append rest hcp hz] at hs
          cases hs

/-- What stands in memory behind the bytes of a node: the room left in its cache
    and whatever comes after the cache. -/
def beyond (p : CachePool) (after : Addr → List UInt8) (node : InnerNode) :
    List UInt8 :=
  (p.mem node.cache).buff.drop node.wOffset.toNat ++ after node.cache

/-- The memory `find_in_buffer` passes on starts with the bytes of the node. -/
theorem startPtr_eq {p : CachePool} {node : InnerNode} (ho : Offsets node)
    (after : Addr → List UInt8) :
    (p.mem node.cache).buff.drop node.rOffset.toNat ++ after node.cache
      = nodeBytes p node ++ beyond p after node := by
  have hn := ho.nonneg
  have hw : node.wOffset.toNat
      = node.rOffset.toNat + (nodeSize node).toNat := by
    simp only [nodeSize] at *
    omega
  rw [beyond, hw, ← List.drop_drop, ← List.append_assoc, nodeBytes, slice,
    List.take_append_drop]

/-- What the search from position 0 finds. -/
theorem findInBuffer_zero {m : Clients} {c : PClientInfo}
    (hh : HeapInv m.heap) (after : Addr → List UInt8) :
    findInBuffer m.heap.pool after (m.heap.buf (c, .reading)) 0
        (some checkCommandSuffix) 10
      = if m.heap.buf (c, .reading) = [] then 0
        else (nextLine m c).getD (sizeT (-1)) := by
  have hb := hh.inv (c, .reading)
  rw [nextLine]
  cases hbuf : m.heap.buf (c, .reading) with
  | nil => rfl
  | cons node rest =>
      rw [hbuf] at hb
      have hmem := List.mem_cons_self (a := node) (l := rest)
      have hptr := startPtr_eq (p := m.heap.pool) (hb.offsets node hmem) after
      have hlen := hb.length_first
      have ho := (hb.offsets node hmem).nonneg
      have hsize : nodeSize node
          = ((nodeBytes m.heap.pool node).length : Nat) := by
        omega
      have hidx := checkCommandSuffix_append 10 (nodeBytes m.heap.pool node)
        (beyond m.heap.pool after node)
      have hlt : (strchr (nodeBytes m.heap.pool node) 10).getD (sizeT (-1))
          < 2 ^ 64 := by
        cases hs : strchr (nodeBytes m.heap.pool node) 10 with
        | none => exact sizeT_lt _
        | some i =>
            obtain ⟨pre, post, hsplit, rfl, -, -⟩ := strchr_eq_some hs
            have := congrArg List.length hsplit
            rw [List.length_append, List.length_cons, hlen] at this
            rw [Option.getD_some]
            omega
      rw [if_neg (by simp), findInBuffer, findLoop]
      simp only [Option.getD_some, ge_iff_le, Nat.zero_le, if_true, hptr, hsize,
        hidx]
      rw [Int.natCast_zero, Int.zero_add, sizeT_natCast hlt]

/-! ## `fetch_msg_from_client` -/

/-- Putting back the same buffer changes nothing. -/
theorem put_self {ι : Type} [DecidableEq ι] (h : BufferHeap ι) (i : ι) :
    h.put i h.pool (h.buf i) = h := by
  rw [BufferHeap.put, Function.update_eq_self]

theorem update_data_self (m : Clients) (c : PClientInfo)
    (h0 : (m.data c).lastCheckCmdIndex = 0) :
    Function.update m.data c { m.data c with lastCheckCmdIndex := 0 }
      = m.data := by
  have hc : ({ m.data c with lastCheckCmdIndex := 0 } : ClientData)
      = m.data c := by
    rw [← h0]
  rw [hc, Function.update_eq_self]

/-- Reading nothing, or from an empty buffer, changes nothing. -/
theorem readFromBuffer_zero (p : CachePool) (b : Buffer) (size : Nat)
    (h : size = 0 ∨ b = []) :
    readFromBuffer p b size = ⟨0, [], b, p⟩ := by
  have hexp : expectedReadSize size 0 b = 0 := by
    rcases h with rfl | rfl
    · cases b with
      | nil => rfl
      | cons node rest =>
          rw [expectedReadSize]
          exact if_pos (Nat.zero_le (sizeT _))
    · rfl
  rw [readFromBuffer, hexp, readFromLoop.eq_def]
  rfl

/-- **NO LINE**: the call returns 0 and changes nothing. -/
theorem fetchMsg_none {m : Clients} {c : PClientInfo} (hh : HeapInv m.heap)
    (h0 : (m.data c).lastCheckCmdIndex = 0) (after : Addr → List UInt8)
    (hn : nextLine m c = none) :
    fetchMsgFromClient m after c = ⟨0, [], m⟩ := by
  have hread : ∀ idx, idx = (if m.heap.buf (c, .reading) = [] then 0
      else (nextLine m c).getD (sizeT (-1))) →
      readFromBuffer m.heap.pool (m.heap.buf (c, .reading))
        (sizeT ((idx : Int) + 1))
      = ⟨0, [], m.heap.buf (c, .reading), m.heap.pool⟩ := by
    rintro idx rfl
    refine readFromBuffer_zero _ _ _ ?_
    by_cases hb : m.heap.buf (c, .reading) = []
    · exact Or.inr hb
    · rw [if_neg hb, hn, Option.getD_none]
      exact Or.inl (by decide)
  rw [fetchMsgFromClient]
  simp only [h0, findInBuffer_zero hh after, Nat.not_lt_zero, if_false,
    hread _ rfl, put_self]
  rw [update_data_self m c h0]
  rfl

/-- The next line stands at the front of the content. -/
theorem nextLine_content {m : Clients} {c : PClientInfo} {i : Nat}
    (hn : nextLine m c = some i) :
    ∃ pre post, m.reading c = pre ++ 10 :: post ∧ pre.length = i
      ∧ (10 : UInt8) ∉ pre ∧ (0 : UInt8) ∉ pre := by
  rw [nextLine] at hn
  cases hbuf : m.heap.buf (c, .reading) with
  | nil =>
      rw [hbuf] at hn
      cases hn
  | cons node rest =>
      rw [hbuf] at hn
      obtain ⟨pre, post, hsplit, hlen, h10, hz⟩ := strchr_eq_some hn
      refine ⟨pre, post ++ content m.heap.pool rest, ?_, hlen, h10, hz⟩
      show content m.heap.pool (m.heap.buf (c, .reading)) = _
      rw [hbuf, content_cons, hsplit, List.append_assoc, List.cons_append]

/-- A line is not longer than a node. -/
theorem nextLine_lt {m : Clients} {c : PClientInfo} {i : Nat}
    (hh : HeapInv m.heap) (hn : nextLine m c = some i) : i < 512 := by
  rw [nextLine] at hn
  cases hbuf : m.heap.buf (c, .reading) with
  | nil =>
      rw [hbuf] at hn
      cases hn
  | cons node rest =>
      rw [hbuf] at hn
      have hb := hh.inv (c, .reading)
      rw [hbuf] at hb
      have hmem := List.mem_cons_self (a := node) (l := rest)
      have hlen := hb.length_first
      have ho := (hb.offsets node hmem).nonneg
      obtain ⟨pre, post, hsplit, rfl, -, -⟩ := strchr_eq_some hn
      have := congrArg List.length hsplit
      rw [List.length_append, List.length_cons, hlen] at this
      omega

/-- What a call that finds a line does: the line leaves the reading buffer,
    nothing else changes. -/
structure LineTaken (m : Clients) (c : PClientInfo) (i : Nat)
    (r : TakeResult) : Prop where
  ret : r.ret = i + 1
  bytes : r.bytes = (m.reading c).take (i + 1)
  reading : r.clients.reading c = (m.reading c).drop (i + 1)
  heap : HeapInv r.clients.heap
  same : ∀ j, j ≠ (c, .reading) → Same m.heap r.clients.heap j
  outside : Outside m.heap r.clients.heap
  data : r.clients.data = m.data
  buffer : r.clients.heap = m.heap.put (c, .reading)
    (readFromBuffer m.heap.pool (m.heap.buf (c, .reading)) (i + 1)).pool
    (readFromBuffer m.heap.pool (m.heap.buf (c, .reading)) (i + 1)).buffer

/-- **THE NEXT LINE**: the call returns its size and the line. -/
theorem fetchMsg_some {m : Clients} {c : PClientInfo} {i : Nat}
    (hh : HeapInv m.heap) (h0 : (m.data c).lastCheckCmdIndex = 0)
    (after : Addr → List UInt8) (hn : nextLine m c = some i) :
    LineTaken m c i (fetchMsgFromClient m after c) := by
  have hi := nextLine_lt hh hn
  have hne : m.heap.buf (c, .reading) ≠ [] := by
    intro he
    rw [nextLine] at hn
    rw [he] at hn
    cases hn
  have hsize : sizeT (((if m.heap.buf (c, .reading) = [] then 0
      else (nextLine m c).getD (sizeT (-1)) : Nat) : Int) + 1) = i + 1 := by
    rw [if_neg hne, hn, Option.getD_some]
    exact sizeT_natCast (n := i + 1) (by omega)
  have htaken := readFromBuffer_spec hh.pool (hh.inv (c, .reading))
    (by omega : i + 1 < 2 ^ 64) (Or.inr (by omega))
  obtain ⟨pre, post, hcont, hpre, -, -⟩ := nextLine_content hn
  have hret : (readFromBuffer m.heap.pool (m.heap.buf (c, .reading))
      (i + 1)).ret = i + 1 := by
    rw [htaken.ret, List.length_nil, Nat.zero_add]
    refine Nat.min_eq_left ?_
    show i + 1 ≤ (m.reading c).length
    rw [hcont, List.length_append, List.length_cons]
    omega
  have hcast : sizeT (cInt ((i + 1 : Nat) : Int)) = i + 1 := by
    rw [cInt_natCast (by omega), sizeT_natCast (by omega)]
  have heq : fetchMsgFromClient m after c
      = ⟨i + 1, (readFromBuffer m.heap.pool (m.heap.buf (c, .reading))
          (i + 1)).bytes,
        { data := m.data
          heap := m.heap.put (c, .reading)
            (readFromBuffer m.heap.pool (m.heap.buf (c, .reading)) (i + 1)).pool
            (readFromBuffer m.heap.pool (m.heap.buf (c, .reading))
              (i + 1)).buffer }⟩ := by
    rw [fetchMsgFromClient]
    simp only [h0, findInBuffer_zero hh after, Nat.not_lt_zero, if_false, hsize,
      hret, hcast]
    rw [update_data_self m c h0]
  rw [heq]
  have hput := hh.put htaken.moves
  exact {
    ret := rfl
    bytes := by rw [htaken.bytes]; rfl
    reading := (content_put _ _ _ _).trans htaken.content
    heap := hput.1
    same := hput.2
    outside := outside_put htaken.moves
    data := rfl
    buffer := rfl }

/-! ## The other calls -/

/-- **`fetch_from_client`** appends what `read` delivered. -/
theorem fetchFromClient_spec {m : Clients} {c : PClientInfo} {n : Nat}
    {reads : List ReadOutcome} (hh : HeapInv m.heap) (hn : n < 2 ^ 31)
    (hr : ReadsOk reads) :
    HeapInv (fetchFromClient m c (some n) reads).clients.heap
      ∧ (fetchFromClient m c (some n) reads).clients.reading c
          = m.reading c ++ (fetchFromClient m c (some n) reads).got
      ∧ (∀ j, j ≠ (c, .reading) →
          Same m.heap (fetchFromClient m c (some n) reads).clients.heap j)
      ∧ (fetchFromClient m c (some n) reads).clients.data = m.data
      ∧ Outside m.heap (fetchFromClient m c (some n) reads).clients.heap := by
  have happ := readIntoBuffer_spec hh.pool
    (hh.inv (c, .reading)) hn hr
  have hput := hh.put happ.moves
  rw [fetchFromClient]
  simp only [sizeT_natCast (show n < 2 ^ 64 by omega)]
  exact ⟨hput.1, (content_put _ _ _ _).trans happ.content, hput.2, trivial,
    outside_put happ.moves⟩

/-- **`send_msg_to_client`** appends the first bytes of the message, all of them
    when no allocation fails. -/
theorem sendMsgToClient_spec {m : Clients} (c : PClientInfo)
    (msg : List UInt8) {size : Nat} (hh : HeapInv m.heap)
    (hsize : size < 2 ^ 31) :
    HeapInv (sendMsgToClient m c msg size).2.heap
      ∧ (∃ k, (sendMsgToClient m c msg size).2.writing c
          = m.writing c ++ msg.take k)
      ∧ (NoFail m.heap.pool → (sendMsgToClient m c msg size).2.writing c
          = m.writing c ++ msg.take size)
      ∧ (∀ j, j ≠ (c, .writing) →
          Same m.heap (sendMsgToClient m c msg size).2.heap j)
      ∧ (sendMsgToClient m c msg size).2.data = m.data
      ∧ Outside m.heap (sendMsgToClient m c msg size).2.heap := by
  obtain ⟨happ, hgot, hall⟩ := writeIntoBuffer_spec msg hh.pool
    (hh.inv (c, .writing)) hsize
  have hput := hh.put happ.moves
  have hcont := (content_put m.heap (c, .writing) _ _).trans happ.content
  refine ⟨hput.1, ⟨_, hcont.trans (congrArg _ hgot)⟩, ?_, hput.2, rfl,
    outside_put happ.moves⟩
  intro hnf
  exact hcont.trans (congrArg _ (hall hnf))

/-- What `flush_messages` takes from the writing buffer: as much as its size
    says. -/
theorem flushMessages_taken {m : Clients} {c : PClientInfo}
    {writes : List WriteOutcome} (hh : HeapInv m.heap) (hw : WritesOk writes) :
    (flushMessages m c writes).bytes
        = (m.writing c).take (bufferSize (m.heap.buf (c, .writing)))
      ∧ (flushMessages m c writes).clients.writing c
        = (m.writing c).drop (bufferSize (m.heap.buf (c, .writing))) := by
  rw [flushMessages]
  dsimp only
  by_cases hpos : bufferSize (m.heap.buf (c, .writing)) > 0
  · rw [if_pos hpos]
    have htaken := writeFromBuffer_spec hh.pool (hh.inv (c, .writing))
      (bufferSize_lt (m.heap.buf (c, .writing))) hw
    refine ⟨htaken.bytes.trans (List.nil_append _), ?_⟩
    exact (content_put m.heap (c, .writing) _ _).trans htaken.content
  · rw [if_neg hpos, Nat.eq_zero_of_not_pos hpos]
    exact ⟨rfl, rfl⟩

/-- It touches no other buffer. -/
theorem flushMessages_frame {m : Clients} {c : PClientInfo}
    {writes : List WriteOutcome} (hh : HeapInv m.heap) (hw : WritesOk writes) :
    HeapInv (flushMessages m c writes).clients.heap
      ∧ (∀ j, j ≠ (c, .writing) →
          Same m.heap (flushMessages m c writes).clients.heap j)
      ∧ (flushMessages m c writes).clients.data = m.data
      ∧ Outside m.heap (flushMessages m c writes).clients.heap := by
  rw [flushMessages]
  dsimp only
  by_cases hpos : bufferSize (m.heap.buf (c, .writing)) > 0
  · rw [if_pos hpos]
    have htaken := writeFromBuffer_spec hh.pool (hh.inv (c, .writing))
      (bufferSize_lt (m.heap.buf (c, .writing))) hw
    have hput := hh.put htaken.moves
    exact ⟨hput.1, hput.2, rfl, outside_put htaken.moves⟩
  · rw [if_neg hpos]
    exact ⟨hh, fun j _ => Same.refl _ j, rfl, Outside.refl _⟩

/-- **`flush_messages`** without a `write` error empties the writing buffer. -/
theorem flushMessages_spec {m : Clients} {c : PClientInfo}
    {writes : List WriteOutcome} (hh : HeapInv m.heap) (hw : WritesOk writes) :
    HeapInv (flushMessages m c writes).clients.heap
      ∧ (∀ j, j ≠ (c, .writing) →
          Same m.heap (flushMessages m c writes).clients.heap j)
      ∧ (flushMessages m c writes).clients.data = m.data
      ∧ Outside m.heap (flushMessages m c writes).clients.heap
      ∧ ((m.writing c).length < 2 ^ 64 →
          (flushMessages m c writes).clients.writing c = []
          ∧ (flushMessages m c writes).bytes = m.writing c) := by
  obtain ⟨hheap, hsame, hdata, hout⟩ := flushMessages_frame (c := c) hh hw
  obtain ⟨hbytes, hleft⟩ := flushMessages_taken (c := c) hh hw
  refine ⟨hheap, hsame, hdata, hout, fun hlen => ?_⟩
  have hsize : (m.writing c).length ≤ bufferSize (m.heap.buf (c, .writing)) :=
    Nat.le_of_eq (bufferSize_eq (hh.inv (c, .writing)) hlen).symm
  rw [hbytes, hleft]
  exact ⟨List.drop_of_length_le hsize, List.take_of_length_le hsize⟩

/-- What `flush_messages` writes, and what it leaves, is what was queued. -/
theorem flushMessages_split {m : Clients} {c : PClientInfo}
    {writes : List WriteOutcome} (hh : HeapInv m.heap) (hw : WritesOk writes) :
    (flushMessages m c writes).bytes ++ (flushMessages m c writes).clients.writing c
      = m.writing c := by
  obtain ⟨hbytes, hleft⟩ := flushMessages_taken (c := c) hh hw
  rw [hbytes, hleft]
  exact List.take_append_drop _ _

/-- **`release_client_info`** destroys the two buffers of the client. -/
theorem releaseClientInfo_spec {m : Clients} (c : PClientInfo)
    (hh : HeapInv m.heap) :
    HeapInv (releaseClientInfo m c).heap
      ∧ (∀ j, j.1 ≠ c → Same m.heap (releaseClientInfo m c).heap j)
      ∧ (releaseClientInfo m c).data = m.data
      ∧ Outside m.heap (releaseClientInfo m c).heap := by
  have hmoves := moves_destroyBuffer hh.pool (hh.inv (c, .reading))
  have hput := hh.put hmoves
  have hmoves' := moves_destroyBuffer hput.1.pool (hput.1.inv (c, .writing))
  have hput' := hput.1.put hmoves'
  refine ⟨hput'.1, ?_, rfl, (outside_put hmoves).trans (outside_put hmoves')⟩
  intro j hj
  exact (hput.2 j (fun e => hj (congrArg Prod.fst e))).trans
    (hput'.2 j (fun e => hj (congrArg Prod.fst e)))

/-- **`new_client_info`** makes a client with empty buffers. -/
theorem newClientInfo_spec {m : Clients} (c : PClientInfo) (socketId : Int)
    (name : Option (List UInt8)) (hh : HeapInv m.heap) :
    HeapInv (newClientInfo m c socketId name).2.heap
      ∧ (∀ j, j.1 ≠ c →
          Same m.heap (newClientInfo m c socketId name).2.heap j)
      ∧ (∀ d, d ≠ c →
          (newClientInfo m c socketId name).2.data d = m.data d)
      ∧ Outside m.heap (newClientInfo m c socketId name).2.heap
      ∧ ((newClientInfo m c socketId name).1 = true →
          (newClientInfo m c socketId name).2.data c
            = ⟨updateClientName
                ⟨socketId, List.replicate clientNameMaximumSize 0, 0⟩ name, 0⟩
          ∧ ∀ side, (newClientInfo m c socketId name).2.heap.buf (c, side)
              = []) := by
  have hfail : ∀ p, Allocated m.heap.pool p →
      HeapInv (m.setPool p).heap ∧ ∀ j, Same m.heap (m.setPool p).heap j :=
    fun p ha => hh.pool_call (ha.inv hh.pool) (ha.keeps [])
      (fun _ _ _ => List.not_mem_nil)
  have hout : ∀ p, Allocated m.heap.pool p →
      Outside m.heap (m.setPool p).heap :=
    fun p ha => outside_pool (ha.keeps [])
  have ha1 := allocated_malloc m.heap.pool
  rw [newClientInfo]
  cases hm1 : malloc m.heap.pool with
  | mk ok1 p1 =>
      rw [hm1] at ha1
      cases ok1 with
      | false =>
          exact ⟨(hfail p1 ha1).1, fun j _ => (hfail p1 ha1).2 j,
            fun _ _ => rfl, hout p1 ha1, fun h => by cases h⟩
      | true =>
          have ha2 := ha1.trans (allocated_malloc p1)
          simp only
          cases hm2 : malloc p1 with
          | mk ok2 p2 =>
              rw [hm2] at ha2
              cases ok2 with
              | false =>
                  exact ⟨(hfail p2 ha2).1, fun j _ => (hfail p2 ha2).2 j,
                    fun _ _ => rfl, hout p2 ha2, fun h => by cases h⟩
              | true =>
                  have ha3 := ha2.trans (allocated_malloc p2)
                  simp only
                  cases hm3 : malloc p2 with
                  | mk ok3 p3 =>
                      rw [hm3] at ha3
                      obtain ⟨hh3, hsame3⟩ := hfail p3 ha3
                      cases ok3 with
                      | false =>
                          exact ⟨hh3, fun j _ => hsame3 j, fun _ _ => rfl,
                            hout p3 ha3, fun h => by cases h⟩
                      | true =>
                          -- the two buffers are set to empty lists
                          have hforget := moves_forget hh3.pool
                            ((m.setPool p3).heap.buf (c, .reading))
                          have hput := hh3.put hforget
                          have hforget' := moves_forget hput.1.pool
                            (((m.setPool p3).heap.put (c, .reading)
                              (m.setPool p3).heap.pool []).buf (c, .writing))
                          have hput' := hput.1.put hforget'
                          refine ⟨hput'.1, ?_, ?_, (hout p3 ha3).trans
                            ((outside_put hforget).trans
                              (outside_put hforget')), fun _ => ⟨?_, ?_⟩⟩
                          · intro j hj
                            have hne : ∀ side, j ≠ (c, side) :=
                              fun side e => hj (congrArg Prod.fst e)
                            exact (hsame3 j).trans ((hput.2 j (hne _)).trans
                              (hput'.2 j (hne _)))
                          · intro d hd
                            show Function.update m.data c _ d = m.data d
                            exact Function.update_of_ne hd ..
                          · simp only [Function.update_self]
                          · intro side
                            cases side with
                            | reading =>
                                have hr := hput'.2 (c, .reading)
                                  (reading_ne_writing c c)
                                exact hr.buf.trans (buf_put
                                  (m.setPool p3).heap (c, .reading) _ [])
                            | writing =>
                                exact buf_put ((m.setPool p3).heap.put
                                  (c, .reading) (m.setPool p3).heap.pool [])
                                  (c, .writing) _ []

end IMLineFraming

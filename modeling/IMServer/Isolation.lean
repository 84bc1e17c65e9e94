import IMServer.Framing

/-! # Isolation — a client's lines do not depend on the other clients

    All buffers draw their caches from one pool, so two runs may give a reading
    buffer different caches with different bytes around its own.  `Alike` says
    that two buffers differ in their caches only.  Reading from the socket and
    taking a line keep buffers alike, calls for other clients do not touch them,
    and the unwinding rule carries that to runs. -/

namespace IMIsolation

open IMBytes IMCString IMMachineInt IMCachePool IMBuffer IMBufferInvariant
  IMBufferAppend IMBufferTake IMBufferQueue IMClientInfo IMLineFraming
  IMServerInfo IMDelivery IMDispatch IMServerRun IMFraming IMTransition

/-! ## Buffers that differ in their caches only -/

def nodeOffsets (node : InnerNode) : Int × Int :=
  (node.wOffset, node.rOffset)

/-- The two buffers have nodes with the same offsets, and the same content. -/
structure Alike (p : CachePool) (b : Buffer) (p' : CachePool)
    (b' : Buffer) : Prop where
  offsets : b.map nodeOffsets = b'.map nodeOffsets
  content : content p b = content p' b'

theorem Alike.symm {p p' : CachePool} {b b' : Buffer} (h : Alike p b p' b') :
    Alike p' b' p b :=
  ⟨h.offsets.symm, h.content.symm⟩

theorem Alike.length {p p' : CachePool} {b b' : Buffer}
    (h : Alike p b p' b') : b.length = b'.length := by
  have hlen := congrArg List.length h.offsets
  rw [List.length_map, List.length_map] at hlen
  exact hlen

/-- A buffer as a call finds it, when no allocation fails. -/
structure Ready (p : CachePool) (b : Buffer) : Prop where
  pool : PoolInv p
  inv : BufferInv p b
  noFail : NoFail p

/-! ### Filling -/

variable {σ : Type} {next : Nat → σ → Option (List UInt8) × σ}

/-- Two runs of the loop ended alike. -/
structure FilledAlike (out out' : FillOut σ) : Prop where
  ret : out.ret = out'.ret
  failed : out.failed = out'.failed
  nodes : out.nodes.map nodeOffsets = out'.nodes.map nodeOffsets
  got : out.got = out'.got

theorem Ready.fill {p : CachePool} {done : List InnerNode} {node : InnerNode}
    {bs : List UInt8} (h : Ready p (done ++ [node]))
    (hfit : node.wOffset + bs.length ≤ cacheSize) :
    Ready (writeCache p node.cache node.wOffset.toNat bs)
      (done ++ [{ node with wOffset := node.wOffset + bs.length }]) := by
  have hmoves := (moves_fill h.pool h.inv hfit).1
  exact ⟨hmoves.pool, hmoves.inv, h.noFail.keeps hmoves.keeps⟩

theorem Ready.newNode {p : CachePool} {b : Buffer} (h : Ready p b)
    (hfull : ∀ n ∈ b, n.wOffset = cacheSize) :
    ∃ node p', newInnerNode p = (some node, p') ∧ node.wOffset = 0
      ∧ node.rOffset = 0 ∧ Ready p' (b ++ [node]) := by
  cases hnew : newInnerNode p with
  | mk o p' =>
      obtain ⟨-, -, hsome, hmade⟩ := newInnerNode_spec h.pool hnew
      obtain ⟨node, rfl⟩ := hmade h.noFail
      have hnn := hsome node rfl
      have hmoves := (moves_newNode h.inv hfull hnn).1
      exact ⟨node, p', rfl, hnn.wOffset, hnn.rOffset, hmoves.pool, hmoves.inv,
        h.noFail.keeps hmoves.keeps⟩

/-- The last node of two lists with the same offsets. -/
theorem offsets_split {done done' : List InnerNode} {node node' : InnerNode}
    (h : (done ++ [node]).map nodeOffsets = (done' ++ [node']).map nodeOffsets) :
    done.map nodeOffsets = done'.map nodeOffsets ∧ node.wOffset = node'.wOffset
      ∧ node.rOffset = node'.rOffset := by
  rw [List.map_append, List.map_append] at h
  obtain ⟨hdone, hlast⟩ := List.append_inj' h rfl
  have hnode : nodeOffsets node = nodeOffsets node' := (List.cons.inj hlast).1
  exact ⟨hdone, congrArg Prod.fst hnode, congrArg Prod.snd hnode⟩

theorem offsets_concat {done done' : List InnerNode} {node node' : InnerNode}
    (hdone : done.map nodeOffsets = done'.map nodeOffsets)
    (hw : node.wOffset = node'.wOffset) (hr : node.rOffset = node'.rOffset) :
    (done ++ [node]).map nodeOffsets = (done' ++ [node']).map nodeOffsets := by
  rw [List.map_append, List.map_append, hdone, List.map_singleton,
    List.map_singleton, nodeOffsets, nodeOffsets, hw, hr]

theorem fillLoop_alike (hnext : Bounded next) {size : Nat} :
    ∀ (fuel : Nat) (done done' : List InnerNode) (node node' : InnerNode)
      (p p' : CachePool) (s : σ) (got : List UInt8),
      Ready p (done ++ [node]) → Ready p' (done' ++ [node']) →
      node.wOffset < cacheSize →
      (done ++ [node]).map nodeOffsets = (done' ++ [node']).map nodeOffsets →
      FilledAlike (fillLoop next size fuel done node p s got)
        (fillLoop next size fuel done' node' p' s got) := by
  intro fuel
  induction fuel with
  | zero =>
      intro done done' node node' p p' s got _ _ _ hoff
      exact ⟨rfl, rfl, hoff, rfl⟩
  | succ fuel ih =>
      intro done done' node node' p p' s got h h' hw hoff
      obtain ⟨hdone, hnode, hr⟩ := offsets_split hoff
      have ho := (h.inv.offsets node (by simp)).nonneg
      have hw' : node'.wOffset < cacheSize := hnode ▸ hw
      rw [fillLoop, fillLoop]
      by_cases hlt : got.length < size
      · rw [if_pos hlt, if_pos hlt, ← hnode]
        simp only [readSize_eq (Int.le_trans ho.1 ho.2.1) hw size got.length]
        cases hread : next (min (size - got.length)
            (cacheSize - node.wOffset).toNat) s with
        | mk o s' =>
            cases o with
            | none => exact ⟨rfl, rfl, hoff, rfl⟩
            | some bs =>
                have hbs := hnext _ _ _ _ hread
                have hfit : node.wOffset + bs.length ≤ cacheSize := by
                  simp only [cacheSize] at *
                  omega
                have hgrown : (done ++ [{ node with
                      wOffset := node.wOffset + bs.length }]).map nodeOffsets
                    = (done' ++ [{ node' with
                      wOffset := node.wOffset + bs.length }]).map nodeOffsets :=
                  offsets_concat hdone rfl hr
                by_cases hend : (got ++ bs).length = size
                    ∨ bs.length < min (size - got.length)
                        (cacheSize - node.wOffset).toNat
                · simp only [if_pos hend]
                  exact ⟨rfl, rfl, hgrown, rfl⟩
                · simp only [if_neg hend]
                  rw [List.length_append] at hend
                  have hfull := full_of_round h.inv hw hlt hbs hend
                  have hfull' := full_of_round h'.inv hw' hlt
                    (hnode ▸ hbs) (hnode ▸ hend)
                  obtain ⟨n, q, hnew, hnw, hnr, hready⟩ :=
                    (h.fill hfit).newNode hfull
                  obtain ⟨n', q', hnew', hnw', hnr', hready'⟩ :=
                    (h'.fill (hnode ▸ hfit)).newNode hfull'
                  rw [← hnode] at hnew' hready'
                  rw [hnew, hnew']
                  exact ih _ _ n n' q q' s' (got ++ bs) hready hready'
                    (by rw [hnw]; decide)
                    (offsets_concat hgrown (hnw.trans hnw'.symm)
                      (hnr.trans hnr'.symm))
      · rw [if_neg hlt, if_neg hlt]
        exact ⟨rfl, rfl, hoff, rfl⟩

/-- The splice keeps what is alike. -/
theorem finishFill_alike {b b' : Buffer} {out out' : FillOut σ} {w w' : Nat}
    (hlen : b.length = b'.length) (h : FilledAlike out out')
    (hf : out.failed = false) :
    (finishFill b w out).buffer.map nodeOffsets
        = (finishFill b' w' out').buffer.map nodeOffsets
      ∧ (finishFill b w out).got = (finishFill b' w' out').got := by
  have htake : (out.nodes.take b.length).map nodeOffsets
      = (out'.nodes.take b'.length).map nodeOffsets := by
    rw [List.map_take, List.map_take, h.nodes, hlen]
  have hdrop : out.nodes.drop b.length = [] ↔ out'.nodes.drop b'.length = [] := by
    have hnodes := congrArg List.length h.nodes
    rw [List.length_map, List.length_map] at hnodes
    rw [List.drop_eq_nil_iff, List.drop_eq_nil_iff, hnodes, hlen]
  refine ⟨?_, ((finishFill_got_src b w out).1.trans h.got).trans
    (finishFill_got_src b' w' out').1.symm⟩
  unfold finishFill
  simp only [← h.failed, hf, Bool.false_eq_true, if_false, ← h.ret]
  by_cases hpos : out.ret > 0 ∧ out.nodes.drop b.length ≠ []
  · rw [if_pos hpos, if_pos ⟨hpos.1, fun e => hpos.2 (hdrop.mpr e)⟩]
    simp only [List.take_append_drop]
    exact h.nodes
  · rw [if_neg hpos, if_neg (fun e => hpos ⟨e.1, fun e' => e.2 (hdrop.mp e')⟩)]
    exact htake

/-- **FILLING** alike buffers from the same source leaves alike buffers. -/
theorem fillBuffer_alike (hnext : Bounded next) {ok : σ → Prop}
    (hok : NeverFails next ok) (size : Nat) {p p' : CachePool} {b b' : Buffer}
    {s : σ} (hs : ok s) (h : Ready p b) (h' : Ready p' b')
    (hab : Alike p b p' b') :
    (fillBuffer next size p b s).buffer.map nodeOffsets
        = (fillBuffer next size p' b' s).buffer.map nodeOffsets
      ∧ (fillBuffer next size p b s).got = (fillBuffer next size p' b' s).got := by
  have hfresh : (∀ n ∈ b, n.wOffset = cacheSize) →
      (∀ n ∈ b', n.wOffset = cacheSize) →
      (fillNewNode next size p b s).buffer.map nodeOffsets
          = (fillNewNode next size p' b' s).buffer.map nodeOffsets
        ∧ (fillNewNode next size p b s).got
          = (fillNewNode next size p' b' s).got := by
    intro hfull hfull'
    obtain ⟨n, q, hn, hw, hr, hready⟩ := h.newNode hfull
    obtain ⟨n', q', hn', hw', hr', hready'⟩ := h'.newNode hfull'
    rw [fillNewNode, fillNewNode, hn, hn']
    exact finishFill_alike hab.length (fillLoop_alike hnext (size + 1) b b' n n' q
      q' s [] hready hready' (by rw [hw]; decide)
      (offsets_concat hab.offsets (hw.trans hw'.symm) (hr.trans hr'.symm)))
      (fillLoop_not_failed hok _ _ _ _ _ _ _ hs)
  unfold fillBuffer
  rcases List.eq_nil_or_concat b with rfl | ⟨done, node, rfl⟩
  · obtain rfl := List.eq_nil_of_length_eq_zero hab.length.symm
    exact hfresh (fun _ hn => by cases hn) (fun _ hn => by cases hn)
  · rcases List.eq_nil_or_concat b' with rfl | ⟨done', node', rfl⟩
    · have hlen := hab.length
      rw [List.length_concat] at hlen
      cases hlen
    · simp only [List.concat_eq_append] at *
      obtain ⟨hdone, hnode, hr⟩ := offsets_split hab.offsets
      rw [List.getLast?_concat, List.getLast?_concat]
      simp only [← hnode, List.dropLast_concat]
      by_cases hw : node.wOffset = cacheSize
      · rw [if_pos hw, if_pos hw]
        have hall : ∀ {q : CachePool} {d : List InnerNode} {m : InnerNode},
            BufferInv q (d ++ [m]) → m.wOffset = cacheSize →
            ∀ n ∈ d ++ [m], n.wOffset = cacheSize := by
          intro q d m hinv hm
          refine allFull_of_last hinv fun last hlast => ?_
          rw [List.getLast?_concat] at hlast
          exact Option.some.inj hlast ▸ hm
        exact hfresh (hall h.inv hw) (hall h'.inv (hnode ▸ hw))
      · rw [if_neg hw, if_neg hw]
        exact finishFill_alike hab.length (fillLoop_alike hnext (size + 1) done
          done' node node' p p' s [] h h' (lastRoom h.inv hw).2 hab.offsets)
          (fillLoop_not_failed hok _ _ _ _ _ _ _ hs)

/-! ### Taking a line -/

/-- The reading buffers of `c` in two memories. -/
def AlikeReading (c : PClientInfo) (m m' : Clients) : Prop :=
  Alike m.heap.pool (m.heap.buf (c, .reading)) m'.heap.pool
    (m'.heap.buf (c, .reading))

theorem AlikeReading.of_same {c : PClientInfo} {m m₁ m' : Clients}
    (h : AlikeReading c m m') (hs : Same m.heap m₁.heap (c, .reading)) :
    AlikeReading c m₁ m' :=
  ⟨by rw [hs.buf]; exact h.offsets, hs.content.trans h.content⟩

/-- The bytes of the first node are the first bytes of the content. -/
theorem nodeBytes_first {p : CachePool} {node : InnerNode} {rest : Buffer}
    (hb : BufferInv p (node :: rest)) :
    nodeBytes p node = (content p (node :: rest)).take (nodeSize node).toNat := by
  rw [content_cons, ← hb.length_first, List.take_left]

/-- Alike buffers have the same first node, up to its cache. -/
theorem Alike.first {p p' : CachePool} {node node' : InnerNode}
    {rest rest' : Buffer} (h : Alike p (node :: rest) p' (node' :: rest'))
    (hb : BufferInv p (node :: rest)) (hb' : BufferInv p' (node' :: rest')) :
    nodeOffsets node = nodeOffsets node'
      ∧ rest.map nodeOffsets = rest'.map nodeOffsets
      ∧ nodeSize node = nodeSize node'
      ∧ nodeBytes p node = nodeBytes p' node' := by
  obtain ⟨hnode, hrest⟩ := List.cons.inj h.offsets
  have hsize : nodeSize node = nodeSize node' := by
    rw [nodeSize, nodeSize, show node.wOffset = node'.wOffset from
      congrArg Prod.fst hnode, show node.rOffset = node'.rOffset from
      congrArg Prod.snd hnode]
  refine ⟨hnode, hrest, hsize, ?_⟩
  rw [nodeBytes_first hb, nodeBytes_first hb', h.content, hsize]

/-- The same line is next. -/
theorem nextLine_alike {c : PClientInfo} {m m' : Clients}
    (h : HeapInv m.heap) (h' : HeapInv m'.heap) (ha : AlikeReading c m m') :
    nextLine m c = nextLine m' c := by
  have hb := h.inv (c, .reading)
  have hb' := h'.inv (c, .reading)
  rw [AlikeReading] at ha
  rw [nextLine, nextLine]
  cases hbuf : m.heap.buf (c, .reading) with
  | nil =>
      rw [hbuf] at ha
      rw [List.eq_nil_of_length_eq_zero ha.length.symm]
  | cons node rest =>
      cases hbuf' : m'.heap.buf (c, .reading) with
      | nil =>
          rw [hbuf, hbuf'] at ha
          cases ha.length
      | cons node' rest' =>
          rw [hbuf] at ha hb
          rw [hbuf'] at ha hb'
          obtain ⟨-, -, -, hbytes⟩ := ha.first hb hb'
          simp only [hbytes]

/-- What is left behind the line is alike. -/
theorem lineTaken_alike {c : PClientInfo} {m m' : Clients} {i : Nat}
    {r r' : TakeResult} (h : HeapInv m.heap) (h' : HeapInv m'.heap)
    (ha : AlikeReading c m m') (hn : nextLine m c = some i)
    (hr : LineTaken m c i r) (hr' : LineTaken m' c i r') :
    r.bytes = r'.bytes ∧ AlikeReading c r.clients r'.clients := by
  have hcont : m.reading c = m'.reading c := ha.content
  refine ⟨by rw [hr.bytes, hr'.bytes, hcont], ?_, ?_⟩
  · have hn' := hn
    rw [nextLine_alike h h' ha] at hn'
    have hb := h.inv (c, .reading)
    have hb' := h'.inv (c, .reading)
    rw [hr.buffer, hr'.buffer, buf_put, buf_put]
    rw [nextLine] at hn hn'
    rw [AlikeReading] at ha
    cases hbuf : m.heap.buf (c, .reading) with
    | nil =>
        rw [hbuf] at hn
        cases hn
    | cons node rest =>
        cases hbuf' : m'.heap.buf (c, .reading) with
        | nil =>
            rw [hbuf'] at hn'
            cases hn'
        | cons node' rest' =>
            rw [hbuf] at ha hb hn
            rw [hbuf'] at ha hb' hn'
            obtain ⟨hnode, hrest, hsize, -⟩ := ha.first hb hb'
            -- the line ends inside the first node
            have hlen := hb.length_first
            obtain ⟨pre, post, hsplit, rfl, -, -⟩ := strchr_eq_some hn
            have hle := congrArg List.length hsplit
            rw [hlen, List.length_append, List.length_cons] at hle
            rw [(readFromBuffer_first hb (Nat.succ_pos _) (by omega)).2,
              (readFromBuffer_first hb' (Nat.succ_pos _)
                (by rw [← hsize]; omega)).2, ← hsize]
            by_cases hend : pre.length + 1 = (nodeSize node).toNat
            · rw [if_pos hend, if_pos hend]
              exact hrest
            · rw [if_neg hend, if_neg hend, List.map_cons, List.map_cons, hrest]
              refine congrArg (· :: _) ?_
              rw [nodeOffsets, nodeOffsets, show node.wOffset = node'.wOffset from
                congrArg Prod.fst hnode, show node.rOffset = node'.rOffset from
                congrArg Prod.snd hnode]
  · show r.clients.reading c = r'.clients.reading c
    rw [hr.reading, hr'.reading, hcont]

/-! ### A call of `try_to_handle_msg` -/

/-- **`fetch_from_client`** with the same outcomes keeps the buffers alike. -/
theorem fetchFromClient_alike {c : PClientInfo} {m m' : Clients} {n : Nat}
    {reads : List ReadOutcome} (h : HeapInv m.heap) (h' : HeapInv m'.heap)
    (hnf : NoFail m.heap.pool) (hnf' : NoFail m'.heap.pool) (hn : n < 2 ^ 31)
    (hr : ReadsOk reads) (ha : AlikeReading c m m') :
    AlikeReading c (fetchFromClient m c (some n) reads).clients
      (fetchFromClient m' c (some n) reads).clients := by
  obtain ⟨-, hread, -⟩ := fetchFromClient_spec (c := c) h hn hr
  obtain ⟨-, hread', -⟩ := fetchFromClient_spec (c := c) h' hn hr
  obtain ⟨hoff, hgot⟩ := fillBuffer_alike bounded_fdRead neverFails_fdRead n hr ⟨h.pool, h.inv (c, .reading), hnf⟩
    ⟨h'.pool, h'.inv (c, .reading), hnf'⟩ ha
  have hcont : m.reading c = m'.reading c := ha.content
  have heq : ∀ m : Clients, fetchFromClient m c (some n) reads
      = ⟨(readIntoBuffer m.heap.pool (m.heap.buf (c, .reading)) n reads).ret,
        (readIntoBuffer m.heap.pool (m.heap.buf (c, .reading)) n reads).got,
        { m with
          heap := m.heap.put (c, .reading)
            (readIntoBuffer m.heap.pool (m.heap.buf (c, .reading)) n reads).pool
            (readIntoBuffer m.heap.pool (m.heap.buf (c, .reading)) n
              reads).buffer }⟩ := by
    intro m
    rw [fetchFromClient, sizeT_natCast (show n < 2 ^ 64 by omega)]
  have hgot' : (fetchFromClient m c (some n) reads).got
      = (fetchFromClient m' c (some n) reads).got := by
    rw [heq, heq]
    exact hgot
  refine ⟨?_, ?_⟩
  · rw [heq, heq, buf_put, buf_put]
    exact hoff
  · show Clients.reading _ c = Clients.reading _ c
    rw [hread, hread', hcont, hgot']

/-- Two servers on which `c` waits with alike reading buffers. -/
structure Twins (c : PClientInfo) (s s' : ServerInfo) : Prop where
  inv : ServerInv s
  inv' : ServerInv s'
  listed : c ∈ s.clients
  listed' : c ∈ s'.clients
  noFail : NoFail s.pool
  noFail' : NoFail s'.pool
  alike : AlikeReading c s.mem s'.mem

/-- **ONE ROUND** takes the same line on both, whatever it does to the others. -/
theorem Twins.round {c : PClientInfo} {s s' : ServerInfo} (h : Twins c s s')
    {i : Nat} (hn : nextLine s.mem c = some i) (env env' : Surround) :
    roundLine s c env = roundLine s' c env'
      ∧ Twins c (afterRound s c env) (afterRound s' c env') := by
  have hn' := hn
  rw [nextLine_alike h.inv.heap h.inv'.heap h.alike] at hn'
  have hr := round_spec h.inv h.listed env hn
  have hr' := round_spec h.inv' h.listed' env' hn'
  obtain ⟨hline, halike⟩ := lineTaken_alike h.inv.heap h.inv'.heap h.alike hn
    hr.taken hr'.taken
  refine ⟨hline, hr.inv, hr'.inv, hr.listed h.listed, hr'.listed h.listed',
    hr.handled.outside.noFail (hr.taken.outside.noFail h.noFail),
    hr'.handled.outside.noFail (hr'.taken.outside.noFail h.noFail'), ?_⟩
  have hleft := AlikeReading.of_same halike (hr.handled.reading c)
  exact (AlikeReading.of_same hleft.symm (hr'.handled.reading c)).symm

theorem handleLoop_alike {c : PClientInfo} (envs envs' : Nat → Surround) :
    ∀ (fuel round need need' : Nat) (lines : List (List UInt8))
      (s s' : ServerInfo), Twins c s s' →
      (handleLoop c envs fuel round lines need s).lines
          = (handleLoop c envs' fuel round lines need' s').lines
        ∧ AlikeReading c (handleLoop c envs fuel round lines need s).server.mem
          (handleLoop c envs' fuel round lines need' s').server.mem := by
  intro fuel
  induction fuel with
  | zero => intro _ _ _ _ s s' h; exact ⟨rfl, h.alike⟩
  | succ fuel ih =>
      intro round need need' lines s s' h
      cases hn : nextLine s.mem c with
      | none =>
          have hn' := hn
          rw [nextLine_alike h.inv.heap h.inv'.heap h.alike] at hn'
          rw [handleLoop_none h.inv h.listed hn,
            handleLoop_none h.inv' h.listed' hn']
          exact ⟨rfl, h.alike⟩
      | some i =>
          have hn' := hn
          rw [nextLine_alike h.inv.heap h.inv'.heap h.alike] at hn'
          have hr := round_spec h.inv h.listed (envs round) hn
          have hr' := round_spec h.inv' h.listed' (envs' round) hn'
          obtain ⟨hline, htwins⟩ := h.round hn (envs round) (envs' round)
          rw [handleLoop_succ, handleLoop_succ, if_pos hr.goesOn,
            if_pos hr'.goesOn, hline]
          exact ih _ _ _ _ _ _ htwins

/-- **`try_to_handle_msg`** extracts the same lines on both. -/
theorem tryToHandleMsg_alike {c : PClientInfo} {s s' : ServerInfo}
    (h : Twins c s s') (envs envs' : Nat → Surround) :
    (tryToHandleMsg s c envs).lines = (tryToHandleMsg s' c envs').lines
      ∧ AlikeReading c (tryToHandleMsg s c envs).server.mem
        (tryToHandleMsg s' c envs').server.mem := by
  have hsignal : ∀ r : HandleResult, (signalFlush r).lines = r.lines
      ∧ (signalFlush r).server.mem = r.server.mem := by
    intro r
    rw [signalFlush]
    split <;> exact ⟨rfl, rfl⟩
  have hlen : (s.mem.reading c).length = (s'.mem.reading c).length :=
    congrArg List.length h.alike.content
  rw [tryToHandleMsg, tryToHandleMsg, (hsignal _).1, (hsignal _).1,
    (hsignal _).2, (hsignal _).2, hlen]
  exact handleLoop_alike envs envs' _ 0 0 0 [] s s' h

/-! ## Runs -/

/-- What a call brings for a client: it is accepted, its socket delivers the
    outcomes of `ioctl` and `read`, or its lines are to be handled. -/
inductive Input where
  | accept
  | fetch (byteAvailable : Nat) (reads : List ReadOutcome)
  | handle

/-- The input of the client `c` in an event, none in any other call. -/
def input (c : PClientInfo) : ServerEvent → Option Input
  | .accept d _ => if d = c then some .accept else none
  | .fetch d byteAvailable reads =>
      if d = c then some (.fetch byteAvailable reads) else none
  | .handle d _ => if d = c then some .handle else none
  | .markFail _ => none
  | .flush _ _ => none
  | .logout _ _ => none

/-- No call adds a failing allocation. -/
theorem noFail_step {r r' : ServerRun} {e : ServerEvent} (h : RunInv r)
    (hnf : NoFail r.server.pool) (hstep : serverSystem.step r e = some r') :
    NoFail r'.server.pool := by
  have hstep' : serverStep r e = some r' := hstep
  cases e with
  | accept d socketId =>
      obtain ⟨hok, hr⟩ := Option.ite_none_right_eq_some.mp hstep'
      obtain rfl := Option.some.inj hr
      exact (acceptClient_spec h.server hok.1 hok.2).2.2.1.noFail hnf
  | fetch d n reads =>
      obtain ⟨hok, hr⟩ := Option.ite_none_right_eq_some.mp hstep'
      obtain rfl := Option.some.inj hr
      obtain ⟨-, -, -, -, hout⟩ := fetchFromClient_spec (c := d) h.server.heap
        hok.2.1 hok.2.2
      exact hout.noFail hnf
  | handle d envs =>
      obtain ⟨hd, hserver, -, -⟩ := serverStep_handle hstep'
      rw [hserver]
      exact (tryToHandleMsg_spec h.server hd envs).noFail hnf
  | markFail d =>
      obtain ⟨-, hr⟩ := Option.ite_none_right_eq_some.mp hstep'
      obtain rfl := Option.some.inj hr
      exact hnf
  | flush d writes =>
      obtain ⟨hok, hr⟩ := Option.ite_none_right_eq_some.mp hstep'
      obtain rfl := Option.some.inj hr
      obtain ⟨-, -, -, hout, -⟩ := flushMessages_spec (c := d) h.server.heap
        hok.2
      exact hout.noFail hnf
  | logout d junk =>
      obtain ⟨hd, hr⟩ := Option.ite_none_right_eq_some.mp hstep'
      obtain rfl := Option.some.inj hr
      exact (userLogout_spec h.server hd junk).2.2.1 hnf

/-- A call without input for `c` does not touch its reading buffer. -/
theorem step_silent {c : PClientInfo} {r r' : ServerRun} {e : ServerEvent}
    (h : RunInv r) (hstep : serverSystem.step r e = some r')
    (hin : input c e = none) :
    r'.handed c = r.handed c
      ∧ (c ∈ r'.server.clients → c ∈ r.server.clients
        ∧ Same r.server.mem.heap r'.server.mem.heap (c, .reading)) := by
  have hstep' : serverStep r e = some r' := hstep
  cases e with
  | accept d socketId =>
      obtain ⟨hok, hr⟩ := Option.ite_none_right_eq_some.mp hstep'
      obtain rfl := Option.some.inj hr
      have hd : c ≠ d := by
        rintro rfl
        rw [input, if_pos rfl] at hin
        cases hin
      obtain ⟨-, hsame, -, -, hcl⟩ := acceptClient_spec h.server hok.1 hok.2
      refine ⟨Function.update_of_ne hd .., fun hc => ⟨?_, hsame _ hd⟩⟩
      rcases hcl with h1 | ⟨h2, -⟩
      · exact h1 ▸ hc
      · rw [h2] at hc
        exact (List.mem_append.mp hc).resolve_right
          (fun h => hd (List.mem_singleton.mp h))
  | fetch d n reads =>
      obtain ⟨hok, hr⟩ := Option.ite_none_right_eq_some.mp hstep'
      obtain rfl := Option.some.inj hr
      have hd : c ≠ d := by
        rintro rfl
        rw [input, if_pos rfl] at hin
        cases hin
      obtain ⟨-, -, hsame, -⟩ := fetchFromClient_spec (c := d) h.server.heap
        hok.2.1 hok.2.2
      exact ⟨rfl, fun hc => ⟨hc, hsame _ (fun e => hd (congrArg Prod.fst e))⟩⟩
  | handle d envs =>
      obtain ⟨hd', hserver, -, hhanded⟩ := serverStep_handle hstep'
      have hd : c ≠ d := by
        rintro rfl
        rw [input, if_pos rfl] at hin
        cases hin
      have hl := tryToHandleMsg_spec h.server hd' envs
      rw [hserver, hhanded, hl.clients]
      exact ⟨Function.update_of_ne hd .., fun hc => ⟨hc, hl.others c hd⟩⟩
  | markFail d =>
      obtain ⟨-, hr⟩ := Option.ite_none_right_eq_some.mp hstep'
      obtain rfl := Option.some.inj hr
      exact ⟨rfl, fun hc => ⟨hc, Same.refl _ _⟩⟩
  | flush d writes =>
      obtain ⟨hok, hr⟩ := Option.ite_none_right_eq_some.mp hstep'
      obtain rfl := Option.some.inj hr
      obtain ⟨-, hsame, -⟩ := flushMessages_spec (c := d) h.server.heap hok.2
      exact ⟨rfl, fun hc => ⟨hc, hsame _ (reading_ne_writing c d)⟩⟩
  | logout d junk =>
      obtain ⟨hd', hr⟩ := Option.ite_none_right_eq_some.mp hstep'
      obtain rfl := Option.some.inj hr
      obtain ⟨-, hsame, -, -, pre, post, hsplit, hcl⟩ := userLogout_spec h.server
        hd' junk
      have hnd := h.server.nodup
      rw [hsplit, List.nodup_middle, List.nodup_cons] at hnd
      refine ⟨rfl, fun hc => ?_⟩
      have hrest : c ∈ pre ++ post := hcl ▸ hc
      refine ⟨?_, hsame c (fun e => hnd.1 (e ▸ hrest))⟩
      rw [hsplit]
      exact ((List.sublist_cons_self d post).append_left pre).subset hrest

/-- **THE RELATION** between the two runs: the same lines were extracted for `c`,
    and while it is connected in both, its reading buffers are alike. -/
structure Agree (c : PClientInfo) (r r' : ServerRun) : Prop where
  inv : RunInv r
  inv' : RunInv r'
  noFail : NoFail r.server.pool
  noFail' : NoFail r'.server.pool
  handed : r.handed c = r'.handed c
  alike : c ∈ r.server.clients → c ∈ r'.server.clients →
    AlikeReading c r.server.mem r'.server.mem

theorem Agree.symm {c : PClientInfo} {r r' : ServerRun} (h : Agree c r r') :
    Agree c r' r :=
  ⟨h.inv', h.inv, h.noFail', h.noFail, h.handed.symm,
    fun h1 h2 => (h.alike h2 h1).symm⟩

theorem agree_silent {c : PClientInfo} {r r' r₁ : ServerRun} {e : ServerEvent}
    (h : Agree c r r') (hin : input c e = none)
    (hstep : serverSystem.step r e = some r₁) : Agree c r₁ r' := by
  obtain ⟨hhanded, hkept⟩ := step_silent h.inv hstep hin
  refine ⟨runInv_step h.inv hstep, h.inv', noFail_step h.inv h.noFail hstep,
    h.noFail', hhanded.trans h.handed, fun hc hc' => ?_⟩
  obtain ⟨hbefore, hsame⟩ := hkept hc
  exact (h.alike hbefore hc').of_same hsame

/-- The state of `c` behind a call with input for it. -/
theorem agree_of {c : PClientInfo} {r r' r₁ r₁' : ServerRun}
    {e e' : ServerEvent} (h : Agree c r r')
    (hstep : serverSystem.step r e = some r₁)
    (hstep' : serverSystem.step r' e' = some r₁')
    (hhanded : r₁.handed c = r₁'.handed c)
    (halike : c ∈ r₁.server.clients → c ∈ r₁'.server.clients →
      AlikeReading c r₁.server.mem r₁'.server.mem) : Agree c r₁ r₁' :=
  ⟨runInv_step h.inv hstep, runInv_step h.inv' hstep',
    noFail_step h.inv h.noFail hstep, noFail_step h.inv' h.noFail' hstep',
    hhanded, halike⟩

/-- An event with input for `c` is one of three. -/
theorem input_cases {c : PClientInfo} {e : ServerEvent} {i : Input}
    (h : input c e = some i) :
    (∃ socketId, e = .accept c socketId ∧ i = .accept)
      ∨ (∃ n reads, e = .fetch c n reads ∧ i = .fetch n reads)
      ∨ ∃ envs, e = .handle c envs ∧ i = .handle := by
  cases e with
  | accept d socketId =>
      obtain ⟨rfl, hi⟩ := Option.ite_none_right_eq_some.mp h
      exact Or.inl ⟨socketId, rfl, (Option.some.inj hi).symm⟩
  | fetch d n reads =>
      obtain ⟨rfl, hi⟩ := Option.ite_none_right_eq_some.mp h
      exact Or.inr (Or.inl ⟨n, reads, rfl, (Option.some.inj hi).symm⟩)
  | handle d envs =>
      obtain ⟨rfl, hi⟩ := Option.ite_none_right_eq_some.mp h
      exact Or.inr (Or.inr ⟨envs, rfl, (Option.some.inj hi).symm⟩)
  | markFail | flush | logout => cases h

/-- A client that was just accepted has an empty reading buffer. -/
theorem accepted_empty {c : PClientInfo} {s : ServerInfo} {socketId : Int}
    (h : ServerInv s) (hc : c ∉ s.clients)
    (hsocket : ∀ d ∈ s.clients, (s.mem.info d).socketId ≠ socketId)
    (hin : c ∈ (acceptClient s c socketId).clients) :
    (acceptClient s c socketId).mem.heap.buf (c, .reading) = [] := by
  obtain ⟨-, -, -, -, hcl⟩ := acceptClient_spec h hc hsocket
  rcases hcl with h1 | ⟨-, h2, -⟩
  · exact absurd (h1 ▸ hin) hc
  · exact h2 .reading

/-- The same input on both sides. -/
theorem agree_input {c : PClientInfo} {r r' r₁ r₁' : ServerRun}
    {e e' : ServerEvent} {i : Input} (h : Agree c r r')
    (hin : input c e = some i) (hin' : input c e' = some i)
    (hstep : serverSystem.step r e = some r₁)
    (hstep' : serverSystem.step r' e' = some r₁') : Agree c r₁ r₁' := by
  have hrest := agree_of h hstep hstep'
  rcases input_cases hin with ⟨sock, rfl, rfl⟩ | ⟨n, reads, rfl, rfl⟩
    | ⟨envs, rfl, rfl⟩
  · obtain ⟨sock', rfl, -⟩ | ⟨_, _, -, hi⟩ | ⟨_, -, hi⟩ := input_cases hin'
    · obtain ⟨hok, hr⟩ := Option.ite_none_right_eq_some.mp hstep
      obtain ⟨hok', hr'⟩ := Option.ite_none_right_eq_some.mp hstep'
      obtain rfl := Option.some.inj hr
      obtain rfl := Option.some.inj hr'
      refine hrest ?_ ?_
      · simp only [Function.update_self]
      · intro hc hc'
        have hempty := accepted_empty h.inv.server hok.1 hok.2 hc
        have hempty' := accepted_empty h.inv'.server hok'.1 hok'.2 hc'
        refine ⟨?_, ?_⟩
        · rw [hempty, hempty']
        · rw [hempty, hempty', content_nil, content_nil]
    · cases hi
    · cases hi
  · obtain ⟨_, -, hi⟩ | ⟨n', reads', rfl, hi⟩ | ⟨_, -, hi⟩ := input_cases hin'
    · cases hi
    · obtain ⟨rfl, rfl⟩ := Input.fetch.inj hi
      obtain ⟨hok, hr⟩ := Option.ite_none_right_eq_some.mp hstep
      obtain ⟨hok', hr'⟩ := Option.ite_none_right_eq_some.mp hstep'
      obtain rfl := Option.some.inj hr
      obtain rfl := Option.some.inj hr'
      refine hrest h.handed (fun _ _ => ?_)
      exact fetchFromClient_alike h.inv.server.heap h.inv'.server.heap h.noFail
        h.noFail' hok.2.1 hok.2.2 (h.alike hok.1 hok'.1)
    · cases hi
  · obtain ⟨_, -, hi⟩ | ⟨_, _, -, hi⟩ | ⟨envs', rfl, -⟩ := input_cases hin'
    · cases hi
    · cases hi
    · obtain ⟨hc, hserver, -, hhanded⟩ := serverStep_handle hstep
      obtain ⟨hc', hserver', -, hhanded'⟩ := serverStep_handle hstep'
      obtain ⟨hlines, halike⟩ := tryToHandleMsg_alike ⟨h.inv.server,
        h.inv'.server, hc, hc', h.noFail, h.noFail', h.alike hc hc'⟩ envs envs'
      refine hrest ?_ (fun _ _ => ?_)
      · rw [hhanded, hhanded', Function.update_self, Function.update_self,
          h.handed, hlines]
      · rw [hserver, hserver']
        exact halike

/-- **ISOLATION**: over two runs in which the client `c` has the same input, and
    everything else may differ, the same lines are extracted for `c`, and while it
    is connected in both, its reading buffers have the same content. -/
theorem input_isolation {r r' t t' : ServerRun} (h : serverSystem.start r)
    (h' : serverSystem.start r') (hnf : NoFail r.server.pool)
    (hnf' : NoFail r'.server.pool) {c : PClientInfo}
    (hhanded : r.handed c = r'.handed c) {es es' : List ServerEvent}
    (hin : es.filterMap (input c) = es'.filterMap (input c))
    (hrun : runFrom serverSystem r es = some t)
    (hrun' : runFrom serverSystem r' es' = some t') :
    t.handed c = t'.handed c
      ∧ (c ∈ t.server.clients → c ∈ t'.server.clients →
        t.server.mem.reading c = t'.server.mem.reading c) := by
  have hstart : Agree c r r' := ⟨runInv_start h, runInv_start h', hnf, hnf',
    hhanded, fun hc _ => absurd (h.1 ▸ hc) List.not_mem_nil⟩
  have hend := unwinding serverSystem (input c) (R := Agree c)
    (fun _ _ h => h.symm) (fun _ _ _ _ h he hs => agree_silent h he hs)
    (fun _ _ _ _ _ _ _ h he he' hs hs' => agree_input h he he' hs hs')
    es es' r r' t t' hstart hin hrun hrun'
  exact ⟨hend.handed, fun hc hc' => (hend.alike hc hc').content⟩

/-- A client alone, and the same client next to one that sends longer lines
    first. -/
def alone : List ServerEvent :=
  [.accept 1 4, .fetch 1 8 [.bytes (ascii "hi\nthere")],
    .handle 1 fun _ => bareSurround]

def accompanied : List ServerEvent :=
  [.accept 2 5, .fetch 2 13 [.bytes (ascii "LOGIN: ann\nyes")],
    .handle 2 fun _ => bareSurround, .logout 2 ([], []), .accept 1 6,
    .accept 2 7, .fetch 1 8 [.bytes (ascii "hi\nthere")],
    .fetch 2 4 [.bytes (ascii "yes\n")], .handle 1 fun _ => bareSurround]

theorem input_isolation_accompanied :
    ∃ t t', runFrom serverSystem freshServer alone = some t
      ∧ runFrom serverSystem freshServer accompanied = some t'
      ∧ t.handed 1 = t'.handed 1
      ∧ t.server.mem.reading 1 = t'.server.mem.reading 1 := by
  have hrun : ∀ es ∈ [alone, accompanied],
      ((runFrom serverSystem freshServer es).any fun r =>
        decide ((1 : PClientInfo) ∈ r.server.clients)) = true := by
    decide +kernel
  obtain ⟨t, ht, hc⟩ := (Option.any_eq_true _ _).mp (hrun alone (by simp))
  obtain ⟨t', ht', hc'⟩ := (Option.any_eq_true _ _).mp
    (hrun accompanied (by simp))
  have hnf : NoFail freshServer.server.pool :=
    fun _ h => absurd h List.not_mem_nil
  obtain ⟨hhanded, hreading⟩ := input_isolation freshServer_start
    freshServer_start hnf hnf (c := 1) rfl
    (by simp [alone, accompanied, List.filterMap_cons, input]) ht ht'
  exact ⟨t, t', ht, ht', hhanded,
    hreading (of_decide_eq_true hc) (of_decide_eq_true hc')⟩

end IMIsolation

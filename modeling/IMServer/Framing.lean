import IMServer.ServerRun

/-! # Framing — what `try_to_handle_msg` extracts

    Soundness: the lines handed to the dispatch and the bytes still waiting are
    the bytes received (`framing_sound`).  Completeness fails, because the search
    stops behind the first node: a line that runs over the end of a node stays,
    and so does everything behind it.  `framing_complete_iff` says exactly when
    no complete line is left. -/

namespace IMFraming

open IMBytes IMCString IMMachineInt IMCachePool IMBuffer IMBufferInvariant
  IMBufferAppend IMBufferTake IMBufferQueue IMClientInfo IMLineFraming
  IMServerInfo IMDelivery IMServerRun IMTransition

/-! ## Soundness -/

/-- **FRAMING SOUNDNESS**: in every reachable state no byte has been lost,
    duplicated or moved, and every line handed on ends at its only newline. -/
theorem framing_sound {r : ServerRun} (h : Reachable serverSystem r)
    {c : PClientInfo} (hc : c ∈ r.server.clients) :
    (r.handed c).flatten ++ r.server.mem.reading c = r.received c
      ∧ ∀ line ∈ r.handed c, ∃ text, line = text ++ [10]
        ∧ (10 : UInt8) ∉ text := by
  have hinv := runInv_reachable h
  refine ⟨hinv.framed c hc, ?_⟩
  intro line hline
  obtain ⟨text, htext, h10, -⟩ := hinv.isLine c hc line hline
  exact ⟨text, htext, h10⟩

/-- Two lines arrive in pieces, and the first is handled before the rest is
    there. -/
def piecemeal : List ServerEvent :=
  [.accept 1 4, .fetch 1 5 [.bytes (ascii "ab\nc")],
    .handle 1 fun _ => bareSurround, .fetch 1 2 [.bytes (ascii "d\n")]]

theorem framing_sound_piecemeal :
    ∃ r, runFrom serverSystem freshServer piecemeal = some r
      ∧ (r.handed 1).flatten ++ r.server.mem.reading 1 = r.received 1 := by
  have hrun : ((runFrom serverSystem freshServer piecemeal).any fun r =>
      decide ((1 : PClientInfo) ∈ r.server.clients)) = true := by decide +kernel
  obtain ⟨r, hr, hc⟩ := (Option.any_eq_true _ _).mp hrun
  exact ⟨r, hr, (framing_sound (runFrom_reachable serverSystem piecemeal (.start
    freshServer_start) hr) (of_decide_eq_true hc)).1⟩

/-! ## The nodes of a reading buffer -/

/-- The bytes of the nodes of the reading buffer. -/
def readingNodes (m : Clients) (c : PClientInfo) : List (List UInt8) :=
  (m.heap.buf (c, .reading)).map (nodeBytes m.heap.pool)

theorem flatten_readingNodes (m : Clients) (c : PClientInfo) :
    (readingNodes m c).flatten = m.reading c := by
  rw [readingNodes, ← List.flatMap_def]
  rfl

theorem readingNodes_of_same {m m' : Clients} {c : PClientInfo}
    (h : Same m.heap m'.heap (c, .reading)) :
    readingNodes m' c = readingNodes m c := by
  rw [readingNodes, h.buf, readingNodes]
  refine List.map_congr_left ?_
  intro node hn
  rw [nodeBytes, h.mem _ (mem_owned hn), nodeBytes]

/-- Taking bytes of the first node: it leaves when they are all it has. -/
theorem readFromBuffer_first {p : CachePool} {node : InnerNode} {rest : Buffer}
    {k : Nat} (hb : BufferInv p (node :: rest)) (h0 : 0 < k)
    (hk : k ≤ (nodeSize node).toNat) :
    (readFromBuffer p (node :: rest) k).pool
        = (if k = (nodeSize node).toNat then (recycleCache p node.cache).2 else p)
      ∧ (readFromBuffer p (node :: rest) k).buffer
        = if k = (nodeSize node).toNat then rest
          else { node with rOffset := node.rOffset + k } :: rest := by
  have ho := (hb.offsets node (List.mem_cons_self ..)).nonneg
  have hexp : expectedReadSize k 0 (node :: rest) = k := by
    rw [expectedReadSize]
    refine if_pos ?_
    rw [Int.natCast_zero, Int.zero_add, sizeT_of_nonneg (by omega) (by omega)]
    exact hk
  obtain ⟨out', hout⟩ : ∃ out', out' = [] ++ (content p (node :: rest)).take k :=
    ⟨_, rfl⟩
  have hlen' : out'.length = k := by
    rw [hout, List.nil_append, length_take_first hb hk]
  have hround := readFromLoop_cons k (rest.length + 1) (k := k) []
    (by omega) hb (by rw [List.length_nil]; exact h0)
    (by rw [List.length_nil]; omega) hout
  rw [List.length_nil, Nat.sub_zero, List.nil_append] at hround
  have hstop : ∀ b p t, readFromLoop k (rest.length + 1) out'.length b p t
      = ⟨out'.length, t, b, p⟩ := by
    intro b p t
    rw [readFromLoop.eq_def]
    dsimp only
    rw [if_neg (by omega)]
  rw [readFromBuffer, hexp, List.length_cons, hround]
  by_cases hend : k = (nodeSize node).toNat
  · rw [if_pos hend, if_pos hend, if_pos hend, hstop]
    exact ⟨rfl, rfl⟩
  · rw [if_neg hend, if_neg hend, if_neg hend, hstop]
    exact ⟨rfl, rfl⟩

/-- The nodes after a line was taken: the first node without the line, when
    bytes remain in it. -/
theorem readingNodes_lineTaken {m : Clients} {c : PClientInfo} {i : Nat}
    {r : TakeResult} (hh : HeapInv m.heap) (hn : nextLine m c = some i)
    (hr : LineTaken m c i r) :
    ∃ pre post nodes, readingNodes m c = (pre ++ 10 :: post) :: nodes
      ∧ readingNodes r.clients c
        = if post = [] then nodes else post :: nodes := by
  have hb := hh.inv (c, .reading)
  rw [nextLine] at hn
  have hheap := hr.buffer
  cases hbuf : m.heap.buf (c, .reading) with
  | nil =>
      rw [hbuf] at hn
      cases hn
  | cons node rest =>
      rw [hbuf] at hn hb hheap
      have hmem := List.mem_cons_self (a := node) (l := rest)
      have hlen := hb.length_first
      have ho := (hb.offsets node hmem).nonneg
      obtain ⟨pre, post, hsplit, hpre, -, -⟩ := strchr_eq_some hn
      have hsize := congrArg List.length hsplit
      rw [hlen, List.length_append, List.length_cons] at hsize
      obtain ⟨hpool, hbuffer⟩ := readFromBuffer_first (k := i + 1) hb
        (Nat.succ_pos i) (by omega)
      refine ⟨pre, post, rest.map (nodeBytes m.heap.pool), ?_, ?_⟩
      · rw [readingNodes, hbuf, List.map_cons, hsplit]
      · rw [readingNodes, hheap, buf_put]
        show List.map (nodeBytes (readFromBuffer m.heap.pool (node :: rest)
          (i + 1)).pool) _ = _
        rw [hpool, hbuffer]
        by_cases hpost : post = []
        · have hend : i + 1 = (nodeSize node).toNat := by
            rw [hpost, List.length_nil] at hsize
            omega
          rw [if_pos hend, if_pos hend, if_pos hpost]
          -- the recycled cache is none of the others
          refine List.map_congr_left ?_
          intro n hn'
          have hheld := hb.held node hmem
          have hne : n.cache ≠ node.cache := by
            intro e
            have hm := mem_owned hn'
            rw [e] at hm
            exact (List.nodup_cons.mp hb.nodup).1 hm
          rw [nodeBytes, ((recycleCache_spec hh.pool hheld).2.others _ hne),
            nodeBytes]
        · have hend : ¬ i + 1 = (nodeSize node).toNat := by
            have := List.length_pos_iff.mpr hpost
            omega
          rw [if_neg hend, if_neg hend, if_neg hpost, List.map_cons]
          refine congrArg (· :: _) ?_
          have hdrop : (nodeBytes m.heap.pool node).drop (i + 1) = post := by
            rw [hsplit, ← hpre, List.drop_append, List.drop_of_length_le
              (Nat.le_succ _), List.nil_append, Nat.add_sub_cancel_left]
            rfl
          rw [← hdrop, nodeBytes, nodeBytes, drop_slice]
          have hoff : (node.rOffset + ((i + 1 : Nat) : Int)).toNat
              = node.rOffset.toNat + (i + 1) := by omega
          have hsz : (nodeSize { node with
              rOffset := node.rOffset + ((i + 1 : Nat) : Int) }).toNat
              = (nodeSize node).toNat - (i + 1) := by
            simp only [nodeSize] at *
            omega
          rw [hsz]
          exact congrArg (fun off => slice _ off _) hoff

/-! ## Completeness -/

/-- Every node that stands before a node with a newline ends in a newline: no
    complete line runs over the end of a node. -/
def NoLineStraddles (nodes : List (List UInt8)) : Prop :=
  nodes.Pairwise fun node later =>
    (10 : UInt8) ∈ later → node.getLast? = some 10

instance (nodes : List (List UInt8)) : Decidable (NoLineStraddles nodes) :=
  inferInstanceAs (Decidable (nodes.Pairwise _))

/-- Taking the first line of the first node does not change whether a line
    straddles. -/
theorem noLineStraddles_take (pre post : List UInt8)
    (nodes : List (List UInt8)) :
    NoLineStraddles (if post = [] then nodes else post :: nodes)
      ↔ NoLineStraddles ((pre ++ 10 :: post) :: nodes) := by
  unfold NoLineStraddles
  rw [List.pairwise_cons]
  by_cases hpost : post = []
  · rw [if_pos hpost, hpost]
    refine ⟨fun h => ⟨fun later _ _ => ?_, h⟩, fun h => h.2⟩
    exact List.getLast?_concat ..
  · rw [if_neg hpost, List.pairwise_cons]
    have hlast : (pre ++ 10 :: post).getLast? = post.getLast? := by
      rw [List.getLast?_append, List.getLast?_cons_of_ne_nil hpost]
      cases hp : post.getLast? with
      | none => exact absurd (List.getLast?_eq_none_iff.mp hp) hpost
      | some b => rfl
    rw [hlast]

/-- When the first node has no line left, a newline anywhere straddles. -/
theorem noLineStraddles_done {nodes : List (List UInt8)}
    (h : ∀ node ∈ nodes.head?, (10 : UInt8) ∉ node) :
    NoLineStraddles nodes ↔ (10 : UInt8) ∉ nodes.flatten := by
  cases nodes with
  | nil => exact ⟨(fun _ h => by cases h), fun _ => List.Pairwise.nil⟩
  | cons node nodes =>
      have hnode : (10 : UInt8) ∉ node := h node rfl
      rw [NoLineStraddles]
      rw [List.pairwise_cons, List.flatten_cons, List.mem_append, not_or]
      constructor
      · rintro ⟨h1, -⟩
        refine ⟨hnode, ?_⟩
        intro hm
        obtain ⟨later, hl, h10⟩ := List.mem_flatten.mp hm
        exact hnode (List.mem_of_getLast? (h1 later hl h10))
      · rintro ⟨-, h2⟩
        have hnone : ∀ later ∈ nodes, (10 : UInt8) ∉ later :=
          fun later hl h10 => h2 (List.mem_flatten.mpr ⟨later, hl, h10⟩)
        refine ⟨fun later hl h10 => absurd h10 (hnone later hl), ?_⟩
        exact List.pairwise_of_forall_mem_list
          (fun _ _ b hb h10 => absurd h10 (hnone b hb))

/-- Without NUL bytes, `nextLine` misses no newline of the first node. -/
theorem nextLine_none {m : Clients} {c : PClientInfo}
    (hz : (0 : UInt8) ∉ m.reading c) (hn : nextLine m c = none) :
    ∀ node ∈ (readingNodes m c).head?, (10 : UInt8) ∉ node := by
  intro node hnode
  rw [nextLine] at hn
  cases hbuf : m.heap.buf (c, .reading) with
  | nil =>
      rw [readingNodes, hbuf] at hnode
      cases hnode
  | cons n rest =>
      rw [hbuf] at hn
      rw [readingNodes, hbuf] at hnode
      obtain rfl := Option.some.inj hnode
      have hfree : (0 : UInt8) ∉ nodeBytes m.heap.pool n := by
        intro hm
        refine hz ?_
        show (0 : UInt8) ∈ content m.heap.pool (m.heap.buf (c, .reading))
        rw [hbuf, content_cons]
        exact List.mem_append_left _ hm
      have := (strchr_eq_none (by decide)).mp hn
      rw [cstr_of_notMem hfree] at this
      exact this

/-- The loop keeps whether a line straddles. -/
theorem noLineStraddles_handleLoop {c : PClientInfo} (envs : Nat → Surround) :
    ∀ (fuel round : Nat) (lines : List (List UInt8)) (need : Nat)
      (s : ServerInfo), ServerInv s → c ∈ s.clients →
      (NoLineStraddles (readingNodes
          (handleLoop c envs fuel round lines need s).server.mem c)
        ↔ NoLineStraddles (readingNodes s.mem c)) := by
  intro fuel
  induction fuel with
  | zero => intro _ _ _ _ _ _; exact Iff.rfl
  | succ fuel ih =>
      intro round lines need s h hc
      cases hn : nextLine s.mem c with
      | none => rw [handleLoop_none h hc hn]
      | some i =>
          have hr := round_spec h hc (envs round) hn
          rw [handleLoop_succ, if_pos hr.goesOn, ih _ _ _ _ hr.inv (hr.listed hc),
            readingNodes_of_same (hr.handled.reading c)]
          obtain ⟨pre, post, nodes, hbefore, hafter⟩ :=
            readingNodes_lineTaken h.heap hn hr.taken
          rw [hbefore]
          refine Iff.trans ?_ (noLineStraddles_take pre post nodes)
          rw [← hafter]
          exact Iff.rfl

/-- **ONE CALL** leaves no complete line exactly when no line straddled. -/
theorem tryToHandleMsg_complete_iff {s : ServerInfo} {c : PClientInfo}
    (h : ServerInv s) (hc : c ∈ s.clients)
    (hz : (0 : UInt8) ∉ s.mem.reading c) (envs : Nat → Surround) :
    (10 : UInt8) ∉ (tryToHandleMsg s c envs).server.mem.reading c
      ↔ NoLineStraddles (readingNodes s.mem c) := by
  have hspec := tryToHandleMsg_spec h hc envs
  have hfree : (0 : UInt8) ∉
      (tryToHandleMsg s c envs).server.mem.reading c := by
    intro hm
    refine hz ?_
    rw [← hspec.split]
    exact List.mem_append_right _ hm
  have hsignal : ∀ r : HandleResult, (signalFlush r).server.mem = r.server.mem := by
    intro r
    rw [signalFlush]
    split <;> rfl
  have hloop := noLineStraddles_handleLoop (c := c) envs
    ((s.mem.reading c).length + 1) 0 [] 0 s h hc
  rw [← flatten_readingNodes, ← noLineStraddles_done
    (nextLine_none hfree hspec.done), ← hloop, tryToHandleMsg, hsignal]

/-- After a call of `try_to_handle_msg` for a client that sent no NUL byte, its
    reading buffer holds no newline. -/
def LeavesNoLine (r : ServerRun) : ServerEvent → Prop
  | .handle c envs => c ∈ r.server.clients → (0 : UInt8) ∉ r.received c →
      (10 : UInt8) ∉ (tryToHandleMsg r.server c envs).server.mem.reading c
  | _ => True

/-- Before a call of `try_to_handle_msg` for a client that sent no NUL byte, no
    complete line runs over the end of a node. -/
def MeetsNoStraddler (r : ServerRun) : ServerEvent → Prop
  | .handle c _ => c ∈ r.server.clients → (0 : UInt8) ∉ r.received c →
      NoLineStraddles (readingNodes r.server.mem c)
  | _ => True

/-- **FRAMING COMPLETENESS, EXACTLY**: over a run, every call of
    `try_to_handle_msg` leaves no newline if and only if no such call met a line
    that runs over the end of a node. -/
theorem framing_complete_iff {r : ServerRun} (h : serverSystem.start r)
    (es : List ServerEvent) :
    Along serverSystem LeavesNoLine r es
      ↔ Along serverSystem MeetsNoStraddler r es := by
  refine along_congr serverSystem (I := RunInv) (K := fun _ _ => True)
    (fun r e r' hI _ hstep => runInv_step hI hstep) ?_ es r (runInv_start h)
    (along_of_mem serverSystem es r (fun _ _ => trivial))
  intro r e hI _
  cases e with
  | handle c envs =>
      refine forall_congr' fun hc => forall_congr' fun hz => ?_
      refine tryToHandleMsg_complete_iff hI.server hc ?_ envs
      intro hm
      refine hz ?_
      rw [← hI.framed c hc]
      exact List.mem_append_right _ hm
  | accept | fetch | markFail | flush | logout => exact Iff.rfl

/-! ### Short and long lines -/

/-- One client sends a line of two letters. -/
def shortLine : List ServerEvent :=
  [.accept 1 4, .fetch 1 3 [.bytes (ascii "hi\n")]]

theorem framing_complete_shortLine :
    Along serverSystem LeavesNoLine freshServer
      (shortLine ++ [.handle 1 fun _ => bareSurround]) := by
  refine (framing_complete_iff freshServer_start _).mpr
    ((along_append serverSystem).mpr ⟨?_, ?_⟩)
  · exact ⟨trivial, fun _ _ => ⟨trivial, fun _ _ => trivial⟩⟩
  · intro r hr
    have hnodes : (runFrom serverSystem freshServer shortLine).all (fun r =>
        decide (NoLineStraddles (readingNodes r.server.mem 1))) = true := by
      decide +kernel
    rw [hr] at hnodes
    exact ⟨fun _ _ => of_decide_eq_true hnodes, fun _ _ => trivial⟩

/-- One client sends 512 letters and a newline. -/
def longLine : List ServerEvent :=
  [.accept 1 4, .fetch 1 513 [.bytes (List.replicate 512 97), .bytes [10]],
    .handle 1 fun _ => bareSurround]

/-- The newline stands in a second node, and the call does not reach it. -/
theorem framing_incomplete :
    ∃ r, runFrom serverSystem freshServer longLine = some r
      ∧ (0 : UInt8) ∉ r.received 1 ∧ (10 : UInt8) ∈ r.server.mem.reading 1 := by
  have hrun : ((runFrom serverSystem freshServer longLine).any fun r =>
      decide ((0 : UInt8) ∉ r.received 1 ∧ (10 : UInt8) ∈ r.server.mem.reading 1))
      = true := by decide +kernel
  obtain ⟨r, hr, hp⟩ := (Option.any_eq_true _ _).mp hrun
  exact ⟨r, hr, of_decide_eq_true hp⟩

end IMFraming

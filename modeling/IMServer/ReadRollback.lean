import IMServer.BufferTake

/-! # A failing `read` — `read_into_buffer`

    When `read` fails, the function puts the `w_offset` of the last node back and
    recycles the nodes it added.  Whether there was a last node to put back it
    asks of the unsigned `last_w_offset`, where "not set" is not negative: the
    assignment is made in every case.  `rollback_iff` says in which case it is
    right. -/

namespace IMReadRollback

open IMBytes IMMachineInt IMCachePool IMBuffer IMBufferInvariant IMBufferAppend
  IMBufferTake

/-- **WHAT THE CALL SHOULD LEAVE**: a negative value, and the buffer as it was. -/
structure RolledBack {σ : Type} (p : CachePool) (b : Buffer) (r : IoResult σ) :
    Prop where
  ret : r.ret = sizeT (-1)
  nodes : r.buffer = b
  inv : BufferInv r.pool b
  content : content r.pool b = content p b
  clean : r.strayWrite = false

/-! ## What the loop did to the nodes -/

/-- A `read` fails, or uses up an outcome that is no error, or none. -/
theorem fdRead_cases (n : Nat) (reads : List ReadOutcome) :
    (∃ rest, fdRead n reads = (none, rest) ∧ reads = .error :: rest)
    ∨ ∃ bs used rest, fdRead n reads = (some bs, rest) ∧ ReadsOk used
        ∧ reads = used ++ rest := by
  cases reads with
  | nil => exact Or.inr ⟨[], [], [], rfl, fun _ h => absurd h List.not_mem_nil, rfl⟩
  | cons r rest =>
      cases r with
      | error => exact Or.inl ⟨rest, rfl, rfl⟩
      | bytes bs =>
          refine Or.inr ⟨bs.take n, [.bytes bs], rest, rfl, ?_, rfl⟩
          intro r hr
          rw [List.mem_singleton.mp hr]
          exact fun e => by cases e

/-- The outcome that made a loop fail. -/
def failedRead (failed : Bool) : List ReadOutcome :=
  if failed = true then [.error] else []

/-- A loop that fails has met one error, its last outcome, and a loop that does
    not fail has met none. -/
theorem fillLoop_used (size : Nat) :
    ∀ (fuel : Nat) (done : List InnerNode) (node : InnerNode) (p : CachePool)
      (reads : List ReadOutcome) (got : List UInt8),
      ∃ used, ReadsOk used
        ∧ reads = used
          ++ (failedRead (fillLoop fdRead size fuel done node p reads got).failed
            ++ (fillLoop fdRead size fuel done node p reads got).src) := by
  have hnone : ReadsOk [] := fun _ h => absurd h List.not_mem_nil
  intro fuel
  induction fuel with
  | zero => intro _ _ _ reads _; exact ⟨[], hnone, rfl⟩
  | succ fuel ih =>
      intro done node p reads got
      rw [fillLoop]
      by_cases hlt : got.length < size
      · rw [if_pos hlt]
        dsimp only
        rcases fdRead_cases (minSizeT (size - got.length)
            (sizeT (cacheSize - node.wOffset))) reads
          with ⟨rest, hread, hsplit⟩ | ⟨bs, used, rest, hread, hok, hsplit⟩
        · rw [hread]
          exact ⟨[], hnone, hsplit⟩
        · rw [hread]
          dsimp only
          split
          · exact ⟨used, hok, hsplit⟩
          · split
            · exact ⟨used, hok, hsplit⟩
            · obtain ⟨used', hok', hsplit'⟩ := ih _ _ _ _ _
              refine ⟨used ++ used', ?_, ?_⟩
              · intro r hr
                exact (List.mem_append.mp hr).elim (hok r) (hok' r)
              · rw [List.append_assoc, ← hsplit']
                exact hsplit
      · rw [if_neg hlt]
        exact ⟨[], hnone, rfl⟩

/-- When the last of the outcomes is an error and all are used, the loop has
    failed. -/
theorem failed_of_used {size fuel : Nat} {done : List InnerNode}
    {node : InnerNode} {p : CachePool} {reads : List ReadOutcome}
    {got : List UInt8} (hend : reads.getLast? = some .error)
    (hall : (fillLoop fdRead size fuel done node p reads got).src = []) :
    (fillLoop fdRead size fuel done node p reads got).failed = true := by
  obtain ⟨used, hok, hsplit⟩ := fillLoop_used size fuel done node p reads got
  by_contra hf
  rw [hall, failedRead, if_neg hf, List.append_nil, List.append_nil] at hsplit
  have hmem := List.mem_of_getLast? hend
  rw [hsplit] at hmem
  exact absurd rfl (hok .error hmem)

/-! ## What the rollback restores -/

/-- The invariant of the nodes behind others. -/
theorem bufferInv_behind {p : CachePool} {rest : Buffer} :
    ∀ {front : Buffer}, BufferInv p (front ++ rest) → BufferInv p rest := by
  intro front
  induction front with
  | nil => intro h; exact h
  | cons node front ih => intro h; exact ih h.tail

/-- The offsets alone say how long the content is. -/
theorem length_content_congr {p p' : CachePool} :
    ∀ {b : Buffer}, BufferInv p b → BufferInv p' b →
      (content p b).length = (content p' b).length := by
  intro b
  induction b with
  | nil => intro _ _; rfl
  | cons node b ih =>
      intro h h'
      rw [h.length_cons, h'.length_cons, ih h.tail h'.tail]

/-- **UNDOING THE LOOP**: with the `w_offset` of the last node put back and the
    other nodes recycled, the nodes and their content are as before. -/
theorem undo_spec {p p' : CachePool} {done extra : List InnerNode}
    {node : InnerNode} {w : Int} {more : List UInt8} (hp : PoolInv p')
    (hb : BufferInv p (done ++ [node]))
    (hb' : BufferInv p' (done ++ { node with wOffset := w } :: extra))
    (hw : node.wOffset ≤ w)
    (hcont : content p' (done ++ { node with wOffset := w } :: extra)
      = content p (done ++ [node]) ++ more) :
    BufferInv (recycleNodes p' extra) (done ++ [node])
      ∧ content (recycleNodes p' extra) (done ++ [node])
        = content p (done ++ [node]) := by
  have howned : owned (done ++ { node with wOffset := w } :: extra)
      = owned (done ++ [node]) ++ owned extra := by
    rw [owned_append, owned_append, List.append_assoc]
    rfl
  have hmem : node ∈ done ++ [node] := by simp
  have hinv : BufferInv p' (done ++ [node]) := {
    held := by
      intro n hn
      refine hb'.heldOwned ?_
      rw [howned]
      exact List.mem_append_left _ (mem_owned hn)
    nodup := by
      have hnd := hb'.nodup
      rw [howned] at hnd
      exact (List.nodup_append.mp hnd).1
    room := by
      intro n hn
      rcases List.mem_append.mp hn with h1 | h2
      · exact hb'.room n (List.mem_append_left _ h1)
      · rw [List.mem_singleton.mp h2]
        exact hb'.room { node with wOffset := w }
          (List.mem_append_right _ (List.mem_cons_self ..))
    offsets := hb.offsets
    full := hb.full }
  have hextra : BufferInv p' extra := (bufferInv_behind hb').tail
  -- what stands in front of the old `w_offset` has not been written to
  have hsame : content p' (done ++ [node]) = content p (done ++ [node]) := by
    have ho := (hb.offsets node hmem).nonneg
    have hsplit : (nodeSize { node with wOffset := w }).toNat
        = (nodeSize node).toNat + (w - node.wOffset).toNat := by
      simp only [nodeSize] at *
      omega
    have hnode : nodeBytes p' { node with wOffset := w } = nodeBytes p' node
        ++ slice (p'.mem node.cache).buff (node.rOffset.toNat
          + (nodeSize node).toNat) (w - node.wOffset).toNat := by
      rw [nodeBytes, hsplit, slice_add]
      rfl
    rw [content_append, content_cons, hnode, List.append_assoc,
      ← List.append_assoc, ← content_singleton, ← content_append] at hcont
    exact List.append_inj_left hcont (length_content_congr hinv hb)
  have hmoves := moves_destroyBuffer hp hextra
  obtain ⟨h1, h2⟩ := hinv.keeps hmoves.keeps (by
    intro a ha hm
    have hnd := hb'.nodup
    rw [howned] at hnd
    exact (List.nodup_append.mp hnd).2.2 a ha a hm rfl)
  exact ⟨h1, h2.trans hsame⟩

/-! ## When the call rolls back -/

/-- The start with a new node: the assignment goes astray. -/
theorem fillNewNode_not_rolledBack {p : CachePool} {b : Buffer} {size : Nat}
    {reads : List ReadOutcome} (hend : reads.getLast? = some .error)
    (hall : (fillNewNode fdRead size p b reads).src = [])
    (hfull : ∀ n ∈ b, n.wOffset = cacheSize) :
    ¬ RolledBack p b (fillNewNode fdRead size p b reads) := by
  unfold fillNewNode at *
  cases hnew : newInnerNode p with
  | mk o p' =>
      rw [hnew] at hall
      cases o with
      | none =>
          obtain rfl : reads = [] := hall
          cases hend
      | some node =>
          dsimp only at hall ⊢
          rw [(finishFill_got_src _ _ _).2] at hall
          have hf := failed_of_used hend hall
          obtain ⟨-, w, extra, -, hnodes⟩ := fillLoop_nodes fdRead size
            (size + 1) b node p' reads []
          generalize fillLoop fdRead size (size + 1) b node p' reads [] = out at *
          intro hroll
          have htake : out.nodes.take b.length = b := by
            rw [hnodes]
            exact List.take_left
          have hbuf := hroll.nodes
          have hclean := hroll.clean
          unfold finishFill at hbuf hclean
          dsimp only at hbuf hclean
          rw [if_pos hf, if_pos (Nat.zero_le _), htake] at hbuf hclean
          rcases List.eq_nil_or_concat b with rfl | ⟨front, last, rfl⟩
          · cases hclean
          · rw [List.concat_eq_append] at hbuf hfull
            rw [setLastWOffset, List.getLast?_concat, List.dropLast_concat]
              at hbuf
            have hlast := List.append_cancel_left hbuf
            have hw : cInt (sizeT (-1)) = last.wOffset :=
              congrArg InnerNode.wOffset (List.singleton_inj.mp hlast)
            rw [hfull last (by simp), sizeT_neg_one] at hw
            exact absurd hw (by decide)

/-- **THE ROLLBACK, EXACTLY**: a call in which `read` fails restores the buffer
    if and only if the buffer had a last node with room. -/
theorem rollback_iff {p : CachePool} {b : Buffer} {size : Nat}
    {reads : List ReadOutcome} (hp : PoolInv p) (hb : BufferInv p b)
    (hend : reads.getLast? = some .error)
    (hall : (readIntoBuffer p b size reads).src = []) :
    RolledBack p b (readIntoBuffer p b size reads)
      ↔ ∃ last, b.getLast? = some last ∧ last.wOffset ≠ cacheSize := by
  rcases fillBuffer_cases fdRead size p b reads with ⟨hlast, heq⟩
    | ⟨front, last, rfl, hw, heq⟩
  · rw [readIntoBuffer, heq] at hall ⊢
    constructor
    · intro hroll
      exact absurd hroll
        (fillNewNode_not_rolledBack hend hall (allFull_of_last hb hlast))
    · rintro ⟨last, h, hne⟩
      exact absurd (hlast last h) hne
  · rw [readIntoBuffer, heq] at hall ⊢
    refine ⟨fun _ => ⟨last, List.getLast?_concat, hw⟩, fun _ => ?_⟩
    rw [(finishFill_got_src _ _ _).2] at hall
    obtain ⟨h0, hlt⟩ := lastRoom hb hw
    have hf := failed_of_used hend hall
    have hloop := fillLoop_spec bounded_fdRead (size + 1) front last p reads [] hp
      hb hlt (Nat.zero_le size) (Or.inr rfl) (Nat.lt_succ_self size)
    obtain ⟨hret, w, extra, hle, hnodes⟩ := fillLoop_nodes fdRead size (size + 1)
      front last p reads []
    generalize fillLoop fdRead size (size + 1) front last p reads [] = out at *
    obtain ⟨more, -, hcont, -⟩ := hloop.stored
    have hinv := hloop.moves.inv
    rw [hnodes] at hcont hinv
    obtain ⟨hinv', hcont'⟩ := undo_spec hloop.moves.pool hb hinv hle hcont
    have hsplit : out.nodes = (front ++ [{ last with wOffset := w }]) ++ extra := by
      rw [hnodes, List.append_assoc]
      rfl
    have hlen : (front ++ [last]).length
        = (front ++ [{ last with wOffset := w }]).length := by
      rw [List.length_append, List.length_append]
      rfl
    -- the number that is put back survives the conversions
    have hback : setLastWOffset (front ++ [{ last with wOffset := w }])
        (cInt (sizeT last.wOffset)) = front ++ [last] := by
      have hw' : cInt (sizeT last.wOffset) = last.wOffset := by
        simp only [cacheSize] at hlt
        rw [sizeT_of_nonneg h0 (by omega), Int.toNat_of_nonneg h0]
        exact cInt_of_mem (by omega) (by omega)
      rw [setLastWOffset, List.getLast?_concat, List.dropLast_concat, hw']
    unfold finishFill
    dsimp only
    rw [if_pos hf, if_pos (Nat.zero_le _), hsplit, hlen, List.take_left,
      List.drop_left, hback, hret hf]
    exact {
      ret := rfl
      nodes := rfl
      inv := hinv'
      content := hcont'
      clean := by cases front <;> rfl }

/-- The last node is filled, a new one is added, and then `read` fails. -/
theorem rollback_lastNodeFilled : RolledBack hello.pool hello.buffer
    (readIntoBuffer hello.pool hello.buffer 600
      [.bytes (List.replicate 507 97), .error]) := by
  have hroom : (hello.buffer.getLast?.any
      fun last => decide (last.wOffset ≠ cacheSize)) = true := by
    decide +kernel
  obtain ⟨last, hlast, hw⟩ := (Option.any_eq_true _ _).mp hroom
  refine (rollback_iff hello_inv.1 hello_inv.2 rfl ?_).mpr
    ⟨last, hlast, of_decide_eq_true hw⟩
  decide +kernel

/-- The first `read` of a connection fails: the list is empty, and the assignment
    goes to a node that is not there. -/
theorem rollback_strays : PoolInv (emptyPool (fun _ => ⟨0, 0, []⟩) (fun _ => 0) [])
    ∧ (readIntoBuffer (emptyPool (fun _ => ⟨0, 0, []⟩) (fun _ => 0) []) [] 5
        [.error]).src = []
    ∧ ¬ RolledBack (emptyPool (fun _ => ⟨0, 0, []⟩) (fun _ => 0) []) []
      (readIntoBuffer (emptyPool (fun _ => ⟨0, 0, []⟩) (fun _ => 0) []) [] 5
        [.error]) := by
  refine ⟨poolInv_empty _ _ _, ?_, fun hroll => ?_⟩
  · decide +kernel
  · have hstray : (readIntoBuffer (emptyPool (fun _ => ⟨0, 0, []⟩) (fun _ => 0) [])
        [] 5 [.error]).strayWrite = true := by
      decide +kernel
    rw [hroll.clean] at hstray
    cases hstray

end IMReadRollback

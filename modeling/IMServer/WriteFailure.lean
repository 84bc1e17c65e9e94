import IMServer.BufferTake

/-! # A failing `write` — `write_from_buffer`

    The function keeps what `write` returns in a `size_t` and asks whether it is
    negative, which it never is: `-1` is added to the counter and to `r_offset`
    like a count.  `write_exact_iff` says that the call does what it should
    exactly when it meets no failure. -/

namespace IMWriteFailure

open IMBytes IMMachineInt IMCachePool IMBuffer IMBufferInvariant IMBufferAppend
  IMBufferTake

/-- **WHAT THE CALL SHOULD DO**, whatever `write` returns: stop at the first
    failure, and account for the bytes `write` accepted, no more and no less. -/
structure WrittenExactly (p : CachePool) (b : Buffer) (out : WriteOut) :
    Prop where
  stops : ∀ before call after, out.calls = before ++ call :: after →
    call.ret = -1 → after = []
  sent : out.bytes = (content p b).take out.bytes.length
  rest : content out.pool out.buffer = (content p b).drop out.bytes.length
  offsets : ∀ node ∈ out.buffer, 0 ≤ node.rOffset
    ∧ node.rOffset ≤ node.wOffset ∧ node.wOffset ≤ 512
  ret : out.ret = out.bytes.length

/-- Without a failure all is well. -/
theorem writtenExactly_of_taken {p : CachePool} {b : Buffer} {size : Nat}
    {out : WriteOut} (h : Taken p b [] size out.toTakeOut)
    (hcalls : AllSucceed out.calls) : WrittenExactly p b out := by
  have hbytes : out.bytes = (content p b).take size :=
    h.bytes.trans (List.nil_append _)
  have hlen : out.bytes.length = min size (content p b).length := by
    rw [hbytes, List.length_take]
  exact {
    stops := by
      intro before call after hsplit hfail
      refine absurd hfail (hcalls call ?_)
      rw [hsplit]
      exact List.mem_append_right _ (List.mem_cons_self ..)
    sent := by
      rw [hlen, ← List.take_eq_take_min]
      exact hbytes
    rest := by
      rw [h.content, hlen]
      rcases Nat.le_total size (content p b).length with h1 | h2
      · rw [Nat.min_eq_left h1]
      · rw [Nat.min_eq_right h2, List.drop_of_length_le h2,
          List.drop_of_length_le (Nat.le_refl _)]
    offsets := fun node hn =>
      have ho := (h.moves.inv.offsets node hn).nonneg
      ⟨ho.1, ho.2.1, ho.2.2.1⟩
    ret := by
      rw [h.ret, List.length_nil, Nat.zero_add, hlen] }

/-! ## What a failure does -/

/-- The record of the calls only grows. -/
theorem calls_grow (size : Nat) :
    ∀ (fuel already : Nat) (b : Buffer) (p : CachePool)
      (writes : List WriteOutcome) (sent : List UInt8) (calls : List WriteCall),
      calls <+: (writeFromLoop size fuel already b p writes sent calls).calls := by
  intro fuel
  induction fuel with
  | zero => intro _ _ _ _ _ calls; exact List.prefix_refl calls
  | succ fuel ih =>
      intro already b p writes sent calls
      rw [writeFromLoop.eq_def]
      dsimp only
      split
      · cases b with
        | nil => exact List.prefix_refl calls
        | cons node rest =>
            have hgrow := List.prefix_append calls [(⟨node.rOffset, (fdWrite
              (minSizeT (sizeT (nodeSize node)) (size - already)) writes).1⟩
                : WriteCall)]
            dsimp only
            split
            · exact hgrow
            · split
              · exact hgrow.trans (ih ..)
              · exact hgrow.trans (ih ..)
      · exact List.prefix_refl calls

/-- **ONE ROUND WITH A FAILURE**: the counter and `r_offset` go back by one and
    the loop goes on. -/
theorem writeFromLoop_failure {size fuel already : Nat} {p : CachePool}
    {node : InnerNode} {rest : Buffer} {later : List WriteOutcome}
    {sent : List UInt8} {calls : List WriteCall} (hsize : size < 2 ^ 64)
    (hb : BufferInv p (node :: rest)) (hlt : already < size) :
    writeFromLoop size (fuel + 1) already (node :: rest) p (.error :: later)
        sent calls
      = writeFromLoop size fuel (if already = 0 then 2 ^ 64 - 1 else already - 1)
          ({ node with rOffset := node.rOffset - 1 } :: rest) p later sent
          (calls ++ [⟨node.rOffset, -1⟩]) := by
  have ho := (hb.offsets node (List.mem_cons_self ..)).nonneg
  have hcount : sizeT ((already : Int) + sizeT (-1))
      = if already = 0 then 2 ^ 64 - 1 else already - 1 := by
    rw [sizeT_neg_one]
    split
    · next h0 =>
        rw [h0]
        exact sizeT_natCast (by decide)
    · next h0 =>
        rw [sizeT]
        omega
  have hoff : cInt ((sizeT node.rOffset : Int) + sizeT (-1))
      = node.rOffset - 1 := by
    rw [sizeT_neg_one, sizeT_of_nonneg ho.1 (by omega),
      Int.toNat_of_nonneg ho.1, cInt_eq]
    omega
  have hne : ¬ node.rOffset - 1 = node.wOffset := by omega
  rw [writeFromLoop.eq_def]
  dsimp only [fdWrite]
  rw [if_pos hlt, if_neg (Nat.not_lt_zero _), hoff, hcount, if_neg hne]
  show writeFromLoop size fuel _ _ p later (sent ++ slice _ _ 0) _ = _
  rw [slice_zero, List.append_nil]

/-- The mark a failure leaves: another call of `write` behind it, or `SIZE_MAX`
    as the count of no bytes. -/
def FailureShows (out : WriteOut) : Prop :=
  (∃ before call next after, out.calls = before ++ call :: next :: after
    ∧ call.ret = -1)
  ∨ (out.ret = 2 ^ 64 - 1 ∧ out.bytes = [])

theorem not_exact_of_failureShows {p : CachePool} {b : Buffer} {out : WriteOut}
    (h : FailureShows out) : ¬ WrittenExactly p b out := by
  intro hex
  rcases h with ⟨before, call, next, after, hsplit, hfail⟩ | ⟨hret, hbytes⟩
  · cases hex.stops before call (next :: after) hsplit hfail
  · have hzero := hex.ret
    rw [hret, hbytes, List.length_nil] at hzero
    omega

/-- The first failure, at the node at hand. -/
theorem failureShows_here {size fuel : Nat} {p : CachePool} {node : InnerNode}
    {rest : Buffer} {later : List WriteOutcome} {sent : List UInt8}
    {calls : List WriteCall} (hsize : size < 2 ^ 64)
    (hb : BufferInv p (node :: rest)) (hlt : sent.length < size) :
    FailureShows (writeFromLoop size (fuel + 1 + 1) sent.length (node :: rest) p
      (.error :: later) sent calls) := by
  rw [writeFromLoop_failure hsize hb hlt]
  by_cases h0 : sent.length = 0
  · -- the counter passes zero, and the loop ends
    rw [if_pos h0, writeFromLoop.eq_def]
    dsimp only
    rw [if_neg (by omega)]
    exact Or.inr ⟨rfl, List.eq_nil_of_length_eq_zero h0⟩
  · -- the loop goes on with another call
    rw [if_neg h0, writeFromLoop.eq_def]
    dsimp only
    rw [if_pos (by omega), if_neg (Nat.not_lt_zero _)]
    refine Or.inl ?_
    split
    all_goals
      obtain ⟨after, hafter⟩ := calls_grow size fuel _ _ _ _ _ _
      rw [← hafter]
      exact ⟨calls, _, _, after, by
        rw [List.append_assoc, List.append_assoc]
        rfl, rfl⟩

/-- Without bytes to send nothing is written. -/
theorem meetsFailure_zero (writes : List WriteOutcome) (sizes : List Nat) :
    meetsFailure writes 0 sizes = false := by
  cases writes with
  | nil => rfl
  | cons w writes =>
      cases sizes with
      | nil => cases w <;> rfl
      | cons n sizes => cases w <;> rfl

theorem failureShows_of_met {size : Nat} (hsize : size < 2 ^ 64) :
    ∀ (fuel : Nat) (b : Buffer) (p : CachePool) (writes : List WriteOutcome)
      (sent : List UInt8) (calls : List WriteCall),
      PoolInv p → BufferInv p b →
      meetsFailure writes (size - sent.length) (nodeSizes b) = true →
      size - sent.length + b.length < fuel →
      FailureShows (writeFromLoop size fuel sent.length b p writes sent calls) := by
  intro fuel
  induction fuel with
  | zero =>
      intro b p ws sent calls _ _ _ hfuel
      exact absurd hfuel (Nat.not_lt_zero _)
  | succ fuel ih =>
      intro b p ws sent calls hp hb hmet hfuel
      cases b with
      | nil => cases ws <;> cases hmet
      | cons node rest =>
          have hlt : sent.length < size := by
            rcases Nat.lt_or_ge sent.length size with h1 | h2
            · exact h1
            · rw [Nat.sub_eq_zero_of_le h2, meetsFailure_zero] at hmet
              cases hmet
          rw [List.length_cons] at hfuel
          rcases fdWrite_cases (min (nodeSize node).toNat
            (size - sent.length)) ws with ⟨later, rfl⟩ | ⟨k, ws', hk, hkle, hkpos⟩
          · obtain ⟨fuel, rfl⟩ : ∃ f, fuel = f + 1 := ⟨fuel - 1, by omega⟩
            exact failureShows_here hsize hb hlt
          · obtain ⟨sent', hsent⟩ : ∃ sent', sent'
              = sent ++ (content p (node :: rest)).take k := ⟨_, rfl⟩
            have hsent' : sent'.length = sent.length + k := by
              rw [hsent, List.length_append, length_take_first hb (by omega)]
            have hrest : size - sent'.length = size - sent.length - k := by
              rw [hsent', Nat.sub_sub]
            have hmeets := (meetsFailure_round (nodeSizes rest)
              (by omega) hk).symm.trans hmet
            rw [writeFromLoop_cons hsize hb hlt hk hkle hsent]
            clear hk
            by_cases hend : k = (nodeSize node).toNat
            · rw [if_pos hend] at hmeets
              rw [if_pos hend]
              obtain ⟨hm, -⟩ := moves_removeFirst hp hb
              exact ih rest _ ws' sent' _ hm.pool hm.inv
                (by rw [hrest]; exact hmeets) (by omega)
            · rw [if_neg hend] at hmeets
              rw [if_neg hend]
              have hkn : k < (nodeSize node).toNat := by omega
              have hk0 : 0 < k := hkpos (by omega)
              obtain ⟨hm, -⟩ := moves_advance hp hb hkn
              exact ih _ p ws' sent' _ hm.pool hm.inv
                (by rw [hrest, nodeSizes_advance hkn]; exact hmeets)
                (by rw [List.length_cons]; omega)

/-- **A FAILING `write`, EXACTLY**: the call stops at the first failure and
    accounts for every byte if and only if none of its `write` calls fails. -/
theorem write_exact_iff {p : CachePool} {b : Buffer} {size : Nat}
    {writes : List WriteOutcome} (hp : PoolInv p) (hb : BufferInv p b)
    (hsize : size < 2 ^ 64) :
    WrittenExactly p b (writeFromBuffer p b size writes)
      ↔ meetsFailure writes size (nodeSizes b) = false := by
  constructor
  · intro hex
    cases hmet : meetsFailure writes size (nodeSizes b) with
    | false => rfl
    | true =>
        refine absurd hex (not_exact_of_failureShows ?_)
        exact failureShows_of_met hsize _ b p writes [] [] hp hb hmet (by
          rw [List.length_nil]
          omega)
  · intro hno
    obtain ⟨htaken, hcalls⟩ := writeFromBuffer_noFailure hp hb hsize hno
    exact writtenExactly_of_taken htaken hcalls

/-- Two short writes, then all the rest. -/
theorem write_exact_shortWrites : WrittenExactly hello.pool hello.buffer
    (writeFromBuffer hello.pool hello.buffer 5 [.count 2, .count 1]) :=
  (write_exact_iff hello_inv.1 hello_inv.2 (by decide)).mpr (by decide +kernel)

/-- The first `write` fails: the call returns `SIZE_MAX`. -/
theorem write_failure_counted : PoolInv hello.pool
    ∧ BufferInv hello.pool hello.buffer
    ∧ ¬ WrittenExactly hello.pool hello.buffer
      (writeFromBuffer hello.pool hello.buffer 5 [.error]) := by
  refine ⟨hello_inv.1, hello_inv.2, not_exact_of_failureShows (Or.inr ⟨?_, ?_⟩)⟩
  · decide +kernel
  · decide +kernel

end IMWriteFailure

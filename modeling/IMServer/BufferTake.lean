import IMServer.BufferAppend

/-! # Taking from a buffer — `read_from_buffer` and `write_from_buffer`

    Both loops work on the first node: they take bytes from it, and when it is
    used up the node leaves the list and its cache goes back to the pool
    (`moves_removeFirst`), else only its `r_offset` moves (`moves_advance`).
    Each function removes and delivers the first bytes of the content. -/

namespace IMBufferTake

open IMBytes IMMachineInt IMCachePool IMBuffer IMBufferInvariant IMBufferAppend

/-- **THE FIRST NODE LEAVES**: its cache is recycled, the others stay. -/
theorem moves_removeFirst {p : CachePool} {node : InnerNode} {b : Buffer}
    (hp : PoolInv p) (hb : BufferInv p (node :: b)) :
    Moves p (recycleCache p node.cache).2 (node :: b) b
      ∧ content (recycleCache p node.cache).2 b = content p b := by
  have hback := (recycleCache_spec hp
    (hb.held node (List.mem_cons_self ..))).2
  have hnot : node.cache ∉ owned b := (List.nodup_cons.mp hb.nodup).1
  have hout : ∀ a ∈ owned b, a ∉ [node.cache] := by
    intro a ha hm
    rw [List.mem_singleton.mp hm] at ha
    exact hnot ha
  obtain ⟨hinv, hcont⟩ := hb.tail.keeps hback.keeps hout
  refine ⟨⟨hback.inv, hinv, hback.keeps.mono ?_, ?_⟩, hcont⟩
  · intro a ha
    rw [List.mem_singleton.mp ha]
    exact List.mem_cons_self ..
  · intro a ha
    exact Or.inl (List.mem_cons_of_mem _ ha)

/-- **THE FIRST NODE ADVANCES**: `n` bytes are gone from its front. -/
theorem moves_advance {p : CachePool} {node : InnerNode} {b : Buffer} {n : Nat}
    (hp : PoolInv p) (hb : BufferInv p (node :: b))
    (hn : n < (nodeSize node).toNat) :
    Moves p p (node :: b) ({ node with rOffset := node.rOffset + n } :: b)
      ∧ content p ({ node with rOffset := node.rOffset + n } :: b)
        = (content p (node :: b)).drop n := by
  have hmem := List.mem_cons_self (a := node) (l := b)
  have ho := (hb.offsets node hmem).nonneg
  have hlen := hb.length_first
  have hlt : node.rOffset + n < node.wOffset := by
    simp only [nodeSize] at *
    omega
  refine ⟨⟨hp, hb.advance (by omega) hlt, Keeps.refl p _,
    fun _ h => Or.inl h⟩, ?_⟩
  rw [content_cons, content_cons, List.drop_append_of_le_length (by omega)]
  have hsize : (nodeSize { node with rOffset := node.rOffset + n }).toNat
      = (nodeSize node).toNat - n := by
    simp only [nodeSize] at *
    omega
  simp only [nodeBytes]
  rw [hsize, drop_slice]
  have hoff : (node.rOffset + (n : Int)).toNat = node.rOffset.toNat + n := by
    omega
  rw [hoff]

/-- The bytes taken from the front of the first node. -/
theorem slice_first {p : CachePool} {node : InnerNode} {b : Buffer} {n : Nat}
    (hb : BufferInv p (node :: b)) (hn : n ≤ (nodeSize node).toNat) :
    slice (p.mem node.cache).buff node.rOffset.toNat n
      = (content p (node :: b)).take n := by
  have hlen := hb.length_first
  rw [content_cons, List.take_append_of_le_length (by omega), nodeBytes,
    take_slice _ _ hn]

theorem length_take_first {p : CachePool} {node : InnerNode} {b : Buffer}
    {n : Nat} (hb : BufferInv p (node :: b)) (hn : n ≤ (nodeSize node).toNat) :
    ((content p (node :: b)).take n).length = n := by
  rw [List.length_take, hb.length_cons]
  omega

/-- What follows the first node. -/
theorem drop_first {p : CachePool} {node : InnerNode} {b : Buffer}
    (hb : BufferInv p (node :: b)) :
    (content p (node :: b)).drop (nodeSize node).toNat = content p b := by
  rw [content_cons, ← hb.length_first, List.drop_left]

/-- A node is used up when all its bytes have been taken. -/
theorem usedUp_iff {p : CachePool} {node : InnerNode} {b : Buffer}
    (hb : BufferInv p (node :: b)) (n : Nat) :
    node.rOffset + (n : Int) = node.wOffset ↔ n = (nodeSize node).toNat := by
  have ho := (hb.offsets node (List.mem_cons_self ..)).nonneg
  simp only [nodeSize] at *
  omega

/-- **WHAT A TAKE DOES**: behind the bytes `out` it delivers the first `n` bytes
    of the content, or all of it, and counts them. -/
structure Taken (p : CachePool) (b : Buffer) (out : List UInt8) (n : Nat)
    (r : TakeOut) : Prop where
  moves : Moves p r.pool b r.buffer
  content : content r.pool r.buffer = (content p b).drop n
  bytes : r.bytes = out ++ (IMBufferInvariant.content p b).take n
  ret : r.ret = out.length + min n (IMBufferInvariant.content p b).length

/-- Taking nothing. -/
theorem Taken.zero {p : CachePool} {b : Buffer} (hp : PoolInv p)
    (hb : BufferInv p b) (out : List UInt8) :
    Taken p b out 0 ⟨out.length, out, b, p⟩ where
  moves := Moves.refl hp hb
  content := rfl
  bytes := by rw [List.take_zero, List.append_nil]
  ret := by rw [Nat.zero_min, Nat.add_zero]

/-- One round of a loop takes `k` bytes, the others take the rest. -/
theorem Taken.round {p p₁ : CachePool} {b b₁ : Buffer} {out : List UInt8}
    {n k : Nat} {r : TakeOut} (hm : Moves p p₁ b b₁)
    (hc : IMBufferInvariant.content p₁ b₁
      = (IMBufferInvariant.content p b).drop k)
    (hk : k ≤ n) (hlen : k ≤ (IMBufferInvariant.content p b).length)
    (h : Taken p₁ b₁ (out ++ (IMBufferInvariant.content p b).take k) (n - k) r) :
    Taken p b out n r where
  moves := hm.trans h.moves
  content := by
    rw [h.content, hc, List.drop_drop, Nat.add_sub_cancel' hk]
  bytes := by
    rw [h.bytes, hc, List.append_assoc, ← List.take_add,
      Nat.add_sub_cancel' hk]
  ret := by
    rw [h.ret, hc, List.length_append, List.length_take, List.length_drop]
    omega

/-! ## `read_from_buffer` -/

theorem expectedReadSize_eq {p : CachePool} {size : Nat} :
    ∀ {b : Buffer} (acc : Nat), BufferInv p b → acc ≤ size →
      (acc + (content p b).length < 2 ^ 64 ∨ size + 512 < 2 ^ 64) →
      expectedReadSize size acc b = min size (acc + (content p b).length) := by
  intro b
  induction b with
  | nil =>
      intro acc _ hle _
      rw [expectedReadSize, content_nil, List.length_nil]
      omega
  | cons node b ih =>
      intro acc hb hle hwrap
      have ho := (hb.offsets node (List.mem_cons_self ..)).nonneg
      rw [hb.length_cons] at hwrap ⊢
      have hacc : sizeT ((acc : Int) + nodeSize node)
          = acc + (nodeSize node).toNat := by
        rw [sizeT_of_nonneg (by omega) (by omega)]
        omega
      rw [expectedReadSize]
      simp only [hacc]
      by_cases hge : acc + (nodeSize node).toNat ≥ size
      · rw [if_pos hge]
        omega
      · rw [if_neg hge, ih _ hb.tail (by omega) (by omega)]
        omega

/-- The size of one copy is the smaller of the two sizes. -/
theorem minSizeT_sizeT {n : Int} (m : Nat) (h0 : 0 ≤ n) (h : n ≤ 512) :
    minSizeT (sizeT n) m = min n.toNat m := by
  rw [sizeT_of_nonneg h0 (by omega), minSizeT]
  split <;> omega

/-- **ONE ROUND OF THE SECOND LOOP** of `read_from_buffer`, in terms of the
    content: `k` bytes go to the block; an exhausted node leaves. -/
theorem readFromLoop_cons (expected fuel : Nat) {k : Nat} {p : CachePool}
    {node : InnerNode} {rest : Buffer} (out : List UInt8) {out' : List UInt8}
    (he : expected < 2 ^ 64) (hb : BufferInv p (node :: rest))
    (hlt : out.length < expected)
    (hk : k = min (nodeSize node).toNat (expected - out.length))
    (hout : out' = out ++ (content p (node :: rest)).take k) :
    readFromLoop expected (fuel + 1) out.length (node :: rest) p
        (out ++ List.replicate (expected - out.length) 0)
      = if k = (nodeSize node).toNat then
          readFromLoop expected fuel out'.length rest
            (recycleCache p node.cache).2
            (out' ++ List.replicate (expected - out'.length) 0)
        else
          readFromLoop expected fuel out'.length
            ({ node with rOffset := node.rOffset + k } :: rest) p
            (out' ++ List.replicate (expected - out'.length) 0) := by
  have hmem := List.mem_cons_self (a := node) (l := rest)
  have ho := (hb.offsets node hmem).nonneg
  have hkn : k ≤ (nodeSize node).toNat := by omega
  have hke : k ≤ expected - out.length := by omega
  have hslice : slice (p.mem node.cache).buff node.rOffset.toNat k
      = (content p (node :: rest)).take k := slice_first hb hkn
  have hlk := length_take_first hb hkn
  have hout' : out'.length = out.length + k := by
    rw [hout, List.length_append, hlk]
  have htarget : overwrite (out ++ List.replicate (expected - out.length) 0)
      out.length ((content p (node :: rest)).take k)
      = out' ++ List.replicate (expected - out'.length) 0 := by
    rw [overwrite_append_replicate (by rw [hlk]; exact hke), hlk, hout', hout,
      Nat.sub_sub]
  have halready : sizeT ((out.length : Int) + (k : Nat)) = out'.length := by
    rw [hout', sizeT_of_nonneg (by omega) (by omega)]
    omega
  have hcopy : cInt (minSizeT (sizeT (nodeSize node)) (expected - out.length))
      = (k : Int) := by
    rw [minSizeT_sizeT _ ho.2.2.2.1 ho.2.2.2.2, ← hk, cInt_natCast (by omega)]
  have hend := propext (usedUp_iff hb k)
  rw [readFromLoop.eq_def]
  dsimp only
  rw [if_pos hlt]
  simp only [hcopy, Int.toNat_natCast, hslice, htarget, halready, hend]

private theorem readFromLoop_spec (expected : Nat) (he : expected < 2 ^ 64) :
    ∀ (fuel : Nat) (b : Buffer) (p : CachePool) (out : List UInt8),
      PoolInv p → BufferInv p b → out.length ≤ expected →
      expected ≤ out.length + (content p b).length → b.length < fuel →
      Taken p b out (expected - out.length)
        (readFromLoop expected fuel out.length b p
          (out ++ List.replicate (expected - out.length) 0)) := by
  intro fuel
  induction fuel with
  | zero => intro b p out _ _ _ _ hfuel; exact absurd hfuel (Nat.not_lt_zero _)
  | succ fuel ih =>
      intro b p out hp hb hle hge hfuel
      by_cases hlt : out.length < expected
      · cases b with
        | nil =>
            rw [content_nil, List.length_nil] at hge
            omega
        | cons node rest =>
            obtain ⟨k, hk⟩ : ∃ k, k = min (nodeSize node).toNat
              (expected - out.length) := ⟨_, rfl⟩
            obtain ⟨out', hout⟩ : ∃ out', out'
              = out ++ (content p (node :: rest)).take k := ⟨_, rfl⟩
            have hcl := hb.length_cons
            have hout' : out'.length = out.length + k := by
              rw [hout, List.length_append, length_take_first hb (by omega)]
            have hrest : expected - out'.length
                = expected - out.length - k := by
              rw [hout', Nat.sub_sub]
            rw [List.length_cons] at hfuel
            rw [readFromLoop_cons _ _ _ he hb hlt hk hout]
            by_cases hend : k = (nodeSize node).toNat
            · -- the node is used up
              rw [if_pos hend]
              obtain ⟨hm, hc⟩ := moves_removeFirst hp hb
              have hdrop : content p rest
                  = (content p (node :: rest)).drop k := by
                rw [hend, drop_first hb]
              refine Taken.round hm (hc.trans hdrop) (by omega) (by omega) ?_
              rw [← hrest, ← hout]
              exact ih rest _ _ hm.pool hm.inv (by omega)
                (by rw [hc]; omega) (by omega)
            · -- bytes remain: everything asked for is there
              rw [if_neg hend]
              obtain ⟨hm, hc⟩ := moves_advance hp hb
                (n := k) (by omega)
              refine Taken.round hm hc (by omega) (by omega) ?_
              have hall : expected - out'.length = 0 := by omega
              have hstop : ∀ (b' : Buffer) (t : List UInt8),
                  readFromLoop expected fuel out'.length b' p t
                    = ⟨out'.length, t, b', p⟩ := by
                intro b' t
                cases fuel with
                | zero => rfl
                | succ fuel =>
                    rw [readFromLoop.eq_def]
                    dsimp only
                    rw [if_neg (by omega)]
              rw [hstop, ← hrest, hall, List.replicate_zero, List.append_nil,
                ← hout]
              exact Taken.zero hm.pool hm.inv _
      · rw [readFromLoop.eq_def]
        dsimp only
        rw [if_neg hlt]
        have hz : expected - out.length = 0 := by omega
        rw [hz, List.replicate_zero, List.append_nil]
        exact Taken.zero hp hb out

/-- **`read_from_buffer`** delivers, in a block of exactly that size, the first
    `size` bytes of the content or all of it. -/
theorem readFromBuffer_spec {p : CachePool} {b : Buffer} {size : Nat}
    (hp : PoolInv p) (hb : BufferInv p b) (hsize : size < 2 ^ 64)
    (hwrap : (content p b).length < 2 ^ 64 ∨ size + 512 < 2 ^ 64) :
    Taken p b [] size (readFromBuffer p b size) := by
  have hexp := expectedReadSize_eq 0 hb (Nat.zero_le size)
    (by rw [Nat.zero_add]; exact hwrap)
  rw [Nat.zero_add] at hexp
  have h := readFromLoop_spec (min size (content p b).length)
    (by omega) (b.length + 1) b p [] hp hb (Nat.zero_le _)
    (by rw [List.length_nil]; omega) (Nat.lt_succ_self _)
  rw [List.length_nil, Nat.sub_zero, List.nil_append] at h
  rw [readFromBuffer]
  rw [hexp]
  exact {
    moves := h.moves
    content := by
      rw [h.content]
      by_cases hle : size ≤ (content p b).length
      · rw [Nat.min_eq_left hle]
      · rw [Nat.min_eq_right (by omega), List.drop_of_length_le (Nat.le_refl _),
          List.drop_of_length_le (by omega)]
    bytes := by
      rw [h.bytes]
      by_cases hle : size ≤ (content p b).length
      · rw [Nat.min_eq_left hle]
      · rw [Nat.min_eq_right (by omega), List.take_of_length_le (Nat.le_refl _),
          List.take_of_length_le (by omega)]
    ret := by
      rw [h.ret, List.length_nil]
      omega }

/-- The size of the block is at most the size asked for and what the buffer
    has, also where the sum of the node sizes wraps. -/
theorem expectedReadSize_le {p : CachePool} {size : Nat} :
    ∀ {b : Buffer} (acc : Nat), BufferInv p b → acc ≤ size →
      expectedReadSize size acc b ≤ size
        ∧ expectedReadSize size acc b ≤ acc + (content p b).length := by
  intro b
  induction b with
  | nil => exact fun acc _ hle => ⟨hle, Nat.le_refl _⟩
  | cons node b ih =>
      intro acc hb hle
      have ho := (hb.offsets node (List.mem_cons_self ..)).nonneg
      have hacc : sizeT ((acc : Int) + nodeSize node)
          ≤ acc + (nodeSize node).toNat := by
        rw [sizeT]
        omega
      rw [hb.length_cons, expectedReadSize]
      by_cases hge : sizeT ((acc : Int) + nodeSize node) ≥ size
      · rw [if_pos hge]
        omega
      · rw [if_neg hge]
        have := ih _ hb.tail (Nat.le_of_not_le hge)
        omega

/-- Whatever it is asked for, `read_from_buffer` keeps the invariant. -/
theorem moves_readFromBuffer {p : CachePool} {b : Buffer} {size : Nat}
    (hp : PoolInv p) (hb : BufferInv p b) (hsize : size < 2 ^ 64) :
    Moves p (readFromBuffer p b size).pool b (readFromBuffer p b size).buffer := by
  obtain ⟨hle, hlen⟩ := expectedReadSize_le 0 hb (Nat.zero_le size)
  have h := readFromLoop_spec (expectedReadSize size 0 b) (by omega)
    (b.length + 1) b p [] hp hb (Nat.zero_le _) hlen (Nat.lt_succ_self _)
  rw [List.length_nil, Nat.sub_zero, List.nil_append] at h
  exact h.moves

/-! ## `write_from_buffer` -/

/-- The coming `write` calls report no error. -/
def WritesOk (writes : List WriteOutcome) : Prop :=
  ∀ w ∈ writes, w ≠ .error

instance (writes : List WriteOutcome) : Decidable (WritesOk writes) :=
  inferInstanceAs (Decidable (∀ w ∈ writes, w ≠ .error))

/-- A `write` fails, or takes some of the bytes, none only of none. -/
theorem fdWrite_cases (n : Nat) (writes : List WriteOutcome) :
    (∃ rest, writes = .error :: rest)
    ∨ ∃ (k : Nat) (writes' : List WriteOutcome),
        fdWrite n writes = ((k : Int), writes') ∧ k ≤ n ∧ (0 < n → 0 < k) := by
  cases writes with
  | nil => exact Or.inr ⟨n, [], rfl, Nat.le_refl n, fun h => h⟩
  | cons w rest =>
      cases w with
      | error => exact Or.inl ⟨rest, rfl⟩
      | count k =>
          refine Or.inr ⟨_, rest, rfl, ?_, ?_⟩
          · split <;> omega
          · intro hpos
            rw [if_neg (by omega)]
            omega

/-- The sizes of the nodes. -/
def nodeSizes (b : Buffer) : List Nat :=
  b.map fun node => (nodeSize node).toNat

/-- One of the `write` calls for `size` bytes of nodes of the given sizes
    reports an error. -/
def meetsFailure : List WriteOutcome → Nat → List Nat → Bool
  | [], _, _ => false
  | _ :: _, _, [] => false
  | .error :: _, size, _ :: _ => decide (0 < size)
  | .count k :: ws, size, n :: sizes =>
      let k := (fdWrite (min n size) (.count k :: ws)).1.toNat
      decide (0 < size)
        && meetsFailure ws (size - k) (if k = n then sizes else (n - k) :: sizes)

/-- One call that succeeds. -/
theorem meetsFailure_round {n size k : Nat} {writes writes' : List WriteOutcome}
    (sizes : List Nat) (h0 : 0 < size)
    (hw : fdWrite (min n size) writes = ((k : Int), writes')) :
    meetsFailure writes size (n :: sizes)
      = meetsFailure writes' (size - k)
          (if k = n then sizes else (n - k) :: sizes) := by
  cases writes with
  | nil =>
      obtain rfl := congrArg Prod.snd hw
      rfl
  | cons w rest =>
      cases w with
      | error => cases congrArg Prod.fst hw
      | count j =>
          have hk : (fdWrite (min n size) (.count j :: rest)).1.toNat = k := by
            rw [hw]
            rfl
          obtain rfl : rest = writes' := congrArg Prod.snd hw
          rw [meetsFailure]
          simp only [hk, h0, decide_true, Bool.true_and]

/-- Outcomes without an error meet none. -/
theorem meetsFailure_of_ok : ∀ {writes : List WriteOutcome},
    WritesOk writes → ∀ size sizes, meetsFailure writes size sizes = false := by
  intro writes
  induction writes with
  | nil => intro _ _ _; rfl
  | cons w writes ih =>
      intro h size sizes
      cases sizes with
      | nil => cases w <;> rfl
      | cons n sizes =>
          cases w with
          | error => exact absurd rfl (h .error (List.mem_cons_self ..))
          | count k =>
              rw [meetsFailure]
              simp only [ih (fun w hw => h w (List.mem_cons_of_mem _ hw)),
                Bool.and_false]

/-- **ONE ROUND OF `write_from_buffer`**, in terms of the content: `write` takes
    `k` bytes; an exhausted node leaves. -/
theorem writeFromLoop_cons {size fuel k : Nat} {p : CachePool}
    {node : InnerNode} {rest : Buffer} {writes writes' : List WriteOutcome}
    {sent sent' : List UInt8} {calls : List WriteCall} (hsize : size < 2 ^ 64)
    (hb : BufferInv p (node :: rest)) (hlt : sent.length < size)
    (hw : fdWrite (min (nodeSize node).toNat (size - sent.length)) writes
      = ((k : Int), writes'))
    (hk : k ≤ min (nodeSize node).toNat (size - sent.length))
    (hsent : sent' = sent ++ (content p (node :: rest)).take k) :
    writeFromLoop size (fuel + 1) sent.length (node :: rest) p writes sent calls
      = if k = (nodeSize node).toNat then
          writeFromLoop size fuel sent'.length rest
            (recycleCache p node.cache).2 writes' sent'
            (calls ++ [⟨node.rOffset, k⟩])
        else
          writeFromLoop size fuel sent'.length
            ({ node with rOffset := node.rOffset + k } :: rest) p writes'
            sent' (calls ++ [⟨node.rOffset, k⟩]) := by
  have hmem := List.mem_cons_self (a := node) (l := rest)
  have ho := (hb.offsets node hmem).nonneg
  have hkn : k ≤ (nodeSize node).toNat := by omega
  have hke : k ≤ size - sent.length := by omega
  have hslice : slice (p.mem node.cache).buff node.rOffset.toNat k
      = (content p (node :: rest)).take k := slice_first hb hkn
  have hlk := length_take_first hb hkn
  have hsent' : sent'.length = sent.length + k := by
    rw [hsent, List.length_append, hlk]
  have hend := propext (usedUp_iff hb k)
  have hkT : sizeT (k : Int) = k := sizeT_natCast (by omega)
  have halready : sizeT ((sent.length : Int) + (k : Nat)) = sent'.length := by
    clear hkT
    rw [hsent', sizeT_of_nonneg (by omega) (by omega)]
    omega
  have hoff : cInt ((sizeT node.rOffset : Int) + (k : Nat))
      = node.rOffset + k := by
    clear hkT halready
    rw [sizeT_of_nonneg (by omega) (by omega), Int.toNat_of_nonneg (by omega)]
    exact cInt_of_mem (by omega) (by omega)
  have hwrite : minSizeT (sizeT (nodeSize node)) (size - sent.length)
      = min (nodeSize node).toNat (size - sent.length) :=
    minSizeT_sizeT _ ho.2.2.2.1 ho.2.2.2.2
  rw [writeFromLoop.eq_def]
  dsimp only
  rw [if_pos hlt, hwrite, hw]
  simp only [hkT, Nat.not_lt_zero, if_false, Int.toNat_natCast, hslice,
    ← hsent, halready, hoff, hend]

/-- The node sizes while the first node stays. -/
theorem nodeSizes_advance {node : InnerNode} {rest : Buffer} {k : Nat}
    (hk : k < (nodeSize node).toNat) :
    nodeSizes ({ node with rOffset := node.rOffset + k } :: rest)
      = ((nodeSize node).toNat - k) :: nodeSizes rest := by
  have hsize : (nodeSize { node with rOffset := node.rOffset + k }).toNat
      = (nodeSize node).toNat - k := by
    simp only [nodeSize] at *
    omega
  rw [nodeSizes, List.map_cons, hsize]
  rfl

/-- The calls of `write` all succeeded. -/
def AllSucceed (calls : List WriteCall) : Prop :=
  ∀ call ∈ calls, call.ret ≠ -1

theorem AllSucceed.concat {calls : List WriteCall} (h : AllSucceed calls)
    (r : Int) (k : Nat) : AllSucceed (calls ++ [⟨r, k⟩]) := by
  intro call hc
  rcases List.mem_append.mp hc with h1 | h2
  · exact h call h1
  · rw [List.mem_singleton.mp h2]
    show (k : Int) ≠ -1
    omega

private theorem writeFromLoop_spec {size : Nat} (hsize : size < 2 ^ 64) :
    ∀ (fuel : Nat) (b : Buffer) (p : CachePool) (writes : List WriteOutcome)
      (sent : List UInt8) (calls : List WriteCall),
      PoolInv p → BufferInv p b →
      meetsFailure writes (size - sent.length) (nodeSizes b) = false →
      AllSucceed calls → sent.length ≤ size →
      size - sent.length + b.length < fuel →
      Taken p b sent (size - sent.length)
          (writeFromLoop size fuel sent.length b p writes sent calls).toTakeOut
        ∧ AllSucceed
          (writeFromLoop size fuel sent.length b p writes sent calls).calls := by
  intro fuel
  induction fuel with
  | zero =>
      intro b p ws sent calls _ _ _ _ _ hfuel
      exact absurd hfuel (Nat.not_lt_zero _)
  | succ fuel ih =>
      intro b p ws sent calls hp hb hws hcalls hle hfuel
      by_cases hlt : sent.length < size
      · cases b with
        | nil =>
            rw [writeFromLoop.eq_def]
            dsimp only
            rw [if_pos hlt]
            refine ⟨⟨Moves.refl hp hb, ?_, ?_, ?_⟩, hcalls⟩
            · show ([] : List UInt8) = List.drop _ []
              rw [List.drop_nil]
            · show sent = sent ++ List.take _ []
              rw [List.take_nil, List.append_nil]
            · show sent.length = sent.length + min _ 0
              rw [Nat.min_zero, Nat.add_zero]
        | cons node rest =>
            rcases fdWrite_cases (min (nodeSize node).toNat
              (size - sent.length)) ws with ⟨later, rfl⟩ | ⟨k, ws', hk, hkle, hkpos⟩
            · -- a failure is not met
              have hmet : meetsFailure (.error :: later) (size - sent.length)
                  (nodeSizes (node :: rest)) = true :=
                decide_eq_true (by omega)
              rw [hws] at hmet
              cases hmet
            obtain ⟨sent', hsent⟩ : ∃ sent', sent'
              = sent ++ (content p (node :: rest)).take k := ⟨_, rfl⟩
            have hcl := hb.length_cons
            have hsent' : sent'.length = sent.length + k := by
              rw [hsent, List.length_append, length_take_first hb (by omega)]
            have hrest : size - sent'.length = size - sent.length - k := by
              rw [hsent', Nat.sub_sub]
            have hmeets := (meetsFailure_round (nodeSizes rest)
              (by omega) hk).symm.trans hws
            rw [List.length_cons] at hfuel
            rw [writeFromLoop_cons hsize hb hlt hk hkle hsent]
            clear hk
            by_cases hend : k = (nodeSize node).toNat
            · -- the node is used up
              rw [if_pos hend] at hmeets
              rw [if_pos hend]
              obtain ⟨hm, hc⟩ := moves_removeFirst hp hb
              have hdrop : content p rest
                  = (content p (node :: rest)).drop k := by
                rw [hend, drop_first hb]
              have hrec := ih rest _ ws' sent' _ hm.pool hm.inv
                (by rw [hrest]; exact hmeets) (hcalls.concat node.rOffset k)
                (by omega) (by omega)
              refine ⟨Taken.round hm (hc.trans hdrop) (by omega) (by omega) ?_,
                hrec.2⟩
              rw [← hrest, ← hsent]
              exact hrec.1
            · -- a short count, or all that was asked for: the node stays
              rw [if_neg hend] at hmeets
              rw [if_neg hend]
              have hkn : k < (nodeSize node).toNat := by omega
              have hk0 : 0 < k := hkpos (by omega)
              obtain ⟨hm, hc⟩ := moves_advance hp hb hkn
              have hrec := ih _ p ws' sent' _ hm.pool hm.inv
                (by rw [hrest, nodeSizes_advance hkn]; exact hmeets)
                (hcalls.concat node.rOffset k) (by omega)
                (by rw [List.length_cons]; omega)
              refine ⟨Taken.round hm hc (by omega) (by omega) ?_, hrec.2⟩
              rw [← hrest, ← hsent]
              exact hrec.1
      · rw [writeFromLoop.eq_def]
        dsimp only
        rw [if_neg hlt]
        have hz : size - sent.length = 0 := by omega
        rw [hz]
        exact ⟨Taken.zero hp hb sent, hcalls⟩

/-- **`write_from_buffer`** when no call of `write` fails: it sends the first
    `size` bytes of the content or all of it, however short the single writes
    are. -/
theorem writeFromBuffer_noFailure {p : CachePool} {b : Buffer} {size : Nat}
    {writes : List WriteOutcome} (hp : PoolInv p) (hb : BufferInv p b)
    (hsize : size < 2 ^ 64)
    (hws : meetsFailure writes size (nodeSizes b) = false) :
    Taken p b [] size (writeFromBuffer p b size writes).toTakeOut
      ∧ AllSucceed (writeFromBuffer p b size writes).calls := by
  have h := writeFromLoop_spec hsize (size + 2 * writes.length + b.length + 1)
    b p writes [] [] hp hb hws (fun _ hc => absurd hc List.not_mem_nil)
    (Nat.zero_le _) (by
      rw [List.length_nil]
      omega)
  rw [List.length_nil, Nat.sub_zero] at h
  exact h

theorem writeFromBuffer_spec {p : CachePool} {b : Buffer} {size : Nat}
    {writes : List WriteOutcome} (hp : PoolInv p) (hb : BufferInv p b)
    (hsize : size < 2 ^ 64) (hws : WritesOk writes) :
    Taken p b [] size (writeFromBuffer p b size writes).toTakeOut :=
  (writeFromBuffer_noFailure hp hb hsize (meetsFailure_of_ok hws _ _)).1

/-! ## `destroy_buffer` -/

/-- **`destroy_buffer`** gives every cache of the buffer back. -/
theorem moves_destroyBuffer {p : CachePool} {b : Buffer} (hp : PoolInv p)
    (hb : BufferInv p b) : Moves p (destroyBuffer p b) b [] := by
  induction b with
  | nil => exact Moves.refl hp hb
  | cons node b ih =>
      have hm := ih hb.tail
      have hnot : node.cache ∉ owned b := (List.nodup_cons.mp hb.nodup).1
      have hheld : Held (destroyBuffer p b) node.cache :=
        hm.keeps.held _ (hb.held node (List.mem_cons_self ..)) hnot
      have hback := (recycleCache_spec hm.pool hheld).2
      have hkeeps : Keeps p (destroyBuffer p b) (owned (node :: b)) :=
        hm.keeps.mono (fun a ha => List.mem_cons_of_mem _ ha)
      refine ⟨hback.inv, bufferInv_nil _, hkeeps.trans hback.keeps ?_,
        fun _ h => by cases h⟩
      intro a ha
      rw [List.mem_singleton.mp ha]
      exact Or.inl (List.mem_cons_self ..)

end IMBufferTake

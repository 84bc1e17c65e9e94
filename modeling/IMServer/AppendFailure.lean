import IMServer.BufferAppend

/-! # Failing allocations — `write_into_buffer` and `read_into_buffer`

    A node needs two allocations, and either may fail, before the first byte is
    stored or behind any full node.  `append_exact` says what the caller can rely
    on: `-1` means that nothing was appended, any other value is the number of
    bytes that were. -/

namespace IMAppendFailure

open IMBytes IMCString IMMachineInt IMCachePool IMBuffer IMBufferInvariant
  IMBufferAppend

/-- **AN EXACT APPEND**: `-1`, the content as before and nothing taken from the
    source, or a count `n` and `n` bytes of the source behind the content.  The
    caches of the buffer satisfy the invariant, all others are left alone. -/
structure AppendsExactly {σ : Type} (p : CachePool) (b : Buffer) (size : Nat)
    (source : List UInt8 → Prop) (r : IoResult σ) : Prop where
  pool : PoolInv r.pool
  inv : BufferInv r.pool r.buffer
  others : Keeps p r.pool (owned b)
  count : (r.ret = sizeT (-1) ∧ content r.pool r.buffer = content p b
      ∧ source [])
    ∨ ∃ n taken, r.ret = n ∧ n ≤ size ∧ taken.length = n ∧ source taken
        ∧ content r.pool r.buffer = content p b ++ taken

theorem appendsExactly_of_appended {σ : Type}
    {next : Nat → σ → Option (List UInt8) × σ} {p : CachePool} {b : Buffer}
    {size : Nat} {source : List UInt8 → Prop} {r : IoResult σ}
    (h : Appended next p b size r) (hsource : source r.got) :
    AppendsExactly p b size source r where
  pool := h.moves.pool
  inv := h.moves.inv
  others := h.moves.keeps
  count := by
    rcases h.ret with hret | ⟨hret, hnone, -⟩
    · exact Or.inr ⟨_, r.got, hret, h.le, rfl, hsource, h.content⟩
    · refine Or.inl ⟨hret, ?_, hnone ▸ hsource⟩
      rw [h.content, hnone, List.append_nil]

/-- **APPENDING IS EXACT UNDER ALLOCATION FAILURE**: whichever allocations fail,
    `write_into_buffer` appends the first bytes of the source and
    `read_into_buffer` all that its `read` calls took from the socket, as many
    bytes as the call returns. -/
theorem append_exact {p : CachePool} {b : Buffer} {size : Nat}
    (hp : PoolInv p) (hb : BufferInv p b) (hsize : size < 2 ^ 31) :
    (∀ src : List UInt8, AppendsExactly p b size
      (fun taken => taken = src.take taken.length)
      (writeIntoBuffer p b src size))
    ∧ ∀ reads : List ReadOutcome, ReadsOk reads → AppendsExactly p b size
      (fun taken => taken = delivered (readCalls p b size reads))
      (readIntoBuffer p b size reads) := by
  constructor
  · intro src
    obtain ⟨happ, hfirst, -⟩ := writeIntoBuffer_spec src hp hb hsize
    exact appendsExactly_of_appended happ hfirst
  · intro reads hok
    exact appendsExactly_of_appended (readIntoBuffer_spec hp hb hsize hok)
      (readIntoBuffer_got p b size reads)

/-- The pool of `hello` where the next node's cache cannot be had. -/
def failingPool : CachePool :=
  { hello.pool with mallocs := [true, false] }

theorem poolInv_failingPool : PoolInv failingPool where
  allNode := hello_inv.1.allNode
  freeNodup := hello_inv.1.freeNodup
  freeLt := hello_inv.1.freeLt
  filed := hello_inv.1.filed
  blank := hello_inv.1.blank
  buffLen := hello_inv.1.buffLen
  hasClass := hello_inv.1.hasClass
  classes := hello_inv.1.classes

theorem bufferInv_failingPool : BufferInv failingPool hello.buffer where
  held := hello_inv.2.held
  nodup := hello_inv.2.nodup
  room := hello_inv.2.room
  offsets := hello_inv.2.offsets
  full := hello_inv.2.full

/-- 600 bytes behind `hello`: the node takes 507, the next one fails. -/
theorem append_exact_secondNode :
    AppendsExactly failingPool hello.buffer 600
        (fun taken => taken = (List.replicate 600 120).take taken.length)
        (writeIntoBuffer failingPool hello.buffer (List.replicate 600 120) 600)
      ∧ (writeIntoBuffer failingPool hello.buffer
          (List.replicate 600 120) 600).ret = 507 :=
  ⟨(append_exact poolInv_failingPool bufferInv_failingPool
    (by decide)).1 _, by decide +kernel⟩

end IMAppendFailure

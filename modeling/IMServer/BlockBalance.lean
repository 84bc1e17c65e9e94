import IMServer.BlockLedger
import IMServer.ReadRound

/-! # The blocks of the reading thread

    Along a round the thread holds the block of the snapshot, the block of the
    line at hand, the message built from it and the array of a delivery.  The
    functions here are those of the round, for the ledger of these blocks: each
    allocation draws a token where the source gets the block, and each `free` or
    `release_msg` gives it back.  `malloc` returns a block for a size of 0, too. -/

namespace IMBlockBalance

open IMBytes IMCString IMMachineInt IMCachePool IMBuffer IMBufferAppend
  IMReadRollback IMBufferQueue IMClientInfo IMMessage IMServerInfo IMMarks
  IMServerRun IMThreads IMTransition IMReadRound IMBlockLedger

/-! ## The blocks of the functions -/

/-- `deliver_msg_to_all_clients`: the array of `get_client_list`. -/
def deliverBlocks (s : ServerInfo) (l : Ledger) : Ledger :=
  match getClientList s with
  | (none, _) => l
  | (some _, _) =>
      let (clients, l) := l.acquire
      l.release clients

/-- The body of the loop of `try_to_handle_msg`: the message a constructor
    returned is delivered and released. -/
def handleMsgBlocks (s : ServerInfo) (c : PClientInfo) (env : Surround)
    (line : List UInt8) (l : Ledger) : Ledger :=
  let r := dispatchMsg s c env (line ++ env.afterLine)
  match r.1 with
  | none => l
  | some _ =>
      let (redirectMsg, l) := l.acquire
      (deliverBlocks r.2 l).release redirectMsg

/-- The loop of `try_to_handle_msg`; `msg` is the block of the fetch at hand. -/
def handleLoopBlocks (c : PClientInfo) (envs : Nat → Surround) :
    Nat → Nat → Nat → ServerInfo → Ledger → Ledger
  | 0, _, _, _, l => l
  | fuel + 1, round, msg, s, l =>
      let r := fetchMsgFromClient s.mem (envs round).afterCache c
      let s := { s with mem := r.clients }
      if r.ret > 0 then
        let l := (handleMsgBlocks s c (envs round) r.bytes l).release msg
        let (msg, l) := l.acquire
        handleLoopBlocks c envs fuel (round + 1) msg
          (handleMsg s c (envs round) r.bytes).2 l
      else l

/-- `try_to_handle_msg`: the block of the first fetch, and the loop. -/
def tryToHandleMsgBlocks (s : ServerInfo) (c : PClientInfo)
    (envs : Nat → Surround) (l : Ledger) : Ledger :=
  let (msg, l) := l.acquire
  handleLoopBlocks c envs ((s.mem.reading c).length + 1) 0 msg s l

/-- The branch for `POLLIN`. -/
def readClientBlocks (s : ServerInfo) (e : PollEntry) (env : EntryEnv)
    (l : Ledger) : Ledger :=
  let f := fetchEntry s e.client env
  if cInt f.ret ≠ 0 then
    tryToHandleMsgBlocks { s with mem := f.clients } e.client env.envs l
  else l

/-- The body of the loop over the entries. -/
def readEntryBlocks (s : ServerInfo) (e : PollEntry) (env : EntryEnv)
    (l : Ledger) : Ledger :=
  if e.pollFd.fd = -1 then l
  else if e.pollFd.fd ≠ (s.mem.info e.client).socketId then l
  else if e.pollFd.revents = 0 then l
  else if e.pollFd.revents &&& pollIn ≠ 0 then readClientBlocks s e env l
  else l

/-- The loop. -/
def readLoopBlocks (env : PClientInfo → EntryEnv) :
    List PollEntry → ServerInfo → Ledger → Ledger
  | [], _, l => l
  | e :: entries, s, l =>
      readLoopBlocks env entries (readEntry s e (env e.client)).2
        (readEntryBlocks s e (env e.client) l)

/-- **ONE ROUND** of `read_sockets`: the block of the snapshot is freed behind the
    loop, which the `continue` for a failed or timed out `poll` jumps over. -/
def readRoundBlocks (s : ServerInfo) (env : RoundEnv) (l : Ledger) : Ledger :=
  match getPollingAndClientList s with
  | (none, _) => l
  | (some all, s) =>
      let (data, l) := l.acquire
      if env.pollRet = -1 ∨ env.pollRet = 0 then l
      else (readLoopBlocks env.entry (all.map (withRevents env)) s l).release data

/-! ## What they lose -/

theorem ran_deliver (s : ServerInfo) (l : Ledger) : Ran l (deliverBlocks s l) [] := by
  rw [deliverBlocks]
  split
  · exact Ran.refl l
  · exact (Ran.refl l.acquire.2).bracket

theorem ran_handleMsg (s : ServerInfo) (c : PClientInfo) (env : Surround)
    (line : List UInt8) (l : Ledger) : Ran l (handleMsgBlocks s c env line l) [] := by
  rw [handleMsgBlocks]
  generalize dispatchMsg s c env (line ++ env.afterLine) = r
  dsimp only
  split
  · exact Ran.refl l
  · exact (ran_deliver r.2 l.acquire.2).bracket

/-- The ledger behind the body of a round, before the next fetch. -/
def bodyBlocks (s : ServerInfo) (c : PClientInfo) (env : Surround) (msg : Nat)
    (l : Ledger) : Ledger :=
  (handleMsgBlocks (fetched s c env) c env (roundLine s c env) l).release msg

theorem handleLoopBlocks_succ (c : PClientInfo) (envs : Nat → Surround)
    (fuel round msg : Nat) (s : ServerInfo) (l : Ledger) :
    handleLoopBlocks c envs (fuel + 1) round msg s l
      = if (fetchMsgFromClient s.mem (envs round).afterCache c).ret > 0 then
          handleLoopBlocks c envs fuel (round + 1)
            (bodyBlocks s c (envs round) msg l).acquire.1
            (afterRound s c (envs round))
            (bodyBlocks s c (envs round) msg l).acquire.2
        else l := rfl

/-- The loop of `try_to_handle_msg` gives back every block but the one of its last
    fetch. -/
theorem ran_handleLoop {c : PClientInfo} (envs : Nat → Surround) :
    ∀ (fuel round : Nat) (s : ServerInfo) (l : Ledger),
      ∃ msg, Ran l (handleLoopBlocks c envs fuel round l.acquire.1 s l.acquire.2)
        [msg] := by
  intro fuel
  induction fuel with
  | zero => intro _ _ l; exact ⟨_, ran_acquire l⟩
  | succ fuel ih =>
      intro round s l
      rw [handleLoopBlocks_succ]
      split
      · have hbody : Ran l (bodyBlocks s c (envs round) l.acquire.1 l.acquire.2) [] :=
          (ran_handleMsg (fetched s c (envs round)) c (envs round)
            (roundLine s c (envs round)) l.acquire.2).bracket
        obtain ⟨msg, hrest⟩ := ih (round + 1) (afterRound s c (envs round))
          (bodyBlocks s c (envs round) l.acquire.1 l.acquire.2)
        exact ⟨msg, hbody.trans hrest⟩
      · exact ⟨_, ran_acquire l⟩

/-- **ONE CALL** of `try_to_handle_msg` loses one block. -/
theorem ran_tryToHandleMsg (s : ServerInfo) (c : PClientInfo)
    (envs : Nat → Surround) (l : Ledger) :
    ∃ msg, Ran l (tryToHandleMsgBlocks s c envs l) [msg] := by
  rw [tryToHandleMsgBlocks]
  exact ran_handleLoop envs ((s.mem.reading c).length + 1) 0 s l

/-! ## When a fetch brings nothing -/

/-- The next `read` brings no byte: the stream has ended. -/
def NothingToRead (reads : List ReadOutcome) : Prop :=
  ∀ r ∈ reads.head?, r = .bytes []

/-- The `w_offset` of the last node is in range. -/
def RoomOk (b : Buffer) : Prop :=
  ∀ last ∈ b.getLast?, 0 ≤ last.wOffset ∧ last.wOffset ≤ cacheSize

/-- The node to begin with is there, and there is nothing to read. -/
def ReadEnds (p : CachePool) (b : Buffer) (size : Nat)
    (reads : List ReadOutcome) : Prop :=
  ¬ (NeedsNode b ∧ (newInnerNode p).1 = none)
    ∧ (size = 0 ∨ NothingToRead reads)

/-- A fetch for the client brings nothing, and no error. -/
def StreamEnded (s : ServerInfo) (c : PClientInfo) (env : EntryEnv) : Prop :=
  match env.byteAvailable with
  | none => False
  | some n => ReadEnds s.pool (s.mem.heap.buf (c, .reading)) n env.reads

/-- A `read` of at least one byte fails, brings nothing, or brings some bytes. -/
theorem fdRead_nothing {n : Nat} (hn : 0 < n) (reads : List ReadOutcome) :
    ((∃ rest, fdRead n reads = (none, rest)) ∧ ¬ NothingToRead reads)
    ∨ ∃ bs rest, fdRead n reads = (some bs, rest)
      ∧ (NothingToRead reads ↔ bs = []) := by
  cases reads with
  | nil => exact Or.inr ⟨[], [], rfl, fun _ => rfl, fun _ r hr => by cases hr⟩
  | cons r rest =>
      cases r with
      | error => exact Or.inl ⟨⟨rest, rfl⟩, fun h => by cases h _ rfl⟩
      | bytes bs =>
          refine Or.inr ⟨bs.take n, rest, rfl, fun h => ?_, fun h r hr => ?_⟩
          · rw [ReadOutcome.bytes.inj (h _ rfl)]
            exact List.take_nil
          · obtain rfl := Option.some.inj hr
            have hbs := (List.take_eq_nil_iff.mp h).resolve_left (by omega)
            rw [hbs]

theorem newInnerNode_offsets {p p' : CachePool} {node : InnerNode}
    (h : newInnerNode p = (some node, p')) : node.wOffset = 0 := by
  rw [newInnerNode] at h
  split at h
  · cases h
  split at h
  · cases h
  split at h
  · cases h
  · obtain rfl := Option.some.inj (congrArg Prod.fst h)
    rfl

/-- The value of the loop is 0 when nothing has been read and nothing is to be
    read, and only then. -/
theorem fillLoop_zero {size : Nat} (hsize : size < 2 ^ 31) :
    ∀ (fuel : Nat) (done : List InnerNode) (node : InnerNode) (p : CachePool)
      (reads : List ReadOutcome) (got : List UInt8),
      0 ≤ node.wOffset → node.wOffset < cacheSize → got.length < size →
      size - got.length < fuel →
      (sizeT (fillLoop fdRead size fuel done node p reads got).ret = 0
        ↔ got = [] ∧ NothingToRead reads) := by
  have hcount : ∀ {bs : List UInt8}, bs.length ≤ size →
      (sizeT (cInt bs.length) = 0 ↔ bs = []) := by
    intro bs hle
    rw [cInt_natCast (by omega), sizeT_natCast (by omega),
      List.length_eq_zero_iff]
  intro fuel
  induction fuel with
  | zero => exact fun _ _ _ _ _ _ _ _ h => absurd h (Nat.not_lt_zero _)
  | succ fuel ih =>
      intro done node p reads got h0 hroom hgot hfuel
      rw [fillLoop, if_pos hgot]
      dsimp only
      generalize hask : minSizeT (size - got.length)
        (sizeT (cacheSize - node.wOffset)) = ask
      have hpos : 0 < ask ∧ ask ≤ size - got.length := by
        rw [← hask, minSizeT, sizeT_of_nonneg (by omega)
          (by simp only [cacheSize] at *; omega)]
        split <;> omega
      rcases fdRead_nothing hpos.1 reads
        with ⟨⟨rest, hread⟩, hsome⟩ | ⟨bs, rest, hread, hsome⟩
      · rw [hread]
        refine ⟨fun h => ?_, fun h => absurd h.2 hsome⟩
        exact absurd (sizeT_neg_one.symm.trans h) (by decide)
      · have hle : (got ++ bs).length ≤ size := by
          have := bounded_fdRead _ _ _ _ hread
          rw [List.length_append]
          omega
        have hnil : got ++ bs = [] ↔ got = [] ∧ NothingToRead reads := by
          rw [List.append_eq_nil_iff, hsome]
        rw [hread]
        dsimp only
        by_cases hend : (got ++ bs).length = size ∨ bs.length < ask
        · rw [if_pos hend]
          exact (hcount hle).trans hnil
        · rw [if_neg hend]
          rw [not_or, Nat.not_lt] at hend
          cases hnew : newInnerNode (writeCache p node.cache
              node.wOffset.toNat bs) with
          | mk o p' =>
              cases o with
              | none => exact (hcount hle).trans hnil
              | some node' =>
                  have hoff := newInnerNode_offsets hnew
                  have hne : got ++ bs ≠ [] := by
                    intro h
                    have := (List.append_eq_nil_iff.mp h).2
                    rw [this, List.length_nil] at hend
                    omega
                  have hlen : (got ++ bs).length = got.length + bs.length :=
                    List.length_append
                  have hrest := ih (done ++ [{ node with
                    wOffset := node.wOffset + bs.length }]) node' p' rest
                    (got ++ bs) (by omega) (by rw [hoff]; decide) (by omega)
                    (by omega)
                  exact ⟨fun h => absurd (hrest.mp h).1 hne,
                    fun h => absurd (hnil.mpr h) hne⟩

/-- A loop with nothing to read leaves the node as it was. -/
theorem fillLoop_ends {size : Nat} {node : InnerNode} {reads : List ReadOutcome}
    (hroom : 0 ≤ node.wOffset) (hlt : node.wOffset < cacheSize)
    (hends : size = 0 ∨ NothingToRead reads) (fuel : Nat)
    (done : List InnerNode) (p : CachePool) :
    (fillLoop fdRead size (fuel + 1) done node p reads []).nodes = done ++ [node]
      ∧ (fillLoop fdRead size (fuel + 1) done node p reads []).ret = 0
      ∧ (fillLoop fdRead size (fuel + 1) done node p reads []).failed = false := by
  rw [fillLoop]
  by_cases hpos : ([] : List UInt8).length < size
  · rw [if_pos hpos]
    dsimp only
    have hnothing := hends.resolve_left (by simp only [List.length_nil] at hpos; omega)
    generalize hask : minSizeT (size - ([] : List UInt8).length)
      (sizeT (cacheSize - node.wOffset)) = ask
    have hasked : 0 < ask := by
      rw [← hask, minSizeT, sizeT_of_nonneg (by omega)
        (by simp only [cacheSize] at *; omega)]
      simp only [List.length_nil] at *
      split <;> omega
    rcases fdRead_nothing hasked reads
      with ⟨-, hsome⟩ | ⟨bs, rest, hread, hsome⟩
    · exact absurd hnothing hsome
    · obtain rfl := hsome.mp hnothing
      rw [hread]
      dsimp only
      rw [if_pos (Or.inr (by rw [List.length_nil]; exact hasked))]
      refine ⟨?_, rfl, rfl⟩
      rw [List.length_nil, Int.natCast_zero, Int.add_zero]
  · rw [if_neg hpos]
    exact ⟨rfl, rfl, rfl⟩

/-- Behind a loop with nothing to read the buffer is as it was. -/
theorem finishFill_ends {size : Nat} (b done : Buffer) {node : InnerNode}
    (reads : List ReadOutcome) (hsize : size < 2 ^ 31) (hroom : 0 ≤ node.wOffset)
    (hlt : node.wOffset < cacheSize) (hb : (done ++ [node]).take b.length = b)
    (p : CachePool) (w : Nat) :
    ((finishFill b w (fillLoop fdRead size (size + 1) done node p reads [])).ret = 0
        ↔ size = 0 ∨ NothingToRead reads)
      ∧ (size = 0 ∨ NothingToRead reads →
        (finishFill b w (fillLoop fdRead size (size + 1) done node p reads
          [])).buffer = b) := by
  have hends := fun (h : size = 0 ∨ NothingToRead reads) =>
    fillLoop_ends hroom hlt h size done p
  have hzero := fun hpos => fillLoop_zero hsize (size + 1) done node p reads []
    hroom hlt hpos (by rw [List.length_nil]; omega)
  rw [ret_finishFill]
  generalize fillLoop fdRead size (size + 1) done node p reads [] = out at *
  refine ⟨⟨fun h => ?_, fun h => ?_⟩, fun h => ?_⟩
  · by_cases hpos : size = 0
    · exact Or.inl hpos
    · exact Or.inr ((hzero (by rw [List.length_nil]; omega)).mp h).2
  · rw [(hends h).2.1]
    rfl
  · obtain ⟨hnodes, hret, hfailed⟩ := hends h
    unfold finishFill
    dsimp only
    rw [hfailed, if_neg (by decide), hret, if_neg (fun h => by cases h.1), hnodes,
      hb]

/-- **A FETCH OF NOTHING**: `read_into_buffer` returns 0 when the node to begin with
    is there and there is nothing to read, and only then; the buffer is as it
    was. -/
theorem readIntoBuffer_ends {b : Buffer} (hb : RoomOk b) {size : Nat}
    (hsize : size < 2 ^ 31) (p : CachePool) (reads : List ReadOutcome) :
    ((readIntoBuffer p b size reads).ret = 0 ↔ ReadEnds p b size reads)
      ∧ (ReadEnds p b size reads → (readIntoBuffer p b size reads).buffer = b) := by
  rcases fillBuffer_cases fdRead size p b reads with ⟨hneeds, heq⟩
    | ⟨front, last, rfl, hw, heq⟩
  · rw [readIntoBuffer, heq, fillNewNode, ReadEnds]
    cases hn : newInnerNode p with
    | mk o q =>
        cases o with
        | none =>
            have hnot : ¬ sizeT (-1) = 0 := by
              rw [sizeT_neg_one]
              decide
            exact ⟨⟨fun h => absurd h hnot, fun h => absurd ⟨hneeds, rfl⟩ h.1⟩,
              fun _ => rfl⟩
        | some node =>
            have hoff := newInnerNode_offsets hn
            have hlt : node.wOffset < cacheSize := by
              rw [hoff]
              decide
            obtain ⟨hret, hbuf⟩ := finishFill_ends b b reads hsize
              (Int.le_of_eq hoff.symm) hlt List.take_left q (sizeT (-1))
            dsimp only
            have hsome : ¬ (NeedsNode b ∧ (some node : Option InnerNode) = none) :=
              fun h => by cases h.2
            exact ⟨hret.trans ⟨fun h => ⟨hsome, h⟩, And.right⟩,
              fun h => hbuf h.2⟩
  · have hroom := hb last List.getLast?_concat
    obtain ⟨hret, hbuf⟩ := finishFill_ends (front ++ [last]) front reads hsize
      hroom.1 (by omega) List.take_length p (sizeT last.wOffset)
    have hnot : ¬ (NeedsNode (front ++ [last]) ∧ (newInnerNode p).1 = none) :=
      fun h => hw (h.1 last List.getLast?_concat)
    rw [readIntoBuffer, heq, ReadEnds]
    exact ⟨hret.trans ⟨fun h => ⟨hnot, h⟩, And.right⟩, fun h => hbuf h.2⟩

/-- **THE VALUE 0** of `fetch_from_client`. -/
theorem fetchEntry_zero {s : ServerInfo} {c : PClientInfo}
    (hb : RoomOk (s.mem.heap.buf (c, .reading))) (env : EntryEnv) :
    ((fetchEntry s c env).ret = 0 ↔ StreamEnded s c env)
      ∧ (StreamEnded s c env →
        ∀ i, (fetchEntry s c env).clients.heap.buf i = s.mem.heap.buf i) := by
  obtain ⟨byteAvailable, reads, envs, hint⟩ := env
  cases byteAvailable with
  | none =>
      refine ⟨⟨fun h => ?_, fun h => h.elim⟩, fun h => h.elim⟩
      exact absurd (sizeT_neg_one.symm.trans h) (by decide)
  | some n =>
      have hn := hint n rfl
      have hends := readIntoBuffer_ends hb hn s.pool reads
      simp only [fetchEntry, Option.map_some, fetchFromClient,
        sizeT_natCast (show n < 2 ^ 64 by omega)]
      refine ⟨hends.1, fun h i => ?_⟩
      have hbuf : (readIntoBuffer s.mem.heap.pool (s.mem.heap.buf (c, .reading)) n
          reads).buffer = s.mem.heap.buf (c, .reading) := hends.2 h
      show Function.update s.mem.heap.buf (c, .reading) _ i = _
      rw [hbuf, Function.update_eq_self]

/-! ## Quiet rounds -/

/-- The reading buffers are in range. -/
def RoomsOk (s : ServerInfo) : Prop :=
  ∀ c, RoomOk (s.mem.heap.buf (c, .reading))

/-- The thread fetches for the entry. -/
def Reached (s : ServerInfo) (e : PollEntry) : Prop :=
  e.pollFd.fd ≠ -1 ∧ e.pollFd.fd = (s.mem.info e.client).socketId
    ∧ e.pollFd.revents &&& pollIn ≠ 0

/-- No entry brings anything but the end of a stream. -/
def LoopQuiet (env : PClientInfo → EntryEnv) : List PollEntry → ServerInfo → Prop
  | [], _ => True
  | e :: entries, s => (Reached s e → StreamEnded s e.client (env e.client))
      ∧ LoopQuiet env entries (readEntry s e (env e.client)).2

/-- **THE CONDITION**: when there is a snapshot, `poll` reports events, and these
    bring nothing but the ends of streams. -/
def RoundQuiet (s : ServerInfo) (env : RoundEnv) : Prop :=
  ∀ all ∈ (getPollingAndClientList s).1,
    (env.pollRet ≠ -1 ∧ env.pollRet ≠ 0)
      ∧ LoopQuiet env.entry (all.map (withRevents env))
        (getPollingAndClientList s).2

/-- The branch for `POLLIN` loses a block unless the stream has ended. -/
theorem ran_readClient {s : ServerInfo} (e : PollEntry) (env : EntryEnv)
    (l : Ledger) :
    ∃ lost, Ran l (readClientBlocks s e env l) lost
      ∧ (RoomsOk s → (lost = [] ↔ StreamEnded s e.client env)) := by
  have hcount : cInt (fetchEntry s e.client env).ret = 0
      ↔ (fetchEntry s e.client env).ret = 0 := by
    rcases fetchEntry_ret s e.client env with ⟨hneg, -⟩ | ⟨hlt, -⟩
    · rw [hneg, cInt_error, sizeT_neg_one]
      decide
    · rw [cInt_natCast hlt]
      omega
  rw [readClientBlocks]
  by_cases hzero : cInt (fetchEntry s e.client env).ret = 0
  · rw [if_neg (fun h => h hzero)]
    exact ⟨[], Ran.refl l, fun hs => ⟨fun _ =>
      (fetchEntry_zero (hs e.client) env).1.mp (hcount.mp hzero), fun _ => rfl⟩⟩
  · rw [if_pos hzero]
    obtain ⟨msg, hran⟩ := ran_tryToHandleMsg
      { s with mem := (fetchEntry s e.client env).clients } e.client env.envs l
    refine ⟨[msg], hran, fun hs => ⟨fun h => (by cases h), fun h => ?_⟩⟩
    exact absurd (hcount.mpr ((fetchEntry_zero (hs e.client) env).1.mpr h)) hzero

/-- **ONE ENTRY**. -/
theorem ran_readEntry (s : ServerInfo) (e : PollEntry) (env : EntryEnv)
    (l : Ledger) :
    ∃ lost, Ran l (readEntryBlocks s e env l) lost
      ∧ (RoomsOk s →
        (lost = [] ↔ (Reached s e → StreamEnded s e.client env))) := by
  have hnot : ¬ Reached s e → ∃ lost, Ran l l lost ∧ (RoomsOk s →
      (lost = [] ↔ (Reached s e → StreamEnded s e.client env))) :=
    fun hr => ⟨[], Ran.refl l, fun _ => ⟨fun _ h => absurd h hr, fun _ => rfl⟩⟩
  rw [readEntryBlocks]
  by_cases h1 : e.pollFd.fd = -1
  · rw [if_pos h1]
    exact hnot fun h => h.1 h1
  rw [if_neg h1]
  by_cases h2 : e.pollFd.fd ≠ (s.mem.info e.client).socketId
  · rw [if_pos h2]
    exact hnot fun h => h2 h.2.1
  rw [if_neg h2]
  by_cases h3 : e.pollFd.revents = 0
  · rw [if_pos h3]
    exact hnot fun h => h.2.2 (by rw [h3, UInt16.zero_and])
  rw [if_neg h3]
  by_cases h4 : e.pollFd.revents &&& pollIn ≠ 0
  · rw [if_pos h4]
    obtain ⟨lost, hran, hlost⟩ := ran_readClient (s := s) e env l
    exact ⟨lost, hran, fun hs => (hlost hs).trans
      ⟨fun h _ => h, fun h => h ⟨h1, not_not.mp h2, h4⟩⟩⟩
  · rw [if_neg h4]
    exact hnot fun h => h4 h.2.2

/-- An entry that brings at most the end of a stream leaves the buffers alone. -/
theorem readEntry_quiet {s : ServerInfo} {e : PollEntry} {env : EntryEnv}
    (hs : RoomsOk s) (hq : Reached s e → StreamEnded s e.client env) :
    ∀ i, (readEntry s e env).2.mem.heap.buf i = s.mem.heap.buf i := by
  rcases readEntry_cases s e env with ⟨hreached, heq⟩ | heq | heq
  · have hended := hq hreached
    obtain ⟨hret, hbuf⟩ := fetchEntry_zero (hs e.client) env
    rw [heq, readClient_eq, hret.mpr hended]
    exact hbuf hended
  · rw [heq]
    exact fun _ => rfl
  · rw [heq]
    exact fun _ => rfl

theorem RoomsOk.same {s s' : ServerInfo} (h : RoomsOk s)
    (hbuf : ∀ d, s'.mem.heap.buf (d, .reading) = s.mem.heap.buf (d, .reading)
      ∨ s'.mem.heap.buf (d, .reading) = []) : RoomsOk s' := by
  intro d last hlast
  rcases hbuf d with hd | hd
  · rw [hd] at hlast
    exact h d last hlast
  · rw [hd] at hlast
    cases hlast

theorem RoomsOk.polling {s : ServerInfo} (hs : RoomsOk s) :
    RoomsOk (getPollingAndClientList s).2 := by
  rw [getPollingAndClientList]
  split <;> exact hs.same fun _ => Or.inl rfl

/-- **THE LOOP** loses nothing when it is quiet, and only then. -/
theorem ran_readLoop (env : PClientInfo → EntryEnv) :
    ∀ (es : List PollEntry) (s : ServerInfo) (l : Ledger),
      ∃ lost, Ran l (readLoopBlocks env es s l) lost
        ∧ (RoomsOk s → (lost = [] ↔ LoopQuiet env es s)) := by
  intro es
  induction es with
  | nil => intro _ l; exact ⟨[], Ran.refl l, fun _ => ⟨fun _ => trivial, fun _ => rfl⟩⟩
  | cons e es ih =>
      intro s l
      obtain ⟨lost, hran, hlost⟩ := ran_readEntry s e (env e.client) l
      obtain ⟨lost', hran', hlost'⟩ := ih (readEntry s e (env e.client)).2
        (readEntryBlocks s e (env e.client) l)
      refine ⟨lost' ++ lost, hran.trans hran', fun hs => ?_⟩
      have hnext := fun (hq : Reached s e → StreamEnded s e.client (env e.client)) =>
        hs.same fun d => Or.inl (readEntry_quiet hs hq (d, .reading))
      rw [List.append_eq_nil_iff]
      constructor
      · rintro ⟨h', h⟩
        have hq := (hlost hs).mp h
        exact ⟨hq, (hlost' (hnext hq)).mp h'⟩
      · rintro ⟨hq, hrest⟩
        exact ⟨(hlost' (hnext hq)).mpr hrest, (hlost hs).mpr hq⟩

theorem readLoop_quiet (env : PClientInfo → EntryEnv) :
    ∀ (es : List PollEntry) (s : ServerInfo), RoomsOk s → LoopQuiet env es s →
      RoomsOk (readLoop env es s).2 := by
  intro es
  induction es with
  | nil => intro _ hs _; exact hs
  | cons e es ih =>
      intro s hs hq
      rw [readLoop_cons]
      exact ih _ (hs.same fun d => Or.inl (readEntry_quiet hs hq.1 (d, .reading)))
        hq.2

/-- **ONE ROUND** loses nothing when it is quiet, and only then. -/
theorem ran_readRound (s : ServerInfo) (env : RoundEnv) (l : Ledger) :
    ∃ lost, Ran l (readRoundBlocks s env l) lost
      ∧ (RoomsOk s → (lost = [] ↔ RoundQuiet s env)) := by
  have hkeep := RoomsOk.polling (s := s)
  rw [readRoundBlocks, RoundQuiet]
  generalize getPollingAndClientList s = r at hkeep ⊢
  obtain ⟨o, s₁⟩ := r
  cases o with
  | none =>
      exact ⟨[], Ran.refl l, fun _ => ⟨(fun _ _ h => by cases h), fun _ => rfl⟩⟩
  | some all =>
      dsimp only
      by_cases hret : env.pollRet = -1 ∨ env.pollRet = 0
      · rw [if_pos hret]
        refine ⟨[l.next], ran_acquire l, fun _ => ⟨fun h => (by cases h), fun h => ?_⟩⟩
        have hpoll := (h all rfl).1
        exact (hret.elim hpoll.1 hpoll.2).elim
      · rw [if_neg hret]
        rw [not_or] at hret
        obtain ⟨lost, hran, hlost⟩ := ran_readLoop env.entry
          (all.map (withRevents env)) s₁ l.acquire.2
        refine ⟨lost, hran.bracket, fun hs => (hlost (hkeep hs)).trans ?_⟩
        exact ⟨fun h all' hall' => Option.some.inj hall' ▸ ⟨hret, h⟩,
          fun h => (h all rfl).2⟩

theorem RoomsOk.round {s : ServerInfo} {env : RoundEnv} (hs : RoomsOk s)
    (hq : RoundQuiet s env) : RoomsOk (readRound s env).2 := by
  have hkeep := hs.polling
  rw [readRound]
  rw [RoundQuiet] at hq
  generalize getPollingAndClientList s = r at hkeep hq ⊢
  obtain ⟨o, s₁⟩ := r
  cases o with
  | none => exact hkeep
  | some all =>
      obtain ⟨hret, hloop⟩ := hq all rfl
      dsimp only
      rw [if_neg (not_or.mpr hret)]
      exact readLoop_quiet env.entry _ s₁ hkeep hloop

/-! ## Runs -/

/-- The server, and the blocks of the reading thread. -/
structure Counted where
  server : ServerInfo
  blocks : Ledger

/-- One event: only a round of the reading thread moves its blocks. -/
def countedStep (r : Counted) : RoundEvent → Option Counted
  | .round env =>
      some ⟨(readRound r.server env).2, readRoundBlocks r.server env r.blocks⟩
  | .accept c socketId =>
      (roundStep r.server (.accept c socketId)).map fun s => ⟨s, r.blocks⟩
  | .flush c writes =>
      (roundStep r.server (.flush c writes)).map fun s => ⟨s, r.blocks⟩
  | .logout c junk =>
      (roundStep r.server (.logout c junk)).map fun s => ⟨s, r.blocks⟩

def countedSystem : System Counted RoundEvent where
  start := fun r => r.server.clients = [] ∧ r.server.clientCount = 0
    ∧ (∀ i, r.server.mem.heap.buf i = []) ∧ r.blocks = Ledger.empty
  step := countedStep

/-- The property and the condition at one event of a run. -/
def EventBalanced (r : Counted) : RoundEvent → Prop
  | .round env => Balanced r.blocks (readRoundBlocks r.server env r.blocks)
  | _ => True

def EventQuiet (r : Counted) : RoundEvent → Prop
  | .round env => RoundQuiet r.server env
  | _ => True

theorem flush_reading (m : Clients) (c : PClientInfo)
    (writes : List WriteOutcome) (d : PClientInfo) :
    (flushMessages m c writes).clients.heap.buf (d, .reading)
      = m.heap.buf (d, .reading) := by
  rw [flushMessages]
  dsimp only
  split
  · exact Function.update_of_ne (reading_ne_writing d c) ..
  · rfl

theorem deliverLoop_reading (msg : Msg) (toAll : Bool) (d : PClientInfo) :
    ∀ (clients : List (Option PClientInfo)) (n : Nat) (m : Clients),
      (deliverLoop msg toAll clients n m).2.heap.buf (d, .reading)
        = m.heap.buf (d, .reading) := by
  intro clients
  induction clients with
  | nil => intro _ _; rfl
  | cons o clients ih =>
      intro n m
      cases o with
      | none => exact ih n m
      | some c =>
          refine (ih _ _).trans ?_
          rw [deliverMsgToClient]
          split
          · rfl
          split
          · rfl
          split
          · exact Function.update_of_ne (reading_ne_writing d c) ..
          · rfl

theorem deliver_reading (s : ServerInfo) (o : Option Msg) (d : PClientInfo) :
    (deliverIfAny s o).2.mem.heap.buf (d, .reading)
      = s.mem.heap.buf (d, .reading) := by
  cases o with
  | none => rfl
  | some msg =>
      rw [deliverIfAny, deliverMsgToAllClients, getClientList]
      cases malloc s.pool with
      | mk ok p => cases ok <;> exact deliverLoop_reading msg _ d _ _ _

theorem update_nil_cases {ι : Type} [DecidableEq ι] (buf : ι → Buffer) (i j : ι) :
    Function.update buf i [] j = buf j ∨ Function.update buf i [] j = [] := by
  by_cases h : j = i
  · rw [h, Function.update_self]
    exact Or.inr rfl
  · rw [Function.update_of_ne h]
    exact Or.inl rfl

/-- The reading buffers of a released client are empty, the others as they
    were. -/
theorem release_reading (m : Clients) (c d : PClientInfo) :
    (releaseClientInfo m c).heap.buf (d, .reading) = m.heap.buf (d, .reading)
      ∨ (releaseClientInfo m c).heap.buf (d, .reading) = [] := by
  rw [releaseClientInfo]
  dsimp only [BufferHeap.put]
  rw [Function.update_of_ne (reading_ne_writing d c)]
  exact update_nil_cases _ _ _

theorem newClient_reading (m : Clients) (c : PClientInfo) (socketId : Int)
    (name : Option (List UInt8)) (d : PClientInfo) :
    (newClientInfo m c socketId name).2.heap.buf (d, .reading)
        = m.heap.buf (d, .reading)
      ∨ (newClientInfo m c socketId name).2.heap.buf (d, .reading) = [] := by
  rw [newClientInfo]
  split
  · exact Or.inl rfl
  split
  · exact Or.inl rfl
  split
  · exact Or.inl rfl
  · dsimp only
    rw [Function.update_of_ne (reading_ne_writing d c)]
    exact update_nil_cases _ _ _

theorem accept_reading (s : ServerInfo) (c : PClientInfo) (socketId : Int)
    (d : PClientInfo) :
    (acceptClient s c socketId).mem.heap.buf (d, .reading)
        = s.mem.heap.buf (d, .reading)
      ∨ (acceptClient s c socketId).mem.heap.buf (d, .reading) = [] := by
  have hnew := newClient_reading s.mem c socketId (some unknownClient) d
  rw [acceptClient]
  generalize newClientInfo s.mem c socketId (some unknownClient) = r at hnew ⊢
  obtain ⟨ok, m⟩ := r
  cases ok with
  | false => exact hnew
  | true =>
      dsimp only
      cases malloc m.heap.pool with
      | mk ok p =>
          cases ok with
          | true => exact hnew
          | false =>
              rcases release_reading (m.setPool p) c d with h | h
              · exact hnew.imp h.trans h.trans
              · exact Or.inr h

theorem logout_reading (s : ServerInfo) (c : PClientInfo)
    (junk : List UInt8 × List UInt8) (d : PClientInfo) :
    (userLogout s c junk).mem.heap.buf (d, .reading)
        = s.mem.heap.buf (d, .reading)
      ∨ (userLogout s c junk).mem.heap.buf (d, .reading) = [] := by
  have hremove : (removeClient s c).mem = s.mem := by
    rw [removeClient]
    split <;> rfl
  rw [userLogout]
  generalize removeClient s c = s₁ at hremove ⊢
  have hnotify : (notifyLogout s₁ c junk).2.mem.heap.buf (d, .reading)
      = s.mem.heap.buf (d, .reading) := by
    rw [notifyLogout, ← hremove]
    generalize createNotice s₁.pool junk (s₁.mem.info c).name msgLogoutSuffix = r
    obtain ⟨cache, message, p⟩ := r
    exact deliver_reading (s₁.setPool p) message d
  generalize notifyLogout s₁ c junk = r at hnotify ⊢
  have hrelease := release_reading r.2.mem c d
  rw [hnotify] at hrelease
  dsimp only
  split <;> exact hrelease

/-! ## The balance of a run -/

/-- **THE INVARIANT** of a run of quiet rounds. -/
structure CountedOk (r : Counted) : Prop where
  rooms : RoomsOk r.server
  drawn : r.blocks.FreedDrawn

theorem countedOk_start {r : Counted} (h : countedSystem.start r) :
    CountedOk r := by
  obtain ⟨-, -, hbuf, hblocks⟩ := h
  refine ⟨fun c last hlast => ?_, fun t ht => ?_⟩
  · rw [hbuf] at hlast
    cases hlast
  · rw [hblocks] at ht
    cases ht

theorem countedOk_step {r r' : Counted} {e : RoundEvent} (h : CountedOk r)
    (hq : EventQuiet r e) (hstep : countedSystem.step r e = some r') :
    CountedOk r' := by
  have hstep' : countedStep r e = some r' := hstep
  cases e with
  | round env =>
      obtain rfl := Option.some.inj hstep'
      obtain ⟨lost, hran, -⟩ := ran_readRound r.server env r.blocks
      exact ⟨h.rooms.round hq, hran.freedDrawn h.drawn⟩
  | accept c socketId =>
      obtain ⟨s, hs, rfl⟩ := Option.map_eq_some_iff.mp hstep'
      obtain ⟨-, hs'⟩ := Option.ite_none_right_eq_some.mp hs
      obtain rfl := Option.some.inj hs'
      exact ⟨h.rooms.same (accept_reading r.server c socketId), h.drawn⟩
  | flush c writes =>
      obtain rfl := Option.some.inj hstep'
      exact ⟨h.rooms.same fun d => Or.inl (flush_reading r.server.mem c writes d),
        h.drawn⟩
  | logout c junk =>
      obtain rfl := Option.some.inj hstep'
      exact ⟨h.rooms.same (logout_reading r.server c junk), h.drawn⟩

/-- **THE BALANCE, EXACTLY**: in every run all rounds are balanced if and only if
    all of them are quiet. -/
theorem blocks_balanced_iff {r : Counted} (h : countedSystem.start r)
    (es : List RoundEvent) :
    Along countedSystem EventBalanced r es
      ↔ Along countedSystem EventQuiet r es := by
  refine along_iff countedSystem (I := CountedOk) (K := fun _ _ => True)
    (fun r e r' hr _ hq hstep => countedOk_step hr hq hstep) ?_ es r
    (countedOk_start h)
    (along_of_mem countedSystem (K := fun _ => True) es r (fun _ _ => trivial))
  intro r e hr _
  cases e with
  | round env =>
      obtain ⟨lost, hran, hlost⟩ := ran_readRound r.server env r.blocks
      exact (balanced_iff hr.drawn hran).trans (hlost hr.rooms)
  | _ => exact Iff.rfl

/-! ## Two runs -/

instance (reads : List ReadOutcome) : Decidable (NothingToRead reads) :=
  inferInstanceAs (Decidable (∀ r ∈ reads.head?, r = .bytes []))

instance (p : CachePool) (b : Buffer) (size : Nat) (reads : List ReadOutcome) :
    Decidable (ReadEnds p b size reads) :=
  inferInstanceAs (Decidable (_ ∧ _))

instance (s : ServerInfo) (c : PClientInfo) :
    ∀ env, Decidable (StreamEnded s c env)
  | ⟨none, _, _, _⟩ => isFalse fun h => h
  | ⟨some n, reads, _, _⟩ => inferInstanceAs
      (Decidable (ReadEnds s.pool (s.mem.heap.buf (c, .reading)) n reads))

instance (s : ServerInfo) (e : PollEntry) : Decidable (Reached s e) :=
  inferInstanceAs (Decidable (_ ∧ _))

instance decidableLoopQuiet (env : PClientInfo → EntryEnv) :
    ∀ (es : List PollEntry) (s : ServerInfo), Decidable (LoopQuiet env es s)
  | [], _ => isTrue trivial
  | e :: es, s =>
      have := decidableLoopQuiet env es (readEntry s e (env e.client)).2
      inferInstanceAs (Decidable (_ ∧ _))

instance (s : ServerInfo) (env : RoundEnv) : Decidable (RoundQuiet s env) :=
  inferInstanceAs (Decidable (∀ all ∈ _, _ ∧ _))

instance (r : Counted) : ∀ e, Decidable (EventQuiet r e)
  | .round env => inferInstanceAs (Decidable (RoundQuiet r.server env))
  | .accept _ _ => isTrue trivial
  | .flush _ _ => isTrue trivial
  | .logout _ _ => isTrue trivial

/-- The server before any call; no block has been allocated. -/
def freshCounted : Counted := ⟨freshServer.server, Ledger.empty⟩

theorem freshCounted_start : countedSystem.start freshCounted :=
  ⟨rfl, rfl, fun _ => rfl, rfl⟩

/-- The first client closes its connection; the second one hangs up. -/
def bothGone : RoundEnv where
  pollRet := 2
  revents := fun c => if c = 1 then pollIn else 16
  entry := fun _ => ⟨some 0, [], fun _ => bareSurround, fun n h => by
    obtain rfl := Option.some.inj h
    decide⟩

/-- `poll` times out. -/
def timeout : RoundEnv where
  pollRet := 0
  revents := fun _ => 0
  entry := fun _ => ⟨none, [], fun _ => bareSurround, int_none⟩

theorem blocks_balanced_gone : Along countedSystem EventBalanced freshCounted
    [.accept 1 4, .accept 2 5, .round bothGone, .logout 1 ([], []),
      .logout 2 ([], []), .round bothGone] :=
  (blocks_balanced_iff freshCounted_start _).mpr
    (along_of_checkRun countedSystem (by decide +kernel))

/-- After a timeout the block of the snapshot is still live. -/
theorem blocks_timeout : countedSystem.start freshCounted
    ∧ ¬ Along countedSystem EventBalanced freshCounted [.round timeout] := by
  refine ⟨freshCounted_start, fun h => ?_⟩
  have hlive : (readRoundBlocks freshServer.server timeout Ledger.empty).live
      = [0] := by decide +kernel
  have hlen := h.1.live
  rw [show (readRoundBlocks freshCounted.server timeout freshCounted.blocks).live
    = [0] from hlive] at hlen
  cases hlen

end IMBlockBalance

import IMServer.ReadRollback
import IMServer.ClientList
import IMServer.Marks

/-! # A round of the reading thread — `read_sockets`

    The thread takes a snapshot, polls it, and goes through the entries with an
    event: it fetches, and then handles the lines or marks the client.  Here the
    round is one function, with a report for each entry; what the other threads do
    happens between the rounds.  `marks_exact_iff` says in which rounds the marks
    are those the documentation of `fetch_from_client` asks for. -/

namespace IMReadRound

open IMBytes IMCString IMMachineInt IMCachePool IMBuffer IMBufferInvariant IMBufferAppend
  IMReadRollback IMBufferQueue IMClientInfo IMMessage IMServerInfo IMMarks
  IMServerRun IMThreads IMTransition

/-! ## The round -/

/-- What the thread meets at one client: the answer of `ioctl`, none when it
    fails, the results of `read`, and the surroundings of the lines. -/
structure EntryEnv where
  byteAvailable : Option Nat
  reads : List ReadOutcome
  envs : Nat → Surround
  int : ∀ n, byteAvailable = some n → n < 2 ^ 31

/-- An `ioctl` that fails reports no number. -/
theorem int_none : ∀ n, (none : Option Nat) = some n → n < 2 ^ 31 :=
  fun _ h => by cases h

/-- What a round meets: the result of `poll`, and the events. -/
structure RoundEnv where
  pollRet : Int
  revents : PClientInfo → UInt16
  entry : PClientInfo → EntryEnv

/-- What a round did with an entry: the value of `fetch_from_client`, when it was
    called, and the lines that went to the dispatch. -/
structure Report where
  entry : PollEntry
  fetched : Option Nat
  lines : List (List UInt8)

/-- The fetch from the client of an entry. -/
def fetchEntry (s : ServerInfo) (c : PClientInfo) (env : EntryEnv) :
    FetchResult :=
  fetchFromClient s.mem c (env.byteAvailable.map fun n : Nat => (n : Int))
    env.reads

/-- The branch for `POLLIN`. -/
def readClient (s : ServerInfo) (e : PollEntry) (env : EntryEnv) :
    Report × ServerInfo :=
  let f := fetchEntry s e.client env
  let s := { s with mem := f.clients }
  let fetchCount := cInt f.ret
  if fetchCount ≠ 0 then
    let h := tryToHandleMsg s e.client env.envs
    (⟨e, some f.ret, h.lines⟩, h.server)
  else (⟨e, some f.ret, []⟩, markFail s e.client)

/-- The body of the loop over the entries. -/
def readEntry (s : ServerInfo) (e : PollEntry) (env : EntryEnv) :
    Report × ServerInfo :=
  if e.pollFd.fd = -1 then (⟨e, none, []⟩, s)
  else if e.pollFd.fd ≠ (s.mem.info e.client).socketId then (⟨e, none, []⟩, s)
  else if e.pollFd.revents = 0 then (⟨e, none, []⟩, s)
  else if e.pollFd.revents &&& pollIn ≠ 0 then readClient s e env
  else (⟨e, none, []⟩, markFail s e.client)

/-- The loop. -/
def readLoop (env : PClientInfo → EntryEnv) :
    List PollEntry → ServerInfo → List Report × ServerInfo
  | [], s => ([], s)
  | e :: entries, s =>
      let r := readEntry s e (env e.client)
      let rest := readLoop env entries r.2
      (r.1 :: rest.1, rest.2)

/-- The arrays of `get_polling_and_client_list`. -/
def pollingArrays (s : ServerInfo) : Polling where
  items := s.clientCount
  pollingFds := overwrite (List.replicate s.clientCount.toNat ⟨0, 0⟩) 0
    (s.clients.map fun c => pollFdOf (s.mem.info c))
  infos := fillArray s.clientCount s.clients

/-- `get_polling_and_client_list`: the entries, when the block can be
    allocated. -/
def getPollingAndClientList (s : ServerInfo) :
    Option (List PollEntry) × ServerInfo :=
  match malloc s.pool with
  | (false, p) => (none, s.setPool p)
  | (true, p) => (some (pollingArrays s).entries, s.setPool p)

/-- `poll` fills in the events. -/
def withRevents (env : RoundEnv) (e : PollEntry) : PollEntry :=
  { e with pollFd := { e.pollFd with revents := env.revents e.client } }

/-- **ONE ROUND** of `read_sockets`.  Without a snapshot the thread ends, and when
    `poll` fails or times out the entries stay as they are. -/
def readRound (s : ServerInfo) (env : RoundEnv) : List Report × ServerInfo :=
  match getPollingAndClientList s with
  | (none, s) => ([], s)
  | (some all, s) =>
      if env.pollRet = -1 ∨ env.pollRet = 0 then
        (all.map fun e => ⟨e, none, []⟩, s)
      else readLoop env.entry (all.map (withRevents env)) s

/-! ## What `fetch_from_client` reports -/

/-- The value of the loop: `-1` when it fails, else a count of at most `size`. -/
theorem fillLoop_ret {σ : Type} {next : Nat → σ → Option (List UInt8) × σ}
    (hnext : Bounded next) (size : Nat) :
    ∀ (fuel : Nat) (done : List InnerNode) (node : InnerNode) (p : CachePool)
      (s : σ) (got : List UInt8), got.length ≤ size →
      (fillLoop next size fuel done node p s got).failed = false →
      ∃ n ≤ size, (fillLoop next size fuel done node p s got).ret = cInt n := by
  intro fuel
  induction fuel with
  | zero => exact fun _ _ _ _ _ _ _ => ⟨0, Nat.zero_le _, rfl⟩
  | succ fuel ih =>
      intro done node p s got hgot
      rw [fillLoop]
      by_cases hlt : got.length < size
      · rw [if_pos hlt]
        dsimp only
        cases hr : next (minSizeT (size - got.length)
            (sizeT (cacheSize - node.wOffset))) s with
        | mk o s' =>
            cases o with
            | none => exact fun h => by cases h
            | some bs =>
                have hask : minSizeT (size - got.length)
                    (sizeT (cacheSize - node.wOffset)) ≤ size - got.length := by
                  rw [minSizeT]
                  split <;> omega
                have hle : (got ++ bs).length ≤ size := by
                  have := hnext _ _ _ _ hr
                  rw [List.length_append]
                  omega
                dsimp only
                split
                · exact fun _ => ⟨_, hle, rfl⟩
                · split
                  · exact fun _ => ⟨_, hle, rfl⟩
                  · exact ih _ _ _ _ _ hle
      · rw [if_neg hlt]
        exact fun _ => ⟨0, Nat.zero_le _, rfl⟩

theorem ret_finishFill {σ : Type} (b : Buffer) (w : Nat) (out : FillOut σ) :
    (finishFill b w out).ret = sizeT out.ret := by
  unfold finishFill
  dsimp only
  split
  · split <;> rfl
  · split <;> rfl

/-- A call has to begin with a new node. -/
def NeedsNode (b : Buffer) : Prop :=
  ∀ last ∈ b.getLast?, last.wOffset = cacheSize

/-- The results of the `read`s a call makes. -/
def readsMade (p : CachePool) (b : Buffer) (size : Nat)
    (reads : List ReadOutcome) : List ReadOutcome :=
  reads.take (reads.length - (readIntoBuffer p b size reads).src.length)

/-- A node cannot be allocated for the call to begin with, or a `read` fails. -/
def ReadFails (p : CachePool) (b : Buffer) (size : Nat)
    (reads : List ReadOutcome) : Prop :=
  (NeedsNode b ∧ (newInnerNode p).1 = none)
    ∨ .error ∈ readsMade p b size reads

/-- **THE VALUE OF `read_into_buffer`**: `-1` exactly when it fails, and a count
    below `2 ^ 31` otherwise. -/
theorem readIntoBuffer_ret (p : CachePool) (b : Buffer) {size : Nat}
    (hsize : size < 2 ^ 31) (reads : List ReadOutcome) :
    ((readIntoBuffer p b size reads).ret = sizeT (-1)
        ∧ ReadFails p b size reads)
      ∨ ((readIntoBuffer p b size reads).ret < 2 ^ 31
        ∧ ¬ ReadFails p b size reads) := by
  -- what a run of the loop says
  have hloop : ∀ (done : List InnerNode) (node : InnerNode) (q : CachePool)
      (w : Nat),
      let out := fillLoop fdRead size (size + 1) done node q reads []
      (sizeT out.ret = sizeT (-1)
          ∧ .error ∈ reads.take (reads.length - (finishFill b w out).src.length))
        ∨ (sizeT out.ret < 2 ^ 31
          ∧ ¬ .error ∈ reads.take
            (reads.length - (finishFill b w out).src.length)) := by
    intro done node q w
    dsimp only
    obtain ⟨used, hok, hsplit⟩ := fillLoop_used size (size + 1) done node q reads []
    have hfail := (fillLoop_nodes fdRead size (size + 1) done node q reads []).1
    have hret := fillLoop_ret bounded_fdRead size (size + 1) done node q reads []
      (Nat.zero_le _)
    rw [(finishFill_got_src _ _ _).2]
    generalize fillLoop fdRead size (size + 1) done node q reads [] = out at *
    have htake : reads.take (reads.length - out.src.length)
        = used ++ failedRead out.failed := by
      conv_lhs => rw [hsplit]
      rw [← List.append_assoc]
      refine List.take_left' ?_
      have := congrArg List.length hsplit
      simp only [List.length_append] at this ⊢
      omega
    rw [htake]
    by_cases hf : out.failed = true
    · rw [failedRead, if_pos hf]
      exact Or.inl ⟨congrArg sizeT (hfail hf),
        List.mem_append_right _ (List.mem_singleton.mpr rfl)⟩
    · rw [failedRead, if_neg hf, List.append_nil]
      obtain ⟨n, hn, hr⟩ := hret (Bool.eq_false_iff.mpr hf)
      refine Or.inr ⟨?_, fun hm => hok _ hm rfl⟩
      rw [hr, cInt_natCast (by omega), sizeT_natCast (by omega)]
      omega
  rcases fillBuffer_cases fdRead size p b reads with ⟨hneeds, heq⟩
    | ⟨front, last, rfl, hw, heq⟩
  · rw [ReadFails, readsMade, readIntoBuffer, heq, fillNewNode]
    cases hn : newInnerNode p with
    | mk o q =>
        cases o with
        | none => exact Or.inl ⟨rfl, Or.inl ⟨hneeds, rfl⟩⟩
        | some node =>
            dsimp only
            rw [ret_finishFill]
            exact (hloop b node q _).imp (fun h => ⟨h.1, Or.inr h.2⟩)
              fun h => ⟨h.1, fun hor => hor.elim (fun h' => by cases h'.2) h.2⟩
  · have hnot : ¬ NeedsNode (front ++ [last]) :=
      fun h => hw (h last List.getLast?_concat)
    rw [ReadFails, readsMade, readIntoBuffer, heq, ret_finishFill]
    exact (hloop front last p _).imp (fun h => ⟨h.1, Or.inr h.2⟩)
      fun h => ⟨h.1, fun hor => hor.elim (fun h' => hnot h'.1) h.2⟩

/-- `fetch_from_client` cannot do its work: `ioctl` fails, a `read` fails, or
    there is no memory for the node to begin with. -/
def FetchFails (s : ServerInfo) (c : PClientInfo) (env : EntryEnv) : Prop :=
  match env.byteAvailable with
  | none => True
  | some n => ReadFails s.pool (s.mem.heap.buf (c, .reading)) n env.reads

/-- **THE VALUE OF `fetch_from_client`**: `-1` as a `size_t` exactly when it
    fails. -/
theorem fetchEntry_ret (s : ServerInfo) (c : PClientInfo) (env : EntryEnv) :
    ((fetchEntry s c env).ret = sizeT (-1) ∧ FetchFails s c env)
      ∨ ((fetchEntry s c env).ret < 2 ^ 31 ∧ ¬ FetchFails s c env) := by
  obtain ⟨byteAvailable, reads, envs, hint⟩ := env
  cases byteAvailable with
  | none => exact Or.inl ⟨rfl, trivial⟩
  | some n =>
      have hn := hint n rfl
      have hret : (fetchEntry s c ⟨some n, reads, envs, hint⟩).ret
          = (readIntoBuffer s.pool (s.mem.heap.buf (c, .reading)) n reads).ret := by
        show (readIntoBuffer s.pool _ (sizeT (n : Int)) reads).ret = _
        rw [sizeT_natCast (by omega)]
      rw [hret]
      exact readIntoBuffer_ret s.pool _ hn reads

/-! ## What a round has to do with the marks -/

/-- The connection of the entry is broken: an event without `POLLIN`, or a fetch
    that returned `0` or `-1`. -/
def Broken (rep : Report) : Prop :=
  (rep.entry.pollFd.revents ≠ 0 ∧ rep.entry.pollFd.revents &&& pollIn = 0)
    ∨ rep.fetched = some 0 ∨ rep.fetched = some (sizeT (-1))

instance (rep : Report) : Decidable (Broken rep) :=
  inferInstanceAs (Decidable (_ ∨ _))

/-- Between `s` and `s'` a polled client is marked exactly when its connection is
    broken, and keeps its `pub` otherwise; no line follows a failed fetch. -/
structure MarkExact (s s' : ServerInfo) (rep : Report) : Prop where
  marked : (s'.mem.info rep.entry.client).pub = fail ↔ Broken rep
  kept : ¬ Broken rep →
    (s'.mem.info rep.entry.client).pub = (s.mem.info rep.entry.client).pub
  noLine : rep.fetched = some (sizeT (-1)) → rep.lines = []

/-- **THE PROPERTY** of a round: all polled clients are marked exactly. -/
def RoundExact (s : ServerInfo) (env : RoundEnv) : Prop :=
  ∀ rep ∈ (readRound s env).1, rep.entry.pollFd.fd ≠ -1 →
    MarkExact s (readRound s env).2 rep

/-- The thread fetches for the entry. -/
def Readable (e : PollEntry) : Prop :=
  e.pollFd.fd ≠ -1 ∧ e.pollFd.revents &&& pollIn ≠ 0

/-- No fetch of the loop fails. -/
def EntriesOk (env : PClientInfo → EntryEnv) : List PollEntry → ServerInfo → Prop
  | [], _ => True
  | e :: entries, s => (Readable e → ¬ FetchFails s e.client (env e.client))
      ∧ EntriesOk env entries (readEntry s e (env e.client)).2

/-- **THE CONDITION**: no fetch of the round fails. -/
def RoundOk (s : ServerInfo) (env : RoundEnv) : Prop :=
  ∀ all ∈ (getPollingAndClientList s).1, env.pollRet ≠ -1 → env.pollRet ≠ 0 →
    EntriesOk env.entry (all.map (withRevents env)) (getPollingAndClientList s).2

/-! ## One entry -/

/-- The list and the sockets are as before, and the marks but that of `c`. -/
structure MarksOnly (s s' : ServerInfo) (c : PClientInfo) : Prop where
  clients : s'.clients = s.clients
  clientCount : s'.clientCount = s.clientCount
  socketId : ∀ d, (s'.mem.info d).socketId = (s.mem.info d).socketId
  pub : ∀ d, d ≠ c → (s'.mem.info d).pub = (s.mem.info d).pub

theorem marksOnly_of_keeps {s s' : ServerInfo} (h : KeepsMarks s s')
    (c : PClientInfo) : MarksOnly s s' c :=
  ⟨h.clients, h.clientCount, h.socketId, fun d _ => h.pub d⟩

theorem pub_markFail (s : ServerInfo) (c : PClientInfo) :
    ((markFail s c).mem.info c).pub = fail :=
  congrArg ClientInfo.pub (info_setInfo s.mem c { s.mem.info c with pub := fail })

theorem marksOnly_markFail (s : ServerInfo) (c : PClientInfo) :
    MarksOnly s (markFail s c) c := by
  have hother : ∀ d, d ≠ c → (markFail s c).mem.data d = s.mem.data d :=
    fun d hd => data_setInfo_of_ne s.mem hd { s.mem.info c with pub := fail }
  refine ⟨rfl, rfl, fun d => ?_,
    fun d hd => congrArg (fun x => x.info.pub) (hother d hd)⟩
  by_cases hd : d = c
  · have hinfo : (markFail s c).mem.info c = { s.mem.info c with pub := fail } :=
      info_setInfo s.mem c { s.mem.info c with pub := fail }
    rw [hd, hinfo]
  · exact congrArg (fun x => x.info.socketId) (hother d hd)

/-- A fetch changes buffers only. -/
theorem keepsMarks_fetchEntry (s : ServerInfo) (c : PClientInfo)
    (env : EntryEnv) :
    KeepsMarks s { s with mem := (fetchEntry s c env).clients } := by
  refine keepsMarks_mem fun d => ?_
  unfold fetchEntry fetchFromClient
  split <;> rfl

theorem fail_ne_succ : fail ≠ succ := by
  rw [fail, succ, sizeT_neg_one]
  decide

/-- The branch for `POLLIN`, given the value of the fetch and the handling of the
    lines. -/
def afterFetch (e : PollEntry) (ret : Nat) (s : ServerInfo) (h : HandleResult) :
    Report × ServerInfo :=
  if cInt ret ≠ 0 then (⟨e, some ret, h.lines⟩, h.server)
  else (⟨e, some ret, []⟩, markFail s e.client)

theorem readClient_eq (s : ServerInfo) (e : PollEntry) (env : EntryEnv) :
    readClient s e env = afterFetch e (fetchEntry s e.client env).ret
      { s with mem := (fetchEntry s e.client env).clients }
      (tryToHandleMsg { s with mem := (fetchEntry s e.client env).clients }
        e.client env.envs) := rfl

/-- The fetch and the handling change no mark. -/
theorem keepsMarks_readClient (s : ServerInfo) (e : PollEntry) (env : EntryEnv) :
    KeepsMarks s (tryToHandleMsg
      { s with mem := (fetchEntry s e.client env).clients } e.client
      env.envs).server :=
  (keepsMarks_fetchEntry s e.client env).trans
    (keepsMarks_tryToHandleMsg _ e.client env.envs)

theorem marksOnly_afterFetch {s s₁ : ServerInfo} {h : HandleResult}
    (e : PollEntry) (ret : Nat) (h₁ : KeepsMarks s s₁)
    (hh : KeepsMarks s h.server) :
    MarksOnly s (afterFetch e ret s₁ h).2 e.client := by
  rw [afterFetch]
  by_cases hcount : cInt ret ≠ 0
  · rw [if_pos hcount]
    exact marksOnly_of_keeps hh e.client
  · rw [if_neg hcount]
    have hmark := marksOnly_markFail s₁ e.client
    exact ⟨hmark.clients.trans h₁.clients, hmark.clientCount.trans h₁.clientCount,
      fun d => (hmark.socketId d).trans (h₁.socketId d),
      fun d hd => (hmark.pub d hd).trans (h₁.pub d)⟩

/-- An entry comes to a fetch, when it is polled and has `POLLIN`, and else to
    nothing or to a mark. -/
theorem readEntry_cases (s : ServerInfo) (e : PollEntry) (env : EntryEnv) :
    ((e.pollFd.fd ≠ -1 ∧ e.pollFd.fd = (s.mem.info e.client).socketId
        ∧ e.pollFd.revents &&& pollIn ≠ 0)
      ∧ readEntry s e env = readClient s e env)
    ∨ readEntry s e env = (⟨e, none, []⟩, s)
    ∨ readEntry s e env = (⟨e, none, []⟩, markFail s e.client) := by
  rw [readEntry]
  by_cases h1 : e.pollFd.fd = -1
  · exact Or.inr (Or.inl (if_pos h1))
  rw [if_neg h1]
  by_cases h2 : e.pollFd.fd ≠ (s.mem.info e.client).socketId
  · exact Or.inr (Or.inl (if_pos h2))
  rw [if_neg h2]
  by_cases h3 : e.pollFd.revents = 0
  · exact Or.inr (Or.inl (if_pos h3))
  rw [if_neg h3]
  by_cases h4 : e.pollFd.revents &&& pollIn ≠ 0
  · exact Or.inl ⟨⟨h1, not_not.mp h2, h4⟩, if_pos h4⟩
  · exact Or.inr (Or.inr (if_neg h4))

/-- An entry changes no mark but that of its client. -/
theorem marksOnly_readEntry (s : ServerInfo) (e : PollEntry) (env : EntryEnv) :
    MarksOnly s (readEntry s e env).2 e.client := by
  rcases readEntry_cases s e env with ⟨-, heq⟩ | heq | heq
  · rw [heq, readClient_eq]
    exact marksOnly_afterFetch e _ (keepsMarks_fetchEntry s e.client env)
      (keepsMarks_readClient s e env)
  · rw [heq]
    exact marksOnly_of_keeps (KeepsMarks.refl s) e.client
  · rw [heq]
    exact marksOnly_markFail s e.client

/-- The value that says "error" is no `0` as an `int` either. -/
theorem cInt_error : cInt (sizeT (-1)) = -1 := by
  rw [sizeT_neg_one]
  rw [cInt_eq]
  omega

/-- A fetch that failed leaves the client unmarked: `-1` becomes the `int` `-1`,
    which the test takes for a count. -/
theorem afterFetch_failed {s s₁ : ServerInfo} {h : HandleResult} {e : PollEntry}
    (hpub : (s.mem.info e.client).pub = succ) (hh : KeepsMarks s h.server) :
    ¬ MarkExact s (afterFetch e (sizeT (-1)) s₁ h).2
      (afterFetch e (sizeT (-1)) s₁ h).1 := by
  have hcount : cInt (sizeT (-1)) ≠ 0 := by
    rw [cInt_error]
    decide
  rw [afterFetch, if_pos hcount]
  intro hexact
  have hbroken : Broken ⟨e, some (sizeT (-1)), h.lines⟩ := Or.inr (Or.inr rfl)
  have hmark := hexact.marked.mpr hbroken
  exact fail_ne_succ (hmark.symm.trans ((hh.pub e.client).trans hpub))

/-- A fetch that did not fail is followed by the right mark. -/
theorem afterFetch_exact {s s₁ : ServerInfo} {h : HandleResult} {e : PollEntry}
    {ret : Nat} (hpub : (s.mem.info e.client).pub = succ)
    (hin : e.pollFd.revents &&& pollIn ≠ 0) (hlt : ret < 2 ^ 31)
    (hh : KeepsMarks s h.server) :
    MarkExact s (afterFetch e ret s₁ h).2 (afterFetch e ret s₁ h).1 := by
  have hnot : ret ≠ sizeT (-1) := by
    rw [sizeT_neg_one]
    omega
  rw [afterFetch, cInt_natCast hlt]
  by_cases hzero : ret = 0
  · rw [if_neg (by rw [hzero]; exact fun h => h rfl)]
    have hbroken : Broken ⟨e, some ret, []⟩ :=
      Or.inr (Or.inl (congrArg some hzero))
    exact ⟨⟨fun _ => hbroken, fun _ => pub_markFail _ _⟩,
      fun h => absurd hbroken h, fun _ => rfl⟩
  · rw [if_pos (by omega)]
    have hfine : ¬ Broken ⟨e, some ret, h.lines⟩ := by
      rintro (⟨-, h⟩ | h | h)
      · exact hin h
      · exact hzero (Option.some.inj h)
      · exact hnot (Option.some.inj h)
    have hsame := hh.pub e.client
    exact ⟨⟨fun h => absurd (h.symm.trans (hsame.trans hpub)) fail_ne_succ,
      fun h => absurd h hfine⟩, fun _ => hsame,
      fun h => absurd (Option.some.inj h) hnot⟩

/-- The branch for `POLLIN` is exact when the fetch does not fail. -/
theorem readClient_exact {s : ServerInfo} {e : PollEntry}
    (hpub : (s.mem.info e.client).pub = succ)
    (hin : e.pollFd.revents &&& pollIn ≠ 0) (env : EntryEnv) :
    MarkExact s (readClient s e env).2 (readClient s e env).1
      ↔ ¬ FetchFails s e.client env := by
  have hh := keepsMarks_readClient s e env
  rw [readClient_eq]
  rcases fetchEntry_ret s e.client env with ⟨hneg, hfails⟩ | ⟨hlt, hok⟩
  · rw [hneg]
    exact ⟨fun h => absurd h (afterFetch_failed hpub hh),
      fun hok => absurd hfails hok⟩
  · exact ⟨fun _ => hok, fun _ => afterFetch_exact hpub hin hlt hh⟩

theorem entry_afterFetch (e : PollEntry) (ret : Nat) (s : ServerInfo)
    (h : HandleResult) : (afterFetch e ret s h).1.entry = e := by
  rw [afterFetch]
  split <;> rfl

theorem readEntry_entry (s : ServerInfo) (e : PollEntry) (env : EntryEnv) :
    (readEntry s e env).1.entry = e := by
  rcases readEntry_cases s e env with ⟨-, heq⟩ | heq | heq
  · rw [heq, readClient_eq]
    exact entry_afterFetch e _ _ _
  · rw [heq]
  · rw [heq]

/-- A polled client: its descriptor is its own, and it is not marked. -/
structure Polled (s : ServerInfo) (e : PollEntry) : Prop where
  fd : e.pollFd.fd = (s.mem.info e.client).socketId
  pub : (s.mem.info e.client).pub = succ

/-- A polled client without an event keeps its `pub`. -/
theorem exact_noEvent {s : ServerInfo} {e : PollEntry} (hp : Polled s e)
    (hno : e.pollFd.revents = 0) : MarkExact s s ⟨e, none, []⟩ := by
  have hfine : ¬ Broken ⟨e, none, []⟩ := by
    rintro (⟨h, -⟩ | h | h)
    · exact h hno
    · cases h
    · cases h
  exact ⟨⟨fun h => absurd (h.symm.trans hp.pub) fail_ne_succ,
    fun h => absurd h hfine⟩, fun _ => rfl, fun _ => rfl⟩

/-- **ONE ENTRY** of a polled client. -/
theorem readEntry_exact {s : ServerInfo} {e : PollEntry} (hp : Polled s e)
    (hfd : e.pollFd.fd ≠ -1) (env : EntryEnv) :
    MarkExact s (readEntry s e env).2 (readEntry s e env).1
      ↔ (Readable e → ¬ FetchFails s e.client env) := by
  rw [readEntry, if_neg hfd, if_neg (fun h => h hp.fd)]
  by_cases hin : e.pollFd.revents &&& pollIn ≠ 0
  · have hne : e.pollFd.revents ≠ 0 := by
      intro h
      rw [h, UInt16.zero_and] at hin
      exact hin rfl
    rw [if_neg hne, if_pos hin, readClient_exact hp.pub hin]
    exact ⟨fun h _ => h, fun h => h ⟨hfd, hin⟩⟩
  · refine ⟨fun _ h => absurd h.2 hin, fun _ => ?_⟩
    by_cases hne : e.pollFd.revents = 0
    · rw [if_pos hne]
      exact exact_noEvent hp hne
    · rw [if_neg hne, if_neg hin]
      have hbroken : Broken ⟨e, none, []⟩ := Or.inl ⟨hne, not_not.mp hin⟩
      exact ⟨⟨fun _ => hbroken, fun _ => pub_markFail _ _⟩,
        fun h => absurd hbroken h, fun _ => rfl⟩

/-! ## The loop -/

theorem readLoop_cons (env : PClientInfo → EntryEnv) (e : PollEntry)
    (es : List PollEntry) (s : ServerInfo) :
    readLoop env (e :: es) s
      = ((readEntry s e (env e.client)).1
          :: (readLoop env es (readEntry s e (env e.client)).2).1,
        (readLoop env es (readEntry s e (env e.client)).2).2) := rfl

/-- Every entry has its report. -/
theorem readLoop_entries (env : PClientInfo → EntryEnv) :
    ∀ (es : List PollEntry) (s : ServerInfo),
      (readLoop env es s).1.map Report.entry = es := by
  intro es
  induction es with
  | nil => intro _; rfl
  | cons e es ih =>
      intro s
      rw [readLoop_cons, List.map_cons, readEntry_entry, ih]

/-- The loop changes no mark but those of its clients. -/
theorem readLoop_pub (env : PClientInfo → EntryEnv) {d : PClientInfo} :
    ∀ (es : List PollEntry) (s : ServerInfo), d ∉ es.map PollEntry.client →
      ((readLoop env es s).2.mem.info d).pub = (s.mem.info d).pub := by
  intro es
  induction es with
  | nil => intro _ _; rfl
  | cons e es ih =>
      intro s hd
      rw [List.map_cons, List.mem_cons, not_or] at hd
      have hhead := (marksOnly_readEntry s e (env e.client)).pub d hd.1
      rw [readLoop_cons]
      exact (ih _ hd.2).trans hhead

/-- The loop leaves the list alone. -/
theorem readLoop_clients (env : PClientInfo → EntryEnv) :
    ∀ (es : List PollEntry) (s : ServerInfo),
      (readLoop env es s).2.clients = s.clients
        ∧ (readLoop env es s).2.clientCount = s.clientCount := by
  intro es
  induction es with
  | nil => intro _; exact ⟨rfl, rfl⟩
  | cons e es ih =>
      intro s
      have hhead := marksOnly_readEntry s e (env e.client)
      obtain ⟨h1, h2⟩ := ih (readEntry s e (env e.client)).2
      rw [readLoop_cons]
      exact ⟨h1.trans hhead.clients, h2.trans hhead.clientCount⟩

/-- Only the marks of the client before and after matter. -/
theorem MarkExact.congr {s s' t t' : ServerInfo} {rep : Report}
    (h : (t.mem.info rep.entry.client).pub = (s.mem.info rep.entry.client).pub)
    (h' : (t'.mem.info rep.entry.client).pub
      = (s'.mem.info rep.entry.client).pub) :
    MarkExact t t' rep ↔ MarkExact s s' rep := by
  constructor
  · rintro ⟨h1, h2, h3⟩
    exact ⟨h' ▸ h1, h ▸ h' ▸ h2, h3⟩
  · rintro ⟨h1, h2, h3⟩
    exact ⟨h' ▸ h1, h ▸ h' ▸ h2, h3⟩

/-- The marks of a list of reports, one report at a time. -/
theorem exact_cons {s s₁ s₂ : ServerInfo} {rep : Report} {reps : List Report}
    {c : PClientInfo} (hrep : rep.entry.client = c) (hframe : MarksOnly s s₁ c)
    (hlater : (s₂.mem.info c).pub = (s₁.mem.info c).pub)
    (hreps : ∀ r ∈ reps, r.entry.client ≠ c) :
    (∀ r ∈ rep :: reps, r.entry.pollFd.fd ≠ -1 → MarkExact s s₂ r)
      ↔ (rep.entry.pollFd.fd ≠ -1 → MarkExact s s₁ rep)
        ∧ ∀ r ∈ reps, r.entry.pollFd.fd ≠ -1 → MarkExact s₁ s₂ r := by
  have hhead : MarkExact s s₂ rep ↔ MarkExact s s₁ rep :=
    MarkExact.congr rfl (hrep ▸ hlater)
  have htail : ∀ r ∈ reps, (MarkExact s s₂ r ↔ MarkExact s₁ s₂ r) :=
    fun r hr => MarkExact.congr (hframe.pub _ (hreps r hr)).symm rfl
  rw [List.forall_mem_cons]
  refine and_congr (imp_congr_right fun _ => hhead) ?_
  exact ⟨fun h r hr hfd => (htail r hr).mp (h r hr hfd),
    fun h r hr hfd => (htail r hr).mpr (h r hr hfd)⟩

/-- **THE LOOP** is exact when no fetch fails, and only then. -/
theorem readLoop_exact (env : PClientInfo → EntryEnv) :
    ∀ (es : List PollEntry) (s : ServerInfo),
      (es.map PollEntry.client).Nodup →
      (∀ e ∈ es, e.pollFd.fd ≠ -1 → Polled s e) →
      ((∀ rep ∈ (readLoop env es s).1, rep.entry.pollFd.fd ≠ -1 →
          MarkExact s (readLoop env es s).2 rep)
        ↔ EntriesOk env es s) := by
  intro es
  induction es with
  | nil => intro _ _ _; exact ⟨fun _ => trivial, fun _ _ h => by cases h⟩
  | cons e es ih =>
      intro s hnd hp
      rw [List.map_cons, List.nodup_cons] at hnd
      have hhead := marksOnly_readEntry s e (env e.client)
      have hrep := readEntry_entry s e (env e.client)
      have hpolled : ∀ e' ∈ es, e'.pollFd.fd ≠ -1 →
          Polled (readEntry s e (env e.client)).2 e' := by
        intro e' he' hfd
        have hne : e'.client ≠ e.client :=
          fun h => hnd.1 (h ▸ List.mem_map_of_mem he')
        have h := hp e' (List.mem_cons_of_mem _ he') hfd
        exact ⟨h.fd.trans (hhead.socketId _).symm, (hhead.pub _ hne).trans h.pub⟩
      have hreps : ∀ r ∈ (readLoop env es (readEntry s e (env e.client)).2).1,
          r.entry.client ≠ e.client := by
        intro r hr h
        refine hnd.1 (h ▸ List.mem_map_of_mem ?_)
        rw [← readLoop_entries env es (readEntry s e (env e.client)).2]
        exact List.mem_map_of_mem hr
      rw [readLoop_cons]
      refine (exact_cons (congrArg PollEntry.client hrep) hhead
        (readLoop_pub env es _ hnd.1) hreps).trans
        (and_congr ?_ (ih _ hnd.2 hpolled))
      rw [hrep]
      constructor
      · intro h hread
        exact (readEntry_exact (hp e (List.mem_cons_self ..) hread.1) hread.1
          (env e.client)).mp (h hread.1) hread
      · intro h hfd
        exact (readEntry_exact (hp e (List.mem_cons_self ..) hfd) hfd
          (env e.client)).mpr h

/-! ## The round -/

/-- The counter agrees with the list, and no client is listed twice. -/
structure ListOk (s : ServerInfo) : Prop where
  count : s.clientCount = s.clients.length
  nodup : s.clients.Nodup

theorem entries_pollingArrays {s : ServerInfo} (h : ListOk s) :
    (pollingArrays s).entries
      = s.clients.map fun c => ⟨pollFdOf (s.mem.info c), c⟩ :=
  IMClientList.entries_eq
    (s := ⟨s.clients, s.clientCount, 0, true, s.mem.info, fun _ => [], [], [], []⟩)
    h.count

/-- The snapshot: an entry for each client. -/
def snapshotOf (s : ServerInfo) : List PollEntry :=
  s.clients.map fun c => ⟨pollFdOf (s.mem.info c), c⟩

/-- The block cannot be allocated, or holds the snapshot. -/
theorem getPolling_cases {s : ServerInfo} (h : ListOk s) :
    ∃ p, getPollingAndClientList s = (none, s.setPool p)
      ∨ getPollingAndClientList s = (some (snapshotOf s), s.setPool p) := by
  rw [getPollingAndClientList, entries_pollingArrays h]
  cases malloc s.pool with
  | mk ok p =>
      cases ok with
      | false => exact ⟨p, Or.inl rfl⟩
      | true => exact ⟨p, Or.inr rfl⟩

/-- A snapshot has no events yet, and only clients that are not marked are
    polled. -/
theorem polled_snapshot {s : ServerInfo} (p : CachePool) {e : PollEntry}
    (he : e ∈ snapshotOf s) (hfd : e.pollFd.fd ≠ -1) :
    Polled (s.setPool p) e ∧ e.pollFd.revents = 0 := by
  obtain ⟨c, -, rfl⟩ := List.mem_map.mp he
  have hpub : succ = (s.mem.info c).pub := by
    by_contra hne
    exact hfd (if_neg hne)
  exact ⟨⟨if_pos hpub, hpub.symm⟩, rfl⟩

theorem exact_setPool {s s' : ServerInfo} {p : CachePool} {rep : Report} :
    MarkExact (s.setPool p) s' rep ↔ MarkExact s s' rep :=
  MarkExact.congr (s := s) (t := s.setPool p) rfl rfl

/-- The loop over the snapshot. -/
theorem snapshotLoop_exact {s : ServerInfo} (h : ListOk s) (p : CachePool)
    (env : RoundEnv) :
    (∀ rep ∈ (readLoop env.entry ((snapshotOf s).map (withRevents env))
          (s.setPool p)).1, rep.entry.pollFd.fd ≠ -1 →
        MarkExact (s.setPool p) (readLoop env.entry
          ((snapshotOf s).map (withRevents env)) (s.setPool p)).2 rep)
      ↔ EntriesOk env.entry ((snapshotOf s).map (withRevents env))
        (s.setPool p) := by
  refine readLoop_exact env.entry _ (s.setPool p) ?_ ?_
  · rw [snapshotOf, List.map_map, List.map_map]
    exact (List.map_id s.clients).symm ▸ h.nodup
  · intro e he hfd
    obtain ⟨e', he', rfl⟩ := List.mem_map.mp he
    obtain ⟨hp, -⟩ := polled_snapshot p he' hfd
    exact ⟨hp.fd, hp.pub⟩

/-- **ONE ROUND** is exact when no fetch fails, and only then. -/
theorem readRound_exact {s : ServerInfo} (h : ListOk s) (env : RoundEnv) :
    RoundExact s env ↔ RoundOk s env := by
  rw [RoundExact, RoundOk, readRound]
  obtain ⟨p, hnone | hsome⟩ := getPolling_cases h
  · rw [hnone]
    constructor
    · intro _ all hall
      cases hall
    · intro _ rep hrep
      cases hrep
  · rw [hsome]
    dsimp only
    by_cases hret : env.pollRet = -1 ∨ env.pollRet = 0
    · rw [if_pos hret]
      constructor
      · intro _ all _ h1 h2
        exact (hret.elim h1 h2).elim
      · intro _ rep hrep hfd
        obtain ⟨e, he, rfl⟩ := List.mem_map.mp hrep
        obtain ⟨hp, hno⟩ := polled_snapshot p he hfd
        exact exact_setPool.mp (exact_noEvent hp hno)
    · rw [if_neg hret]
      rw [not_or] at hret
      have hloop := snapshotLoop_exact h p env
      constructor
      · intro hexact all hall _ _
        exact Option.some.inj hall ▸ hloop.mp fun rep hrep hfd =>
          exact_setPool.mpr (hexact rep hrep hfd)
      · intro hok rep hrep hfd
        exact exact_setPool.mp
          (hloop.mpr (hok _ rfl hret.1 hret.2) rep hrep hfd)

/-! ## Runs -/

/-- A round of the reading thread, or what the other threads do between two
    rounds. -/
inductive RoundEvent where
  | round (env : RoundEnv)
  | accept (c : PClientInfo) (socketId : Int)
  | flush (c : PClientInfo) (writes : List WriteOutcome)
  | logout (c : PClientInfo) (junk : List UInt8 × List UInt8)

/-- One event.  A new client gets a block no listed client has. -/
def roundStep (s : ServerInfo) : RoundEvent → Option ServerInfo
  | .round env => some (readRound s env).2
  | .accept c socketId =>
      if c ∉ s.clients then some (acceptClient s c socketId) else none
  | .flush c writes =>
      some { s with mem := (flushMessages s.mem c writes).clients }
  | .logout c junk => some (userLogout s c junk)

def roundSystem : System ServerInfo RoundEvent where
  start := fun s => s.clients = [] ∧ s.clientCount = 0
  step := roundStep

/-- The property and the condition at one event of a run. -/
def EventExact (s : ServerInfo) : RoundEvent → Prop
  | .round env => RoundExact s env
  | _ => True

def FetchesOk (s : ServerInfo) : RoundEvent → Prop
  | .round env => RoundOk s env
  | _ => True

theorem ListOk.same {s s' : ServerInfo} (h : ListOk s)
    (hcl : s'.clients = s.clients) (hcount : s'.clientCount = s.clientCount) :
    ListOk s' :=
  ⟨by rw [hcount, hcl, h.count], hcl ▸ h.nodup⟩

theorem ListOk.round {s : ServerInfo} (h : ListOk s) (env : RoundEnv) :
    ListOk (readRound s env).2 := by
  rw [readRound]
  obtain ⟨p, hnone | hsome⟩ := getPolling_cases h
  · rw [hnone]
    exact h.same rfl rfl
  · rw [hsome]
    dsimp only
    split
    · exact h.same rfl rfl
    · obtain ⟨hcl, hcount⟩ := readLoop_clients env.entry
        ((snapshotOf s).map (withRevents env)) (s.setPool p)
      exact h.same hcl hcount

theorem ListOk.accept {s : ServerInfo} {c : PClientInfo} (h : ListOk s)
    (hc : c ∉ s.clients) (socketId : Int) :
    ListOk (acceptClient s c socketId) := by
  rw [acceptClient]
  split
  · exact h.same rfl rfl
  · split
    · exact h.same rfl rfl
    · refine ⟨?_, List.Nodup.append h.nodup (List.nodup_singleton c) ?_⟩
      · show s.clientCount + 1 = ((s.clients ++ [c]).length : Int)
        rw [h.count, List.length_append, List.length_singleton, Int.natCast_add]
        rfl
      · intro d hd hd'
        exact hc (List.mem_singleton.mp hd' ▸ hd)

/-- The search of `user_logout` takes one client off the list, or none. -/
theorem listDel_sublist {info : PClientInfo → ClientInfo} {socketId : Int} :
    ∀ {l l' : List PClientInfo}, listDel info socketId l = some l' →
      l'.Sublist l ∧ l.length = l'.length + 1 := by
  intro l
  induction l with
  | nil => intro l' h; cases h
  | cons d l ih =>
      intro l' h
      rw [listDel] at h
      by_cases hd : (info d).socketId = socketId
      · rw [if_pos hd] at h
        obtain rfl := Option.some.inj h
        exact ⟨List.sublist_cons_self d l, rfl⟩
      · rw [if_neg hd] at h
        obtain ⟨l₁, hl, rfl⟩ := Option.map_eq_some_iff.mp h
        obtain ⟨hsub, hlen⟩ := ih hl
        exact ⟨hsub.cons_cons d, congrArg (· + 1) hlen⟩

theorem ListOk.remove {s : ServerInfo} (h : ListOk s) (c : PClientInfo) :
    ListOk (removeClient s c) := by
  rw [removeClient]
  split
  · exact h
  · next clients hdel =>
      obtain ⟨hsub, hlen⟩ := listDel_sublist hdel
      refine ⟨?_, hsub.nodup h.nodup⟩
      show s.clientCount - 1 = (clients.length : Int)
      have hcount := h.count
      omega

theorem ListOk.logout {s : ServerInfo} (h : ListOk s) (c : PClientInfo)
    (junk : List UInt8 × List UInt8) : ListOk (userLogout s c junk) := by
  have hremove := h.remove c
  rw [userLogout]
  generalize removeClient s c = s₁ at hremove ⊢
  have hnotify : ListOk (notifyLogout s₁ c junk).2 := by
    rw [notifyLogout]
    generalize createNotice s₁.pool junk (s₁.mem.info c).name msgLogoutSuffix = r
    obtain ⟨cache, message, p⟩ := r
    have hkeeps := (keepsMarks_setPool s₁ p).trans
      (keepsMarks_deliver (s₁.setPool p) message)
    exact hremove.same hkeeps.clients hkeeps.clientCount
  generalize notifyLogout s₁ c junk = r at hnotify ⊢
  dsimp only
  split <;> exact hnotify.same rfl rfl

theorem listOk_start {s : ServerInfo} (h : roundSystem.start s) : ListOk s := by
  obtain ⟨hcl, hcount⟩ := h
  refine ⟨by rw [hcl, hcount]; rfl, ?_⟩
  rw [hcl]
  exact List.nodup_nil

theorem listOk_step {s s' : ServerInfo} {e : RoundEvent} (h : ListOk s)
    (hstep : roundSystem.step s e = some s') : ListOk s' := by
  have hstep' : roundStep s e = some s' := hstep
  cases e with
  | round env => exact Option.some.inj hstep' ▸ h.round env
  | accept c socketId =>
      obtain ⟨hc, hs⟩ := Option.ite_none_right_eq_some.mp hstep'
      exact Option.some.inj hs ▸ h.accept hc socketId
  | flush c writes => exact Option.some.inj hstep' ▸ h.same rfl rfl
  | logout c junk => exact Option.some.inj hstep' ▸ h.logout c junk

/-- **MARKS, EXACTLY**: in every run the marks of every round are the right ones
    if and only if in every round `ioctl`, the `read`s and the allocation of the
    first node succeed for each client with `POLLIN`. -/
theorem marks_exact_iff {s : ServerInfo} (h : roundSystem.start s)
    (es : List RoundEvent) :
    Along roundSystem EventExact s es ↔ Along roundSystem FetchesOk s es := by
  refine along_congr roundSystem (I := ListOk) (K := fun _ _ => True)
    (fun s e s' hs _ hstep => listOk_step hs hstep) ?_ es s (listOk_start h)
    (along_of_mem roundSystem (K := fun _ => True) es s (fun _ _ => trivial))
  intro s e hs _
  cases e with
  | round env => exact readRound_exact hs env
  | _ => exact Iff.rfl

/-! ## Two rounds -/

instance (b : Buffer) : Decidable (NeedsNode b) :=
  inferInstanceAs (Decidable (∀ last ∈ b.getLast?, last.wOffset = cacheSize))

instance (p : CachePool) (b : Buffer) (size : Nat) (reads : List ReadOutcome) :
    Decidable (ReadFails p b size reads) :=
  inferInstanceAs (Decidable (_ ∨ _))

instance (s : ServerInfo) (c : PClientInfo) :
    ∀ env, Decidable (FetchFails s c env)
  | ⟨none, _, _, _⟩ => isTrue trivial
  | ⟨some n, reads, _, _⟩ => inferInstanceAs
      (Decidable (ReadFails s.pool (s.mem.heap.buf (c, .reading)) n reads))

instance (e : PollEntry) : Decidable (Readable e) :=
  inferInstanceAs (Decidable (_ ∧ _))

instance decidableEntriesOk (env : PClientInfo → EntryEnv) :
    ∀ (es : List PollEntry) (s : ServerInfo), Decidable (EntriesOk env es s)
  | [], _ => isTrue trivial
  | e :: es, s =>
      have := decidableEntriesOk env es (readEntry s e (env e.client)).2
      inferInstanceAs (Decidable (_ ∧ _))

instance (s : ServerInfo) (env : RoundEnv) : Decidable (RoundOk s env) :=
  inferInstanceAs (Decidable (∀ all ∈ _, _ → _ → _))

instance (s : ServerInfo) : ∀ e, Decidable (FetchesOk s e)
  | .round env => inferInstanceAs (Decidable (RoundOk s env))
  | .accept _ _ => isTrue trivial
  | .flush _ _ => isTrue trivial
  | .logout _ _ => isTrue trivial

/-- What the first client sends; the second one hangs up. -/
def loginAndHangUp : RoundEnv where
  pollRet := 2
  revents := fun c => if c = 1 then pollIn else 16
  entry := fun _ => ⟨some 9, [.bytes (ascii "LOGIN: a\n")], fun _ => bareSurround,
    fun n h => by
      obtain rfl := Option.some.inj h
      decide⟩

/-- `ioctl` fails for the client. -/
def ioctlFails : RoundEnv where
  pollRet := 1
  revents := fun _ => pollIn
  entry := fun _ => ⟨none, [], fun _ => bareSurround, int_none⟩

theorem marks_exact_login : Along roundSystem EventExact freshServer.server
    [.accept 1 4, .accept 2 5, .round loginAndHangUp, .logout 2 ([], [])] :=
  (marks_exact_iff ⟨rfl, rfl⟩ _).mpr
    (along_of_checkRun roundSystem (by decide +kernel))

/-- A client whose `ioctl` fails stays unmarked. -/
theorem marks_missed : roundSystem.start freshServer.server
    ∧ ¬ Along roundSystem EventExact freshServer.server
      [.accept 1 4, .round ioctlFails] := by
  have hstart : roundSystem.start freshServer.server := ⟨rfl, rfl⟩
  have hfresh : (1 : PClientInfo) ∉ freshServer.server.clients :=
    fun h => by cases h
  have hstep : roundStep freshServer.server (.accept 1 4)
      = some (acceptClient freshServer.server 1 4) := by
    rw [roundStep, if_pos hfresh]
  have hfails : ¬ RoundOk (acceptClient freshServer.server 1 4) ioctlFails := by
    decide +kernel
  refine ⟨hstart, fun h => hfails ?_⟩
  exact (readRound_exact ((listOk_start hstart).accept hfresh 4) ioctlFails).mp
    (h.2 _ hstep).1

end IMReadRound

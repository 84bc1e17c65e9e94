import IMServer.LockOrder
import IMServer.Threads

/-! # The locks of the server — `MUTEX_LOCK`, `SPIN_LOCK`

    The mutex of the server guards the client list and the flush flag, the spin
    lock of the pool its free lists, and the two spin locks of a client its
    buffers; the reading lock is initialised and never taken.

    Each function is its script, with the control flow of the source.  A call
    that takes no lock and waits for nothing is left out, and so is the log. -/

namespace IMLocking

open IMLockOrder IMClientInfo IMThreads IMTransition

/-! ## The scripts -/

/-- The locks. -/
inductive Lock where
  | mutex
  | spinLock
  | reading (c : PClientInfo)
  | writing (c : PClientInfo)
  deriving DecidableEq

/-- Where a thread waits for something outside of the program, or for another
    thread to be created or to end. -/
inductive Wait where
  | started
  | accept
  | join
  | poll
  | read (c : PClientInfo)
  | write (c : PClientInfo)
  | condTimedwait

abbrev Code := Script Lock Wait PClientInfo

def wait (w : Wait) : Code := .act (.wait w)

/-- One statement after the other. -/
def block : List Code → Code
  | [] => .skip
  | p :: k => .seq p (block k)

/-- `do { p; if (.) break; q } while (.)`. -/
def doWhile (p q : Code) : Code := .seq (.loop (.seq p q)) (optional p)

/-- `get_new_cache`. -/
def getNewCache : Code := guarded .spinLock .skip

/-- `recycle_cache`. -/
def recycleCache : Code := guarded .spinLock .skip

/-- The node a loop that appends goes on with: allocated, its cache too. -/
def newInnerNode : Code := optional getNewCache

/-- `error_with_read`: the caches of `tmp_list` go back. -/
def undo : Code := optional (.loop recycleCache)

/-- `read_into_buffer`. -/
def readIntoBuffer (c : PClientInfo) : Code :=
  block [newInnerNode, .loop (.seq (wait (.read c)) newInnerNode), undo]

/-- `write_into_buffer`. -/
def writeIntoBuffer : Code := block [newInnerNode, .loop newInnerNode, undo]

/-- `write_from_buffer`. -/
def writeFromBuffer (c : PClientInfo) : Code :=
  .loop (.seq (wait (.write c)) (optional recycleCache))

/-- `read_from_buffer`. -/
def readFromBuffer : Code := .loop (optional recycleCache)

/-- `destroy_buffer`. -/
def destroyBuffer : Code := .loop recycleCache

/-- `release_client_info`. -/
def releaseClientInfo : Code :=
  .seq (optional destroyBuffer) (optional destroyBuffer)

/-- `fetch_from_client`. -/
def fetchFromClient (c : PClientInfo) : Code := optional (readIntoBuffer c)

/-- `fetch_msg_from_client`; `find_in_buffer` takes no lock. -/
def fetchMsgFromClient : Code := optional readFromBuffer

/-- `send_msg_to_client`. -/
def sendMsgToClient (c : PClientInfo) : Code := guarded (.writing c) writeIntoBuffer

/-- `flush_messages`. -/
def flushMessages (c : PClientInfo) : Code :=
  guarded (.writing c) (optional (writeFromBuffer c))

/-- `get_client_list`. -/
def getClientList : Code := guarded .mutex .skip

/-- `get_polling_and_client_list`. -/
def getPollingAndClientList : Code := guarded .mutex .skip

/-- `deliver_msg_to_all_clients`. -/
def deliverMsgToAllClients : Code :=
  .seq getClientList (.loop (.any fun c => optional (sendMsgToClient c)))

/-- `user_login`. -/
def userLogin : Code := .seq getNewCache (optional recycleCache)

/-- `sign_to_flush_msg ++` under the mutex. -/
def signal : Code := guarded .mutex .skip

/-- `user_logout`. -/
def userLogout : Code :=
  block [guarded .mutex .skip, getNewCache,
    optional (.seq (optional deliverMsgToAllClients) recycleCache),
    releaseClientInfo, optional signal]

/-- The body of the loop of `try_to_handle_msg`: the branches for `LOGIN: `,
    for `TO-ALL:` and for `TO-C-`, or none. -/
def dispatchMsg : Code :=
  .alt userLogin (.alt .skip (optional (.seq getNewCache (optional recycleCache))))

/-- `try_to_handle_msg`. -/
def tryToHandleMsg : Code :=
  block [fetchMsgFromClient,
    .loop (block [dispatchMsg, optional deliverMsgToAllClients,
      fetchMsgFromClient]),
    optional signal]

/-- One entry of the polled clients. -/
def readEntry (c : PClientInfo) : Code :=
  optional (.seq (fetchFromClient c) (optional tryToHandleMsg))

/-- `read_sockets`. -/
def readSockets : Code :=
  .seq (wait .started) (doWhile getPollingAndClientList
    (.seq (wait .poll) (.loop (.any readEntry))))

/-- The end of a round of `write_sockets`.  The wait gives the mutex up and takes
    it again. -/
def waitForFlush : Code :=
  guarded .mutex (optional (block [.act (.release .mutex), wait .condTimedwait,
    .act (.acquire .mutex)]))

/-- `write_sockets`. -/
def writeSockets : Code :=
  .seq (wait .started) (doWhile getClientList
    (block [.loop (.any fun c => optional (flushMessages c)),
      .loop (optional userLogout), waitForFlush]))

/-- `handle_listen`. -/
def handleListen : Code :=
  block [.loop (.seq (wait .accept)
      (optional (.alt releaseClientInfo (guarded .mutex .skip)))),
    optional (wait .join), optional (wait .join)]

/-- The three threads. -/
def program : Thread → Code
  | .listener => handleListen
  | .reader => readSockets
  | .writer => writeSockets

/-- The server as far as its locks go. -/
def serverLocks : System (IMLockOrder.State Thread Lock Wait PClientInfo)
    (Thread × Choice PClientInfo) :=
  lockSystem program

/-! ## The order of the locks -/

/-- A buffer's lock is taken before the pool's. -/
def rank : Lock → Nat
  | .mutex => 0
  | .reading _ => 1
  | .writing _ => 1
  | .spinLock => 2

theorem rank_lt (l : Lock) : rank l < 3 := by
  cases l <;> simp [rank]

/-- A thread waits without locks, except for `write` under the writing lock. -/
def mayWait (w : Wait) (h : List Lock) : Prop :=
  h = [] ∨ ∃ c, w = .write c ∧ h = [.writing c]

abbrev Keeps (p : Code) (h : List Lock) : Prop := Fits rank mayWait p h h

/-- Below the lock of the pool. -/
def BelowPool (h : List Lock) : Prop := ∀ m ∈ h, rank m < rank .spinLock

theorem belowPool_nil : BelowPool [] := fun _ h => by cases h

theorem belowPool_writing (c : PClientInfo) : BelowPool [.writing c] := by
  intro m hm
  rw [List.mem_singleton.mp hm]
  exact Nat.one_lt_two

theorem keeps_block : ∀ {ps : List Code} {h : List Lock},
    (∀ p ∈ ps, Keeps p h) → Keeps (block ps) h := by
  intro ps
  induction ps with
  | nil => exact fun _ => .skip
  | cons p ps ih =>
      intro h hps
      exact .seq (hps p (List.mem_cons_self ..))
        (ih fun q hq => hps q (List.mem_cons_of_mem p hq))

theorem keeps_doWhile {p q : Code} {h : List Lock} (hp : Keeps p h)
    (hq : Keeps q h) : Keeps (doWhile p q) h :=
  .seq (.loop (.seq hp hq)) (fits_optional hp)

theorem keeps_getNewCache {h : List Lock} (hh : BelowPool h) :
    Keeps getNewCache h := fits_guarded hh .skip

theorem keeps_recycleCache {h : List Lock} (hh : BelowPool h) :
    Keeps recycleCache h := fits_guarded hh .skip

/-- A block under the mutex, when no lock is held. -/
theorem keeps_mutex : Keeps (guarded .mutex .skip) [] :=
  fits_guarded (fun _ h => by cases h) .skip

theorem keeps_wait (w : Wait) : Keeps (wait w) [] := .wait (Or.inl rfl)

theorem keeps_newInnerNode {h : List Lock} (hh : BelowPool h) :
    Keeps newInnerNode h := fits_optional (keeps_getNewCache hh)

theorem keeps_undo {h : List Lock} (hh : BelowPool h) : Keeps undo h :=
  fits_optional (.loop (keeps_recycleCache hh))

theorem keeps_readIntoBuffer (c : PClientInfo) : Keeps (readIntoBuffer c) [] := by
  refine keeps_block fun p hp => ?_
  simp only [List.mem_cons, List.not_mem_nil, or_false] at hp
  rcases hp with rfl | rfl | rfl
  · exact keeps_newInnerNode belowPool_nil
  · exact .loop (.seq (keeps_wait _) (keeps_newInnerNode belowPool_nil))
  · exact keeps_undo belowPool_nil

theorem keeps_writeIntoBuffer {h : List Lock} (hh : BelowPool h) :
    Keeps writeIntoBuffer h := by
  refine keeps_block fun p hp => ?_
  simp only [List.mem_cons, List.not_mem_nil, or_false] at hp
  rcases hp with rfl | rfl | rfl
  · exact keeps_newInnerNode hh
  · exact .loop (keeps_newInnerNode hh)
  · exact keeps_undo hh

/-- The one wait under a lock. -/
theorem keeps_writeFromBuffer (c : PClientInfo) :
    Keeps (writeFromBuffer c) [.writing c] :=
  .loop (.seq (.wait (Or.inr ⟨c, rfl, rfl⟩))
    (fits_optional (keeps_recycleCache (belowPool_writing c))))

theorem keeps_readFromBuffer : Keeps readFromBuffer [] :=
  .loop (fits_optional (keeps_recycleCache belowPool_nil))

theorem keeps_destroyBuffer : Keeps destroyBuffer [] :=
  .loop (keeps_recycleCache belowPool_nil)

theorem keeps_releaseClientInfo : Keeps releaseClientInfo [] :=
  .seq (fits_optional keeps_destroyBuffer) (fits_optional keeps_destroyBuffer)

theorem keeps_sendMsgToClient (c : PClientInfo) : Keeps (sendMsgToClient c) [] :=
  fits_guarded (fun _ h => by cases h)
    (keeps_writeIntoBuffer (belowPool_writing c))

theorem keeps_flushMessages (c : PClientInfo) : Keeps (flushMessages c) [] :=
  fits_guarded (fun _ h => by cases h) (fits_optional (keeps_writeFromBuffer c))

theorem keeps_deliverMsgToAllClients : Keeps deliverMsgToAllClients [] :=
  .seq keeps_mutex
    (.loop (.any fun c => fits_optional (keeps_sendMsgToClient c)))

theorem keeps_userLogin : Keeps userLogin [] :=
  .seq (keeps_getNewCache belowPool_nil)
    (fits_optional (keeps_recycleCache belowPool_nil))

theorem keeps_userLogout : Keeps userLogout [] := by
  refine keeps_block fun p hp => ?_
  simp only [List.mem_cons, List.not_mem_nil, or_false] at hp
  rcases hp with rfl | rfl | rfl | rfl | rfl
  · exact keeps_mutex
  · exact keeps_getNewCache belowPool_nil
  · exact fits_optional (.seq (fits_optional keeps_deliverMsgToAllClients)
      (keeps_recycleCache belowPool_nil))
  · exact keeps_releaseClientInfo
  · exact fits_optional keeps_mutex

theorem keeps_fetchMsgFromClient : Keeps fetchMsgFromClient [] :=
  fits_optional keeps_readFromBuffer

theorem keeps_dispatchMsg : Keeps dispatchMsg [] :=
  .alt keeps_userLogin (.alt .skip (fits_optional keeps_userLogin))

theorem keeps_tryToHandleMsg : Keeps tryToHandleMsg [] := by
  refine keeps_block fun p hp => ?_
  simp only [List.mem_cons, List.not_mem_nil, or_false] at hp
  rcases hp with rfl | rfl | rfl
  · exact keeps_fetchMsgFromClient
  · refine .loop (keeps_block fun q hq => ?_)
    simp only [List.mem_cons, List.not_mem_nil, or_false] at hq
    rcases hq with rfl | rfl | rfl
    · exact keeps_dispatchMsg
    · exact fits_optional keeps_deliverMsgToAllClients
    · exact keeps_fetchMsgFromClient
  · exact fits_optional keeps_mutex

theorem keeps_readEntry (c : PClientInfo) : Keeps (readEntry c) [] :=
  fits_optional (.seq (fits_optional (keeps_readIntoBuffer c))
    (fits_optional keeps_tryToHandleMsg))

theorem keeps_readSockets : Keeps readSockets [] :=
  .seq (keeps_wait _) (keeps_doWhile keeps_mutex
    (.seq (keeps_wait _) (.loop (.any keeps_readEntry))))

/-- The wait for the condition holds no lock. -/
theorem keeps_waitForFlush : Keeps waitForFlush [] := by
  refine fits_guarded (fun _ h => by cases h) (.alt .skip ?_)
  exact .seq .release (.seq (keeps_wait _)
    (.seq (.acquire fun _ h => by cases h) .skip))

theorem keeps_writeSockets : Keeps writeSockets [] := by
  refine .seq (keeps_wait _) (keeps_doWhile keeps_mutex (keeps_block ?_))
  intro p hp
  simp only [List.mem_cons, List.not_mem_nil, or_false] at hp
  rcases hp with rfl | rfl | rfl
  · exact .loop (.any fun c => fits_optional (keeps_flushMessages c))
  · exact .loop (fits_optional keeps_userLogout)
  · exact keeps_waitForFlush

theorem keeps_handleListen : Keeps handleListen [] := by
  refine keeps_block fun p hp => ?_
  simp only [List.mem_cons, List.not_mem_nil, or_false] at hp
  rcases hp with rfl | rfl | rfl
  · exact .loop (.seq (keeps_wait _)
      (fits_optional (.alt keeps_releaseClientInfo keeps_mutex)))
  · exact fits_optional (keeps_wait _)
  · exact fits_optional (keeps_wait _)

/-- Every thread keeps to the order. -/
theorem fits_program (t : Thread) : Keeps (program t) [] := by
  cases t with
  | listener => exact keeps_handleListen
  | reader => exact keeps_readSockets
  | writer => exact keeps_writeSockets

/-! ## No deadlock -/

/-- What can be said of the locks in a state: no threads wait for one another in
    a circle; a wait for a lock ends with a thread that goes on, or that is in
    `write` under the writing lock of that client; every other outside wait, and
    the end of a thread, is without locks. -/
structure NoDeadlock (s : IMLockOrder.State Thread Lock Wait PClientInfo) :
    Prop where
  noCircle : ∀ t, ¬ Relation.TransGen (WaitsFor s) t t
  ends : ∀ t t', WaitsFor s t t' → ∃ u, Relation.TransGen (WaitsFor s) t u
    ∧ (CanGo s u ∨ ∃ c, AtWait s u (.write c) ∧ s.holder (.writing c) = some u)
  waits : ∀ t w l, AtWait s t w → s.holder l = some t →
    ∃ c, w = .write c ∧ l = .writing c
  ended : ∀ t l, s.code t = [] → s.holder l ≠ some t

/-- **NO DEADLOCK**: in every interleaving of the three threads. -/
theorem no_deadlock {s : IMLockOrder.State Thread Lock Wait PClientInfo}
    (h : Reachable serverLocks s) : NoDeadlock s := by
  obtain ⟨held, hord⟩ := ordered_reachable fits_program h
  refine ⟨hord.not_waitsFor_cycle, ?_, ?_, ?_⟩
  · intro t t' hw
    obtain ⟨u, hu, hne, hend⟩ := hord.waitsFor_ends rank_lt hw
    refine ⟨u, hu, hend.imp_right ?_⟩
    rintro ⟨w, hwait, hnil | ⟨c, rfl, hheld⟩⟩
    · exact absurd hnil hne
    · exact ⟨c, hwait, (hord.holds u _).mp (hheld ▸ List.mem_singleton_self _)⟩
  · intro t w l hwait hl
    have hmem := (hord.holds t l).mpr hl
    rcases hord.atWait hwait with hnil | ⟨c, rfl, hheld⟩
    · rw [hnil] at hmem
      cases hmem
    · rw [hheld] at hmem
      exact ⟨c, rfl, List.mem_singleton.mp hmem⟩
  · intro t l hcode hl
    exact hord.code_ne_nil hl hcode

/-! ### A client that does not read -/

/-- The program before its first step. -/
def freshLocks : IMLockOrder.State Thread Lock Wait PClientInfo where
  code := fun t => [program t]
  holder := fun _ => none

theorem freshLocks_start : serverLocks.start freshLocks :=
  ⟨fun _ => rfl, fun _ => rfl⟩

/-- The lock a thread is about to take. -/
def wanted (s : IMLockOrder.State Thread Lock Wait PClientInfo) (t : Thread) :
    Option Lock :=
  match s.code t with
  | .act (.acquire l) :: _ => some l
  | _ => none

theorem wants_of_wanted {s : IMLockOrder.State Thread Lock Wait PClientInfo}
    {t : Thread} {l : Lock} (h : wanted s t = some l) : Wants s t l := by
  rw [wanted] at h
  split at h
  · next k hk =>
      obtain rfl := Option.some.inj h
      exact ⟨k, hk⟩
  · cases h

/-- The steps of a block under a lock. -/
def lockedBlock : List (Choice PClientInfo) := [.go, .go, .go, .go, .go]

/-- The writing thread is sent to the socket of client 4. -/
def writesToClient : List (Choice PClientInfo) :=
  [.go, .go, .go, .left, .go] ++ lockedBlock
    ++ [.go, .left, .pick 4, .right, .go, .go, .go, .right, .left, .go]

/-- The reading thread handles a line of client 1 whose message goes to
    client 4. -/
def deliversToClient : List (Choice PClientInfo) :=
  [.go, .go, .go, .left, .go] ++ lockedBlock
    ++ [.go, .go, .left, .pick 1, .right, .go, .left, .go, .right, .go, .left,
      .go, .go, .left, .go, .left, .go] ++ lockedBlock
    ++ [.left, .go, .go, .right, .go] ++ lockedBlock
    ++ [.left, .pick 4, .right, .go]

/-- While client 4 takes no bytes, the reading thread waits for the writing
    thread. -/
theorem no_deadlock_slowClient : ∃ s, Reachable serverLocks s
    ∧ WaitsFor s .reader .writer ∧ NoDeadlock s := by
  have hrun : ((runFrom serverLocks freshLocks
      (writesToClient.map (Thread.writer, ·)
        ++ deliversToClient.map (Thread.reader, ·))).any fun s =>
      decide (wanted s .reader = some (.writing 4)
        ∧ s.holder (.writing 4) = some .writer)) = true := by decide +kernel
  obtain ⟨s, hs, hp⟩ := (Option.any_eq_true _ _).mp hrun
  obtain ⟨hwant, hhold⟩ := of_decide_eq_true hp
  have hreach : Reachable serverLocks s := runFrom_reachable serverLocks _
    (.start freshLocks_start) hs
  exact ⟨s, hreach, ⟨_, wants_of_wanted hwant, hhold⟩, no_deadlock hreach⟩

end IMLocking

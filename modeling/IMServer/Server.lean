import IMServer.Message

/-! # The server — `IMServer.c`, the handling of lines

    The server's own data is the client list with its counter and the flush
    flag.  The functions here are those the reading thread runs between two
    locks: delivering a message, logging a user in, and the loop of
    `try_to_handle_msg`.

    What the code reads from memory it does not own is a parameter (`Surround`):
    the bytes behind the caches, behind the block of the line, and in the fresh
    block of a message. -/

namespace IMServerInfo

open IMBytes IMCString IMMachineInt IMCachePool IMBuffer IMBufferQueue
  IMClientInfo IMMessage

/-- `ServerInfo`, with the memory of the clients. -/
structure ServerInfo where
  clients : List PClientInfo
  clientCount : Int
  signToFlushMsg : Int
  mem : Clients

/-- The pool of the server. -/
def ServerInfo.pool (s : ServerInfo) : CachePool :=
  s.mem.heap.pool

def ServerInfo.setPool (s : ServerInfo) (p : CachePool) : ServerInfo :=
  { s with mem := s.mem.setPool p }

/-- The surrounding memory one line meets.  Less than 1 GiB can be read behind
    the line, so the lengths computed from it are `int`s. -/
structure Surround where
  afterCache : Addr → List UInt8
  afterLine : List UInt8
  junk : List UInt8 × List UInt8
  bounded : afterLine.length < 2 ^ 30

/-- Nothing behind the blocks. -/
def bareSurround : Surround := ⟨fun _ => [], [], ([], []), by decide⟩

/-- The array a snapshot fills: an entry the loop does not reach stays
    undefined. -/
def fillArray (items : Int) (clients : List PClientInfo) :
    List (Option PClientInfo) :=
  overwrite (List.replicate items.toNat none) 0 (clients.map some)

/-- `get_client_list`: the array and `*items`, and the result of `malloc`. -/
def getClientList (s : ServerInfo) :
    Option (List (Option PClientInfo)) × Int × ServerInfo :=
  match malloc s.pool with
  | (false, p) => (none, 0, s.setPool p)
  | (true, p) =>
      (some (fillArray s.clientCount s.clients), s.clientCount, s.setPool p)

/-- The body of the loop of `deliver_msg_to_all_clients`: `sent_count` and the
    memory after one client. -/
def deliverMsgToClient (msg : Msg) (toAll : Bool) (sentCount : Nat)
    (m : Clients) (c : PClientInfo) : Nat × Clients :=
  let info := m.info c
  if info.pub = fail then (sentCount, m)
  else if filterOut msg info.name = 0 then (sentCount, m)
  else if toAll ∨ isTarget msg info.name = 0 then
    (sentCount + 1, (sendMsgToClient m c msg.content msg.size).2)
  else (sentCount, m)

/-- The loop over the snapshot. -/
def deliverLoop (msg : Msg) (toAll : Bool) :
    List (Option PClientInfo) → Nat → Clients → Nat × Clients
  | [], sentCount, m => (sentCount, m)
  | none :: rest, sentCount, m => deliverLoop msg toAll rest sentCount m
  | some c :: rest, sentCount, m =>
      let r := deliverMsgToClient msg toAll sentCount m c
      deliverLoop msg toAll rest r.1 r.2

/-- `deliver_msg_to_all_clients`. -/
def deliverMsgToAllClients (s : ServerInfo) (msg : Msg) : Nat × ServerInfo :=
  let (clients, size, s) := getClientList s
  let toAll := decide (isMsgToAll msg = 0)
  let r := deliverLoop msg toAll ((clients.getD []).take size.toNat) 0 s.mem
  (r.1, { s with mem := r.2 })

/-- The common part of `user_login` and `user_logout`: the notice
    `"<name> <suffix>"` is formatted in a cache, the message to all clients
    built from it, with `name` excluded.  The cache is the caller's to recycle. -/
def createNotice (p : CachePool) (junk : List UInt8 × List UInt8)
    (name suffix : List UInt8) : Option Addr × Option Msg × CachePool :=
  let msgSize := cInt (strlen name + strlen suffix + 2 : Nat)
  match getNewCache p msgSize with
  | (none, p) => (none, none, p)
  | (some cache, p) =>
      let p := writeCache p cache 0 (cstr name ++ ascii " " ++ suffix ++ [0])
      match createSysMsgBaseOnContent p junk (some cmdToAll)
          (p.mem cache).buff with
      | (none, p) => (some cache, none, p)
      | (some msg, p) =>
          (some cache,
            some { msg with exclude := strcpy msg.exclude name }, p)

/-- `recycle_cache` behind the test that there is a cache. -/
def recycleIfAny (p : CachePool) : Option Addr → CachePool
  | none => p
  | some cache => (recycleCache p cache).2

/-- `user_login`; `msg` is the memory from the line on. -/
def userLogin (s : ServerInfo) (c : PClientInfo)
    (junk : List UInt8 × List UInt8) (msg : List UInt8) :
    Option Msg × ServerInfo :=
  let cmdSize := strlen cmdLogin
  let msg := cutAtEdge msg
  let info := updateClientName (s.mem.info c) (some (msg.drop cmdSize))
  let s := { s with mem := s.mem.setInfo c info }
  let (cache, message, p) := createNotice s.pool junk info.name msgLoginSuffix
  (message, s.setPool (recycleIfAny p cache))

/-- The target of a `TO-C-` line, copied to a cache of the pool without a
    terminating NUL byte; `indicator` is the offset of the first colon. -/
def buildTarget (p : CachePool) (msg : List UInt8) (indicator : Nat) :
    Option Addr × CachePool :=
  let cmdSize : Int := strlen cmdToC
  let targetNameSize := cInt ((indicator : Int) - cmdSize)
  match getNewCache p targetNameSize with
  | (none, p) => (none, p)
  | (some cache, p) =>
      (some cache, setBuff p cache (strncpy (p.mem cache).buff
        (msg.drop cmdSize.toNat) (sizeT targetNameSize)))

/-- The `TO-C-` branch: the message to the target. -/
def p2pMsgToTarget (s : ServerInfo) (c : PClientInfo) (env : Surround)
    (msg : List UInt8) (indicator : Nat) : Option Msg × ServerInfo :=
  match buildTarget s.pool msg indicator with
  | (none, p) => (none, s.setPool p)
  | (some cache, p) =>
      let (message, p) := createP2pMsgBaseOnContent p env.junk
        (s.mem.info c).name
        (some ((p.mem cache).buff ++ env.afterCache cache))
        (msg.drop (indicator + 2))
      (message, s.setPool (recycleCache p cache).2)

/-- The dispatch in the loop of `try_to_handle_msg`: the message to redirect. -/
def dispatchMsg (s : ServerInfo) (c : PClientInfo) (env : Surround)
    (msg : List UInt8) : Option Msg × ServerInfo :=
  if strstr msg cmdLogin = some 0 then userLogin s c env.junk msg
  else if strstr msg cmdToAll = some 0 then
    let cmdSize := strlen cmdToAll
    let r := createP2pMsgBaseOnContent s.pool env.junk (s.mem.info c).name
      (some cmdToAll) (msg.drop (cmdSize + 1))
    (r.1, s.setPool r.2)
  else if strstr msg cmdToC = some 0 then
    match strchr msg 58 with
    | none => (none, s)
    | some indicator => p2pMsgToTarget s c env msg indicator
  else (none, s)

/-- `deliver_msg_to_all_clients` behind the test that there is a message. -/
def deliverIfAny (s : ServerInfo) : Option Msg → Nat × ServerInfo
  | none => (0, s)
  | some msg => deliverMsgToAllClients s msg

/-- The body of the loop of `try_to_handle_msg` for one line: how many clients
    the message went to. -/
def handleMsg (s : ServerInfo) (c : PClientInfo) (env : Surround)
    (line : List UInt8) : Nat × ServerInfo :=
  let r := dispatchMsg s c env (line ++ env.afterLine)
  deliverIfAny r.2 r.1

/-- What `try_to_handle_msg` did: the lines it handled and `need_to_flush_msg`, the
    number of copies queued. -/
structure HandleResult where
  lines : List (List UInt8)
  needToFlushMsg : Nat
  server : ServerInfo

/-- The loop of `try_to_handle_msg`; `envs` gives the surroundings of each
    round. -/
def handleLoop (c : PClientInfo) (envs : Nat → Surround) :
    Nat → Nat → List (List UInt8) → Nat → ServerInfo → HandleResult
  | 0, _, lines, needToFlushMsg, s => ⟨lines, needToFlushMsg, s⟩
  | fuel + 1, round, lines, needToFlushMsg, s =>
      let r := fetchMsgFromClient s.mem (envs round).afterCache c
      let s := { s with mem := r.clients }
      if r.ret > 0 then
        let h := handleMsg s c (envs round) r.bytes
        handleLoop c envs fuel (round + 1) (lines ++ [r.bytes])
          (needToFlushMsg + h.1) h.2
      else ⟨lines, needToFlushMsg, s⟩

/-- `server_info->sign_to_flush_msg ++`: the flag is an `int`, and wraps. -/
def ServerInfo.incrementSign (s : ServerInfo) : ServerInfo :=
  { s with signToFlushMsg := cInt (s.signToFlushMsg + 1) }

/-- The final block of `try_to_handle_msg`: tell the writing thread to flush.
    The code counts the copies in an `int`. -/
def signalFlush (r : HandleResult) : HandleResult :=
  if cInt r.needToFlushMsg ≠ 0 then
    { r with server := r.server.incrementSign }
  else r

/-- `try_to_handle_msg`.  Each round but the last takes a line from the reading
    buffer, so its size bounds the rounds. -/
def tryToHandleMsg (s : ServerInfo) (c : PClientInfo) (envs : Nat → Surround) :
    HandleResult :=
  signalFlush (handleLoop c envs ((s.mem.reading c).length + 1) 0 [] 0 s)

/-- `info->pub = FAIL` of the reading thread: the client is abnormal. -/
def markFail (s : ServerInfo) (c : PClientInfo) : ServerInfo :=
  { s with mem := s.mem.setInfo c { s.mem.info c with pub := fail } }

/-! ## The client list -/

/-- `list_add_tail` of `handle_listen`. -/
def addClient (s : ServerInfo) (c : PClientInfo) : ServerInfo :=
  { s with
    clients := s.clients ++ [c]
    clientCount := s.clientCount + 1 }

/-- One round of `handle_listen`: the new connection `socketId`, in the block
    `c`.  The list node is allocated last. -/
def acceptClient (s : ServerInfo) (c : PClientInfo) (socketId : Int) :
    ServerInfo :=
  match newClientInfo s.mem c socketId (some unknownClient) with
  | (false, m) => { s with mem := m }
  | (true, m) =>
      match malloc m.heap.pool with
      | (false, p) => { s with mem := releaseClientInfo (m.setPool p) c }
      | (true, p) => addClient { s with mem := m.setPool p } c

/-- The search of `user_logout`: the list without the first client with this
    socket. -/
def listDel (info : PClientInfo → ClientInfo) (socketId : Int) :
    List PClientInfo → Option (List PClientInfo)
  | [] => none
  | curr :: rest =>
      if (info curr).socketId = socketId then some rest
      else (listDel info socketId rest).map (curr :: ·)

/-- The locked block of `user_logout`. -/
def removeClient (s : ServerInfo) (c : PClientInfo) : ServerInfo :=
  match listDel s.mem.info (s.mem.info c).socketId s.clients with
  | none => s
  | some clients =>
      { s with clients := clients, clientCount := s.clientCount - 1 }

/-- The middle part of `user_logout`: the notice is built in a cache, delivered,
    and the cache recycled.  Returns `sent_count`. -/
def notifyLogout (s : ServerInfo) (c : PClientInfo)
    (junk : List UInt8 × List UInt8) : Nat × ServerInfo :=
  let (cache, message, p) :=
    createNotice s.pool junk (s.mem.info c).name msgLogoutSuffix
  let r := deliverIfAny (s.setPool p) message
  (r.1, r.2.setPool (recycleIfAny r.2.pool cache))

/-- `user_logout`. -/
def userLogout (s : ServerInfo) (c : PClientInfo)
    (junk : List UInt8 × List UInt8) : ServerInfo :=
  let s := removeClient s c
  let r := notifyLogout s c junk
  let s := { r.2 with mem := releaseClientInfo r.2.mem c }
  if cInt r.1 ≠ 0 then s.incrementSign else s

end IMServerInfo

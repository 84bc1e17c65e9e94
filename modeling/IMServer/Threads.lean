import IMServer.Server
import IMServer.Transition

/-! # The three threads — `handle_listen`, `read_sockets`, `write_sockets`

    Each thread is a program counter with its local variables, and one step of it
    is one block under the mutex, one buffer operation, or one access to a
    `ClientInfo` through a pointer it holds.  Any thread may take the next step.

    What reaches a thread from outside is free in every step (`Env`): the answers
    of the system calls, the line a reading buffer holds, the pool the messages
    are built in.  The writing buffers are lists of chunks that remember which
    call appended them.  A `PClientInfo` names an allocation, so the name of a
    released block is never given to a new one. -/

namespace IMThreads

open IMBytes IMCString IMMachineInt IMCachePool IMClientInfo IMMessage
  IMServerInfo IMTransition

/-! ## The shared data -/

/-- Who appended bytes: the call number `n` of `try_to_handle_msg`, for the
    client `sender`, or the `user_logout` of a client. -/
inductive Origin where
  | call (sender : PClientInfo) (n : Nat)
  | logout (c : PClientInfo)

/-- The bytes one `send_msg_to_client` appended. -/
structure Chunk where
  origin : Origin
  bytes : List UInt8

/-- `ServerInfo`, the clients, and three records: the open descriptors, and the
    blocks `new_client_info` gave out and `release_client_info` took back. -/
structure Shared where
  clients : List PClientInfo
  clientCount : Int
  signToFlushMsg : Int
  isRunning : Bool
  info : PClientInfo → ClientInfo
  writing : PClientInfo → List Chunk
  openFds : List Int
  created : List PClientInfo
  released : List PClientInfo

namespace Shared

/-- `get_client_list`: the entries of the array below `*items`. -/
def getClientList (s : Shared) : List PClientInfo :=
  ((fillArray s.clientCount s.clients).take s.clientCount.toNat).reduceOption

def setInfo (s : Shared) (c : PClientInfo) (info : ClientInfo) : Shared :=
  { s with info := Function.update s.info c info }

/-- `info->pub = FAIL`. -/
def markFail (s : Shared) (c : PClientInfo) : Shared :=
  s.setInfo c { s.info c with pub := fail }

def setWriting (s : Shared) (c : PClientInfo) (chunks : List Chunk) : Shared :=
  { s with writing := Function.update s.writing c chunks }

/-- `send_msg_to_client`. -/
def sendMsgToClient (s : Shared) (c : PClientInfo) (chunk : Chunk) : Shared :=
  s.setWriting c (s.writing c ++ [chunk])

/-- The chunks without their first `n` bytes. -/
def dropBytes : Nat → List Chunk → List Chunk
  | _, [] => []
  | n, chunk :: chunks =>
      if n < chunk.bytes.length then
        { chunk with bytes := chunk.bytes.drop n } :: chunks
      else dropBytes (n - chunk.bytes.length) chunks

/-- `flush_messages`, when `write` takes `n` bytes in all.  Only a `write` that
    fails leaves bytes behind, and it moves `r_offset` back by one byte, which
    the chunks do not show: what is proved of the bytes themselves is proved of
    runs in which a flush takes them all. -/
def flushMessages (s : Shared) (c : PClientInfo) (n : Nat) : Shared :=
  s.setWriting c (dropBytes n (s.writing c))

/-- The locked block of `handle_listen`. -/
def addClient (s : Shared) (c : PClientInfo) : Shared :=
  { s with
    clients := s.clients ++ [c]
    clientCount := s.clientCount + 1 }

/-- The locked block of `user_logout`. -/
def removeClient (s : Shared) (c : PClientInfo) : Shared :=
  match listDel s.info (s.info c).socketId s.clients with
  | none => s
  | some clients =>
      { s with clients := clients, clientCount := s.clientCount - 1 }

/-- `new_client_info` for the block `c`. -/
def newClientInfo (s : Shared) (c : PClientInfo) (socketId : Int) : Shared :=
  let info : ClientInfo :=
    ⟨socketId, List.replicate clientNameMaximumSize 0, succ⟩
  { (s.setInfo c (updateClientName info (some unknownClient))).setWriting c []
    with created := c :: s.created }

/-- `release_client_info`. -/
def releaseClientInfo (s : Shared) (c : PClientInfo) : Shared :=
  { s.setWriting c [] with released := c :: s.released }

/-- `close`. -/
def close (s : Shared) (fd : Int) : Shared :=
  { s with openFds := s.openFds.filter fun open_ => decide (open_ ≠ fd) }

/-- The server a line is dispatched in, with the pool `pool`. -/
def toServer (s : Shared) (pool : CachePool) : ServerInfo where
  clients := s.clients
  clientCount := s.clientCount
  signToFlushMsg := s.signToFlushMsg
  mem := ⟨fun c => ⟨s.info c, 0⟩, ⟨pool, fun _ => []⟩⟩

end Shared

/-! ## The snapshot to poll -/

/-- `struct pollfd`. -/
structure PollFd where
  fd : Int
  revents : UInt16

/-- The block of `get_polling_and_client_list` with its two arrays, and
    `*items`. -/
structure Polling where
  items : Int
  pollingFds : List PollFd
  infos : List (Option PClientInfo)

/-- The entry for a client: a marked client is not polled. -/
def pollFdOf (info : ClientInfo) : PollFd :=
  ⟨if succ = info.pub then info.socketId else -1, 0⟩

/-- `get_polling_and_client_list`; the block is zeroed first. -/
def Shared.getPollingAndClientList (s : Shared) : Polling where
  items := s.clientCount
  pollingFds := overwrite (List.replicate s.clientCount.toNat ⟨0, 0⟩) 0
    (s.clients.map fun c => pollFdOf (s.info c))
  infos := fillArray s.clientCount s.clients

/-- Entry `index` of both arrays. -/
structure PollEntry where
  pollFd : PollFd
  client : PClientInfo

/-- The entries the loops of `read_sockets` go through. -/
def Polling.entries (p : Polling) : List PollEntry :=
  ((p.pollingFds.zip p.infos).take p.items.toNat).filterMap fun e =>
    e.2.map (PollEntry.mk e.1)

def pollIn : UInt16 := 1

/-! ## The program counters -/

/-- What the loop of `deliver_msg_to_all_clients` does next with the client at
    hand. -/
inductive DeliverStage where
  | pub
  | name
  | send

/-- The local variables of `deliver_msg_to_all_clients`; `rest` are the clients
    from `index` on. -/
structure Delivery where
  msg : Msg
  origin : Origin
  rest : List PClientInfo
  stage : DeliverStage
  sentCount : Nat

/-- Where `try_to_handle_msg` stands. -/
inductive HandleStage where
  | fetchMsg
  | dispatch (line : List UInt8)
  | snapshot (msg : Msg)
  | deliver (d : Delivery)
  | signal

/-- `read_sockets`; `entries` are those the loop at hand has still to go
    through. -/
inductive Reader where
  | idle
  | top
  | debugLog (entries all : List PollEntry)
  | poll (all : List PollEntry)
  | scan (entries : List PollEntry)
  | fetch (c : PClientInfo) (entries : List PollEntry)
  | handle (c : PClientInfo) (needToFlushMsg : Nat) (stage : HandleStage)
      (entries : List PollEntry)
  | markFail (c : PClientInfo) (entries : List PollEntry)
  | loopEnd
  | exited

/-- Where `user_logout` stands. -/
inductive LogoutStage where
  | remove
  | build
  | snapshot (msg : Msg)
  | deliver (d : Delivery)
  | close (sentCount : Nat)
  | release (sentCount : Nat)
  | signal (sentCount : Nat)

/-- `write_sockets`; `pubChecked` says that the flush of the first client is
    next. -/
inductive Writer where
  | idle
  | top
  | flush (todo all : List PClientInfo) (pubChecked : Bool)
  | logoutScan (todo : List PClientInfo)
  | logout (c : PClientInfo) (stage : LogoutStage) (todo : List PClientInfo)
  | check
  | waiting
  | loopEnd
  | exited

/-- `handle_listen`; `spawned` says that the two threads have been created. -/
inductive Listener where
  | accept (spawned : Bool)
  | create (spawned : Bool) (clientId : Int)
  | addNode (spawned : Bool) (c : PClientInfo)
  | spawnReader
  | spawnWriter
  | stop
  | exited

/-- The program.  Three fields record the run: how often `try_to_handle_msg` was
    called, whether the last check of the flag found it set, and whether the flag
    was incremented since. -/
structure State where
  shared : Shared
  reader : Reader
  writer : Writer
  listener : Listener
  calls : Nat
  foundSet : Bool
  increased : Bool

/-- What one step meets. -/
structure Env where
  mallocOk : Bool
  threadOk : Bool
  pollRet : Int
  revents : PClientInfo → UInt16
  fetchCount : Int
  line : Option (List UInt8)
  pool : CachePool
  surround : Surround
  stored : Nat
  taken : Nat
  tvUsec : Nat
  clientId : Int
  block : PClientInfo

/-! ## The steps -/

/-- `server_info->sign_to_flush_msg ++`: the flag is an `int`, and wraps. -/
def State.incrementSign (s : State) : State :=
  { s with
    shared := { s.shared with
      signToFlushMsg := cInt (s.shared.signToFlushMsg + 1) }
    increased := true }

/-- `if (need) { sign_to_flush_msg ++ }`.  `need` counts the copies queued; the
    code counts them in an `int`. -/
def State.signalFlush (s : State) (need : Nat) : State :=
  if cInt need ≠ 0 then s.incrementSign else s

/-- The start of a delivery: the snapshot. -/
def startDelivery (s : Shared) (env : Env) (origin : Origin) (msg : Msg) :
    Delivery where
  msg := msg
  origin := origin
  rest := if env.mallocOk then s.getClientList else []
  stage := .pub
  sentCount := 0

/-- One access of the loop of `deliver_msg_to_all_clients`; none when the loop
    is at its end. -/
def deliverStep (s : Shared) (env : Env) (d : Delivery) :
    Option (Shared × Delivery) :=
  match d.rest, d.stage with
  | [], _ => none
  | c :: rest, .pub =>
      if (s.info c).pub = fail then some (s, { d with rest := rest })
      else some (s, { d with stage := .name })
  | c :: rest, .name =>
      if filterOut d.msg (s.info c).name = 0 then
        some (s, { d with rest := rest, stage := .pub })
      else if isMsgToAll d.msg = 0 ∨ isTarget d.msg (s.info c).name = 0 then
        some (s, { d with stage := .send })
      else some (s, { d with rest := rest, stage := .pub })
  | c :: rest, .send =>
      some (s.sendMsgToClient c ⟨d.origin, d.msg.content.take env.stored⟩,
        { d with rest := rest, stage := .pub, sentCount := d.sentCount + 1 })

/-- One step inside `try_to_handle_msg`. -/
def handleStep (s : State) (env : Env) (c : PClientInfo) (need : Nat)
    (entries : List PollEntry) : HandleStage → State
  | .fetchMsg =>
      match env.line with
      | some line => { s with reader := .handle c need (.dispatch line) entries }
      | none => { s with reader := .handle c need .signal entries }
  | .dispatch line =>
      let r := dispatchMsg (s.shared.toServer env.pool) c env.surround
        (line ++ env.surround.afterLine)
      { s with
        shared := s.shared.setInfo c (r.2.mem.info c)
        reader := match r.1 with
          | none => .handle c need .fetchMsg entries
          | some msg => .handle c need (.snapshot msg) entries }
  | .snapshot msg =>
      { s with reader := .handle c need (.deliver
        (startDelivery s.shared env (.call c s.calls) msg)) entries }
  | .deliver d =>
      match deliverStep s.shared env d with
      | none =>
          { s with reader := .handle c (need + d.sentCount) .fetchMsg entries }
      | some (shared, d) =>
          { s with
            shared := shared
            reader := .handle c need (.deliver d) entries }
  | .signal => { s.signalFlush need with reader := .scan entries }

/-- The body of the loop over the polled entries, up to the first access that is
    more than a test. -/
def scanEntry (s : Shared) (e : PollEntry) (entries : List PollEntry) : Reader :=
  if e.pollFd.fd = -1 then .scan entries
  else if e.pollFd.fd ≠ (s.info e.client).socketId then .scan entries
  else if e.pollFd.revents = 0 then .scan entries
  else if e.pollFd.revents &&& pollIn ≠ 0 then .fetch e.client entries
  else .markFail e.client entries

/-- `poll` fills in the events. -/
def setRevents (env : Env) (e : PollEntry) : PollEntry :=
  { e with pollFd := { e.pollFd with revents := env.revents e.client } }

/-- `read_sockets`. -/
def readerStep (s : State) (env : Env) : Option State :=
  match s.reader with
  | .idle => none
  | .top =>
      let all := s.shared.getPollingAndClientList.entries
      some { s with
        reader := if env.mallocOk then .debugLog all all else .exited }
  | .debugLog [] all => some { s with reader := .poll all }
  | .debugLog (_ :: entries) all =>
      some { s with reader := .debugLog entries all }
  | .poll all =>
      some { s with
        reader := if env.pollRet = -1 ∨ env.pollRet = 0 then .loopEnd
          else .scan (all.map (setRevents env)) }
  | .scan [] => some { s with reader := .loopEnd }
  | .scan (e :: entries) =>
      some { s with reader := scanEntry s.shared e entries }
  | .fetch c entries =>
      if env.fetchCount ≠ 0 then
        some { s with
          reader := .handle c 0 .fetchMsg entries, calls := s.calls + 1 }
      else some { s with reader := .markFail c entries }
  | .handle c need stage entries => some (handleStep s env c need entries stage)
  | .markFail c entries =>
      some { s with shared := s.shared.markFail c, reader := .scan entries }
  | .loopEnd =>
      some { s with reader := if s.shared.isRunning then .top else .exited }
  | .exited => none

/-- One step inside `user_logout`. -/
def logoutStep (s : State) (env : Env) (c : PClientInfo)
    (todo : List PClientInfo) : LogoutStage → State
  | .remove =>
      { s with
        shared := s.shared.removeClient c
        writer := .logout c .build todo }
  | .build =>
      match (createNotice env.pool env.surround.junk (s.shared.info c).name
          msgLogoutSuffix).2.1 with
      | none => { s with writer := .logout c (.close 0) todo }
      | some msg => { s with writer := .logout c (.snapshot msg) todo }
  | .snapshot msg =>
      { s with writer := .logout c (.deliver
        (startDelivery s.shared env (.logout c) msg)) todo }
  | .deliver d =>
      match deliverStep s.shared env d with
      | none => { s with writer := .logout c (.close d.sentCount) todo }
      | some (shared, d) =>
          { s with shared := shared, writer := .logout c (.deliver d) todo }
  | .close sentCount =>
      { s with
        shared := s.shared.close (s.shared.info c).socketId
        writer := .logout c (.release sentCount) todo }
  | .release sentCount =>
      { s with
        shared := s.shared.releaseClientInfo c
        writer := .logout c (.signal sentCount) todo }
  | .signal sentCount =>
      { s.signalFlush sentCount with writer := .logoutScan todo }

/-- `write_sockets`.  The wait ends at any time: by the signal, at the deadline,
    or for no reason. -/
def writerStep (s : State) (env : Env) : Option State :=
  match s.writer with
  | .idle => none
  | .top =>
      let clients := s.shared.getClientList
      some { s with
        writer := if env.mallocOk then .flush clients clients false
          else .exited }
  | .flush [] all _ => some { s with writer := .logoutScan all }
  | .flush (c :: todo) all false =>
      some { s with
        writer := if (s.shared.info c).pub = fail then .flush todo all false
          else .flush (c :: todo) all true }
  | .flush (c :: todo) all true =>
      some { s with
        shared := s.shared.flushMessages c env.taken
        writer := .flush todo all false }
  | .logoutScan [] => some { s with writer := .check }
  | .logoutScan (c :: todo) =>
      some { s with
        writer := if (s.shared.info c).pub = fail then .logout c .remove todo
          else .logoutScan todo }
  | .logout c stage todo => some (logoutStep s env c todo stage)
  | .check =>
      if s.shared.signToFlushMsg ≠ 0 then
        some { s with writer := .loopEnd, foundSet := true, increased := false }
      else if env.tvUsec < 1000000 then
        some { s with writer := .waiting, foundSet := false, increased := false }
      else none
  | .waiting =>
      some { s with
        shared := { s.shared with signToFlushMsg := 0 }, writer := .loopEnd }
  | .loopEnd =>
      some { s with writer := if s.shared.isRunning then .top else .exited }
  | .exited => none

/-- `wait_time.tv_nsec`. -/
def waitTimeNsec (tvUsec : Nat) : Nat := (tvUsec + 100 * 1000) * 1000

/-- `handle_listen`.  `accept` returns a descriptor that is not open, and
    `new_client_info` a block that is new. -/
def listenerStep (s : State) (env : Env) : Option State :=
  match s.listener with
  | .accept spawned =>
      if env.clientId < 0 then some s
      else if env.clientId ∈ s.shared.openFds then none
      else some { s with
        shared := { s.shared with openFds := env.clientId :: s.shared.openFds }
        listener := .create spawned env.clientId }
  | .create spawned clientId =>
      if env.mallocOk = false then some { s with listener := .accept spawned }
      else if env.block ∈ s.shared.created then none
      else some { s with
        shared := s.shared.newClientInfo env.block clientId
        listener := .addNode spawned env.block }
  | .addNode spawned c =>
      if env.mallocOk then
        some { s with
          shared := s.shared.addClient c
          listener := if spawned then .accept true else .spawnReader }
      else some { s with
        shared := s.shared.releaseClientInfo c
        listener := .accept spawned }
  | .spawnReader =>
      if env.threadOk then
        some { s with reader := .top, listener := .spawnWriter }
      else some { s with listener := .stop }
  | .spawnWriter =>
      if env.threadOk then
        some { s with writer := .top, listener := .accept true }
      else some { s with listener := .stop }
  | .stop =>
      some { s with
        shared := { s.shared with isRunning := false }, listener := .exited }
  | .exited => none

inductive Thread where
  | listener
  | reader
  | writer
  deriving DecidableEq

/-- One step of one thread. -/
def threadStep (s : State) : Thread × Env → Option State
  | (.listener, env) => listenerStep s env
  | (.reader, env) => readerStep s env
  | (.writer, env) => writerStep s env

/-- The program starts with the listening thread alone. -/
def threadSystem : System State (Thread × Env) where
  start := fun s => s.shared.clients = [] ∧ s.shared.clientCount = 0
    ∧ s.shared.signToFlushMsg = 0 ∧ s.shared.created = []
    ∧ s.shared.released = [] ∧ (∀ c, s.shared.writing c = [])
    ∧ s.reader = .idle ∧ s.writer = .idle ∧ s.listener = .accept false
    ∧ s.calls = 0 ∧ s.foundSet = false ∧ s.increased = false
  step := threadStep

/-! ## Runs -/

/-- The program before any connection. -/
def freshProgram : State where
  shared :=
    { clients := []
      clientCount := 0
      signToFlushMsg := 0
      isRunning := true
      info := fun _ => ⟨0, [], 0⟩
      writing := fun _ => []
      openFds := [0, 1, 2, 3]
      created := []
      released := [] }
  reader := .idle
  writer := .idle
  listener := .accept false
  calls := 0
  foundSet := false
  increased := false

theorem freshProgram_start : threadSystem.start freshProgram :=
  ⟨rfl, rfl, rfl, rfl, rfl, fun _ => rfl, rfl, rfl, rfl, rfl, rfl, rfl⟩

/-- Every allocation succeeds, `poll` reports nothing, all can be written. -/
def quiet : Env where
  mallocOk := true
  threadOk := true
  pollRet := 0
  revents := fun _ => 0
  fetchCount := 0
  line := none
  pool := emptyPool (fun _ => ⟨0, 0, []⟩) (fun _ => 0) []
  surround := bareSurround
  stored := 1024
  taken := 1024
  tvUsec := 0
  clientId := 0
  block := 0

/-- The listening thread accepts `socketId` and lists it as the client `c`. -/
def clientAccepted (c : PClientInfo) (socketId : Int) : List (Thread × Env) :=
  [(.listener, { quiet with clientId := socketId }),
    (.listener, { quiet with block := c }), (.listener, quiet)]

/-- The two other threads are created. -/
def threadsCreated : List (Thread × Env) :=
  [(.listener, quiet), (.listener, quiet)]

end IMThreads

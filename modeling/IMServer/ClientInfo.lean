import IMServer.BufferQueue

/-! # The client — `entity/client_info.c`

    A client has its public data and two buffers.  The two buffers of all
    clients are one heap of buffers, indexed by the client and the side. -/

namespace IMClientInfo

open IMBytes IMCString IMMachineInt IMCachePool IMBuffer IMBufferQueue

/-- A pointer to a client. -/
abbrev PClientInfo := Nat

/-- `CLIENT_NAME_MAXIMUM_SIZE`. -/
def clientNameMaximumSize : Nat := 30

/-- `FAIL` and `SUCC` at type `unsigned long`. -/
def fail : Nat := sizeT (-1)

def succ : Nat := 0

/-- `ClientInfo`: the fields the server works with; `name` is the array. -/
structure ClientInfo where
  socketId : Int
  name : List UInt8
  pub : Nat

/-- `ClientData`: the client and `last_check_cmd_index`. -/
structure ClientData where
  info : ClientInfo
  lastCheckCmdIndex : Nat

/-- The two buffers of a client. -/
inductive Side where
  | reading
  | writing
  deriving DecidableEq

/-- No reading buffer is a writing buffer. -/
theorem reading_ne_writing (c d : PClientInfo) :
    (c, Side.reading) ≠ (d, Side.writing) :=
  fun h => by cases congrArg Prod.snd h

/-- The memory of all clients. -/
structure Clients where
  data : PClientInfo → ClientData
  heap : BufferHeap (PClientInfo × Side)

/-- The public data of a client. -/
def Clients.info (m : Clients) (c : PClientInfo) : ClientInfo :=
  (m.data c).info

/-- The reading buffer's content. -/
def Clients.reading (m : Clients) (c : PClientInfo) : List UInt8 :=
  m.heap.content (c, .reading)

/-- The writing buffer's content. -/
def Clients.writing (m : Clients) (c : PClientInfo) : List UInt8 :=
  m.heap.content (c, .writing)

/-- The name `update_client_name` stores in the array; `none` is a null
    pointer. -/
def updatedName (old : List UInt8) (name : Option (List UInt8)) : List UInt8 :=
  let blank := overwrite old 0 (List.replicate clientNameMaximumSize 0)
  match name with
  | none => strcpy blank (ascii "Unknown")
  | some name =>
      let nameLength := cInt (minSizeT (strlen name) (clientNameMaximumSize - 1))
      strncpy blank name nameLength.toNat

/-- `update_client_name`. -/
def updateClientName (info : ClientInfo) (name : Option (List UInt8)) :
    ClientInfo :=
  { info with name := updatedName info.name name }

/-- The memory after a store into the public data of a client. -/
def Clients.setInfo (m : Clients) (c : PClientInfo) (info : ClientInfo) :
    Clients :=
  { m with data := Function.update m.data c { m.data c with info := info } }

@[simp] theorem info_setInfo (m : Clients) (c : PClientInfo)
    (info : ClientInfo) : (m.setInfo c info).info c = info := by
  show (Function.update m.data c _ c).info = info
  rw [Function.update_self]

@[simp] theorem check_setInfo (m : Clients) (c : PClientInfo)
    (info : ClientInfo) : ((m.setInfo c info).data c).lastCheckCmdIndex
      = (m.data c).lastCheckCmdIndex := by
  show (Function.update m.data c _ c).lastCheckCmdIndex = _
  rw [Function.update_self]

theorem data_setInfo_of_ne (m : Clients) {c d : PClientInfo} (h : d ≠ c)
    (info : ClientInfo) : (m.setInfo c info).data d = m.data d :=
  Function.update_of_ne h ..

def Clients.setPool (m : Clients) (p : CachePool) : Clients :=
  { m with heap := { m.heap with pool := p } }

/-- `new_client_info` for the block `c`: the allocations of the block and of the
    two buffers are checked.  The name array of the new block is blank. -/
def newClientInfo (m : Clients) (c : PClientInfo) (socketId : Int)
    (clientName : Option (List UInt8)) : Bool × Clients :=
  match malloc m.heap.pool with
  | (false, p) => (false, m.setPool p)
  | (true, p) =>
      match malloc p with
      | (false, p) => (false, m.setPool p)
      | (true, p) =>
          match malloc p with
          | (false, p) => (false, m.setPool p)
          | (true, p) =>
              let info : ClientInfo :=
                ⟨socketId, List.replicate clientNameMaximumSize 0, 0⟩
              let buf := Function.update m.heap.buf (c, .reading) []
              (true,
                { data := Function.update m.data c
                    ⟨updateClientName info clientName, 0⟩
                  heap := ⟨p, Function.update buf (c, .writing) []⟩ })

/-- `release_client_info`: both buffers are destroyed. -/
def releaseClientInfo (m : Clients) (c : PClientInfo) : Clients :=
  let h := m.heap.put (c, .reading)
    (destroyBuffer m.heap.pool (m.heap.buf (c, .reading))) []
  let h := h.put (c, .writing)
    (destroyBuffer h.pool (h.buf (c, .writing))) []
  { m with heap := h }

/-- The value of a call that takes bytes from the socket, and those bytes. -/
structure FetchResult where
  ret : Nat
  got : List UInt8
  clients : Clients

/-- `fetch_from_client`; `byteAvailable` is the answer of `ioctl`, none when it
    fails. -/
def fetchFromClient (m : Clients) (c : PClientInfo)
    (byteAvailable : Option Int) (reads : List ReadOutcome) : FetchResult :=
  match byteAvailable with
  | none => ⟨sizeT (-1), [], m⟩
  | some byteAvailable =>
      let r := readIntoBuffer m.heap.pool (m.heap.buf (c, .reading))
        (sizeT byteAvailable) reads
      ⟨r.ret, r.got,
        { m with heap := m.heap.put (c, .reading) r.pool r.buffer }⟩

/-- `check_command_suffix`. -/
def checkCommandSuffix (suffix : UInt8) (buff : List UInt8) (size : Int) : Nat :=
  match strchr buff suffix with
  | none => sizeT (-1)
  | some target => if (target : Int) < size then target else sizeT (-1)

/-- The value of a call that takes bytes from a buffer, and those bytes. -/
structure TakeResult where
  ret : Nat
  bytes : List UInt8
  clients : Clients

/-- `fetch_msg_from_client`; `after` is the memory behind the caches.  The first
    branch is never taken: `cmd_suffix_index` has an unsigned type. -/
def fetchMsgFromClient (m : Clients) (after : Addr → List UInt8)
    (c : PClientInfo) : TakeResult :=
  let data := m.data c
  let buffer := m.heap.buf (c, .reading)
  let cmdSuffixIndex := findInBuffer m.heap.pool after buffer
    data.lastCheckCmdIndex (some checkCommandSuffix) 10
  if cmdSuffixIndex < 0 then
    ⟨sizeT (-1), [],
      { m with
        data := Function.update m.data c
          { data with lastCheckCmdIndex := bufferSize buffer } }⟩
  else
    let r := readFromBuffer m.heap.pool buffer
      (sizeT ((cmdSuffixIndex : Int) + 1))
    let readSize := cInt r.ret
    ⟨sizeT readSize, r.bytes,
      { data := Function.update m.data c { data with lastCheckCmdIndex := 0 }
        heap := m.heap.put (c, .reading) r.pool r.buffer }⟩

/-- `send_msg_to_client`. -/
def sendMsgToClient (m : Clients) (c : PClientInfo) (msg : List UInt8)
    (size : Nat) : Nat × Clients :=
  let r := writeIntoBuffer m.heap.pool (m.heap.buf (c, .writing)) msg size
  (r.ret, { m with heap := m.heap.put (c, .writing) r.pool r.buffer })

/-- `flush_messages`; the bytes of the result are those `write` took. -/
def flushMessages (m : Clients) (c : PClientInfo)
    (writes : List WriteOutcome) : TakeResult :=
  let bSize := bufferSize (m.heap.buf (c, .writing))
  if bSize > 0 then
    let r := writeFromBuffer m.heap.pool (m.heap.buf (c, .writing)) bSize writes
    ⟨r.ret, r.bytes,
      { m with heap := m.heap.put (c, .writing) r.pool r.buffer }⟩
  else ⟨0, [], m⟩

end IMClientInfo

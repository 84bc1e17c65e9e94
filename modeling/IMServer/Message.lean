import IMServer.ClientInfo

/-! # Messages — `entity/message.c`

    A message has a target and an excluded name, both arrays of
    `CLIENT_NAME_MAXIMUM_SIZE` bytes, and its text in a block of its own.  A name
    that is longer than its array shows as a longer list. -/

namespace IMMessage

open IMBytes IMCString IMMachineInt IMCachePool IMClientInfo

def cmdLogin : List UInt8 := ascii "LOGIN: "

def cmdToAll : List UInt8 := ascii "TO-ALL:"

def cmdToC : List UInt8 := ascii "TO-C-"

def msgPrefixIndicator : List UInt8 := ascii ":"

def msgSysPrefix : List UInt8 := ascii "FROM SYSTEM:"

def msgPeerPrefix : List UInt8 := ascii "FROM"

def msgLoginSuffix : List UInt8 := ascii "is online now"

def msgLogoutSuffix : List UInt8 := ascii "has logged out"

def msgEdgeIndicator : UInt8 := 10

def unknownClient : List UInt8 := ascii "unknown"

/-- `Msg`. -/
structure Msg where
  target : List UInt8
  exclude : List UInt8
  size : Nat
  content : List UInt8

/-- `is_msg_to_all`: 0 for a message to all. -/
def isMsgToAll (msg : Msg) : Int :=
  strcmp msg.target cmdToAll

/-- `filter_out`: 0 for a client that gets no copy. -/
def filterOut (msg : Msg) (target : List UInt8) : Int :=
  if 0 = strcmp msg.exclude target ∨ 0 = strcmp target unknownClient then 0
  else -1

/-- `is_target`: 0 for the client the message is for. -/
def isTarget (msg : Msg) (target : List UInt8) : Int :=
  strcmp msg.target target

/-- `create_new_msg`.  Both allocations are checked; the arrays of the new block
    keep what it held, `junk`. -/
def createNewMsg (p : CachePool) (junk : List UInt8 × List UInt8) (size : Nat) :
    Option Msg × CachePool :=
  match malloc p with
  | (false, p) => (none, p)
  | (true, p) =>
      match malloc p with
      | (false, p) => (none, p)
      | (true, p) =>
          (some ⟨junk.1, junk.2, size, List.replicate size 0⟩, p)

/-- The text at a pointer with its first newline replaced by a NUL byte. -/
def cutAtEdge (content : List UInt8) : List UInt8 :=
  match strchr content msgEdgeIndicator with
  | none => content
  | some enter => overwrite content enter [0]

/-- `sprintf`: the formatted bytes and a NUL byte, to the start of the block. -/
def sprintf (dst formatted : List UInt8) : List UInt8 :=
  overwrite dst 0 (formatted ++ [0])

/-- `create_p2p_msg_base_on_content`. -/
def createP2pMsgBaseOnContent (p : CachePool) (junk : List UInt8 × List UInt8)
    (sender : List UInt8) (target : Option (List UInt8))
    (content : List UInt8) : Option Msg × CachePool :=
  let content := cutAtEdge content
  let messageLen := sizeT (cInt
    (strlen msgPeerPrefix + strlen sender + strlen content + 5 : Nat))
  match createNewMsg p junk messageLen with
  | (none, p) => (none, p)
  | (some message, p) =>
      let message := { message with
        content := sprintf message.content
          (msgPeerPrefix ++ ascii " " ++ cstr sender ++ msgPrefixIndicator
            ++ ascii " " ++ cstr content ++ ascii "\n")
        size := sizeT ((message.size : Int) - 1) }
      let message := match target with
        | none => message
        | some target => { message with target := strcpy message.target target }
      (some { message with exclude := strcpy message.exclude sender }, p)

/-- `create_sys_msg_base_on_content`. -/
def createSysMsgBaseOnContent (p : CachePool) (junk : List UInt8 × List UInt8)
    (target : Option (List UInt8)) (content : List UInt8) :
    Option Msg × CachePool :=
  let content := cutAtEdge content
  let msgLen := sizeT (cInt (strlen msgSysPrefix + strlen content + 3 : Nat))
  match createNewMsg p junk msgLen with
  | (none, p) => (none, p)
  | (some msg, p) =>
      let msg := { msg with
        content := sprintf msg.content
          (msgSysPrefix ++ ascii " " ++ cstr content ++ ascii "\n")
        size := sizeT ((msg.size : Int) - 1) }
      (some (match target with
        | none => msg
        | some target => { msg with target := strcpy msg.target target }), p)

end IMMessage

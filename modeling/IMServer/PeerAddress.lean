import IMServer.AddressText
import IMServer.BlockLedger
import IMServer.ClientInfo

/-! # The peer of a socket — `net_util.c`

    `get_addr_and_port` asks for the name of the peer, tells the families apart by
    the size of the name and converts the address.  The limit it passes to the
    conversion is the size of the name, not that of the block for the text, and
    when the conversion fails the return value is still that of `getpeername`.
    `reports_iff` says which peers are reported as they should be. -/

namespace IMPeerAddress

open IMBytes IMCString IMAddressText IMBlockLedger IMClientInfo

/-! ## Names of peers -/

/-- `sizeof(IPv4)`. -/
def sizeofIPv4 : Nat := 16

/-- `sizeof(IPv6)`. -/
def sizeofIPv6 : Nat := 28

/-- `max_size`. -/
def maxSize : Nat := if sizeofIPv4 > sizeofIPv6 then sizeofIPv4 else sizeofIPv6

/-- What `getpeername` comes to: a failure, or the name of the peer. -/
inductive PeerOutcome where
  | error
  | ipv4 (addr : Vector UInt8 4) (port : UInt16)
  | ipv6 (addr : Vector UInt8 16) (port : UInt16)
      (flowinfo scopeId : Vector UInt8 4)
  | other (name : List UInt8) (h4 : name.length ≠ sizeofIPv4)
      (h6 : name.length ≠ sizeofIPv6)

/-- A port in network order. -/
def netShort (port : UInt16) : List UInt8 :=
  [UInt8.ofNat (port.toNat / 256), UInt8.ofNat (port.toNat % 256)]

/-- The name as it lies in memory: family, port and address, for IPv4 filled up
    with zeros, for IPv6 with flow information and scope. -/
def PeerOutcome.name : PeerOutcome → Option (List UInt8)
  | .error => none
  | .ipv4 addr port =>
      some ([2, 0] ++ netShort port ++ addr.toList ++ List.replicate 8 0)
  | .ipv6 addr port flowinfo scopeId =>
      some ([10, 0] ++ netShort port ++ flowinfo.toList ++ addr.toList
        ++ scopeId.toList)
  | .other name _ _ => some name

/-- A `uint16_t` in memory; the host is little endian. -/
def loadShort (m : List UInt8) : Nat :=
  (m.getD 0 0).toNat + 256 * (m.getD 1 0).toNat

/-- `ntohs`. -/
def ntohs (n : Nat) : Nat := n % 256 * 256 + n / 256

/-- The fields of the two structures: `sin_port` and `sin6_port` have the same
    place. -/
def sinPort (info : List UInt8) : Nat := loadShort (slice info 2 2)

def sinAddr (info : List UInt8) : List UInt8 := slice info 4 4

def sin6Addr (info : List UInt8) : List UInt8 := slice info 8 16

/-! ## `get_addr_and_port` -/

/-- The answers of the system in one call: the bytes found in the two blocks, none
    when `malloc` fails, and the outcome of `getpeername`, which fails for a null
    pointer. -/
structure Answers where
  addr : Option (Vector UInt8 Family.inet6.addrstrlen)
  addrInfo : Option (Vector UInt8 maxSize)
  peer : PeerOutcome
  fault : addrInfo = none → peer = .error

/-- A block of the heap. -/
structure Block where
  token : Nat
  mem : List UInt8

/-- `malloc`. -/
def mallocBlock (l : Ledger) {n : Nat} :
    Option (Vector UInt8 n) → Option Block × Ledger
  | none => (none, l)
  | some mem => (some ⟨l.acquire.1, mem.toList⟩, l.acquire.2)

/-- `free`; a null pointer is allowed. -/
def freeBlock (l : Ledger) : Option Block → Ledger
  | none => l
  | some block => l.release block.token

/-- The variables of the call, and the heap. -/
structure Call where
  ret : Int
  addr : Option Block
  addrInfo : Option Block
  addrSize : Nat
  port : Int
  ledger : Ledger

/-- The memory at `addr_info`. -/
def Call.info (c : Call) : List UInt8 :=
  (c.addrInfo.map Block.mem).getD []

/-- `getpeername`: the name is cut to the size of the block, the size that comes
    back is its own. -/
def getpeername (peer : PeerOutcome) (c : Call) : Call :=
  match peer.name with
  | none => { c with ret := -1 }
  | some name =>
      { c with
        ret := 0
        addrInfo := c.addrInfo.map fun block =>
          { block with mem := overwrite block.mem 0 (name.take c.addrSize) }
        addrSize := name.length }

/-- What a call leaves: the return value, `*addr` (none for a null pointer),
    `*port`, and the heap. -/
structure AddrAndPort where
  ret : Int
  addr : Option (List UInt8)
  port : Int
  ledger : Ledger

/-- Behind `error_handle`. -/
def errorHandle (c : Call) : AddrAndPort :=
  ⟨c.ret, none, c.port, freeBlock (freeBlock c.ledger c.addrInfo) c.addr⟩

/-- One of the two conversions; there is no result when `*addr` is a null
    pointer.  A failed one goes to the handler and leaves `ret` as it is. -/
def parseAs (c : Call) (af : Family) (src : List UInt8) (uport : Nat) :
    Option AddrAndPort :=
  c.addr.map fun block =>
    -- the limit is `addr_size`, that of the name
    match inetNtop af src block.mem c.addrSize with
    | none => errorHandle c
    | some mem => ⟨0, some mem, uport, c.ledger⟩

/-- The part in front of the first test. -/
def askPeer (l : Ledger) (x : Answers) (port : Int) : Call :=
  let addr := mallocBlock l x.addr
  let addrInfo := mallocBlock addr.2 x.addrInfo
  getpeername x.peer ⟨0, addr.1, addrInfo.1, maxSize, port, addrInfo.2⟩

/-- `get_addr_and_port`; `port` is the value of `*port`. -/
def getAddrAndPort (l : Ledger) (x : Answers) (port : Int) :
    Option AddrAndPort :=
  let c := askPeer l x port
  if 0 ≠ c.ret then some (errorHandle c)
  else if sizeofIPv6 = c.addrSize then
    parseAs c .inet6 (sin6Addr c.info) (ntohs (sinPort c.info))
  else if sizeofIPv4 = c.addrSize then
    parseAs c .inet (sinAddr c.info) (ntohs (sinPort c.info))
  else some (errorHandle { c with ret := -1 })

/-! ## Addresses of peers -/

/-- Family, address and port of an IPv4 or IPv6 peer. -/
def PeerOutcome.address : PeerOutcome → Option (Family × List UInt8 × UInt16)
  | .ipv4 addr port => some (.inet, addr.toList, port)
  | .ipv6 addr port _ _ => some (.inet6, addr.toList, port)
  | _ => none

/-- The size of a name of the family. -/
def sockaddrSize : Family → Nat
  | .inet => sizeofIPv4
  | .inet6 => sizeofIPv6

theorem address_cases {peer : PeerOutcome} {af : Family} {src : List UInt8}
    {uport : UInt16} (h : peer.address = some (af, src, uport)) :
    (∃ addr : Vector UInt8 4,
      peer = .ipv4 addr uport ∧ af = .inet ∧ src = addr.toList)
    ∨ ∃ (addr : Vector UInt8 16) (flowinfo scopeId : Vector UInt8 4),
      peer = .ipv6 addr uport flowinfo scopeId ∧ af = .inet6
        ∧ src = addr.toList := by
  cases peer with
  | error => cases h
  | other name h4 h6 => cases h
  | ipv4 addr port =>
      cases h
      exact Or.inl ⟨addr, rfl, rfl, rfl⟩
  | ipv6 addr port flowinfo scopeId =>
      cases h
      exact Or.inr ⟨addr, flowinfo, scopeId, rfl, rfl, rfl⟩

theorem noAddress_cases {peer : PeerOutcome} (h : peer.address = none) :
    peer = .error ∨ ∃ name h4 h6, peer = .other name h4 h6 := by
  cases peer with
  | error => exact Or.inl rfl
  | other name h4 h6 => exact Or.inr ⟨name, h4, h6, rfl⟩
  | ipv4 addr port => cases h
  | ipv6 addr port flowinfo scopeId => cases h

theorem length_address {peer : PeerOutcome} {af : Family} {src : List UInt8}
    {uport : UInt16} (h : peer.address = some (af, src, uport)) :
    src.length = af.addrSize := by
  rcases address_cases h with ⟨addr, -, rfl, rfl⟩ | ⟨addr, -, -, -, rfl, rfl⟩
  · exact Vector.length_toList ..
  · exact Vector.length_toList ..

/-! ## What `getpeername` leaves -/

theorem ntohs_netShort (port : UInt16) :
    ntohs (loadShort (netShort port)) = port.toNat := by
  have hport := port.toNat_lt
  have hhi : port.toNat / 256 % 2 ^ 8 = port.toNat / 256 := by omega
  have hlo : port.toNat % 256 % 2 ^ 8 = port.toNat % 256 := by omega
  simp only [ntohs, loadShort, netShort, List.getD_cons_zero,
    List.getD_cons_succ, UInt8.toNat_ofNat', hhi, hlo]
  omega

/-- A field between others. -/
theorem slice_field (pre : List UInt8) {field info : List UInt8} {off len : Nat}
    (h : pre ++ field <+: info) (hoff : pre.length = off)
    (hlen : field.length = len) : slice info off len = field := by
  obtain ⟨post, rfl⟩ := h
  rw [← hoff, ← hlen]
  simp [slice]

/-- The address in the structure of the family. -/
def addrField : Family → List UInt8 → List UInt8
  | .inet => sinAddr
  | .inet6 => sin6Addr

/-- **READING BACK**: the size of a name tells its family, and its fields are the
    port and the address of the peer. -/
theorem name_reads_back {peer : PeerOutcome} {af : Family} {src : List UInt8}
    {uport : UInt16} (h : peer.address = some (af, src, uport)) :
    ∃ name, peer.name = some name ∧ name.length = sockaddrSize af
      ∧ ∀ info, name <+: info → ntohs (sinPort info) = uport.toNat
        ∧ addrField af info = src := by
  -- family and port stand at the same place in both structures
  have hport : ∀ {family rest info : List UInt8}, family.length = 2 →
      family ++ netShort uport ++ rest <+: info →
      ntohs (sinPort info) = uport.toNat := by
    intro family rest info hfamily hname
    have hslice : slice info 2 2 = netShort uport :=
      slice_field family ((List.prefix_append _ _).trans hname) hfamily rfl
    rw [sinPort, hslice, ntohs_netShort]
  rcases address_cases h with ⟨addr, rfl, rfl, rfl⟩
    | ⟨addr, flowinfo, scopeId, rfl, rfl, rfl⟩
  · refine ⟨_, rfl, ?_, fun info hname => ⟨?_, ?_⟩⟩
    · simp [netShort, sockaddrSize, sizeofIPv4]
    · rw [List.append_assoc] at hname
      exact hport rfl hname
    · exact slice_field ([2, 0] ++ netShort uport)
        ((List.prefix_append _ _).trans hname) rfl (Vector.length_toList ..)
  · refine ⟨_, rfl, ?_, fun info hname => ⟨?_, ?_⟩⟩
    · simp [netShort, sockaddrSize, sizeofIPv6]
    · rw [List.append_assoc, List.append_assoc] at hname
      exact hport rfl hname
    · exact slice_field ([10, 0] ++ netShort uport ++ flowinfo.toList)
        ((List.prefix_append _ _).trans hname) (by simp [netShort])
        (Vector.length_toList ..)

@[simp] theorem askPeer_addr (l : Ledger) (x : Answers) (port : Int) :
    (askPeer l x port).addr = (mallocBlock l x.addr).1 := by
  rw [askPeer, getpeername]
  split <;> rfl

@[simp] theorem askPeer_port (l : Ledger) (x : Answers) (port : Int) :
    (askPeer l x port).port = port := by
  rw [askPeer, getpeername]
  split <;> rfl

theorem askPeer_error (l : Ledger) {x : Answers} (port : Int)
    (h : x.peer.name = none) : (askPeer l x port).ret = -1 := by
  rw [askPeer, getpeername, h]

/-- The name is at the start of the block when it has room. -/
theorem askPeer_name (l : Ledger) {x : Answers} (port : Int)
    {name : List UInt8} (h : x.peer.name = some name) :
    (askPeer l x port).ret = 0 ∧ (askPeer l x port).addrSize = name.length
      ∧ (name.length ≤ maxSize → name <+: (askPeer l x port).info) := by
  rw [askPeer, getpeername, h]
  refine ⟨rfl, rfl, fun hroom => ?_⟩
  cases hinfo : x.addrInfo with
  | none =>
      rw [x.fault hinfo] at h
      cases h
  | some mem =>
      show name <+: overwrite mem.toList 0 (name.take maxSize)
      rw [List.take_of_length_le hroom, overwrite, List.take_zero,
        List.nil_append]
      exact List.prefix_append ..

/-! ## The exits -/

/-- Without an address the call returns `-1`. -/
theorem getAddrAndPort_noAddress (l : Ledger) {x : Answers} (port : Int)
    (h : x.peer.address = none) :
    getAddrAndPort l x port
      = some (errorHandle { askPeer l x port with ret := -1 }) := by
  rw [getAddrAndPort]
  rcases noAddress_cases h with hpeer | ⟨name, h4, h6, hpeer⟩
  · have hname : x.peer.name = none := by rw [hpeer]; rfl
    have hret := askPeer_error l port hname
    rw [if_pos (by rw [hret]; decide), errorHandle, hret]
    rfl
  · have hname : x.peer.name = some name := by rw [hpeer]; rfl
    obtain ⟨hret, hsize, -⟩ := askPeer_name l port hname
    rw [← hsize] at h4 h6
    rw [if_neg (by rw [hret]; decide), if_neg (Ne.symm h6), if_neg (Ne.symm h4)]

/-- With an address the call comes to the conversion for its family, and the
    limit is the size of the name. -/
theorem getAddrAndPort_address (l : Ledger) {x : Answers} (port : Int)
    {af : Family} {src : List UInt8} {uport : UInt16}
    (h : x.peer.address = some (af, src, uport)) :
    getAddrAndPort l x port = parseAs (askPeer l x port) af src uport.toNat
      ∧ (askPeer l x port).ret = 0
      ∧ (askPeer l x port).addrSize = sockaddrSize af := by
  obtain ⟨name, hname, hlen, hfields⟩ := name_reads_back h
  obtain ⟨hret, hsize, hinfo⟩ := askPeer_name l port hname
  rw [hlen] at hsize hinfo
  obtain ⟨hport, haddr⟩ := hfields _ (hinfo (by cases af <;> decide))
  refine ⟨?_, hret, hsize⟩
  rw [getAddrAndPort, if_neg (by rw [hret]; decide), hsize, hport, ← haddr]
  cases af with
  | inet =>
      rw [if_neg (by decide)]
      exact if_pos rfl
  | inet6 => exact if_pos rfl

theorem parseAs_stored {c : Call} {block : Block} (hc : c.addr = some block)
    {af : Family} {src : List UInt8} (uport : Nat)
    (h : (addressText af src).length + 1 ≤ c.addrSize)
    (hroom : c.addrSize ≤ block.mem.length) :
    ∃ mem, parseAs c af src uport = some ⟨0, some mem, uport, c.ledger⟩
      ∧ cstr mem = addressText af src ∧ mem.length = block.mem.length := by
  obtain ⟨mem, hstored, htext, hlen⟩ := inetNtop_stored h hroom
  refine ⟨mem, ?_, htext, hlen⟩
  rw [parseAs, hc, Option.map_some, hstored]

theorem parseAs_failed {c : Call} {block : Block} (hc : c.addr = some block)
    {af : Family} {src : List UInt8} (uport : Nat)
    (h : (addressText af src).length + 1 > c.addrSize) :
    parseAs c af src uport = some (errorHandle c) := by
  rw [parseAs, hc, Option.map_some, inetNtop_eq_none.mpr h]

section Address

variable (l : Ledger) {x : Answers} (port : Int) {af : Family}
  {src : List UInt8} {uport : UInt16}

/-- Without a block for the text the conversion writes to a null pointer. -/
theorem getAddrAndPort_null (h : x.peer.address = some (af, src, uport))
    (haddr : x.addr = none) : getAddrAndPort l x port = none := by
  obtain ⟨hrun, -, -⟩ := getAddrAndPort_address l port h
  rw [hrun, parseAs, askPeer_addr, haddr]
  rfl

/-- A text within the limit is stored, inside the block. -/
theorem getAddrAndPort_fits (h : x.peer.address = some (af, src, uport))
    (haddr : x.addr.isSome)
    (hfits : (addressText af src).length + 1 ≤ sockaddrSize af) :
    ∃ mem, getAddrAndPort l x port
        = some ⟨0, some mem, uport.toNat, (askPeer l x port).ledger⟩
      ∧ cstr mem = addressText af src
      ∧ mem.length = Family.inet6.addrstrlen := by
  obtain ⟨hrun, -, hsize⟩ := getAddrAndPort_address l port h
  obtain ⟨block, hblock⟩ := Option.isSome_iff_exists.mp haddr
  have hc := askPeer_addr l x port
  rw [hblock] at hc
  obtain ⟨mem, hstored, htext, hlen⟩ := parseAs_stored hc uport.toNat
    (by rw [hsize]; exact hfits) (by
      rw [hsize, Vector.length_toList]
      cases af <;> decide)
  exact ⟨mem, hrun.trans hstored, htext, hlen.trans (Vector.length_toList ..)⟩

/-- A longer one is not, and the return value is that of `getpeername`. -/
theorem getAddrAndPort_long (h : x.peer.address = some (af, src, uport))
    (haddr : x.addr.isSome)
    (hlong : sockaddrSize af < (addressText af src).length + 1) :
    getAddrAndPort l x port = some (errorHandle (askPeer l x port))
      ∧ (errorHandle (askPeer l x port)).ret = 0 := by
  obtain ⟨hrun, hret, hsize⟩ := getAddrAndPort_address l port h
  obtain ⟨block, hblock⟩ := Option.isSome_iff_exists.mp haddr
  have hc := askPeer_addr l x port
  rw [hblock] at hc
  refine ⟨?_, hret⟩
  rw [hrun]
  exact parseAs_failed hc uport.toNat (by rw [hsize]; exact hlong)

end Address

/-! ## Faithful reports -/

/-- A string pointer to a text. -/
def PointsTo (addr : Option (List UInt8)) (text : List UInt8) : Prop :=
  ∃ mem, addr = some mem ∧ cstr mem = text

/-- `*addr` is the textual address of the peer and `*port` its port. -/
def OutputsSet (peer : PeerOutcome) (out : AddrAndPort) : Prop :=
  ∃ af src uport, peer.address = some (af, src, uport)
    ∧ PointsTo out.addr (addressText af src) ∧ out.port = uport.toNat

/-- **WHAT THE CALL SHOULD REPORT**: success exactly with the outputs set, a null
    pointer with every failure, and success for every peer that has an address. -/
structure ReportsFaithfully (peer : PeerOutcome) (out : AddrAndPort) : Prop where
  success : out.ret = 0 ↔ OutputsSet peer out
  failure : out.ret ≠ 0 → out.addr = none
  complete : peer.address.isSome → out.ret = 0 ∧ OutputsSet peer out

/-- The call returns, and reports faithfully. -/
def Reports (peer : PeerOutcome) (run : Option AddrAndPort) : Prop :=
  ∃ out, run = some out ∧ ReportsFaithfully peer out

/-- **WHEN IT DOES**: an address needs a block for its text, and an IPv6 text has
    at most 27 characters. -/
def Answers.Reportable (x : Answers) : Prop :=
  match x.peer with
  | .ipv4 _ _ => x.addr.isSome
  | .ipv6 addr _ _ _ => x.addr.isSome
      ∧ (addressText .inet6 addr.toList).length + 1 ≤ sizeofIPv6
  | _ => True

/-- Every IPv4 text is within the limit. -/
theorem reportable_iff {x : Answers} {af : Family} {src : List UInt8}
    {uport : UInt16} (h : x.peer.address = some (af, src, uport)) :
    x.Reportable ↔ x.addr.isSome
      ∧ (addressText af src).length + 1 ≤ sockaddrSize af := by
  have hlen := length_addressText (Nat.le_of_eq (length_address h).symm)
  rw [Answers.Reportable]
  rcases address_cases h with ⟨addr, hpeer, rfl, rfl⟩
    | ⟨addr, flowinfo, scopeId, hpeer, rfl, rfl⟩
  · rw [hpeer]
    exact ⟨fun haddr => ⟨haddr, hlen⟩, fun hboth => hboth.1⟩
  · rw [hpeer]
    exact Iff.rfl

theorem reportable_of_noAddress {x : Answers} (h : x.peer.address = none) :
    x.Reportable := by
  rw [Answers.Reportable]
  rcases noAddress_cases h with hpeer | ⟨name, h4, h6, hpeer⟩
  · rw [hpeer]
    trivial
  · rw [hpeer]
    trivial

theorem reports_noAddress {peer : PeerOutcome} (h : peer.address = none)
    {out : AddrAndPort} (hret : out.ret = -1) (haddr : out.addr = none) :
    ReportsFaithfully peer out where
  success := by
    constructor
    · intro hzero
      rw [hret] at hzero
      cases hzero
    · rintro ⟨af, src, uport, haddress, -, -⟩
      rw [h] at haddress
      cases haddress
  failure := fun _ => haddr
  complete := fun hsome => by
    rw [h] at hsome
    cases hsome

theorem reports_set {peer : PeerOutcome} {out : AddrAndPort}
    (hret : out.ret = 0) (hset : OutputsSet peer out) :
    ReportsFaithfully peer out where
  success := ⟨fun _ => hset, fun _ => hret⟩
  failure := fun hne => absurd hret hne
  complete := fun _ => ⟨hret, hset⟩

/-- Success with a null pointer is no faithful report. -/
theorem not_reports_null {peer : PeerOutcome} {out : AddrAndPort}
    (hret : out.ret = 0) (haddr : out.addr = none) :
    ¬ ReportsFaithfully peer out := by
  intro h
  obtain ⟨-, -, -, -, ⟨mem, hmem, -⟩, -⟩ := h.success.mp hret
  rw [haddr] at hmem
  cases hmem

/-- **FAITHFUL REPORTS, EXACTLY**: whatever the system answers, the call reports
    its peer faithfully if and only if the peer has no address, or there is a
    block for the text and, for IPv6, the text is within the limit. -/
theorem reports_iff (l : Ledger) (x : Answers) (port : Int) :
    Reports x.peer (getAddrAndPort l x port) ↔ x.Reportable := by
  cases haddress : x.peer.address with
  | none =>
      refine ⟨fun _ => reportable_of_noAddress haddress, fun _ => ?_⟩
      exact ⟨_, getAddrAndPort_noAddress l port haddress,
        reports_noAddress haddress rfl rfl⟩
  | some address =>
      obtain ⟨af, src, uport⟩ := address
      rw [reportable_iff haddress]
      constructor
      · rintro ⟨out, hrun, hout⟩
        cases haddr : x.addr with
        | none =>
            -- the conversion writes to a null pointer
            rw [getAddrAndPort_null l port haddress haddr] at hrun
            cases hrun
        | some block =>
            -- a long text is a success with a null pointer
            refine ⟨rfl, Nat.not_lt.mp fun hlong => ?_⟩
            obtain ⟨hexit, hret⟩ := getAddrAndPort_long l port haddress
              (by rw [haddr]; rfl) hlong
            rw [hexit] at hrun
            obtain rfl := Option.some.inj hrun
            exact not_reports_null hret rfl hout
      · rintro ⟨haddr, hfits⟩
        obtain ⟨mem, hexit, htext, -⟩ := getAddrAndPort_fits l port haddress
          haddr hfits
        exact ⟨_, hexit, reports_set rfl
          ⟨af, src, uport, haddress, ⟨mem, rfl, htext⟩, rfl⟩⟩

/-- A peer with the address `2001:db8:1111:2222:3333:4444:5555:6666`. -/
def longPeer : Answers where
  addr := some (Vector.replicate _ 0)
  addrInfo := some (Vector.replicate _ 0)
  peer := .ipv6 ⟨#[0x20, 0x01, 0x0d, 0xb8, 0x11, 0x11, 0x22, 0x22, 0x33, 0x33,
    0x44, 0x44, 0x55, 0x55, 0x66, 0x66], rfl⟩ 5000 (Vector.replicate _ 0)
    (Vector.replicate _ 0)
  fault := fun h => by cases h

/-- It is reported as a success without an address. -/
theorem longPeer_unreported :
    (∃ out, getAddrAndPort .empty longPeer 0 = some out ∧ out.ret = 0
      ∧ out.addr = none)
    ∧ ¬ Reports longPeer.peer (getAddrAndPort .empty longPeer 0) := by
  obtain ⟨hexit, hret⟩ := getAddrAndPort_long .empty (x := longPeer) 0 rfl rfl
    (by decide +kernel)
  refine ⟨⟨_, hexit, hret, rfl⟩, ?_⟩
  rintro ⟨out, hrun, hout⟩
  rw [hexit] at hrun
  obtain rfl := Option.some.inj hrun
  exact not_reports_null hret rfl hout

/-- **THE LIMIT THAT WOULD DO**: with the size of the block the conversion fails
    for no peer. -/
theorem converts_within_block {peer : PeerOutcome} {af : Family}
    {src : List UInt8} {uport : UInt16}
    (h : peer.address = some (af, src, uport)) (dst : List UInt8) :
    inetNtop af src dst Family.inet6.addrstrlen ≠ none := by
  have hlen := length_addressText (Nat.le_of_eq (length_address h).symm)
  have hblock : af.addrstrlen ≤ Family.inet6.addrstrlen := by
    cases af <;> decide
  rw [Ne, inetNtop_eq_none]
  omega

/-! ## The caller -/

/-- `C_TYPE_C`. -/
def cTypeC : Int := 1

/-- `PeerInfo`; `ip` is none for a null pointer. -/
structure PeerInfo where
  ip : Option (List UInt8)
  port : Int

/-- What `new_client_info` writes into `peer_info` of the zeroed block. -/
def newPeerInfo (l : Ledger) (x : Answers) (type : Int) :
    Option (PeerInfo × Ledger) :=
  if cTypeC = type then
    (getAddrAndPort l x 0).map fun out =>
      if (succ : Int) ≠ out.ret then (⟨none, -1⟩, out.ledger)
      else (⟨out.addr, out.port⟩, out.ledger)
  else some (⟨none, 0⟩, l)

/-- The record of a client tells its peer, or that the peer is unknown. -/
def RecordsPeer (peer : PeerOutcome) (info : PeerInfo) : Prop :=
  match peer.address with
  | none => info.ip = none ∧ info.port = -1
  | some (af, src, uport) =>
      PointsTo info.ip (addressText af src) ∧ info.port = uport.toNat

/-- A long address becomes a null pointer with port 0. -/
theorem newPeerInfo_long (l : Ledger) {x : Answers} {af : Family}
    {src : List UInt8} {uport : UInt16}
    (h : x.peer.address = some (af, src, uport)) (haddr : x.addr.isSome)
    (hlong : sockaddrSize af < (addressText af src).length + 1) :
    ∃ l', newPeerInfo l x cTypeC = some (⟨none, 0⟩, l') := by
  obtain ⟨hexit, hret⟩ := getAddrAndPort_long l 0 h haddr hlong
  refine ⟨(errorHandle (askPeer l x 0)).ledger, ?_⟩
  rw [newPeerInfo, if_pos rfl, hexit, Option.map_some, hret, if_neg (by decide)]
  simp [errorHandle]

/-- **THE RECORD OF A CLIENT, EXACTLY**: it tells the peer, or that the peer is
    unknown, if and only if the call reports the peer as it should. -/
theorem newPeerInfo_iff (l : Ledger) (x : Answers) :
    (∃ info l', newPeerInfo l x cTypeC = some (info, l')
      ∧ RecordsPeer x.peer info) ↔ x.Reportable := by
  cases haddress : x.peer.address with
  | none =>
      refine ⟨fun _ => reportable_of_noAddress haddress, fun _ => ?_⟩
      rw [newPeerInfo, if_pos rfl, getAddrAndPort_noAddress l 0 haddress]
      refine ⟨⟨none, -1⟩, _, rfl, ?_⟩
      rw [RecordsPeer, haddress]
      exact ⟨rfl, rfl⟩
  | some address =>
      obtain ⟨af, src, uport⟩ := address
      rw [reportable_iff haddress]
      constructor
      · rintro ⟨info, l', hrun, hrecords⟩
        rw [RecordsPeer, haddress] at hrecords
        obtain ⟨⟨mem, hmem, -⟩, -⟩ := hrecords
        cases haddr : x.addr with
        | none =>
            rw [newPeerInfo, if_pos rfl,
              getAddrAndPort_null l 0 haddress haddr] at hrun
            cases hrun
        | some block =>
            refine ⟨rfl, Nat.not_lt.mp fun hlong => ?_⟩
            obtain ⟨l'', hlost⟩ := newPeerInfo_long l haddress
              (by rw [haddr]; rfl) hlong
            rw [hlost] at hrun
            cases hrun
            cases hmem
      · rintro ⟨haddr, hfits⟩
        obtain ⟨mem, hexit, htext, -⟩ := getAddrAndPort_fits l 0 haddress
          haddr hfits
        rw [newPeerInfo, if_pos rfl, hexit]
        refine ⟨⟨some mem, uport.toNat⟩, _, rfl, ?_⟩
        rw [RecordsPeer, haddress]
        exact ⟨⟨mem, rfl, htext⟩, rfl⟩

/-! ## The two blocks -/

theorem ran_bracketBlock {l l' : Ledger} {n : Nat}
    (answer : Option (Vector UInt8 n)) {lost : List Nat}
    (h : Ran (mallocBlock l answer).2 l' lost) :
    Ran l (freeBlock l' (mallocBlock l answer).1) lost := by
  cases answer with
  | none => exact h
  | some mem => exact h.bracket

theorem askPeer_ledger (l : Ledger) (x : Answers) (port : Int) :
    (askPeer l x port).ledger
      = (mallocBlock (mallocBlock l x.addr).2 x.addrInfo).2 := by
  rw [askPeer, getpeername]
  split <;> rfl

/-- `getpeername` writes into a block, and does not move it. -/
theorem freeBlock_addrInfo (l l' : Ledger) (x : Answers) (port : Int) :
    freeBlock l' (askPeer l x port).addrInfo
      = freeBlock l' (mallocBlock (mallocBlock l x.addr).2 x.addrInfo).1 := by
  rw [askPeer, getpeername]
  split
  · rfl
  · cases x.addrInfo <;> rfl

theorem ran_errorHandle (l : Ledger) (x : Answers) (port ret : Int) :
    Ran l (errorHandle { askPeer l x port with ret := ret }).ledger [] := by
  show Ran l (freeBlock (freeBlock _ (askPeer l x port).addrInfo)
    (askPeer l x port).addr) []
  rw [freeBlock_addrInfo, askPeer_addr, askPeer_ledger]
  exact ran_bracketBlock x.addr (ran_bracketBlock x.addrInfo (Ran.refl _))

/-- **ONE BLOCK TOO MANY**: an exit through the handler releases both blocks; the
    other one leaves the text to the caller, and `addr_info` to nobody. -/
theorem ran_getAddrAndPort {l : Ledger} {x : Answers} {port : Int}
    {out : AddrAndPort} (h : getAddrAndPort l x port = some out) :
    (out.addr = none → Ran l out.ledger [])
      ∧ (out.addr.isSome → Ran l out.ledger [l.next + 1, l.next]) := by
  cases haddress : x.peer.address with
  | none =>
      rw [getAddrAndPort_noAddress l port haddress] at h
      obtain rfl := Option.some.inj h
      exact ⟨fun _ => ran_errorHandle l x port (-1), fun h => (by cases h)⟩
  | some address =>
      obtain ⟨af, src, uport⟩ := address
      cases haddr : x.addr with
      | none =>
          rw [getAddrAndPort_null l port haddress haddr] at h
          cases h
      | some block =>
          have hsome : x.addr.isSome := by rw [haddr]; rfl
          rcases Nat.lt_or_ge (sockaddrSize af) ((addressText af src).length + 1)
            with hlong | hfits
          · obtain ⟨hexit, -⟩ := getAddrAndPort_long l port haddress hsome hlong
            rw [hexit] at h
            obtain rfl := Option.some.inj h
            exact ⟨fun _ => ran_errorHandle l x port _, fun h => (by cases h)⟩
          · obtain ⟨mem, hexit, -, -⟩ := getAddrAndPort_fits l port haddress
              hsome hfits
            rw [hexit] at h
            obtain rfl := Option.some.inj h
            refine ⟨fun h => (by cases h), fun _ => ?_⟩
            cases hinfo : x.addrInfo with
            | none =>
                rw [x.fault hinfo] at haddress
                cases haddress
            | some mem' =>
                dsimp only
                rw [askPeer_ledger, haddr, hinfo]
                exact (ran_acquire l).trans (ran_acquire l.acquire.2)

end IMPeerAddress

import IMServer.AddressRead
import IMServer.Bytes
import IMServer.PeerAddress

/-! # The address of a socket — `net_util.c`

    `get_addr_info_from_ip_and_port` makes the name of a socket from the two
    arguments of the program.  The address is read with `inet_pton` and the port
    with `atoi`; `htons` takes what is left of it modulo `2 ^ 16`. -/

namespace IMSocketAddress

open IMBytes IMCString IMMachineInt IMAddressText IMAddressRead IMBlockLedger
  IMClientInfo IMPeerAddress

/-! ## `atoi` -/

/-- `isspace`. -/
def isSpace (ch : UInt8) : Bool := ch = 32 ∨ 9 ≤ ch ∧ ch ≤ 13

/-- The number the text begins with. -/
def decimalValue : List UInt8 → Nat → Nat
  | [], n => n
  | ch :: text, n =>
      match digitValue 10 ch with
      | some d => decimalValue text (n * 10 + d)
      | none => n

/-- `strtol` in base 10: a `long`, the nearest one when the number is none. -/
def strtol (text : List UInt8) : Int :=
  let value : Int := match (cstr text).dropWhile isSpace with
    | 45 :: text => -(decimalValue text 0 : Nat)
    | 43 :: text => (decimalValue text 0 : Nat)
    | text => (decimalValue text 0 : Nat)
  max (-2 ^ 63) (min value (2 ^ 63 - 1))

/-- `atoi`: the conversion to `int` cuts it off. -/
def atoi (text : List UInt8) : Int := cInt (strtol text)

/-! ## `get_addr_info_from_ip_and_port` -/

/-- `ANY_HOST`. -/
def anyHost : List UInt8 := ascii "*"

/-- `htonl(INADDR_ANY)`, as it lies in memory. -/
def inaddrAny : List UInt8 := [0, 0, 0, 0]

/-- What a call leaves: the return value, `*addr` and `*size`; none for what is
    not written. -/
structure AddrInfo where
  ret : Int
  addr : Option (List UInt8)
  size : Option Nat
  deriving DecidableEq

/-- The port in a name: the argument of `htons` is a `uint16_t`. -/
def sinPortBytes (porti : Int) : List UInt8 :=
  netShort (UInt16.ofNat (porti % 2 ^ 16).toNat)

/-- `get_addr_info_from_ip_and_port`; the result of `malloc` is not tested, and
    `bzero` has none for a null pointer. -/
def getAddrInfoFromIpAndPort (mallocOk : Bool) (ip port : List UInt8) :
    Option AddrInfo :=
  let porti := atoi port
  if porti ≤ 0 then some ⟨-1, none, none⟩
  else
    let addr4 := inetPton .inet (cstr ip)
    if strcmp anyHost ip = 0 ∨ addr4.isSome then
      if mallocOk then
        let ipv4 : List UInt8 := List.replicate sizeofIPv4 0
        let ipv4 := overwrite ipv4 4
          (if strcmp anyHost ip = 0 then inaddrAny else addr4.getD [])
        let ipv4 := overwrite ipv4 2 (sinPortBytes porti)
        let ipv4 := overwrite ipv4 0 [2, 0]
        some ⟨succ, some ipv4, some sizeofIPv4⟩
      else none
    else
      match inetPton .inet6 (cstr ip) with
      | some addr6 =>
          if mallocOk then
            let ipv6 : List UInt8 := List.replicate sizeofIPv6 0
            let ipv6 := overwrite ipv6 8 addr6
            let ipv6 := overwrite ipv6 2 (sinPortBytes porti)
            let ipv6 := overwrite ipv6 0 [10, 0]
            some ⟨succ, some ipv6, some sizeofIPv6⟩
          else none
      | none => some ⟨-1, none, none⟩

/-! ## Names that are made -/

/-- The peer at an address: no flow information and no scope. -/
def peerAt : Family → List UInt8 → UInt16 → PeerOutcome
  | .inet, src, uport =>
      if h : src.length = 4 then .ipv4 ⟨src.toArray, h⟩ uport else .error
  | .inet6, src, uport =>
      if h : src.length = 16 then
        .ipv6 ⟨src.toArray, h⟩ uport (Vector.replicate 4 0) (Vector.replicate 4 0)
      else .error

theorem peerAt_address {af : Family} {src : List UInt8} (h : src.length = af.addrSize)
    (uport : UInt16) : (peerAt af src uport).address = some (af, src, uport) := by
  cases af with
  | inet =>
      rw [peerAt, dif_pos (show src.length = 4 from h)]
      rfl
  | inet6 =>
      rw [peerAt, dif_pos (show src.length = 16 from h)]
      rfl

/-- The first store into the zeroed block. -/
theorem overwrite_zeros {src : List UInt8} {n off : Nat} (h : off + src.length ≤ n) :
    overwrite (List.replicate n (0 : UInt8)) off src
      = List.replicate off 0 ++ src ++ List.replicate (n - off - src.length) 0 := by
  have hsplit : overwrite (List.replicate off (0 : UInt8) ++ List.replicate (n - off) 0)
      (List.replicate off (0 : UInt8)).length src = _ :=
    overwrite_append_replicate (by omega)
  rw [← List.replicate_add, Nat.add_sub_cancel' (by omega), List.length_replicate]
    at hsplit
  exact hsplit

/-- The stores make the name of the peer, IPv4. -/
theorem name_inet {src : List UInt8} (h : src.length = 4) (uport : UInt16) :
    (peerAt .inet src uport).name
      = some (overwrite (overwrite (overwrite (List.replicate sizeofIPv4 0) 4 src) 2
          (netShort uport)) 0 [2, 0]) := by
  rw [peerAt, dif_pos h, PeerOutcome.name, overwrite_zeros (by rw [h]; decide), h]
  rfl

/-- The same, IPv6. -/
theorem name_inet6 {src : List UInt8} (h : src.length = 16) (uport : UInt16) :
    (peerAt .inet6 src uport).name
      = some (overwrite (overwrite (overwrite (List.replicate sizeofIPv6 0) 8 src) 2
          (netShort uport)) 0 [10, 0]) := by
  rw [peerAt, dif_pos h, PeerOutcome.name, overwrite_zeros (by rw [h]; decide), h]
  rfl

/-- What the text of an address says. -/
def readIp (ip : List UInt8) : Option (Family × List UInt8) :=
  if strcmp anyHost ip = 0 then some (.inet, inaddrAny)
  else
    match inetPton .inet (cstr ip) with
    | some addr4 => some (.inet, addr4)
    | none => (inetPton .inet6 (cstr ip)).map fun addr6 => (.inet6, addr6)

/-- The port of a name that is made. -/
def portOf (porti : Int) : UInt16 := UInt16.ofNat (porti % 2 ^ 16).toNat

theorem readIp_length {ip : List UInt8} {af : Family} {src : List UInt8}
    (h : readIp ip = some (af, src)) : src.length = af.addrSize := by
  rw [readIp] at h
  split at h
  · cases h
    rfl
  · split at h
    · next addr4 h4 =>
        cases h
        exact length_inetPton h4
    · obtain ⟨addr6, h6, he⟩ := Option.map_eq_some_iff.mp h
      cases he
      exact length_inetPton h6

/-- The branch that was not taken. -/
theorem ite_some_eq_none {α : Type} {c : Prop} [Decidable c] {a : α} {b : Option α}
    (h : (if c then some a else b) = none) : ¬ c ∧ b = none := by
  split at h
  · cases h
  · next hc => exact ⟨hc, h⟩

section Exits

variable {mallocOk : Bool} {ip port : List UInt8}

/-- No port, or no address. -/
theorem getAddrInfo_refused (h : atoi port ≤ 0 ∨ readIp ip = none) :
    getAddrInfoFromIpAndPort mallocOk ip port = some ⟨-1, none, none⟩ := by
  rw [getAddrInfoFromIpAndPort]
  by_cases hport : atoi port ≤ 0
  · exact if_pos hport
  · have hip := h.resolve_left hport
    rw [if_neg hport]
    rw [readIp] at hip
    obtain ⟨hany, hip⟩ := ite_some_eq_none hip
    cases h4 : inetPton .inet (cstr ip) with
    | some addr4 =>
        rw [h4] at hip
        cases hip
    | none =>
        rw [h4] at hip
        have h6 := Option.map_eq_none_iff.mp hip
        rw [if_neg (fun h => h.elim hany fun hs => (by cases hs)), h6]

/-- **THE NAME THAT IS MADE** is that of a peer at the address, and its port is
    what 16 bits hold of the number. -/
theorem getAddrInfo_made {af : Family} {src : List UInt8} (hport : 0 < atoi port)
    (hip : readIp ip = some (af, src)) :
    getAddrInfoFromIpAndPort true ip port
      = some ⟨succ, (peerAt af src (portOf (atoi port))).name, some (sockaddrSize af)⟩ := by
  have hlen := readIp_length hip
  rw [getAddrInfoFromIpAndPort, if_neg (Int.not_le.mpr hport)]
  rw [readIp] at hip
  by_cases hany : strcmp anyHost ip = 0
  · rw [if_pos hany] at hip
    cases hip
    rw [if_pos (Or.inl hany), if_pos rfl, if_pos hany, name_inet hlen]
    rfl
  · rw [if_neg hany] at hip
    cases h4 : inetPton .inet (cstr ip) with
    | some addr4 =>
        rw [h4] at hip
        cases hip
        rw [if_pos (Or.inr Option.isSome_some), if_pos rfl, if_neg hany, name_inet hlen]
        rfl
    | none =>
        rw [h4] at hip
        obtain ⟨addr6, h6, he⟩ := Option.map_eq_some_iff.mp hip
        cases he
        dsimp only
        rw [if_neg (fun h => h.elim hany fun hs => (by cases hs)), h6, name_inet6 hlen]
        rfl

end Exits

/-! ## Ports -/

theorem isSpace_digit {ch : UInt8} {d : Nat} (h : digitValue 10 ch = some d) :
    isSpace ch = false ∧ ch ≠ 45 ∧ ch ≠ 43 := by
  obtain ⟨h48, h57⟩ := digitValue_ten h
  have hn := UInt8.le_iff_toNat_le.mp h48
  rw [show (48 : UInt8).toNat = 48 from rfl] at hn
  refine ⟨decide_eq_false ?_, ?_, ?_⟩
  · rintro (rfl | ⟨-, h13⟩)
    · exact absurd hn (by decide)
    · have := UInt8.le_iff_toNat_le.mp h13
      rw [show (13 : UInt8).toNat = 13 from rfl] at this
      omega
  · rintro rfl
    exact absurd hn (by decide)
  · rintro rfl
    exact absurd hn (by decide)

/-- A printed number is read back. -/
theorem decimalValue_digits (n : Nat) : decimalValue (digits 10 n) 0 = n := by
  have hread : ∀ (n : Nat) (text : List UInt8),
      decimalValue (digits 10 n ++ text) 0 = decimalValue text n := by
    intro n
    induction n using Nat.strongRecOn with
    | _ n ih =>
        intro text
        have hd := digitValue_digitChar (Nat.mod_lt n (by decide : 10 > 0)) (by decide)
        rw [digits_eq (by decide)]
        split
        · next hlt =>
            rw [Nat.mod_eq_of_lt hlt] at hd ⊢
            rw [List.nil_append, List.singleton_append, decimalValue, hd]
            dsimp only
            rw [Nat.zero_mul, Nat.zero_add]
        · next hge =>
            rw [List.append_assoc, ih (n / 10) (by omega), List.singleton_append,
              decimalValue, hd]
            dsimp only
            rw [show n / 10 * 10 + n % 10 = n by omega]
  have h := hread n []
  rw [List.append_nil] at h
  exact h

/-- `strtol` of a printed number. -/
theorem strtol_digits (n : Nat) (after : List UInt8) :
    strtol (digits 10 n ++ 0 :: after) = min (n : Int) (2 ^ 63 - 1) := by
  have hc : cstr (digits 10 n ++ 0 :: after) = digits 10 n :=
    cstr_append_zero (zero_notMem_digits (by decide) n) after
  obtain ⟨ch, chs, hch⟩ := List.exists_cons_of_ne_nil
    (digits_ne_nil (by decide : 1 < 10) n)
  obtain ⟨d, hd⟩ := Option.isSome_iff_exists.mp (digitValue_isSome (n := n)
    (by decide : 1 < 10) (by decide) ch (hch ▸ List.mem_cons_self ..))
  obtain ⟨hspace, hminus, hplus⟩ := isSpace_digit hd
  have hvalue := decimalValue_digits n
  rw [strtol, hc, hch, List.dropWhile_cons_of_neg (by rw [hspace]; decide)]
  rw [hch] at hvalue
  split
  · next h => exact absurd (List.cons.inj h).1 hminus
  · next h => exact absurd (List.cons.inj h).1 hplus
  · rw [hvalue]
    omega

/-- What 16 bits hold of an accepted number: the conversions to `long` and `int`
    do not change it, since the largest `long` is `-1` as an `int`. -/
theorem portOf_digits {n : Nat} {after : List UInt8}
    (h : 0 < atoi (digits 10 n ++ 0 :: after)) :
    (portOf (atoi (digits 10 n ++ 0 :: after))).toNat = n % 2 ^ 16 := by
  rw [atoi, strtol_digits, cInt_eq] at h ⊢
  rw [portOf, UInt16.toNat_ofNat']
  omega

theorem sinPort_made {af : Family} {src : List UInt8} (h : src.length = af.addrSize)
    {uport : UInt16} {name : List UInt8} (hname : (peerAt af src uport).name = some name) :
    ntohs (sinPort name) = uport.toNat := by
  obtain ⟨name', hname', -, hfields⟩ := name_reads_back (peerAt_address h uport)
  rw [hname] at hname'
  obtain rfl := Option.some.inj hname'
  exact (hfields name (List.prefix_refl name)).1

/-- **PORTS, EXACTLY**: for an address that is accepted, a name with the port that
    was typed is made if and only if the number is from 1 to 65535.  Most larger
    numbers are accepted too, as another port. -/
theorem port_kept_iff {ip : List UInt8} {af : Family} {src : List UInt8}
    (hip : readIp ip = some (af, src)) (n : Nat) (after : List UInt8) :
    (∃ name, getAddrInfoFromIpAndPort true ip (digits 10 n ++ 0 :: after)
        = some ⟨succ, some name, some (sockaddrSize af)⟩ ∧ ntohs (sinPort name) = n)
      ↔ 1 ≤ n ∧ n < 2 ^ 16 := by
  have hlen := readIp_length hip
  constructor
  · rintro ⟨name, hrun, hport⟩
    by_cases hpos : 0 < atoi (digits 10 n ++ 0 :: after)
    · rw [getAddrInfo_made hpos hip] at hrun
      have hname := congrArg AddrInfo.addr (Option.some.inj hrun)
      rw [sinPort_made hlen hname, portOf_digits hpos] at hport
      rw [atoi, strtol_digits, cInt_eq] at hpos
      omega
    · rw [getAddrInfo_refused (Or.inl (Int.not_lt.mp hpos))] at hrun
      cases hrun
  · rintro ⟨h1, h16⟩
    have hpos : 0 < atoi (digits 10 n ++ 0 :: after) := by
      rw [atoi, strtol_digits, cInt_eq]
      omega
    obtain ⟨name, hname, -⟩ := name_reads_back
      (peerAt_address hlen (portOf (atoi (digits 10 n ++ 0 :: after))))
    refine ⟨name, ?_, ?_⟩
    · rw [getAddrInfo_made hpos hip, hname]
    · rw [sinPort_made hlen hname, portOf_digits hpos]
      omega

/-- Every address, and the number 65979: the server listens at port 443. -/
theorem port_kept_iff_https :
    (∃ name, getAddrInfoFromIpAndPort true (ascii "*") (digits 10 65979 ++ [0])
        = some ⟨succ, some name, some sizeofIPv4⟩ ∧ ntohs (sinPort name) = 443)
      ∧ ¬ ∃ name, getAddrInfoFromIpAndPort true (ascii "*") (digits 10 65979 ++ [0])
        = some ⟨succ, some name, some sizeofIPv4⟩ ∧ ntohs (sinPort name) = 65979 := by
  have hip : readIp (ascii "*") = some (.inet, inaddrAny) := by decide
  refine ⟨⟨[2, 0, 1, 187] ++ List.replicate 12 0, by decide +kernel, by decide⟩, ?_⟩
  intro h
  exact absurd ((port_kept_iff hip 65979 []).mp h).2 (by decide)

/-! ## Addresses -/

/-- The text of an address says the address. -/
theorem readIp_addressText {af : Family} {src ip : List UInt8}
    (h : src.length = af.addrSize) (hip : cstr ip = addressText af src) :
    readIp ip = some (af, src) := by
  have hread := inetPton_addressText h
  have hany : strcmp anyHost ip ≠ 0 := by
    intro he
    have htext := strcmp_eq_zero.mp he
    rw [hip] at htext
    rw [← htext] at hread
    have hnone : ∀ af, inetPton af (cstr anyHost) = none := by
      intro af
      cases af with
      | inet => decide
      | inet6 => decide
    rw [hnone] at hread
    cases hread
  rw [readIp, if_neg hany, hip]
  cases af with
  | inet => rw [hread]
  | inet6 =>
      cases h4 : inetPton .inet (addressText .inet6 src) with
      | some addr4 =>
          rw [inetPton_disjoint h4] at hread
          cases hread
      | none =>
          dsimp only
          rw [hread]
          rfl

/-- **READING BACK WHAT IS REPORTED**: the address and the port that
    `get_addr_and_port` stores for a peer are read as the name of a peer at the
    same address and port. -/
theorem reported_reads_back {l : Ledger} {x : Answers} {port : Int}
    {out : AddrAndPort} {mem : List UInt8} (hrun : getAddrAndPort l x port = some out)
    (haddr : out.addr = some mem) (hport : out.port ≠ 0) (after : List UInt8) :
    ∃ af src uport, x.peer.address = some (af, src, uport)
      ∧ getAddrInfoFromIpAndPort true mem (digits 10 out.port.toNat ++ 0 :: after)
        = some ⟨succ, (peerAt af src uport).name, some (sockaddrSize af)⟩ := by
  cases haddress : x.peer.address with
  | none =>
      rw [getAddrAndPort_noAddress l port haddress] at hrun
      obtain rfl := Option.some.inj hrun
      cases haddr
  | some address =>
      obtain ⟨af, src, uport⟩ := address
      cases hblock : x.addr with
      | none =>
          rw [getAddrAndPort_null l port haddress hblock] at hrun
          cases hrun
      | some block =>
          have hsome : x.addr.isSome := by rw [hblock]; rfl
          rcases Nat.lt_or_ge (sockaddrSize af) ((addressText af src).length + 1)
            with hlong | hfits
          · rw [(getAddrAndPort_long l port haddress hsome hlong).1] at hrun
            obtain rfl := Option.some.inj hrun
            cases haddr
          · obtain ⟨mem', hexit, htext, -⟩ := getAddrAndPort_fits l port haddress
              hsome hfits
            rw [hexit] at hrun
            obtain rfl := Option.some.inj hrun
            obtain rfl := Option.some.inj haddr
            refine ⟨af, src, uport, rfl, ?_⟩
            have hlt := uport.toNat_lt
            have hpos : 0 < atoi (digits 10 uport.toNat ++ 0 :: after) := by
              rw [atoi, strtol_digits, cInt_eq]
              dsimp only at hport
              omega
            have hsame : portOf (atoi (digits 10 uport.toNat ++ 0 :: after)) = uport := by
              refine UInt16.toNat.inj ?_
              rw [portOf_digits hpos]
              omega
            have hip := readIp_addressText (length_address haddress) htext
            dsimp only
            rw [Int.toNat_natCast, getAddrInfo_made hpos hip, hsame]

/-- A peer with the address `2001:db8::1`. -/
def shortPeer : Answers where
  addr := some (Vector.replicate _ 0)
  addrInfo := some (Vector.replicate _ 0)
  peer := .ipv6 ⟨#[0x20, 0x01, 0x0d, 0xb8, 0, 0, 0, 0, 0, 0, 0, 0, 0, 0, 0, 1], rfl⟩ 5000
    (Vector.replicate _ 0) (Vector.replicate _ 0)
  fault := fun h => (by cases h)

/-- It is reported, and what is reported is its name again. -/
theorem reported_reads_back_shortPeer :
    ∃ out mem name, getAddrAndPort .empty shortPeer 0 = some out ∧ out.addr = some mem
      ∧ shortPeer.peer.name = some name
      ∧ getAddrInfoFromIpAndPort true mem (digits 10 out.port.toNat ++ [0])
        = some ⟨succ, some name, some sizeofIPv6⟩ := by
  have haddress : shortPeer.peer.address
      = some (.inet6, [0x20, 0x01, 0x0d, 0xb8, 0, 0, 0, 0, 0, 0, 0, 0, 0, 0, 0, 1], 5000) :=
    rfl
  obtain ⟨mem, hrun, -⟩ := getAddrAndPort_fits .empty 0 haddress rfl (by decide +kernel)
  have hport : ((5000 : UInt16).toNat : Int) ≠ 0 := by decide
  obtain ⟨af, src, uport, hpeer, hmade⟩ := reported_reads_back hrun rfl hport []
  rw [haddress] at hpeer
  cases hpeer
  exact ⟨_, mem, _, hrun, rfl, rfl, hmade⟩

end IMSocketAddress

import IMServer.PeerAddress
import IMServer.Transition

/-! # The blocks of the connections — `client_info.c`, `IMServer.c`

    A connection has five blocks: the data of the client, the text of its address,
    two buffers and the node of the client list.  `new_client_info` makes the
    first four of them and its error labels are to give them back;
    `release_client_info` and `user_logout` release them at the end.  The blocks
    behind the buffers' nodes are those of `buffer.c` and are not counted here. -/

namespace IMLifecycle

open IMBlockLedger IMAddressText IMPeerAddress IMClientInfo IMTransition

/-! ## `client_info.c` -/

/-- The answers of the system in one call of `new_client_info`: whether the block
    of the client and those of the two buffers are there, what
    `get_addr_and_port` meets, and the values of `pthread_spin_init`. -/
structure NewEnv where
  data : Bool
  peer : Answers
  readingBuffer : Bool
  writingBuffer : Bool
  readingLock : Int
  writingLock : Int

/-- `ClientData`: its own block and the blocks it points to; `ip` is none for a
    null pointer. -/
structure ClientData where
  data : Nat
  ip : Option Nat
  readingBuffer : Nat
  writingBuffer : Nat

/-- What C leaves undefined. -/
inductive Fault where
  | nullWrite
  | readsFreed
  deriving DecidableEq

/-- Behind `error_with_data`: the block is released, and the condition of the next
    statement reads it.  The label `error_with_buffer` is never jumped to. -/
def errorWithData : Except Fault (Option ClientData × Ledger) :=
  .error .readsFreed

/-- `new_client_info`; there is no client for a null pointer. -/
def newClientInfo (l : Ledger) (env : NewEnv) (type : Int) :
    Except Fault (Option ClientData × Ledger) :=
  if env.data then
    let data := l.acquire
    match newPeerInfo data.2 env.peer type with
    | none => .error .nullWrite
    | some (peer, l) =>
        -- the text is in the first block that `get_addr_and_port` allocates
        let ip := peer.ip.map fun _ => data.2.next
        if env.readingBuffer then
          let reading := l.acquire
          if env.writingBuffer then
            let writing := reading.2.acquire
            if (succ : Int) ≠ env.readingLock then errorWithData
            else if (succ : Int) ≠ env.writingLock then errorWithData
            else .ok (some ⟨data.1, ip, reading.1, writing.1⟩, writing.2)
          else errorWithData
        else errorWithData
  else .ok (none, l)

/-- `release_client_info`. -/
def releaseClientInfo (l : Ledger) (c : ClientData) : Ledger :=
  let l := (l.release c.readingBuffer).release c.writingBuffer
  let l := match c.ip with
    | none => l
    | some ip => l.release ip
  l.release c.data

/-! ## `IMServer.c` -/

/-- `C_TYPE_S`. -/
def cTypeS : Int := 2

/-- The answers in `init_server_info`: for its client, whether the block is there,
    and the values of `pthread_mutex_init` and `pthread_cond_init`. -/
structure ServerEnv where
  info : NewEnv
  server : Bool
  lock : Int
  conToFlush : Int

/-- `ServerInfo`: its own block and its client. -/
structure ServerInfo where
  server : Nat
  info : ClientData

/-- `init_server_info`. -/
def initServerInfo (l : Ledger) (env : ServerEnv) :
    Except Fault (Option ServerInfo × Ledger) :=
  match newClientInfo l env.info cTypeS with
  | .error fault => .error fault
  | .ok (none, l) => .ok (none, l)
  | .ok (some info, l) =>
      if env.server then
        let server := l.acquire
        if (succ : Int) ≠ env.lock then
          .ok (none, releaseClientInfo (server.2.release server.1) info)
        else if (succ : Int) ≠ env.conToFlush then
          .ok (none, releaseClientInfo (server.2.release server.1) info)
        else .ok (some ⟨server.1, info⟩, server.2)
      else .ok (none, releaseClientInfo l info)

/-- `release_server_info`. -/
def releaseServerInfo (l : Ledger) (s : ServerInfo) : Ledger :=
  (releaseClientInfo l s.info).release s.server

/-- A client of the list: its descriptor, its data, and the block of its
    `ClientNode`. -/
structure ListedClient where
  socketId : Int
  info : ClientData
  node : Nat

/-- The server; `leaving` is the client that `user_logout` has taken off the list
    and not yet released.  Once something undefined has happened nothing more is
    done. -/
structure Program where
  ledger : Ledger
  server : ServerInfo
  clients : List ListedClient
  leaving : Option ClientData
  fault : Option Fault

/-- What the threads do to the blocks: one round of `handle_listen`, and the two
    parts of `user_logout` for the client at `data`. -/
inductive Event where
  | accept (socketId : Int) (env : NewEnv) (nodeOk : Bool)
  | logout (data : Nat)
  | release

/-- One round of `handle_listen`, behind `accept`. -/
def handleListen (s : Program) (socketId : Int) (env : NewEnv) (nodeOk : Bool) :
    Program :=
  match newClientInfo s.ledger env cTypeC with
  | .error fault => { s with fault := some fault }
  | .ok (none, l) => { s with ledger := l }
  | .ok (some info, l) =>
      if nodeOk then
        let node := l.acquire
        { s with
          ledger := node.2
          clients := s.clients ++ [⟨socketId, info, node.1⟩] }
      else { s with ledger := releaseClientInfo l info }

/-- The loop of `user_logout`: the node with the descriptor is taken out and
    released. -/
def unlinkClient (s : Program) (info : ClientData) (socketId : Int) : Program :=
  let found := s.clients.find? fun c => c.socketId = socketId
  { s with
    ledger := (found.map fun c => s.ledger.release c.node).getD s.ledger
    clients := s.clients.eraseP fun c => c.socketId = socketId
    leaving := some info }

/-- A step; a descriptor that is open is not given to another connection. -/
def lifeStep (s : Program) (e : Event) : Option Program :=
  if s.fault ≠ none then none
  else match e with
    | .accept socketId env nodeOk =>
        if ∀ c ∈ s.clients, c.socketId ≠ socketId then
          some (handleListen s socketId env nodeOk)
        else none
    | .logout data =>
        if s.leaving = none then
          (s.clients.find? fun c => c.info.data = data).map fun c =>
            unlinkClient s c.info c.socketId
        else none
    | .release => s.leaving.map fun info =>
        { s with
          ledger := releaseClientInfo s.ledger info
          leaving := none }

/-- The server from `init_server_info` on. -/
def lifeSystem : System Program Event where
  start s := (∃ env, initServerInfo .empty env = .ok (some s.server, s.ledger))
    ∧ s.clients = [] ∧ s.leaving = none ∧ s.fault = none
  step := lifeStep

/-! ## One client -/

/-- The blocks of a client, in the order of their release. -/
def ClientData.blocks (c : ClientData) : List Nat :=
  c.readingBuffer :: c.writingBuffer :: (c.ip.toList ++ [c.data])

/-- `addr_info` of a call that stored a text: the block behind the text. -/
def ClientData.leaked (c : ClientData) : List Nat :=
  c.ip.toList.map (· + 1)

/-- The peer has an address, and its text is within the limit. -/
def storesText (x : Answers) : Bool :=
  match x.peer.address with
  | none => false
  | some (af, src, _) => (addressText af src).length + 1 ≤ sockaddrSize af

/-- The call stores the address of the peer. -/
def NewEnv.reported (env : NewEnv) : Bool := env.data && storesText env.peer

/-- Nothing fails behind `get_addr_and_port`. -/
structure NewEnv.Completes (env : NewEnv) : Prop where
  readingBuffer : env.readingBuffer = true
  writingBuffer : env.writingBuffer = true
  readingLock : env.readingLock = succ
  writingLock : env.writingLock = succ

/-- **NOTHING UNDEFINED**: the first allocation fails, or an address has a block
    for its text and nothing fails behind. -/
def NewEnv.Orderly (env : NewEnv) : Prop :=
  env.data = true →
    (env.peer.peer.address.isSome → env.peer.addr.isSome) ∧ env.Completes

/-- The exits of `new_client_info` behind `get_addr_and_port`. -/
theorem newClientInfo_cases {l l₁ : Ledger} {env : NewEnv} {type : Int}
    {peer : PeerInfo} (hdata : env.data = true)
    (hpeer : newPeerInfo l.acquire.2 env.peer type = some (peer, l₁)) :
    (env.Completes ∧ newClientInfo l env type
        = .ok (some ⟨l.next, peer.ip.map fun _ => l.next + 1, l₁.next,
            l₁.next + 1⟩, l₁.acquire.2.acquire.2))
      ∨ ¬ env.Completes ∧ newClientInfo l env type = .error .readsFreed := by
  rw [newClientInfo, if_pos hdata]
  dsimp only
  rw [hpeer]
  dsimp only
  by_cases hr : env.readingBuffer = true
  · rw [if_pos hr]
    by_cases hw : env.writingBuffer = true
    · rw [if_pos hw]
      by_cases hrl : (succ : Int) = env.readingLock
      · rw [if_neg (not_not_intro hrl)]
        by_cases hwl : (succ : Int) = env.writingLock
        · rw [if_neg (not_not_intro hwl)]
          exact Or.inl ⟨⟨hr, hw, hrl.symm, hwl.symm⟩, rfl⟩
        · rw [if_pos hwl]
          exact Or.inr ⟨fun h => hwl h.writingLock.symm, rfl⟩
      · rw [if_pos hrl]
        exact Or.inr ⟨fun h => hrl h.readingLock.symm, rfl⟩
    · rw [if_neg hw]
      exact Or.inr ⟨fun h => hw h.writingBuffer, rfl⟩
  · rw [if_neg hr]
    exact Or.inr ⟨fun h => hr h.readingBuffer, rfl⟩

/-- The exits of `get_addr_and_port`, as `peer_info` and the heap show them. -/
theorem newPeerInfo_cases (l : Ledger) (x : Answers) :
    ((x.peer.address.isSome ∧ x.addr = none) ∧ newPeerInfo l x cTypeC = none)
      ∨ (x.peer.address.isSome → x.addr.isSome)
        ∧ ∃ peer l', newPeerInfo l x cTypeC = some (peer, l')
          ∧ (storesText x = false ∧ peer.ip = none ∧ Ran l l' []
            ∨ storesText x = true ∧ peer.ip.isSome
              ∧ Ran l l' [l.next + 1, l.next]) := by
  rw [newPeerInfo, if_pos rfl, storesText]
  cases haddress : x.peer.address with
  | none =>
      have hexit := getAddrAndPort_noAddress l 0 haddress
      have hran := (ran_getAddrAndPort hexit).1 rfl
      rw [hexit]
      exact Or.inr ⟨fun h => (by cases h), _, _, rfl, Or.inl ⟨rfl, rfl, hran⟩⟩
  | some address =>
      obtain ⟨af, src, uport⟩ := address
      cases haddr : x.addr with
      | none =>
          rw [getAddrAndPort_null l 0 haddress haddr]
          exact Or.inl ⟨⟨rfl, rfl⟩, rfl⟩
      | some block =>
          have hsome : x.addr.isSome := by rw [haddr]; rfl
          refine Or.inr ⟨fun _ => rfl, ?_⟩
          rcases Nat.lt_or_ge (sockaddrSize af) ((addressText af src).length + 1)
            with hlong | hfits
          · obtain ⟨hexit, hret⟩ := getAddrAndPort_long l 0 haddress hsome hlong
            have hran := (ran_getAddrAndPort hexit).1 rfl
            rw [hexit, Option.map_some, hret, if_neg (by decide)]
            exact ⟨_, _, rfl, Or.inl ⟨decide_eq_false (Nat.not_le.mpr hlong), rfl,
              hran⟩⟩
          · obtain ⟨mem, hexit, -, -⟩ := getAddrAndPort_fits l 0 haddress hsome hfits
            have hran := (ran_getAddrAndPort hexit).2 rfl
            rw [hexit]
            exact ⟨_, _, rfl, Or.inr ⟨decide_eq_true hfits, rfl, hran⟩⟩

/-- The blocks of a new client, and the block it leaves behind. -/
theorem accounts_new {l l₁ : Ledger} {blocks lost : List Nat} {ip : Option Nat}
    (h : l.Accounts blocks) (hran : Ran l.acquire.2 l₁ lost)
    (hlost : lost.Perm (ip.toList ++ ip.toList.map (· + 1))) :
    l₁.acquire.2.acquire.2.Accounts
      (ClientData.blocks ⟨l.next, ip, l₁.next, l₁.next + 1⟩
        ++ (ClientData.leaked ⟨l.next, ip, l₁.next, l₁.next + 1⟩ ++ blocks)) := by
  refine ((h.acquire.ran hran).acquire.acquire).perm ?_
  rw [ClientData.blocks, ClientData.leaked]
  refine (List.Perm.swap _ _ _).trans (.cons _ (.cons _ ?_))
  -- the text and `addr_info` are drawn behind the block of the client
  calc List.Perm (lost ++ l.next :: blocks)
        ((ip.toList ++ ip.toList.map (· + 1)) ++ l.next :: blocks) :=
        hlost.append_right _
    _ = ip.toList ++ (ip.toList.map (· + 1) ++ l.next :: blocks) :=
        List.append_assoc ..
    List.Perm _ (ip.toList ++ l.next :: (ip.toList.map (· + 1) ++ blocks)) :=
        List.perm_middle.append_left _
    _ = _ := by simp

/-- **A NEW CLIENT**: it has its blocks and leaves `addr_info` behind when the
    address is stored; without one nothing was allocated. -/
theorem newClientInfo_spec {l : Ledger} {blocks : List Nat}
    (h : l.Accounts blocks) (env : NewEnv) :
    (env.data = false ∧ newClientInfo l env cTypeC = .ok (none, l))
      ∨ (¬ env.Orderly ∧ ∃ fault, newClientInfo l env cTypeC = .error fault)
      ∨ env.data = true ∧ env.Orderly
        ∧ ∃ info l', newClientInfo l env cTypeC = .ok (some info, l')
          ∧ info.leaked.length = (if env.reported then 1 else 0)
          ∧ l'.Accounts (info.blocks ++ (info.leaked ++ blocks)) := by
  by_cases hdata : env.data = true
  · refine Or.inr ?_
    rcases newPeerInfo_cases l.acquire.2 env.peer
      with ⟨⟨haddress, haddr⟩, hnone⟩ | ⟨hip, peer, l₁, hpeer, hstored⟩
    · refine Or.inl ⟨fun hord => ?_, .nullWrite, ?_⟩
      · have := (hord hdata).1 haddress
        rw [haddr] at this
        cases this
      · rw [newClientInfo, if_pos hdata]
        dsimp only
        rw [hnone]
    · rcases newClientInfo_cases hdata hpeer with ⟨hall, hok⟩ | ⟨hnot, herr⟩
      · refine Or.inr ⟨hdata, fun _ => ⟨hip, hall⟩, _, _, hok, ?_⟩
        rw [NewEnv.reported, hdata, Bool.true_and]
        rcases hstored with ⟨hs, hnull, hran⟩ | ⟨hs, hsome, hran⟩
        · rw [hs, hnull, Option.map_none]
          exact ⟨rfl, accounts_new h hran (.refl _)⟩
        · obtain ⟨text, htext⟩ := Option.isSome_iff_exists.mp hsome
          rw [hs, htext, Option.map_some]
          exact ⟨rfl, accounts_new h hran (List.Perm.swap _ _ _)⟩
      · exact Or.inl ⟨fun hord => hnot (hord hdata).2, _, herr⟩
  · refine Or.inl ⟨Bool.eq_false_iff.mpr hdata, ?_⟩
    rw [newClientInfo, if_neg hdata]

/-- The client of the server has no address. -/
theorem newClientInfo_server {l : Ledger} {blocks : List Nat}
    (h : l.Accounts blocks) (env : NewEnv) :
    (newClientInfo l env cTypeS = .ok (none, l))
      ∨ (∃ fault, newClientInfo l env cTypeS = .error fault)
      ∨ ∃ info l', newClientInfo l env cTypeS = .ok (some info, l')
          ∧ l'.Accounts (info.blocks ++ blocks) := by
  by_cases hdata : env.data = true
  · have hpeer : newPeerInfo l.acquire.2 env.peer cTypeS
        = some (⟨none, 0⟩, l.acquire.2) := if_neg (by decide)
    rcases newClientInfo_cases hdata hpeer with ⟨-, hok⟩ | ⟨-, herr⟩
    · exact Or.inr (Or.inr ⟨_, _, hok, accounts_new h (.refl _) (.refl _)⟩)
    · exact Or.inr (Or.inl ⟨_, herr⟩)
  · exact Or.inl (by rw [newClientInfo, if_neg hdata])

/-- **A RELEASED CLIENT** gives all its blocks back. -/
theorem releaseClientInfo_spec {l : Ledger} {blocks : List Nat} {c : ClientData}
    (h : l.Accounts (c.blocks ++ blocks)) :
    (releaseClientInfo l c).Accounts blocks := by
  have hbuffers := h.release.release
  rw [releaseClientInfo]
  cases hip : c.ip with
  | none =>
      rw [hip] at hbuffers
      exact hbuffers.release
  | some ip =>
      rw [hip] at hbuffers
      exact hbuffers.release.release

/-! ## The server -/

/-- The blocks of `server_info`. -/
def ServerInfo.blocks (s : ServerInfo) : List Nat := s.info.blocks ++ [s.server]

/-- **THE LABELS OF `init_server_info`** give back what was allocated. -/
theorem initServerInfo_spec {l : Ledger} {blocks : List Nat} {env : ServerEnv}
    {s : Option ServerInfo} {l' : Ledger} (h : l.Accounts blocks)
    (hrun : initServerInfo l env = .ok (s, l')) :
    l'.Accounts ((s.map ServerInfo.blocks).getD [] ++ blocks) := by
  rw [initServerInfo] at hrun
  rcases newClientInfo_server h env.info
    with hnone | ⟨fault, herr⟩ | ⟨info, l₁, hsome, hacc⟩
  · rw [hnone] at hrun
    cases hrun
    exact h
  · rw [herr] at hrun
    cases hrun
  · rw [hsome] at hrun
    dsimp only at hrun
    have hback := releaseClientInfo_spec hacc.acquire.release
    by_cases hserver : env.server = true
    · rw [if_pos hserver] at hrun
      by_cases hlock : (succ : Int) = env.lock
      · rw [if_neg (not_not_intro hlock)] at hrun
        by_cases hcond : (succ : Int) = env.conToFlush
        · rw [if_neg (not_not_intro hcond)] at hrun
          cases hrun
          refine hacc.acquire.perm ?_
          rw [Option.map_some, Option.getD_some, ServerInfo.blocks,
            List.append_assoc]
          exact List.perm_middle.symm
        · rw [if_pos hcond] at hrun
          cases hrun
          exact hback
      · rw [if_pos hlock] at hrun
        cases hrun
        exact hback
    · rw [if_neg hserver] at hrun
      cases hrun
      exact releaseClientInfo_spec hacc

theorem releaseServerInfo_spec {l : Ledger} {blocks : List Nat} {s : ServerInfo}
    (h : l.Accounts (s.blocks ++ blocks)) :
    (releaseServerInfo l s).Accounts blocks := by
  rw [ServerInfo.blocks, List.append_assoc] at h
  exact (releaseClientInfo_spec h).release

/-- The blocks of a listed client. -/
def ListedClient.blocks (c : ListedClient) : List Nat := c.node :: c.info.blocks

/-- The blocks of all connections. -/
def Program.connections (s : Program) : List Nat :=
  s.clients.flatMap ListedClient.blocks
    ++ (s.leaving.map ClientData.blocks).getD []

/-- The connections whose address was stored. -/
def Event.reported : Event → Bool
  | .accept _ env _ => env.reported
  | _ => false

/-- Nothing undefined happens in a step. -/
def Event.Orderly : Event → Prop
  | .accept _ env _ => env.Orderly
  | _ => True

/-- **INVARIANT**: the descriptors are distinct, and the blocks are those of the
    connections and of the server, and `count` more. -/
structure LifeInv (s : Program) (count : Nat) : Prop where
  ids : (s.clients.map ListedClient.socketId).Nodup
  accounts : ∃ leaked, leaked.length = count
    ∧ s.ledger.Accounts (s.connections ++ (s.server.blocks ++ leaked))

theorem lifeInv_start {s : Program} (h : lifeSystem.start s) : LifeInv s 0 := by
  obtain ⟨⟨env, hrun⟩, hclients, hleaving, -⟩ := h
  refine ⟨by rw [hclients]; exact List.nodup_nil, [], rfl, ?_⟩
  rw [Program.connections, hclients, hleaving]
  exact initServerInfo_spec .ofEmpty hrun

/-- A round of `handle_listen`. -/
theorem LifeInv.accept {s : Program} {count : Nat} (h : LifeInv s count)
    (hs : s.fault = none) {socketId : Int}
    (hid : ∀ c ∈ s.clients, c.socketId ≠ socketId) (env : NewEnv) (nodeOk : Bool) :
    ((handleListen s socketId env nodeOk).fault = none ↔ env.Orderly)
      ∧ (env.Orderly → LifeInv (handleListen s socketId env nodeOk)
        (count + if env.reported then 1 else 0)) := by
  obtain ⟨leaked, hlen, hacc⟩ := h.accounts
  rw [handleListen]
  rcases newClientInfo_spec hacc env
    with ⟨hdata, hrun⟩ | ⟨hnot, fault, hrun⟩
      | ⟨hdata, hord, info, l', hrun, hleaked, hacc'⟩
  · rw [hrun, NewEnv.reported, hdata]
    refine ⟨iff_of_true hs fun hd => ?_, fun _ => ⟨h.ids, leaked, hlen, hacc⟩⟩
    rw [hdata] at hd
    cases hd
  · rw [hrun]
    exact ⟨iff_of_false (fun he => (by cases he)) hnot, fun hord => absurd hord hnot⟩
  · rw [hrun]
    dsimp only
    have hcount : (info.leaked ++ leaked).length
        = count + if env.reported then 1 else 0 := by
      rw [List.length_append, hleaked, hlen, Nat.add_comm]
    -- what is leaked stands behind the blocks of the server
    have hmove : (info.leaked ++ (s.connections ++ (s.server.blocks ++ leaked))).Perm
        (s.connections ++ (s.server.blocks ++ (info.leaked ++ leaked))) :=
      List.perm_append_comm_assoc .. |>.trans
        (.append_left _ (List.perm_append_comm_assoc ..))
    cases nodeOk with
    | false =>
        rw [if_neg Bool.false_ne_true]
        refine ⟨iff_of_true hs hord, fun _ => ⟨h.ids, _, hcount, ?_⟩⟩
        exact (releaseClientInfo_spec hacc').perm hmove
    | true =>
        rw [if_pos rfl]
        refine ⟨iff_of_true hs hord, fun _ => ⟨?_, _, hcount, ?_⟩⟩
        · show ((s.clients ++ [_]).map ListedClient.socketId).Nodup
          rw [List.map_append, List.nodup_append]
          refine ⟨h.ids, List.nodup_singleton _, ?_⟩
          intro a ha b hb
          obtain ⟨c, hc, rfl⟩ := List.mem_map.mp ha
          obtain rfl := List.mem_singleton.mp hb
          exact hid c hc
        · refine hacc'.acquire.perm ?_
          have hall := hmove.append_left (l'.next :: info.blocks)
          refine hall.trans ?_
          rw [Program.connections, Program.connections, List.flatMap_append,
            List.flatMap_singleton, ListedClient.blocks]
          simp only [List.append_assoc]
          exact List.perm_append_comm_assoc ..

/-- The node that `user_logout` finds is the one of the client. -/
theorem find_socketId {clients : List ListedClient}
    (hids : (clients.map ListedClient.socketId).Nodup) {c : ListedClient}
    (hc : c ∈ clients) : ∃ front back, clients = front ++ c :: back
      ∧ (clients.find? fun d => d.socketId = c.socketId) = some c
      ∧ (clients.eraseP fun d => d.socketId = c.socketId) = front ++ back := by
  obtain ⟨front, back, rfl⟩ := List.append_of_mem hc
  have hfront : ∀ d ∈ front, ¬ decide (d.socketId = c.socketId) = true := by
    intro d hd he
    rw [List.map_append, List.map_cons, List.nodup_append] at hids
    exact hids.2.2 _ (List.mem_map_of_mem hd) _ (List.mem_cons_self ..)
      (of_decide_eq_true he)
  refine ⟨front, back, rfl, ?_, ?_⟩
  · exact List.find?_eq_some_iff_append.mpr ⟨decide_eq_true rfl, front, back, rfl,
      fun d hd => by simpa using hfront d hd⟩
  · rw [List.eraseP_append_right _ hfront, List.eraseP_cons_of_pos (by simp)]

/-- The first part of `user_logout`. -/
theorem LifeInv.logout {s : Program} {count : Nat} (h : LifeInv s count)
    (hleaving : s.leaving = none) {c : ListedClient} (hc : c ∈ s.clients) :
    LifeInv (unlinkClient s c.info c.socketId) count := by
  obtain ⟨leaked, hlen, hacc⟩ := h.accounts
  obtain ⟨front, back, hsplit, hfind, herase⟩ := find_socketId h.ids hc
  rw [unlinkClient, hfind, herase]
  refine ⟨?_, leaked, hlen, ?_⟩
  · refine h.ids.sublist (List.Sublist.map _ ?_)
    rw [hsplit]
    exact (List.sublist_cons_self c back).append_left front
  · have hconn : s.connections.Perm (c.node :: (c.info.blocks
        ++ (front ++ back).flatMap ListedClient.blocks)) := by
      rw [Program.connections, hsplit, hleaving, Option.map_none, Option.getD_none,
        List.append_nil, List.flatMap_append, List.flatMap_cons, List.flatMap_append]
      exact List.perm_append_comm_assoc ..
    have hback := (hacc.perm (hconn.append_right _)).release
    refine hback.perm (.append_right _ ?_)
    exact List.perm_append_comm

/-- The second part. -/
theorem LifeInv.release {s : Program} {count : Nat} (h : LifeInv s count)
    {info : ClientData} (hleaving : s.leaving = some info) :
    LifeInv { s with
      ledger := releaseClientInfo s.ledger info
      leaving := none } count := by
  obtain ⟨leaked, hlen, hacc⟩ := h.accounts
  refine ⟨h.ids, leaked, hlen, releaseClientInfo_spec (hacc.perm ?_)⟩
  rw [Program.connections, Program.connections, hleaving, Option.map_some,
    Option.getD_some]
  simp only [Option.map_none, Option.getD_none, List.append_nil, List.append_assoc]
  exact List.perm_append_comm_assoc ..

/-- Nothing follows on a fault. -/
theorem lifeStep_faultless {s s' : Program} {e : Event}
    (hstep : lifeStep s e = some s') : s.fault = none := by
  rw [lifeStep.eq_def] at hstep
  exact not_not.mp (Option.ite_none_left_eq_some.mp hstep).1

/-- One step. -/
theorem lifeInv_step {s s' : Program} {e : Event} {count : Nat} (h : LifeInv s count)
    (hstep : lifeStep s e = some s') : (s'.fault = none ↔ e.Orderly)
      ∧ (e.Orderly → LifeInv s' (count + if e.reported then 1 else 0)) := by
  have hs := lifeStep_faultless hstep
  rw [lifeStep.eq_def, if_neg (not_not_intro hs)] at hstep
  cases e with
  | accept socketId env nodeOk =>
      obtain ⟨hid, hstep⟩ := Option.ite_none_right_eq_some.mp hstep
      obtain rfl := Option.some.inj hstep
      exact h.accept hs hid env nodeOk
  | logout data =>
      obtain ⟨hleaving, hstep⟩ := Option.ite_none_right_eq_some.mp hstep
      obtain ⟨c, hfind, rfl⟩ := Option.map_eq_some_iff.mp hstep
      have hc := List.mem_of_find?_eq_some hfind
      exact ⟨iff_of_true hs trivial, fun _ => h.logout hleaving hc⟩
  | release =>
      obtain ⟨info, hleaving, rfl⟩ := Option.map_eq_some_iff.mp hstep
      exact ⟨iff_of_true hs trivial, fun _ => h.release hleaving⟩

/-- A run: nothing undefined as long as all its steps are orderly, and one block
    more for every address that was stored. -/
theorem lifeInv_run : ∀ (es : List Event) {s s' : Program} {count : Nat},
    LifeInv s count → s.fault = none → runFrom lifeSystem s es = some s' →
      (s'.fault = none ↔ ∀ e ∈ es, e.Orderly)
        ∧ (s'.fault = none → LifeInv s' (count + es.countP Event.reported)) := by
  intro es
  induction es with
  | nil =>
      intro s s' count h hs hrun
      obtain rfl := Option.some.inj hrun
      exact ⟨iff_of_true hs fun e he => (by cases he), fun _ => h⟩
  | cons e es ih =>
      intro s s' count h hs hrun
      obtain ⟨s₁, hstep, hrest⟩ := Option.bind_eq_some_iff.mp hrun
      obtain ⟨hfault, hinv⟩ := lifeInv_step h hstep
      by_cases he : e.Orderly
      · obtain ⟨hall, hend⟩ := ih (hinv he) (hfault.mpr he) hrest
        refine ⟨?_, fun hs' => ?_⟩
        · rw [hall, List.forall_mem_cons, and_iff_right he]
        · rw [List.countP_cons, Nat.add_comm (es.countP _), ← Nat.add_assoc]
          exact hend hs'
      · -- the run ends with the fault
        have hs₁ : s₁.fault ≠ none := fun h₁ => he (hfault.mp h₁)
        cases es with
        | nil =>
            obtain rfl := Option.some.inj hrest
            exact ⟨iff_of_false hs₁ fun h => he (h e (List.mem_cons_self ..)),
              fun hs' => absurd hs' hs₁⟩
        | cons e' es =>
            obtain ⟨s₂, hstep', -⟩ := Option.bind_eq_some_iff.mp hrest
            exact absurd (lifeStep_faultless hstep') hs₁

/-! ## The heap of a run -/

/-- **WHAT A RUN LEAVES**: `leaked` are blocks that nothing points to. -/
structure HeapReport (s : Program) (es : List Event) : Prop where
  orderly : s.fault = none ↔ ∀ e ∈ es, e.Orderly
  blocks : s.fault = none → ∃ leaked, leaked.length = es.countP Event.reported
    ∧ s.ledger.Accounts (s.connections ++ (s.server.blocks ++ leaked))
    ∧ (releaseServerInfo s.ledger s.server).Accounts (s.connections ++ leaked)

/-- **THE HEAP, ACCOUNTED FOR**: in every run nothing undefined happens exactly as
    long as every connection is orderly; no block is released twice or too early,
    and those that nothing points to are as many as the connections whose address
    was stored. -/
theorem heap_accounted {s s' : Program} {es : List Event} (h : lifeSystem.start s)
    (hrun : runFrom lifeSystem s es = some s') : HeapReport s' es := by
  obtain ⟨horderly, hinv⟩ := lifeInv_run es (lifeInv_start h) h.2.2.2 hrun
  refine ⟨horderly, fun hs => ?_⟩
  obtain ⟨leaked, hlen, hacc⟩ := (hinv hs).accounts
  refine ⟨leaked, by rw [hlen, Nat.zero_add], hacc, ?_⟩
  exact releaseServerInfo_spec (hacc.perm (List.perm_append_comm_assoc ..))

/-- All calls succeed for a peer at 127.0.0.1. -/
def localPeer : NewEnv where
  data := true
  peer :=
    { addr := some (Vector.replicate _ 0)
      addrInfo := some (Vector.replicate _ 0)
      peer := .ipv4 ⟨#[127, 0, 0, 1], rfl⟩ 5000
      fault := fun h => (by cases h) }
  readingBuffer := true
  writingBuffer := true
  readingLock := 0
  writingLock := 0

/-- The server as `init_server_info` leaves it. -/
def freshHeap : Program := ⟨⟨4, [3, 2, 1, 0], []⟩, ⟨3, ⟨0, none, 1, 2⟩⟩, [], none, none⟩

theorem freshHeap_start : lifeSystem.start freshHeap :=
  ⟨⟨⟨localPeer, true, 0, 0⟩, rfl⟩, rfl, rfl, rfl⟩

/-- A client comes and goes; its data are at 4. -/
def oneConnection : List Event := [.accept 5 localPeer true, .logout 4, .release]

/-- One block is left. -/
theorem heap_accounted_oneConnection :
    ∃ s, runFrom lifeSystem freshHeap oneConnection = some s ∧ s.connections = []
      ∧ ∃ leaked, leaked.length = 1
        ∧ s.ledger.Accounts (s.server.blocks ++ leaked) := by
  have hrun : ((runFrom lifeSystem freshHeap oneConnection).any fun s =>
      decide (s.connections = [] ∧ s.fault = none)) = true := by decide +kernel
  obtain ⟨s, hs, hend⟩ := (Option.any_eq_true _ _).mp hrun
  obtain ⟨hnone, hfault⟩ := of_decide_eq_true hend
  obtain ⟨leaked, hlen, hacc, -⟩ := (heap_accounted freshHeap_start hs).blocks hfault
  have hcount : oneConnection.countP Event.reported = 1 := by decide +kernel
  rw [hnone, List.nil_append] at hacc
  exact ⟨s, hs, hnone, leaked, hlen.trans hcount, hacc⟩

end IMLifecycle

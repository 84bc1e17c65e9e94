import IMServer.Dispatch
import IMServer.Transition

/-! # Runs of the server, call by call

    An event is one call: a connection is accepted, bytes are fetched from a
    socket, `try_to_handle_msg` is called, a client is marked, flushed or logged
    out.  The calls may come in any order.  `received` and `handed` record, for
    each client, the bytes its socket delivered and the lines that went to the
    dispatch. -/

namespace IMServerRun

open IMBytes IMCString IMMachineInt IMCachePool IMBuffer IMBufferInvariant
  IMBufferAppend IMBufferTake IMBufferQueue IMClientInfo IMLineFraming IMMessage
  IMServerInfo IMDelivery IMDispatch IMTransition

/-! ## The invariant -/

/-- **THE SERVER INVARIANT** between calls. -/
structure ServerInv (s : ServerInfo) : Prop where
  heap : HeapInv s.mem.heap
  count : s.clientCount = s.clients.length
  nodup : s.clients.Nodup
  sockets : (s.clients.map fun c => (s.mem.info c).socketId).Nodup
  check : ∀ c ∈ s.clients, (s.mem.data c).lastCheckCmdIndex = 0
  name : ∀ c ∈ s.clients, NameOk (s.mem.info c).name

/-- The listed clients keep what the invariant says of them. -/
theorem ServerInv.of_data {s s' : ServerInfo} (h : ServerInv s)
    (hh : HeapInv s'.mem.heap) (hcl : s'.clients = s.clients)
    (hcount : s'.clientCount = s.clientCount)
    (hdata : ∀ c ∈ s.clients,
      (s'.mem.data c).lastCheckCmdIndex = (s.mem.data c).lastCheckCmdIndex
      ∧ (s'.mem.info c).socketId = (s.mem.info c).socketId
      ∧ NameOk (s'.mem.info c).name) : ServerInv s' where
  heap := hh
  count := by rw [hcount, hcl, h.count]
  nodup := hcl ▸ h.nodup
  sockets := by
    rw [hcl, List.map_congr_left (fun c hc => (hdata c hc).2.1)]
    exact h.sockets
  check := fun c hc => (hdata c (hcl ▸ hc)).1.trans (h.check c (hcl ▸ hc))
  name := fun c hc => (hdata c (hcl ▸ hc)).2.2

theorem ServerInv.handled {s s' : ServerInfo} {c : PClientInfo}
    (h : ServerInv s) (hs : Handled s s' c)
    (hname : NameOk (s'.mem.info c).name) : ServerInv s' := by
  refine h.of_data hs.heap hs.clients hs.clientCount ?_
  intro d hd
  by_cases hdc : d = c
  · subst hdc
    exact ⟨hs.check, hs.socketId, hname⟩
  · rw [Clients.info, Clients.info, hs.others d hdc]
    exact ⟨rfl, rfl, h.name d hd⟩

/-- The heap may change while the data of the clients stays. -/
theorem ServerInv.of_heap {s : ServerInfo} {m : Clients} (h : ServerInv s)
    (hh : HeapInv m.heap) (hdata : m.data = s.mem.data) :
    ServerInv { s with mem := m } := by
  refine h.of_data hh rfl rfl ?_
  intro c hc
  have hinfo : m.info c = s.mem.info c := congrArg ClientData.info
    (congrFun hdata c)
  refine ⟨congrArg ClientData.lastCheckCmdIndex (congrFun hdata c),
    congrArg ClientInfo.socketId hinfo, ?_⟩
  show NameOk (m.info c).name
  rw [hinfo]
  exact h.name c hc

/-- The flag does not matter. -/
theorem ServerInv.sign {s : ServerInfo} (h : ServerInv s) (n : Int) :
    ServerInv { s with signToFlushMsg := n } :=
  ⟨h.heap, h.count, h.nodup, h.sockets, h.check, h.name⟩

/-! ## One round of `try_to_handle_msg` -/

/-- A line as it goes to the dispatch. -/
def IsLine (line : List UInt8) : Prop :=
  ∃ text, line = text ++ [10] ∧ (10 : UInt8) ∉ text ∧ (0 : UInt8) ∉ text

/-- The server after `fetch_msg_from_client`. -/
def fetched (s : ServerInfo) (c : PClientInfo) (env : Surround) : ServerInfo :=
  { s with mem := (fetchMsgFromClient s.mem env.afterCache c).clients }

/-- The line of the next round, and the server after that round. -/
def roundLine (s : ServerInfo) (c : PClientInfo) (env : Surround) :
    List UInt8 :=
  (fetchMsgFromClient s.mem env.afterCache c).bytes

def afterRound (s : ServerInfo) (c : PClientInfo) (env : Surround) :
    ServerInfo :=
  (handleMsg (fetched s c env) c env (roundLine s c env)).2

/-- **ONE ROUND**: a line is taken from the reading buffer of `c` and handled. -/
structure Round (s : ServerInfo) (c : PClientInfo) (env : Surround)
    (i : Nat) : Prop where
  taken : LineTaken s.mem c i (fetchMsgFromClient s.mem env.afterCache c)
  line : IsLine (roundLine s c env)
  length : (roundLine s c env).length ≤ 512
  fetched : ServerInv (fetched s c env)
  handled : Handled (IMServerRun.fetched s c env) (afterRound s c env) c
  inv : ServerInv (afterRound s c env)
  split : roundLine s c env ++ (afterRound s c env).mem.reading c
    = s.mem.reading c

/-- The round lemma. -/
theorem round_spec {s : ServerInfo} {c : PClientInfo} {i : Nat}
    (h : ServerInv s) (hc : c ∈ s.clients) (env : Surround)
    (hn : nextLine s.mem c = some i) : Round s c env i := by
  have htaken := fetchMsg_some h.heap (h.check c hc) env.afterCache hn
  obtain ⟨pre, post, hcont, hpre, h10, hz⟩ := nextLine_content hn
  have hi := nextLine_lt h.heap hn
  have hbytes : roundLine s c env = pre ++ [10] := by
    rw [roundLine, htaken.bytes, hcont, ← hpre, List.take_append,
      List.take_of_length_le (Nat.le_succ _), Nat.add_sub_cancel_left]
    rfl
  have hlen : (roundLine s c env).length ≤ 512 := by
    rw [hbytes, List.length_append, List.length_singleton]
    omega
  have hfetched : ServerInv (fetched s c env) :=
    h.of_heap htaken.heap htaken.data
  obtain ⟨hhandled, hname⟩ := handled_handleMsg (c := c) hfetched.heap
    (hfetched.name c hc) hfetched.count hfetched.nodup env hlen
  refine ⟨htaken, ⟨pre, hbytes, h10, hz⟩, hlen, hfetched, hhandled,
    hfetched.handled hhandled hname, ?_⟩
  have hread := (hhandled.reading c).content.trans htaken.reading
  refine (congrArg (_ ++ ·) hread).trans ?_
  rw [roundLine, htaken.bytes]
  exact List.take_append_drop _ _

/-- The client stays, and its reading buffer gets shorter. -/
theorem Round.listed {s : ServerInfo} {c : PClientInfo} {env : Surround}
    {i : Nat} (h : Round s c env i) (hc : c ∈ s.clients) :
    c ∈ (afterRound s c env).clients := by
  rw [h.handled.clients]
  exact hc

theorem Round.shorter {s : ServerInfo} {c : PClientInfo} {env : Surround}
    {i : Nat} (h : Round s c env i) :
    ((afterRound s c env).mem.reading c).length
      < (s.mem.reading c).length := by
  obtain ⟨text, htext, -, -⟩ := h.line
  have hsplit := congrArg List.length h.split
  rw [List.length_append, htext, List.length_append,
    List.length_singleton] at hsplit
  omega

/-- The test of the loop holds. -/
theorem Round.goesOn {s : ServerInfo} {c : PClientInfo} {env : Surround}
    {i : Nat} (h : Round s c env i) :
    (fetchMsgFromClient s.mem env.afterCache c).ret > 0 := by
  rw [h.taken.ret]
  exact Nat.succ_pos i

/-- A round of the loop, as the loop runs it. -/
theorem handleLoop_succ (c : PClientInfo) (envs : Nat → Surround)
    (fuel round : Nat) (lines : List (List UInt8)) (need : Nat)
    (s : ServerInfo) :
    handleLoop c envs (fuel + 1) round lines need s
      = if (fetchMsgFromClient s.mem (envs round).afterCache c).ret > 0 then
          handleLoop c envs fuel (round + 1)
            (lines ++ [roundLine s c (envs round)])
            (need + (handleMsg (fetched s c (envs round)) c (envs round)
              (roundLine s c (envs round))).1)
            (afterRound s c (envs round))
        else ⟨lines, need, fetched s c (envs round)⟩ := rfl

/-- Without a line the loop ends where it is. -/
theorem handleLoop_none {c : PClientInfo} {s : ServerInfo} (h : ServerInv s)
    (hc : c ∈ s.clients) (hn : nextLine s.mem c = none)
    (envs : Nat → Surround) (fuel round : Nat) (lines : List (List UInt8))
    (need : Nat) :
    handleLoop c envs (fuel + 1) round lines need s = ⟨lines, need, s⟩ := by
  have hnone := fetchMsg_none h.heap (h.check c hc) (envs round).afterCache hn
  rw [handleLoop_succ, fetched, hnone, if_neg (Nat.lt_irrefl 0)]

/-! ## The loop -/

/-- What the loop of `try_to_handle_msg` does: it handles lines, which were the
    first bytes of the reading buffer, until the first node holds none. -/
structure LinesHandled (s : ServerInfo) (c : PClientInfo)
    (lines : List (List UInt8)) (s' : ServerInfo) : Prop where
  inv : ServerInv s'
  clients : s'.clients = s.clients
  split : lines.flatten ++ s'.mem.reading c = s.mem.reading c
  isLine : ∀ line ∈ lines, IsLine line
  done : nextLine s'.mem c = none
  others : ∀ d, d ≠ c → Same s.mem.heap s'.mem.heap (d, .reading)
  noFail : NoFail s.pool → NoFail s'.pool

theorem handleLoop_spec {c : PClientInfo} (envs : Nat → Surround) :
    ∀ (fuel round : Nat) (lines : List (List UInt8)) (need : Nat)
      (s : ServerInfo), ServerInv s → c ∈ s.clients →
      (s.mem.reading c).length < fuel →
      ∃ new, (handleLoop c envs fuel round lines need s).lines = lines ++ new
        ∧ LinesHandled s c new
          (handleLoop c envs fuel round lines need s).server := by
  intro fuel
  induction fuel with
  | zero => intro _ _ _ _ _ _ hf; exact absurd hf (Nat.not_lt_zero _)
  | succ fuel ih =>
      intro round lines need s h hc hf
      cases hn : nextLine s.mem c with
      | none =>
          rw [handleLoop_none h hc hn]
          exact ⟨[], (List.append_nil _).symm, h, rfl, rfl,
            (fun _ hl => by cases hl), hn, (fun _ _ => Same.refl _ _),
            fun hnf => hnf⟩
      | some i =>
          have hr := round_spec h hc (envs round) hn
          have hshort := hr.shorter
          rw [handleLoop_succ, if_pos hr.goesOn]
          obtain ⟨new, hlines, hrest⟩ := ih (round + 1)
            (lines ++ [roundLine s c (envs round)]) (need + (handleMsg
              (fetched s c (envs round)) c (envs round)
              (roundLine s c (envs round))).1)
            (afterRound s c (envs round)) hr.inv (hr.listed hc) (by omega)
          refine ⟨roundLine s c (envs round) :: new, ?_, hrest.inv,
            hrest.clients.trans hr.handled.clients, ?_, ?_, hrest.done, ?_,
            fun hnf => hrest.noFail (hr.handled.outside.noFail
              (hr.taken.outside.noFail hnf))⟩
          · rw [hlines, List.append_assoc, List.singleton_append]
          · rw [List.flatten_cons, List.append_assoc, hrest.split, hr.split]
          · intro line hline
            rcases List.mem_cons.mp hline with rfl | h1
            · exact hr.line
            · exact hrest.isLine line h1
          · intro d hd
            exact ((hr.taken.same (d, .reading)
              (fun e => hd (congrArg Prod.fst e))).trans
                (hr.handled.reading d)).trans (hrest.others d hd)

theorem linesHandled_signalFlush {s : ServerInfo} {c : PClientInfo}
    {r : HandleResult} (h : LinesHandled s c r.lines r.server) :
    LinesHandled s c (signalFlush r).lines (signalFlush r).server := by
  rw [signalFlush]
  by_cases hneed : cInt r.needToFlushMsg ≠ 0
  · rw [if_pos hneed]
    exact ⟨h.inv.sign _, h.clients, h.split, h.isLine, h.done, h.others,
      h.noFail⟩
  · rw [if_neg hneed]
    exact h

/-- **`try_to_handle_msg`** handles the lines at the front of the reading buffer
    one after the other. -/
theorem tryToHandleMsg_spec {s : ServerInfo} {c : PClientInfo}
    (h : ServerInv s) (hc : c ∈ s.clients) (envs : Nat → Surround) :
    LinesHandled s c (tryToHandleMsg s c envs).lines
      (tryToHandleMsg s c envs).server := by
  obtain ⟨new, hlines, hspec⟩ := handleLoop_spec envs
    ((s.mem.reading c).length + 1) 0 [] 0 s h hc (Nat.lt_succ_self _)
  refine linesHandled_signalFlush ?_
  rw [hlines]
  exact hspec

/-! ## Accepting and logging out -/

/-- With distinct sockets the search of `user_logout` finds the client itself. -/
theorem listDel_eq {info : PClientInfo → ClientInfo} {c : PClientInfo} :
    ∀ {l : List PClientInfo}, (l.map fun d => (info d).socketId).Nodup → c ∈ l →
      ∃ pre post, l = pre ++ c :: post
        ∧ listDel info (info c).socketId l = some (pre ++ post) := by
  intro l
  induction l with
  | nil => intro _ hc; cases hc
  | cons d l ih =>
      intro hnd hc
      rw [List.map_cons, List.nodup_cons] at hnd
      rw [listDel]
      by_cases hd : (info d).socketId = (info c).socketId
      · rw [if_pos hd]
        rcases List.mem_cons.mp hc with rfl | hc'
        · exact ⟨[], l, rfl, rfl⟩
        · exact absurd (List.mem_map.mpr ⟨c, hc', hd.symm⟩) hnd.1
      · rw [if_neg hd]
        rcases List.mem_cons.mp hc with rfl | hc'
        · exact absurd rfl hd
        · obtain ⟨pre, post, rfl, hdel⟩ := ih hnd.2 hc'
          exact ⟨d :: pre, post, rfl, by rw [hdel]; rfl⟩

/-- Another client's data and buffers may change. -/
theorem ServerInv.of_other {s : ServerInfo} {m : Clients} {c : PClientInfo}
    (h : ServerInv s) (hc : c ∉ s.clients) (hh : HeapInv m.heap)
    (hdata : ∀ d, d ≠ c → m.data d = s.mem.data d) :
    ServerInv { s with mem := m } := by
  refine h.of_data hh rfl rfl ?_
  intro d hd
  have hne : d ≠ c := fun e => hc (e ▸ hd)
  have hinfo : m.info d = s.mem.info d :=
    congrArg ClientData.info (hdata d hne)
  refine ⟨congrArg ClientData.lastCheckCmdIndex (hdata d hne),
    congrArg ClientInfo.socketId hinfo, ?_⟩
  show NameOk (m.info d).name
  rw [hinfo]
  exact h.name d hd

/-- **A NEW CONNECTION** with a socket no listed client has. -/
theorem acceptClient_spec {s : ServerInfo} {c : PClientInfo} {socketId : Int}
    (h : ServerInv s) (hc : c ∉ s.clients)
    (hsocket : ∀ d ∈ s.clients, (s.mem.info d).socketId ≠ socketId) :
    ServerInv (acceptClient s c socketId)
      ∧ (∀ j, j.1 ≠ c →
          Same s.mem.heap (acceptClient s c socketId).mem.heap j)
      ∧ Outside s.mem.heap (acceptClient s c socketId).mem.heap
      ∧ (∀ d, d ≠ c → (acceptClient s c socketId).mem.data d = s.mem.data d)
      ∧ ((acceptClient s c socketId).clients = s.clients
        ∨ ((acceptClient s c socketId).clients = s.clients ++ [c]
          ∧ (∀ side, (acceptClient s c socketId).mem.heap.buf (c, side) = [])
          ∧ nameOf (acceptClient s c socketId).mem c = unknownClient
          ∧ ((acceptClient s c socketId).mem.info c).pub = succ)) := by
  obtain ⟨hh, hsame, hdata, hout, hnew⟩ := newClientInfo_spec c socketId
    (some unknownClient) h.heap
  rw [acceptClient]
  cases hm : newClientInfo s.mem c socketId (some unknownClient) with
  | mk ok m =>
      rw [hm] at hh hsame hdata hout hnew
      cases ok with
      | false =>
          exact ⟨h.of_other hc hh hdata, hsame, hout, hdata, Or.inl rfl⟩
      | true =>
          obtain ⟨hcdata, hcbuf⟩ := hnew rfl
          have halloc := allocated_malloc m.heap.pool
          simp only
          cases hp : malloc m.heap.pool with
          | mk ok p =>
              rw [hp] at halloc
              obtain ⟨hh2, hsame2⟩ := hh.pool_call (halloc.inv hh.pool)
                (halloc.keeps []) (fun _ _ _ => List.not_mem_nil)
              have hout2 : Outside s.mem.heap (m.setPool p).heap :=
                hout.trans (outside_pool (halloc.keeps []))
              cases ok with
              | false =>
                  obtain ⟨hh3, hsame3, hdata3, hout3⟩ := releaseClientInfo_spec
                    (m := m.setPool p) c hh2
                  have hdata' : ∀ d, d ≠ c →
                      (releaseClientInfo (m.setPool p) c).data d
                        = s.mem.data d :=
                    fun d hd => (congrFun hdata3 d).trans (hdata d hd)
                  refine ⟨h.of_other hc hh3 hdata', ?_,
                    hout2.trans hout3, hdata', Or.inl rfl⟩
                  intro j hj
                  exact ((hsame j hj).trans (hsame2 j)).trans (hsame3 j hj)
              | true =>
                  have hother : ServerInv { s with mem := m.setPool p } :=
                    h.of_other hc hh2 hdata
                  have hcinfo : (m.setPool p).info c = updateClientName
                      ⟨socketId, List.replicate clientNameMaximumSize 0, 0⟩
                      (some unknownClient) := congrArg ClientData.info hcdata
                  obtain ⟨hcok, hcname⟩ := updateClientName_spec
                    ⟨socketId, List.replicate clientNameMaximumSize 0, 0⟩
                    unknownClient List.length_replicate
                  refine ⟨?_, fun j hj => (hsame j hj).trans (hsame2 j),
                    hout2, hdata, Or.inr ⟨rfl, hcbuf, ?_, ?_⟩⟩
                  rotate_left
                  · show cstr ((m.setPool p).info c).name = unknownClient
                    rw [hcinfo, hcname]
                    decide
                  · show ((m.setPool p).info c).pub = succ
                    rw [hcinfo]
                    rfl
                  exact {
                    heap := hh2
                    count := by
                      show s.clientCount + 1 = ((s.clients ++ [c]).length : Int)
                      rw [h.count, List.length_append, List.length_singleton,
                        Int.natCast_add]
                      rfl
                    nodup := List.Nodup.append h.nodup (List.nodup_singleton c)
                      (by
                        intro d hd hd'
                        rw [List.mem_singleton.mp hd'] at hd
                        exact hc hd)
                    sockets := by
                      show ((s.clients ++ [c]).map _).Nodup
                      rw [List.map_append]
                      refine List.Nodup.append hother.sockets
                        (List.nodup_singleton _) ?_
                      intro x hx hx'
                      obtain ⟨d, hd, rfl⟩ := List.mem_map.mp hx
                      have hne : d ≠ c := fun e => hc (e ▸ hd)
                      refine hsocket d hd ?_
                      rw [Clients.info, ← hdata d hne]
                      have hxc := List.mem_singleton.mp hx'
                      refine (show ((m.setPool p).info d).socketId
                        = ((m.setPool p).info c).socketId from hxc).trans ?_
                      rw [hcinfo]
                      rfl
                    check := by
                      intro d hd
                      rcases List.mem_append.mp hd with h1 | h2
                      · exact hother.check d h1
                      · rw [List.mem_singleton.mp h2]
                        show (m.data c).lastCheckCmdIndex = 0
                        rw [hcdata]
                    name := by
                      intro d hd
                      rcases List.mem_append.mp hd with h1 | h2
                      · exact hother.name d h1
                      · rw [List.mem_singleton.mp h2]
                        show NameOk ((m.setPool p).info c).name
                        rw [hcinfo]
                        exact hcok }

/-- A cache that is in no buffer goes back to the pool. -/
theorem recycle_outside {s : ServerInfo} {a : Addr} (hh : HeapInv s.mem.heap)
    (ha : Held s.pool a) (hout : ∀ i, a ∉ owned (s.mem.heap.buf i)) :
    HeapInv (s.setPool (recycleCache s.pool a).2).mem.heap
      ∧ ∀ i, Same s.mem.heap (s.setPool (recycleCache s.pool a).2).mem.heap i :=
  by
  have hback := (recycleCache_spec hh.pool ha).2
  refine hh.pool_call hback.inv hback.keeps ?_
  intro i b hb hm
  rw [List.mem_singleton.mp hm] at hb
  exact hout i hb

/-- The notice of a logout: the cache it borrows is in no buffer, so it survives
    the delivery and can be given back. -/
theorem notifyLogout_spec {s : ServerInfo} {c : PClientInfo} (h : ServerInv s)
    (hname : strlen (s.mem.info c).name < 30)
    (junk : List UInt8 × List UInt8) :
    ServerInv (notifyLogout s c junk).2
      ∧ (∀ d, Same s.mem.heap (notifyLogout s c junk).2.mem.heap (d, .reading))
      ∧ (NoFail s.pool → NoFail (notifyLogout s c junk).2.pool)
      ∧ (notifyLogout s c junk).2.mem.data = s.mem.data
      ∧ (notifyLogout s c junk).2.clients = s.clients := by
  obtain ⟨a, o, p', hnot, hbor, -, hmsg⟩ := createNotice_spec (p := s.pool)
    h.heap.pool junk (s.mem.info c).name msgLogoutSuffix
    (by decide) (by decide) (by
      have h14 : msgLogoutSuffix.length = 14 := rfl
      omega)
  have hborrowed := (handled_setPool h.heap hbor.inv hbor.keeps c).1
  have hfresh : ServerInv (s.setPool p') := h.of_heap hborrowed.heap rfl
  have houtside : ∀ i, a ∉ owned (s.mem.heap.buf i) :=
    fun i hi => hbor.fresh ((h.heap.inv i).heldOwned hi)
  obtain ⟨hdel, hdata, -⟩ := deliverIfAny_spec (o := o) hfresh.heap hfresh.count
    hfresh.nodup (fun msg hm => (hmsg msg hm).size) c
  rw [notifyLogout]
  simp only [hnot, recycleIfAny]
  generalize deliverIfAny (s.setPool p') o = r at hdel hdata
  have hinv : ServerInv r.2 := by
    refine hfresh.of_data hdel.heap hdel.clients hdel.clientCount ?_
    intro d hd
    rw [Clients.info, Clients.info, hdata]
    exact ⟨rfl, rfl, hfresh.name d hd⟩
  obtain ⟨hh, hsame⟩ := recycle_outside hinv.heap
    (hdel.outside.held a hbor.held houtside)
    (hdel.outside.apart a hbor.held houtside)
  have hback := (recycleCache_spec hinv.heap.pool (hdel.outside.held a hbor.held
    houtside)).2
  refine ⟨hinv.of_heap hh rfl, fun d => ?_, ?_, hdata, hdel.clients⟩
  · exact ((hborrowed.reading d).trans (hdel.reading d)).trans
      (hsame (d, .reading))
  · intro hnf
    exact (hdel.outside.noFail (hborrowed.outside.noFail hnf)).keeps hback.keeps

/-- The locked block of `user_logout` takes the client off the list. -/
theorem removeClient_spec {s : ServerInfo} {c : PClientInfo} (h : ServerInv s)
    (hc : c ∈ s.clients) :
    ServerInv (removeClient s c) ∧ (removeClient s c).mem = s.mem
      ∧ ∃ pre post, s.clients = pre ++ c :: post
        ∧ (removeClient s c).clients = pre ++ post := by
  obtain ⟨pre, post, hsplit, hdel⟩ := listDel_eq h.sockets hc
  have hsub : (pre ++ post).Sublist s.clients := by
    rw [hsplit]
    exact (List.sublist_cons_self c post).append_left pre
  have hremove : removeClient s c
      = { s with clients := pre ++ post, clientCount := s.clientCount - 1 } := by
    rw [removeClient, hdel]
  rw [hremove]
  refine ⟨?_, rfl, pre, post, hsplit, rfl⟩
  exact {
    heap := h.heap
    count := by
      have := h.count
      rw [hsplit, List.length_append, List.length_cons] at this
      show s.clientCount - 1 = ((pre ++ post).length : Int)
      rw [List.length_append]
      omega
    nodup := hsub.nodup h.nodup
    sockets := (hsub.map _).nodup h.sockets
    check := fun d hd => h.check d (hsub.subset hd)
    name := fun d hd => h.name d (hsub.subset hd) }

/-- **`user_logout`** takes the client off the list and leaves the others' reading
    buffers alone. -/
theorem userLogout_spec {s : ServerInfo} {c : PClientInfo} (h : ServerInv s)
    (hc : c ∈ s.clients) (junk : List UInt8 × List UInt8) :
    ServerInv (userLogout s c junk)
      ∧ (∀ d, d ≠ c →
          Same s.mem.heap (userLogout s c junk).mem.heap (d, .reading))
      ∧ (NoFail s.pool → NoFail (userLogout s c junk).pool)
      ∧ (userLogout s c junk).mem.data = s.mem.data
      ∧ ∃ pre post, s.clients = pre ++ c :: post
        ∧ (userLogout s c junk).clients = pre ++ post := by
  obtain ⟨hlist, hmem, pre, post, hsplit, hcl⟩ := removeClient_spec h hc
  have hname : strlen ((removeClient s c).mem.info c).name < 30 := by
    rw [hmem]
    exact (h.name c hc).strlen_lt
  obtain ⟨hinv₃, hsame₃, hnf₃, hdata₃, hcl₃⟩ := notifyLogout_spec hlist hname
    junk
  have hpool : (removeClient s c).pool = s.pool :=
    congrArg (fun m => m.heap.pool) hmem
  rw [hmem] at hsame₃ hdata₃
  rw [hpool] at hnf₃
  rw [hcl] at hcl₃
  rw [userLogout]
  dsimp only
  generalize notifyLogout (removeClient s c) c junk = r
    at hinv₃ hsame₃ hnf₃ hdata₃ hcl₃
  obtain ⟨hh₄, hsame₄, hdata₄, hout₄⟩ := releaseClientInfo_spec (m := r.2.mem) c
    hinv₃.heap
  have hinv₄ := hinv₃.of_heap hh₄ hdata₄
  have hread₄ : ∀ d, d ≠ c →
      Same s.mem.heap (releaseClientInfo r.2.mem c).heap (d, .reading) :=
    fun d hd => (hsame₃ d).trans (hsame₄ (d, .reading) hd)
  have hnf₄ : NoFail s.pool → NoFail (releaseClientInfo r.2.mem c).heap.pool :=
    fun hnf => hout₄.noFail (hnf₃ hnf)
  have hdata₅ := hdata₄.trans hdata₃
  by_cases hn : cInt r.1 ≠ 0
  · rw [if_pos hn]
    exact ⟨hinv₄.sign _, hread₄, hnf₄, hdata₅, pre, post, hsplit, hcl₃⟩
  · rw [if_neg hn]
    exact ⟨hinv₄, hread₄, hnf₄, hdata₅, pre, post, hsplit, hcl₃⟩

/-- Marking a client changes its mark only. -/
theorem markFail_spec {s : ServerInfo} (h : ServerInv s) (c : PClientInfo) :
    ServerInv (markFail s c)
      ∧ ∀ d, ((markFail s c).mem.info d).name = (s.mem.info d).name := by
  have hinfo : (markFail s c).mem.info c = { s.mem.info c with pub := fail } :=
    info_setInfo s.mem c { s.mem.info c with pub := fail }
  have hother : ∀ d, d ≠ c → (markFail s c).mem.data d = s.mem.data d :=
    fun d hd => data_setInfo_of_ne s.mem hd { s.mem.info c with pub := fail }
  have hname : ∀ d, ((markFail s c).mem.info d).name = (s.mem.info d).name := by
    intro d
    by_cases hdc : d = c
    · rw [hdc, hinfo]
    · exact congrArg (fun x => x.info.name) (hother d hdc)
  refine ⟨h.of_data h.heap rfl rfl ?_, hname⟩
  intro d hd
  rw [hname d]
  by_cases hdc : d = c
  · subst hdc
    have hsocket := congrArg ClientInfo.socketId hinfo
    exact ⟨check_setInfo .., hsocket, h.name d hd⟩
  · exact ⟨congrArg ClientData.lastCheckCmdIndex (hother d hdc),
      congrArg (fun x => x.info.socketId) (hother d hdc), h.name d hd⟩

/-! ## The system -/

/-- The calls, with what the environment contributes to each. -/
inductive ServerEvent where
  | accept (c : PClientInfo) (socketId : Int)
  | fetch (c : PClientInfo) (byteAvailable : Nat) (reads : List ReadOutcome)
  | handle (c : PClientInfo) (envs : Nat → Surround)
  | markFail (c : PClientInfo)
  | flush (c : PClientInfo) (writes : List WriteOutcome)
  | logout (c : PClientInfo) (junk : List UInt8 × List UInt8)

/-- The server and the record of a run. -/
structure ServerRun where
  server : ServerInfo
  received : PClientInfo → List UInt8
  handed : PClientInfo → List (List UInt8)

/-- One call.  A new client gets a free block and a socket no other has; the
    system calls report no error; and every other call is for a listed client. -/
def serverStep (r : ServerRun) : ServerEvent → Option ServerRun
  | .accept c socketId =>
      if c ∉ r.server.clients
          ∧ ∀ d ∈ r.server.clients, (r.server.mem.info d).socketId ≠ socketId then
        some ⟨acceptClient r.server c socketId,
          Function.update r.received c [], Function.update r.handed c []⟩
      else none
  | .fetch c byteAvailable reads =>
      if c ∈ r.server.clients ∧ byteAvailable < 2 ^ 31 ∧ ReadsOk reads then
        let f := fetchFromClient r.server.mem c (some byteAvailable) reads
        some ⟨{ r.server with mem := f.clients },
          Function.update r.received c (r.received c ++ f.got), r.handed⟩
      else none
  | .handle c envs =>
      if c ∈ r.server.clients then
        let h := tryToHandleMsg r.server c envs
        some ⟨h.server, r.received,
          Function.update r.handed c (r.handed c ++ h.lines)⟩
      else none
  | .markFail c =>
      if c ∈ r.server.clients then
        some { r with server := IMServerInfo.markFail r.server c }
      else none
  | .flush c writes =>
      if c ∈ r.server.clients ∧ WritesOk writes then
        some { r with
          server := { r.server with
            mem := (flushMessages r.server.mem c writes).clients } }
      else none
  | .logout c junk =>
      if c ∈ r.server.clients then
        some { r with server := userLogout r.server c junk }
      else none

theorem serverRun_fields {r : ServerRun} {s : ServerInfo}
    {received : PClientInfo → List UInt8}
    {handed : PClientInfo → List (List UInt8)}
    (h : some (ServerRun.mk s received handed) = some r) :
    r.server = s ∧ r.received = received ∧ r.handed = handed := by
  obtain rfl := Option.some.inj h
  exact ⟨rfl, rfl, rfl⟩

/-- What a call of `try_to_handle_msg` does to the run. -/
theorem serverStep_handle {r r' : ServerRun} {c : PClientInfo}
    {envs : Nat → Surround} (h : serverStep r (.handle c envs) = some r') :
    c ∈ r.server.clients
      ∧ r'.server = (tryToHandleMsg r.server c envs).server
      ∧ r'.received = r.received
      ∧ r'.handed = Function.update r.handed c
        (r.handed c ++ (tryToHandleMsg r.server c envs).lines) := by
  rw [serverStep] at h
  obtain ⟨hc, hr⟩ := Option.ite_none_right_eq_some.mp h
  exact ⟨hc, serverRun_fields hr⟩

/-- The server starts without clients, on an untouched pool. -/
def serverSystem : System ServerRun ServerEvent where
  start := fun r => r.server.clients = [] ∧ r.server.clientCount = 0
    ∧ (∃ mem pastTable mallocs,
        r.server.pool = emptyPool mem pastTable mallocs)
    ∧ ∀ i, r.server.mem.heap.buf i = []
  step := serverStep

/-- **THE RUN INVARIANT**: what went to the dispatch and what still waits in the
    reading buffer is what the socket delivered. -/
structure RunInv (r : ServerRun) : Prop where
  server : ServerInv r.server
  framed : ∀ c ∈ r.server.clients,
    (r.handed c).flatten ++ r.server.mem.reading c = r.received c
  isLine : ∀ c ∈ r.server.clients, ∀ line ∈ r.handed c, IsLine line

theorem runInv_start {r : ServerRun} (h : serverSystem.start r) : RunInv r := by
  obtain ⟨hcl, hcount, ⟨mem, pastTable, mallocs, hpool⟩, hbuf⟩ := h
  have hinv : PoolInv r.server.pool := by
    rw [hpool]
    exact poolInv_empty mem pastTable mallocs
  refine ⟨⟨heapInv_start ⟨hinv, hbuf⟩, by rw [hcl, hcount]; rfl, ?_, ?_, ?_, ?_⟩,
    ?_, ?_⟩
  · rw [hcl]
    exact List.nodup_nil
  · rw [hcl]
    exact List.nodup_nil
  all_goals
    intro c hc
    rw [hcl] at hc
    cases hc

/-- What a call does to the invariant: the server keeps its own, and the other
    clients' buffers and records stay. -/
theorem runInv_update {r : ServerRun} {s' : ServerInfo} {c : PClientInfo}
    (bytes : List UInt8) (lines : List (List UInt8)) (h : RunInv r)
    (hs : ServerInv s') (hsub : ∀ d ∈ s'.clients, d = c ∨ d ∈ r.server.clients)
    (hothers : ∀ d, d ≠ c → s'.mem.reading d = r.server.mem.reading d)
    (hframed : c ∈ s'.clients → lines.flatten ++ s'.mem.reading c = bytes)
    (hlines : c ∈ s'.clients → ∀ line ∈ lines, IsLine line) :
    RunInv ⟨s', Function.update r.received c bytes,
      Function.update r.handed c lines⟩ := by
  refine ⟨hs, ?_, ?_⟩
  · intro d hd
    simp only
    by_cases hdc : d = c
    · subst hdc
      rw [Function.update_self, Function.update_self]
      exact hframed hd
    · rw [Function.update_of_ne hdc, Function.update_of_ne hdc, hothers d hdc]
      exact h.framed d ((hsub d hd).resolve_left hdc)
  · intro d hd
    simp only
    by_cases hdc : d = c
    · subst hdc
      rw [Function.update_self]
      exact hlines hd
    · rw [Function.update_of_ne hdc]
      exact h.isLine d ((hsub d hd).resolve_left hdc)

/-- A call that touches no reading buffer of a client it leaves listed. -/
theorem RunInv.keep {r : ServerRun} {s' : ServerInfo} (h : RunInv r)
    (hs : ServerInv s') (hsub : ∀ d ∈ s'.clients, d ∈ r.server.clients)
    (hread : ∀ d ∈ s'.clients, s'.mem.reading d = r.server.mem.reading d) :
    RunInv { r with server := s' } where
  server := hs
  framed := fun d hd => by
    rw [hread d hd]
    exact h.framed d (hsub d hd)
  isLine := fun d hd => h.isLine d (hsub d hd)

/-- The step lemma: every call keeps the run invariant. -/
theorem runInv_step {r r' : ServerRun} {e : ServerEvent} (h : RunInv r)
    (hstep : serverSystem.step r e = some r') : RunInv r' := by
  have hstep' : serverStep r e = some r' := hstep
  cases e with
  | accept c socketId =>
      rw [serverStep] at hstep'
      split at hstep'
      · next hok =>
          obtain rfl := Option.some.inj hstep'
          obtain ⟨hs, hsame, -, -, hcl⟩ := acceptClient_spec h.server hok.1
            hok.2
          have hno : (acceptClient r.server c socketId).clients
              = r.server.clients →
              c ∉ (acceptClient r.server c socketId).clients :=
            fun e => e ▸ hok.1
          refine runInv_update _ _ h hs ?_
            (fun d hd => (hsame (d, .reading) hd).content) ?_
            (fun _ _ hl => by cases hl)
          · intro d hd
            rcases hcl with h1 | ⟨h2, -⟩
            · exact Or.inr (h1 ▸ hd)
            · rw [h2] at hd
              exact (List.mem_append.mp hd).symm.imp_left List.mem_singleton.mp
          · intro hc
            rcases hcl with h1 | ⟨-, h2⟩
            · exact absurd hc (hno h1)
            · have hbuf := h2.1 .reading
              refine (List.nil_append _).trans ?_
              rw [Clients.reading, BufferHeap.content, hbuf]
              rfl
      · cases hstep'
  | fetch c byteAvailable reads =>
      rw [serverStep] at hstep'
      split at hstep'
      · next hok =>
          obtain rfl := Option.some.inj hstep'
          obtain ⟨hc, hn, hr⟩ := hok
          obtain ⟨hh, hread, hsame, hdata, -⟩ := fetchFromClient_spec (c := c)
            h.server.heap hn hr
          have hupd := runInv_update (c := c) (r.received c
            ++ (fetchFromClient r.server.mem c (some byteAvailable) reads).got)
            (r.handed c) h (h.server.of_heap hh hdata)
            (fun d hd => Or.inr hd)
            (fun d hd => (hsame (d, .reading)
              (fun e => hd (congrArg Prod.fst e))).content)
            (fun _ => by
              refine (congrArg (_ ++ ·) hread).trans ?_
              rw [← List.append_assoc, h.framed c hc])
            (fun _ => h.isLine c hc)
          rw [Function.update_eq_self] at hupd
          exact hupd
      · cases hstep'
  | handle c envs =>
      rw [serverStep] at hstep'
      split at hstep'
      · next hc =>
          obtain rfl := Option.some.inj hstep'
          have hl := tryToHandleMsg_spec h.server hc envs
          have hupd := runInv_update (c := c) (r.received c)
            (r.handed c ++ (tryToHandleMsg r.server c envs).lines) h
            hl.inv (fun d hd => Or.inr (hl.clients ▸ hd))
            (fun d hd => (hl.others d hd).content)
            (fun _ => by
              rw [List.flatten_append, List.append_assoc, hl.split,
                h.framed c hc])
            (fun _ line hline => (List.mem_append.mp hline).elim
              (h.isLine c hc line) (hl.isLine line))
          rw [Function.update_eq_self] at hupd
          exact hupd
      · cases hstep'
  | markFail c =>
      rw [serverStep] at hstep'
      split at hstep'
      · next hc =>
          obtain rfl := Option.some.inj hstep'
          exact h.keep (markFail_spec h.server c).1 (fun d hd => hd)
            (fun d _ => rfl)
      · cases hstep'
  | flush c writes =>
      rw [serverStep] at hstep'
      split at hstep'
      · next hok =>
          obtain rfl := Option.some.inj hstep'
          obtain ⟨hh, hsame, hdata, -⟩ := flushMessages_spec (c := c)
            h.server.heap hok.2
          exact h.keep (h.server.of_heap hh hdata) (fun d hd => hd)
            (fun d _ => (hsame (d, .reading) (reading_ne_writing d c)).content)
      · cases hstep'
  | logout c junk =>
      rw [serverStep] at hstep'
      split at hstep'
      · next hc =>
          obtain rfl := Option.some.inj hstep'
          obtain ⟨hs, hsame, -, -, pre, post, hsplit, hcl⟩ := userLogout_spec
            h.server hc junk
          have hnd := h.server.nodup
          rw [hsplit, List.nodup_middle, List.nodup_cons] at hnd
          refine h.keep hs ?_ ?_
          · intro d hd
            rw [hcl] at hd
            rw [hsplit]
            exact ((List.sublist_cons_self c post).append_left pre).subset hd
          · intro d hd
            rw [hcl] at hd
            exact (hsame d (fun e => hnd.1 (e ▸ hd))).content
      · cases hstep'

theorem runInv_reachable {r : ServerRun} (h : Reachable serverSystem r) :
    RunInv r :=
  reachable_inv serverSystem (fun _ => runInv_start)
    (fun _ _ _ => runInv_step) h

/-- The server before any call, on blank memory. -/
def freshServer : ServerRun where
  server :=
    { clients := []
      clientCount := 0
      signToFlushMsg := 0
      mem :=
        { data := fun _ => ⟨⟨0, [], 0⟩, 0⟩
          heap := ⟨emptyPool (fun _ => ⟨0, 0, []⟩) (fun _ => 0) [], fun _ => []⟩ } }
  received := fun _ => []
  handed := fun _ => []

theorem freshServer_start : serverSystem.start freshServer :=
  ⟨rfl, rfl, ⟨_, _, _, rfl⟩, fun _ => rfl⟩

/-- A connected client. -/
def connected : List ServerEvent := [.accept 1 4]

theorem connected_ready : ∃ r, runFrom serverSystem freshServer connected = some r
    ∧ ServerInv r.server ∧ 1 ∈ r.server.clients ∧ NoFail r.server.pool := by
  have hrun : ((runFrom serverSystem freshServer connected).any fun r =>
      decide ((1 : PClientInfo) ∈ r.server.clients
        ∧ ∀ ok ∈ r.server.pool.mallocs, ok = true)) = true := by decide +kernel
  obtain ⟨r, hr, hp⟩ := (Option.any_eq_true _ _).mp hrun
  obtain ⟨hc, hnf⟩ := of_decide_eq_true hp
  exact ⟨r, hr, (runInv_reachable (runFrom_reachable serverSystem connected (.start
    freshServer_start) hr)).server, hc, hnf⟩

end IMServerRun

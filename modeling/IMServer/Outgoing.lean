import IMServer.Attribution

/-! # Outgoing — what reaches a socket

    `send_msg_to_client` appends a message to a writing buffer, and
    `flush_messages` takes bytes out of it as `write` accepts them.  The reading
    thread sends the messages of the lines it handles, the writing thread the
    notice of the client it logs out; here the calls of both come in any order.
    `outgoing_stream` says that the bytes written and the bytes still queued are
    the messages sent, one after the other, each of them one line. -/

namespace IMOutgoing

open IMBytes IMCString IMMachineInt IMCachePool IMBuffer IMBufferInvariant
  IMBufferAppend IMBufferTake IMBufferQueue IMClientInfo IMLineFraming IMMessage
  IMMessageFormat IMServerInfo IMDelivery IMDispatch IMServerRun IMRouting
  IMAttribution IMTransition

/-! ## Messages that are one line -/

/-- The text of a `TO-ALL:` line starts inside the line, and so does that of a
    `TO-C-` line, whose recipient is shorter than 30 bytes; `after` is the memory
    behind the line. -/
def InBounds (line after : List UInt8) : Prop :=
  (cmdToAll <+: line → 8 < line.length)
    ∧ (cmdToC <+: line → ∀ i ∈ strchr (line ++ after) 58,
        i + 2 < line.length ∧ i - 5 < 30)

instance (line after : List UInt8) : Decidable (InBounds line after) :=
  inferInstanceAs (Decidable (_ ∧ _))

/-- A message, and whether the line it was made of was in bounds. -/
structure Built where
  msg : Msg
  inBounds : Bool

/-- The bytes that are sent: `size` bytes of the text. -/
def Built.bytes (b : Built) : List UInt8 :=
  b.msg.content.take b.msg.size

/-- The message can be sent whole, and it is one line when the line it was made
    of was in bounds. -/
structure WellBuilt (b : Built) : Prop where
  size : b.msg.size < 2 ^ 31
  isLine : b.inBounds = true → IsLine b.bytes

theorem isLine_concat {text : List UInt8} (h10 : (10 : UInt8) ∉ text)
    (hz : (0 : UInt8) ∉ text) : IsLine (text ++ ascii "\n") :=
  ⟨text, rfl, h10, hz⟩

/-- A peer message is one line if its name and its text have no newline. -/
theorem isLine_peerText {name text : List UInt8} (hn10 : (10 : UInt8) ∉ name)
    (hnz : (0 : UInt8) ∉ name) (ht10 : (10 : UInt8) ∉ text)
    (htz : (0 : UInt8) ∉ text) : IsLine (peerText name text) := by
  rw [peerText_eq]
  refine isLine_concat ?_ ?_
  · intro hm
    simp only [List.mem_append] at hm
    rcases hm with (h | h) | (h | h) | h
    · exact absurd h (by decide)
    · exact absurd h (by decide)
    · exact hn10 h
    · exact absurd h (by decide)
    · exact ht10 h
  · intro hm
    simp only [List.mem_append] at hm
    rcases hm with (h | h) | (h | h) | h
    · exact absurd h (by decide)
    · exact absurd h (by decide)
    · exact hnz h
    · exact absurd h (by decide)
    · exact htz h

/-- A notice is one line if its name has no newline. -/
theorem isLine_noticeText {name suffix : List UInt8}
    (hn10 : (10 : UInt8) ∉ name) (hnz : (0 : UInt8) ∉ name)
    (hs10 : (10 : UInt8) ∉ suffix) (hsz : (0 : UInt8) ∉ suffix) :
    IsLine (noticeText name suffix) := by
  rw [noticeText, sysText_eq]
  refine isLine_peerText (by decide) (by decide) ?_ ?_
  · intro hm
    simp only [List.mem_append] at hm
    rcases hm with (h | h) | h
    · exact hn10 h
    · exact absurd h (by decide)
    · exact hs10 h
  · intro hm
    simp only [List.mem_append] at hm
    rcases hm with (h | h) | h
    · exact hnz h
    · exact absurd h (by decide)
    · exact hsz h

/-- The notice of a stored name without a newline. -/
theorem wellBuilt_notice {junk : List UInt8 × List UInt8}
    {name suffix : List UInt8} {msg : Msg} (h : Notice junk name suffix msg)
    (h10 : (10 : UInt8) ∉ cstr name) (hs10 : (10 : UInt8) ∉ suffix)
    (hsz : (0 : UInt8) ∉ suffix) (inBounds : Bool) :
    WellBuilt ⟨msg, inBounds⟩ := by
  refine ⟨h.size, fun _ => ?_⟩
  rw [Built.bytes, h.text h10]
  exact isLine_noticeText h10 (zero_notMem_cstr name) hs10 hsz

/-- The message of a line in bounds. -/
theorem wellBuilt_peer {s : ServerInfo} {c : PClientInfo}
    {target text : List UInt8} {r : Option Msg × ServerInfo}
    (h : PeerMade s c target text r) (hn10 : (10 : UInt8) ∉ nameOf s.mem c)
    (h10 : (10 : UInt8) ∉ text) (hz : (0 : UInt8) ∉ text) {msg : Msg}
    (hm : r.1 = some msg) (inBounds : Bool) : WellBuilt ⟨msg, inBounds⟩ := by
  refine ⟨h.size msg hm, fun _ => ?_⟩
  rw [Built.bytes, (h.peer msg hm).text]
  exact isLine_peerText hn10 (zero_notMem_cstr _) h10 hz

/-! ## The lines of a client -/

/-- The name of the sender stays without newlines. -/
theorem dispatchMsg_name {s : ServerInfo} {c : PClientInfo} (h : ServerInv s)
    (hc : c ∈ s.clients) (hn10 : (10 : UInt8) ∉ nameOf s.mem c)
    (env : Surround) {line : List UInt8} (hl : IsLine line)
    (hlen : line.length ≤ 512) :
    (10 : UInt8) ∉ nameOf
      (dispatchMsg s c env (line ++ env.afterLine)).2.mem c := by
  by_cases hlogin : cmdLogin <+: line
  · rw [dispatchMsg, if_pos ((strstr_command hl (by decide) (by decide)
      _).mpr hlogin)]
    obtain ⟨text, rfl, h10, hz⟩ := command_line hl hlogin (by decide)
    rw [nameOf, (userLogin_name h hc env.junk env.afterLine h10 hz).2]
    exact fun hm => h10 (List.mem_of_mem_take hm)
  · have hdata := dispatchMsg_data (c := c) h.heap (h.name c hc) env
      (bounded_line env hlen)
      (fun e => hlogin ((strstr_command hl (by decide) (by decide) _).mp e))
    rw [nameOf, Clients.info, hdata]
    exact hn10

/-- The parts of a `TO-C-` line in bounds. -/
theorem toC_parts {line after : List UInt8} {i : Nat} (hl : IsLine line)
    (hpre : cmdToC <+: line) (hi : strchr (line ++ after) 58 = some i)
    (h2 : i + 2 < line.length) :
    ∃ rcpt x text, line = cmdToC ++ rcpt ++ 58 :: x :: text ++ [10]
      ∧ rcpt.length = i - 5 ∧ (58 : UInt8) ∉ rcpt ∧ (0 : UInt8) ∉ rcpt
      ∧ (10 : UInt8) ∉ text ∧ (0 : UInt8) ∉ text := by
  obtain ⟨h5, -⟩ := indicator_ge (hpre.trans (List.prefix_append _ _)) hi
  obtain ⟨pre, post, hsplit, hlen, h58, hz⟩ := strchr_eq_some hi
  -- the line goes on behind the colon
  obtain ⟨t, rfl⟩ : pre ++ [58] <+: line := by
    have hcolon : pre ++ [58] <+: line ++ after :=
      ⟨post, by rw [hsplit, List.append_assoc, List.singleton_append]⟩
    refine List.prefix_of_prefix_length_le hcolon (List.prefix_append _ _) ?_
    rw [List.length_append, List.length_singleton]
    omega
  obtain ⟨rcpt, rfl⟩ : cmdToC <+: pre := by
    refine List.prefix_of_prefix_length_le hpre
      ⟨[58] ++ t, (List.append_assoc ..).symm⟩ ?_
    rw [show cmdToC.length = 5 from rfl]
    omega
  obtain ⟨body, hbody, h10, hbz⟩ := hl
  have ht : 2 ≤ t.length := by
    simp only [List.length_append, List.length_singleton] at h2 hlen
    omega
  obtain ⟨x, t', rfl⟩ := List.exists_cons_of_length_pos
    (Nat.lt_of_lt_of_le Nat.zero_lt_two ht)
  rcases List.eq_nil_or_concat t' with rfl | ⟨text, b, rfl⟩
  · exact absurd ht (by simp)
  · rw [List.concat_eq_append] at hbody ⊢
    have hcut : (cmdToC ++ rcpt ++ [58] ++ x :: text) ++ [b] = body ++ [10] := by
      rw [← hbody]
      simp
    obtain ⟨rfl, hb⟩ := List.append_inj' hcut rfl
    refine ⟨rcpt, x, text, ?_, ?_, ?_, ?_, ?_, ?_⟩
    · rw [hb]
      simp
    · rw [List.length_append, show cmdToC.length = 5 from rfl] at hlen
      omega
    · exact fun hm => h58 (List.mem_append_right _ hm)
    · exact fun hm => hz (List.mem_append_right _ hm)
    · exact fun hm => h10 (List.mem_append_right _ (List.mem_cons_of_mem x hm))
    · exact fun hm => hbz (List.mem_append_right _ (List.mem_cons_of_mem x hm))

/-- **THE MESSAGE OF A LINE**, in bounds or not. -/
theorem dispatchMsg_wellBuilt {s : ServerInfo} {c : PClientInfo}
    (h : ServerInv s) (hc : c ∈ s.clients)
    (hn10 : (10 : UInt8) ∉ nameOf s.mem c) (env : Surround)
    {line : List UInt8} (hl : IsLine line) (hlen : line.length ≤ 512)
    {msg : Msg}
    (hm : (dispatchMsg s c env (line ++ env.afterLine)).1 = some msg) :
    WellBuilt ⟨msg, decide (InBounds line env.afterLine)⟩ := by
  obtain ⟨-, -, -, hsize⟩ := handled_dispatchMsg (c := c) h.heap (h.name c hc)
    env hlen
  by_cases hb : InBounds line env.afterLine
  · have hbound := bounded_line env hlen
    by_cases hlogin : cmdLogin <+: line
    · rw [dispatchMsg, if_pos ((strstr_command hl (by decide) (by decide)
        _).mpr hlogin)] at hm
      obtain ⟨-, -, -, -, -, hnotice⟩ := userLogin_spec (c := c) h.heap
        (h.name c hc) env.junk (line ++ env.afterLine)
      obtain ⟨text, rfl, h10, hz⟩ := command_line hl hlogin (by decide)
      refine wellBuilt_notice (hnotice msg hm) ?_ (by decide) (by decide) _
      rw [(userLogin_name h hc env.junk env.afterLine h10 hz).2]
      exact fun hmem => h10 (List.mem_of_mem_take hmem)
    · by_cases hall : cmdToAll <+: line
      · obtain ⟨text, rfl, h10, hz⟩ := command_line hl hall (by decide)
        have h8 := hb.1 hall
        rw [List.length_append, List.length_append,
          show cmdToAll.length = 7 from rfl, List.length_singleton] at h8
        obtain ⟨x, text', rfl⟩ := List.exists_cons_of_length_pos
          (show 0 < text.length by omega)
        have hsplit : cmdToAll ++ x :: text' ++ [10] ++ env.afterLine
            = cmdToAll ++ x :: (text' ++ 10 :: env.afterLine) := by simp
        rw [hsplit] at hm hbound
        rw [List.length_append, List.length_cons] at hbound
        have h10' : (10 : UInt8) ∉ text' :=
          fun hmem => h10 (List.mem_cons_of_mem x hmem)
        have hz' : (0 : UInt8) ∉ text' :=
          fun hmem => hz (List.mem_cons_of_mem x hmem)
        exact wellBuilt_peer (dispatchMsg_toAll (c := c) h.heap (h.name c hc)
          env x env.afterLine h10' hz' (by omega)) hn10 h10' hz' hm _
      · by_cases hto : cmdToC <+: line
        · cases hi : strchr (line ++ env.afterLine) 58 with
          | none =>
              rw [dispatchMsg, if_neg (fun e => hlogin ((strstr_command hl
                  (by decide) (by decide) _).mp e)),
                if_neg (fun e => hall ((strstr_command hl (by decide)
                  (by decide) _).mp e)),
                if_pos ((strstr_command hl (by decide) (by decide) _).mpr hto),
                hi] at hm
              cases hm
          | some i =>
              obtain ⟨h2, h30⟩ := hb.2 hto i hi
              obtain ⟨rcpt, x, text, rfl, hrcpt, h58, hzr, h10, hz⟩ :=
                toC_parts hl hto hi h2
              have hsplit : cmdToC ++ rcpt ++ 58 :: x :: text ++ [10]
                  ++ env.afterLine = cmdToC ++ rcpt
                    ++ 58 :: x :: (text ++ 10 :: env.afterLine) := by simp
              rw [hsplit] at hm hbound
              exact wellBuilt_peer (dispatchMsg_toC (c := c) h.heap
                (h.name c hc) env x env.afterLine h58 hzr (by omega) h10 hz
                hbound) hn10 h10 hz hm _
        · rw [dispatchMsg, if_neg (fun e => hlogin ((strstr_command hl
              (by decide) (by decide) _).mp e)),
            if_neg (fun e => hall ((strstr_command hl (by decide)
              (by decide) _).mp e)),
            if_neg (fun e => hto ((strstr_command hl (by decide)
              (by decide) _).mp e))] at hm
          cases hm
  · exact ⟨hsize msg hm, fun e => absurd (of_decide_eq_true e) hb⟩

/-! ## The calls of both threads -/

/-- The client that is being logged out, and the cache of its notice. -/
structure Leaving where
  client : PClientInfo
  cache : Option Addr

/-- The server between two calls; `written` and `sent` record, for each client,
    the bytes its socket took and the messages sent to it. -/
structure Outgoing where
  server : ServerInfo
  leaving : Option Leaving
  built : List Built
  written : PClientInfo → List UInt8
  sent : PClientInfo → List Built

/-- The clients that are not released. -/
def Outgoing.alive (o : Outgoing) : List PClientInfo :=
  o.server.clients ++ o.leaving.toList.map Leaving.client

/-- The calls.  `handle` takes one line and makes its message, `remove`, `notice`
    and `release` are the parts of `user_logout` around its delivery, and `send`
    sends the message number `n` to a client. -/
inductive OutgoingCall where
  | accept (c : PClientInfo) (socketId : Int)
  | fetch (c : PClientInfo) (byteAvailable : Nat) (reads : List ReadOutcome)
  | handle (c : PClientInfo) (env : Surround)
  | markFail (c : PClientInfo)
  | send (c : PClientInfo) (n : Nat)
  | flush (c : PClientInfo) (writes : List WriteOutcome)
  | remove (c : PClientInfo)
  | notice (junk : List UInt8 × List UInt8)
  | release

/-- One call, when `read` and `write` report no error. -/
def outgoingStep (o : Outgoing) : OutgoingCall → Option Outgoing
  | .accept c socketId =>
      if c ∉ o.alive
          ∧ ∀ d ∈ o.server.clients, (o.server.mem.info d).socketId ≠ socketId then
        some { o with
          server := acceptClient o.server c socketId
          written := Function.update o.written c []
          sent := Function.update o.sent c [] }
      else none
  | .fetch c byteAvailable reads =>
      if c ∈ o.server.clients ∧ byteAvailable < 2 ^ 31 ∧ ReadsOk reads then
        let f := fetchFromClient o.server.mem c (some byteAvailable) reads
        some { o with server := { o.server with mem := f.clients } }
      else none
  | .handle c env =>
      if c ∈ o.server.clients
          ∧ (fetchMsgFromClient o.server.mem env.afterCache c).ret > 0 then
        let line := roundLine o.server c env
        let r := dispatchMsg (fetched o.server c env) c env
          (line ++ env.afterLine)
        some { o with
          server := r.2
          built := o.built ++ r.1.toList.map fun msg =>
            ⟨msg, decide (InBounds line env.afterLine)⟩ }
      else none
  | .markFail c =>
      if c ∈ o.server.clients then
        some { o with server := IMServerInfo.markFail o.server c }
      else none
  | .send c n =>
      if c ∈ o.alive then
        o.built[n]?.map fun b =>
          { o with
            server := { o.server with mem := (sendMsgToClient o.server.mem c
              b.msg.content b.msg.size).2 }
            sent := Function.update o.sent c (o.sent c ++ [b]) }
      else none
  | .flush c writes =>
      if c ∈ o.server.clients ∧ WritesOk writes then
        let f := flushMessages o.server.mem c writes
        some { o with
          server := { o.server with mem := f.clients }
          written := Function.update o.written c (o.written c ++ f.bytes) }
      else none
  | .remove c =>
      if c ∈ o.server.clients ∧ o.leaving.isNone then
        some { o with
          server := removeClient o.server c
          leaving := some ⟨c, none⟩ }
      else none
  | .notice junk =>
      match o.leaving with
      | some ⟨c, none⟩ =>
          let (cache, message, p) := createNotice o.server.pool junk
            (o.server.mem.info c).name msgLogoutSuffix
          some { o with
            server := o.server.setPool p
            leaving := some ⟨c, cache⟩
            built := o.built ++ message.toList.map fun msg => ⟨msg, true⟩ }
      | _ => none
  | .release =>
      o.leaving.map fun l =>
        let s := o.server.setPool (recycleIfAny o.server.pool l.cache)
        { o with
          server := { s with mem := releaseClientInfo s.mem l.client }
          leaving := none }

/-- The server starts without clients, and no allocation fails. -/
def outgoingSystem : System Outgoing OutgoingCall where
  start := fun o => serverSystem.start ⟨o.server, o.written, fun _ => []⟩
    ∧ NoFail o.server.pool ∧ o.leaving = none ∧ o.built = []
    ∧ ∀ c, o.written c = [] ∧ o.sent c = []
  step := outgoingStep

/-- The loop of `deliver_msg_to_all_clients` is a sequence of such sends: to the
    clients the message is for. -/
theorem deliverLoop_sends {n : Nat} {b : Built} :
    ∀ (L : List PClientInfo) (k : Nat) (o : Outgoing), o.built[n]? = some b →
      (∀ c ∈ L, c ∈ o.alive) →
      ∃ o', runFrom outgoingSystem o ((L.filter fun c =>
          decide (Gets o.server.mem b.msg c)).map fun c => .send c n) = some o'
        ∧ o'.server = { o.server with
          mem := (deliverLoop b.msg (decide (isMsgToAll b.msg = 0))
            (L.map some) k o.server.mem).2 } := by
  intro L
  induction L with
  | nil => exact fun k o _ _ => ⟨o, rfl, rfl⟩
  | cons c L ih =>
      intro k o hb halive
      have hrest : ∀ d ∈ L, d ∈ o.alive :=
        fun d hd => halive d (List.mem_cons_of_mem c hd)
      rw [List.map_cons, deliverLoop]
      simp only [deliverMsgToClient_eq]
      by_cases hg : Gets o.server.mem b.msg c
      · rw [List.filter_cons, if_pos (decide_eq_true hg), List.map_cons]
        simp only [if_pos hg]
        obtain ⟨o', hrun, hserver⟩ := ih (k + 1) { o with
          server := { o.server with mem := (sendMsgToClient o.server.mem c
            b.msg.content b.msg.size).2 }
          sent := Function.update o.sent c (o.sent c ++ [b]) } hb hrest
        refine ⟨o', ?_, hserver⟩
        rw [runFrom]
        refine Option.bind_eq_some_iff.mpr ⟨_, ?_, hrun⟩
        show outgoingStep o (.send c n) = _
        rw [outgoingStep, if_pos (halive c (List.mem_cons_self ..)), hb]
        rfl
      · rw [List.filter_cons, if_neg (fun e => hg (of_decide_eq_true e))]
        simp only [if_neg hg]
        exact ih k o hb hrest

/-! ## The invariant -/

/-- **THE OUTGOING INVARIANT**. -/
structure OutgoingInv (o : Outgoing) : Prop where
  server : ServerInv o.server
  noFail : NoFail o.server.pool
  name : ∀ c ∈ o.alive, NameOk (o.server.mem.info c).name
    ∧ (10 : UInt8) ∉ nameOf o.server.mem c
  off : ∀ l ∈ o.leaving, l.client ∉ o.server.clients
  cache : ∀ l ∈ o.leaving, ∀ a ∈ l.cache, Held o.server.pool a
    ∧ ∀ i, a ∉ owned (o.server.mem.heap.buf i)
  built : ∀ b ∈ o.built, WellBuilt b
  sent : ∀ c, ∀ b ∈ o.sent c, WellBuilt b
  stream : ∀ c ∈ o.alive, o.written c ++ o.server.mem.writing c
    = ((o.sent c).map Built.bytes).flatten

theorem mem_alive {o : Outgoing} {c : PClientInfo} :
    c ∈ o.alive ↔ c ∈ o.server.clients ∨ ∃ l ∈ o.leaving, l.client = c := by
  rw [Outgoing.alive, List.mem_append, List.mem_map]
  simp only [Option.mem_toList, Option.mem_def]

/-- A call that leaves the list and the writing buffers alone. -/
theorem OutgoingInv.calls {o : Outgoing} (h : OutgoingInv o) {s' : ServerInfo}
    {built : List Built} (hs : ServerInv s')
    (hout : Outside o.server.mem.heap s'.mem.heap)
    (hcl : s'.clients = o.server.clients)
    (hname : ∀ c ∈ o.alive, NameOk (s'.mem.info c).name
      ∧ (10 : UInt8) ∉ nameOf s'.mem c)
    (hwriting : ∀ c, s'.mem.writing c = o.server.mem.writing c)
    (hbuilt : ∀ b ∈ built, b ∈ o.built ∨ WellBuilt b) :
    OutgoingInv { o with server := s', built := built } := by
  have halive : ∀ c, c ∈ Outgoing.alive { o with server := s', built := built }
      → c ∈ o.alive := by
    intro c hc
    rw [mem_alive] at hc ⊢
    rw [← hcl]
    exact hc
  exact {
    server := hs
    noFail := hout.noFail h.noFail
    name := fun c hc => hname c (halive c hc)
    off := fun l hl => by
      rw [hcl]
      exact h.off l hl
    cache := fun l hl a ha => by
      obtain ⟨h1, h2⟩ := h.cache l hl a ha
      exact ⟨hout.held a h1 h2, hout.apart a h1 h2⟩
    built := fun b hb => (hbuilt b hb).elim (h.built b) id
    sent := h.sent
    stream := fun c hc => by
      rw [hwriting c]
      exact h.stream c (halive c hc) }

/-- A call on the writing buffer of `c`, which is told to the records. -/
theorem OutgoingInv.moved {o : Outgoing} (h : OutgoingInv o) {m : Clients}
    (c : PClientInfo) (bytes : List UInt8) (sent : List Built)
    (hh : HeapInv m.heap) (hout : Outside o.server.mem.heap m.heap)
    (hdata : m.data = o.server.mem.data)
    (hothers : ∀ d, d ≠ c → m.writing d = o.server.mem.writing d)
    (hsent : ∀ b ∈ sent, WellBuilt b)
    (hstream : bytes ++ m.writing c = (sent.map Built.bytes).flatten) :
    OutgoingInv { o with
      server := { o.server with mem := m }
      written := Function.update o.written c bytes
      sent := Function.update o.sent c sent } := by
  have hinfo : ∀ d, m.info d = o.server.mem.info d :=
    fun d => congrArg ClientData.info (congrFun hdata d)
  refine {
    server := h.server.of_heap hh hdata
    noFail := hout.noFail h.noFail
    name := fun d hd => ?_
    off := h.off
    cache := fun l hl a ha => by
      obtain ⟨h1, h2⟩ := h.cache l hl a ha
      exact ⟨hout.held a h1 h2, hout.apart a h1 h2⟩
    built := h.built
    sent := fun d => ?_
    stream := fun d hd => ?_ }
  · have hd' := h.name d hd
    rw [nameOf, ← hinfo d] at hd'
    exact hd'
  · simp only
    by_cases hdc : d = c
    · rw [hdc, Function.update_self]
      exact hsent
    · rw [Function.update_of_ne hdc]
      exact h.sent d
  · simp only
    by_cases hdc : d = c
    · rw [hdc, Function.update_self, Function.update_self]
      exact hstream
    · rw [Function.update_of_ne hdc, Function.update_of_ne hdc, hothers d hdc]
      exact h.stream d hd

/-- A new client. -/
theorem OutgoingInv.accept {o : Outgoing} (h : OutgoingInv o) {c : PClientInfo}
    {socketId : Int} (hc : c ∉ o.alive)
    (hsocket : ∀ d ∈ o.server.clients,
      (o.server.mem.info d).socketId ≠ socketId) :
    OutgoingInv { o with
      server := acceptClient o.server c socketId
      written := Function.update o.written c []
      sent := Function.update o.sent c [] } := by
  have hcl : c ∉ o.server.clients :=
    fun e => hc (mem_alive.mpr (Or.inl e))
  obtain ⟨hs, hsame, hout, hdata, hlist⟩ := acceptClient_spec h.server hcl
    hsocket
  generalize acceptClient o.server c socketId = s' at *
  have hsub : ∀ d ∈ s'.clients, d ∈ o.server.clients ∨ d = c := by
    intro d hd
    rcases hlist with h1 | ⟨h2, -⟩
    · exact Or.inl (h1 ▸ hd)
    · rw [h2] at hd
      exact (List.mem_append.mp hd).imp_right List.mem_singleton.mp
  have hleft : ∀ l ∈ o.leaving, l.client ≠ c :=
    fun l hl e => hc (mem_alive.mpr (Or.inr ⟨l, hl, e⟩))
  -- a client that stays keeps its data and its buffer
  have hstay : ∀ d ∈ o.alive, d ≠ c ∧ s'.mem.info d = o.server.mem.info d
      ∧ s'.mem.writing d = o.server.mem.writing d := by
    intro d hd
    have hne : d ≠ c := fun e => hc (e ▸ hd)
    exact ⟨hne, congrArg ClientData.info (hdata d hne),
      (hsame (d, .writing) hne).content⟩
  have halive : ∀ d, d ∈ Outgoing.alive { o with
      server := s'
      written := Function.update o.written c []
      sent := Function.update o.sent c [] } →
      d ∈ o.alive ∨ (d = c ∧ d ∈ s'.clients) := by
    intro d hd
    rcases mem_alive.mp hd with h1 | h2
    · rcases hsub d h1 with h3 | h3
      · exact Or.inl (mem_alive.mpr (Or.inl h3))
      · exact Or.inr ⟨h3, h1⟩
    · exact Or.inl (mem_alive.mpr (Or.inr h2))
  have hnew : c ∈ s'.clients → s'.mem.writing c = []
      ∧ nameOf s'.mem c = unknownClient := by
    intro hcs
    rcases hlist with h1 | ⟨-, hbuf, hname, -⟩
    · exact absurd (h1 ▸ hcs) hcl
    · refine ⟨?_, hname⟩
      rw [Clients.writing, BufferHeap.content, hbuf .writing]
      rfl
  refine {
    server := hs
    noFail := hout.noFail h.noFail
    name := fun d hd => ?_
    off := fun l hl hm => ?_
    cache := fun l hl a ha => by
      obtain ⟨h1, h2⟩ := h.cache l hl a ha
      exact ⟨hout.held a h1 h2, hout.apart a h1 h2⟩
    built := h.built
    sent := fun d b hb => ?_
    stream := fun d hd => ?_ }
  · rcases halive d hd with h1 | ⟨rfl, h2⟩
    · obtain ⟨-, hinfo, -⟩ := hstay d h1
      rw [nameOf, hinfo]
      exact h.name d h1
    · refine ⟨hs.name d h2, ?_⟩
      rw [(hnew h2).2]
      decide
  · exact (hsub _ hm).elim (h.off l hl) (hleft l hl)
  · simp only at hb
    by_cases hdc : d = c
    · rw [hdc, Function.update_self] at hb
      cases hb
    · rw [Function.update_of_ne hdc] at hb
      exact h.sent d b hb
  · simp only
    rcases halive d hd with h1 | ⟨rfl, h2⟩
    · obtain ⟨hdc, -, hw⟩ := hstay d h1
      rw [Function.update_of_ne hdc, Function.update_of_ne hdc, hw]
      exact h.stream d h1
    · rw [Function.update_self, Function.update_self, (hnew h2).1]
      rfl

/-- The next line of a client, taken and dispatched. -/
theorem OutgoingInv.handle {o : Outgoing} (h : OutgoingInv o) {c : PClientInfo}
    (hc : c ∈ o.server.clients) (env : Surround)
    (hret : (fetchMsgFromClient o.server.mem env.afterCache c).ret > 0) :
    OutgoingInv { o with
      server := (dispatchMsg (fetched o.server c env) c env
        (roundLine o.server c env ++ env.afterLine)).2
      built := o.built ++ (dispatchMsg (fetched o.server c env) c env
        (roundLine o.server c env ++ env.afterLine)).1.toList.map fun msg =>
          ⟨msg, decide (InBounds (roundLine o.server c env)
            env.afterLine)⟩ } := by
  obtain ⟨i, hi⟩ := nextLine_of_ret h.server hc hret
  have hr := round_spec h.server hc env hi
  have hnames : ∀ d, nameOf (fetched o.server c env).mem d
      = nameOf o.server.mem d :=
    fun d => congrArg (fun x : ClientData => cstr x.info.name)
      (congrFun hr.taken.data d)
  have hn10 : (10 : UInt8) ∉ nameOf (fetched o.server c env).mem c := by
    rw [hnames]
    exact (h.name c (mem_alive.mpr (Or.inl hc))).2
  obtain ⟨hhandled, hok, hwriting, -⟩ := handled_dispatchMsg (c := c)
    hr.fetched.heap (hr.fetched.name c hc) env hr.length
  have hname := dispatchMsg_name hr.fetched hc hn10 env hr.line hr.length
  have hbuilt : ∀ msg, (dispatchMsg (fetched o.server c env) c env
      (roundLine o.server c env ++ env.afterLine)).1 = some msg → _ :=
    fun msg hm => dispatchMsg_wellBuilt hr.fetched hc hn10 env hr.line hr.length
      hm
  generalize dispatchMsg (fetched o.server c env) c env
    (roundLine o.server c env ++ env.afterLine) = r at *
  refine h.calls (hr.fetched.handled hhandled hok)
    (hr.taken.outside.trans hhandled.outside) hhandled.clients ?_ ?_ ?_
  · intro d hd
    by_cases hdc : d = c
    · rw [hdc]
      exact ⟨hok, hname⟩
    · have hinfo : r.2.mem.info d = o.server.mem.info d :=
        congrArg ClientData.info ((hhandled.others d hdc).trans
          (congrFun hr.taken.data d))
      rw [nameOf, hinfo]
      exact h.name d hd
  · intro d
    exact (hwriting d).trans
      (hr.taken.same (d, .writing) (reading_ne_writing c d).symm).content
  · intro b hb
    rcases List.mem_append.mp hb with h1 | h2
    · exact Or.inl h1
    · obtain ⟨msg, hm, rfl⟩ := List.mem_map.mp h2
      exact Or.inr (hbuilt msg (Option.mem_toList.mp hm))

/-- The client to log out leaves the list. -/
theorem OutgoingInv.remove {o : Outgoing} (h : OutgoingInv o) {c : PClientInfo}
    (hc : c ∈ o.server.clients) :
    OutgoingInv { o with
      server := removeClient o.server c
      leaving := some ⟨c, none⟩ } := by
  obtain ⟨hs, hmem, pre, post, hsplit, hcl⟩ := removeClient_spec h.server hc
  generalize removeClient o.server c = s' at *
  have hnd := h.server.nodup
  rw [hsplit, List.nodup_middle, List.nodup_cons] at hnd
  have halive : ∀ d, d ∈ Outgoing.alive { o with
      server := s', leaving := some ⟨c, none⟩ } → d ∈ o.alive := by
    intro d hd
    refine mem_alive.mpr (Or.inl ?_)
    rcases mem_alive.mp hd with h1 | ⟨l, hl, rfl⟩
    · rw [hsplit]
      exact ((List.sublist_cons_self c post).append_left pre).subset
        (hcl ▸ h1)
    · obtain rfl := Option.some.inj hl
      exact hc
  have hpool : s'.pool = o.server.pool := by
    rw [ServerInfo.pool, ServerInfo.pool, hmem]
  exact {
    server := hs
    noFail := by
      show NoFail s'.pool
      rw [hpool]
      exact h.noFail
    name := fun d hd => by
      rw [hmem]
      exact h.name d (halive d hd)
    off := by
      intro l hl
      obtain rfl := Option.some.inj hl
      rw [hcl]
      exact hnd.1
    cache := by
      intro l hl a ha
      obtain rfl := Option.some.inj hl
      cases ha
    built := h.built
    sent := h.sent
    stream := fun d hd => by
      rw [hmem]
      exact h.stream d (halive d hd) }

/-- The notice of the logout, in a cache that is in no buffer. -/
theorem OutgoingInv.notice {o : Outgoing} (h : OutgoingInv o) {c : PClientInfo}
    (hl : o.leaving = some ⟨c, none⟩) (junk : List UInt8 × List UInt8) :
    ∃ a m p, createNotice o.server.pool junk (o.server.mem.info c).name
        msgLogoutSuffix = (some a, m, p)
      ∧ OutgoingInv { o with
        server := o.server.setPool p
        leaving := some ⟨c, some a⟩
        built := o.built ++ m.toList.map fun msg => ⟨msg, true⟩ } := by
  obtain ⟨hok, h10⟩ := h.name c (mem_alive.mpr (Or.inr ⟨_, hl, rfl⟩))
  obtain ⟨a, m, p, hnot, hbor, -, hmsg⟩ := createNotice_spec (p := o.server.pool)
    h.server.heap.pool junk (o.server.mem.info c).name msgLogoutSuffix
    (by decide) (by decide) (by
      have := hok.strlen_lt
      have h14 : msgLogoutSuffix.length = 14 := rfl
      omega)
  refine ⟨a, m, p, hnot, ?_⟩
  obtain ⟨hhandled, hwriting⟩ := handled_setPool h.server.heap hbor.inv hbor.keeps
    c
  have hout : ∀ i, a ∉ owned (o.server.mem.heap.buf i) :=
    fun i hi => hbor.fresh ((h.server.heap.inv i).heldOwned hi)
  have halive : ∀ d, d ∈ Outgoing.alive { o with
      server := o.server.setPool p, leaving := some ⟨c, some a⟩ } →
      d ∈ o.alive := by
    intro d hd
    rcases mem_alive.mp hd with h1 | ⟨l, hl', rfl⟩
    · exact mem_alive.mpr (Or.inl h1)
    · obtain rfl := Option.some.inj hl'
      exact mem_alive.mpr (Or.inr ⟨_, hl, rfl⟩)
  exact {
    server := h.server.of_heap hhandled.heap rfl
    noFail := hhandled.outside.noFail h.noFail
    name := fun d hd => h.name d (halive d hd)
    off := by
      intro l hl'
      obtain rfl := Option.some.inj hl'
      exact h.off ⟨c, none⟩ hl
    cache := by
      intro l hl' b hb
      obtain rfl := Option.some.inj hl'
      obtain rfl := Option.some.inj hb
      exact ⟨hbor.held, hout⟩
    built := by
      intro b hb
      rcases List.mem_append.mp hb with h1 | h2
      · exact h.built b h1
      · obtain ⟨msg, hm, rfl⟩ := List.mem_map.mp h2
        exact wellBuilt_notice (hmsg msg (Option.mem_toList.mp hm)) h10
          (by decide) (by decide) true
    sent := h.sent
    stream := fun d hd => by
      rw [hwriting d]
      exact h.stream d (halive d hd) }

/-- The cache goes back to the pool, and the client is released. -/
theorem OutgoingInv.release {o : Outgoing} (h : OutgoingInv o) {l : Leaving}
    (hl : o.leaving = some l) :
    OutgoingInv { o with
      server := { o.server.setPool (recycleIfAny o.server.pool l.cache) with
        mem := releaseClientInfo
          (o.server.setPool (recycleIfAny o.server.pool l.cache)).mem l.client }
      leaving := none } := by
  obtain ⟨hh₁, hsame₁, hnf₁⟩ : HeapInv
        (o.server.setPool (recycleIfAny o.server.pool l.cache)).mem.heap
      ∧ (∀ i, Same o.server.mem.heap
        (o.server.setPool (recycleIfAny o.server.pool l.cache)).mem.heap i)
      ∧ NoFail (recycleIfAny o.server.pool l.cache) := by
    cases hcache : l.cache with
    | none => exact ⟨h.server.heap, fun i => Same.refl _ i, h.noFail⟩
    | some a =>
        obtain ⟨hheld, hout⟩ := h.cache l hl a hcache
        obtain ⟨h1, h2⟩ := recycle_outside h.server.heap hheld hout
        exact ⟨h1, h2, h.noFail.keeps
          (recycleCache_spec h.server.heap.pool hheld).2.keeps⟩
  generalize recycleIfAny o.server.pool l.cache = p at *
  obtain ⟨hh₂, hsame₂, hdata₂, hout₂⟩ := releaseClientInfo_spec l.client hh₁
  have hinfo : ∀ d, (releaseClientInfo (o.server.setPool p).mem l.client).info d
      = o.server.mem.info d :=
    fun d => congrArg ClientData.info (congrFun hdata₂ d)
  have halive : ∀ d, d ∈ Outgoing.alive { o with
      server := { o.server.setPool p with
        mem := releaseClientInfo (o.server.setPool p).mem l.client }
      leaving := none } → d ∈ o.server.clients := by
    intro d hd
    rcases mem_alive.mp hd with h1 | ⟨_, h2, -⟩
    · exact h1
    · cases h2
  exact {
    server := h.server.of_heap hh₂ hdata₂
    noFail := hout₂.noFail hnf₁
    name := fun d hd => by
      rw [nameOf, hinfo d]
      exact h.name d (mem_alive.mpr (Or.inl (halive d hd)))
    off := fun _ e => by cases e
    cache := fun _ e => by cases e
    built := h.built
    sent := h.sent
    stream := fun d hd => by
      have hne : d ≠ l.client := fun e => h.off l hl (e ▸ halive d hd)
      have hw := ((hsame₁ (d, .writing)).trans (hsame₂ (d, .writing) hne)).content
      refine (congrArg (o.written d ++ ·) hw).trans ?_
      exact h.stream d (mem_alive.mpr (Or.inl (halive d hd))) }

/-! ## Every order of calls -/

theorem outgoingInv_start {o : Outgoing} (h : outgoingSystem.start o) :
    OutgoingInv o := by
  obtain ⟨hstart, hnf, hleaving, hbuilt, hrec⟩ := h
  have hcl : o.server.clients = [] := hstart.1
  have halive : ∀ c, c ∉ o.alive := by
    intro c hc
    rcases mem_alive.mp hc with h1 | ⟨l, h2, -⟩
    · rw [hcl] at h1
      cases h1
    · rw [hleaving] at h2
      cases h2
  exact {
    server := (runInv_start hstart).server
    noFail := hnf
    name := fun c hc => absurd hc (halive c)
    off := fun l hl => by
      rw [hleaving] at hl
      cases hl
    cache := fun l hl => by
      rw [hleaving] at hl
      cases hl
    built := fun b hb => by
      rw [hbuilt] at hb
      cases hb
    sent := fun c b hb => by
      rw [(hrec c).2] at hb
      cases hb
    stream := fun c hc => absurd hc (halive c) }

/-- The step lemma: every call keeps the invariant. -/
theorem outgoingInv_step {o o' : Outgoing} {e : OutgoingCall}
    (h : OutgoingInv o) (hstep : outgoingSystem.step o e = some o') :
    OutgoingInv o' := by
  have hstep' : outgoingStep o e = some o' := hstep
  cases e with
  | accept c socketId =>
      obtain ⟨hok, ho⟩ := Option.ite_none_right_eq_some.mp hstep'
      obtain rfl := Option.some.inj ho
      exact h.accept hok.1 hok.2
  | fetch c n reads =>
      obtain ⟨⟨-, hn, hr⟩, ho⟩ := Option.ite_none_right_eq_some.mp hstep'
      obtain rfl := Option.some.inj ho
      obtain ⟨hh, -, hsame, hdata, hout⟩ := fetchFromClient_spec (c := c)
        h.server.heap hn hr
      refine h.calls (h.server.of_heap hh hdata) hout rfl (fun d hd => ?_)
        (fun d => (hsame (d, .writing) (reading_ne_writing c d).symm).content)
        (fun _ hb => Or.inl hb)
      have hinfo : (fetchFromClient o.server.mem c (some n) reads).clients.info d
          = o.server.mem.info d := congrArg ClientData.info (congrFun hdata d)
      rw [nameOf, hinfo]
      exact h.name d hd
  | handle c env =>
      obtain ⟨⟨hc, hret⟩, ho⟩ := Option.ite_none_right_eq_some.mp hstep'
      obtain rfl := Option.some.inj ho
      exact h.handle hc env hret
  | markFail c =>
      obtain ⟨-, ho⟩ := Option.ite_none_right_eq_some.mp hstep'
      obtain rfl := Option.some.inj ho
      obtain ⟨hs, hname⟩ := markFail_spec h.server c
      refine h.calls hs (Outside.refl _) rfl (fun d hd => ?_) (fun _ => rfl)
        (fun _ hb => Or.inl hb)
      rw [nameOf, hname d]
      exact h.name d hd
  | send c n =>
      obtain ⟨hc, ho⟩ := Option.ite_none_right_eq_some.mp hstep'
      obtain ⟨b, hb, rfl⟩ := Option.map_eq_some_iff.mp ho
      have hb := h.built b (List.mem_of_getElem? hb)
      obtain ⟨hh, -, hall, hsame, hdata, hout⟩ := sendMsgToClient_spec c
        b.msg.content h.server.heap hb.size
      have hsend := h.moved c (o.written c) (o.sent c ++ [b]) hh hout hdata
        (fun d hd => (hsame (d, .writing)
          (fun e => hd (congrArg Prod.fst e))).content)
        (fun b' hb' => (List.mem_append.mp hb').elim (h.sent c b')
          (fun e => List.mem_singleton.mp e ▸ hb))
        (by
          rw [hall h.noFail, ← List.append_assoc, h.stream c hc, List.map_append,
            List.flatten_append, List.map_singleton, List.flatten_singleton,
            Built.bytes])
      rw [Function.update_eq_self] at hsend
      exact hsend
  | flush c writes =>
      obtain ⟨⟨hc, hw⟩, ho⟩ := Option.ite_none_right_eq_some.mp hstep'
      obtain rfl := Option.some.inj ho
      obtain ⟨hh, hsame, hdata, hout, -⟩ := flushMessages_spec (c := c)
        h.server.heap hw
      have hflush := h.moved c
        (o.written c ++ (flushMessages o.server.mem c writes).bytes) (o.sent c)
        hh hout hdata
        (fun d hd => (hsame (d, .writing)
          (fun e => hd (congrArg Prod.fst e))).content)
        (h.sent c)
        (by
          rw [List.append_assoc, flushMessages_split h.server.heap hw]
          exact h.stream c (mem_alive.mpr (Or.inl hc)))
      rw [Function.update_eq_self c o.sent] at hflush
      exact hflush
  | remove c =>
      obtain ⟨⟨hc, -⟩, ho⟩ := Option.ite_none_right_eq_some.mp hstep'
      obtain rfl := Option.some.inj ho
      exact h.remove hc
  | notice junk =>
      rw [outgoingStep] at hstep'
      split at hstep'
      · next c hl =>
          obtain ⟨a, m, p, hnot, hinv⟩ := h.notice hl junk
          simp only [hnot] at hstep'
          obtain rfl := Option.some.inj hstep'
          exact hinv
      · cases hstep'
  | release =>
      obtain ⟨l, hl, rfl⟩ := Option.map_eq_some_iff.mp hstep'
      exact h.release hl

/-- **OUTGOING STREAMS**: in every order of the calls of both threads, the bytes
    the socket of a client took and the bytes that wait for it are the messages
    sent to the client, whole and in the order of the calls; and a message made
    of a line in bounds, or of a logout, is one line. -/
theorem outgoing_stream {o : Outgoing} (h : Reachable outgoingSystem o) :
    ∀ c ∈ o.alive, o.written c ++ o.server.mem.writing c
        = ((o.sent c).map Built.bytes).flatten
      ∧ ∀ b ∈ o.sent c, b.inBounds = true → IsLine b.bytes := by
  have hinv : OutgoingInv o := reachable_inv outgoingSystem
    (fun _ => outgoingInv_start) (fun _ _ _ => outgoingInv_step) h
  exact fun c hc => ⟨hinv.stream c hc, fun b hb => (hinv.sent c b hb).isLine⟩

/-- Every allocation succeeds on the untouched server. -/
def freshOutgoing : Outgoing :=
  ⟨freshServer.server, none, [], fun _ => [], fun _ => []⟩

theorem freshOutgoing_start : outgoingSystem.start freshOutgoing :=
  ⟨freshServer_start, (fun _ h => absurd h List.not_mem_nil), rfl, rfl,
    fun _ => ⟨rfl, rfl⟩⟩

/-- Two clients log in; between a login notice, a line and a logout notice, the
    second is flushed a few bytes at a time. -/
def chatAndLogout : List OutgoingCall :=
  [.accept 1 4, .accept 2 5,
    .fetch 2 12 [.bytes (ascii "LOGIN: bob\n")], .handle 2 nulSurround,
    .fetch 1 12 [.bytes (ascii "LOGIN: ann\n")], .handle 1 nulSurround,
    .send 2 1, .flush 2 [.count 3, .count 5, .count 1],
    .fetch 1 12 [.bytes (ascii "TO-ALL: hi\n")], .handle 1 nulSurround,
    .markFail 1, .remove 1, .notice ([], []), .send 2 2, .send 2 3, .release]

theorem outgoing_stream_chatAndLogout :
    ∃ o, runFrom outgoingSystem freshOutgoing chatAndLogout = some o
      ∧ o.written 2 ++ o.server.mem.writing 2
        = ((o.sent 2).map Built.bytes).flatten
      ∧ ∀ b ∈ o.sent 2, b.inBounds = true → IsLine b.bytes := by
  have hrun : ((runFrom outgoingSystem freshOutgoing chatAndLogout).any fun o =>
      decide ((2 : PClientInfo) ∈ o.alive)) = true := by decide +kernel
  obtain ⟨o, ho, hp⟩ := (Option.any_eq_true _ _).mp hrun
  exact ⟨o, ho, outgoing_stream (runFrom_reachable outgoingSystem chatAndLogout
    (.start freshOutgoing_start) ho) 2 (of_decide_eq_true hp)⟩

end IMOutgoing

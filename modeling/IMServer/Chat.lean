import IMServer.ClientLoop
import IMServer.Outgoing

/-! # The chat — clients and server together

    The clients run the loop of `IMClient.c`, the server makes the calls of both
    threads, and the sockets between them keep the bytes in order.  Any of them
    may go on next.  No call fails in it: a client's `write` takes all it is given,
    and no `read` or `write` reports an error.  Two results compose what the
    modules before say about the parts: no byte is lost between a keyboard and the
    dispatch, or between a `send_msg_to_client` and a terminal (`chat_streams`),
    and the lines the server dispatches are the lines typed (`chat_lines`). -/

namespace IMChat

open IMBytes IMCString IMMachineInt IMCachePool IMBufferQueue IMClientInfo
  IMLineFraming IMMessage IMFormatting IMServerInfo IMDelivery IMDispatch
  IMServerRun IMRouting IMAttribution IMOutgoing IMTransition IMClient
  IMClientStream IMClientLoop

/-- The server, the connections it has not accepted yet, the oldest first, and
    the clients by their connection; `handed` records the lines dispatched. -/
structure Chat where
  out : Outgoing
  backlog : List PClientInfo
  client : PClientInfo → Client
  handed : PClientInfo → List (List UInt8)

/-- A program connects and registers, the server makes a call, a client makes a
    pass of its loop. -/
inductive ChatEvent where
  | connect (c : PClientInfo) (name : List UInt8)
  | server (call : OutgoingCall)
  | pass (c : PClientInfo) (env : PassEnv)

def Chat.setClient (k : Chat) (c : PClientInfo) (u : Client) : Chat :=
  { k with client := Function.update k.client c u }

/-- A call of the server.  `read` delivers what is on its way from the client, and
    `write` puts bytes on their way to it. -/
def chatServer (k : Chat) (call : OutgoingCall) : Option Chat :=
  match outgoingStep k.out call with
  | none => none
  | some out =>
      match call with
      | .accept c _ =>
          match k.backlog with
          | [] => none
          | d :: backlog =>
              if d = c then some { k with out := out, backlog := backlog } else none
      | .fetch c byteAvailable reads =>
          let got := (fetchFromClient k.out.server.mem c (some byteAvailable)
            reads).got
          let u := k.client c
          if got <+: u.toServer then
            some ({ k with out := out }.setClient c
              { u with toServer := u.toServer.drop got.length })
          else none
      | .handle c env =>
          some { k with
            out := out
            handed := Function.update k.handed c
              (k.handed c ++ [roundLine k.out.server c env]) }
      | .flush c writes =>
          let u := k.client c
          some ({ k with out := out }.setClient c
            { u with toClient := u.toClient
              ++ (flushMessages k.out.server.mem c writes).bytes })
      | _ => some { k with out := out }

/-- A step of the chat, when no call fails.  The name of a connection that is gone
    may be given to a new one. -/
def chatStep (k : Chat) : ChatEvent → Option Chat
  | .connect c name =>
      if c ∉ k.backlog ∧ c ∉ k.out.alive then
        some { k.setClient c (registered name) with
          backlog := k.backlog ++ [c]
          handed := Function.update k.handed c [] }
      else none
  | .server call => chatServer k call
  | .pass c env =>
      if Whole (k.client c) env then (clientPass (k.client c) env).map (k.setClient c)
      else none

/-- No client has connected yet. -/
def chatSystem : System Chat ChatEvent where
  start := fun k => outgoingSystem.start k.out ∧ k.backlog = []
    ∧ ∀ c, k.handed c = []
  step := chatStep

/-! ## What a call of the server can do -/

/-- The calls as a relation, with their conditions. -/
inductive OutgoingMove (o : Outgoing) : OutgoingCall → Outgoing → Prop where
  | accept {c : PClientInfo} {socketId : Int} (hc : c ∉ o.alive)
      (hsocket : ∀ d ∈ o.server.clients,
        (o.server.mem.info d).socketId ≠ socketId) :
      OutgoingMove o (.accept c socketId) { o with
        server := acceptClient o.server c socketId
        written := Function.update o.written c []
        sent := Function.update o.sent c [] }
  | fetch {c : PClientInfo} {n : Nat} {reads : List IMBuffer.ReadOutcome}
      (hc : c ∈ o.server.clients) (hn : n < 2 ^ 31) (hr : IMBufferAppend.ReadsOk reads) :
      OutgoingMove o (.fetch c n reads) { o with
        server := { o.server with
          mem := (fetchFromClient o.server.mem c (some n) reads).clients } }
  | handle {c : PClientInfo} {env : Surround} (hc : c ∈ o.server.clients)
      (hret : (fetchMsgFromClient o.server.mem env.afterCache c).ret > 0)
      (built : List Built) :
      OutgoingMove o (.handle c env) { o with
        server := (dispatchMsg (fetched o.server c env) c env
          (roundLine o.server c env ++ env.afterLine)).2
        built := built }
  | markFail {c : PClientInfo} :
      OutgoingMove o (.markFail c) { o with
        server := IMServerInfo.markFail o.server c }
  | send {c : PClientInfo} {n : Nat} {b : Built} (hc : c ∈ o.alive) (hb : b ∈ o.built) :
      OutgoingMove o (.send c n) { o with
        server := { o.server with
          mem := (sendMsgToClient o.server.mem c b.msg.content b.msg.size).2 }
        sent := Function.update o.sent c (o.sent c ++ [b]) }
  | flush {c : PClientInfo} {writes : List IMBuffer.WriteOutcome}
      (hc : c ∈ o.server.clients) (hw : IMBufferTake.WritesOk writes) :
      OutgoingMove o (.flush c writes) { o with
        server := { o.server with
          mem := (flushMessages o.server.mem c writes).clients }
        written := Function.update o.written c
          (o.written c ++ (flushMessages o.server.mem c writes).bytes) }
  | remove {c : PClientInfo} (hc : c ∈ o.server.clients) :
      OutgoingMove o (.remove c) { o with
        server := removeClient o.server c
        leaving := some ⟨c, none⟩ }
  | notice {c : PClientInfo} {junk : List UInt8 × List UInt8} {a : Option Addr}
      {p : CachePool} (hl : o.leaving = some ⟨c, none⟩) (built : List Built)
      (hreading : ∀ d, (o.server.setPool p).mem.reading d
        = o.server.mem.reading d) :
      OutgoingMove o (.notice junk) { o with
        server := o.server.setPool p
        leaving := some ⟨c, a⟩
        built := built }
  | release {l : Leaving} (hl : o.leaving = some l) :
      OutgoingMove o .release { o with
        server := { o.server.setPool (recycleIfAny o.server.pool l.cache) with
          mem := releaseClientInfo
            (o.server.setPool (recycleIfAny o.server.pool l.cache)).mem l.client }
        leaving := none }

theorem outgoingStep_move {o o' : Outgoing} {e : OutgoingCall} (h : OutgoingInv o)
    (hstep : outgoingStep o e = some o') : OutgoingMove o e o' := by
  cases e with
  | accept c socketId =>
      obtain ⟨⟨hc, hsocket⟩, ho⟩ := Option.ite_none_right_eq_some.mp hstep
      exact Option.some.inj ho ▸ .accept hc hsocket
  | fetch c n reads =>
      obtain ⟨⟨hc, hn, hr⟩, ho⟩ := Option.ite_none_right_eq_some.mp hstep
      exact Option.some.inj ho ▸ .fetch hc hn hr
  | handle c env =>
      obtain ⟨⟨hc, hret⟩, ho⟩ := Option.ite_none_right_eq_some.mp hstep
      exact Option.some.inj ho ▸ .handle hc hret _
  | markFail c =>
      obtain ⟨-, ho⟩ := Option.ite_none_right_eq_some.mp hstep
      exact Option.some.inj ho ▸ .markFail
  | send c n =>
      obtain ⟨hc, ho⟩ := Option.ite_none_right_eq_some.mp hstep
      obtain ⟨b, hb, rfl⟩ := Option.map_eq_some_iff.mp ho
      exact .send hc (List.mem_of_getElem? hb)
  | flush c writes =>
      obtain ⟨⟨hc, hw⟩, ho⟩ := Option.ite_none_right_eq_some.mp hstep
      exact Option.some.inj ho ▸ .flush hc hw
  | remove c =>
      obtain ⟨⟨hc, -⟩, ho⟩ := Option.ite_none_right_eq_some.mp hstep
      exact Option.some.inj ho ▸ .remove hc
  | notice junk =>
      rw [outgoingStep] at hstep
      split at hstep
      · next c hl =>
          obtain ⟨a, m, p, hnot, hbor, -⟩ := createNotice_spec
            (p := o.server.pool) h.server.heap.pool junk
            (o.server.mem.info c).name msgLogoutSuffix (by decide) (by decide) (by
              have := (h.name c (mem_alive.mpr (Or.inr ⟨_, hl, rfl⟩))).1.strlen_lt
              have h14 : msgLogoutSuffix.length = 14 := rfl
              omega)
          simp only [hnot] at hstep
          obtain ⟨hhandled, -⟩ := handled_setPool h.server.heap hbor.inv hbor.keeps c
          exact Option.some.inj hstep ▸
            .notice hl _ fun d => (hhandled.reading d).content
      · cases hstep
  | release =>
      obtain ⟨l, hl, rfl⟩ := Option.map_eq_some_iff.mp hstep
      exact .release hl

/-- The line of a `handle` call: it is taken from the front of the reading buffer. -/
theorem handle_reading {o : Outgoing} (h : OutgoingInv o) {c : PClientInfo}
    (hc : c ∈ o.server.clients) {env : Surround}
    (hret : (fetchMsgFromClient o.server.mem env.afterCache c).ret > 0)
    {s' : ServerInfo} (hs : s' = (dispatchMsg (fetched o.server c env) c env
      (roundLine o.server c env ++ env.afterLine)).2) :
    s'.clients = o.server.clients
      ∧ IsLine (roundLine o.server c env)
      ∧ roundLine o.server c env ++ s'.mem.reading c = o.server.mem.reading c
      ∧ ∀ d, d ≠ c → s'.mem.reading d = o.server.mem.reading d := by
  obtain ⟨i, hi⟩ := nextLine_of_ret h.server hc hret
  have hr := round_spec h.server hc env hi
  obtain ⟨hhandled, -⟩ := handled_dispatchMsg (c := c) hr.fetched.heap
    (hr.fetched.name c hc) env hr.length
  have hreading : ∀ d, s'.mem.reading d = (fetched o.server c env).mem.reading d :=
    fun d => hs ▸ (hhandled.reading d).content
  refine ⟨hs ▸ hhandled.clients, hr.line, ?_, fun d hd => ?_⟩
  · rw [hreading c]
    show roundLine o.server c env
      ++ (fetchMsgFromClient o.server.mem env.afterCache c).clients.reading c = _
    rw [hr.taken.reading, roundLine, hr.taken.bytes, List.take_append_drop]
  · rw [hreading d]
    exact (hr.taken.same (d, .reading) fun e => hd (congrArg Prod.fst e)).content

/-- Only an `accept` brings a client in. -/
theorem OutgoingMove.clients {o o' : Outgoing} {e : OutgoingCall} (h : OutgoingInv o)
    (hm : OutgoingMove o e o') {d : PClientInfo} (hd : d ∈ o'.server.clients) :
    d ∈ o.server.clients ∨ ∃ socketId, e = .accept d socketId := by
  cases hm with
  | @accept c socketId hc hsocket =>
      obtain ⟨-, -, -, -, hlist⟩ := acceptClient_spec h.server
        (fun hcl => hc (mem_alive.mpr (Or.inl hcl))) hsocket
      rcases hlist with hsame | ⟨hnew, -⟩
      · exact Or.inl (hsame ▸ hd)
      · have hd' : d ∈ (acceptClient o.server c socketId).clients := hd
        rw [hnew] at hd'
        refine (List.mem_append.mp hd').imp_right fun h1 => ⟨socketId, ?_⟩
        rw [List.mem_singleton.mp h1]
  | handle hc hret =>
      exact Or.inl ((handle_reading h hc hret rfl).1 ▸ hd)
  | remove hc =>
      obtain ⟨-, -, pre, post, hsplit, hcl⟩ := removeClient_spec h.server hc
      refine Or.inl (hsplit ▸ ?_)
      exact ((List.sublist_cons_self _ post).append_left pre).subset (hcl ▸ hd)
  | fetch | markFail | send | flush | notice | release => exact Or.inl hd

theorem OutgoingMove.alive {o o' : Outgoing} {e : OutgoingCall} (h : OutgoingInv o)
    (hm : OutgoingMove o e o') {d : PClientInfo} (hd : d ∈ o'.alive) :
    d ∈ o.alive ∨ ∃ socketId, e = .accept d socketId := by
  rcases mem_alive.mp hd with hcl | ⟨l, hl, rfl⟩
  · exact (hm.clients h hcl).imp_left fun h1 => mem_alive.mpr (Or.inl h1)
  · refine Or.inl ?_
    cases hm with
    | remove hc =>
        obtain rfl := Option.some.inj hl
        exact mem_alive.mpr (Or.inl hc)
    | notice hl' =>
        obtain rfl := Option.some.inj hl
        exact mem_alive.mpr (Or.inr ⟨_, hl', rfl⟩)
    | release => cases hl
    | accept | fetch | handle | markFail | send | flush =>
        exact mem_alive.mpr (Or.inr ⟨l, hl, rfl⟩)

/-- The client whose reading buffer a call is about. -/
def readingOf : OutgoingCall → Option PClientInfo
  | .accept c _ => some c
  | .fetch c _ _ => some c
  | .handle c _ => some c
  | _ => none

/-- The client whose record of written bytes a call is about. -/
def writtenOf : OutgoingCall → Option PClientInfo
  | .accept c _ => some c
  | .flush c _ => some c
  | _ => none

theorem OutgoingMove.written {o o' : Outgoing} {e : OutgoingCall}
    (hm : OutgoingMove o e o') {d : PClientInfo} (hd : writtenOf e ≠ some d) :
    o'.written d = o.written d := by
  cases hm with
  | accept | flush => exact Function.update_of_ne (fun e => hd (congrArg some e.symm)) ..
  | fetch | handle | markFail | send | remove | notice | release => rfl

/-- The cache of a notice is in no buffer. -/
theorem recycleIfAny_same {o : Outgoing} (h : OutgoingInv o) {l : Leaving}
    (hl : o.leaving = some l) :
    IMBufferQueue.HeapInv
        (o.server.setPool (recycleIfAny o.server.pool l.cache)).mem.heap
      ∧ ∀ i, Same o.server.mem.heap
        (o.server.setPool (recycleIfAny o.server.pool l.cache)).mem.heap i := by
  cases hcache : l.cache with
  | none => exact ⟨h.server.heap, fun i => Same.refl _ i⟩
  | some a =>
      obtain ⟨hheld, hout⟩ := h.cache l hl a hcache
      exact recycle_outside h.server.heap hheld hout

theorem OutgoingMove.reading {o o' : Outgoing} {e : OutgoingCall} (h : OutgoingInv o)
    (hm : OutgoingMove o e o') {d : PClientInfo} (hd : d ∈ o'.server.clients)
    (hother : readingOf e ≠ some d) :
    o'.server.mem.reading d = o.server.mem.reading d := by
  cases hm with
  | accept hc hsocket =>
      obtain ⟨-, hsame, -⟩ := acceptClient_spec h.server
        (fun hcl => hc (mem_alive.mpr (Or.inl hcl))) hsocket
      exact (hsame (d, .reading) fun e => hother (congrArg some e.symm)).content
  | @fetch c n reads hc hn hr =>
      obtain ⟨-, -, hsame, -⟩ := fetchFromClient_spec (c := c) h.server.heap hn hr
      exact (hsame (d, .reading) fun e =>
        hother (congrArg some (congrArg Prod.fst e).symm)).content
  | handle hc hret =>
      exact (handle_reading h hc hret rfl).2.2.2 d
        fun e => hother (congrArg some e.symm)
  | @send c n b hc hb =>
      obtain ⟨-, -, -, hsame, -⟩ := sendMsgToClient_spec c b.msg.content
        h.server.heap (h.built b hb).size
      exact (hsame (d, .reading) (reading_ne_writing d c)).content
  | @flush c writes hc hw =>
      obtain ⟨-, hsame, -⟩ := flushMessages_spec (c := c) h.server.heap hw
      exact (hsame (d, .reading) (reading_ne_writing d c)).content
  | remove hc =>
      obtain ⟨-, hmem, -⟩ := removeClient_spec h.server hc
      exact congrArg (fun m : Clients => m.reading d) hmem
  | notice hl built hreading => exact hreading d
  | @release l hl =>
      obtain ⟨hh, hsame⟩ := recycleIfAny_same h hl
      obtain ⟨-, hsame', -⟩ := releaseClientInfo_spec l.client hh
      have hne : d ≠ l.client := fun e => h.off l hl (e ▸ hd)
      exact ((hsame (d, .reading)).trans (hsame' (d, .reading) hne)).content
  | markFail => rfl

/-! ## The invariant -/

/-- **THE LINK INVARIANT**: what a connection knows, from the keyboard to the
    dispatch and back to the terminal. -/
structure LinkInv (o : Outgoing) (backlog : List PClientInfo) (u : Client)
    (lines : List (List UInt8)) (c : PClientInfo) : Prop where
  apart : c ∈ backlog → c ∉ o.alive
  client : c ∈ backlog ∨ c ∈ o.alive → ClientInv u
  queued : c ∈ backlog → lines = [] ∧ u.toServer = u.written
    ∧ u.received ++ u.toClient = []
  incoming : c ∈ o.server.clients →
    lines.flatten ++ (o.server.mem.reading c ++ u.toServer) = u.written
  outcoming : c ∈ o.alive → u.received ++ u.toClient = o.written c
  isLine : ∀ line ∈ lines, IsLine line

structure ChatInv (k : Chat) : Prop where
  out : OutgoingInv k.out
  nodup : k.backlog.Nodup
  link : ∀ c, LinkInv k.out k.backlog (k.client c) (k.handed c) c

section Call

variable {o o' : Outgoing} {e : OutgoingCall} {backlog backlog' : List PClientInfo}
  {u : Client} {lines : List (List UInt8)} {c : PClientInfo}

/-- A call about another client. -/
theorem LinkInv.frame (h : LinkInv o backlog u lines c) (ho : OutgoingInv o)
    (hm : OutgoingMove o e o') (hreading : readingOf e ≠ some c)
    (hwritten : writtenOf e ≠ some c) (hb : c ∈ backlog' → c ∈ backlog) :
    LinkInv o' backlog' u lines c := by
  have hno : ∀ socketId, e ≠ .accept c socketId := by
    rintro socketId rfl
    exact hreading rfl
  have halive : c ∈ o'.alive → c ∈ o.alive :=
    fun hc => (hm.alive ho hc).resolve_right fun ⟨s, he⟩ => hno s he
  exact {
    apart := fun hc hc' => h.apart (hb hc) (halive hc')
    client := fun hc => h.client (hc.imp hb halive)
    queued := fun hc => h.queued (hb hc)
    incoming := fun hc => by
      rw [hm.reading ho hc hreading]
      exact h.incoming ((hm.clients ho hc).resolve_right fun ⟨s, he⟩ => hno s he)
    outcoming := fun hc => by
      rw [hm.written hwritten]
      exact h.outcoming (halive hc)
    isLine := h.isLine }

theorem LinkInv.accept (h : LinkInv o backlog u lines c) (ho : OutgoingInv o)
    (hc : c ∈ backlog) (hb : c ∉ backlog') {socketId : Int}
    (hm : OutgoingMove o (.accept c socketId) o') :
    LinkInv o' backlog' u lines c := by
  obtain ⟨hlines, hserver, hclient⟩ := h.queued hc
  have hwritten : o'.written c = [] := by
    cases hm
    exact Function.update_self ..
  have hnew : c ∈ o'.server.clients → o'.server.mem.reading c = [] := by
    intro hc'
    cases hm with
    | accept halive hsocket =>
        have hcl : c ∉ o.server.clients :=
          fun e => halive (mem_alive.mpr (Or.inl e))
        obtain ⟨-, -, -, -, hsame | ⟨-, hbuf, -⟩⟩ :=
          acceptClient_spec ho.server hcl hsocket
        · exact absurd (hsame ▸ hc') hcl
        · show BufferHeap.content _ (c, Side.reading) = []
          rw [BufferHeap.content, hbuf Side.reading]
          rfl
  exact {
    apart := fun hc' => absurd hc' hb
    client := fun _ => h.client (Or.inl hc)
    queued := fun hc' => absurd hc' hb
    incoming := fun hc' => by
      rw [hnew hc', hlines, hserver]
      rfl
    outcoming := fun _ => by rw [hwritten, hclient]
    isLine := h.isLine }

theorem LinkInv.fetch (h : LinkInv o backlog u lines c) (ho : OutgoingInv o)
    {n : Nat} {reads : List IMBuffer.ReadOutcome}
    (hm : OutgoingMove o (.fetch c n reads) o') {rest : List UInt8}
    (hgot : u.toServer = (fetchFromClient o.server.mem c (some n) reads).got ++ rest) :
    LinkInv o' backlog { u with toServer := rest } lines c := by
  cases hm with
  | fetch hc hn hr =>
      obtain ⟨-, hreading, -⟩ := fetchFromClient_spec (c := c) ho.server.heap hn hr
      have halive := mem_alive.mpr (Or.inl hc)
      exact {
        apart := h.apart
        client := fun hc' => ⟨(h.client hc').written, (h.client hc').shown,
          (h.client hc').chunks⟩
        queued := fun hc' => absurd halive (h.apart hc')
        incoming := fun hc' => by
          have hold := h.incoming hc
          rw [hgot, ← List.append_assoc (o.server.mem.reading c), ← hreading] at hold
          exact hold
        outcoming := h.outcoming
        isLine := h.isLine }

theorem LinkInv.handle (h : LinkInv o backlog u lines c) (ho : OutgoingInv o)
    {env : Surround} (hm : OutgoingMove o (.handle c env) o') :
    LinkInv o' backlog u (lines ++ [roundLine o.server c env]) c := by
  have halive : c ∈ o'.alive → c ∈ o.alive :=
    fun hc => (hm.alive ho hc).resolve_right fun ⟨s, he⟩ => (by cases he)
  have hwritten : o'.written c = o.written c := hm.written fun e => (by cases e)
  cases hm with
  | handle hc hret built =>
      obtain ⟨hclients, hline, hreading, -⟩ := handle_reading ho hc hret rfl
      have hc' := mem_alive.mpr (Or.inl hc)
      exact {
        apart := fun hb hc'' => h.apart hb (halive hc'')
        client := fun hb => h.client (hb.imp_right halive)
        queued := fun hb => absurd hc' (h.apart hb)
        incoming := fun _ => by
          have hold := h.incoming hc
          rw [← hreading] at hold
          rw [List.flatten_append, List.flatten_singleton, List.append_assoc,
            ← List.append_assoc (roundLine o.server c env)]
          exact hold
        outcoming := fun hc'' => h.outcoming (halive hc'')
        isLine := fun line hl => by
          rcases List.mem_append.mp hl with h1 | h2
          · exact h.isLine line h1
          · rw [List.mem_singleton.mp h2]
            exact hline }

theorem LinkInv.flush (h : LinkInv o backlog u lines c) (ho : OutgoingInv o)
    {writes : List IMBuffer.WriteOutcome}
    (hm : OutgoingMove o (.flush c writes) o') :
    LinkInv o' backlog { u with
      toClient := u.toClient ++ (flushMessages o.server.mem c writes).bytes }
      lines c := by
  have hreading : c ∈ o'.server.clients →
      o'.server.mem.reading c = o.server.mem.reading c :=
    fun hc => hm.reading ho hc fun e => (by cases e)
  cases hm with
  | flush hc hw =>
      have halive := mem_alive.mpr (Or.inl hc)
      exact {
        apart := h.apart
        client := fun hc' => ⟨(h.client hc').written, (h.client hc').shown,
          (h.client hc').chunks⟩
        queued := fun hb => absurd halive (h.apart hb)
        incoming := fun hc' => by
          rw [hreading hc']
          exact h.incoming hc
        outcoming := fun _ => by
          show u.received ++ (u.toClient ++ _) = Function.update o.written c _ c
          rw [Function.update_self, ← List.append_assoc, h.outcoming halive]
        isLine := h.isLine }

theorem LinkInv.pass (h : LinkInv o backlog u lines c) {env : PassEnv} {u' : Client}
    (hwhole : Whole u env) (hpass : clientPass u env = some u') :
    LinkInv o backlog u' lines c := by
  have hspec := fun hc => clientPass_spec (h.client hc) hwhole hpass
  exact {
    apart := h.apart
    client := fun hc => (hspec hc).1
    queued := fun hc => by
      obtain ⟨-, -, ⟨taken, hwritten, hserver⟩, hclient⟩ := hspec (Or.inl hc)
      obtain ⟨h1, h2, h3⟩ := h.queued hc
      refine ⟨h1, ?_, hclient.trans h3⟩
      rw [hserver, hwritten, h2]
    incoming := fun hc => by
      obtain ⟨-, -, ⟨taken, hwritten, hserver⟩, -⟩ :=
        hspec (Or.inr (mem_alive.mpr (Or.inl hc)))
      rw [hserver, hwritten, ← h.incoming hc]
      simp only [List.append_assoc]
    outcoming := fun hc => (hspec (Or.inr hc)).2.2.2.trans (h.outcoming hc)
    isLine := h.isLine }

end Call

/-- A step about the connection `c` leaves the links of the others. -/
theorem ChatInv.updated {k k' : Chat} (c : PClientInfo) (hout : OutgoingInv k'.out)
    (hnodup : k'.backlog.Nodup)
    (hlink : LinkInv k'.out k'.backlog (k'.client c) (k'.handed c) c)
    (hclient : ∀ d, d ≠ c → k'.client d = k.client d)
    (hhanded : ∀ d, d ≠ c → k'.handed d = k.handed d)
    (hothers : ∀ d, d ≠ c →
      LinkInv k'.out k'.backlog (k.client d) (k.handed d) d) : ChatInv k' := by
  refine ⟨hout, hnodup, fun d => ?_⟩
  by_cases hd : d = c
  · rw [hd]
    exact hlink
  · rw [hclient d hd, hhanded d hd]
    exact hothers d hd

theorem setClient_self (k : Chat) (c : PClientInfo) (u : Client) :
    (k.setClient c u).client c = u := Function.update_self ..

theorem setClient_of_ne (k : Chat) {c d : PClientInfo} (u : Client) (h : d ≠ c) :
    (k.setClient c u).client d = k.client d := Function.update_of_ne h ..

theorem ChatInv.server {k k' : Chat} (h : ChatInv k) {call : OutgoingCall}
    (hstep : chatServer k call = some k') : ChatInv k' := by
  cases ho : outgoingStep k.out call with
  | none =>
      rw [chatServer, ho] at hstep
      cases hstep
  | some out =>
      have hout : OutgoingInv out := outgoingInv_step h.out ho
      have hm := outgoingStep_move h.out ho
      rw [chatServer, ho] at hstep
      -- the others keep what they have
      have hothers : ∀ {c : PClientInfo} {backlog : List PClientInfo},
          (∀ d, d ≠ c → readingOf call ≠ some d ∧ writtenOf call ≠ some d) →
          (∀ d ∈ backlog, d ∈ k.backlog) → ∀ d, d ≠ c →
            LinkInv out backlog (k.client d) (k.handed d) d :=
        fun hc hb d hd => (h.link d).frame h.out hm (hc d hd).1 (hc d hd).2 (hb d)
      have hkeep : (∀ d, readingOf call ≠ some d ∧ writtenOf call ≠ some d) →
          ChatInv { k with out := out } :=
        fun hc => ⟨hout, h.nodup,
          fun d => (h.link d).frame h.out hm (hc d).1 (hc d).2 id⟩
      cases call with
      | accept c socketId =>
          simp only at hstep
          cases hb : k.backlog with
          | nil =>
              rw [hb] at hstep
              cases hstep
          | cons d backlog =>
              simp only [hb] at hstep
              obtain ⟨rfl, hk⟩ := Option.ite_none_right_eq_some.mp hstep
              obtain rfl := Option.some.inj hk
              have hnd := h.nodup
              rw [hb, List.nodup_cons] at hnd
              refine .updated (k := k) d hout hnd.2 ?_ (fun _ _ => rfl) (fun _ _ => rfl)
                (hothers (fun e he => ?_) (fun e he => ?_))
              · exact (h.link d).accept h.out (hb ▸ List.mem_cons_self ..) hnd.1 hm
              · exact ⟨fun hs => he (Option.some.inj hs).symm,
                  fun hs => he (Option.some.inj hs).symm⟩
              · rw [hb]
                exact List.mem_cons_of_mem d he
      | fetch c n reads =>
          obtain ⟨⟨rest, hrest⟩, hk⟩ := Option.ite_none_right_eq_some.mp hstep
          obtain rfl := Option.some.inj hk
          refine .updated (k := k) c hout h.nodup ?_
            (fun d hd => setClient_of_ne _ _ hd) (fun _ _ => rfl)
            (hothers (fun d hd => ⟨fun hs => hd (Option.some.inj hs).symm, ?_⟩)
              fun _ hd => hd)
          · rw [setClient_self]
            rw [← hrest, List.drop_left]
            exact (h.link c).fetch h.out hm hrest.symm
          · exact fun hs => (by cases hs)
      | handle c env =>
          obtain rfl := Option.some.inj hstep
          refine .updated (k := k) c hout h.nodup ?_ (fun _ _ => rfl)
            (fun d hd => Function.update_of_ne hd ..)
            (hothers (fun d hd => ⟨fun hs => hd (Option.some.inj hs).symm, ?_⟩)
              fun _ hd => hd)
          · show LinkInv out k.backlog (k.client c) (Function.update k.handed c _ c) c
            rw [Function.update_self]
            exact (h.link c).handle h.out hm
          · exact fun hs => (by cases hs)
      | flush c writes =>
          obtain rfl := Option.some.inj hstep
          refine .updated (k := k) c hout h.nodup ?_
            (fun d hd => setClient_of_ne _ _ hd) (fun _ _ => rfl)
            (hothers (fun d hd => ⟨?_, fun hs => hd (Option.some.inj hs).symm⟩)
              fun _ hd => hd)
          · rw [setClient_self]
            exact (h.link c).flush h.out hm
          · exact fun hs => (by cases hs)
      | markFail | send | remove | notice | release =>
          obtain rfl := Option.some.inj hstep
          exact hkeep fun d => ⟨fun hs => (by cases hs), fun hs => (by cases hs)⟩

/-- A program that connects. -/
theorem ChatInv.connect {k : Chat} (h : ChatInv k) {c : PClientInfo}
    (name : List UInt8) (hb : c ∉ k.backlog) (hc : c ∉ k.out.alive) :
    ChatInv { k.setClient c (registered name) with
      backlog := k.backlog ++ [c]
      handed := Function.update k.handed c [] } := by
  refine .updated (k := k) c h.out ?_ ?_ (fun d hd => setClient_of_ne k _ hd)
    (fun d hd => Function.update_of_ne hd ..) (fun d hd => ?_)
  · show (k.backlog ++ [c]).Nodup
    rw [List.nodup_append]
    refine ⟨h.nodup, List.nodup_singleton c, fun d hd e he => ?_⟩
    rw [List.mem_singleton.mp he]
    rintro rfl
    exact hb hd
  · show LinkInv k.out (k.backlog ++ [c]) ((k.setClient c (registered name)).client c)
      (Function.update k.handed c [] c) c
    rw [setClient_self, Function.update_self]
    exact {
      apart := fun _ => hc
      client := fun _ => clientInv_registered name
      queued := fun _ => ⟨rfl, rfl, rfl⟩
      incoming := fun hcl => absurd (mem_alive.mpr (Or.inl hcl)) hc
      outcoming := fun halive => absurd halive hc
      isLine := fun line hl => absurd hl List.not_mem_nil }
  · have hlink := h.link d
    have hmem : d ∈ k.backlog ++ [c] → d ∈ k.backlog :=
      fun hm => (List.mem_append.mp hm).resolve_right
        fun e => hd (List.mem_singleton.mp e)
    exact ⟨fun hm => hlink.apart (hmem hm), fun hm => hlink.client (hm.imp_left hmem),
      fun hm => hlink.queued (hmem hm), hlink.incoming, hlink.outcoming,
      hlink.isLine⟩

/-- The step lemma of the chat. -/
theorem chatInv_step {k k' : Chat} {e : ChatEvent} (h : ChatInv k)
    (hstep : chatSystem.step k e = some k') : ChatInv k' := by
  have hstep' : chatStep k e = some k' := hstep
  cases e with
  | connect c name =>
      obtain ⟨⟨hb, hc⟩, hk⟩ := Option.ite_none_right_eq_some.mp hstep'
      exact Option.some.inj hk ▸ h.connect name hb hc
  | server call => exact h.server hstep'
  | pass c env =>
      obtain ⟨hwhole, hk⟩ := Option.ite_none_right_eq_some.mp hstep'
      obtain ⟨u, hpass, rfl⟩ := Option.map_eq_some_iff.mp hk
      refine .updated (k := k) c h.out h.nodup ?_ (fun d hd => setClient_of_ne k u hd)
        (fun _ _ => rfl) (fun d _ => h.link d)
      rw [setClient_self]
      exact (h.link c).pass hwhole hpass

theorem chatInv_start {k : Chat} (h : chatSystem.start k) : ChatInv k := by
  obtain ⟨hout, hb, hhanded⟩ := h
  have hcl : k.out.server.clients = [] := hout.1.1
  have halive : ∀ c, c ∉ k.out.alive := by
    intro c hc
    rw [Outgoing.alive, hcl, hout.2.2.1] at hc
    cases hc
  have hqueued : ∀ c, c ∉ k.backlog := fun c hc => (by rw [hb] at hc; cases hc)
  refine ⟨outgoingInv_start hout, hb ▸ List.nodup_nil, fun c => ?_⟩
  exact {
    apart := fun hc => absurd hc (hqueued c)
    client := fun hc => (hc.elim (hqueued c) (halive c)).elim
    queued := fun hc => absurd hc (hqueued c)
    incoming := fun hc => absurd (mem_alive.mpr (Or.inl hc)) (halive c)
    outcoming := fun hc => absurd hc (halive c)
    isLine := fun line hl => by
      rw [hhanded c] at hl
      cases hl }

theorem chatInv_reachable {k : Chat} (h : Reachable chatSystem k) : ChatInv k :=
  reachable_inv chatSystem (fun _ => chatInv_start)
    (fun _ _ _ hinv => chatInv_step hinv) h

/-! ## From end to end -/

/-- **NOTHING IS LOST ON THE WAY**: in every reachable state of the chat and for
    every listed client, the lines dispatched, the bytes that wait in the reading
    buffer and those in the socket are the registration and the stream of the
    chunks typed; and what is on the terminal, what is in the socket and what
    waits in the writing buffer are the messages sent to the client. -/
theorem chat_streams {k : Chat} (h : Reachable chatSystem k) {c : PClientInfo}
    (hc : c ∈ k.out.server.clients) :
    (k.handed c).flatten
          ++ (k.out.server.mem.reading c ++ (k.client c).toServer)
        = (register (k.client c).name).sent ++ clientStream (k.client c).typed
      ∧ (k.client c).shown
          ++ ((k.client c).toClient ++ k.out.server.mem.writing c)
        = ((k.out.sent c).map Built.bytes).flatten := by
  have hinv := chatInv_reachable h
  have hlink := hinv.link c
  have halive := mem_alive.mpr (Or.inl hc)
  have hclient := hlink.client (Or.inr halive)
  refine ⟨(hlink.incoming hc).trans hclient.written, ?_⟩
  rw [hclient.shown, ← List.append_assoc, hlink.outcoming halive]
  exact hinv.out.stream c halive

/-! ### Lines -/

/-- Lists of lines are determined by their bytes. -/
theorem lines_prefix : ∀ {xs ys : List (List UInt8)} {rest : List UInt8},
    (∀ x ∈ xs, TypedLine x) → (∀ y ∈ ys, TypedLine y) →
    xs.flatten ++ rest = ys.flatten → xs <+: ys ∧ (rest = [] → xs = ys) := by
  intro xs
  induction xs with
  | nil =>
      intro ys rest _ hys h
      refine ⟨List.nil_prefix, ?_⟩
      rintro rfl
      cases ys with
      | nil => rfl
      | cons y ys =>
          obtain ⟨text, rfl, -⟩ := hys y (List.mem_cons_self ..)
          rw [List.flatten_cons, List.append_assoc] at h
          have hlen := congrArg List.length h
          simp at hlen
  | cons x xs ih =>
      intro ys rest hxs hys h
      have hx := hxs x (List.mem_cons_self ..)
      cases ys with
      | nil =>
          obtain ⟨text, rfl, -⟩ := hx
          have hlen := congrArg List.length h
          simp at hlen
      | cons y ys =>
          rw [List.flatten_cons, List.append_assoc, List.flatten_cons,
            line_append_inj hx (hys y (List.mem_cons_self ..))] at h
          obtain ⟨rfl, hrest⟩ := h
          obtain ⟨hpre, hall⟩ := ih (fun z hz => hxs z (List.mem_cons_of_mem x hz))
            (fun z hz => hys z (List.mem_cons_of_mem x hz)) hrest
          exact ⟨List.prefix_cons_inj x |>.mpr hpre, fun e => congrArg _ (hall e)⟩

/-- The line of the registration. -/
def loginLine (name : List UInt8) : List UInt8 := cmdLogin ++ cstr name ++ ascii "\n"

theorem register_sent {name : List UInt8} (hlen : strlen name + 8 < 2 ^ 64) :
    (register name).sent = loginLine name := by
  have hsize : (register name).loginCmdSize = (loginLine name).length := by
    show sizeT (strlen name + strlen cmdLogin + 1 : Nat) = _
    rw [show strlen cmdLogin = 7 from rfl, sizeT_natCast (by omega), loginLine,
      List.length_append, List.length_append]
    show (cstr name).length + 7 + 1 = 7 + (cstr name).length + 1
    omega
  show (register name).nameLine.take (register name).loginCmdSize = _
  rw [hsize]
  show (overwrite (List.replicate _ 0) 0 (loginLine name ++ [0])).take _ = _
  rw [overwrite, List.take_zero, List.nil_append, List.append_assoc, List.take_left]

theorem typedLine_loginLine {name : List UInt8} (h : (10 : UInt8) ∉ cstr name) :
    TypedLine (loginLine name) := by
  refine ⟨cmdLogin ++ cstr name, rfl, fun hm => ?_⟩
  exact (List.mem_append.mp hm).elim (by decide) h

/-- A chunk that is one line becomes one line of the protocol. -/
theorem clientStream_lines {chunks : List (List UInt8)}
    (hlen : ∀ chunk ∈ chunks, chunk.length ≤ 1016) :
    clientStream chunks = (chunks.map protocolLine).flatten := by
  rw [clientStream, List.flatMap_def]
  refine congrArg List.flatten (List.map_congr_left fun chunk hc => ?_)
  exact (stdinBranch_eq (hlen chunk hc)).trans
    (by simp [protocolLine, toAllPrefix, ascii])

/-- **THE SERVER DISPATCHES WHAT WAS TYPED**: when every chunk of the keyboard is a
    line, the lines dispatched for a client are its login and the protocol lines
    of what was typed, in their order, and all of them once nothing waits. -/
theorem chat_lines {k : Chat} (h : Reachable chatSystem k) {c : PClientInfo}
    (hc : c ∈ k.out.server.clients)
    (hname : (10 : UInt8) ∉ cstr (k.client c).name)
    (hlen : strlen (k.client c).name + 8 < 2 ^ 64)
    (htyped : ∀ chunk ∈ (k.client c).typed, TypedLine chunk) :
    k.handed c
        <+: loginLine (k.client c).name :: (k.client c).typed.map protocolLine
      ∧ (k.out.server.mem.reading c ++ (k.client c).toServer = [] →
        k.handed c
          = loginLine (k.client c).name :: (k.client c).typed.map protocolLine) := by
  have hlink := (chatInv_reachable h).link c
  have hclient := hlink.client (Or.inr (mem_alive.mpr (Or.inl hc)))
  have hbytes := (hlink.incoming hc).trans hclient.written
  rw [register_sent hlen, clientStream_lines hclient.chunks, ← List.flatten_cons]
    at hbytes
  refine lines_prefix (fun line hl => ?_) (fun line hl => ?_) hbytes
  · obtain ⟨text, htext, h10, -⟩ := hlink.isLine line hl
    exact ⟨text, htext, h10⟩
  · rcases List.mem_cons.mp hl with rfl | hl
    · exact typedLine_loginLine hname
    · obtain ⟨chunk, hchunk, rfl⟩ := List.mem_map.mp hl
      exact typedLine_protocolLine (htyped chunk hchunk)

/-! ### Two users -/

/-- Nobody is connected. -/
def freshChat : Chat where
  out := freshOutgoing
  backlog := []
  client := fun _ => ⟨false, [], [], [], [], [], [], []⟩
  handed := fun _ => []

theorem freshChat_start : chatSystem.start freshChat :=
  ⟨freshOutgoing_start, rfl, fun _ => rfl⟩

/-- A line is typed. -/
def typing (line : List UInt8) : PassEnv where
  pollRet := 1
  stdinEvents := 1
  socketEvents := 0
  typed := .bytes line
  arrived := none
  socketWrite := .count 1024
  stdoutWrite := .count 1024

/-- The socket is read. -/
def readsSocket : PassEnv where
  pollRet := 1
  stdinEvents := 0
  socketEvents := 1
  typed := .bytes []
  arrived := some 20
  socketWrite := .count 1024
  stdoutWrite := .count 1024

/-- Two users log in, and the first says something to the second, who reads it in
    two pieces. -/
def twoUsers : List ChatEvent :=
  [.connect 1 (ascii "ann"), .connect 2 (ascii "bob"), .server (.accept 1 4),
    .server (.accept 2 5), .server (.fetch 1 11 [.bytes (ascii "LOGIN: ann\n")]),
    .server (.handle 1 nulSurround), .pass 1 (typing (ascii "hi\n")),
    .server (.fetch 1 5 [.bytes (ascii "TO-AL")]),
    .server (.fetch 1 6 [.bytes (ascii "L: hi\n")]),
    .server (.handle 1 nulSurround), .server (.send 2 0), .server (.send 2 1),
    .server (.flush 2 []), .pass 2 readsSocket]

theorem twoUsers_reached : ∃ k, runFrom chatSystem freshChat twoUsers = some k
    ∧ 1 ∈ k.out.server.clients ∧ 2 ∈ k.out.server.clients
    ∧ (k.client 1).name = ascii "ann" ∧ (k.client 1).typed = [ascii "hi\n"]
    ∧ k.out.server.mem.reading 1 ++ (k.client 1).toServer = [] := by
  have hrun : ((runFrom chatSystem freshChat twoUsers).any fun k =>
      decide ((1 : PClientInfo) ∈ k.out.server.clients
        ∧ (2 : PClientInfo) ∈ k.out.server.clients
        ∧ (k.client 1).name = ascii "ann" ∧ (k.client 1).typed = [ascii "hi\n"]
        ∧ k.out.server.mem.reading 1 ++ (k.client 1).toServer = [])) = true := by
    decide +kernel
  obtain ⟨k, hk, hp⟩ := (Option.any_eq_true _ _).mp hrun
  exact ⟨k, hk, of_decide_eq_true hp⟩

theorem chat_streams_twoUsers : ∃ k, runFrom chatSystem freshChat twoUsers = some k
    ∧ (k.client 2).shown
          ++ ((k.client 2).toClient ++ k.out.server.mem.writing 2)
        = ((k.out.sent 2).map Built.bytes).flatten := by
  obtain ⟨k, hk, -, h2, -⟩ := twoUsers_reached
  exact ⟨k, hk, (chat_streams (runFrom_reachable chatSystem twoUsers
    (.start freshChat_start) hk) h2).2⟩

theorem chat_lines_twoUsers : ∃ k, runFrom chatSystem freshChat twoUsers = some k
    ∧ k.handed 1 = [ascii "LOGIN: ann\n", ascii "TO-ALL: hi\n"] := by
  obtain ⟨k, hk, h1, -, hname, htyped, hempty⟩ := twoUsers_reached
  obtain ⟨-, hall⟩ := chat_lines (runFrom_reachable chatSystem twoUsers
    (.start freshChat_start) hk) h1 (by rw [hname]; decide) (by rw [hname]; decide)
    (by
      rw [htyped]
      intro chunk hm
      rw [List.mem_singleton.mp hm]
      exact ⟨ascii "hi", by decide, by decide⟩)
  refine ⟨k, hk, (hall hempty).trans ?_⟩
  rw [hname, htyped]
  decide

end IMChat

import IMServer.Outgoing
import IMServer.Presence
import IMServer.Room

/-! # The server is a chat room

    `Room` says what a chat server is for.  Here the calls of the server, one after
    the other, are followed by the events of a room: what was queued for a client
    and what its socket took are, byte for byte, the messages in its inbox
    (`service_is_room`).  So what holds in the room holds of the server:
    `private_unseen`, and `public_stream`. -/

namespace IMService

open IMBytes IMCString IMMachineInt IMCachePool IMBuffer IMBufferInvariant
  IMBufferTake IMBufferQueue IMClientInfo IMLineFraming IMMessage IMMessageFormat
  IMServerInfo IMDelivery IMDispatch IMServerRun IMRouting IMAttribution IMPresence
  IMOutgoing IMTransition IMRoom

/-! ## What a line asks for -/

/-- The request of a line. -/
def request (line : List UInt8) : Request (List UInt8) (List UInt8) :=
  if cmdLogin <+: line then
    .login ((line.drop cmdLogin.length).dropLast.take (clientNameMaximumSize - 1))
  else if cmdToAll <+: line then .toAll (line.drop (cmdToAll.length + 1)).dropLast
  else if cmdToC <+: line then
    let rest := line.drop cmdToC.length
    if 58 ∈ rest then
      .toOne (rest.takeWhile (· ≠ 58)) ((rest.dropWhile (· ≠ 58)).drop 2).dropLast
    else .nothing
  else .nothing

/-- The bytes of a message. -/
def messageBytes : Message (List UInt8) (List UInt8) → List UInt8
  | .said sender text => peerText sender text
  | .online name => noticeText name msgLoginSuffix
  | .offline name => noticeText name msgLogoutSuffix

theorem request_login (text : List UInt8) :
    request (cmdLogin ++ text ++ [10]) = .login (text.take 29) := by
  have hpre : cmdLogin <+: cmdLogin ++ text ++ [10] := by
    rw [List.append_assoc]
    exact List.prefix_append _ _
  rw [request, if_pos hpre, List.append_assoc, List.drop_left, List.dropLast_concat]
  rfl

theorem request_toAll (x : UInt8) (text : List UInt8) :
    request (cmdToAll ++ x :: text ++ [10]) = .toAll text := by
  have hpre : cmdToAll <+: cmdToAll ++ x :: text ++ [10] := by
    rw [List.append_assoc]
    exact List.prefix_append _ _
  have hsplit : cmdToAll ++ x :: text ++ [10] = cmdToAll ++ [x] ++ (text ++ [10]) := by
    simp
  rw [request, if_neg (command_unique hpre (by decide) (by decide)), if_pos hpre, hsplit,
    List.drop_left' (by rw [List.length_append, List.length_singleton]),
    List.dropLast_concat]

theorem request_toC {rcpt : List UInt8} (h58 : (58 : UInt8) ∉ rcpt) (x : UInt8)
    (text : List UInt8) :
    request (cmdToC ++ rcpt ++ 58 :: x :: text ++ [10]) = .toOne rcpt text := by
  have hsplit : cmdToC ++ rcpt ++ 58 :: x :: text ++ [10]
      = cmdToC ++ (rcpt ++ 58 :: x :: (text ++ [10])) := by simp
  have hpre : cmdToC <+: cmdToC ++ (rcpt ++ 58 :: x :: (text ++ [10])) :=
    List.prefix_append _ _
  have hrcpt : ∀ b ∈ rcpt, decide (b ≠ 58) = true :=
    fun b hb => decide_eq_true (ne_of_mem_of_not_mem hb h58)
  rw [hsplit, request, if_neg (command_unique hpre (by decide) (by decide)),
    if_neg (command_unique hpre (by decide) (by decide)), if_pos hpre]
  simp only [List.drop_left]
  rw [if_pos (by simp), List.takeWhile_append_of_pos hrcpt,
    List.dropWhile_append_of_pos hrcpt, List.takeWhile_cons_of_neg (by decide),
    List.dropWhile_cons_of_neg (by decide), List.append_nil]
  rw [show (58 :: x :: (text ++ [10])).drop 2 = text ++ [10] from rfl,
    List.dropLast_concat]

theorem request_nothing {line : List UInt8} (hlogin : ¬ cmdLogin <+: line)
    (hall : ¬ cmdToAll <+: line) (hto : cmdToC <+: line → (58 : UInt8) ∉ line) :
    request line = .nothing := by
  rw [request, if_neg hlogin, if_neg hall]
  split
  · next hpre => exact if_neg fun hm => hto hpre (List.mem_of_mem_drop hm)
  · rfl

/-- **THE LINES IN BOUNDS**, by what they ask for. -/
inductive Asks (line : List UInt8) : Prop
  | login (text : List UInt8) : line = cmdLogin ++ text ++ [10] → Asks line
  | toAll (x : UInt8) (text : List UInt8) : line = cmdToAll ++ x :: text ++ [10] →
      Asks line
  | toC (rcpt : List UInt8) (x : UInt8) (text : List UInt8) : (58 : UInt8) ∉ rcpt →
      rcpt.length < 30 → line = cmdToC ++ rcpt ++ 58 :: x :: text ++ [10] → Asks line
  | nothing : ¬ cmdLogin <+: line → ¬ cmdToAll <+: line →
      (cmdToC <+: line → (58 : UInt8) ∉ line) → Asks line

theorem asks_line {line after : List UInt8} (hl : IsLine line)
    (hafter : after.head? = some 0) (hb : InBounds line after) : Asks line := by
  obtain ⟨rest, rfl⟩ := List.head?_eq_some_iff.mp hafter
  by_cases hlogin : cmdLogin <+: line
  · obtain ⟨text, htext, -⟩ := command_line hl hlogin (by decide)
    exact .login text htext
  by_cases hall : cmdToAll <+: line
  · obtain ⟨text, htext, -⟩ := command_line hl hall (by decide)
    have h8 := hb.1 hall
    rw [htext, List.length_append, List.length_append,
      show cmdToAll.length = 7 from rfl, List.length_singleton] at h8
    obtain ⟨x, text, rfl⟩ := List.exists_cons_of_length_pos
      (show 0 < text.length by omega)
    exact .toAll x text htext
  by_cases hto : cmdToC <+: line
  · have hz : (0 : UInt8) ∉ line := by
      obtain ⟨text, htext, -⟩ := id hl
      exact (isLine_parts hl htext).2.2
    cases hi : strchr (line ++ 0 :: rest) 58 with
    | none =>
        have hno := (strchr_eq_none (by decide)).mp hi
        rw [cstr_append_zero hz] at hno
        exact .nothing hlogin hall fun _ => hno
    | some i =>
        obtain ⟨h2, h30⟩ := hb.2 hto i hi
        obtain ⟨rcpt, x, text, htext, hrcpt, h58, -⟩ := toC_parts hl hto hi h2
        exact .toC rcpt x text h58 (by omega) htext
  · exact .nothing hlogin hall fun hpre => absurd hpre hto

/-! ## The calls and the room -/

/-- A recorded run of the server, and the bytes each socket took. -/
structure Service where
  presence : Presence
  written : PClientInfo → List UInt8

def Service.server (v : Service) : ServerInfo := v.presence.run.server

/-- What is on its way to a client, or was: the bytes its socket took and those in
    its writing buffer. -/
def Service.outgoing (v : Service) (c : PClientInfo) : List UInt8 :=
  v.written c ++ v.server.mem.writing c

/-- What the sockets have taken after a call. -/
def writtenAfter (v : Service) : PresenceEvent → PClientInfo → List UInt8
  | .call (.accept c _) => Function.update v.written c []
  | .call (.flush c writes) => Function.update v.written c
      (v.written c ++ (flushMessages v.server.mem c writes).bytes)
  | _ => v.written

def serviceStep (v : Service) (e : PresenceEvent) : Option Service :=
  (presenceStep v.presence e).map fun p => ⟨p, writtenAfter v e⟩

/-- The calls of the server, from the start. -/
def serviceSystem : System Service PresenceEvent where
  start v := presenceSystem.start v.presence ∧ ∀ c, v.written c = []
  step := serviceStep

/-- The event of the room that a call is. -/
def roomEvent (v : Service) :
    PresenceEvent → List (RoomEvent PClientInfo (List UInt8) (List UInt8))
  | .call (.accept c _) => [.enter c]
  | .call (.markFail c) => [.lose c]
  | .call (.logout c _) => [.leave c]
  | .line c env => [.ask c (request (roundLine v.server c env))]
  | _ => []

/-- The block of every line ends in a NUL byte, and the line is in bounds. -/
def LinesOk (v : Service) : PresenceEvent → Prop
  | .line c env => env.afterLine.head? = some 0
      ∧ InBounds (roundLine v.server c env) env.afterLine
  | _ => True

instance (v : Service) (e : PresenceEvent) : Decidable (LinesOk v e) :=
  match e with
  | .line _ _ => inferInstanceAs (Decidable (_ ∧ _))
  | .call _ => .isTrue trivial
  | .signal => .isTrue trivial

/-- The room that is empty. -/
def emptyRoom : Room PClientInfo (List UInt8) (List UInt8) where
  members := []
  name := fun _ => []
  broken := fun _ => false
  asked := fun _ => []
  inbox := fun _ => []

/-- The clients are the members, with the same names and marks. -/
structure Matches (s : ServerInfo) (r : Room PClientInfo (List UInt8) (List UInt8)) :
    Prop where
  members : r.members = s.clients
  name : ∀ c ∈ s.clients, r.name c = nameOf s.mem c
  broken : ∀ c ∈ s.clients, r.broken c = decide ((s.mem.info c).pub = fail)

/-- **THE SERVER IS THE ROOM**: what the members asked for is what their lines say,
    and what is on its way to them what they were told. -/
structure Refines (v : Service) (r : Room PClientInfo (List UInt8) (List UInt8)) :
    Prop extends Matches v.server r where
  inv : PresenceInv v.presence
  newline : ∀ c ∈ v.server.clients, (10 : UInt8) ∉ nameOf v.server.mem c
  asked : ∀ c ∈ v.server.clients, r.asked c = (v.presence.run.handed c).map request
  inbox : ∀ c ∈ v.server.clients, v.outgoing c = (r.inbox c).flatMap messageBytes

theorem refines_start {v : Service} (h : serviceSystem.start v) : Refines v emptyRoom := by
  have hnone : v.server.clients = [] := h.1.1.1
  have hno : ∀ c, c ∉ v.server.clients := fun c hc => by
    rw [hnone] at hc
    cases hc
  exact ⟨⟨hnone.symm, fun c hc => absurd hc (hno c), fun c hc => absurd hc (hno c)⟩,
    presenceInv_start h.1, fun c hc => absurd hc (hno c),
    fun c hc => absurd hc (hno c), fun c hc => absurd hc (hno c)⟩

variable {v v' : Service} {r : Room PClientInfo (List UInt8) (List UInt8)}

theorem Matches.of_data {s s' : ServerInfo} (h : Matches s r)
    (hcl : s'.clients = s.clients) (hdata : s'.mem.data = s.mem.data) : Matches s' r := by
  have hinfo : ∀ c, s'.mem.info c = s.mem.info c :=
    fun c => congrArg ClientData.info (congrFun hdata c)
  refine ⟨by rw [hcl, h.members], fun c hc => ?_, fun c hc => ?_⟩
  · rw [nameOf, hinfo]
    exact h.name c (hcl ▸ hc)
  · rw [hinfo]
    exact h.broken c (hcl ▸ hc)

/-- Who hears a message is who gets it. -/
theorem Matches.hears {s : ServerInfo} (h : Matches s r) (sender : List UInt8)
    (d : PClientInfo) : r.Hears unknownClient sender d ↔ Audience s sender d := by
  rw [Room.Hears, Audience, h.members]
  refine and_congr_right fun hd => ?_
  rw [h.name d hd, h.broken d hd, decide_eq_false_iff_not]

/-- A call that changes nothing the room knows of. -/
theorem Refines.keep (h : Refines v r) (hinv : PresenceInv v'.presence)
    (hcl : v'.server.clients = v.server.clients)
    (hdata : v'.server.mem.data = v.server.mem.data)
    (hhanded : v'.presence.run.handed = v.presence.run.handed)
    (hout : ∀ c, v'.outgoing c = v.outgoing c) : Refines v' r := by
  refine ⟨h.toMatches.of_data hcl hdata, hinv, fun c hc => ?_, fun c hc => ?_,
    fun c hc => ?_⟩
  · rw [nameOf, Clients.info, hdata]
    exact h.newline c (hcl ▸ hc)
  · rw [hhanded]
    exact h.asked c (hcl ▸ hc)
  · rw [hout]
    exact h.inbox c (hcl ▸ hc)

/-! ## Lines -/

/-- Taking the line changes neither the data nor a writing buffer. -/
theorem fetched_frame {s : ServerInfo} {c : PClientInfo} {env : Surround} {i : Nat}
    (hr : Round s c env i) : (fetched s c env).mem.data = s.mem.data
      ∧ ∀ d, (fetched s c env).mem.writing d = s.mem.writing d :=
  ⟨hr.taken.data, fun d => (hr.taken.same (d, .writing)
    (reading_ne_writing c d).symm).content⟩

/-- The state behind a line whose message goes to `dest`. -/
theorem Refines.told (h : Refines v r) (hinv : PresenceInv v'.presence)
    {c : PClientInfo} (hc : c ∈ v.server.clients) {env : Surround} {i : Nat}
    (hr : Round v.server c env i) {name bytes : List UInt8} {dest : PClientInfo → Prop}
    (hrouted : Routed (fetched v.server c env) v'.server c name bytes dest)
    (hhanded : v'.presence.run.handed = Function.update v.presence.run.handed c
      (v.presence.run.handed c ++ [roundLine v.server c env]))
    (hwritten : v'.written = v.written) (h10 : (10 : UInt8) ∉ name)
    {m : Message (List UInt8) (List UInt8)} (hm : messageBytes m = bytes)
    {r₁ : Room PClientInfo (List UInt8) (List UInt8)}
    (hr₁ : r₁ = { r with
      asked := Function.update r.asked c
        (r.asked c ++ [request (roundLine v.server c env)])
      name := Function.update r.name c name })
    {dest' : PClientInfo → Prop} [DecidablePred dest']
    (hdest : Matches v'.server r₁ → ∀ d, dest' d ↔ dest d) :
    Refines v' (r₁.tell dest' m) := by
  obtain ⟨hdata, hwriting⟩ := fetched_frame hr
  have hf : Matches (fetched v.server c env) r := h.toMatches.of_data rfl hdata
  have hcl : v'.server.clients = v.server.clients := hrouted.clients
  have hsame : Matches v'.server r₁ := by
    rw [hr₁]
    refine ⟨by rw [hcl]; exact h.members, fun d hd => ?_, fun d hd => ?_⟩
    · dsimp only
      by_cases hdc : d = c
      · rw [hdc, Function.update_self, hrouted.name]
      · rw [Function.update_of_ne hdc, hrouted.names d hdc]
        exact hf.name d (hcl ▸ hd)
    · rw [hrouted.pub]
      exact hf.broken d (hcl ▸ hd)
  refine ⟨⟨hsame.members, hsame.name, hsame.broken⟩, hinv, fun d hd => ?_,
    fun d hd => ?_, fun d hd => ?_⟩
  · by_cases hdc : d = c
    · rw [hdc, hrouted.name]
      exact h10
    · rw [hrouted.names d hdc, nameOf, Clients.info, hdata]
      exact h.newline d (hcl ▸ hd)
  · rw [Room.tell, hr₁, hhanded]
    dsimp only
    by_cases hdc : d = c
    · rw [hdc, Function.update_self, Function.update_self, h.asked c hc,
        List.map_append, List.map_singleton]
    · rw [Function.update_of_ne hdc, Function.update_of_ne hdc]
      exact h.asked d (hcl ▸ hd)
  · have hold := h.inbox d (hcl ▸ hd)
    have hinbox : r₁.inbox = r.inbox := by rw [hr₁]
    rw [Service.outgoing] at hold
    rw [Service.outgoing, Room.tell, hwritten]
    dsimp only
    rw [hinbox, List.flatMap_append, ← hold]
    by_cases hto : dest d
    · rw [if_pos ((hdest hsame d).mpr hto), List.flatMap_singleton, hm,
        hrouted.copies d hto, hwriting, List.append_assoc]
    · rw [if_neg (mt (hdest hsame d).mp hto), List.flatMap_nil, List.append_nil,
        hrouted.rest d hto, hwriting]

/-- **A LINE** is answered as its request is. -/
theorem Refines.line (h : Refines v r) {c : PClientInfo} {env : Surround}
    (hok : LinesOk v (.line c env)) (hinv : PresenceInv v'.presence)
    (hc : c ∈ v.server.clients) {i : Nat} (hi : nextLine v.server.mem c = some i)
    (hserver : v'.server = afterRound v.server c env)
    (hhanded : v'.presence.run.handed = Function.update v.presence.run.handed c
      (v.presence.run.handed c ++ [roundLine v.server c env]))
    (hwritten : v'.written = v.written) :
    Refines v' (answer unknownClient { r with
      asked := Function.update r.asked c
        (r.asked c ++ [request (roundLine v.server c env)]) } c
      (request (roundLine v.server c env))) := by
  obtain ⟨hafter, hb⟩ := hok
  have hr : Round v.server c env i := round_spec h.inv.run.server hc env hi
  obtain ⟨hdata, hwriting⟩ := fetched_frame hr
  have hf : Matches (fetched v.server c env) r := h.toMatches.of_data rfl hdata
  have hname : nameOf (fetched v.server c env).mem c = r.name c := (hf.name c hc).symm
  have hn10 : (10 : UInt8) ∉ r.name c := by
    rw [h.name c hc]
    exact h.newline c hc
  have hself : ∀ asked, { r with asked := asked }
      = { r with asked := asked, name := Function.update r.name c (r.name c) } := by
    intro asked
    rw [Function.update_eq_self]
  obtain ⟨rest, hrest⟩ := List.head?_eq_some_iff.mp hafter
  have hrouted : LineRouted (fetched v.server c env) v'.server c
      (roundLine v.server c env) := by
    rw [hserver]
    exact handleMsg_routed hr.fetched hc (hr.taken.outside.noFail h.inv.noFail) hrest
      hr.line hr.length
  cases asks_line hr.line hafter hb with
  | login text hline =>
      have h10 : (10 : UInt8) ∉ text.take 29 := fun hm => (isLine_parts hr.line hline).1
        (List.mem_append_right _ (List.mem_of_mem_take hm))
      have hreq : request (roundLine v.server c env) = .login (text.take 29) := by
        rw [hline, request_login]
      have htold := h.told hinv hc hr (hrouted.login text hline) hhanded hwritten h10
        (m := .online (text.take 29)) rfl rfl fun hsame d => hsame.hears (text.take 29) d
      rw [hreq] at htold ⊢
      exact htold
  | toAll x text hline =>
      have hreq : request (roundLine v.server c env) = .toAll text := by
        rw [hline, request_toAll]
      have hto := hrouted.toAll x text hline
      rw [hname] at hto
      have htold := h.told hinv hc hr hto hhanded hwritten hn10
        (m := .said (r.name c) text) rfl (hself _) fun _ d => hf.hears (r.name c) d
      rw [hreq] at htold ⊢
      exact htold
  | toC rcpt x text h58 hrcpt hline =>
      have hreq : request (roundLine v.server c env) = .toOne rcpt text := by
        rw [hline, request_toC h58]
      have hto := hrouted.toC rcpt x text h58 hrcpt hline
      rw [hname] at hto
      have hdest : ∀ d, r.Hears unknownClient (r.name c) d ∧ r.name d = rcpt
          ↔ Audience (fetched v.server c env) (r.name c) d
            ∧ nameOf (fetched v.server c env).mem d = rcpt := by
        intro d
        rw [hf.hears (r.name c) d]
        exact and_congr_right fun hd => by rw [hf.name d hd.1]
      have htold := h.told hinv hc hr hto hhanded hwritten hn10
        (m := .said (r.name c) text) rfl (hself _) fun _ => hdest
      rw [hreq] at htold ⊢
      exact htold
  | nothing hlogin hall hto =>
      have hsame : v'.server = fetched v.server c env := hrouted.other hlogin hall hto
      rw [request_nothing hlogin hall hto]
      refine ⟨?_, hinv, fun d hd => ?_, fun d hd => ?_, fun d hd => ?_⟩
      · rw [hsame]
        exact ⟨hf.members, hf.name, hf.broken⟩
      · rw [hsame] at hd ⊢
        rw [nameOf, Clients.info, hdata]
        exact h.newline d hd
      · rw [hsame] at hd
        rw [answer, hhanded]
        dsimp only
        by_cases hdc : d = c
        · rw [hdc, Function.update_self, Function.update_self, h.asked c hc,
            List.map_append, List.map_singleton, request_nothing hlogin hall hto]
        · rw [Function.update_of_ne hdc, Function.update_of_ne hdc]
          exact h.asked d hd
      · rw [hsame] at hd
        rw [Service.outgoing, hwritten, hsame, hwriting]
        exact h.inbox d hd

/-! ## Logouts -/

instance (s : ServerInfo) (sender : List UInt8) (d : PClientInfo) :
    Decidable (Audience s sender d) :=
  inferInstanceAs (Decidable (_ ∧ _ ∧ _ ∧ _))

/-- The notice of a logout, copy by copy. -/
theorem notifyLogout_writing {s : ServerInfo} {c : PClientInfo} (h : ServerInv s)
    (hname : strlen (s.mem.info c).name < 30) (hnf : NoFail s.pool)
    (h10 : (10 : UInt8) ∉ nameOf s.mem c) (junk : List UInt8 × List UInt8)
    (d : PClientInfo) :
    (notifyLogout s c junk).2.mem.writing d = s.mem.writing d
      ++ if Audience s (nameOf s.mem c) d then
        noticeText (nameOf s.mem c) msgLogoutSuffix else [] := by
  obtain ⟨a, o, p', hnot, hbor, hsome, hmsg⟩ := createNotice_spec (p := s.pool)
    h.heap.pool junk (s.mem.info c).name msgLogoutSuffix (by decide) (by decide) (by
      have h14 : msgLogoutSuffix.length = 14 := rfl
      omega)
  obtain ⟨hborrowed, hwriting⟩ := handled_setPool h.heap hbor.inv hbor.keeps c
  have hfresh : ServerInv (s.setPool p') := h.of_heap hborrowed.heap rfl
  have houtside : ∀ i, a ∉ owned (s.mem.heap.buf i) :=
    fun i hi => hbor.fresh ((h.heap.inv i).heldOwned hi)
  obtain ⟨hdel, -, hcopies⟩ := deliverIfAny_spec (o := o) hfresh.heap hfresh.count
    hfresh.nodup (fun msg hm => (hmsg msg hm).size) c
  have hcopy := hcopies (hborrowed.outside.noFail hnf) d
  rw [notifyLogout]
  simp only [hnot, recycleIfAny]
  generalize deliverIfAny (s.setPool p') o = x at hdel hcopy
  obtain ⟨-, hsame⟩ := recycle_outside hdel.heap (hdel.outside.held a hbor.held houtside)
    (hdel.outside.apart a hbor.held houtside)
  rw [show (x.2.setPool (recycleCache x.2.pool a).2).mem.writing d = x.2.mem.writing d
    from (hsame (d, .writing)).content, hcopy, hwriting]
  cases o with
  | none => exact absurd rfl (hsome hnf)
  | some msg =>
      have hm := hmsg msg rfl
      have hto : (d ∈ (s.setPool p').clients ∧ Gets (s.setPool p').mem msg d)
          ↔ Audience s (nameOf s.mem c) d := by
        rw [gets_of_data (show (s.setPool p').mem.data = s.mem.data from rfl)]
        exact (gets_toAll hm.target hm.exclude d).symm
      dsimp only
      rw [hm.text h10]
      by_cases hd : Audience s (nameOf s.mem c) d
      · rw [if_pos hd, if_pos (hto.mpr hd)]
        rfl
      · rw [if_neg hd, if_neg (mt hto.mp hd)]

/-- **A LOGOUT** tells the others. -/
theorem userLogout_writing {s : ServerInfo} {c : PClientInfo} (h : ServerInv s)
    (hc : c ∈ s.clients) (hnf : NoFail s.pool) (h10 : (10 : UInt8) ∉ nameOf s.mem c)
    (junk : List UInt8 × List UInt8) {d : PClientInfo} (hd : d ≠ c) :
    (userLogout s c junk).mem.writing d = s.mem.writing d
      ++ if Audience (removeClient s c) (nameOf s.mem c) d then
        noticeText (nameOf s.mem c) msgLogoutSuffix else [] := by
  obtain ⟨hlist, hmem, -⟩ := removeClient_spec h hc
  have hpool : (removeClient s c).pool = s.pool := congrArg (fun m => m.heap.pool) hmem
  have hname : strlen ((removeClient s c).mem.info c).name < 30 := by
    rw [hmem]
    exact (h.name c hc).strlen_lt
  obtain ⟨hinv, -⟩ := notifyLogout_spec hlist hname junk
  have htold := notifyLogout_writing hlist hname (by rw [hpool]; exact hnf)
    (by rw [hmem]; exact h10) junk d
  rw [hmem] at htold
  rw [userLogout]
  dsimp only
  generalize notifyLogout (removeClient s c) c junk = x at hinv htold
  obtain ⟨-, hsame, -⟩ := releaseClientInfo_spec (m := x.2.mem) c hinv.heap
  have hleft : (releaseClientInfo x.2.mem c).writing d = x.2.mem.writing d :=
    (hsame (d, .writing) hd).content
  split <;> exact hleft.trans htold

/-! ## Connections -/

/-- An allocation, when none fails. -/
theorem malloc_of_noFail {p : CachePool} (h : NoFail p) :
    ∃ p', malloc p = (true, p') ∧ NoFail p' :=
  ⟨(malloc p).2, Prod.ext h.malloc rfl, h.keeps ((allocated_malloc p).keeps [])⟩

theorem acceptClient_added {s : ServerInfo} (h : NoFail s.pool) (c : PClientInfo)
    (socketId : Int) : (acceptClient s c socketId).clients = s.clients ++ [c] := by
  obtain ⟨p₁, h₁, hn₁⟩ := malloc_of_noFail h
  obtain ⟨p₂, h₂, hn₂⟩ := malloc_of_noFail hn₁
  obtain ⟨p₃, h₃, hn₃⟩ := malloc_of_noFail hn₂
  obtain ⟨p₄, h₄, -⟩ := malloc_of_noFail hn₃
  have hnew : (newClientInfo s.mem c socketId (some unknownClient)).1 = true
      ∧ (newClientInfo s.mem c socketId (some unknownClient)).2.heap.pool = p₃ := by
    rw [newClientInfo, show malloc s.mem.heap.pool = (true, p₁) from h₁]
    simp only [h₂, h₃, and_self]
  rw [acceptClient]
  generalize newClientInfo s.mem c socketId (some unknownClient) = x at hnew
  obtain ⟨ok, m⟩ := x
  obtain ⟨rfl, rfl⟩ := hnew
  simp only [h₄]
  rfl

/-- A new client is a new member. -/
theorem Refines.accept (h : Refines v r) (hinv : PresenceInv v'.presence)
    {c : PClientInfo} (hc : c ∉ v.server.clients) {socketId : Int}
    (hsocket : ∀ d ∈ v.server.clients, (v.server.mem.info d).socketId ≠ socketId)
    (hserver : v'.server = acceptClient v.server c socketId)
    (hhanded : v'.presence.run.handed = Function.update v.presence.run.handed c [])
    (hwritten : v'.written = Function.update v.written c []) :
    Refines v'
      { members := r.members ++ [c]
        name := Function.update r.name c unknownClient
        broken := Function.update r.broken c false
        asked := Function.update r.asked c []
        inbox := Function.update r.inbox c [] } := by
  obtain ⟨-, hsame, -, hdata, hlist⟩ := acceptClient_spec h.inv.run.server hc hsocket
  have hadd := acceptClient_added h.inv.noFail c socketId
  rw [← Service.server, ← hserver] at hsame hdata hlist hadd
  obtain ⟨hcl, hbuf, hname, hpub⟩ := hlist.resolve_left fun e => by
    rw [hadd] at e
    exact absurd (congrArg List.length e) (by simp)
  have hold : ∀ d ∈ v'.server.clients, d ≠ c → d ∈ v.server.clients := by
    intro d hd hne
    rw [hcl] at hd
    exact (List.mem_append.mp hd).resolve_right fun e => hne (List.mem_singleton.mp e)
  have hinfo : ∀ d, d ≠ c → v'.server.mem.info d = v.server.mem.info d :=
    fun d hd => congrArg ClientData.info (hdata d hd)
  refine ⟨⟨by rw [hcl, h.members], fun d hd => ?_, fun d hd => ?_⟩, hinv,
    fun d hd => ?_, fun d hd => ?_, fun d hd => ?_⟩
  · dsimp only
    by_cases hdc : d = c
    · rw [hdc, Function.update_self, hname]
    · rw [Function.update_of_ne hdc, nameOf, hinfo d hdc]
      exact h.name d (hold d hd hdc)
  · dsimp only
    by_cases hdc : d = c
    · rw [hdc, Function.update_self, hpub]
      rfl
    · rw [Function.update_of_ne hdc, hinfo d hdc]
      exact h.broken d (hold d hd hdc)
  · by_cases hdc : d = c
    · rw [hdc, hname]
      decide
    · rw [nameOf, hinfo d hdc]
      exact h.newline d (hold d hd hdc)
  · rw [hhanded]
    dsimp only
    by_cases hdc : d = c
    · rw [hdc, Function.update_self, Function.update_self]
      rfl
    · rw [Function.update_of_ne hdc, Function.update_of_ne hdc]
      exact h.asked d (hold d hd hdc)
  · rw [Service.outgoing, hwritten]
    dsimp only
    by_cases hdc : d = c
    · have hempty : v'.server.mem.writing c = [] := by
        rw [Clients.writing, BufferHeap.content, hbuf .writing]
        rfl
      rw [hdc, Function.update_self, Function.update_self, hempty]
      rfl
    · have hwriting : v'.server.mem.writing d = v.server.mem.writing d :=
        (hsame (d, .writing) hdc).content
      rw [Function.update_of_ne hdc, Function.update_of_ne hdc, hwriting]
      exact h.inbox d (hold d hd hdc)

/-- The list without the client. -/
theorem erase_split {c : PClientInfo} {pre post : List PClientInfo}
    (h : (pre ++ c :: post).Nodup) : (pre ++ c :: post).erase c = pre ++ post := by
  rw [List.nodup_middle, List.nodup_cons] at h
  rw [List.erase_append_right _ fun hm => h.1 (List.mem_append_left _ hm),
    List.erase_cons_head]

theorem logout_clients {s : ServerInfo} {c : PClientInfo} (h : ServerInv s)
    (hc : c ∈ s.clients) (junk : List UInt8 × List UInt8) :
    (removeClient s c).clients = s.clients.erase c
      ∧ (userLogout s c junk).clients = s.clients.erase c := by
  obtain ⟨-, -, pre, post, hsplit, hcl⟩ := removeClient_spec h hc
  obtain ⟨-, -, -, -, pre', post', hsplit', hcl'⟩ := userLogout_spec h hc junk
  constructor
  · rw [hcl, hsplit, erase_split (hsplit ▸ h.nodup)]
  · rw [hcl', hsplit', erase_split (hsplit' ▸ h.nodup)]

/-- A logout is the leaving of a member. -/
theorem Refines.logout (h : Refines v r) (hinv : PresenceInv v'.presence)
    {c : PClientInfo} (hc : c ∈ v.server.clients) (junk : List UInt8 × List UInt8)
    (hserver : v'.server = userLogout v.server c junk)
    (hhanded : v'.presence.run.handed = v.presence.run.handed)
    (hwritten : v'.written = v.written)
    {r₁ : Room PClientInfo (List UInt8) (List UInt8)}
    (hr₁ : r₁ = { r with members := r.members.erase c }) :
    Refines v' (r₁.tell (r₁.Hears unknownClient (r₁.name c)) (.offline (r₁.name c))) := by
  have hs : ServerInv v.server := h.inv.run.server
  obtain ⟨-, -, -, hdata, -⟩ := userLogout_spec hs hc junk
  obtain ⟨-, hmem, -⟩ := removeClient_spec hs hc
  obtain ⟨hremoved, hcl⟩ := logout_clients hs hc junk
  rw [← hserver] at hdata hcl
  have hsub : ∀ d ∈ v.server.clients.erase c, d ∈ v.server.clients :=
    fun d hd => List.mem_of_mem_erase hd
  have hname : r₁.name c = nameOf v.server.mem c := by
    rw [hr₁]
    exact h.name c hc
  have hleft : Matches (removeClient v.server c) r₁ := by
    rw [hr₁]
    refine ⟨?_, fun d hd => ?_, fun d hd => ?_⟩
    · dsimp only
      rw [h.members, hremoved]
    · rw [hmem]
      exact h.name d (hsub d (hremoved ▸ hd))
    · rw [hmem]
      exact h.broken d (hsub d (hremoved ▸ hd))
  have hsame : Matches v'.server r₁ :=
    hleft.of_data (by rw [hcl, hremoved]) (by rw [hdata, hmem])
  refine ⟨⟨hsame.members, hsame.name, hsame.broken⟩, hinv, fun d hd => ?_,
    fun d hd => ?_, fun d hd => ?_⟩
  all_goals rw [hcl] at hd
  · rw [nameOf, Clients.info, hdata]
    exact h.newline d (hsub d hd)
  · rw [hhanded, Room.tell, hr₁]
    exact h.asked d (hsub d hd)
  · have hne : d ≠ c := fun e => (hs.nodup.not_mem_erase : c ∉ _) (e ▸ hd)
    have hold := h.inbox d (hsub d hd)
    have hinbox : r₁.inbox = r.inbox := by rw [hr₁]
    have htold := userLogout_writing hs hc h.inv.noFail (h.newline c hc) junk hne
    rw [Service.outgoing] at hold
    rw [Service.outgoing, Room.tell, hwritten, hserver, htold]
    dsimp only
    rw [hinbox, List.flatMap_append, ← hold, List.append_assoc, hname]
    by_cases hto : Audience (removeClient v.server c) (nameOf v.server.mem c) d
    · rw [if_pos hto, if_pos ((hleft.hears _ d).mpr hto), List.flatMap_singleton]
      rfl
    · rw [if_neg hto, if_neg (mt (hleft.hears _ d).mp hto), List.flatMap_nil]

/-! ## Runs -/

/-- A mark of the reading thread. -/
theorem Refines.lose (h : Refines v r) (hinv : PresenceInv v'.presence)
    {c : PClientInfo} (hserver : v'.server = IMServerInfo.markFail v.server c)
    (hhanded : v'.presence.run.handed = v.presence.run.handed)
    (hwritten : v'.written = v.written) :
    Refines v' { r with broken := Function.update r.broken c true } := by
  obtain ⟨-, hnames⟩ := markFail_spec h.inv.run.server c
  have hname : ∀ d, nameOf v'.server.mem d = nameOf v.server.mem d := fun d => by
    rw [hserver]
    exact congrArg cstr (hnames d)
  have hcl : v'.server.clients = v.server.clients := by
    rw [hserver]
    rfl
  have hpub : ∀ d, (v'.server.mem.info d).pub
      = if d = c then fail else (v.server.mem.info d).pub := by
    intro d
    rw [hserver]
    split
    · next hdc =>
        rw [hdc]
        exact congrArg ClientInfo.pub (info_setInfo ..)
    · next hdc =>
        exact congrArg (fun x => x.info.pub) (data_setInfo_of_ne _ hdc _)
  refine ⟨⟨by rw [hcl, h.members], fun d hd => ?_, fun d hd => ?_⟩, hinv,
    fun d hd => ?_, fun d hd => ?_, fun d hd => ?_⟩
  all_goals rw [hcl] at hd
  · rw [hname]
    exact h.name d hd
  · rw [hpub]
    dsimp only
    by_cases hdc : d = c
    · rw [hdc, Function.update_self, if_pos rfl]
      rfl
    · rw [Function.update_of_ne hdc, if_neg hdc]
      exact h.broken d hd
  · rw [hname]
    exact h.newline d hd
  · rw [hhanded]
    exact h.asked d hd
  · have hwriting : v'.server.mem.writing d = v.server.mem.writing d := by
      rw [hserver]
      rfl
    rw [Service.outgoing, hwritten, hwriting]
    exact h.inbox d hd

/-- One call. -/
theorem service_step {e : PresenceEvent} (h : Refines v r) (hok : LinesOk v e)
    (hstep : serviceSystem.step v e = some v') :
    ∃ r', runFrom (roomSystem unknownClient) r (roomEvent v e) = some r'
      ∧ Refines v' r' := by
  obtain ⟨p, hp, rfl⟩ := Option.map_eq_some_iff.mp hstep
  have hinv : PresenceInv p := presenceInv_step h.inv hp
  have hmem : ∀ {c}, c ∈ v.server.clients → c ∈ r.members := fun hc => by
    rw [h.members]
    exact hc
  cases e with
  | signal =>
      obtain rfl := Option.some.inj hp
      exact ⟨r, rfl, h.keep hinv rfl rfl rfl fun _ => rfl⟩
  | line c env =>
      obtain ⟨⟨hc, hret⟩, he⟩ := Option.ite_none_right_eq_some.mp hp
      obtain rfl := Option.some.inj he
      obtain ⟨i, hi⟩ := nextLine_of_ret h.inv.run.server hc hret
      have hrun := recordLine_run v.presence c env
      exact ⟨_, runFrom_single _ (if_pos (hmem hc)), h.line hok hinv hc hi
        (congrArg ServerRun.server hrun) (congrArg ServerRun.handed hrun) rfl⟩
  | call e =>
      obtain ⟨run, hrun, rfl⟩ := presenceStep_call hp
      have hserver := recordCall_run v.presence run e
      cases e with
      | handle c envs => cases hp
      | accept c socketId =>
          obtain ⟨⟨hc, hsocket⟩, he⟩ := Option.ite_none_right_eq_some.mp hrun
          obtain ⟨h1, -, h3⟩ := serverRun_fields he
          exact ⟨_, runFrom_single _ (if_pos fun hm => hc (h.members ▸ hm)),
            h.accept hinv hc hsocket h1 h3 rfl⟩
      | markFail c =>
          obtain ⟨hc, he⟩ := Option.ite_none_right_eq_some.mp hrun
          obtain rfl := Option.some.inj he
          exact ⟨_, runFrom_single _ (if_pos (hmem hc)), h.lose hinv rfl rfl rfl⟩
      | logout c junk =>
          obtain ⟨hc, he⟩ := Option.ite_none_right_eq_some.mp hrun
          obtain ⟨h1, -, h3⟩ := serverRun_fields he
          exact ⟨_, runFrom_single _ (if_pos (hmem hc)),
            @Refines.logout v ⟨_, _⟩ r h hinv c hc junk h1 h3 rfl _ rfl⟩
      | fetch c byteAvailable reads =>
          obtain ⟨⟨hc, hn, hr⟩, he⟩ := Option.ite_none_right_eq_some.mp hrun
          obtain rfl := Option.some.inj he
          obtain ⟨-, -, hsame, hdata, -⟩ := fetchFromClient_spec (c := c)
            h.inv.run.server.heap hn hr
          refine ⟨r, rfl, h.keep hinv rfl hdata rfl fun d => ?_⟩
          exact congrArg (v.written d ++ ·)
            (hsame (d, .writing) (reading_ne_writing c d).symm).content
      | flush c writes =>
          obtain ⟨⟨hc, hw⟩, he⟩ := Option.ite_none_right_eq_some.mp hrun
          obtain rfl := Option.some.inj he
          obtain ⟨-, hsame, hdata, -⟩ := flushMessages_spec (c := c)
            h.inv.run.server.heap hw
          refine ⟨r, rfl, h.keep hinv rfl hdata rfl fun d => ?_⟩
          rw [Service.outgoing, Service.outgoing, writtenAfter]
          dsimp only
          by_cases hdc : d = c
          · rw [hdc, Function.update_self, List.append_assoc]
            exact congrArg (v.written c ++ ·)
              (flushMessages_split h.inv.run.server.heap hw)
          · rw [Function.update_of_ne hdc]
            exact congrArg (v.written d ++ ·)
              (hsame (d, .writing) fun e => hdc (congrArg Prod.fst e)).content

/-- The events of the room that the calls of a run are. -/
def roomEvents (v : Service) (es : List PresenceEvent) :
    List (RoomEvent PClientInfo (List UInt8) (List UInt8)) :=
  imageRun serviceSystem roomEvent v es

theorem service_run (h : Refines v r) {es : List PresenceEvent}
    (hok : Along serviceSystem LinesOk v es) (hrun : runFrom serviceSystem v es = some v') :
    ∃ r', runFrom (roomSystem unknownClient) r (roomEvents v es) = some r'
      ∧ Refines v' r' :=
  simulation serviceSystem (roomSystem unknownClient)
    (fun _ _ _ _ h hok hstep => service_step h hok hstep) es h hok hrun

/-- **THE SERVER IS A CHAT ROOM**: in every run of the calls, without allocation
    failures and with lines in bounds, the server does what the room does. -/
theorem service_is_room (h : serviceSystem.start v) {es : List PresenceEvent}
    (hok : Along serviceSystem LinesOk v es) (hrun : runFrom serviceSystem v es = some v') :
    ∃ r, runFrom (roomSystem unknownClient) emptyRoom (roomEvents v es) = some r
      ∧ Refines v' r :=
  service_run (refines_start h) hok hrun

/-- The untouched server. -/
def freshService : Service := ⟨freshPresence, fun _ => []⟩

theorem freshService_start : serviceSystem.start freshService :=
  ⟨freshPresence_start, fun _ => rfl⟩

/-- The client `c` sends a line. -/
def sends (c : PClientInfo) (line : String) : List PresenceEvent :=
  [.call (.fetch c 64 [.bytes (ascii line)]), .line c nulSurround]

/-- Three clients log in. -/
def threeUsers : List PresenceEvent :=
  connects 1 4 "LOGIN: ann\n" ++ connects 2 5 "LOGIN: bob\n"
    ++ connects 3 6 "LOGIN: eve\n"

/-- The first writes to the second and leaves. -/
def annLeaves : List PresenceEvent :=
  threeUsers ++ sends 1 "TO-C-bob: hi\n" ++ [.call (.logout 1 ([], []))]

/-- What the second is told. -/
theorem service_is_room_annLeaves : ∃ v r,
    runFrom serviceSystem freshService annLeaves = some v
      ∧ runFrom (roomSystem unknownClient) emptyRoom (roomEvents freshService annLeaves)
        = some r
      ∧ v.outgoing 2 = (r.inbox 2).flatMap messageBytes
      ∧ r.inbox 2 = [.online (ascii "eve"), .said (ascii "ann") (ascii "hi"),
        .offline (ascii "ann")] := by
  have hrun : ((runFrom serviceSystem freshService annLeaves).any fun v =>
      decide ((2 : PClientInfo) ∈ v.server.clients)) = true := by decide +kernel
  have hroom : ((runFrom (roomSystem unknownClient) emptyRoom
      (roomEvents freshService annLeaves)).any fun r =>
      decide (r.inbox 2 = [.online (ascii "eve"), .said (ascii "ann") (ascii "hi"),
        .offline (ascii "ann")])) = true := by decide +kernel
  obtain ⟨v, hv, h2⟩ := (Option.any_eq_true _ _).mp hrun
  obtain ⟨r, hr, h⟩ := service_is_room freshService_start
    (along_of_checkRun serviceSystem (by decide +kernel)) hv
  rw [hr] at hroom
  exact ⟨v, r, hv, hr, h.inbox 2 (of_decide_eq_true h2), of_decide_eq_true hroom⟩

/-- **PRIVATE LINES ARE UNSEEN**: two runs that differ only in lines to names other
    than that of `c` have the same bytes on their way to `c`. -/
theorem private_unseen {w w' : Service} {c : PClientInfo} {es fs : List PresenceEvent}
    (hv : serviceSystem.start v) (hw : serviceSystem.start w)
    (hok : Along serviceSystem LinesOk v es) (hok' : Along serviceSystem LinesOk w fs)
    (hrun : runFrom serviceSystem v es = some v')
    (hrun' : runFrom serviceSystem w fs = some w')
    (hseen : seenBy unknownClient c emptyRoom (roomEvents v es)
      = seenBy unknownClient c emptyRoom (roomEvents w fs))
    (hc : c ∈ v'.server.clients) :
    c ∈ w'.server.clients ∧ w'.outgoing c = v'.outgoing c := by
  obtain ⟨r, hr, h⟩ := service_run (refines_start hv) hok hrun
  obtain ⟨r', hr', h'⟩ := service_run (refines_start hw) hok' hrun'
  have hview := unseen hr hr' hseen
  have hc' : c ∈ w'.server.clients := by
    rw [← h'.members, hview.members, h.members]
    exact hc
  refine ⟨hc', ?_⟩
  rw [h.inbox c hc, h'.inbox c hc', hview.inbox]

/-- The third is sent the same, whatever the first writes to the second. -/
theorem private_unseen_eve : ∃ v w,
    runFrom serviceSystem freshService (threeUsers ++ sends 1 "TO-C-bob: hi\n") = some v
      ∧ runFrom serviceSystem freshService (threeUsers ++ sends 1 "TO-C-bob: hello\n")
        = some w ∧ w.outgoing 3 = v.outgoing 3 ∧ w.outgoing 2 ≠ v.outgoing 2 := by
  have hrun : ((runFrom serviceSystem freshService
      (threeUsers ++ sends 1 "TO-C-bob: hi\n")).any fun v =>
      (runFrom serviceSystem freshService
        (threeUsers ++ sends 1 "TO-C-bob: hello\n")).any fun w =>
      decide ((3 : PClientInfo) ∈ v.server.clients ∧ w.outgoing 2 ≠ v.outgoing 2))
      = true := by decide +kernel
  obtain ⟨v, hv, hrun⟩ := (Option.any_eq_true _ _).mp hrun
  obtain ⟨w, hw, hrun⟩ := (Option.any_eq_true _ _).mp hrun
  obtain ⟨h3, h2⟩ := of_decide_eq_true hrun
  exact ⟨v, w, hv, hw, (private_unseen freshService_start freshService_start
    (along_of_checkRun serviceSystem (by decide +kernel))
    (along_of_checkRun serviceSystem (by decide +kernel)) hv hw (by decide +kernel)
    h3).2, h2⟩

/-- **THE PUBLIC STREAM**: while a client stays, and neither it nor another one of
    its name speaks or is spoken to, the bytes on their way to it grow by what is
    said to all, and by nothing else. -/
theorem public_stream {v₁ : Service} {c : PClientInfo} {front back : List PresenceEvent}
    (h : serviceSystem.start v) (hok : Along serviceSystem LinesOk v (front ++ back))
    (hfront : runFrom serviceSystem v front = some v₁)
    (hback : runFrom serviceSystem v₁ back = some v')
    (hr : runFrom (roomSystem unknownClient) emptyRoom (roomEvents v front) = some r)
    (hpresent : r.Present unknownClient c)
    (hothers : Along (roomSystem unknownClient) (ByOthers c) r (roomEvents v₁ back)) :
    v'.outgoing c = v₁.outgoing c ++ (imageRun (roomSystem unknownClient) said r
      (roomEvents v₁ back)).flatMap messageBytes := by
  obtain ⟨hok₁, hok₂⟩ := (along_append serviceSystem).mp hok
  obtain ⟨r₁, hr₁, h₁⟩ := service_run (refines_start h) hok₁ hfront
  obtain rfl := Option.some.inj (hr.symm.trans hr₁)
  obtain ⟨r', hr', h'⟩ := service_run h₁ (hok₂ v₁ hfront) hback
  obtain ⟨hlast, hinbox⟩ := inbox_run _ hpresent hothers hr'
  have hc : c ∈ v₁.server.clients := h₁.members ▸ hpresent.member
  have hc' : c ∈ v'.server.clients := h'.members ▸ hlast.member
  rw [h'.inbox c hc', h₁.inbox c hc, hinbox, List.flatMap_append]

/-- The third reads what the first says to all, and not what it says to the
    second. -/
theorem public_stream_eve : ∃ v v',
    runFrom serviceSystem freshService threeUsers = some v
      ∧ runFrom serviceSystem v (sends 1 "TO-C-bob: hi\n" ++ sends 1 "TO-ALL: hey\n")
        = some v'
      ∧ v'.outgoing 3 = v.outgoing 3 ++ ascii "FROM ann: hey\n" := by
  have hrun : ((runFrom serviceSystem freshService threeUsers).any fun v =>
      (runFrom serviceSystem v
        (sends 1 "TO-C-bob: hi\n" ++ sends 1 "TO-ALL: hey\n")).any fun _ =>
      (runFrom (roomSystem unknownClient) emptyRoom
        (roomEvents freshService threeUsers)).any fun r =>
      decide (r.Present unknownClient 3)
        && checkRun (roomSystem unknownClient) (fun r e => decide (ByOthers 3 r e)) r
          (roomEvents v (sends 1 "TO-C-bob: hi\n" ++ sends 1 "TO-ALL: hey\n"))
        && decide ((imageRun (roomSystem unknownClient) said r (roomEvents v
          (sends 1 "TO-C-bob: hi\n" ++ sends 1 "TO-ALL: hey\n"))).flatMap messageBytes
          = ascii "FROM ann: hey\n")) = true := by decide +kernel
  obtain ⟨v, hv, hrun⟩ := (Option.any_eq_true _ _).mp hrun
  obtain ⟨v', hv', hrun⟩ := (Option.any_eq_true _ _).mp hrun
  obtain ⟨r, hr, hrun⟩ := (Option.any_eq_true _ _).mp hrun
  obtain ⟨hrun, hsaid⟩ := Bool.and_eq_true_iff.mp hrun
  obtain ⟨hpresent, hothers⟩ := Bool.and_eq_true_iff.mp hrun
  refine ⟨v, v', hv, hv', ?_⟩
  rw [public_stream freshService_start
    (along_of_checkRun serviceSystem (by decide +kernel)) hv hv' hr
    (of_decide_eq_true hpresent) (along_of_checkRun _ hothers),
    of_decide_eq_true hsaid]

end IMService

import IMServer.Chat

/-! # Provenance — where the text on a terminal comes from

    The server makes a message of a line it dispatches, or of a logout.  Here every
    message that reaches a terminal is followed back: to the event that made it,
    to the line it was made of, and to the place of this line in what was typed
    at another keyboard. -/

namespace IMProvenance

open IMBytes IMCString IMMachineInt IMCachePool IMBufferQueue IMClientInfo
  IMLineFraming IMMessage IMMessageFormat IMFormatting IMServerInfo IMDelivery IMDispatch
  IMServerRun IMRouting IMAttribution IMOutgoing IMTransition IMClient IMClientStream
  IMClientLoop IMChat

/-! ## What a message says -/

/-- The line of a client of the given name, and what the message made of it
    says. -/
inductive Says (name : List UInt8) : List UInt8 → List UInt8 → Prop
  | login (text : List UInt8) : Says name (cmdLogin ++ text ++ [10])
      (noticeText (text.take 29) msgLoginSuffix)
  | toAll (x : UInt8) (text : List UInt8) :
      Says name (cmdToAll ++ x :: text ++ [10]) (peerText name text)
  | toC (rcpt : List UInt8) (x : UInt8) (text : List UInt8) : (58 : UInt8) ∉ rcpt →
      Says name (cmdToC ++ rcpt ++ 58 :: x :: text ++ [10]) (peerText name text)

/-- **THE MESSAGE OF A LINE** in bounds. -/
theorem dispatchMsg_says {s : ServerInfo} {c : PClientInfo} (h : ServerInv s)
    (hc : c ∈ s.clients) {env : Surround} {line : List UInt8} (hl : IsLine line)
    (hlen : line.length ≤ 512) (hb : InBounds line env.afterLine) {msg : Msg}
    (hm : (dispatchMsg s c env (line ++ env.afterLine)).1 = some msg) :
    Says (nameOf s.mem c) line (msg.content.take msg.size) := by
  have hbound := bounded_line env hlen
  have hstr : ∀ cmd : List UInt8, (10 : UInt8) ∉ cmd → (0 : UInt8) ∉ cmd →
      (strstr (line ++ env.afterLine) cmd = some 0 ↔ cmd <+: line) :=
    fun _ h10 hz => strstr_command hl h10 hz _
  by_cases hlogin : cmdLogin <+: line
  · rw [dispatchMsg, if_pos ((hstr _ (by decide) (by decide)).mpr hlogin)] at hm
    obtain ⟨-, -, -, -, -, hnotice⟩ := userLogin_spec (c := c) h.heap (h.name c hc)
      env.junk (line ++ env.afterLine)
    obtain ⟨text, rfl, h10, hz⟩ := command_line hl hlogin (by decide)
    obtain ⟨-, hname⟩ := userLogin_name h hc env.junk env.afterLine h10 hz
    have htext := (hnotice msg hm).text (by
      rw [hname]
      exact fun hmem => h10 (List.mem_of_mem_take hmem))
    rw [htext, hname]
    exact .login text
  · by_cases hall : cmdToAll <+: line
    · obtain ⟨text, rfl, h10, hz⟩ := command_line hl hall (by decide)
      have h8 := hb.1 hall
      rw [List.length_append, List.length_append,
        show cmdToAll.length = 7 from rfl, List.length_singleton] at h8
      obtain ⟨x, text, rfl⟩ := List.exists_cons_of_length_pos
        (show 0 < text.length by omega)
      have hsplit : cmdToAll ++ x :: text ++ [10] ++ env.afterLine
          = cmdToAll ++ x :: (text ++ 10 :: env.afterLine) := by simp
      rw [hsplit] at hm hbound
      rw [List.length_append, List.length_cons] at hbound
      have hmade := dispatchMsg_toAll (c := c) h.heap (h.name c hc) env x env.afterLine
        (fun hmem => h10 (List.mem_cons_of_mem x hmem))
        (fun hmem => hz (List.mem_cons_of_mem x hmem)) (by omega)
      rw [(hmade.peer msg hm).text]
      exact .toAll x text
    · have hnot := mt (hstr cmdLogin (by decide) (by decide)).mp hlogin
      have hnot' := mt (hstr cmdToAll (by decide) (by decide)).mp hall
      by_cases hto : cmdToC <+: line
      · cases hi : strchr (line ++ env.afterLine) 58 with
        | none =>
            rw [dispatchMsg, if_neg hnot, if_neg hnot',
              if_pos ((hstr _ (by decide) (by decide)).mpr hto), hi] at hm
            cases hm
        | some i =>
            obtain ⟨h2, h30⟩ := hb.2 hto i hi
            obtain ⟨rcpt, x, text, rfl, hrcpt, h58, hzr, h10, hz⟩ :=
              toC_parts hl hto hi h2
            have hsplit : cmdToC ++ rcpt ++ 58 :: x :: text ++ [10] ++ env.afterLine
                = cmdToC ++ rcpt ++ 58 :: x :: (text ++ 10 :: env.afterLine) := by
              simp
            rw [hsplit] at hm hbound
            have hmade := dispatchMsg_toC (c := c) h.heap (h.name c hc) env x
              env.afterLine h58 hzr (by omega) h10 hz hbound
            rw [(hmade.peer msg hm).text]
            exact .toC rcpt x text h58
      · rw [dispatchMsg, if_neg hnot, if_neg hnot',
          if_neg (mt (hstr _ (by decide) (by decide)).mp hto)] at hm
        cases hm

/-! ## The event a message comes from -/

/-- **THE ORIGIN** of a message in the chat `k`: it is the one the dispatch makes
    of a line of `c`, the next of what was typed to `c`'s program, or the notice
    of a logout. -/
inductive Origin (k : Chat) (b : Built) : ChatEvent → Prop
  | line (c : PClientInfo) (env : Surround) : c ∈ k.out.server.clients →
      (k.handed c).flatten ++ roundLine k.out.server c env
        <+: (register (k.client c).name).sent ++ clientStream (k.client c).typed →
      (dispatchMsg (fetched k.out.server c env) c env
        (roundLine k.out.server c env ++ env.afterLine)).1 = some b.msg →
      b.inBounds = decide (InBounds (roundLine k.out.server c env) env.afterLine) →
      (InBounds (roundLine k.out.server c env) env.afterLine →
        Says (nameOf k.out.server.mem c) (roundLine k.out.server c env) b.bytes) →
      Origin k b (.server (.handle c env))
  | logout (c : PClientInfo) (junk : List UInt8 × List UInt8) :
      k.out.leaving = some ⟨c, none⟩ →
      (createNotice k.out.server.pool junk (k.out.server.mem.info c).name
        msgLogoutSuffix).2.1 = some b.msg →
      b.bytes = noticeText (nameOf k.out.server.mem c) msgLogoutSuffix →
      Origin k b (.server (.notice junk))

/-- Some event of the run made the message. -/
def MadeIn (k : Chat) (es : List ChatEvent) (b : Built) : Prop :=
  ∃ front e back k₁, es = front ++ e :: back ∧ runFrom chatSystem k front = some k₁
    ∧ Origin k₁ b e

/-- The messages the server knows of. -/
def Known (o : Outgoing) (b : Built) : Prop := b ∈ o.built ∨ ∃ c, b ∈ o.sent c

/-- The line of a `handle` call is the next one of what was typed. -/
theorem handle_typed {k : Chat} (h : ChatInv k) {c : PClientInfo}
    (hc : c ∈ k.out.server.clients) {env : Surround}
    (hret : (fetchMsgFromClient k.out.server.mem env.afterCache c).ret > 0) :
    (k.handed c).flatten ++ roundLine k.out.server c env
      <+: (register (k.client c).name).sent ++ clientStream (k.client c).typed := by
  have hlink := h.link c
  have hclient := hlink.client (Or.inr (mem_alive.mpr (Or.inl hc)))
  obtain ⟨-, -, htaken, -⟩ := handle_reading h.out hc hret rfl
  rw [← hclient.written, ← hlink.incoming hc, ← htaken,
    List.append_assoc (roundLine k.out.server c env), ← List.append_assoc]
  exact List.prefix_append _ _

/-- The messages of a client, when one record is replaced. -/
theorem mem_updated {sent : PClientInfo → List Built} {c : PClientInfo}
    {messages : List Built} {b : Built}
    (h : ∃ d, b ∈ Function.update sent c messages d) :
    b ∈ messages ∨ ∃ d, b ∈ sent d := by
  obtain ⟨d, hd⟩ := h
  by_cases hdc : d = c
  · rw [hdc, Function.update_self] at hd
    exact Or.inl hd
  · rw [Function.update_of_ne hdc] at hd
    exact Or.inr ⟨d, hd⟩

/-- What a call adds to the messages the server knows of. -/
theorem known_call {k : Chat} (h : ChatInv k) {call : OutgoingCall} {out : Outgoing}
    (hstep : outgoingStep k.out call = some out) {b : Built} (hb : Known out b) :
    Known k.out b ∨ Origin k b (.server call) := by
  have hm := outgoingStep_move h.out hstep
  cases call with
  | accept c socketId =>
      cases hm
      rcases hb with hbuilt | hsent
      · exact Or.inl (Or.inl hbuilt)
      · exact Or.inl (Or.inr ((mem_updated hsent).resolve_left List.not_mem_nil))
  | send c n =>
      cases hm with
      | send hc hknown =>
          rcases hb with hbuilt | hsent
          · exact Or.inl (Or.inl hbuilt)
          · refine Or.inl ((mem_updated hsent).elim (fun hlist => ?_) Or.inr)
            rcases List.mem_append.mp hlist with h1 | h2
            · exact Or.inr ⟨c, h1⟩
            · exact Or.inl (List.mem_singleton.mp h2 ▸ hknown)
  | handle c env =>
      obtain ⟨⟨hc, hret⟩, ho⟩ := Option.ite_none_right_eq_some.mp hstep
      obtain rfl := Option.some.inj ho
      rcases hb with hbuilt | hsent
      · rcases List.mem_append.mp hbuilt with h1 | h2
        · exact Or.inl (Or.inl h1)
        · obtain ⟨msg, hmsg, rfl⟩ := List.mem_map.mp h2
          have hmade := Option.mem_toList.mp hmsg
          refine Or.inr (.line c env hc (handle_typed h hc hret) hmade rfl
            fun hin => ?_)
          obtain ⟨i, hi⟩ := nextLine_of_ret h.out.server hc hret
          have hr := round_spec h.out.server hc env hi
          have hname : nameOf (fetched k.out.server c env).mem c
              = nameOf k.out.server.mem c :=
            congrArg (fun x : ClientData => cstr x.info.name)
              (congrFun hr.taken.data c)
          rw [← hname]
          exact dispatchMsg_says hr.fetched hc hr.line hr.length hin hmade
      · exact Or.inl (Or.inr hsent)
  | notice junk =>
      rw [outgoingStep] at hstep
      split at hstep
      · next c hl =>
          obtain ⟨hok, h10⟩ := h.out.name c (mem_alive.mpr (Or.inr ⟨_, hl, rfl⟩))
          obtain ⟨a, m, p, hnot, -, -, hmsg⟩ := createNotice_spec
            (p := k.out.server.pool) h.out.server.heap.pool junk
            (k.out.server.mem.info c).name msgLogoutSuffix (by decide) (by decide) (by
              have := hok.strlen_lt
              have h14 : msgLogoutSuffix.length = 14 := rfl
              omega)
          simp only [hnot] at hstep
          obtain rfl := Option.some.inj hstep
          rcases hb with hbuilt | hsent
          · rcases List.mem_append.mp hbuilt with h1 | h2
            · exact Or.inl (Or.inl h1)
            · obtain ⟨msg, hm', rfl⟩ := List.mem_map.mp h2
              have hmade := Option.mem_toList.mp hm'
              exact Or.inr (.logout c junk hl ((congrArg (·.2.1) hnot).trans hmade)
                ((hmsg msg hmade).text h10))
          · exact Or.inl (Or.inr hsent)
      · cases hstep
  | fetch | markFail | flush | remove | release =>
      cases hm
      exact Or.inl hb

/-- What the server does in a call does not depend on the sockets. -/
theorem chatServer_out {k k' : Chat} {call : OutgoingCall}
    (hstep : chatServer k call = some k') :
    outgoingStep k.out call = some k'.out := by
  rw [chatServer.eq_def] at hstep
  cases ho : outgoingStep k.out call with
  | none =>
      rw [ho] at hstep
      cases hstep
  | some out =>
      rw [ho] at hstep
      refine congrArg some ?_
      cases call with
      | accept c socketId =>
          cases hb : k.backlog with
          | nil =>
              simp only [hb] at hstep
              cases hstep
          | cons d backlog =>
              simp only [hb] at hstep
              obtain ⟨-, hk⟩ := Option.ite_none_right_eq_some.mp hstep
              exact congrArg Chat.out (Option.some.inj hk)
      | fetch c n reads =>
          obtain ⟨-, hk⟩ := Option.ite_none_right_eq_some.mp hstep
          exact congrArg Chat.out (Option.some.inj hk)
      | handle | flush | markFail | send | remove | notice | release =>
          exact congrArg Chat.out (Option.some.inj hstep)

/-- A step of the chat. -/
theorem known_step {k k' : Chat} {e : ChatEvent} (h : ChatInv k)
    (hstep : chatSystem.step k e = some k') {b : Built} (hb : Known k'.out b) :
    Known k.out b ∨ Origin k b e := by
  have hstep' : chatStep k e = some k' := hstep
  cases e with
  | connect c name =>
      obtain ⟨-, hk⟩ := Option.ite_none_right_eq_some.mp hstep'
      obtain rfl := Option.some.inj hk
      exact Or.inl hb
  | pass c env =>
      obtain ⟨-, hk⟩ := Option.ite_none_right_eq_some.mp hstep'
      obtain ⟨u, -, rfl⟩ := Option.map_eq_some_iff.mp hk
      exact Or.inl hb
  | server call => exact known_call h (chatServer_out hstep') hb

/-- **A RUN** makes what it adds. -/
theorem known_run : ∀ (es : List ChatEvent) {k k' : Chat}, ChatInv k →
    runFrom chatSystem k es = some k' → ∀ {b : Built}, Known k'.out b →
      Known k.out b ∨ MadeIn k es b := by
  intro es
  induction es with
  | nil =>
      intro k k' _ hrun b hb
      exact Or.inl (Option.some.inj hrun ▸ hb)
  | cons e es ih =>
      intro k k' h hrun b hb
      obtain ⟨k₁, hstep, hrest⟩ := Option.bind_eq_some_iff.mp hrun
      rcases ih (chatInv_step h hstep) hrest hb
        with hknown | ⟨front, e', back, k₂, rfl, hfront, horigin⟩
      · exact (known_step h hstep hknown).imp_right fun horigin =>
          ⟨[], e, es, k, rfl, rfl, horigin⟩
      · refine Or.inr ⟨e :: front, e', back, k₂, rfl, ?_, horigin⟩
        exact Option.bind_eq_some_iff.mpr ⟨k₁, hstep, hfront⟩

/-- **NOTHING IS MADE UP**: what a listed client's terminal shows is the beginning
    of the messages sent to it, and each of these was made in the run, of the next
    line typed to some program or of a logout; the message of a line in bounds says
    the name of its client and the text of the line. -/
theorem nothing_made_up {k k' : Chat} {es : List ChatEvent} (h : chatSystem.start k)
    (hrun : runFrom chatSystem k es = some k') {c : PClientInfo}
    (hc : c ∈ k'.out.server.clients) :
    (k'.client c).shown <+: ((k'.out.sent c).map Built.bytes).flatten
      ∧ ∀ b ∈ k'.out.sent c, MadeIn k es b := by
  have hinv := chatInv_start h
  have hend := chatInv_reachable (runFrom_reachable chatSystem es (.start h) hrun)
  have halive := mem_alive.mpr (Or.inl hc)
  have hlink := hend.link c
  refine ⟨?_, fun b hb => ?_⟩
  · rw [← hend.out.stream c halive, ← hlink.outcoming halive,
      (hlink.client (Or.inr halive)).shown, List.append_assoc]
    exact List.prefix_append _ _
  · refine (known_run es hinv hrun (Or.inr ⟨c, hb⟩)).resolve_left ?_
    obtain ⟨-, -, -, hbuilt, hrec⟩ := h.1
    rintro (h1 | ⟨d, h2⟩)
    · rw [hbuilt] at h1
      cases h1
    · rw [(hrec d).2] at h2
      cases h2

/-- What the second user reads. -/
theorem nothing_made_up_twoUsers : ∃ k,
    runFrom chatSystem freshChat twoUsers = some k
      ∧ (k.client 2).shown <+: ((k.out.sent 2).map Built.bytes).flatten
      ∧ ∀ b ∈ k.out.sent 2, MadeIn freshChat twoUsers b := by
  obtain ⟨k, hk, -, h2, -⟩ := twoUsers_reached
  exact ⟨k, hk, nothing_made_up freshChat_start hk h2⟩

end IMProvenance

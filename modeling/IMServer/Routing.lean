import IMServer.PoolOwnership
import IMServer.ServerRun

/-! # Routing — which clients get what of a line

    `try_to_handle_msg` takes one line per round.  `LineRouted` says for each of
    the commands which clients get which bytes, and that a line which is no
    command changes nothing; `line_routing` proves it for every line of every
    call in a reachable state. -/

namespace IMRouting

open IMBytes IMCString IMMachineInt IMCachePool IMPoolOwnership IMBuffer
  IMBufferInvariant IMBufferQueue IMClientInfo IMLineFraming IMMessage
  IMMessageFormat IMServerInfo IMDelivery IMDispatch IMServerRun IMTransition

/-- The clients a message of `sender` may reach: listed, not marked, logged in
    under a name that is not the sender's. -/
def Audience (s : ServerInfo) (sender : List UInt8) (d : PClientInfo) : Prop :=
  d ∈ s.clients ∧ (s.mem.info d).pub ≠ fail ∧ nameOf s.mem d ≠ unknownClient
    ∧ nameOf s.mem d ≠ sender

/-- **ONE LINE ROUTED**: the clients `dest` get `bytes` once, the others nothing;
    the name of `c` is then `name`, and all else stays. -/
structure Routed (s s' : ServerInfo) (c : PClientInfo) (name bytes : List UInt8)
    (dest : PClientInfo → Prop) : Prop where
  copies : ∀ d, dest d → s'.mem.writing d = s.mem.writing d ++ bytes
  rest : ∀ d, ¬ dest d → s'.mem.writing d = s.mem.writing d
  reading : ∀ d, s'.mem.reading d = s.mem.reading d
  name : nameOf s'.mem c = name
  names : ∀ d, d ≠ c → nameOf s'.mem d = nameOf s.mem d
  pub : ∀ d, (s'.mem.info d).pub = (s.mem.info d).pub
  clients : s'.clients = s.clients

/-- What each kind of line does. -/
structure LineRouted (s s' : ServerInfo) (c : PClientInfo)
    (line : List UInt8) : Prop where
  toAll : ∀ x text, line = cmdToAll ++ x :: text ++ [10] →
    Routed s s' c (nameOf s.mem c) (peerText (nameOf s.mem c) text)
      (Audience s (nameOf s.mem c))
  toC : ∀ rcpt x text, (58 : UInt8) ∉ rcpt → rcpt.length < 30 →
    line = cmdToC ++ rcpt ++ 58 :: x :: text ++ [10] →
    Routed s s' c (nameOf s.mem c) (peerText (nameOf s.mem c) text)
      (fun d => Audience s (nameOf s.mem c) d ∧ nameOf s.mem d = rcpt)
  login : ∀ text, line = cmdLogin ++ text ++ [10] →
    Routed s s' c (text.take 29) (noticeText (text.take 29) msgLoginSuffix)
      (Audience s' (text.take 29))
  other : ¬ cmdLogin <+: line → ¬ cmdToAll <+: line →
    (cmdToC <+: line → (58 : UInt8) ∉ line) → s' = s

/-! ## Delivering what the dispatch built -/

/-- The delivery after a dispatch that left the buffers alone. -/
theorem routed_of_delivery {s s₁ : ServerInfo} {c : PClientInfo} {msg : Msg}
    {name bytes : List UInt8} {dest : PClientInfo → Prop} (h : ServerInv s)
    (hs : Handled s s₁ c) (hw : ∀ d, s₁.mem.writing d = s.mem.writing d)
    (hnf : NoFail s.pool) (hsize : msg.size < 2 ^ 31)
    (hbytes : msg.content.take msg.size = bytes)
    (hname : nameOf s₁.mem c = name)
    (hto : ∀ d, dest d ↔ d ∈ s.clients ∧ Gets s₁.mem msg d) :
    Routed s (deliverMsgToAllClients s₁ msg).2 c name bytes dest := by
  obtain ⟨hdel, hdata, hcopies⟩ := deliverMsgToAllClients_spec hs.heap
    (by rw [hs.clientCount, hs.clients, h.count])
    (by rw [hs.clients]; exact h.nodup) hsize c
  have hcopy : ∀ d, (deliverMsgToAllClients s₁ msg).2.mem.writing d
      = s.mem.writing d ++ if d ∈ s.clients ∧ Gets s₁.mem msg d then bytes
        else [] := by
    intro d
    rw [hcopies (hs.outside.noFail hnf) d, hw d, hs.clients, hbytes]
  have hinfo : ∀ d, (deliverMsgToAllClients s₁ msg).2.mem.info d
      = s₁.mem.info d := fun d => congrArg ClientData.info (congrFun hdata d)
  refine ⟨?_, ?_, ?_, ?_, ?_, ?_, hdel.clients.trans hs.clients⟩
  · intro d hd
    rw [hcopy d, if_pos ((hto d).mp hd)]
  · intro d hd
    rw [hcopy d, if_neg (fun hg => hd ((hto d).mpr hg)), List.append_nil]
  · intro d
    exact ((hdel.reading d).content).trans (hs.reading d).content
  · rw [nameOf, hinfo]
    exact hname
  · intro d hd
    rw [nameOf, hinfo, Clients.info, hs.others d hd]
    rfl
  · intro d
    rw [hinfo]
    by_cases hdc : d = c
    · rw [hdc, hs.pub]
    · rw [Clients.info, hs.others d hdc]
      rfl

/-- A message to all reaches the audience of the name that it leaves out. -/
theorem gets_toAll {s : ServerInfo} {name : List UInt8} {msg : Msg}
    (htarget : cstr msg.target = cmdToAll) (hexclude : cstr msg.exclude = name)
    (d : PClientInfo) :
    Audience s name d ↔ d ∈ s.clients ∧ Gets s.mem msg d := by
  rw [Gets, htarget, hexclude]
  constructor
  · rintro ⟨h1, h2, h3, h4⟩
    exact ⟨h1, h2, h4, h3, Or.inl rfl⟩
  · rintro ⟨h1, h2, h4, h3, -⟩
    exact ⟨h1, h2, h3, h4⟩

/-- A peer message to one name reaches those of the audience that bear it: the
    target has no colon, so it is never taken for a message to all. -/
theorem gets_toC {s : ServerInfo} {name rcpt text : List UInt8} {msg : Msg}
    (hm : PeerMsg name rcpt text msg) (h58 : (58 : UInt8) ∉ rcpt)
    (d : PClientInfo) :
    (Audience s name d ∧ nameOf s.mem d = rcpt)
      ↔ d ∈ s.clients ∧ Gets s.mem msg d := by
  have hall : rcpt ≠ cmdToAll := by
    rintro rfl
    exact h58 (by decide)
  rw [Gets, hm.exclude, hm.target]
  constructor
  · rintro ⟨⟨h1, h2, h3, h4⟩, h5⟩
    exact ⟨h1, h2, h4, h3, Or.inr h5.symm⟩
  · rintro ⟨h1, h2, h4, h3, h5⟩
    exact ⟨⟨h1, h2, h3, h4⟩, (h5.resolve_left hall).symm⟩

/-! ## The prefix of a line -/

/-- The text of a line starts with a command or not, whatever stands behind the
    NUL byte. -/
theorem strstr_line {line rest pat : List UInt8} (hz : (0 : UInt8) ∉ line) :
    strstr (line ++ 0 :: rest) pat = some 0 ↔ pat <+: line := by
  rw [strstr_eq_zero, cstr_append_zero hz]

/-- No command is a prefix of another. -/
theorem command_unique {p q line : List UInt8} (hp : p <+: line)
    (hpq : ¬ p <+: q) (hqp : ¬ q <+: p) : ¬ q <+: line := by
  intro hq
  rcases List.prefix_or_prefix_of_prefix hp hq with h | h
  · exact hpq h
  · exact hqp h

/-- The parts of a line that ends at its only newline. -/
theorem isLine_parts {line text : List UInt8} (hl : IsLine line)
    (h : line = text ++ [10]) :
    (10 : UInt8) ∉ text ∧ (0 : UInt8) ∉ text ∧ (0 : UInt8) ∉ line := by
  obtain ⟨text', htext, h10, hz⟩ := hl
  obtain rfl : text' = text := by
    rw [htext] at h
    exact (List.append_inj' h rfl).1
  refine ⟨h10, hz, ?_⟩
  rw [htext]
  intro hm
  rcases List.mem_append.mp hm with h1 | h2
  · exact hz h1
  · exact absurd h2 (by decide)

/-- A line that starts with a command. -/
theorem command_line {cmd line : List UInt8} (hl : IsLine line)
    (hpre : cmd <+: line) (hcmd : (10 : UInt8) ∉ cmd) :
    ∃ text, line = cmd ++ text ++ [10] ∧ (10 : UInt8) ∉ text
      ∧ (0 : UInt8) ∉ text := by
  obtain ⟨t, rfl⟩ := hpre
  obtain ⟨body, hbody, h10, hz⟩ := hl
  rcases List.eq_nil_or_concat t with rfl | ⟨text, b, rfl⟩
  · rw [List.append_nil] at hbody
    exact absurd (hbody ▸ List.mem_append_right body (List.mem_singleton_self 10))
      hcmd
  · rw [List.concat_eq_append, ← List.append_assoc] at hbody ⊢
    obtain ⟨rfl, hb⟩ := List.append_inj' hbody rfl
    exact ⟨text, by rw [hb], fun hm => h10 (List.mem_append_right _ hm),
      fun hm => hz (List.mem_append_right _ hm)⟩

/-- What stands behind a line does not make it start with a command. -/
theorem prefix_line {cmd line : List UInt8} (hl : IsLine line)
    (h10 : (10 : UInt8) ∉ cmd) (after : List UInt8) :
    cmd <+: line ++ after ↔ cmd <+: line := by
  obtain ⟨text, rfl, -, -⟩ := hl
  constructor
  · intro h
    rcases List.prefix_or_prefix_of_prefix h (List.prefix_append _ after) with
      h1 | h2
    · exact h1
    · exact absurd (h2.subset (List.mem_append_right text
        (List.mem_singleton_self 10))) h10
  · exact fun h => h.trans (List.prefix_append _ _)

theorem strstr_command {cmd line : List UInt8} (hl : IsLine line)
    (h10 : (10 : UInt8) ∉ cmd) (hz : (0 : UInt8) ∉ cmd) (after : List UInt8) :
    strstr (line ++ after) cmd = some 0 ↔ cmd <+: line := by
  rw [strstr_eq_zero, prefix_cstr hz, prefix_line hl h10]

/-! ## The target of a private line -/

/-- The first colon of a `TO-C-` line ends the name. -/
theorem target_line {rcpt : List UInt8} (hz : (0 : UInt8) ∉ rcpt)
    (h58 : (58 : UInt8) ∉ rcpt) (rest : List UInt8) :
    strchr (cmdToC ++ rcpt ++ 58 :: rest) 58 = some (5 + rcpt.length)
      ∧ (cstr ((cmdToC ++ rcpt ++ 58 :: rest).drop 5)).take
        (5 + rcpt.length - 5) = rcpt := by
  have hno : (58 : UInt8) ∉ cmdToC ++ rcpt := by
    intro hm
    rcases List.mem_append.mp hm with h1 | h2
    · exact absurd h1 (by decide)
    · exact h58 h2
  have hnz : (0 : UInt8) ∉ cmdToC ++ rcpt := by
    intro hm
    rcases List.mem_append.mp hm with h1 | h2
    · exact absurd h1 (by decide)
    · exact hz h2
  refine ⟨?_, ?_⟩
  · rw [strchr_append rest hno hnz, List.length_append,
      show cmdToC.length = 5 from rfl]
  · rw [List.append_assoc, show (5 : Nat) = cmdToC.length from rfl,
      List.drop_left, cstr_append hz, Nat.add_sub_cancel_left, List.take_left]

/-- **NO STALE DATA**: whatever was written to caches before, a cache is handed
    out blank and large enough, and a target copied into it without a NUL byte
    reads as what stands between the command and the first colon. -/
theorem no_stale_data {κ : Type} [DecidableEq κ] {s : PoolUse κ}
    (h : Reachable (poolSystem κ) s) :
    (∀ n a p', getNewCache s.pool n = (some a, p') →
      n ≤ (p'.mem a).allocatedSize
        ∧ (p'.mem a).buff = List.replicate (p'.mem a).allocatedSize.toNat 0)
    ∧ ∀ rcpt rest : List UInt8, (0 : UInt8) ∉ rcpt → (58 : UInt8) ∉ rcpt →
      rcpt.length < 30 → ∃ indicator a p',
        strchr (cmdToC ++ rcpt ++ 58 :: rest) 58 = some indicator
        ∧ buildTarget s.pool (cmdToC ++ rcpt ++ 58 :: rest) indicator
          = (some a, p')
        ∧ ∀ after, cstr ((p'.mem a).buff ++ after) = rcpt := by
  have hpool := (ownershipInv_reachable h).pool
  refine ⟨fun n a p' hget => ?_, fun rcpt rest hz h58 hlen => ?_⟩
  · have hout := getNewCache_spec hpool hget
    exact ⟨hout.large, hout.blank⟩
  · obtain ⟨hcolon, htarget⟩ := target_line hz h58 rest
    obtain ⟨-, -, hshort⟩ := buildTarget_spec hpool
      (cmdToC ++ rcpt ++ 58 :: rest) (5 + rcpt.length)
      (by omega) (by omega)
    obtain ⟨a, p', hbuild, hafter⟩ := hshort (by omega)
    refine ⟨5 + rcpt.length, a, p', hcolon, hbuild, fun after => ?_⟩
    rw [hafter after, htarget]

/-- A short name in the block that held a long one. -/
theorem no_stale_data_usedCache :
    ∃ s, runFrom (poolSystem Unit) freshPool usedCache = some s
      ∧ ∃ a p', buildTarget s.pool (ascii "TO-C-bob: hi\n") 8 = (some a, p')
        ∧ ∀ after, cstr ((p'.mem a).buff ++ after) = ascii "bob" := by
  have hrun : ((runFrom (poolSystem Unit) freshPool usedCache).any
      fun _ => true) = true := by decide +kernel
  obtain ⟨s, hs, -⟩ := (Option.any_eq_true _ _).mp hrun
  obtain ⟨i, a, p', hi, hbuild, hafter⟩ := (no_stale_data (runFrom_reachable
    (poolSystem Unit) usedCache (.start freshPool_start) hs)).2 (ascii "bob")
    (ascii " hi\n") (by decide) (by decide) (by decide)
  have h8 : strchr (ascii "TO-C-bob: hi\n") 58 = some 8 := by decide
  obtain rfl : i = 8 := Option.some.inj (hi.symm.trans h8)
  exact ⟨s, hs, a, p', hbuild, hafter⟩

/-! ## What a line asks for

    The memory behind the line, `after`, does not matter. -/

/-- What the dispatch of a line made: a message from `c`, with the pool used for
    it and nothing else changed. -/
structure PeerMade (s : ServerInfo) (c : PClientInfo) (target text : List UInt8)
    (r : Option Msg × ServerInfo) : Prop where
  handled : Handled s r.2 c
  writing : ∀ d, r.2.mem.writing d = s.mem.writing d
  data : r.2.mem.data = s.mem.data
  made : NoFail s.pool → r.1 ≠ none
  size : ∀ msg, r.1 = some msg → msg.size < 2 ^ 31
  peer : ∀ msg, r.1 = some msg → PeerMsg (nameOf s.mem c) target text msg

theorem strstr_of_start {m pat : List UInt8} (hz : (0 : UInt8) ∉ pat)
    (h : pat <+: m) : strstr m pat = some 0 :=
  strstr_eq_zero.mpr ((prefix_cstr hz).mpr h)

/-- No command starts memory that another one starts. -/
theorem strstr_other {m p q : List UInt8} (hp : p <+: m) (hpq : ¬ p <+: q)
    (hqp : ¬ q <+: p) : ¬ strstr m q = some 0 :=
  fun h => command_unique hp hpq hqp (strstr_some_zero h)

/-- `TO-ALL:` lines: the text begins one byte behind the colon. -/
theorem dispatchMsg_toAll {s : ServerInfo} {c : PClientInfo}
    (hh : HeapInv s.mem.heap) (hname : NameOk (s.mem.info c).name)
    (env : Surround) (x : UInt8) {text : List UInt8} (after : List UInt8)
    (h10 : (10 : UInt8) ∉ text) (hz : (0 : UInt8) ∉ text)
    (hlen : (text ++ 10 :: after).length < 2 ^ 30 + 1024) :
    PeerMade s c cmdToAll text
      (dispatchMsg s c env (cmdToAll ++ x :: (text ++ 10 :: after))) := by
  have hpre : cmdToAll <+: cmdToAll ++ x :: (text ++ 10 :: after) :=
    List.prefix_append _ _
  have hdrop : (cmdToAll ++ x :: (text ++ 10 :: after)).drop
      (strlen cmdToAll + 1) = text ++ 10 :: after := rfl
  obtain ⟨halloc, hsucc, hmsg⟩ := createPeer_spec hname s.pool env.junk cmdToAll
    (text ++ 10 :: after) hlen
  rw [cutAtEdge_line h10 hz] at hmsg
  obtain ⟨hhandled, hw⟩ := handled_setPool hh (halloc.inv hh.pool)
    (halloc.keeps []) c
  rw [dispatchMsg, if_neg (strstr_other hpre (by decide) (by decide)),
    if_pos (strstr_of_start (by decide) hpre)]
  simp only [hdrop]
  exact ⟨hhandled, hw, rfl, hsucc, fun msg hm => (hmsg msg hm).1,
    fun msg hm => (hmsg msg hm).2⟩

/-- `TO-C-` lines with a colon: the recipient is what stands before the first
    one, and the text begins one byte behind it. -/
theorem dispatchMsg_toC {s : ServerInfo} {c : PClientInfo}
    (hh : HeapInv s.mem.heap) (hname : NameOk (s.mem.info c).name)
    (env : Surround) {rcpt : List UInt8} (x : UInt8) {text : List UInt8}
    (after : List UInt8) (h58 : (58 : UInt8) ∉ rcpt) (hzr : (0 : UInt8) ∉ rcpt)
    (hrcpt : rcpt.length < 30) (h10 : (10 : UInt8) ∉ text)
    (hz : (0 : UInt8) ∉ text)
    (hlen : (cmdToC ++ rcpt ++ 58 :: x :: (text ++ 10 :: after)).length
      < 2 ^ 30 + 1024) :
    PeerMade s c rcpt text (dispatchMsg s c env
      (cmdToC ++ rcpt ++ 58 :: x :: (text ++ 10 :: after))) := by
  obtain ⟨hcolon, hleft⟩ := target_line hzr h58 (x :: (text ++ 10 :: after))
  have hpre : cmdToC <+: cmdToC ++ rcpt ++ 58 :: x :: (text ++ 10 :: after) := by
    rw [List.append_assoc]
    exact List.prefix_append _ _
  have hright : (cmdToC ++ rcpt ++ 58 :: x :: (text ++ 10 :: after)).drop
      (5 + rcpt.length + 2) = text ++ 10 :: after := by
    rw [show cmdToC ++ rcpt ++ 58 :: x :: (text ++ 10 :: after)
        = (cmdToC ++ rcpt ++ [58, x]) ++ (text ++ 10 :: after) from by simp,
      show 5 + rcpt.length + 2 = (cmdToC ++ rcpt ++ [58, x]).length from by
        simp only [List.length_append, show cmdToC.length = 5 from rfl,
          List.length_cons, List.length_nil],
      List.drop_left]
  have hilt : 5 + rcpt.length
      < (cmdToC ++ rcpt ++ 58 :: x :: (text ++ 10 :: after)).length := by
    simp only [List.length_append, show cmdToC.length = 5 from rfl,
      List.length_cons]
    omega
  obtain ⟨hhandled, hdata, hw, hsize, hshort⟩ := p2pMsgToTarget_spec (c := c) hh
    hname env (cmdToC ++ rcpt ++ 58 :: x :: (text ++ 10 :: after))
    (5 + rcpt.length) (by omega) hilt hlen
  obtain ⟨hsucc, hpeer⟩ := hshort (by omega)
  rw [hleft, hright, cutAtEdge_line h10 hz] at hpeer
  rw [dispatchMsg, if_neg (strstr_other hpre (by decide) (by decide)),
    if_neg (strstr_other hpre (by decide) (by decide)),
    if_pos (strstr_of_start (by decide) hpre), hcolon]
  exact ⟨hhandled, hw, hdata, hsucc, hsize, hpeer⟩

/-- The name a login line asks for. -/
theorem cutAtEdge_login {text : List UInt8} (h10 : (10 : UInt8) ∉ text)
    (hz : (0 : UInt8) ∉ text) (after : List UInt8) :
    cstr ((cutAtEdge (cmdLogin ++ text ++ 10 :: after)).drop (strlen cmdLogin))
      = text := by
  have hc10 : (10 : UInt8) ∉ cmdLogin ++ text := by
    intro hm
    rcases List.mem_append.mp hm with h1 | h2
    · exact absurd h1 (by decide)
    · exact h10 h2
  have hcz : (0 : UInt8) ∉ cmdLogin ++ text := by
    intro hm
    rcases List.mem_append.mp hm with h1 | h2
    · exact absurd h1 (by decide)
    · exact hz h2
  rw [cutAtEdge_eq hc10 hcz, List.append_assoc,
    show strlen cmdLogin = cmdLogin.length from rfl, List.drop_left]
  exact cstr_append_zero hz after

/-! ## The four kinds of lines -/

/-- A line with its block: the line, and a NUL byte right behind it. -/
theorem bounded_line {line : List UInt8} (env : Surround)
    (hlen : line.length ≤ 512) :
    (line ++ env.afterLine).length < 2 ^ 30 + 1024 := by
  have := env.bounded
  rw [List.length_append]
  omega

/-- `TO-ALL:` lines. -/
theorem handleMsg_toAll {s : ServerInfo} {c : PClientInfo} (h : ServerInv s)
    (hc : c ∈ s.clients) (hnf : NoFail s.pool) (env : Surround) {x : UInt8}
    {text line : List UInt8} (hl : IsLine line) (hlen : line.length ≤ 512)
    (hline : line = cmdToAll ++ x :: text ++ [10]) :
    Routed s (handleMsg s c env line).2 c (nameOf s.mem c)
      (peerText (nameOf s.mem c) text) (Audience s (nameOf s.mem c)) := by
  obtain ⟨h10, hz, -⟩ := isLine_parts hl hline
  have htext : ∀ b, b ∈ text → b ∈ cmdToAll ++ x :: text :=
    fun b hm => List.mem_append_right _ (List.mem_cons_of_mem x hm)
  have hsplit : line ++ env.afterLine
      = cmdToAll ++ x :: (text ++ 10 :: env.afterLine) := by
    rw [hline]
    simp
  have hbound := bounded_line env hlen
  rw [hsplit, List.length_append, List.length_cons] at hbound
  have hmade := dispatchMsg_toAll (c := c) h.heap (h.name c hc) env x
    env.afterLine (fun hm => h10 (htext _ hm)) (fun hm => hz (htext _ hm))
    (by omega)
  rw [handleMsg, hsplit]
  generalize dispatchMsg s c env (cmdToAll ++ x :: (text ++ 10 :: env.afterLine))
    = r at hmade
  obtain ⟨o, s₁⟩ := r
  cases o with
  | none => exact absurd rfl (hmade.made hnf)
  | some msg =>
      have hm := hmade.peer msg rfl
      refine routed_of_delivery h hmade.handled hmade.writing hnf
        (hmade.size msg rfl) hm.text ?_ ?_
      · rw [nameOf, Clients.info, hmade.data]
        rfl
      · intro d
        rw [gets_of_data hmade.data]
        exact gets_toAll hm.target hm.exclude d

/-- `TO-C-` lines with a colon. -/
theorem handleMsg_toC {s : ServerInfo} {c : PClientInfo} (h : ServerInv s)
    (hc : c ∈ s.clients) (hnf : NoFail s.pool) (env : Surround) {x : UInt8}
    {rcpt text line : List UInt8} (hl : IsLine line) (hlen : line.length ≤ 512)
    (h58 : (58 : UInt8) ∉ rcpt) (hrcpt : rcpt.length < 30)
    (hline : line = cmdToC ++ rcpt ++ 58 :: x :: text ++ [10]) :
    Routed s (handleMsg s c env line).2 c (nameOf s.mem c)
      (peerText (nameOf s.mem c) text)
      (fun d => Audience s (nameOf s.mem c) d ∧ nameOf s.mem d = rcpt) := by
  obtain ⟨h10, hz, -⟩ := isLine_parts hl hline
  have htext : ∀ b, b ∈ text → b ∈ cmdToC ++ rcpt ++ 58 :: x :: text :=
    fun b hm => List.mem_append_right _
      (List.mem_cons_of_mem 58 (List.mem_cons_of_mem x hm))
  have hzr : (0 : UInt8) ∉ rcpt := fun hm => hz
    (List.mem_append_left _ (List.mem_append_right _ hm))
  have hsplit : line ++ env.afterLine
      = cmdToC ++ rcpt ++ 58 :: x :: (text ++ 10 :: env.afterLine) := by
    rw [hline]
    simp
  have hbound := bounded_line env hlen
  rw [hsplit] at hbound
  have hmade := dispatchMsg_toC (c := c) h.heap (h.name c hc) env x
    env.afterLine h58 hzr hrcpt (fun hm => h10 (htext _ hm))
    (fun hm => hz (htext _ hm)) hbound
  rw [handleMsg, hsplit]
  generalize dispatchMsg s c env
    (cmdToC ++ rcpt ++ 58 :: x :: (text ++ 10 :: env.afterLine)) = r at hmade
  obtain ⟨o, s₁⟩ := r
  cases o with
  | none => exact absurd rfl (hmade.made hnf)
  | some msg =>
      have hm := hmade.peer msg rfl
      refine routed_of_delivery h hmade.handled hmade.writing hnf
        (hmade.size msg rfl) hm.text ?_ ?_
      · rw [nameOf, Clients.info, hmade.data]
        rfl
      · intro d
        rw [gets_of_data hmade.data]
        exact gets_toC hm h58 d

/-- `LOGIN: ` lines. -/
theorem handleMsg_login {s : ServerInfo} {c : PClientInfo} (h : ServerInv s)
    (hc : c ∈ s.clients) (hnf : NoFail s.pool) {env : Surround}
    {rest : List UInt8} (hrest : env.afterLine = 0 :: rest)
    {text line : List UInt8} (hl : IsLine line)
    (hline : line = cmdLogin ++ text ++ [10]) :
    Routed s (handleMsg s c env line).2 c (text.take 29)
      (noticeText (text.take 29) msgLoginSuffix)
      (Audience (handleMsg s c env line).2 (text.take 29)) := by
  obtain ⟨h10, hz, hzl⟩ := isLine_parts hl hline
  have htextz : (0 : UInt8) ∉ text := fun hm => hz (List.mem_append_right _ hm)
  have hpre : cmdLogin <+: line := ⟨text ++ [10], by
    rw [hline, List.append_assoc]⟩
  have htext10 : (10 : UInt8) ∉ text :=
    fun hm => h10 (List.mem_append_right _ hm)
  have hcut : cstr ((cutAtEdge (line ++ env.afterLine)).drop (strlen cmdLogin))
      = text := by
    rw [hline, show cmdLogin ++ text ++ [10] ++ env.afterLine
      = cmdLogin ++ text ++ 10 :: env.afterLine from by simp]
    exact cutAtEdge_login htext10 htextz env.afterLine
  obtain ⟨hh, -, hname, hsucc, hw, hmsg⟩ := userLogin_spec (c := c) h.heap
    (h.name c hc) env.junk (line ++ env.afterLine)
  rw [hcut] at hname
  have hdisp : dispatchMsg s c env (line ++ env.afterLine)
      = userLogin s c env.junk (line ++ env.afterLine) := by
    rw [dispatchMsg, if_pos]
    rw [hrest, strstr_line hzl]
    exact hpre
  rw [handleMsg, hdisp]
  generalize userLogin s c env.junk (line ++ env.afterLine) = r at *
  obtain ⟨o, s₁⟩ := r
  cases o with
  | none => exact absurd rfl (hsucc hnf)
  | some msg =>
      have hm := hmsg msg rfl
      have hcname : cstr (s₁.mem.info c).name = text.take 29 := hname
      have hname10 : (10 : UInt8) ∉ cstr (s₁.mem.info c).name := by
        rw [hcname]
        exact fun hm => h10 (List.mem_append_right _ (List.mem_of_mem_take hm))
      refine routed_of_delivery h hh hw hnf hm.size ?_ hname ?_
      · rw [hm.text hname10, hcname]
      · intro d
        -- the delivery changes neither the list nor the data of a client
        obtain ⟨hdel, hdata, -⟩ := deliverMsgToAllClients_spec (s := s₁) hh.heap
          (by rw [hh.clientCount, hh.clients, h.count])
          (by rw [hh.clients]; exact h.nodup) hm.size c
        show Audience (deliverMsgToAllClients s₁ msg).2 _ d ↔ _
        rw [gets_toAll hm.target (hm.exclude.trans hcname), gets_of_data hdata,
          hdel.clients, hh.clients]

/-- Every other line: nothing happens. -/
theorem handleMsg_other {s : ServerInfo} {c : PClientInfo} {env : Surround}
    {rest : List UInt8} (hrest : env.afterLine = 0 :: rest) {line : List UInt8}
    (hz : (0 : UInt8) ∉ line) (hlogin : ¬ cmdLogin <+: line)
    (hall : ¬ cmdToAll <+: line) (hto : cmdToC <+: line → (58 : UInt8) ∉ line) :
    (handleMsg s c env line).2 = s := by
  have hdisp : dispatchMsg s c env (line ++ env.afterLine) = (none, s) := by
    rw [dispatchMsg, hrest, if_neg (fun e => hlogin ((strstr_line hz).mp e)),
      if_neg (fun e => hall ((strstr_line hz).mp e))]
    by_cases hpre : cmdToC <+: line
    · have hno : strchr (line ++ 0 :: rest) 58 = none := by
        refine (strchr_eq_none (by decide)).mpr ?_
        rw [cstr_append_zero hz]
        exact hto hpre
      rw [if_pos ((strstr_line hz).mpr hpre), hno]
    · rw [if_neg (fun e => hpre ((strstr_line hz).mp e))]
  rw [handleMsg, hdisp]
  rfl

/-- **ONE LINE**, in any state that meets the server invariant. -/
theorem handleMsg_routed {s : ServerInfo} {c : PClientInfo} (h : ServerInv s)
    (hc : c ∈ s.clients) (hnf : NoFail s.pool) {env : Surround}
    {rest : List UInt8} (hrest : env.afterLine = 0 :: rest)
    {line : List UInt8} (hl : IsLine line) (hlen : line.length ≤ 512) :
    LineRouted s (handleMsg s c env line).2 c line where
  toAll := fun _ _ hline => handleMsg_toAll h hc hnf env hl hlen hline
  toC := fun _ _ _ h58 hr hline =>
    handleMsg_toC h hc hnf env hl hlen h58 hr hline
  login := fun _ hline => handleMsg_login h hc hnf hrest hl hline
  other := fun hlogin hall hto => by
    obtain ⟨text, htext, -⟩ := id hl
    exact handleMsg_other hrest (isLine_parts hl htext).2.2 hlogin hall hto

/-! ## Every line of a call -/

/-- The server before round `k` of a call. -/
def roundState (s : ServerInfo) (c : PClientInfo) (envs : Nat → Surround) :
    Nat → ServerInfo
  | 0 => s
  | k + 1 => afterRound (roundState s c envs k) c (envs k)

/-- The loop takes one line per round, as long as there is one. -/
theorem handleLoop_rounds (s : ServerInfo) (c : PClientInfo)
    (envs : Nat → Surround) :
    ∀ (fuel k : Nat) (lines : List (List UInt8)) (need : Nat),
      ∃ n, (handleLoop c envs fuel k lines need (roundState s c envs k)).lines
          = lines ++ (List.range n).map (fun j =>
            roundLine (roundState s c envs (k + j)) c (envs (k + j)))
        ∧ ∀ j < n, (fetchMsgFromClient (roundState s c envs (k + j)).mem
            (envs (k + j)).afterCache c).ret > 0 := by
  intro fuel
  induction fuel with
  | zero =>
      intro k lines need
      exact ⟨0, (List.append_nil _).symm, fun _ h => by cases h⟩
  | succ fuel ih =>
      intro k lines need
      rw [handleLoop_succ]
      by_cases hret : (fetchMsgFromClient (roundState s c envs k).mem
          (envs k).afterCache c).ret > 0
      · rw [if_pos hret]
        obtain ⟨n, hlines, hall⟩ := ih (k + 1)
          (lines ++ [roundLine (roundState s c envs k) c (envs k)])
          (need + (handleMsg (fetched (roundState s c envs k) c (envs k)) c
            (envs k) (roundLine (roundState s c envs k) c (envs k))).1)
        refine ⟨n + 1, ?_, ?_⟩
        · refine hlines.trans ?_
          rw [List.range_succ_eq_map, List.map_cons, List.map_map,
            List.append_assoc, List.singleton_append, Nat.add_zero]
          refine congrArg (fun t => lines ++ _ :: t) ?_
          refine List.map_congr_left ?_
          intro j _
          show _ = roundLine (roundState s c envs (k + (j + 1))) c
            (envs (k + (j + 1)))
          rw [Nat.add_assoc, Nat.add_comm 1 j]
        · intro j hj
          cases j with
          | zero => exact hret
          | succ j =>
              have := hall j (Nat.lt_of_succ_lt_succ hj)
              rw [Nat.add_assoc, Nat.add_comm 1 j] at this
              exact this
      · rw [if_neg hret]
        exact ⟨0, (List.append_nil _).symm, fun _ h => by cases h⟩

/-- A round takes a line exactly when the first node has one. -/
theorem nextLine_of_ret {s : ServerInfo} {c : PClientInfo} (h : ServerInv s)
    (hc : c ∈ s.clients) {env : Surround}
    (hret : (fetchMsgFromClient s.mem env.afterCache c).ret > 0) :
    ∃ i, nextLine s.mem c = some i := by
  cases hn : nextLine s.mem c with
  | some i => exact ⟨i, rfl⟩
  | none =>
      rw [fetchMsg_none h.heap (h.check c hc) env.afterCache hn] at hret
      exact absurd hret (Nat.lt_irrefl 0)

/-- The invariant, the list and the absence of failures last over the rounds. -/
theorem roundState_inv {s : ServerInfo} {c : PClientInfo} (h : ServerInv s)
    (hc : c ∈ s.clients) (hnf : NoFail s.pool) (envs : Nat → Surround) :
    ∀ k, (∀ j < k, (fetchMsgFromClient (roundState s c envs j).mem
        (envs j).afterCache c).ret > 0) →
      ServerInv (roundState s c envs k) ∧ c ∈ (roundState s c envs k).clients
        ∧ NoFail (roundState s c envs k).pool := by
  intro k
  induction k with
  | zero => intro _; exact ⟨h, hc, hnf⟩
  | succ k ih =>
      intro hret
      obtain ⟨hk, hck, hnk⟩ := ih (fun j hj => hret j (Nat.lt_succ_of_lt hj))
      obtain ⟨i, hi⟩ := nextLine_of_ret hk hck (hret k (Nat.lt_succ_self k))
      have hr := round_spec hk hck (envs k) hi
      exact ⟨hr.inv, hr.listed hck,
        hr.handled.outside.noFail (hr.taken.outside.noFail hnk)⟩

/-- **EXACT ROUTING**: in a reachable state, when no allocation fails and the
    block of a line has a NUL byte right behind it, every line a call of
    `try_to_handle_msg` takes goes exactly where its command says. -/
theorem line_routing {r : ServerRun} (h : Reachable serverSystem r)
    (hnf : NoFail r.server.pool) {c : PClientInfo} (hc : c ∈ r.server.clients)
    {envs : Nat → Surround}
    (hnul : ∀ k, (envs k).afterLine.head? = some 0) {k : Nat}
    {line : List UInt8}
    (hline : (tryToHandleMsg r.server c envs).lines[k]? = some line) :
    LineRouted (fetched (roundState r.server c envs k) c (envs k))
      (roundState r.server c envs (k + 1)) c line := by
  have hsignal : ∀ r : HandleResult, (signalFlush r).lines = r.lines := by
    intro r
    rw [signalFlush]
    split <;> rfl
  obtain ⟨n, hlines, hret⟩ := handleLoop_rounds r.server c envs
    ((r.server.mem.reading c).length + 1) 0 [] 0
  simp only [Nat.zero_add, List.nil_append] at hlines hret
  rw [tryToHandleMsg, hsignal] at hline
  have hat := (congrArg (·[k]?) hlines).symm.trans hline
  obtain ⟨j, hj, rfl⟩ := Option.map_eq_some_iff.mp
    ((List.getElem?_map ..).symm.trans hat)
  obtain ⟨hlt, rfl⟩ := List.getElem?_eq_some_iff.mp hj
  rw [List.length_range] at hlt
  rw [List.getElem_range]
  obtain ⟨hk, hck, hnk⟩ := roundState_inv (runInv_reachable h).server hc hnf envs
    k (fun j hj => hret j (Nat.lt_trans hj hlt))
  obtain ⟨i, hi⟩ := nextLine_of_ret hk hck (hret k hlt)
  have hr := round_spec hk hck (envs k) hi
  obtain ⟨rest, hrest⟩ := List.head?_eq_some_iff.mp (hnul k)
  exact handleMsg_routed hr.fetched hck (hr.taken.outside.noFail hnk) hrest
    hr.line hr.length

/-- The block of every line ends in a NUL byte. -/
def nulSurround : Surround := ⟨fun _ => [], [0], ([], []), by decide⟩

/-- Two clients log in, and the first sends a line to the second. -/
def privateChat : List ServerEvent :=
  [.accept 1 4, .accept 2 5,
    .fetch 1 12 [.bytes (ascii "LOGIN: ann\n")], .handle 1 fun _ => nulSurround,
    .fetch 2 12 [.bytes (ascii "LOGIN: bob\n")], .handle 2 fun _ => nulSurround,
    .fetch 1 13 [.bytes (ascii "TO-C-bob: hi\n")]]

theorem line_routing_privateChat :
    ∃ r, runFrom serverSystem freshServer privateChat = some r
      ∧ LineRouted (fetched r.server 1 nulSurround)
        (afterRound r.server 1 nulSurround) 1 (ascii "TO-C-bob: hi\n") := by
  have hrun : ((runFrom serverSystem freshServer privateChat).any fun r =>
      decide ((∀ ok ∈ r.server.pool.mallocs, ok = true)
        ∧ (1 : PClientInfo) ∈ r.server.clients
        ∧ (tryToHandleMsg r.server 1 fun _ => nulSurround).lines[0]?
          = some (ascii "TO-C-bob: hi\n"))) = true := by decide +kernel
  obtain ⟨r, hr, hp⟩ := (Option.any_eq_true _ _).mp hrun
  obtain ⟨hnf, hc, hline⟩ := of_decide_eq_true hp
  exact ⟨r, hr, line_routing (runFrom_reachable serverSystem privateChat (.start
    freshServer_start) hr) hnf hc (fun _ => rfl) hline⟩

end IMRouting

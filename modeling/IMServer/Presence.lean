import IMServer.Attribution
import IMServer.Isolation

/-! # Presence — who is said to be online

    `user_login` and `user_logout` build the notices `<name> is online now` and
    `<name> has logged out`.  Here the calls of a run are recorded with the
    notices built, and with the name each connection announced, line by line.
    Whoever replays the notices learns who is logged in, as long as no connection
    logs in twice and none is logged out that never logged in
    (`presence_consistent`); `presence_inconsistent` shows what happens
    otherwise. -/

namespace IMPresence

open IMBytes IMCString IMMachineInt IMCachePool IMBuffer IMBufferInvariant
  IMBufferQueue IMClientInfo IMLineFraming IMMessage IMMessageFormat IMServerInfo
  IMDelivery IMDispatch IMServerRun IMRouting IMIsolation IMAttribution IMTransition

/-! ## The record of a run -/

/-- A run of the server, the name each connection logged in with last, and the
    bytes of the notices built so far. -/
structure Presence where
  run : ServerRun
  announced : PClientInfo → Option (List UInt8)
  notices : List (List UInt8)

/-- The calls of a run; `try_to_handle_msg` is taken apart: `line` is one round
    of its loop, `signal` its final block. -/
inductive PresenceEvent where
  | call (e : ServerEvent)
  | line (c : PClientInfo) (env : Surround)
  | signal

/-- The bytes of a message, if there is one. -/
def noticeBytes (message : Option Msg) : List (List UInt8) :=
  message.toList.map fun msg => msg.content.take msg.size

/-- What the dispatch makes of the next line of `c`. -/
def roundDispatch (s : ServerInfo) (c : PClientInfo) (env : Surround) :
    Option Msg × ServerInfo :=
  dispatchMsg (fetched s c env) c env (roundLine s c env ++ env.afterLine)

/-- The notice `user_logout` builds. -/
def logoutNotice (s : ServerInfo) (c : PClientInfo)
    (junk : List UInt8 × List UInt8) : Option Msg :=
  (createNotice (removeClient s c).pool junk
    ((removeClient s c).mem.info c).name msgLogoutSuffix).2.1

/-- One round of the loop, recorded. -/
def recordLine (p : Presence) (c : PClientInfo) (env : Surround) : Presence :=
  let line := roundLine p.run.server c env
  let r := roundDispatch p.run.server c env
  let run : ServerRun := ⟨afterRound p.run.server c env, p.run.received,
    Function.update p.run.handed c (p.run.handed c ++ [line])⟩
  if cmdLogin <+: line then
    { run := run
      announced := Function.update p.announced c (some (nameOf r.2.mem c))
      notices := p.notices ++ noticeBytes r.1 }
  else { p with run := run }

/-- Any other call, recorded. -/
def recordCall (p : Presence) (run : ServerRun) : ServerEvent → Presence
  | .accept c _ =>
      { p with run := run, announced := Function.update p.announced c none }
  | .logout c junk =>
      { p with
        run := run
        notices := p.notices ++ noticeBytes (logoutNotice p.run.server c junk) }
  | _ => { p with run := run }

def presenceStep (p : Presence) : PresenceEvent → Option Presence
  | .call (.handle _ _) => none
  | .call e => (serverStep p.run e).map fun run => recordCall p run e
  | .line c env =>
      if c ∈ p.run.server.clients
          ∧ (fetchMsgFromClient p.run.server.mem env.afterCache c).ret > 0 then
        some (recordLine p c env)
      else none
  | .signal =>
      some { p with run := { p.run with server := p.run.server.incrementSign } }

/-- The server starts without clients, and no allocation fails. -/
def presenceSystem : System Presence PresenceEvent where
  start := fun p => serverSystem.start p.run ∧ NoFail p.run.server.pool
    ∧ (∀ c, p.announced c = none) ∧ p.notices = []
  step := presenceStep

/-! ## The server behind the record -/

/-- A round, as the record sees it. -/
theorem recordLine_run (p : Presence) (c : PClientInfo) (env : Surround) :
    (recordLine p c env).run = ⟨afterRound p.run.server c env, p.run.received,
      Function.update p.run.handed c
        (p.run.handed c ++ [roundLine p.run.server c env])⟩ := by
  rw [recordLine]
  split <;> rfl

/-- The server invariants, and no allocation fails. -/
structure PresenceInv (p : Presence) : Prop where
  run : RunInv p.run
  noFail : NoFail p.run.server.pool

theorem presenceInv_start {p : Presence} (h : presenceSystem.start p) :
    PresenceInv p :=
  ⟨runInv_start h.1, h.2.1⟩

/-- What a call other than a round is. -/
theorem presenceStep_call {p p' : Presence} {e : ServerEvent}
    (h : presenceStep p (.call e) = some p') :
    ∃ run, serverStep p.run e = some run ∧ p' = recordCall p run e := by
  cases e with
  | handle c envs => cases h
  | accept | fetch | markFail | flush | logout =>
      obtain ⟨run, hrun, rfl⟩ := Option.map_eq_some_iff.mp h
      exact ⟨run, hrun, rfl⟩

theorem recordCall_run (p : Presence) (run : ServerRun) (e : ServerEvent) :
    (recordCall p run e).run = run := by
  cases e <;> rfl

/-- A round keeps the invariant of the run. -/
theorem runInv_line {r : ServerRun} {c : PClientInfo} (h : RunInv r)
    (hc : c ∈ r.server.clients) {env : Surround} {i : Nat}
    (hi : nextLine r.server.mem c = some i) :
    RunInv ⟨afterRound r.server c env, r.received, Function.update r.handed c
      (r.handed c ++ [roundLine r.server c env])⟩ := by
  have hr := round_spec h.server hc env hi
  have hupd := runInv_update (c := c) (r.received c)
    (r.handed c ++ [roundLine r.server c env]) h hr.inv
    (fun d hd => Or.inr (hr.handled.clients ▸ hd))
    (fun d hd => ((hr.taken.same (d, .reading)
      (fun e => hd (congrArg Prod.fst e))).trans
        (hr.handled.reading d)).content)
    (fun _ => by
      rw [List.flatten_append, List.flatten_singleton, List.append_assoc,
        hr.split, h.framed c hc])
    (fun _ line hline => (List.mem_append.mp hline).elim (h.isLine c hc line)
      (fun e => List.mem_singleton.mp e ▸ hr.line))
  rw [Function.update_eq_self] at hupd
  exact hupd

/-- A step keeps the invariant of the run, also when allocations fail. -/
theorem runInv_presenceStep {p p' : Presence} {e : PresenceEvent}
    (h : RunInv p.run) (hstep : presenceSystem.step p e = some p') :
    RunInv p'.run := by
  have hstep' : presenceStep p e = some p' := hstep
  cases e with
  | call e =>
      obtain ⟨run, hrun, rfl⟩ := presenceStep_call hstep'
      rw [recordCall_run]
      exact runInv_step h hrun
  | line c env =>
      obtain ⟨⟨hc, hret⟩, hp⟩ := Option.ite_none_right_eq_some.mp hstep'
      obtain rfl := Option.some.inj hp
      obtain ⟨i, hi⟩ := nextLine_of_ret h.server hc hret
      rw [recordLine_run]
      exact runInv_line h hc hi
  | signal =>
      obtain rfl := Option.some.inj hstep'
      exact h.keep (h.server.sign _) (fun _ hd => hd) (fun _ _ => rfl)

/-- The step lemma. -/
theorem presenceInv_step {p p' : Presence} {e : PresenceEvent}
    (h : PresenceInv p) (hstep : presenceSystem.step p e = some p') :
    PresenceInv p' := by
  refine ⟨runInv_presenceStep h.run hstep, ?_⟩
  have hstep' : presenceStep p e = some p' := hstep
  cases e with
  | call e =>
      obtain ⟨run, hrun, rfl⟩ := presenceStep_call hstep'
      rw [recordCall_run]
      exact noFail_step h.run h.noFail hrun
  | line c env =>
      obtain ⟨⟨hc, hret⟩, hp⟩ := Option.ite_none_right_eq_some.mp hstep'
      obtain rfl := Option.some.inj hp
      obtain ⟨i, hi⟩ := nextLine_of_ret h.run.server hc hret
      have hr := round_spec h.run.server hc env hi
      rw [recordLine_run]
      exact hr.handled.outside.noFail (hr.taken.outside.noFail h.noFail)
  | signal =>
      obtain rfl := Option.some.inj hstep'
      exact h.noFail

/-- The rounds of the loop, one event each. -/
theorem handleLoop_lines {c : PClientInfo} (envs : Nat → Surround) :
    ∀ (fuel round : Nat) (lines : List (List UInt8)) (need : Nat)
      (p : Presence), RunInv p.run → c ∈ p.run.server.clients →
      (p.run.server.mem.reading c).length < fuel →
      ∃ n p', runFrom presenceSystem p ((List.range' round n).map fun k =>
          .line c (envs k)) = some p'
        ∧ p'.run.server
          = (handleLoop c envs fuel round lines need p.run.server).server := by
  intro fuel
  induction fuel with
  | zero => intro _ _ _ _ _ _ hf; exact absurd hf (Nat.not_lt_zero _)
  | succ fuel ih =>
      intro round lines need p h hc hf
      cases hn : nextLine p.run.server.mem c with
      | none =>
          refine ⟨0, p, rfl, ?_⟩
          rw [handleLoop_none h.server hc hn]
      | some i =>
          have hr := round_spec h.server hc (envs round) hn
          have hshort := hr.shorter
          rw [handleLoop_succ]
          have hstep : presenceSystem.step p (.line c (envs round))
              = some (recordLine p c (envs round)) := if_pos ⟨hc, hr.goesOn⟩
          have hserver : (recordLine p c (envs round)).run.server
              = afterRound p.run.server c (envs round) := by
            rw [recordLine_run]
          have hcl : c ∈ (recordLine p c (envs round)).run.server.clients := by
            rw [hserver]
            exact hr.listed hc
          rw [← hserver] at hshort
          obtain ⟨n, p', hrun, hlast⟩ := ih (round + 1)
            (lines ++ [roundLine p.run.server c (envs round)])
            (need + (handleMsg (fetched p.run.server c (envs round)) c
              (envs round) (roundLine p.run.server c (envs round))).1)
            (recordLine p c (envs round)) (runInv_presenceStep h hstep) hcl
            (by omega)
          refine ⟨n + 1, p', ?_, ?_⟩
          · rw [List.range'_succ, List.map_cons, runFrom, hstep]
            exact hrun
          · rw [if_pos hr.goesOn, hlast, hserver]

/-- **`try_to_handle_msg`** is a sequence of rounds, and the signal when something
    was sent. -/
theorem tryToHandleMsg_lines {p : Presence} (h : RunInv p.run)
    {c : PClientInfo} (hc : c ∈ p.run.server.clients)
    (envs : Nat → Surround) :
    ∃ n es p', (es = [] ∨ es = [.signal])
      ∧ runFrom presenceSystem p ((List.range' 0 n).map (fun k =>
          .line c (envs k)) ++ es) = some p'
      ∧ p'.run.server = (tryToHandleMsg p.run.server c envs).server := by
  obtain ⟨n, p', hrun, hserver⟩ := handleLoop_lines (c := c) envs
    ((p.run.server.mem.reading c).length + 1) 0 [] 0 p h hc
    (Nat.lt_succ_self _)
  rw [tryToHandleMsg, signalFlush]
  by_cases hneed : cInt (handleLoop c envs
      ((p.run.server.mem.reading c).length + 1) 0 [] 0
      p.run.server).needToFlushMsg ≠ 0
  · refine ⟨n, [.signal], { p' with run := { p'.run with
      server := p'.run.server.incrementSign } }, Or.inr rfl, ?_, ?_⟩
    · rw [runFrom_append, hrun]
      rfl
    · rw [if_pos hneed, hserver]
  · refine ⟨n, [], p', Or.inl rfl, ?_, ?_⟩
    · rw [List.append_nil]
      exact hrun
    · rw [if_neg hneed, hserver]

/-- The untouched server, nothing recorded. -/
def freshPresence : Presence := ⟨freshServer, fun _ => none, []⟩

theorem freshPresence_start : presenceSystem.start freshPresence :=
  ⟨freshServer_start, (fun _ h => absurd h List.not_mem_nil), fun _ => rfl, rfl⟩

/-- The client `c` connects and sends one line. -/
def connects (c : PClientInfo) (socketId : Int) (line : String) :
    List PresenceEvent :=
  [.call (.accept c socketId),
    .call (.fetch c 64 [.bytes (ascii line)]), .line c nulSurround]

/-! ## The notices -/

/-- Notices tell their name and kind. -/
theorem noticeText_inj {n m suffix : List UInt8}
    (h : noticeText n suffix = noticeText m suffix) : n = m := by
  have h1 := List.append_cancel_left (List.append_cancel_right h)
  exact List.append_cancel_right (List.append_cancel_right h1)

theorem noticeText_ne (n m : List UInt8) :
    noticeText n msgLoginSuffix ≠ noticeText m msgLogoutSuffix := by
  intro h
  have h1 := congrArg List.getLast?
    (List.append_cancel_left (List.append_cancel_right h))
  rw [List.getLast?_append, List.getLast?_append, List.getLast?_append,
    show msgLoginSuffix.getLast? = some 119 from rfl,
    show msgLogoutSuffix.getLast? = some 116 from rfl] at h1
  exact absurd (Option.some.inj h1) (by decide)

theorem count_noticeText (m n suffix : List UInt8) :
    [noticeText m suffix].count (noticeText n suffix)
      = if m = n then 1 else 0 := by
  by_cases hmn : m = n
  · rw [if_pos hmn, hmn, List.count_singleton_self]
  · rw [if_neg hmn]
    exact List.count_eq_zero.mpr
      (fun h => hmn (noticeText_inj (List.mem_singleton.mp h)).symm)

/-- How often `n` is online for one who replays the notices: once more for each
    notice of a login, once less for each of a logout. -/
def occurrences (notices : List (List UInt8)) (n : List UInt8) : Int :=
  notices.count (noticeText n msgLoginSuffix)
    - notices.count (noticeText n msgLogoutSuffix)

theorem occurrences_login (notices : List (List UInt8)) (m n : List UInt8) :
    occurrences (notices ++ [noticeText m msgLoginSuffix]) n
      = occurrences notices n + if m = n then 1 else 0 := by
  have hzero : [noticeText m msgLoginSuffix].count (noticeText n msgLogoutSuffix)
      = 0 := List.count_eq_zero.mpr
    (fun h => noticeText_ne m n (List.mem_singleton.mp h).symm)
  rw [occurrences, occurrences, List.count_append, List.count_append, hzero,
    count_noticeText]
  split <;> omega

theorem occurrences_logout (notices : List (List UInt8)) (m n : List UInt8) :
    occurrences (notices ++ [noticeText m msgLogoutSuffix]) n
      = occurrences notices n - if m = n then 1 else 0 := by
  have hzero : [noticeText m msgLogoutSuffix].count (noticeText n msgLoginSuffix)
      = 0 := List.count_eq_zero.mpr
    (fun h => noticeText_ne n m (List.mem_singleton.mp h))
  rw [occurrences, occurrences, List.count_append, List.count_append, hzero,
    count_noticeText]
  split <;> omega

/-- The names of the connected clients that have logged in. -/
def onlineNames (p : Presence) : List (List UInt8) :=
  (p.run.server.clients.filter fun c => (p.announced c).isSome).map
    (nameOf p.run.server.mem)

/-- Replaying the notices gives the names of those that are logged in. -/
def Consistent (p : Presence) : Prop :=
  ∀ n, occurrences p.notices n = (onlineNames p).count n

/-- The notice of a logout has a name the connection announced when it logged
    in. -/
def LogoutAnnounced (p : Presence) : PresenceEvent → Prop
  | .call (.logout c junk) =>
      c ∈ p.run.server.clients →
      ∀ b ∈ noticeBytes (logoutNotice p.run.server c junk),
        ∃ n, p.announced c = some n ∧ b = noticeText n msgLogoutSuffix
          ∧ noticeText n msgLoginSuffix ∈ p.notices
  | _ => True

/-- No connection logs in that is logged in, and none is logged out that is
    not. -/
def Orderly (p : Presence) : PresenceEvent → Prop
  | .line c env =>
      cmdLogin <+: roundLine p.run.server c env → p.announced c = none
  | .call (.logout c _) => (p.announced c).isSome = true
  | _ => True

instance (p : Presence) (e : PresenceEvent) : Decidable (Orderly p e) :=
  match e with
  | .line _ _ => inferInstanceAs (Decidable (_ → _))
  | .call (.logout _ _) => inferInstanceAs (Decidable (_ = _))
  | .call (.accept _ _) => .isTrue trivial
  | .call (.fetch _ _ _) => .isTrue trivial
  | .call (.handle _ _) => .isTrue trivial
  | .call (.markFail _) => .isTrue trivial
  | .call (.flush _ _) => .isTrue trivial
  | .signal => .isTrue trivial

/-! ### What builds a notice -/

/-- **THE LOGIN NOTICE** has the new name of the client. -/
theorem loginRound_spec {s : ServerInfo} {c : PClientInfo} {i : Nat}
    (h : ServerInv s) (hc : c ∈ s.clients) (hnf : NoFail s.pool)
    (env : Surround) (hi : nextLine s.mem c = some i)
    (hlogin : cmdLogin <+: roundLine s c env) :
    ∃ n, nameOf (roundDispatch s c env).2.mem c = n ∧ (10 : UInt8) ∉ n
      ∧ noticeBytes (roundDispatch s c env).1
        = [noticeText n msgLoginSuffix] := by
  have hr := round_spec h hc env hi
  obtain ⟨text, htext, h10, hz⟩ := command_line hr.line hlogin (by decide)
  have hdisp : roundDispatch s c env
      = userLogin (fetched s c env) c env.junk
        (roundLine s c env ++ env.afterLine) := by
    rw [roundDispatch, dispatchMsg, if_pos ((strstr_command hr.line (by decide)
      (by decide) _).mpr hlogin)]
  obtain ⟨-, -, -, hsome, -, hnotice⟩ := userLogin_spec (c := c)
    hr.fetched.heap (hr.fetched.name c hc) env.junk
    (roundLine s c env ++ env.afterLine)
  rw [← hdisp] at hsome hnotice
  have hname : nameOf (roundDispatch s c env).2.mem c = text.take 29 := by
    rw [hdisp, htext, nameOf]
    exact (userLogin_name hr.fetched hc env.junk env.afterLine h10 hz).2
  have hname10 : (10 : UInt8) ∉ text.take 29 :=
    fun hm => h10 (List.mem_of_mem_take hm)
  refine ⟨text.take 29, hname, hname10, ?_⟩
  cases hm : (roundDispatch s c env).1 with
  | none => exact absurd hm (hsome (hr.taken.outside.noFail hnf))
  | some msg =>
      have hbytes := (hnotice msg hm).text (by
        show (10 : UInt8) ∉ nameOf (roundDispatch s c env).2.mem c
        rw [hname]
        exact hname10)
      refine congrArg (fun b => [b]) (hbytes.trans ?_)
      exact congrArg (noticeText · msgLoginSuffix) hname

/-- **THE LOGOUT NOTICE** has the name the client has. -/
theorem logoutNotice_spec {s : ServerInfo} {c : PClientInfo} (h : ServerInv s)
    (hc : c ∈ s.clients) (hnf : NoFail s.pool)
    (h10 : (10 : UInt8) ∉ nameOf s.mem c) (junk : List UInt8 × List UInt8) :
    noticeBytes (logoutNotice s c junk)
      = [noticeText (nameOf s.mem c) msgLogoutSuffix] := by
  obtain ⟨-, hmem, -⟩ := removeClient_spec h hc
  have hpool : (removeClient s c).pool = s.pool :=
    congrArg (fun m => m.heap.pool) hmem
  obtain ⟨a, o, p', hnot, -, hsome, hmsg⟩ := createNotice_spec (p := s.pool)
    h.heap.pool junk (s.mem.info c).name msgLogoutSuffix
    (by decide) (by decide) (by
      have := (h.name c hc).strlen_lt
      have h14 : msgLogoutSuffix.length = 14 := rfl
      omega)
  rw [logoutNotice, hpool, hmem, hnot]
  cases o with
  | none => exact absurd rfl (hsome hnf)
  | some msg => exact congrArg (fun b => [b]) ((hmsg msg rfl).text h10)

/-- What a round does to the data of the clients. -/
theorem afterRound_data {s : ServerInfo} {c : PClientInfo} {i : Nat}
    (h : ServerInv s) (hc : c ∈ s.clients) (env : Surround)
    (hi : nextLine s.mem c = some i) :
    (afterRound s c env).mem.data = (roundDispatch s c env).2.mem.data
      ∧ (∀ d, d ≠ c → (afterRound s c env).mem.data d = s.mem.data d)
      ∧ (¬ cmdLogin <+: roundLine s c env →
        (afterRound s c env).mem.data = s.mem.data) := by
  have hr := round_spec h hc env hi
  obtain ⟨hhandled, -, -, hsize⟩ := handled_dispatchMsg (c := c)
    hr.fetched.heap (hr.fetched.name c hc) env hr.length
  obtain ⟨-, hdata, -⟩ := deliverIfAny_spec hhandled.heap
    (by rw [hhandled.clientCount, hhandled.clients, hr.fetched.count])
    (by rw [hhandled.clients]; exact hr.fetched.nodup) hsize c
  have hafter : (afterRound s c env).mem.data
      = (roundDispatch s c env).2.mem.data := hdata
  refine ⟨hafter, fun d hd => ?_, fun hlogin => ?_⟩
  · exact (hr.handled.others d hd).trans (congrFun hr.taken.data d)
  · rw [hafter, roundDispatch, dispatchMsg_data hr.fetched.heap
      (hr.fetched.name c hc) env (bounded_line env hr.length)
      (fun e => hlogin ((strstr_command hr.line (by decide) (by decide)
        _).mp e))]
    exact hr.taken.data

/-! ### The invariant of the notices -/

/-- What stands in the list in front of and behind a client, each once. -/
theorem filterMap_split {f : PClientInfo → Option (List UInt8)}
    {pre post : List PClientInfo} {c : PClientInfo} (n : List UInt8) :
    ((pre ++ c :: post).filterMap f).count n
      = ((pre ++ post).filterMap f).count n + (f c).toList.count n := by
  rw [List.filterMap_append, List.filterMap_append, List.count_append,
    List.count_append, List.filterMap_cons]
  cases f c with
  | none => rfl
  | some m =>
      simp only [Option.toList_some, List.count_cons, List.count_nil]
      omega

theorem filterMap_update {f : PClientInfo → Option (List UInt8)}
    {l : List PClientInfo} {c : PClientInfo} (hc : c ∉ l)
    (v : Option (List UInt8)) :
    l.filterMap (Function.update f c v) = l.filterMap f := by
  refine List.filterMap_congr ?_
  intro d hd
  have hne : d ≠ c := fun e => hc (e ▸ hd)
  exact Function.update_of_ne hne ..

/-- **THE NOTICE INVARIANT** of an orderly run: a client has the name it
    announced, or `unknown`, and the notices add up. -/
structure NoticeInv (p : Presence) : Prop where
  inv : PresenceInv p
  named : ∀ c ∈ p.run.server.clients, nameOf p.run.server.mem c
    = (p.announced c).getD unknownClient
  newline : ∀ c ∈ p.run.server.clients,
    (10 : UInt8) ∉ nameOf p.run.server.mem c
  told : ∀ c ∈ p.run.server.clients, ∀ n ∈ p.announced c,
    noticeText n msgLoginSuffix ∈ p.notices
  balanced : ∀ n, occurrences p.notices n
    = (p.run.server.clients.filterMap p.announced).count n

/-- The names of those logged in are those announced. -/
theorem NoticeInv.onlineNames {p : Presence} (h : NoticeInv p) :
    onlineNames p = p.run.server.clients.filterMap p.announced := by
  have hlist : ∀ l : List PClientInfo, (∀ c ∈ l, nameOf p.run.server.mem c
      = (p.announced c).getD unknownClient) →
      (l.filter fun c => (p.announced c).isSome).map (nameOf p.run.server.mem)
        = l.filterMap p.announced := by
    intro l
    induction l with
    | nil => intro _; rfl
    | cons c l ih =>
        intro hl
        have hc := hl c (List.mem_cons_self ..)
        have hrest := ih (fun d hd => hl d (List.mem_cons_of_mem c hd))
        cases ha : p.announced c with
        | none =>
            rw [List.filter_cons, if_neg (by rw [ha]; decide), hrest,
              List.filterMap_cons_none ha]
        | some n =>
            rw [ha, Option.getD_some] at hc
            rw [List.filter_cons, if_pos (by rw [ha]; rfl), List.map_cons, hrest,
              List.filterMap_cons_some ha, hc]
  exact hlist _ h.named

/-- A call that keeps the list and the names. -/
theorem NoticeInv.keep {p : Presence} (h : NoticeInv p) {run : ServerRun}
    (hinv : PresenceInv { p with run := run })
    (hcl : run.server.clients = p.run.server.clients)
    (hname : ∀ c ∈ p.run.server.clients,
      nameOf run.server.mem c = nameOf p.run.server.mem c) :
    NoticeInv { p with run := run } where
  inv := hinv
  named := fun c hc => by
    rw [hcl] at hc
    rw [hname c hc]
    exact h.named c hc
  newline := fun c hc => by
    rw [hcl] at hc
    rw [hname c hc]
    exact h.newline c hc
  told := fun c hc => h.told c (hcl ▸ hc)
  balanced := by
    rw [hcl]
    exact h.balanced

/-- A new client is not logged in. -/
theorem NoticeInv.accept {p : Presence} (h : NoticeInv p) {c : PClientInfo}
    {socketId : Int} {run : ServerRun} (hc : c ∉ p.run.server.clients)
    (hsocket : ∀ d ∈ p.run.server.clients,
      (p.run.server.mem.info d).socketId ≠ socketId)
    (hserver : run.server = acceptClient p.run.server c socketId)
    (hinv : PresenceInv { p with
      run := run, announced := Function.update p.announced c none }) :
    NoticeInv { p with
      run := run, announced := Function.update p.announced c none } := by
  obtain ⟨-, -, -, hdata, hlist⟩ := acceptClient_spec h.inv.run.server hc hsocket
  rw [← hserver] at hdata hlist
  have hold : ∀ d ∈ run.server.clients, d ≠ c →
      d ∈ p.run.server.clients
        ∧ nameOf run.server.mem d = nameOf p.run.server.mem d := by
    intro d hd hdc
    refine ⟨?_, congrArg (fun x : ClientData => cstr x.info.name) (hdata d hdc)⟩
    rcases hlist with h1 | ⟨h2, -⟩
    · exact h1 ▸ hd
    · rw [h2] at hd
      exact (List.mem_append.mp hd).resolve_right
        (fun e => hdc (List.mem_singleton.mp e))
  have hnew : c ∈ run.server.clients →
      nameOf run.server.mem c = unknownClient := by
    intro hcr
    rcases hlist with h1 | ⟨-, -, hname, -⟩
    · exact absurd (h1 ▸ hcr) hc
    · exact hname
  refine ⟨hinv, fun d hd => ?_, fun d hd => ?_, fun d hd n hn => ?_, fun n => ?_⟩
  · simp only
    by_cases hdc : d = c
    · subst hdc
      rw [Function.update_self]
      exact hnew hd
    · rw [Function.update_of_ne hdc, (hold d hd hdc).2]
      exact h.named d (hold d hd hdc).1
  · by_cases hdc : d = c
    · subst hdc
      rw [hnew hd]
      decide
    · rw [(hold d hd hdc).2]
      exact h.newline d (hold d hd hdc).1
  · simp only at hn
    by_cases hdc : d = c
    · rw [hdc, Function.update_self] at hn
      cases hn
    · rw [Function.update_of_ne hdc] at hn
      exact h.told d (hold d hd hdc).1 n hn
  · refine (h.balanced n).trans ?_
    simp only
    rcases hlist with h1 | ⟨h2, -⟩
    · rw [h1, filterMap_update hc]
    · rw [h2, List.filterMap_append, filterMap_update hc,
        List.filterMap_cons_none (Function.update_self ..), List.filterMap_nil,
        List.append_nil]

/-- A connection that is logged out takes its announced name with it. -/
theorem NoticeInv.logout {p : Presence} (h : NoticeInv p) {c : PClientInfo}
    {junk : List UInt8 × List UInt8} {run : ServerRun}
    (hc : c ∈ p.run.server.clients) (hlogged : (p.announced c).isSome = true)
    (hserver : run.server = userLogout p.run.server c junk)
    (hinv : PresenceInv { p with
      run := run
      notices := p.notices ++ noticeBytes (logoutNotice p.run.server c junk) }) :
    NoticeInv { p with
      run := run
      notices := p.notices
        ++ noticeBytes (logoutNotice p.run.server c junk) } := by
  obtain ⟨-, -, -, hdata, pre, post, hsplit, hcl⟩ := userLogout_spec
    h.inv.run.server hc junk
  rw [← hserver] at hdata hcl
  have hname : ∀ d, nameOf run.server.mem d = nameOf p.run.server.mem d :=
    fun d => congrArg (fun x : ClientData => cstr x.info.name)
      (congrFun hdata d)
  have hsub : ∀ d ∈ run.server.clients, d ∈ p.run.server.clients := by
    intro d hd
    rw [hcl] at hd
    rw [hsplit]
    exact ((List.sublist_cons_self c post).append_left pre).subset hd
  obtain ⟨m, hm⟩ := Option.isSome_iff_exists.mp hlogged
  have hcname := h.named c hc
  rw [hm, Option.getD_some] at hcname
  have hnotice := logoutNotice_spec h.inv.run.server hc h.inv.noFail
    (h.newline c hc) junk
  rw [hcname] at hnotice
  refine ⟨hinv, fun d hd => ?_, fun d hd => ?_, fun d hd n hn => ?_, fun n => ?_⟩
  · rw [hname d]
    exact h.named d (hsub d hd)
  · rw [hname d]
    exact h.newline d (hsub d hd)
  · exact List.mem_append_left _ (h.told d (hsub d hd) n hn)
  · simp only
    have hbal := h.balanced n
    rw [hsplit, filterMap_split, hm, Option.toList_some, List.count_singleton]
      at hbal
    show _ = ((run.server.clients.filterMap p.announced).count n : Int)
    rw [hnotice, occurrences_logout, hbal, hcl]
    simp only [beq_iff_eq]
    split <;> omega

/-- A connection that logs in announces its name. -/
theorem NoticeInv.login {p : Presence} (h : NoticeInv p) {c : PClientInfo}
    {env : Surround} {i : Nat} (hc : c ∈ p.run.server.clients)
    (hi : nextLine p.run.server.mem c = some i)
    (hlogin : cmdLogin <+: roundLine p.run.server c env)
    (hnew : p.announced c = none) (hinv : PresenceInv (recordLine p c env)) :
    NoticeInv (recordLine p c env) := by
  obtain ⟨m, hm, hm10, hnotice⟩ := loginRound_spec h.inv.run.server hc
    h.inv.noFail env hi hlogin
  obtain ⟨hdata, hothers, -⟩ := afterRound_data h.inv.run.server hc env hi
  have hr := round_spec h.inv.run.server hc env hi
  have hcl : (recordLine p c env).run.server.clients
      = p.run.server.clients := by
    rw [recordLine_run]
    exact hr.handled.clients
  have hname : ∀ d, d ≠ c → nameOf (recordLine p c env).run.server.mem d
      = nameOf p.run.server.mem d := by
    intro d hd
    rw [recordLine_run]
    exact congrArg (fun x : ClientData => cstr x.info.name) (hothers d hd)
  have hcname : nameOf (recordLine p c env).run.server.mem c = m := by
    rw [recordLine_run]
    exact (congrArg (fun x : ClientData => cstr x.info.name)
      (congrFun hdata c)).trans hm
  have hann : (recordLine p c env).announced
      = Function.update p.announced c (some m) := by
    simp only [recordLine]
    rw [if_pos hlogin, hm]
  have hnotices : (recordLine p c env).notices
      = p.notices ++ [noticeText m msgLoginSuffix] := by
    simp only [recordLine]
    rw [if_pos hlogin, hnotice]
  refine ⟨hinv, fun d hd => ?_, fun d hd => ?_, fun d hd n hn => ?_, fun n => ?_⟩
  · rw [hann]
    by_cases hdc : d = c
    · subst hdc
      rw [hcname, Function.update_self]
      rfl
    · rw [hname d hdc, Function.update_of_ne hdc]
      exact h.named d (hcl ▸ hd)
  · by_cases hdc : d = c
    · subst hdc
      rw [hcname]
      exact hm10
    · rw [hname d hdc]
      exact h.newline d (hcl ▸ hd)
  · rw [hann] at hn
    rw [hnotices]
    by_cases hdc : d = c
    · subst hdc
      rw [Function.update_self] at hn
      obtain rfl := Option.some.inj hn
      exact List.mem_append_right _ (List.mem_singleton_self _)
    · rw [Function.update_of_ne hdc] at hn
      exact List.mem_append_left _ (h.told d (hcl ▸ hd) n hn)
  · obtain ⟨pre, post, hsplit⟩ := List.append_of_mem hc
    have hnd := h.inv.run.server.nodup
    rw [hsplit, List.nodup_middle, List.nodup_cons] at hnd
    have hrest : (pre ++ post).filterMap (Function.update p.announced c (some m))
        = (pre ++ post).filterMap p.announced := filterMap_update hnd.1 _
    have hbal := h.balanced n
    rw [hsplit, filterMap_split, hnew] at hbal
    rw [hnotices, occurrences_login, hcl, hann, hsplit, filterMap_split,
      hrest, Function.update_self, hbal]
    simp only [Option.toList_some, Option.toList_none, List.count_singleton,
      List.count_nil, beq_iff_eq]
    by_cases hmn : m = n
    · rw [if_pos hmn, if_pos hmn, Nat.add_zero, Int.natCast_add]
      rfl
    · rw [if_neg hmn, if_neg hmn, Nat.add_zero, Int.add_zero]

theorem noticeInv_start {p : Presence} (h : presenceSystem.start p) :
    NoticeInv p := by
  have hinv := presenceInv_start h
  obtain ⟨⟨hcl, -⟩, -, -, hnotices⟩ := h
  refine ⟨hinv, ?_, ?_, ?_, fun n => ?_⟩
  · rw [hcl]
    exact fun _ hc => by cases hc
  · rw [hcl]
    exact fun _ hc => by cases hc
  · rw [hcl]
    exact fun _ hc => by cases hc
  · rw [hcl, hnotices]
    rfl

/-- The step lemma: an orderly step keeps the invariant. -/
theorem noticeInv_step {p p' : Presence} {e : PresenceEvent} (h : NoticeInv p)
    (ho : Orderly p e) (hstep : presenceSystem.step p e = some p') :
    NoticeInv p' := by
  have hinv := presenceInv_step h.inv hstep
  have hstep' : presenceStep p e = some p' := hstep
  cases e with
  | signal =>
      obtain rfl := Option.some.inj hstep'
      exact h.keep hinv rfl (fun _ _ => rfl)
  | line c env =>
      obtain ⟨⟨hc, hret⟩, hp⟩ := Option.ite_none_right_eq_some.mp hstep'
      obtain rfl := Option.some.inj hp
      obtain ⟨i, hi⟩ := nextLine_of_ret h.inv.run.server hc hret
      by_cases hlogin : cmdLogin <+: roundLine p.run.server c env
      · exact h.login hc hi hlogin (ho hlogin) hinv
      · obtain ⟨-, -, hdata⟩ := afterRound_data h.inv.run.server hc env hi
        have hr := round_spec h.inv.run.server hc env hi
        have hrec : recordLine p c env = { p with
            run := (recordLine p c env).run } := by
          rw [recordLine_run]
          simp only [recordLine]
          rw [if_neg hlogin]
        rw [hrec] at hinv ⊢
        refine h.keep hinv ?_ (fun d _ => ?_)
        · rw [recordLine_run]
          exact hr.handled.clients
        · rw [recordLine_run]
          exact congrArg (fun x : ClientData => cstr x.info.name)
            (congrFun (hdata hlogin) d)
  | call e =>
      obtain ⟨run, hrun, rfl⟩ := presenceStep_call hstep'
      cases e with
      | handle c envs => cases hstep'
      | accept c socketId =>
          obtain ⟨hok, hr⟩ := Option.ite_none_right_eq_some.mp hrun
          obtain ⟨hserver, -, -⟩ := serverRun_fields hr
          exact h.accept hok.1 hok.2 hserver hinv
      | fetch c n reads =>
          obtain ⟨⟨hc, hn, hreads⟩, hr⟩ := Option.ite_none_right_eq_some.mp hrun
          obtain ⟨hserver, -, -⟩ := serverRun_fields hr
          obtain ⟨-, -, -, hdata, -⟩ := fetchFromClient_spec (c := c)
            h.inv.run.server.heap hn hreads
          refine h.keep hinv (by rw [hserver]) (fun d _ => ?_)
          rw [hserver]
          exact congrArg (fun x : ClientData => cstr x.info.name)
            (congrFun hdata d)
      | markFail c =>
          obtain ⟨hc, hr⟩ := Option.ite_none_right_eq_some.mp hrun
          obtain ⟨hserver, -, -⟩ := serverRun_fields hr
          refine h.keep hinv (by rw [hserver]; rfl) (fun d _ => ?_)
          rw [hserver]
          exact congrArg cstr ((markFail_spec h.inv.run.server c).2 d)
      | flush c writes =>
          obtain ⟨⟨hc, hw⟩, hr⟩ := Option.ite_none_right_eq_some.mp hrun
          obtain ⟨hserver, -, -⟩ := serverRun_fields hr
          obtain ⟨-, -, hdata, -⟩ := flushMessages_spec (c := c)
            h.inv.run.server.heap hw
          refine h.keep hinv (by rw [hserver]) (fun d _ => ?_)
          rw [hserver]
          exact congrArg (fun x : ClientData => cstr x.info.name)
            (congrFun hdata d)
      | logout c junk =>
          obtain ⟨hc, hr⟩ := Option.ite_none_right_eq_some.mp hrun
          obtain ⟨hserver, -, -⟩ := serverRun_fields hr
          exact h.logout hc ho hserver hinv

/-- **PRESENCE**: in a run without allocation failures in which no connection logs
    in twice and none is logged out that never logged in, replaying the notices
    gives exactly the names of the connected clients that have logged in, in
    every state, and no logout is announced that was no login. -/
theorem presence_consistent {p : Presence} (h : presenceSystem.start p)
    {es : List PresenceEvent} (ho : Along presenceSystem Orderly p es)
    {p' : Presence} (hrun : runFrom presenceSystem p es = some p') :
    Consistent p' ∧ Along presenceSystem LogoutAnnounced p es := by
  constructor
  · have hinv : NoticeInv p' := runFrom_inv presenceSystem (I := NoticeInv)
      (fun _ _ _ hI hC hstep => noticeInv_step hI hC hstep) es
      (noticeInv_start h) ho hrun
    intro n
    rw [hinv.onlineNames]
    exact hinv.balanced n
  · refine along_of_inv presenceSystem (I := NoticeInv)
      (fun _ _ _ hI hC hstep => noticeInv_step hI hC hstep) ?_ es p
      (noticeInv_start h) ho
    intro p e hI hC
    cases e with
    | line c env => exact trivial
    | signal => exact trivial
    | call e =>
        cases e with
        | accept | fetch | handle | markFail | flush => exact trivial
        | logout c junk =>
            intro hc b hb
            obtain ⟨n, hn⟩ := Option.isSome_iff_exists.mp
              (show (p.announced c).isSome = true from hC)
            have hname := hI.named c hc
            rw [hn, Option.getD_some] at hname
            rw [logoutNotice_spec hI.inv.run.server hc hI.inv.noFail
              (hI.newline c hc) junk, hname] at hb
            exact ⟨n, hn, List.mem_singleton.mp hb, hI.told c hc n hn⟩

/-- Two clients log in, and one is logged out. -/
def orderlyChat : List PresenceEvent :=
  connects 1 4 "LOGIN: ann\n" ++ connects 2 5 "LOGIN: bob\n"
    ++ [.call (.logout 1 ([], []))]

theorem presence_consistent_orderlyChat :
    ∃ p', runFrom presenceSystem freshPresence orderlyChat = some p'
      ∧ Consistent p'
      ∧ Along presenceSystem LogoutAnnounced freshPresence orderlyChat := by
  have hrun : (runFrom presenceSystem freshPresence orderlyChat).isSome
      = true := by decide +kernel
  obtain ⟨p', hp⟩ := Option.isSome_iff_exists.mp hrun
  exact ⟨p', hp, presence_consistent freshPresence_start
    (along_of_checkRun _ (by decide +kernel)) hp⟩

/-- `n` is not as often online as the notices say. -/
def miscounts (n : List UInt8) (p : Presence) : Bool :=
  decide (occurrences p.notices n ≠ (onlineNames p).count n)

theorem not_consistent_of_miscounts {es : List PresenceEvent}
    {n : List UInt8} (h : ((runFrom presenceSystem freshPresence es).any
      (miscounts n)) = true) :
    ∃ p', runFrom presenceSystem freshPresence es = some p'
      ∧ ¬ Consistent p' := by
  obtain ⟨p', hp, hd⟩ := (Option.any_eq_true _ _).mp h
  exact ⟨p', hp, fun hc => of_decide_eq_true hd (hc n)⟩

/-- A connection that never logged in is announced to have logged out, and one
    that logs in under a new name leaves the old one online. -/
theorem presence_inconsistent :
    (∃ p', runFrom presenceSystem freshPresence
        [.call (.accept 1 4), .call (.logout 1 ([], []))] = some p'
      ∧ ¬ Consistent p')
    ∧ ∃ p', runFrom presenceSystem freshPresence
        (connects 1 4 "LOGIN: ann\nLOGIN: bob\n" ++ [.line 1 nulSurround])
          = some p'
      ∧ ¬ Consistent p' :=
  ⟨not_consistent_of_miscounts (n := unknownClient) (by decide +kernel),
    not_consistent_of_miscounts (n := ascii "ann") (by decide +kernel)⟩

end IMPresence

import IMServer.Presence

/-! # Broadcast — whom a line to all reaches

    A message to all is for every client but its sender, and for none that has
    not logged in.  The code tells both by names: it skips the clients that are
    called like the sender, and those called `unknown`.  `broadcast_iff` says
    that this is right exactly when no other user has such a name, and
    `broadcast_misses` is a run with two users of one name. -/

namespace IMBroadcast

open IMBytes IMCString IMCachePool IMBufferQueue IMClientInfo IMLineFraming
  IMMessage IMMessageFormat IMServerInfo IMDelivery IMDispatch IMServerRun
  IMRouting IMPresence IMTransition

/-- The text of a `TO-ALL:` line: what stands behind the colon and one more byte,
    up to the newline. -/
def toAllText (line : List UInt8) : Option (List UInt8) :=
  if cmdToAll <+: line ∧ 8 < line.length then some (line.drop 8).dropLast
  else none

theorem toAllText_eq {line text : List UInt8} (hl : IsLine line)
    (h : toAllText line = some text) :
    ∃ x, line = cmdToAll ++ x :: text ++ [10] := by
  obtain ⟨⟨hpre, hlen⟩, htext⟩ := Option.ite_none_right_eq_some.mp h
  obtain ⟨rest, rfl, -, -⟩ := command_line hl hpre (by decide)
  rw [List.length_append, List.length_append, List.length_singleton,
    show cmdToAll.length = 7 from rfl] at hlen
  obtain ⟨x, rest', rfl⟩ := List.exists_cons_of_length_pos
    (show 0 < rest.length by omega)
  refine ⟨x, ?_⟩
  have hdrop : (cmdToAll ++ x :: rest' ++ [10]).drop 8 = rest' ++ [10] := by
    rw [show cmdToAll ++ x :: rest' ++ [10] = (cmdToAll ++ [x]) ++ (rest' ++ [10])
      from by simp]
    exact List.drop_left' rfl
  rw [hdrop, List.dropLast_concat] at htext
  rw [Option.some.inj htext]

/-- Another user than `c`: listed, not marked, and through `user_login`. -/
def Other (p : Presence) (c d : PClientInfo) : Prop :=
  d ≠ c ∧ (p.run.server.mem.info d).pub ≠ fail
    ∧ (p.announced d).isSome = true

instance (p : Presence) (c d : PClientInfo) : Decidable (Other p c d) :=
  inferInstanceAs (Decidable (_ ∧ _ ∧ _))

/-- There is a next line of `c`, and it is one to all with the text `text`. -/
def SendsToAll (p : Presence) (c : PClientInfo) (env : Surround)
    (text : List UInt8) : Prop :=
  c ∈ p.run.server.clients
    ∧ (fetchMsgFromClient p.run.server.mem env.afterCache c).ret > 0
    ∧ toAllText (roundLine p.run.server c env) = some text

/-- A line to all is appended once to the writing buffer of every other user, and
    not to that of its sender. -/
def ReachesOthers (p : Presence) : PresenceEvent → Prop
  | .line c env => ∀ text, SendsToAll p c env text →
      (∀ d ∈ p.run.server.clients, Other p c d →
        (afterRound p.run.server c env).mem.writing d
          = p.run.server.mem.writing d
            ++ peerText (nameOf p.run.server.mem c) text)
      ∧ (afterRound p.run.server c env).mem.writing c
        = p.run.server.mem.writing c
  | _ => True

/-- No other user is called like the sender of a line to all, or `unknown`. -/
def NamesApart (p : Presence) : PresenceEvent → Prop
  | .line c env =>
      c ∈ p.run.server.clients →
      (fetchMsgFromClient p.run.server.mem env.afterCache c).ret > 0 →
      (toAllText (roundLine p.run.server c env)).isSome = true →
      ∀ d ∈ p.run.server.clients, Other p c d →
        nameOf p.run.server.mem d ≠ nameOf p.run.server.mem c
          ∧ nameOf p.run.server.mem d ≠ unknownClient
  | _ => True

instance (p : Presence) (e : PresenceEvent) : Decidable (NamesApart p e) :=
  match e with
  | .line _ _ => inferInstanceAs (Decidable (_ → _ → _ → ∀ d ∈ _, _ → _))
  | .call _ => .isTrue trivial
  | .signal => .isTrue trivial

/-- What the round of a line to all does to the writing buffers. -/
theorem sendsToAll_spec {p : Presence} (h : PresenceInv p) {c : PClientInfo}
    {env : Surround} {text : List UInt8} (hs : SendsToAll p c env text)
    (d : PClientInfo) :
    (afterRound p.run.server c env).mem.writing d
      = p.run.server.mem.writing d
        ++ if d ∈ p.run.server.clients
            ∧ (p.run.server.mem.info d).pub ≠ fail
            ∧ nameOf p.run.server.mem d ≠ unknownClient
            ∧ nameOf p.run.server.mem d ≠ nameOf p.run.server.mem c then
          peerText (nameOf p.run.server.mem c) text
        else [] := by
  obtain ⟨hc, hret, htext⟩ := hs
  obtain ⟨i, hi⟩ := nextLine_of_ret h.run.server hc hret
  have hr := round_spec h.run.server hc env hi
  obtain ⟨x, hline⟩ := toAllText_eq hr.line htext
  have hrouted := handleMsg_toAll hr.fetched hc
    (hr.taken.outside.noFail h.noFail) env hr.line hr.length hline
  -- taking the line changes neither the data nor a writing buffer
  have hinfo : ∀ d, (fetched p.run.server c env).mem.info d
      = p.run.server.mem.info d :=
    fun d => congrArg ClientData.info (congrFun hr.taken.data d)
  have hwriting : (fetched p.run.server c env).mem.writing d
      = p.run.server.mem.writing d :=
    (hr.taken.same (d, .writing) (reading_ne_writing c d).symm).content
  have haudience : Audience (fetched p.run.server c env)
      (nameOf (fetched p.run.server c env).mem c) d
      ↔ d ∈ p.run.server.clients ∧ (p.run.server.mem.info d).pub ≠ fail
        ∧ nameOf p.run.server.mem d ≠ unknownClient
        ∧ nameOf p.run.server.mem d ≠ nameOf p.run.server.mem c := by
    rw [Audience, nameOf, nameOf, hinfo, hinfo]
    exact Iff.rfl
  have hname : nameOf (fetched p.run.server c env).mem c
      = nameOf p.run.server.mem c := by
    rw [nameOf, hinfo]
    rfl
  split
  · next hto =>
      have hcopy := hrouted.copies d (haudience.mpr hto)
      rw [hwriting, hname] at hcopy
      exact hcopy
  · next hnot =>
      rw [List.append_nil, ← hwriting]
      exact hrouted.rest d (fun e => hnot (haudience.mp e))

/-- One call: the names decide. -/
theorem reachesOthers_iff {p : Presence} (h : PresenceInv p)
    (e : PresenceEvent) : ReachesOthers p e ↔ NamesApart p e := by
  cases e with
  | call e => exact Iff.rfl
  | signal => exact Iff.rfl
  | line c env =>
      constructor
      · intro hreach hc hret htext d hd hother
        obtain ⟨text, htext⟩ := Option.isSome_iff_exists.mp htext
        have hs : SendsToAll p c env text := ⟨hc, hret, htext⟩
        have hcopy := (hreach text hs).1 d hd hother
        rw [sendsToAll_spec h hs d] at hcopy
        have hgot := List.append_cancel_left hcopy
        split at hgot
        · next hto => exact ⟨hto.2.2.2, hto.2.2.1⟩
        · have hlen := congrArg List.length hgot
          rw [length_peerText, List.length_nil] at hlen
          omega
      · intro hapart text hs
        obtain ⟨hc, hret, htext⟩ := id hs
        refine ⟨fun d hd hother => ?_, ?_⟩
        · obtain ⟨hsender, hunknown⟩ := hapart hc hret
            (Option.isSome_iff_exists.mpr ⟨text, htext⟩) d hd hother
          rw [sendsToAll_spec h hs d, if_pos ⟨hd, hother.2.1, hunknown, hsender⟩]
        · rw [sendsToAll_spec h hs c, if_neg (fun hto => hto.2.2.2 rfl),
            List.append_nil]

/-- **BROADCAST**: along a run without allocation failures every line to all goes
    once to every other user, and not to its sender, if and only if at each such
    line no other user is called like the sender, or `unknown`. -/
theorem broadcast_iff {p : Presence} (h : presenceSystem.start p)
    (es : List PresenceEvent) :
    Along presenceSystem ReachesOthers p es
      ↔ Along presenceSystem NamesApart p es :=
  along_congr presenceSystem (I := PresenceInv) (K := fun _ _ => True)
    (fun _ _ _ hI _ hstep => presenceInv_step hI hstep)
    (fun _ e hI _ => reachesOthers_iff hI e) es p (presenceInv_start h)
    (along_of_mem presenceSystem es p (fun _ _ => trivial))

/-- `ann` and another client log in, then `ann` sends a line to all. -/
def greetAll (other : String) : List PresenceEvent :=
  connects 1 4 "LOGIN: ann\n" ++ connects 2 5 other
    ++ [.call (.fetch 1 64 [.bytes (ascii "TO-ALL: hi\n")])]

theorem broadcast_greetAll : Along presenceSystem ReachesOthers freshPresence
    (greetAll "LOGIN: bob\n" ++ [.line 1 nulSurround]) := by
  refine (broadcast_iff freshPresence_start _).mpr (along_of_checkRun _ ?_)
  decide +kernel

/-- The last line to all changes nothing in the writing buffer of the other. -/
def missesOther (p : Presence) : Bool :=
  decide ((1 : PClientInfo) ∈ p.run.server.clients
    ∧ (fetchMsgFromClient p.run.server.mem nulSurround.afterCache 1).ret > 0
    ∧ toAllText (roundLine p.run.server 1 nulSurround) = some (ascii "hi")
    ∧ (2 : PClientInfo) ∈ p.run.server.clients ∧ Other p 1 2
    ∧ (afterRound p.run.server 1 nulSurround).mem.writing 2
      = p.run.server.mem.writing 2)

theorem not_along_of_missesOther {other : String}
    (hrun : ((runFrom presenceSystem freshPresence (greetAll other)).any
      missesOther) = true) :
    ¬ Along presenceSystem ReachesOthers freshPresence
      (greetAll other ++ [.line 1 nulSurround]) := by
  intro h
  obtain ⟨p, hp, hd⟩ := (Option.any_eq_true _ _).mp hrun
  obtain ⟨h1, hret, htext, h2, hd, hsame⟩ := of_decide_eq_true hd
  have hcopy := (((along_append presenceSystem).mp h).2 p hp).1 (ascii "hi")
    ⟨h1, hret, htext⟩
  have hlen := congrArg List.length ((hcopy.1 2 h2 hd).symm.trans hsame)
  rw [List.length_append, length_peerText] at hlen
  omega

/-- The other client is called `ann` too, or `unknown`: it gets nothing. -/
theorem broadcast_misses :
    ¬ Along presenceSystem ReachesOthers freshPresence
        (greetAll "LOGIN: ann\n" ++ [.line 1 nulSurround])
      ∧ ¬ Along presenceSystem ReachesOthers freshPresence
        (greetAll "LOGIN: unknown\n" ++ [.line 1 nulSurround]) :=
  ⟨not_along_of_missesOther (by decide +kernel),
    not_along_of_missesOther (by decide +kernel)⟩

end IMBroadcast

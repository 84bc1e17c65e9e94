import Mathlib.Data.Nat.Find
import IMServer.Routing

/-! # The client — `IMClient.c`, the branch for the standard input

    The client forwards a typed line as it is when it looks like a private
    message, and puts `TO-ALL: ` in front of it otherwise.  It ends the recipient
    at the first `": "`, the server at the first colon; `client_server_agree_iff`
    says when the two read the same. -/

namespace IMClient

open IMBytes IMCString IMMachineInt IMCachePool IMBufferQueue IMClientInfo
  IMMessage IMMessageFormat IMServerInfo IMDelivery IMDispatch IMServerRun
  IMRouting IMTransition

/-- `CACHE_SIZE` of the client. -/
def cacheSize : Nat := 1024

/-- `MSG_PREFIX_INDICATOR " "`. -/
def indicator : List UInt8 := msgPrefixIndicator ++ ascii " "

/-- The branch of `main` for the standard input: `read` delivers `typed`, as much
    of it as there is room for, and the result is what `write` gets. -/
def stdinBranch (typed : List UInt8) : List UInt8 :=
  let cmdLen := strlen cmdToAll
  let bytes := typed.take (cacheSize - cmdLen - 1)
  let buff := overwrite (List.replicate cacheSize 0) (cmdLen + 1) bytes
  let readSize := bytes.length
  let startReadPos := buff.drop (cmdLen + 1)
  let validName := match strstr startReadPos indicator with
    | none => false
    | some indicatorPos =>
        decide (strstr startReadPos cmdToC = some 0
          ∧ indicatorPos < strlen cmdToC + clientNameMaximumSize)
  if validName then startReadPos.take readSize
  else
    (strncpy buff (cmdToAll ++ ascii " ") (cmdLen + 1)).take
      (readSize + cmdLen + 1)

/-! ## What the client sends -/

/-- `typed` is a private message: a recipient of less than 30 bytes between the
    command and the first `": "`. -/
structure PrivateLine (typed rcpt text : List UInt8) : Prop where
  line : typed = cmdToC ++ rcpt ++ indicator ++ text ++ [10]
  first : ¬ indicator <:+: rcpt
  short : rcpt.length < 30

/-- The buffer with the typed bytes in it. -/
theorem buff_eq {bytes : List UInt8} (hlen : bytes.length ≤ 1016) :
    overwrite (List.replicate cacheSize (0 : UInt8)) 8 bytes
      = List.replicate 8 0
        ++ (bytes ++ List.replicate (1016 - bytes.length) 0) := by
  have hsplit : List.replicate cacheSize (0 : UInt8)
      = List.replicate 8 0 ++ List.replicate 1016 0 := by
    rw [List.replicate_append_replicate]
    rfl
  have hover : overwrite (List.replicate 8 (0 : UInt8)
      ++ List.replicate 1016 0) (List.replicate 8 (0 : UInt8)).length bytes
      = (List.replicate 8 0 ++ bytes)
        ++ List.replicate (1016 - bytes.length) 0 :=
    overwrite_append_replicate hlen
  rw [List.length_replicate] at hover
  rw [hsplit, hover, List.append_assoc]

/-- The test of the client: the bytes begin with the command, and a `": "` ends
    the recipient in time. -/
def PrivateForm (m : List UInt8) : Prop :=
  cmdToC <+: cstr m
    ∧ ∃ i < strlen cmdToC + clientNameMaximumSize, indicator <+: (cstr m).drop i

instance (m : List UInt8) : Decidable (PrivateForm m) :=
  inferInstanceAs (Decidable (_ ∧ ∃ i < _, _))

theorem privateForm_test (m : List UInt8) :
    (match strstr m indicator with
      | none => false
      | some indicatorPos => decide (strstr m cmdToC = some 0
          ∧ indicatorPos < strlen cmdToC + clientNameMaximumSize)) = true
      ↔ PrivateForm m := by
  rw [PrivateForm, ← strstr_eq_zero]
  cases hs : strstr m indicator with
  | none =>
      refine iff_of_false (by simp) ?_
      rintro ⟨-, i, -, hi⟩
      obtain ⟨j, hj⟩ := strstr_isSome (by decide) hi
      rw [hs] at hj
      cases hj
  | some j =>
      obtain ⟨hat, hbefore⟩ := strstr_eq_some hs
      rw [decide_eq_true_iff]
      refine and_congr_right fun _ => ⟨fun hlt => ⟨j, hlt, hat⟩, ?_⟩
      rintro ⟨i, hlt, hi⟩
      by_contra hge
      exact hbefore i (by omega) hi

/-- Blank memory behind the bytes does not matter. -/
theorem privateForm_blank (m : List UInt8) (n : Nat) :
    PrivateForm (m ++ List.replicate n 0) ↔ PrivateForm m := by
  have hcstr : cstr (m ++ List.replicate n 0) = cstr m := by
    by_cases hz : (0 : UInt8) ∈ m
    · obtain ⟨pre, post, rfl, hpre⟩ := List.eq_append_cons_of_mem hz
      rw [List.append_assoc, List.cons_append, cstr_append_zero hpre,
        cstr_append_zero hpre]
    · rw [cstr_append hz, cstr_replicate_zero, List.append_nil, cstr_of_notMem hz]
  rw [PrivateForm, PrivateForm, hcstr]

/-- **WHAT THE CLIENT WRITES** for any bytes it reads: those of private form as
    they are, all others with `TO-ALL: ` in front. -/
theorem stdinBranch_eq {bytes : List UInt8} (hlen : bytes.length ≤ 1016) :
    stdinBranch bytes
      = if PrivateForm bytes then bytes else cmdToAll ++ 32 :: bytes := by
  have h7 : strlen cmdToAll = 7 := by decide
  have hbuff := buff_eq hlen
  have htest := (privateForm_test (bytes
    ++ List.replicate (1016 - bytes.length) 0)).trans (privateForm_blank bytes _)
  generalize List.replicate (1016 - bytes.length) (0 : UInt8) = rest
    at hbuff htest
  have hdrop : (List.replicate 8 (0 : UInt8) ++ (bytes ++ rest)).drop 8
      = bytes ++ rest := rfl
  have hcopy : strncpy (List.replicate 8 0 ++ (bytes ++ rest))
      (cmdToAll ++ ascii " ") 8 = cmdToAll ++ 32 :: (bytes ++ rest) := rfl
  rw [stdinBranch]
  simp only [h7, show cacheSize - 7 - 1 = 1016 from rfl,
    show 7 + 1 = 8 from rfl, List.take_of_length_le hlen, hbuff, hdrop, hcopy]
  by_cases hp : PrivateForm bytes
  · rw [if_pos (htest.mpr hp), if_pos hp]
    exact List.take_left
  · rw [if_neg (mt htest.mp hp), if_neg hp,
      show cmdToAll ++ 32 :: (bytes ++ rest) = (cmdToAll ++ 32 :: bytes) ++ rest
        from by simp]
    refine List.take_left' ?_
    rw [List.length_append, List.length_cons, show cmdToAll.length = 7 from rfl]
    omega

/-- An occurrence in `xs` is an infix. -/
theorem infix_of_drop {xs pat : List UInt8} {j : Nat}
    (h : pat <+: xs.drop j) : pat <:+: xs :=
  h.isInfix.trans (List.drop_suffix j xs).isInfix

/-- The first `": "` of a private message ends the recipient. -/
theorem first_indicator {rcpt : List UInt8} (h : ¬ indicator <:+: rcpt)
    (rest : List UInt8) :
    ∀ j < 5 + rcpt.length,
      ¬ indicator <+: (cmdToC ++ rcpt ++ indicator ++ rest).drop j := by
  intro j hj hpre
  by_cases h5 : j < 5
  · -- the command has no colon
    obtain ⟨t, ht⟩ := hpre
    have hget : (cmdToC ++ rcpt ++ indicator ++ rest)[j]? = some 58 := by
      rw [← List.head?_drop, ← ht]
      rfl
    rw [List.append_assoc, List.append_assoc, List.getElem?_append_left h5]
      at hget
    exact absurd (List.mem_of_getElem? hget) (by decide)
  · obtain ⟨k, rfl⟩ := Nat.exists_eq_add_of_le (Nat.le_of_not_lt h5)
    have hdrop : (cmdToC ++ rcpt ++ indicator ++ rest).drop (5 + k)
        = rcpt.drop k ++ (58 :: 32 :: rest) := by
      rw [← List.drop_drop, List.append_assoc, List.append_assoc,
        show (5 : Nat) = cmdToC.length from rfl, List.drop_left,
        List.drop_append_of_le_length (by omega)]
      rfl
    rw [hdrop] at hpre
    obtain ⟨t, ht⟩ := hpre
    have ht' : 58 :: 32 :: t = rcpt.drop k ++ (58 :: 32 :: rest) := ht
    cases hk : rcpt.drop k with
    | nil =>
        have := congrArg List.length hk
        rw [List.length_drop, List.length_nil] at this
        omega
    | cons a l =>
        rw [hk, List.cons_append] at ht'
        obtain ⟨rfl, hl⟩ := List.cons.inj ht'
        cases l with
        | nil => exact absurd (List.cons.inj hl).1 (by decide)
        | cons b l =>
            obtain ⟨rfl, -⟩ := List.cons.inj hl
            exact h (infix_of_drop (j := k) (by rw [hk]; exact ⟨l, rfl⟩))

theorem PrivateLine.prefix_drop {typed rcpt text : List UInt8}
    (h : PrivateLine typed rcpt text) :
    indicator <+: typed.drop (5 + rcpt.length) := by
  rw [h.line, List.append_assoc (cmdToC ++ rcpt ++ indicator),
    List.append_assoc (cmdToC ++ rcpt), show 5 + rcpt.length
      = (cmdToC ++ rcpt).length from by rw [List.length_append]; rfl,
    List.drop_left]
  exact List.prefix_append _ _

theorem PrivateLine.not_before {typed rcpt text : List UInt8}
    (h : PrivateLine typed rcpt text) :
    ∀ j < 5 + rcpt.length, ¬ indicator <+: typed.drop j := by
  have hfirst := first_indicator h.first (text ++ [10])
  rw [← List.append_assoc, ← h.line] at hfirst
  exact hfirst

/-- A line has one reading as a private message. -/
theorem PrivateLine.unique {typed rcpt rcpt' text text' : List UInt8}
    (h : PrivateLine typed rcpt text) (h' : PrivateLine typed rcpt' text') :
    rcpt = rcpt' ∧ text = text' := by
  have hle : ∀ {r r' t t' : List UInt8}, PrivateLine typed r t →
      PrivateLine typed r' t' → r.length ≤ r'.length := by
    intro r r' t t' hr hr'
    by_contra hlt
    exact hr.not_before (5 + r'.length) (by omega) hr'.prefix_drop
  have hlen := Nat.le_antisymm (hle h h') (hle h' h)
  have heq := h.line.symm.trans h'.line
  simp only [List.append_assoc] at heq
  obtain ⟨hr, ht⟩ := List.append_inj (List.append_cancel_left heq) hlen
  exact ⟨hr, List.append_cancel_right (List.append_cancel_left ht)⟩

/-- The tests of the client succeed on private messages only. -/
theorem private_of_indicator {typed body : List UInt8} {i : Nat}
    (hbody : typed = body ++ [10]) (hto : cmdToC <+: typed)
    (hi : indicator <+: typed.drop i)
    (hbefore : ∀ j < i, ¬ indicator <+: typed.drop j) (hlt : i < 35) :
    ∃ rcpt text, PrivateLine typed rcpt text := by
  obtain ⟨post, hpost⟩ := hi
  have hsplit : typed = typed.take i ++ (indicator ++ post) := by
    rw [hpost, List.take_append_drop]
  have hile : i ≤ typed.length := by
    by_contra hgt
    rw [List.drop_of_length_le (by omega)] at hpost
    cases hpost
  have hlen : (typed.take i).length = i := by
    rw [List.length_take, Nat.min_eq_left hile]
  -- the colon of the indicator stands behind the command
  have h5 : 5 ≤ i := by
    by_contra hi5
    obtain ⟨t, ht⟩ := hto
    have hget : typed[i]? = some 58 := by
      rw [← List.head?_drop, ← hpost]
      rfl
    rw [← ht, List.getElem?_append_left (by
      rw [show cmdToC.length = 5 from rfl]
      omega)] at hget
    exact absurd (List.mem_of_getElem? hget) (by decide)
  obtain ⟨rcpt, hrcpt⟩ : cmdToC <+: typed.take i :=
    List.prefix_of_prefix_length_le hto (List.take_prefix i typed) (by
      rw [hlen]
      exact h5)
  have hrlen := congrArg List.length hrcpt
  rw [List.length_append, hlen, show cmdToC.length = 5 from rfl] at hrlen
  -- the newline is the last byte of what follows
  obtain ⟨text, rfl⟩ : ∃ text, post = text ++ [10] := by
    rcases List.eq_nil_or_concat post with rfl | ⟨text, b, rfl⟩
    · have hlast := congrArg List.getLast? (hbody.symm.trans hsplit)
      rw [List.append_nil, List.getLast?_concat, List.getLast?_append] at hlast
      cases hlast
    · have hlast := congrArg List.getLast? (hbody.symm.trans hsplit)
      rw [List.concat_eq_append, ← List.append_assoc, ← List.append_assoc,
        List.getLast?_concat, List.getLast?_concat] at hlast
      rw [List.concat_eq_append, Option.some.inj hlast]
      exact ⟨text, rfl⟩
  have hline : typed = cmdToC ++ rcpt ++ indicator ++ text ++ [10] := by
    rw [hrcpt, List.append_assoc, List.append_assoc]
    exact hsplit
  refine ⟨rcpt, text, hline, ?_, by omega⟩
  rintro ⟨l, r, hlr⟩
  refine hbefore (5 + l.length) ?_ ⟨r ++ indicator ++ text ++ [10], ?_⟩
  · have := congrArg List.length hlr
    rw [List.length_append, List.length_append,
      show indicator.length = 2 from rfl] at this
    omega
  · rw [hline, ← hlr, show cmdToC ++ (l ++ indicator ++ r) ++ indicator ++ text
        ++ [10] = (cmdToC ++ l) ++ (indicator ++ (r ++ indicator ++ text ++ [10]))
        from by simp,
      show 5 + l.length = (cmdToC ++ l).length from by
        rw [List.length_append]
        rfl, List.drop_left]

/-- A line is of private form when it is a private message. -/
theorem privateForm_iff {typed body : List UInt8}
    (hbody : typed = body ++ [10]) (hz : (0 : UInt8) ∉ typed) :
    PrivateForm typed ↔ ∃ rcpt text, PrivateLine typed rcpt text := by
  have h5 : strlen cmdToC + clientNameMaximumSize = 35 := by decide
  rw [PrivateForm, cstr_of_notMem hz, h5]
  constructor
  · rintro ⟨hto, hex⟩
    have hfirst := Nat.find_spec hex
    refine private_of_indicator hbody hto hfirst.2 ?_ hfirst.1
    exact fun j hj hpre => Nat.find_min hex hj ⟨hj.trans hfirst.1, hpre⟩
  · rintro ⟨rcpt, text, h⟩
    have hshort := h.short
    refine ⟨?_, 5 + rcpt.length, by omega, h.prefix_drop⟩
    rw [h.line]
    simp only [List.append_assoc]
    exact List.prefix_append _ _

/-- **WHAT THE CLIENT SENDS**: a private message as it is, every other line with
    `TO-ALL: ` in front. -/
theorem stdinBranch_spec {typed body : List UInt8}
    (hbody : typed = body ++ [10]) (hz : (0 : UInt8) ∉ typed)
    (hlen : typed.length ≤ 1016) :
    (∀ rcpt text, PrivateLine typed rcpt text → stdinBranch typed = typed)
      ∧ ((¬ ∃ rcpt text, PrivateLine typed rcpt text) →
        stdinBranch typed = cmdToAll ++ 32 :: typed) := by
  rw [stdinBranch_eq hlen]
  refine ⟨fun rcpt text h => ?_, fun hnone => ?_⟩
  · exact if_pos ((privateForm_iff hbody hz).mpr ⟨rcpt, text, h⟩)
  · exact if_neg (mt (privateForm_iff hbody hz).mp hnone)

/-! ## What the server reads -/

/-- The dispatch of a line makes a message of `c` to `target` with this text. -/
def ParsedAs (s : ServerInfo) (c : PClientInfo) (env : Surround)
    (line target text : List UInt8) : Prop :=
  ∃ msg, (dispatchMsg s c env (line ++ env.afterLine)).1 = some msg
    ∧ PeerMsg (nameOf s.mem c) target text msg

/-- Client and server read a typed line alike: a private message goes to its
    recipient, every other line to all, whole. -/
structure Agrees (s : ServerInfo) (c : PClientInfo) (env : Surround)
    (typed : List UInt8) : Prop where
  toC : ∀ rcpt text, PrivateLine typed rcpt text →
    ParsedAs s c env (stdinBranch typed) rcpt text
  toAll : (¬ ∃ rcpt text, PrivateLine typed rcpt text) →
    ParsedAs s c env (stdinBranch typed) cmdToAll typed.dropLast

theorem PeerMade.parsedAs {s : ServerInfo} {c : PClientInfo} {env : Surround}
    {line target text : List UInt8}
    (h : PeerMade s c target text (dispatchMsg s c env (line ++ env.afterLine)))
    (hnf : NoFail s.pool) : ParsedAs s c env line target text := by
  cases hm : (dispatchMsg s c env (line ++ env.afterLine)).1 with
  | none => exact absurd hm (h.made hnf)
  | some msg => exact ⟨msg, hm, h.peer msg hm⟩

/-- The server ends the recipient at the first colon. -/
theorem private_parsedAs {s : ServerInfo} {c : PClientInfo} (h : ServerInv s)
    (hc : c ∈ s.clients) (hnf : NoFail s.pool) (env : Surround) {x : UInt8}
    {rcpt text line : List UInt8} (hl : IsLine line) (hlen : line.length ≤ 1023)
    (h58 : (58 : UInt8) ∉ rcpt) (hrcpt : rcpt.length < 30)
    (hline : line = cmdToC ++ rcpt ++ 58 :: x :: text ++ [10]) :
    ParsedAs s c env line rcpt text := by
  obtain ⟨h10, hz, -⟩ := isLine_parts hl hline
  have htext : ∀ b, b ∈ text → b ∈ cmdToC ++ rcpt ++ 58 :: x :: text :=
    fun b hm => List.mem_append_right _
      (List.mem_cons_of_mem 58 (List.mem_cons_of_mem x hm))
  have hsplit : line ++ env.afterLine
      = cmdToC ++ rcpt ++ 58 :: x :: (text ++ 10 :: env.afterLine) := by
    rw [hline]
    simp
  have hbound := env.bounded
  refine PeerMade.parsedAs ?_ hnf
  rw [hsplit]
  refine dispatchMsg_toC h.heap (h.name c hc) env x env.afterLine h58
    (fun hm => hz (List.mem_append_left _ (List.mem_append_right _ hm))) hrcpt
    (fun hm => h10 (htext _ hm)) (fun hm => hz (htext _ hm)) ?_
  rw [← hsplit, List.length_append]
  omega

/-- The text of a message to all is all that was typed. -/
theorem broadcast_parsedAs {s : ServerInfo} {c : PClientInfo} (h : ServerInv s)
    (hc : c ∈ s.clients) (hnf : NoFail s.pool) (env : Surround)
    {body : List UInt8} (h10 : (10 : UInt8) ∉ body) (hz : (0 : UInt8) ∉ body)
    (hlen : body.length ≤ 1014) :
    ParsedAs s c env (cmdToAll ++ 32 :: (body ++ [10])) cmdToAll body := by
  have hsplit : cmdToAll ++ 32 :: (body ++ [10]) ++ env.afterLine
      = cmdToAll ++ 32 :: (body ++ 10 :: env.afterLine) := by simp
  have hbound := env.bounded
  refine PeerMade.parsedAs ?_ hnf
  rw [hsplit]
  refine dispatchMsg_toAll h.heap (h.name c hc) env 32 env.afterLine h10 hz ?_
  rw [List.length_append, List.length_cons]
  omega

/-- **CLIENT AND SERVER AGREE, EXACTLY**: on a typed line of at most 1015 bytes
    they do if and only if the line is no private message to a recipient with a
    colon in it. -/
theorem client_server_agree_iff {s : ServerInfo} {c : PClientInfo}
    (h : ServerInv s) (hc : c ∈ s.clients) (hnf : NoFail s.pool)
    (env : Surround) {typed : List UInt8} (hl : IsLine typed)
    (hlen : typed.length ≤ 1015) :
    Agrees s c env typed
      ↔ ∀ rcpt text, PrivateLine typed rcpt text → (58 : UInt8) ∉ rcpt := by
  obtain ⟨body, hbody, h10, hz⟩ := id hl
  obtain ⟨-, -, hzt⟩ := isLine_parts hl hbody
  obtain ⟨hprivate, hother⟩ := stdinBranch_spec hbody hzt
    (Nat.le_succ_of_le hlen)
  constructor
  · intro hagree rcpt text hp h58
    obtain ⟨msg, hmsg, hpeer⟩ := hagree.toC rcpt text hp
    rw [hprivate rcpt text hp] at hmsg
    -- the server stops at the first colon of the recipient
    obtain ⟨pre, post, rfl, hpre⟩ := List.eq_append_cons_of_mem h58
    have hshort := hp.short
    rw [List.length_append] at hshort
    obtain ⟨x, text', hx⟩ := List.exists_cons_of_ne_nil
      (show post ++ indicator ++ text ≠ [] by simp [indicator, ascii])
    have hline : typed = cmdToC ++ pre ++ 58 :: x :: text' ++ [10] := by
      rw [← hx, hp.line]
      simp only [List.append_assoc, List.cons_append]
    obtain ⟨msg', hmsg', hpeer'⟩ := private_parsedAs h hc hnf env hl (by omega)
      hpre (by omega) hline
    obtain rfl := Option.some.inj (hmsg.symm.trans hmsg')
    have htarget := congrArg List.length (hpeer.target.symm.trans hpeer'.target)
    rw [List.length_append, List.length_cons] at htarget
    omega
  · intro hno
    refine ⟨fun rcpt text hp => ?_, fun hnone => ?_⟩
    · rw [hprivate rcpt text hp]
      refine private_parsedAs (x := 32) h hc hnf env hl (by omega)
        (hno rcpt text hp) hp.short ?_
      rw [hp.line]
      simp [indicator, msgPrefixIndicator, ascii]
    · rw [hother hnone, hbody, List.dropLast_concat]
      rw [hbody, List.length_append, List.length_singleton] at hlen
      exact broadcast_parsedAs h hc hnf env h10 hz (by omega)

theorem client_server_agree_bob :
    ∃ r, runFrom serverSystem freshServer connected = some r
      ∧ Agrees r.server 1 bareSurround (ascii "TO-C-bob: hi\n") := by
  obtain ⟨r, hr, hinv, hc, hnf⟩ := connected_ready
  refine ⟨r, hr, (client_server_agree_iff hinv hc hnf bareSurround
    ⟨ascii "TO-C-bob: hi", by decide⟩ (by decide)).mpr ?_⟩
  intro rcpt text h
  have hbob : PrivateLine (ascii "TO-C-bob: hi\n") (ascii "bob") (ascii "hi") :=
    ⟨by decide, by decide, by decide⟩
  rw [(h.unique hbob).1]
  decide

/-- The client takes `a:b` for the recipient, the server `a`. -/
theorem client_server_disagree :
    ∃ r, runFrom serverSystem freshServer connected = some r
      ∧ ¬ Agrees r.server 1 bareSurround (ascii "TO-C-a:b: hi\n") := by
  have hrun : ((runFrom serverSystem freshServer connected).any fun r =>
      (dispatchMsg r.server 1 bareSurround
        (stdinBranch (ascii "TO-C-a:b: hi\n"))).1.all fun msg =>
          decide (cstr msg.target = ascii "a")) = true := by decide +kernel
  obtain ⟨r, hr, hp⟩ := (Option.any_eq_true _ _).mp hrun
  refine ⟨r, hr, fun hagree => ?_⟩
  obtain ⟨msg, hmsg, hpeer⟩ := hagree.toC (ascii "a:b") (ascii "hi")
    ⟨by decide, by decide, by decide⟩
  have hnil : (bareSurround).afterLine = [] := rfl
  rw [hnil, List.append_nil] at hmsg
  rw [hmsg, Option.all_some] at hp
  exact absurd (hpeer.target.symm.trans (of_decide_eq_true hp)) (by decide)

end IMClient

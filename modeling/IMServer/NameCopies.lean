import IMServer.Presence

/-! # Names in arrays — the strings copied into fixed fields

    `ClientInfo.name`, `Msg.target` and `Msg.exclude` have room for 30 bytes.
    Three of the strings copied there are cut to that size or checked by the code
    that stored them; the target of a `TO-C-` line is neither.  `names_fit_iff`
    says which lines keep every copy inside its array. -/

namespace IMNameCopies

open IMBytes IMCString IMMachineInt IMCachePool IMBuffer IMBufferQueue IMClientInfo
  IMLineFraming IMMessage IMMessageFormat IMServerInfo IMDelivery IMDispatch
  IMServerRun IMRouting IMPresence IMTransition

/-! ## The copies -/

/-- The arrays of `CLIENT_NAME_MAXIMUM_SIZE` bytes. -/
inductive NameField where
  | name
  | target
  | exclude

/-- A string copied into such an array; `source` is the block it is copied from,
    from the pointer on. -/
structure NameCopy where
  field : NameField
  source : List UInt8
  string : List UInt8

/-- The string ends in its block, and has room in the array with its NUL byte. -/
def NameCopy.Fits (copy : NameCopy) : Prop :=
  0 ∈ copy.source ∧ copy.string.length + 1 ≤ clientNameMaximumSize

/-- The copies that make a message complete. -/
def messageCopies (message : Option Msg) (target after exclude : List UInt8) :
    List NameCopy :=
  match message with
  | none => []
  | some _ => [⟨.target, target, cstr (target ++ after)⟩,
      ⟨.exclude, exclude, cstr exclude⟩]

/-- The copies of `user_login`: the name, and those of the notice. -/
def loginCopies (s : ServerInfo) (c : PClientInfo) (env : Surround)
    (line : List UInt8) : List NameCopy :=
  let cmdSize := strlen cmdLogin
  let msg := cutAtEdge (line ++ env.afterLine)
  let nameLength := cInt (minSizeT (strlen (msg.drop cmdSize))
    (clientNameMaximumSize - 1))
  let r := userLogin s c env.junk (line ++ env.afterLine)
  ⟨.name, (msg.take line.length).drop cmdSize,
      (cstr (msg.drop cmdSize)).take nameLength.toNat⟩
    :: messageCopies r.1 (cmdToAll ++ [0]) [] (r.2.mem.info c).name

/-- The copies of one line: those of the branch `try_to_handle_msg` takes. -/
def dispatchCopies (s : ServerInfo) (c : PClientInfo) (env : Surround)
    (line : List UInt8) : List NameCopy :=
  let msg := line ++ env.afterLine
  let message := (dispatchMsg s c env msg).1
  if strstr msg cmdLogin = some 0 then loginCopies s c env line
  else if strstr msg cmdToAll = some 0 then
    messageCopies message (cmdToAll ++ [0]) [] (s.mem.info c).name
  else if strstr msg cmdToC = some 0 then
    match strchr msg 58 with
    | none => []
    | some indicator =>
        match buildTarget s.pool msg indicator with
        | (none, _) => []
        | (some cache, p) =>
            messageCopies message (p.mem cache).buff (env.afterCache cache)
              (s.mem.info c).name
  else []

/-- The copies of `user_logout`. -/
def logoutCopies (s : ServerInfo) (c : PClientInfo)
    (junk : List UInt8 × List UInt8) : List NameCopy :=
  messageCopies (logoutNotice s c junk) (cmdToAll ++ [0]) []
    ((removeClient s c).mem.info c).name

/-! ## The other fields of a message -/

/-- The block of a message after the copies: `target` stands at its start and
    `exclude` behind that. -/
def storeCopies (block : List UInt8) (copies : List NameCopy) : List UInt8 :=
  copies.foldl (fun block copy => match copy.field with
    | .name => block
    | .target => overwrite block 0 (copy.string ++ [0])
    | .exclude => overwrite block clientNameMaximumSize (copy.string ++ [0]))
    block

/-- What stands behind the arrays, `size` and `content`, is not written. -/
def FieldsKept (copies : List NameCopy) : Prop :=
  ∀ block : List UInt8, 2 * clientNameMaximumSize ≤ block.length →
    (storeCopies block copies).drop (2 * clientNameMaximumSize)
      = block.drop (2 * clientNameMaximumSize)

theorem drop_overwrite {block bytes : List UInt8} {off k : Nat}
    (hoff : off + bytes.length ≤ k) (hk : k ≤ block.length) :
    (overwrite block off bytes).drop k = block.drop k := by
  have hlen : (block.take off ++ bytes).length ≤ k := by
    rw [List.length_append, List.length_take]
    omega
  rw [overwrite, List.drop_append, List.drop_of_length_le hlen,
    List.nil_append, List.drop_drop]
  rw [List.length_append, List.length_take]
  congr 1
  omega

/-- Copies that fit leave the other fields alone. -/
theorem fieldsKept_of_fits : ∀ {copies : List NameCopy},
    (∀ copy ∈ copies, copy.Fits) → FieldsKept copies
  | [], _ => fun _ _ => rfl
  | copy :: rest, h => by
      intro block hblock
      have hrest := fieldsKept_of_fits
        (fun k hk => h k (List.mem_cons_of_mem _ hk))
      have hroom : (copy.string ++ [0]).length ≤ clientNameMaximumSize := by
        rw [List.length_append, List.length_singleton]
        exact (h copy List.mem_cons_self).2
      have hfield : ∀ off, off ≤ clientNameMaximumSize →
          (storeCopies (overwrite block off (copy.string ++ [0])) rest).drop
              (2 * clientNameMaximumSize)
            = block.drop (2 * clientNameMaximumSize) := by
        intro off hoff
        rw [hrest _ (by rw [length_overwrite (by omega)]; exact hblock),
          drop_overwrite (by omega) hblock]
      rw [storeCopies, List.foldl_cons]
      cases copy.field with
      | name => exact hrest block hblock
      | target => exact hfield 0 (Nat.zero_le _)
      | exclude => exact hfield _ (Nat.le_refl _)

/-! ## Which copies fit -/

/-- A message is made when its two allocations succeed. -/
theorem createNewMsg_none_iff (p : CachePool) (junk : List UInt8 × List UInt8)
    (size : Nat) :
    (createNewMsg p junk size).1 = none ↔ false ∈ p.mallocs.take 2 := by
  rw [createNewMsg]
  rcases hm : p.mallocs with _ | ⟨ok₁, _ | ⟨ok₂, rest⟩⟩
  · simp [malloc, hm]
  · cases ok₁ <;> simp [malloc, hm]
  · cases ok₁ <;> cases ok₂ <;> simp [malloc, hm]

theorem createP2pMsg_none_iff (p : CachePool) (junk : List UInt8 × List UInt8)
    (sender : List UInt8) (target : Option (List UInt8))
    (content : List UInt8) :
    (createP2pMsgBaseOnContent p junk sender target content).1 = none
      ↔ false ∈ p.mallocs.take 2 := by
  rw [createP2pMsg_eq, Option.map_eq_none_iff]
  exact createNewMsg_none_iff p junk _

theorem fits_of_nameOk {name : List UInt8} (h : NameOk name) (field : NameField) :
    NameCopy.Fits ⟨field, name, cstr name⟩ :=
  ⟨h.2, h.strlen_lt⟩

/-- With a name to exclude, the target decides. -/
theorem messageCopies_fit_iff {message : Option Msg}
    {target after exclude : List UInt8} (h : NameOk exclude) :
    (∀ copy ∈ messageCopies message target after exclude, copy.Fits)
      ↔ message = none ∨ NameCopy.Fits ⟨.target, target, cstr (target ++ after)⟩ := by
  cases message with
  | none => exact iff_of_true (fun _ hm => absurd hm List.not_mem_nil) (Or.inl rfl)
  | some msg =>
      rw [messageCopies, List.forall_mem_cons, List.forall_mem_singleton,
        and_iff_left (fits_of_nameOk h _)]
      exact ⟨Or.inr, fun hor => hor.resolve_left (by simp)⟩

/-- A message to all fits. -/
theorem messageCopies_toAll {message : Option Msg} {exclude : List UInt8}
    (h : NameOk exclude) :
    ∀ copy ∈ messageCopies message (cmdToAll ++ [0]) [] exclude, copy.Fits :=
  (messageCopies_fit_iff h).mpr (Or.inr ⟨by decide, by decide⟩)

/-- A login fits: the name is cut, and its line is ended by the newline. -/
theorem loginCopies_fit {s : ServerInfo} {c : PClientInfo} (h : ServerInv s)
    (hc : c ∈ s.clients) (env : Surround) {line : List UInt8} (hl : IsLine line)
    (hpre : cmdLogin <+: line) :
    ∀ copy ∈ loginCopies s c env line, copy.Fits := by
  obtain ⟨-, hname, -⟩ := userLogin_spec (c := c) h.heap (h.name c hc) env.junk
    (line ++ env.afterLine)
  rw [loginCopies]
  refine List.forall_mem_cons.mpr ⟨⟨?_, ?_⟩, messageCopies_toAll hname⟩
  · obtain ⟨text, rfl, -, -⟩ := command_line hl hpre (by decide)
    obtain ⟨h10, hz, -⟩ := isLine_parts hl rfl
    have hcut : cutAtEdge (cmdLogin ++ text ++ [10] ++ env.afterLine)
        = (cmdLogin ++ text ++ [0]) ++ env.afterLine := by
      rw [List.append_assoc (cmdLogin ++ text), List.singleton_append,
        cutAtEdge_eq h10 hz, List.append_assoc (cmdLogin ++ text),
        List.singleton_append]
    have hlen : (cmdLogin ++ text ++ [10]).length
        = (cmdLogin ++ text ++ [(0 : UInt8)]).length := by
      simp only [List.length_append, List.length_singleton]
    show 0 ∈ List.drop _ (List.take _ (cutAtEdge _))
    rw [hcut, hlen, List.take_left, List.append_assoc,
      show strlen cmdLogin = cmdLogin.length from rfl, List.drop_left]
    exact List.mem_append_right _ (List.mem_singleton.mpr rfl)
  · rw [List.length_take, minSizeT, clientNameMaximumSize]
    have hcast : ∀ n < 30, (cInt ((n : Nat) : Int)).toNat = n := by
      intro n hn
      rw [cInt_natCast (by omega), Int.toNat_natCast]
    split
    · next hlt =>
        rw [hcast _ (by omega)]
        omega
    · rw [hcast _ (by omega)]
      omega

/-! ## The target of a private line -/

/-- There is no cache for a target that is larger than every class. -/
theorem buildTarget_none_iff {p : CachePool} (hp : PoolInv p)
    (msg : List UInt8) {indicator : Nat} (h5 : 5 ≤ indicator)
    (hlt : indicator < 2 ^ 31) :
    (buildTarget p msg indicator).1 = none
      ↔ ∀ size ∈ classSizes p, size < ((indicator - 5 : Nat) : Int) := by
  rw [buildTarget_eq p msg h5 hlt]
  cases hget : getNewCache p ((indicator - 5 : Nat) : Int) with
  | mk o p' =>
      cases o with
      | none => exact iff_of_true rfl (getNewCache_none hp hget).1
      | some a =>
          have hout := getNewCache_spec hp hget
          refine iff_of_false (by simp) fun hall => ?_
          have := hall _ (List.mem_of_find?_eq_some hout.first)
          have := hout.large
          omega

/-- Up to the colon nothing is left out of the target, so the string in the cache
    is at least as long. -/
theorem buildTarget_long {p p' : CachePool} {a : Addr} {msg : List UInt8}
    {indicator : Nat} (h5 : 5 ≤ indicator) (hlt : indicator < 2 ^ 31)
    (hi : strchr msg 58 = some indicator)
    (hb : buildTarget p msg indicator = (some a, p')) (after : List UInt8) :
    indicator - 5 ≤ strlen ((p'.mem a).buff ++ after) := by
  rw [buildTarget_eq p msg h5 hlt] at hb
  cases hget : getNewCache p ((indicator - 5 : Nat) : Int) with
  | mk o p₁ =>
      rw [hget] at hb
      cases o with
      | none => cases congrArg Prod.fst hb
      | some a' =>
          obtain ⟨h1, rfl⟩ := Prod.mk.inj hb
          obtain rfl := Option.some.inj h1
          obtain ⟨pre, post, rfl, rfl, -, hz⟩ := strchr_eq_some hi
          have hz' : (0 : UInt8) ∉ pre.drop 5 := fun hm => hz (List.mem_of_mem_drop hm)
          have hcstr : cstr ((pre ++ 58 :: post).drop 5)
              = pre.drop 5 ++ cstr (58 :: post) := by
            rw [List.drop_append_of_le_length h5, cstr_append hz']
          have hbuff : ((setBuff p₁ a' (strncpy (p₁.mem a').buff
              ((pre ++ 58 :: post).drop 5) (pre.length - 5))).mem a').buff
              = strncpy (p₁.mem a').buff ((pre ++ 58 :: post).drop 5)
                (pre.length - 5) := by
            show (Function.update p₁.mem a' _ a').buff = _
            rw [Function.update_self]
          rw [hbuff, strncpy, hcstr, List.take_left' (List.length_drop ..),
            overwrite, List.take_zero, List.nil_append, List.append_assoc,
            List.append_assoc, strlen, cstr_append hz', List.length_append,
            List.length_drop]
          omega

/-- A line to one client: its target has fewer than 30 bytes, up to the first
    colon from the line on, or no message is made. -/
def TargetShort (s : ServerInfo) (env : Surround) (line : List UInt8) : Prop :=
  cmdToC <+: line → ∀ indicator ∈ strchr (line ++ env.afterLine) 58,
      indicator < strlen cmdToC + clientNameMaximumSize
      ∨ (∀ size ∈ classSizes s.pool,
          size < ((indicator - strlen cmdToC : Nat) : Int))
      ∨ false ∈ s.pool.mallocs.take 2

instance (s : ServerInfo) (env : Surround) (line : List UInt8) :
    Decidable (TargetShort s env line) :=
  inferInstanceAs (Decidable (_ → ∀ indicator ∈ _, _ ∨ _ ∨ _))

theorem targetCopies_fit_iff {s : ServerInfo} {c : PClientInfo}
    (h : ServerInv s) (hc : c ∈ s.clients) (env : Surround) {msg : List UInt8}
    {indicator : Nat} (h5 : 5 ≤ indicator) (hlt : indicator < 2 ^ 31)
    (hi : strchr msg 58 = some indicator) {p : CachePool} {a : Addr}
    (hb : buildTarget s.pool msg indicator = (some a, p)) :
    (∀ copy ∈ messageCopies (p2pMsgToTarget s c env msg indicator).1
        (p.mem a).buff (env.afterCache a) (s.mem.info c).name, copy.Fits)
      ↔ indicator < 35 ∨ false ∈ s.pool.mallocs.take 2 := by
  obtain ⟨-, hsome, hshort⟩ := buildTarget_spec (p := s.pool) h.heap.pool msg
    indicator h5 hlt
  have hmsg : (p2pMsgToTarget s c env msg indicator).1 = none
      ↔ false ∈ s.pool.mallocs.take 2 := by
    rw [← (hsome a p hb).2, ← createP2pMsg_none_iff p env.junk (s.mem.info c).name
      (some ((p.mem a).buff ++ env.afterCache a)) (msg.drop (indicator + 2)),
      p2pMsgToTarget, hb]
  rw [messageCopies_fit_iff (h.name c hc), hmsg, or_comm]
  refine or_congr_left ?_
  constructor
  · rintro ⟨-, hroom⟩
    have hlong := buildTarget_long h5 hlt hi hb (env.afterCache a)
    have hroom' : strlen ((p.mem a).buff ++ env.afterCache a) + 1 ≤ 30 := hroom
    omega
  · intro h35
    obtain ⟨a', p', hb', htarget⟩ := hshort (by omega)
    rw [hb] at hb'
    obtain ⟨h1, rfl⟩ := Prod.mk.inj hb'
    obtain rfl := Option.some.inj h1
    refine ⟨?_, ?_⟩
    · -- whatever follows the block, the string is the same
      by_contra hz
      have hnil := htarget []
      have hone := htarget [1]
      rw [cstr_append hz] at hnil hone
      have := congrArg List.length (hone.trans hnil.symm)
      simp [cstr] at this
    · show (cstr ((p.mem a).buff ++ env.afterCache a)).length + 1 ≤ 30
      rw [htarget, List.length_take]
      omega

/-- **ONE LINE**: every copy fits exactly when the target is short. -/
theorem dispatchCopies_fit_iff {s : ServerInfo} {c : PClientInfo}
    (h : ServerInv s) (hc : c ∈ s.clients) (env : Surround) {line : List UInt8}
    (hl : IsLine line) (hlen : line.length ≤ 512) :
    (∀ copy ∈ dispatchCopies s c env line, copy.Fits)
      ↔ TargetShort s env line := by
  have hname := h.name c hc
  have hother : ∀ {cmd : List UInt8}, cmd <+: line → ¬ cmd <+: cmdToC →
      ¬ cmdToC <+: cmd → TargetShort s env line :=
    fun hcmd h1 h2 htoC => absurd htoC (command_unique hcmd h1 h2)
  rw [dispatchCopies]
  simp only [strstr_command hl (show (10 : UInt8) ∉ cmdLogin by decide)
    (by decide), strstr_command hl (show (10 : UInt8) ∉ cmdToAll by decide)
    (by decide), strstr_command hl (show (10 : UInt8) ∉ cmdToC by decide)
    (by decide)]
  by_cases hlogin : cmdLogin <+: line
  · rw [if_pos hlogin]
    exact iff_of_true (loginCopies_fit h hc env hl hlogin)
      (hother hlogin (by decide) (by decide))
  rw [if_neg hlogin]
  by_cases htoAll : cmdToAll <+: line
  · rw [if_pos htoAll]
    exact iff_of_true (messageCopies_toAll hname)
      (hother htoAll (by decide) (by decide))
  rw [if_neg htoAll]
  by_cases htoC : cmdToC <+: line
  · rw [if_pos htoC]
    cases hi : strchr (line ++ env.afterLine) 58 with
    | none =>
        exact iff_of_true (fun _ hm => absurd hm List.not_mem_nil)
          fun _ i hi' => (by rw [hi] at hi'; cases hi')
    | some i =>
        obtain ⟨h5, hin⟩ := indicator_ge
          (htoC.trans (List.prefix_append _ _)) hi
        have hlt : i < 2 ^ 31 := by
          have := env.bounded
          rw [List.length_append] at hin
          omega
        have hmessage : (dispatchMsg s c env (line ++ env.afterLine)).1
            = (p2pMsgToTarget s c env (line ++ env.afterLine) i).1 := by
          rw [dispatchMsg,
            if_neg (mt (strstr_command hl (by decide) (by decide) _).mp hlogin),
            if_neg (mt (strstr_command hl (by decide) (by decide) _).mp htoAll),
            if_pos ((strstr_command hl (by decide) (by decide) _).mpr htoC), hi]
        have hnone := buildTarget_none_iff (p := s.pool) h.heap.pool
          (line ++ env.afterLine) h5 hlt
        have hshort : TargetShort s env line ↔ i < 35
            ∨ (buildTarget s.pool (line ++ env.afterLine) i).1 = none
            ∨ false ∈ s.pool.mallocs.take 2 := by
          rw [hnone]
          constructor
          · exact fun hs => hs htoC i hi
          · intro hor _ j hj
            rw [hi] at hj
            obtain rfl := Option.some.inj hj
            exact hor
        rw [hshort, hmessage]
        dsimp only
        cases hb : buildTarget s.pool (line ++ env.afterLine) i with
        | mk o p =>
            cases o with
            | none =>
                exact iff_of_true (fun _ hm => absurd hm List.not_mem_nil)
                  (Or.inr (Or.inl rfl))
            | some a =>
                refine (targetCopies_fit_iff h hc env h5 hlt hi hb).trans
                  (or_congr_right ?_)
                exact ⟨Or.inr, fun hor => hor.resolve_left (by simp)⟩
  · rw [if_neg htoC]
    exact iff_of_true (fun _ hm => absurd hm List.not_mem_nil)
      fun h => absurd h htoC

/-! ## The runs -/

/-- The copies of a list fit, and the other fields stay. -/
def AllFit (copies : List NameCopy) : Prop :=
  (∀ copy ∈ copies, copy.Fits) ∧ FieldsKept copies

/-- **EVERY COPY FITS** at a line that is handled and at a logout. -/
def CopiesFit (p : Presence) : PresenceEvent → Prop
  | .line c env =>
      c ∈ p.run.server.clients →
      (fetchMsgFromClient p.run.server.mem env.afterCache c).ret > 0 →
      AllFit (dispatchCopies (fetched p.run.server c env) c env
        (roundLine p.run.server c env))
  | .call (.logout c junk) =>
      c ∈ p.run.server.clients → AllFit (logoutCopies p.run.server c junk)
  | _ => True

/-- The target of the line that is handled is short. -/
def TargetsShort (p : Presence) : PresenceEvent → Prop
  | .line c env =>
      c ∈ p.run.server.clients →
      (fetchMsgFromClient p.run.server.mem env.afterCache c).ret > 0 →
      TargetShort (fetched p.run.server c env) env
        (roundLine p.run.server c env)
  | _ => True

instance (p : Presence) (e : PresenceEvent) : Decidable (TargetsShort p e) :=
  match e with
  | .line _ _ => inferInstanceAs (Decidable (_ → _ → TargetShort _ _ _))
  | .call _ => .isTrue trivial
  | .signal => .isTrue trivial

theorem allFit_iff {copies : List NameCopy} :
    AllFit copies ↔ ∀ copy ∈ copies, copy.Fits :=
  and_iff_left_of_imp fieldsKept_of_fits

theorem copiesFit_iff {p : Presence} (h : RunInv p.run) (e : PresenceEvent) :
    CopiesFit p e ↔ TargetsShort p e := by
  cases e with
  | signal => exact Iff.rfl
  | line c env =>
      refine forall_congr' fun hc => forall_congr' fun hret => ?_
      obtain ⟨i, hi⟩ := nextLine_of_ret h.server hc hret
      have hr := round_spec h.server hc env hi
      rw [allFit_iff]
      exact dispatchCopies_fit_iff hr.fetched hc env hr.line hr.length
  | call e =>
      cases e with
      | accept | fetch | handle | markFail | flush => exact Iff.rfl
      | logout c junk =>
          refine iff_of_true (fun hc => allFit_iff.mpr ?_) trivial
          refine messageCopies_toAll ?_
          rw [(removeClient_spec h.server hc).2.1]
          exact h.server.name c hc

/-- **NAMES FIT**: along every run, each string copied into a name, a target or an
    exclude array fits there and ends in its block, so that the length and the
    text of each message stay, if and only if each line to one client that is
    handled has a short target. -/
theorem names_fit_iff {p : Presence} (h : serverSystem.start p.run)
    (es : List PresenceEvent) :
    Along presenceSystem CopiesFit p es
      ↔ Along presenceSystem TargetsShort p es :=
  along_congr presenceSystem (I := fun p => RunInv p.run) (K := fun _ _ => True)
    (fun _ _ _ hI _ hstep => runInv_presenceStep hI hstep)
    (fun _ e hI _ => copiesFit_iff hI e) es p (runInv_start h)
    (along_of_mem presenceSystem es p (fun _ _ => trivial))

/-- A client logs in and sends one line to another client. -/
def sendsTo (target : String) : List PresenceEvent :=
  connects 1 4 "LOGIN: ann\n"
    ++ [.call (.fetch 1 64 [.bytes (ascii ("TO-C-" ++ target ++ ": hi\n"))])]

theorem names_fit_sendsTo : Along presenceSystem CopiesFit freshPresence
    (sendsTo "bob" ++ [.line 1 nulSurround]) := by
  refine (names_fit_iff freshServer_start _).mpr (along_of_checkRun _ ?_)
  decide +kernel

/-- The next line of the client overflows an array. -/
def overflows (p : Presence) : Bool :=
  decide ((1 : PClientInfo) ∈ p.run.server.clients
    ∧ (fetchMsgFromClient p.run.server.mem nulSurround.afterCache 1).ret > 0)
  && (dispatchCopies (fetched p.run.server 1 nulSurround) 1 nulSurround
    (roundLine p.run.server 1 nulSurround)).any fun copy =>
      decide (clientNameMaximumSize < copy.string.length + 1)

/-- A target of 30 bytes does not fit. -/
theorem names_overflow : serverSystem.start freshPresence.run
    ∧ ¬ Along presenceSystem CopiesFit freshPresence
      (sendsTo "abcdefghijklmnopqrstuvwxyzabcd" ++ [.line 1 nulSurround]) := by
  refine ⟨freshServer_start, fun h => ?_⟩
  have hrun : ((runFrom presenceSystem freshPresence
      (sendsTo "abcdefghijklmnopqrstuvwxyzabcd")).any overflows) = true := by
    decide +kernel
  obtain ⟨p, hp, hover⟩ := (Option.any_eq_true _ _).mp hrun
  obtain ⟨hline, hlong⟩ := Bool.and_eq_true_iff.mp hover
  obtain ⟨hc, hret⟩ := of_decide_eq_true hline
  obtain ⟨copy, hcopy, hsize⟩ := List.any_eq_true.mp hlong
  have hfit := ((((along_append presenceSystem).mp h).2 p hp).1 hc hret).1 copy hcopy
  exact absurd hfit.2 (Nat.not_le_of_lt (of_decide_eq_true hsize))

end IMNameCopies

import IMServer.Delivery

/-! # Dispatching a line

    The three commands build their message in steps that leave the buffers
    alone: allocations, and a cache that is borrowed from the pool and given
    back.  `handled_handleMsg` collects that for every line and every
    surrounding memory. -/

namespace IMDispatch

open IMBytes IMCString IMMachineInt IMCachePool IMBuffer IMBufferInvariant
  IMBufferQueue IMClientInfo IMMessage IMMessageFormat IMServerInfo IMDelivery

/-! ## Names -/

/-- A terminated name in an array of `CLIENT_NAME_MAXIMUM_SIZE` bytes. -/
def NameOk (name : List UInt8) : Prop :=
  name.length = clientNameMaximumSize ∧ (0 : UInt8) ∈ name

theorem NameOk.strlen_lt {name : List UInt8} (h : NameOk name) :
    strlen name < 30 := by
  have := IMCString.strlen_lt h.2
  rw [h.1] at this
  exact this

/-- **`update_client_name`** stores the first 29 bytes of the string. -/
theorem updateClientName_spec (info : ClientInfo) (name : List UInt8)
    (h : info.name.length = clientNameMaximumSize) :
    NameOk (updateClientName info (some name)).name
      ∧ cstr (updateClientName info (some name)).name = (cstr name).take 29 := by
  have hblank : overwrite info.name 0 (List.replicate clientNameMaximumSize 0)
      = List.replicate clientNameMaximumSize 0 := by
    rw [overwrite, List.take_zero, List.nil_append, List.length_replicate,
      Nat.zero_add, List.drop_of_length_le (Nat.le_of_eq h), List.append_nil]
  have hmin : (cInt (minSizeT (strlen name) (clientNameMaximumSize - 1))).toNat
      = min (strlen name) 29 := by
    have hlt : minSizeT (strlen name) (clientNameMaximumSize - 1)
        = min (strlen name) 29 := by
      rw [minSizeT, clientNameMaximumSize]
      by_cases hlt : strlen name < 30 - 1
      · rw [if_pos hlt]
        omega
      · rw [if_neg hlt]
        omega
    rw [hlt, cInt_natCast (by omega), Int.toNat_natCast]
  have heq : (updateClientName info (some name)).name
      = strncpy (List.replicate clientNameMaximumSize 0) name
          (min (strlen name) 29) := by
    simp only [updateClientName, updatedName, hblank, hmin]
  have hcstr : cstr (updateClientName info (some name)).name
      = (cstr name).take 29 := by
    have hc := cstr_strncpy_zeros name (n := min (strlen name) 29)
      (k := clientNameMaximumSize) (by simp only [clientNameMaximumSize]; omega)
      []
    rw [List.append_nil] at hc
    rw [heq, hc, Nat.min_comm, ← List.take_take, strlen, List.take_length]
  have hlen : (updateClientName info (some name)).name.length
      = clientNameMaximumSize := by
    rw [heq, length_strncpy (by
      rw [List.length_replicate, clientNameMaximumSize]
      omega), List.length_replicate]
  refine ⟨⟨hlen, ?_⟩, hcstr⟩
  -- a name without a NUL byte would be 30 bytes long
  by_contra hz
  rw [cstr_of_notMem hz] at hcstr
  have := congrArg List.length hcstr
  rw [hlen, List.length_take, clientNameMaximumSize] at this
  omega

/-! ## The notice of a login or logout -/

/-- `"FROM SYSTEM: <name> <suffix>\n"`. -/
def noticeText (name suffix : List UInt8) : List UInt8 :=
  sysText (name ++ ascii " " ++ suffix)

/-- The message of a notice: to all but those of that name. -/
structure Notice (junk : List UInt8 × List UInt8) (name suffix : List UInt8)
    (msg : Msg) : Prop where
  size : msg.size < 2 ^ 31
  text : (10 : UInt8) ∉ cstr name →
    msg.content.take msg.size = noticeText (cstr name) suffix
  target : cstr msg.target = cmdToAll
  exclude : cstr msg.exclude = cstr name

/-- The notice of a name that fits: a cache is borrowed, and without allocation
    failure there is a message. -/
theorem createNotice_spec {p : CachePool} (hp : PoolInv p)
    (junk : List UInt8 × List UInt8) (name suffix : List UInt8)
    (hz : (0 : UInt8) ∉ suffix) (h10 : (10 : UInt8) ∉ suffix)
    (hlen : strlen name + suffix.length + 2 ≤ 64) :
    ∃ a o p', createNotice p junk name suffix = (some a, o, p')
      ∧ Borrowed p p' a ∧ (NoFail p → o ≠ none)
      ∧ ∀ msg, o = some msg → Notice junk name suffix msg := by
  have hsuffix : strlen suffix = suffix.length := by
    rw [strlen, cstr_of_notMem hz]
  have hn : cInt (strlen name + strlen suffix + 2 : Nat)
      = (strlen name + suffix.length + 2 : Nat) := by
    rw [hsuffix]
    exact cInt_natCast (by omega)
  obtain ⟨a, p₁, hget⟩ := getNewCache_isSome (n := cInt (strlen name
    + strlen suffix + 2 : Nat)) hp (mem_classSizes 64 (by decide))
    (by rw [hn]; omega)
  have hout := getNewCache_spec hp hget
  have hroom := hout.length
  rw [hn, Int.toNat_natCast] at hroom
  have hspace : (ascii " ").length = 1 := rfl
  have hbor := (hout.borrowed hp).write
    (cstr name ++ ascii " " ++ suffix ++ [0]) (by
      simp only [List.length_append, List.length_singleton, hspace]
      rw [← strlen]
      omega)
  have htext : (0 : UInt8) ∉ cstr name ++ ascii " " ++ suffix := by
    intro hm
    rcases List.mem_append.mp hm with h1 | h2
    · rcases List.mem_append.mp h1 with h3 | h4
      · exact zero_notMem_cstr name h3
      · exact absurd h4 (by decide)
    · exact hz h2
  have hcstr : cstr ((writeCache p₁ a 0 (cstr name ++ ascii " " ++ suffix
      ++ [0])).mem a).buff = cstr name ++ ascii " " ++ suffix := by
    rw [buff_writeCache, overwrite, List.take_zero, List.nil_append,
      List.append_assoc (_ ++ suffix)]
    exact cstr_append_zero htext _
  generalize hp₂ : writeCache p₁ a 0 (cstr name ++ ascii " " ++ suffix ++ [0])
    = p₂ at hbor hcstr
  have hmal : p₂.mallocs = p.mallocs := by
    rw [← hp₂]
    exact hout.mallocs
  have hsys := createSysMsg_spec p₂ junk cmdToAll (p₂.mem a).buff (by
    rw [strlen, hcstr]
    simp only [List.length_append, hspace]
    rw [← strlen]
    omega)
  rw [createNotice]
  simp only [hget, hp₂]
  cases hc : createSysMsgBaseOnContent p₂ junk (some cmdToAll)
      (p₂.mem a).buff with
  | mk o p₃ =>
      rw [hc] at hsys
      have hfin : NoFail p → o ≠ none :=
        fun hnf => hsys.succeeds (fun ok hok => hnf ok (hmal ▸ hok))
      cases o with
      | none =>
          exact ⟨a, none, p₃, rfl, hbor.alloc hsys.pool, hfin,
            fun _ h => by cases h⟩
      | some msg =>
          refine ⟨a, _, p₃, rfl, hbor.alloc hsys.pool, (fun _ h => by cases h),
            ?_⟩
          rintro _ ⟨⟩
          have hcut := strlen_cutAtEdge_le (p₂.mem a).buff
          refine ⟨?_, ?_, ?_, cstr_strcpy _ _⟩
          · show msg.size < 2 ^ 31
            rw [hsys.size msg rfl, sysText]
            simp only [strlen, hcstr, List.length_append, hspace] at hcut hlen ⊢
            have h12 : msgSysPrefix.length = 12 := rfl
            have h1 : (ascii "\n").length = 1 := rfl
            omega
          · intro hname
            show List.take msg.size msg.content = _
            have hno : (10 : UInt8) ∉ cstr (p₂.mem a).buff := by
              rw [hcstr]
              intro hm
              rcases List.mem_append.mp hm with h1 | h2
              · rcases List.mem_append.mp h1 with h3 | h4
                · exact hname h3
                · exact absurd h4 (by decide)
              · exact h10 h2
            rw [hsys.text msg rfl, cutAtEdge_of_notMem hno, hcstr, noticeText]
          · show cstr msg.target = _
            rw [hsys.target msg rfl, cstr_strcpy]
            decide

/-! ## The commands -/

/-- **`user_login`** sets the name to the text behind the command and builds the
    notice of the new name. -/
theorem userLogin_spec {s : ServerInfo} {c : PClientInfo}
    (hh : HeapInv s.mem.heap) (hname : NameOk (s.mem.info c).name)
    (junk : List UInt8 × List UInt8) (msg : List UInt8) :
    Handled s (userLogin s c junk msg).2 c
      ∧ NameOk ((userLogin s c junk msg).2.mem.info c).name
      ∧ nameOf (userLogin s c junk msg).2.mem c
          = (cstr ((cutAtEdge msg).drop (strlen cmdLogin))).take 29
      ∧ (NoFail s.pool → (userLogin s c junk msg).1 ≠ none)
      ∧ (∀ d, (userLogin s c junk msg).2.mem.writing d = s.mem.writing d)
      ∧ ∀ m, (userLogin s c junk msg).1 = some m → Notice junk
          ((userLogin s c junk msg).2.mem.info c).name msgLoginSuffix m := by
  obtain ⟨hok, hcstr⟩ := updateClientName_spec (s.mem.info c)
    ((cutAtEdge msg).drop (strlen cmdLogin)) hname.1
  rw [userLogin]
  simp only
  generalize hinfo : updateClientName (s.mem.info c)
    (some ((cutAtEdge msg).drop (strlen cmdLogin))) = info at hok hcstr
  have hsocket : info.socketId = (s.mem.info c).socketId := by
    rw [← hinfo, updateClientName]
  have hpub : info.pub = (s.mem.info c).pub := by
    rw [← hinfo, updateClientName]
  obtain ⟨a, o, p', hnot, hbor, hsome, hmsg⟩ := createNotice_spec (p := s.pool)
    hh.pool junk info.name msgLoginSuffix (by decide)
    (by decide) (by
      have := hok.strlen_lt
      have h13 : msgLoginSuffix.length = 13 := rfl
      omega)
  -- the name changes, then the pool
  have h1 : Handled s { s with mem := s.mem.setInfo c info } c :=
    ⟨hh, fun _ => Same.refl _ _, Outside.refl _, rfl, rfl, rfl,
      fun d hd => data_setInfo_of_ne s.mem hd info, check_setInfo s.mem c info,
      (congrArg ClientInfo.socketId (info_setInfo s.mem c info)).trans hsocket,
      (congrArg ClientInfo.pub (info_setInfo s.mem c info)).trans hpub⟩
  obtain ⟨hpool, hkeeps⟩ := hbor.recycle
  obtain ⟨h2, hwriting⟩ := handled_setPool h1.heap hpool hkeeps c
  have hpool' : ServerInfo.pool { s with mem := s.mem.setInfo c info }
      = s.pool := rfl
  simp only [hpool', hnot, recycleIfAny]
  have hfin : ((ServerInfo.setPool { s with mem := s.mem.setInfo c info }
      (recycleCache p' a).2).mem.info c) = info := info_setInfo s.mem c info
  refine ⟨h1.trans h2, ?_, ?_, hsome, hwriting, ?_⟩
  · rw [hfin]
    exact hok
  · rw [nameOf, hfin]
    exact hcstr
  · intro m hm
    rw [hfin]
    exact hmsg m hm

/-- The message a line asks for: from `name` to `target`. -/
structure PeerMsg (name target text : List UInt8) (msg : Msg) : Prop where
  text : msg.content.take msg.size = peerText name text
  target : cstr msg.target = target
  exclude : cstr msg.exclude = name

/-- A message built from the name of `c` and a text of the line. -/
theorem createPeer_spec {s : ServerInfo} {c : PClientInfo}
    (hname : NameOk (s.mem.info c).name) (p : CachePool)
    (junk : List UInt8 × List UInt8) (target : List UInt8)
    (content : List UInt8) (hlen : content.length < 2 ^ 30 + 1024) :
    Allocated p (createP2pMsgBaseOnContent p junk (s.mem.info c).name
        (some target) content).2
      ∧ (NoFail p → (createP2pMsgBaseOnContent p junk (s.mem.info c).name
          (some target) content).1 ≠ none)
      ∧ ∀ msg, (createP2pMsgBaseOnContent p junk (s.mem.info c).name
          (some target) content).1 = some msg →
          msg.size < 2 ^ 31 ∧ PeerMsg (nameOf s.mem c) (cstr target)
            (cstr (cutAtEdge content)) msg := by
  have hn := hname.strlen_lt
  have hc := strlen_le content
  have hcut := strlen_cutAtEdge_le content
  have hcon := createP2pMsg_spec p junk (s.mem.info c).name target content
    (by omega)
  refine ⟨hcon.pool, hcon.succeeds, ?_⟩
  intro msg hmsg
  refine ⟨?_, hcon.text msg hmsg, ?_, ?_⟩
  · rw [hcon.size msg hmsg, length_peerText]
    simp only [strlen] at hn hc hcut
    omega
  · rw [hcon.target msg hmsg, cstr_strcpy]
  · rw [hcon.exclude msg hmsg, cstr_strcpy]
    rfl

/-- The size of a target that begins behind the command. -/
theorem buildTarget_eq (p : CachePool) (msg : List UInt8) {indicator : Nat}
    (h5 : 5 ≤ indicator) (hlt : indicator < 2 ^ 31) :
    buildTarget p msg indicator
      = match getNewCache p ((indicator - 5 : Nat) : Int) with
        | (none, p) => (none, p)
        | (some cache, p) => (some cache, setBuff p cache
            (strncpy (p.mem cache).buff (msg.drop 5) (indicator - 5))) := by
  have h5c : strlen cmdToC = 5 := by decide
  have hcast : cInt ((indicator : Int) - ((5 : Nat) : Int))
      = ((indicator - 5 : Nat) : Int) := by
    rw [show (indicator : Int) - ((5 : Nat) : Int) = ((indicator - 5 : Nat) : Int)
      from by omega]
    exact cInt_natCast (by omega)
  have hsize : sizeT ((indicator - 5 : Nat) : Int) = indicator - 5 :=
    sizeT_natCast (by omega)
  rw [buildTarget, h5c, hcast]
  cases getNewCache p ((indicator - 5 : Nat) : Int) with
  | mk o p' =>
      cases o with
      | none => rfl
      | some cache =>
          dsimp only
          rw [hsize, Int.toNat_natCast]

/-- The target is built in a borrowed cache.  For a name of less than 30 bytes
    that is one of the smallest class, and blank, so a NUL byte stands behind the
    copied name. -/
theorem buildTarget_spec {p : CachePool} (hp : PoolInv p) (msg : List UInt8)
    (indicator : Nat) (h5 : 5 ≤ indicator) (hlt : indicator < 2 ^ 31) :
    (∀ p', buildTarget p msg indicator = (none, p') → PoolInv p' ∧ Keeps p p' [])
    ∧ (∀ a p', buildTarget p msg indicator = (some a, p') →
        Borrowed p p' a ∧ p'.mallocs = p.mallocs)
    ∧ (indicator - 5 < 30 → ∃ a p', buildTarget p msg indicator = (some a, p')
        ∧ ∀ after, cstr ((p'.mem a).buff ++ after)
          = (cstr (msg.drop 5)).take (indicator - 5)) := by
  rw [buildTarget_eq p msg h5 hlt]
  obtain ⟨n, hn⟩ : ∃ n, n = indicator - 5 := ⟨_, rfl⟩
  have hbytes : ((cstr (msg.drop 5)).take n
      ++ List.replicate (n - (cstr (msg.drop 5)).length) 0).length = n := by
    rw [List.length_append, List.length_take, List.length_replicate]
    omega
  simp only [← hn]
  cases hget : getNewCache p n with
  | mk o p₁ =>
      cases o with
      | none =>
          obtain ⟨hlarge, rfl⟩ := getNewCache_none hp hget
          refine ⟨?_, (fun _ _ h => by cases h), fun hlt => ?_⟩
          · rintro p' ⟨⟩
            exact ⟨(makeSureCacheMm_spec hp).1, keeps_makeSureCacheMm hp []⟩
          · have := hlarge 64 (mem_classSizes 64 (by decide))
            omega
      | some a =>
          have hout := getNewCache_spec hp hget
          have hroom := hout.length
          rw [Int.toNat_natCast] at hroom
          have hset : setBuff p₁ a (strncpy (p₁.mem a).buff (msg.drop 5) n)
              = writeCache p₁ a 0 ((cstr (msg.drop 5)).take n
                ++ List.replicate (n - (cstr (msg.drop 5)).length) 0) := rfl
          refine ⟨(fun _ h => by cases h), ?_, fun hlt => ⟨a, _, rfl, ?_⟩⟩
          · rintro _ _ ⟨⟩
            rw [hset]
            exact ⟨(hout.borrowed hp).write _ (by rw [hbytes]; exact hroom),
              hout.mallocs⟩
          · intro after
            have hblank : (p₁.mem a).buff = List.replicate 64 0 := by
              rw [hout.blank, hout.smallest (by omega)]
              rfl
            rw [hset, buff_writeCache, hblank]
            exact cstr_strncpy_zeros _ (by omega) after

/-- The `TO-C-` branch. -/
theorem p2pMsgToTarget_spec {s : ServerInfo} {c : PClientInfo}
    (hh : HeapInv s.mem.heap) (hname : NameOk (s.mem.info c).name)
    (env : Surround) (msg : List UInt8) (indicator : Nat) (h5 : 5 ≤ indicator)
    (hi : indicator < msg.length) (hlen : msg.length < 2 ^ 30 + 1024) :
    Handled s (p2pMsgToTarget s c env msg indicator).2 c
      ∧ (p2pMsgToTarget s c env msg indicator).2.mem.data = s.mem.data
      ∧ (∀ d, (p2pMsgToTarget s c env msg indicator).2.mem.writing d
          = s.mem.writing d)
      ∧ (∀ m, (p2pMsgToTarget s c env msg indicator).1 = some m →
          m.size < 2 ^ 31)
      ∧ (indicator - 5 < 30 →
          (NoFail s.pool → (p2pMsgToTarget s c env msg indicator).1 ≠ none)
          ∧ ∀ m, (p2pMsgToTarget s c env msg indicator).1 = some m →
            PeerMsg (nameOf s.mem c) ((cstr (msg.drop 5)).take (indicator - 5))
              (cstr (cutAtEdge (msg.drop (indicator + 2)))) m) := by
  obtain ⟨hnone, hsome, hshort⟩ := buildTarget_spec (p := s.pool) hh.pool
    msg indicator h5 (by omega)
  rw [p2pMsgToTarget]
  cases hb : buildTarget s.pool msg indicator with
  | mk o p =>
      cases o with
      | none =>
          obtain ⟨hinv, hkeeps⟩ := hnone p hb
          obtain ⟨hpool, hwriting⟩ := handled_setPool hh hinv hkeeps c
          refine ⟨hpool, rfl, hwriting, (fun _ h => by cases h), fun hlt => ?_⟩
          obtain ⟨a, p', hb', -⟩ := hshort hlt
          rw [hb] at hb'
          cases congrArg Prod.fst hb'
      | some a =>
          obtain ⟨hbor, hmal⟩ := hsome a p hb
          obtain ⟨halloc, hmade, hmsg⟩ := createPeer_spec hname p env.junk
            ((p.mem a).buff ++ env.afterCache a)
            (msg.drop (indicator + 2)) (by
              rw [List.length_drop]
              omega)
          obtain ⟨hinv, hkeeps⟩ := (hbor.alloc halloc).recycle
          obtain ⟨hhandled, hwriting⟩ := handled_setPool hh hinv hkeeps c
          refine ⟨hhandled, rfl, hwriting, fun m hm => (hmsg m hm).1,
            fun hlt => ⟨fun hnf => hmade (fun ok hok => hnf ok (hmal ▸ hok)),
              fun m hm => ?_⟩⟩
          obtain ⟨a', p', hb', htarget⟩ := hshort hlt
          rw [hb] at hb'
          obtain ⟨h1, h2⟩ := Prod.mk.inj hb'
          obtain rfl := Option.some.inj h1
          subst h2
          have hpeer := (hmsg m hm).2
          exact ⟨hpeer.text, hpeer.target.trans (htarget _), hpeer.exclude⟩

/-! ## Any line -/

theorem strstr_some_zero {m pat : List UInt8} (h : strstr m pat = some 0) :
    pat <+: m :=
  (strstr_eq_zero.mp h).trans (cstr_isPrefix m)

/-- A colon in a line that starts with `TO-C-` stands behind the command. -/
theorem indicator_ge {m : List UInt8} {i : Nat} (hpre : cmdToC <+: m)
    (hi : strchr m 58 = some i) : 5 ≤ i ∧ i < m.length := by
  obtain ⟨pre, post, rfl, rfl, -, -⟩ := strchr_eq_some hi
  refine ⟨?_, ?_⟩
  · by_contra hlt
    obtain ⟨t, ht⟩ := hpre
    have h58 : (58 : UInt8) ∈ cmdToC := by
      have hget : (cmdToC ++ t)[pre.length]? = some 58 := by
        rw [ht, List.getElem?_append_right (Nat.le_refl _), Nat.sub_self]
        rfl
      rw [List.getElem?_append_left (by
        rw [show cmdToC.length = 5 from rfl]
        omega)] at hget
      exact List.mem_of_getElem? hget
    exact absurd h58 (by decide)
  · rw [List.length_append, List.length_cons]
    omega

/-- **ANY LINE**: the dispatch leaves the buffers alone, changes at most the name
    of the sender, and the message has a length the server can send. -/
theorem handled_dispatchMsg {s : ServerInfo} {c : PClientInfo}
    (hh : HeapInv s.mem.heap) (hname : NameOk (s.mem.info c).name)
    (env : Surround) {line : List UInt8} (hline : line.length ≤ 512) :
    Handled s (dispatchMsg s c env (line ++ env.afterLine)).2 c
      ∧ NameOk ((dispatchMsg s c env (line ++ env.afterLine)).2.mem.info c).name
      ∧ (∀ d, (dispatchMsg s c env (line ++ env.afterLine)).2.mem.writing d
          = s.mem.writing d)
      ∧ ∀ m, (dispatchMsg s c env (line ++ env.afterLine)).1 = some m →
          m.size < 2 ^ 31 := by
  have hlen : (line ++ env.afterLine).length < 2 ^ 30 + 1024 := by
    have := env.bounded
    rw [List.length_append]
    omega
  generalize line ++ env.afterLine = msg at *
  rw [dispatchMsg]
  by_cases hlogin : strstr msg cmdLogin = some 0
  · rw [if_pos hlogin]
    obtain ⟨h1, h2, -, -, h3, h4⟩ := userLogin_spec hh hname env.junk msg
    exact ⟨h1, h2, h3, fun m hm => (h4 m hm).size⟩
  · rw [if_neg hlogin]
    by_cases hall : strstr msg cmdToAll = some 0
    · rw [if_pos hall]
      obtain ⟨halloc, -, hmsg⟩ := createPeer_spec hname s.pool env.junk cmdToAll
        (msg.drop (strlen cmdToAll + 1)) (by
          rw [List.length_drop]
          omega)
      obtain ⟨h1, h2⟩ := handled_setPool hh (halloc.inv hh.pool)
        (halloc.keeps []) c
      exact ⟨h1, hname, h2, fun m hm => (hmsg m hm).1⟩
    · rw [if_neg hall]
      by_cases hc : strstr msg cmdToC = some 0
      · rw [if_pos hc]
        cases hi : strchr msg 58 with
        | none =>
            exact ⟨Handled.refl hh c, hname, fun _ => rfl, fun _ h => by cases h⟩
        | some i =>
            obtain ⟨h5, hlt⟩ := indicator_ge (strstr_some_zero hc) hi
            obtain ⟨h1, h2, h3, h4, -⟩ := p2pMsgToTarget_spec hh hname env _ _ h5
              hlt hlen
            refine ⟨h1, ?_, h3, h4⟩
            show NameOk ((p2pMsgToTarget s c env msg i).2.mem.data c).info.name
            rw [h2]
            exact hname
      · rw [if_neg hc]
        exact ⟨Handled.refl hh c, hname, fun _ => rfl, fun _ h => by cases h⟩

/-- A line without the login command changes no client's data. -/
theorem dispatchMsg_data {s : ServerInfo} {c : PClientInfo}
    (hh : HeapInv s.mem.heap) (hname : NameOk (s.mem.info c).name)
    (env : Surround) {msg : List UInt8} (hlen : msg.length < 2 ^ 30 + 1024)
    (hlogin : ¬ strstr msg cmdLogin = some 0) :
    (dispatchMsg s c env msg).2.mem.data = s.mem.data := by
  rw [dispatchMsg, if_neg hlogin]
  by_cases hall : strstr msg cmdToAll = some 0
  · rw [if_pos hall]
    rfl
  · rw [if_neg hall]
    by_cases hc : strstr msg cmdToC = some 0
    · rw [if_pos hc]
      cases hi : strchr msg 58 with
      | none => rfl
      | some i =>
          obtain ⟨h5, hlt⟩ := indicator_ge (strstr_some_zero hc) hi
          obtain ⟨-, hdata, -⟩ := p2pMsgToTarget_spec (c := c) hh hname env _ _ h5
            hlt hlen
          exact hdata
    · rw [if_neg hc]

/-- Every line is handled without touching a reading buffer or the list. -/
theorem handled_handleMsg {s : ServerInfo} {c : PClientInfo}
    (hh : HeapInv s.mem.heap) (hname : NameOk (s.mem.info c).name)
    (hcount : s.clientCount = s.clients.length) (hnd : s.clients.Nodup)
    (env : Surround) {line : List UInt8} (hline : line.length ≤ 512) :
    Handled s (handleMsg s c env line).2 c
      ∧ NameOk ((handleMsg s c env line).2.mem.info c).name := by
  obtain ⟨h1, h2, -, h4⟩ := handled_dispatchMsg hh hname env hline
  obtain ⟨h5, h6, -⟩ := deliverIfAny_spec h1.heap
    (by rw [h1.clientCount, h1.clients, hcount])
    (by rw [h1.clients]; exact hnd) h4 c
  refine ⟨h1.trans h5, ?_⟩
  rw [handleMsg, Clients.info, h6]
  exact h2

end IMDispatch

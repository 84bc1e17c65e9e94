import IMServer.Routing

/-! # Attribution — who a message says it is from

    Names and texts are put side by side with `": "` between them and nothing
    escaped, and a notice is what a user of the name `SYSTEM` would send
    (`sysText_eq`).  So a message does not always determine its sender;
    `attribution` says which names it takes to be mistaken for another. -/

namespace IMAttribution

open IMBytes IMCString IMMachineInt IMCachePool IMBufferInvariant IMBufferQueue
  IMClientInfo IMMessage IMMessageFormat IMServerInfo IMDelivery IMDispatch
  IMServerRun IMRouting IMTransition

/-! ## Names -/

/-- The arrays a name is stored in: `new_client_info` stores `unknown`, and
    `user_login` what stands behind the command of a line. -/
inductive StoredName : List UInt8 → Prop where
  | created (old : List UInt8) : old.length = clientNameMaximumSize →
      StoredName (updatedName old (some unknownClient))
  | login {s : ServerInfo} {c : PClientInfo} (junk : List UInt8 × List UInt8)
      (line after : List UInt8) : ServerInv s → c ∈ s.clients → IsLine line →
      cmdLogin <+: line →
      StoredName ((userLogin s c junk (line ++ after)).2.mem.info c).name

/-- **`user_login`** stores the first 29 bytes of the text. -/
theorem userLogin_name {s : ServerInfo} {c : PClientInfo} (h : ServerInv s)
    (hc : c ∈ s.clients) (junk : List UInt8 × List UInt8)
    {text : List UInt8} (after : List UInt8) (h10 : (10 : UInt8) ∉ text)
    (hz : (0 : UInt8) ∉ text) :
    NameOk ((userLogin s c junk (cmdLogin ++ text ++ [10] ++ after)).2.mem.info
        c).name
      ∧ cstr ((userLogin s c junk (cmdLogin ++ text ++ [10] ++ after)).2.mem.info
        c).name = text.take 29 := by
  obtain ⟨-, hok, hname, -⟩ := userLogin_spec (c := c) h.heap (h.name c hc) junk
    (cmdLogin ++ text ++ [10] ++ after)
  rw [show cmdLogin ++ text ++ [10] ++ after = cmdLogin ++ text ++ 10 :: after
    from by simp] at hok hname ⊢
  rw [cutAtEdge_login h10 hz after] at hname
  exact ⟨hok, hname⟩

/-- No stored name has a newline. -/
theorem storedName_spec {name : List UInt8} (h : StoredName name) :
    NameOk name ∧ (10 : UInt8) ∉ cstr name := by
  cases h with
  | created old hold =>
      obtain ⟨hok, hcstr⟩ := updateClientName_spec ⟨0, old, 0⟩ unknownClient hold
      refine ⟨hok, ?_⟩
      rw [show updatedName old (some unknownClient)
        = (updateClientName ⟨0, old, 0⟩ (some unknownClient)).name from rfl,
        hcstr]
      decide
  | login junk line after hs hc hl hpre =>
      obtain ⟨text, rfl, h10, hz⟩ := command_line hl hpre (by decide)
      obtain ⟨hok, hname⟩ := userLogin_name hs hc junk after h10 hz
      refine ⟨hok, ?_⟩
      rw [hname]
      exact fun hm => h10 (List.mem_of_mem_take hm)

/-! ## Messages -/

/-- A text as a line carries it. -/
def Text (text : List UInt8) : Prop :=
  (10 : UInt8) ∉ text ∧ (0 : UInt8) ∉ text ∧ text.length < 2 ^ 29

instance (text : List UInt8) : Decidable (Text text) :=
  inferInstanceAs (Decidable (_ ∧ _ ∧ _))

/-- The bytes of a peer message: from the stored name `name`, with the text
    `text` of a line, `after` being the memory behind it. -/
def PeerBuilt (name text bytes : List UInt8) : Prop :=
  StoredName name ∧ Text text ∧ ∃ p junk target after msg,
    after.length < 2 ^ 30
    ∧ (createP2pMsgBaseOnContent p junk name (some target)
        (text ++ 10 :: after)).1 = some msg
    ∧ bytes = msg.content.take msg.size

/-- The bytes of a login or logout notice of the stored name `name`. -/
def NoticeBuilt (name suffix bytes : List UInt8) : Prop :=
  StoredName name ∧ (suffix = msgLoginSuffix ∨ suffix = msgLogoutSuffix)
    ∧ ∃ p junk msg, PoolInv p ∧ (createNotice p junk name suffix).2.1 = some msg
      ∧ bytes = msg.content.take msg.size

/-- An untouched pool that grants every allocation. -/
def blankPool : CachePool := emptyPool (fun _ => ⟨0, 0, []⟩) (fun _ => 0) []

theorem noFail_blankPool : NoFail blankPool :=
  fun _ h => absurd h List.not_mem_nil

theorem peerBuilt_iff {name text bytes : List UInt8} :
    PeerBuilt name text bytes ↔ StoredName name ∧ Text text
      ∧ bytes = peerText (cstr name) text := by
  have hcon : StoredName name → Text text →
      ∀ (p : CachePool) (junk : List UInt8 × List UInt8)
        (target after : List UInt8), after.length < 2 ^ 30 →
        Constructed p (strcpy junk.1 target) (strcpy junk.2 name)
          (peerText (cstr name) text) (createP2pMsgBaseOnContent p junk name
            (some target) (text ++ 10 :: after)) := by
    rintro hn ⟨h10, hz, hlen⟩ p junk target after hafter
    have hname := (storedName_spec hn).1.strlen_lt
    have hle := strlen_le (text ++ 10 :: after)
    rw [List.length_append, List.length_cons] at hle
    have hspec := createP2pMsg_spec p junk name target (text ++ 10 :: after)
      (by omega)
    rw [cutAtEdge_line h10 hz] at hspec
    exact hspec
  constructor
  · rintro ⟨hn, ht, p, junk, target, after, msg, hafter, hmsg, rfl⟩
    exact ⟨hn, ht, (hcon hn ht p junk target after hafter).text msg hmsg⟩
  · rintro ⟨hn, ht, rfl⟩
    have hspec := hcon hn ht blankPool ([], []) [] [] (by decide)
    cases hm : (createP2pMsgBaseOnContent blankPool ([], []) name (some [])
        (text ++ [10])).1 with
    | none => exact absurd hm (hspec.succeeds noFail_blankPool)
    | some msg =>
        exact ⟨hn, ht, blankPool, ([], []), [], [], msg, by decide, hm,
          (hspec.text msg hm).symm⟩

theorem noticeBuilt_iff {name suffix bytes : List UInt8} :
    NoticeBuilt name suffix bytes ↔ StoredName name
      ∧ (suffix = msgLoginSuffix ∨ suffix = msgLogoutSuffix)
      ∧ bytes = noticeText (cstr name) suffix := by
  have hcon : StoredName name →
      (suffix = msgLoginSuffix ∨ suffix = msgLogoutSuffix) →
      ∀ (p : CachePool) (junk : List UInt8 × List UInt8), PoolInv p →
        (NoFail p → (createNotice p junk name suffix).2.1 ≠ none)
        ∧ ∀ msg, (createNotice p junk name suffix).2.1 = some msg →
          msg.content.take msg.size = noticeText (cstr name) suffix := by
    intro hn hsuffix p junk hp
    obtain ⟨hok, h10⟩ := storedName_spec hn
    have hname := hok.strlen_lt
    have hparts : (0 : UInt8) ∉ suffix ∧ (10 : UInt8) ∉ suffix
        ∧ suffix.length ≤ 14 := by
      rcases hsuffix with rfl | rfl
      · exact ⟨by decide, by decide, by decide⟩
      · exact ⟨by decide, by decide, by decide⟩
    obtain ⟨a, o, p', hnot, -, hmade, hmsg⟩ := createNotice_spec hp junk name
      suffix hparts.1 hparts.2.1 (by omega)
    rw [hnot]
    exact ⟨hmade, fun msg hm => (hmsg msg hm).text h10⟩
  constructor
  · rintro ⟨hn, hsuffix, p, junk, msg, hp, hmsg, rfl⟩
    exact ⟨hn, hsuffix, (hcon hn hsuffix p junk hp).2 msg hmsg⟩
  · rintro ⟨hn, hsuffix, rfl⟩
    have hpool : PoolInv blankPool := poolInv_empty _ _ _
    obtain ⟨hmade, htext⟩ := hcon hn hsuffix blankPool ([], []) hpool
    cases hm : (createNotice blankPool ([], []) name suffix).2.1 with
    | none => exact absurd hm (hmade noFail_blankPool)
    | some msg =>
        exact ⟨hn, hsuffix, blankPool, ([], []), msg, hpool, hm,
          (htext msg hm).symm⟩

/-- A client can log in under any name of at most 29 bytes. -/
theorem storedName_of {n : List UInt8} (h10 : (10 : UInt8) ∉ n)
    (hz : (0 : UInt8) ∉ n) (hlen : n.length ≤ 29) :
    ∃ stored, StoredName stored ∧ cstr stored = n := by
  obtain ⟨r, -, hinv, hc, -⟩ := connected_ready
  have hline : IsLine (cmdLogin ++ n ++ [10]) := by
    refine ⟨cmdLogin ++ n, rfl, ?_, ?_⟩
    · intro hm
      exact (List.mem_append.mp hm).elim (fun h => absurd h (by decide)) h10
    · intro hm
      exact (List.mem_append.mp hm).elim (fun h => absurd h (by decide)) hz
  refine ⟨_, .login ([], []) _ [] hinv hc hline ?_, ?_⟩
  · rw [List.append_assoc]
    exact List.prefix_append _ _
  · rw [(userLogin_name hinv hc ([], []) [] h10 hz).2,
      List.take_of_length_le hlen]

/-! ## Which names can be mistaken -/

/-- `": "` between a name and a text. -/
def delimiter : List UInt8 := msgPrefixIndicator ++ ascii " "

/-- **A NOTICE** is what a user of this name would send. -/
theorem sysText_eq (text : List UInt8) :
    sysText text = peerText (ascii "SYSTEM") text := rfl

theorem peerText_eq (name text : List UInt8) :
    peerText name text = msgPeerPrefix ++ ascii " " ++ (name ++ delimiter ++ text)
      ++ ascii "\n" := by
  simp [peerText, delimiter]

/-- Two splits of the same bytes at a delimiter: the same one, or one name goes
    on where the other ends. -/
theorem delimiter_split {a b x y : List UInt8}
    (h : a ++ delimiter ++ x = b ++ delimiter ++ y) :
    (a = b ∧ x = y) ∨ a ++ delimiter <+: b ∨ b ++ delimiter <+: a := by
  have hshort : ∀ {a b x y : List UInt8},
      a ++ delimiter ++ x = b ++ delimiter ++ y → a.length < b.length →
      a ++ delimiter <+: b := by
    intro a b x y h hlt
    rw [List.append_assoc, List.append_assoc] at h
    obtain ⟨t, rfl⟩ : a <+: b := by
      refine List.prefix_of_prefix_length_le ⟨_, rfl⟩ ⟨_, h.symm⟩ ?_
      exact Nat.le_of_lt hlt
    rw [List.append_assoc] at h
    have ht : (58 : UInt8) :: 32 :: x = t ++ (58 :: 32 :: y) :=
      List.append_cancel_left h
    -- what goes on begins with the delimiter
    cases t with
    | nil => exact absurd hlt (by simp)
    | cons c t =>
        obtain ⟨rfl, ht1⟩ := List.cons.inj ht
        cases t with
        | nil => exact absurd (List.cons.inj ht1).1 (by decide)
        | cons d t =>
            obtain ⟨rfl, -⟩ := List.cons.inj ht1
            exact ⟨t, by rw [List.append_assoc]; rfl⟩
  rcases Nat.lt_trichotomy a.length b.length with hlt | heq | hgt
  · exact Or.inr (Or.inl (hshort h hlt))
  · rw [List.append_assoc, List.append_assoc] at h
    obtain ⟨rfl, hrest⟩ := List.append_inj h heq
    exact Or.inl ⟨rfl, List.append_cancel_left hrest⟩
  · exact Or.inr (Or.inr (hshort h.symm hgt))

/-- Peer messages with equal bytes. -/
theorem peerText_split {a b x y : List UInt8}
    (h : peerText a x = peerText b y) :
    (a = b ∧ x = y) ∨ a ++ delimiter <+: b ∨ b ++ delimiter <+: a := by
  rw [peerText_eq, peerText_eq] at h
  exact delimiter_split (List.append_cancel_left (List.append_cancel_right h))

/-- Peer messages with the bytes of a notice. -/
theorem system_split {name text name' suffix : List UInt8}
    (h : peerText name text = noticeText name' suffix) :
    name = ascii "SYSTEM" ∨ ascii "SYSTEM: " <+: name := by
  rw [noticeText, sysText_eq] at h
  rcases peerText_split h with ⟨h1, -⟩ | h2 | h3
  · exact Or.inl h1
  · -- the name SYSTEM has no colon
    have hmem : (58 : UInt8) ∈ ascii "SYSTEM" := h2.subset
      (List.mem_append_right _ (by decide))
    exact absurd hmem (by decide)
  · exact Or.inr h3

/-- **ATTRIBUTION**: a peer message has the bytes of a notice only if the sender
    is called `SYSTEM` or `SYSTEM: …`, and those of another peer message only if
    it is the same, or one of the two names is the other with `": "` and more
    behind it. -/
theorem attribution {name text bytes : List UInt8}
    (h : PeerBuilt name text bytes) :
    (∀ name' suffix, NoticeBuilt name' suffix bytes →
      cstr name = ascii "SYSTEM" ∨ ascii "SYSTEM: " <+: cstr name)
    ∧ ∀ name' text', PeerBuilt name' text' bytes →
      (cstr name = cstr name' ∧ text = text')
        ∨ cstr name ++ ascii ": " <+: cstr name'
        ∨ cstr name' ++ ascii ": " <+: cstr name := by
  obtain ⟨-, -, hbytes⟩ := peerBuilt_iff.mp h
  refine ⟨fun name' suffix hnotice => ?_, fun name' text' hpeer => ?_⟩
  · obtain ⟨-, -, hbytes'⟩ := noticeBuilt_iff.mp hnotice
    exact system_split (hbytes.symm.trans hbytes')
  · obtain ⟨-, -, hbytes'⟩ := peerBuilt_iff.mp hpeer
    exact peerText_split (hbytes.symm.trans hbytes')

/-- `ann` is not the system, and her message is not that of another. -/
theorem attribution_ann : ∃ ann bytes, cstr ann = ascii "ann"
    ∧ PeerBuilt ann (ascii "hi") bytes
    ∧ (∀ name' suffix, ¬ NoticeBuilt name' suffix bytes)
    ∧ ∀ name' text', PeerBuilt name' text' bytes →
      (cstr ann = cstr name' ∧ ascii "hi" = text')
        ∨ cstr ann ++ ascii ": " <+: cstr name'
        ∨ cstr name' ++ ascii ": " <+: cstr ann := by
  obtain ⟨ann, hann, hcstr⟩ := storedName_of (n := ascii "ann") (by decide)
    (by decide) (by decide)
  have hpeer : PeerBuilt ann (ascii "hi") (peerText (cstr ann) (ascii "hi")) :=
    peerBuilt_iff.mpr ⟨hann, by decide, rfl⟩
  obtain ⟨hsystem, hother⟩ := attribution hpeer
  refine ⟨ann, _, hcstr, hpeer, fun name' suffix hnotice => ?_, hother⟩
  have hname := hsystem name' suffix hnotice
  rw [hcstr] at hname
  exact absurd hname (by decide)

/-- A user `SYSTEM` announces `ann`, and a user `a: b` speaks as `a`. -/
theorem attribution_forged :
    (∃ name name' bytes, cstr name = ascii "SYSTEM" ∧ cstr name' = ascii "ann"
      ∧ PeerBuilt name (ascii "ann is online now") bytes
      ∧ NoticeBuilt name' msgLoginSuffix bytes)
    ∧ ∃ name name' bytes, cstr name = ascii "a: b" ∧ cstr name' = ascii "a"
      ∧ PeerBuilt name (ascii "c") bytes
      ∧ PeerBuilt name' (ascii "b: c") bytes := by
  obtain ⟨system, hsystem, hsystem'⟩ := storedName_of (n := ascii "SYSTEM")
    (by decide) (by decide) (by decide)
  obtain ⟨ann, hann, hann'⟩ := storedName_of (n := ascii "ann") (by decide)
    (by decide) (by decide)
  obtain ⟨ab, hab, hab'⟩ := storedName_of (n := ascii "a: b") (by decide)
    (by decide) (by decide)
  obtain ⟨a, ha, ha'⟩ := storedName_of (n := ascii "a") (by decide)
    (by decide) (by decide)
  refine ⟨⟨system, ann, _, hsystem', hann',
      peerBuilt_iff.mpr ⟨hsystem, by decide, rfl⟩,
      noticeBuilt_iff.mpr ⟨hann, Or.inl rfl, ?_⟩⟩,
    ⟨ab, a, _, hab', ha', peerBuilt_iff.mpr ⟨hab, by decide, rfl⟩,
      peerBuilt_iff.mpr ⟨ha, by decide, ?_⟩⟩⟩
  · rw [hsystem', hann']
    rfl
  · rw [hab', ha']
    rfl

/-- **WHO CAN SPEAK AS THE SYSTEM**, exactly. -/
theorem speaks_as_system_iff {name : List UInt8} (h : StoredName name) :
    (∃ text name' suffix bytes, PeerBuilt name text bytes
      ∧ NoticeBuilt name' suffix bytes)
    ↔ cstr name = ascii "SYSTEM" ∨ ascii "SYSTEM: " <+: cstr name := by
  constructor
  · rintro ⟨text, name', suffix, bytes, hpeer, hnotice⟩
    obtain ⟨-, -, hbytes⟩ := peerBuilt_iff.mp hpeer
    obtain ⟨-, -, hbytes'⟩ := noticeBuilt_iff.mp hnotice
    exact system_split (hbytes.symm.trans hbytes')
  · rintro (hname | ⟨r, hr⟩)
    · obtain ⟨ann, hann, hcstr⟩ := storedName_of (n := ascii "ann")
        (by decide) (by decide) (by decide)
      refine ⟨ascii "ann is online now", ann, msgLoginSuffix, _,
        peerBuilt_iff.mpr ⟨h, by decide, rfl⟩,
        noticeBuilt_iff.mpr ⟨hann, Or.inl rfl, ?_⟩⟩
      rw [hname, hcstr]
      rfl
    · -- the notice of a name that goes on behind the colon
      obtain ⟨hok, h10⟩ := storedName_spec h
      have hlen := hok.strlen_lt
      have hz := zero_notMem_cstr name
      rw [strlen, ← hr, List.length_append] at hlen
      rw [← hr] at h10 hz
      obtain ⟨ann, hann, hcstr⟩ := storedName_of (n := r ++ ascii ": ann")
        (by
          intro hm
          exact (List.mem_append.mp hm).elim
            (fun h => h10 (List.mem_append_right _ h))
            (fun h => absurd h (by decide)))
        (by
          intro hm
          exact (List.mem_append.mp hm).elim
            (fun h => hz (List.mem_append_right _ h))
            (fun h => absurd h (by decide)))
        (by
          rw [List.length_append, show (ascii ": ann").length = 5 from rfl]
          rw [show (ascii "SYSTEM: ").length = 8 from rfl] at hlen
          omega)
      refine ⟨ascii "ann is online now", ann, msgLoginSuffix, _,
        peerBuilt_iff.mpr ⟨h, by decide, rfl⟩,
        noticeBuilt_iff.mpr ⟨hann, Or.inl rfl, ?_⟩⟩
      rw [hcstr, ← hr]
      simp [peerText, noticeText, sysText, msgPeerPrefix, msgPrefixIndicator,
        msgSysPrefix, msgLoginSuffix, ascii]

/-- **WHO CAN SPEAK AS WHOM**, exactly. -/
theorem speaks_as_other_iff {a b : List UInt8} (ha : StoredName a)
    (hb : StoredName b) :
    (∃ x y bytes, PeerBuilt a x bytes ∧ PeerBuilt b y bytes
      ∧ ¬ (cstr a = cstr b ∧ x = y))
    ↔ cstr a ++ ascii ": " <+: cstr b ∨ cstr b ++ ascii ": " <+: cstr a := by
  have hreach : ∀ {a b : List UInt8}, StoredName a → StoredName b →
      cstr a ++ ascii ": " <+: cstr b → ∃ x y bytes, PeerBuilt a x bytes
        ∧ PeerBuilt b y bytes ∧ ¬ (cstr a = cstr b ∧ x = y) := by
    rintro a b ha hb ⟨r, hr⟩
    obtain ⟨hok, h10⟩ := storedName_spec hb
    have hlen := hok.strlen_lt
    have hz := zero_notMem_cstr b
    rw [strlen, ← hr, List.length_append] at hlen
    rw [← hr] at h10 hz
    have htext : Text (r ++ ascii ": hi") := by
      refine ⟨fun hm => ?_, fun hm => ?_, ?_⟩
      · exact (List.mem_append.mp hm).elim
          (fun h => h10 (List.mem_append_right _ h))
          (fun h => absurd h (by decide))
      · exact (List.mem_append.mp hm).elim
          (fun h => hz (List.mem_append_right _ h))
          (fun h => absurd h (by decide))
      · rw [List.length_append, show (ascii ": hi").length = 4 from rfl]
        omega
    refine ⟨r ++ ascii ": hi", ascii "hi", _,
      peerBuilt_iff.mpr ⟨ha, htext, rfl⟩,
      peerBuilt_iff.mpr ⟨hb, by decide, ?_⟩, ?_⟩
    · rw [← hr]
      simp [peerText, msgPeerPrefix, msgPrefixIndicator, ascii]
    · rintro ⟨heq, -⟩
      have := congrArg List.length (hr.trans heq.symm)
      rw [List.length_append, List.length_append,
        show (ascii ": ").length = 2 from rfl] at this
      omega
  constructor
  · rintro ⟨x, y, bytes, hx, hy, hne⟩
    obtain ⟨-, -, hbytes⟩ := peerBuilt_iff.mp hx
    obtain ⟨-, -, hbytes'⟩ := peerBuilt_iff.mp hy
    exact (peerText_split (hbytes.symm.trans hbytes')).resolve_left hne
  · rintro (h | h)
    · exact hreach ha hb h
    · obtain ⟨x, y, bytes, hx, hy, hne⟩ := hreach hb ha h
      exact ⟨y, x, bytes, hy, hx, fun e => hne ⟨e.1.symm, e.2.symm⟩⟩

end IMAttribution

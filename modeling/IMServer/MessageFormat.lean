import IMServer.Message

/-! # What the message constructors build

    The two formats, `peerText` and `sysText`, and for each constructor: it
    allocates only, it succeeds when no allocation fails, and the bytes that
    will be sent, `size` of them, are those of the format. -/

namespace IMMessageFormat

open IMBytes IMCString IMMachineInt IMCachePool IMClientInfo IMMessage

/-- `"FROM <sender>: <text>\n"`. -/
def peerText (sender text : List UInt8) : List UInt8 :=
  msgPeerPrefix ++ ascii " " ++ sender ++ msgPrefixIndicator ++ ascii " "
    ++ text ++ ascii "\n"

/-- `"FROM SYSTEM: <text>\n"`. -/
def sysText (text : List UInt8) : List UInt8 :=
  msgSysPrefix ++ ascii " " ++ text ++ ascii "\n"

theorem length_peerText (name text : List UInt8) :
    (peerText name text).length = name.length + text.length + 8 := by
  simp only [peerText, List.length_append,
    show msgPeerPrefix.length = 4 from rfl, show (ascii " ").length = 1 from rfl,
    show msgPrefixIndicator.length = 1 from rfl,
    show (ascii "\n").length = 1 from rfl]
  omega

theorem length_sysText (text : List UInt8) :
    (sysText text).length = text.length + 14 := by
  simp only [sysText, List.length_append, show msgSysPrefix.length = 12 from rfl,
    show (ascii " ").length = 1 from rfl, show (ascii "\n").length = 1 from rfl]
  omega

/-- The lengths the constructors compute: those of the formats, and the NUL
    byte. -/
theorem peerLen_eq (sender content : List UInt8) :
    strlen msgPeerPrefix + strlen sender + strlen content + 5
      = (peerText (cstr sender) (cstr content)).length + 1 := by
  rw [length_peerText, strlen, strlen, strlen,
    show (cstr msgPeerPrefix).length = 4 from rfl]
  omega

theorem sysLen_eq (content : List UInt8) :
    strlen msgSysPrefix + strlen content + 3
      = (sysText (cstr content)).length + 1 := by
  rw [length_sysText, strlen, strlen,
    show (cstr msgSysPrefix).length = 12 from rfl]
  omega

/-! ## Cutting at the newline -/

theorem cutAtEdge_eq {text : List UInt8} (h10 : (10 : UInt8) ∉ text)
    (hz : (0 : UInt8) ∉ text) (rest : List UInt8) :
    cutAtEdge (text ++ 10 :: rest) = text ++ 0 :: rest := by
  have hover : overwrite (text ++ 10 :: rest) text.length [0]
      = text ++ 0 :: rest := by
    simp [overwrite]
  rw [cutAtEdge, msgEdgeIndicator, strchr_append _ h10 hz]
  exact hover

theorem cutAtEdge_line {text : List UInt8} (h10 : (10 : UInt8) ∉ text)
    (hz : (0 : UInt8) ∉ text) (rest : List UInt8) :
    cstr (cutAtEdge (text ++ 10 :: rest)) = text := by
  rw [cutAtEdge_eq h10 hz]
  exact cstr_append_zero hz rest

theorem cutAtEdge_of_notMem {text : List UInt8}
    (h10 : (10 : UInt8) ∉ cstr text) : cutAtEdge text = text := by
  rw [cutAtEdge, msgEdgeIndicator, (strchr_eq_none (by decide)).mpr h10]

theorem strlen_cutAtEdge_le (m : List UInt8) :
    strlen (cutAtEdge m) ≤ strlen m := by
  rw [cutAtEdge]
  cases hs : strchr m msgEdgeIndicator with
  | none => exact Nat.le_refl _
  | some i =>
      obtain ⟨pre, post, rfl, rfl, hc, hz⟩ := strchr_eq_some hs
      have hover : overwrite (pre ++ msgEdgeIndicator :: post) pre.length [0]
          = pre ++ 0 :: post := by
        simp [overwrite]
      simp only [hover, strlen, cstr_append_zero hz, cstr_append hz,
        List.length_append]
      exact Nat.le_add_right _ _

/-! ## The constructors -/

theorem createNewMsg_spec (p : CachePool) (junk : List UInt8 × List UInt8)
    (size : Nat) :
    Allocated p (createNewMsg p junk size).2
      ∧ (NoFail p → (createNewMsg p junk size).1 ≠ none)
      ∧ ∀ msg, (createNewMsg p junk size).1 = some msg →
          msg = ⟨junk.1, junk.2, size, List.replicate size 0⟩ := by
  rw [createNewMsg]
  have ha1 := allocated_malloc p
  have hm1 : NoFail p → (malloc p).1 = true := fun h => h.malloc
  cases hp1 : malloc p with
  | mk ok1 p1 =>
      rw [hp1] at ha1 hm1
      cases ok1 with
      | false => exact ⟨ha1, (fun h => by cases hm1 h), fun _ h => by cases h⟩
      | true =>
          have ha2 := ha1.trans (allocated_malloc p1)
          have hm2 : NoFail p → (malloc p1).1 = true :=
            fun h => (h.keeps (ha1.keeps [])).malloc
          simp only
          cases hp2 : malloc p1 with
          | mk ok2 p2 =>
              rw [hp2] at ha2 hm2
              cases ok2 with
              | false =>
                  exact ⟨ha2, (fun h => by cases hm2 h), fun _ h => by cases h⟩
              | true =>
                  exact ⟨ha2, (fun _ h => by cases h),
                    fun msg h => (Option.some.inj h).symm⟩

/-- The bytes `sprintf` puts into a block of exactly their number and the NUL
    byte, without that. -/
theorem take_sprintf (formatted : List UInt8) :
    (sprintf (List.replicate (formatted.length + 1) 0) formatted).take
      formatted.length = formatted := by
  rw [sprintf, overwrite, List.take_zero, List.nil_append, List.append_assoc,
    List.take_append_of_le_length (Nat.le_refl _), List.take_length]

/-- What a constructor gives: the message for `target` and without `exclude`,
    the arrays it does not write as they were. -/
structure Constructed (p : CachePool) (target exclude text : List UInt8)
    (r : Option Msg × CachePool) : Prop where
  pool : Allocated p r.2
  succeeds : NoFail p → r.1 ≠ none
  size : ∀ msg, r.1 = some msg → msg.size = text.length
  text : ∀ msg, r.1 = some msg → msg.content.take msg.size = text
  target : ∀ msg, r.1 = some msg → msg.target = target
  exclude : ∀ msg, r.1 = some msg → msg.exclude = exclude

/-- The new block with the text in it, for a target if there is one. -/
def printed (text : List UInt8) (target : Option (List UInt8)) (msg : Msg) :
    Msg :=
  { msg with
    content := sprintf msg.content text
    size := sizeT ((msg.size : Int) - 1)
    target := (target.map (strcpy msg.target)).getD msg.target }

theorem createP2pMsg_eq (p : CachePool) (junk : List UInt8 × List UInt8)
    (sender : List UInt8) (target : Option (List UInt8)) (content : List UInt8) :
    createP2pMsgBaseOnContent p junk sender target content
      = (((createNewMsg p junk (sizeT (cInt ((peerText (cstr sender)
            (cstr (cutAtEdge content))).length + 1 : Nat)))).1.map fun msg =>
          { printed (peerText (cstr sender) (cstr (cutAtEdge content))) target msg
            with exclude := strcpy msg.exclude sender }),
        (createNewMsg p junk (sizeT (cInt ((peerText (cstr sender)
          (cstr (cutAtEdge content))).length + 1 : Nat)))).2) := by
  rw [createP2pMsgBaseOnContent, ← peerLen_eq]
  generalize createNewMsg p junk _ = r
  obtain ⟨o, p'⟩ := r
  cases o <;> cases target <;> rfl

theorem createSysMsg_eq (p : CachePool) (junk : List UInt8 × List UInt8)
    (target : Option (List UInt8)) (content : List UInt8) :
    createSysMsgBaseOnContent p junk target content
      = (((createNewMsg p junk (sizeT (cInt ((sysText
            (cstr (cutAtEdge content))).length + 1 : Nat)))).1.map
          (printed (sysText (cstr (cutAtEdge content))) target)),
        (createNewMsg p junk (sizeT (cInt ((sysText
          (cstr (cutAtEdge content))).length + 1 : Nat)))).2) := by
  rw [createSysMsgBaseOnContent, ← sysLen_eq]
  generalize createNewMsg p junk _ = r
  obtain ⟨o, p'⟩ := r
  cases o <;> cases target <;> rfl

/-- A message for `target` that is built from a new block of the right size. -/
theorem constructed_of_printed (p : CachePool) (junk : List UInt8 × List UInt8)
    {target exclude text : List UInt8} (hlen : text.length + 1 < 2 ^ 31)
    {build : Msg → Msg}
    (hbuild : ∀ msg, msg.exclude = junk.2 →
      build msg = { printed text (some target) msg with exclude := exclude }) :
    Constructed p (strcpy junk.1 target) exclude text
      ((createNewMsg p junk (sizeT (cInt (text.length + 1 : Nat)))).1.map build,
        (createNewMsg p junk (sizeT (cInt (text.length + 1 : Nat)))).2) := by
  have hsize : sizeT (cInt (text.length + 1 : Nat)) = text.length + 1 := by
    rw [cInt_natCast hlen, sizeT_natCast (by omega)]
  have hsize' : sizeT (((text.length + 1 : Nat) : Int) - 1) = text.length := by
    rw [sizeT_of_nonneg (by omega) (by omega)]
    omega
  rw [hsize]
  obtain ⟨halloc, hsucc, hmsg⟩ := createNewMsg_spec p junk (text.length + 1)
  have hbuilt : ∀ msg,
      (createNewMsg p junk (text.length + 1)).1.map build = some msg →
      msg = ⟨strcpy junk.1 target, exclude, text.length,
        sprintf (List.replicate (text.length + 1) 0) text⟩ := by
    intro msg h
    obtain ⟨msg₀, h₀, rfl⟩ := Option.map_eq_some_iff.mp h
    obtain rfl := hmsg msg₀ h₀
    rw [hbuild _ rfl, printed, hsize']
    rfl
  refine ⟨halloc, fun h hnone => hsucc h (Option.map_eq_none_iff.mp hnone),
    fun msg h => ?_, fun msg h => ?_, fun msg h => ?_, fun msg h => ?_⟩
  · rw [hbuilt msg h]
  · rw [hbuilt msg h]
    exact take_sprintf text
  · rw [hbuilt msg h]
  · rw [hbuilt msg h]

/-- **A PEER MESSAGE**. -/
theorem createP2pMsg_spec (p : CachePool) (junk : List UInt8 × List UInt8)
    (sender target content : List UInt8)
    (hlen : strlen sender + strlen content < 2 ^ 31 - 16) :
    Constructed p (strcpy junk.1 target) (strcpy junk.2 sender)
      (peerText (cstr sender) (cstr (cutAtEdge content)))
      (createP2pMsgBaseOnContent p junk sender (some target) content) := by
  have hcut := strlen_cutAtEdge_le content
  rw [createP2pMsg_eq]
  refine constructed_of_printed p junk ?_ fun msg hexclude => by rw [hexclude]
  rw [length_peerText]
  simp only [strlen] at hlen hcut
  omega

/-- **A SYSTEM MESSAGE**. -/
theorem createSysMsg_spec (p : CachePool) (junk : List UInt8 × List UInt8)
    (target content : List UInt8) (hlen : strlen content < 2 ^ 31 - 16) :
    Constructed p (strcpy junk.1 target) junk.2
      (sysText (cstr (cutAtEdge content)))
      (createSysMsgBaseOnContent p junk (some target) content) := by
  have hcut := strlen_cutAtEdge_le content
  rw [createSysMsg_eq]
  refine constructed_of_printed p junk ?_ fun msg hexclude => by
    rw [← hexclude, printed]
  rw [length_sysText]
  simp only [strlen] at hlen hcut
  omega

end IMMessageFormat

import IMServer.Server
import IMServer.MessageFormat

/-! # Formatted output — the `sprintf` calls

    Each of the five calls has a length computed by hand in front of it.  A site
    is described by the block it formats into, the bytes it formats and the size
    used afterwards; `sprintf_fits_iff` says for which names and texts they match.
    The lengths are `int`s at four sites, so a very long text breaks them; the
    block of the client is too short for every name. -/

namespace IMFormatting

open IMBytes IMCString IMMachineInt IMCachePool IMClientInfo IMMessage
  IMMessageFormat IMServerInfo

/-! ## The registration of the client -/

/-- What `main` of the client does with its name: the length it computes, the
    block behind `sprintf`, and what `send` gets. -/
structure Registration where
  loginCmdSize : Nat
  nameLine : List UInt8
  sent : List UInt8

/-- The part of `main` behind `connect`; `name` is `argv[3]`. -/
def register (name : List UInt8) : Registration :=
  let loginCmdSize := sizeT (strlen name + strlen cmdLogin + 1 : Nat)
  let nameLine := sprintf (List.replicate loginCmdSize 0)
    (cmdLogin ++ cstr name ++ ascii "\n")
  ⟨loginCmdSize, nameLine, nameLine.take loginCmdSize⟩

/-! ## The sites -/

/-- A `sprintf` call; the notices take a cache of a pool. -/
inductive SprintfSite where
  | loginLine (name : List UInt8)
  | loginNotice (p : CachePool) (name : List UInt8)
  | logoutNotice (p : CachePool) (name : List UInt8)
  | peerMessage (sender content : List UInt8)
  | systemMessage (content : List UInt8)

/-- The block, what is formatted into it without the NUL byte, and the size used
    afterwards; the text of a notice is used as a string. -/
structure Formatted where
  allocated : Nat
  written : List UInt8
  size : Option Nat

/-- A notice: no cache, no `sprintf`. -/
def formattedNotice (p : CachePool) (name suffix : List UInt8) :
    Option Formatted :=
  match getNewCache p (cInt (strlen name + strlen suffix + 2 : Nat)) with
  | (none, _) => none
  | (some cache, p) =>
      some ⟨(p.mem cache).allocatedSize.toNat, cstr name ++ ascii " " ++ suffix,
        none⟩

/-- A message: `create_new_msg` sets `size` to the length, the constructor takes
    one off. -/
def formattedMessage (messageLen : Int) (text : List UInt8) : Formatted :=
  ⟨sizeT messageLen, text, some (sizeT ((sizeT messageLen : Int) - 1))⟩

/-- What each site formats. -/
def formatted : SprintfSite → Option Formatted
  | .loginLine name =>
      some ⟨(register name).loginCmdSize, cmdLogin ++ cstr name ++ ascii "\n",
        some (register name).loginCmdSize⟩
  | .loginNotice p name => formattedNotice p name msgLoginSuffix
  | .logoutNotice p name => formattedNotice p name msgLogoutSuffix
  | .peerMessage sender content =>
      some (formattedMessage (cInt (strlen msgPeerPrefix + strlen sender
          + strlen (cutAtEdge content) + 5 : Nat))
        (peerText (cstr sender) (cstr (cutAtEdge content))))
  | .systemMessage content =>
      some (formattedMessage
        (cInt (strlen msgSysPrefix + strlen (cutAtEdge content) + 3 : Nat))
        (sysText (cstr (cutAtEdge content))))

/-- **IT FITS**: the bytes and their NUL byte have room in the block, and the
    size used afterwards is that of the bytes. -/
def SprintfFits (x : SprintfSite) : Prop :=
  ∀ f, formatted x = some f → f.written.length + 1 ≤ f.allocated
    ∧ ∀ size, f.size = some size → size = f.written.length

/-! ## The sites are those of the code -/

theorem register_formatted (name : List UInt8) :
    ∃ f, formatted (.loginLine name) = some f
      ∧ (register name).nameLine = sprintf (List.replicate f.allocated 0) f.written
      ∧ f.size = some (register name).loginCmdSize :=
  ⟨_, rfl, rfl, rfl⟩

/-- A message printed into a new block of the length that was computed. -/
theorem printed_formatted {p : CachePool} {junk : List UInt8 × List UInt8}
    {messageLen : Int} {text : List UInt8} {target : Option (List UInt8)}
    {msg : Msg}
    (h : (createNewMsg p junk (sizeT messageLen)).1.map (printed text target)
      = some msg) :
    msg.content = sprintf (List.replicate
        (formattedMessage messageLen text).allocated 0)
        (formattedMessage messageLen text).written
      ∧ (formattedMessage messageLen text).size = some msg.size := by
  obtain ⟨msg₀, h₀, rfl⟩ := Option.map_eq_some_iff.mp h
  obtain rfl := (createNewMsg_spec p junk (sizeT messageLen)).2.2 msg₀ h₀
  exact ⟨rfl, rfl⟩

theorem createP2pMsg_formatted {p : CachePool} {junk : List UInt8 × List UInt8}
    {sender content : List UInt8} {target : Option (List UInt8)} {msg : Msg}
    (h : (createP2pMsgBaseOnContent p junk sender target content).1 = some msg) :
    ∃ f, formatted (.peerMessage sender content) = some f
      ∧ msg.content = sprintf (List.replicate f.allocated 0) f.written
      ∧ f.size = some msg.size := by
  refine ⟨_, rfl, ?_⟩
  rw [createP2pMsg_eq] at h
  rw [peerLen_eq]
  obtain ⟨msg₀, h₀, rfl⟩ := Option.map_eq_some_iff.mp h
  have hprinted := printed_formatted (congrArg (Option.map (printed
    (peerText (cstr sender) (cstr (cutAtEdge content))) target)) h₀)
  exact hprinted

theorem createSysMsg_formatted {p : CachePool} {junk : List UInt8 × List UInt8}
    {content : List UInt8} {target : Option (List UInt8)} {msg : Msg}
    (h : (createSysMsgBaseOnContent p junk target content).1 = some msg) :
    ∃ f, formatted (.systemMessage content) = some f
      ∧ msg.content = sprintf (List.replicate f.allocated 0) f.written
      ∧ f.size = some msg.size := by
  refine ⟨_, rfl, ?_⟩
  rw [createSysMsg_eq] at h
  rw [sysLen_eq]
  exact printed_formatted h

theorem allocated_createSysMsg (p : CachePool) (junk : List UInt8 × List UInt8)
    (target : Option (List UInt8)) (content : List UInt8) :
    Allocated p (createSysMsgBaseOnContent p junk target content).2 := by
  rw [createSysMsg_eq]
  exact (createNewMsg_spec p junk _).1

/-- The notice is formatted into the cache the pool hands out; the message is
    built without touching the caches. -/
theorem createNotice_cache {p p₁ : CachePool} {cache : Addr}
    (junk : List UInt8 × List UInt8) {name suffix : List UInt8}
    (hget : getNewCache p (cInt (strlen name + strlen suffix + 2 : Nat))
      = (some cache, p₁)) :
    (createNotice p junk name suffix).1 = some cache
      ∧ (createNotice p junk name suffix).2.2.mem
        = (writeCache p₁ cache 0 (cstr name ++ ascii " " ++ suffix ++ [0])).mem := by
  have hsame := (allocated_createSysMsg
    (writeCache p₁ cache 0 (cstr name ++ ascii " " ++ suffix ++ [0])) junk
    (some cmdToAll) ((writeCache p₁ cache 0
      (cstr name ++ ascii " " ++ suffix ++ [0])).mem cache).buff).mem
  rw [createNotice]
  dsimp only
  rw [hget]
  dsimp only
  cases hcons : createSysMsgBaseOnContent (writeCache p₁ cache 0
      (cstr name ++ ascii " " ++ suffix ++ [0])) junk (some cmdToAll)
      ((writeCache p₁ cache 0
        (cstr name ++ ascii " " ++ suffix ++ [0])).mem cache).buff with
  | mk o p₂ =>
      rw [hcons] at hsame
      cases o with
      | none => exact ⟨rfl, hsame⟩
      | some msg => exact ⟨rfl, hsame⟩

theorem createNotice_formatted {p : CachePool} (hp : PoolInv p)
    (junk : List UInt8 × List UInt8) (name suffix : List UInt8) {cache : Addr}
    (h : (createNotice p junk name suffix).1 = some cache) :
    ∃ f, formattedNotice p name suffix = some f
      ∧ ((createNotice p junk name suffix).2.2.mem cache).buff
        = sprintf (List.replicate f.allocated 0) f.written := by
  rw [formattedNotice]
  cases hget : getNewCache p (cInt (strlen name + strlen suffix + 2 : Nat)) with
  | mk o p₁ =>
      cases o with
      | none =>
          rw [createNotice] at h
          dsimp only at h
          rw [hget] at h
          cases h
      | some cache' =>
          obtain ⟨hcache, hmem⟩ := createNotice_cache junk hget
          obtain rfl := Option.some.inj (hcache.symm.trans h)
          refine ⟨_, rfl, ?_⟩
          rw [hmem, buff_writeCache, (getNewCache_spec hp hget).blank]
          rfl

/-! ## When the output fits -/

/-- The length of a message survives its conversion to `int` and back. -/
def LengthFits (n : Nat) : Prop :=
  n < 2 ^ 31 ∨ (2 ^ 64 - 2 ^ 31 ≤ n ∧ n < 2 ^ 64)

/-- The length of a notice is an `int`, or no class is large enough for what its
    conversion gives. -/
def NoticeFits (p : CachePool) (n : Nat) : Prop :=
  n < 2 ^ 31 ∨ ∀ size ∈ classSizes p, size < cInt n

/-- **WHEN IT FITS**: never in the client. -/
def FitsWhen : SprintfSite → Prop
  | .loginLine _ => False
  | .loginNotice p name => NoticeFits p (strlen name + strlen msgLoginSuffix + 2)
  | .logoutNotice p name =>
      NoticeFits p (strlen name + strlen msgLogoutSuffix + 2)
  | .peerMessage sender content =>
      LengthFits (strlen sender + strlen (cutAtEdge content) + 9)
  | .systemMessage content => LengthFits (strlen (cutAtEdge content) + 15)

/-- The pool of a notice satisfies its invariant, and the memory behind the size
    table holds `int`s. -/
def SprintfSite.Ok : SprintfSite → Prop
  | .loginNotice p _ => PoolInv p ∧ ∀ index, p.pastTable index < 2 ^ 31
  | .logoutNotice p _ => PoolInv p ∧ ∀ index, p.pastTable index < 2 ^ 31
  | _ => True

/-- A message with `n` bytes, the NUL byte among them. -/
theorem formattedMessage_iff {n : Nat} {text : List UInt8}
    (hn : n = text.length + 1) :
    ((formattedMessage (cInt n) text).written.length + 1
        ≤ (formattedMessage (cInt n) text).allocated
      ∧ ∀ size, (formattedMessage (cInt n) text).size = some size →
        size = (formattedMessage (cInt n) text).written.length)
      ↔ LengthFits n := by
  have hint : (n ≤ sizeT (cInt n)
      ∧ sizeT ((sizeT (cInt n) : Int) - 1) = n - 1) ↔ LengthFits n := by
    unfold LengthFits sizeT cInt
    omega
  rw [← hint]
  generalize cInt n = messageLen
  have hwritten : (formattedMessage messageLen text).written.length = n - 1 := by
    rw [hn]
    rfl
  have hallocated : (formattedMessage messageLen text).allocated
      = sizeT messageLen := rfl
  rw [hwritten, hallocated]
  constructor
  · rintro ⟨h1, h2⟩
    exact ⟨by omega, h2 _ rfl⟩
  · rintro ⟨h1, h2⟩
    exact ⟨by omega, fun size hs => (Option.some.inj hs).symm.trans h2⟩

theorem classSizes_lt {p : CachePool} (h : ∀ index, p.pastTable index < 2 ^ 31)
    {size : Int} (hs : size ∈ classSizes p) : size < 2 ^ 31 := by
  obtain ⟨index, -, rfl⟩ := List.mem_map.mp hs
  rw [List.getD_eq_getElem?_getD]
  cases hi : specifiedCacheSize[index]? with
  | none => exact h index
  | some size =>
      have hmem := List.mem_of_getElem? hi
      simp only [specifiedCacheSize, List.mem_cons, List.not_mem_nil,
        or_false] at hmem
      simp only [Option.getD_some]
      omega

/-- A notice with `n` bytes, the NUL byte among them. -/
theorem formattedNotice_iff {p : CachePool} {name suffix : List UInt8}
    (hp : PoolInv p) (hints : ∀ index, p.pastTable index < 2 ^ 31)
    (hsuffix : strlen suffix = suffix.length) :
    (∀ f, formattedNotice p name suffix = some f →
        f.written.length + 1 ≤ f.allocated
        ∧ ∀ size, f.size = some size → size = f.written.length)
      ↔ NoticeFits p (strlen name + strlen suffix + 2) := by
  have hlen : (cstr name ++ ascii " " ++ suffix).length + 1
      = strlen name + strlen suffix + 2 := by
    rw [List.length_append, List.length_append, hsuffix]
    show (cstr name).length + 1 + suffix.length + 1 = (cstr name).length + _ + 2
    omega
  rw [formattedNotice, NoticeFits]
  generalize strlen name + strlen suffix + 2 = n at hlen ⊢
  cases hget : getNewCache p (cInt n) with
  | mk o p₁ =>
      cases o with
      | none =>
          exact ⟨fun _ => Or.inr (getNewCache_none hp hget).1,
            fun _ _ h => by cases h⟩
      | some cache =>
          have hout := getNewCache_spec hp hget
          have hlarge := hout.large
          have hclass := List.mem_of_find?_eq_some hout.first
          have hlt := classSizes_lt hints hclass
          constructor
          · intro h
            have hfit := (h _ rfl).1
            rw [hlen] at hfit
            dsimp only at hfit
            exact Or.inl (by omega)
          · intro hn f hf
            obtain rfl := Option.some.inj hf
            refine ⟨?_, fun _ h => by cases h⟩
            rw [hlen]
            rcases hn with h1 | h2
            · rw [cInt_natCast h1] at hlarge
              dsimp only
              omega
            · have := h2 _ hclass
              omega

/-- **FORMATTED OUTPUT, EXACTLY**: for every name and text, the output of a site
    fits its block and the size used afterwards is right if and only if the
    length is below `2 ^ 31`, or so near to `2 ^ 64` that no text has it; the
    client's own line never fits. -/
theorem sprintf_fits_iff (x : SprintfSite) (hx : x.Ok) :
    SprintfFits x ↔ FitsWhen x := by
  cases x with
  | loginLine name =>
      refine ⟨fun h => ?_, False.elim⟩
      have hfit : (cmdLogin ++ cstr name ++ ascii "\n").length + 1
          ≤ sizeT (strlen name + 8 : Nat) := (h _ rfl).1
      have hlen : (cmdLogin ++ cstr name ++ ascii "\n").length
          = strlen name + 8 := by
        rw [List.length_append, List.length_append]
        show 7 + (cstr name).length + 1 = (cstr name).length + 8
        omega
      rw [hlen] at hfit
      rw [sizeT] at hfit
      omega
  | loginNotice p name => exact formattedNotice_iff hx.1 hx.2 rfl
  | logoutNotice p name => exact formattedNotice_iff hx.1 hx.2 rfl
  | peerMessage sender content =>
      have hiff := formattedMessage_iff (peerLen_eq sender (cutAtEdge content))
      have hfour : strlen msgPeerPrefix + strlen sender
          + strlen (cutAtEdge content) + 5
          = strlen sender + strlen (cutAtEdge content) + 9 := by
        rw [show strlen msgPeerPrefix = 4 from rfl]
        omega
      rw [hfour] at hiff
      rw [FitsWhen, ← hiff, ← hfour]
      exact ⟨fun h => h _ rfl, fun h f hf => Option.some.inj hf ▸ h⟩
  | systemMessage content =>
      have hiff := formattedMessage_iff (sysLen_eq (cutAtEdge content))
      have htwelve : strlen msgSysPrefix + strlen (cutAtEdge content) + 3
          = strlen (cutAtEdge content) + 15 := by
        rw [show strlen msgSysPrefix = 12 from rfl]
        omega
      rw [htwelve] at hiff
      rw [FitsWhen, ← hiff, ← htwelve]
      exact ⟨fun h => h _ rfl, fun h f hf => Option.some.inj hf ▸ h⟩

/-- A short message from a named sender. -/
theorem sprintf_fits_peerMessage :
    SprintfFits (.peerMessage (ascii "ann") (ascii "hi\n")) :=
  (sprintf_fits_iff (.peerMessage (ascii "ann") (ascii "hi\n")) trivial).mpr
    (Or.inl (by decide))

/-- The client's line for the name `ann`: twelve bytes for a block of eleven. -/
theorem sprintf_overflow_client :
    (register (ascii "ann")).loginCmdSize = 11
      ∧ (register (ascii "ann")).nameLine.length = 12
      ∧ ¬ SprintfFits (.loginLine (ascii "ann")) := by
  refine ⟨by decide +kernel, by decide +kernel, fun h => ?_⟩
  have hfit := (h _ rfl).1
  exact absurd hfit (by decide +kernel)

end IMFormatting

import Mathlib.Data.List.Infix
import IMServer.Server
import IMServer.MessageFormat

/-! # Reading the line — how far the `string.h` functions look

    A line comes in a block of exactly its size, without a NUL byte.  A search
    that stops at its match reads no further; one without a match reads on to the
    first NUL byte, and when the line has none that lies behind the block.
    `reads_inside_iff` says for which lines the handling stays inside. -/

namespace IMLineReads

open IMBytes IMCString IMMachineInt IMCachePool IMClientInfo IMMessage
  IMMessageFormat IMServerInfo

/-! ## How many bytes a call reads -/

/-- `strlen` reads the NUL byte too. -/
def strlenReads (m : List UInt8) : Nat :=
  strlen m + 1

/-- `strchr` reads up to the match, or up to the NUL byte. -/
def strchrReads (m : List UInt8) (c : UInt8) : Nat :=
  match strchr m c with
  | none => strlenReads m
  | some i => i + 1

/-- `strstr` reads up to the end of the match, or up to the NUL byte. -/
def strstrReads (m pat : List UInt8) : Nat :=
  match strstr m pat with
  | none => strlenReads m
  | some i => i + pat.length

/-- `strncpy` reads up to the NUL byte, but no more than `n` bytes. -/
def strncpyReads (src : List UInt8) (n : Nat) : Nat :=
  min n (strlenReads src)

/-! ## When a call stays inside a block -/

section Inside

variable {line : List UInt8} (after : List UInt8)

/-- The string ends inside the block exactly when the block has a NUL byte. -/
theorem strlenReads_inside :
    strlenReads (line ++ after) ≤ line.length ↔ 0 ∈ line := by
  rw [strlenReads, Nat.succ_le_iff]
  constructor
  · intro h
    by_contra hz
    rw [strlen, cstr_append hz, List.length_append] at h
    omega
  · intro h
    obtain ⟨pre, post, rfl, hz⟩ := List.eq_append_cons_of_mem h
    rw [strlen, List.append_assoc, List.cons_append, cstr_append_zero hz,
      List.length_append, List.length_cons]
    omega

theorem strchrReads_inside {c : UInt8} (hc : c ≠ 0) :
    strchrReads (line ++ after) c ≤ line.length ↔ 0 ∈ line ∨ c ∈ line := by
  rw [strchrReads]
  cases h : strchr (line ++ after) c with
  | none =>
      show strlenReads (line ++ after) ≤ line.length ↔ _
      rw [strlenReads_inside]
      refine ⟨Or.inl, fun hor => ?_⟩
      by_contra hz
      refine (strchr_eq_none hc).mp h ?_
      rw [cstr_append hz]
      exact List.mem_append_left _ (hor.resolve_left hz)
  | some i =>
      obtain ⟨pre, post, hm, rfl, hnot, hz⟩ := strchr_eq_some h
      show pre.length + 1 ≤ line.length ↔ _
      constructor
      · intro hle
        have hpre : pre ++ [c] <+: line := by
          refine List.prefix_of_prefix_length_le ⟨post, ?_⟩
            (List.prefix_append line after)
            (by rw [List.length_append]; exact hle)
          rw [hm, List.append_assoc]
          rfl
        exact Or.inr (hpre.subset (List.mem_append_right _ (List.mem_singleton.mpr rfl)))
      · intro hor
        by_contra hlt
        have hpre : line <+: pre := by
          refine List.prefix_of_prefix_length_le (List.prefix_append line after)
            ?_ (by omega)
          rw [hm]
          exact List.prefix_append _ _
        exact hor.elim (fun h0 => hz (hpre.subset h0))
          (fun h1 => hnot (hpre.subset h1))

theorem strstrReads_inside {pat : List UInt8} (hp : pat ≠ []) :
    strstrReads (line ++ after) pat ≤ line.length
      ↔ 0 ∈ line ∨ pat <:+: line := by
  rw [strstrReads]
  cases h : strstr (line ++ after) pat with
  | none =>
      show strlenReads (line ++ after) ≤ line.length ↔ _
      rw [strlenReads_inside]
      refine ⟨Or.inl, fun hor => ?_⟩
      by_contra hz
      obtain ⟨a, b, hab⟩ := hor.resolve_left hz
      have hat : pat <+: (cstr (line ++ after)).drop a.length := by
        rw [cstr_append hz, ← hab, List.append_assoc, List.append_assoc,
          List.drop_left, ← List.append_assoc]
        exact (List.prefix_append pat b).trans (List.prefix_append _ _)
      obtain ⟨j, hj⟩ := strstr_isSome hp hat
      rw [h] at hj
      cases hj
  | some i =>
      obtain ⟨hat, hbefore⟩ := strstr_eq_some h
      show i + pat.length ≤ line.length ↔ _
      have hend : i + pat.length ≤ strlen (line ++ after) := by
        have hle := hat.length_le
        have hpos := List.length_pos_iff.mpr hp
        rw [List.length_drop] at hle
        rw [strlen]
        omega
      constructor
      · intro hle
        refine Or.inr ?_
        have hdrop : pat <+: line.drop i := by
          have hpre := hat.trans
            (List.IsPrefix.drop (cstr_isPrefix (line ++ after)) i)
          rw [List.drop_append_of_le_length (by omega)] at hpre
          exact List.prefix_of_prefix_length_le hpre (List.prefix_append _ _)
            (by rw [List.length_drop]; omega)
        exact hdrop.isInfix.trans (List.drop_suffix i line).isInfix
      · rintro (h0 | ⟨a, b, hab⟩)
        · have := (strlenReads_inside after).mpr h0
          rw [strlenReads] at this
          omega
        · -- the first match is not behind this one
          by_cases h0 : (0 : UInt8) ∈ line
          · have := (strlenReads_inside after).mpr h0
            rw [strlenReads] at this
            omega
          · have hle : i ≤ a.length := by
              by_contra hlt
              refine hbefore a.length (by omega) ?_
              rw [cstr_append h0, ← hab, List.append_assoc, List.append_assoc,
                List.drop_left, ← List.append_assoc]
              exact (List.prefix_append pat b).trans (List.prefix_append _ _)
            have hlen := congrArg List.length hab
            rw [List.length_append, List.length_append] at hlen
            omega

theorem strncpyReads_inside (n : Nat) :
    strncpyReads (line ++ after) n ≤ line.length ↔ n ≤ line.length ∨ 0 ∈ line := by
  rw [strncpyReads, ← strlenReads_inside after]
  omega

end Inside

/-- The string that is left when the newline was replaced ends where the search
    for the newline did. -/
theorem strlenReads_cutAtEdge (m : List UInt8) :
    strlenReads (cutAtEdge m) ≤ strchrReads m msgEdgeIndicator := by
  rw [cutAtEdge, strchrReads]
  cases h : strchr m msgEdgeIndicator with
  | none => exact Nat.le_refl _
  | some i =>
      obtain ⟨pre, post, rfl, rfl, -, hz⟩ := strchr_eq_some h
      have hover : overwrite (pre ++ msgEdgeIndicator :: post) pre.length [0]
          = pre ++ 0 :: post := by
        simp [overwrite]
      show strlenReads (overwrite _ _ _) ≤ pre.length + 1
      rw [hover, strlenReads, strlen, cstr_append_zero hz]

/-! ## What lies behind does not matter then -/

section Append

variable (after : List UInt8)

theorem cstr_append_inside {line : List UInt8} (h : 0 ∈ line) :
    cstr (line ++ after) = cstr line := by
  obtain ⟨pre, post, rfl, hz⟩ := List.eq_append_cons_of_mem h
  rw [List.append_assoc, List.cons_append, cstr_append_zero hz,
    cstr_append_zero hz]

theorem strchr_append_inside {c : UInt8} : ∀ {line : List UInt8},
    0 ∈ line ∨ c ∈ line → strchr (line ++ after) c = strchr line c
  | [], h => by rcases h with h | h <;> cases h
  | b :: line, h => by
      rw [List.cons_append, strchr, strchr]
      by_cases hc : b = c
      · rw [if_pos hc, if_pos hc]
      · by_cases hb : b = 0
        · rw [if_neg hc, if_pos hb, if_neg hc, if_pos hb]
        · have h' : 0 ∈ line ∨ c ∈ line :=
            h.imp (List.mem_of_ne_of_mem (Ne.symm hb))
              (List.mem_of_ne_of_mem (Ne.symm hc))
          rw [if_neg hc, if_neg hb, if_neg hc, if_neg hb, strchr_append_inside h']

/-- A match at the start needs no more bytes than `line` has. -/
theorem prefix_append_inside {pat line : List UInt8}
    (h : 0 ∈ line ∨ pat <:+: line) :
    pat.isPrefixOf (cstr (line ++ after)) = pat.isPrefixOf (cstr line) := by
  by_cases h0 : (0 : UInt8) ∈ line
  · rw [cstr_append_inside after h0]
  · have hlen : pat.length ≤ line.length := (h.resolve_left h0).length_le
    rw [cstr_append h0, cstr_of_notMem h0, Bool.eq_iff_iff,
      List.isPrefixOf_iff_prefix, List.isPrefixOf_iff_prefix]
    exact ⟨fun hp => List.prefix_of_prefix_length_le hp (List.prefix_append _ _) hlen,
      fun hp => hp.trans (List.prefix_append _ _)⟩

theorem strstr_append_inside {pat : List UInt8} (hp : pat ≠ []) :
    ∀ {line : List UInt8}, 0 ∈ line ∨ pat <:+: line →
      strstr (line ++ after) pat = strstr line pat
  | [], h => by
      rcases h with h | h
      · cases h
      · exact absurd (List.infix_nil.mp h) hp
  | b :: line, h => by
      have hpre := prefix_append_inside after h
      rw [List.cons_append] at hpre ⊢
      rw [strstr, strstr, hpre]
      by_cases hat : pat.isPrefixOf (cstr (b :: line)) = true
      · rw [if_pos hat, if_pos hat]
      · by_cases hb : b = 0
        · rw [if_neg hat, if_pos hb, if_neg hat, if_pos hb]
        · have h' : 0 ∈ line ∨ pat <:+: line := by
            by_cases h0 : (0 : UInt8) ∈ b :: line
            · exact Or.inl (List.mem_of_ne_of_mem (Ne.symm hb) h0)
            · refine Or.inr ((List.infix_cons_iff.mp (h.resolve_left h0)).resolve_left
                fun hline => hat ?_)
              rw [cstr_of_notMem h0]
              exact List.isPrefixOf_iff_prefix.mpr hline
          rw [if_neg hat, if_neg hb, if_neg hat, if_neg hb,
            strstr_append_inside hp h']

theorem strncpy_append_inside (dst : List UInt8) {line : List UInt8} {n : Nat}
    (h : n ≤ line.length ∨ 0 ∈ line) :
    strncpy dst (line ++ after) n = strncpy dst line n := by
  by_cases h0 : (0 : UInt8) ∈ line
  · rw [strncpy, strncpy, cstr_append_inside after h0]
  · have hn := h.resolve_right h0
    rw [strncpy, strncpy, cstr_append h0, cstr_of_notMem h0,
      List.take_append_of_le_length hn, List.length_append,
      Nat.sub_eq_zero_of_le hn, Nat.sub_eq_zero_of_le (by omega)]

end Append

/-! ## The handling of a line -/

/-- The end of each read of `user_login`: the search for the newline, and the
    name that `update_client_name` copies. -/
def loginReads (msg : List UInt8) : List Nat :=
  let cmdSize := strlen cmdLogin
  [strchrReads msg msgEdgeIndicator,
    cmdSize + strlenReads ((cutAtEdge msg).drop cmdSize)]

/-- The end of each read of `create_p2p_msg_base_on_content` in its text, which
    begins at `off`: the search for the newline, and the string that is left. -/
def textReads (msg : List UInt8) (off : Nat) : List Nat :=
  [off + strchrReads (msg.drop off) msgEdgeIndicator,
    off + strlenReads (cutAtEdge (msg.drop off))]

/-- The end of each read behind the colon at `indicator`: the copy of the target,
    when there is a cache for it, and the text. -/
def targetReads (p : CachePool) (msg : List UInt8) (indicator : Nat) :
    List Nat :=
  let cmdSize := strlen cmdToC
  let targetNameSize := cInt ((indicator : Int) - cmdSize)
  match getNewCache p targetNameSize with
  | (none, _) => []
  | (some _, _) =>
      (cmdSize + strncpyReads (msg.drop cmdSize) (sizeT targetNameSize))
        :: textReads msg (indicator + 2)

/-- The end of each read of `try_to_handle_msg` and what it calls in the memory
    `msg` from the line on, in the order of the calls. -/
def handleReads (p : CachePool) (msg : List UInt8) : List Nat :=
  strstrReads msg cmdLogin ::
    if strstr msg cmdLogin = some 0 then loginReads msg
    else strstrReads msg cmdToAll ::
      if strstr msg cmdToAll = some 0 then textReads msg (strlen cmdToAll + 1)
      else strstrReads msg cmdToC ::
        if strstr msg cmdToC = some 0 then
          strchrReads msg 58 ::
            match strchr msg 58 with
            | none => []
            | some indicator => targetReads p msg indicator
        else []

/-- **THE HANDLING STAYS INSIDE THE LINE**. -/
def ReadsInside (p : CachePool) (line after : List UInt8) : Prop :=
  ∀ e ∈ handleReads p (line ++ after), e ≤ line.length

/-- The search for a command stops inside the line. -/
def Stops (line cmd : List UInt8) : Prop :=
  0 ∈ line ∨ cmd <:+: line

/-- Behind the colon there is a text, and the copy of the target stops, when
    there is a cache for it. -/
def TargetInside (p : CachePool) (line : List UInt8) : Prop :=
  ∀ indicator : Nat, strchr line 58 = some indicator →
    (getNewCache p (cInt ((indicator : Int) - strlen cmdToC))).1 ≠ none →
    (sizeT (cInt ((indicator : Int) - strlen cmdToC))
          ≤ line.length - strlen cmdToC
        ∨ 0 ∈ line.drop (strlen cmdToC))
      ∧ indicator + 2 < line.length

/-- **WHICH LINES STAY INSIDE**: each command is tested with a search, and only
    the one the line begins with stops at once. -/
def StaysInside (p : CachePool) (line : List UInt8) : Prop :=
  cmdLogin <+: line ∨ (¬ cmdLogin <+: line ∧ Stops line cmdLogin ∧
    ((cmdToAll <+: line ∧ strlen cmdToAll + 1 < line.length)
      ∨ (¬ cmdToAll <+: line ∧ Stops line cmdToAll ∧
        ((cmdToC <+: line ∧ (0 ∈ line ∨ 58 ∈ line) ∧ TargetInside p line)
          ∨ (¬ cmdToC <+: line ∧ Stops line cmdToC)))))

section Handling

variable {line : List UInt8} (after : List UInt8)

/-- A command at the start of memory is at the start of the line. -/
theorem command_iff (hl : line.getLast? = some 10) {cmd : List UInt8}
    (h10 : (10 : UInt8) ∉ cmd) (hz : (0 : UInt8) ∉ cmd) :
    strstr (line ++ after) cmd = some 0 ↔ cmd <+: line := by
  rw [strstr_eq_zero, prefix_cstr hz]
  constructor
  · intro h
    rcases List.prefix_or_prefix_of_prefix h (List.prefix_append line after)
      with h1 | h2
    · exact h1
    · exact absurd (h2.subset (List.mem_of_getLast? hl)) h10
  · exact fun h => h.trans (List.prefix_append _ _)

/-- The rest of a line ends with its newline. -/
theorem newline_mem_drop (hl : line.getLast? = some 10) {off : Nat}
    (hoff : off < line.length) : (10 : UInt8) ∈ line.drop off := by
  refine List.mem_of_getLast? ?_
  rw [List.getLast?_drop, if_neg (by omega)]
  exact hl

/-- The text of a message is inside the line when it begins there. -/
theorem textReads_inside (hl : line.getLast? = some 10) (off : Nat) :
    (∀ e ∈ textReads (line ++ after) off, e ≤ line.length)
      ↔ off < line.length := by
  simp only [textReads, List.forall_mem_cons, List.not_mem_nil,
    IsEmpty.forall_iff, implies_true, and_true]
  have hcut := strlenReads_cutAtEdge ((line ++ after).drop off)
  constructor
  · rintro ⟨-, h⟩
    rw [strlenReads] at h
    omega
  · intro hoff
    have hdrop : (line ++ after).drop off = line.drop off ++ after :=
      List.drop_append_of_le_length (by omega)
    have hin : strchrReads (line.drop off ++ after) msgEdgeIndicator
        ≤ (line.drop off).length :=
      (strchrReads_inside after (by decide)).mpr (Or.inr (newline_mem_drop hl hoff))
    rw [List.length_drop, ← hdrop] at hin
    omega

/-- The newline behind the command is the first one. -/
theorem cutAtEdge_behindLogin (m : List UInt8) :
    cutAtEdge (cmdLogin ++ m) = cmdLogin ++ cutAtEdge m := by
  cases h : strchr m msgEdgeIndicator with
  | none =>
      have h10 : (10 : UInt8) ∉ cstr m := (strchr_eq_none (by decide)).mp h
      rw [cutAtEdge_of_notMem h10, cutAtEdge_of_notMem]
      rw [cstr_append (by decide)]
      exact fun hm => (List.mem_append.mp hm).elim (by decide) h10
  | some i =>
      obtain ⟨pre, post, rfl, -, h10, hz⟩ := strchr_eq_some h
      have hc10 : (10 : UInt8) ∉ cmdLogin ++ pre :=
        fun hm => (List.mem_append.mp hm).elim (by decide) h10
      have hcz : (0 : UInt8) ∉ cmdLogin ++ pre :=
        fun hm => (List.mem_append.mp hm).elim (by decide) hz
      rw [msgEdgeIndicator, cutAtEdge_eq h10 hz, ← List.append_assoc,
        cutAtEdge_eq hc10 hcz, List.append_assoc]

/-- A login line is never left. -/
theorem loginReads_inside (hl : line.getLast? = some 10)
    (hcmd : cmdLogin <+: line) :
    ∀ e ∈ loginReads (line ++ after), e ≤ line.length := by
  have hnewline : (10 : UInt8) ∈ line := List.mem_of_getLast? hl
  obtain ⟨rest, rfl⟩ := hcmd
  have h10 : (10 : UInt8) ∈ rest :=
    (List.mem_append.mp hnewline).resolve_left (by decide)
  have hin : strchrReads (cmdLogin ++ rest ++ after) msgEdgeIndicator
      ≤ (cmdLogin ++ rest).length :=
    (strchrReads_inside after (by decide)).mpr (Or.inr hnewline)
  have hrest : strchrReads (rest ++ after) msgEdgeIndicator ≤ rest.length :=
    (strchrReads_inside after (by decide)).mpr (Or.inr h10)
  have hname := strlenReads_cutAtEdge (rest ++ after)
  have hlogin : strlen cmdLogin = cmdLogin.length := rfl
  simp only [loginReads, List.forall_mem_cons, List.not_mem_nil,
    IsEmpty.forall_iff, implies_true, and_true]
  refine ⟨hin, ?_⟩
  rw [List.append_assoc, cutAtEdge_behindLogin, hlogin, List.drop_left,
    List.length_append]
  omega

/-- Behind the colon: the copy of the target and the text. -/
theorem targetReads_inside (p : CachePool) (hl : line.getLast? = some 10)
    (hcmd : cmdToC <+: line) (indicator : Nat) :
    (∀ e ∈ targetReads p (line ++ after) indicator, e ≤ line.length)
      ↔ ((getNewCache p (cInt ((indicator : Int) - strlen cmdToC))).1 ≠ none →
        (sizeT (cInt ((indicator : Int) - strlen cmdToC))
              ≤ line.length - strlen cmdToC
            ∨ 0 ∈ line.drop (strlen cmdToC))
          ∧ indicator + 2 < line.length) := by
  have hlen : strlen cmdToC ≤ line.length := hcmd.length_le
  have hdrop : (line ++ after).drop (strlen cmdToC)
      = line.drop (strlen cmdToC) ++ after :=
    List.drop_append_of_le_length hlen
  have hcopy : ∀ n, strncpyReads (line.drop (strlen cmdToC) ++ after) n
        ≤ line.length - strlen cmdToC
      ↔ n ≤ line.length - strlen cmdToC ∨ 0 ∈ line.drop (strlen cmdToC) := by
    rw [← List.length_drop]
    exact strncpyReads_inside after
  rw [targetReads, hdrop]
  generalize sizeT (cInt ((indicator : Int) - strlen cmdToC)) = n
  specialize hcopy n
  cases h : getNewCache p (cInt ((indicator : Int) - strlen cmdToC)) with
  | mk o p' =>
      cases o with
      | none =>
          simp only [ne_eq, not_true_eq_false, IsEmpty.forall_iff, iff_true]
          exact fun e he => absurd he List.not_mem_nil
      | some a =>
          simp only [List.forall_mem_cons, textReads_inside after hl, ne_eq,
            reduceCtorEq, not_false_eq_true, forall_const, ← hcopy]
          exact and_congr_left' (by omega)

/-- One test of `try_to_handle_msg`: the search stops inside, and then the
    branch that is taken has to stay inside. -/
theorem command_reads (hl : line.getLast? = some 10) (cmd : List UInt8)
    (hne : cmd ≠ []) (h10 : (10 : UInt8) ∉ cmd) (hz : (0 : UInt8) ∉ cmd)
    (yes no : List Nat) :
    (∀ e ∈ strstrReads (line ++ after) cmd ::
        (if strstr (line ++ after) cmd = some 0 then yes else no),
        e ≤ line.length)
      ↔ (cmd <+: line ∧ ∀ e ∈ yes, e ≤ line.length)
        ∨ (¬ cmd <+: line ∧ Stops line cmd ∧ ∀ e ∈ no, e ≤ line.length) := by
  rw [List.forall_mem_cons, strstrReads_inside after hne]
  by_cases hcmd : cmd <+: line
  · rw [if_pos ((command_iff after hl h10 hz).mpr hcmd)]
    exact ⟨fun h => Or.inl ⟨hcmd, h.2⟩, fun h =>
      ⟨Or.inr hcmd.isInfix, (h.resolve_right fun h' => h'.1 hcmd).2⟩⟩
  · rw [if_neg (mt (command_iff after hl h10 hz).mp hcmd)]
    exact ⟨fun h => Or.inr ⟨hcmd, h⟩, fun h =>
      (h.resolve_left fun h' => hcmd h'.1).2⟩

/-- The `TO-C-` branch from the search for the colon on. -/
theorem colonReads_inside (p : CachePool) (hl : line.getLast? = some 10)
    (hcmd : cmdToC <+: line) :
    (∀ e ∈ strchrReads (line ++ after) 58 ::
        (match strchr (line ++ after) 58 with
          | none => []
          | some indicator => targetReads p (line ++ after) indicator),
        e ≤ line.length)
      ↔ (0 ∈ line ∨ 58 ∈ line) ∧ TargetInside p line := by
  rw [List.forall_mem_cons, strchrReads_inside after (by decide)]
  refine and_congr_right fun hcolon => ?_
  rw [strchr_append_inside after hcolon, TargetInside]
  cases h : strchr line 58 with
  | none =>
      exact ⟨fun _ _ hi => (by cases hi), fun _ e he => absurd he List.not_mem_nil⟩
  | some i =>
      refine (targetReads_inside after p hl hcmd i).trans
        ⟨?_, fun h' => h' i rfl⟩
      rintro h' _ ⟨⟩
      exact h'

/-- **THE LINES THAT STAY INSIDE**: for every line that ends with a newline, in a
    block of exactly its size, and whatever lies behind that. -/
theorem reads_inside_iff (p : CachePool) (hl : line.getLast? = some 10) :
    ReadsInside p line after ↔ StaysInside p line := by
  have htoC := command_reads after hl cmdToC (by decide) (by decide)
    (by decide)
  have htoAll := command_reads after hl cmdToAll (by decide) (by decide)
    (by decide)
  have hlogin := command_reads after hl cmdLogin (by decide) (by decide)
    (by decide)
  have hnil : (∀ e ∈ ([] : List Nat), e ≤ line.length) ↔ True :=
    iff_of_true (fun e he => absurd he List.not_mem_nil) trivial
  rw [ReadsInside, handleReads, hlogin, htoAll, htoC, textReads_inside after hl,
    hnil, and_true, StaysInside]
  refine or_congr ?_ (and_congr_right fun _ => and_congr_right fun _ =>
    or_congr_right (and_congr_right fun _ => and_congr_right fun _ =>
      or_congr_left ?_))
  · exact and_iff_left_of_imp fun h => loginReads_inside after hl h
  · exact and_congr_right fun h => colonReads_inside after p hl h

/-! ### The line alone decides -/

/-- The text of a message is the same string when its newline is in the line. -/
theorem cstr_cutAtEdge_inside (h : (10 : UInt8) ∈ line) :
    cstr (cutAtEdge (line ++ after)) = cstr (cutAtEdge line) := by
  rw [cutAtEdge, cutAtEdge, msgEdgeIndicator, strchr_append_inside after (Or.inr h)]
  cases hs : strchr line 10 with
  | none =>
      refine cstr_append_inside after ?_
      by_contra hz
      refine (strchr_eq_none (by decide)).mp hs ?_
      rwa [cstr_of_notMem hz]
  | some i =>
      obtain ⟨pre, post, rfl, rfl, -, hz⟩ := strchr_eq_some hs
      simp [overwrite, cstr_append_zero hz]

theorem createP2p_congr (p : CachePool) (junk : List UInt8 × List UInt8)
    (sender : List UInt8) (target : Option (List UInt8)) {a b : List UInt8}
    (h : cstr (cutAtEdge a) = cstr (cutAtEdge b)) :
    createP2pMsgBaseOnContent p junk sender target a
      = createP2pMsgBaseOnContent p junk sender target b := by
  rw [createP2pMsg_eq, createP2pMsg_eq, h]

theorem updateClientName_congr (info : ClientInfo) {a b : List UInt8}
    (h : cstr a = cstr b) :
    updateClientName info (some a) = updateClientName info (some b) := by
  simp only [updateClientName, updatedName, strlen, strncpy, h]

theorem userLogin_inside (s : ServerInfo) (c : PClientInfo)
    (junk : List UInt8 × List UInt8) (hl : line.getLast? = some 10)
    (hcmd : cmdLogin <+: line) :
    userLogin s c junk (line ++ after) = userLogin s c junk line := by
  have hnewline : (10 : UInt8) ∈ line := List.mem_of_getLast? hl
  obtain ⟨rest, rfl⟩ := hcmd
  have h10 : (10 : UInt8) ∈ rest :=
    (List.mem_append.mp hnewline).resolve_left (by decide)
  have hname : updateClientName (s.mem.info c)
        (some ((cutAtEdge (cmdLogin ++ rest ++ after)).drop (strlen cmdLogin)))
      = updateClientName (s.mem.info c)
        (some ((cutAtEdge (cmdLogin ++ rest)).drop (strlen cmdLogin))) := by
    refine updateClientName_congr _ ?_
    rw [List.append_assoc, cutAtEdge_behindLogin, cutAtEdge_behindLogin,
      show strlen cmdLogin = cmdLogin.length from rfl, List.drop_left,
      List.drop_left, cstr_cutAtEdge_inside after h10]
  rw [userLogin, userLogin, hname]

theorem text_inside (hl : line.getLast? = some 10) {off : Nat}
    (hoff : off < line.length) :
    cstr (cutAtEdge ((line ++ after).drop off))
      = cstr (cutAtEdge (line.drop off)) := by
  rw [List.drop_append_of_le_length (by omega)]
  exact cstr_cutAtEdge_inside after (newline_mem_drop hl hoff)

theorem buildTarget_cache (p : CachePool) (msg : List UInt8) (indicator : Nat) :
    (buildTarget p msg indicator).1
      = (getNewCache p (cInt ((indicator : Int) - strlen cmdToC))).1 := by
  rw [buildTarget]
  cases getNewCache p (cInt ((indicator : Int) - strlen cmdToC)) with
  | mk o p' => cases o <;> rfl

theorem buildTarget_inside (p : CachePool) (hcmd : cmdToC <+: line)
    (indicator : Nat)
    (hcopy : (getNewCache p (cInt ((indicator : Int) - strlen cmdToC))).1 ≠ none →
      sizeT (cInt ((indicator : Int) - strlen cmdToC))
          ≤ line.length - strlen cmdToC
        ∨ 0 ∈ line.drop (strlen cmdToC)) :
    buildTarget p (line ++ after) indicator = buildTarget p line indicator := by
  have hdrop : (line ++ after).drop (strlen cmdToC)
      = line.drop (strlen cmdToC) ++ after :=
    List.drop_append_of_le_length hcmd.length_le
  rw [buildTarget, buildTarget]
  cases h : getNewCache p (cInt ((indicator : Int) - strlen cmdToC)) with
  | mk o p' =>
      cases o with
      | none => rfl
      | some a =>
          rw [h] at hcopy
          have hcopy' := hcopy (by simp)
          rw [← List.length_drop] at hcopy'
          simp only [Int.toNat_natCast, hdrop,
            strncpy_append_inside after _ hcopy']

/-- **THE LINE ALONE DECIDES** what a handling does that stays inside it. -/
theorem dispatch_of_inside (s : ServerInfo) (c : PClientInfo) (env : Surround)
    (hl : line.getLast? = some 10) (hs : StaysInside s.pool line) :
    dispatchMsg s c env (line ++ after) = dispatchMsg s c env line := by
  have hcommand : ∀ {cmd : List UInt8}, (0 : UInt8) ∉ cmd →
      (strstr line cmd = some 0 ↔ cmd <+: line) :=
    fun hz => strstr_eq_zero.trans (prefix_cstr hz)
  rw [dispatchMsg, dispatchMsg]
  rcases hs with hlogin | ⟨hlogin, hstop, hs⟩
  · rw [strstr_append_inside after (by decide) (Or.inr hlogin.isInfix),
      if_pos ((hcommand (by decide)).mpr hlogin),
      if_pos ((hcommand (by decide)).mpr hlogin)]
    exact userLogin_inside after s c env.junk hl hlogin
  rw [strstr_append_inside after (by decide) hstop,
    if_neg (mt (hcommand (by decide)).mp hlogin),
    if_neg (mt (hcommand (by decide)).mp hlogin)]
  rcases hs with ⟨htoAll, htext⟩ | ⟨htoAll, hstop, hs⟩
  · rw [strstr_append_inside after (by decide) (Or.inr htoAll.isInfix),
      if_pos ((hcommand (by decide)).mpr htoAll),
      if_pos ((hcommand (by decide)).mpr htoAll)]
    simp only [createP2p_congr _ _ _ _ (text_inside after hl htext)]
  rw [strstr_append_inside after (by decide) hstop,
    if_neg (mt (hcommand (by decide)).mp htoAll),
    if_neg (mt (hcommand (by decide)).mp htoAll)]
  rcases hs with ⟨htoC, hcolon, htarget⟩ | ⟨htoC, hstop⟩
  · rw [strstr_append_inside after (by decide) (Or.inr htoC.isInfix),
      if_pos ((hcommand (by decide)).mpr htoC),
      if_pos ((hcommand (by decide)).mpr htoC), strchr_append_inside after hcolon]
    cases hi : strchr line 58 with
    | none => rfl
    | some i =>
        have htarget' := htarget i hi
        have hbuild := buildTarget_inside after s.pool htoC i
          fun h => (htarget' h).1
        show p2pMsgToTarget s c env (line ++ after) i = p2pMsgToTarget s c env line i
        rw [p2pMsgToTarget, p2pMsgToTarget, hbuild]
        cases hb : buildTarget s.pool line i with
        | mk o p =>
            cases o with
            | none => rfl
            | some a =>
                have hcache := buildTarget_cache s.pool line i
                rw [hb] at hcache
                have htext := (htarget' (hcache ▸ by simp)).2
                simp only [createP2p_congr _ _ _ _ (text_inside after hl htext)]
  · rw [strstr_append_inside after (by decide) hstop,
      if_neg (mt (hcommand (by decide)).mp htoC),
      if_neg (mt (hcommand (by decide)).mp htoC)]

end Handling

/-- A login line stays inside. -/
theorem reads_inside_login :
    ReadsInside (emptyPool (fun _ => ⟨0, 0, []⟩) (fun _ => 0) []) (cmdLogin ++ ascii "ann\n") [] :=
  (reads_inside_iff [] _ (by decide)).mpr (Or.inl (by decide))

/-- **A CHAT LINE LEAVES ITS BLOCK**: the search for `"LOGIN: "` has no match in
    it and there is no NUL byte, so it reads the byte behind the block. -/
theorem reads_behind_toAll :
    (ascii "TO-ALL: hi\n").getLast? = some 10
      ∧ ¬ ReadsInside (emptyPool (fun _ => ⟨0, 0, []⟩) (fun _ => 0) []) (ascii "TO-ALL: hi\n") [] := by
  refine ⟨by decide, fun h => ?_⟩
  have hfirst := h _ List.mem_cons_self
  exact absurd hfirst (by decide)

end IMLineReads

import IMServer.LineFraming

/-! # Searching a buffer — `find_in_buffer`

    The index functions report "not found" as the largest `size_t`, and the loop
    asks whether their result is negative, which it never is.  So the search ends
    in the node that holds `start_pos`, whatever is found there
    (`findInBuffer_eq`).  `find_correct_iff` says when that is the answer the
    whole content gives. -/

namespace IMSearch

open IMBytes IMCString IMMachineInt IMCachePool IMBuffer IMBufferInvariant
  IMBufferAppend IMClientInfo IMLineFraming

/-! ## What the search should return -/

/-- `r` is the first position of `c` in `bytes` from `start` on, or `-1` when
    there is none. -/
def IsFirst (bytes : List UInt8) (start : Nat) (c : UInt8) (r : Nat) : Prop :=
  (start ≤ r ∧ bytes[r]? = some c
    ∧ ∀ q, start ≤ q → q < r → bytes[q]? ≠ some c)
  ∨ (r = sizeT (-1) ∧ ∀ q, start ≤ q → bytes[q]? ≠ some c)

/-- **WHAT THE CALL SHOULD DO**: give the first position in the content, and see
    nothing but the content. -/
structure SearchesContent (p : CachePool) (after : Addr → List UInt8)
    (b : Buffer) (startPos : Nat)
    (index : Option (UInt8 → List UInt8 → Int → Nat)) (c : UInt8) : Prop where
  first : IsFirst (content p b) startPos c
    (findInBuffer p after b startPos index c)
  inside : ∀ p' after', BufferInv p' b →
    (∀ node ∈ b, nodeBytes p' node = nodeBytes p node) →
    findInBuffer p' after' b startPos index c
      = findInBuffer p after b startPos index c

/-! ## The node the search looks at -/

/-- The node that holds position `pos`, and the position in it. -/
def nodeAt : Nat → Buffer → Option (InnerNode × Nat)
  | _, [] => none
  | pos, node :: rest =>
      if pos = 0 ∨ pos < (nodeSize node).toNat then some (node, pos)
      else nodeAt (pos - (nodeSize node).toNat) rest

theorem nodeAt_zero (node : InnerNode) (rest : Buffer) :
    nodeAt 0 (node :: rest) = some (node, 0) :=
  if_pos (Or.inl rfl)

/-- The node holds the content from the position on. -/
theorem nodeAt_some {p : CachePool} :
    ∀ {b : Buffer} {pos : Nat} {node : InnerNode} {k : Nat}, BufferInv p b →
      nodeAt pos b = some (node, k) →
      node ∈ b ∧ k ≤ (nodeBytes p node).length
        ∧ pos ≤ (content p b).length
        ∧ ∃ rest, (content p b).drop pos
          = (nodeBytes p node).drop k ++ rest := by
  intro b
  induction b with
  | nil => intro _ _ _ _ h; cases h
  | cons node b ih =>
      intro pos node' k hb h
      have hmem := List.mem_cons_self (a := node) (l := b)
      have hlen := hb.length_first
      rw [nodeAt] at h
      rw [content_cons, List.length_append]
      by_cases hhere : pos = 0 ∨ pos < (nodeSize node).toNat
      · rw [if_pos hhere] at h
        obtain ⟨rfl, rfl⟩ := Prod.mk.inj (Option.some.inj h)
        refine ⟨hmem, by omega, by omega, content p b, ?_⟩
        exact List.drop_append_of_le_length (by omega)
      · rw [if_neg hhere] at h
        obtain ⟨h1, h2, h3, rest, h4⟩ := ih hb.tail h
        refine ⟨List.mem_cons_of_mem _ h1, h2, by omega, rest, ?_⟩
        rw [List.drop_append, List.drop_of_length_le (by omega),
          List.nil_append, hlen]
        exact h4

/-- **THE LOOP** ends in the node that holds the position, or at the end of the
    content. -/
theorem findLoop_eq {p : CachePool} {after : Addr → List UInt8}
    {index : List UInt8 → Int → Nat} {startPos : Nat} :
    ∀ {b : Buffer} {first pos : Nat} (idx : Nat), BufferInv p b →
      first + (content p b).length < 2 ^ 64 → first + pos = startPos →
      (findLoop p after index startPos first idx b).1
        = match nodeAt pos b with
          | none => first + (content p b).length
          | some (node, k) => sizeT ((startPos : Int)
              + index ((nodeBytes p node).drop k ++ beyond p after node)
                ((nodeBytes p node).drop k).length) := by
  intro b
  induction b with
  | nil => intro first pos idx _ _ _; rfl
  | cons node b ih =>
      intro first pos idx hb hlt hpos
      have hmem := List.mem_cons_self (a := node) (l := b)
      have hlen := hb.length_first
      have ho := (hb.offsets node hmem).nonneg
      have hptr := startPtr_eq (p := p) (hb.offsets node hmem) after
      rw [content_cons, List.length_append] at hlt ⊢
      have hnext : sizeT ((first : Int) + nodeSize node)
          = first + (nodeBytes p node).length := by
        rw [hlen, sizeT_of_nonneg (by omega) (by omega)]
        omega
      rw [findLoop, nodeAt, hptr]
      simp only [ge_iff_le, Nat.zero_le, if_true]
      by_cases h0 : pos = 0
      · -- the node begins at the position
        subst h0
        rw [if_pos (by omega), if_pos (Or.inl rfl)]
        simp only [List.drop_zero]
        have hsize : nodeSize node = ((nodeBytes p node).length : Nat) := by
          omega
        rw [← hsize, ← hpos, Nat.add_zero]
      · rw [if_neg (by omega)]
        have hend : sizeT ((first : Int) + node.wOffset - node.rOffset)
            = first + (nodeBytes p node).length := by
          rw [← hnext, nodeSize]
          congr 1
          omega
        rw [hend]
        by_cases hin : pos < (nodeSize node).toNat
        · -- the position is inside the node
          rw [if_pos (by omega), if_pos (Or.inr hin)]
          have hk : cInt ((startPos : Int) - first) = (pos : Nat) := by
            rw [show ((startPos : Int) - first) = (pos : Nat) by omega]
            exact cInt_natCast (by omega)
          have hseg : nodeSize node - (pos : Nat)
              = (((nodeBytes p node).drop pos).length : Nat) := by
            rw [List.length_drop]
            omega
          simp only [hk, Int.toNat_natCast]
          rw [List.drop_append_of_le_length (by omega), hseg]
          congr 2
          omega
        · -- the position is behind the node
          have hpos' : first + (nodeBytes p node).length
              + (pos - (nodeSize node).toNat) = startPos := by omega
          rw [if_neg (by omega), if_neg (by omega), hnext,
            ih idx hb.tail (by omega) hpos']
          cases nodeAt (pos - (nodeSize node).toNat) b with
          | none => exact Nat.add_assoc ..
          | some r => rfl

/-- **`find_in_buffer`**, in terms of the node that holds `start_pos`. -/
theorem findInBuffer_eq {p : CachePool} {b : Buffer} (hb : BufferInv p b)
    (hlt : (content p b).length < 2 ^ 64) (after : Addr → List UInt8)
    (startPos : Nat) (index : Option (UInt8 → List UInt8 → Int → Nat))
    (c : UInt8) :
    findInBuffer p after b startPos index c
      = match nodeAt startPos b with
        | none => (content p b).length
        | some (node, k) => sizeT ((startPos : Int)
            + index.getD simpleIndexFunc c
              ((nodeBytes p node).drop k ++ beyond p after node)
              ((nodeBytes p node).drop k).length) := by
  rw [findInBuffer]
  simp only [ge_iff_le, Nat.zero_le, if_true]
  rw [findLoop_eq _ hb (by omega) (Nat.zero_add startPos)]
  cases nodeAt startPos b with
  | none => exact Nat.zero_add _
  | some r => rfl

/-! ## Which answers are right -/

/-- A `c` that `strchr` reaches in the node is the first one. -/
theorem isFirst_found {bytes seg rest : List UInt8} {start j : Nat} {c : UInt8}
    (hdrop : bytes.drop start = seg ++ rest) (hj : strchr seg c = some j) :
    IsFirst bytes start c (start + j) := by
  obtain ⟨pre, post, rfl, rfl, hc, -⟩ := strchr_eq_some hj
  have hat : ∀ i, bytes[start + i]? = (pre ++ c :: (post ++ rest))[i]? := by
    intro i
    rw [← List.getElem?_drop, hdrop, List.append_assoc, List.cons_append]
  refine Or.inl ⟨Nat.le_add_right _ _, ?_, ?_⟩
  · rw [hat, List.getElem?_append_right (Nat.le_refl _), Nat.sub_self]
    rfl
  · intro q hq hlt hcq
    obtain ⟨i, rfl⟩ := Nat.exists_eq_add_of_le hq
    rw [hat, List.getElem?_append_left (by omega)] at hcq
    exact hc (List.mem_of_getElem? hcq)

/-- "Not found", reported from `start` on. -/
theorem isFirst_absent {bytes : List UInt8} {start : Nat} {c : UInt8}
    (hle : start ≤ bytes.length) (hlt : bytes.length < 2 ^ 64 - 1) :
    IsFirst bytes start c (sizeT ((start : Int) + sizeT (-1)))
      ↔ start = 0 ∧ c ∉ bytes := by
  have hstart : start < 2 ^ 64 - 1 := Nat.lt_of_le_of_lt hle hlt
  rw [IsFirst, sizeT_neg_one]
  have hback : sizeT ((start : Int) + (2 ^ 64 - 1 : Nat))
      = if start = 0 then 2 ^ 64 - 1 else start - 1 := by
    rw [sizeT]
    split <;> omega
  rw [hback]
  have hall : (∀ q, 0 ≤ q → bytes[q]? ≠ some c) ↔ c ∉ bytes := by
    constructor
    · intro h hm
      obtain ⟨q, hq⟩ := List.mem_iff_getElem?.mp hm
      exact h q (Nat.zero_le q) hq
    · exact fun h q _ hq => h (List.mem_of_getElem? hq)
  constructor
  · rintro (⟨h1, h2, -⟩ | ⟨h1, h2⟩)
    · obtain ⟨hr, -⟩ := List.getElem?_eq_some_iff.mp h2
      split at h1 <;> split at hr <;> omega
    · by_cases h0 : start = 0
      · subst h0
        exact ⟨rfl, hall.mp h2⟩
      · rw [if_neg h0] at h1
        omega
  · rintro ⟨rfl, hnot⟩
    exact Or.inr ⟨if_pos rfl, hall.mpr hnot⟩

/-- The end of the content is never the answer. -/
theorem not_isFirst_end {bytes : List UInt8} {start : Nat} {c : UInt8}
    (hlt : bytes.length < 2 ^ 64 - 1) :
    ¬ IsFirst bytes start c bytes.length := by
  rintro (⟨-, h2, -⟩ | ⟨h1, -⟩)
  · rw [List.getElem?_eq_none (Nat.le_refl _)] at h2
    cases h2
  · rw [sizeT_neg_one] at h1
    omega

/-! ## With `check_command_suffix` -/

/-- The node that holds `start_pos` has the character, reached before any NUL; or
    the search starts at the front and the content does not have it. -/
def SuffixFound (p : CachePool) (b : Buffer) (startPos : Nat) (c : UInt8) :
    Prop :=
  (∃ node k, nodeAt startPos b = some (node, k)
    ∧ (strchr ((nodeBytes p node).drop k) c).isSome)
  ∨ (startPos = 0 ∧ b ≠ [] ∧ c ∉ content p b)

/-- What `check_command_suffix` makes of the search. -/
theorem findInBuffer_suffix {p : CachePool} {b : Buffer} (hb : BufferInv p b)
    (hlt : (content p b).length < 2 ^ 64) (after : Addr → List UInt8)
    (startPos : Nat) (c : UInt8) :
    findInBuffer p after b startPos (some checkCommandSuffix) c
      = match nodeAt startPos b with
        | none => (content p b).length
        | some (node, k) => sizeT ((startPos : Int)
            + (strchr ((nodeBytes p node).drop k) c).getD (sizeT (-1))) := by
  rw [findInBuffer_eq hb hlt]
  cases nodeAt startPos b with
  | none => rfl
  | some r =>
      dsimp only
      rw [Option.getD_some, checkCommandSuffix_append]

theorem suffix_correct_iff {p : CachePool} {b : Buffer} (hb : BufferInv p b)
    (hlt : (content p b).length < 2 ^ 64 - 1) (after : Addr → List UInt8)
    (startPos : Nat) (c : UInt8) :
    SearchesContent p after b startPos (some checkCommandSuffix) c
      ↔ SuffixFound p b startPos c := by
  have hfind := findInBuffer_suffix hb (by omega) after startPos c
  have hinside : ∀ p' after', BufferInv p' b →
      (∀ node ∈ b, nodeBytes p' node = nodeBytes p node) →
      findInBuffer p' after' b startPos (some checkCommandSuffix) c
        = findInBuffer p after b startPos (some checkCommandSuffix) c := by
    intro p' after' hb' hsame
    have hcont : content p' b = content p b :=
      List.flatMap_congr fun node hn => hsame node hn
    rw [hfind, findInBuffer_suffix hb' (by rw [hcont]; omega), hcont]
    cases hat : nodeAt startPos b with
    | none => rfl
    | some r =>
        obtain ⟨node, k⟩ := r
        dsimp only
        rw [hsame node (nodeAt_some hb hat).1]
  have hiff : SearchesContent p after b startPos (some checkCommandSuffix) c
      ↔ IsFirst (content p b) startPos c
        (findInBuffer p after b startPos (some checkCommandSuffix) c) :=
    ⟨fun h => h.first, fun h => ⟨h, hinside⟩⟩
  rw [hiff, hfind]
  cases hat : nodeAt startPos b with
  | none =>
      refine iff_of_false (not_isFirst_end hlt) ?_
      rintro (⟨node, k, h, -⟩ | ⟨rfl, hne, -⟩)
      · rw [hat] at h
        cases h
      · cases b with
        | nil => exact hne rfl
        | cons node rest =>
            rw [nodeAt_zero] at hat
            cases hat
  | some r =>
      obtain ⟨node, k⟩ := r
      obtain ⟨-, hk, hle, rest, hdrop⟩ := nodeAt_some hb hat
      dsimp only
      cases hseg : strchr ((nodeBytes p node).drop k) c with
      | some j =>
          have hj : startPos + j < 2 ^ 64 := by
            obtain ⟨pre, post, hsplit, rfl, -, -⟩ := strchr_eq_some hseg
            have h1 := congrArg List.length hdrop
            have h2 := congrArg List.length hsplit
            rw [List.length_append, List.length_drop] at h1
            rw [List.length_append, List.length_cons] at h2
            omega
          have hsum : sizeT ((startPos : Int) + (j : Nat)) = startPos + j := by
            rw [← Int.natCast_add]
            exact sizeT_natCast hj
          rw [Option.getD_some, hsum]
          refine iff_of_true (isFirst_found hdrop hseg) (Or.inl ⟨node, k, hat, ?_⟩)
          rw [hseg]
          rfl
      | none =>
          rw [Option.getD_none, isFirst_absent hle hlt]
          constructor
          · rintro ⟨rfl, hnot⟩
            refine Or.inr ⟨rfl, fun hnil => ?_, hnot⟩
            rw [hnil] at hat
            cases hat
          · rintro (⟨node', k', h, hsome⟩ | ⟨h0, -, hnot⟩)
            · rw [hat] at h
              obtain ⟨rfl, rfl⟩ := Prod.mk.inj (Option.some.inj h)
              rw [hseg] at hsome
              cases hsome
            · exact ⟨h0, hnot⟩

/-! ## With the default index function -/

/-- What stands behind a NUL is not searched. -/
theorem strchr_append_nul {c : UInt8} {seg : List UInt8} (tail : List UInt8)
    (h : strchr seg c = none) (h0 : (0 : UInt8) ∈ seg) :
    strchr (seg ++ tail) c = none := by
  induction seg with
  | nil => exact absurd h0 List.not_mem_nil
  | cons x seg ih =>
      rw [strchr] at h
      rw [List.cons_append, strchr]
      by_cases hx : x = c
      · rw [if_pos hx] at h
        cases h
      · rw [if_neg hx] at h ⊢
        by_cases hz : x = 0
        · rw [if_pos hz]
        · rw [if_neg hz] at h ⊢
          rw [ih (Option.map_eq_none_iff.mp h)
            ((List.mem_cons.mp h0).resolve_left (Ne.symm hz))]
          rfl

/-- Without a NUL the search runs on. -/
theorem strchr_append_on {c : UInt8} {seg : List UInt8} (tail : List UInt8)
    (h : strchr seg c = none) (h0 : (0 : UInt8) ∉ seg) :
    strchr (seg ++ tail) c = (strchr tail c).map (seg.length + ·) := by
  induction seg with
  | nil =>
      rw [List.nil_append, List.length_nil]
      cases strchr tail c with
      | none => rfl
      | some j => exact congrArg some (Nat.zero_add j).symm
  | cons x seg ih =>
      rw [strchr] at h
      rw [List.cons_append, strchr]
      have hz : x ≠ 0 := fun e => h0 (by simp [e])
      by_cases hx : x = c
      · rw [if_pos hx] at h
        cases h
      · rw [if_neg hx, if_neg hz] at h ⊢
        rw [ih (Option.map_eq_none_iff.mp h)
          (fun hm => h0 (List.mem_cons_of_mem _ hm)), Option.map_map]
        cases strchr tail c with
        | none => rfl
        | some j =>
            refine congrArg some ?_
            show seg.length + j + 1 = (x :: seg).length + j
            rw [List.length_cons]
            omega

/-- The room behind the bytes of a node filled with one value. -/
def fillRoom (p : CachePool) (node : InnerNode) (x : UInt8) : CachePool :=
  writeCache p node.cache node.wOffset.toNat (List.replicate
    ((p.mem node.cache).buff.length - node.wOffset.toNat) x)

/-- The buffer does not see it, and the search meets that value first. -/
theorem fillRoom_spec {p : CachePool} {b : Buffer} {node : InnerNode}
    (hb : BufferInv p b) (hn : node ∈ b) (x : UInt8) :
    BufferInv (fillRoom p node x) b
      ∧ (∀ n ∈ b, nodeBytes (fillRoom p node x) n = nodeBytes p n)
      ∧ ∃ m, beyond (fillRoom p node x) (fun _ => [x]) node
        = x :: List.replicate m x := by
  have ho := (hb.offsets node hn).nonneg
  have hroom := hb.room node hn
  have hw : node.wOffset.toNat ≤ (p.mem node.cache).buff.length := by
    simp only [cacheSize] at hroom
    omega
  have hfit : node.wOffset.toNat + (List.replicate
      ((p.mem node.cache).buff.length - node.wOffset.toNat) x).length
      = (p.mem node.cache).buff.length := by
    rw [List.length_replicate]
    omega
  have hother : ∀ n ∈ b, n ≠ node → n.cache ≠ node.cache := by
    intro n hnb hne he
    exact hne (List.inj_on_of_nodup_map hb.nodup hnb hn he)
  have hbuff : ((fillRoom p node x).mem node.cache).buff
      = overwrite (p.mem node.cache).buff node.wOffset.toNat (List.replicate
        ((p.mem node.cache).buff.length - node.wOffset.toNat) x) :=
    buff_writeCache ..
  refine ⟨?_, ?_, ?_⟩
  · exact {
      held := fun n hnb => (held_writeCache ..).mpr (hb.held n hnb)
      nodup := hb.nodup
      room := by
        intro n hnb
        by_cases hne : n = node
        · rw [hne, hbuff, length_overwrite (Nat.le_of_eq hfit)]
          exact hroom
        · rw [fillRoom, mem_writeCache_of_ne p (hother n hnb hne)]
          exact hb.room n hnb
      offsets := hb.offsets
      full := hb.full }
  · intro n hnb
    by_cases hne : n = node
    · rw [hne, nodeBytes, nodeBytes, hbuff]
      refine slice_overwrite_before ?_ hw
      simp only [nodeSize]
      omega
    · rw [nodeBytes, nodeBytes, fillRoom,
        mem_writeCache_of_ne p (hother n hnb hne)]
  · refine ⟨(p.mem node.cache).buff.length - node.wOffset.toNat, ?_⟩
    rw [beyond, hbuff, overwrite, hfit, List.drop_length, List.append_nil,
      List.drop_left' (by rw [List.length_take, Nat.min_eq_left hw]),
      ← List.replicate_succ, List.replicate_succ']

/-- The search starts at the front, a NUL in the first node ends it there, and
    the content does not have the character. -/
def DefaultFound (p : CachePool) (b : Buffer) (startPos : Nat) (c : UInt8) :
    Prop :=
  startPos = 0 ∧ c ∉ content p b
    ∧ ∃ node rest, b = node :: rest ∧ (0 : UInt8) ∈ nodeBytes p node

/-- A character inside the bytes is reported as not found. -/
theorem simpleIndexFunc_inside {c : UInt8} {seg : List UInt8} {j : Nat}
    (tail : List UInt8) (h : strchr seg c = some j) :
    simpleIndexFunc c (seg ++ tail) seg.length = sizeT (-1) := by
  obtain ⟨pre, post, rfl, rfl, hc, hz⟩ := strchr_eq_some h
  have happ : strchr ((pre ++ c :: post) ++ tail) c = some pre.length := by
    rw [List.append_assoc, List.cons_append]
    exact strchr_append _ hc hz
  rw [simpleIndexFunc, happ]
  dsimp only
  rw [if_neg (by
    rw [List.length_append, List.length_cons]
    omega)]

/-- One behind the bytes is reported as found. -/
theorem simpleIndexFunc_on {c : UInt8} {seg : List UInt8} (tail : List UInt8)
    (h : strchr seg c = none) (h0 : (0 : UInt8) ∉ seg) :
    simpleIndexFunc c (seg ++ tail) seg.length
      = ((strchr tail c).map (seg.length + ·)).getD (sizeT (-1)) := by
  rw [simpleIndexFunc, strchr_append_on tail h h0]
  cases strchr tail c with
  | none => rfl
  | some j =>
      rw [Option.map_some, Option.getD_some]
      dsimp only
      rw [if_pos (by omega)]

/-- The bytes in front of a NUL-free end decide nothing: what stands behind them
    does. -/
theorem outside_decides {p : CachePool} {after : Addr → List UInt8} {b : Buffer}
    {startPos k : Nat} {node : InnerNode} {c : UInt8} (hb : BufferInv p b)
    (hlt : (content p b).length < 2 ^ 64 - 1)
    (hat : nodeAt startPos b = some (node, k))
    (hseg : strchr ((nodeBytes p node).drop k) c = none)
    (h0 : (0 : UInt8) ∉ (nodeBytes p node).drop k) :
    ¬ SearchesContent p after b startPos none c := by
  intro hs
  obtain ⟨hmem, -, hle, rest, hdrop⟩ := nodeAt_some hb hat
  have hlen : startPos + ((nodeBytes p node).drop k).length
      ≤ (content p b).length := by
    have h1 := congrArg List.length hdrop
    rw [List.length_append, List.length_drop] at h1
    omega
  have hfill : ∀ x, findInBuffer (fillRoom p node x) (fun _ => [x]) b startPos
      none c = sizeT ((startPos : Int)
        + ((strchr (beyond (fillRoom p node x) (fun _ => [x]) node) c).map
          (((nodeBytes p node).drop k).length + ·)).getD (sizeT (-1))) := by
    intro x
    obtain ⟨hinv, hsame, -⟩ := fillRoom_spec hb hmem x
    have hcont : content (fillRoom p node x) b = content p b :=
      List.flatMap_congr fun n hn => hsame n hn
    rw [findInBuffer_eq hinv (by rw [hcont]; omega), hat]
    dsimp only
    rw [hsame node hmem, Option.getD_none, simpleIndexFunc_on _ hseg h0]
  have hall : ∀ x, findInBuffer (fillRoom p node x) (fun _ => [x]) b startPos
      none c = findInBuffer p after b startPos none c := by
    intro x
    obtain ⟨hinv, hsame, -⟩ := fillRoom_spec hb hmem x
    exact hs.inside _ _ hinv hsame
  -- the character itself right behind the bytes
  have hfound := (hfill c).symm.trans (hall c)
  obtain ⟨-, -, m, hbeyond⟩ := fillRoom_spec hb hmem c
  rw [hbeyond, strchr, if_pos rfl, Option.map_some, Option.getD_some,
    Nat.add_zero, ← Int.natCast_add, sizeT_natCast (by omega)] at hfound
  -- another value there
  obtain ⟨d, hdc⟩ : ∃ d : UInt8, d ≠ c := by
    by_cases hc : c = 0
    · exact ⟨1, by rw [hc]; decide⟩
    · exact ⟨0, Ne.symm hc⟩
  have hmiss := (hfill d).symm.trans (hall d)
  obtain ⟨-, -, n, hbeyond'⟩ := fillRoom_spec hb hmem d
  have hnone : strchr (d :: List.replicate n d) c = none := by
    rw [← List.replicate_succ]
    generalize n + 1 = i
    induction i with
    | zero => rfl
    | succ i ih =>
        rw [List.replicate_succ, strchr, if_neg hdc, ih]
        split <;> rfl
  rw [hbeyond', hnone, Option.map_none, Option.getD_none] at hmiss
  rw [← hfound, sizeT_neg_one, sizeT] at hmiss
  omega

theorem default_correct_iff {p : CachePool} {b : Buffer} (hb : BufferInv p b)
    (hlt : (content p b).length < 2 ^ 64 - 1) (after : Addr → List UInt8)
    (startPos : Nat) (c : UInt8) :
    SearchesContent p after b startPos none c ↔ DefaultFound p b startPos c := by
  have hfind := findInBuffer_eq hb (by omega) after startPos none c
  cases hat : nodeAt startPos b with
  | none =>
      rw [hat] at hfind
      refine iff_of_false (fun h => ?_) ?_
      · have hfirst := h.first
        rw [hfind] at hfirst
        exact not_isFirst_end hlt hfirst
      · rintro ⟨rfl, -, node, rest, rfl, -⟩
        rw [nodeAt_zero] at hat
        cases hat
  | some r =>
      obtain ⟨node, k⟩ := r
      obtain ⟨hmem, hk, hle, rest, hdrop⟩ := nodeAt_some hb hat
      rw [hat] at hfind
      dsimp only at hfind
      rw [Option.getD_none] at hfind
      have hfront : ∀ node' rest', startPos = 0 → b = node' :: rest' →
          nodeBytes p node' = (nodeBytes p node).drop k := by
        rintro node' rest' rfl rfl
        rw [nodeAt_zero] at hat
        obtain ⟨rfl, rfl⟩ := Prod.mk.inj (Option.some.inj hat)
        rfl
      cases hseg : strchr ((nodeBytes p node).drop k) c with
      | some j =>
          -- the character is there
          have hin : c ∈ content p b := by
            obtain ⟨pre, post, hsplit, -, -, -⟩ := strchr_eq_some hseg
            refine List.mem_of_mem_drop (i := startPos) ?_
            rw [hdrop, hsplit]
            simp
          refine iff_of_false (fun h => ?_) (fun h => h.2.1 hin)
          have hfirst := h.first
          rw [hfind, simpleIndexFunc_inside _ hseg, isFirst_absent hle hlt]
            at hfirst
          exact hfirst.2 hin
      | none =>
          by_cases h0 : (0 : UInt8) ∈ (nodeBytes p node).drop k
          · -- a NUL ends the search inside the node
            have hback : ∀ tail, simpleIndexFunc c
                ((nodeBytes p node).drop k ++ tail)
                ((nodeBytes p node).drop k).length = sizeT (-1) := by
              intro tail
              rw [simpleIndexFunc, strchr_append_nul tail hseg h0]
            rw [hback] at hfind
            constructor
            · intro h
              have hfirst := h.first
              rw [hfind, isFirst_absent hle hlt] at hfirst
              refine ⟨hfirst.1, hfirst.2, ?_⟩
              cases b with
              | nil => cases hat
              | cons node' rest' =>
                  refine ⟨node', rest', rfl, ?_⟩
                  rw [hfront node' rest' hfirst.1 rfl]
                  exact h0
            · rintro ⟨hz, hnot, -⟩
              refine ⟨?_, ?_⟩
              · rw [hfind, isFirst_absent hle hlt]
                exact ⟨hz, hnot⟩
              · intro p' after' hb' hsame
                have hcont : content p' b = content p b :=
                  List.flatMap_congr fun n hn => hsame n hn
                rw [hfind, findInBuffer_eq hb' (by rw [hcont]; omega), hat]
                dsimp only
                rw [hsame node hmem, Option.getD_none, hback]
          · refine iff_of_false (outside_decides hb hlt hat hseg h0) ?_
            rintro ⟨hz, -, node', rest', hsplit, hnul⟩
            rw [hfront node' rest' hz hsplit] at hnul
            exact h0 hnul

/-- **THE SEARCH, EXACTLY**: with either index function the call is a correct
    search of the content if and only if the condition for that function holds. -/
theorem find_correct_iff {p : CachePool} {b : Buffer} (hb : BufferInv p b)
    (hlt : (content p b).length < 2 ^ 64 - 1) (after : Addr → List UInt8)
    (startPos : Nat) (c : UInt8) :
    (SearchesContent p after b startPos (some checkCommandSuffix) c
        ↔ SuffixFound p b startPos c)
      ∧ (SearchesContent p after b startPos none c
        ↔ DefaultFound p b startPos c) := by
  exact ⟨suffix_correct_iff hb hlt after startPos c,
    default_correct_iff hb hlt after startPos c⟩

/-- The second `l` of `hello`, searched from position 3. -/
theorem find_correct_secondL : SearchesContent hello.pool (fun _ => []) hello.buffer
    3 (some checkCommandSuffix) 108 := by
  have hat : ((nodeAt 3 hello.buffer).any fun r =>
      (strchr ((nodeBytes hello.pool r.1).drop r.2) 108).isSome) = true := by
    decide +kernel
  obtain ⟨⟨node, k⟩, hnode, hsome⟩ := (Option.any_eq_true _ _).mp hat
  have hlt : (content hello.pool hello.buffer).length < 2 ^ 64 - 1 := by
    decide +kernel
  exact (find_correct_iff hello_inv.2 hlt (fun _ => []) 3 108).1.mpr
    (Or.inl ⟨node, k, hnode, hsome⟩)

/-- In `hello`, `x` searched from position 1 is reported at position 0, and by
    the default function `h` is not found. -/
theorem find_incorrect : BufferInv hello.pool hello.buffer
    ∧ ¬ SearchesContent hello.pool (fun _ => []) hello.buffer 1
      (some checkCommandSuffix) 120
    ∧ ¬ SearchesContent hello.pool (fun _ => []) hello.buffer 0 none 104 := by
  refine ⟨hello_inv.2, fun h => ?_, fun h => ?_⟩
  · have hret : findInBuffer hello.pool (fun _ => []) hello.buffer 1
        (some checkCommandSuffix) 120 = 0 := by decide +kernel
    have hfirst := h.first
    rw [hret] at hfirst
    rcases hfirst with ⟨h1, -⟩ | ⟨h1, -⟩
    · exact absurd h1 (by decide)
    · rw [sizeT_neg_one] at h1
      omega
  · have hret : findInBuffer hello.pool (fun _ => []) hello.buffer 0 none 104
        = 2 ^ 64 - 1 := by decide +kernel
    have hcont : content hello.pool hello.buffer = ascii "hello" := by
      decide +kernel
    have hfirst := h.first
    rw [hret, hcont] at hfirst
    rcases hfirst with ⟨-, h2, -⟩ | ⟨-, h2⟩
    · obtain ⟨hlt, -⟩ := List.getElem?_eq_some_iff.mp h2
      have hfive : (ascii "hello").length = 5 := by decide
      omega
    · exact h2 0 (Nat.le_refl 0) (by decide)

end IMSearch

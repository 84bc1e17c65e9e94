import IMServer.Client
import IMServer.Insertion

/-! # The client's stream — chunks of the standard input

    The client takes what one `read` delivers for one line: it decides once, and
    puts at most one `TO-ALL: ` in front.  `one_line_each_iff` compares what it
    writes with one protocol line for each typed line, for every way the input is
    cut into chunks. -/

namespace IMClientStream

open IMCString IMMessage IMClient IMInsertion

/-- A typed line. -/
def TypedLine (line : List UInt8) : Prop :=
  ∃ text, line = text ++ [10] ∧ (10 : UInt8) ∉ text

/-- `CMD_TO_ALL " "`. -/
def toAllPrefix : List UInt8 := cmdToAll ++ ascii " "

/-- The line of the protocol for a typed line. -/
def protocolLine (line : List UInt8) : List UInt8 :=
  if PrivateForm line then line else toAllPrefix ++ line

/-- What the client writes when `read` delivers the chunks one after the other;
    an empty chunk is a `read` at the end of the input. -/
def clientStream (chunks : List (List UInt8)) : List UInt8 :=
  chunks.flatMap stdinBranch

/-- **ONE LINE EACH**: one protocol line for each typed line, in their order. -/
def OneLineEach (lines : List (List UInt8)) (stream : List UInt8) : Prop :=
  stream = lines.flatMap protocolLine

/-- The server knows the command of a protocol line. -/
theorem protocolLine_command (line : List UInt8) :
    cmdToC <+: protocolLine line ∨ cmdToAll <+: protocolLine line := by
  rw [protocolLine]
  split
  · next h => exact Or.inl (h.1.trans (cstr_isPrefix line))
  · exact Or.inr ((List.prefix_append _ (ascii " ")).trans (List.prefix_append _ _))

/-! ## Where the prefixes stand -/

/-- How many chunks that get the prefix begin at offset `p` of the input. -/
def prefixesAt : List (List UInt8) → Nat → Nat
  | [], _ => 0
  | chunk :: chunks, p =>
      (if ¬ PrivateForm chunk ∧ p = 0 then 1 else 0)
        + if chunk.length ≤ p then prefixesAt chunks (p - chunk.length) else 0

/-- The prefixes in a line: none in a private message, and in any other line one,
    at its start or behind copies of the prefix there. -/
def LinePrefixed (line : List UInt8) (c : Nat → Nat) : Prop :=
  (PrivateForm line → ∀ p < line.length, c p = 0)
    ∧ (¬ PrivateForm line → ∃ r < line.length,
        (∀ p < line.length, c p = if p = r then 1 else 0)
        ∧ line.take r = copies toAllPrefix (r / toAllPrefix.length))

instance (line : List UInt8) (c : Nat → Nat) : Decidable (LinePrefixed line c) :=
  inferInstanceAs (Decidable ((_ → ∀ p < _, _) ∧ (_ → ∃ r < _, _ ∧ _)))

/-- The prefixes in the lines, and none at the end of the input. -/
def LinesPrefixed : List (List UInt8) → (Nat → Nat) → Prop
  | [], c => c 0 = 0
  | line :: lines, c =>
      LinePrefixed line c ∧ LinesPrefixed lines (fun p => c (line.length + p))

/-- The stream is the input with the prefixes in their places. -/
theorem clientStream_eq : ∀ {chunks : List (List UInt8)},
    (∀ chunk ∈ chunks, chunk.length ≤ 1016) →
      clientStream chunks = weave toAllPrefix chunks.flatten (prefixesAt chunks)
  | [], _ => rfl
  | chunk :: chunks, h => by
      have hrest := clientStream_eq
        (fun c hc => h c (List.mem_cons_of_mem _ hc))
      have hbranch : stdinBranch chunk = protocolLine chunk :=
        (stdinBranch_eq (h chunk List.mem_cons_self)).trans
          (by simp [protocolLine, toAllPrefix, ascii])
      have hbehind : ∀ p, prefixesAt (chunk :: chunks) (chunk.length + p)
          = (if ¬ PrivateForm chunk ∧ chunk.length + p = 0 then 1 else 0)
            + prefixesAt chunks p := by
        intro p
        rw [prefixesAt, if_pos (Nat.le_add_right _ _), Nat.add_sub_cancel_left]
      rw [clientStream, List.flatMap_cons, List.flatten_cons, weave_append,
        ← clientStream, hrest, hbranch]
      simp only [hbehind]
      cases chunk with
      | nil =>
          have hnot : ¬ PrivateForm [] := by decide
          simp only [List.length_nil, Nat.zero_add, hnot, not_false_eq_true,
            true_and, weave_here, inside, protocolLine, if_false, List.append_nil,
            List.nil_append]
      | cons b w =>
          have hwithin : ∀ p < (b :: w).length, prefixesAt ((b :: w) :: chunks) p
              = if ¬ PrivateForm (b :: w) ∧ p = 0 then 1 else 0 := by
            intro p hp
            rw [prefixesAt, if_neg (Nat.not_le_of_lt hp), Nat.add_zero]
          have hafter : ∀ p, ¬ ((b :: w).length + p = 0) := fun p => by
            rw [List.length_cons]
            omega
          simp only [hafter, and_false, if_false, Nat.zero_add]
          rw [inside_congr toAllPrefix hwithin, protocolLine]
          by_cases hp : PrivateForm (b :: w)
          · simp only [hp, not_true_eq_false, false_and, if_false, if_true,
              inside_zero]
          · simp only [hp, not_false_eq_true, true_and, if_false]
            rw [inside_single toAllPrefix (Nat.succ_pos _)]
            rfl

/-! ## Comparing the lines -/

/-- Two streams that begin with a line agree in that line and in the rest. -/
theorem line_append_inj {a b x y : List UInt8} (ha : TypedLine a)
    (hb : TypedLine b) : a ++ x = b ++ y ↔ a = b ∧ x = y := by
  refine ⟨fun h => ?_, fun h => h.1 ▸ h.2 ▸ rfl⟩
  obtain ⟨s, rfl, hs⟩ := ha
  obtain ⟨t, rfl, ht⟩ := hb
  rw [List.append_assoc, List.append_assoc, List.singleton_append,
    List.singleton_append] at h
  have hlen := congrArg (List.idxOf 10) h
  rw [List.idxOf_append_of_notMem hs, List.idxOf_append_of_notMem ht,
    List.idxOf_cons_self, List.idxOf_cons_self] at hlen
  obtain ⟨rfl, hrest⟩ := List.append_inj h hlen
  exact ⟨rfl, (List.cons.inj hrest).2⟩

theorem newline_notMem_prefix : (10 : UInt8) ∉ toAllPrefix := by decide

/-- What stands in the place of a line is a line. -/
theorem typedLine_inside {line : List UInt8} (h : TypedLine line)
    (c : Nat → Nat) : TypedLine (inside toAllPrefix line c) := by
  obtain ⟨text, rfl, h10⟩ := h
  refine ⟨inside toAllPrefix text c ++ copies toAllPrefix (c text.length), ?_, ?_⟩
  · rw [inside_append, List.append_assoc]
    rfl
  · intro hm
    rcases List.mem_append.mp hm with hm | hm
    · exact (mem_inside hm).elim newline_notMem_prefix h10
    · exact newline_notMem_prefix (mem_copies hm)

theorem typedLine_protocolLine {line : List UInt8} (h : TypedLine line) :
    TypedLine (protocolLine line) := by
  rw [protocolLine]
  split
  · exact h
  · obtain ⟨text, rfl, h10⟩ := h
    refine ⟨toAllPrefix ++ text, (List.append_assoc ..).symm, fun hm => ?_⟩
    exact (List.mem_append.mp hm).elim newline_notMem_prefix h10

theorem unbordered_toAllPrefix : Unbordered toAllPrefix := by
  have hproper : ∀ k < 8, 0 < k →
      toAllPrefix.take k ≠ toAllPrefix.drop (8 - k) := by decide
  intro v hne hpre hsuf
  have hpos := List.length_pos_iff.mpr hne
  by_contra hv
  have hlt : v.length < 8 :=
    Nat.lt_of_le_of_ne hpre.length_le fun e => hv (hpre.eq_of_length e)
  exact hproper v.length hlt hpos ((List.prefix_iff_eq_take.mp hpre).symm.trans
    (List.suffix_iff_eq_drop.mp hsuf))

/-- One line: the prefixes in it make it a protocol line. -/
theorem linePrefixed_iff {line : List UInt8} (c : Nat → Nat) :
    inside toAllPrefix line c = protocolLine line ↔ LinePrefixed line c := by
  have h8 : toAllPrefix.length = 8 := rfl
  have hlen := length_inside toAllPrefix line c
  rw [protocolLine, LinePrefixed]
  by_cases hp : PrivateForm line
  · rw [if_pos hp]
    simp only [hp, forall_const, not_true_eq_false, IsEmpty.forall_iff, and_true]
    constructor
    · intro h
      rw [h, h8] at hlen
      exact total_eq_zero.mp (by omega)
    · intro h
      rw [inside_congr toAllPrefix h, inside_zero]
  · rw [if_neg hp]
    simp only [hp, IsEmpty.forall_iff, not_false_eq_true, forall_const, true_and]
    have hcomm : ∀ {u : List UInt8}, u ++ toAllPrefix = toAllPrefix ++ u
        ↔ ∃ k, u = copies toAllPrefix k :=
      append_comm_iff (by decide) unbordered_toAllPrefix
    constructor
    · intro h
      rw [h, List.length_append, h8] at hlen
      obtain ⟨r, hr, hone⟩ := total_eq_one
        (show total c line.length = 1 by omega)
      rw [inside_congr toAllPrefix hone, inside_single toAllPrefix hr] at h
      have htake : line.take r ++ toAllPrefix = toAllPrefix ++ line.take r := by
        refine List.append_cancel_right (h.trans ?_)
        rw [List.append_assoc, List.take_append_drop]
      obtain ⟨k, hk⟩ := hcomm.mp htake
      refine ⟨r, hr, hone, ?_⟩
      have hlenk := congrArg List.length hk
      rw [length_copies, List.length_take, Nat.min_eq_left hr.le] at hlenk
      rw [hk, hlenk, Nat.mul_div_cancel _ (by decide)]
    · rintro ⟨r, hr, hone, hk⟩
      rw [inside_congr toAllPrefix hone, inside_single toAllPrefix hr,
        hcomm.mpr ⟨_, hk⟩, List.append_assoc, List.take_append_drop]

theorem weave_lines_iff : ∀ {lines : List (List UInt8)},
    (∀ line ∈ lines, TypedLine line) → ∀ c : Nat → Nat,
      weave toAllPrefix lines.flatten c = lines.flatMap protocolLine
        ↔ LinesPrefixed lines c
  | [], _, c => by
      show copies toAllPrefix (c 0) = [] ↔ c 0 = 0
      rw [← List.length_eq_zero_iff, length_copies, Nat.mul_eq_zero]
      exact or_iff_left (by decide)
  | line :: lines, h, c => by
      have hline := h line List.mem_cons_self
      rw [List.flatten_cons, weave_append, List.flatMap_cons,
        line_append_inj (typedLine_inside hline c) (typedLine_protocolLine hline),
        linePrefixed_iff,
        weave_lines_iff (fun l hl => h l (List.mem_cons_of_mem _ hl)),
        LinesPrefixed]

/-- **ONE PROTOCOL LINE FOR EACH TYPED LINE**: for all lines and every way their
    bytes are cut into chunks, the client's stream is right if and only if the
    chunks that get the prefix begin where it belongs. -/
theorem one_line_each_iff {lines chunks : List (List UInt8)}
    (hlines : ∀ line ∈ lines, TypedLine line)
    (hchunks : ∀ chunk ∈ chunks, chunk.length ≤ 1016)
    (hcut : chunks.flatten = lines.flatten) :
    OneLineEach lines (clientStream chunks)
      ↔ LinesPrefixed lines (prefixesAt chunks) := by
  rw [OneLineEach, clientStream_eq hchunks, hcut]
  exact weave_lines_iff hlines _

/-- Two lines, and each comes in a chunk of its own. -/
theorem one_line_each_typed : OneLineEach
    [ascii "hi\n", ascii "TO-C-bob: hi\n"]
    (clientStream [ascii "hi\n", ascii "TO-C-bob: hi\n"]) := by
  refine (one_line_each_iff ?_ (by decide) rfl).mpr
    ⟨by decide +kernel, by decide +kernel, rfl⟩
  intro line hm
  rcases List.mem_cons.mp hm with rfl | hm
  · exact ⟨ascii "hi", by decide, by decide⟩
  · rw [List.mem_singleton.mp hm]
    exact ⟨ascii "TO-C-bob: hi", by decide, by decide⟩

/-- Two lines in one chunk get one prefix, and a line in two chunks gets two: the
    second is in its text. -/
theorem one_line_each_fails :
    ([ascii "a\nb\n"].flatten = [ascii "a\n", ascii "b\n"].flatten
      ∧ clientStream [ascii "a\nb\n"] = ascii "TO-ALL: a\nb\n"
      ∧ ¬ OneLineEach [ascii "a\n", ascii "b\n"] (clientStream [ascii "a\nb\n"]))
    ∧ [ascii "ab", ascii "cd\n"].flatten = [ascii "abcd\n"].flatten
      ∧ clientStream [ascii "ab", ascii "cd\n"] = ascii "TO-ALL: abTO-ALL: cd\n"
      ∧ ¬ OneLineEach [ascii "abcd\n"] (clientStream [ascii "ab", ascii "cd\n"]) := by
  unfold OneLineEach
  decide +kernel

end IMClientStream

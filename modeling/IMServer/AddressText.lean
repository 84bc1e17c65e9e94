import Mathlib.Algebra.GroupWithZero.Nat
import IMServer.CString

/-! # The text of an address — `inet_ntop`

    An IPv4 address is printed as four decimal numbers.  An IPv6 address is
    eight words, printed in hexadecimal; the longest run of two or more zero
    words is left out, and an address that only embeds an IPv4 address ends in
    its text.  `length_inet6Text` says that 46 bytes hold every such text and its
    NUL byte. -/

namespace IMAddressText

open IMBytes IMCString

/-- `%u` and `%x`: a number in a base. -/
def digits (base n : Nat) : List UInt8 :=
  (Nat.toDigits base n).map fun c => UInt8.ofNat c.toNat

/-- The text of an IPv4 address, the bytes in network order. -/
def inet4Text (src : List UInt8) : List UInt8 :=
  [46].intercalate ((src.take 4).map fun b => digits 10 b.toNat)

/-- The words of an IPv6 address: two bytes each, in network order. -/
def words : List UInt8 → List Nat
  | hi :: lo :: rest => (hi.toNat * 256 + lo.toNat) :: words rest
  | _ => []

/-- A run of zero words. -/
structure Run where
  base : Nat
  len : Nat
  deriving DecidableEq

/-- The longer of two runs, the earlier one of two equals. -/
def better : Option Run → Option Run → Option Run
  | best, none => best
  | none, some cur => some cur
  | some best, some cur => if cur.len > best.len then some cur else some best

/-- The first loop: the best run so far and the current one. -/
def scanRuns : List Nat → Nat → Option Run → Option Run → Option Run
  | [], _, best, cur => better best cur
  | w :: ws, i, best, none =>
      if w = 0 then scanRuns ws (i + 1) best (some ⟨i, 1⟩)
      else scanRuns ws (i + 1) best none
  | w :: ws, i, best, some cur =>
      if w = 0 then scanRuns ws (i + 1) best (some ⟨cur.base, cur.len + 1⟩)
      else scanRuns ws (i + 1) (better best (some cur)) none

/-- The run that is left out; a single zero word is printed. -/
def bestRun (ws : List Nat) : Option Run :=
  (scanRuns ws 0 none none).filter fun run => 2 ≤ run.len

/-- The word at `i` is left out. -/
def Run.Covers (run : Run) (i : Nat) : Prop :=
  run.base ≤ i ∧ i < run.base + run.len

instance (run : Run) (i : Nat) : Decidable (run.Covers i) :=
  inferInstanceAs (Decidable (_ ∧ _))

/-- The run in front of an embedded IPv4 address. -/
def Run.Embeds (run : Run) (ws : List Nat) : Prop :=
  run.base = 0 ∧ (run.len = 6 ∨ run.len = 5 ∧ ws.getD 5 0 = 0xffff)

instance (run : Run) (ws : List Nat) : Decidable (run.Embeds ws) :=
  inferInstanceAs (Decidable (_ ∧ _))

/-- A colon on a condition. -/
def colonIf (c : Prop) [Decidable c] : List UInt8 := if c then [58] else []

/-- The second loop, from the word at `i` on; `embedded` is the text of the last
    four bytes when it is to be used. -/
def formatWords (best : Option Run) (embedded : Option (List UInt8)) :
    List Nat → Nat → List UInt8
  | [], _ => []
  | w :: ws, i =>
      if best.any fun run => run.Covers i then
        colonIf (best.any fun run => i = run.base)
          ++ formatWords best embedded ws (i + 1)
      else
        -- the loop ends behind an embedded address
        colonIf (i ≠ 0)
          ++ match if i = 6 then embedded else none with
            | some text => text
            | none => digits 16 w ++ formatWords best embedded ws (i + 1)

/-- The text of an IPv6 address. -/
def inet6Text (src : List UInt8) : List UInt8 :=
  let ws := words (src.take 16)
  let best := bestRun ws
  let embedded := if best.any fun run => run.Embeds ws then
    some (inet4Text (src.drop 12)) else none
  formatWords best embedded ws 0
    ++ colonIf (best.any fun run => run.base + run.len = 8)

/-- The address families. -/
inductive Family where
  | inet
  | inet6
  deriving DecidableEq

/-- The size of an address. -/
def Family.addrSize : Family → Nat
  | .inet => 4
  | .inet6 => 16

/-- `INET_ADDRSTRLEN` and `INET6_ADDRSTRLEN`. -/
def Family.addrstrlen : Family → Nat
  | .inet => 16
  | .inet6 => 46

/-- The text of an address of a family. -/
def addressText : Family → List UInt8 → List UInt8
  | .inet => inet4Text
  | .inet6 => inet6Text

/-- `inet_ntop`: the destination with the text, none when the text and its NUL
    byte are more than `size` bytes. -/
def inetNtop (af : Family) (src dst : List UInt8) (size : Nat) :
    Option (List UInt8) :=
  let text := addressText af src
  if text.length + 1 > size then none else some (strcpy dst text)

/-! ## Digits -/

theorem digitChar_ne_zero (n : Nat) :
    UInt8.ofNat n.digitChar.toNat ≠ 0 := by
  match n with
  | 0 | 1 | 2 | 3 | 4 | 5 | 6 | 7 | 8 | 9 | 10 | 11 | 12 | 13 | 14 | 15 => decide
  | _ + 16 => simp [Nat.digitChar]

theorem zero_notMem_digits {base : Nat} (hbase : 1 < base) (n : Nat) :
    (0 : UInt8) ∉ digits base n := by
  induction n using Nat.strongRecOn with
  | _ n ih =>
      rw [digits, Nat.toDigits_eq_if hbase]
      split
      · simpa using (digitChar_ne_zero n).symm
      · next hn =>
          rw [List.map_append, List.mem_append]
          rintro (hm | hm)
          · exact ih (n / base) (Nat.div_lt_self (by omega) hbase) hm
          · exact digitChar_ne_zero _ (List.mem_singleton.mp hm).symm

theorem length_digits {base k n : Nat} (hbase : 1 < base) (hk : 0 < k)
    (hn : n < base ^ k) : (digits base n).length ≤ k := by
  rw [digits, List.length_map]
  exact (Nat.length_toDigits_le_iff hbase hk).mpr hn

/-! ## IPv4 -/

theorem length_intercalate {α : Type} (sep : α) {k : Nat} {l : List (List α)}
    (h : ∀ xs ∈ l, xs.length ≤ k) :
    ([sep].intercalate l).length ≤ l.length * (k + 1) - 1 := by
  induction l with
  | nil => simp
  | cons xs l ih =>
      have hxs := h xs (List.mem_cons_self ..)
      have hl := ih fun ys hys => h ys (List.mem_cons_of_mem _ hys)
      cases l with
      | nil => simpa using hxs
      | cons ys l =>
          simp only [List.intercalate_cons_cons, List.length_append,
            List.length_cons, List.length_nil] at hl ⊢
          rw [Nat.add_mul (l.length + 1) 1]
          have hmul : 0 < (l.length + 1) * (k + 1) :=
            Nat.mul_pos (Nat.succ_pos _) (Nat.succ_pos _)
          omega

theorem mem_intercalate {α : Type} {sep x : α} {l : List (List α)}
    (h : x ∈ [sep].intercalate l) : x = sep ∨ ∃ xs ∈ l, x ∈ xs := by
  induction l with
  | nil => simp at h
  | cons xs l ih =>
      cases l with
      | nil => exact Or.inr ⟨xs, List.mem_cons_self .., by simpa using h⟩
      | cons ys l =>
          rw [List.intercalate_cons_cons, List.mem_append, List.mem_append] at h
          rcases h with (hx | hsep) | hl
          · exact Or.inr ⟨xs, List.mem_cons_self .., hx⟩
          · exact Or.inl (List.mem_singleton.mp hsep)
          · rcases ih hl with heq | ⟨zs, hzs, hx⟩
            · exact Or.inl heq
            · exact Or.inr ⟨zs, List.mem_cons_of_mem _ hzs, hx⟩

theorem zero_notMem_inet4Text (src : List UInt8) :
    (0 : UInt8) ∉ inet4Text src := by
  intro h
  rcases mem_intercalate h with hsep | ⟨text, htext, hm⟩
  · cases hsep
  · obtain ⟨b, -, rfl⟩ := List.mem_map.mp htext
    exact zero_notMem_digits (by decide) _ hm

/-- Four numbers of at most three digits, and three dots. -/
theorem length_inet4Text (src : List UInt8) : (inet4Text src).length ≤ 15 := by
  have hlen := length_intercalate (46 : UInt8) (k := 3)
    (l := (src.take 4).map fun b => digits 10 b.toNat) (by
      rintro _ hm
      obtain ⟨b, -, rfl⟩ := List.mem_map.mp hm
      exact length_digits (by decide) (by decide)
        (Nat.lt_trans b.toNat_lt (by decide)))
  rw [List.length_map, List.length_take] at hlen
  rw [inet4Text]
  omega

/-! ## IPv6 -/

theorem length_words : ∀ {n : Nat} {src : List UInt8}, src.length = 2 * n →
    (words src).length = n
  | 0, [], _ => rfl
  | n + 1, hi :: lo :: rest, h => by
      have hrest : rest.length = 2 * n := by
        simp only [List.length_cons] at h
        omega
      exact congrArg (· + 1) (length_words hrest)
  | n + 1, [b], h => by
      rw [List.length_singleton] at h
      omega

theorem words_lt : ∀ {src : List UInt8} {w : Nat}, w ∈ words src → w < 16 ^ 4
  | hi :: lo :: rest, w, h => by
      -- two bytes, four digits
      have hhi := hi.toNat_lt
      have hlo := lo.toNat_lt
      rcases List.mem_cons.mp h with heq | hm
      · omega
      · exact words_lt hm

theorem length_colonIf (c : Prop) [Decidable c] : (colonIf c).length ≤ 1 := by
  unfold colonIf
  split <;> simp

theorem zero_notMem_colonIf (c : Prop) [Decidable c] :
    (0 : UInt8) ∉ colonIf c := by
  unfold colonIf
  split <;> simp

theorem zero_notMem_formatWords {best : Option Run}
    {embedded : Option (List UInt8)}
    (h : ∀ text ∈ embedded, (0 : UInt8) ∉ text) (ws : List Nat) :
    ∀ i, (0 : UInt8) ∉ formatWords best embedded ws i := by
  induction ws with
  | nil => intro i; simp [formatWords]
  | cons w ws ih =>
      intro i hm
      rw [formatWords] at hm
      split at hm
      · rcases List.mem_append.mp hm with hcolon | hrest
        · exact zero_notMem_colonIf _ hcolon
        · exact ih _ hrest
      · rcases List.mem_append.mp hm with hcolon | hword
        · exact zero_notMem_colonIf _ hcolon
        · split at hword
          · next text htext =>
              refine h text ?_ hword
              split at htext
              · exact htext
              · cases htext
          · rcases List.mem_append.mp hword with hdigits | hrest
            · exact zero_notMem_digits (by decide) _ hdigits
            · exact ih _ hrest

/-- Each word takes at most a colon and four digits; an embedded text stands for
    two words. -/
theorem length_formatWords (best : Option Run)
    {embedded : Option (List UInt8)} {k : Nat}
    (h : ∀ text ∈ embedded, text.length ≤ 9 + k) (ws : List Nat) :
    ∀ i, i + ws.length = 8 → (∀ w ∈ ws, w < 16 ^ 4) →
      (formatWords best embedded ws i).length ≤ 5 * ws.length + k := by
  induction ws with
  | nil => intro i _ _; simp [formatWords]
  | cons w ws ih =>
      intro i hi hws
      rw [List.length_cons] at hi ⊢
      have hrest := ih (i + 1) (by omega) fun v hv =>
        hws v (List.mem_cons_of_mem _ hv)
      rw [formatWords]
      split
      · have hcolon := length_colonIf (best.any fun run => i = run.base)
        rw [List.length_append]
        omega
      · have hcolon := length_colonIf (i ≠ 0)
        rw [List.length_append]
        split
        · next text htext =>
            -- only at the seventh word, with two words to go
            split at htext
            · have := h text htext
              omega
            · cases htext
        · have hdigits := length_digits (by decide) (by decide)
            (hws w (List.mem_cons_self ..))
          rw [List.length_append]
          omega

/-- The run in front of an embedded address begins the text. -/
theorem length_formatWords_covered {best : Option Run}
    {embedded : Option (List UInt8)} {k : Nat}
    (h : ∀ text ∈ embedded, text.length ≤ 9 + k) {ws : List Nat}
    (hlen : ws.length = 8) (hws : ∀ w ∈ ws, w < 16 ^ 4)
    (hcovers : best.any fun run => run.Covers 0) :
    (formatWords best embedded ws 0).length ≤ 36 + k := by
  cases ws with
  | nil => cases hlen
  | cons w ws =>
      rw [List.length_cons] at hlen
      have hcolon := length_colonIf (best.any fun run => 0 = run.base)
      have hrest := length_formatWords best h ws 1 (by omega)
        fun v hv => hws v (List.mem_cons_of_mem _ hv)
      rw [formatWords, if_pos hcovers, List.length_append, Nat.zero_add]
      omega

theorem zero_notMem_inet6Text (src : List UInt8) :
    (0 : UInt8) ∉ inet6Text src := by
  intro h
  rcases List.mem_append.mp h with hwords | hcolon
  · refine zero_notMem_formatWords ?_ _ _ hwords
    intro text htext
    split at htext
    · obtain rfl := Option.some.inj htext
      exact zero_notMem_inet4Text _
    · cases htext
  · exact zero_notMem_colonIf _ hcolon

/-- **THE LONGEST TEXT**: 46 bytes hold every IPv6 text and its NUL byte. -/
theorem length_inet6Text {src : List UInt8} (h : 16 ≤ src.length) :
    (inet6Text src).length ≤ 45 := by
  have hlen : (words (src.take 16)).length = 8 :=
    length_words (by rw [List.length_take, Nat.min_eq_left h])
  have hcolon := length_colonIf
    ((bestRun (words (src.take 16))).any fun run => run.base + run.len = 8)
  rw [inet6Text, List.length_append]
  -- an embedded address is longer than two words, but the run in front of it
  -- has taken no more than a colon
  split
  · next hembeds =>
      have hcovers : (bestRun (words (src.take 16))).any fun run =>
          run.Covers 0 := by
        revert hembeds
        cases bestRun (words (src.take 16)) with
        | none => exact id
        | some run =>
            simp only [Option.any_some, decide_eq_true_eq]
            rintro ⟨hbase, hrun⟩
            exact ⟨by omega, by omega⟩
      have htext : ∀ text ∈ some (inet4Text (src.drop 12)),
          text.length ≤ 9 + 6 := by
        rintro text ⟨⟩
        exact length_inet4Text _
      have hwords := length_formatWords_covered htext hlen (fun _ => words_lt)
        hcovers
      omega
  · have hnone : ∀ text ∈ (none : Option (List UInt8)),
        text.length ≤ 9 + 0 := by
      rintro text ⟨⟩
    have hwords := length_formatWords (bestRun (words (src.take 16))) hnone
      (words (src.take 16)) 0 (by omega) fun _ => words_lt
    omega

/-! ## Conversion -/

theorem zero_notMem_addressText (af : Family) (src : List UInt8) :
    (0 : UInt8) ∉ addressText af src := by
  cases af with
  | inet => exact zero_notMem_inet4Text src
  | inet6 => exact zero_notMem_inet6Text src

/-- `INET_ADDRSTRLEN` and `INET6_ADDRSTRLEN` bytes suffice. -/
theorem length_addressText {af : Family} {src : List UInt8}
    (h : af.addrSize ≤ src.length) :
    (addressText af src).length + 1 ≤ af.addrstrlen := by
  cases af with
  | inet => exact Nat.succ_le_succ (length_inet4Text src)
  | inet6 => exact Nat.succ_le_succ (length_inet6Text h)

/-- `inet_ntop` fails exactly when the text and its NUL byte are too long. -/
theorem inetNtop_eq_none {af : Family} {src dst : List UInt8} {size : Nat} :
    inetNtop af src dst size = none
      ↔ (addressText af src).length + 1 > size := by
  simp only [inetNtop]
  split
  · next h => exact ⟨fun _ => h, fun _ => rfl⟩
  · next h => exact ⟨fun he => (by cases he), fun hgt => absurd hgt h⟩

/-- What a conversion stores: the text, within the destination. -/
theorem inetNtop_stored {af : Family} {src dst : List UInt8} {size : Nat}
    (h : (addressText af src).length + 1 ≤ size) (hdst : size ≤ dst.length) :
    ∃ dst', inetNtop af src dst size = some dst'
      ∧ cstr dst' = addressText af src ∧ dst'.length = dst.length := by
  have htext := cstr_of_notMem (zero_notMem_addressText af src)
  refine ⟨strcpy dst (addressText af src), ?_, ?_, ?_⟩
  · rw [inetNtop]
    exact if_neg (Nat.not_lt.mpr h)
  · rw [cstr_strcpy, htext]
  · rw [strcpy, htext]
    refine length_overwrite ?_
    rw [List.length_append, List.length_singleton, Nat.zero_add]
    exact Nat.le_trans h hdst

example : addressText .inet6
    [0x20, 0x01, 0x0d, 0xb8, 0, 0, 0, 0, 0, 0, 0, 0, 0, 0, 0, 1]
      = ascii "2001:db8::1" := by decide +kernel

end IMAddressText

import IMServer.Bytes

/-! # C strings — the `string.h` functions on memory

    A pointer is the memory from it on, a list of bytes; the string at a pointer
    ends before the first NUL byte.  A list that ends without a NUL byte is read
    as if a NUL byte followed.  Searching functions return the offset of the
    match, copying functions the destination block after the copy. -/

namespace IMCString

open IMBytes

/-- The bytes of an ASCII literal, without the terminating NUL byte. -/
def ascii (s : String) : List UInt8 :=
  s.toList.map fun c => UInt8.ofNat c.toNat

/-- The string at a pointer. -/
def cstr (m : List UInt8) : List UInt8 :=
  m.takeWhile fun b => b != 0

/-- `strlen`. -/
def strlen (m : List UInt8) : Nat :=
  (cstr m).length

/-- `strchr` (and `index`): the first `c`, searched up to the NUL byte. -/
def strchr : List UInt8 → UInt8 → Option Nat
  | [], _ => none
  | b :: m, c =>
      if b = c then some 0
      else if b = 0 then none
      else (strchr m c).map (· + 1)

/-- `strstr`: the first occurrence of `pat`, searched up to the NUL byte. -/
def strstr : List UInt8 → List UInt8 → Option Nat
  | [], pat => if pat = [] then some 0 else none
  | b :: m, pat =>
      if pat.isPrefixOf (cstr (b :: m)) then some 0
      else if b = 0 then none
      else (strstr m pat).map (· + 1)

/-- `strcmp`: the difference of the first bytes in which the strings differ. -/
def strcmp : List UInt8 → List UInt8 → Int
  | [], [] => 0
  | [], b :: _ => -(b.toNat : Int)
  | a :: _, [] => (a.toNat : Int)
  | a :: m, b :: n =>
      if a ≠ b then (a.toNat : Int) - b.toNat
      else if a = 0 then 0
      else strcmp m n

/-- `strcpy`: the string and its NUL byte, to the start of the block. -/
def strcpy (dst src : List UInt8) : List UInt8 :=
  overwrite dst 0 (cstr src ++ [0])

/-- `strncpy`: at most `n` bytes of the string, filled up with NUL bytes to `n`;
    no NUL byte when the string has `n` bytes or more. -/
def strncpy (dst src : List UInt8) (n : Nat) : List UInt8 :=
  overwrite dst 0
    ((cstr src).take n ++ List.replicate (n - (cstr src).length) 0)

/-! ## The string at a pointer -/

theorem cstr_cons_zero (m : List UInt8) : cstr (0 :: m) = [] := rfl

theorem cstr_cons {b : UInt8} (hb : b ≠ 0) (m : List UInt8) :
    cstr (b :: m) = b :: cstr m := by
  simp [cstr, hb]

theorem zero_notMem_cstr (m : List UInt8) : (0 : UInt8) ∉ cstr m := by
  induction m with
  | nil => simp [cstr]
  | cons b m ih =>
      by_cases hb : b = 0
      · rw [hb, cstr_cons_zero]
        simp
      · rw [cstr_cons hb]
        intro hm
        rcases List.mem_cons.mp hm with h0 | hrest
        · exact hb h0.symm
        · exact ih hrest

/-- The string at `s ++ m` for a NUL-free `s` goes on with the string at `m`. -/
theorem cstr_append {s : List UInt8} (hs : (0 : UInt8) ∉ s) (m : List UInt8) :
    cstr (s ++ m) = s ++ cstr m := by
  induction s with
  | nil => rfl
  | cons b s ih =>
      rw [List.cons_append, cstr_cons (fun h => hs (by simp [h])),
        ih (fun h => hs (List.mem_cons_of_mem _ h)), List.cons_append]

/-- A NUL-free string and its terminator. -/
theorem cstr_append_zero {s : List UInt8} (hs : (0 : UInt8) ∉ s)
    (m : List UInt8) : cstr (s ++ 0 :: m) = s := by
  rw [cstr_append hs, cstr_cons_zero, List.append_nil]

theorem cstr_of_notMem {s : List UInt8} (hs : (0 : UInt8) ∉ s) :
    cstr s = s := by
  have h := cstr_append hs []
  rw [List.append_nil] at h
  rw [h]
  exact List.append_nil s

theorem cstr_isPrefix (m : List UInt8) : cstr m <+: m :=
  List.takeWhile_prefix _

theorem cstr_replicate_zero (n : Nat) :
    cstr (List.replicate n (0 : UInt8)) = [] := by
  cases n with
  | zero => rfl
  | succ n => exact cstr_cons_zero _

theorem strlen_le (m : List UInt8) : strlen m ≤ m.length :=
  (cstr_isPrefix m).length_le

/-- A block with a NUL byte is longer than its string. -/
theorem strlen_lt {m : List UInt8} (h : (0 : UInt8) ∈ m) :
    strlen m < m.length := by
  refine Nat.lt_of_le_of_ne (strlen_le m) ?_
  intro he
  have hm : cstr m = m := (cstr_isPrefix m).eq_of_length he
  exact zero_notMem_cstr m (hm.symm ▸ h)

/-! ## Searching -/

/-- What a successful `strchr` says: neither `c` nor NUL stands before it. -/
theorem strchr_eq_some {c : UInt8} :
    ∀ {m : List UInt8} {i : Nat}, strchr m c = some i →
      ∃ pre post, m = pre ++ c :: post ∧ pre.length = i
        ∧ c ∉ pre ∧ (0 : UInt8) ∉ pre := by
  intro m
  induction m with
  | nil => intro i h; cases h
  | cons b m ih =>
      intro i h
      rw [strchr] at h
      by_cases hb : b = c
      · rw [if_pos hb] at h
        have hi : 0 = i := Option.some.inj h
        exact ⟨[], m, by rw [hb]; rfl, hi, by simp, by simp⟩
      · rw [if_neg hb] at h
        by_cases h0 : b = 0
        · rw [if_pos h0] at h
          cases h
        · rw [if_neg h0] at h
          obtain ⟨j, hj, hji⟩ := Option.map_eq_some_iff.mp h
          obtain ⟨pre, post, hm, hlen, hc, hz⟩ := ih hj
          refine ⟨b :: pre, post, by rw [hm]; rfl, ?_, ?_, ?_⟩
          · rw [List.length_cons, hlen]
            exact hji
          · intro hmem
            rcases List.mem_cons.mp hmem with heq | hrest
            · exact hb heq.symm
            · exact hc hrest
          · intro hmem
            rcases List.mem_cons.mp hmem with heq | hrest
            · exact h0 heq.symm
            · exact hz hrest

theorem strchr_append {c : UInt8} {pre : List UInt8} (post : List UInt8)
    (hc : c ∉ pre) (hz : (0 : UInt8) ∉ pre) :
    strchr (pre ++ c :: post) c = some pre.length := by
  induction pre with
  | nil => simp [strchr]
  | cons b pre ih =>
      have hb : b ≠ c := fun h => hc (by simp [h])
      have h0 : b ≠ 0 := fun h => hz (by simp [h])
      rw [List.cons_append, strchr, if_neg hb, if_neg h0,
        ih (fun h => hc (List.mem_cons_of_mem _ h))
          (fun h => hz (List.mem_cons_of_mem _ h))]
      rfl

/-- `strchr` finds nothing exactly when the string has no `c`. -/
theorem strchr_eq_none {c : UInt8} (hc0 : c ≠ 0) {m : List UInt8} :
    strchr m c = none ↔ c ∉ cstr m := by
  induction m with
  | nil => simp [strchr, cstr]
  | cons b m ih =>
      rw [strchr]
      by_cases hb : b = c
      · rw [if_pos hb, hb, cstr_cons hc0]
        simp
      · rw [if_neg hb]
        by_cases h0 : b = 0
        · rw [if_pos h0, h0, cstr_cons_zero]
          simp
        · rw [if_neg h0, cstr_cons h0, Option.map_eq_none_iff, ih]
          simp [Ne.symm hb]

/-- `msg == strstr(msg, pat)` is the test that the string starts with `pat`. -/
theorem strstr_eq_zero {m pat : List UInt8} :
    strstr m pat = some 0 ↔ pat <+: cstr m := by
  cases m with
  | nil =>
      have hnil : cstr [] = [] := rfl
      rw [strstr, hnil, List.prefix_nil]
      by_cases hp : pat = []
      · simp [hp]
      · simp [hp]
  | cons b m =>
      rw [strstr]
      by_cases hp : pat.isPrefixOf (cstr (b :: m)) = true
      · rw [if_pos hp]
        simp [List.isPrefixOf_iff_prefix.mp hp]
      · rw [if_neg hp]
        have hn : ¬ pat <+: cstr (b :: m) :=
          fun h => hp (List.isPrefixOf_iff_prefix.mpr h)
        by_cases h0 : b = 0
        · rw [if_pos h0]
          simp [hn]
        · rw [if_neg h0]
          simp [hn]

/-- What a successful `strstr` says: the pattern stands there, and nowhere
    before. -/
theorem strstr_eq_some {pat : List UInt8} :
    ∀ {m : List UInt8} {i : Nat}, strstr m pat = some i →
      pat <+: (cstr m).drop i ∧ ∀ j < i, ¬ pat <+: (cstr m).drop j := by
  intro m
  induction m with
  | nil =>
      intro i h
      rw [strstr] at h
      by_cases hp : pat = []
      · rw [if_pos hp] at h
        obtain rfl := Option.some.inj h
        exact ⟨by rw [hp]; exact List.nil_prefix, fun j hj => by cases hj⟩
      · rw [if_neg hp] at h
        cases h
  | cons b m ih =>
      intro i h
      rw [strstr] at h
      by_cases hp : pat.isPrefixOf (cstr (b :: m)) = true
      · rw [if_pos hp] at h
        obtain rfl := Option.some.inj h
        exact ⟨List.isPrefixOf_iff_prefix.mp hp, fun j hj => by cases hj⟩
      · rw [if_neg hp] at h
        by_cases h0 : b = 0
        · rw [if_pos h0] at h
          cases h
        · rw [if_neg h0] at h
          obtain ⟨k, hk, rfl⟩ := Option.map_eq_some_iff.mp h
          obtain ⟨hat, hbefore⟩ := ih hk
          rw [cstr_cons h0] at hp ⊢
          refine ⟨hat, fun j hj => ?_⟩
          cases j with
          | zero => exact fun h => hp (List.isPrefixOf_iff_prefix.mpr h)
          | succ j => exact hbefore j (Nat.lt_of_succ_lt_succ hj)

/-- `strstr` finds a pattern that stands in the string. -/
theorem strstr_isSome {pat : List UInt8} :
    ∀ {m : List UInt8} {i : Nat}, pat ≠ [] → pat <+: (cstr m).drop i →
      ∃ j, strstr m pat = some j := by
  intro m
  induction m with
  | nil =>
      intro i hp h
      have hnil : (cstr []).drop i = [] := List.drop_nil
      rw [hnil, List.prefix_nil] at h
      exact absurd h hp
  | cons b m ih =>
      intro i hp h
      rw [strstr]
      by_cases hpre : pat.isPrefixOf (cstr (b :: m)) = true
      · exact ⟨0, if_pos hpre⟩
      · rw [if_neg hpre]
        by_cases h0 : b = 0
        · rw [h0, cstr_cons_zero, List.drop_nil, List.prefix_nil] at h
          exact absurd h hp
        · rw [if_neg h0]
          rw [cstr_cons h0] at h hpre
          cases i with
          | zero => exact absurd (List.isPrefixOf_iff_prefix.mpr h) hpre
          | succ i =>
              obtain ⟨j, hj⟩ := ih hp h
              exact ⟨j + 1, by rw [hj]; rfl⟩

/-- A NUL-free pattern at the start of memory is at the start of the string. -/
theorem prefix_cstr {m pat : List UInt8} (hp : (0 : UInt8) ∉ pat) :
    pat <+: cstr m ↔ pat <+: m := by
  constructor
  · intro h
    exact h.trans (cstr_isPrefix m)
  · rintro ⟨t, rfl⟩
    rw [cstr_append hp]
    exact List.prefix_append _ _

/-- `strcmp` returns zero exactly on equal strings. -/
theorem strcmp_eq_zero : ∀ {a b : List UInt8},
    strcmp a b = 0 ↔ cstr a = cstr b := by
  intro a
  have hz : ∀ x : UInt8, (x.toNat : Int) = 0 ↔ x = 0 := by
    intro x
    rw [Int.natCast_eq_zero, ← UInt8.toNat_inj]
    rfl
  induction a with
  | nil =>
      intro b
      cases b with
      | nil => simp [strcmp]
      | cons y n =>
          rw [strcmp, Int.neg_eq_zero, hz]
          by_cases hy : y = 0
          · simp [hy, cstr]
          · simp [hy, cstr]
  | cons x m ih =>
      intro b
      cases b with
      | nil =>
          rw [strcmp, hz]
          by_cases hx : x = 0
          · simp [hx, cstr]
          · simp [hx, cstr]
      | cons y n =>
          rw [strcmp]
          by_cases hxy : x = y
          · rw [if_neg (by simp [hxy]), ← hxy]
            by_cases hx : x = 0
            · simp [hx, cstr]
            · rw [if_neg hx, ih, cstr_cons hx, cstr_cons hx]
              simp
          · rw [if_pos hxy]
            have hd : ((x.toNat : Int) - y.toNat = 0) ↔ False := by
              rw [Int.sub_eq_zero, Int.natCast_inj, UInt8.toNat_inj]
              simp [hxy]
            rw [hd]
            by_cases hx : x = 0
            · by_cases hy : y = 0
              · exact absurd (hx.trans hy.symm) hxy
              · rw [hx, cstr_cons_zero, cstr_cons hy]
                simp
            · by_cases hy : y = 0
              · rw [hy, cstr_cons_zero, cstr_cons hx]
                simp
              · rw [cstr_cons hx, cstr_cons hy]
                simp [hxy]

/-! ## Copying -/

/-- The copied string reads back, whatever the destination held. -/
@[simp] theorem cstr_strcpy (dst src : List UInt8) :
    cstr (strcpy dst src) = cstr src := by
  simp only [strcpy, overwrite, List.take_zero, List.nil_append]
  rw [List.append_assoc]
  exact cstr_append_zero (zero_notMem_cstr src) _

/-- A string copied with `strncpy` into a zero-filled block that is longer than
    the copied part is terminated by the block itself, so what follows the block
    in memory does not matter. -/
theorem cstr_strncpy_zeros (src : List UInt8) {n k : Nat} (h : n < k)
    (after : List UInt8) :
    cstr (strncpy (List.replicate k 0) src n ++ after) = (cstr src).take n := by
  have hz : (0 : UInt8) ∉ (cstr src).take n :=
    fun hm => zero_notMem_cstr src (List.mem_of_mem_take hm)
  have hpos : 0 < (n - (cstr src).length) + (k - (0 + ((cstr src).take n
      ++ List.replicate (n - (cstr src).length) 0).length)) := by
    simp only [List.length_append, List.length_take, List.length_replicate]
    omega
  obtain ⟨j, hj⟩ := Nat.exists_eq_add_of_lt hpos
  simp only [strncpy, overwrite, List.take_zero, List.nil_append,
    List.drop_replicate]
  rw [List.append_assoc, List.append_assoc, cstr_append hz, ← List.append_assoc,
    List.replicate_append_replicate, hj, Nat.zero_add, List.replicate_succ,
    List.cons_append, cstr_cons_zero, List.append_nil]

/-- A copy of at most the block's size stays inside the block. -/
theorem length_strncpy {dst src : List UInt8} {n : Nat} (h : n ≤ dst.length) :
    (strncpy dst src n).length = dst.length := by
  refine length_overwrite ?_
  simp only [List.length_append, List.length_take, List.length_replicate]
  omega

end IMCString

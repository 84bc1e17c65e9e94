import IMServer.AddressText

/-! # The address of a text — `inet_pton`

    The readers go through the text once.  A decimal number has no leading zero
    and at most the value 255; a hexadecimal one has at most four digits; `::`
    stands for the zero words that are missing, and the last two words may be
    given as an IPv4 address.  `inetPton_addressText` says that every printed
    address is read as what it was. -/

namespace IMAddressRead

open IMBytes IMCString IMAddressText

/-- The value of a digit. -/
def digitValue (base : Nat) (ch : UInt8) : Option Nat :=
  let value :=
    if 48 ≤ ch ∧ ch ≤ 57 then some (ch.toNat - 48)
    else if 97 ≤ ch ∧ ch ≤ 102 then some (ch.toNat - 87)
    else if 65 ≤ ch ∧ ch ≤ 70 then some (ch.toNat - 55)
    else none
  value.filter fun d => d < base

/-! ## IPv4 -/

/-- The loop over the text: the octets that are complete, the value of the one
    that is being read, whether it has a digit, and the octets begun. -/
def pton4Loop : List UInt8 → List UInt8 → Nat → Bool → Nat → Option (List UInt8)
  | [], front, cur, _, octets =>
      if octets < 4 then none else some (front ++ [UInt8.ofNat cur])
  | ch :: text, front, cur, sawDigit, octets =>
      match digitValue 10 ch with
      | some d =>
          let new := cur * 10 + d
          if sawDigit ∧ cur = 0 then none
          else if new > 255 then none
          else if sawDigit then pton4Loop text front new true octets
          else if octets + 1 > 4 then none
          else pton4Loop text front new true (octets + 1)
      | none =>
          if ch = 46 ∧ sawDigit then
            if octets = 4 then none
            else pton4Loop text (front ++ [UInt8.ofNat cur]) 0 false octets
          else none

def inetPton4 (text : List UInt8) : Option (List UInt8) :=
  pton4Loop text [] 0 false 0

/-! ## IPv6 -/

/-- The bytes of a word, in network order. -/
def wordBytes (w : Nat) : List UInt8 := [UInt8.ofNat (w / 256), UInt8.ofNat (w % 256)]

/-- The bytes read so far, where `::` stood, the text behind the last colon, and
    the digits and the value of the current word. -/
structure Pton6 where
  bytes : List UInt8
  colon : Option Nat
  curtok : List UInt8
  xdigits : Nat
  val : Nat

/-- The loop over the text; it ends at an embedded IPv4 address. -/
def pton6Loop : List UInt8 → Pton6 → Option Pton6
  | [], s => some s
  | ch :: text, s =>
      match digitValue 16 ch with
      | some d =>
          if s.xdigits = 4 then none
          else if s.val * 16 + d > 0xffff then none
          else pton6Loop text { s with xdigits := s.xdigits + 1, val := s.val * 16 + d }
      | none =>
          if ch = 58 then
            if s.xdigits = 0 then
              if s.colon.isSome then none
              else pton6Loop text { s with colon := some s.bytes.length, curtok := text }
            else if text = [] then none
            else if s.bytes.length + 2 > 16 then none
            else pton6Loop text
              ⟨s.bytes ++ wordBytes s.val, s.colon, text, 0, 0⟩
          else if ch = 46 ∧ s.bytes.length + 4 ≤ 16 then
            (inetPton4 s.curtok).map fun addr =>
              { s with bytes := s.bytes ++ addr, xdigits := 0 }
          else none

/-- Behind the loop: the last word, and the zeros for `::`. -/
def pton6End (s : Pton6) : Option (List UInt8) :=
  if s.xdigits > 0 ∧ s.bytes.length + 2 > 16 then none
  else
    let bytes := if s.xdigits > 0 then s.bytes ++ wordBytes s.val else s.bytes
    match s.colon with
    | some n =>
        if bytes.length = 16 then none
        else some (bytes.take n ++ List.replicate (16 - bytes.length) 0 ++ bytes.drop n)
    | none => if bytes.length = 16 then some bytes else none

/-- The text has to begin with two colons or none. -/
def inetPton6 (text : List UInt8) : Option (List UInt8) :=
  match text with
  | [] => none
  | 58 :: 58 :: rest =>
      (pton6Loop (58 :: rest) ⟨[], none, 58 :: rest, 0, 0⟩).bind pton6End
  | 58 :: _ => none
  | text => (pton6Loop text ⟨[], none, text, 0, 0⟩).bind pton6End

/-- `inet_pton`; none for a text that is no address of the family. -/
def inetPton : Family → List UInt8 → Option (List UInt8)
  | .inet => inetPton4
  | .inet6 => inetPton6

/-! ## Digits -/

theorem digitValue_digitChar {base d : Nat} (hd : d < base) (hbase : base ≤ 16) :
    digitValue base (UInt8.ofNat d.digitChar.toNat) = some d := by
  have hvalue : ∀ d, d < 16 →
      digitValue 16 (UInt8.ofNat d.digitChar.toNat) = some d := by decide
  have h := hvalue d (Nat.lt_of_lt_of_le hd hbase)
  rw [digitValue, Option.filter_eq_some_iff] at h ⊢
  exact ⟨h.1, decide_eq_true hd⟩

/-- The last digit comes off the end. -/
theorem digits_eq {base : Nat} (hbase : 1 < base) (n : Nat) :
    digits base n = (if n < base then [] else digits base (n / base))
      ++ [UInt8.ofNat (n % base).digitChar.toNat] := by
  rw [digits, Nat.toDigits_eq_if hbase]
  split
  · next h => rw [Nat.mod_eq_of_lt h]; rfl
  · rw [List.map_append]; rfl

theorem digits_ne_nil {base : Nat} (hbase : 1 < base) (n : Nat) : digits base n ≠ [] := by
  rw [digits_eq hbase]
  exact List.append_ne_nil_of_right_ne_nil _ (List.cons_ne_nil _ _)

/-- A decimal number is read as an octet. -/
theorem pton4_digits {n : Nat} (hn : n < 256) : ∀ {k : Nat}, k < 4 →
    ∀ front text, pton4Loop (digits 10 n ++ text) front 0 false k
      = pton4Loop text front n true (k + 1) := by
  induction n using Nat.strongRecOn with
  | _ n ih =>
      intro k hk front text
      rw [digits_eq (by decide)]
      have hd := digitValue_digitChar (Nat.mod_lt n (by decide : 10 > 0)) (by decide)
      split
      · next hlt =>
          rw [Nat.mod_eq_of_lt hlt] at hd ⊢
          rw [List.nil_append, List.singleton_append, pton4Loop, hd]
          dsimp only
          rw [Nat.zero_mul, Nat.zero_add, if_neg (by simp), if_neg (by omega),
            if_neg (by simp), if_neg (by omega)]
      · next hge =>
          rw [List.append_assoc, ih (n / 10) (by omega) (by omega) hk,
            List.singleton_append, pton4Loop, hd]
          have hnew : n / 10 * 10 + n % 10 = n := by omega
          dsimp only
          rw [hnew, if_neg (by omega), if_neg (by omega), if_pos rfl]

/-- The text of four bytes. -/
theorem inet4Text_eq (a b c d : UInt8) :
    inet4Text [a, b, c, d] = digits 10 a.toNat ++ 46 :: (digits 10 b.toNat
      ++ 46 :: (digits 10 c.toNat ++ 46 :: (digits 10 d.toNat ++ []))) := by
  simp [inet4Text, List.intercalate]

theorem exists_four {src : List UInt8} (h : src.length = 4) :
    ∃ a b c d, src = [a, b, c, d] := by
  match src, h with
  | [a, b, c, d], _ => exact ⟨a, b, c, d, rfl⟩

/-- It has a dot behind its first number. -/
theorem inet4Text_first {src : List UInt8} (h : src.length = 4) :
    ∃ n rest, n < 256 ∧ inet4Text src = digits 10 n ++ 46 :: rest := by
  obtain ⟨a, b, c, d, rfl⟩ := exists_four h
  exact ⟨a.toNat, _, a.toNat_lt, inet4Text_eq a b c d⟩

/-- **READING BACK**, IPv4. -/
theorem inetPton4_inet4Text {src : List UInt8} (h : src.length = 4) :
    inetPton4 (inet4Text src) = some src := by
  obtain ⟨a, b, c, d, rfl⟩ := exists_four h
  have hdot : ∀ (n : Nat) (text front : List UInt8) {k : Nat}, k < 4 →
      pton4Loop (46 :: text) front n true k
        = pton4Loop text (front ++ [UInt8.ofNat n]) 0 false k := by
    intro n text front k hk
    rw [pton4Loop, show digitValue 10 46 = none from rfl]
    dsimp only
    rw [if_pos ⟨rfl, rfl⟩, if_neg (by omega)]
  rw [inetPton4, inet4Text_eq, pton4_digits a.toNat_lt (by decide), hdot _ _ _ (by decide),
    pton4_digits b.toNat_lt (by decide), hdot _ _ _ (by decide),
    pton4_digits c.toNat_lt (by decide), hdot _ _ _ (by decide),
    pton4_digits d.toNat_lt (by decide), pton4Loop, if_neg (by decide)]
  simp

/-! ## Words -/

theorem wordBytes_words : ∀ {src : List UInt8} {n : Nat}, src.length = 2 * n →
    (words src).flatMap wordBytes = src
  | [], _, _ => rfl
  | hi :: lo :: rest, n + 1, h => by
      have hrest : rest.length = 2 * n := by
        simp only [List.length_cons] at h
        omega
      have hhi := hi.toNat_lt
      have hlo := lo.toNat_lt
      rw [words, List.flatMap_cons, wordBytes_words hrest, wordBytes,
        show (hi.toNat * 256 + lo.toNat) / 256 = hi.toNat by omega,
        show (hi.toNat * 256 + lo.toNat) % 256 = lo.toNat by omega, UInt8.ofNat_toNat,
        UInt8.ofNat_toNat]
      rfl
  | [b], n, h => by
      rw [List.length_singleton] at h
      omega
  | _ :: _ :: _, 0, h => by
      simp only [List.length_cons] at h
      omega

theorem length_wordBytes (ws : List Nat) :
    (ws.flatMap wordBytes).length = 2 * ws.length := by
  induction ws with
  | nil => rfl
  | cons w ws ih =>
      rw [List.flatMap_cons, List.length_append, ih, List.length_cons]
      show 2 + 2 * ws.length = _
      omega

theorem wordBytes_zeros (n : Nat) :
    (List.replicate n 0).flatMap wordBytes = List.replicate (2 * n) 0 := by
  induction n with
  | zero => rfl
  | succ n ih =>
      rw [List.replicate_succ, List.flatMap_cons, ih, Nat.mul_succ, Nat.add_comm,
        List.replicate_add]
      rfl

/-- A hexadecimal number is read as a word. -/
theorem pton6_digits {w : Nat} (hw : w < 16 ^ 4) (s : Pton6) (hx : s.xdigits = 0)
    (hv : s.val = 0) (text : List UInt8) :
    pton6Loop (digits 16 w ++ text) s
      = pton6Loop text { s with xdigits := (digits 16 w).length, val := w } := by
  induction w using Nat.strongRecOn generalizing text with
  | _ w ih =>
      have hlen := length_digits (by decide) (by decide : 0 < 4) hw
      have hd := digitValue_digitChar (Nat.mod_lt w (by decide : 16 > 0)) (by decide)
      rw [digits_eq (by decide)] at hlen ⊢
      split at hlen
      · next hlt =>
          rw [if_pos hlt]
          rw [Nat.mod_eq_of_lt hlt] at hd ⊢
          rw [List.nil_append, List.singleton_append, pton6Loop, hd]
          dsimp only
          rw [hx, hv, Nat.zero_mul, Nat.zero_add, if_neg (by decide), if_neg (by omega)]
          rfl
      · next hge =>
          rw [if_neg hge]
          rw [List.length_append, List.length_singleton] at hlen
          have hnew : w / 16 * 16 + w % 16 = w := by omega
          rw [List.append_assoc, ih (w / 16) (by omega) (by omega),
            List.singleton_append, pton6Loop, hd]
          dsimp only
          rw [hnew, if_neg (by omega), if_neg (by omega), List.length_append]
          rfl

/-! ## Words between colons -/

/-- Words, each behind a colon. -/
def colonWords (ws : List Nat) : List UInt8 := ws.flatMap fun w => 58 :: digits 16 w

/-- Words with colons between them. -/
def joined : List Nat → List UInt8
  | [] => []
  | w :: ws => digits 16 w ++ colonWords ws

/-- The bytes a state stands for when its word is complete. -/
structure Pton6.Reads (s : Pton6) (bytes : List UInt8) (colon : Option Nat) : Prop where
  bytes : (if s.xdigits > 0 then s.bytes ++ wordBytes s.val else s.bytes) = bytes
  colon : s.colon = colon

/-- A word has been begun. -/
structure Pton6.Pending (s : Pton6) (bytes : List UInt8) (colon : Option Nat) : Prop where
  reads : s.Reads bytes colon
  begun : s.xdigits > 0

section Reading

variable {s : Pton6} {bytes : List UInt8} {colon : Option Nat} {ws : List Nat}

theorem Pton6.Pending.stored (h : s.Pending bytes colon) :
    s.bytes ++ wordBytes s.val = bytes := by
  have hbytes := h.reads.bytes
  rw [if_pos h.begun] at hbytes
  exact hbytes

/-- A colon behind a word stores the word. -/
theorem pton6_colon (h : s.Pending bytes colon) (hroom : bytes.length ≤ 16)
    {text : List UInt8} (htext : text ≠ []) :
    pton6Loop (58 :: text) s = pton6Loop text ⟨bytes, colon, text, 0, 0⟩ := by
  have hlen := congrArg List.length h.stored
  rw [List.length_append, show (wordBytes s.val).length = 2 from rfl] at hlen
  have hbegun := h.begun
  rw [pton6Loop, show digitValue 16 58 = none from rfl]
  dsimp only
  rw [if_pos rfl, if_neg (by omega), if_neg htext, if_neg (by omega), h.stored,
    h.reads.colon]

theorem pending_word (bytes : List UInt8) (colon : Option Nat) {w : Nat}
    (hw : w < 16 ^ 4) (curtok text : List UInt8) : ∃ s', s'.Pending (bytes ++ wordBytes w) colon
      ∧ pton6Loop (digits 16 w ++ text) ⟨bytes, colon, curtok, 0, 0⟩
        = pton6Loop text s' := by
  have hpos := List.length_pos_of_ne_nil (digits_ne_nil (by decide : 1 < 16) w)
  exact ⟨_, ⟨⟨if_pos hpos, rfl⟩, hpos⟩, pton6_digits hw _ rfl rfl text⟩

theorem pton6_colonWords : ∀ {ws : List Nat} {s : Pton6} {bytes : List UInt8},
    s.Pending bytes colon → (∀ w ∈ ws, w < 16 ^ 4) →
      bytes.length + 2 * ws.length ≤ 16 → ∀ text,
      ∃ s', s'.Pending (bytes ++ ws.flatMap wordBytes) colon
        ∧ pton6Loop (colonWords ws ++ text) s = pton6Loop text s' := by
  intro ws
  induction ws with
  | nil =>
      intro s bytes h _ _ text
      exact ⟨s, by rw [List.flatMap_nil, List.append_nil]; exact h, rfl⟩
  | cons w ws ih =>
      intro s bytes h hws hroom text
      rw [List.length_cons] at hroom
      have htext : digits 16 w ++ (colonWords ws ++ text) ≠ [] :=
        List.append_ne_nil_of_left_ne_nil (digits_ne_nil (by decide) w) _
      obtain ⟨s₁, h₁, hword⟩ := pending_word bytes colon
        (hws w (List.mem_cons_self ..)) (digits 16 w ++ (colonWords ws ++ text))
        (colonWords ws ++ text)
      obtain ⟨s₂, h₂, hrest⟩ := ih h₁ (fun v hv => hws v (List.mem_cons_of_mem w hv))
        (by
          rw [List.length_append, show (wordBytes w).length = 2 from rfl]
          omega) text
      refine ⟨s₂, ?_, ?_⟩
      · rw [List.flatMap_cons, ← List.append_assoc]
        exact h₂
      · have hsplit : colonWords (w :: ws) ++ text
            = 58 :: (digits 16 w ++ (colonWords ws ++ text)) := by
          simp [colonWords]
        rw [hsplit, pton6_colon h (by omega) htext, hword, hrest]

/-- The words of a group are read one after the other. -/
theorem pton6_joined (bytes : List UInt8) (colon : Option Nat) {ws : List Nat}
    (hne : ws ≠ []) (hws : ∀ w ∈ ws, w < 16 ^ 4)
    (hroom : bytes.length + 2 * ws.length ≤ 16) (curtok text : List UInt8) :
    ∃ s', s'.Pending (bytes ++ ws.flatMap wordBytes) colon
      ∧ pton6Loop (joined ws ++ text) ⟨bytes, colon, curtok, 0, 0⟩
        = pton6Loop text s' := by
  obtain ⟨w, ws, rfl⟩ := List.exists_cons_of_ne_nil hne
  rw [List.length_cons] at hroom
  obtain ⟨s₁, h₁, hword⟩ := pending_word bytes colon
    (hws w (List.mem_cons_self ..)) curtok (colonWords ws ++ text)
  obtain ⟨s₂, h₂, hrest⟩ := pton6_colonWords h₁
    (fun v hv => hws v (List.mem_cons_of_mem w hv)) (by
      rw [List.length_append, show (wordBytes w).length = 2 from rfl]
      omega) text
  refine ⟨s₂, ?_, ?_⟩
  · rw [List.flatMap_cons, ← List.append_assoc]
    exact h₂
  · rw [joined, List.append_assoc, hword, hrest]

/-- There is room for the last word. -/
theorem Pton6.Reads.fits (h : s.Reads bytes colon) (hroom : bytes.length ≤ 16) :
    ¬ (s.xdigits > 0 ∧ s.bytes.length + 2 > 16) := by
  rintro ⟨hbegun, hlong⟩
  have hlen := congrArg List.length h.bytes
  rw [if_pos hbegun, List.length_append,
    show (wordBytes s.val).length = 2 from rfl] at hlen
  omega

theorem pton6End_none (h : s.Reads bytes none) (hlen : bytes.length = 16) :
    pton6End s = some bytes := by
  rw [pton6End, if_neg (h.fits (Nat.le_of_eq hlen))]
  dsimp only
  rw [h.bytes, h.colon]
  exact if_pos hlen

theorem pton6End_some {n : Nat} (h : s.Reads bytes (some n)) (hlen : bytes.length < 16) :
    pton6End s = some (bytes.take n ++ List.replicate (16 - bytes.length) 0
      ++ bytes.drop n) := by
  rw [pton6End, if_neg (h.fits (Nat.le_of_lt hlen))]
  dsimp only
  rw [h.bytes, h.colon]
  exact if_neg (Nat.ne_of_lt hlen)

end Reading

/-! ## The groups of a text -/

theorem digitValue_isSome {base n : Nat} (hbase : 1 < base) (hle : base ≤ 16) :
    ∀ ch ∈ digits base n, (digitValue base ch).isSome := by
  induction n using Nat.strongRecOn with
  | _ n ih =>
      intro ch hch
      rw [digits_eq hbase] at hch
      rcases List.mem_append.mp hch with h1 | h2
      · split at h1
        · cases h1
        · exact ih (n / base) (Nat.div_lt_self (by omega) hbase) ch h1
      · rw [List.mem_singleton.mp h2,
          digitValue_digitChar (Nat.mod_lt n (Nat.lt_trans Nat.zero_lt_one hbase)) hle]
        rfl

/-- A text that begins with a digit. -/
theorem inetPton6_digit {w : Nat} (text : List UInt8) :
    inetPton6 (digits 16 w ++ text) = (pton6Loop (digits 16 w ++ text)
      ⟨[], none, digits 16 w ++ text, 0, 0⟩).bind pton6End := by
  obtain ⟨ch, chs, hch⟩ := List.exists_cons_of_ne_nil
    (digits_ne_nil (by decide : 1 < 16) w)
  have hsome := digitValue_isSome (n := w) (by decide) (Nat.le_refl 16) ch
    (hch ▸ List.mem_cons_self ..)
  have hcolon : ch ≠ 58 := by
    rintro rfl
    cases hsome
  rw [hch, List.cons_append, inetPton6]
  · exact fun h => (by cases h)
  · exact fun rest h => hcolon (List.cons.inj h).1
  · exact fun rest h => hcolon (List.cons.inj h).1

/-- A text without `::`. -/
theorem inetPton6_joined {ws : List Nat} (hws : ∀ w ∈ ws, w < 16 ^ 4)
    (hlen : ws.length = 8) : inetPton6 (joined ws) = some (ws.flatMap wordBytes) := by
  have hne : ws ≠ [] := by
    rintro rfl
    cases hlen
  obtain ⟨s, hs, hread⟩ := pton6_joined [] none hne hws
    (by rw [hlen]; decide) (joined ws) []
  rw [List.append_nil] at hread
  rw [List.nil_append] at hs
  obtain ⟨w, ws', rfl⟩ := List.exists_cons_of_ne_nil hne
  rw [joined] at hread ⊢
  rw [inetPton6_digit, hread]
  exact pton6End_none hs.reads (by rw [length_wordBytes, hlen])

/-- The state behind `::`. -/
theorem inetPton6_front {front : List Nat} (hf : ∀ w ∈ front, w < 16 ^ 4)
    (hlen : front.length < 8) (text : List UInt8) :
    inetPton6 (joined front ++ 58 :: 58 :: text)
      = (pton6Loop text ⟨front.flatMap wordBytes, some (2 * front.length), text,
          0, 0⟩).bind pton6End := by
  have hsecond : ∀ bytes curtok, pton6Loop (58 :: text) ⟨bytes, none, curtok, 0, 0⟩
      = pton6Loop text ⟨bytes, some bytes.length, text, 0, 0⟩ := by
    intro bytes curtok
    rw [pton6Loop, show digitValue 16 58 = none from rfl]
    rfl
  cases front with
  | nil =>
      rw [joined, List.nil_append, inetPton6, hsecond]
      rfl
  | cons w front =>
      have hroom : 2 * (w :: front).length ≤ 16 := by omega
      obtain ⟨s, hs, hread⟩ := pton6_joined [] none
        (List.cons_ne_nil w front) hf (by rw [List.length_nil]; omega)
        (joined (w :: front) ++ 58 :: 58 :: text) (58 :: 58 :: text)
      rw [List.nil_append] at hs
      have hbytes := length_wordBytes (w :: front)
      rw [joined, List.append_assoc] at hread ⊢
      rw [inetPton6_digit, hread, pton6_colon hs (by omega) (List.cons_ne_nil _ _),
        hsecond, hbytes]

/-- A text with `::`. -/
theorem inetPton6_zeros {front back : List Nat} (hf : ∀ w ∈ front, w < 16 ^ 4)
    (hb : ∀ w ∈ back, w < 16 ^ 4) (hlen : front.length + back.length < 8) :
    inetPton6 (joined front ++ 58 :: 58 :: joined back)
      = some (front.flatMap wordBytes
        ++ List.replicate (16 - 2 * (front.length + back.length)) 0
        ++ back.flatMap wordBytes) := by
  have hfl := length_wordBytes front
  have hall : (front.flatMap wordBytes ++ back.flatMap wordBytes).length
      = 2 * (front.length + back.length) := by
    rw [List.length_append, hfl, length_wordBytes, Nat.mul_add]
  have hread : ∃ s, pton6Loop (joined back) ⟨front.flatMap wordBytes,
        some (2 * front.length), joined back, 0, 0⟩ = some s
      ∧ s.Reads (front.flatMap wordBytes ++ back.flatMap wordBytes)
        (some (2 * front.length)) := by
    by_cases hne : back = []
    · rw [hne, List.flatMap_nil, List.append_nil]
      exact ⟨_, rfl, rfl, rfl⟩
    · obtain ⟨s, hs, hread⟩ := pton6_joined (front.flatMap wordBytes)
        (some (2 * front.length)) hne hb (by omega) (joined back) []
      rw [List.append_nil] at hread
      exact ⟨s, hread, hs.reads⟩
  obtain ⟨s, hrun, hs⟩ := hread
  rw [inetPton6_front hf (by omega), hrun, Option.bind_some,
    pton6End_some hs (by omega), hall, ← hfl, List.take_left, List.drop_left]

/-- Decimal digits are taken for a word until the dot. -/
theorem pton6_hexes : ∀ {chs : List UInt8} (s : Pton6),
    (∀ ch ∈ chs, (digitValue 16 ch).isSome) → s.xdigits + chs.length ≤ 4 →
      s.val < 16 ^ s.xdigits → ∀ text, ∃ s', s'.bytes = s.bytes ∧ s'.colon = s.colon
        ∧ s'.curtok = s.curtok ∧ pton6Loop (chs ++ text) s = pton6Loop text s' := by
  intro chs
  induction chs with
  | nil => exact fun s _ _ _ _ => ⟨s, rfl, rfl, rfl, rfl⟩
  | cons ch chs ih =>
      intro s hchs hlen hval text
      rw [List.length_cons] at hlen
      obtain ⟨d, hd⟩ := Option.isSome_iff_exists.mp (hchs ch (List.mem_cons_self ..))
      have hlt : d < 16 := by
        have hfilter := hd
        rw [digitValue, Option.filter_eq_some_iff] at hfilter
        exact of_decide_eq_true hfilter.2
      have hnext : s.val * 16 + d < 16 ^ (s.xdigits + 1) := by
        rw [Nat.pow_succ]
        omega
      have hmax : 16 ^ (s.xdigits + 1) ≤ 16 ^ 4 :=
        Nat.pow_le_pow_right (by decide) (by omega)
      obtain ⟨s', h1, h2, h3, hrest⟩ := ih
        { s with xdigits := s.xdigits + 1, val := s.val * 16 + d }
        (fun x hx => hchs x (List.mem_cons_of_mem ch hx)) (by dsimp only; omega) hnext text
      refine ⟨s', h1, h2, h3, ?_⟩
      rw [List.cons_append, pton6Loop, hd]
      dsimp only
      rw [if_neg (by omega), if_neg (by omega)]
      exact hrest

/-- An IPv4 address at the end. -/
theorem pton6_dotted {addr bytes : List UInt8} (haddr : addr.length = 4)
    (hroom : bytes.length + 4 ≤ 16) (colon : Option Nat) :
    ∃ s, pton6Loop (inet4Text addr) ⟨bytes, colon, inet4Text addr, 0, 0⟩ = some s
      ∧ s.Reads (bytes ++ addr) colon := by
  obtain ⟨n, rest, hn, htext⟩ := inet4Text_first haddr
  have hhex : ∀ ch ∈ digits 10 n, (digitValue 16 ch).isSome := by
    intro ch hch
    have hsome := digitValue_isSome (by decide) (by decide) ch hch
    obtain ⟨d, hd⟩ := Option.isSome_iff_exists.mp hsome
    rw [digitValue, Option.filter_eq_some_iff] at hd
    rw [digitValue, hd.1, Option.isSome_iff_exists]
    refine ⟨d, Option.filter_eq_some_iff.mpr ⟨rfl, decide_eq_true ?_⟩⟩
    have := of_decide_eq_true hd.2
    omega
  have hlen := length_digits (by decide) (by decide : 0 < 3)
    (Nat.lt_trans hn (by decide : 256 < 10 ^ 3))
  obtain ⟨s', hbytes, hcolon, hcurtok, hread⟩ := pton6_hexes
    ⟨bytes, colon, inet4Text addr, 0, 0⟩ hhex (by dsimp only; omega)
    Nat.one_pos (46 :: rest)
  refine ⟨{ s' with bytes := s'.bytes ++ addr, xdigits := 0 }, ?_, ?_, hcolon⟩
  · rw [← htext] at hread
    rw [hread, pton6Loop, show digitValue 16 46 = none from rfl]
    dsimp only
    rw [if_neg (by decide), if_pos ⟨rfl, by rw [hbytes]; exact hroom⟩, hcurtok,
      inetPton4_inet4Text haddr]
    rfl
  · rw [if_neg (Nat.lt_irrefl 0), hbytes]

/-- A text with `::` at its start and an IPv4 address at its end; `back` are the
    words between them. -/
theorem inetPton6_embedded {back : List Nat} (hb : ∀ w ∈ back, w < 16 ^ 4)
    (hlen : back.length < 6) {addr : List UInt8} (haddr : addr.length = 4)
    {text : List UInt8} (htext : 58 :: text = colonWords back ++ 58 :: inet4Text addr) :
    inetPton6 (58 :: 58 :: text)
      = some (List.replicate (12 - 2 * back.length) 0 ++ back.flatMap wordBytes
        ++ addr) := by
  have hbl := length_wordBytes back
  obtain ⟨s, hrun, hs⟩ : ∃ s, pton6Loop text ⟨[], some 0, text, 0, 0⟩ = some s
      ∧ s.Reads (back.flatMap wordBytes ++ addr) (some 0) := by
    cases back with
    | nil =>
        obtain rfl : text = inet4Text addr := (List.cons.inj htext).2
        exact pton6_dotted haddr (by decide) (some 0)
    | cons w back =>
        have hsplit : text = joined (w :: back) ++ 58 :: inet4Text addr := by
          have hwords : colonWords (w :: back) = 58 :: joined (w :: back) := by
            simp [colonWords, joined]
          rw [hwords, List.cons_append] at htext
          exact (List.cons.inj htext).2
        obtain ⟨s₁, h₁, hread⟩ := pton6_joined [] (some 0)
          (List.cons_ne_nil w back) hb (by rw [List.length_nil]; omega) text
          (58 :: inet4Text addr)
        rw [List.nil_append] at h₁
        have hdots : inet4Text addr ≠ [] := by
          obtain ⟨n, rest, -, hn⟩ := inet4Text_first haddr
          rw [hn]
          exact List.append_ne_nil_of_right_ne_nil _ (List.cons_ne_nil 46 rest)
        obtain ⟨s₂, hdotted, hs⟩ := pton6_dotted haddr
          (show ((w :: back).flatMap wordBytes).length + 4 ≤ 16 by omega) (some 0)
        refine ⟨s₂, ?_, hs⟩
        rw [← hsplit] at hread
        rw [hread, pton6_colon h₁ (by omega) hdots, hdotted]
  have hall : (back.flatMap wordBytes ++ addr).length = 2 * back.length + 4 := by
    rw [List.length_append, hbl, haddr]
  have hfront := @inetPton6_front [] (fun w hw => (by cases hw)) (by decide) text
  rw [joined, List.nil_append] at hfront
  rw [hfront]
  show (pton6Loop text ⟨[], some 0, text, 0, 0⟩).bind pton6End = _
  rw [hrun, Option.bind_some, pton6End_some hs (by omega), hall, List.take_zero,
    List.drop_zero, List.nil_append, List.append_assoc,
    show 16 - (2 * back.length + 4) = 12 - 2 * back.length by omega]

/-! ## The text that is printed -/

/-- A word outside of the run, and not that of an embedded address. -/
theorem formatWords_word {best : Option Run} {embedded : Option (List UInt8)}
    {w i : Nat} {ws : List Nat} (hnot : ¬ (best.any fun run => run.Covers i) = true)
    (hplain : i = 6 → embedded = none) :
    formatWords best embedded (w :: ws) i
      = colonIf (i ≠ 0) ++ (digits 16 w ++ formatWords best embedded ws (i + 1)) := by
  rw [formatWords, if_neg hnot]
  split
  · next text htext =>
      obtain ⟨hi, hsome⟩ := Option.ite_none_right_eq_some.mp htext
      rw [hplain hi] at hsome
      cases hsome
  · rfl

/-- Words of which none is left out. -/
theorem formatWords_colonWords {best : Option Run} {ws : List Nat} :
    ∀ {front : List Nat} {i : Nat}, 0 < i →
      (∀ j, i ≤ j → j < i + front.length →
        ¬ (best.any fun run => run.Covers j) = true) →
      formatWords best none (front ++ ws) i
        = colonWords front ++ formatWords best none ws (i + front.length) := by
  intro front
  induction front with
  | nil => exact fun _ _ => rfl
  | cons w front ih =>
      intro i hi hnot
      rw [List.length_cons] at hnot ⊢
      rw [List.cons_append, formatWords_word (hnot i (Nat.le_refl i) (by omega))
          fun _ => rfl,
        ih (Nat.succ_pos i) fun j hj hlt => hnot j (by omega) (by omega),
        colonIf, if_pos (Nat.ne_of_gt hi), show i + 1 + front.length
          = i + (front.length + 1) by omega]
      simp [colonWords]

/-- The words from the start on. -/
theorem formatWords_joined {best : Option Run} {front ws : List Nat}
    (hnot : ∀ j, j < front.length → ¬ (best.any fun run => run.Covers j) = true) :
    formatWords best none (front ++ ws) 0
      = joined front ++ formatWords best none ws front.length := by
  cases front with
  | nil => rfl
  | cons w front =>
      rw [List.length_cons] at hnot ⊢
      rw [List.cons_append, formatWords_word (hnot 0 (Nat.succ_pos _)) fun _ => rfl,
        formatWords_colonWords Nat.one_pos fun j _ hlt => hnot j (by omega), joined,
        Nat.add_comm 1, colonIf, if_neg (not_not_intro rfl),
        List.nil_append, List.append_assoc]

/-- The words in front of an embedded address. -/
theorem formatWords_embedded {best : Option Run} {text : List UInt8} {w : Nat}
    {ws : List Nat} : ∀ {front : List Nat} {i : Nat}, 0 < i → i + front.length = 6 →
      (∀ j, i ≤ j → ¬ (best.any fun run => run.Covers j) = true) →
      formatWords best (some text) (front ++ w :: ws) i
        = colonWords front ++ 58 :: text := by
  intro front
  induction front with
  | nil =>
      intro i hi hlen hnot
      rw [List.length_nil, Nat.add_zero] at hlen
      rw [List.nil_append, formatWords, if_neg (hnot i (Nat.le_refl i)), colonIf,
        if_pos (Nat.ne_of_gt hi), if_pos hlen]
      rfl
  | cons v front ih =>
      intro i hi hlen hnot
      rw [List.length_cons] at hlen
      rw [List.cons_append, formatWords_word (hnot i (Nat.le_refl i))
          fun h => (by omega),
        ih (Nat.succ_pos i) (by omega) fun j hj => hnot j (by omega),
        colonIf, if_pos (Nat.ne_of_gt hi)]
      simp [colonWords]

/-- The words of the run: the first one leaves a colon. -/
theorem formatWords_run {run : Run} (hlen : 0 < run.len)
    (embedded : Option (List UInt8)) (ws : List Nat) :
    formatWords (some run) embedded (List.replicate run.len 0 ++ ws) run.base
      = 58 :: formatWords (some run) embedded ws (run.base + run.len) := by
  have hrest : ∀ {n i : Nat}, run.base < i → i + n = run.base + run.len →
      formatWords (some run) embedded (List.replicate n 0 ++ ws) i
        = formatWords (some run) embedded ws (run.base + run.len) := by
    intro n
    induction n with
    | zero =>
        intro i _ hi
        rw [← hi]
        rfl
    | succ n ih =>
        intro i hbase hi
        have hcovers : ((some run).any fun run => run.Covers i) = true := by
          rw [Option.any_some, decide_eq_true_eq]
          exact ⟨Nat.le_of_lt hbase, by omega⟩
        have hnot : ¬ ((some run).any fun run => i = run.base) = true := by
          rw [Option.any_some, decide_eq_true_eq]
          exact Nat.ne_of_gt hbase
        rw [List.replicate_succ, List.cons_append, formatWords, if_pos hcovers,
          colonIf, if_neg hnot, List.nil_append,
          ih (Nat.lt_succ_of_lt hbase) (by omega)]
  obtain ⟨n, hn⟩ := Nat.exists_eq_add_one_of_ne_zero (Nat.ne_of_gt hlen)
  have hcovers : ((some run).any fun run' => run'.Covers run.base) = true := by
    rw [Option.any_some, decide_eq_true_eq]
    exact ⟨Nat.le_refl _, by omega⟩
  have hbase : ((some run).any fun run' => run.base = run'.base) = true := by
    rw [Option.any_some, decide_eq_true_eq]
  rw [hn, List.replicate_succ, List.cons_append, formatWords, if_pos hcovers, colonIf,
    if_pos hbase, hrest (Nat.lt_succ_self _) (by omega), hn]
  rfl

/-! ### The run -/

/-- The run is made of zeros of the list. -/
def ZeroRun (run : Run) (ws : List Nat) : Prop :=
  ∃ front back, ws = front ++ List.replicate run.len 0 ++ back
    ∧ front.length = run.base

/-- The zeros are the last words of the list. -/
def ZeroEnd (run : Run) (ws : List Nat) : Prop :=
  ∃ front, ws = front ++ List.replicate run.len 0 ∧ front.length = run.base

theorem ZeroEnd.zeroRun {run : Run} {ws : List Nat} (h : ZeroEnd run ws) :
    ZeroRun run ws := by
  obtain ⟨front, hws, hbase⟩ := h
  exact ⟨front, [], by rw [List.append_nil]; exact hws, hbase⟩

theorem ZeroRun.append {run : Run} {ws : List Nat} (h : ZeroRun run ws)
    (ws' : List Nat) : ZeroRun run (ws ++ ws') := by
  obtain ⟨front, back, rfl, hbase⟩ := h
  exact ⟨front, back ++ ws', List.append_assoc .., hbase⟩

/-- A zero behind the zeros. -/
theorem ZeroEnd.append {run : Run} {ws : List Nat} (h : ZeroEnd run ws) :
    ZeroEnd ⟨run.base, run.len + 1⟩ (ws ++ [0]) := by
  obtain ⟨front, rfl, hbase⟩ := h
  refine ⟨front, ?_, hbase⟩
  rw [List.append_assoc, List.replicate_succ']

theorem better_cases {best cur : Option Run} {run : Run}
    (h : better best cur = some run) : run ∈ best ∨ run ∈ cur := by
  cases best with
  | none =>
      cases cur with
      | none => cases h
      | some cur => exact Or.inr h
  | some best =>
      cases cur with
      | none => exact Or.inl h
      | some cur =>
          rw [better] at h
          split at h
          · exact Or.inr h
          · exact Or.inl h

/-- **THE SCAN** over the words behind `seen`. -/
theorem scanRuns_zeros : ∀ {ws seen : List Nat} {best cur : Option Run} {run : Run},
    (∀ r ∈ best, ZeroRun r seen) → (∀ r ∈ cur, ZeroEnd r seen) →
      scanRuns ws seen.length best cur = some run → ZeroRun run (seen ++ ws) := by
  intro ws
  induction ws with
  | nil =>
      intro seen best cur run hbest hcur hrun
      rw [List.append_nil]
      exact (better_cases hrun).elim (hbest run) fun h => (hcur run h).zeroRun
  | cons w ws ih =>
      intro seen best cur run hbest hcur hrun
      have hnext : ∀ {best' cur' : Option Run}, (∀ r ∈ best', ZeroRun r seen) →
          (∀ r ∈ cur', ZeroEnd r (seen ++ [w])) →
          scanRuns ws (seen.length + 1) best' cur' = some run →
          ZeroRun run (seen ++ w :: ws) := by
        intro best' cur' hbest' hcur' hrun'
        rw [List.append_cons]
        refine ih (fun r hr => (hbest' r hr).append [w]) hcur' ?_
        rw [List.length_append, List.length_singleton]
        exact hrun'
      cases cur with
      | none =>
          rw [scanRuns] at hrun
          split at hrun
          · next hw =>
              refine hnext hbest ?_ hrun
              rintro r ⟨⟩
              exact ⟨seen, by rw [hw]; rfl, rfl⟩
          · exact hnext hbest (fun r hr => (by cases hr)) hrun
      | some cur =>
          have hend := hcur cur rfl
          rw [scanRuns] at hrun
          split at hrun
          · next hw =>
              refine hnext hbest ?_ hrun
              rintro r ⟨⟩
              rw [hw]
              exact hend.append
          · refine hnext (fun r hr => ?_) (fun r hr => (by cases hr)) hrun
            rcases better_cases hr with h1 | h2
            · exact hbest r h1
            · cases h2
              exact hend.zeroRun

/-- The run that is left out has at least two zeros. -/
theorem bestRun_zeros {ws : List Nat} {run : Run} (h : bestRun ws = some run) :
    ZeroRun run ws ∧ 2 ≤ run.len := by
  obtain ⟨hscan, hlen⟩ := Option.filter_eq_some_iff.mp h
  exact ⟨@scanRuns_zeros ws [] none none run (fun r hr => (by cases hr))
    (fun r hr => (by cases hr)) hscan, of_decide_eq_true hlen⟩

/-- Nothing behind the run is left out. -/
theorem not_covers {run : Run} {j : Nat} (h : j < run.base ∨ run.base + run.len ≤ j) :
    ¬ ((some run).any fun run => run.Covers j) = true := by
  rw [Option.any_some, decide_eq_true_eq]
  rintro ⟨h1, h2⟩
  omega

/-- The text of an address with a run. -/
theorem formatWords_zeros {run : Run} {front back : List Nat}
    (hbase : front.length = run.base) (hlen : 0 < run.len)
    (hall : run.base + run.len + back.length = 8) :
    formatWords (some run) none (front ++ List.replicate run.len 0 ++ back) 0
        ++ colonIf ((some run).any fun run => run.base + run.len = 8)
      = joined front ++ 58 :: 58 :: joined back := by
  have hback := @formatWords_colonWords (some run) [] back
    (run.base + run.len) (by omega) fun j hj _ => not_covers (Or.inr hj)
  rw [List.append_nil] at hback
  rw [List.append_assoc,
    formatWords_joined fun j hj => not_covers (Or.inl (hbase ▸ hj)), hbase,
    formatWords_run hlen, hback, Option.any_some, colonIf]
  cases back with
  | nil =>
      rw [List.length_nil, Nat.add_zero] at hall
      rw [if_pos (decide_eq_true hall)]
      simp [colonWords, joined, formatWords]
  | cons w back =>
      rw [List.length_cons] at hall
      rw [if_neg (by rw [decide_eq_true_eq]; omega)]
      simp [colonWords, joined, formatWords]

/-- The text of an address that embeds another one. -/
theorem formatWords_dotted {run : Run} {back ws : List Nat} {w : Nat}
    {text : List UInt8} (hbase : run.base = 0) (hlen : 0 < run.len)
    (hsix : run.len + back.length = 6) :
    formatWords (some run) (some text)
        (List.replicate run.len 0 ++ (back ++ w :: ws)) 0
      = 58 :: (colonWords back ++ 58 :: text) := by
  have hrun := formatWords_run hlen (some text) (back ++ w :: ws)
  rw [hbase, Nat.zero_add] at hrun
  rw [hrun, formatWords_embedded hlen hsix fun j hj => not_covers (Or.inr (by omega))]

/-! ## Reading back -/

/-- An address that embeds another one. -/
theorem inetPton6_dotted {src : List UInt8} (h : src.length = 16) {run : Run}
    {back : List Nat} (hbase : run.base = 0) (htwo : 2 ≤ run.len) (hsix : run.len ≤ 6)
    (hsplit : words src = List.replicate run.len 0 ++ back)
    (hb : ∀ w ∈ back, w < 16 ^ 4) :
    inetPton6 (formatWords (some run) (some (inet4Text (src.drop 12))) (words src) 0
        ++ colonIf ((some run).any fun run => run.base + run.len = 8)) = some src := by
  have hlen : (words src).length = 8 := length_words h
  rw [hsplit, List.length_append, List.length_replicate] at hlen
  -- the words between the run and the embedded address
  obtain ⟨mid, w, ws, rfl, hmid⟩ : ∃ mid w ws, back = mid ++ w :: ws
      ∧ run.len + mid.length = 6 := by
    have hdrop : 0 < (back.drop (6 - run.len)).length := by
      rw [List.length_drop]
      omega
    obtain ⟨w, ws, hw⟩ := List.exists_cons_of_length_pos hdrop
    refine ⟨back.take (6 - run.len), w, ws, ?_, ?_⟩
    · rw [← hw, List.take_append_drop]
    · rw [List.length_take]
      omega
  have hbytes : (words src).flatMap wordBytes = src := wordBytes_words (n := 8) h
  rw [hsplit, List.flatMap_append, List.flatMap_append, wordBytes_zeros,
    ← List.append_assoc] at hbytes
  have hfront : (List.replicate (2 * run.len) 0 ++ mid.flatMap wordBytes).length = 12 := by
    rw [List.length_append, List.length_replicate, length_wordBytes]
    omega
  have haddr : src.drop 12 = (w :: ws).flatMap wordBytes := by
    rw [← hbytes, ← hfront, List.drop_left]
  have hfour : (src.drop 12).length = 4 := by rw [List.length_drop, h]
  obtain ⟨text, htext⟩ : ∃ text,
      58 :: text = colonWords mid ++ 58 :: inet4Text (src.drop 12) := by
    cases mid with
    | nil => exact ⟨_, rfl⟩
    | cons v mid => exact ⟨_, rfl⟩
  rw [hsplit, formatWords_dotted hbase (by omega) hmid, ← htext, Option.any_some,
    colonIf, if_neg (by rw [decide_eq_true_eq]; omega), List.append_nil,
    inetPton6_embedded (fun v hv => hb v (List.mem_append_left _ hv)) (by omega) hfour
      htext, haddr, show 12 - 2 * mid.length = 2 * run.len by omega, hbytes]

/-- **READING BACK**, IPv6. -/
theorem inetPton6_inet6Text {src : List UInt8} (h : src.length = 16) :
    inetPton6 (inet6Text src) = some src := by
  have htake : src.take 16 = src := List.take_of_length_le (Nat.le_of_eq h)
  have hlen : (words src).length = 8 := length_words h
  have hbytes : (words src).flatMap wordBytes = src := wordBytes_words (n := 8) h
  have hws : ∀ w ∈ words src, w < 16 ^ 4 := fun w => words_lt
  rw [inet6Text, htake]
  cases hbest : bestRun (words src) with
  | none =>
      have htext := @formatWords_joined none (words src) []
        fun j _ h => (by cases h)
      rw [List.append_nil] at htext
      have hjoined : formatWords none none (words src) 0 = joined (words src) := by
        rw [htext, formatWords, List.append_nil]
      simp only [Option.any_none, Bool.false_eq_true, if_false, colonIf,
        List.append_nil, hjoined]
      rw [inetPton6_joined hws hlen, hbytes]
  | some run =>
      obtain ⟨⟨front, back, hsplit, hbase⟩, htwo⟩ := bestRun_zeros hbest
      have hparts := hlen
      rw [hsplit, List.length_append, List.length_append, List.length_replicate,
        hbase] at hparts
      have hf : ∀ w ∈ front, w < 16 ^ 4 := fun w hw => hws w (by rw [hsplit]; simp [hw])
      have hb : ∀ w ∈ back, w < 16 ^ 4 := fun w hw => hws w (by rw [hsplit]; simp [hw])
      rw [hsplit, List.flatMap_append, List.flatMap_append, wordBytes_zeros] at hbytes
      by_cases hembeds : run.Embeds (words src)
      · obtain ⟨hzero, hlong⟩ := hembeds
        rw [hzero, List.length_eq_zero_iff] at hbase
        rw [hbase, List.nil_append] at hsplit
        rw [if_pos (by rw [Option.any_some, decide_eq_true_eq]; exact ⟨hzero, hlong⟩)]
        exact inetPton6_dotted h hzero htwo (by omega) hsplit hb
      · rw [if_neg (by rw [Option.any_some, decide_eq_true_eq]; exact hembeds), hsplit,
          formatWords_zeros hbase (by omega) hparts, inetPton6_zeros hf hb (by omega),
          show 16 - 2 * (front.length + back.length) = 2 * run.len by omega, hbytes]

theorem inetPton_addressText {af : Family} {src : List UInt8}
    (h : src.length = af.addrSize) : inetPton af (addressText af src) = some src := by
  cases af with
  | inet => exact inetPton4_inet4Text h
  | inet6 => exact inetPton6_inet6Text h

/-! ## What is accepted -/

theorem pton4Loop_length : ∀ {text front : List UInt8} {cur : Nat} {sawDigit : Bool}
    {octets : Nat} {addr : List UInt8}, octets = front.length + sawDigit.toNat →
      front.length ≤ 3 → pton4Loop text front cur sawDigit octets = some addr →
      addr.length = 4 := by
  intro text
  induction text with
  | nil =>
      intro front cur sawDigit octets addr ho hf h
      obtain ⟨hnot, haddr⟩ := Option.ite_none_left_eq_some.mp h
      obtain rfl := Option.some.inj haddr
      have hsaw := Bool.toNat_le sawDigit
      rw [List.length_append, List.length_singleton]
      omega
  | cons ch text ih =>
      intro front cur sawDigit octets addr ho hf h
      rw [pton4Loop] at h
      split at h
      · obtain ⟨-, h⟩ := Option.ite_none_left_eq_some.mp h
        obtain ⟨-, h⟩ := Option.ite_none_left_eq_some.mp h
        cases sawDigit with
        | true => exact ih ho hf h
        | false =>
            obtain ⟨-, h⟩ := Option.ite_none_left_eq_some.mp
              (if_neg Bool.false_ne_true ▸ h)
            exact ih (by rw [ho]; rfl) hf h
      · obtain ⟨⟨-, hsaw⟩, h⟩ := Option.ite_none_right_eq_some.mp h
        obtain ⟨hfour, h⟩ := Option.ite_none_left_eq_some.mp h
        rw [hsaw] at ho
        have hone : true.toNat = 1 := rfl
        refine ih ?_ ?_ h
        · rw [List.length_append, List.length_singleton]
          exact ho
        · rw [List.length_append, List.length_singleton]
          omega

theorem pton6Loop_length : ∀ {text : List UInt8} {s s' : Pton6},
    s.bytes.length ≤ 16 → pton6Loop text s = some s' → s'.bytes.length ≤ 16 := by
  intro text
  induction text with
  | nil => exact fun h hrun => Option.some.inj hrun ▸ h
  | cons ch text ih =>
      intro s s' h hrun
      rw [pton6Loop] at hrun
      split at hrun
      · obtain ⟨-, hrun⟩ := Option.ite_none_left_eq_some.mp hrun
        obtain ⟨-, hrun⟩ := Option.ite_none_left_eq_some.mp hrun
        refine ih ?_ hrun
        exact h
      · split at hrun
        · split at hrun
          · obtain ⟨-, hrun⟩ := Option.ite_none_left_eq_some.mp hrun
            refine ih ?_ hrun
            exact h
          · obtain ⟨-, hrun⟩ := Option.ite_none_left_eq_some.mp hrun
            obtain ⟨hroom, hrun⟩ := Option.ite_none_left_eq_some.mp hrun
            refine ih ?_ hrun
            rw [List.length_append, show (wordBytes s.val).length = 2 from rfl]
            omega
        · obtain ⟨⟨-, hroom⟩, hrun⟩ := Option.ite_none_right_eq_some.mp hrun
          obtain ⟨addr, haddr, rfl⟩ := Option.map_eq_some_iff.mp hrun
          have hfour := pton4Loop_length (by rfl) (by decide) haddr
          rw [List.length_append]
          omega

theorem pton6End_length {s : Pton6} {addr : List UInt8} (h : s.bytes.length ≤ 16)
    (hend : pton6End s = some addr) : addr.length = 16 := by
  obtain ⟨hfits, hend⟩ := Option.ite_none_left_eq_some.mp hend
  have hlen : (if s.xdigits > 0 then s.bytes ++ wordBytes s.val
      else s.bytes).length ≤ 16 := by
    split
    · next hx =>
        rw [List.length_append, show (wordBytes s.val).length = 2 from rfl]
        omega
    · exact h
  generalize (if s.xdigits > 0 then s.bytes ++ wordBytes s.val
    else s.bytes) = bytes at hend hlen
  dsimp only at hend
  split at hend
  · obtain ⟨-, hend⟩ := Option.ite_none_left_eq_some.mp hend
    obtain rfl := Option.some.inj hend
    simp only [List.length_append, List.length_take, List.length_replicate,
      List.length_drop]
    omega
  · obtain ⟨hall, hend⟩ := Option.ite_none_right_eq_some.mp hend
    exact Option.some.inj hend ▸ hall

/-- **WELL-FORMED**: what is accepted is an address of the family. -/
theorem length_inetPton {af : Family} {text addr : List UInt8}
    (h : inetPton af text = some addr) : addr.length = af.addrSize := by
  cases af with
  | inet => exact pton4Loop_length rfl (by decide) h
  | inet6 =>
      have hread : ∀ {text curtok}, (pton6Loop text ⟨[], none, curtok, 0, 0⟩).bind
          pton6End = some addr → addr.length = 16 := by
        intro text curtok hrun
        obtain ⟨s, hs, hend⟩ := Option.bind_eq_some_iff.mp hrun
        exact pton6End_length (pton6Loop_length (Nat.zero_le _) hs) hend
      have h' : inetPton6 text = some addr := h
      rw [inetPton6.eq_def] at h'
      split at h'
      · cases h'
      · exact hread h'
      · cases h'
      · exact hread h'

/-- A decimal digit is none of the other characters that mean something. -/
theorem digitValue_ten {ch : UInt8} {d : Nat} (h : digitValue 10 ch = some d) :
    48 ≤ ch ∧ ch ≤ 57 := by
  rw [digitValue, Option.filter_eq_some_iff] at h
  obtain ⟨hvalue, hd⟩ := h
  have hlt := of_decide_eq_true hd
  split at hvalue
  · assumption
  · split at hvalue
    · next hl =>
        have hl' := UInt8.le_iff_toNat_le.mp hl.1
        rw [show (97 : UInt8).toNat = 97 from rfl] at hl'
        cases hvalue
        omega
    · split at hvalue
      · next hu =>
          have hu' := UInt8.le_iff_toNat_le.mp hu.1
          rw [show (65 : UInt8).toNat = 65 from rfl] at hu'
          cases hvalue
          omega
      · cases hvalue

/-- An IPv4 text has no colon. -/
theorem pton4Loop_colon : ∀ {text front : List UInt8} {cur : Nat} {sawDigit : Bool}
    {octets : Nat} {addr : List UInt8},
      pton4Loop text front cur sawDigit octets = some addr → (58 : UInt8) ∉ text := by
  intro text
  induction text with
  | nil => exact fun _ => List.not_mem_nil
  | cons ch text ih =>
      intro front cur sawDigit octets addr h
      have hnext : ∃ front cur sawDigit octets,
          pton4Loop text front cur sawDigit octets = some addr ∧ ch ≠ 58 := by
        rw [pton4Loop] at h
        split at h
        · next d hd =>
            have hne : ch ≠ 58 := by
              rintro rfl
              exact absurd (digitValue_ten hd).2 (by decide)
            obtain ⟨-, h⟩ := Option.ite_none_left_eq_some.mp h
            obtain ⟨-, h⟩ := Option.ite_none_left_eq_some.mp h
            split at h
            · exact ⟨_, _, _, _, h, hne⟩
            · obtain ⟨-, h⟩ := Option.ite_none_left_eq_some.mp h
              exact ⟨_, _, _, _, h, hne⟩
        · obtain ⟨⟨hdot, -⟩, h⟩ := Option.ite_none_right_eq_some.mp h
          obtain ⟨-, h⟩ := Option.ite_none_left_eq_some.mp h
          exact ⟨_, _, _, _, h, by rw [hdot]; decide⟩
      obtain ⟨_, _, _, _, hrest, hne⟩ := hnext
      rintro (_ | ⟨_, hm⟩)
      · exact hne rfl
      · exact ih hrest hm

/-- Without a colon there are at most four bytes. -/
theorem pton6Loop_noColon : ∀ {text : List UInt8} {s s' : Pton6}, (58 : UInt8) ∉ text →
    pton6Loop text s = some s' →
      s'.bytes.length ≤ s.bytes.length + 4 ∧ s'.colon = s.colon := by
  intro text
  induction text with
  | nil =>
      intro s s' _ hrun
      obtain rfl := Option.some.inj hrun
      exact ⟨Nat.le_add_right _ 4, rfl⟩
  | cons ch text ih =>
      intro s s' hnot hrun
      have hch : ch ≠ 58 := fun h => hnot (h ▸ List.mem_cons_self ..)
      have htext : (58 : UInt8) ∉ text := fun h => hnot (List.mem_cons_of_mem ch h)
      rw [pton6Loop] at hrun
      split at hrun
      · obtain ⟨-, hrun⟩ := Option.ite_none_left_eq_some.mp hrun
        obtain ⟨-, hrun⟩ := Option.ite_none_left_eq_some.mp hrun
        have hrest := ih htext hrun
        exact hrest
      · rw [if_neg hch] at hrun
        obtain ⟨-, hrun⟩ := Option.ite_none_right_eq_some.mp hrun
        obtain ⟨addr, haddr, rfl⟩ := Option.map_eq_some_iff.mp hrun
        have hfour := pton4Loop_length (by rfl) (by decide) haddr
        refine ⟨Nat.le_of_eq ?_, rfl⟩
        rw [List.length_append, hfour]

/-- **NO TEXT IS READ TWICE**: an IPv4 text is no IPv6 text. -/
theorem inetPton_disjoint {text addr : List UInt8}
    (h : inetPton .inet text = some addr) : inetPton .inet6 text = none := by
  have hnot := pton4Loop_colon h
  have hread : ∀ curtok, (pton6Loop text ⟨[], none, curtok, 0, 0⟩).bind pton6End
      = none := by
    intro curtok
    cases hrun : pton6Loop text ⟨[], none, curtok, 0, 0⟩ with
    | none => rfl
    | some s =>
        obtain ⟨hlen, hcolon⟩ := pton6Loop_noColon hnot hrun
        rw [List.length_nil] at hlen
        rw [Option.bind_some, pton6End, if_neg (by omega)]
        dsimp only
        rw [hcolon]
        refine if_neg fun hsixteen => ?_
        split at hsixteen
        · rw [List.length_append, show (wordBytes s.val).length = 2 from rfl] at hsixteen
          omega
        · omega
  show inetPton6 text = none
  rw [inetPton6.eq_def]
  split
  · rfl
  · exact absurd (List.mem_cons_self ..) hnot
  · rfl
  · exact hread _

end IMAddressRead

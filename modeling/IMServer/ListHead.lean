import IMServer.Rings

/-! # Linked lists — `include/collections/list.h`

    A list is a ring of `struct list_head`s, one of which is its head.  The
    functions store to the links of the cells they are given and check nothing;
    what the caller has to see to is in the rules of `InUse`.  `lists_in_use` is
    what the callers rely on: whatever calls went before, every list reads the
    same forwards and backwards, and is the sequence its calls make. -/

namespace IMListHead

open IMRings

/-- A pointer to a `struct list_head`. -/
abbrev PListHead := Nat

/-- The memory of all `struct list_head`s. -/
abbrev ListHeads := Links PListHead

/-- `LIST_POISON1`. -/
def listPoison1 : PListHead := 0x00100100

/-- `LIST_POISON2`. -/
def listPoison2 : PListHead := 0x00200200

/-! ## The functions -/

/-- `p->next = v`. -/
def setNext (m : ListHeads) (p v : PListHead) : ListHeads :=
  { m with next := Function.update m.next p v }

/-- `p->prev = v`. -/
def setPrev (m : ListHeads) (p v : PListHead) : ListHeads :=
  { m with prev := Function.update m.prev p v }

/-- `INIT_LIST_HEAD`, `LIST_HEAD`. -/
def initListHead (m : ListHeads) (ptr : PListHead) : ListHeads :=
  setPrev (setNext m ptr ptr) ptr ptr

/-- `__list_add`. -/
def listAddBetween (m : ListHeads) (new prev next : PListHead) : ListHeads :=
  let m := setPrev m next new
  let m := setNext m new next
  let m := setPrev m new prev
  setNext m prev new

/-- `list_add`. -/
def listAdd (m : ListHeads) (new head : PListHead) : ListHeads :=
  listAddBetween m new head (m.next head)

/-- `list_add_tail`. -/
def listAddTail (m : ListHeads) (new head : PListHead) : ListHeads :=
  listAddBetween m new (m.prev head) head

/-- `__list_del`. -/
def listDelBetween (m : ListHeads) (prev next : PListHead) : ListHeads :=
  let m := setPrev m next prev
  setNext m prev next

/-- `list_del`. -/
def listDel (m : ListHeads) (entry : PListHead) : ListHeads :=
  let m := listDelBetween m (m.prev entry) (m.next entry)
  let m := setNext m entry listPoison1
  setPrev m entry listPoison2

/-- `list_del_init`. -/
def listDelInit (m : ListHeads) (entry : PListHead) : ListHeads :=
  initListHead (listDelBetween m (m.prev entry) (m.next entry)) entry

/-- `list_move`. -/
def listMove (m : ListHeads) (list head : PListHead) : ListHeads :=
  listAdd (listDelBetween m (m.prev list) (m.next list)) list head

/-- `list_move_tail`. -/
def listMoveTail (m : ListHeads) (list head : PListHead) : ListHeads :=
  listAddTail (listDelBetween m (m.prev list) (m.next list)) list head

/-- `list_empty`. -/
def listEmpty (m : ListHeads) (head : PListHead) : Bool :=
  decide (m.next head = head)

/-- `__list_splice`. -/
def listSpliceBetween (m : ListHeads) (list head : PListHead) : ListHeads :=
  let first := m.next list
  let last := m.prev list
  let behind := m.next head
  let m := setPrev m first head
  let m := setNext m head first
  let m := setNext m last behind
  setPrev m behind last

/-- `list_splice`. -/
def listSplice (m : ListHeads) (list head : PListHead) : ListHeads :=
  if listEmpty m list then m else listSpliceBetween m list head

/-- `list_splice_init`. -/
def listSpliceInit (m : ListHeads) (list head : PListHead) : ListHeads :=
  if listEmpty m list then m
  else initListHead (listSpliceBetween m list head) list

/-- `list_first_entry`. -/
def listFirstEntry (m : ListHeads) (ptr : PListHead) : PListHead := m.next ptr

/-- `list_first_entry_or_null`. -/
def listFirstEntryOrNull (m : ListHeads) (ptr : PListHead) : Option PListHead :=
  if listEmpty m ptr then none else some (m.next ptr)

/-- `list_last_entry`. -/
def listLastEntry (m : ListHeads) (ptr : PListHead) : PListHead := m.prev ptr

/-- The loop of `list_for_each` at `pos`: `body` says what the loop's body does
    to the state and whether it leaves the loop; none when the fuel runs out. -/
def forEachFrom {σ : Type} (links : σ → ListHeads) (head : PListHead)
    (body : PListHead → σ → σ × Bool) : Nat → PListHead → σ → Option σ
  | 0, _, _ => none
  | fuel + 1, pos, s =>
      if pos = head then some s
      else
        let r := body pos s
        if r.2 then some r.1
        else forEachFrom links head body fuel ((links r.1).next pos) r.1

/-- `list_for_each(pos, head) body`. -/
def listForEach {σ : Type} (links : σ → ListHeads) (head : PListHead)
    (body : PListHead → σ → σ × Bool) (fuel : Nat) (s : σ) : Option σ :=
  forEachFrom links head body fuel ((links s).next head) s

/-! ## What the stores do -/

@[simp] theorem next_setPrev (m : ListHeads) (p v : PListHead) :
    (setPrev m p v).next = m.next := rfl

@[simp] theorem prev_setNext (m : ListHeads) (p v : PListHead) :
    (setNext m p v).prev = m.prev := rfl

@[simp] theorem next_setNext_self (m : ListHeads) (p v : PListHead) :
    (setNext m p v).next p = v := Function.update_self ..

@[simp] theorem prev_setPrev_self (m : ListHeads) (p v : PListHead) :
    (setPrev m p v).prev p = v := Function.update_self ..

theorem next_setNext_of_ne (m : ListHeads) {p a : PListHead} (h : a ≠ p)
    (v : PListHead) : (setNext m p v).next a = m.next a :=
  Function.update_of_ne h ..

theorem prev_setPrev_of_ne (m : ListHeads) {p a : PListHead} (h : a ≠ p)
    (v : PListHead) : (setPrev m p v).prev a = m.prev a :=
  Function.update_of_ne h ..

theorem joined_listAddBetween (m : ListHeads) {new prev next : PListHead}
    (hp : new ≠ prev) (hn : new ≠ next) :
    Joined m (listAddBetween m new prev next) prev new new next where
  front := ⟨by simp [listAddBetween], by simp [listAddBetween]⟩
  back := by
    refine ⟨?_, ?_⟩
    · rw [listAddBetween, next_setNext_of_ne _ hp, next_setPrev,
        next_setNext_self]
    · rw [listAddBetween, prev_setNext, prev_setPrev_of_ne _ hn.symm,
        prev_setNext, prev_setPrev_self]
  next := by
    intro a h1 h2
    rw [listAddBetween, next_setNext_of_ne _ h1, next_setPrev,
      next_setNext_of_ne _ h2, next_setPrev]
  prev := by
    intro b h1 h2
    rw [listAddBetween, prev_setNext, prev_setPrev_of_ne _ h2, prev_setNext,
      prev_setPrev_of_ne _ h1]

theorem parted_listDelBetween (m : ListHeads) (p n q : PListHead) :
    Parted m (listDelBetween m p q) p n q where
  closed := ⟨by simp [listDelBetween], by simp [listDelBetween]⟩
  next := by
    intro a h1 _
    rw [listDelBetween, next_setNext_of_ne _ h1, next_setPrev]
  prev := by
    intro b h1 _
    rw [listDelBetween, prev_setNext, prev_setPrev_of_ne _ h1]

/-- Stores to the links of the cell that has been taken out. -/
theorem parted_stores {m m' : ListHeads} {p n q : PListHead}
    (h : Parted m m' p n q) (hp : p ≠ n) (hq : q ≠ n) (v w : PListHead) :
    Parted m (setPrev (setNext m' n v) n w) p n q where
  closed := by
    refine ⟨?_, ?_⟩
    · rw [next_setPrev, next_setNext_of_ne _ hp, h.closed.1]
    · rw [prev_setPrev_of_ne _ hq, prev_setNext, h.closed.2]
  next := by
    intro a h1 h2
    rw [next_setPrev, next_setNext_of_ne _ h2, h.next a h1 h2]
  prev := by
    intro b h1 h2
    rw [prev_setPrev_of_ne _ h2, prev_setNext, h.prev b h1 h2]

theorem joined_listSpliceBetween (m : ListHeads) {list head : PListHead}
    (hl : head ≠ m.prev list) (hf : m.next list ≠ m.next head) :
    Joined m (listSpliceBetween m list head) head (m.next list) (m.prev list)
      (m.next head) where
  front := by
    refine ⟨?_, ?_⟩
    · rw [listSpliceBetween, next_setPrev, next_setNext_of_ne _ hl,
        next_setNext_self]
    · rw [listSpliceBetween, prev_setPrev_of_ne _ hf, prev_setNext, prev_setNext,
        prev_setPrev_self]
  back := ⟨by simp [listSpliceBetween], by simp [listSpliceBetween]⟩
  next := by
    intro a h1 h2
    rw [listSpliceBetween, next_setPrev, next_setNext_of_ne _ h2,
      next_setNext_of_ne _ h1, next_setPrev]
  prev := by
    intro b h1 h2
    rw [listSpliceBetween, prev_setPrev_of_ne _ h1, prev_setNext, prev_setNext,
      prev_setPrev_of_ne _ h2]

/-! ## What the functions do to the lists -/

section Lists

variable {m : ListHeads} {A : Heads PListHead} {head new entry : PListHead}
  {s t xs : List PListHead}

/-- The last cell of a nonempty list, and the first one. -/
theorem exists_concat (a : PListHead) (l : List PListHead) :
    ∃ u p, a :: l = u ++ [p] :=
  ⟨_, _, (List.dropLast_append_getLast (List.cons_ne_nil a l)).symm⟩

theorem exists_cons (l : List PListHead) (a : PListHead) :
    ∃ q v, l ++ [a] = q :: v := by
  cases l with
  | nil => exact ⟨a, [], rfl⟩
  | cons b l => exact ⟨b, l ++ [a], rfl⟩

/-- A new cell between two neighbours. -/
theorem holds_listAddBetween (hA : Holds m A) (hh : A head = some (s ++ t))
    {u v : List PListHead} {p q : PListHead} (hp : head :: s = u ++ [p])
    (hq : t ++ [head] = q :: v) (hnew : ¬ Cell A new) :
    Holds (listAddBetween m new p q)
      (Function.update A head (some (s ++ new :: t))) := by
  obtain ⟨hpm, hqm⟩ := mem_around hp hq
  have hseg : [new].IsChain (Linked m) := .singleton new
  have hins := hA.insert hh hp hq hseg
    (List.nodup_singleton new) rfl rfl
    (fun a ha => List.mem_singleton.mp ha ▸ hnew)
    (joined_listAddBetween m (fun e => hnew ⟨_, _, hh, e ▸ hpm⟩)
      (fun e => hnew ⟨_, _, hh, e ▸ hqm⟩))
  rw [List.append_assoc, List.singleton_append] at hins
  exact hins

/-- **`list_add`** puts the new cell first. -/
theorem holds_listAdd (hA : Holds m A) (hh : A head = some xs)
    (hnew : ¬ Cell A new) : Holds (listAdd m new head)
      (Function.update A head (some (new :: xs))) := by
  obtain ⟨q, v, hq⟩ := exists_cons xs head
  have hp : head :: [] = [] ++ [head] := rfl
  have hnext := ((hA.ring head xs hh).neighbours (s := []) hp hq).1
  rw [listAdd, hnext]
  exact holds_listAddBetween hA (s := []) hh hp hq hnew

/-- **`list_add_tail`** puts the new cell last. -/
theorem holds_listAddTail (hA : Holds m A) (hh : A head = some xs)
    (hnew : ¬ Cell A new) : Holds (listAddTail m new head)
      (Function.update A head (some (xs ++ [new]))) := by
  obtain ⟨u, p, hp⟩ := exists_concat head xs
  have hq : [] ++ [head] = head :: [] := rfl
  have hh' : A head = some (xs ++ []) := by rw [List.append_nil, hh]
  rw [listAddTail, (hA.ring head xs hh).prev_last hp]
  exact holds_listAddBetween hA hh' hp hq hnew

/-- The neighbours of an entry, as its links have them. -/
theorem links_entry (hA : Holds m A) (hh : A head = some (s ++ entry :: t))
    {u v : List PListHead} {p q : PListHead} (hp : head :: s = u ++ [p])
    (hq : t ++ [head] = q :: v) :
    m.prev entry = p ∧ m.next entry = q ∧ p ≠ entry ∧ q ≠ entry := by
  have hring := hA.ring head _ hh
  have hnd := hring.nodup
  rw [← List.cons_append, List.nodup_middle, List.nodup_cons] at hnd
  obtain ⟨hpm, hqm⟩ := mem_around hp hq
  refine ⟨(hring.neighbours (t := entry :: t) hp rfl).2, ?_,
    fun e => hnd.1 (e ▸ hpm), fun e => hnd.1 (e ▸ hqm)⟩
  have hsplit : s ++ entry :: t = (s ++ [entry]) ++ t := by simp
  rw [hsplit] at hring
  refine (hring.neighbours (u := head :: s) ?_ hq).1
  rw [List.cons_append]

/-- What is left when an entry has been unlinked. -/
theorem holds_unlinked (hA : Holds m A)
    (hh : A head = some (s ++ entry :: t)) {m' : ListHeads}
    (hm : ∀ p q, m.prev entry = p → m.next entry = q → p ≠ entry → q ≠ entry →
      Parted m m' p entry q) :
    Holds m' (Function.update A head (some (s ++ t)))
      ∧ ¬ Cell (Function.update A head (some (s ++ t))) entry := by
  obtain ⟨u, p, hp⟩ := exists_concat head s
  obtain ⟨q, v, hq⟩ := exists_cons t head
  obtain ⟨hprev, hnext, hpe, hqe⟩ := links_entry hA hh hp hq
  exact hA.remove hh hp hq (hm p q hprev hnext hpe hqe)

/-- `__list_del` of the neighbours of an entry. -/
theorem holds_listDelBetween (hA : Holds m A)
    (hh : A head = some (s ++ entry :: t)) :
    Holds (listDelBetween m (m.prev entry) (m.next entry))
        (Function.update A head (some (s ++ t)))
      ∧ ¬ Cell (Function.update A head (some (s ++ t))) entry := by
  refine holds_unlinked hA hh fun p q hp hq _ _ => ?_
  rw [hp, hq]
  exact parted_listDelBetween m p entry q

/-- **`list_del`** takes the entry out. -/
theorem holds_listDel (hA : Holds m A)
    (hh : A head = some (s ++ entry :: t)) :
    Holds (listDel m entry) (Function.update A head (some (s ++ t)))
      ∧ ¬ Cell (Function.update A head (some (s ++ t))) entry := by
  refine holds_unlinked hA hh fun p q hp hq hpe hqe => ?_
  rw [listDel, hp, hq]
  exact parted_stores (parted_listDelBetween m p entry q) hpe hqe _ _

theorem linked_initListHead (m : ListHeads) (ptr : PListHead) :
    Linked (initListHead m ptr) ptr ptr
      ∧ ∀ p, p ≠ ptr → (initListHead m ptr).next p = m.next p
        ∧ (initListHead m ptr).prev p = m.prev p := by
  refine ⟨⟨by simp [initListHead], by simp [initListHead]⟩, fun p hp => ⟨?_, ?_⟩⟩
  · rw [initListHead, next_setPrev, next_setNext_of_ne _ hp]
  · rw [initListHead, prev_setPrev_of_ne _ hp, prev_setNext]

/-- **`INIT_LIST_HEAD`** makes an empty list. -/
theorem holds_initListHead (hA : Holds m A) (hnew : ¬ Cell A head) :
    Holds (initListHead m head) (Function.update A head (some [])) :=
  hA.single hnew (linked_initListHead m head).1 (linked_initListHead m head).2

/-- An empty list is one whose head links to itself. -/
theorem listEmpty_iff (hA : Holds m A) (hh : A head = some xs) :
    listEmpty m head = true ↔ xs = [] := by
  rw [listEmpty, decide_eq_true_iff]
  have hring := hA.ring head xs hh
  cases xs with
  | nil =>
      exact iff_of_true (hring.neighbours (s := []) (t := []) (u := [])
        (v := []) rfl rfl).1 rfl
  | cons x xs =>
      refine iff_of_false (fun e => ?_) (List.cons_ne_nil x xs)
      exact (List.nodup_cons.mp hring.nodup).1
        (e ▸ hring.next_head ▸ List.mem_cons_self ..)

/-- **`__list_splice`** moves the entries of `list` behind a cell of another list;
    the head of `list` is left without a list. -/
theorem holds_listSpliceBetween (hA : Holds m A) {list at_ : PListHead}
    (hl : A list = some xs) (hne : xs ≠ []) (hh : A head = some (s ++ t))
    (hlh : list ≠ head) {u : List PListHead} (hp : head :: s = u ++ [at_]) :
    Holds (listSpliceBetween m list at_)
        (Function.update (Function.update A list none) head
          (some (s ++ xs ++ t)))
      ∧ ¬ Cell (Function.update (Function.update A list none) head
          (some (s ++ xs ++ t))) list := by
  obtain ⟨q, v, hq⟩ := exists_cons t head
  obtain ⟨hpm, hqm⟩ := mem_around hp hq
  have hnext := ((hA.ring head _ hh).neighbours hp hq).1
  have hdrop := hA.drop list
  have hh' : Function.update A list none head = some (s ++ t) := by
    rw [Function.update_of_ne hlh.symm, hh]
  -- the entries of `list` are in no list, once its head is given up
  have hout : ∀ a ∈ list :: xs, ¬ Cell (Function.update A list none) a := by
    rintro a ha ⟨g, ys, hg, hm⟩
    by_cases hgl : g = list
    · rw [hgl, Function.update_self] at hg
      cases hg
    · rw [Function.update_of_ne hgl] at hg
      exact hA.not_mem hl hg hgl hm ha
  obtain ⟨first, fs, rfl⟩ := List.exists_cons_of_ne_nil hne
  obtain ⟨ls, last, hlast⟩ := exists_concat first fs
  have hring := hA.ring list _ hl
  have hf : m.next list = first := hring.next_head
  have hla : m.prev list = last := (hlast ▸ hring).prev_head
  have hfm : first ∈ list :: first :: fs := by simp
  have hlm : last ∈ list :: first :: fs := by
    rw [hlast]
    simp
  have hcell : ∀ {a b}, a ∈ list :: first :: fs →
      b ∈ head :: (s ++ t) → a ≠ b :=
    fun ha hb e => hout _ ha ⟨head, _, hh', e ▸ hb⟩
  have hback : at_ ≠ m.prev list := by
    rw [hla]
    exact (hcell hlm hpm).symm
  have hfront : m.next list ≠ m.next at_ := by
    rw [hf, hnext]
    exact hcell hfm hqm
  have hj := joined_listSpliceBetween m hback hfront
  rw [hf, hla, hnext] at hj
  have hseg : (first :: fs).IsChain (Linked m) := by
    have hchain := hring.linked
    rw [← List.cons_append] at hchain
    exact (List.isChain_append.mp hchain).1.tail
  refine ⟨hdrop.insert hh' hp hq hseg (List.nodup_cons.mp hring.nodup).2 rfl
    (by rw [hlast, List.getLast?_concat])
    (fun a ha => hout a (List.mem_cons_of_mem _ ha)) hj, ?_⟩
  rintro ⟨g, ys, hg, hm⟩
  by_cases hgh : g = head
  · rw [hgh, Function.update_self] at hg
    obtain rfl := Option.some.inj hg
    rw [List.append_assoc, List.mem_cons, List.mem_append, List.mem_append] at hm
    rcases hm with h1 | h2 | h3 | h4
    · exact hlh (h1.trans hgh)
    · exact hcell (List.mem_cons_self ..) (List.mem_cons_of_mem _
        (List.mem_append_left _ h2)) rfl
    · exact (List.nodup_cons.mp hring.nodup).1 h3
    · exact hcell (List.mem_cons_self ..) (List.mem_cons_of_mem _
        (List.mem_append_right _ h4)) rfl
  · rw [Function.update_of_ne hgh] at hg
    exact hout list (List.mem_cons_self ..) ⟨g, ys, hg, hm⟩

end Lists

/-! ## Calls in any order -/

/-- The memory after some calls, and the lists they make.  A rule has what the
    caller sees to: a new cell is in no list, an entry is in the list, a list is
    spliced into another one.  `store` is any other code of the program. -/
inductive InUse : ListHeads → Heads PListHead → Prop where
  | start (m : ListHeads) : InUse m fun _ => none
  | store {m m' : ListHeads} {A : Heads PListHead} : InUse m A →
      (∀ p, Cell A p → m'.next p = m.next p ∧ m'.prev p = m.prev p) → InUse m' A
  | drop {m : ListHeads} {A : Heads PListHead} (head : PListHead) : InUse m A →
      InUse m (Function.update A head none)
  | initListHead {m : ListHeads} {A : Heads PListHead} {head : PListHead} :
      InUse m A → ¬ Cell A head →
      InUse (initListHead m head) (Function.update A head (some []))
  | listAdd {m : ListHeads} {A : Heads PListHead} {head new : PListHead}
      {xs : List PListHead} : InUse m A → A head = some xs → ¬ Cell A new →
      InUse (listAdd m new head) (Function.update A head (some (new :: xs)))
  | listAddTail {m : ListHeads} {A : Heads PListHead} {head new : PListHead}
      {xs : List PListHead} : InUse m A → A head = some xs → ¬ Cell A new →
      InUse (listAddTail m new head)
        (Function.update A head (some (xs ++ [new])))
  | listDel {m : ListHeads} {A : Heads PListHead} {head entry : PListHead}
      {s t : List PListHead} : InUse m A →
      A head = some (s ++ entry :: t) →
      InUse (listDel m entry) (Function.update A head (some (s ++ t)))
  | listDelInit {m : ListHeads} {A : Heads PListHead} {head entry : PListHead}
      {s t : List PListHead} : InUse m A →
      A head = some (s ++ entry :: t) →
      InUse (listDelInit m entry) (Function.update
        (Function.update A head (some (s ++ t))) entry (some []))
  | listMove {m : ListHeads} {A : Heads PListHead} {list head entry : PListHead}
      {s t xs : List PListHead} : InUse m A →
      A list = some (s ++ entry :: t) →
      Function.update A list (some (s ++ t)) head = some xs →
      InUse (listMove m entry head) (Function.update
        (Function.update A list (some (s ++ t))) head (some (entry :: xs)))
  | listMoveTail {m : ListHeads} {A : Heads PListHead}
      {list head entry : PListHead} {s t xs : List PListHead} : InUse m A →
      A list = some (s ++ entry :: t) →
      Function.update A list (some (s ++ t)) head = some xs →
      InUse (listMoveTail m entry head) (Function.update
        (Function.update A list (some (s ++ t))) head
        (some (xs ++ [entry])))
  | listSplice {m : ListHeads} {A : Heads PListHead}
      {list head place : PListHead} {s t xs u : List PListHead} :
      InUse m A → A list = some xs → A head = some (s ++ t) →
      list ≠ head → head :: s = u ++ [place] →
      InUse (listSplice m list place) (Function.update
        (Function.update A list none) head (some (s ++ xs ++ t)))
  | listSpliceInit {m : ListHeads} {A : Heads PListHead}
      {list head place : PListHead} {s t xs u : List PListHead} :
      InUse m A → A list = some xs → A head = some (s ++ t) →
      list ≠ head → head :: s = u ++ [place] →
      InUse (listSpliceInit m list place) (Function.update (Function.update
        (Function.update A list none) head (some (s ++ xs ++ t)))
        list (some []))

/-- **THE LISTS ARE RINGS** whatever calls went before. -/
theorem holds_inUse {m : ListHeads} {A : Heads PListHead} (h : InUse m A) :
    Holds m A := by
  induction h with
  | start m => exact ⟨fun _ _ h => (by cases h), fun _ _ _ _ h => (by cases h)⟩
  | store _ hsame ih =>
      exact ⟨fun g ys hg => (ih.ring g ys hg).congr
        fun p hp => hsame p ⟨g, ys, hg, hp⟩, ih.apart⟩
  | drop head _ ih => exact ih.drop head
  | initListHead _ hnew ih => exact holds_initListHead ih hnew
  | listAdd _ hh hnew ih => exact holds_listAdd ih hh hnew
  | listAddTail _ hh hnew ih => exact holds_listAddTail ih hh hnew
  | listDel _ hh ih => exact (holds_listDel ih hh).1
  | listDelInit _ hh ih =>
      obtain ⟨hdel, hout⟩ := holds_listDelBetween ih hh
      exact holds_initListHead hdel hout
  | listMove _ hl hh ih =>
      obtain ⟨hdel, hout⟩ := holds_listDelBetween ih hl
      exact holds_listAdd hdel hh hout
  | listMoveTail _ hl hh ih =>
      obtain ⟨hdel, hout⟩ := holds_listDelBetween ih hl
      exact holds_listAddTail hdel hh hout
  | @listSplice m A list head place s t xs u _ hl hh hlh hp ih =>
      rw [IMListHead.listSplice]
      by_cases hempty : listEmpty m list = true
      · obtain rfl := (listEmpty_iff ih hl).mp hempty
        rw [if_pos hempty, List.append_nil, ← hh, ← Function.update_of_ne hlh.symm
          none A, Function.update_eq_self]
        exact ih.drop list
      · rw [if_neg hempty]
        exact (holds_listSpliceBetween ih hl (mt (listEmpty_iff ih hl).mpr hempty)
          hh hlh hp).1
  | @listSpliceInit m A list head place s t xs u _ hl hh hlh hp ih =>
      rw [IMListHead.listSpliceInit]
      by_cases hempty : listEmpty m list = true
      · obtain rfl := (listEmpty_iff ih hl).mp hempty
        rw [if_pos hempty, List.append_nil, ← hh, ← Function.update_of_ne hlh.symm
          none A, Function.update_eq_self, Function.update_idem, ← hl,
          Function.update_eq_self]
        exact ih
      · rw [if_neg hempty]
        obtain ⟨hs, hout⟩ := holds_listSpliceBetween ih hl
          (mt (listEmpty_iff ih hl).mpr hempty) hh hlh hp
        exact holds_initListHead hs hout

/-- What the readers of a list see: the same sequence in both directions, and its
    ends. -/
structure Shows (m : ListHeads) (head : PListHead) (xs : List PListHead) :
    Prop where
  forward : ∀ fuel, xs.length < fuel →
    walk m.next head fuel (m.next head) = some xs
  backward : ∀ fuel, xs.length < fuel →
    walk m.prev head fuel (m.prev head) = some xs.reverse
  empty : listEmpty m head = true ↔ xs = []
  first : listFirstEntryOrNull m head = xs.head?
  last : xs ≠ [] → some (listLastEntry m head) = xs.getLast?

/-- The reading functions agree with the ring. -/
theorem shows_of_holds {m : ListHeads} {A : Heads PListHead} (hA : Holds m A)
    {head : PListHead} {xs : List PListHead} (hh : A head = some xs) :
    Shows m head xs := by
  have hring := hA.ring head xs hh
  have hempty := listEmpty_iff hA hh
  refine ⟨fun fuel => hring.walk_next, fun fuel => hring.walk_prev, hempty,
    ?_, fun hne => ?_⟩
  · rw [listFirstEntryOrNull]
    cases xs with
    | nil => rw [if_pos (hempty.mpr rfl), List.head?_nil]
    | cons x xs =>
        rw [if_neg (mt hempty.mp (List.cons_ne_nil x xs)), List.head?_cons,
          hring.next_head]
  · obtain ⟨x, zs, rfl⟩ := List.exists_cons_of_ne_nil hne
    obtain ⟨ys, y, hys⟩ := exists_concat x zs
    rw [hys] at hring ⊢
    rw [List.getLast?_concat, listLastEntry, hring.prev_head]

/-- **LISTS IN USE**: after any calls in any order, on any number of lists, every
    list is the sequence its calls make. -/
theorem lists_in_use {m : ListHeads} {A : Heads PListHead} (h : InUse m A) :
    ∀ head xs, A head = some xs → Shows m head xs :=
  fun _ _ hh => shows_of_holds (holds_inUse h) hh

/-- Two lists: 1 and 2 behind the head 0, and 4 behind the head 3. -/
def twoLists : ListHeads :=
  listAdd (initListHead (listAddTail (listAddTail
    (initListHead ⟨id, id⟩ 0) 1 0) 2 0) 3) 4 3

theorem inUse_twoLists : ∃ A, InUse twoLists A ∧ A 0 = some [1, 2]
    ∧ A 3 = some [4] := by
  have h0 : InUse (initListHead ⟨id, id⟩ 0) _ :=
    .initListHead (.start ⟨id, id⟩) (not_cell_none 0)
  have h1 : InUse (listAddTail _ 1 0) _ := h0.listAddTail rfl fun h =>
    h.of_update.elim (by decide) (not_cell_none 1)
  have h2 : InUse (listAddTail _ 2 0) _ := h1.listAddTail rfl fun h =>
    h.of_update.elim (by decide) fun h =>
      h.of_update.elim (by decide) (not_cell_none 2)
  have h3 : InUse (initListHead _ 3) _ := h2.initListHead fun h =>
    h.of_update.elim (by decide) fun h =>
      h.of_update.elim (by decide) fun h =>
        h.of_update.elim (by decide) (not_cell_none 3)
  have h4 : InUse (listAdd _ 4 3) _ := h3.listAdd rfl fun h =>
    h.of_update.elim (by decide) fun h => h.of_update.elim (by decide) fun h =>
      h.of_update.elim (by decide) fun h =>
        h.of_update.elim (by decide) (not_cell_none 4)
  exact ⟨_, h4, rfl, rfl⟩

/-- The second list spliced behind 1. -/
theorem lists_in_use_spliced : Shows (listSplice twoLists 3 1) 0 [1, 4, 2] := by
  obtain ⟨A, h, h0, h3⟩ := inUse_twoLists
  exact lists_in_use (h.listSplice (s := [1]) (t := [2]) (u := [0]) h3 h0
    (by decide) rfl) 0 [1, 4, 2] (Function.update_self ..)

/-- **THE OLD HEAD** after `list_splice`: it still links into the list that has
    the entries now, it is not on the ring of that list, and so no loop over it
    ends. -/
theorem walk_spliced {m : ListHeads} {A : Heads PListHead} (h : InUse m A)
    {list head place : PListHead} {s t xs u : List PListHead}
    (hl : A list = some xs) (hne : xs ≠ []) (hh : A head = some (s ++ t))
    (hlh : list ≠ head) (hp : head :: s = u ++ [place]) :
    (listSplice m list place).next list ∈ s ++ xs ++ t
      ∧ list ∉ head :: (s ++ xs ++ t)
      ∧ ∀ fuel, walk (listSplice m list place).next list fuel
        ((listSplice m list place).next list) = none := by
  have hA := holds_inUse h
  obtain ⟨hs, hout⟩ := holds_listSpliceBetween hA hl hne hh hlh hp
  obtain ⟨q, v, hq⟩ := exists_cons t head
  obtain ⟨first, fs, rfl⟩ := List.exists_cons_of_ne_nil hne
  have hring := hA.ring list _ hl
  have hf : m.next list = first := hring.next_head
  rw [listSplice, if_neg (mt (listEmpty_iff hA hl).mp hne)]
  have hnext := hs.ring head _ (Function.update_self ..)
  have hplace : list ≠ place := by
    rintro rfl
    exact hA.not_mem hh hl hlh (List.mem_cons_self ..) (mem_around hp hq).1
  have hlast : list ≠ m.prev list := by
    obtain ⟨ls, last, hlast⟩ := exists_concat first fs
    have hla : m.prev list = last := (hlast ▸ hring).prev_head
    rw [hla]
    rintro rfl
    exact (List.nodup_cons.mp hring.nodup).1 (hlast ▸ by simp)
  have hlist : (listSpliceBetween m list place).next list = first := by
    rw [listSpliceBetween, next_setPrev, next_setNext_of_ne _ hlast,
      next_setNext_of_ne _ hplace, next_setPrev, hf]
  have hfirst : first ∈ s ++ first :: fs ++ t := by simp
  have hnot : list ∉ head :: (s ++ first :: fs ++ t) :=
    fun hm => hout ⟨head, _, Function.update_self .., hm⟩
  rw [hlist]
  exact ⟨hfirst, hnot,
    hnext.walk_other (List.mem_cons_of_mem _ hfirst) hnot⟩

theorem walk_spliced_twoLists :
    (listSplice twoLists 3 1).next 3 ∈ [1, 4, 2] ∧ 3 ∉ [0, 1, 4, 2]
      ∧ ∀ fuel, walk (listSplice twoLists 3 1).next 3 fuel
        ((listSplice twoLists 3 1).next 3) = none := by
  obtain ⟨A, h, h0, h3⟩ := inUse_twoLists
  exact walk_spliced h (s := [1]) (t := [2]) (u := [0]) h3 (by decide) h0
    (by decide) rfl

/-! ## `list_for_each` -/

/-- The loop's body on the entries of a list, until it leaves the loop. -/
def visit {σ : Type} (body : PListHead → σ → σ × Bool) :
    List PListHead → σ → σ
  | [], s => s
  | x :: xs, s =>
      let r := body x s
      if r.2 then r.1 else visit body xs r.1

theorem forEachFrom_chain {σ : Type} {links : σ → ListHeads} {m : ListHeads}
    {head : PListHead} {body : PListHead → σ → σ × Bool} :
    ∀ {xs : List PListHead} {a : PListHead} {fuel : Nat} {s : σ},
      (a :: (xs ++ [head])).IsChain (Linked m) → head ∉ xs → links s = m →
      (∀ x ∈ xs, ∀ s, links s = m → (body x s).2 = false →
        links (body x s).1 = m) → xs.length < fuel →
      forEachFrom links head body fuel (m.next a) s = some (visit body xs s) := by
  intro xs
  induction xs with
  | nil =>
      intro a fuel s hl _ _ _ hf
      obtain ⟨fuel, rfl⟩ := Nat.exists_eq_add_one_of_ne_zero (Nat.ne_of_gt hf)
      rw [forEachFrom, if_pos (List.isChain_cons_cons.mp hl).1.1, visit]
  | cons x xs ih =>
      intro a fuel s hl hh hs hbody hf
      obtain ⟨⟨hax, -⟩, hrest⟩ := List.isChain_cons_cons.mp hl
      obtain ⟨fuel, rfl⟩ := Nat.exists_eq_add_one_of_ne_zero
        (Nat.ne_of_gt (Nat.zero_lt_of_lt hf))
      rw [List.mem_cons, not_or] at hh
      rw [hax, forEachFrom, if_neg (fun e => hh.1 e.symm), visit]
      by_cases hbreak : (body x s).2 = true
      · rw [if_pos hbreak, if_pos hbreak]
      · have hlinks := hbody x (List.mem_cons_self ..) s hs
          (Bool.eq_false_iff.mpr hbreak)
        rw [if_neg hbreak, if_neg hbreak, hlinks]
        exact ih hrest hh.2 hlinks
          (fun y hy => hbody y (List.mem_cons_of_mem x hy))
          (Nat.lt_of_succ_lt_succ hf)

/-- **`list_for_each`** goes through the entries in their order, as long as a body
    that changes the links leaves the loop. -/
theorem listForEach_eq {σ : Type} (links : σ → ListHeads) (s : σ)
    {A : Heads PListHead} (hA : Holds (links s) A) {head : PListHead}
    {xs : List PListHead} (hh : A head = some xs)
    {body : PListHead → σ → σ × Bool}
    (hbody : ∀ x ∈ xs, ∀ t, links t = links s → (body x t).2 = false →
      links (body x t).1 = links s) {fuel : Nat} (hf : xs.length < fuel) :
    listForEach links head body fuel s = some (visit body xs s) := by
  have hring := hA.ring head xs hh
  exact forEachFrom_chain hring.linked (List.nodup_cons.mp hring.nodup).1 rfl
    hbody hf

end IMListHead

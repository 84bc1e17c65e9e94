import IMServer.LineFraming
import IMServer.MessageFormat
import IMServer.Server

/-! # Delivering a message

    `Gets` says for which clients a message is, by their names.  The loop of
    `deliver_msg_to_all_clients` appends one copy to the writing buffer of each
    of them and touches nothing else. -/

namespace IMDelivery

open IMBytes IMCString IMMachineInt IMCachePool IMBufferInvariant IMBufferQueue
  IMClientInfo IMLineFraming IMMessage IMMessageFormat IMServerInfo

/-- The name of a client: the string in the array. -/
def nameOf (m : Clients) (c : PClientInfo) : List UInt8 :=
  cstr (m.info c).name

/-- The message is for the client `c`. -/
def Gets (m : Clients) (msg : Msg) (c : PClientInfo) : Prop :=
  (m.info c).pub ≠ fail ∧ nameOf m c ≠ cstr msg.exclude
    ∧ nameOf m c ≠ unknownClient
    ∧ (cstr msg.target = cmdToAll ∨ cstr msg.target = nameOf m c)

instance (m : Clients) (msg : Msg) (c : PClientInfo) :
    Decidable (Gets m msg c) :=
  inferInstanceAs (Decidable (_ ∧ _ ∧ _ ∧ _))

/-! ## One client -/

theorem filterOut_eq_zero {msg : Msg} {name : List UInt8} :
    filterOut msg name = 0
      ↔ cstr msg.exclude = cstr name ∨ cstr name = unknownClient := by
  have hu : cstr unknownClient = unknownClient := by decide
  rw [filterOut]
  constructor
  · intro h
    by_cases hc : 0 = strcmp msg.exclude name ∨ 0 = strcmp name unknownClient
    · rcases hc with h1 | h2
      · exact Or.inl (strcmp_eq_zero.mp h1.symm)
      · exact Or.inr ((strcmp_eq_zero.mp h2.symm).trans hu)
    · rw [if_neg hc] at h
      cases h
  · rintro (h1 | h2)
    · exact if_pos (Or.inl (strcmp_eq_zero.mpr h1).symm)
    · exact if_pos (Or.inr (strcmp_eq_zero.mpr (h2.trans hu.symm)).symm)

theorem isMsgToAll_eq_zero {msg : Msg} :
    isMsgToAll msg = 0 ↔ cstr msg.target = cmdToAll := by
  have hc : cstr cmdToAll = cmdToAll := by decide
  rw [isMsgToAll, strcmp_eq_zero, hc]

theorem isTarget_eq_zero {msg : Msg} {name : List UInt8} :
    isTarget msg name = 0 ↔ cstr msg.target = cstr name :=
  strcmp_eq_zero

/-- The loop body sends to the clients the message is for. -/
theorem deliverMsgToClient_eq (msg : Msg) (n : Nat) (m : Clients)
    (c : PClientInfo) :
    deliverMsgToClient msg (decide (isMsgToAll msg = 0)) n m c
      = if Gets m msg c then
          (n + 1, (sendMsgToClient m c msg.content msg.size).2)
        else (n, m) := by
  rw [deliverMsgToClient]
  by_cases hpub : (m.info c).pub = fail
  · rw [if_pos hpub, if_neg (fun h => h.1 hpub)]
  · rw [if_neg hpub]
    by_cases hout : filterOut msg (m.info c).name = 0
    · rw [if_pos hout, if_neg]
      rintro ⟨-, hex, hun, -⟩
      rcases filterOut_eq_zero.mp hout with h1 | h2
      · exact hex h1.symm
      · exact hun h2
    · rw [if_neg hout]
      have hnot : ¬ (cstr msg.exclude = cstr (m.info c).name
          ∨ cstr (m.info c).name = unknownClient) :=
        fun h => hout (filterOut_eq_zero.mpr h)
      by_cases hto : cstr msg.target = cmdToAll
          ∨ cstr msg.target = nameOf m c
      · rw [if_pos, if_pos]
        · exact ⟨hpub, fun e => hnot (Or.inl e.symm), fun e => hnot (Or.inr e),
            hto⟩
        · rcases hto with h1 | h2
          · exact Or.inl (decide_eq_true (isMsgToAll_eq_zero.mpr h1))
          · exact Or.inr (isTarget_eq_zero.mpr h2)
      · rw [if_neg, if_neg (fun h => hto h.2.2.2)]
        rintro (h1 | h2)
        · exact hto (Or.inl (isMsgToAll_eq_zero.mp (of_decide_eq_true h1)))
        · exact hto (Or.inr (isTarget_eq_zero.mp h2))

/-! ## The loop -/

/-- **WHAT A DELIVERY DOES** to the clients `L`: each that the message is for gets
    one copy, all of it when no allocation fails. -/
structure Delivered (m : Clients) (L : List PClientInfo) (msg : Msg) (n : Nat)
    (r : Nat × Clients) : Prop where
  heap : HeapInv r.2.heap
  data : r.2.data = m.data
  reading : ∀ c, Same m.heap r.2.heap (c, .reading)
  outside : Outside m.heap r.2.heap
  count : r.1 = n + (L.filter fun c => decide (Gets m msg c)).length
  copies : NoFail m.heap.pool → ∀ c, r.2.writing c = m.writing c
    ++ if c ∈ L ∧ Gets m msg c then msg.content.take msg.size else []

theorem gets_of_data {m m' : Clients} (h : m'.data = m.data) (msg : Msg)
    (c : PClientInfo) : Gets m' msg c ↔ Gets m msg c := by
  unfold Gets nameOf Clients.info
  rw [h]

theorem deliverLoop_spec {msg : Msg} (hsize : msg.size < 2 ^ 31) :
    ∀ (L : List PClientInfo) (n : Nat) (m : Clients), HeapInv m.heap →
      L.Nodup → Delivered m L msg n
        (deliverLoop msg (decide (isMsgToAll msg = 0)) (L.map some) n m) := by
  intro L
  induction L with
  | nil =>
      intro n m hh _
      refine ⟨hh, rfl, fun c => Same.refl _ _, Outside.refl _, rfl, ?_⟩
      intro _ c
      rw [if_neg (fun h => by cases h.1), List.append_nil]
      rfl
  | cons c L ih =>
      intro n m hh hnd
      obtain ⟨hnot, hnd'⟩ := List.nodup_cons.mp hnd
      rw [List.map_cons, deliverLoop]
      simp only [deliverMsgToClient_eq]
      by_cases hg : Gets m msg c
      · simp only [if_pos hg]
        obtain ⟨hh', -, hall, hsame, hdata, hout⟩ :=
          sendMsgToClient_spec c msg.content hh hsize
        generalize (sendMsgToClient m c msg.content msg.size).2 = m' at *
        have hrest := ih (n + 1) m' hh' hnd'
        have hgets := gets_of_data hdata msg
        have hwriting : ∀ d, d ≠ c → m'.writing d = m.writing d :=
          fun d hd => (hsame (d, .writing) (fun e => hd
            (congrArg Prod.fst e))).content
        refine ⟨hrest.heap, hrest.data.trans hdata,
          fun d => (hsame (d, .reading) (reading_ne_writing d c)).trans
            (hrest.reading d), hout.trans hrest.outside, ?_, ?_⟩
        · rw [hrest.count]
          simp only [hgets, List.filter_cons, hg, decide_true, if_true,
            List.length_cons]
          omega
        · intro hnf d
          have hcopy := hrest.copies (hout.noFail hnf) d
          simp only [hgets] at hcopy
          rw [hcopy]
          by_cases hd : d = c
          · subst hd
            rw [if_neg (fun h => hnot h.1), hall hnf,
              if_pos ⟨List.mem_cons_self .., hg⟩, List.append_nil]
          · rw [hwriting d hd]
            refine congrArg _ (if_congr ?_ rfl rfl)
            rw [List.mem_cons]
            exact and_congr_left (fun _ => ⟨Or.inr, fun h => h.resolve_left hd⟩)
      · simp only [if_neg hg]
        have hrest := ih n m hh hnd'
        refine ⟨hrest.heap, hrest.data, hrest.reading, hrest.outside, ?_, ?_⟩
        · rw [hrest.count]
          simp only [List.filter_cons, hg, decide_false, Bool.false_eq_true,
            if_false]
        · intro hnf d
          rw [hrest.copies hnf d]
          refine congrArg _ (if_congr ?_ rfl rfl)
          rw [List.mem_cons]
          constructor
          · exact fun h => ⟨Or.inr h.1, h.2⟩
          · rintro ⟨rfl | h1, h2⟩
            · exact absurd h2 hg
            · exact ⟨h1, h2⟩

/-! ## The snapshot -/

/-- A snapshot of as many clients as there are is the list. -/
theorem fillArray_eq {items : Int} {clients : List PClientInfo}
    (h : items = clients.length) :
    fillArray items clients = clients.map some := by
  rw [fillArray, h, Int.toNat_natCast, overwrite, List.take_zero,
    List.nil_append, List.length_map, Nat.zero_add,
    List.drop_of_length_le (Nat.le_of_eq List.length_replicate),
    List.append_nil]

/-- What a part of the handling of a line for `c` leaves alone: the reading
    buffers, the list and its counter, the flag, the other clients, and of `c`
    all but the name. -/
structure Handled (s s' : ServerInfo) (c : PClientInfo) : Prop where
  heap : HeapInv s'.mem.heap
  reading : ∀ d, Same s.mem.heap s'.mem.heap (d, .reading)
  outside : Outside s.mem.heap s'.mem.heap
  clients : s'.clients = s.clients
  clientCount : s'.clientCount = s.clientCount
  signToFlushMsg : s'.signToFlushMsg = s.signToFlushMsg
  others : ∀ d, d ≠ c → s'.mem.data d = s.mem.data d
  check : (s'.mem.data c).lastCheckCmdIndex = (s.mem.data c).lastCheckCmdIndex
  socketId : (s'.mem.info c).socketId = (s.mem.info c).socketId
  pub : (s'.mem.info c).pub = (s.mem.info c).pub

theorem Handled.refl {s : ServerInfo} (h : HeapInv s.mem.heap)
    (c : PClientInfo) : Handled s s c :=
  ⟨h, fun _ => Same.refl _ _, Outside.refl _, rfl, rfl, rfl, fun _ _ => rfl, rfl,
    rfl, rfl⟩

theorem Handled.trans {s s₁ s₂ : ServerInfo} {c : PClientInfo}
    (h : Handled s s₁ c) (h' : Handled s₁ s₂ c) : Handled s s₂ c where
  heap := h'.heap
  reading := fun d => (h.reading d).trans (h'.reading d)
  outside := h.outside.trans h'.outside
  clients := h'.clients.trans h.clients
  clientCount := h'.clientCount.trans h.clientCount
  signToFlushMsg := h'.signToFlushMsg.trans h.signToFlushMsg
  others := fun d hd => (h'.others d hd).trans (h.others d hd)
  check := h'.check.trans h.check
  socketId := h'.socketId.trans h.socketId
  pub := h'.pub.trans h.pub

/-- A call into the pool that touches no buffer's cache. -/
theorem handled_setPool {s : ServerInfo} (hh : HeapInv s.mem.heap)
    {p : CachePool} (hp : PoolInv p) (hk : Keeps s.pool p [])
    (c : PClientInfo) :
    Handled s (s.setPool p) c
      ∧ ∀ d, (s.setPool p).mem.writing d = s.mem.writing d := by
  obtain ⟨hinv, hsame⟩ := hh.pool_call hp hk (fun _ _ _ => List.not_mem_nil)
  exact ⟨⟨hinv, fun d => hsame _, outside_pool hk, rfl, rfl, rfl,
    fun _ _ => rfl, rfl, rfl, rfl⟩, fun d => (hsame _).content⟩

/-- **`deliver_msg_to_all_clients`** appends one copy of the message to the
    writing buffer of every listed client it is for; a failing allocation of the
    snapshot delivers nothing. -/
theorem deliverMsgToAllClients_spec {s : ServerInfo} {msg : Msg}
    (hh : HeapInv s.mem.heap) (hcount : s.clientCount = s.clients.length)
    (hnd : s.clients.Nodup) (hsize : msg.size < 2 ^ 31) (c : PClientInfo) :
    Handled s (deliverMsgToAllClients s msg).2 c
      ∧ (deliverMsgToAllClients s msg).2.mem.data = s.mem.data
      ∧ (NoFail s.pool → ∀ d, (deliverMsgToAllClients s msg).2.mem.writing d
          = s.mem.writing d ++ if d ∈ s.clients ∧ Gets s.mem msg d then
              msg.content.take msg.size else []) := by
  have halloc := allocated_malloc s.pool
  have hm : NoFail s.pool → (malloc s.pool).1 = true := fun h => h.malloc
  obtain ⟨hpool, hwriting⟩ := handled_setPool hh (halloc.inv hh.pool)
    (halloc.keeps []) c
  rw [deliverMsgToAllClients, getClientList]
  cases hp : malloc s.pool with
  | mk ok p =>
      rw [hp] at hpool hwriting hm halloc
      cases ok with
      | false =>
          simp only [Option.getD_none, List.take_nil, deliverLoop]
          exact ⟨hpool, rfl, fun h => by cases hm h⟩
      | true =>
          simp only [Option.getD_some, fillArray_eq hcount]
          rw [List.take_of_length_le (by
            rw [List.length_map, hcount, Int.toNat_natCast])]
          have hdel := deliverLoop_spec hsize s.clients 0 (s.setPool p).mem
            hpool.heap hnd
          generalize deliverLoop msg (decide (isMsgToAll msg = 0))
            (s.clients.map some) 0 (s.setPool p).mem = r at hdel
          refine ⟨?_, hdel.data, ?_⟩
          · exact ⟨hdel.heap, fun d => (hpool.reading d).trans (hdel.reading d),
              hpool.outside.trans hdel.outside, rfl, rfl, rfl,
              fun d _ => congrFun hdel.data d,
              congrArg ClientData.lastCheckCmdIndex (congrFun hdel.data c),
              congrArg (fun x => x.info.socketId) (congrFun hdel.data c),
              congrArg (fun x => x.info.pub) (congrFun hdel.data c)⟩
          · intro hnf d
            exact (hdel.copies (hpool.outside.noFail hnf) d).trans
              (congrArg (· ++ _) (hwriting d))

/-- The same behind the test that there is a message. -/
theorem deliverIfAny_spec {s : ServerInfo} {o : Option Msg}
    (hh : HeapInv s.mem.heap) (hcount : s.clientCount = s.clients.length)
    (hnd : s.clients.Nodup) (hsize : ∀ msg, o = some msg → msg.size < 2 ^ 31)
    (c : PClientInfo) :
    Handled s (deliverIfAny s o).2 c
      ∧ (deliverIfAny s o).2.mem.data = s.mem.data
      ∧ (NoFail s.pool → ∀ d, (deliverIfAny s o).2.mem.writing d
          = s.mem.writing d ++ match o with
            | none => []
            | some msg => if d ∈ s.clients ∧ Gets s.mem msg d then
                msg.content.take msg.size else []) := by
  cases o with
  | none => exact ⟨Handled.refl hh c, rfl, fun _ d => (List.append_nil _).symm⟩
  | some msg => exact deliverMsgToAllClients_spec hh hcount hnd (hsize msg rfl) c

end IMDelivery

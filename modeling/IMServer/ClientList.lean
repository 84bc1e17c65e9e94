import IMServer.Delivery
import IMServer.Marks
import IMServer.ServerRun
import IMServer.ThreadMoves

/-! # The client list under every interleaving

    Removal goes by descriptor, so it takes the right client off the list only
    while no two listed clients share one.  The invariant is about all clients
    whose descriptor is open: the listed ones, the one being logged out, and the
    one just accepted.  The counter and the list agree in every state, which is
    what makes both snapshots exact. -/

namespace IMClientList

open IMBytes IMMachineInt IMCachePool IMClientInfo IMMessage IMServerInfo IMMarks
  IMDelivery IMServerRun IMThreads IMThreadMoves IMTransition

/-! ## Who has an open descriptor -/

/-- The clients the writing thread has still to go through. -/
def todoOf : Writer → List PClientInfo
  | .flush _ all _ => all
  | .logoutScan todo => todo
  | .logout c .remove todo => c :: todo
  | .logout _ _ todo => todo
  | _ => []

/-- The client that is off the list and not closed yet. -/
def closingOf : Writer → List PClientInfo
  | .logout c .build _ => [c]
  | .logout c (.snapshot _) _ => [c]
  | .logout c (.deliver _) _ => [c]
  | .logout c (.close _) _ => [c]
  | _ => []

/-- The client that is not on the list yet. -/
def addingOf : Listener → List PClientInfo
  | .addNode _ c => [c]
  | _ => []

/-- The descriptor that has no client yet. -/
def acceptedOf : Listener → List Int
  | .create _ clientId => [clientId]
  | _ => []

/-- The clients with an open descriptor. -/
def live (s : State) : List PClientInfo :=
  s.shared.clients ++ closingOf s.writer ++ addingOf s.listener

/-- The descriptors of the threads. -/
def fds (s : State) : List Int :=
  (live s).map (fun c => (s.shared.info c).socketId) ++ acceptedOf s.listener

/-- **THE LIST INVARIANT**. -/
structure ListInv (s : State) : Prop where
  count : s.shared.clientCount = s.shared.clients.length
  created : ∀ c ∈ live s, c ∈ s.shared.created
  distinct : (fds s).Nodup
  opened : ∀ fd ∈ fds s, fd ∈ s.shared.openFds
  todoNodup : (todoOf s.writer).Nodup
  listed : ∀ c ∈ todoOf s.writer, c ∈ s.shared.clients

theorem ListInv.sockets {s : State} (h : ListInv s) :
    (s.shared.clients.map fun c => (s.shared.info c).socketId).Nodup := by
  have hsub : s.shared.clients.Sublist (live s) := by
    rw [live, List.append_assoc]
    exact List.sublist_append_left _ _
  exact ((hsub.map _).trans (List.sublist_append_left _ _)).nodup h.distinct

theorem ListInv.nodup {s : State} (h : ListInv s) : s.shared.clients.Nodup :=
  List.Nodup.of_map _ h.sockets

/-! ## The snapshots -/

theorem getClientList_eq {s : Shared} (h : s.clientCount = s.clients.length) :
    s.getClientList = s.clients := by
  rw [Shared.getClientList, fillArray_eq h, h, Int.toNat_natCast,
    List.take_of_length_le (by rw [List.length_map])]
  show (s.clients.map some).filterMap id = s.clients
  rw [List.filterMap_map]
  exact List.filterMap_some

/-- The two arrays, entry by entry. -/
theorem getPollingAndClientList_eq {s : Shared}
    (h : s.clientCount = s.clients.length) :
    s.getPollingAndClientList = ⟨s.clients.length,
      s.clients.map fun c => pollFdOf (s.info c), s.clients.map some⟩ := by
  rw [Shared.getPollingAndClientList, fillArray_eq h, h, Int.toNat_natCast,
    overwrite, List.take_zero, List.nil_append, List.length_map, Nat.zero_add,
    List.drop_of_length_le (Nat.le_of_eq List.length_replicate),
    List.append_nil]

theorem entries_eq {s : Shared} (h : s.clientCount = s.clients.length) :
    s.getPollingAndClientList.entries
      = s.clients.map fun c => ⟨pollFdOf (s.info c), c⟩ := by
  rw [getPollingAndClientList_eq h, Polling.entries]
  dsimp only
  rw [List.zip_map', Int.toNat_natCast,
    List.take_of_length_le (by rw [List.length_map]), List.filterMap_map,
    ← List.filterMap_eq_map]
  rfl

/-! ## Steps that leave the list alone -/

/-- The list, the descriptors and the blocks given out are as before. -/
structure SameList (s s' : Shared) : Prop where
  clients : s'.clients = s.clients
  clientCount : s'.clientCount = s.clientCount
  openFds : s'.openFds = s.openFds
  created : s'.created = s.created
  socketId : ∀ c, (s'.info c).socketId = (s.info c).socketId

theorem SameList.refl (s : Shared) : SameList s s :=
  ⟨rfl, rfl, rfl, rfl, fun _ => rfl⟩

theorem sameList_setInfo (s : Shared) (c : PClientInfo) {info : ClientInfo}
    (h : info.socketId = (s.info c).socketId) : SameList s (s.setInfo c info) := by
  refine ⟨rfl, rfl, rfl, rfl, fun d => ?_⟩
  show (Function.update s.info c info d).socketId = _
  by_cases hd : d = c
  · rw [hd, Function.update_self, h]
  · rw [Function.update_of_ne hd]

theorem sameList_setWriting (s : Shared) (c : PClientInfo)
    (chunks : List Chunk) : SameList s (s.setWriting c chunks) :=
  ⟨rfl, rfl, rfl, rfl, fun _ => rfl⟩

/-- A delivery changes writing buffers only. -/
theorem deliverStep_spec {s s' : Shared} {env : Env} {d d' : Delivery}
    (h : deliverStep s env d = some (s', d')) :
    ∃ c rest, d.rest = c :: rest ∧ (d'.rest = c :: rest ∨ d'.rest = rest)
      ∧ d'.origin = d.origin ∧ d'.msg = d.msg
      ∧ ((s' = s ∧ d'.sentCount = d.sentCount)
        ∨ (d'.sentCount = d.sentCount + 1 ∧ s' = s.sendMsgToClient c
            ⟨d.origin, d.msg.content.take env.stored⟩)) := by
  obtain ⟨msg, origin, rest, stage, sentCount⟩ := d
  cases rest with
  | nil => cases h
  | cons c rest =>
      refine ⟨c, rest, rfl, ?_⟩
      cases stage with
      | pub =>
          simp only [deliverStep] at h
          split at h
          · obtain ⟨rfl, rfl⟩ := Prod.mk.inj (Option.some.inj h)
            exact ⟨Or.inr rfl, rfl, rfl, Or.inl ⟨rfl, rfl⟩⟩
          · obtain ⟨rfl, rfl⟩ := Prod.mk.inj (Option.some.inj h)
            exact ⟨Or.inl rfl, rfl, rfl, Or.inl ⟨rfl, rfl⟩⟩
      | name =>
          simp only [deliverStep] at h
          split at h
          · obtain ⟨rfl, rfl⟩ := Prod.mk.inj (Option.some.inj h)
            exact ⟨Or.inr rfl, rfl, rfl, Or.inl ⟨rfl, rfl⟩⟩
          · split at h
            · obtain ⟨rfl, rfl⟩ := Prod.mk.inj (Option.some.inj h)
              exact ⟨Or.inl rfl, rfl, rfl, Or.inl ⟨rfl, rfl⟩⟩
            · obtain ⟨rfl, rfl⟩ := Prod.mk.inj (Option.some.inj h)
              exact ⟨Or.inr rfl, rfl, rfl, Or.inl ⟨rfl, rfl⟩⟩
      | send =>
          obtain ⟨rfl, rfl⟩ := Prod.mk.inj (Option.some.inj h)
          exact ⟨Or.inr rfl, rfl, rfl, Or.inr ⟨rfl, rfl⟩⟩

theorem sameList_deliverStep {s s' : Shared} {env : Env} {d d' : Delivery}
    (h : deliverStep s env d = some (s', d')) : SameList s s' := by
  obtain ⟨c, rest, -, -, -, -, ⟨rfl, -⟩ | ⟨-, rfl⟩⟩ := deliverStep_spec h
  · exact SameList.refl _
  · exact sameList_setWriting ..

theorem deliverStep_info {s s' : Shared} {env : Env} {d d' : Delivery}
    (h : deliverStep s env d = some (s', d')) :
    s'.released = s.released ∧ s'.info = s.info
      ∧ s'.signToFlushMsg = s.signToFlushMsg := by
  obtain ⟨c, rest, -, -, -, -, ⟨rfl, -⟩ | ⟨-, rfl⟩⟩ := deliverStep_spec h
  · exact ⟨rfl, rfl, rfl⟩
  · exact ⟨rfl, rfl, rfl⟩

/-- The flag as it was, or incremented. -/
def FlagKept (s s' : State) : Prop :=
  (s'.shared.signToFlushMsg = s.shared.signToFlushMsg
      ∧ s'.increased = s.increased)
    ∨ (s'.shared.signToFlushMsg = cInt (s.shared.signToFlushMsg + 1)
      ∧ s'.increased = true)

/-- What a step of the reading thread leaves alone: the list, the other threads,
    the released blocks, and every `pub` but the one it marks. -/
structure ReaderFrame (s s' : State) : Prop where
  list : SameList s.shared s'.shared
  writer : s'.writer = s.writer
  listener : s'.listener = s.listener
  foundSet : s'.foundSet = s.foundSet
  flag : FlagKept s s'
  released : s'.shared.released = s.shared.released
  pub : ∀ c, (s'.shared.info c).pub = (s.shared.info c).pub
    ∨ ((s'.shared.info c).pub = fail ∧ ∃ entries, s.reader = .markFail c entries)

theorem readerFrame_refl (s : State) (r : Reader) (n : Nat) :
    ReaderFrame s { s with reader := r, calls := n } :=
  ⟨SameList.refl _, rfl, rfl, rfl, Or.inl ⟨rfl, rfl⟩, rfl,
    fun _ => Or.inl rfl⟩

theorem signalFlush_list (s : State) (need : Nat) :
    SameList s.shared (s.signalFlush need).shared
      ∧ (s.signalFlush need).shared.info = s.shared.info
      ∧ (s.signalFlush need).shared.released = s.shared.released
      ∧ (s.signalFlush need).reader = s.reader
      ∧ (s.signalFlush need).writer = s.writer
      ∧ (s.signalFlush need).listener = s.listener := by
  rw [State.signalFlush]
  split
  · exact ⟨⟨rfl, rfl, rfl, rfl, fun _ => rfl⟩, rfl, rfl, rfl, rfl, rfl⟩
  · exact ⟨SameList.refl _, rfl, rfl, rfl, rfl, rfl⟩

/-- The flag after `if (need) { sign_to_flush_msg ++ }`. -/
theorem signalFlush_flag (s : State) (need : Nat) :
    FlagKept s (s.signalFlush need)
      ∧ (s.signalFlush need).foundSet = s.foundSet
      ∧ (s.signalFlush need).calls = s.calls
      ∧ (s.signalFlush need).shared.writing = s.shared.writing := by
  rw [State.signalFlush]
  split
  · exact ⟨Or.inr ⟨rfl, rfl⟩, rfl, rfl, rfl⟩
  · exact ⟨Or.inl ⟨rfl, rfl⟩, rfl, rfl, rfl⟩

theorem handleStep_frame (s : State) (env : Env) (c : PClientInfo) (need : Nat)
    (entries : List PollEntry) (stage : HandleStage) :
    ReaderFrame s (handleStep s env c need entries stage) := by
  cases stage with
  | fetchMsg =>
      rw [handleStep]
      split <;> exact readerFrame_refl s _ _
  | dispatch line =>
      have hkeeps := keepsMarks_dispatch (s.shared.toServer env.pool) c
        env.surround (line ++ env.surround.afterLine)
      refine ⟨sameList_setInfo _ _ (hkeeps.socketId c), rfl, rfl, rfl, Or.inl ⟨rfl, rfl⟩,
        rfl, fun d => Or.inl ?_⟩
      show (Function.update s.shared.info c _ d).pub = _
      by_cases hd : d = c
      · rw [hd, Function.update_self]
        exact hkeeps.pub c
      · rw [Function.update_of_ne hd]
  | snapshot msg => exact readerFrame_refl s _ _
  | deliver d =>
      rw [handleStep]
      cases hd : deliverStep s.shared env d with
      | none => exact readerFrame_refl s _ _
      | some r =>
          obtain ⟨hreleased, hinfo, hsign⟩ := deliverStep_info hd
          exact ⟨sameList_deliverStep hd, rfl, rfl, rfl, Or.inl ⟨hsign, rfl⟩,
            hreleased, fun c => Or.inl (by rw [hinfo])⟩
  | signal =>
      obtain ⟨h1, hinfo, h2, -, h3, h4⟩ := signalFlush_list s need
      obtain ⟨hflag, hfound, -⟩ := signalFlush_flag s need
      refine ⟨h1, h3, h4, hfound, hflag, h2, fun c => Or.inl ?_⟩
      show ((s.signalFlush need).shared.info c).pub = _
      rw [hinfo]

/-- The reading thread leaves the list alone. -/
theorem readerStep_frame {s s' : State} {env : Env}
    (h : readerStep s env = some s') : ReaderFrame s s' := by
  cases readerStep_move h with
  | goes hgo => exact readerFrame_refl s _ _
  | calls hr hcount => exact readerFrame_refl s _ _
  | handle hr => exact handleStep_frame s env _ _ _ _
  | @marks c entries hr =>
      refine ⟨sameList_setInfo _ _ rfl, rfl, rfl, rfl, Or.inl ⟨rfl, rfl⟩, rfl,
        fun d => ?_⟩
      show (Function.update s.shared.info c _ d).pub = _ ∨ _
      by_cases hd : d = c
      · refine Or.inr ⟨?_, entries, hd ▸ hr⟩
        show (Function.update s.shared.info c _ d).pub = _
        rw [hd, Function.update_self]
      · rw [Function.update_of_ne hd]
        exact Or.inl rfl

/-! ## The rules -/

/-- The descriptors do not grow, and what stays is still open. -/
theorem ListInv.shrink {s s' : State} (h : ListInv s)
    (hcount : s'.shared.clientCount = s'.shared.clients.length)
    (hlive : ∀ c ∈ live s', c ∈ live s)
    (hcreated : ∀ c ∈ s.shared.created, c ∈ s'.shared.created)
    (hfds : (fds s').Subperm (fds s))
    (hopened : ∀ fd ∈ fds s', fd ∈ s.shared.openFds → fd ∈ s'.shared.openFds)
    (htodo : (todoOf s'.writer).Nodup)
    (hlisted : ∀ c ∈ todoOf s'.writer, c ∈ s'.shared.clients) : ListInv s' := by
  obtain ⟨l, hperm, hsub⟩ := hfds
  exact {
    count := hcount
    created := fun c hc => hcreated c (h.created c (hlive c hc))
    distinct := hperm.nodup_iff.mp (hsub.nodup h.distinct)
    opened := fun fd hfd =>
      hopened fd hfd (h.opened fd (hsub.subset (hperm.mem_iff.mpr hfd)))
    todoNodup := htodo
    listed := hlisted }

/-- A step that leaves the list alone keeps the invariant, when the writing
    thread goes on with clients it had, or with those listed. -/
theorem ListInv.drop {s s' : State} (h : ListInv s)
    (hs : SameList s.shared s'.shared)
    (hclosing : (closingOf s'.writer).Sublist (closingOf s.writer))
    (hadding : (addingOf s'.listener).Sublist (addingOf s.listener))
    (haccepted : (acceptedOf s'.listener).Sublist (acceptedOf s.listener))
    (htodo : (todoOf s'.writer).Sublist (todoOf s.writer)
      ∨ todoOf s'.writer = s.shared.clients) : ListInv s' := by
  have hlive : (live s').Sublist (live s) := by
    rw [live, live, hs.clients]
    exact (hclosing.append_left _).append hadding
  have hfds : (fds s').Sublist (fds s) := by
    rw [fds, fds, List.map_congr_left (fun c _ => hs.socketId c)]
    exact (hlive.map _).append haccepted
  refine h.shrink (by rw [hs.clients, hs.clientCount, h.count])
    (fun c hc => hlive.subset hc) (fun c hc => by rw [hs.created]; exact hc)
    hfds.subperm (fun fd _ hfd => by rw [hs.openFds]; exact hfd) ?_ ?_
  · rcases htodo with hsub | heq
    · exact hsub.nodup h.todoNodup
    · rw [heq]
      exact h.nodup
  · intro c hc
    rw [hs.clients]
    rcases htodo with hsub | heq
    · exact h.listed c (hsub.subset hc)
    · rw [← heq]
      exact hc

theorem ListInv.same {s s' : State} (h : ListInv s)
    (hs : SameList s.shared s'.shared)
    (hclosing : closingOf s'.writer = closingOf s.writer)
    (hlistener : s'.listener = s.listener)
    (htodo : (todoOf s'.writer).Sublist (todoOf s.writer)
      ∨ todoOf s'.writer = s.shared.clients) : ListInv s' :=
  h.drop hs (by rw [hclosing]) (by rw [hlistener]) (by rw [hlistener]) htodo

theorem ListInv.reader {s s' : State} {env : Env} (h : ListInv s)
    (hstep : readerStep s env = some s') : ListInv s' := by
  have hf := readerStep_frame hstep
  exact h.same hf.list (by rw [hf.writer]) hf.listener
    (Or.inl (by rw [hf.writer]))

/-! ## The writing thread -/

/-- **THE REMOVAL IS EXACT**: the listed client itself leaves the list. -/
theorem removeClient_eq {s : State} (h : ListInv s) {c : PClientInfo}
    (hc : c ∈ s.shared.clients) :
    ∃ pre post, s.shared.clients = pre ++ c :: post
      ∧ s.shared.removeClient c = { s.shared with
        clients := pre ++ post, clientCount := s.shared.clientCount - 1 } := by
  obtain ⟨pre, post, hsplit, hdel⟩ := listDel_eq h.sockets hc
  exact ⟨pre, post, hsplit, by rw [Shared.removeClient, hdel]⟩

theorem ListInv.remove {s : State} (h : ListInv s) {c : PClientInfo}
    {todo : List PClientInfo} (hw : s.writer = .logout c .remove todo) :
    ListInv { s with
      shared := s.shared.removeClient c, writer := .logout c .build todo } := by
  have htodo : todoOf s.writer = c :: todo := by rw [hw]; rfl
  have hnd := h.todoNodup
  rw [htodo, List.nodup_cons] at hnd
  have hlisted : ∀ d ∈ c :: todo, d ∈ s.shared.clients := htodo ▸ h.listed
  obtain ⟨pre, post, hsplit, hremove⟩ :=
    removeClient_eq h (hlisted c (List.mem_cons_self ..))
  rw [hremove]
  have hlive : live s = pre ++ c :: post ++ addingOf s.listener := by
    rw [live, hw, hsplit]
    exact congrArg (· ++ _) (List.append_nil _)
  have hperm : (pre ++ post ++ [c] ++ addingOf s.listener).Perm (live s) := by
    rw [hlive]
    refine List.Perm.append_right _ ?_
    exact (List.perm_append_singleton c (pre ++ post)).trans
      List.perm_middle.symm
  refine h.shrink ?_ (fun d hd => hperm.mem_iff.mp hd) (fun _ hd => hd)
    ((hperm.map _).append_right _).subperm (fun _ _ hfd => hfd) hnd.2 ?_
  · show s.shared.clientCount - 1 = ((pre ++ post).length : Int)
    rw [h.count, hsplit, List.length_append, List.length_append,
      List.length_cons]
    omega
  · intro d hd
    have hne : d ≠ c := fun e => hnd.1 (e ▸ hd)
    have hmem := hlisted d (List.mem_cons_of_mem c hd)
    rw [hsplit] at hmem
    rcases List.mem_append.mp hmem with h1 | h2
    · exact List.mem_append_left _ h1
    · exact List.mem_append_right _ ((List.mem_cons.mp h2).resolve_left hne)

theorem ListInv.close {s : State} (h : ListInv s) {c : PClientInfo}
    {sent : Nat} {todo : List PClientInfo}
    (hw : s.writer = .logout c (.close sent) todo) :
    ListInv { s with
      shared := s.shared.close (s.shared.info c).socketId
      writer := .logout c (.release sent) todo } := by
  have hlive : live s = s.shared.clients ++ [c] ++ addingOf s.listener := by
    rw [live, hw]
    rfl
  have hsub : (s.shared.clients ++ [] ++ addingOf s.listener).Sublist
      (live s) := by
    rw [hlive]
    exact ((List.nil_sublist [c]).append_left _).append_right _
  have hfds : (fds s).Perm ((s.shared.info c).socketId
      :: ((s.shared.clients ++ addingOf s.listener).map
        (fun d => (s.shared.info d).socketId) ++ acceptedOf s.listener)) := by
    rw [fds, hlive, List.append_assoc, List.singleton_append]
    exact (List.perm_middle.map _).append_right _
  have hclosed := hfds.nodup_iff.mp h.distinct
  have htodo : todoOf s.writer = todo := by rw [hw]; rfl
  refine h.shrink h.count (fun d hd => hsub.subset hd) (fun _ hd => hd)
    ((hsub.map _).append_right _).subperm ?_ (htodo ▸ h.todoNodup)
    (htodo ▸ h.listed)
  intro fd hfd hopen
  refine List.mem_filter.mpr ⟨hopen, decide_eq_true ?_⟩
  rintro rfl
  refine (List.nodup_cons.mp hclosed).1 ?_
  have hfd' : (s.shared.info c).socketId
      ∈ (s.shared.clients ++ [] ++ addingOf s.listener).map
        (fun d => (s.shared.info d).socketId) ++ acceptedOf s.listener := hfd
  rw [List.append_nil] at hfd'
  exact hfd'

theorem ListInv.logout {s : State} {env : Env} (h : ListInv s)
    {c : PClientInfo} {stage : LogoutStage} {todo : List PClientInfo}
    (hw : s.writer = .logout c stage todo) :
    ListInv (logoutStep s env c todo stage) := by
  have hsame : ∀ {s' : State}, SameList s.shared s'.shared →
      s'.listener = s.listener → closingOf s'.writer = closingOf s.writer →
      todoOf s'.writer = todoOf s.writer → ListInv s' :=
    fun hs hl hc ht => h.same hs hc hl (Or.inl (by rw [ht]))
  cases stage with
  | remove => exact h.remove hw
  | build =>
      rw [logoutStep]
      split <;>
        · refine hsame (SameList.refl _) rfl ?_ ?_
          · rw [hw]; rfl
          · rw [hw]; rfl
  | snapshot msg =>
      refine hsame (SameList.refl _) rfl ?_ ?_
      · rw [hw]; rfl
      · rw [hw]; rfl
  | deliver d =>
      rw [logoutStep]
      cases hd : deliverStep s.shared env d with
      | none =>
          refine hsame (SameList.refl _) rfl ?_ ?_
          · rw [hw]; rfl
          · rw [hw]; rfl
      | some r =>
          refine hsame (sameList_deliverStep hd) rfl ?_ ?_
          · rw [hw]; rfl
          · rw [hw]; rfl
  | close sent => exact h.close hw
  | release sent =>
      refine hsame ⟨rfl, rfl, rfl, rfl, fun _ => rfl⟩ rfl ?_ ?_
      · rw [hw]; rfl
      · rw [hw]; rfl
  | signal sent =>
      obtain ⟨h1, -, -, -, -, h3⟩ := signalFlush_list s sent
      refine hsame h1 h3 ?_ ?_
      · rw [hw]; rfl
      · rw [hw]; rfl

/-- The writing thread goes on with listed clients, and closes none. -/
theorem goes_list {env : Env} {s : Shared} {w w' : Writer}
    (hcount : s.clientCount = s.clients.length) (h : WriterGoes env s w w') :
    closingOf w = [] ∧ closingOf w' = []
      ∧ ((todoOf w').Sublist (todoOf w) ∨ todoOf w' = s.clients) := by
  cases h with
  | snapshot hok => exact ⟨rfl, rfl, Or.inr (getClientList_eq hcount)⟩
  | flushed | skips | checksPub | marked =>
      exact ⟨rfl, rfl, Or.inl (List.Sublist.refl _)⟩
  | passes c todo hpub => exact ⟨rfl, rfl, Or.inl (List.sublist_cons_self ..)⟩
  | ends | scanned | again | stops =>
      exact ⟨rfl, rfl, Or.inl (List.nil_sublist _)⟩

theorem ListInv.writer {s s' : State} {env : Env} (h : ListInv s)
    (hstep : writerStep s env = some s') : ListInv s' := by
  cases writerStep_move hstep with
  | goes hgo =>
      obtain ⟨hclosing, hclosing', htodo⟩ := goes_list h.count hgo
      exact h.same (SameList.refl _) (hclosing'.trans hclosing.symm) rfl htodo
  | flush hw =>
      refine h.same (sameList_setWriting ..) (by rw [hw]; rfl) rfl (Or.inl ?_)
      rw [hw]
      exact List.Sublist.refl _
  | logout hw => exact h.logout hw
  | flagSet hw | waits hw =>
      exact h.same (SameList.refl _) (by rw [hw]; rfl) rfl
        (Or.inl (List.nil_sublist _))
  | wakes hw =>
      exact h.same ⟨rfl, rfl, rfl, rfl, fun _ => rfl⟩ (by rw [hw]; rfl) rfl
        (Or.inl (List.nil_sublist _))

/-! ## The listening thread -/

/-- A descriptor that was not open. -/
theorem ListInv.accept {s : State} (h : ListInv s) {spawned : Bool}
    (hl : s.listener = .accept spawned) {clientId : Int}
    (hfresh : clientId ∉ s.shared.openFds) :
    ListInv { s with
      shared := { s.shared with openFds := clientId :: s.shared.openFds }
      listener := .create spawned clientId } := by
  have hlive : live s = s.shared.clients ++ closingOf s.writer ++ [] := by
    rw [live, hl]
    rfl
  have hfds : fds s = (live s).map (fun c => (s.shared.info c).socketId) := by
    rw [fds, hl]
    exact List.append_nil _
  have hnew : fds { s with
      shared := { s.shared with openFds := clientId :: s.shared.openFds }
      listener := .create spawned clientId } = fds s ++ [clientId] := by
    rw [hfds, hlive]
    rfl
  exact {
    count := h.count
    created := fun c hc => h.created c (hlive ▸ hc)
    distinct := by
      rw [hnew]
      refine List.Nodup.append h.distinct (List.nodup_singleton _) ?_
      intro fd hfd hfd'
      rw [List.mem_singleton.mp hfd'] at hfd
      exact hfresh (h.opened _ hfd)
    opened := by
      intro fd hfd
      rw [hnew] at hfd
      rcases List.mem_append.mp hfd with h1 | h2
      · exact List.mem_cons_of_mem _ (h.opened fd h1)
      · rw [List.mem_singleton.mp h2]
        exact List.mem_cons_self ..
    todoNodup := h.todoNodup
    listed := h.listed }

/-- A new block takes the accepted descriptor. -/
theorem ListInv.create {s : State} (h : ListInv s) {spawned : Bool}
    {clientId : Int} (hl : s.listener = .create spawned clientId)
    {c : PClientInfo} (hfresh : c ∉ s.shared.created) :
    ListInv { s with
      shared := s.shared.newClientInfo c clientId
      listener := .addNode spawned c } := by
  have hlive : live s = s.shared.clients ++ closingOf s.writer ++ [] := by
    rw [live, hl]
    rfl
  have hfds : fds s = (live s).map (fun d => (s.shared.info d).socketId)
      ++ [clientId] := by
    rw [fds, hl]
    rfl
  have hsocket : ∀ d, ((s.shared.newClientInfo c clientId).info d).socketId
      = if d = c then clientId else (s.shared.info d).socketId := by
    intro d
    show (Function.update s.shared.info c _ d).socketId = _
    by_cases hd : d = c
    · rw [if_pos hd, hd, Function.update_self, updateClientName]
    · rw [if_neg hd, Function.update_of_ne hd]
  have hnew : fds { s with
      shared := s.shared.newClientInfo c clientId
      listener := .addNode spawned c } = fds s := by
    have hold : ∀ d ∈ live s, ((s.shared.newClientInfo c clientId).info d).socketId
        = (s.shared.info d).socketId := by
      intro d hd
      rw [hsocket, if_neg]
      rintro rfl
      exact hfresh (h.created d hd)
    rw [hfds, ← List.map_congr_left hold, hlive, List.append_nil]
    show ((s.shared.clients ++ closingOf s.writer ++ [c]).map _) ++ [] = _
    rw [List.append_nil, List.map_append, List.map_singleton, hsocket,
      if_pos rfl]
  exact {
    count := h.count
    created := by
      intro d hd
      rcases List.mem_append.mp hd with h1 | h2
      · refine List.mem_cons_of_mem c (h.created d ?_)
        rw [hlive, List.append_nil]
        exact h1
      · rw [List.mem_singleton.mp h2]
        exact List.mem_cons_self ..
    distinct := hnew ▸ h.distinct
    opened := hnew ▸ h.opened
    todoNodup := h.todoNodup
    listed := h.listed }

/-- The new client goes to the end of the list. -/
theorem ListInv.add {s : State} (h : ListInv s) {spawned : Bool}
    {c : PClientInfo} (hl : s.listener = .addNode spawned c) {l : Listener}
    (hadding : addingOf l = []) (haccepted : acceptedOf l = []) :
    ListInv { s with shared := s.shared.addClient c, listener := l } := by
  have hlive : live s = s.shared.clients ++ closingOf s.writer ++ [c] := by
    rw [live, hl]
    rfl
  have hperm : (live { s with
      shared := s.shared.addClient c, listener := l }).Perm (live s) := by
    rw [hlive, live]
    show (s.shared.clients ++ [c] ++ closingOf s.writer ++ addingOf l).Perm _
    rw [hadding, List.append_nil, List.append_assoc, List.append_assoc]
    exact List.perm_append_comm.append_left _
  have hfds : (fds { s with
      shared := s.shared.addClient c, listener := l }).Perm (fds s) := by
    have hacc : acceptedOf s.listener = acceptedOf l := by
      rw [hl, haccepted]
      rfl
    rw [fds, fds, hacc]
    exact (hperm.map _).append_right _
  refine h.shrink ?_ (fun d hd => hperm.mem_iff.mp hd) (fun _ hd => hd)
    hfds.subperm (fun _ _ hfd => hfd) h.todoNodup
    (fun d hd => List.mem_append_left _ (h.listed d hd))
  show s.shared.clientCount + 1 = ((s.shared.clients ++ [c]).length : Int)
  rw [h.count, List.length_append, List.length_singleton, Int.natCast_add]
  rfl

theorem ListInv.listener {s s' : State} {env : Env} (h : ListInv s)
    (hstep : listenerStep s env = some s') : ListInv s' := by
  have hnil : ∀ {l : List PClientInfo}, List.Sublist [] l := List.nil_sublist _
  cases listenerStep_move hstep with
  | refused => exact h
  | accepts hl hid hfresh => exact h.accept hl hfresh
  | creates hl hok hfresh => exact h.create hl hfresh
  | @adds spawned c hl =>
      refine h.add hl ?_ ?_ <;> cases spawned <;> rfl
  | noClient | spawnsReader | noThread =>
      exact h.drop (SameList.refl _) (List.Sublist.refl _) hnil
        (List.nil_sublist _) (Or.inl (List.Sublist.refl _))
  | givesUp | stops =>
      exact h.drop ⟨rfl, rfl, rfl, rfl, fun _ => rfl⟩ (List.Sublist.refl _) hnil
        (List.nil_sublist _) (Or.inl (List.Sublist.refl _))
  | spawnsWriter =>
      exact h.drop (SameList.refl _) hnil hnil (List.nil_sublist _) (Or.inl hnil)

/-! ## Every interleaving -/

theorem listInv_start {s : State} (h : threadSystem.start s) : ListInv s := by
  obtain ⟨hcl, hcount, -, -, -, -, -, hw, hl, -⟩ := h
  have hlive : live s = [] := by
    rw [live, hcl, hw, hl]
    rfl
  have hfds : fds s = [] := by
    rw [fds, hlive, hl]
    rfl
  have htodo : todoOf s.writer = [] := by rw [hw]; rfl
  exact {
    count := by rw [hcl, hcount]; rfl
    created := by rw [hlive]; exact fun _ hc => by cases hc
    distinct := by rw [hfds]; exact List.nodup_nil
    opened := by rw [hfds]; exact fun _ hfd => by cases hfd
    todoNodup := by rw [htodo]; exact List.nodup_nil
    listed := by rw [htodo]; exact fun _ hc => by cases hc }

/-- The step lemma: every thread keeps the list invariant. -/
theorem listInv_step {s s' : State} {a : Thread × Env} (h : ListInv s)
    (hstep : threadSystem.step s a = some s') : ListInv s' := by
  obtain ⟨thread, env⟩ := a
  cases thread with
  | listener => exact h.listener hstep
  | reader => exact h.reader hstep
  | writer => exact h.writer hstep

theorem listInv_reachable {s : State} (h : Reachable threadSystem s) :
    ListInv s :=
  reachable_inv threadSystem (fun _ => listInv_start)
    (fun _ _ _ => listInv_step) h

/-- **THE CLIENT LIST**, in every state of every interleaving: the counter is the
    length, clients and descriptors are distinct, `user_logout` takes exactly its
    client off the list, and both snapshots have one entry for each client. -/
theorem client_list_exact {s : State} (h : Reachable threadSystem s) :
    (s.shared.clientCount = s.shared.clients.length
      ∧ s.shared.clients.Nodup
      ∧ (s.shared.clients.map fun c => (s.shared.info c).socketId).Nodup)
    ∧ (∀ c todo, s.writer = .logout c .remove todo →
        ∃ pre post, s.shared.clients = pre ++ c :: post
          ∧ s.shared.removeClient c = { s.shared with
            clients := pre ++ post, clientCount := s.shared.clientCount - 1 })
    ∧ fillArray s.shared.clientCount s.shared.clients
        = s.shared.clients.map some
    ∧ s.shared.getClientList = s.shared.clients
    ∧ s.shared.getPollingAndClientList = ⟨s.shared.clientCount,
        s.shared.clients.map fun c => pollFdOf (s.shared.info c),
        s.shared.clients.map some⟩ := by
  have hinv := listInv_reachable h
  refine ⟨⟨hinv.count, hinv.nodup, hinv.sockets⟩, ?_, fillArray_eq hinv.count,
    getClientList_eq hinv.count, ?_⟩
  · intro c todo hw
    refine removeClient_eq hinv (hinv.listed c ?_)
    rw [hw]
    exact List.mem_cons_self ..
  · rw [getPollingAndClientList_eq hinv.count, hinv.count]

theorem client_list_exact_twoClients :
    ∃ s, runFrom threadSystem freshProgram (clientAccepted 1 4 ++ threadsCreated
        ++ clientAccepted 2 5) = some s
      ∧ s.shared.clients = [1, 2]
      ∧ (s.shared.clients.map fun c => (s.shared.info c).socketId).Nodup := by
  have hrun : ((runFrom threadSystem freshProgram (clientAccepted 1 4
      ++ threadsCreated ++ clientAccepted 2 5)).any fun s =>
        decide (s.shared.clients = [1, 2])) = true := by decide +kernel
  obtain ⟨s, hs, hp⟩ := (Option.any_eq_true _ _).mp hrun
  exact ⟨s, hs, of_decide_eq_true hp, (client_list_exact (runFrom_reachable
    threadSystem _ (.start freshProgram_start) hs)).1.2.2⟩

end IMClientList

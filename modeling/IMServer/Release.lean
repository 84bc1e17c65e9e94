import IMServer.ClientList

/-! # Released clients — who may still touch them

    The writing thread releases the clients the reading thread marked.  What the
    reading thread goes through because it was polled is never marked before
    (`readerActive`); but it also logs every entry of a new snapshot, and walks
    the snapshot of a delivery, and these may hold a marked client
    (`readerPending`).  `no_released_access` says that nothing else goes wrong,
    and `release_race` is the run where this does. -/

namespace IMRelease

open IMCachePool IMClientInfo IMMessage IMServerInfo IMThreads IMThreadMoves
  IMClientList IMTransition

/-! ## Accesses -/

/-- The clients the next step of the reading thread touches. -/
def readerAccesses (s : State) : List PClientInfo :=
  match s.reader with
  | .top => s.shared.clients
  | .debugLog (e :: _) _ => [e.client]
  | .scan (e :: _) => if e.pollFd.fd = -1 then [] else [e.client]
  | .fetch c _ => [c]
  | .handle c _ .fetchMsg _ => [c]
  | .handle c _ (.dispatch _) _ => [c]
  | .handle _ _ (.deliver d) _ => d.rest.take 1
  | .markFail c _ => [c]
  | _ => []

/-- The clients the next step of the writing thread touches. -/
def writerAccesses (s : State) : List PClientInfo :=
  match s.writer with
  | .flush (c :: _) _ _ => [c]
  | .logoutScan (c :: _) => [c]
  | .logout c .remove _ => c :: s.shared.clients
  | .logout c .build _ => [c]
  | .logout _ (.deliver d) _ => d.rest.take 1
  | .logout c (.close _) _ => [c]
  | .logout c (.release _) _ => [c]
  | _ => []

/-- The clients the next step of a thread touches. -/
def accesses (s : State) : Thread → List PClientInfo
  | .listener => addingOf s.listener
  | .reader => readerAccesses s
  | .writer => writerAccesses s

/-- The step touches no released client. -/
def TouchesNoReleased (s : State) (a : Thread × Env) : Prop :=
  ∀ c ∈ accesses s a.1, c ∉ s.shared.released

/-- The clients of the entries that are polled. -/
def polled (entries : List PollEntry) : List PClientInfo :=
  (entries.filter fun e => decide (e.pollFd.fd ≠ -1)).map PollEntry.client

theorem polled_cons (e : PollEntry) (entries : List PollEntry) :
    polled (e :: entries)
      = if e.pollFd.fd = -1 then polled entries
        else e.client :: polled entries := by
  unfold polled
  by_cases hfd : e.pollFd.fd = -1
  · rw [if_pos hfd, List.filter_cons_of_neg (by simpa using hfd)]
  · rw [if_neg hfd, List.filter_cons_of_pos (by simpa using hfd), List.map_cons]

/-- The clients the reading thread handles in this round. -/
def readerActive : Reader → List PClientInfo
  | .debugLog _ all => polled all
  | .poll all => polled all
  | .scan entries => polled entries
  | .fetch c entries => c :: polled entries
  | .handle c _ _ entries => c :: polled entries
  | .markFail c entries => c :: polled entries
  | _ => []

/-- The clients the loop at hand still touches whether they are marked or not:
    those to log, and those of a delivery. -/
def readerPending : Reader → List PClientInfo
  | .debugLog entries _ => entries.map PollEntry.client
  | .handle _ _ (.deliver d) _ => d.rest
  | _ => []

/-- The client the writing thread is logging out and has not released. -/
def ownOf : Writer → List PClientInfo
  | .logout _ (.signal _) _ => []
  | .logout c _ _ => [c]
  | _ => []

/-- The clients the flush has still to go through. -/
def flushTodo : Writer → List PClientInfo
  | .flush todo _ _ => todo
  | _ => []

/-- The clients a logout notice has still to go through. -/
def writerRest : Writer → List PClientInfo
  | .logout _ (.deliver d) _ => d.rest
  | _ => []

/-- The client the next step of a thread releases while others may know it. -/
def releasing (s : State) : Thread → List PClientInfo
  | .writer => match s.writer with
    | .logout c (.release _) _ => [c]
    | _ => []
  | _ => []

/-- A client is released only when the reading thread has no snapshot at hand
    that still leads to it. -/
def ReleasesUnreachable (s : State) (a : Thread × Env) : Prop :=
  ∀ c ∈ releasing s a.1, c ∉ readerPending s.reader

instance (s : State) (a : Thread × Env) :
    Decidable (ReleasesUnreachable s a) :=
  inferInstanceAs (Decidable (∀ c ∈ releasing s a.1, c ∉ _))

/-! ## The invariant -/

/-- The client has been given out, is not with the listening thread, and is not
    released. -/
structure Usable (s : State) (c : PClientInfo) : Prop where
  created : c ∈ s.shared.created
  notAdding : c ∉ addingOf s.listener
  notReleased : c ∉ s.shared.released

/-- **THE RELEASE INVARIANT**. -/
structure ReleaseInv (s : State) : Prop where
  list : ListInv s
  released : ∀ c ∈ s.shared.released, c ∈ s.shared.created
  adding : ∀ c ∈ addingOf s.listener, c ∉ s.shared.released
  listed : ∀ c ∈ s.shared.clients, Usable s c
  active : ∀ c ∈ readerActive s.reader, (s.shared.info c).pub ≠ fail ∧ Usable s c
  activeNodup : (readerActive s.reader).Nodup
  pending : ∀ c ∈ readerPending s.reader, Usable s c
  own : ∀ c ∈ ownOf s.writer, (s.shared.info c).pub = fail ∧ Usable s c
  flushing : ∀ c ∈ flushTodo s.writer, c ∈ todoOf s.writer
  rest : ∀ c ∈ writerRest s.writer, c ∈ s.shared.clients
  off : ∀ c sentCount todo, s.writer = .logout c (.release sentCount) todo →
    c ∉ s.shared.clients

/-- The invariant makes the next step safe. -/
theorem ReleaseInv.safe {s : State} (h : ReleaseInv s) (a : Thread × Env) :
    TouchesNoReleased s a := by
  have htake : ∀ {l : List PClientInfo}, (∀ c ∈ l, Usable s c) →
      ∀ c ∈ l.take 1, c ∉ s.shared.released :=
    fun hl c hc => (hl c (List.mem_of_mem_take hc)).notReleased
  have hactive : ∀ c ∈ readerActive s.reader, c ∉ s.shared.released :=
    fun c hc => (h.active c hc).2.notReleased
  obtain ⟨thread, env⟩ := a
  show ∀ c ∈ accesses s thread, c ∉ s.shared.released
  cases thread with
  | listener => exact h.adding
  | reader =>
      have hpending := h.pending
      intro c hc
      rw [accesses, readerAccesses] at hc
      cases hr : s.reader with
      | top =>
          rw [hr] at hc
          exact (h.listed c hc).notReleased
      | debugLog entries all =>
          rw [hr] at hc hpending
          cases entries with
          | nil => cases hc
          | cons e entries =>
              rw [List.mem_singleton.mp hc]
              exact (hpending _ (List.mem_cons_self ..)).notReleased
      | scan entries =>
          rw [hr] at hc hactive
          cases entries with
          | nil => cases hc
          | cons e entries =>
              simp only at hc
              split at hc
              · cases hc
              · next hfd =>
                  refine hactive c ?_
                  rw [readerActive, polled_cons, if_neg hfd,
                    List.mem_singleton.mp hc]
                  exact List.mem_cons_self ..
      | fetch d entries =>
          rw [hr] at hc hactive
          rw [List.mem_singleton.mp hc]
          exact hactive d (List.mem_cons_self ..)
      | markFail d entries =>
          rw [hr] at hc hactive
          rw [List.mem_singleton.mp hc]
          exact hactive d (List.mem_cons_self ..)
      | handle d need stage entries =>
          rw [hr] at hc hactive hpending
          cases stage with
          | fetchMsg | dispatch line =>
              rw [List.mem_singleton.mp hc]
              exact hactive d (List.mem_cons_self ..)
          | deliver del => exact htake hpending c hc
          | snapshot msg | signal => cases hc
      | idle | poll | loopEnd | exited =>
          rw [hr] at hc
          cases hc
  | writer =>
      have hown := h.own
      have hlisted := h.list.listed
      have hflush := h.flushing
      have hrest := h.rest
      intro c hc
      rw [accesses, writerAccesses] at hc
      cases hw : s.writer with
      | flush todo all pubChecked =>
          rw [hw] at hc hlisted hflush
          cases todo with
          | nil => cases hc
          | cons d todo =>
              rw [List.mem_singleton.mp hc]
              exact (h.listed d (hlisted d
                (hflush d (List.mem_cons_self ..)))).notReleased
      | logoutScan todo =>
          rw [hw] at hc hlisted
          cases todo with
          | nil => cases hc
          | cons d todo =>
              rw [List.mem_singleton.mp hc]
              exact (h.listed d (hlisted d (List.mem_cons_self ..))).notReleased
      | logout d stage todo =>
          rw [hw] at hc hown hrest
          cases stage with
          | remove =>
              rcases List.mem_cons.mp hc with rfl | hmem
              · exact (hown _ (List.mem_cons_self ..)).2.notReleased
              · exact (h.listed c hmem).notReleased
          | build | close sent | release sent =>
              rw [List.mem_singleton.mp hc]
              exact (hown d (List.mem_cons_self ..)).2.notReleased
          | deliver del => exact htake (fun x hx => h.listed x (hrest x hx)) c hc
          | snapshot msg | signal sent => cases hc
      | idle | top | check | waiting | loopEnd | exited =>
          rw [hw] at hc
          cases hc

/-! ## The reading thread -/

theorem polled_setRevents (env : Env) (all : List PollEntry) :
    polled (all.map (setRevents env)) = polled all := by
  rw [polled]
  rw [List.filter_map, List.map_map]
  rfl

/-- A new snapshot polls listed clients that are not marked. -/
theorem polled_snapshot (s : Shared) :
    (polled (s.clients.map fun c => ⟨pollFdOf (s.info c), c⟩)).Sublist s.clients
      ∧ ∀ c ∈ polled (s.clients.map fun c => ⟨pollFdOf (s.info c), c⟩),
        (s.info c).pub ≠ fail := by
  have heq : polled (s.clients.map fun c => ⟨pollFdOf (s.info c), c⟩)
      = s.clients.filter fun c => decide ((pollFdOf (s.info c)).fd ≠ -1) := by
    rw [polled, List.filter_map, List.map_map]
    exact List.map_id _
  rw [heq]
  refine ⟨List.filter_sublist, ?_⟩
  intro c hc hpub
  have hfd := of_decide_eq_true (List.mem_filter.mp hc).2
  refine hfd ?_
  have hne : succ ≠ (s.info c).pub := by
    rw [hpub]
    decide
  rw [pollFdOf, if_neg hne]

/-- What the reading thread goes on with. -/
theorem readerGoes_moves {env : Env} {s : Shared} {r r' : Reader}
    (h : ReaderGoes env s r r') :
    ((readerActive r').Sublist (readerActive r)
      ∨ readerActive r' = polled s.getPollingAndClientList.entries)
    ∧ ∀ c ∈ readerPending r', c ∈ readerPending r
      ∨ c ∈ s.getPollingAndClientList.entries.map PollEntry.client := by
  have hnil : ∀ {l : List PClientInfo}, ([] : List PClientInfo).Sublist l :=
    List.nil_sublist _
  cases h with
  | snapshot => exact ⟨Or.inr rfl, fun _ hc => Or.inr hc⟩
  | logs e entries all =>
      exact ⟨Or.inl (List.Sublist.refl _),
        fun _ hc => Or.inl (List.mem_cons_of_mem _ hc)⟩
  | logged | fetchFails =>
      exact ⟨Or.inl (List.Sublist.refl _), fun _ hc => by cases hc⟩
  | polls all =>
      refine ⟨Or.inl ?_, fun _ hc => by cases hc⟩
      show (polled (all.map (setRevents env))).Sublist (polled all)
      rw [polled_setRevents]
  | passes e entries =>
      refine ⟨Or.inl ?_, fun _ hc => by cases hc⟩
      show (polled entries).Sublist (polled (e :: entries))
      rw [polled_cons]
      split
      · exact List.Sublist.refl _
      · exact List.sublist_cons_self ..
  | reads e entries hfd | breaks e entries hfd =>
      refine ⟨Or.inl ?_, fun _ hc => by cases hc⟩
      show (e.client :: polled entries).Sublist (polled (e :: entries))
      rw [polled_cons, if_neg hfd]
  | ends | pollFails | scanned | again | stops =>
      exact ⟨Or.inl hnil, fun _ hc => by cases hc⟩

/-- A step of `try_to_handle_msg` keeps the client at hand, and the snapshot of a
    delivery only gets shorter. -/
theorem handleStep_moves (s : State) (env : Env) (c : PClientInfo) (need : Nat)
    (entries : List PollEntry) (stage : HandleStage) :
    (readerActive (handleStep s env c need entries stage).reader).Sublist
      (c :: polled entries)
    ∧ ∀ d ∈ readerPending (handleStep s env c need entries stage).reader,
      d ∈ readerPending (.handle c need stage entries)
        ∨ d ∈ s.shared.getClientList := by
  cases stage with
  | fetchMsg =>
      rw [handleStep]
      split <;> exact ⟨List.Sublist.refl _, fun _ hd => by cases hd⟩
  | dispatch line =>
      simp only [handleStep]
      split <;> exact ⟨List.Sublist.refl _, fun _ hd => by cases hd⟩
  | snapshot msg =>
      refine ⟨List.Sublist.refl _, fun d hd => ?_⟩
      have hd' : d ∈ if env.mallocOk then s.shared.getClientList else [] := hd
      split at hd'
      · exact Or.inr hd'
      · cases hd'
  | deliver del =>
      rw [handleStep]
      cases hdel : deliverStep s.shared env del with
      | none => exact ⟨List.Sublist.refl _, fun _ hd => by cases hd⟩
      | some r =>
          refine ⟨List.Sublist.refl _, fun d hd => Or.inl ?_⟩
          obtain ⟨x, rest, hrest, hnext, -⟩ := deliverStep_spec hdel
          show d ∈ del.rest
          rw [hrest]
          rcases hnext with h1 | h1
          · exact h1 ▸ hd
          · exact List.mem_cons_of_mem x (h1 ▸ hd)
  | signal => exact ⟨List.sublist_cons_self .., fun _ hd => by cases hd⟩

theorem readerStep_moves {s s' : State} {env : Env}
    (h : readerStep s env = some s') :
    ((readerActive s'.reader).Sublist (readerActive s.reader)
      ∨ readerActive s'.reader = polled s.shared.getPollingAndClientList.entries)
    ∧ (∀ c ∈ readerPending s'.reader, c ∈ readerPending s.reader
      ∨ c ∈ s.shared.getPollingAndClientList.entries.map PollEntry.client
      ∨ c ∈ s.shared.getClientList)
    ∧ ∀ c entries, s.reader = .markFail c entries →
      readerActive s'.reader = polled entries := by
  cases readerStep_move h with
  | goes hgo =>
      obtain ⟨hactive, hpending⟩ := readerGoes_moves hgo
      refine ⟨hactive, fun c hc => (hpending c hc).imp_right Or.inl, ?_⟩
      intro c entries hr
      rw [hr] at hgo
      cases hgo
  | calls hr =>
      rw [hr]
      exact ⟨Or.inl (List.Sublist.refl _), (fun _ hc => by cases hc),
        fun _ _ h => by cases h⟩
  | @handle c need stage entries hr =>
      obtain ⟨hactive, hpending⟩ := handleStep_moves s env c need entries stage
      rw [hr]
      exact ⟨Or.inl hactive, fun d hd => (hpending d hd).imp_right Or.inr,
        fun _ _ h => by cases h⟩
  | marks hr =>
      rw [hr]
      refine ⟨Or.inl (List.sublist_cons_self ..), (fun _ hc => by cases hc), ?_⟩
      rintro _ _ ⟨⟩
      rfl

/-- What the reading thread handles is not marked, and no client comes twice: the
    client that is marked is not handled again in this round. -/
theorem active_reader {s s' : State} {env : Env} (hlist : ListInv s)
    (hpub : ∀ c ∈ readerActive s.reader, (s.shared.info c).pub ≠ fail)
    (hnd : (readerActive s.reader).Nodup)
    (hstep : readerStep s env = some s') :
    (∀ c ∈ readerActive s'.reader, (s'.shared.info c).pub ≠ fail)
      ∧ (readerActive s'.reader).Nodup := by
  have hf := readerStep_frame hstep
  obtain ⟨hactive, -, hmark⟩ := readerStep_moves hstep
  rw [entries_eq hlist.count] at hactive
  obtain ⟨hsub, hsnap⟩ := polled_snapshot s.shared
  have hbefore : ∀ c ∈ readerActive s'.reader, (s.shared.info c).pub ≠ fail := by
    intro c hc
    rcases hactive with h1 | h2
    · exact hpub c (h1.subset hc)
    · exact hsnap c (h2 ▸ hc)
  constructor
  · intro c hc
    rcases hf.pub c with hsame | ⟨-, entries, hr⟩
    · rw [hsame]
      exact hbefore c hc
    · rw [hmark c entries hr] at hc
      rw [hr, readerActive, List.nodup_cons] at hnd
      exact absurd hc hnd.1
  · rcases hactive with h1 | h2
    · exact h1.nodup hnd
    · rw [h2]
      exact hsub.nodup hlist.nodup

theorem ReleaseInv.reader {s s' : State} {env : Env} (h : ReleaseInv s)
    (hstep : readerStep s env = some s') : ReleaseInv s' := by
  have hf := readerStep_frame hstep
  obtain ⟨hactive, hpending, -⟩ := readerStep_moves hstep
  have hcount := h.list.count
  rw [entries_eq hcount] at hactive hpending
  obtain ⟨hsub, -⟩ := polled_snapshot s.shared
  obtain ⟨hpub, hnodup⟩ := active_reader h.list (fun c hc => (h.active c hc).1)
    h.activeNodup hstep
  have husable : ∀ {c}, Usable s c → Usable s' c := fun hu =>
    ⟨by rw [hf.list.created]; exact hu.created,
      by rw [hf.listener]; exact hu.notAdding,
      by rw [hf.released]; exact hu.notReleased⟩
  exact {
    list := h.list.reader hstep
    released := by
      rw [hf.released, hf.list.created]
      exact h.released
    adding := by
      rw [hf.released, hf.listener]
      exact h.adding
    listed := by
      rw [hf.list.clients]
      exact fun c hc => husable (h.listed c hc)
    active := by
      intro c hc
      refine ⟨hpub c hc, ?_⟩
      rcases hactive with h1 | h2
      · exact husable (h.active c (h1.subset hc)).2
      · exact husable (h.listed c (hsub.subset (h2 ▸ hc)))
    activeNodup := hnodup
    pending := by
      intro c hc
      rcases hpending c hc with h1 | h2 | h3
      · exact husable (h.pending c h1)
      · obtain ⟨e, he, rfl⟩ := List.mem_map.mp h2
        obtain ⟨d, hd, rfl⟩ := List.mem_map.mp he
        exact husable (h.listed d hd)
      · rw [getClientList_eq hcount] at h3
        exact husable (h.listed c h3)
    own := by
      rw [hf.writer]
      intro c hc
      obtain ⟨h1, h2⟩ := h.own c hc
      refine ⟨?_, husable h2⟩
      rcases hf.pub c with h3 | ⟨h3, -⟩
      · rw [h3]
        exact h1
      · exact h3
    flushing := by
      rw [hf.writer]
      exact h.flushing
    rest := by
      rw [hf.writer, hf.list.clients]
      exact h.rest
    off := by
      rw [hf.writer, hf.list.clients]
      exact h.off }

/-! ## The writing thread -/

/-- A step of the writing thread that releases nothing. -/
theorem ReleaseInv.keep {s s' : State} (h : ReleaseInv s) (hlist : ListInv s')
    (hreader : s'.reader = s.reader) (hlistener : s'.listener = s.listener)
    (hinfo : s'.shared.info = s.shared.info)
    (hcreated : s'.shared.created = s.shared.created)
    (hreleased : s'.shared.released = s.shared.released)
    (hclients : ∀ c ∈ s'.shared.clients, c ∈ s.shared.clients)
    (hown : ∀ c ∈ ownOf s'.writer, c ∈ ownOf s.writer
      ∨ ((s.shared.info c).pub = fail ∧ c ∈ s.shared.clients))
    (hflushing : ∀ c ∈ flushTodo s'.writer, c ∈ todoOf s'.writer)
    (hrest : ∀ c ∈ writerRest s'.writer, c ∈ s'.shared.clients)
    (hoff : ∀ c sentCount todo, s'.writer = .logout c (.release sentCount) todo →
      c ∉ s'.shared.clients) : ReleaseInv s' := by
  have husable : ∀ {c}, Usable s c → Usable s' c := fun hu =>
    ⟨by rw [hcreated]; exact hu.created, by rw [hlistener]; exact hu.notAdding,
      by rw [hreleased]; exact hu.notReleased⟩
  exact {
    list := hlist
    released := by
      rw [hreleased, hcreated]
      exact h.released
    adding := by
      rw [hreleased, hlistener]
      exact h.adding
    listed := fun c hc => husable (h.listed c (hclients c hc))
    active := by
      rw [hreader, hinfo]
      exact fun c hc => ⟨(h.active c hc).1, husable (h.active c hc).2⟩
    activeNodup := by
      rw [hreader]
      exact h.activeNodup
    pending := by
      rw [hreader]
      exact fun c hc => husable (h.pending c hc)
    own := by
      rw [hinfo]
      intro c hc
      rcases hown c hc with h1 | ⟨h1, h2⟩
      · exact ⟨(h.own c h1).1, husable (h.own c h1).2⟩
      · exact ⟨h1, husable (h.listed c h2)⟩
    flushing := hflushing
    rest := hrest
    off := hoff }

/-- The release itself: the client is marked, so the reading thread does not
    handle it, and by assumption no snapshot leads to it. -/
theorem ReleaseInv.release {s : State} (h : ReleaseInv s) {c : PClientInfo}
    {sent : Nat} {todo : List PClientInfo}
    (hw : s.writer = .logout c (.release sent) todo)
    (hclear : c ∉ readerPending s.reader)
    (hlist : ListInv { s with
      shared := s.shared.releaseClientInfo c
      writer := .logout c (.signal sent) todo }) :
    ReleaseInv { s with
      shared := s.shared.releaseClientInfo c
      writer := .logout c (.signal sent) todo } := by
  obtain ⟨hfail, huse⟩ := h.own c (by rw [hw]; exact List.mem_cons_self ..)
  have hnot : ∀ {d}, d ≠ c → d ∉ s.shared.released →
      d ∉ c :: s.shared.released := by
    intro d hne hd hm
    rcases List.mem_cons.mp hm with h1 | h2
    · exact hne h1
    · exact hd h2
  have husable : ∀ {d}, d ≠ c → Usable s d → Usable { s with
      shared := s.shared.releaseClientInfo c
      writer := .logout c (.signal sent) todo } d :=
    fun hne hu => ⟨hu.created, hu.notAdding, hnot hne hu.notReleased⟩
  exact {
    list := hlist
    released := by
      intro d hd
      rcases List.mem_cons.mp hd with rfl | h1
      · exact huse.created
      · exact h.released d h1
    adding := by
      intro d hd
      refine hnot ?_ (h.adding d hd)
      rintro rfl
      exact huse.notAdding hd
    listed := by
      intro d hd
      refine husable ?_ (h.listed d hd)
      rintro rfl
      exact h.off d sent todo hw hd
    active := by
      intro d hd
      obtain ⟨h1, h2⟩ := h.active d hd
      refine ⟨h1, husable ?_ h2⟩
      rintro rfl
      exact h1 hfail
    activeNodup := h.activeNodup
    pending := by
      intro d hd
      refine husable ?_ (h.pending d hd)
      rintro rfl
      exact hclear hd
    own := fun _ hd => by cases hd
    flushing := fun _ hd => by cases hd
    rest := fun _ hd => by cases hd
    off := fun _ _ _ hd => by cases hd }

/-- A step of a logout other than the release. -/
theorem ReleaseInv.logout {s : State} {env : Env} (h : ReleaseInv s)
    {c : PClientInfo} {stage : LogoutStage} {todo : List PClientInfo}
    (hw : s.writer = .logout c stage todo)
    (hstage : ∀ sent, stage ≠ .release sent)
    (hlist : ListInv (logoutStep s env c todo stage)) :
    ReleaseInv (logoutStep s env c todo stage) := by
  cases stage with
  | remove =>
      have hc : c ∈ s.shared.clients :=
        h.list.listed c (by rw [hw]; exact List.mem_cons_self ..)
      have hremove := removeClient_eq h.list hc
      rw [logoutStep] at hlist ⊢
      obtain ⟨pre, post, hsplit, heq⟩ := hremove
      rw [heq] at hlist ⊢
      refine h.keep hlist rfl rfl rfl rfl rfl ?_ ?_ (fun _ hd => by cases hd)
        (fun _ hd => by cases hd) (fun _ _ _ hd => by cases hd)
      · intro d hd
        rw [hsplit]
        exact ((List.sublist_cons_self c post).append_left pre).subset hd
      · rw [hw]
        exact fun d hd => Or.inl hd
  | build =>
      rw [logoutStep] at hlist ⊢
      split at hlist <;>
        · refine h.keep hlist rfl rfl rfl rfl rfl (fun _ hd => hd) ?_
            (fun _ hd => by cases hd) (fun _ hd => by cases hd)
            (fun _ _ _ hd => by cases hd)
          rw [hw]
          exact fun d hd => Or.inl hd
  | snapshot msg =>
      refine h.keep hlist rfl rfl rfl rfl rfl (fun _ hd => hd) ?_
        (fun _ hd => by cases hd) ?_ (fun _ _ _ hd => by cases hd)
      · rw [hw]
        exact fun d hd => Or.inl hd
      · intro d hd
        have hd' : d ∈ if env.mallocOk then s.shared.getClientList else [] := hd
        rw [getClientList_eq h.list.count] at hd'
        split at hd'
        · exact hd'
        · cases hd'
  | deliver d =>
      have hrest := h.rest
      rw [hw] at hrest
      rw [logoutStep] at hlist ⊢
      cases hd : deliverStep s.shared env d with
      | none =>
          rw [hd] at hlist
          refine h.keep hlist rfl rfl rfl rfl rfl (fun _ hd => hd) ?_
            (fun _ hd => by cases hd) (fun _ hd => by cases hd)
            (fun _ _ _ hd => by cases hd)
          rw [hw]
          exact fun d hd => Or.inl hd
      | some r =>
          rw [hd] at hlist
          have hs := sameList_deliverStep hd
          obtain ⟨hreleased, hinfo, -⟩ := deliverStep_info hd
          obtain ⟨x, rest, hx, hnext, -⟩ := deliverStep_spec hd
          refine h.keep hlist rfl rfl hinfo hs.created hreleased ?_ ?_
            (fun _ hd => by cases hd) ?_ (fun _ _ _ hd => by cases hd)
          · show ∀ c ∈ r.1.clients, c ∈ s.shared.clients
            rw [hs.clients]
            exact fun _ hd => hd
          · rw [hw]
            exact fun d hd => Or.inl hd
          · show ∀ c ∈ r.2.rest, c ∈ r.1.clients
            rw [hs.clients]
            intro y hy
            refine hrest y ?_
            show y ∈ d.rest
            rw [hx]
            rcases hnext with h1 | h1
            · exact h1 ▸ hy
            · exact List.mem_cons_of_mem x (h1 ▸ hy)
  | close sent =>
      refine h.keep hlist rfl rfl rfl rfl rfl (fun _ hd => hd) ?_
        (fun _ hd => by cases hd) (fun _ hd => by cases hd) ?_
      · rw [hw]
        exact fun d hd => Or.inl hd
      · rintro _ _ _ ⟨⟩ hmem
        have hnd := List.Nodup.of_map _
          ((List.sublist_append_left _ _).nodup h.list.distinct)
        rw [live, hw, List.append_assoc] at hnd
        exact (List.nodup_append.mp hnd).2.2 c hmem c
          (List.mem_append_left _ (List.mem_cons_self ..)) rfl
  | release sent => exact absurd rfl (hstage sent)
  | signal sent =>
      obtain ⟨hs, hinfo, hreleased, hreader, -, hlistener⟩ :=
        signalFlush_list s sent
      refine h.keep hlist hreader hlistener hinfo hs.created hreleased ?_
        (fun _ hd => by cases hd) (fun _ hd => by cases hd)
        (fun _ hd => by cases hd) (fun _ _ _ hd => by cases hd)
      show ∀ c ∈ (s.signalFlush sent).shared.clients, c ∈ s.shared.clients
      rw [hs.clients]
      exact fun _ hd => hd

/-- The writing thread goes on with no delivery and no release at hand, and a
    client it begins to log out is marked. -/
theorem writerGoes_plain {env : Env} {s : Shared} {w w' : Writer}
    (h : WriterGoes env s w w') :
    writerRest w' = [] ∧ (∀ c d todo, w' ≠ .logout c (.deliver d) todo)
      ∧ (∀ c sent todo, w' ≠ .logout c (.release sent) todo)
      ∧ ∀ c ∈ ownOf w', (s.info c).pub = fail ∧ c ∈ todoOf w := by
  cases h with
  | marked c todo hpub =>
      refine ⟨rfl, (fun _ _ _ e => by cases e), (fun _ _ _ e => by cases e),
        fun d hd => ?_⟩
      rw [List.mem_singleton.mp hd]
      exact ⟨hpub, List.mem_cons_self ..⟩
  | _ =>
      exact ⟨rfl, (fun _ _ _ e => by cases e), (fun _ _ _ e => by cases e),
        fun _ hc => by cases hc⟩

theorem writerGoes_flushing {env : Env} {s : Shared} {w w' : Writer}
    (h : WriterGoes env s w w') (hflush : ∀ c ∈ flushTodo w, c ∈ todoOf w) :
    ∀ c ∈ flushTodo w', c ∈ todoOf w' := by
  cases h with
  | snapshot => exact fun _ hc => hc
  | skips c todo all => exact fun d hd => hflush d (List.mem_cons_of_mem c hd)
  | checksPub => exact hflush
  | _ => exact fun _ hc => by cases hc

theorem ReleaseInv.writer {s s' : State} {env : Env} (h : ReleaseInv s)
    (hclear : ReleasesUnreachable s (.writer, env))
    (hstep : writerStep s env = some s') : ReleaseInv s' := by
  have hlist := h.list.writer hstep
  cases writerStep_move hstep with
  | goes hgo =>
      obtain ⟨hrest, -, hrelease, hown⟩ := writerGoes_plain hgo
      refine h.keep hlist rfl rfl rfl rfl rfl (fun _ hc => hc)
        (fun c hc => Or.inr ((hown c hc).imp_right (h.list.listed c)))
        (writerGoes_flushing hgo h.flushing) ?_
        (fun c sent todo he => absurd he (hrelease c sent todo))
      dsimp only
      rw [hrest]
      exact fun _ hc => by cases hc
  | flush hw =>
      have hflush := h.flushing
      rw [hw] at hflush
      exact h.keep hlist rfl rfl rfl rfl rfl (fun _ hc => hc)
        (fun _ hc => by cases hc)
        (fun d hd => hflush d (List.mem_cons_of_mem _ hd))
        (fun _ hc => by cases hc) (fun _ _ _ hc => by cases hc)
  | @logout c stage todo hw =>
      by_cases hrel : ∃ sent, stage = .release sent
      · obtain ⟨sent, rfl⟩ := hrel
        have hc : c ∈ releasing s .writer := by
          rw [releasing, hw]
          exact List.mem_cons_self ..
        exact h.release hw (hclear c hc) hlist
      · exact h.logout hw (fun sent he => hrel ⟨sent, he⟩) hlist
  | flagSet | waits | wakes =>
      exact h.keep hlist rfl rfl rfl rfl rfl (fun _ hc => hc)
        (fun _ hc => by cases hc) (fun _ hc => by cases hc)
        (fun _ hc => by cases hc) (fun _ _ _ hc => by cases hc)

/-! ## The listening thread -/

/-- The listening thread holds no client, and the other threads go on or have
    just been created. -/
theorem ReleaseInv.listens {s s' : State} (h : ReleaseInv s) (hlist : ListInv s')
    (hclients : s'.shared.clients = s.shared.clients)
    (hinfo : s'.shared.info = s.shared.info)
    (hcreated : s'.shared.created = s.shared.created)
    (hreleased : s'.shared.released = s.shared.released)
    (hadding : addingOf s'.listener = [])
    (hreader : s'.reader = s.reader ∨ s'.reader = .top)
    (hwriter : s'.writer = s.writer ∨ s'.writer = .top) : ReleaseInv s' := by
  have husable : ∀ {c}, Usable s c → Usable s' c := fun hu =>
    ⟨by rw [hcreated]; exact hu.created,
      by rw [hadding]; exact List.not_mem_nil,
      by rw [hreleased]; exact hu.notReleased⟩
  exact {
    list := hlist
    released := by
      rw [hreleased, hcreated]
      exact h.released
    adding := by
      rw [hadding]
      exact fun _ hc => by cases hc
    listed := by
      rw [hclients]
      exact fun c hc => husable (h.listed c hc)
    active := by
      rw [hinfo]
      rcases hreader with hr | hr
      · rw [hr]
        exact fun c hc => ⟨(h.active c hc).1, husable (h.active c hc).2⟩
      · rw [hr]
        exact fun _ hc => by cases hc
    activeNodup := by
      rcases hreader with hr | hr
      · rw [hr]
        exact h.activeNodup
      · rw [hr]
        exact List.nodup_nil
    pending := by
      rcases hreader with hr | hr
      · rw [hr]
        exact fun c hc => husable (h.pending c hc)
      · rw [hr]
        exact fun _ hc => by cases hc
    own := by
      rw [hinfo]
      rcases hwriter with hw | hw
      · rw [hw]
        exact fun c hc => ⟨(h.own c hc).1, husable (h.own c hc).2⟩
      · rw [hw]
        exact fun _ hc => by cases hc
    flushing := by
      rcases hwriter with hw | hw
      · rw [hw]
        exact h.flushing
      · rw [hw]
        exact fun _ hc => by cases hc
    rest := by
      rw [hclients]
      rcases hwriter with hw | hw
      · rw [hw]
        exact h.rest
      · rw [hw]
        exact fun _ hc => by cases hc
    off := by
      rw [hclients]
      rcases hwriter with hw | hw
      · rw [hw]
        exact h.off
      · rw [hw]
        exact fun _ _ _ hc => by cases hc }

/-- A new block: nobody knew it before. -/
theorem ReleaseInv.create {s : State} (h : ReleaseInv s) {spawned : Bool}
    {clientId : Int} {c : PClientInfo} (hfresh : c ∉ s.shared.created)
    (hlist : ListInv { s with
      shared := s.shared.newClientInfo c clientId
      listener := .addNode spawned c }) :
    ReleaseInv { s with
      shared := s.shared.newClientInfo c clientId
      listener := .addNode spawned c } := by
  have hne : ∀ {d}, Usable s d → d ≠ c := by
    rintro d hu rfl
    exact hfresh hu.created
  have hinfo : ∀ {d}, d ≠ c →
      (s.shared.newClientInfo c clientId).info d = s.shared.info d :=
    fun hd => Function.update_of_ne hd ..
  have husable : ∀ {d}, Usable s d → Usable { s with
      shared := s.shared.newClientInfo c clientId
      listener := .addNode spawned c } d := fun hu =>
    ⟨List.mem_cons_of_mem c hu.created,
      fun hm => hne hu (List.mem_singleton.mp hm), hu.notReleased⟩
  exact {
    list := hlist
    released := fun d hd => List.mem_cons_of_mem c (h.released d hd)
    adding := by
      intro d hd hr
      rw [List.mem_singleton.mp hd] at hr
      exact hfresh (h.released c hr)
    listed := fun d hd => husable (h.listed d hd)
    active := by
      intro d hd
      obtain ⟨h1, h2⟩ := h.active d hd
      refine ⟨?_, husable h2⟩
      show ((s.shared.newClientInfo c clientId).info d).pub ≠ fail
      rw [hinfo (hne h2)]
      exact h1
    activeNodup := h.activeNodup
    pending := fun d hd => husable (h.pending d hd)
    own := by
      intro d hd
      obtain ⟨h1, h2⟩ := h.own d hd
      refine ⟨?_, husable h2⟩
      show ((s.shared.newClientInfo c clientId).info d).pub = fail
      rw [hinfo (hne h2)]
      exact h1
    flushing := h.flushing
    rest := h.rest
    off := h.off }

/-- The list grows by a client that is not released. -/
theorem ReleaseInv.add {s : State} (h : ReleaseInv s) {spawned : Bool}
    {c : PClientInfo} (hl : s.listener = .addNode spawned c) {l : Listener}
    (hadding : addingOf l = [])
    (hlist : ListInv { s with
      shared := s.shared.addClient c, listener := l }) :
    ReleaseInv { s with shared := s.shared.addClient c, listener := l } := by
  have hc : c ∈ addingOf s.listener := by
    rw [hl]
    exact List.mem_cons_self ..
  have hnone : ∀ d, d ∉ addingOf l := by
    rw [hadding]
    exact fun _ => List.not_mem_nil
  have husable : ∀ {d}, Usable s d → Usable { s with
      shared := s.shared.addClient c, listener := l } d :=
    fun hu => ⟨hu.created, hnone _, hu.notReleased⟩
  have hnew : Usable { s with
      shared := s.shared.addClient c, listener := l } c :=
    ⟨h.list.created c (List.mem_append_right _ hc), hnone c, h.adding c hc⟩
  exact {
    list := hlist
    released := h.released
    adding := fun d hd => absurd hd (hnone d)
    listed := by
      intro d hd
      rcases List.mem_append.mp hd with h1 | h2
      · exact husable (h.listed d h1)
      · rw [List.mem_singleton.mp h2]
        exact hnew
    active := fun d hd => ⟨(h.active d hd).1, husable (h.active d hd).2⟩
    activeNodup := h.activeNodup
    pending := fun d hd => husable (h.pending d hd)
    own := fun d hd => ⟨(h.own d hd).1, husable (h.own d hd).2⟩
    flushing := h.flushing
    rest := fun d hd => List.mem_append_left _ (h.rest d hd)
    off := by
      intro d sent todo hw hd
      rcases List.mem_append.mp hd with h1 | h2
      · exact h.off d sent todo hw h1
      · have huse := (h.own d (by rw [hw]; exact List.mem_cons_self ..)).2
        rw [List.mem_singleton.mp h2] at huse
        exact huse.notAdding hc }

/-- The listening thread gives up a client that nobody else knows. -/
theorem ReleaseInv.giveUp {s : State} (h : ReleaseInv s) {spawned : Bool}
    {c : PClientInfo} (hl : s.listener = .addNode spawned c)
    (hlist : ListInv { s with
      shared := s.shared.releaseClientInfo c, listener := .accept spawned }) :
    ReleaseInv { s with
      shared := s.shared.releaseClientInfo c, listener := .accept spawned } := by
  have hc : c ∈ addingOf s.listener := by
    rw [hl]
    exact List.mem_cons_self ..
  have husable : ∀ {d}, Usable s d → Usable { s with
      shared := s.shared.releaseClientInfo c
      listener := .accept spawned } d := by
    intro d hu
    refine ⟨hu.created, List.not_mem_nil, ?_⟩
    intro hm
    rcases List.mem_cons.mp hm with rfl | h2
    · exact hu.notAdding hc
    · exact hu.notReleased h2
  exact {
    list := hlist
    released := by
      intro d hd
      rcases List.mem_cons.mp hd with rfl | h1
      · exact h.list.created d (List.mem_append_right _ hc)
      · exact h.released d h1
    adding := fun _ hd => by cases hd
    listed := fun d hd => husable (h.listed d hd)
    active := fun d hd => ⟨(h.active d hd).1, husable (h.active d hd).2⟩
    activeNodup := h.activeNodup
    pending := fun d hd => husable (h.pending d hd)
    own := fun d hd => ⟨(h.own d hd).1, husable (h.own d hd).2⟩
    flushing := h.flushing
    rest := h.rest
    off := h.off }

theorem ReleaseInv.listener {s s' : State} {env : Env} (h : ReleaseInv s)
    (hstep : listenerStep s env = some s') : ReleaseInv s' := by
  have hlist := h.list.listener hstep
  cases listenerStep_move hstep with
  | refused => exact h
  | creates hl hok hfresh => exact h.create hfresh hlist
  | @adds spawned c hl => exact h.add hl (by cases spawned <;> rfl) hlist
  | givesUp hl => exact h.giveUp hl hlist
  | accepts | noClient | noThread | stops =>
      exact h.listens hlist rfl rfl rfl rfl rfl (Or.inl rfl) (Or.inl rfl)
  | spawnsReader =>
      exact h.listens hlist rfl rfl rfl rfl rfl (Or.inr rfl) (Or.inl rfl)
  | spawnsWriter =>
      exact h.listens hlist rfl rfl rfl rfl rfl (Or.inl rfl) (Or.inr rfl)

/-! ## Every interleaving -/

theorem releaseInv_start {s : State} (h : threadSystem.start s) :
    ReleaseInv s := by
  have hlist := listInv_start h
  obtain ⟨hcl, -, -, -, hrel, -, hr, hw, hl, -⟩ := h
  exact {
    list := hlist
    released := by rw [hrel]; exact fun _ hc => by cases hc
    adding := by rw [hl]; exact fun _ hc => by cases hc
    listed := by rw [hcl]; exact fun _ hc => by cases hc
    active := by rw [hr]; exact fun _ hc => by cases hc
    activeNodup := by rw [hr]; exact List.nodup_nil
    pending := by rw [hr]; exact fun _ hc => by cases hc
    own := by rw [hw]; exact fun _ hc => by cases hc
    flushing := by rw [hw]; exact fun _ hc => by cases hc
    rest := by rw [hw]; exact fun _ hc => by cases hc
    off := by rw [hw]; exact fun _ _ _ hc => by cases hc }

/-- The step lemma. -/
theorem releaseInv_step {s s' : State} {a : Thread × Env} (h : ReleaseInv s)
    (hclear : ReleasesUnreachable s a)
    (hstep : threadSystem.step s a = some s') : ReleaseInv s' := by
  obtain ⟨thread, env⟩ := a
  cases thread with
  | listener => exact h.listener hstep
  | reader => exact h.reader hstep
  | writer => exact h.writer hclear hstep

/-- **NO USE OF A RELEASED CLIENT**, in every interleaving in which no client is
    released while the reading thread has a snapshot that still leads to it. -/
theorem no_released_access {s : State} (h : threadSystem.start s)
    (es : List (Thread × Env))
    (hclear : Along threadSystem ReleasesUnreachable s es) :
    Along threadSystem TouchesNoReleased s es :=
  along_of_inv threadSystem (I := ReleaseInv)
    (fun _ _ _ hI hC hstep => releaseInv_step hI hC hstep)
    (fun _ a hI _ => hI.safe a) es s (releaseInv_start h) hclear

/-! ### A marked client -/

/-- A client is accepted, and its socket reports an error: the reading thread
    marks it. -/
def clientMarked : List (Thread × Env) :=
  clientAccepted 1 4 ++ threadsCreated
    ++ [(.reader, quiet), (.reader, quiet), (.reader, quiet),
      (.reader, { quiet with pollRet := 1, revents := fun _ => 16 }),
      (.reader, quiet), (.reader, quiet), (.reader, quiet), (.reader, quiet)]

/-- The writing thread logs it out and releases it. -/
def clientLoggedOut : List (Thread × Env) :=
  List.replicate 10 (.writer, quiet)

theorem no_released_access_betweenRounds :
    Along threadSystem TouchesNoReleased freshProgram
      (clientMarked ++ clientLoggedOut ++ [(.reader, quiet)]) := by
  refine no_released_access freshProgram_start _ (along_of_checkRun _ ?_)
  decide +kernel

/-- The reading thread has taken a new snapshot, with the marked client in it,
    when the client is released; then it logs the entry. -/
theorem release_race : ¬ Along threadSystem TouchesNoReleased freshProgram
    (clientMarked ++ [(.reader, quiet)] ++ clientLoggedOut
      ++ [(.reader, quiet)]) := by
  intro h
  have hrun : ((runFrom threadSystem freshProgram (clientMarked
      ++ [(.reader, quiet)] ++ clientLoggedOut)).any fun s =>
        decide (1 ∈ accesses s .reader ∧ 1 ∈ s.shared.released)) = true := by
    decide +kernel
  obtain ⟨s, hs, hp⟩ := (Option.any_eq_true _ _).mp hrun
  obtain ⟨haccess, hreleased⟩ := of_decide_eq_true hp
  exact (((along_append threadSystem).mp h).2 s hs).1 1 haccess hreleased

end IMRelease

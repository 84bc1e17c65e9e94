import IMServer.Flush

/-! # The order of what one connection causes

    The messages a connection causes reach a writing buffer from two threads: the
    reading thread delivers its lines, the writing thread its logout notice.  The
    run is recorded: the lines taken from each connection, and what each writing
    buffer has been given, in order.  No lock orders the two threads.  What does is
    the mark: only the reading thread sets it, behind the last line, no later
    snapshot polls a marked client, and no block is given out twice. -/

namespace IMCausalOrder

open IMCachePool IMClientInfo IMMessage IMServerInfo IMThreads IMClientList
  IMRelease IMFlush IMTransition IMThreadMoves

/-! ## The record of a run -/

/-- Where an appended message comes from: line number `k` of a connection, or its
    logout. -/
inductive Entry where
  | line (x : PClientInfo) (k : Nat)
  | notice (x : PClientInfo)
  deriving DecidableEq

/-- The connection of an entry. -/
def Entry.source : Entry → PClientInfo
  | .line x _ => x
  | .notice x => x

/-- The program, the lines taken from each connection, and the messages appended to
    each writing buffer. -/
structure Logged where
  state : State
  lines : PClientInfo → List (List UInt8)
  log : PClientInfo → List Entry

/-- The line the next step takes from a reading buffer. -/
def lineOf (s : State) : Thread × Env → Option (PClientInfo × List UInt8)
  | (.reader, env) => match s.reader with
    | .handle c _ .fetchMsg _ => env.line.map fun line => (c, line)
    | _ => none
  | _ => none

/-- The client to whose buffer the next step of a delivery appends. -/
def receiver (d : Delivery) : Option PClientInfo :=
  match d.rest, d.stage with
  | y :: _, .send => some y
  | _, _ => none

/-- What the next step of the reading thread appends, and to whose buffer: a
    message of the line taken last. -/
def readerEntry (r : Reader) (lines : PClientInfo → List (List UInt8)) :
    Option (PClientInfo × Entry) :=
  match r with
  | .handle c _ (.deliver d) _ =>
      (receiver d).map fun y => (y, .line c (lines c).length)
  | _ => none

/-- The same of the writing thread: the notice of the client being logged out. -/
def writerEntry : Writer → Option (PClientInfo × Entry)
  | .logout c (.deliver d) _ => (receiver d).map fun y => (y, .notice c)
  | _ => none

def entryOf (g : Logged) : Thread → Option (PClientInfo × Entry)
  | .listener => none
  | .reader => readerEntry g.state.reader g.lines
  | .writer => writerEntry g.state.writer

/-- One more record for one client. -/
def record {α : Type} (f : PClientInfo → List α) :
    Option (PClientInfo × α) → PClientInfo → List α
  | none => f
  | some (c, a) => Function.update f c (f c ++ [a])

/-- A step of the program, recorded. -/
def loggedStep (g : Logged) (a : Thread × Env) : Option Logged :=
  (threadStep g.state a).map fun s =>
    ⟨s, record g.lines (lineOf g.state a), record g.log (entryOf g a.1)⟩

def loggedSystem : System Logged (Thread × Env) where
  start := fun g => threadSystem.start g.state ∧ (∀ x, g.lines x = [])
    ∧ ∀ y, g.log y = []
  step := loggedStep

/-- The record does not restrict the program. -/
theorem reachable_logged {s : State} (h : Reachable threadSystem s) :
    ∃ g, Reachable loggedSystem g ∧ g.state = s := by
  induction h with
  | start hs =>
      exact ⟨⟨_, fun _ => [], fun _ => []⟩,
        .start ⟨hs, fun _ => rfl, fun _ => rfl⟩, rfl⟩
  | step _ hstep ih =>
      obtain ⟨g, hg, rfl⟩ := ih
      exact ⟨_, .step hg (Option.map_eq_some_iff.mpr ⟨_, hstep, rfl⟩), rfl⟩

theorem mem_record {α : Type} {f : PClientInfo → List α}
    {o : Option (PClientInfo × α)} {y : PClientInfo} {e : α} :
    e ∈ record f o y ↔ e ∈ f y ∨ o = some (y, e) := by
  cases o with
  | none => exact ⟨Or.inl, fun h => h.resolve_right fun h => by cases h⟩
  | some r =>
      obtain ⟨c, a⟩ := r
      rw [record]
      by_cases hy : y = c
      · subst hy
        rw [Function.update_self, List.mem_append, List.mem_singleton]
        refine or_congr_right ⟨fun h => by rw [h], fun h => ?_⟩
        exact (Prod.mk.inj (Option.some.inj h)).2.symm
      · rw [Function.update_of_ne hy]
        refine ⟨Or.inl, fun h => h.resolve_right fun h => hy ?_⟩
        exact (Prod.mk.inj (Option.some.inj h)).1.symm

theorem length_record {α : Type} (f : PClientInfo → List α)
    (o : Option (PClientInfo × α)) (y : PClientInfo) :
    (f y).length ≤ (record f o y).length := by
  cases o with
  | none => exact Nat.le_refl _
  | some r =>
      rw [record]
      by_cases hy : y = r.1
      · rw [hy, Function.update_self, List.length_append]
        exact Nat.le_add_right _ _
      · rw [Function.update_of_ne hy]

/-! ## The order -/

/-- What may stand behind an entry in a buffer: behind a line of a connection its
    later lines and its notice, behind its notice nothing of it. -/
def InOrder : Entry → Entry → Prop
  | .line x k, .line x' k' => x = x' → k ≤ k'
  | .line _ _, .notice _ => True
  | .notice x, e => e.source ≠ x

/-- Only the buffer that is appended to has to be looked at. -/
theorem pairwise_record {R : Entry → Entry → Prop}
    {log : PClientInfo → List Entry} (h : ∀ y, (log y).Pairwise R)
    {o : Option (PClientInfo × Entry)}
    (ho : ∀ y e', o = some (y, e') → ∀ e ∈ log y, R e e') (y : PClientInfo) :
    (record log o y).Pairwise R := by
  cases o with
  | none => exact h y
  | some r =>
      obtain ⟨c, e'⟩ := r
      rw [record]
      by_cases hy : y = c
      · subst hy
        rw [Function.update_self]
        refine List.pairwise_append.mpr ⟨h y, List.pairwise_singleton _ _, ?_⟩
        intro e he e₂ he₂
        rw [List.mem_singleton.mp he₂]
        exact ho y e' rfl e he
      · rw [Function.update_of_ne hy]
        exact h y

/-! ## The marks -/

/-- **THE MARKS** in every interleaving: what the reading thread handles is not
    marked, and what the writing thread logs out is. -/
structure MarkInv (s : State) : Prop where
  list : ListInv s
  active : ∀ c ∈ readerActive s.reader, (s.shared.info c).pub ≠ fail
  activeNodup : (readerActive s.reader).Nodup
  own : ∀ c ∈ ownOf s.writer,
    (s.shared.info c).pub = fail ∧ c ∈ s.shared.created

/-- The client has been logged out: it is marked and will not be listed again. -/
structure Gone (s : State) (c : PClientInfo) : Prop where
  marked : (s.shared.info c).pub = fail
  created : c ∈ s.shared.created
  notListed : c ∉ s.shared.clients
  notAdding : c ∉ addingOf s.listener

/-- A client that is being closed is off the list. -/
theorem ListInv.off {s : State} (h : ListInv s) {c : PClientInfo}
    (hc : c ∈ closingOf s.writer) :
    c ∉ s.shared.clients ∧ c ∉ addingOf s.listener := by
  have hnd := List.Nodup.of_map _
    ((List.sublist_append_left _ _).nodup h.distinct)
  rw [live, List.append_assoc] at hnd
  obtain ⟨-, hrest, hfront⟩ := List.nodup_append.mp hnd
  exact ⟨fun hm => hfront c hm c (List.mem_append_left _ hc) rfl,
    fun hm => (List.nodup_append.mp hrest).2.2 c hc c hm rfl⟩

theorem MarkInv.reader {s s' : State} {env : Env} (h : MarkInv s)
    (hstep : readerStep s env = some s') : MarkInv s' := by
  have hf := readerStep_frame hstep
  obtain ⟨hpub, hnd⟩ := active_reader h.list h.active h.activeNodup hstep
  refine ⟨h.list.reader hstep, hpub, hnd, ?_⟩
  rw [hf.writer, hf.list.created]
  intro c hc
  obtain ⟨h1, h2⟩ := h.own c hc
  rcases hf.pub c with h3 | ⟨h3, -⟩
  · exact ⟨h3.trans h1, h2⟩
  · exact ⟨h3, h2⟩

theorem Gone.reader {s s' : State} {env : Env} {c : PClientInfo} (h : Gone s c)
    (hstep : readerStep s env = some s') : Gone s' c := by
  have hf := readerStep_frame hstep
  refine ⟨?_, ?_, ?_, ?_⟩
  · rcases hf.pub c with h1 | ⟨h1, -⟩
    · exact h1.trans h.marked
    · exact h1
  · rw [hf.list.created]
    exact h.created
  · rw [hf.list.clients]
    exact h.notListed
  · rw [hf.listener]
    exact h.notAdding

/-- What a step of the writing thread leaves alone; it logs out listed clients that
    are marked. -/
structure WriterFrame (s s' : State) : Prop where
  reader : s'.reader = s.reader
  listener : s'.listener = s.listener
  info : s'.shared.info = s.shared.info
  created : s'.shared.created = s.shared.created
  clients : ∀ c ∈ s'.shared.clients, c ∈ s.shared.clients
  own : ∀ c ∈ ownOf s'.writer, c ∈ ownOf s.writer
    ∨ ((s.shared.info c).pub = fail ∧ c ∈ s.shared.clients)

theorem logoutStep_frame {s : State} {env : Env} {c : PClientInfo}
    {stage : LogoutStage} {todo : List PClientInfo} (hlist : ListInv s)
    (hw : s.writer = .logout c stage todo) :
    WriterFrame s (logoutStep s env c todo stage) := by
  have hown : ∀ {d}, d = c → (∀ sent, stage ≠ .signal sent) →
      d ∈ ownOf s.writer := by
    rintro d rfl hstage
    rw [hw]
    cases stage with
    | signal sent => exact absurd rfl (hstage sent)
    | _ => exact List.mem_cons_self ..
  cases stage with
  | remove =>
      have hc : c ∈ s.shared.clients :=
        hlist.listed c (by rw [hw]; exact List.mem_cons_self ..)
      obtain ⟨pre, post, hsplit, heq⟩ := removeClient_eq hlist hc
      rw [logoutStep, heq]
      refine ⟨rfl, rfl, rfl, rfl, fun d hd => ?_, fun d hd => Or.inl ?_⟩
      · rw [hsplit]
        exact ((List.sublist_cons_self c post).append_left pre).subset hd
      · exact hown (List.mem_singleton.mp hd) fun _ h => by cases h
  | build =>
      rw [logoutStep]
      split <;>
        exact ⟨rfl, rfl, rfl, rfl, fun _ hd => hd, fun d hd => Or.inl
          (hown (List.mem_singleton.mp hd) fun _ h => by cases h)⟩
  | snapshot msg =>
      exact ⟨rfl, rfl, rfl, rfl, fun _ hd => hd, fun d hd => Or.inl
        (hown (List.mem_singleton.mp hd) fun _ h => by cases h)⟩
  | deliver del =>
      rw [logoutStep]
      cases hdel : deliverStep s.shared env del with
      | none =>
          exact ⟨rfl, rfl, rfl, rfl, fun _ hd => hd, fun d hd => Or.inl
            (hown (List.mem_singleton.mp hd) fun _ h => by cases h)⟩
      | some r =>
          have hs := sameList_deliverStep hdel
          obtain ⟨-, hinfo, -⟩ := deliverStep_info hdel
          refine ⟨rfl, rfl, hinfo, hs.created, ?_, fun d hd => Or.inl
            (hown (List.mem_singleton.mp hd) fun _ h => by cases h)⟩
          show ∀ d ∈ r.1.clients, d ∈ s.shared.clients
          rw [hs.clients]
          exact fun _ hd => hd
  | close sent =>
      exact ⟨rfl, rfl, rfl, rfl, fun _ hd => hd, fun d hd => Or.inl
        (hown (List.mem_singleton.mp hd) fun _ h => by cases h)⟩
  | release sent =>
      exact ⟨rfl, rfl, rfl, rfl, fun _ hd => hd, fun _ hd => by cases hd⟩
  | signal sent =>
      obtain ⟨hs, hinfo, -, hreader, -, hlistener⟩ := signalFlush_list s sent
      refine ⟨hreader, hlistener, hinfo, hs.created, ?_, fun _ hd => by cases hd⟩
      show ∀ d ∈ (s.signalFlush sent).shared.clients, d ∈ s.shared.clients
      rw [hs.clients]
      exact fun _ hd => hd

theorem writerStep_frame {s s' : State} {env : Env} (hlist : ListInv s)
    (hstep : writerStep s env = some s') : WriterFrame s s' := by
  cases writerStep_move hstep with
  | goes hgo =>
      obtain ⟨-, -, -, hown⟩ := writerGoes_plain hgo
      exact ⟨rfl, rfl, rfl, rfl, fun _ hc => hc,
        fun c hc => Or.inr ((hown c hc).imp_right (hlist.listed c))⟩
  | logout hw => exact logoutStep_frame hlist hw
  | flush | flagSet | waits | wakes =>
      exact ⟨rfl, rfl, rfl, rfl, fun _ hc => hc, fun _ hc => by cases hc⟩

theorem MarkInv.writer {s s' : State} {env : Env} (h : MarkInv s)
    (hstep : writerStep s env = some s') : MarkInv s' := by
  have hf := writerStep_frame h.list hstep
  refine ⟨h.list.writer hstep, ?_, ?_, ?_⟩
  · rw [hf.reader, hf.info]
    exact h.active
  · rw [hf.reader]
    exact h.activeNodup
  · rw [hf.info, hf.created]
    intro c hc
    rcases hf.own c hc with h1 | ⟨h1, h2⟩
    · exact h.own c h1
    · exact ⟨h1, h.list.created c (List.mem_append_left _
        (List.mem_append_left _ h2))⟩

theorem Gone.writer {s s' : State} {env : Env} {c : PClientInfo} (h : Gone s c)
    (hlist : ListInv s) (hstep : writerStep s env = some s') : Gone s' c := by
  have hf := writerStep_frame hlist hstep
  refine ⟨?_, ?_, fun hm => h.notListed (hf.clients c hm), ?_⟩
  · rw [hf.info]
    exact h.marked
  · rw [hf.created]
    exact h.created
  · rw [hf.listener]
    exact h.notAdding

/-- What a step of the listening thread does to clients that were given out
    before: it may only list the one it holds. -/
structure ListenerFrame (s s' : State) : Prop where
  reader : s'.reader = s.reader ∨ s'.reader = .top
  writer : s'.writer = s.writer ∨ s'.writer = .top
  created : ∀ c ∈ s.shared.created, c ∈ s'.shared.created
  info : ∀ c ∈ s.shared.created, s'.shared.info c = s.shared.info c
  pub : ∀ c, (s'.shared.info c).pub = fail → (s.shared.info c).pub = fail
  clients : ∀ c ∈ s'.shared.clients,
    c ∈ s.shared.clients ∨ c ∈ addingOf s.listener
  adding : ∀ c ∈ addingOf s'.listener,
    c ∈ addingOf s.listener ∨ c ∉ s.shared.created

theorem listenerStep_frame {s s' : State} {env : Env}
    (hstep : listenerStep s env = some s') : ListenerFrame s s' := by
  have hkeep : ∀ {s'' : State}, s''.shared.clients = s.shared.clients →
      s''.shared.created = s.shared.created →
      s''.shared.info = s.shared.info → addingOf s''.listener = [] →
      (s''.reader = s.reader ∨ s''.reader = .top) →
      (s''.writer = s.writer ∨ s''.writer = .top) → ListenerFrame s s'' := by
    intro s'' hcl hcr hinfo hadd hr hw
    refine ⟨hr, hw, ?_, ?_, ?_, ?_, ?_⟩
    · rw [hcr]
      exact fun _ hc => hc
    · rw [hinfo]
      exact fun _ _ => rfl
    · rw [hinfo]
      exact fun _ hc => hc
    · rw [hcl]
      exact fun _ hc => Or.inl hc
    · rw [hadd]
      exact fun _ hc => by cases hc
  cases listenerStep_move hstep with
  | refused =>
      exact ⟨Or.inl rfl, Or.inl rfl, fun _ hc => hc, fun _ _ => rfl,
        fun _ hc => hc, fun _ hc => Or.inl hc, fun _ hc => Or.inl hc⟩
  | creates hl hok hfresh =>
      -- only the record of the new block changes, and it is not marked
      have hne : ∀ c ∈ s.shared.created, c ≠ env.block :=
        fun c hc he => hfresh (he ▸ hc)
      refine ⟨Or.inl rfl, Or.inl rfl, fun c hc => List.mem_cons_of_mem _ hc,
        fun c hc => Function.update_of_ne (hne c hc) .., fun c hc => ?_,
        fun c hc => Or.inl hc, fun c hc => Or.inr ?_⟩
      · have hc' : (Function.update s.shared.info env.block _ c).pub = fail := hc
        by_cases he : c = env.block
        · rw [he, Function.update_self, updateClientName] at hc'
          exact absurd hc' (show succ ≠ fail by decide)
        · rw [Function.update_of_ne he] at hc'
          exact hc'
      · rw [List.mem_singleton.mp hc]
        exact hfresh
  | @adds spawned c hl =>
      refine ⟨Or.inl rfl, Or.inl rfl, fun _ hd => hd, fun _ _ => rfl,
        fun _ hd => hd, fun d hd => ?_, fun d hd => ?_⟩
      · refine (List.mem_append.mp hd).imp_right fun h => ?_
        rw [hl]
        exact h
      · have hd' : d ∈ addingOf (if spawned then Listener.accept true
            else .spawnReader) := hd
        cases spawned <;> cases hd'
  | spawnsReader => exact hkeep rfl rfl rfl rfl (Or.inr rfl) (Or.inl rfl)
  | spawnsWriter => exact hkeep rfl rfl rfl rfl (Or.inl rfl) (Or.inr rfl)
  | accepts | noClient | givesUp | noThread | stops =>
      exact hkeep rfl rfl rfl rfl (Or.inl rfl) (Or.inl rfl)

theorem MarkInv.listener {s s' : State} {env : Env} (h : MarkInv s)
    (hstep : listenerStep s env = some s') : MarkInv s' := by
  have hf := listenerStep_frame hstep
  refine ⟨h.list.listener hstep, ?_, ?_, ?_⟩
  · intro c hc hpub
    rcases hf.reader with hr | hr
    · rw [hr] at hc
      exact h.active c hc (hf.pub c hpub)
    · rw [hr] at hc
      cases hc
  · rcases hf.reader with hr | hr
    · rw [hr]
      exact h.activeNodup
    · rw [hr]
      exact List.nodup_nil
  · rcases hf.writer with hw | hw
    · rw [hw]
      intro c hc
      obtain ⟨h1, h2⟩ := h.own c hc
      rw [hf.info c h2]
      exact ⟨h1, hf.created c h2⟩
    · rw [hw]
      exact fun _ hc => by cases hc

theorem Gone.listener {s s' : State} {env : Env} {c : PClientInfo}
    (h : Gone s c) (hstep : listenerStep s env = some s') : Gone s' c := by
  have hf := listenerStep_frame hstep
  refine ⟨?_, hf.created c h.created, fun hm => ?_, fun hm => ?_⟩
  · rw [hf.info c h.created]
    exact h.marked
  · exact (hf.clients c hm).elim h.notListed h.notAdding
  · exact (hf.adding c hm).elim h.notAdding fun hn => hn h.created

theorem markInv_start {s : State} (h : threadSystem.start s) : MarkInv s := by
  have hlist := listInv_start h
  obtain ⟨-, -, -, -, -, -, hr, hw, -⟩ := h
  refine ⟨hlist, ?_, ?_, ?_⟩
  · rw [hr]
    exact fun _ hc => by cases hc
  · rw [hr]
    exact List.nodup_nil
  · rw [hw]
    exact fun _ hc => by cases hc

/-- The step lemma of the marks. -/
theorem markInv_step {s s' : State} {a : Thread × Env} (h : MarkInv s)
    (hstep : threadStep s a = some s') : MarkInv s' := by
  obtain ⟨thread, env⟩ := a
  cases thread with
  | listener => exact h.listener hstep
  | reader => exact h.reader hstep
  | writer => exact h.writer hstep

/-- A client that is gone stays gone. -/
theorem Gone.step {s s' : State} {a : Thread × Env} {c : PClientInfo}
    (h : Gone s c) (hlist : ListInv s) (hstep : threadStep s a = some s') :
    Gone s' c := by
  obtain ⟨thread, env⟩ := a
  cases thread with
  | listener => exact h.listener hstep
  | reader => exact h.reader hstep
  | writer => exact h.writer hlist hstep

/-! ## One delivery -/

/-- A step of a delivery appends to the client at the front, which is done then, or
    to none. -/
theorem deliverStep_receiver {s s' : Shared} {env : Env} {d d' : Delivery}
    (h : deliverStep s env d = some (s', d')) :
    d'.rest.Sublist d.rest ∧ d'.origin = d.origin
      ∧ ((receiver d = none ∧ s'.writing = s.writing)
        ∨ ∃ y bytes, receiver d = some y ∧ d.rest = y :: d'.rest
          ∧ s' = s.sendMsgToClient y ⟨d.origin, bytes⟩) := by
  obtain ⟨msg, origin, rest, stage, sentCount⟩ := d
  cases rest with
  | nil => cases h
  | cons c rest =>
      have hskip : rest.Sublist (c :: rest) := List.sublist_cons_self c rest
      cases stage with
      | pub =>
          simp only [deliverStep] at h
          split at h
          · obtain ⟨rfl, rfl⟩ := Prod.mk.inj (Option.some.inj h)
            exact ⟨hskip, rfl, Or.inl ⟨rfl, rfl⟩⟩
          · obtain ⟨rfl, rfl⟩ := Prod.mk.inj (Option.some.inj h)
            exact ⟨List.Sublist.refl _, rfl, Or.inl ⟨rfl, rfl⟩⟩
      | name =>
          simp only [deliverStep] at h
          split at h
          · obtain ⟨rfl, rfl⟩ := Prod.mk.inj (Option.some.inj h)
            exact ⟨hskip, rfl, Or.inl ⟨rfl, rfl⟩⟩
          · split at h
            · obtain ⟨rfl, rfl⟩ := Prod.mk.inj (Option.some.inj h)
              exact ⟨List.Sublist.refl _, rfl, Or.inl ⟨rfl, rfl⟩⟩
            · obtain ⟨rfl, rfl⟩ := Prod.mk.inj (Option.some.inj h)
              exact ⟨hskip, rfl, Or.inl ⟨rfl, rfl⟩⟩
      | send =>
          obtain ⟨rfl, rfl⟩ := Prod.mk.inj (Option.some.inj h)
          exact ⟨hskip, rfl, Or.inr ⟨c, _, rfl, rfl, rfl⟩⟩

theorem receiver_none {s : Shared} {env : Env} {d : Delivery}
    (h : deliverStep s env d = none) : receiver d = none := by
  obtain ⟨msg, origin, rest, stage, sentCount⟩ := d
  cases rest with
  | nil => rfl
  | cons c rest =>
      cases stage with
      | pub =>
          simp only [deliverStep] at h
          split at h <;> cases h
      | name =>
          simp only [deliverStep] at h
          split at h
          · cases h
          · split at h <;> cases h
      | send => cases h

/-! ## The notice -/

/-- The client `y` has not been passed by the notice of the logout of `x` that is
    under way. -/
def Due : Writer → PClientInfo → PClientInfo → Prop
  | .logout c .build _, x, _ => x = c
  | .logout c (.snapshot _) _, x, _ => x = c
  | .logout c (.deliver d) _, x, y => x = c ∧ y ∈ d.rest
  | _, _, _ => False

/-- What a step of a logout does to the notice: one that is due was due before and
    is not the one appended, or the logout begins. -/
theorem logoutStep_due {s : State} {env : Env} {c : PClientInfo}
    {stage : LogoutStage} {todo : List PClientInfo} (hlist : ListInv s)
    (hw : s.writer = .logout c stage todo)
    (hnd : (writerRest s.writer).Nodup) :
    (writerRest (logoutStep s env c todo stage).writer).Nodup
      ∧ ∀ x y, Due (logoutStep s env c todo stage).writer x y →
        (Due s.writer x y ∧ writerEntry s.writer ≠ some (y, .notice x))
          ∨ x ∈ s.shared.clients := by
  rw [hw] at hnd
  cases stage with
  | remove =>
      refine ⟨List.nodup_nil, fun x y hdue => Or.inr ?_⟩
      obtain rfl : x = c := hdue
      exact hlist.listed x (by rw [hw]; exact List.mem_cons_self ..)
  | build =>
      rw [logoutStep, hw]
      split
      · exact ⟨List.nodup_nil, fun _ _ h => h.elim⟩
      · exact ⟨List.nodup_nil, fun _ _ h => Or.inl ⟨h, fun h => by cases h⟩⟩
  | snapshot msg =>
      refine ⟨?_, fun x y hdue => Or.inl ?_⟩
      · show (if env.mallocOk then s.shared.getClientList else []).Nodup
        rw [getClientList_eq hlist.count]
        split
        · exact hlist.nodup
        · exact List.nodup_nil
      · rw [hw]
        exact ⟨hdue.1, fun h => by cases h⟩
  | deliver d =>
      rw [logoutStep, hw]
      cases hd : deliverStep s.shared env d with
      | none => exact ⟨List.nodup_nil, fun _ _ h => h.elim⟩
      | some r =>
          obtain ⟨hsub, -, hsend⟩ := deliverStep_receiver hd
          refine ⟨hsub.nodup hnd, fun x y hdue => Or.inl ⟨⟨hdue.1,
            hsub.subset hdue.2⟩, fun he => ?_⟩⟩
          rcases hsend with ⟨hnone, -⟩ | ⟨y', bytes, hsome, hrest, -⟩
          · rw [writerEntry, hnone] at he
            cases he
          · rw [writerEntry, hsome] at he
            obtain rfl := (Prod.mk.inj (Option.some.inj he)).1
            have hnd' : (y' :: r.2.rest).Nodup := hrest ▸ hnd
            exact (List.nodup_cons.mp hnd').1 hdue.2
  | close sent | release sent =>
      exact ⟨List.nodup_nil, fun _ _ h => h.elim⟩
  | signal sent => exact ⟨List.nodup_nil, fun _ _ h => h.elim⟩

theorem writerGoes_quiet {env : Env} {s : Shared} {w w' : Writer}
    (h : WriterGoes env s w w') :
    writerEntry w = none ∧ ∀ x y, ¬ Due w' x y := by
  cases h with
  | _ => exact ⟨rfl, fun _ _ h => h⟩

theorem writerStep_due {s s' : State} {env : Env} (hlist : ListInv s)
    (hnd : (writerRest s.writer).Nodup) (hstep : writerStep s env = some s') :
    (writerRest s'.writer).Nodup
      ∧ ∀ x y, Due s'.writer x y →
        (Due s.writer x y ∧ writerEntry s.writer ≠ some (y, .notice x))
          ∨ x ∈ s.shared.clients := by
  cases writerStep_move hstep with
  | goes hgo =>
      obtain ⟨hrest, -⟩ := writerGoes_plain hgo
      refine ⟨?_, fun x y hdue => absurd hdue ((writerGoes_quiet hgo).2 x y)⟩
      dsimp only
      rw [hrest]
      exact List.nodup_nil
  | logout hw => exact logoutStep_due hlist hw hnd
  | flush | flagSet | waits | wakes =>
      exact ⟨List.nodup_nil, fun _ _ h => h.elim⟩

/-! ## What is appended -/

/-- A message of a line comes from the client the reading thread handles, and has
    the number of the line taken last. -/
theorem readerEntry_line {r : Reader} {lines : PClientInfo → List (List UInt8)}
    {y : PClientInfo} {e : Entry} (h : readerEntry r lines = some (y, e)) :
    ∃ x ∈ readerActive r, e = .line x (lines x).length := by
  unfold readerEntry at h
  split at h
  · obtain ⟨y', -, he⟩ := Option.map_eq_some_iff.mp h
    exact ⟨_, List.mem_cons_self .., (Prod.mk.inj he).2.symm⟩
  · cases h

/-- A notice is that of the client being closed, and was due. -/
theorem writerEntry_notice {w : Writer} {y : PClientInfo} {e : Entry}
    (h : writerEntry w = some (y, e)) :
    ∃ x, e = .notice x ∧ Due w x y ∧ x ∈ closingOf w ∧ x ∈ ownOf w := by
  unfold writerEntry at h
  split at h
  · next c d todo =>
      obtain ⟨y', hy, he⟩ := Option.map_eq_some_iff.mp h
      obtain ⟨rfl, rfl⟩ := Prod.mk.inj he
      refine ⟨c, rfl, ⟨rfl, ?_⟩, List.mem_cons_self .., List.mem_cons_self ..⟩
      obtain ⟨msg, origin, rest, stage, sentCount⟩ := d
      cases rest with
      | nil => cases hy
      | cons y₁ rest =>
          cases stage with
          | send =>
              obtain rfl := Option.some.inj hy
              exact List.mem_cons_self ..
          | _ => cases hy
  · cases h

/-! ## The invariant of the record -/

/-- **THE INVARIANT**: lines are numbered as they were taken, a notice that has been
    appended is of a client that is gone, and one that is due has not been
    appended yet. -/
structure LogInv (g : Logged) : Prop where
  marks : MarkInv g.state
  counted : ∀ x y k, .line x k ∈ g.log y → k ≤ (g.lines x).length
  noticed : ∀ x y, .notice x ∈ g.log y → Gone g.state x
  due : ∀ x y, Due g.state.writer x y → .notice x ∉ g.log y
  restNodup : (writerRest g.state.writer).Nodup
  ordered : ∀ y, (g.log y).Pairwise InOrder

theorem logInv_start {g : Logged} (h : loggedSystem.start g) : LogInv g := by
  obtain ⟨hs, hlines, hlog⟩ := h
  have hw : g.state.writer = .idle := hs.2.2.2.2.2.2.2.1
  refine ⟨markInv_start hs, ?_, ?_, ?_, ?_, ?_⟩
  · intro x y k hm
    rw [hlog] at hm
    cases hm
  · intro x y hm
    rw [hlog] at hm
    cases hm
  · rw [hw]
    exact fun _ _ h => h.elim
  · rw [hw]
    exact List.nodup_nil
  · intro y
    rw [hlog]
    exact List.Pairwise.nil

/-- A new entry is of a client that is not gone, or a notice that was due. -/
theorem LogInv.entry {g : Logged} (h : LogInv g) {t : Thread} {y : PClientInfo}
    {e : Entry} (he : entryOf g t = some (y, e)) :
    (∃ x ∈ readerActive g.state.reader, e = .line x (g.lines x).length)
      ∨ ∃ x, t = .writer ∧ e = .notice x ∧ Due g.state.writer x y
        ∧ Gone g.state x := by
  cases t with
  | listener => cases he
  | reader => exact Or.inl (readerEntry_line he)
  | writer =>
      obtain ⟨x, rfl, hdue, hclosing, hown⟩ := writerEntry_notice he
      obtain ⟨h1, h2⟩ := h.marks.own x hown
      obtain ⟨h3, h4⟩ := ListInv.off h.marks.list hclosing
      exact Or.inr ⟨x, rfl, rfl, hdue, h1, h2, h3, h4⟩

/-- A notice that is due after a step was due before it and has not been appended
    by it, or its logout begins with this step. -/
theorem LogInv.due_step {g : Logged} (h : LogInv g) {a : Thread × Env} {s' : State}
    (hs : threadStep g.state a = some s') :
    (writerRest s'.writer).Nodup
      ∧ ∀ x y, Due s'.writer x y →
        (Due g.state.writer x y ∧ entryOf g a.1 ≠ some (y, .notice x))
          ∨ x ∈ g.state.shared.clients := by
  obtain ⟨thread, env⟩ := a
  cases thread with
  | listener =>
      rcases (listenerStep_frame hs).writer with hw | hw
      · rw [hw]
        exact ⟨h.restNodup, fun x y hdue => Or.inl ⟨hdue, fun he => by cases he⟩⟩
      · rw [hw]
        exact ⟨List.nodup_nil, fun _ _ hdue => hdue.elim⟩
  | reader =>
      rw [(readerStep_frame hs).writer]
      refine ⟨h.restNodup, fun x y hdue => Or.inl ⟨hdue, fun he => ?_⟩⟩
      obtain ⟨x', -, he'⟩ := readerEntry_line he
      cases he'
  | writer => exact writerStep_due h.marks.list h.restNodup hs

/-- **THE STEP LEMMA** of the record. -/
theorem logInv_step {g g' : Logged} {a : Thread × Env} (h : LogInv g)
    (hstep : loggedSystem.step g a = some g') : LogInv g' := by
  obtain ⟨s', hs, rfl⟩ := Option.map_eq_some_iff.mp hstep
  have hgone : ∀ {x}, Gone g.state x → Gone s' x :=
    fun hx => hx.step h.marks.list hs
  have hactive : ∀ {x x'}, x ∈ readerActive g.state.reader →
      Gone g.state x' → x ≠ x' := by
    rintro x x' hx hx' rfl
    exact h.marks.active x hx hx'.marked
  refine ⟨markInv_step h.marks hs, ?_, ?_, ?_, ?_, ?_⟩
  · intro x y k hm
    have hlen := length_record g.lines (lineOf g.state a) x
    rcases mem_record.mp hm with hold | hnew
    · exact Nat.le_trans (h.counted x y k hold) hlen
    · rcases h.entry hnew with ⟨x', -, he⟩ | ⟨x', -, he, -⟩
      · obtain ⟨rfl, rfl⟩ := Entry.line.inj he
        exact hlen
      · cases he
  · intro x y hm
    rcases mem_record.mp hm with hold | hnew
    · exact hgone (h.noticed x y hold)
    · rcases h.entry hnew with ⟨x', -, he⟩ | ⟨x', -, he, -, hx⟩
      · cases he
      · obtain rfl := Entry.notice.inj he
        exact hgone hx
  · intro x y hdue hm
    rcases (h.due_step hs).2 x y hdue with ⟨hdue', hnew⟩ | hlisted
    · exact (mem_record.mp hm).elim (h.due x y hdue') hnew
    · rcases mem_record.mp hm with hold | hnew
      · exact (h.noticed x y hold).notListed hlisted
      · rcases h.entry hnew with ⟨x', -, he⟩ | ⟨x', -, he, -, hx⟩
        · cases he
        · obtain rfl := Entry.notice.inj he
          exact hx.notListed hlisted
  · exact (h.due_step hs).1
  · refine pairwise_record h.ordered ?_
    intro y e' hnew e hold
    rcases h.entry hnew with ⟨x, hx, rfl⟩ | ⟨x, -, rfl, hdue, -⟩
    · cases e with
      | line x' k =>
          rintro rfl
          exact h.counted _ y k hold
      | notice x' => exact hactive hx (h.noticed x' y hold)
    · cases e with
      | line x' k => exact trivial
      | notice x' =>
          rintro rfl
          exact h.due _ y hdue hold

/-! ## The record is exact -/

/-- A buffer that is not appended to: as it was, emptied, or shortened at its
    front. -/
def Shrinks (old new : List Chunk) : Prop :=
  new = old ∨ new = [] ∨ ∃ n, new = Shared.dropBytes n old

/-- The buffer of each client grows by one chunk when the entry is for it, and does
    not grow otherwise. -/
def Recorded (o : Option (PClientInfo × Entry)) (s s' : Shared) : Prop :=
  ∀ y, (∃ e chunk, o = some (y, e) ∧ s'.writing y = s.writing y ++ [chunk])
    ∨ ((∀ e, o ≠ some (y, e)) ∧ Shrinks (s.writing y) (s'.writing y))

theorem recorded_same {s s' : Shared} (h : s'.writing = s.writing) :
    Recorded none s s' :=
  fun _ => Or.inr ⟨(fun _ h => by cases h), Or.inl (by rw [h])⟩

/-- One buffer is emptied or shortened. -/
theorem recorded_shrinks {s s' : Shared} {c : PClientInfo} {chunks : List Chunk}
    (h : s'.writing = Function.update s.writing c chunks)
    (hc : Shrinks (s.writing c) chunks) : Recorded none s s' := by
  intro y
  refine Or.inr ⟨fun _ h => (by cases h), ?_⟩
  rw [h]
  by_cases hy : y = c
  · rw [hy, Function.update_self]
    exact hc
  · rw [Function.update_of_ne hy]
    exact Or.inl rfl

theorem recorded_deliver {s s' : Shared} {env : Env} {d d' : Delivery}
    (h : deliverStep s env d = some (s', d')) (e : Entry) :
    Recorded ((receiver d).map fun y => (y, e)) s s' := by
  obtain ⟨-, -, ⟨hnone, hsame⟩ | ⟨y, bytes, hsome, -, rfl⟩⟩ := deliverStep_receiver h
  · rw [hnone]
    exact recorded_same hsame
  · rw [hsome]
    intro z
    show (∃ e' chunk, some (y, e) = some (z, e')
        ∧ Function.update s.writing y _ z = s.writing z ++ [chunk])
      ∨ ((∀ e', some (y, e) ≠ some (z, e'))
        ∧ Shrinks (s.writing z) (Function.update s.writing y _ z))
    by_cases hz : z = y
    · subst hz
      rw [Function.update_self]
      exact Or.inl ⟨e, _, rfl, rfl⟩
    · rw [Function.update_of_ne hz]
      refine Or.inr ⟨fun e' he => hz ?_, Or.inl rfl⟩
      exact (Prod.mk.inj (Option.some.inj he)).1.symm

theorem readerStep_record {s s' : State} {env : Env}
    (hstep : readerStep s env = some s')
    (lines : PClientInfo → List (List UInt8)) :
    Recorded (readerEntry s.reader lines) s.shared s'.shared := by
  by_cases hdel : ∃ c need d entries, s.reader = .handle c need (.deliver d) entries
  · obtain ⟨c, need, d, entries, hr⟩ := hdel
    simp only [readerStep, hr] at hstep
    obtain rfl := Option.some.inj hstep
    rw [hr, handleStep]
    cases hd : deliverStep s.shared env d with
    | none =>
        rw [readerEntry, receiver_none hd]
        exact recorded_same rfl
    | some r => exact recorded_deliver hd _
  · have hnone : readerEntry s.reader lines = none := by
      unfold readerEntry
      split
      · next c need d entries hr => exact absurd ⟨c, need, d, entries, hr⟩ hdel
      · rfl
    rw [hnone]
    rcases readerStep_writing hstep with ⟨h, -⟩ | ⟨h, -⟩ | h | ⟨h, -⟩
    · exact recorded_same h
    · exact recorded_same h
    · obtain ⟨c, need, d, entries, -, -, hr, -⟩ := h
      exact absurd ⟨c, need, d, entries, hr⟩ hdel
    · exact recorded_same h

theorem logoutStep_record (s : State) (env : Env) (c : PClientInfo)
    (stage : LogoutStage) (todo : List PClientInfo) :
    Recorded (writerEntry (.logout c stage todo)) s.shared
      (logoutStep s env c todo stage).shared := by
  cases stage with
  | remove =>
      refine recorded_same ?_
      show (s.shared.removeClient c).writing = _
      rw [Shared.removeClient]
      split <;> rfl
  | build =>
      rw [logoutStep]
      split <;> exact recorded_same rfl
  | snapshot msg => exact recorded_same rfl
  | deliver d =>
      rw [logoutStep]
      cases hd : deliverStep s.shared env d with
      | none =>
          rw [writerEntry, receiver_none hd]
          exact recorded_same rfl
      | some r => exact recorded_deliver hd _
  | close sent => exact recorded_same rfl
  | release sent => exact recorded_shrinks rfl (Or.inr (Or.inl rfl))
  | signal sent => exact recorded_same (signalFlush_flag s sent).2.2.2

theorem writerStep_record {s s' : State} {env : Env}
    (hstep : writerStep s env = some s') :
    Recorded (writerEntry s.writer) s.shared s'.shared := by
  cases writerStep_move hstep with
  | goes hgo =>
      rw [(writerGoes_quiet hgo).1]
      exact recorded_same rfl
  | flush hw =>
      rw [hw]
      exact recorded_shrinks rfl (Or.inr (Or.inr ⟨_, rfl⟩))
  | @logout c stage todo hw =>
      rw [hw]
      exact logoutStep_record s env c stage todo
  | flagSet hw | waits hw | wakes hw =>
      rw [hw]
      exact recorded_same rfl

theorem listenerStep_record {s s' : State} {env : Env}
    (hstep : listenerStep s env = some s') :
    Recorded none s.shared s'.shared := by
  cases listenerStep_move hstep with
  | creates | givesUp => exact recorded_shrinks rfl (Or.inr (Or.inl rfl))
  | _ => exact recorded_same rfl

/-- **THE RECORD IS EXACT**: a step appends an entry for a client exactly when it
    appends a chunk to the client's writing buffer. -/
theorem log_exact {g g' : Logged} {a : Thread × Env}
    (hstep : loggedSystem.step g a = some g') (y : PClientInfo) :
    (∃ e chunk, g'.log y = g.log y ++ [e]
        ∧ g'.state.shared.writing y = g.state.shared.writing y ++ [chunk])
      ∨ (g'.log y = g.log y
        ∧ Shrinks (g.state.shared.writing y) (g'.state.shared.writing y)) := by
  obtain ⟨s', hs, rfl⟩ := Option.map_eq_some_iff.mp hstep
  have hrecorded : Recorded (entryOf g a.1) g.state.shared s'.shared := by
    obtain ⟨thread, env⟩ := a
    cases thread with
    | listener => exact listenerStep_record hs
    | reader => exact readerStep_record hs g.lines
    | writer => exact writerStep_record hs
  show (∃ e chunk, record g.log (entryOf g a.1) y = g.log y ++ [e] ∧ _)
    ∨ (record g.log (entryOf g a.1) y = g.log y ∧ _)
  rcases hrecorded y with ⟨e, chunk, he, hw⟩ | ⟨hno, hw⟩
  · refine Or.inl ⟨e, chunk, ?_, hw⟩
    rw [he, record, Function.update_self]
  · refine Or.inr ⟨?_, hw⟩
    cases he : entryOf g a.1 with
    | none => rfl
    | some r =>
        obtain ⟨c, e⟩ := r
        have hne : y ≠ c := fun h => hno e (by rw [he, h])
        rw [record, Function.update_of_ne hne]

/-- **CAUSAL ORDER**: in every interleaving, in what has been appended to the
    writing buffer of a client, the messages of each connection stand in the order
    of its lines, its logout notice stands behind them, and nothing of it stands
    behind the notice. -/
theorem causal_order {g : Logged} (h : Reachable loggedSystem g)
    (y : PClientInfo) : (g.log y).Pairwise InOrder :=
  (reachable_inv loggedSystem (fun _ => logInv_start)
    (fun _ _ _ hg hstep => logInv_step hg hstep) h).ordered y

/-- The program before any connection, with nothing recorded. -/
def freshLogged : Logged := ⟨freshProgram, fun _ => [], fun _ => []⟩

/-- The second of two clients logs in and hangs up; the reading thread marks it,
    and the writing thread logs it out. -/
def loginThenLogout : List (Thread × Env) :=
  loginAnnounced ++ List.replicate 6 (.reader, quiet)
    ++ [(.reader, { quiet with
      pollRet := 1, revents := fun c => if c = 2 then 16 else 0 })]
    ++ List.replicate 4 (.reader, quiet) ++ List.replicate 14 (.writer, quiet)

theorem causal_order_loginThenLogout : ∃ g,
    runFrom loggedSystem freshLogged loginThenLogout = some g
      ∧ g.log 1 = [.line 2 1, .notice 2] ∧ (g.log 1).Pairwise InOrder := by
  have hrun : ((runFrom loggedSystem freshLogged loginThenLogout).any fun g =>
      decide (g.log 1 = [.line 2 1, .notice 2])) = true := by decide +kernel
  obtain ⟨g, hg, hlog⟩ := (Option.any_eq_true _ _).mp hrun
  have hstart : loggedSystem.start freshLogged :=
    ⟨freshProgram_start, fun _ => rfl, fun _ => rfl⟩
  exact ⟨g, hg, of_decide_eq_true hlog, causal_order
    (runFrom_reachable loggedSystem loginThenLogout (.start hstart) hg) 1⟩

end IMCausalOrder

import IMServer.ClientList

/-! # The start of the threads — `handle_listen`

    The listening thread creates the other two behind the first client.  Until
    then they are idle, so `pthread_create` starts a thread at the top of its
    function, and from then on nobody else moves it. -/

namespace IMSpawning

open IMClientInfo IMServerInfo IMThreads IMThreadMoves IMTransition IMClientList

/-- The threads that have not been created take no step. -/
def Unspawned : Listener → Prop
  | .accept spawned => spawned = false
  | .create spawned _ => spawned = false
  | .addNode spawned _ => spawned = false
  | .spawnReader => True
  | .spawnWriter => True
  | _ => False

/-- The writing thread leaves the others where they are. -/
theorem logoutStep_others (s : State) (env : Env) (c : PClientInfo)
    (todo : List PClientInfo) (stage : LogoutStage) :
    (logoutStep s env c todo stage).reader = s.reader
      ∧ (logoutStep s env c todo stage).listener = s.listener := by
  cases stage with
  | remove | snapshot | close | release => exact ⟨rfl, rfl⟩
  | build =>
      rw [logoutStep]
      split <;> exact ⟨rfl, rfl⟩
  | deliver d =>
      rw [logoutStep]
      cases deliverStep s.shared env d with
      | none => exact ⟨rfl, rfl⟩
      | some r => exact ⟨rfl, rfl⟩
  | signal sentCount =>
      obtain ⟨-, -, -, hreader, -, hlistener⟩ := signalFlush_list s sentCount
      exact ⟨hreader, hlistener⟩

theorem writerStep_others {s s' : State} {env : Env}
    (h : writerStep s env = some s') :
    s'.reader = s.reader ∧ s'.listener = s.listener := by
  cases writerStep_move h with
  | logout hw => exact logoutStep_others ..
  | goes | flush | flagSet | waits | wakes => exact ⟨rfl, rfl⟩

theorem idle_of_unspawned {s : State} (h : Reachable threadSystem s) :
    Unspawned s.listener → s.writer = .idle
      ∧ (s.listener ≠ .spawnWriter → s.reader = .idle) := by
  refine reachable_inv threadSystem
    (I := fun s => Unspawned s.listener → s.writer = .idle
      ∧ (s.listener ≠ .spawnWriter → s.reader = .idle)) ?_ ?_ h
  · intro s hs _
    obtain ⟨-, -, -, -, -, -, hreader, hwriter, -⟩ := hs
    exact ⟨hwriter, fun _ => hreader⟩
  · rintro s ⟨thread, env⟩ s' ih hstep
    cases thread with
    | reader =>
        have hf := readerStep_frame hstep
        rw [hf.listener, hf.writer]
        intro hun
        obtain ⟨hwriter, hreader⟩ := ih hun
        refine ⟨hwriter, fun hl => ?_⟩
        have hnone : readerStep s env = none := by rw [readerStep, hreader hl]
        exact absurd ((show readerStep s env = some s' from hstep).symm.trans hnone)
          (Option.some_ne_none s')
    | writer =>
        intro hun
        rw [(writerStep_others hstep).2] at hun
        have hnone : writerStep s env = none := by rw [writerStep, (ih hun).1]
        exact absurd ((show writerStep s env = some s' from hstep).symm.trans hnone)
          (Option.some_ne_none s')
    | listener =>
        -- where the listening thread stands next, nothing has been created
        -- either, and it does not stand before the second thread
        have hmoves : Unspawned s.listener → s.listener ≠ .spawnWriter →
            s'.writer = s.writer → s'.reader = s.reader →
            s'.writer = .idle ∧ (s'.listener ≠ .spawnWriter → s'.reader = .idle) :=
          fun hun hl hwriter hreader =>
            ⟨hwriter.trans (ih hun).1, fun _ => hreader.trans ((ih hun).2 hl)⟩
        intro hun
        cases listenerStep_move hstep with
        | refused hl hid => exact ih hun
        | accepts hl hid hfresh | noClient hl hok | creates hl hok hfresh
        | givesUp hl hok =>
            exact hmoves (hl ▸ hun) (by rw [hl]; exact fun e => (by cases e)) rfl rfl
        | @adds spawned c hl hok =>
            cases spawned with
            | true => cases (show true = false from hun)
            | false =>
                exact hmoves (hl ▸ rfl) (by rw [hl]; exact fun e => (by cases e)) rfl rfl
        | spawnsReader hl hok =>
            exact ⟨(ih (hl ▸ trivial)).1, fun hne => absurd rfl hne⟩
        | spawnsWriter hl hok => cases hun
        | noThread hl hok => exact hun.elim
        | stops hl => exact hun.elim

/-- The other threads leave the writing thread where it is, or start it. -/
theorem other_writer {s s' : State} {a : Thread × Env}
    (hs : Reachable threadSystem s) (ha : a.1 ≠ .writer)
    (hstep : threadSystem.step s a = some s') :
    s'.writer = s.writer ∨ (s.writer = .idle ∧ s'.writer = .top) := by
  obtain ⟨thread, env⟩ := a
  cases thread with
  | writer => exact absurd rfl ha
  | reader => exact Or.inl (readerStep_frame hstep).writer
  | listener =>
      cases listenerStep_move hstep with
      | spawnsWriter hl hok =>
          exact Or.inr ⟨(idle_of_unspawned hs (hl ▸ trivial)).1, rfl⟩
      | refused | accepts | noClient | creates | adds | givesUp | spawnsReader
      | noThread | stops => exact Or.inl rfl

/-- The other threads leave the reading thread where it is, or start it. -/
theorem other_reader {s s' : State} {a : Thread × Env}
    (hs : Reachable threadSystem s) (ha : a.1 ≠ .reader)
    (hstep : threadSystem.step s a = some s') :
    s'.reader = s.reader ∨ s.reader = .idle := by
  obtain ⟨thread, env⟩ := a
  cases thread with
  | reader => exact absurd rfl ha
  | writer => exact Or.inl (writerStep_others hstep).1
  | listener =>
      cases listenerStep_move hstep with
      | spawnsReader hl hok =>
          exact Or.inr ((idle_of_unspawned hs (hl ▸ trivial)).2
            (by rw [hl]; exact fun e => (by cases e)))
      | refused | accepts | noClient | creates | adds | givesUp | spawnsWriter
      | noThread | stops => exact Or.inl rfl

end IMSpawning

import IMServer.Threads

/-! # What one step of a thread can do

    The step functions as relations, with one case for each transition and its
    condition.  Most steps only move on in the thread's own program
    (`WriterGoes`, `ReaderGoes`); the others are named after what they do to the
    data.  The invariants of the three threads are proved case by case from
    here. -/

namespace IMThreadMoves

open IMClientInfo IMServerInfo IMThreads

/-! ## `write_sockets` -/

/-- The steps that change nothing but where the writing thread stands. -/
inductive WriterGoes (env : Env) (s : Shared) : Writer → Writer → Prop where
  | snapshot (h : env.mallocOk = true) :
      WriterGoes env s .top (.flush s.getClientList s.getClientList false)
  | ends (h : env.mallocOk = false) : WriterGoes env s .top .exited
  | flushed (all : List PClientInfo) (pubChecked : Bool) :
      WriterGoes env s (.flush [] all pubChecked) (.logoutScan all)
  | skips (c : PClientInfo) (todo all : List PClientInfo)
      (h : (s.info c).pub = fail) :
      WriterGoes env s (.flush (c :: todo) all false) (.flush todo all false)
  | checksPub (c : PClientInfo) (todo all : List PClientInfo)
      (h : (s.info c).pub ≠ fail) :
      WriterGoes env s (.flush (c :: todo) all false) (.flush (c :: todo) all true)
  | scanned : WriterGoes env s (.logoutScan []) .check
  | marked (c : PClientInfo) (todo : List PClientInfo)
      (h : (s.info c).pub = fail) :
      WriterGoes env s (.logoutScan (c :: todo)) (.logout c .remove todo)
  | passes (c : PClientInfo) (todo : List PClientInfo)
      (h : (s.info c).pub ≠ fail) :
      WriterGoes env s (.logoutScan (c :: todo)) (.logoutScan todo)
  | again (h : s.isRunning = true) : WriterGoes env s .loopEnd .top
  | stops (h : s.isRunning = false) : WriterGoes env s .loopEnd .exited

/-- The steps of the writing thread. -/
inductive WriterMove (env : Env) (s : State) : State → Prop where
  | goes {w : Writer} (h : WriterGoes env s.shared s.writer w) :
      WriterMove env s { s with writer := w }
  | flush {c : PClientInfo} {todo all : List PClientInfo}
      (h : s.writer = .flush (c :: todo) all true) :
      WriterMove env s { s with
        shared := s.shared.flushMessages c env.taken
        writer := .flush todo all false }
  | logout {c : PClientInfo} {stage : LogoutStage} {todo : List PClientInfo}
      (h : s.writer = .logout c stage todo) :
      WriterMove env s (logoutStep s env c todo stage)
  | flagSet (h : s.writer = .check) (hsign : s.shared.signToFlushMsg ≠ 0) :
      WriterMove env s { s with
        writer := .loopEnd, foundSet := true, increased := false }
  | waits (h : s.writer = .check) (hsign : s.shared.signToFlushMsg = 0) :
      WriterMove env s { s with
        writer := .waiting, foundSet := false, increased := false }
  | wakes (h : s.writer = .waiting) :
      WriterMove env s { s with
        shared := { s.shared with signToFlushMsg := 0 }, writer := .loopEnd }

theorem writerStep_move {s s' : State} {env : Env}
    (h : writerStep s env = some s') : WriterMove env s s' := by
  have hgoes : ∀ {w : Writer}, some { s with writer := w } = some s' →
      WriterGoes env s.shared s.writer w → WriterMove env s s' :=
    fun heq hgo => Option.some.inj heq ▸ .goes hgo
  cases hw : s.writer with
  | idle | exited =>
      simp only [writerStep, hw] at h
      cases h
  | top =>
      simp only [writerStep, hw] at h
      split at h
      · next hok => exact hgoes h (hw ▸ .snapshot hok)
      · next hok => exact hgoes h (hw ▸ .ends (Bool.eq_false_iff.mpr hok))
  | flush todo all pubChecked =>
      cases todo with
      | nil =>
          simp only [writerStep, hw] at h
          exact hgoes h (hw ▸ .flushed all pubChecked)
      | cons c todo =>
          cases pubChecked with
          | false =>
              simp only [writerStep, hw] at h
              split at h
              · next hfail => exact hgoes h (hw ▸ .skips c todo all hfail)
              · next hfail => exact hgoes h (hw ▸ .checksPub c todo all hfail)
          | true =>
              simp only [writerStep, hw] at h
              exact Option.some.inj h ▸ .flush hw
  | logoutScan todo =>
      cases todo with
      | nil =>
          simp only [writerStep, hw] at h
          exact hgoes h (hw ▸ .scanned)
      | cons c todo =>
          simp only [writerStep, hw] at h
          split at h
          · next hfail => exact hgoes h (hw ▸ .marked c todo hfail)
          · next hfail => exact hgoes h (hw ▸ .passes c todo hfail)
  | logout c stage todo =>
      simp only [writerStep, hw] at h
      exact Option.some.inj h ▸ .logout hw
  | check =>
      simp only [writerStep, hw] at h
      split at h
      · next hsign => exact Option.some.inj h ▸ .flagSet hw hsign
      · next hsign =>
          split at h
          · exact Option.some.inj h ▸ .waits hw (not_not.mp hsign)
          · cases h
  | waiting =>
      simp only [writerStep, hw] at h
      exact Option.some.inj h ▸ .wakes hw
  | loopEnd =>
      simp only [writerStep, hw] at h
      split at h
      · next hrun => exact hgoes h (hw ▸ .again hrun)
      · next hrun => exact hgoes h (hw ▸ .stops (Bool.eq_false_iff.mpr hrun))

/-! ## `read_sockets` -/

/-- The steps that change nothing but where the reading thread stands. -/
inductive ReaderGoes (env : Env) (s : Shared) : Reader → Reader → Prop where
  | snapshot (h : env.mallocOk = true) :
      ReaderGoes env s .top (.debugLog s.getPollingAndClientList.entries
        s.getPollingAndClientList.entries)
  | ends (h : env.mallocOk = false) : ReaderGoes env s .top .exited
  | logged (all : List PollEntry) : ReaderGoes env s (.debugLog [] all) (.poll all)
  | logs (e : PollEntry) (entries all : List PollEntry) :
      ReaderGoes env s (.debugLog (e :: entries) all) (.debugLog entries all)
  | pollFails (all : List PollEntry) (h : env.pollRet = -1 ∨ env.pollRet = 0) :
      ReaderGoes env s (.poll all) .loopEnd
  | polls (all : List PollEntry) (h : ¬ (env.pollRet = -1 ∨ env.pollRet = 0)) :
      ReaderGoes env s (.poll all) (.scan (all.map (setRevents env)))
  | scanned : ReaderGoes env s (.scan []) .loopEnd
  | passes (e : PollEntry) (entries : List PollEntry)
      (h : e.pollFd.fd = -1 ∨ e.pollFd.fd ≠ (s.info e.client).socketId
        ∨ e.pollFd.revents = 0) :
      ReaderGoes env s (.scan (e :: entries)) (.scan entries)
  | reads (e : PollEntry) (entries : List PollEntry) (hfd : e.pollFd.fd ≠ -1)
      (hin : e.pollFd.revents &&& pollIn ≠ 0) :
      ReaderGoes env s (.scan (e :: entries)) (.fetch e.client entries)
  | breaks (e : PollEntry) (entries : List PollEntry) (hfd : e.pollFd.fd ≠ -1)
      (hne : e.pollFd.revents ≠ 0) (hin : e.pollFd.revents &&& pollIn = 0) :
      ReaderGoes env s (.scan (e :: entries)) (.markFail e.client entries)
  | fetchFails (c : PClientInfo) (entries : List PollEntry)
      (h : env.fetchCount = 0) :
      ReaderGoes env s (.fetch c entries) (.markFail c entries)
  | again (h : s.isRunning = true) : ReaderGoes env s .loopEnd .top
  | stops (h : s.isRunning = false) : ReaderGoes env s .loopEnd .exited

/-- The steps of the reading thread. -/
inductive ReaderMove (env : Env) (s : State) : State → Prop where
  | goes {r : Reader} (h : ReaderGoes env s.shared s.reader r) :
      ReaderMove env s { s with reader := r }
  | calls {c : PClientInfo} {entries : List PollEntry}
      (h : s.reader = .fetch c entries) (hcount : env.fetchCount ≠ 0) :
      ReaderMove env s { s with
        reader := .handle c 0 .fetchMsg entries, calls := s.calls + 1 }
  | handle {c : PClientInfo} {need : Nat} {stage : HandleStage}
      {entries : List PollEntry} (h : s.reader = .handle c need stage entries) :
      ReaderMove env s (handleStep s env c need entries stage)
  | marks {c : PClientInfo} {entries : List PollEntry}
      (h : s.reader = .markFail c entries) :
      ReaderMove env s { s with
        shared := s.shared.markFail c, reader := .scan entries }

theorem scanEntry_goes (env : Env) (s : Shared) (e : PollEntry)
    (entries : List PollEntry) :
    ReaderGoes env s (.scan (e :: entries)) (scanEntry s e entries) := by
  rw [scanEntry]
  by_cases h1 : e.pollFd.fd = -1
  · rw [if_pos h1]
    exact .passes e entries (Or.inl h1)
  rw [if_neg h1]
  by_cases h2 : e.pollFd.fd ≠ (s.info e.client).socketId
  · rw [if_pos h2]
    exact .passes e entries (Or.inr (Or.inl h2))
  rw [if_neg h2]
  by_cases h3 : e.pollFd.revents = 0
  · rw [if_pos h3]
    exact .passes e entries (Or.inr (Or.inr h3))
  rw [if_neg h3]
  by_cases h4 : e.pollFd.revents &&& pollIn ≠ 0
  · rw [if_pos h4]
    exact .reads e entries h1 h4
  · rw [if_neg h4]
    exact .breaks e entries h1 h3 (not_not.mp h4)

theorem readerStep_move {s s' : State} {env : Env}
    (h : readerStep s env = some s') : ReaderMove env s s' := by
  have hgoes : ∀ {r : Reader}, some { s with reader := r } = some s' →
      ReaderGoes env s.shared s.reader r → ReaderMove env s s' :=
    fun heq hgo => Option.some.inj heq ▸ .goes hgo
  cases hr : s.reader with
  | idle | exited =>
      simp only [readerStep, hr] at h
      cases h
  | top =>
      simp only [readerStep, hr] at h
      split at h
      · next hok => exact hgoes h (hr ▸ .snapshot hok)
      · next hok => exact hgoes h (hr ▸ .ends (Bool.eq_false_iff.mpr hok))
  | debugLog entries all =>
      cases entries with
      | nil =>
          simp only [readerStep, hr] at h
          exact hgoes h (hr ▸ .logged all)
      | cons e entries =>
          simp only [readerStep, hr] at h
          exact hgoes h (hr ▸ .logs e entries all)
  | poll all =>
      simp only [readerStep, hr] at h
      split at h
      · next hret => exact hgoes h (hr ▸ .pollFails all hret)
      · next hret => exact hgoes h (hr ▸ .polls all hret)
  | scan entries =>
      cases entries with
      | nil =>
          simp only [readerStep, hr] at h
          exact hgoes h (hr ▸ .scanned)
      | cons e entries =>
          simp only [readerStep, hr] at h
          exact hgoes h (hr ▸ scanEntry_goes env s.shared e entries)
  | fetch c entries =>
      simp only [readerStep, hr] at h
      split at h
      · next hcount => exact Option.some.inj h ▸ .calls hr hcount
      · next hcount => exact hgoes h (hr ▸ .fetchFails c entries (not_not.mp hcount))
  | handle c need stage entries =>
      simp only [readerStep, hr] at h
      exact Option.some.inj h ▸ .handle hr
  | markFail c entries =>
      simp only [readerStep, hr] at h
      exact Option.some.inj h ▸ .marks hr
  | loopEnd =>
      simp only [readerStep, hr] at h
      split at h
      · next hrun => exact hgoes h (hr ▸ .again hrun)
      · next hrun => exact hgoes h (hr ▸ .stops (Bool.eq_false_iff.mpr hrun))

/-! ## `handle_listen` -/

/-- The steps of the listening thread. -/
inductive ListenerMove (env : Env) (s : State) : State → Prop where
  | refused {spawned : Bool} (h : s.listener = .accept spawned)
      (hid : env.clientId < 0) : ListenerMove env s s
  | accepts {spawned : Bool} (h : s.listener = .accept spawned)
      (hid : ¬ env.clientId < 0) (hfresh : env.clientId ∉ s.shared.openFds) :
      ListenerMove env s { s with
        shared := { s.shared with openFds := env.clientId :: s.shared.openFds }
        listener := .create spawned env.clientId }
  | noClient {spawned : Bool} {clientId : Int}
      (h : s.listener = .create spawned clientId) (hok : env.mallocOk = false) :
      ListenerMove env s { s with listener := .accept spawned }
  | creates {spawned : Bool} {clientId : Int}
      (h : s.listener = .create spawned clientId) (hok : env.mallocOk = true)
      (hfresh : env.block ∉ s.shared.created) :
      ListenerMove env s { s with
        shared := s.shared.newClientInfo env.block clientId
        listener := .addNode spawned env.block }
  | adds {spawned : Bool} {c : PClientInfo} (h : s.listener = .addNode spawned c)
      (hok : env.mallocOk = true) :
      ListenerMove env s { s with
        shared := s.shared.addClient c
        listener := if spawned then .accept true else .spawnReader }
  | givesUp {spawned : Bool} {c : PClientInfo}
      (h : s.listener = .addNode spawned c) (hok : env.mallocOk = false) :
      ListenerMove env s { s with
        shared := s.shared.releaseClientInfo c, listener := .accept spawned }
  | spawnsReader (h : s.listener = .spawnReader) (hok : env.threadOk = true) :
      ListenerMove env s { s with reader := .top, listener := .spawnWriter }
  | spawnsWriter (h : s.listener = .spawnWriter) (hok : env.threadOk = true) :
      ListenerMove env s { s with writer := .top, listener := .accept true }
  | noThread (h : s.listener = .spawnReader ∨ s.listener = .spawnWriter)
      (hok : env.threadOk = false) :
      ListenerMove env s { s with listener := .stop }
  | stops (h : s.listener = .stop) :
      ListenerMove env s { s with
        shared := { s.shared with isRunning := false }, listener := .exited }

theorem listenerStep_move {s s' : State} {env : Env}
    (h : listenerStep s env = some s') : ListenerMove env s s' := by
  cases hl : s.listener with
  | exited =>
      simp only [listenerStep, hl] at h
      cases h
  | accept spawned =>
      simp only [listenerStep, hl] at h
      split at h
      · next hid => exact Option.some.inj h ▸ .refused hl hid
      · next hid =>
          split at h
          · cases h
          · next hfresh => exact Option.some.inj h ▸ .accepts hl hid hfresh
  | create spawned clientId =>
      simp only [listenerStep, hl] at h
      split at h
      · next hok => exact Option.some.inj h ▸ .noClient hl hok
      · next hok =>
          split at h
          · cases h
          · next hfresh =>
              exact Option.some.inj h ▸ .creates hl (Bool.not_eq_false _ ▸ hok) hfresh
  | addNode spawned c =>
      simp only [listenerStep, hl] at h
      split at h
      · next hok => exact Option.some.inj h ▸ .adds hl hok
      · next hok =>
          exact Option.some.inj h ▸ .givesUp hl (Bool.eq_false_iff.mpr hok)
  | spawnReader =>
      simp only [listenerStep, hl] at h
      split at h
      · next hok => exact Option.some.inj h ▸ .spawnsReader hl hok
      · next hok =>
          exact Option.some.inj h ▸ .noThread (Or.inl hl) (Bool.eq_false_iff.mpr hok)
  | spawnWriter =>
      simp only [listenerStep, hl] at h
      split at h
      · next hok => exact Option.some.inj h ▸ .spawnsWriter hl hok
      · next hok =>
          exact Option.some.inj h ▸ .noThread (Or.inr hl) (Bool.eq_false_iff.mpr hok)
  | stop =>
      simp only [listenerStep, hl] at h
      exact Option.some.inj h ▸ .stops hl

end IMThreadMoves

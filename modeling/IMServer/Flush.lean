import IMServer.Release

/-! # The flush flag

    Two questions about `sign_to_flush_msg`.  Is it consumed: does the writing
    thread find it set only when it was incremented since its last check?  It is
    not, because only a wait resets it; `flag_consumed_iff` says when.  And does
    it lose a flush: can the writing thread go to wait while a finished call left
    bytes in a writing buffer?  It cannot while the increments show
    (`no_lost_flush`); but the flag is an `int` that nothing resets once it was
    found set, and `2 ^ 32` increments take it back to 0 (`flush_lost`). -/

namespace IMFlush

open IMCachePool IMCString IMMachineInt IMClientInfo IMMessage IMServerInfo
  IMThreads IMThreadMoves IMClientList IMRelease IMTransition

/-! ## Whether the flag is consumed -/

/-- The next step of the thread is the check of the flag. -/
def checksFlag (s : State) : Thread → Bool
  | .writer => match s.writer with
    | .check => true
    | _ => false
  | _ => false

/-- When the writing thread finds the flag set, it was incremented since the last
    check; when it waits, the deadline is a valid time. -/
def FlagConsumed (s : State) (a : Thread × Env) : Prop :=
  checksFlag s a.1 = true →
    (s.shared.signToFlushMsg ≠ 0 → s.increased = true)
      ∧ (s.shared.signToFlushMsg = 0 → waitTimeNsec a.2.tvUsec < 10 ^ 9)

/-- A check that follows one that found the flag set comes after an increment,
    and a wait does not start in the last tenth of a second. -/
def FlagWasReset (s : State) (a : Thread × Env) : Prop :=
  checksFlag s a.1 = true →
    (s.foundSet = true → s.increased = true)
      ∧ (s.shared.signToFlushMsg = 0 → a.2.tvUsec < 900000)

instance (s : State) (a : Thread × Env) : Decidable (FlagWasReset s a) :=
  inferInstanceAs (Decidable (_ → _ ∧ _))

/-- **THE FLAG INVARIANT**: only a wait resets the flag, so after a check that
    found it set it is set still, unless increments took it round to 0. -/
structure FlagInv (s : State) : Prop where
  stays : s.foundSet = true →
    (s.increased = false → s.shared.signToFlushMsg ≠ 0) ∧ s.writer ≠ .waiting
  since : s.foundSet = false → s.shared.signToFlushMsg ≠ 0 → s.increased = true

/-- A step that increments the flag or leaves it. -/
theorem FlagInv.kept {s s' : State} (h : FlagInv s) (hflag : FlagKept s s')
    (hfound : s'.foundSet = s.foundSet)
    (hwait : s'.writer = .waiting → s.writer = .waiting) : FlagInv s' := by
  rcases hflag with ⟨hsign, hinc⟩ | ⟨-, hinc⟩
  · exact {
      stays := by
        rw [hfound, hsign, hinc]
        exact fun hf => ⟨(h.stays hf).1, fun hw => (h.stays hf).2 (hwait hw)⟩
      since := by
        rw [hfound, hsign, hinc]
        exact h.since }
  · exact {
      stays := by
        rw [hfound, hinc]
        exact fun hf => ⟨fun hno => (by cases hno),
          fun hw => (h.stays hf).2 (hwait hw)⟩
      since := fun _ _ => hinc }

theorem logoutStep_flag (s : State) (env : Env) (c : PClientInfo)
    (stage : LogoutStage) (todo : List PClientInfo) :
    FlagKept s (logoutStep s env c todo stage)
      ∧ (logoutStep s env c todo stage).foundSet = s.foundSet
      ∧ (logoutStep s env c todo stage).writer ≠ .waiting := by
  cases stage with
  | remove =>
      refine ⟨Or.inl ⟨?_, rfl⟩, rfl, fun e => by cases e⟩
      show (s.shared.removeClient c).signToFlushMsg = _
      rw [Shared.removeClient]
      split <;> rfl
  | build =>
      rw [logoutStep]
      split <;> exact ⟨Or.inl ⟨rfl, rfl⟩, rfl, fun e => by cases e⟩
  | deliver d =>
      rw [logoutStep]
      cases hd : deliverStep s.shared env d with
      | none => exact ⟨Or.inl ⟨rfl, rfl⟩, rfl, fun e => by cases e⟩
      | some r =>
          exact ⟨Or.inl ⟨(deliverStep_info hd).2.2, rfl⟩, rfl,
            fun e => by cases e⟩
  | snapshot msg | close sent | release sent =>
      exact ⟨Or.inl ⟨rfl, rfl⟩, rfl, fun e => by cases e⟩
  | signal sent =>
      obtain ⟨h1, h2, -⟩ := signalFlush_flag s sent
      exact ⟨h1, h2, fun e => by cases e⟩

/-- What a step of the writing thread does to the flag. -/
theorem writerStep_flag {s s' : State} {env : Env}
    (h : writerStep s env = some s') :
    (FlagKept s s' ∧ s'.foundSet = s.foundSet ∧ s'.writer ≠ .waiting)
    ∨ (s.writer = .check ∧ s.shared.signToFlushMsg ≠ 0
      ∧ s' = { s with writer := .loopEnd, foundSet := true, increased := false })
    ∨ (s.writer = .check ∧ s.shared.signToFlushMsg = 0
      ∧ s' = { s with
        writer := .waiting, foundSet := false, increased := false })
    ∨ (s.writer = .waiting ∧ s' = { s with
      shared := { s.shared with signToFlushMsg := 0 }, writer := .loopEnd }) := by
  cases writerStep_move h with
  | @goes w hgo =>
      refine Or.inl ⟨Or.inl ⟨rfl, rfl⟩, rfl, ?_⟩
      show w ≠ .waiting
      generalize s.writer = w₀ at hgo
      cases hgo <;> exact fun e => by cases e
  | flush => exact Or.inl ⟨Or.inl ⟨rfl, rfl⟩, rfl, fun e => by cases e⟩
  | @logout c stage todo => exact Or.inl (logoutStep_flag s env c stage todo)
  | flagSet hw hsign => exact Or.inr (Or.inl ⟨hw, hsign, rfl⟩)
  | waits hw hsign => exact Or.inr (Or.inr (Or.inl ⟨hw, hsign, rfl⟩))
  | wakes hw => exact Or.inr (Or.inr (Or.inr ⟨hw, rfl⟩))

/-- The listening thread leaves the flag and the records of it alone. -/
theorem listenerStep_flag {s s' : State} {env : Env}
    (h : listenerStep s env = some s') :
    s'.shared.signToFlushMsg = s.shared.signToFlushMsg
      ∧ s'.increased = s.increased ∧ s'.foundSet = s.foundSet
      ∧ (s'.writer = s.writer ∨ s'.writer = .top) := by
  cases listenerStep_move h with
  | spawnsWriter => exact ⟨rfl, rfl, rfl, Or.inr rfl⟩
  | _ => exact ⟨rfl, rfl, rfl, Or.inl rfl⟩

theorem flagInv_start {s : State} (h : threadSystem.start s) : FlagInv s := by
  obtain ⟨-, -, hsign, -, -, -, -, -, -, -, hfound, -⟩ := h
  refine ⟨?_, fun _ hne => absurd hsign hne⟩
  rw [hfound]
  exact fun hf => by cases hf

/-- The step lemma. -/
theorem flagInv_step {s s' : State} {a : Thread × Env} (h : FlagInv s)
    (hstep : threadSystem.step s a = some s') : FlagInv s' := by
  obtain ⟨thread, env⟩ := a
  cases thread with
  | listener =>
      obtain ⟨h1, h2, h3, h4⟩ := listenerStep_flag hstep
      refine h.kept (Or.inl ⟨h1, h2⟩) h3 ?_
      rcases h4 with hw | hw
      · rw [hw]
        exact id
      · rw [hw]
        exact fun e => by cases e
  | reader =>
      have hf := readerStep_frame hstep
      exact h.kept hf.flag hf.foundSet (by rw [hf.writer]; exact id)
  | writer =>
      rcases writerStep_flag hstep with ⟨h1, h2, h3⟩ | ⟨-, hsign, rfl⟩
        | ⟨-, hsign, rfl⟩ | ⟨hw, rfl⟩
      · exact h.kept h1 h2 (fun e => absurd e h3)
      · exact ⟨fun _ => ⟨fun _ => hsign, fun e => by cases e⟩,
          fun hf => by cases hf⟩
      · exact ⟨fun hf => (by cases hf), fun _ hne => absurd hsign hne⟩
      · exact ⟨fun hf => absurd hw (h.stays hf).2, fun _ hne => absurd rfl hne⟩

/-- **THE FLAG IS CONSUMED, EXACTLY**: along a run every check that finds the flag
    set follows an increment since the check before, and every deadline is valid,
    if and only if no check follows one that found the flag set without an
    increment between, and no wait starts in the last tenth of a second. -/
theorem flag_consumed_iff {s : State} (h : threadSystem.start s)
    (es : List (Thread × Env)) :
    Along threadSystem FlagConsumed s es
      ↔ Along threadSystem FlagWasReset s es := by
  refine along_congr threadSystem (I := FlagInv) (K := fun _ _ => True)
    (fun _ _ _ hI _ hstep => flagInv_step hI hstep) ?_ es s (flagInv_start h)
    (along_of_mem threadSystem es s (fun _ _ => trivial))
  intro s a hI _
  refine forall_congr' fun _ => and_congr ?_ ?_
  · constructor
    · intro hp hf
      cases hinc : s.increased with
      | true => rfl
      | false => exact hinc ▸ hp ((hI.stays hf).1 hinc)
    · intro hq hne
      cases hf : s.foundSet with
      | true => exact hq hf
      | false => exact hI.since hf hne
  · refine forall_congr' fun _ => ?_
    rw [waitTimeNsec]
    omega

/-- The writing thread goes through its loop while nothing happens. -/
def idlePasses : List (Thread × Env) :=
  clientAccepted 1 4 ++ threadsCreated ++ List.replicate 14 (.writer, quiet)

theorem flag_consumed_idlePasses :
    Along threadSystem FlagConsumed freshProgram idlePasses := by
  refine (flag_consumed_iff freshProgram_start _).mpr (along_of_checkRun _ ?_)
  decide +kernel

/-- The reading thread takes one line of the client at hand; the message it makes
    is walked past `n` tests. -/
def lineTaken (line : String) (n : Nat) : List (Thread × Env) :=
  [(.reader, quiet), (.reader, { quiet with fetchCount := 1 }),
    (.reader, { quiet with line := some (ascii line) })]
    ++ List.replicate (n + 5) (.reader, quiet)

/-- Two clients log in; the second login is announced to the first. -/
def loginAnnounced : List (Thread × Env) :=
  clientAccepted 1 4 ++ threadsCreated ++ clientAccepted 2 5
    ++ List.replicate 4 (.reader, quiet)
    ++ [(.reader, { quiet with pollRet := 2, revents := fun _ => pollIn })]
    ++ lineTaken "LOGIN: ann\n" 4 ++ lineTaken "LOGIN: bob\n" 5

/-- The flag was incremented once, and the second check finds it set again. -/
theorem flag_spins : ¬ Along threadSystem FlagConsumed freshProgram
    (loginAnnounced ++ List.replicate 20 (.writer, quiet)
      ++ [(.writer, quiet)]) := by
  intro h
  have hrun : ((runFrom threadSystem freshProgram (loginAnnounced
      ++ List.replicate 20 (.writer, quiet))).any fun s =>
        decide (checksFlag s .writer = true ∧ s.shared.signToFlushMsg ≠ 0
          ∧ s.increased = false)) = true := by
    decide +kernel
  obtain ⟨s, hs, hp⟩ := (Option.any_eq_true _ _).mp hrun
  obtain ⟨hcheck, hsign, hinc⟩ := of_decide_eq_true hp
  have htrue := ((((along_append threadSystem).mp h).2 s hs).1 hcheck).1 hsign
  rw [hinc] at htrue
  cases htrue

/-! ## Whether a flush is lost -/

/-- The client whose line the reading thread handles. -/
def handlingOf : Reader → Option PClientInfo
  | .handle c _ _ _ => some c
  | _ => none

/-- How many copies the call of `try_to_handle_msg` has queued so far. -/
def sentSoFar : Reader → Nat
  | .handle _ need (.deliver d) _ => need + d.sentCount
  | .handle _ need _ _ => need
  | _ => 0

/-- The bytes come from a call of `try_to_handle_msg` that has not executed its
    final block. -/
def InProgress (s : State) (o : Origin) : Prop :=
  ∃ c, handlingOf s.reader = some c ∧ o = .call c s.calls

/-- Before its next check, the writing thread flushes what `c` has now, or
    increments the flag. -/
def Ahead : Writer → PClientInfo → Prop
  | .flush todo _ _, c => c ∈ todo
  | .logoutScan _, _ => False
  | .logout _ .remove _, _ => False
  | .logout _ .build _, _ => False
  | .logout _ (.snapshot _) _, _ => False
  | .logout _ (.deliver d) _, _ => 0 < d.sentCount
  | .logout _ (.close sent) _, _ => 0 < sent
  | .logout _ (.release sent) _, _ => 0 < sent
  | .logout _ (.signal sent) _, _ => 0 < sent
  | .check, _ => False
  | _, _ => True

/-- The client the next step of a thread flushes. -/
def flushing (s : State) : Thread → List PClientInfo
  | .writer => match s.writer with
    | .flush (c :: _) _ true => [c]
    | _ => []
  | _ => []

/-- `write` does not fail: a flush takes all bytes. -/
def FlushesAll (s : State) (a : Thread × Env) : Prop :=
  ∀ c ∈ flushing s a.1,
    ((s.shared.writing c).map fun k => k.bytes.length).sum ≤ a.2.taken

instance (s : State) (a : Thread × Env) : Decidable (FlushesAll s a) :=
  inferInstanceAs (Decidable (∀ c ∈ flushing s a.1, _ ≤ a.2.taken))

/-- How many queued copies the next step of a thread counts in the flag. -/
def signalling (s : State) : Thread → Nat
  | .reader => match s.reader with
    | .handle _ need .signal _ => need
    | _ => 0
  | .writer => match s.writer with
    | .logout _ (.signal sent) _ => sent
    | _ => 0
  | .listener => 0

/-- Copies that are counted show in the flag: their number is no multiple of
    `2 ^ 32`, and the flag is not at `-1`, from where it comes round to 0. -/
def FlagShows (s : State) (a : Thread × Env) : Prop :=
  signalling s a.1 ≠ 0 →
    ¬ 2 ^ 32 ∣ signalling s a.1 ∧ s.shared.signToFlushMsg ≠ -1

instance (s : State) (a : Thread × Env) : Decidable (FlagShows s a) :=
  inferInstanceAs (Decidable (_ → _ ∧ _))

/-- When the writing thread goes to wait, the writing buffer of every listed
    client that is not marked is empty but for the call in progress. -/
def NothingUnflushed (s : State) (a : Thread × Env) : Prop :=
  checksFlag s a.1 = true → s.shared.signToFlushMsg = 0 →
    ∀ c ∈ s.shared.clients, (s.shared.info c).pub ≠ fail →
      ∀ k ∈ s.shared.writing c, InProgress s k.origin

/-- The reading thread has been created. -/
def readerSpawned : Listener → Bool
  | .accept spawned => spawned
  | .create spawned _ => spawned
  | .addNode spawned _ => spawned
  | .spawnReader => false
  | _ => true

/-- **THE FLUSH INVARIANT**: bytes of a finished call are flushed, or counted in
    the flag, before the writing thread can go to wait. -/
structure FlushInv (s : State) : Prop where
  list : ListInv s
  ranged : -2 ^ 31 ≤ s.shared.signToFlushMsg ∧ s.shared.signToFlushMsg < 2 ^ 31
  spawned : readerSpawned s.listener = false → s.reader = .idle
  fresh : ∀ c ∈ addingOf s.listener, s.shared.writing c = []
  known : ∀ c, c ∈ readerPending s.reader ∨ c ∈ writerRest s.writer →
    c ∈ s.shared.created ∧ c ∉ addingOf s.listener
  origin : ∀ c need d entries, s.reader = .handle c need (.deliver d) entries →
    d.origin = .call c s.calls
  notice : ∀ c d todo, s.writer = .logout c (.deliver d) todo →
    d.origin = .logout c
  numbered : ∀ c, ∀ k ∈ s.shared.writing c, ∀ x n, k.origin = .call x n →
    n ≤ s.calls
  counted : ∀ c, ∀ k ∈ s.shared.writing c, InProgress s k.origin →
    0 < sentSoFar s.reader
  covered : ∀ c ∈ s.shared.clients, (s.shared.info c).pub ≠ fail →
    ∀ k ∈ s.shared.writing c, InProgress s k.origin
      ∨ s.shared.signToFlushMsg ≠ 0 ∨ Ahead s.writer c

theorem listed_known {s : State} (h : ListInv s) {c : PClientInfo}
    (hc : c ∈ s.shared.clients) :
    c ∈ s.shared.created ∧ c ∉ addingOf s.listener := by
  refine ⟨h.created c (List.mem_append_left _
    (List.mem_append_left _ hc)), fun hadd => ?_⟩
  have hnd := List.Nodup.of_map _
    ((List.sublist_append_left _ _).nodup h.distinct)
  exact (List.nodup_append.mp hnd).2.2 c (List.mem_append_left _ hc) c hadd rfl

theorem FlushInv.nothing {s : State} (h : FlushInv s) (a : Thread × Env) :
    NothingUnflushed s a := by
  intro hcheck hsign c hc hpub k hk
  rcases h.covered c hc hpub k hk with h1 | h2 | h3
  · exact h1
  · exact absurd hsign h2
  · obtain ⟨thread, env⟩ := a
    cases thread with
    | listener | reader => cases hcheck
    | writer =>
        rw [checksFlag] at hcheck
        split at hcheck
        · next hw =>
            rw [hw] at h3
            exact h3.elim
        · cases hcheck

/-- The flag is an `int` after a step that leaves or increments it. -/
theorem FlushInv.ranged_kept {s s' : State} (h : FlushInv s)
    (hflag : FlagKept s s') : -2 ^ 31 ≤ s'.shared.signToFlushMsg
      ∧ s'.shared.signToFlushMsg < 2 ^ 31 := by
  rcases hflag with ⟨hsign, -⟩ | ⟨hsign, -⟩ <;> rw [hsign]
  · exact h.ranged
  · exact cInt_mem _

/-- Copies that show in the flag set it, and a flag that is set stays so. -/
theorem FlushInv.signalFlush {s : State} (h : FlushInv s) {need : Nat}
    (hshow : need ≠ 0 → ¬ 2 ^ 32 ∣ need ∧ s.shared.signToFlushMsg ≠ -1)
    (hset : s.shared.signToFlushMsg ≠ 0 ∨ need ≠ 0) :
    (s.signalFlush need).shared.signToFlushMsg ≠ 0 := by
  obtain ⟨hlow, hhigh⟩ := h.ranged
  rw [State.signalFlush]
  split
  · next hcount =>
      have hneed : need ≠ 0 := by
        rintro rfl
        exact hcount rfl
      have hsign := (hshow hneed).2
      show cInt (s.shared.signToFlushMsg + 1) ≠ 0
      rw [cInt_eq]
      omega
  · next hcount =>
      refine hset.resolve_right fun hneed => (hshow hneed).1 ?_
      rw [not_not, cInt_eq] at hcount
      omega

/-! ### The reading thread -/

/-- Between two calls the reading thread handles nobody. -/
theorem readerGoes_handling {env : Env} {s : Shared} {r r' : Reader}
    (h : ReaderGoes env s r r') :
    handlingOf r' = handlingOf r ∧ sentSoFar r' = sentSoFar r
      ∧ ∀ c need stage entries, r' ≠ .handle c need stage entries := by
  cases h <;> exact ⟨rfl, rfl, fun _ _ _ _ e => by cases e⟩

/-- What a step of the reading thread does to the writing buffers: nothing, or it
    starts a call, queues a copy, or ends a call. -/
theorem readerStep_writing {s s' : State} {env : Env}
    (h : readerStep s env = some s') :
    (s'.shared.writing = s.shared.writing ∧ s'.calls = s.calls
      ∧ handlingOf s'.reader = handlingOf s.reader
      ∧ sentSoFar s'.reader = sentSoFar s.reader)
    ∨ (s'.shared.writing = s.shared.writing ∧ s'.calls = s.calls + 1
      ∧ handlingOf s.reader = none)
    ∨ (∃ c need d entries x bytes,
      s.reader = .handle c need (.deliver d) entries
      ∧ x ∈ d.rest ∧ s'.calls = s.calls ∧ handlingOf s'.reader = some c
      ∧ 0 < sentSoFar s'.reader ∧ s'.shared.writing = Function.update
        s.shared.writing x (s.shared.writing x ++ [⟨d.origin, bytes⟩]))
    ∨ (s'.shared.writing = s.shared.writing ∧ s'.calls = s.calls
      ∧ handlingOf s'.reader = none
      ∧ sentSoFar s.reader = signalling s .reader) := by
  cases readerStep_move h with
  | goes hgo =>
      obtain ⟨hhand, hsent, -⟩ := readerGoes_handling hgo
      exact Or.inl ⟨rfl, rfl, hhand, hsent⟩
  | calls hr => exact Or.inr (Or.inl ⟨rfl, rfl, by rw [hr]; rfl⟩)
  | marks hr =>
      rw [hr]
      exact Or.inl ⟨rfl, rfl, rfl, rfl⟩
  | @handle c need stage entries hr =>
      rw [hr]
      cases stage with
      | fetchMsg =>
          rw [handleStep]
          split <;> exact Or.inl ⟨rfl, rfl, rfl, rfl⟩
      | dispatch line =>
          refine Or.inl ⟨rfl, rfl, ?_⟩
          rw [handleStep]
          dsimp only
          split <;> exact ⟨rfl, rfl⟩
      | snapshot msg => exact Or.inl ⟨rfl, rfl, rfl, Nat.add_zero need⟩
      | deliver d =>
          rw [handleStep]
          cases hd : deliverStep s.shared env d with
          | none => exact Or.inl ⟨rfl, rfl, rfl, rfl⟩
          | some r =>
              obtain ⟨x, rest, hx, -, horigin, -, hsend⟩ := deliverStep_spec hd
              rcases hsend with ⟨hsame, hcount⟩ | ⟨hcount, hsend⟩
              · exact Or.inl ⟨congrArg Shared.writing hsame, rfl, rfl,
                  congrArg (need + ·) hcount⟩
              · refine Or.inr (Or.inr (Or.inl ⟨c, need, d, entries, x, _, rfl,
                  hx ▸ List.mem_cons_self .., rfl, rfl, ?_,
                  congrArg Shared.writing hsend⟩))
                show 0 < need + r.2.sentCount
                omega
      | signal =>
          obtain ⟨-, -, hcalls, hwriting⟩ := signalFlush_flag s need
          refine Or.inr (Or.inr (Or.inr ⟨hwriting, hcalls, rfl, ?_⟩))
          rw [signalling, hr]
          rfl

/-- After a step of the reading thread the flag is set when it was, or when the
    step counted copies. -/
theorem FlushInv.readerSet {s s' : State} {env : Env} (h : FlushInv s)
    (hshow : FlagShows s (.reader, env)) (hstep : readerStep s env = some s')
    (hset : s.shared.signToFlushMsg ≠ 0 ∨ signalling s .reader ≠ 0) :
    s'.shared.signToFlushMsg ≠ 0 := by
  have hkeep : signalling s .reader = 0 →
      s'.shared.signToFlushMsg = s.shared.signToFlushMsg →
      s'.shared.signToFlushMsg ≠ 0 := by
    intro hzero hsame
    rw [hsame]
    exact hset.resolve_right (not_not.mpr hzero)
  cases readerStep_move hstep with
  | @goes r hgo =>
      refine hkeep ?_ rfl
      rw [signalling]
      generalize s.reader = r₀ at hgo
      cases hgo <;> rfl
  | calls hr | marks hr => exact hkeep (by rw [signalling, hr]) rfl
  | @handle c need stage entries hr =>
      cases stage with
      | fetchMsg =>
          refine hkeep (by rw [signalling, hr]) ?_
          rw [handleStep]
          split <;> rfl
      | dispatch line | snapshot msg =>
          exact hkeep (by rw [signalling, hr]) rfl
      | deliver d =>
          refine hkeep (by rw [signalling, hr]) ?_
          rw [handleStep]
          cases hd : deliverStep s.shared env d with
          | none => rfl
          | some r => exact (deliverStep_info hd).2.2
      | signal =>
          rw [FlagShows, signalling, hr] at hshow
          rw [signalling, hr] at hset
          exact h.signalFlush hshow hset

/-- The deliveries of the reading thread are marked with the call at hand. -/
theorem readerStep_origin {s s' : State} {env : Env}
    (h : readerStep s env = some s')
    (ho : ∀ c need d entries, s.reader = .handle c need (.deliver d) entries →
      d.origin = .call c s.calls) :
    ∀ c need d entries, s'.reader = .handle c need (.deliver d) entries →
      d.origin = .call c s'.calls := by
  intro c need d entries hr'
  cases readerStep_move h with
  | goes hgo => exact absurd hr' ((readerGoes_handling hgo).2.2 _ _ _ _)
  | calls | marks => cases hr'
  | @handle x n stage todo hr =>
      cases stage with
      | fetchMsg =>
          rw [handleStep] at hr'
          split at hr' <;> cases hr'
      | dispatch line =>
          simp only [handleStep] at hr'
          split at hr' <;> cases hr'
      | snapshot msg =>
          obtain ⟨rfl, -, hd, -⟩ := Reader.handle.inj hr'
          exact (congrArg Delivery.origin (HandleStage.deliver.inj hd)).symm
      | deliver d₀ =>
          have ho' := ho x n d₀ todo hr
          rw [handleStep] at hr' ⊢
          cases hd : deliverStep s.shared env d₀ with
          | none =>
              rw [hd] at hr'
              cases hr'
          | some r =>
              rw [hd] at hr'
              obtain ⟨-, -, -, -, horigin, -⟩ := deliverStep_spec hd
              obtain ⟨rfl, -, hd', -⟩ := Reader.handle.inj hr'
              rw [← HandleStage.deliver.inj hd', horigin]
              exact ho'
      | signal => cases hr'

theorem FlushInv.reader {s s' : State} {env : Env} (h : FlushInv s)
    (hshow : FlagShows s (.reader, env))
    (hstep : readerStep s env = some s') : FlushInv s' := by
  have hf := readerStep_frame hstep
  have hcount := h.list.count
  obtain ⟨-, hpending, -⟩ := readerStep_moves hstep
  rw [entries_eq hcount] at hpending
  have hlisted := fun c => listed_known (c := c) h.list
  have hsign : s.shared.signToFlushMsg ≠ 0 → s'.shared.signToFlushMsg ≠ 0 :=
    fun hne => h.readerSet hshow hstep (Or.inl hne)
  have hpub : ∀ c, (s'.shared.info c).pub ≠ fail →
      (s.shared.info c).pub ≠ fail := by
    intro c hne
    rcases hf.pub c with h1 | ⟨h1, -⟩
    · exact h1 ▸ hne
    · exact absurd h1 hne
  -- the fields but those on the chunks
  have hbuild : (∀ c ∈ addingOf s.listener, s'.shared.writing c = []) →
      (∀ c, ∀ k ∈ s'.shared.writing c, ∀ x n, k.origin = .call x n →
        n ≤ s'.calls) →
      (∀ c, ∀ k ∈ s'.shared.writing c, InProgress s' k.origin →
        0 < sentSoFar s'.reader) →
      (∀ c ∈ s.shared.clients, (s.shared.info c).pub ≠ fail →
        ∀ k ∈ s'.shared.writing c, InProgress s' k.origin
          ∨ s'.shared.signToFlushMsg ≠ 0 ∨ Ahead s.writer c) → FlushInv s' := by
    intro hfresh hnumbered hcounted hcovered
    exact {
      list := h.list.reader hstep
      ranged := h.ranged_kept hf.flag
      spawned := by
        rw [hf.listener]
        intro hl
        rw [readerStep, h.spawned hl] at hstep
        cases hstep
      fresh := by
        rw [hf.listener]
        exact hfresh
      known := by
        rw [hf.listener, hf.list.created, hf.writer]
        rintro c (hc | hc)
        · rcases hpending c hc with h1 | h2 | h3
          · exact h.known c (Or.inl h1)
          · obtain ⟨e, he, rfl⟩ := List.mem_map.mp h2
            obtain ⟨d, hd, rfl⟩ := List.mem_map.mp he
            exact hlisted d hd
          · rw [getClientList_eq hcount] at h3
            exact hlisted c h3
        · exact h.known c (Or.inr hc)
      origin := readerStep_origin hstep h.origin
      notice := by
        rw [hf.writer]
        exact h.notice
      numbered := hnumbered
      counted := hcounted
      covered := by
        rw [hf.list.clients, hf.writer]
        exact fun c hc hne => hcovered c hc (hpub c hne) }
  rcases readerStep_writing hstep with ⟨hw, hcalls, hhand, hsent⟩
    | ⟨hw, hcalls, hidle⟩
    | ⟨c, need, d, entries, x, bytes, hr, hx, hcalls, hhand, hsent, hw⟩
    | ⟨hw, hcalls, hidle, hsent⟩
  · have hprog : ∀ o, InProgress s' o ↔ InProgress s o := by
      intro o
      unfold InProgress
      rw [hhand, hcalls]
    refine hbuild (hw ▸ h.fresh) ?_ ?_ ?_
    · rw [hw, hcalls]
      exact h.numbered
    · rw [hw, hsent]
      exact fun c k hk hp => h.counted c k hk ((hprog _).mp hp)
    · rw [hw]
      intro c hc hne k hk
      exact (h.covered c hc hne k hk).imp (hprog _).mpr (Or.imp_left hsign)
  · -- no chunk has the number of the new call
    have hnew : ∀ c, ∀ k ∈ s.shared.writing c, ¬ InProgress s' k.origin := by
      rintro c k hk ⟨x, -, ho⟩
      have := h.numbered c k hk x _ ho
      rw [hcalls] at this
      omega
    refine hbuild (hw ▸ h.fresh) ?_ ?_ ?_
    · rw [hw, hcalls]
      exact fun c k hk x n ho => Nat.le_succ_of_le (h.numbered c k hk x n ho)
    · rw [hw]
      exact fun c k hk hp => absurd hp (hnew c k hk)
    · rw [hw]
      intro c hc hne k hk
      rcases h.covered c hc hne k hk with ⟨y, hy, -⟩ | h2 | h3
      · rw [hidle] at hy
        cases hy
      · exact Or.inr (Or.inl (hsign h2))
      · exact Or.inr (Or.inr h3)
  · have horigin := h.origin c need d entries hr
    have hmem : ∀ y k, k ∈ s'.shared.writing y →
        k ∈ s.shared.writing y ∨ k.origin = .call c s.calls := by
      intro y k hk
      rw [hw] at hk
      by_cases hy : y = x
      · rw [hy, Function.update_self] at hk
        rcases List.mem_append.mp hk with h1 | h2
        · exact Or.inl (hy ▸ h1)
        · rw [List.mem_singleton.mp h2]
          exact Or.inr horigin
      · rw [Function.update_of_ne hy] at hk
        exact Or.inl hk
    have hprog : ∀ o, InProgress s o → InProgress s' o := by
      rintro o ⟨y, hy, ho⟩
      rw [hr] at hy
      obtain rfl := Option.some.inj hy
      exact ⟨c, hhand, by rw [hcalls]; exact ho⟩
    refine hbuild ?_ ?_ (fun _ _ _ _ => hsent) ?_
    · intro y hy
      have hne : y ≠ x := by
        rintro rfl
        refine (h.known y (Or.inl ?_)).2 hy
        rw [hr]
        exact hx
      rw [hw, Function.update_of_ne hne]
      exact h.fresh y hy
    · rw [hcalls]
      intro y k hk z n ho
      rcases hmem y k hk with h1 | h2
      · exact h.numbered y k h1 z n ho
      · rw [h2] at ho
        exact Nat.le_of_eq (Origin.call.inj ho).2.symm
    · intro y hy hne k hk
      rcases hmem y k hk with h1 | h2
      · exact (h.covered y hy hne k h1).imp (hprog _) (Or.imp_left hsign)
      · exact Or.inl ⟨c, hhand, by rw [hcalls]; exact h2⟩
  · have hnone : ∀ o, ¬ InProgress s' o := by
      rintro o ⟨y, hy, -⟩
      rw [hidle] at hy
      cases hy
    refine hbuild (hw ▸ h.fresh) ?_ (fun _ _ _ hp => absurd hp (hnone _)) ?_
    · rw [hw, hcalls]
      exact h.numbered
    · rw [hw]
      intro c hc hne k hk
      rcases h.covered c hc hne k hk with h1 | h2 | h3
      · have hpos := h.counted c k hk h1
        rw [hsent] at hpos
        exact Or.inr (Or.inl (h.readerSet hshow hstep
          (Or.inr (Nat.ne_of_gt hpos))))
      · exact Or.inr (Or.inl (hsign h2))
      · exact Or.inr (Or.inr h3)

/-! ### The writing thread -/

/-- What a step of the writing thread does when `write` does not fail. -/
structure WriterEffect (s s' : State) : Prop where
  reader : s'.reader = s.reader
  listener : s'.listener = s.listener
  calls : s'.calls = s.calls
  info : s'.shared.info = s.shared.info
  created : s'.shared.created = s.shared.created
  rest : ∀ c ∈ writerRest s'.writer,
    c ∈ writerRest s.writer ∨ c ∈ s.shared.clients
  clients : ∀ c ∈ s'.shared.clients, c ∈ s.shared.clients
  notice : ∀ x d todo, s'.writer = .logout x (.deliver d) todo →
    d.origin = .logout x
  writing : ∀ c, ∀ k ∈ s'.shared.writing c, k ∈ s.shared.writing c
    ∨ (c ∈ writerRest s.writer ∧ (∃ x, k.origin = .logout x)
      ∧ ∀ y, Ahead s'.writer y)
  ahead : ∀ c ∈ s.shared.clients, (s.shared.info c).pub ≠ fail →
    s.shared.signToFlushMsg ≠ 0 ∨ Ahead s.writer c →
    s'.shared.signToFlushMsg ≠ 0 ∨ Ahead s'.writer c ∨ s'.shared.writing c = []

theorem mem_sendMsgToClient {s : Shared} {x y : PClientInfo} {k chunk : Chunk}
    (hk : k ∈ (s.sendMsgToClient x chunk).writing y) :
    k ∈ s.writing y ∨ (y = x ∧ k = chunk) := by
  have hk' : k ∈ Function.update s.writing x (s.writing x ++ [chunk]) y := hk
  by_cases hy : y = x
  · rw [hy, Function.update_self] at hk'
    rcases List.mem_append.mp hk' with h1 | h2
    · exact Or.inl (hy ▸ h1)
    · exact Or.inr ⟨hy, List.mem_singleton.mp h2⟩
  · rw [Function.update_of_ne hy] at hk'
    exact Or.inl hk'

theorem dropBytes_all : ∀ (chunks : List Chunk) (n : Nat),
    (chunks.map fun k => k.bytes.length).sum ≤ n →
    Shared.dropBytes n chunks = [] := by
  intro chunks
  induction chunks with
  | nil => intro n _; rfl
  | cons k chunks ih =>
      intro n h
      rw [List.map_cons, List.sum_cons] at h
      rw [Shared.dropBytes, if_neg (by omega)]
      exact ih _ (by omega)

/-- A step of the writing thread that moves its counter only. -/
theorem writerEffect_pc {s s' : State} {w : Writer} {found increased : Bool}
    (h : some { s with writer := w, foundSet := found, increased := increased }
      = some s')
    (hrest : ∀ c ∈ writerRest w, c ∈ writerRest s.writer ∨ c ∈ s.shared.clients)
    (hnotice : ∀ x d todo, w = .logout x (.deliver d) todo →
      d.origin = .logout x)
    (hahead : ∀ c ∈ s.shared.clients, (s.shared.info c).pub ≠ fail →
      Ahead s.writer c → Ahead w c) : WriterEffect s s' := by
  obtain rfl := Option.some.inj h
  exact ⟨rfl, rfl, rfl, rfl, rfl, hrest, fun _ hc => hc, hnotice,
    fun _ _ hk => Or.inl hk,
    fun c hc hpub ha => ha.imp id (fun ha => Or.inl (hahead c hc hpub ha))⟩

theorem writerEffect_logout {s : State} {env : Env} (h : FlushInv s)
    (hshow : FlagShows s (.writer, env))
    {c : PClientInfo} {stage : LogoutStage} {todo : List PClientInfo}
    (hw : s.writer = .logout c stage todo) :
    WriterEffect s (logoutStep s env c todo stage) := by
  have hpc : ∀ {w : Writer}, writerRest w = [] →
      (∀ x d todo, w ≠ .logout x (.deliver d) todo) →
      (∀ y, Ahead s.writer y → Ahead w y) →
      WriterEffect s { s with writer := w } := by
    intro w hrest hno hahead
    refine writerEffect_pc rfl ?_ (fun x d todo e => absurd e (hno x d todo))
      (fun y _ _ => hahead y)
    rw [hrest]
    exact fun _ hc => by cases hc
  cases stage with
  | remove =>
      have hc : c ∈ s.shared.clients :=
        h.list.listed c (by rw [hw]; exact List.mem_cons_self ..)
      obtain ⟨pre, post, hsplit, heq⟩ := removeClient_eq h.list hc
      rw [logoutStep, heq]
      refine ⟨rfl, rfl, rfl, rfl, rfl, (fun _ hd => by cases hd), ?_,
        (fun _ _ _ e => by cases e), fun _ _ hk => Or.inl hk, ?_⟩
      · intro d hd
        rw [hsplit]
        exact ((List.sublist_cons_self c post).append_left pre).subset hd
      · rw [hw]
        exact fun _ _ _ ha => ha.imp id False.elim
  | build =>
      rw [logoutStep]
      split <;>
        · refine hpc rfl (fun _ _ _ e => by cases e) ?_
          rw [hw]
          exact fun _ ha => ha.elim
  | snapshot msg =>
      refine writerEffect_pc rfl ?_ ?_ ?_
      · intro d hd
        have hd' : d ∈ if env.mallocOk then s.shared.getClientList else [] := hd
        rw [getClientList_eq h.list.count] at hd'
        split at hd'
        · exact Or.inr hd'
        · cases hd'
      · rintro _ _ _ ⟨⟩
        rfl
      · rw [hw]
        exact fun _ _ _ ha => ha.elim
  | deliver d =>
      have horigin := h.notice c d todo hw
      rw [logoutStep]
      cases hd : deliverStep s.shared env d with
      | none =>
          refine hpc rfl (fun _ _ _ e => by cases e) ?_
          rw [hw]
          exact fun _ ha => ha
      | some r =>
          have hs := sameList_deliverStep hd
          obtain ⟨-, hinfo, hsign⟩ := deliverStep_info hd
          obtain ⟨x, rest, hx, hnext, ho, -, hsend⟩ := deliverStep_spec hd
          refine ⟨rfl, rfl, rfl, hinfo, hs.created, ?_, ?_, ?_, ?_, ?_⟩
          · intro y hy
            refine Or.inl ?_
            rw [hw]
            show y ∈ d.rest
            rw [hx]
            rcases hnext with h1 | h1
            · exact h1 ▸ hy
            · exact List.mem_cons_of_mem x (h1 ▸ hy)
          · show ∀ y ∈ r.1.clients, y ∈ s.shared.clients
            rw [hs.clients]
            exact fun _ hy => hy
          · rintro _ _ _ ⟨⟩
            exact ho.trans horigin
          · show ∀ y, ∀ k ∈ r.1.writing y, _
            intro y k hk
            rcases hsend with ⟨hsame, -⟩ | ⟨hcount, hsend⟩
            · rw [hsame] at hk
              exact Or.inl hk
            · rw [hsend] at hk
              rcases mem_sendMsgToClient hk with h1 | ⟨rfl, rfl⟩
              · exact Or.inl h1
              · refine Or.inr ⟨?_, ⟨c, horigin⟩, fun _ => ?_⟩
                · rw [hw]
                  show y ∈ d.rest
                  rw [hx]
                  exact List.mem_cons_self ..
                · show 0 < r.2.sentCount
                  omega
          · rw [hw]
            intro y _ _ ha
            rcases ha with h1 | h1
            · exact Or.inl (by rw [hsign]; exact h1)
            · refine Or.inr (Or.inl ?_)
              have h1' : 0 < d.sentCount := h1
              show 0 < r.2.sentCount
              rcases hsend with ⟨-, hcount⟩ | ⟨hcount, -⟩ <;> omega
  | close sent =>
      refine ⟨rfl, rfl, rfl, rfl, rfl, (fun _ hd => by cases hd), fun _ hd => hd,
        (fun _ _ _ e => by cases e), fun _ _ hk => Or.inl hk, ?_⟩
      rw [hw]
      exact fun _ _ _ ha => ha.imp id Or.inl
  | release sent =>
      refine ⟨rfl, rfl, rfl, rfl, rfl, (fun _ hd => by cases hd), fun _ hd => hd,
        (fun _ _ _ e => by cases e), ?_, ?_⟩
      · intro y k hk
        have hk' : k ∈ Function.update s.shared.writing c [] y := hk
        by_cases hy : y = c
        · rw [hy, Function.update_self] at hk'
          cases hk'
        · rw [Function.update_of_ne hy] at hk'
          exact Or.inl hk'
      · rw [hw]
        exact fun _ _ _ ha => ha.imp id Or.inl
  | signal sent =>
      obtain ⟨hs, hinfo, -, hreader, -, hlistener⟩ := signalFlush_list s sent
      obtain ⟨-, -, hcalls, hwriting⟩ := signalFlush_flag s sent
      refine ⟨hreader, hlistener, hcalls, hinfo, hs.created,
        (fun _ hd => by cases hd), ?_, (fun _ _ _ e => by cases e), ?_, ?_⟩
      · show ∀ d ∈ (s.signalFlush sent).shared.clients, d ∈ s.shared.clients
        rw [hs.clients]
        exact fun _ hd => hd
      · show ∀ y, ∀ k ∈ (s.signalFlush sent).shared.writing y, _
        rw [hwriting]
        exact fun _ _ hk => Or.inl hk
      · rw [FlagShows, signalling, hw] at hshow
        rw [hw]
        exact fun y _ _ ha => Or.inl
          (h.signalFlush hshow (ha.imp_right fun hpos => Nat.ne_of_gt hpos))

theorem writerGoes_ahead {env : Env} {s : Shared} {w w' : Writer}
    (hcount : s.clientCount = s.clients.length) (h : WriterGoes env s w w')
    {c : PClientInfo} (hc : c ∈ s.clients) (hpub : (s.info c).pub ≠ fail)
    (ha : Ahead w c) : Ahead w' c := by
  cases h with
  | snapshot =>
      show c ∈ s.getClientList
      rw [getClientList_eq hcount]
      exact hc
  | flushed => cases (ha : c ∈ [])
  | skips d todo all hfail =>
      refine (List.mem_cons.mp ha).resolve_left ?_
      rintro rfl
      exact hpub hfail
  | checksPub => exact ha
  | scanned | marked | passes => exact (ha : False).elim
  | ends | again | stops => exact trivial

theorem writerStep_effect {s s' : State} {env : Env} (h : FlushInv s)
    (hall : FlushesAll s (.writer, env)) (hshow : FlagShows s (.writer, env))
    (hstep : writerStep s env = some s') : WriterEffect s s' := by
  cases writerStep_move hstep with
  | goes hgo =>
      obtain ⟨hrest, hno, -⟩ := writerGoes_plain hgo
      refine writerEffect_pc rfl ?_ (fun x d todo e => absurd e (hno x d todo))
        (fun c hc hpub ha => writerGoes_ahead h.list.count hgo hc hpub ha)
      rw [hrest]
      exact fun _ hc => by cases hc
  | @flush c todo all hw =>
      -- nothing is left of what `c` had
      have hflush : Shared.dropBytes env.taken (s.shared.writing c) = [] := by
        refine dropBytes_all _ _ (hall c ?_)
        rw [flushing, hw]
        exact List.mem_cons_self ..
      have hself : ∀ d, (s.shared.flushMessages c env.taken).writing d
          = if d = c then [] else s.shared.writing d := by
        intro d
        show Function.update s.shared.writing c _ d = _
        by_cases hd : d = c
        · rw [if_pos hd, hd, Function.update_self, hflush]
        · rw [if_neg hd, Function.update_of_ne hd]
      refine ⟨rfl, rfl, rfl, rfl, rfl, (fun _ hd => by cases hd),
        fun _ hd => hd, (fun _ _ _ e => by cases e), ?_, ?_⟩
      · show ∀ d, ∀ k ∈ (s.shared.flushMessages c env.taken).writing d, _
        intro d k hk
        rw [hself] at hk
        split at hk
        · cases hk
        · exact Or.inl hk
      · intro d _ _ ha
        rw [hw] at ha
        refine ha.imp id (fun hd => ?_)
        rcases List.mem_cons.mp (hd : d ∈ c :: todo) with h1 | h2
        · refine Or.inr ((hself d).trans ?_)
          rw [if_pos h1]
        · exact Or.inl h2
  | logout hw => exact writerEffect_logout h hshow hw
  | flagSet hw | waits hw =>
      exact writerEffect_pc rfl (fun _ hc => by cases hc)
        (fun _ _ _ e => by cases e) (fun _ _ _ ha => by rw [hw] at ha; exact ha.elim)
  | wakes hw =>
      exact ⟨rfl, rfl, rfl, rfl, rfl, (fun _ hd => by cases hd), fun _ hd => hd,
        (fun _ _ _ e => by cases e), fun _ _ hk => Or.inl hk,
        fun _ _ _ _ => Or.inr (Or.inl trivial)⟩

theorem FlushInv.writer {s s' : State} {env : Env} (h : FlushInv s)
    (hall : FlushesAll s (.writer, env)) (hshow : FlagShows s (.writer, env))
    (hstep : writerStep s env = some s') : FlushInv s' := by
  have he := writerStep_effect h hall hshow hstep
  have hprog : ∀ o, InProgress s' o ↔ InProgress s o := by
    intro o
    unfold InProgress
    rw [he.reader, he.calls]
  have hnotice : ∀ {o : Origin}, (∃ x, o = .logout x) → ¬ InProgress s o := by
    rintro _ ⟨x, rfl⟩ ⟨c, -, ho⟩
    cases ho
  exact {
    list := h.list.writer hstep
    ranged := by
      rcases writerStep_flag hstep with ⟨hflag, -⟩ | ⟨-, -, rfl⟩ | ⟨-, -, rfl⟩
        | ⟨-, rfl⟩
      · exact h.ranged_kept hflag
      · exact h.ranged
      · exact h.ranged
      · show -2 ^ 31 ≤ (0 : Int) ∧ (0 : Int) < 2 ^ 31
        decide
    spawned := by
      rw [he.listener, he.reader]
      exact h.spawned
    fresh := by
      rw [he.listener]
      intro c hc
      refine List.eq_nil_iff_forall_not_mem.mpr fun k hk => ?_
      rcases he.writing c k hk with h1 | ⟨h1, -⟩
      · rw [h.fresh c hc] at h1
        cases h1
      · exact (h.known c (Or.inr h1)).2 hc
    known := by
      rw [he.reader, he.listener, he.created]
      rintro c (hc | hc)
      · exact h.known c (Or.inl hc)
      · rcases he.rest c hc with h1 | h1
        · exact h.known c (Or.inr h1)
        · exact listed_known h.list h1
    origin := by
      rw [he.reader, he.calls]
      exact h.origin
    notice := he.notice
    numbered := by
      rw [he.calls]
      intro c k hk x n ho
      rcases he.writing c k hk with h1 | ⟨-, ⟨y, hy⟩, -⟩
      · exact h.numbered c k h1 x n ho
      · rw [hy] at ho
        cases ho
    counted := by
      rw [he.reader]
      intro c k hk hp
      rcases he.writing c k hk with h1 | ⟨-, h1, -⟩
      · exact h.counted c k h1 ((hprog _).mp hp)
      · exact absurd ((hprog _).mp hp) (hnotice h1)
    covered := by
      rw [he.info]
      intro c hc hpub k hk
      rcases he.writing c k hk with h1 | ⟨-, -, h1⟩
      · rcases h.covered c (he.clients c hc) hpub k h1 with h2 | h2
        · exact Or.inl ((hprog _).mpr h2)
        · rcases he.ahead c (he.clients c hc) hpub h2 with h3 | h3 | h3
          · exact Or.inr (Or.inl h3)
          · exact Or.inr (Or.inr h3)
          · rw [h3] at hk
            cases hk
      · exact Or.inr (Or.inr (h1 c)) }

/-! ### The listening thread -/

/-- The other threads go on or have just been created, and no buffer changes but
    that of a client nobody knows. -/
theorem FlushInv.listens {s s' : State} (h : FlushInv s) (hlist : ListInv s')
    (hsign : s'.shared.signToFlushMsg = s.shared.signToFlushMsg)
    (hcalls : s'.calls = s.calls)
    (hreader : s'.reader = s.reader ∨ (s.reader = .idle ∧ s'.reader = .top))
    (hwriter : s'.writer = s.writer ∨ s'.writer = .top)
    (hspawned : readerSpawned s'.listener = false → s'.reader = .idle)
    (hfresh : ∀ c ∈ addingOf s'.listener, s'.shared.writing c = [])
    (hknown : ∀ c, c ∈ s.shared.created ∧ c ∉ addingOf s.listener →
      c ∈ s'.shared.created ∧ c ∉ addingOf s'.listener)
    (hwriting : ∀ c, ∀ k ∈ s'.shared.writing c, k ∈ s.shared.writing c)
    (hclients : ∀ c ∈ s'.shared.clients, s'.shared.writing c = []
      ∨ (c ∈ s.shared.clients ∧ s'.shared.info c = s.shared.info c)) :
    FlushInv s' := by
  have hprog : ∀ o, InProgress s' o ↔ InProgress s o := by
    intro o
    unfold InProgress
    rcases hreader with hr | ⟨hr, hr'⟩
    · rw [hr, hcalls]
    · constructor
      · rintro ⟨c, hc, -⟩
        rw [hr'] at hc
        cases hc
      · rintro ⟨c, hc, -⟩
        rw [hr] at hc
        cases hc
  exact {
    list := hlist
    ranged := hsign ▸ h.ranged
    spawned := hspawned
    fresh := hfresh
    known := by
      rintro c (hc | hc)
      · rcases hreader with hr | ⟨-, hr⟩
        · exact hknown c (h.known c (Or.inl (hr ▸ hc)))
        · rw [hr] at hc
          cases hc
      · rcases hwriter with hw | hw
        · exact hknown c (h.known c (Or.inr (hw ▸ hc)))
        · rw [hw] at hc
          cases hc
    origin := by
      rw [hcalls]
      rcases hreader with hr | ⟨-, hr⟩
      · rw [hr]
        exact h.origin
      · rw [hr]
        exact fun _ _ _ _ e => by cases e
    notice := by
      rcases hwriter with hw | hw
      · rw [hw]
        exact h.notice
      · rw [hw]
        exact fun _ _ _ e => by cases e
    numbered := by
      rw [hcalls]
      exact fun c k hk => h.numbered c k (hwriting c k hk)
    counted := by
      intro c k hk hp
      have hpos := h.counted c k (hwriting c k hk) ((hprog _).mp hp)
      rcases hreader with hr | ⟨hr, -⟩
      · rw [hr]
        exact hpos
      · rw [hr] at hpos
        exact absurd hpos (Nat.lt_irrefl 0)
    covered := by
      intro c hc hpub k hk
      rcases hclients c hc with h1 | ⟨h1, h2⟩
      · rw [h1] at hk
        cases hk
      · rw [h2] at hpub
        rw [hsign]
        refine (h.covered c h1 hpub k (hwriting c k hk)).imp (hprog _).mpr
          (Or.imp_right fun ha => ?_)
        rcases hwriter with hw | hw
        · rw [hw]
          exact ha
        · rw [hw]
          exact trivial }

theorem FlushInv.listener {s s' : State} {env : Env} (h : FlushInv s)
    (hstep : listenerStep s env = some s') : FlushInv s' := by
  have hlist := h.list.listener hstep
  -- steps that change the listening thread's own data only
  have hown : ∀ {sh : Shared} {l : Listener},
      s' = { s with shared := sh, listener := l } →
      sh.signToFlushMsg = s.shared.signToFlushMsg →
      sh.clients = s.shared.clients → sh.info = s.shared.info →
      sh.writing = s.shared.writing → sh.created = s.shared.created →
      addingOf l = [] → readerSpawned l = readerSpawned s.listener →
      FlushInv s' := by
    rintro sh l rfl hsign hcl hinfo hw hcr hadd hsp
    refine h.listens hlist hsign rfl (Or.inl rfl) (Or.inl rfl)
      (fun hf => h.spawned (hsp ▸ hf)) ?_ ?_ ?_ ?_
    · show ∀ c ∈ addingOf l, sh.writing c = []
      rw [hadd]
      exact fun _ hc => by cases hc
    · rintro c ⟨h1, -⟩
      refine ⟨hcr ▸ h1, ?_⟩
      show c ∉ addingOf l
      rw [hadd]
      exact List.not_mem_nil
    · show ∀ c, ∀ k ∈ sh.writing c, k ∈ s.shared.writing c
      rw [hw]
      exact fun _ _ hk => hk
    · exact fun c hc => Or.inr ⟨hcl ▸ hc, congrFun hinfo c⟩
  have hpass : ∀ {l : Listener}, addingOf l = [] → readerSpawned l = true →
      (s'.reader = s.reader ∨ (s.reader = .idle ∧ s'.reader = .top)) →
      (s'.writer = s.writer ∨ s'.writer = .top) → s'.shared = s.shared →
      s'.calls = s.calls → s'.listener = l → FlushInv s' := by
    intro l hadd hsp hr hw hsh hcalls hl
    refine h.listens hlist (by rw [hsh]) hcalls hr hw ?_ ?_ ?_ ?_ ?_
    · rw [hl, hsp]
      exact fun hf => by cases hf
    · rw [hl, hadd]
      exact fun _ hc => by cases hc
    · rw [hl, hadd, hsh]
      exact fun c hc => ⟨hc.1, List.not_mem_nil⟩
    · rw [hsh]
      exact fun _ _ hk => hk
    · rw [hsh]
      exact fun c hc => Or.inr ⟨hc, rfl⟩
  cases listenerStep_move hstep with
  | refused => exact h
  | accepts hl | noClient hl | stops hl =>
      exact hown rfl rfl rfl rfl rfl rfl rfl (by rw [hl]; rfl)
  | @creates spawned clientId hl hok hfresh =>
      -- the new block is unknown, and its writing buffer is empty
      have hw : ∀ d, (s.shared.newClientInfo env.block clientId).writing d
          = if d = env.block then [] else s.shared.writing d := by
        intro d
        show Function.update s.shared.writing env.block [] d = _
        by_cases hd : d = env.block
        · rw [if_pos hd, hd, Function.update_self]
        · rw [if_neg hd, Function.update_of_ne hd]
      refine h.listens hlist rfl rfl (Or.inl rfl) (Or.inl rfl) ?_ ?_ ?_ ?_ ?_
      · intro hf
        exact h.spawned (by rw [hl]; exact hf)
      · intro d hd
        refine (hw d).trans ?_
        rw [if_pos (List.mem_singleton.mp hd)]
      · rintro d ⟨h1, -⟩
        refine ⟨List.mem_cons_of_mem _ h1, fun hd => ?_⟩
        rw [List.mem_singleton.mp hd] at h1
        exact hfresh h1
      · intro d k hk
        have hk' := (hw d) ▸ hk
        split at hk'
        · cases hk'
        · exact hk'
      · intro d hd
        have hne : d ≠ env.block := by
          rintro rfl
          exact hfresh (listed_known h.list hd).1
        exact Or.inr ⟨hd, Function.update_of_ne hne ..⟩
  | @adds spawned c hl =>
      have hfresh := h.fresh c (by rw [hl]; exact List.mem_cons_self ..)
      refine h.listens hlist rfl rfl (Or.inl rfl) (Or.inl rfl) ?_ ?_ ?_
        (fun _ _ hk => hk) ?_
      · intro hf
        cases spawned with
        | true => cases hf
        | false => exact h.spawned (by rw [hl]; rfl)
      · cases spawned <;> exact fun _ hd => by cases hd
      · rintro d ⟨h1, -⟩
        refine ⟨h1, ?_⟩
        cases spawned <;> exact List.not_mem_nil
      · intro d hd
        rcases List.mem_append.mp hd with h1 | h2
        · exact Or.inr ⟨h1, rfl⟩
        · rw [List.mem_singleton.mp h2]
          exact Or.inl hfresh
  | @givesUp spawned c hl =>
      refine h.listens hlist rfl rfl (Or.inl rfl) (Or.inl rfl) ?_
        (fun _ hd => by cases hd) (fun d hd => ⟨hd.1, List.not_mem_nil⟩) ?_
        (fun d hd => Or.inr ⟨hd, rfl⟩)
      · intro hf
        exact h.spawned (by rw [hl]; exact hf)
      · intro d k hk
        have hk' : k ∈ Function.update s.shared.writing c [] d := hk
        by_cases hd : d = c
        · rw [hd, Function.update_self] at hk'
          cases hk'
        · rw [Function.update_of_ne hd] at hk'
          exact hk'
  | spawnsReader hl =>
      have hidle := h.spawned (by rw [hl]; rfl)
      exact hpass rfl rfl (Or.inr ⟨hidle, rfl⟩) (Or.inl rfl) rfl rfl rfl
  | spawnsWriter => exact hpass rfl rfl (Or.inl rfl) (Or.inr rfl) rfl rfl rfl
  | noThread => exact hpass rfl rfl (Or.inl rfl) (Or.inl rfl) rfl rfl rfl

/-! ### Every interleaving -/

theorem flushInv_start {s : State} (h : threadSystem.start s) : FlushInv s := by
  have hlist := listInv_start h
  obtain ⟨hcl, -, hsign, -, -, hwr, hr, hw, hl, -⟩ := h
  exact {
    list := hlist
    ranged := by rw [hsign]; decide
    spawned := fun _ => hr
    fresh := fun c _ => hwr c
    known := by
      rw [hr, hw]
      rintro c (hc | hc) <;> cases hc
    origin := by rw [hr]; exact fun _ _ _ _ e => by cases e
    notice := by rw [hw]; exact fun _ _ _ e => by cases e
    numbered := fun c k hk => by rw [hwr] at hk; cases hk
    counted := fun c k hk => by rw [hwr] at hk; cases hk
    covered := by rw [hcl]; exact fun _ hc => by cases hc }

/-- The step lemma. -/
theorem flushInv_step {s s' : State} {a : Thread × Env} (h : FlushInv s)
    (hall : FlushesAll s a) (hshow : FlagShows s a)
    (hstep : threadSystem.step s a = some s') : FlushInv s' := by
  obtain ⟨thread, env⟩ := a
  cases thread with
  | listener => exact h.listener hstep
  | reader => exact h.reader hshow hstep
  | writer => exact h.writer hall hshow hstep

/-- **NO LOST FLUSH**: in every interleaving in which `write` does not fail and
    the copies counted show in the flag, when the writing thread goes to wait
    nothing is left in the writing buffer of a listed, unmarked client but what
    the call in progress queued. -/
theorem no_lost_flush {s : State} (h : threadSystem.start s)
    (es : List (Thread × Env)) (hall : Along threadSystem FlushesAll s es)
    (hshow : Along threadSystem FlagShows s es) :
    Along threadSystem NothingUnflushed s es :=
  along_of_inv threadSystem (I := FlushInv)
    (C := fun s a => FlushesAll s a ∧ FlagShows s a)
    (fun _ _ _ hI hC hstep => flushInv_step hI hC.1 hC.2 hstep)
    (fun _ a hI _ => hI.nothing a) es s (flushInv_start h)
    (hall.and threadSystem hshow)

/-- The announcement of a login is flushed. -/
theorem no_lost_flush_loginAnnounced :
    Along threadSystem NothingUnflushed freshProgram
      (loginAnnounced ++ List.replicate 20 (.writer, quiet)) := by
  refine no_lost_flush freshProgram_start _ (along_of_checkRun _ ?_)
    (along_of_checkRun _ ?_)
  · decide +kernel
  · decide +kernel

/-! ### The flag comes round to 0 -/

/-- What the next steps of the reading and the writing thread depend on while the
    blocks 1 and 2 are the clients. -/
structure Outline where
  clients : List PClientInfo
  clientCount : Int
  signToFlushMsg : Int
  isRunning : Bool
  info1 : ClientInfo
  info2 : ClientInfo
  writing1 : List Chunk
  writing2 : List Chunk
  reader : Reader
  writer : Writer
  calls : Nat

def outline (s : State) : Outline where
  clients := s.shared.clients
  clientCount := s.shared.clientCount
  signToFlushMsg := s.shared.signToFlushMsg
  isRunning := s.shared.isRunning
  info1 := s.shared.info 1
  info2 := s.shared.info 2
  writing1 := s.shared.writing 1
  writing2 := s.shared.writing 2
  reader := s.reader
  writer := s.writer
  calls := s.calls

/-- `s` with the outline `o`. -/
def Outline.on (o : Outline) (s : State) : State :=
  { s with
    shared := { s.shared with
      clients := o.clients
      clientCount := o.clientCount
      signToFlushMsg := o.signToFlushMsg
      isRunning := o.isRunning
      info := Function.update (Function.update s.shared.info 1 o.info1) 2 o.info2
      writing := Function.update (Function.update s.shared.writing 1 o.writing1)
        2 o.writing2 }
    reader := o.reader
    writer := o.writer
    calls := o.calls }

theorem outline_on (s : State) : (outline s).on s = s := by
  simp only [Outline.on, outline, Function.update_eq_self]

/-- The events lead from one outline to the other, and no `write` fails. -/
def Leads (o : Outline) (es : List (Thread × Env)) (o' : Outline) : Prop :=
  ∀ s, outline s = o → Along threadSystem FlushesAll s es
    ∧ ∃ s', runFrom threadSystem s es = some s' ∧ outline s' = o'

theorem Leads.trans {o o₁ o' : Outline} {es es' : List (Thread × Env)}
    (h : Leads o es o₁) (h' : Leads o₁ es' o') : Leads o (es ++ es') o' := by
  intro s hs
  obtain ⟨hall, s₁, hrun, hs₁⟩ := h s hs
  obtain ⟨hall', s', hrun', hs'⟩ := h' s₁ hs₁
  refine ⟨hall.append threadSystem hrun hall', s', ?_, hs'⟩
  rw [runFrom_append, hrun]
  exact hrun'

/-- What varies from one turn of the threads to the next. -/
structure Turn where
  flag : Int
  calls : Nat
  writer : Writer

/-- The events are evaluated for all turns, and all states, at once. -/
theorem leads_of_eq {o o' : Turn → Outline} {es : List (Thread × Env)}
    (hall : (fun (s : State) (t : Turn) => checkRun threadSystem
      (fun s a => decide (FlushesAll s a)) ((o t).on s) es) = fun _ _ => true)
    (hrun : (fun (s : State) (t : Turn) =>
      (runFrom threadSystem ((o t).on s) es).map outline)
        = fun _ t => some (o' t)) : ∀ t, Leads (o t) es (o' t) := by
  intro t s hs
  have hall' := congrFun (congrFun hall s) t
  have hrun' := congrFun (congrFun hrun s) t
  rw [← hs, outline_on] at hall' hrun'
  exact ⟨along_of_checkRun _ hall', Option.map_eq_some_iff.mp hrun'⟩

/-- A client after its login. -/
def loggedIn (socketId : Int) (name : List UInt8) : ClientInfo :=
  ⟨socketId, name ++ List.replicate (clientNameMaximumSize - name.length) 0, succ⟩

/-- `ann` and `bob` are logged in, and `queued` waits for `ann`. -/
def Turn.at (t : Turn) (reader : Reader) (queued : List Chunk) : Outline where
  clients := [1, 2]
  clientCount := 2
  signToFlushMsg := t.flag
  isRunning := true
  info1 := loggedIn 4 (ascii "ann")
  info2 := loggedIn 5 (ascii "bob")
  writing1 := queued
  writing2 := []
  reader := reader
  writer := t.writer
  calls := t.calls

def broadcastLine : List UInt8 := ascii "TO-ALL: hi\n"

/-- `create_p2p_msg_base_on_content` for the line, and the pool behind it. -/
def broadcastMsg : Option Msg × CachePool :=
  createP2pMsgBaseOnContent quiet.pool quiet.surround.junk
    (loggedIn 5 (ascii "bob")).name (some cmdToAll)
    ((broadcastLine ++ quiet.surround.afterLine).drop (strlen cmdToAll + 1))

/-- The message itself. -/
def broadcast : Msg := broadcastMsg.1.getD ⟨[], [], 0, []⟩

/-- The copy of `ann`. -/
def said (calls : Nat) : Chunk :=
  ⟨.call 2 calls, ascii "FROM bob: hi\n" ++ [0]⟩

/-- The reading thread polls, and `bob` has sent something. -/
def lineComes : List (Thread × Env) :=
  List.replicate 6 (.reader, quiet) ++ [(.reader, { quiet with
    pollRet := 1, revents := fun c => if c = 2 then pollIn else 0 }),
    (.reader, quiet)]

/-- It takes the line out. -/
def lineFetched : List (Thread × Env) :=
  [(.reader, quiet), (.reader, { quiet with fetchCount := 1 }),
    (.reader, { quiet with line := some broadcastLine })]

/-- The reading thread handles a line of `bob` to all. -/
def lineHandled : List (Thread × Env) :=
  lineComes ++ lineFetched ++ [(.reader, quiet)]
    ++ List.replicate 9 (.reader, quiet)

theorem leads_lineComes : ∀ t : Turn, Leads (t.at (.scan []) []) lineComes
    (t.at (.scan [⟨⟨5, pollIn⟩, 2⟩]) []) := by
  refine leads_of_eq ?_ ?_
  · rfl
  · rfl

theorem leads_lineFetched : ∀ t : Turn,
    Leads (t.at (.scan [⟨⟨5, pollIn⟩, 2⟩]) []) lineFetched
      ({ t with calls := t.calls + 1 }.at
        (.handle 2 0 (.dispatch broadcastLine) []) []) := by
  refine leads_of_eq ?_ ?_
  · rfl
  · rfl

theorem dispatchMsg_broadcastLine {s : Shared}
    (h : s.info 2 = loggedIn 5 (ascii "bob")) :
    dispatchMsg (s.toServer quiet.pool) 2 quiet.surround
        (broadcastLine ++ quiet.surround.afterLine)
      = (some broadcast, (s.toServer quiet.pool).setPool broadcastMsg.2) := by
  have hname : ((s.toServer quiet.pool).mem.info 2).name
      = (loggedIn 5 (ascii "bob")).name := congrArg ClientInfo.name h
  have hmsg : broadcastMsg.1 = some broadcast := by rfl
  rw [dispatchMsg, if_neg (by decide +kernel), if_pos (by decide +kernel)]
  dsimp only
  rw [hname, ← hmsg]
  rfl

theorem leads_dispatch (t : Turn) :
    Leads (t.at (.handle 2 0 (.dispatch broadcastLine) []) []) [(.reader, quiet)]
      (t.at (.handle 2 0 (.snapshot broadcast) []) []) := by
  intro s hs
  have hreader : s.reader = .handle 2 0 (.dispatch broadcastLine) [] :=
    congrArg Outline.reader hs
  have hstep : threadSystem.step s (.reader, quiet) = some { s with
      reader := .handle 2 0 (.snapshot broadcast) [] } := by
    show readerStep s quiet = _
    rw [readerStep, hreader]
    dsimp only
    rw [handleStep, dispatchMsg_broadcastLine (congrArg Outline.info2 hs)]
    show some { s with
      shared := s.shared.setInfo 2 (s.shared.info 2)
      reader := .handle 2 0 (.snapshot broadcast) [] } = _
    rw [Shared.setInfo, Function.update_eq_self]
  exact ⟨⟨fun c hc => (by cases hc), fun _ _ => trivial⟩, _,
    runFrom_single threadSystem hstep, congrArg (fun o : Outline =>
      { o with reader := .handle 2 0 (.snapshot broadcast) [] }) hs⟩

theorem leads_delivered : ∀ t : Turn,
    Leads (t.at (.handle 2 0 (.snapshot broadcast) []) [])
      (List.replicate 9 (.reader, quiet))
      ({ t with flag := cInt (t.flag + 1) }.at (.scan []) [said t.calls]) := by
  refine leads_of_eq ?_ ?_
  · rfl
  · rfl

/-- A line to all is one more increment. -/
theorem leads_lineHandled (t : Turn) : Leads (t.at (.scan []) []) lineHandled
    ({ t with flag := cInt (t.flag + 1), calls := t.calls + 1 }.at
      (.scan []) [said (t.calls + 1)]) :=
  (((leads_lineComes t).trans (leads_lineFetched t)).trans
    (leads_dispatch { t with calls := t.calls + 1 })).trans
    (leads_delivered { t with calls := t.calls + 1 })

/-- A check flushes nobody. -/
theorem flushesAll_check {s : State} (hw : s.writer = .check) (env : Env) :
    FlushesAll s (.writer, env) := by
  intro c hc
  rw [flushing, hw] at hc
  cases hc

/-- A check that finds the flag set. -/
theorem leads_check {t : Turn} (hw : t.writer = .check) (hflag : t.flag ≠ 0)
    (reader : Reader) (queued : List Chunk) :
    Leads (t.at reader queued) [(.writer, quiet)]
      ({ t with writer := .loopEnd }.at reader queued) := by
  intro s hs
  have hwriter : s.writer = .check := (congrArg Outline.writer hs).trans hw
  have hsign : s.shared.signToFlushMsg ≠ 0 := by
    rw [show s.shared.signToFlushMsg = t.flag from
      congrArg Outline.signToFlushMsg hs]
    exact hflag
  have hstep : threadSystem.step s (.writer, quiet) = some { s with
      writer := .loopEnd, foundSet := true, increased := false } := by
    show writerStep s quiet = _
    rw [writerStep, hwriter]
    exact if_pos hsign
  exact ⟨⟨flushesAll_check hwriter quiet, fun _ _ => trivial⟩, _,
    runFrom_single threadSystem hstep,
    congrArg (fun o : Outline => { o with writer := .loopEnd }) hs⟩

/-- The pass behind it flushes what waits for `ann`. -/
theorem leads_pass : ∀ t : Turn,
    Leads ({ t with writer := .loopEnd }.at (.scan []) [said t.calls])
      (List.replicate 10 (.writer, quiet))
      ({ t with writer := .check }.at (.scan []) []) := by
  refine leads_of_eq ?_ ?_
  · rfl
  · rfl

/-- **ONE TURN**: the check finds the flag set, a line comes in, and a pass
    flushes it; the flag is one higher and everything else as before. -/
theorem leads_turn (calls : Nat) {flag : Int} (hflag : flag ≠ 0) :
    Leads (Turn.at ⟨flag, calls, .check⟩ (.scan []) [])
      ([(.writer, quiet)] ++ lineHandled ++ List.replicate 10 (.writer, quiet))
      (Turn.at ⟨cInt (flag + 1), calls + 1, .check⟩ (.scan []) []) :=
  ((leads_check rfl hflag _ _).trans
    (leads_lineHandled ⟨flag, calls, .loopEnd⟩)).trans
    (leads_pass ⟨cInt (flag + 1), calls + 1, .loopEnd⟩)

/-- The program comes to the outline, and no `write` fails. -/
def ComesTo (o : Outline) : Prop :=
  ∃ es s, Along threadSystem FlushesAll freshProgram es
    ∧ runFrom threadSystem freshProgram es = some s ∧ outline s = o

theorem ComesTo.leads {o o' : Outline} {es : List (Thread × Env)}
    (h : ComesTo o) (hes : Leads o es o') : ComesTo o' := by
  obtain ⟨es₀, s, hall, hrun, hs⟩ := h
  obtain ⟨hall', s', hrun', hs'⟩ := hes s hs
  refine ⟨es₀ ++ es, s', hall.append threadSystem hrun hall', ?_, hs'⟩
  rw [runFrom_append, hrun]
  exact hrun'

/-- After the logins the flag is 1; `k` turns later it has been incremented
    `k + 1` times and never reset. -/
theorem comesTo_turns : ∀ k : Nat, k + 1 < 2 ^ 32 → ∃ calls,
    ComesTo (Turn.at ⟨cInt ((k + 1 : Nat) : Int), calls, .check⟩ (.scan []) []) := by
  intro k
  induction k with
  | zero =>
      intro _
      have hrun : (runFrom threadSystem freshProgram (loginAnnounced
          ++ List.replicate 9 (.writer, quiet))).map outline
            = some (Turn.at ⟨cInt ((0 + 1 : Nat) : Int), 2, .check⟩ (.scan []) []) := by
        rfl
      obtain ⟨s, hs, ho⟩ := Option.map_eq_some_iff.mp hrun
      exact ⟨2, _, s, along_of_checkRun _ (by decide +kernel), hs, ho⟩
  | succ k ih =>
      intro hk
      obtain ⟨calls, h⟩ := ih (by omega)
      have hne : cInt ((k + 1 : Nat) : Int) ≠ 0 := by
        rw [cInt_eq]
        omega
      have hnext : cInt (cInt ((k + 1 : Nat) : Int) + 1)
          = cInt ((k + 1 + 1 : Nat) : Int) := by
        simp only [cInt_eq]
        omega
      exact ⟨calls + 1, hnext ▸ h.leads (leads_turn calls hne)⟩

/-- A flush is lost: after `2 ^ 32 - 1` increments the flag is `-1`, the next one
    takes it to 0, and the check lets the writing thread wait. -/
theorem flush_lost : ¬ ∀ s, threadSystem.start s → ∀ es,
    Along threadSystem FlushesAll s es →
      Along threadSystem NothingUnflushed s es := by
  intro h
  obtain ⟨calls, hturns⟩ := comesTo_turns (2 ^ 32 - 2) (by decide)
  obtain ⟨es, s, hall, hrun, hs⟩ := hturns.leads (leads_lineHandled _)
  have hwriter : s.writer = .check := congrArg Outline.writer hs
  have hround : cInt (cInt ((2 ^ 32 - 2 + 1 : Nat) : Int) + 1) = 0 := by decide
  have hsign : s.shared.signToFlushMsg = 0 :=
    (congrArg Outline.signToFlushMsg hs).trans hround
  have hpub : (s.shared.info 1).pub = succ :=
    congrArg (fun o => o.info1.pub) hs
  have hlast : Along threadSystem FlushesAll s [(.writer, quiet)] :=
    ⟨flushesAll_check hwriter quiet, fun _ _ => trivial⟩
  have hnothing := h _ freshProgram_start (es ++ [(.writer, quiet)])
    (hall.append threadSystem hrun hlast)
  -- the copy of the last line is there, and no call is in progress
  obtain ⟨c, hc, -⟩ := (((along_append threadSystem).mp hnothing).2 s hrun).1
    (by rw [checksFlag, hwriter]) hsign 1
    (by rw [show s.shared.clients = [1, 2] from congrArg Outline.clients hs]
        exact List.mem_cons_self ..)
    (by rw [hpub]; decide)
    (said (calls + 1))
    (by rw [show s.shared.writing 1 = [said (calls + 1)] from
          congrArg Outline.writing1 hs]
        exact List.mem_cons_self ..)
  rw [show s.reader = .scan [] from congrArg Outline.reader hs] at hc
  cases hc

end IMFlush

import IMServer.Spawning

/-! # The open descriptors — `accept` and `close`

    Every descriptor `accept` returns is in one place until `user_logout` closes
    it: with the listening thread, in a listed client, or in the client being
    logged out.  When `new_client_info` or the allocation of the node fails,
    `handle_listen` goes on without a `close`; `descriptors_accounted` says that
    this is the only way a descriptor gets lost, and that it stays open for
    good. -/

namespace IMDescriptors

open IMClientInfo IMServerInfo IMThreads IMThreadMoves IMTransition IMClientList
  IMSpawning

/-- The descriptor a step loses: it is open, and nobody has it any more. -/
def lostBy (s : State) : Thread × Env → List Int
  | (.listener, env) =>
      match s.listener with
      | .create _ clientId => if env.mallocOk then [] else [clientId]
      | .addNode _ c => if env.mallocOk then [] else [(s.shared.info c).socketId]
      | _ => []
  | _ => []

/-- The descriptors a run loses. -/
def lost (s : State) : List (Thread × Env) → List Int
  | [] => []
  | a :: es =>
      lostBy s a ++ match threadStep s a with
        | none => []
        | some s' => lost s' es

/-! ## One step -/

/-- **CONSERVATION**: what a step opens goes to the threads or is lost, and what
    leaves the threads is closed or lost. -/
def Conserves (s s' : State) (a : Thread × Env) : Prop :=
  (s'.shared.openFds ++ fds s).Perm (s.shared.openFds ++ (fds s' ++ lostBy s a))

theorem fds_congr {s s' : State} (hs : SameList s.shared s'.shared)
    (hclosing : closingOf s'.writer = closingOf s.writer)
    (hlistener : s'.listener = s.listener) : fds s' = fds s := by
  have hlive : live s' = live s := by
    rw [live, live, hs.clients, hclosing, hlistener]
  rw [fds, fds, hlive, hlistener]
  exact congrArg (· ++ _) (List.map_congr_left fun c _ => hs.socketId c)

/-- A step of another thread that leaves the descriptors where they are. -/
theorem conserves_same {s s' : State} {a : Thread × Env}
    (hopen : s'.shared.openFds = s.shared.openFds) (hfds : (fds s').Perm (fds s))
    (hlost : lostBy s a = []) : Conserves s s' a := by
  rw [Conserves, hopen, hlost, List.append_nil]
  exact hfds.symm.append_left _

theorem conserves_reader {s s' : State} {env : Env}
    (hstep : readerStep s env = some s') : Conserves s s' (.reader, env) := by
  have hf := readerStep_frame hstep
  exact conserves_same hf.list.openFds
    (List.Perm.of_eq (fds_congr hf.list (by rw [hf.writer]) hf.listener)) rfl

/-- The client leaves the list, but keeps its descriptor. -/
theorem fds_remove {s : State} (h : ListInv s) {c : PClientInfo}
    {todo : List PClientInfo} (hw : s.writer = .logout c .remove todo) :
    (fds { s with
      shared := s.shared.removeClient c, writer := .logout c .build todo }).Perm
        (fds s) := by
  obtain ⟨pre, post, hsplit, hremove⟩ := removeClient_eq h
    (h.listed c (by rw [hw]; exact List.mem_cons_self ..))
  rw [hremove]
  have hlive : live s = pre ++ c :: post ++ addingOf s.listener := by
    rw [live, hw, hsplit]
    exact congrArg (· ++ _) (List.append_nil _)
  have hperm : (pre ++ post ++ [c] ++ addingOf s.listener).Perm (live s) := by
    rw [hlive]
    refine List.Perm.append_right _ ?_
    exact (List.perm_append_singleton c (pre ++ post)).trans List.perm_middle.symm
  exact (hperm.map _).append_right _

/-- `close` takes the descriptor of the client out of both. -/
theorem conserves_close {s : State} (h : ListInv s) (hnd : s.shared.openFds.Nodup)
    {c : PClientInfo} {sent : Nat} {todo : List PClientInfo} {env : Env}
    (hw : s.writer = .logout c (.close sent) todo) :
    Conserves s { s with
      shared := s.shared.close (s.shared.info c).socketId
      writer := .logout c (.release sent) todo } (.writer, env) := by
  have hlive : live s = s.shared.clients ++ [c] ++ addingOf s.listener := by
    rw [live, hw]
    rfl
  have hfds : (fds s).Perm ((s.shared.info c).socketId
      :: ((s.shared.clients ++ addingOf s.listener).map
        (fun d => (s.shared.info d).socketId) ++ acceptedOf s.listener)) := by
    rw [fds, hlive, List.append_assoc, List.singleton_append]
    exact (List.perm_middle.map _).append_right _
  have hmem : (s.shared.info c).socketId ∈ s.shared.openFds :=
    h.opened _ (hfds.mem_iff.mpr (List.mem_cons_self ..))
  have hnew : fds { s with
      shared := s.shared.close (s.shared.info c).socketId
      writer := .logout c (.release sent) todo }
      = (s.shared.clients ++ addingOf s.listener).map
        (fun d => (s.shared.info d).socketId) ++ acceptedOf s.listener := by
    show ((s.shared.clients ++ [] ++ addingOf s.listener).map _) ++ _ = _
    rw [List.append_nil]
    rfl
  have hclose : s.shared.openFds.Perm ((s.shared.info c).socketId
      :: (s.shared.close (s.shared.info c).socketId).openFds) := by
    have herase : (s.shared.close (s.shared.info c).socketId).openFds
        = s.shared.openFds.erase (s.shared.info c).socketId := by
      rw [hnd.erase_eq_filter]
      refine List.filter_congr fun fd _ => ?_
      by_cases hfd : fd = (s.shared.info c).socketId <;> simp [hfd]
    rw [herase]
    exact List.perm_cons_erase hmem
  rw [Conserves, hnew]
  show ((s.shared.close (s.shared.info c).socketId).openFds ++ fds s).Perm
    (s.shared.openFds ++ (_ ++ []))
  rw [List.append_nil]
  refine (hfds.append_left _).trans (List.perm_middle.trans ?_)
  exact (hclose.symm.append_right _)

theorem conserves_writer {s s' : State} {env : Env} (h : ListInv s)
    (hnd : s.shared.openFds.Nodup) (hstep : writerStep s env = some s') :
    Conserves s s' (.writer, env) := by
  have hsame : ∀ {t : State}, SameList s.shared t.shared →
      closingOf t.writer = closingOf s.writer → t.listener = s.listener →
      Conserves s t (.writer, env) :=
    fun hs hc hl => conserves_same hs.openFds (List.Perm.of_eq (fds_congr hs hc hl)) rfl
  cases writerStep_move hstep with
  | goes hgo =>
      obtain ⟨hclosing, hclosing', -⟩ := goes_list h.count hgo
      exact hsame (SameList.refl _) (hclosing'.trans hclosing.symm) rfl
  | flush hw => exact hsame (sameList_setWriting ..) (by rw [hw]; rfl) rfl
  | flagSet hw | waits hw => exact hsame (SameList.refl _) (by rw [hw]; rfl) rfl
  | wakes hw => exact hsame ⟨rfl, rfl, rfl, rfl, fun _ => rfl⟩ (by rw [hw]; rfl) rfl
  | @logout c stage todo hw =>
      cases stage with
      | remove =>
          refine conserves_same ?_ (fds_remove h hw) rfl
          obtain ⟨pre, post, -, hremove⟩ := removeClient_eq h
            (h.listed c (by rw [hw]; exact List.mem_cons_self ..))
          rw [logoutStep, hremove]
      | close sent => exact conserves_close h hnd hw
      | build =>
          rw [logoutStep]
          split <;> exact hsame (SameList.refl _) (by rw [hw]; rfl) rfl
      | deliver d =>
          rw [logoutStep]
          cases hd : deliverStep s.shared env d with
          | none => exact hsame (SameList.refl _) (by rw [hw]; rfl) rfl
          | some r => exact hsame (sameList_deliverStep hd) (by rw [hw]; rfl) rfl
      | snapshot msg => exact hsame (SameList.refl _) (by rw [hw]; rfl) rfl
      | release sent =>
          exact hsame ⟨rfl, rfl, rfl, rfl, fun _ => rfl⟩ (by rw [hw]; rfl) rfl
      | signal sent =>
          obtain ⟨h1, -, -, -, -, h3⟩ := signalFlush_list s sent
          exact hsame h1 (by rw [hw]; rfl) h3

/-- The new block takes the accepted descriptor over. -/
theorem fds_create {s : State} (h : ListInv s) {spawned : Bool} {clientId : Int}
    (hl : s.listener = .create spawned clientId) {c : PClientInfo}
    (hfresh : c ∉ s.shared.created) :
    fds { s with
      shared := s.shared.newClientInfo c clientId
      listener := .addNode spawned c } = fds s := by
  have hlive : live s = s.shared.clients ++ closingOf s.writer := by
    rw [live, hl]
    exact List.append_nil _
  have hsocket : ∀ d, ((s.shared.newClientInfo c clientId).info d).socketId
      = if d = c then clientId else (s.shared.info d).socketId := by
    intro d
    show (Function.update s.shared.info c _ d).socketId = _
    by_cases hd : d = c
    · rw [if_pos hd, hd, Function.update_self, updateClientName]
    · rw [if_neg hd, Function.update_of_ne hd]
  have hold : ∀ d ∈ live s, ((s.shared.newClientInfo c clientId).info d).socketId
      = (s.shared.info d).socketId := by
    intro d hd
    rw [hsocket, if_neg]
    rintro rfl
    exact hfresh (h.created d hd)
  show (s.shared.clients ++ closingOf s.writer ++ [c]).map _ ++ [] = _
  rw [List.append_nil, List.map_append, List.map_singleton, hsocket, if_pos rfl,
    ← hlive, List.map_congr_left hold, fds, hl]
  rfl

/-- The list takes the new client over. -/
theorem fds_add {s : State} {spawned : Bool} {c : PClientInfo}
    (hl : s.listener = .addNode spawned c) {l : Listener}
    (hadding : addingOf l = []) (haccepted : acceptedOf l = []) :
    (fds { s with shared := s.shared.addClient c, listener := l }).Perm (fds s) := by
  have hlive : live s = s.shared.clients ++ closingOf s.writer ++ [c] := by
    rw [live, hl]
    rfl
  have hperm : (live { s with
      shared := s.shared.addClient c, listener := l }).Perm (live s) := by
    rw [hlive, live]
    show (s.shared.clients ++ [c] ++ closingOf s.writer ++ addingOf l).Perm _
    rw [hadding, List.append_nil, List.append_assoc, List.append_assoc]
    exact List.perm_append_comm.append_left _
  have hacc : acceptedOf s.listener = acceptedOf l := by
    rw [hl, haccepted]
    rfl
  rw [fds, fds, hacc]
  exact (hperm.map _).append_right _

theorem conserves_listener {s s' : State} {env : Env}
    (hs : Reachable threadSystem s) (hstep : listenerStep s env = some s') :
    Conserves s s' (.listener, env) := by
  have h := listInv_reachable hs
  have hkeep : ∀ {t : State}, SameList s.shared t.shared →
      closingOf t.writer = closingOf s.writer → addingOf t.listener = addingOf s.listener →
      acceptedOf t.listener = acceptedOf s.listener → lostBy s (.listener, env) = [] →
      Conserves s t (.listener, env) := by
    intro t hsame hclosing hadding haccepted hlost
    refine conserves_same hsame.openFds (List.Perm.of_eq ?_) hlost
    have hlive : live t = live s := by
      rw [live, live, hsame.clients, hclosing, hadding]
    rw [fds, fds, hlive, haccepted]
    exact congrArg (· ++ _) (List.map_congr_left fun c _ => hsame.socketId c)
  cases listenerStep_move hstep with
  | refused hl =>
      exact hkeep (SameList.refl _) rfl rfl rfl (by rw [lostBy, hl])
  | @accepts spawned hl hid hfresh =>
      have hfds : fds { s with
          shared := { s.shared with openFds := env.clientId :: s.shared.openFds }
          listener := .create spawned env.clientId } = fds s ++ [env.clientId] := by
        rw [fds, fds, hl, live, live, hl]
        simp [addingOf, acceptedOf]
      rw [Conserves, hfds, lostBy, hl]
      show (env.clientId :: (s.shared.openFds ++ fds s)).Perm
        (s.shared.openFds ++ (fds s ++ [env.clientId] ++ []))
      rw [List.append_nil, ← List.append_assoc]
      exact (List.perm_append_singleton _ _).symm
  | @noClient spawned clientId hl hok =>
      have hfds : fds s = fds { s with listener := .accept spawned } ++ [clientId] := by
        rw [fds, fds, hl, live, live, hl]
        simp [addingOf, acceptedOf]
      have hlost : lostBy s (.listener, env) = [clientId] := by
        rw [lostBy, hl]
        show (if env.mallocOk = true then _ else _) = _
        rw [hok]
        rfl
      rw [Conserves, hlost, hfds]
  | @creates spawned clientId hl hok hfresh =>
      have hlost : lostBy s (.listener, env) = [] := by
        rw [lostBy, hl]
        exact if_pos hok
      exact conserves_same rfl (List.Perm.of_eq (fds_create h hl hfresh)) hlost
  | @adds spawned c hl hok =>
      have hlost : lostBy s (.listener, env) = [] := by
        rw [lostBy, hl]
        exact if_pos hok
      exact conserves_same rfl (fds_add hl (by cases spawned <;> rfl)
        (by cases spawned <;> rfl)) hlost
  | @givesUp spawned c hl hok =>
      have hfds : fds s = fds { s with
          shared := s.shared.releaseClientInfo c, listener := .accept spawned }
          ++ [(s.shared.info c).socketId] := by
        rw [fds, fds, hl, live, live, hl]
        show (s.shared.clients ++ closingOf s.writer ++ [c]).map _ ++ [] = _
        rw [List.append_nil, List.map_append]
        show _ = (s.shared.clients ++ closingOf s.writer ++ []).map _ ++ [] ++ _
        rw [List.append_nil, List.append_nil]
        rfl
      have hlost : lostBy s (.listener, env) = [(s.shared.info c).socketId] := by
        rw [lostBy, hl]
        show (if env.mallocOk = true then _ else _) = _
        rw [hok]
        rfl
      rw [Conserves, hlost, hfds]
      exact List.Perm.refl _
  | spawnsReader hl =>
      exact hkeep (SameList.refl _) rfl (by rw [hl]; rfl) (by rw [hl]; rfl)
        (by rw [lostBy, hl])
  | spawnsWriter hl =>
      have hidle := (idle_of_unspawned hs (hl ▸ trivial)).1
      exact hkeep (SameList.refl _) (by rw [hidle]; rfl) (by rw [hl]; rfl)
        (by rw [hl]; rfl) (by rw [lostBy, hl])
  | noThread hl =>
      rcases hl with hl | hl
      · exact hkeep (SameList.refl _) rfl (by rw [hl]; rfl) (by rw [hl]; rfl)
          (by rw [lostBy, hl])
      · exact hkeep (SameList.refl _) rfl (by rw [hl]; rfl) (by rw [hl]; rfl)
          (by rw [lostBy, hl])
  | stops hl =>
      exact hkeep ⟨rfl, rfl, rfl, rfl, fun _ => rfl⟩ rfl (by rw [hl]; rfl)
        (by rw [hl]; rfl) (by rw [lostBy, hl])

/-! ## Whole runs -/

theorem nodup_openFds {s s' : State} {a : Thread × Env} (hs : Reachable threadSystem s)
    (hnd : s.shared.openFds.Nodup) (hstep : threadSystem.step s a = some s') :
    s'.shared.openFds.Nodup := by
  have hsame : ∀ {t : Shared}, SameList s.shared t → t.openFds.Nodup :=
    fun h => h.openFds ▸ hnd
  obtain ⟨thread, env⟩ := a
  cases thread with
  | reader => exact hsame (readerStep_frame hstep).list
  | listener =>
      cases listenerStep_move hstep with
      | accepts hl hid hfresh => exact List.nodup_cons.mpr ⟨hfresh, hnd⟩
      | refused | noClient | creates | adds | givesUp | spawnsReader | spawnsWriter
      | noThread | stops => exact hnd
  | writer =>
      cases writerStep_move hstep with
      | goes | flush | flagSet | waits | wakes => exact hnd
      | @logout c stage todo hw =>
          cases stage with
          | remove =>
              have h := listInv_reachable hs
              obtain ⟨pre, post, -, hremove⟩ := removeClient_eq h
                (h.listed c (by rw [hw]; exact List.mem_cons_self ..))
              rw [logoutStep, hremove]
              exact hnd
          | close sent => exact hnd.filter _
          | build =>
              rw [logoutStep]
              split <;> exact hnd
          | deliver d =>
              rw [logoutStep]
              cases hd : deliverStep s.shared env d with
              | none => exact hnd
              | some r => exact hsame (sameList_deliverStep hd)
          | snapshot | release => exact hnd
          | signal sent => exact hsame (signalFlush_list s sent).1

/-- The step lemma. -/
theorem conserves_step {s s' : State} {a : Thread × Env} (hs : Reachable threadSystem s)
    (hnd : s.shared.openFds.Nodup) (hstep : threadSystem.step s a = some s') :
    Conserves s s' a := by
  obtain ⟨thread, env⟩ := a
  cases thread with
  | reader => exact conserves_reader hstep
  | writer => exact conserves_writer (listInv_reachable hs) hnd hstep
  | listener => exact conserves_listener hs hstep

/-- The run lemma. -/
theorem conserves_run : ∀ (es : List (Thread × Env)) {s s' : State},
    Reachable threadSystem s → s.shared.openFds.Nodup →
    runFrom threadSystem s es = some s' →
    (s'.shared.openFds ++ fds s).Perm (s.shared.openFds ++ (fds s' ++ lost s es)) := by
  intro es
  induction es with
  | nil =>
      intro s s' _ _ hrun
      obtain rfl := Option.some.inj hrun
      rw [lost, List.append_nil]
  | cons a es ih =>
      intro s s' hs hnd hrun
      obtain ⟨s₁, hstep, hrest⟩ := Option.bind_eq_some_iff.mp hrun
      have hone := conserves_step hs hnd hstep
      have hmore := ih (.step hs hstep) (nodup_openFds hs hnd hstep) hrest
      have hlost : lost s (a :: es) = lostBy s a ++ lost s₁ es := by
        rw [lost, show threadStep s a = some s₁ from hstep]
      rw [hlost]
      rw [Conserves, List.perm_iff_count] at hone
      rw [List.perm_iff_count] at hmore ⊢
      intro fd
      have h1 := hone fd
      have h2 := hmore fd
      simp only [List.count_append] at h1 h2 ⊢
      omega

theorem lost_of_mallocOk : ∀ (es : List (Thread × Env)) (s : State),
    (∀ a ∈ es, a.2.mallocOk = true) → lost s es = [] := by
  intro es
  induction es with
  | nil => exact fun _ _ => rfl
  | cons a es ih =>
      intro s hok
      have hnone : lostBy s a = [] := by
        have ha := hok a (List.mem_cons_self ..)
        obtain ⟨thread, env⟩ := a
        cases thread with
        | reader | writer => rfl
        | listener =>
            rw [lostBy]
            split
            · exact if_pos ha
            · exact if_pos ha
            · rfl
      rw [lost, hnone]
      split
      · rfl
      · next s' _ => exact ih s' fun b hb => hok b (List.mem_cons_of_mem a hb)

/-- **ALL DESCRIPTORS ARE ACCOUNTED FOR**: after every run the open descriptors are
    those of the start, those the threads have, and one for each connection whose
    allocations failed; with no failure there is none of the last kind. -/
theorem descriptors_accounted {s s' : State} (h : threadSystem.start s)
    (hnd : s.shared.openFds.Nodup) {es : List (Thread × Env)}
    (hrun : runFrom threadSystem s es = some s') :
    s'.shared.openFds.Perm (s.shared.openFds ++ (fds s' ++ lost s es))
      ∧ ((∀ a ∈ es, a.2.mallocOk = true) → lost s es = []) := by
  have hnone : fds s = [] := by
    obtain ⟨hcl, -, -, -, -, -, -, hw, hl, -⟩ := h
    rw [fds, live, hcl, hw, hl]
    rfl
  have hall := conserves_run es (.start h) hnd hrun
  rw [hnone, List.append_nil] at hall
  exact ⟨hall, lost_of_mallocOk es s⟩

/-- No memory is left for one connection, the next one is served. -/
def outOfMemory : List (Thread × Env) :=
  [(.listener, { quiet with clientId := 4 }),
    (.listener, { quiet with mallocOk := false })] ++ clientAccepted 1 5

theorem descriptors_accounted_outOfMemory :
    ∃ s, runFrom threadSystem freshProgram outOfMemory = some s
      ∧ lost freshProgram outOfMemory = [4]
      ∧ s.shared.openFds.Perm ([0, 1, 2, 3] ++ ([5] ++ [4])) := by
  have hrun : ((runFrom threadSystem freshProgram outOfMemory).any fun s =>
      decide (fds s = [5])) = true := by decide +kernel
  obtain ⟨s, hs, hp⟩ := (Option.any_eq_true _ _).mp hrun
  have hlost : lost freshProgram outOfMemory = [4] := by decide +kernel
  obtain ⟨hperm, -⟩ := descriptors_accounted freshProgram_start (by decide) hs
  rw [of_decide_eq_true hp, hlost] at hperm
  exact ⟨s, hs, hlost, hperm⟩

end IMDescriptors

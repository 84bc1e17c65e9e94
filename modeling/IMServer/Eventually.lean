import IMServer.Fairness
import IMServer.Spawning
import Mathlib.Data.Prod.Lex

/-! # What the threads get done

    The loops of the writing thread go through snapshots, which other threads do
    not change, so each pass ends after so many steps, however the other threads
    act.  From this come two results about infinite runs: a client whose
    connection breaks is released, and one that stays is flushed again and
    again. -/

namespace IMEventually

open IMClientInfo IMServerInfo IMThreads IMThreadMoves IMTransition IMClientList
  IMSpawning IMFairness IMFairness.InfiniteRun

/-! ## What is left of a pass -/

/-- Lexicographic ranks: what the loop has still to go through, then the stage of
    the client at hand, then what is left of a delivery. -/
abbrev Rank := Nat ×ₗ Nat ×ₗ Nat

def rankOf (n stage left : Nat) : Rank := toLex (n, toLex (stage, left))

theorem rankOf_lt {n stage left n' stage' left' : Nat} :
    rankOf n stage left < rankOf n' stage' left' ↔ n < n'
      ∨ n = n' ∧ (stage < stage' ∨ stage = stage' ∧ left < left') := by
  rw [rankOf, rankOf, Prod.Lex.toLex_lt_toLex, Prod.Lex.toLex_lt_toLex]

/-- What the loop of `deliver_msg_to_all_clients` has still to do. -/
def deliveryLeft (d : Delivery) : Nat :=
  3 * d.rest.length + match d.stage with
    | .pub => 2
    | .name => 1
    | .send => 0

theorem deliverStep_left {s s' : Shared} {env : Env} {d d' : Delivery}
    (h : deliverStep s env d = some (s', d')) :
    deliveryLeft d' < deliveryLeft d := by
  obtain ⟨msg, origin, rest, stage, sentCount⟩ := d
  cases rest with
  | nil => cases h
  | cons c rest =>
      cases stage with
      | pub =>
          simp only [deliverStep] at h
          split at h
          · obtain ⟨-, rfl⟩ := Prod.mk.inj (Option.some.inj h)
            simp only [deliveryLeft, List.length_cons]
            omega
          · obtain ⟨-, rfl⟩ := Prod.mk.inj (Option.some.inj h)
            simp only [deliveryLeft, List.length_cons]
            omega
      | name =>
          simp only [deliverStep] at h
          split at h
          · obtain ⟨-, rfl⟩ := Prod.mk.inj (Option.some.inj h)
            simp only [deliveryLeft, List.length_cons]
            omega
          · split at h
            · obtain ⟨-, rfl⟩ := Prod.mk.inj (Option.some.inj h)
              simp only [deliveryLeft, List.length_cons]
              omega
            · obtain ⟨-, rfl⟩ := Prod.mk.inj (Option.some.inj h)
              simp only [deliveryLeft, List.length_cons]
              omega
      | send =>
          obtain ⟨-, rfl⟩ := Prod.mk.inj (Option.some.inj h)
          simp only [deliveryLeft, List.length_cons]
          omega

/-- What is left of the pass of `write_sockets`; a pass begins at `top`. -/
def passLeft : Writer → Rank
  | .idle => rankOf 0 0 0
  | .top => rankOf 0 0 0
  | .exited => rankOf 0 0 0
  | .loopEnd => rankOf 1 0 0
  | .waiting => rankOf 2 0 0
  | .check => rankOf 3 0 0
  | .logoutScan todo => rankOf (4 + 2 * todo.length) 0 0
  | .logout _ .remove todo => rankOf (5 + 2 * todo.length) 6 0
  | .logout _ .build todo => rankOf (5 + 2 * todo.length) 5 0
  | .logout _ (.snapshot _) todo => rankOf (5 + 2 * todo.length) 4 0
  | .logout _ (.deliver d) todo => rankOf (5 + 2 * todo.length) 3 (deliveryLeft d)
  | .logout _ (.close _) todo => rankOf (5 + 2 * todo.length) 2 0
  | .logout _ (.release _) todo => rankOf (5 + 2 * todo.length) 1 0
  | .logout _ (.signal _) todo => rankOf (5 + 2 * todo.length) 0 0
  | .flush todo all true =>
      rankOf (5 + 2 * all.length + 2 * todo.length) 0 0
  | .flush todo all false =>
      rankOf (6 + 2 * all.length + 2 * todo.length) 0 0

theorem writerGoes_left {env : Env} {s : Shared} {w w' : Writer}
    (h : WriterGoes env s w w') (htop : w ≠ .top) : passLeft w' < passLeft w := by
  cases h with
  | snapshot | ends => exact absurd rfl htop
  | flushed all pubChecked =>
      cases pubChecked <;>
        exact rankOf_lt.mpr (Or.inl (by simp only [List.length_nil]; omega))
  | skips | checksPub | marked | passes =>
      exact rankOf_lt.mpr (Or.inl (by simp only [List.length_cons]; omega))
  | scanned | again | stops => exact rankOf_lt.mpr (Or.inl (by decide))

theorem logoutStep_left (s : State) (env : Env) (c : PClientInfo)
    (todo : List PClientInfo) (stage : LogoutStage) :
    passLeft (logoutStep s env c todo stage).writer
      < passLeft (.logout c stage todo) := by
  cases stage with
  | remove | snapshot | close | release =>
      exact rankOf_lt.mpr (Or.inr ⟨rfl, Or.inl (by decide)⟩)
  | build =>
      rw [logoutStep]
      split <;> exact rankOf_lt.mpr (Or.inr ⟨rfl, Or.inl (by decide)⟩)
  | deliver d =>
      rw [logoutStep]
      cases hd : deliverStep s.shared env d with
      | none => exact rankOf_lt.mpr (Or.inr ⟨rfl, Or.inl (by decide)⟩)
      | some r =>
          exact rankOf_lt.mpr (Or.inr ⟨rfl, Or.inr ⟨rfl, deliverStep_left hd⟩⟩)
  | signal => exact rankOf_lt.mpr (Or.inl (by omega))

/-- **EVERY PASS OF THE WRITING THREAD ENDS**: each of its steps but the snapshot
    leaves less of the pass. -/
theorem writerStep_left {s s' : State} {env : Env}
    (h : writerStep s env = some s') (htop : s.writer ≠ .top) :
    passLeft s'.writer < passLeft s.writer := by
  cases writerStep_move h with
  | goes hgo => exact writerGoes_left hgo htop
  | flush hw =>
      rw [hw]
      exact rankOf_lt.mpr (Or.inl (by simp only [List.length_cons]; omega))
  | logout hw =>
      rw [hw]
      exact logoutStep_left ..
  | flagSet hw | waits hw | wakes hw =>
      rw [hw]
      exact rankOf_lt.mpr (Or.inl (by decide))

/-! ## A marked client is released -/

/-- The thread steps are the writing thread's. -/
def ByWriter (_ : State) (a : Thread × Env) : Prop := a.1 = .writer

def ByReader (_ : State) (a : Thread × Env) : Prop := a.1 = .reader

/-- The client is off the list and not released yet. -/
def leavingOf : Writer → List PClientInfo
  | .logout _ .remove _ => []
  | .logout _ (.signal _) _ => []
  | .logout c _ _ => [c]
  | _ => []

/-- The client is marked, or already being logged out. -/
def Doomed (c : PClientInfo) (s : State) : Prop :=
  c ∈ leavingOf s.writer
    ∨ (c ∈ s.shared.clients ∧ (s.shared.info c).pub = fail)

/-- Being logged out, about to be, or not in this pass. -/
def phase (c : PClientInfo) (w : Writer) : Nat :=
  if c ∈ leavingOf w then 0 else if c ∈ todoOf w then 1 else 2

/-- The rank: the phase, and what is left of the pass. -/
def doomRank (c : PClientInfo) (s : State) : Nat ×ₗ Rank :=
  toLex (phase c s.writer, passLeft s.writer)

/-- The other threads leave a doomed client doomed, and the writing thread where
    it is, or start it. -/
theorem doomed_other {s s' : State} {a : Thread × Env} {c : PClientInfo}
    (hs : Reachable threadSystem s) (h : Doomed c s) (ha : a.1 ≠ .writer)
    (hstep : threadSystem.step s a = some s') :
    Doomed c s' ∧ doomRank c s' = doomRank c s := by
  obtain ⟨thread, env⟩ := a
  cases thread with
  | writer => exact absurd rfl ha
  | reader =>
      have hf := readerStep_frame hstep
      rw [Doomed, doomRank, doomRank, hf.writer, hf.list.clients]
      refine ⟨h.imp_right fun ⟨hc, hpub⟩ => ⟨hc, ?_⟩, rfl⟩
      rcases hf.pub c with h1 | ⟨h2, -⟩
      · rw [h1, hpub]
      · exact h2
  | listener =>
      have hinv := listInv_reachable hs
      cases listenerStep_move hstep with
      | refused | accepts | noClient | givesUp | spawnsReader | noThread | stops =>
          exact ⟨h, rfl⟩
      | @creates spawned clientId hl hok hfresh =>
          refine ⟨h.imp_right fun ⟨hc, hpub⟩ => ⟨hc, ?_⟩, rfl⟩
          have hne : c ≠ env.block := by
            rintro rfl
            exact hfresh (hinv.created _ (List.mem_append_left _
              (List.mem_append_left _ hc)))
          show (Function.update s.shared.info env.block _ c).pub = fail
          rw [Function.update_of_ne hne, hpub]
      | adds =>
          exact ⟨h.imp_right fun ⟨hc, hpub⟩ =>
            ⟨List.mem_append_left _ hc, hpub⟩, rfl⟩
      | spawnsWriter hl hok =>
          have hidle := (idle_of_unspawned hs (hl ▸ trivial)).1
          rw [Doomed, hidle] at h
          rw [Doomed, doomRank, doomRank, hidle]
          exact ⟨h, rfl⟩

theorem phase_of_not_leaving {c : PClientInfo} {w : Writer}
    (h : c ∉ leavingOf w) : phase c w = if c ∈ todoOf w then 1 else 2 :=
  if_neg h

theorem phase_le {c : PClientInfo} {w w' : Writer}
    (hleaving : c ∈ leavingOf w → c ∈ leavingOf w')
    (htodo : c ∈ todoOf w → c ∈ leavingOf w' ∨ c ∈ todoOf w') :
    phase c w' ≤ phase c w := by
  rw [phase, phase]
  by_cases h1 : c ∈ leavingOf w'
  · rw [if_pos h1]
    exact Nat.zero_le _
  · rw [if_neg h1, if_neg (mt hleaving h1)]
    by_cases h2 : c ∈ todoOf w
    · rw [if_pos h2, if_pos ((htodo h2).resolve_left h1)]
    · rw [if_neg h2]
      split <;> decide

theorem doomRank_lt {c : PClientInfo} {s s' : State}
    (hphase : phase c s'.writer ≤ phase c s.writer)
    (hleft : passLeft s'.writer < passLeft s.writer) :
    doomRank c s' < doomRank c s := by
  rw [doomRank, doomRank, Prod.Lex.toLex_lt_toLex]
  exact (Nat.lt_or_eq_of_le hphase).imp_right fun h => ⟨h, hleft⟩

/-- What a step of the writing thread gets done for a doomed client: it is
    released, or the rank is lower. -/
def Served (c : PClientInfo) (s s' : State) : Prop :=
  c ∈ s'.shared.released ∨ (Doomed c s' ∧ doomRank c s' < doomRank c s)

theorem goes_leaving {env : Env} {s : Shared} {w w' : Writer}
    (h : WriterGoes env s w w') : leavingOf w = [] := by
  cases h <;> rfl

/-- A marked client stays in the loop over the snapshot until its turn. -/
theorem goes_todo {env : Env} {s : Shared} {w w' : Writer} {c : PClientInfo}
    (h : WriterGoes env s w w') (hpub : (s.info c).pub = fail)
    (hm : c ∈ todoOf w) : c ∈ todoOf w' := by
  cases h with
  | snapshot | ends | scanned | again | stops => exact absurd hm List.not_mem_nil
  | flushed | skips | checksPub | marked => exact hm
  | passes d todo hd =>
      refine (List.mem_cons.mp hm).resolve_left ?_
      rintro rfl
      exact hd hpub

/-- A pass begins with a snapshot that has the client. -/
theorem phase_top {env : Env} {s : Shared} {w : Writer} {c : PClientInfo}
    (hcount : s.clientCount = s.clients.length) (hc : c ∈ s.clients)
    (h : WriterGoes env s .top w) (hexit : w ≠ .exited) :
    phase c w < phase c .top := by
  cases h with
  | ends hok => exact absurd rfl hexit
  | snapshot hok =>
      have hmem : c ∈ todoOf (.flush s.getClientList s.getClientList false) := by
        rw [todoOf, getClientList_eq hcount]
        exact hc
      have htop : phase c .top = 2 := (phase_of_not_leaving List.not_mem_nil).trans
        (if_neg List.not_mem_nil)
      rw [htop, phase_of_not_leaving (w := .flush _ _ _) List.not_mem_nil,
        if_pos hmem]
      decide

theorem served_goes {s : State} {env : Env} {c : PClientInfo} {w : Writer}
    (hinv : ListInv s) (h : Doomed c s) (hgo : WriterGoes env s.shared s.writer w)
    (hexit : w ≠ .exited) : Served c s { s with writer := w } := by
  have hleaving : c ∉ leavingOf s.writer := by
    rw [goes_leaving hgo]
    exact List.not_mem_nil
  have hlisted := h.resolve_left hleaving
  refine Or.inr ⟨Or.inr hlisted, ?_⟩
  by_cases htop : s.writer = .top
  · rw [doomRank, doomRank, Prod.Lex.toLex_lt_toLex]
    rw [htop] at hgo ⊢
    exact Or.inl (phase_top hinv.count hlisted.1 hgo hexit)
  · exact doomRank_lt (phase_le (fun hm => absurd hm hleaving)
      (fun hm => Or.inr (goes_todo hgo hlisted.2 hm))) (writerGoes_left hgo htop)

/-- A step that leaves the list, the marks and the loop where they are. -/
theorem served_same {s s' : State} {c : PClientInfo} (h : Doomed c s)
    (hclients : s'.shared.clients = s.shared.clients)
    (hpub : (s'.shared.info c).pub = (s.shared.info c).pub)
    (hleaving : leavingOf s'.writer = leavingOf s.writer)
    (htodo : todoOf s'.writer = todoOf s.writer)
    (hleft : passLeft s'.writer < passLeft s.writer) : Served c s s' := by
  refine Or.inr ⟨?_, doomRank_lt (phase_le ?_ ?_) hleft⟩
  · rw [Doomed, hleaving, hclients, hpub]
    exact h
  · rw [hleaving]
    exact id
  · rw [htodo]
    exact Or.inr

/-- A step of the logout of a client `d`, which may be the doomed client. -/
theorem served_logout {s : State} {env : Env} {c d : PClientInfo}
    {stage : LogoutStage} {todo : List PClientInfo} (hinv : ListInv s)
    (h : Doomed c s) (hw : s.writer = .logout d stage todo) :
    Served c s (logoutStep s env d todo stage) := by
  have hleft : passLeft (logoutStep s env d todo stage).writer
      < passLeft s.writer := hw ▸ logoutStep_left s env d todo stage
  cases stage with
  | remove =>
      have hlisted := h.resolve_left (by rw [hw]; exact List.not_mem_nil)
      obtain ⟨pre, post, hsplit, hremove⟩ := removeClient_eq hinv
        (hinv.listed d (by rw [hw]; exact List.mem_cons_self ..))
      rw [logoutStep, hremove] at hleft ⊢
      by_cases hcd : c = d
      · subst hcd
        have hmem : c ∈ leavingOf (.logout c .build todo) := List.mem_cons_self ..
        exact Or.inr ⟨Or.inl hmem,
          doomRank_lt (phase_le (fun _ => hmem) (fun _ => Or.inl hmem)) hleft⟩
      · refine Or.inr ⟨Or.inr ⟨?_, hlisted.2⟩, doomRank_lt (phase_le ?_ ?_) hleft⟩
        · have hmem := hlisted.1
          rw [hsplit, List.mem_append, List.mem_cons] at hmem
          exact List.mem_append.mpr (hmem.imp_right (Or.resolve_left · hcd))
        · rw [hw]
          exact fun hm => absurd hm List.not_mem_nil
        · rw [hw]
          exact fun hm => Or.inr ((List.mem_cons.mp hm).resolve_left hcd)
  | build =>
      rw [logoutStep] at hleft ⊢
      split at hleft <;>
        exact served_same h rfl rfl (by rw [hw]; rfl) (by rw [hw]; rfl) hleft
  | snapshot msg =>
      exact served_same h rfl rfl (by rw [hw]; rfl) (by rw [hw]; rfl) hleft
  | deliver dl =>
      rw [logoutStep] at hleft ⊢
      cases hd : deliverStep s.shared env dl with
      | none =>
          rw [hd] at hleft
          exact served_same h rfl rfl (by rw [hw]; rfl) (by rw [hw]; rfl) hleft
      | some r =>
          rw [hd] at hleft
          refine served_same h (sameList_deliverStep hd).clients ?_
            (by rw [hw]; rfl) (by rw [hw]; rfl) hleft
          exact congrArg (fun info => (info c).pub) (deliverStep_info hd).2.1
  | close sentCount =>
      exact served_same h rfl rfl (by rw [hw]; rfl) (by rw [hw]; rfl) hleft
  | release sentCount =>
      by_cases hcd : c = d
      · subst hcd
        exact Or.inl (List.mem_cons_self ..)
      · have hout : c ∉ leavingOf s.writer := by
          rw [hw]
          exact fun hm => hcd (List.mem_singleton.mp hm)
        refine Or.inr ⟨Or.inr (h.resolve_left hout), doomRank_lt (phase_le
          (fun hm => absurd hm hout) ?_) hleft⟩
        rw [hw]
        exact Or.inr
  | signal sentCount =>
      have hlisted := h.resolve_left (by rw [hw]; exact List.not_mem_nil)
      obtain ⟨hlist, hinfo, -⟩ := signalFlush_list s sentCount
      refine Or.inr ⟨Or.inr ⟨hlist.clients ▸ hlisted.1, ?_⟩,
        doomRank_lt (phase_le ?_ ?_) hleft⟩
      · show ((s.signalFlush sentCount).shared.info c).pub = fail
        rw [hinfo, hlisted.2]
      · rw [hw]
        exact fun hm => absurd hm List.not_mem_nil
      · rw [hw]
        exact Or.inr

/-- **A STEP OF THE WRITING THREAD** serves a doomed client. -/
theorem served_writer {s s' : State} {env : Env} {c : PClientInfo}
    (hs : Reachable threadSystem s) (h : Doomed c s)
    (hstep : writerStep s env = some s') (hexit : s'.writer ≠ .exited) :
    Served c s s' := by
  have hinv := listInv_reachable hs
  have hleft := fun htop => writerStep_left hstep htop
  cases writerStep_move hstep with
  | goes hgo => exact served_goes hinv h hgo hexit
  | logout hw => exact served_logout hinv h hw
  | flush hw =>
      exact served_same h rfl rfl (by rw [hw]; rfl) (by rw [hw]; rfl)
        (hleft (by rw [hw]; exact fun e => (by cases e)))
  | flagSet hw | waits hw | wakes hw =>
      exact served_same h rfl rfl (by rw [hw]; rfl) (by rw [hw]; rfl)
        (hleft (by rw [hw]; exact fun e => (by cases e)))

/-- A thread that has ended takes no more steps. -/
theorem exited_stays {s s' : State} {a : Thread × Env}
    (hs : Reachable threadSystem s) (h : s.writer = .exited)
    (hstep : threadSystem.step s a = some s') :
    s'.writer = .exited ∧ ¬ ByWriter s a := by
  by_cases ha : a.1 = .writer
  · obtain ⟨thread, env⟩ := a
    obtain rfl : thread = .writer := ha
    have hnone : writerStep s env = none := by rw [writerStep, h]
    exact absurd ((show writerStep s env = some s' from hstep).symm.trans hnone)
      (Option.some_ne_none s')
  · refine ⟨?_, ha⟩
    rcases other_writer hs ha hstep with hsame | ⟨hidle, -⟩
    · rw [hsame, h]
    · rw [h] at hidle
      cases hidle

variable {ρ : InfiniteRun threadSystem}

theorem writer_goes_on (hw : ρ.Often ByWriter) (n : Nat) :
    (ρ.state n).writer ≠ .exited := by
  intro hexit
  have hstays : ∀ d, (ρ.state (n + d)).writer = .exited := by
    intro d
    induction d with
    | zero => exact hexit
    | succ d ih => exact (exited_stays (ρ.reachable _) ih (ρ.step (n + d))).1
  obtain ⟨m, hnm, hm⟩ := hw n
  obtain ⟨d, rfl⟩ := Nat.exists_eq_add_of_le hnm
  exact (exited_stays (ρ.reachable _) (hstays d) (ρ.step (n + d))).2 hm

/-- **DOOMED CLIENTS ARE RELEASED** in every infinite run in which the writing
    thread keeps taking steps. -/
theorem doomed_released (hw : ρ.Often ByWriter) (c : PClientInfo) :
    ρ.LeadsTo (Doomed c) fun s => c ∈ s.shared.released := by
  have hserved : ∀ n, Doomed c (ρ.state n) →
      ByWriter (ρ.state n) (ρ.event n) → Served c (ρ.state n) (ρ.state (n + 1)) :=
    by
    intro n h hby
    have hstep := ρ.step n
    cases hevent : ρ.event n with
    | mk thread env =>
        rw [hevent] at hstep hby
        obtain rfl : thread = .writer := hby
        exact served_writer (ρ.reachable n) h hstep (writer_goes_on hw (n + 1))
  refine leadsTo_of_rank (doomRank c) hw ?_ ?_
  · intro n h
    by_cases hby : (ρ.event n).1 = .writer
    · exact (hserved n h hby).imp_right fun ⟨h', hlt⟩ => ⟨h', hlt.le⟩
    · obtain ⟨h', heq⟩ := doomed_other (ρ.reachable n) h hby (ρ.step n)
      exact Or.inr ⟨h', heq.le⟩
  · exact fun n h hby => (hserved n h hby).imp_right And.right

/-! ## A broken connection -/

theorem logout_listed {s : State} {env : Env} {c d : PClientInfo}
    {stage : LogoutStage} {todo : List PClientInfo} (hinv : ListInv s)
    (hc : c ∈ s.shared.clients) (hw : s.writer = .logout d stage todo) :
    c ∈ (logoutStep s env d todo stage).shared.clients
      ∨ c ∈ leavingOf (logoutStep s env d todo stage).writer := by
  cases stage with
  | remove =>
      obtain ⟨pre, post, hsplit, hremove⟩ := removeClient_eq hinv
        (hinv.listed d (by rw [hw]; exact List.mem_cons_self ..))
      by_cases hcd : c = d
      · subst hcd
        exact Or.inr (List.mem_cons_self ..)
      · refine Or.inl ?_
        rw [hsplit, List.mem_append, List.mem_cons] at hc
        rw [logoutStep, hremove]
        exact List.mem_append.mpr (hc.imp_right (Or.resolve_left · hcd))
  | build =>
      rw [logoutStep]
      split <;> exact Or.inl hc
  | deliver dl =>
      rw [logoutStep]
      cases hd : deliverStep s.shared env dl with
      | none => exact Or.inl hc
      | some r => exact Or.inl ((sameList_deliverStep hd).clients ▸ hc)
  | snapshot | close | release => exact Or.inl hc
  | signal sentCount =>
      exact Or.inl ((signalFlush_list s sentCount).1.clients ▸ hc)

/-- A listed client stays on the list until it is being logged out. -/
theorem listed_step {s s' : State} {a : Thread × Env} {c : PClientInfo}
    (hs : Reachable threadSystem s) (hc : c ∈ s.shared.clients)
    (hstep : threadSystem.step s a = some s') :
    c ∈ s'.shared.clients ∨ c ∈ leavingOf s'.writer := by
  obtain ⟨thread, env⟩ := a
  cases thread with
  | reader => exact Or.inl ((readerStep_frame hstep).list.clients ▸ hc)
  | writer =>
      cases writerStep_move hstep with
      | logout hw => exact logout_listed (listInv_reachable hs) hc hw
      | goes | flush | flagSet | waits | wakes => exact Or.inl hc
  | listener =>
      cases listenerStep_move hstep with
      | adds => exact Or.inl (List.mem_append_left _ hc)
      | refused | accepts | noClient | creates | givesUp | spawnsReader
      | spawnsWriter | noThread | stops => exact Or.inl hc

/-- The reading thread has found the connection closed or broken. -/
def FoundBroken (c : PClientInfo) (s : State) : Prop :=
  c ∈ s.shared.clients ∧ ∃ entries, s.reader = .markFail c entries

/-- The reading thread marks the client. -/
theorem foundBroken_reader {s s' : State} {env : Env} {c : PClientInfo}
    (h : FoundBroken c s) (hstep : readerStep s env = some s') : Doomed c s' := by
  obtain ⟨hc, entries, hr⟩ := h
  rw [readerStep, hr] at hstep
  obtain rfl := Option.some.inj hstep
  refine Or.inr ⟨hc, ?_⟩
  show (Function.update s.shared.info c _ c).pub = fail
  rw [Function.update_self]

theorem foundBroken_other {s s' : State} {a : Thread × Env} {c : PClientInfo}
    (hs : Reachable threadSystem s) (h : FoundBroken c s) (ha : a.1 ≠ .reader)
    (hstep : threadSystem.step s a = some s') : Doomed c s' ∨ FoundBroken c s' := by
  obtain ⟨hc, entries, hr⟩ := h
  have hreader : s'.reader = .markFail c entries := by
    rcases other_reader hs ha hstep with hsame | hidle
    · rw [hsame, hr]
    · rw [hr] at hidle
      cases hidle
  rcases listed_step hs hc hstep with hc' | hleaving
  · exact Or.inr ⟨hc', entries, hreader⟩
  · exact Or.inl (Or.inl hleaving)

/-- The peers of all clients hang up. -/
def hungUp : Env := { quiet with pollRet := 1, revents := fun _ => 16 }

/-- The reading thread finds the connection of the only client broken. -/
def foundBrokenRun : List (Thread × Env) :=
  clientAccepted 1 4 ++ threadsCreated
    ++ [(.reader, quiet), (.reader, quiet), (.reader, quiet), (.reader, hungUp),
      (.reader, quiet)]

/-- It marks the client, and the writing thread logs it out. -/
def loggedOutRun : List (Thread × Env) :=
  List.replicate 3 (.reader, quiet) ++ List.replicate 15 (.writer, quiet)

/-- One pass of each thread. -/
def idlePass : List (Thread × Env) :=
  List.replicate 4 (.reader, quiet) ++ List.replicate 6 (.writer, quiet)

/-- With no clients left, a pass changes nothing. -/
theorem idlePass_loop {s : State} (hreader : s.reader = .top)
    (hwriter : s.writer = .top) (hclients : s.shared.clients = [])
    (hcount : s.shared.clientCount = 0) (hsign : s.shared.signToFlushMsg = 0)
    (hrun : s.shared.isRunning = true) (hfound : s.foundSet = false)
    (hincreased : s.increased = false) :
    runFrom threadSystem s idlePass = some s := by
  obtain ⟨⟨clients, clientCount, signToFlushMsg, isRunning, info, writing, openFds,
    created, released⟩, reader, writer, listener, calls, foundSet, increased⟩ := s
  subst hreader hwriter hclients hcount hsign hrun hfound hincreased
  rfl

theorem exists_brokenRun : ∃ ρ : InfiniteRun threadSystem,
    FoundBroken 1 (ρ.state 0) ∧ ρ.Often ByReader ∧ ρ.Often ByWriter := by
  obtain ⟨s, t, hs, ht, hclients, hreader, htop⟩ : ∃ s t,
      runFrom threadSystem freshProgram foundBrokenRun = some s
        ∧ runFrom threadSystem s loggedOutRun = some t
        ∧ s.shared.clients = [1] ∧ s.reader = .markFail 1 []
        ∧ t.reader = .top ∧ t.writer = .top ∧ t.shared.clients = []
        ∧ t.shared.clientCount = 0 ∧ t.shared.signToFlushMsg = 0
        ∧ t.shared.isRunning = true ∧ t.foundSet = false ∧ t.increased = false :=
    ⟨_, _, rfl, rfl, rfl, rfl, rfl, rfl, rfl, rfl, rfl, rfl, rfl, rfl⟩
  obtain ⟨h1, h2, h3, h4, h5, h6, h7, h8⟩ := htop
  have hne : idlePass ≠ [] := fun e => (by cases e)
  obtain ⟨ρ, hstart, -, hoften⟩ := exists_lasso hne
    (runFrom_reachable threadSystem _ (.start freshProgram_start) hs) ht
    (idlePass_loop h1 h2 h3 h4 h5 h6 h7 h8)
  refine ⟨ρ, ⟨?_, [], ?_⟩, hoften _ (.reader, quiet) ?_ fun _ => rfl,
    hoften _ (.writer, quiet) ?_ fun _ => rfl⟩
  · rw [hstart, hclients]
    exact List.mem_cons_self ..
  · rw [hstart, hreader]
  · exact List.mem_cons_self ..
  · exact List.mem_append_right _ (List.mem_cons_self ..)

/-- **A BROKEN CONNECTION IS CLEANED UP**: in every infinite run in which both
    threads keep taking steps, a client that is found broken, or is marked
    already, is released in the end. -/
theorem broken_released (ρ : InfiniteRun threadSystem) (hr : ρ.Often ByReader)
    (hw : ρ.Often ByWriter) (c : PClientInfo) :
    ρ.LeadsTo (fun s => FoundBroken c s
        ∨ (c ∈ s.shared.clients ∧ (s.shared.info c).pub = fail))
      fun s => c ∈ s.shared.released := by
  have hmarks : ∀ n, FoundBroken c (ρ.state n) → ByReader (ρ.state n) (ρ.event n) →
      Doomed c (ρ.state (n + 1)) := by
    intro n h hby
    have hstep := ρ.step n
    cases hevent : ρ.event n with
    | mk thread env =>
        rw [hevent] at hstep hby
        obtain rfl : thread = .reader := hby
        exact foundBroken_reader h hstep
  have hfound : ρ.LeadsTo (FoundBroken c) (Doomed c) := by
    refine leadsTo_of_rank (fun _ => 0) hr ?_ (fun n h hby => Or.inl (hmarks n h hby))
    intro n h
    by_cases hby : (ρ.event n).1 = .reader
    · exact Or.inl (hmarks n h hby)
    · exact (foundBroken_other (ρ.reachable n) h hby (ρ.step n)).imp_right
        fun h' => ⟨h', le_refl 0⟩
  intro n h
  rcases h with hbroken | hmarked
  · exact hfound.trans (doomed_released hw c) n hbroken
  · exact doomed_released hw c n (Or.inr hmarked)

theorem broken_released_hungUp : ∃ ρ : InfiniteRun threadSystem,
    FoundBroken 1 (ρ.state 0)
      ∧ ∃ m, 0 ≤ m ∧ 1 ∈ (ρ.state m).shared.released := by
  obtain ⟨ρ, hfound, hr, hw⟩ := exists_brokenRun
  exact ⟨ρ, hfound, broken_released ρ hr hw 1 0 (Or.inl hfound)⟩

/-! ## A client that stays -/

/-- The clients of this pass that have not been flushed. -/
def flushTodo : Writer → List PClientInfo
  | .flush todo _ _ => todo
  | _ => []

/-- The next step of the writing thread flushes the client. -/
def AtFlush (c : PClientInfo) (s : State) : Prop :=
  ∃ todo all, s.writer = .flush (c :: todo) all true

/-- The client is to be flushed, in this pass or in the next. -/
def Waits (c : PClientInfo) (s : State) : Prop :=
  c ∈ s.shared.clients ∧ (s.shared.info c).pub ≠ fail ∧ ¬ AtFlush c s

def flushPhase (c : PClientInfo) (w : Writer) : Nat :=
  if c ∈ flushTodo w then 0 else 1

def flushRank (c : PClientInfo) (s : State) : Nat ×ₗ Rank :=
  toLex (flushPhase c s.writer, passLeft s.writer)

theorem flushRank_lt {c : PClientInfo} {s s' : State}
    (htodo : c ∈ flushTodo s.writer → c ∈ flushTodo s'.writer)
    (hleft : passLeft s'.writer < passLeft s.writer) :
    flushRank c s' < flushRank c s := by
  have hphase : flushPhase c s'.writer ≤ flushPhase c s.writer := by
    rw [flushPhase, flushPhase]
    by_cases h : c ∈ flushTodo s.writer
    · rw [if_pos h, if_pos (htodo h)]
    · rw [if_neg h]
      split <;> decide
  rw [flushRank, flushRank, Prod.Lex.toLex_lt_toLex]
  exact (Nat.lt_or_eq_of_le hphase).imp_right fun h => ⟨h, hleft⟩

/-- A step of the writing thread brings the flush of a client nearer. -/
theorem waits_writer {s s' : State} {env : Env} {c : PClientInfo}
    (hs : Reachable threadSystem s) (h : Waits c s)
    (hstep : writerStep s env = some s') (hexit : s'.writer ≠ .exited) :
    flushRank c s' < flushRank c s := by
  obtain ⟨hc, hpub, hflush⟩ := h
  have hleft : s.writer ≠ .top → passLeft s'.writer < passLeft s.writer :=
    writerStep_left hstep
  cases writerStep_move hstep with
  | @goes w hgo =>
      cases hw : s.writer with
      | top =>
          rw [hw] at hgo
          cases hgo with
          | ends hok => exact absurd rfl hexit
          | snapshot hok =>
              -- the new pass has the client
              rw [flushRank, flushRank, Prod.Lex.toLex_lt_toLex, hw]
              refine Or.inl ?_
              have hmem : c ∈ s.shared.getClientList := by
                rw [getClientList_eq (listInv_reachable hs).count]
                exact hc
              have htop : flushPhase c .top = 1 := if_neg List.not_mem_nil
              show (if c ∈ s.shared.getClientList then 0 else 1) < flushPhase c .top
              rw [if_pos hmem, htop]
              exact Nat.zero_lt_one
      | flush todo all pubChecked =>
          refine flushRank_lt ?_ (hleft (by rw [hw]; exact fun e => (by cases e)))
          rw [hw] at hgo ⊢
          cases hgo with
          | flushed => exact id
          | skips d todo all hd =>
              intro hm
              refine (List.mem_cons.mp hm).resolve_left ?_
              rintro rfl
              exact hpub hd
          | checksPub => exact id
      | idle | exited | logoutScan | logout | check | waiting | loopEnd =>
          refine flushRank_lt ?_ (hleft (by rw [hw]; exact fun e => (by cases e)))
          rw [hw]
          exact fun hm => absurd hm List.not_mem_nil
  | @flush d todo all hw =>
      refine flushRank_lt ?_ (hleft (by rw [hw]; exact fun e => (by cases e)))
      rw [hw]
      intro hm
      refine (List.mem_cons.mp hm).resolve_left ?_
      rintro rfl
      exact hflush ⟨todo, all, hw⟩
  | logout hw | flagSet hw | waits hw | wakes hw =>
      refine flushRank_lt ?_ (hleft (by rw [hw]; exact fun e => (by cases e)))
      rw [hw]
      exact fun hm => absurd hm List.not_mem_nil

theorem waits_other {s s' : State} {a : Thread × Env} {c : PClientInfo}
    (hs : Reachable threadSystem s) (ha : a.1 ≠ .writer)
    (hstep : threadSystem.step s a = some s') : flushRank c s' = flushRank c s := by
  rcases other_writer hs ha hstep with hsame | ⟨hidle, htop⟩
  · rw [flushRank, flushRank, hsame]
  · rw [flushRank, flushRank, hidle, htop]
    rfl

/-- A listed client comes to its turn, or to its logout. -/
theorem listed_served (hw : ρ.Often ByWriter) (c : PClientInfo) :
    ρ.LeadsTo (fun s => c ∈ s.shared.clients) fun s => AtFlush c s ∨ Doomed c s := by
  have hcases : ∀ n, c ∈ (ρ.state n).shared.clients →
      (AtFlush c (ρ.state n) ∨ Doomed c (ρ.state n)) ∨ Waits c (ρ.state n) := by
    intro n hc
    by_cases hpub : ((ρ.state n).shared.info c).pub = fail
    · exact Or.inl (Or.inr (Or.inr ⟨hc, hpub⟩))
    · by_cases hflush : AtFlush c (ρ.state n)
      · exact Or.inl (Or.inl hflush)
      · exact Or.inr ⟨hc, hpub, hflush⟩
  have hnext : ∀ n, Waits c (ρ.state n) →
      (AtFlush c (ρ.state (n + 1)) ∨ Doomed c (ρ.state (n + 1)))
        ∨ Waits c (ρ.state (n + 1)) := by
    intro n h
    rcases listed_step (ρ.reachable n) h.1 (ρ.step n) with hc | hleaving
    · exact hcases (n + 1) hc
    · exact Or.inl (Or.inr (Or.inl hleaving))
  have hlower : ∀ n, Waits c (ρ.state n) → ByWriter (ρ.state n) (ρ.event n) →
      flushRank c (ρ.state (n + 1)) < flushRank c (ρ.state n) := by
    intro n h hby
    have hstep := ρ.step n
    cases hevent : ρ.event n with
    | mk thread env =>
        rw [hevent] at hstep hby
        obtain rfl : thread = .writer := hby
        exact waits_writer (ρ.reachable n) h hstep (writer_goes_on hw (n + 1))
  have hwaits : ρ.LeadsTo (Waits c) fun s => AtFlush c s ∨ Doomed c s := by
    refine leadsTo_of_rank (flushRank c) hw ?_
      (fun n h hby => Or.inr (hlower n h hby))
    intro n h
    refine (hnext n h).imp_right fun h' => ⟨h', ?_⟩
    by_cases hby : (ρ.event n).1 = .writer
    · exact (hlower n h hby).le
    · exact (waits_other (ρ.reachable n) hby (ρ.step n)).le
  intro n hc
  rcases hcases n hc with hdone | hwait
  · exact ⟨n, Nat.le_refl n, hdone⟩
  · exact hwaits n hwait

/-- A client that is never released stays on the list, and has its turn again and
    again. -/
theorem stays_served (hw : ρ.Often ByWriter) {c : PClientInfo} {n : Nat}
    (hc : c ∈ (ρ.state n).shared.clients)
    (hnot : ¬ ∃ m, n ≤ m ∧ c ∈ (ρ.state m).shared.released) :
    (∀ d, c ∈ (ρ.state (n + d)).shared.clients)
      ∧ ∀ m, n ≤ m → ∃ k, m ≤ k ∧ AtFlush c (ρ.state k) := by
  have hfree : ∀ m, n ≤ m → ¬ Doomed c (ρ.state m) := by
    intro m hnm hd
    obtain ⟨k, hmk, hk⟩ := doomed_released hw c m hd
    exact hnot ⟨k, Nat.le_trans hnm hmk, hk⟩
  have hlisted : ∀ d, c ∈ (ρ.state (n + d)).shared.clients := by
    intro d
    induction d with
    | zero => exact hc
    | succ d ih =>
        rcases listed_step (ρ.reachable _) ih (ρ.step (n + d)) with h | hleaving
        · exact h
        · exact absurd (Or.inl hleaving) (hfree (n + d + 1) (by omega))
  refine ⟨hlisted, fun m hnm => ?_⟩
  obtain ⟨d, rfl⟩ := Nat.exists_eq_add_of_le hnm
  obtain ⟨k, hk, hflush | hd⟩ := listed_served hw c (n + d) (hlisted d)
  · exact ⟨k, hk, hflush⟩
  · exact absurd hd (hfree k (Nat.le_trans hnm hk))

/-- **NO CLIENT IS FORGOTTEN**: in every infinite run in which the writing thread
    keeps taking steps, a listed client is released in the end, or its turn to be
    flushed comes again and again. -/
theorem flushed_or_released (ρ : InfiniteRun threadSystem) (hw : ρ.Often ByWriter)
    (c : PClientInfo) (n : Nat) (hc : c ∈ (ρ.state n).shared.clients) :
    (∃ m, n ≤ m ∧ c ∈ (ρ.state m).shared.released)
      ∨ ∀ m, n ≤ m → ∃ k, m ≤ k ∧ AtFlush c (ρ.state k) := by
  by_cases hreleased : ∃ m, n ≤ m ∧ c ∈ (ρ.state m).shared.released
  · exact Or.inl hreleased
  · exact Or.inr (stays_served hw hc hreleased).2

theorem flushed_or_released_hungUp : ∃ ρ : InfiniteRun threadSystem,
    1 ∈ (ρ.state 0).shared.clients
      ∧ ((∃ m, 0 ≤ m ∧ 1 ∈ (ρ.state m).shared.released)
        ∨ ∀ m, 0 ≤ m → ∃ k, m ≤ k ∧ AtFlush 1 (ρ.state k)) := by
  obtain ⟨ρ, hfound, -, hw⟩ := exists_brokenRun
  exact ⟨ρ, hfound.1, flushed_or_released ρ hw 1 0 hfound.1⟩

end IMEventually

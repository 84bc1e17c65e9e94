import IMServer.Eventually
import IMServer.Flush

/-! # What is queued is written

    A writing buffer is emptied at the front and filled at the end.  Together with
    the turns that come again and again this says that every byte queued for a
    client whose socket takes what it is given reaches this socket, however much
    is queued behind it, unless the client goes away. -/

namespace IMDraining

open IMClientInfo IMServerInfo IMThreads IMThreadMoves IMTransition IMClientList
  IMFlush IMSpawning IMFairness IMFairness.InfiniteRun IMEventually

/-! ## One step -/

/-- The bytes that wait for a client. -/
def queue (s : State) (c : PClientInfo) : List UInt8 :=
  (s.shared.writing c).flatMap Chunk.bytes

/-- The bytes a step takes out of the queue of a client. -/
def flushedBy (c : PClientInfo) (s : State) : Thread × Env → List UInt8
  | (.writer, env) =>
      match s.writer with
      | .flush (d :: _) _ true => if d = c then (queue s c).take env.taken else []
      | _ => []
  | _ => []

theorem dropBytes_flatMap : ∀ (chunks : List Chunk) (n : Nat),
    (Shared.dropBytes n chunks).flatMap Chunk.bytes
      = (chunks.flatMap Chunk.bytes).drop n := by
  intro chunks
  induction chunks with
  | nil =>
      intro n
      rw [Shared.dropBytes, List.flatMap_nil, List.drop_nil]
  | cons chunk chunks ih =>
      intro n
      rw [Shared.dropBytes, List.flatMap_cons, List.drop_append]
      split
      · next hlt =>
          rw [List.flatMap_cons, Nat.sub_eq_zero_of_le (Nat.le_of_lt hlt),
            List.drop_zero]
      · next hge =>
          rw [ih, List.drop_of_length_le (Nat.le_of_not_lt hge), List.nil_append]

/-- The queue after a step: taken from at the front, filled at the end. -/
def Queued (c : PClientInfo) (s s' : State) (flushed : List UInt8) : Prop :=
  ∃ appended, flushed ++ queue s' c = queue s c ++ appended

theorem queued_same {c : PClientInfo} {s s' : State}
    (h : s'.shared.writing c = s.shared.writing c) : Queued c s s' [] :=
  ⟨[], by rw [List.nil_append, List.append_nil, queue, queue, h]⟩

theorem queued_deliver {c : PClientInfo} {s s' : State} {env : Env}
    {d d' : Delivery} {shared : Shared}
    (h : deliverStep s.shared env d = some (shared, d'))
    (hs : s'.shared = shared) : Queued c s s' [] := by
  obtain ⟨x, rest, -, -, -, -, ⟨rfl, -⟩ | ⟨-, rfl⟩⟩ := deliverStep_spec h
  · exact queued_same (by rw [hs])
  · by_cases hc : c = x
    · subst hc
      refine ⟨d.msg.content.take env.stored, ?_⟩
      rw [List.nil_append, queue, queue, hs]
      show (Function.update s.shared.writing c _ c).flatMap Chunk.bytes = _
      rw [Function.update_self, List.flatMap_append, List.flatMap_singleton]
    · refine queued_same ?_
      rw [hs]
      exact Function.update_of_ne hc ..

theorem queued_reader {c : PClientInfo} {s s' : State} {env : Env}
    (hstep : readerStep s env = some s') : Queued c s s' [] := by
  cases readerStep_move hstep with
  | goes | calls | marks => exact queued_same rfl
  | @handle x need stage entries hr =>
      cases stage with
      | fetchMsg =>
          rw [handleStep]
          split <;> exact queued_same rfl
      | dispatch line => exact queued_same rfl
      | snapshot msg => exact queued_same rfl
      | deliver d =>
          rw [handleStep]
          cases hd : deliverStep s.shared env d with
          | none => exact queued_same rfl
          | some r => exact queued_deliver hd rfl
      | signal =>
          obtain ⟨-, -, -, hwriting⟩ := signalFlush_flag s need
          exact queued_same (congrFun hwriting c)

/-- The writing thread does not stand in front of a flush. -/
def NoFlush (w : Writer) : Prop := ∀ d todo all, w ≠ .flush (d :: todo) all true

theorem flushedBy_none {s : State} (h : NoFlush s.writer) (c : PClientInfo)
    (env : Env) : flushedBy c s (.writer, env) = [] := by
  rw [flushedBy]
  split
  · next d todo all hw => exact absurd hw (h d todo all)
  · rfl

theorem noFlush_goes {env : Env} {s : Shared} {w w' : Writer}
    (h : WriterGoes env s w w') : NoFlush w := by
  rintro d todo all rfl
  cases h

theorem queued_logout {c x : PClientInfo} {s : State} {env : Env}
    {stage : LogoutStage} {todo : List PClientInfo}
    (hnot : c ∉ (logoutStep s env x todo stage).shared.released) :
    Queued c s (logoutStep s env x todo stage) [] := by
  cases stage with
  | remove =>
      refine queued_same ?_
      show (s.shared.removeClient x).writing c = _
      rw [Shared.removeClient]
      split <;> rfl
  | build =>
      rw [logoutStep]
      split <;> exact queued_same rfl
  | snapshot | close => exact queued_same rfl
  | deliver d =>
      rw [logoutStep]
      cases hd : deliverStep s.shared env d with
      | none => exact queued_same rfl
      | some r => exact queued_deliver hd rfl
  | release sentCount =>
      have hc : c ≠ x := by
        rintro rfl
        exact hnot (List.mem_cons_self ..)
      exact queued_same (Function.update_of_ne hc ..)
  | signal sentCount =>
      obtain ⟨-, -, -, hwriting⟩ := signalFlush_flag s sentCount
      exact queued_same (congrFun hwriting c)

theorem queued_writer {c : PClientInfo} {s s' : State} {env : Env}
    (hnot : c ∉ s'.shared.released) (hstep : writerStep s env = some s') :
    Queued c s s' (flushedBy c s (.writer, env)) := by
  have hnone := fun h : NoFlush s.writer => flushedBy_none h c env
  cases writerStep_move hstep with
  | @flush d todo all hw =>
      have hflushed : flushedBy c s (.writer, env)
          = if d = c then (queue s c).take env.taken else [] := by
        rw [flushedBy, hw]
      rw [hflushed]
      by_cases hd : d = c
      · subst hd
        refine ⟨[], ?_⟩
        rw [if_pos rfl, List.append_nil, queue, queue]
        show _ ++ (Function.update s.shared.writing d _ d).flatMap Chunk.bytes = _
        rw [Function.update_self, dropBytes_flatMap, List.take_append_drop]
      · rw [if_neg hd]
        exact queued_same (Function.update_of_ne (Ne.symm hd) ..)
  | goes hgo =>
      rw [hnone (noFlush_goes hgo)]
      exact queued_same rfl
  | logout hw =>
      rw [hnone (by rw [hw]; exact fun _ _ _ e => (by cases e))]
      exact queued_logout hnot
  | flagSet hw | waits hw | wakes hw =>
      rw [hnone (by rw [hw]; exact fun _ _ _ e => (by cases e))]
      exact queued_same rfl

theorem queued_listener {c : PClientInfo} {s s' : State} {env : Env}
    (hs : Reachable threadSystem s) (hc : c ∈ s.shared.clients)
    (hnot : c ∉ s'.shared.released) (hstep : listenerStep s env = some s') :
    Queued c s s' [] := by
  cases listenerStep_move hstep with
  | creates hl hok hfresh =>
      have hne : c ≠ env.block := by
        rintro rfl
        exact hfresh ((listInv_reachable hs).created _
          (List.mem_append_left _ (List.mem_append_left _ hc)))
      exact queued_same (Function.update_of_ne hne ..)
  | @givesUp spawned x hl hok =>
      have hne : c ≠ x := by
        rintro rfl
        exact hnot (List.mem_cons_self ..)
      exact queued_same (Function.update_of_ne hne ..)
  | refused | accepts | noClient | adds | spawnsReader | spawnsWriter | noThread
  | stops => exact queued_same rfl

/-- **THE QUEUE OF A LISTED CLIENT**: a step takes bytes at the front, or puts
    bytes at the end. -/
theorem queued_step {c : PClientInfo} {s s' : State} {a : Thread × Env}
    (hs : Reachable threadSystem s) (hc : c ∈ s.shared.clients)
    (hnot : c ∉ s'.shared.released) (hstep : threadSystem.step s a = some s') :
    Queued c s s' (flushedBy c s a) := by
  obtain ⟨thread, env⟩ := a
  cases thread with
  | reader => exact queued_reader hstep
  | writer => exact queued_writer hnot hstep
  | listener => exact queued_listener hs hc hnot hstep

/-! ## Infinite runs -/

variable {ρ : InfiniteRun threadSystem}

/-- The bytes the first `d` steps behind step `n` take out of the queue. -/
def flushed (ρ : InfiniteRun threadSystem) (c : PClientInfo) (n : Nat) :
    Nat → List UInt8
  | 0 => []
  | d + 1 => flushed ρ c n d ++ flushedBy c (ρ.state (n + d)) (ρ.event (n + d))

/-- What was flushed and what waits begin with what waited. -/
theorem flushed_queue {c : PClientInfo} {n : Nat}
    (hlisted : ∀ d, c ∈ (ρ.state (n + d)).shared.clients)
    (hnot : ∀ d, c ∉ (ρ.state (n + d)).shared.released) :
    ∀ d, ∃ appended, flushed ρ c n d ++ queue (ρ.state (n + d)) c
      = queue (ρ.state n) c ++ appended := by
  intro d
  induction d with
  | zero => exact ⟨[], (List.append_nil _).symm⟩
  | succ d ih =>
      obtain ⟨appended, happ⟩ := ih
      obtain ⟨more, hmore⟩ := queued_step (ρ.reachable (n + d)) (hlisted d)
        (hnot (d + 1)) (ρ.step (n + d))
      refine ⟨appended ++ more, ?_⟩
      rw [flushed, List.append_assoc, hmore, ← List.append_assoc, happ,
        List.append_assoc]

/-- The turn of a client stays until the writing thread takes it. -/
theorem turn_taken (hw : ρ.Often ByWriter) {c : PClientInfo} {k : Nat}
    (h : AtFlush c (ρ.state k)) :
    ∃ j, k ≤ j ∧ AtFlush c (ρ.state j) ∧ (ρ.event j).1 = .writer := by
  have hstays : ∀ d, (∃ j, k ≤ j ∧ AtFlush c (ρ.state j) ∧ (ρ.event j).1 = .writer)
      ∨ AtFlush c (ρ.state (k + d)) := by
    intro d
    induction d with
    | zero => exact Or.inr h
    | succ d ih =>
        rcases ih with hdone | hturn
        · exact Or.inl hdone
        · by_cases hby : (ρ.event (k + d)).1 = .writer
          · exact Or.inl ⟨k + d, Nat.le_add_right k d, hturn, hby⟩
          · obtain ⟨todo, all, hwriter⟩ := hturn
            rcases other_writer (ρ.reachable _) hby (ρ.step (k + d)) with
              hsame | ⟨hidle, -⟩
            · exact Or.inr ⟨todo, all, hsame.trans hwriter⟩
            · rw [hwriter] at hidle
              cases hidle
  obtain ⟨m, hkm, hm⟩ := hw k
  obtain ⟨d, rfl⟩ := Nat.exists_eq_add_of_le hkm
  rcases hstays d with hdone | hturn
  · exact hdone
  · exact ⟨k + d, hkm, hturn, hm⟩

/-- No `write` to the client fails: each of its turns flushes all that waits. -/
def TakesAll (ρ : InfiniteRun threadSystem) (c : PClientInfo) : Prop :=
  ∀ n, AtFlush c (ρ.state n) → (ρ.event n).1 = .writer →
    (queue (ρ.state n) c).length ≤ (ρ.event n).2.taken

/-- A turn of the client flushes its queue. -/
theorem flushedBy_turn {c : PClientInfo} {n : Nat} (htakes : TakesAll ρ c)
    (hturn : AtFlush c (ρ.state n)) (hby : (ρ.event n).1 = .writer) :
    flushedBy c (ρ.state n) (ρ.event n) = queue (ρ.state n) c := by
  have htaken := htakes n hturn hby
  obtain ⟨todo, all, hwriter⟩ := hturn
  cases hevent : ρ.event n with
  | mk thread env =>
      rw [hevent] at hby htaken
      obtain rfl : thread = .writer := hby
      rw [flushedBy, hwriter]
      exact (if_pos rfl).trans (List.take_of_length_le htaken)

/-- **WHAT IS QUEUED IS WRITTEN**: in every infinite run in which the writing thread
    keeps taking steps and no `write` to the client fails, the bytes that wait for
    it are flushed in the end, in their order and before any later ones, or the
    client is released. -/
theorem queued_written (ρ : InfiniteRun threadSystem) (hw : ρ.Often ByWriter)
    (c : PClientInfo) (htakes : TakesAll ρ c) (n : Nat)
    (hc : c ∈ (ρ.state n).shared.clients) :
    (∃ m, n ≤ m ∧ c ∈ (ρ.state m).shared.released)
      ∨ ∃ d, queue (ρ.state n) c <+: flushed ρ c n d := by
  by_cases hreleased : ∃ m, n ≤ m ∧ c ∈ (ρ.state m).shared.released
  · exact Or.inl hreleased
  · refine Or.inr ?_
    have hnot : ∀ d, c ∉ (ρ.state (n + d)).shared.released :=
      fun d hd => hreleased ⟨n + d, Nat.le_add_right n d, hd⟩
    obtain ⟨hlisted, hturns⟩ := stays_served hw hc hreleased
    -- the next turn of the client
    obtain ⟨k, hk, hturn⟩ := hturns n (Nat.le_refl n)
    obtain ⟨j, hj, hturn, hby⟩ := turn_taken hw hturn
    obtain ⟨d, rfl⟩ := Nat.exists_eq_add_of_le (Nat.le_trans hk hj)
    obtain ⟨appended, happ⟩ := flushed_queue hlisted hnot d
    refine ⟨d + 1, ?_⟩
    rw [flushed, flushedBy_turn htakes hturn hby, happ]
    exact List.prefix_append _ _

/-! ### A login announced -/

/-- One pass of the writing thread over two clients; the flag is set. -/
def busyPass : List (Thread × Env) := List.replicate 11 (.writer, quiet)

/-- The pass flushes both clients. -/
def afterBusyPass (s : State) : State :=
  { s with shared := (s.shared.flushMessages 1 1024).flushMessages 2 1024 }

/-- With nothing queued, it changes nothing. -/
theorem afterBusyPass_eq {s : State} (h1 : s.shared.writing 1 = [])
    (h2 : s.shared.writing 2 = []) : afterBusyPass s = s := by
  have hflush : ∀ {c : PClientInfo}, s.shared.writing c = [] →
      s.shared.flushMessages c 1024 = s.shared := by
    intro c hc
    have hdrop : Shared.dropBytes 1024 (s.shared.writing c) = s.shared.writing c := by
      rw [hc]
      rfl
    rw [Shared.flushMessages, hdrop, Shared.setWriting, Function.update_eq_self]
  rw [afterBusyPass, hflush h1, hflush h2]

/-- The announcement waits for the first client, and the writing thread passes over
    both again and again. -/
theorem queued_written_login : ∃ ρ : InfiniteRun threadSystem,
    (queue (ρ.state 0) 1).length = 32
      ∧ ((∃ m, 0 ≤ m ∧ 1 ∈ (ρ.state m).shared.released)
        ∨ ∃ d, queue (ρ.state 0) 1 <+: flushed ρ 1 0 d) := by
  obtain ⟨s, t, hs, ht, hpass, hclients, hqueue, h1, h2⟩ : ∃ s t,
      runFrom threadSystem freshProgram loginAnnounced = some s
        ∧ runFrom threadSystem s busyPass = some t
        ∧ runFrom threadSystem t busyPass = some (afterBusyPass t)
        ∧ s.shared.clients = [1, 2]
        ∧ (queue s 1).length = 32
        ∧ t.shared.writing 1 = [] ∧ t.shared.writing 2 = [] :=
    ⟨_, _, rfl, rfl, rfl, rfl, rfl, rfl, rfl⟩
  rw [afterBusyPass_eq h1 h2] at hpass
  obtain ⟨ρ, hstart, hsteps, hoften⟩ := exists_lasso (fun e => (by cases e))
    (runFrom_reachable threadSystem _ (.start freshProgram_start) hs) ht hpass
  have hall : Along threadSystem FlushesAll freshProgram
      (loginAnnounced ++ (busyPass ++ busyPass)) :=
    along_of_checkRun _ (by decide +kernel)
  obtain ⟨hfirst, hagain⟩ := (along_append threadSystem).mp
    (((along_append threadSystem).mp hall).2 s hs)
  have htakes : TakesAll ρ 1 := by
    intro n ⟨todo, all, hwriter⟩ hby
    have hflushes := hsteps FlushesAll hfirst (hagain t ht) n 1
    rw [hby, flushing, hwriter] at hflushes
    rw [queue, List.length_flatMap]
    exact hflushes (List.mem_singleton_self 1)
  refine ⟨ρ, hstart ▸ hqueue, queued_written ρ ?_ 1 htakes 0 ?_⟩
  · exact hoften _ (.writer, quiet) (List.mem_cons_self ..) fun _ => rfl
  · rw [hstart, hclients]
    exact List.mem_cons_self ..

end IMDraining

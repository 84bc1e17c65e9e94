import IMServer.ServerRun

/-! # The loop of `try_to_handle_msg` ends

    The test of the loop looks at the size the fetch in front of it returned, so
    an iteration is that fetch and the body behind the test.  The newline bytes of
    the reading buffer are the measure: a fetch with a positive size takes one of
    them, and the rest of the body leaves the buffer alone.  `handleLoop_agrees`
    says that the fuel of the model's loop makes no difference. -/

namespace IMDispatchLoop

open IMBytes IMCString IMCachePool IMBuffer IMBufferAppend IMClientInfo
  IMLineFraming IMMessage IMServerInfo IMServerRun IMTransition

/-- The `while` loop for the client `c`: the test `msg_size > 0`, and the body. -/
def dispatchLoop (c : PClientInfo) (envs : Nat → Surround) : Loop ServerInfo where
  test k s := decide ((fetchMsgFromClient s.mem (envs k).afterCache c).ret > 0)
  body k s := afterRound s c (envs k)

/-- The newline bytes in the reading buffer. -/
def newlines (c : PClientInfo) (s : ServerInfo) : Nat :=
  (s.mem.reading c).count 10

/-- **HOW THE LOOP ENDS**: after `n` iterations, at most as many as there are
    newline bytes; each of them shortens the reading buffer, and the function has
    handled `n` lines then. -/
structure LoopEnds (s : ServerInfo) (c : PClientInfo) (envs : Nat → Surround)
    (n : Nat) : Prop where
  ends : (dispatchLoop c envs).EndsAfter s n
  bound : n ≤ newlines c s
  shortens : ∀ k < n,
    (((dispatchLoop c envs).stateAt s (k + 1)).mem.reading c).length
      < (((dispatchLoop c envs).stateAt s k).mem.reading c).length
  handled : (tryToHandleMsg s c envs).lines.length = n

/-- The invariant of the loop. -/
structure LoopInv (c : PClientInfo) (s : ServerInfo) : Prop where
  server : ServerInv s
  listed : c ∈ s.clients

theorem test_iff (c : PClientInfo) (envs : Nat → Surround) (k : Nat)
    (s : ServerInfo) : (dispatchLoop c envs).test k s = true
      ↔ (fetchMsgFromClient s.mem (envs k).afterCache c).ret > 0 := by
  simp only [dispatchLoop, decide_eq_true_eq]

/-- The test succeeds only when the first node holds a line. -/
theorem test_nextLine {c : PClientInfo} {envs : Nat → Surround} {k : Nat}
    {s : ServerInfo} (h : LoopInv c s)
    (htest : (dispatchLoop c envs).test k s = true) :
    ∃ i, Round s c (envs k) i := by
  cases hn : nextLine s.mem c with
  | none =>
      have hnone := fetchMsg_none h.server.heap (h.server.check c h.listed)
        (envs k).afterCache hn
      have hret := (test_iff c envs k s).mp htest
      rw [hnone] at hret
      exact absurd hret (Nat.lt_irrefl 0)
  | some i => exact ⟨i, round_spec h.server h.listed (envs k) hn⟩

/-- **ONE ITERATION** keeps the invariant and takes one newline byte and the bytes
    in front of it. -/
theorem iteration_spec {c : PClientInfo} {envs : Nat → Surround} {k : Nat}
    {s : ServerInfo} (h : LoopInv c s)
    (htest : (dispatchLoop c envs).test k s = true) :
    LoopInv c ((dispatchLoop c envs).body k s)
      ∧ newlines c ((dispatchLoop c envs).body k s) + 1 = newlines c s
      ∧ (((dispatchLoop c envs).body k s).mem.reading c).length
        < (s.mem.reading c).length := by
  obtain ⟨i, hround⟩ := test_nextLine h htest
  obtain ⟨text, htext, h10, -⟩ := hround.line
  have hsplit := hround.split
  rw [htext] at hsplit
  refine ⟨⟨hround.inv, ?_⟩, ?_, ?_⟩
  · show c ∈ (afterRound s c (envs k)).clients
    rw [hround.handled.clients]
    exact h.listed
  · show ((afterRound s c (envs k)).mem.reading c).count 10 + 1
      = (s.mem.reading c).count 10
    rw [← hsplit, List.count_append, List.count_append,
      List.count_eq_zero_of_not_mem h10, List.count_singleton_self]
    omega
  · show ((afterRound s c (envs k)).mem.reading c).length < _
    rw [← hsplit, List.length_append, List.length_append, List.length_singleton]
    omega

/-- **THE FUEL MAKES NO DIFFERENCE**: with more fuel than iterations the loop of the
    model stops where the loop ends. -/
theorem handleLoop_agrees {c : PClientInfo} {envs : Nat → Surround}
    {s : ServerInfo} {n : Nat} (hends : (dispatchLoop c envs).EndsAfter s n) :
    ∀ (fuel k : Nat) (lines : List (List UInt8)) (need : Nat), k ≤ n →
      n - k < fuel →
      (handleLoop c envs fuel k lines need
          ((dispatchLoop c envs).stateAt s k)).lines.length
          = lines.length + (n - k)
        ∧ (handleLoop c envs fuel k lines need
          ((dispatchLoop c envs).stateAt s k)).server
          = fetched ((dispatchLoop c envs).stateAt s n) c (envs n) := by
  intro fuel
  induction fuel with
  | zero => exact fun _ _ _ _ h => absurd h (Nat.not_lt_zero _)
  | succ fuel ih =>
      intro k lines need hk hfuel
      rw [handleLoop_succ]
      rcases Nat.lt_or_eq_of_le hk with hlt | rfl
      · have htest := (test_iff c envs k _).mp (hends.goesOn k hlt)
        obtain ⟨hlines, hserver⟩ := ih (k + 1)
          (lines ++ [roundLine ((dispatchLoop c envs).stateAt s k) c (envs k)])
          (need + (handleMsg (fetched ((dispatchLoop c envs).stateAt s k) c (envs k))
            c (envs k) (roundLine ((dispatchLoop c envs).stateAt s k) c
              (envs k))).1) hlt (by omega)
        rw [if_pos htest]
        refine ⟨hlines.trans ?_, hserver⟩
        rw [List.length_append, List.length_singleton]
        omega
      · have htest := (test_iff c envs k _).not.mp
          (Bool.eq_false_iff.mp hends.stops)
        rw [if_neg htest]
        exact ⟨by rw [Nat.sub_self]; rfl, rfl⟩

theorem lines_signalFlush (r : HandleResult) : (signalFlush r).lines = r.lines := by
  rw [signalFlush]
  split <;> rfl

/-- **THE DISPATCH LOOP ENDS** in every reachable state, for every listed client. -/
theorem dispatch_loop_ends {r : ServerRun} (h : Reachable serverSystem r)
    {c : PClientInfo} (hc : c ∈ r.server.clients) (envs : Nat → Surround) :
    ∃ n, LoopEnds r.server c envs n := by
  have hinv : LoopInv c r.server := ⟨(runInv_reachable h).server, hc⟩
  obtain ⟨n, hends, hbound, hall⟩ := ends_of_measure (dispatchLoop c envs)
    (I := LoopInv c) (m := newlines c)
    (fun k s hs htest => (iteration_spec hs htest).1)
    (fun k s hs htest => by
      have := (iteration_spec hs htest).2.1
      omega)
    hinv
  refine ⟨n, hends, hbound, fun k hk => ?_, ?_⟩
  · exact (iteration_spec (hall k (Nat.le_of_lt hk)) (hends.goesOn k hk)).2.2
  · have hlen : n < (r.server.mem.reading c).length + 1 :=
      Nat.lt_succ_of_le (Nat.le_trans hbound List.count_le_length)
    rw [tryToHandleMsg, lines_signalFlush]
    refine (handleLoop_agrees hends _ 0 [] 0 (Nat.zero_le n) hlen).1.trans ?_
    rw [List.length_nil, Nat.zero_add, Nat.sub_zero]

/-- Three lines have come, one of them with a NUL byte. -/
def threeLines : List ServerEvent :=
  [.accept 1 4, .fetch 1 20 [.bytes (ascii "LOGIN: a\na" ++ [0] ++ ascii "\nTO-C\n")]]

theorem dispatch_loop_threeLines : ∃ r n,
    runFrom serverSystem freshServer threeLines = some r
      ∧ LoopEnds r.server 1 (fun _ => bareSurround) n := by
  have hrun : ((runFrom serverSystem freshServer threeLines).any fun r =>
      decide ((1 : PClientInfo) ∈ r.server.clients)) = true := by decide +kernel
  obtain ⟨r, hr, hc⟩ := (Option.any_eq_true _ _).mp hrun
  obtain ⟨n, hn⟩ := dispatch_loop_ends
    (runFrom_reachable serverSystem threeLines (.start freshServer_start) hr)
    (of_decide_eq_true hc) (fun _ => bareSurround)
  exact ⟨r, n, hr, hn⟩

end IMDispatchLoop

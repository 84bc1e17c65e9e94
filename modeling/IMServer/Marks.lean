import IMServer.Server

/-! # Marks — what the handling of lines leaves alone

    Neither the dispatch of a line nor a delivery touches the client list, a
    socket or a mark, in any state. -/

namespace IMMarks

open IMBytes IMCString IMCachePool IMBuffer IMBufferQueue IMClientInfo IMMessage
  IMServerInfo

/-- The list, the sockets and the marks are as before. -/
structure KeepsMarks (s s' : ServerInfo) : Prop where
  clients : s'.clients = s.clients
  clientCount : s'.clientCount = s.clientCount
  socketId : ∀ d, (s'.mem.info d).socketId = (s.mem.info d).socketId
  pub : ∀ d, (s'.mem.info d).pub = (s.mem.info d).pub

theorem KeepsMarks.refl (s : ServerInfo) : KeepsMarks s s :=
  ⟨rfl, rfl, fun _ => rfl, fun _ => rfl⟩

theorem KeepsMarks.trans {s s₁ s₂ : ServerInfo} (h : KeepsMarks s s₁)
    (h' : KeepsMarks s₁ s₂) : KeepsMarks s s₂ where
  clients := h'.clients.trans h.clients
  clientCount := h'.clientCount.trans h.clientCount
  socketId := fun d => (h'.socketId d).trans (h.socketId d)
  pub := fun d => (h'.pub d).trans (h.pub d)

/-- Only memory changed, and no public data. -/
theorem keepsMarks_mem {s : ServerInfo} {m : Clients}
    (h : ∀ d, m.info d = s.mem.info d) : KeepsMarks s { s with mem := m } :=
  ⟨rfl, rfl, fun d => congrArg ClientInfo.socketId (h d),
    fun d => congrArg ClientInfo.pub (h d)⟩

theorem keepsMarks_setPool (s : ServerInfo) (p : CachePool) :
    KeepsMarks s (s.setPool p) :=
  keepsMarks_mem fun _ => rfl

theorem keepsMarks_fetchMsg (s : ServerInfo) (c : PClientInfo)
    (after : Addr → List UInt8) :
    KeepsMarks s { s with mem := (fetchMsgFromClient s.mem after c).clients } := by
  refine keepsMarks_mem fun d => ?_
  rw [fetchMsgFromClient]
  simp only [Nat.not_lt_zero, if_false]
  show (Function.update s.mem.data c _ d).info = _
  by_cases hd : d = c
  · rw [hd, Function.update_self]
    rfl
  · rw [Function.update_of_ne hd]
    rfl

theorem deliverLoop_data (msg : Msg) (toAll : Bool) :
    ∀ (clients : List (Option PClientInfo)) (n : Nat) (m : Clients),
      (deliverLoop msg toAll clients n m).2.data = m.data := by
  intro clients
  induction clients with
  | nil => intro _ _; rfl
  | cons o clients ih =>
      intro n m
      cases o with
      | none => exact ih n m
      | some c =>
          refine (ih _ _).trans ?_
          rw [deliverMsgToClient]
          split
          · rfl
          · split
            · rfl
            · split <;> rfl

theorem keepsMarks_deliver (s : ServerInfo) (o : Option Msg) :
    KeepsMarks s (deliverIfAny s o).2 := by
  cases o with
  | none => exact KeepsMarks.refl s
  | some msg =>
      rw [deliverIfAny, deliverMsgToAllClients, getClientList]
      cases malloc s.pool with
      | mk ok p =>
          cases ok <;>
            exact (keepsMarks_setPool s p).trans (keepsMarks_mem fun d =>
              congrArg ClientData.info (congrFun (deliverLoop_data ..) d))

theorem keepsMarks_setInfo (s : ServerInfo) (c : PClientInfo)
    {info : ClientInfo} (hsocket : info.socketId = (s.mem.info c).socketId)
    (hpub : info.pub = (s.mem.info c).pub) :
    KeepsMarks s { s with mem := s.mem.setInfo c info } := by
  refine ⟨rfl, rfl, fun d => ?_, fun d => ?_⟩
  · by_cases hd : d = c
    · rw [hd, ← hsocket]
      exact congrArg ClientInfo.socketId (info_setInfo s.mem c info)
    · exact congrArg (fun x => x.info.socketId)
        (data_setInfo_of_ne s.mem hd info)
  · by_cases hd : d = c
    · rw [hd, ← hpub]
      exact congrArg ClientInfo.pub (info_setInfo s.mem c info)
    · exact congrArg (fun x => x.info.pub) (data_setInfo_of_ne s.mem hd info)

theorem keepsMarks_userLogin (s : ServerInfo) (c : PClientInfo)
    (junk : List UInt8 × List UInt8) (msg : List UInt8) :
    KeepsMarks s (userLogin s c junk msg).2 := by
  rw [userLogin]
  dsimp only
  generalize hinfo : updateClientName (s.mem.info c)
    (some ((cutAtEdge msg).drop (strlen cmdLogin))) = info
  have hsocket : info.socketId = (s.mem.info c).socketId := by
    rw [← hinfo, updateClientName]
  have hpub : info.pub = (s.mem.info c).pub := by
    rw [← hinfo, updateClientName]
  generalize createNotice _ junk _ msgLoginSuffix = r
  obtain ⟨cache, message, p⟩ := r
  exact (keepsMarks_setInfo s c hsocket hpub).trans (keepsMarks_setPool _ _)

/-- The dispatch of a line changes of a client at most its name. -/
theorem keepsMarks_dispatch (s : ServerInfo) (c : PClientInfo) (env : Surround)
    (msg : List UInt8) : KeepsMarks s (dispatchMsg s c env msg).2 := by
  rw [dispatchMsg]
  split
  · exact keepsMarks_userLogin s c env.junk msg
  · split
    · exact keepsMarks_setPool s _
    · split
      · split
        · exact KeepsMarks.refl s
        · next i _ =>
            rw [p2pMsgToTarget]
            generalize buildTarget s.pool msg i = r
            obtain ⟨o, p⟩ := r
            cases o with
            | none => exact keepsMarks_setPool s p
            | some cache => exact keepsMarks_setPool s _
      · exact KeepsMarks.refl s

theorem keepsMarks_handleMsg (s : ServerInfo) (c : PClientInfo) (env : Surround)
    (line : List UInt8) : KeepsMarks s (handleMsg s c env line).2 :=
  (keepsMarks_dispatch s c env _).trans (keepsMarks_deliver _ _)

theorem keepsMarks_handleLoop {c : PClientInfo} (envs : Nat → Surround) :
    ∀ (fuel round : Nat) (lines : List (List UInt8)) (need : Nat)
      (s : ServerInfo),
      KeepsMarks s (handleLoop c envs fuel round lines need s).server := by
  intro fuel
  induction fuel with
  | zero => intro _ _ _ s; exact KeepsMarks.refl s
  | succ fuel ih =>
      intro round lines need s
      have hfetch := keepsMarks_fetchMsg s c (envs round).afterCache
      rw [handleLoop]
      generalize fetchMsgFromClient s.mem (envs round).afterCache c = r at hfetch ⊢
      dsimp only
      split
      · exact (hfetch.trans (keepsMarks_handleMsg _ c (envs round) _)).trans
          (ih _ _ _ _)
      · exact hfetch

theorem keepsMarks_signalFlush {s : ServerInfo} {r : HandleResult}
    (h : KeepsMarks s r.server) : KeepsMarks s (signalFlush r).server := by
  rw [signalFlush]
  split
  · exact ⟨h.clients, h.clientCount, h.socketId, h.pub⟩
  · exact h

/-- **`try_to_handle_msg`** leaves them alone, whatever the buffers hold. -/
theorem keepsMarks_tryToHandleMsg (s : ServerInfo) (c : PClientInfo)
    (envs : Nat → Surround) : KeepsMarks s (tryToHandleMsg s c envs).server := by
  rw [tryToHandleMsg]
  exact keepsMarks_signalFlush (keepsMarks_handleLoop envs _ 0 [] 0 s)

end IMMarks

import IMServer.ClientList
import IMServer.ListHead
import Mathlib.Data.Fintype.EquivFin

/-! # The client list, node by node — `ClientNode`

    The threads share the client list as a Lean list (`Shared`).  Here it is what
    it is in memory: `ClientNode`s linked through `server_info->clients`, gone
    through with `list_for_each`.  `linked_run` says that in every run the two
    agree, so every loop over the nodes ends and has the result the threads are
    modelled with. -/

namespace IMClientNodes

open IMBytes IMRings IMListHead IMClientInfo IMServerInfo IMThreads IMThreadMoves
  IMTransition
open IMClientList (SameList sameList_deliverStep signalFlush_list
  readerStep_frame)

/-- The list with its counter, and the field `info` of the nodes; `clients` is
    the address of the head. -/
structure ClientNodes where
  mem : ListHeads
  clients : PListHead
  info : PListHead → PClientInfo
  clientCount : Int

/-- The node and the locked block of `handle_listen`. -/
def addNode (s : ClientNodes) (node : PListHead) (c : PClientInfo) :
    ClientNodes :=
  { s with
    mem := listAddTail s.mem node s.clients
    info := Function.update s.info node c
    clientCount := s.clientCount + 1 }

/-- The body of the loop in the locked block of `user_logout`.  The node is freed
    and the loop left. -/
def logoutBody (info : PClientInfo → ClientInfo) (socketId : Int)
    (ptr : PListHead) (s : ClientNodes) : ClientNodes × Bool :=
  if (info (s.info ptr)).socketId = socketId then
    ({ s with mem := listDel s.mem ptr, clientCount := s.clientCount - 1 }, true)
  else (s, false)

/-- The locked block of `user_logout`. -/
def removeNode (info : PClientInfo → ClientInfo) (s : ClientNodes)
    (c : PClientInfo) (fuel : Nat) : Option ClientNodes :=
  listForEach ClientNodes.mem s.clients (logoutBody info (info c).socketId) fuel s

/-- An array being filled: the index and the entries. -/
structure Filling (α : Type) where
  index : Nat
  entries : List α

/-- `a[index ++] = x`. -/
def Filling.push {α : Type} (t : Filling α) (x : α) : Filling α :=
  ⟨t.index + 1, overwrite t.entries t.index [x]⟩

/-- The loop of `get_client_list`. -/
def getClientList (s : ClientNodes) (fuel : Nat) :
    Option (List (Option PClientInfo)) :=
  (listForEach (fun _ => s.mem) s.clients
    (fun ptr (t : Filling (Option PClientInfo)) =>
      (t.push (some (s.info ptr)), false)) fuel
    ⟨0, List.replicate s.clientCount.toNat none⟩).map (·.entries)

/-- The loop of `get_polling_and_client_list`, which fills both arrays. -/
def getPollingAndClientList (info : PClientInfo → ClientInfo) (s : ClientNodes)
    (fuel : Nat) : Option Polling :=
  (listForEach (fun _ => s.mem) s.clients
    (fun ptr (t : Filling PollFd × Filling (Option PClientInfo)) =>
      ((t.1.push (pollFdOf (info (s.info ptr))), t.2.push (some (s.info ptr))),
        false)) fuel
    (⟨0, List.replicate s.clientCount.toNat ⟨0, 0⟩⟩,
      ⟨0, List.replicate s.clientCount.toNat none⟩)).map fun t =>
    ⟨s.clientCount, t.1.entries, t.2.entries⟩

/-! ## One list in memory -/

/-- The nodes are there, and hold the clients of the threads' list. -/
structure Represents (s : ClientNodes) (sh : Shared) (nodes : List PListHead) :
    Prop where
  ring : Ring s.mem s.clients nodes
  clients : nodes.map s.info = sh.clients
  count : s.clientCount = sh.clientCount

/-- A memory with one ring of interest. -/
def only (head : PListHead) (xs : List PListHead) : Heads PListHead :=
  Function.update (fun _ => none) head (some xs)

theorem only_eq {head h : PListHead} {xs ys : List PListHead}
    (hh : only head xs h = some ys) : h = head ∧ ys = xs := by
  by_cases hhead : h = head
  · rw [only, hhead, Function.update_self] at hh
    exact ⟨hhead, (Option.some.inj hh).symm⟩
  · rw [only, Function.update_of_ne hhead] at hh
    cases hh

theorem holds_only {m : ListHeads} {head : PListHead} {xs : List PListHead}
    (hr : Ring m head xs) : Holds m (only head xs) := by
  refine ⟨?_, ?_⟩
  · intro h ys hh
    obtain ⟨rfl, rfl⟩ := only_eq hh
    exact hr
  · intro h ys g zs hh hg hne
    exact absurd ((only_eq hh).1.trans (only_eq hg).1.symm) hne

theorem cell_only {head p : PListHead} {xs : List PListHead}
    (hp : Cell (only head xs) p) : p ∈ head :: xs := by
  obtain ⟨h, ys, hh, hm⟩ := hp
  obtain ⟨rfl, rfl⟩ := only_eq hh
  exact hm

theorem only_self (head : PListHead) (xs : List PListHead) :
    only head xs head = some xs := Function.update_self ..

/-- The ring after a call that changes this list. -/
theorem ring_of_update {m : ListHeads} {head : PListHead}
    {xs ys : List PListHead}
    (h : Holds m (Function.update (only head xs) head (some ys))) :
    Ring m head ys := h.ring head ys (Function.update_self ..)

/-! ## The loops -/

/-- Stores one behind the other are one store. -/
theorem overwrite_push {α : Type} (a : List α) (xs : List α) (x : α) :
    overwrite (overwrite a 0 xs) xs.length [x] = overwrite a 0 (xs ++ [x]) := by
  simp only [overwrite, List.take_zero, List.nil_append, Nat.zero_add,
    List.length_append, List.length_singleton, List.append_assoc,
    List.take_left, List.singleton_append]
  rw [← List.drop_drop, List.drop_left, List.drop_drop]

/-- An array filled in a loop. -/
theorem visit_push {α : Type} (f : PListHead → α) (a : List α) :
    ∀ (nodes : List PListHead) (xs : List α),
      visit (fun ptr (t : Filling α) => (t.push (f ptr), false)) nodes
        ⟨xs.length, overwrite a 0 xs⟩
        = ⟨xs.length + nodes.length, overwrite a 0 (xs ++ nodes.map f)⟩ := by
  intro nodes
  induction nodes with
  | nil => intro xs; rw [visit, List.map_nil, List.append_nil]; rfl
  | cons node nodes ih =>
      intro xs
      have hlen : xs.length + 1 = (xs ++ [f node]).length := by simp
      rw [visit, if_neg Bool.false_ne_true, Filling.push]
      dsimp only
      rw [overwrite_push, hlen, ih, List.length_append, List.append_assoc,
        List.length_singleton, List.length_cons, List.map_cons,
        List.singleton_append, Nat.add_assoc, Nat.add_comm 1]

/-- Two arrays filled in one loop. -/
theorem visit_pair {α β : Type} (f : PListHead → α) (g : PListHead → β) :
    ∀ (nodes : List PListHead) (t : Filling α) (u : Filling β),
      visit (fun ptr (t : Filling α × Filling β) =>
          ((t.1.push (f ptr), t.2.push (g ptr)), false)) nodes (t, u)
        = (visit (fun ptr t => (t.push (f ptr), false)) nodes t,
          visit (fun ptr t => (t.push (g ptr), false)) nodes u) := by
  intro nodes
  induction nodes with
  | nil => intro t u; rfl
  | cons node nodes ih =>
      intro t u
      rw [visit, visit, visit, if_neg Bool.false_ne_true,
        if_neg Bool.false_ne_true, if_neg Bool.false_ne_true]
      exact ih _ _

theorem visit_array {α : Type} (f : PListHead → α) (a : List α)
    (nodes : List PListHead) :
    (visit (fun ptr (t : Filling α) => (t.push (f ptr), false)) nodes
      ⟨0, a⟩).entries = overwrite a 0 (nodes.map f) := by
  have h := visit_push f a nodes []
  rw [List.nil_append, List.length_nil] at h
  rw [show overwrite a 0 [] = a from rfl] at h
  rw [h]

variable {s : ClientNodes} {sh : Shared} {nodes : List PListHead} {fuel : Nat}

/-- **`get_client_list`** fills the array with the clients in their order. -/
theorem getClientList_eq (h : Represents s sh nodes) (hf : nodes.length < fuel) :
    getClientList s fuel = some (fillArray sh.clientCount sh.clients) := by
  rw [getClientList, listForEach_eq (fun _ => s.mem) _ (holds_only h.ring)
    (only_self ..) (fun _ _ _ _ _ => rfl) hf, Option.map_some, visit_array, fillArray,
    ← h.clients, ← h.count, List.map_map]
  rfl

/-- **`get_polling_and_client_list`** fills both arrays alike. -/
theorem getPollingAndClientList_eq (h : Represents s sh nodes)
    (hf : nodes.length < fuel) :
    getPollingAndClientList sh.info s fuel
      = some sh.getPollingAndClientList := by
  rw [getPollingAndClientList, listForEach_eq (fun _ => s.mem) _
    (holds_only h.ring) (only_self ..) (fun _ _ _ _ _ => rfl) hf,
    Option.map_some, visit_pair,
    visit_array, visit_array, Shared.getPollingAndClientList, fillArray,
    ← h.clients, ← h.count, List.map_map, List.map_map]
  rfl

/-- The search of `user_logout`: the first node with the socket is unlinked. -/
theorem visit_logoutBody (info : PClientInfo → ClientInfo) (socketId : Int)
    (s : ClientNodes) : ∀ nodes : List PListHead,
      (listDel info socketId (nodes.map s.info) = none
        ∧ visit (logoutBody info socketId) nodes s = s)
      ∨ ∃ pre node post, nodes = pre ++ node :: post
        ∧ listDel info socketId (nodes.map s.info)
          = some ((pre ++ post).map s.info)
        ∧ visit (logoutBody info socketId) nodes s
          = { s with
              mem := IMListHead.listDel s.mem node
              clientCount := s.clientCount - 1 } := by
  intro nodes
  induction nodes with
  | nil => exact Or.inl ⟨rfl, rfl⟩
  | cons node nodes ih =>
      rw [List.map_cons, IMServerInfo.listDel, visit, logoutBody]
      by_cases hsocket : (info (s.info node)).socketId = socketId
      · rw [if_pos hsocket, if_pos hsocket, if_pos rfl]
        exact Or.inr ⟨[], node, nodes, rfl, rfl, rfl⟩
      · rw [if_neg hsocket, if_neg hsocket, if_neg Bool.false_ne_true]
        rcases ih with ⟨hnone, hvisit⟩ | ⟨pre, found, post, rfl, hdel, hvisit⟩
        · exact Or.inl ⟨by rw [hnone]; rfl, hvisit⟩
        · refine Or.inr ⟨node :: pre, found, post, rfl, ?_, hvisit⟩
          rw [hdel]
          rfl

/-- **`user_logout`** unlinks the node of the client, and its loop ends. -/
theorem removeNode_spec (h : Represents s sh nodes) (hf : nodes.length < fuel)
    (c : PClientInfo) : ∃ s' nodes', removeNode sh.info s c fuel = some s'
      ∧ Represents s' (sh.removeClient c) nodes' := by
  have hA := holds_only h.ring
  have hkeep : ∀ node ∈ nodes, ∀ t : ClientNodes, t.mem = s.mem →
      (logoutBody sh.info (sh.info c).socketId node t).2 = false →
      (logoutBody sh.info (sh.info c).socketId node t).1.mem = s.mem := by
    intro node _ t ht hgo
    rw [logoutBody] at hgo ⊢
    split at hgo
    · cases hgo
    · next hsocket => rw [if_neg hsocket, ht]
  rw [removeNode, listForEach_eq ClientNodes.mem s hA (only_self ..) hkeep hf, Shared.removeClient, ← h.clients]
  rcases visit_logoutBody sh.info (sh.info c).socketId s nodes with
    ⟨hnone, hvisit⟩ | ⟨pre, node, post, rfl, hdel, hvisit⟩
  · rw [hnone, hvisit]
    exact ⟨s, nodes, rfl, h⟩
  · rw [hdel, hvisit]
    refine ⟨_, pre ++ post, rfl, ?_, rfl, by dsimp only; rw [h.count]⟩
    exact ring_of_update (holds_listDel hA (only_self ..)).1

/-- **`handle_listen`** links the node behind the others. -/
theorem addNode_spec (h : Represents s sh nodes) {node : PListHead}
    (hnew : node ∉ s.clients :: nodes) (c : PClientInfo) :
    Represents (addNode s node c) (sh.addClient c) (nodes ++ [node]) := by
  refine ⟨?_, ?_, ?_⟩
  · exact ring_of_update (holds_listAddTail (holds_only h.ring) (only_self ..)
      (fun hcell => hnew (cell_only hcell)))
  · rw [addNode, Shared.addClient, List.map_append, ← h.clients]
    dsimp only
    rw [List.map_singleton, Function.update_self]
    congr 1
    refine List.map_congr_left fun p hp => Function.update_of_ne ?_ _ _
    exact fun e => hnew (List.mem_cons_of_mem _ (e ▸ hp))
  · rw [addNode, Shared.addClient]
    dsimp only
    rw [h.count]

/-! ## Runs -/

/-- The nodes and the threads' data after the same blocks.  A new node is not one
    of those that are linked; `other` is all other code, which leaves the nodes
    and the threads' list alone. -/
inductive LinkedRun : ClientNodes → Shared → Prop where
  | start (s : ClientNodes) (sh : Shared) : sh.clients = [] →
      sh.clientCount = 0 →
      LinkedRun { s with
        mem := initListHead s.mem s.clients, clientCount := 0 } sh
  | other {s s' : ClientNodes} {sh sh' : Shared} : LinkedRun s sh →
      (∀ nodes, Ring s.mem s.clients nodes → ∀ p ∈ s.clients :: nodes,
        s'.mem.next p = s.mem.next p ∧ s'.mem.prev p = s.mem.prev p
          ∧ s'.info p = s.info p) →
      s'.clients = s.clients → s'.clientCount = s.clientCount →
      sh'.clients = sh.clients → sh'.clientCount = sh.clientCount →
      LinkedRun s' sh'
  | add {s : ClientNodes} {sh : Shared} {node : PListHead} (c : PClientInfo) :
      LinkedRun s sh →
      (∀ nodes, Ring s.mem s.clients nodes → node ∉ s.clients :: nodes) →
      LinkedRun (addNode s node c) (sh.addClient c)
  | remove {s s' : ClientNodes} {sh : Shared} {fuel : Nat} (c : PClientInfo) :
      LinkedRun s sh → sh.clients.length < fuel →
      removeNode sh.info s c fuel = some s' →
      LinkedRun s' (sh.removeClient c)

theorem Represents.length (h : Represents s sh nodes) :
    nodes.length = sh.clients.length := by
  rw [← h.clients, List.length_map]

theorem ring_start (m : ListHeads) (head : PListHead) :
    Ring (initListHead m head) head [] :=
  ⟨List.isChain_cons_cons.mpr ⟨(linked_initListHead m head).1, .singleton _⟩,
    List.nodup_singleton _⟩

theorem represents_run (h : LinkedRun s sh) : ∃ nodes, Represents s sh nodes := by
  induction h with
  | start s sh hclients hcount =>
      exact ⟨[], ring_start s.mem s.clients, hclients.symm, hcount.symm⟩
  | @other s s' sh sh' _ hsame hhead hcount hclients hcount' ih =>
      obtain ⟨nodes, h⟩ := ih
      have hkeep := hsame nodes h.ring
      refine ⟨nodes, ?_, ?_, by rw [hcount, h.count, hcount']⟩
      · rw [hhead]
        exact h.ring.congr fun p hp => ⟨(hkeep p hp).1, (hkeep p hp).2.1⟩
      · rw [hclients, ← h.clients]
        exact List.map_congr_left
          fun p hp => (hkeep p (List.mem_cons_of_mem _ hp)).2.2
  | add c _ hnew ih =>
      obtain ⟨nodes, h⟩ := ih
      exact ⟨_, addNode_spec h (hnew nodes h.ring) c⟩
  | remove c _ hf hremove ih =>
      obtain ⟨nodes, h⟩ := ih
      obtain ⟨s', nodes', hs', hrep⟩ := removeNode_spec h (h.length ▸ hf) c
      rw [hremove] at hs'
      obtain rfl := Option.some.inj hs'
      exact ⟨nodes', hrep⟩

/-- What the blocks that go through the nodes compute. -/
structure ReadsList (s : ClientNodes) (sh : Shared) : Prop where
  clientList : ∀ fuel, sh.clients.length < fuel →
    getClientList s fuel = some (fillArray sh.clientCount sh.clients)
  polling : ∀ fuel, sh.clients.length < fuel →
    getPollingAndClientList sh.info s fuel = some sh.getPollingAndClientList
  logout : ∀ c fuel, sh.clients.length < fuel →
    ∃ s', removeNode sh.info s c fuel = some s'
      ∧ LinkedRun s' (sh.removeClient c)

/-- **THE NODES ARE THE LIST**: in every run, the loops over the nodes end, with
    the snapshots and the removal the threads are modelled with. -/
theorem linked_run (h : LinkedRun s sh) : ReadsList s sh := by
  obtain ⟨nodes, hrep⟩ := represents_run h
  have hlen := hrep.length
  refine ⟨fun fuel hf => getClientList_eq hrep (hlen ▸ hf),
    fun fuel hf => getPollingAndClientList_eq hrep (hlen ▸ hf), ?_⟩
  intro c fuel hf
  obtain ⟨s', -, hs', -⟩ := removeNode_spec hrep (hlen ▸ hf) c
  exact ⟨s', hs', .remove c h hf hs'⟩

/-- Two clients, whose nodes are 5 and 6; the first logs out. -/
def twoNodes : ClientNodes :=
  addNode (addNode ⟨initListHead ⟨id, id⟩ 0, 0, fun _ => 0, 0⟩ 5 7) 6 8

/-- Their descriptors are their numbers. -/
def twoListed : Shared :=
  ({ freshProgram.shared with info := fun c => ⟨c, [], succ⟩ }.addClient 7).addClient 8

theorem linked_run_twoClients :
    getClientList twoNodes 9 = some [some 7, some 8]
      ∧ ∃ s, removeNode twoListed.info twoNodes 7 9 = some s
        ∧ getClientList s 9 = some [some 8] := by
  have hrun := LinkedRun.start ⟨⟨id, id⟩, 0, fun _ => 0, 0⟩
    { freshProgram.shared with info := fun c => ⟨c, [], succ⟩ } rfl rfl
  have hfirst : LinkedRun (addNode _ 5 7) _ := .add 7 hrun fun nodes hring => by
    rw [hring.unique (ring_start ..)]
    decide
  have hone : Ring (listAddTail (initListHead ⟨id, id⟩ 0) 5 0) 0 [5] :=
    ⟨.cons_cons ⟨rfl, rfl⟩ (.cons_cons ⟨rfl, rfl⟩ (.singleton _)), by decide⟩
  have hsecond : LinkedRun twoNodes twoListed := .add 8 hfirst fun nodes hring => by
    rw [hring.unique hone]
    decide
  obtain ⟨s, hs, hlogout⟩ := (linked_run hsecond).logout 7 9 (by decide)
  exact ⟨(linked_run hsecond).clientList 9 (by decide), s, hs,
    (linked_run hlogout).clientList 9 (by decide)⟩

/-! ## The runs of the threads -/

/-- What a step of a thread does to the list. -/
inductive ListStep (sh sh' : Shared) : Prop where
  | same : sh'.clients = sh.clients → sh'.clientCount = sh.clientCount →
      ListStep sh sh'
  | add (c : PClientInfo) : sh' = sh.addClient c → ListStep sh sh'
  | remove (c : PClientInfo) : sh' = sh.removeClient c → ListStep sh sh'

theorem listStep_same {sh sh' : Shared} (h : SameList sh sh') :
    ListStep sh sh' := .same h.clients h.clientCount

theorem logoutStep_list (st : State) (env : Env) (c : PClientInfo)
    (todo : List PClientInfo) (stage : LogoutStage) :
    ListStep st.shared (logoutStep st env c todo stage).shared := by
  cases stage with
  | remove => exact .remove c rfl
  | build =>
      rw [logoutStep]
      split <;> exact .same rfl rfl
  | snapshot msg => exact .same rfl rfl
  | deliver d =>
      rw [logoutStep]
      cases hd : deliverStep st.shared env d with
      | none => exact .same rfl rfl
      | some r => exact listStep_same (sameList_deliverStep hd)
  | close sentCount | release sentCount => exact .same rfl rfl
  | signal sentCount => exact listStep_same (signalFlush_list st sentCount).1

theorem threadStep_list {st st' : State} {a : Thread × Env}
    (h : threadStep st a = some st') : ListStep st.shared st'.shared := by
  obtain ⟨thread, env⟩ := a
  cases thread with
  | reader => exact listStep_same (readerStep_frame h).list
  | writer =>
      cases writerStep_move h with
      | logout hw => exact logoutStep_list st env _ _ _
      | goes | flush | flagSet | waits | wakes => exact .same rfl rfl
  | listener =>
      cases listenerStep_move h with
      | adds hl hok => exact .add _ rfl
      | refused | accepts | noClient | creates | givesUp | spawnsReader
      | spawnsWriter | noThread | stops => exact .same rfl rfl

/-- Every run of the threads is the run of some nodes. -/
theorem linked_threads {st : State} (h : Reachable threadSystem st) :
    ∃ s, LinkedRun s st.shared := by
  refine reachable_inv threadSystem (I := fun st => ∃ s, LinkedRun s st.shared)
    ?_ ?_ h
  · intro st hstart
    exact ⟨_, .start ⟨⟨id, id⟩, 0, fun _ => 0, 0⟩ st.shared hstart.1 hstart.2.1⟩
  · rintro st st' a ⟨s, hs⟩ hstep
    rcases threadStep_list hstep with ⟨hclients, hcount⟩ | ⟨c, hadd⟩ | ⟨c, hremove⟩
    · exact ⟨s, .other hs (fun _ _ _ _ => ⟨rfl, rfl, rfl⟩) rfl rfl hclients hcount⟩
    · obtain ⟨nodes, hrep⟩ := represents_run hs
      obtain ⟨node, hnode⟩ := Infinite.exists_notMem_finset
        (s.clients :: nodes).toFinset
      refine ⟨addNode s node c, hadd ▸ .add c hs fun nodes' hring => ?_⟩
      rw [hring.unique hrep.ring]
      exact fun hm => hnode (List.mem_toFinset.mpr hm)
    · obtain ⟨s', hs', hrun⟩ := (linked_run hs).logout c _ (Nat.lt_succ_self _)
      exact ⟨s', hremove ▸ hrun⟩

end IMClientNodes

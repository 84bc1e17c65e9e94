import IMServer.ClientStream
import IMServer.Formatting
import IMServer.Threads

/-! # The client's loop — `main` of `IMClient.c`

    After the registration the client waits for its two inputs, the standard
    input and the socket, and copies each to the other side.  One pass of the
    loop is `clientPass`; the bytes on the way in the socket are part of the
    state, so that both ends of a connection can be put together. -/

namespace IMClientLoop

open IMBytes IMCString IMMessage IMFormatting IMClient IMClientStream
open IMThreads (pollIn)
open IMBuffer (ReadOutcome WriteOutcome fdWrite)

/-- A client program and its socket: `toServer` and `toClient` are the bytes on
    the way.  The other fields behind `isOnline` are records: `argv[3]`, the chunks
    `read` delivered from the standard input, the bytes the socket took, those
    read from it, and those the standard output took. -/
structure Client where
  isOnline : Bool
  name : List UInt8
  typed : List (List UInt8)
  written : List UInt8
  received : List UInt8
  shown : List UInt8
  toServer : List UInt8
  toClient : List UInt8

/-- The client behind its registration, when `send` takes the line whole. -/
def registered (name : List UInt8) : Client where
  isOnline := true
  name := name
  typed := []
  written := (register name).sent
  received := []
  shown := []
  toServer := (register name).sent
  toClient := []

/-- What one pass meets: the result of `poll` and the events, what `read` gives
    from the standard input, how many bytes it finds in the socket (none is
    `-1`), and how `write` goes. -/
structure PassEnv where
  pollRet : Int
  stdinEvents : UInt16
  socketEvents : UInt16
  typed : ReadOutcome
  arrived : Option Nat
  socketWrite : WriteOutcome
  stdoutWrite : WriteOutcome

/-- What the branch for the standard input gives to `write`.  After an error of
    `read` the size is `-1 + 8`: the prefix goes out without its blank. -/
def stdinBytes : ReadOutcome → List UInt8
  | .bytes typed => stdinBranch typed
  | .error =>
      let cmdLen := strlen cmdToAll
      let buff := List.replicate cacheSize 0
      (strncpy buff (cmdToAll ++ ascii " ") (cmdLen + 1)).take cmdLen

/-- The chunk that was read. -/
def stdinChunk : ReadOutcome → List (List UInt8)
  | .bytes typed => [typed.take (cacheSize - strlen cmdToAll - 1)]
  | .error => []

/-- `p_fd` is the standard input. -/
def stdinPass (u : Client) (env : PassEnv) : Client :=
  if env.stdinEvents &&& pollIn ≠ 0 then
    let bytes := stdinBytes env.typed
    let writeSize := (fdWrite bytes.length [env.socketWrite]).1
    let taken := bytes.take writeSize.toNat
    { u with
      isOnline := if -1 = writeSize then false else u.isOnline
      typed := u.typed ++ stdinChunk env.typed
      written := u.written ++ taken
      toServer := u.toServer ++ taken }
  else u

/-- `p_fd` is the socket. -/
def socketPass (u : Client) (env : PassEnv) : Client :=
  if env.socketEvents &&& pollIn ≠ 0 then
    match env.arrived with
    | none => u
    | some n =>
        let buff := u.toClient.take (min n cacheSize)
        let readSize := buff.length
        if 0 = readSize then { u with isOnline := false }
        else { u with
          received := u.received ++ buff
          shown := u.shown
            ++ buff.take (fdWrite readSize [env.stdoutWrite]).1.toNat
          toClient := u.toClient.drop readSize }
  else if env.socketEvents ≠ 0 then { u with isOnline := false }
  else u

/-- One pass of `while (is_online)`.  The loop over the two entries goes on to
    the socket when the standard input ended the loop around it. -/
def clientPass (u : Client) (env : PassEnv) : Option Client :=
  if u.isOnline then
    if -1 = env.pollRet then some { u with isOnline := false }
    else some (socketPass (stdinPass u env) env)
  else none

/-! ## What a pass does -/

/-- `write` takes all it is given. -/
def TakesAll (n : Nat) (w : WriteOutcome) : Prop := (fdWrite n [w]).1 = n

instance (n : Nat) (w : WriteOutcome) : Decidable (TakesAll n w) :=
  inferInstanceAs (Decidable (_ = _))

/-- The standard input can be read, and what is written is taken whole. -/
def Whole (u : Client) (env : PassEnv) : Prop :=
  env.typed ≠ .error ∧ TakesAll (stdinBytes env.typed).length env.socketWrite
    ∧ ∀ n ∈ env.arrived,
      TakesAll (u.toClient.take (min n cacheSize)).length env.stdoutWrite

instance (u : Client) (env : PassEnv) : Decidable (Whole u env) :=
  inferInstanceAs (Decidable (_ ∧ _ ∧ ∀ n ∈ env.arrived, _))

/-- The chunk `read` delivers is the part of the input it has room for. -/
theorem stdinBranch_take (typed : List UInt8) :
    stdinBranch (typed.take (cacheSize - strlen cmdToAll - 1)) = stdinBranch typed := by
  rw [stdinBranch, stdinBranch, List.take_take, Nat.min_self]

/-- The client's own records: all it wrote is its registration and its stream, and
    all it read has been shown. -/
structure ClientInv (u : Client) : Prop where
  written : u.written = (register u.name).sent ++ clientStream u.typed
  shown : u.shown = u.received
  chunks : ∀ chunk ∈ u.typed, chunk.length ≤ 1016

theorem clientInv_registered (name : List UInt8) : ClientInv (registered name) :=
  ⟨(List.append_nil _).symm, rfl, fun _ h => absurd h List.not_mem_nil⟩

/-- What the pass for the standard input does to both ends. -/
theorem stdinPass_spec {u : Client} {env : PassEnv} (h : ClientInv u)
    (htyped : env.typed ≠ .error)
    (hall : TakesAll (stdinBytes env.typed).length env.socketWrite) :
    ClientInv (stdinPass u env)
      ∧ (stdinPass u env).name = u.name
      ∧ (stdinPass u env).received = u.received
      ∧ (stdinPass u env).toClient = u.toClient
      ∧ ∃ taken, (stdinPass u env).written = u.written ++ taken
        ∧ (stdinPass u env).toServer = u.toServer ++ taken := by
  rw [stdinPass]
  by_cases hin : env.stdinEvents &&& pollIn ≠ 0
  · rw [if_pos hin]
    have htaken : (stdinBytes env.typed).take
        (fdWrite (stdinBytes env.typed).length [env.socketWrite]).1.toNat
        = stdinBytes env.typed := by
      rw [show (fdWrite (stdinBytes env.typed).length [env.socketWrite]).1 = _ from
        hall, Int.toNat_natCast, List.take_length]
    dsimp only
    rw [htaken]
    cases ht : env.typed with
    | error => exact absurd ht htyped
    | bytes typed =>
        refine ⟨⟨?_, h.shown, ?_⟩, rfl, rfl, rfl, _, rfl, rfl⟩
        · show u.written ++ stdinBranch typed = _
          rw [h.written, List.append_assoc, clientStream, clientStream,
            List.flatMap_append, stdinChunk, List.flatMap_singleton, stdinBranch_take]
        · intro chunk hm
          rcases List.mem_append.mp hm with h1 | h2
          · exact h.chunks chunk h1
          · rw [List.mem_singleton.mp h2]
            exact List.length_take_le _ _
  · rw [if_neg hin]
    exact ⟨h, rfl, rfl, rfl, [], (List.append_nil _).symm, (List.append_nil _).symm⟩

/-- What the pass for the socket does to both ends. -/
theorem socketPass_spec {u : Client} {env : PassEnv} (h : ClientInv u)
    (hall : ∀ n ∈ env.arrived,
      TakesAll (u.toClient.take (min n cacheSize)).length env.stdoutWrite) :
    ClientInv (socketPass u env)
      ∧ (socketPass u env).name = u.name
      ∧ (socketPass u env).written = u.written
      ∧ (socketPass u env).toServer = u.toServer
      ∧ (socketPass u env).received ++ (socketPass u env).toClient
        = u.received ++ u.toClient := by
  rw [socketPass]
  by_cases hin : env.socketEvents &&& pollIn ≠ 0
  · rw [if_pos hin]
    cases harrived : env.arrived with
    | none => exact ⟨h, rfl, rfl, rfl, rfl⟩
    | some n =>
        have hshown := hall n harrived
        simp only
        generalize hbuff : u.toClient.take (min n cacheSize) = buff at hshown ⊢
        by_cases h0 : 0 = buff.length
        · rw [if_pos h0]
          exact ⟨⟨h.written, h.shown, h.chunks⟩, rfl, rfl, rfl, rfl⟩
        · rw [if_neg h0]
          have hsplit : buff ++ u.toClient.drop buff.length = u.toClient := by
            have hpre : buff <+: u.toClient := hbuff ▸ List.take_prefix _ _
            obtain ⟨rest, hrest⟩ := hpre
            rw [← hrest, List.drop_left]
          refine ⟨⟨h.written, ?_, h.chunks⟩, rfl, rfl, rfl, ?_⟩
          · show u.shown ++ buff.take (fdWrite buff.length [env.stdoutWrite]).1.toNat
              = u.received ++ buff
            rw [show (fdWrite buff.length [env.stdoutWrite]).1 = _ from hshown,
              Int.toNat_natCast, List.take_length, h.shown]
          · show u.received ++ buff ++ u.toClient.drop buff.length = _
            rw [List.append_assoc, hsplit]
  · rw [if_neg hin]
    split
    · exact ⟨⟨h.written, h.shown, h.chunks⟩, rfl, rfl, rfl, rfl⟩
    · exact ⟨h, rfl, rfl, rfl, rfl⟩

/-- **ONE PASS** of the client: what it writes goes on its way to the server, and
    what it reads had been on its way. -/
theorem clientPass_spec {u u' : Client} {env : PassEnv} (h : ClientInv u)
    (hwhole : Whole u env) (hpass : clientPass u env = some u') :
    ClientInv u' ∧ u'.name = u.name
      ∧ (∃ taken, u'.written = u.written ++ taken
        ∧ u'.toServer = u.toServer ++ taken)
      ∧ u'.received ++ u'.toClient = u.received ++ u.toClient := by
  obtain ⟨htyped, hsocket, hstdout⟩ := hwhole
  rw [clientPass] at hpass
  obtain ⟨-, hpass⟩ := Option.ite_none_right_eq_some.mp hpass
  split at hpass
  · obtain rfl := Option.some.inj hpass
    exact ⟨⟨h.written, h.shown, h.chunks⟩, rfl, ⟨[], (List.append_nil _).symm,
      (List.append_nil _).symm⟩, rfl⟩
  · obtain rfl := Option.some.inj hpass
    obtain ⟨h₁, hname₁, hreceived₁, hto₁, taken, hwritten₁, hserver₁⟩ :=
      stdinPass_spec h htyped hsocket
    rw [← hto₁] at hstdout
    obtain ⟨h₂, hname₂, hwritten₂, hserver₂, hsplit₂⟩ := socketPass_spec h₁ hstdout
    refine ⟨h₂, hname₂.trans hname₁, ⟨taken, hwritten₂.trans hwritten₁,
      hserver₂.trans hserver₁⟩, ?_⟩
    rw [hsplit₂, hreceived₁, hto₁]

end IMClientLoop

import EnhancedProxy.Cache.RedisUpdate
import EnhancedProxy.Cache.Staleness
import EnhancedProxy.Library.Simulation
import Mathlib.Data.List.Perm.Basic

/-! The connections of a Redis server, over which updates send one command at a time. -/

namespace EnhancedProxy

/-- A call of `updateRedisCache` under way: the commands that it has still to send, once it has come
behind `getAuth`, and what the server keeps for its connection. -/
structure RedisCall where
  url : Bytes
  response : Bytes
  unsent : Option (List Bytes) := none
  queued : Option (List KeyCommand) := none
  refused : Bool := false
  deriving DecidableEq, Repr

/-- What a call has come to: it goes on, or it returns a string. -/
inductive CallProgress
  | goesOn (call : RedisCall)
  | returns (answer : Bytes)
  deriving DecidableEq, Repr

namespace RedisCall

/-- The connection, on a server that holds the given keys. -/
def conn (call : RedisCall) (store : RedisStore) : RedisContext :=
  { store := store, queued := call.queued, refused := call.refused }

/-- `Connect` and `getAuth`, which is true for an error reply. -/
def connect (call : RedisCall) (connects : Bool) (auth : CommandFate) : Option CallProgress :=
  match call.unsent with
  | some _ => none
  | none =>
    if !connects then some (.returns [])
    else if auth = .lost then some (.returns [])
    else some (.goesOn
      { call with unsent := some (atomicUpdateCommands call.url call.response) })

/-- The next command of `atomicUpdate`. The connection may also fail behind it, so that its reply is
not heard. -/
def sendNext (library : RedisLibrary) (now : Nat) (store : RedisStore) (call : RedisCall)
    (fate : CommandFate) (heard : Bool) : Option (RedisStore × CallProgress) :=
  match call.unsent with
  | none | some [] => none
  | some (command :: rest) =>
    let (conn, replied) := RedisCache.commandWrapper library now (call.conn store) fate command
    some (conn.store,
      -- A connection that fails or is freed takes its queue with it.
      if !(replied && heard) then .returns (ascii ['F', 'A', 'I', 'L'])
      else if rest = [] then .returns (ascii ['O', 'K'])
      else .goesOn
        { call with unsent := some rest, queued := conn.queued, refused := conn.refused })

end RedisCall

/-- A server with its clock, and the calls of all processes that are under way. The history keeps
the calls that were made, and counts the failures that they met. -/
structure RedisServer where
  store : RedisStore := fun _ => none
  now : Nat := 0
  pending : List RedisCall := []
  calls : List (Bytes × Bytes) := []
  failures : Nat := 0

/-- A process makes a call, or one of the calls takes its next step, or time passes. -/
inductive RedisServerStep
  | call (url response : Bytes)
  | connect (j : Nat) (connects : Bool) (auth : CommandFate)
  | send (j : Nat) (fate : CommandFate) (heard : Bool)
  | wait (milliseconds : Nat)
  deriving DecidableEq, Repr

namespace RedisServer

/-- One of the calls goes on, or returns. -/
def proceed (server : RedisServer) (j : Nat) : CallProgress → RedisServer
  | .goesOn call => { server with pending := server.pending.set j call }
  | .returns _ => { server with pending := server.pending.eraseIdx j }

/-- A step that fails is counted. -/
def noting (server : RedisServer) (failed : Bool) : RedisServer :=
  { server with failures := server.failures + failed.toNat }

end RedisServer

/-- The server as a machine, with the commands of its connections in any order. -/
def redisServerMachine (library : RedisLibrary) : Machine RedisServer RedisServerStep where
  step server
    | .call url response =>
      some { server with
        pending := server.pending ++ [{ url := url, response := response }]
        calls := server.calls ++ [(url, response)] }
    | .connect j connects auth => do
      let call ← server.pending[j]?
      let progress ← call.connect connects auth
      return (server.noting (!connects || auth = CommandFate.lost)).proceed j progress
    | .send j fate heard => do
      let call ← server.pending[j]?
      let (store, progress) ← call.sendNext library server.now server.store fate heard
      return ({ server with store := store }.noting (fate ≠ CommandFate.served || !heard)).proceed j
        progress
    | .wait milliseconds => some { server with now := server.now + milliseconds }

/-- Strings in which nothing is interpreted. -/
def RedisServerStep.Plain : RedisServerStep → Prop
  | .call url response => PlainWord url ∧ EnhancedProxy.Plain response
  | _ => True

/-- On a connection where `MULTI` has had an error reply, no other command is served. -/
def Opens (server : RedisServer) : RedisServerStep → Prop
  | .send j fate _ => fate = .served →
    ∀ call ∈ server.pending[j]?, call.refused = true → call.queued.isSome
  | _ => True

/-- A call on its way through its transaction. A call whose command was refused goes on, and has no
effect. -/
inductive Staged : RedisCall → Prop
  | waiting (url response : Bytes) : Staged { url := url, response := response }
  | connected (url response : Bytes) : Staged
      { url := url, response := response, unsent := some (atomicUpdateCommands url response) }
  | opened (url response : Bytes) : Staged
      { url := url, response := response
        unsent := some ((atomicUpdateCommands url response).drop 1), queued := some [] }
  | offered (url response : Bytes) : Staged
      { url := url, response := response
        unsent := some ((atomicUpdateCommands url response).drop 2)
        queued := some [.setnx url (quoted response)] }
  | timed (url response : Bytes) : Staged
      { url := url, response := response
        unsent := some ((atomicUpdateCommands url response).drop 3)
        queued := some [.setnx url (quoted response), .expire url defaultExpiredTime] }
  | spoiled (url response : Bytes) (queued : Option (List KeyCommand)) (sent : Nat)
      (begun : 1 ≤ sent) : Staged
      { url := url, response := response
        unsent := some ((atomicUpdateCommands url response).drop sent)
        queued := queued, refused := true }

section Sending

variable {library : RedisLibrary} {now : Nat} {store after : RedisStore} {call : RedisCall}
  {fate : CommandFate} {heard : Bool} {progress : CallProgress}

/-- Words that are a command have the fate that the server gives them. -/
theorem fate_of_known {command : Bytes} {read : RedisCommand}
    (known : RedisCommand.ofWords (library.words command) = some read) (fate : CommandFate) :
    library.fate fate command = fate := by
  -- A command that is read has words, so the library neither refuses nor drops it.
  have words : library.words command ≠ [] := by
    intro nothing
    rw [nothing] at known
    cases known
  simp [RedisLibrary.fate, words, known]

/-- A command that the server knows, as a call sends it. -/
theorem sendNext_known {command : Bytes} {read : RedisCommand} {rest : List Bytes}
    (known : RedisCommand.ofWords (library.words command) = some read)
    (next : call.unsent = some (command :: rest)) :
    call.sendNext library now store fate heard =
      let (conn, replied) := match fate with
        | .served => (((call.conn store).answer library now (library.words command)).1, true)
        | .refused => ({ call.conn store with refused := true }, true)
        | .lost => (({ store := store } : RedisContext), false)
      some (conn.store,
        if !(replied && heard) then .returns (ascii ['F', 'A', 'I', 'L'])
        else if rest = [] then .returns (ascii ['O', 'K'])
        else .goesOn
          { call with unsent := some rest, queued := conn.queued, refused := conn.refused }) := by
  -- The command has words, so its fate is the one the network gave it.
  simp only [RedisCall.sendNext, next, RedisCache.commandWrapper_fate, fate_of_known known]
  cases fate <;> rfl

/-- What the next command of a call comes to: its transaction is performed, or the keys stay and the
call returns without effect, or it goes on. Whatever does not lead on is a failure of this call. -/
inductive Sent (library : RedisLibrary) (now : Nat) (store : RedisStore) (call : RedisCall)
    (fate : CommandFate) (heard : Bool) : RedisStore → CallProgress → Prop
  | performed (answer : Bytes) (faultless : call.refused = false) :
      Sent library now store call fate heard
        (updateRedisCache library now store call.url call.response) (.returns answer)
  | dropped (answer : Bytes)
      (failed : call.refused = true ∨ fate ≠ .served ∨ heard = false) :
      Sent library now store call fate heard store (.returns answer)
  | goesOn (next : RedisCall) (staged : Staged next) (url : next.url = call.url)
      (response : next.response = call.response)
      (failed : next.refused = true → call.refused = true ∨ fate ≠ .served) :
      Sent library now store call fate heard store (.goesOn next)

/-- A command that is lost ends its call. -/
theorem Sent.of_lost {command : Bytes} {read : RedisCommand} {rest : List Bytes}
    (known : RedisCommand.ofWords (library.words command) = some read)
    (next : call.unsent = some (command :: rest))
    (sent : call.sendNext library now store .lost heard = some (after, progress)) :
    Sent library now store call .lost heard after progress := by
  -- There is no reply, so the call returns FAIL and may count as a failure.
  rw [sendNext_known known next] at sent
  cases sent
  exact .dropped _ (.inr (.inl (by decide)))

/-- A command with a reply that leaves the keys leads to the next stage, if it is heard and not the
last one. -/
theorem Sent.of_kept {rest : List Bytes} {queued : Option (List KeyCommand)} {refused : Bool}
    (staged : rest ≠ [] →
      Staged { call with unsent := some rest, queued := queued, refused := refused })
    (spoiled : rest ≠ [] → refused = true → call.refused = true ∨ fate ≠ .served)
    (ends : rest = [] → call.refused = true ∨ fate ≠ .served)
    (sent : some (store,
        if !(true && heard) then .returns (ascii ['F', 'A', 'I', 'L'])
        else if rest = [] then .returns (ascii ['O', 'K'])
        else .goesOn { call with unsent := some rest, queued := queued, refused := refused }) =
      some (after, progress)) :
    Sent library now store call fate heard after progress := by
  cases heard with
  | false =>
    cases sent
    exact .dropped _ (.inr (.inr rfl))
  | true =>
    by_cases last : rest = []
    · -- The reply to the last command is not looked at.
      simp only [last, if_true] at sent
      cases sent
      exact .dropped _ ((ends last).imp id .inl)
    · simp only [last, if_false] at sent
      cases sent
      exact .goesOn _ (staged last) rfl rfl (spoiled last)

/-- A command that is refused leaves the keys, and spoils its call. -/
theorem Sent.of_refused {command : Bytes} {read : RedisCommand} {rest : List Bytes}
    (known : RedisCommand.ofWords (library.words command) = some read)
    (next : call.unsent = some (command :: rest))
    (spoiled : rest ≠ [] → Staged { call with unsent := some rest, refused := true })
    (sent : call.sendNext library now store .refused heard = some (after, progress)) :
    Sent library now store call .refused heard after progress := by
  -- A refused command leaves the store alone and spoils the transaction.
  rw [sendNext_known known next] at sent
  have failed : CommandFate.refused ≠ .served := by decide
  exact .of_kept spoiled (fun _ _ => .inr failed) (fun _ => .inr failed) sent

/-- A command that is served, and leaves the keys, leads to the next stage. -/
theorem Sent.of_served {command : Bytes} {read : RedisCommand} {rest : List Bytes}
    (known : RedisCommand.ofWords (library.words command) = some read)
    (next : call.unsent = some (command :: rest)) (queued : Option (List KeyCommand))
    (refused : Bool)
    (answered : ((call.conn store).answer library now (library.words command)).1 =
      { store := store, queued := queued, refused := refused })
    (staged : rest ≠ [] →
      Staged { call with unsent := some rest, queued := queued, refused := refused } ∧
        (refused = true → call.refused = true))
    (ends : rest = [] → call.refused = true)
    (sent : call.sendNext library now store .served heard = some (after, progress)) :
    Sent library now store call .served heard after progress := by
  -- A served command before EXEC is queued or refused; the store is left alone.
  rw [sendNext_known known next] at sent
  simp only [answered] at sent
  apply Sent.of_kept (fun more => (staged more).1) _ (fun last => .inl (ends last)) sent
  intro more spoiled
  exact .inl ((staged more).2 spoiled)

/-- `EXEC` of a transaction performs both commands on the keys that there are now, whether or not
its reply is heard. -/
theorem Sent.of_exec {url response : Bytes} (separates : library.Separates)
    (named : PlainWord url) (plain : Plain response)
    (sent : RedisCall.sendNext library now store
      { url := url, response := response
        unsent := some ((atomicUpdateCommands url response).drop 3)
        queued := some [.setnx url (quoted response), .expire url defaultExpiredTime] }
      .served heard = some (after, progress)) :
    Sent library now store
      { url := url, response := response
        unsent := some ((atomicUpdateCommands url response).drop 3)
        queued := some [.setnx url (quoted response), .expire url defaultExpiredTime] }
      .served heard after progress := by
  -- Here alone the store changes: the two queued commands are performed together.
  rw [sendNext_known (ofWords_exec separates) rfl] at sent
  simp only [RedisContext.answer, ofWords_exec separates, RedisCall.conn, Bool.false_eq_true,
    if_false, List.foldl_cons, List.foldl_nil, KeyCommand.perform] at sent
  rw [← updateRedisCache_plain separates named.1 named.2 plain] at sent
  cases heard with
  | true =>
    cases sent
    exact .performed _ rfl
  | false =>
    cases sent
    exact .performed _ rfl

/-- A call sends its commands in order, and only `EXEC` has an effect. -/
theorem Staged.sendNext (separates : library.Separates) (staged : Staged call)
    (named : PlainWord call.url) (plain : Plain call.response)
    (opens : fate = .served → call.refused = true → call.queued.isSome)
    (sent : call.sendNext library now store fate heard = some (after, progress)) :
    Sent library now store call fate heard after progress := by
  cases staged with
  | waiting url response => cases sent
  | connected url response =>
    have known := ofWords_multi separates
    cases fate with
    | served =>
      -- `MULTI` opens the queue.
      refine .of_served known rfl (some []) false ?_ (fun _ => ?_) ?_ sent
      · simp only [RedisContext.answer, known, RedisCall.conn]
      · exact ⟨.opened url response, id⟩
      · intro wrong
        cases wrong
    | refused =>
      exact .of_refused known rfl (fun _ => .spoiled url response none 1 (Nat.le_refl 1)) sent
    | lost => exact .of_lost known rfl sent
  | opened url response =>
    have known := ofWords_setnx separates named.1 named.2 plain
    cases fate with
    | served =>
      refine .of_served known rfl (some [.setnx url (quoted response)]) false ?_ (fun _ => ?_) ?_
        sent
      · simp only [RedisContext.answer, known, RedisCall.conn, List.nil_append]
      · exact ⟨.offered url response, id⟩
      · intro wrong
        cases wrong
    | refused =>
      exact .of_refused known rfl (fun _ => .spoiled url response (some []) 2 (by decide)) sent
    | lost => exact .of_lost known rfl sent
  | offered url response =>
    have known := ofWords_expire separates named.1 named.2
    cases fate with
    | served =>
      refine .of_served known rfl
        (some [.setnx url (quoted response), .expire url defaultExpiredTime]) false ?_
        (fun _ => ?_) ?_ sent
      · simp only [RedisContext.answer, known, RedisCall.conn, List.cons_append, List.nil_append]
      · exact ⟨.timed url response, id⟩
      · intro wrong
        cases wrong
    | refused =>
      exact .of_refused known rfl (fun _ => .spoiled url response _ 3 (by decide)) sent
    | lost => exact .of_lost known rfl sent
  | timed url response =>
    have known := ofWords_exec separates
    cases fate with
    | served => exact .of_exec separates named plain sent
    | refused => exact .of_refused known rfl (fun more => absurd rfl more) sent
    | lost => exact .of_lost known rfl sent
  | spoiled url response queued count begun =>
    -- Whatever is served is queued, and `EXEC` discards the queue.
    have spoil (more : Nat) (next : Option (List KeyCommand)) :
        Staged { url := url, response := response
                 unsent := some ((atomicUpdateCommands url response).drop (more + 1))
                 queued := next, refused := true } :=
      .spoiled url response next (more + 1) (Nat.le_add_left 1 more)
    obtain rfl | rfl | rfl | past : count = 1 ∨ count = 2 ∨ count = 3 ∨ 4 ≤ count := by omega
    · have known := ofWords_setnx separates named.1 named.2 plain
      cases fate with
      | served =>
        obtain ⟨queue, rfl⟩ := Option.isSome_iff_exists.mp (opens rfl rfl)
        refine .of_served known rfl (some (queue ++ [.setnx url (quoted response)])) true ?_
          (fun _ => ⟨spoil 1 _, id⟩) (fun wrong => by cases wrong) sent
        simp only [RedisContext.answer, known, RedisCall.conn]
      | refused => exact .of_refused known rfl (fun _ => spoil 1 queued) sent
      | lost => exact .of_lost known rfl sent
    · have known := ofWords_expire separates named.1 named.2
      cases fate with
      | served =>
        obtain ⟨queue, rfl⟩ := Option.isSome_iff_exists.mp (opens rfl rfl)
        refine .of_served known rfl (some (queue ++ [.expire url defaultExpiredTime])) true ?_
          (fun _ => ⟨spoil 2 _, id⟩) (fun wrong => by cases wrong) sent
        simp only [RedisContext.answer, known, RedisCall.conn]
      | refused => exact .of_refused known rfl (fun _ => spoil 2 queued) sent
      | lost => exact .of_lost known rfl sent
    · have known := ofWords_exec separates
      cases fate with
      | served =>
        obtain ⟨queue, rfl⟩ := Option.isSome_iff_exists.mp (opens rfl rfl)
        refine .of_served known rfl none false ?_ (fun more => absurd rfl more) (fun _ => rfl) sent
        simp only [RedisContext.answer, known, RedisCall.conn, if_true]
      | refused => exact .of_refused known rfl (fun more => absurd rfl more) sent
      | lost => exact .of_lost known rfl sent
    · have nothing : (atomicUpdateCommands url response).drop count = [] :=
        List.drop_eq_nil_of_le past
      simp only [RedisCall.sendNext, nothing] at sent
      cases sent

end Sending

/-- What was passed to a call. -/
def RedisCall.arguments (call : RedisCall) : Bytes × Bytes := (call.url, call.response)

/-- What was passed to an update that was performed. -/
def RedisWrite.arguments (write : RedisWrite) : Bytes × Bytes := (write.url, write.response)

/-- The server has the keys of another one whose updates are performed at one go. Each call has been
performed there once, or is under way, or was dropped at the cost of a failure. -/
structure Serialized (server : RedisServer) (shared : SharedRedis) : Prop where
  store : shared.store = server.store
  now : shared.now = server.now
  staged : ∀ call ∈ server.pending,
    Staged call ∧ PlainWord call.url ∧ Plain call.response
  accounted : ∃ dropped : List (Bytes × Bytes),
    (shared.writes.map RedisWrite.arguments ++ server.pending.map RedisCall.arguments ++
      dropped).Perm server.calls ∧
    dropped.length + server.pending.countP (·.refused) ≤ server.failures

namespace Serialized

variable {library : RedisLibrary} {server : RedisServer} {shared : SharedRedis}

/-- A call that leaves the calls under way is one of them. -/
theorem perm_erase {pending : List RedisCall} {j : Nat} {call : RedisCall}
    (active : pending[j]? = some call) : pending.Perm (call :: pending.eraseIdx j) := by
  -- The list with one element taken out and put in front is a reordering.
  obtain ⟨within, here⟩ := List.getElem?_eq_some_iff.mp active
  rw [← here]
  exact (List.getElem_cons_eraseIdx_perm within).symm

/-- A call that goes on takes the place of the one that it was. -/
theorem perm_set {pending : List RedisCall} {j : Nat} {call : RedisCall}
    (active : pending[j]? = some call) (next : RedisCall) :
    (pending.set j next).Perm (next :: pending.eraseIdx j) := by
  -- The element replaced is taken out of the list that has it replaced.
  have within := (List.getElem?_eq_some_iff.mp active).1
  have placed := perm_erase (List.getElem?_set_self (a := next) within)
  rwa [List.eraseIdx_set_eq] at placed

/-- A call that returns leaves the others under way. -/
theorem staged_erase (serialized : Serialized server shared) (j : Nat) :
    ∀ call ∈ server.pending.eraseIdx j, Staged call ∧ PlainWord call.url ∧ Plain call.response :=
  fun call member => serialized.staged call (List.mem_of_mem_eraseIdx member)

/-- A call whose transaction is performed is an update at one go. -/
theorem performed (serialized : Serialized server shared) {j : Nat} {call : RedisCall}
    (active : server.pending[j]? = some call) (faultless : call.refused = false) (failed : Bool)
    (answer : Bytes) :
    Serialized
      (({ server with
          store := updateRedisCache library server.now server.store call.url call.response
        }.noting failed).proceed j (.returns answer))
      { shared with
        store := updateRedisCache library shared.now shared.store call.url call.response
        writes := shared.writes ++
          [{ time := shared.now, url := call.url, response := call.response }] } := by
  obtain ⟨dropped, perm, few⟩ := serialized.accounted
  have erased := perm_erase active
  refine ⟨?_, serialized.now, serialized.staged_erase j, dropped, ?_, ?_⟩
  · rw [serialized.now, serialized.store]
    rfl
  · -- The call moves from those under way to those performed.
    refine List.Perm.trans ?_ perm
    refine List.Perm.append_right dropped ?_
    rw [List.map_append, List.append_assoc]
    exact List.Perm.append_left _ (erased.map RedisCall.arguments).symm
  · have count := erased.countP_eq (fun call : RedisCall => call.refused)
    rw [List.countP_cons_of_neg (by simp [faultless])] at count
    show dropped.length + (server.pending.eraseIdx j).countP (·.refused) ≤
      server.failures + failed.toNat
    omega

/-- A call that returns without effect has met a failure before, or does so now. -/
theorem dropped (serialized : Serialized server shared) {j : Nat} {call : RedisCall}
    (active : server.pending[j]? = some call) (failed : Bool)
    (cause : call.refused = true ∨ failed = true) (answer : Bytes) :
    Serialized ((server.noting failed).proceed j (.returns answer)) shared := by
  obtain ⟨dropped, perm, few⟩ := serialized.accounted
  have erased := perm_erase active
  refine ⟨serialized.store, serialized.now, serialized.staged_erase j,
    dropped ++ [call.arguments], ?_, ?_⟩
  · -- The call moves from those under way to those dropped.
    refine List.Perm.trans ?_ perm
    rw [List.append_assoc, List.append_assoc]
    refine List.Perm.append_left _ ?_
    refine List.Perm.trans ?_ ((erased.map RedisCall.arguments).symm.append_right dropped)
    rw [← List.append_assoc, List.map_cons, List.cons_append]
    exact List.perm_append_comm
  · -- The failure of the call is spent here, whether it is an old or a new one.
    have count := erased.countP_eq (fun call : RedisCall => call.refused)
    rw [List.countP_cons] at count
    show (dropped ++ [call.arguments]).length + (server.pending.eraseIdx j).countP (·.refused) ≤
      server.failures + failed.toNat
    rw [List.length_append, List.length_singleton]
    rcases cause with before | now
    · simp only [before, if_true] at count
      omega
    · rw [now, Bool.toNat_true]
      omega

/-- A call that goes on has the same arguments, and meets a failure when it is spoiled. -/
theorem goesOn (serialized : Serialized server shared) {j : Nat} {call next : RedisCall}
    (active : server.pending[j]? = some call) (failed : Bool) (staged : Staged next)
    (url : next.url = call.url) (response : next.response = call.response)
    (cause : next.refused = true → call.refused = true ∨ failed = true) :
    Serialized ((server.noting failed).proceed j (.goesOn next)) shared := by
  obtain ⟨dropped, perm, few⟩ := serialized.accounted
  obtain ⟨-, named, plain⟩ := serialized.staged call (List.mem_of_getElem? active)
  refine ⟨serialized.store, serialized.now, fun other member => ?_, dropped, ?_, ?_⟩
  · rcases List.mem_or_eq_of_mem_set member with old | rfl
    · exact serialized.staged other old
    · exact ⟨staged, url ▸ named, response ▸ plain⟩
  · -- The call stays where it is among those under way.
    have same : next.arguments = call.arguments := by
      rw [RedisCall.arguments, RedisCall.arguments, url, response]
    have kept : ((server.pending.set j next).map RedisCall.arguments).Perm
        (server.pending.map RedisCall.arguments) := by
      refine ((perm_set active next).map RedisCall.arguments).trans ?_
      rw [List.map_cons, same, ← List.map_cons]
      exact ((perm_erase active).map RedisCall.arguments).symm
    exact ((kept.append_left _).append_right dropped).trans perm
  · show dropped.length + (server.pending.set j next).countP (·.refused) ≤
      server.failures + failed.toNat
    have before := (perm_erase active).countP_eq (fun call : RedisCall => call.refused)
    have after := (perm_set active next).countP_eq (fun call : RedisCall => call.refused)
    rw [List.countP_cons] at before after
    cases spoiled : next.refused with
    | false =>
      simp only [spoiled, Bool.false_eq_true, if_false] at after
      omega
    | true =>
      -- A call that is spoiled now pays with the failure of this step.
      simp only [spoiled, if_true] at after
      rcases cause spoiled with already | now
      · simp only [already, if_true] at before
        omega
      · rw [now, Bool.toNat_true]
        omega

/-- A call that connects is about to send its first command, and one that does not has failed. -/
theorem connected (serialized : Serialized server shared) {j : Nat} {call : RedisCall}
    (active : server.pending[j]? = some call) (staged : Staged call) {connects : Bool}
    {auth : CommandFate} {progress : CallProgress}
    (came : call.connect connects auth = some progress) :
    Serialized ((server.noting (!connects || auth = CommandFate.lost)).proceed j progress)
      shared := by
  -- Only a call that waits can connect; it is dropped with a failure, or gets its commands.
  cases staged with
  | waiting url response =>
    cases connects with
    | false =>
      cases came
      exact serialized.dropped active _ (.inr rfl) []
    | true =>
      by_cases lost : auth = .lost
      · simp only [RedisCall.connect, lost] at came
        cases came
        exact serialized.dropped active _ (.inr (by simp [lost])) []
      · simp only [RedisCall.connect, lost] at came
        cases came
        exact serialized.goesOn active _ (.connected url response) rfl rfl
          fun wrong => absurd wrong Bool.false_ne_true
  | connected url response => cases came
  | opened url response => cases came
  | offered url response => cases came
  | timed url response => cases came
  | spoiled url response queued count begun => cases came

/-- Each step is an update at one go, or leaves the keys. -/
theorem step (separates : library.Separates) (serialized : Serialized server shared)
    {label : RedisServerStep} {next : RedisServer} (plain : label.Plain)
    (opens : Opens server label)
    (stepped : (redisServerMachine library).step server label = some next) :
    ∃ labels last, (sharedRedisMachine library).run shared labels = some last ∧
      Serialized next last := by
  cases label with
  | call url response =>
    cases stepped
    obtain ⟨dropped, perm, few⟩ := serialized.accounted
    refine ⟨[], shared, rfl, serialized.store, serialized.now, fun call member => ?_, dropped, ?_,
      ?_⟩
    · rcases List.mem_append.mp member with old | new
      · exact serialized.staged call old
      · rw [List.mem_singleton.mp new]
        exact ⟨.waiting url response, plain⟩
    · -- The new call is the last one under way.
      show (shared.writes.map RedisWrite.arguments ++
        (server.pending ++ [({ url := url, response := response } : RedisCall)]).map
          RedisCall.arguments ++
          dropped).Perm (server.calls ++ [(url, response)])
      rw [List.map_append, ← List.append_assoc, List.append_assoc (_ ++ _)]
      refine (List.perm_append_comm.append_left _).trans ?_
      rw [← List.append_assoc]
      exact perm.append_right _
    · rw [List.countP_append]
      simpa using few
  | connect j connects auth =>
    simp only [redisServerMachine, Option.bind_eq_bind, Option.pure_def] at stepped
    obtain ⟨call, active, stepped⟩ := Option.bind_eq_some_iff.mp stepped
    obtain ⟨progress, came, stepped⟩ := Option.bind_eq_some_iff.mp stepped
    cases stepped
    refine ⟨[], shared, rfl, ?_⟩
    have staged := (serialized.staged call (List.mem_of_getElem? active)).1
    exact serialized.connected active staged came
  | send j fate heard =>
    simp only [redisServerMachine, Option.bind_eq_bind, Option.pure_def] at stepped
    obtain ⟨call, active, stepped⟩ := Option.bind_eq_some_iff.mp stepped
    obtain ⟨⟨store, progress⟩, sent, stepped⟩ := Option.bind_eq_some_iff.mp stepped
    cases stepped
    obtain ⟨staged, named, plainResponse⟩ := serialized.staged call (List.mem_of_getElem? active)
    have failure {cause : Prop} : cause ∨ fate ≠ .served ∨ heard = false →
        cause ∨ (decide (fate ≠ CommandFate.served) || !heard) = true := by
      simp
    cases staged.sendNext separates named plainResponse (fun served => opens served call active)
      sent with
    | performed answer faultless =>
      -- This is where the update takes place.
      exact ⟨[.update call.url call.response], _, rfl,
        serialized.performed active faultless _ answer⟩
    | dropped answer failed =>
      exact ⟨[], shared, rfl, serialized.dropped active _ (failure failed) answer⟩
    | goesOn next staged url response failed =>
      refine ⟨[], shared, rfl, serialized.goesOn active _ staged url response fun spoiled => ?_⟩
      exact failure ((failed spoiled).imp id .inl)
  | wait milliseconds =>
    cases stepped
    exact ⟨[.wait milliseconds], _, rfl, serialized.store, congrArg (· + milliseconds)
      serialized.now, serialized.staged, serialized.accounted⟩

end Serialized

/-- Whatever the order of the commands of all calls, and wherever connections fail, the server has
the keys that some of the calls leave which take place one after the other, each of them at one go
and at most once. The other calls are under way, or have met a failure of their own. -/
theorem updates_serialize {library : RedisLibrary} (separates : library.Separates)
    {labels : List RedisServerStep} {server : RedisServer}
    (plain : ∀ label ∈ labels, label.Plain)
    (opens : (redisServerMachine library).Meets Opens {} labels)
    (ran : (redisServerMachine library).run {} labels = some server) :
    ∃ updates shared, (sharedRedisMachine library).run {} updates = some shared ∧
      shared.store = server.store ∧ shared.now = server.now ∧
      ∃ dropped, (shared.writes.map RedisWrite.arguments ++
          server.pending.map RedisCall.arguments ++ dropped).Perm server.calls ∧
        dropped.length ≤ server.failures := by
  -- Nothing has been called at the start, so nothing has to be accounted for.
  have start : Serialized {} {} := ⟨rfl, rfl, fun _ member => absurd member List.not_mem_nil, [],
    List.Perm.refl [], Nat.le_refl 0⟩
  have met := (Machine.meets_of_forall fun label member _ => plain label member).and opens
  -- The simulation runs the shared store through the updates, one for each EXEC served.
  obtain ⟨updates, shared, ranShared, serialized⟩ := Machine.run_simulated Serialized
    (fun server shared label next serialized allowed stepped =>
      serialized.step separates allowed.1 allowed.2 stepped) start met ran
  obtain ⟨dropped, perm, few⟩ := serialized.accounted
  exact ⟨updates, shared, ranShared, serialized.store, serialized.now, dropped, perm, by omega⟩

/-- Two updates of one url, of which the second cannot connect. -/
theorem updates_serialize_two :
    ∃ server, (redisServerMachine splittingLibrary).run {}
        [.call (ascii ['u']) (ascii ['a']), .connect 0 true .served, .send 0 .served true,
          .call (ascii ['u']) (ascii ['b']), .send 0 .served true, .connect 1 false .served,
          .send 0 .served true, .send 0 .served false] = some server ∧
      ∃ updates shared, (sharedRedisMachine splittingLibrary).run {} updates = some shared ∧
        shared.store = server.store ∧ shared.now = server.now ∧
        ∃ dropped, (shared.writes.map RedisWrite.arguments ++
            server.pending.map RedisCall.arguments ++ dropped).Perm server.calls ∧
          dropped.length ≤ server.failures := by
  have ran : (redisServerMachine splittingLibrary).run {}
      [.call (ascii ['u']) (ascii ['a']), .connect 0 true .served, .send 0 .served true,
        .call (ascii ['u']) (ascii ['b']), .send 0 .served true, .connect 1 false .served,
        .send 0 .served true, .send 0 .served false] = some _ := rfl
  refine ⟨_, ran, updates_serialize separates_splittingLibrary ?_ ?_ ran⟩
  · simp only [List.mem_cons, List.not_mem_nil, or_false, forall_eq_or_imp, forall_eq,
      RedisServerStep.Plain, and_true, true_and]
    exact ⟨⟨⟨by decide, plain_ascii (by decide)⟩, plain_ascii (by decide)⟩,
      ⟨by decide, plain_ascii (by decide)⟩, plain_ascii (by decide)⟩
  · -- No command has an error reply.
    refine ⟨trivial, fun _ first => ?_⟩
    cases first
    refine ⟨trivial, fun _ second => ?_⟩
    cases second
    refine ⟨fun _ call active spoiled => (by cases active; cases spoiled), fun _ third => ?_⟩
    cases third
    refine ⟨trivial, fun _ fourth => ?_⟩
    cases fourth
    refine ⟨fun _ call active spoiled => (by cases active; cases spoiled), fun _ fifth => ?_⟩
    cases fifth
    refine ⟨trivial, fun _ sixth => ?_⟩
    cases sixth
    refine ⟨fun _ call active spoiled => (by cases active; cases spoiled), fun _ seventh => ?_⟩
    cases seventh
    exact ⟨fun _ call active spoiled => (by cases active; cases spoiled), fun _ _ => trivial⟩

end EnhancedProxy

import EnhancedProxy.ProxyServer.Tunnel

/-! When a tunnel's queue lists the requests whose responses are still outstanding. -/

namespace EnhancedProxy

/-- One tunnel, whether a task is between its `pushCache` and its `send`, and the history of the
requests forwarded. A request is forwarded from its `pushCache` on. -/
structure Exchange where
  relay : Relay := {}
  sending : Bool := false
  forwarded : List (Bytes × Bool) := []
  fault : Bool := false
  deriving DecidableEq, Repr

/-- The two parts of forwarding a request, and a chunk from the web server. -/
inductive ExchangeStep
  | pushCache (url : Bytes) (canCache : Bool)
  | send
  | receive (chunk : Bytes)
  deriving DecidableEq, Repr

namespace Exchange

/-- `pushCache` of the task that forwards a request. -/
def pushCache (exchange : Exchange) (url : Bytes) (canCache : Bool) : Exchange :=
  { exchange with
    relay := { exchange.relay with tunnel := exchange.relay.tunnel.pushCache url canCache }
    sending := true
    forwarded := exchange.forwarded ++ [(url, canCache)] }

/-- A chunk arrives, and `onClientMessage` runs. -/
def receive (memory : RelayMemory) (exchange : Exchange) (chunk : Bytes) : Exchange :=
  match (relayMachine memory).step exchange.relay chunk with
  | some relay => { exchange with relay := relay }
  -- `front` of an empty queue.
  | none => { exchange with fault := true }

/-- The forwarded requests whose responses have not been completely received. -/
def outstanding {β : Type} (F : Framing UInt8 β) (exchange : Exchange) : List (Bytes × Bool) :=
  exchange.forwarded.drop (F.split exchange.relay.received).1.length

/-- No call of `front` has found the queue empty, and the queue is as long as the list of outstanding
requests and starts with the same request. -/
def QueueMatches {β : Type} (F : Framing UInt8 β) (exchange : Exchange) : Prop :=
  exchange.fault = false ∧
    exchange.relay.tunnel.cacheQueue.length = (exchange.outstanding F).length ∧
    exchange.relay.tunnel.cacheQueue.head? = (exchange.outstanding F).head?

/-- A chunk arrives only once a request has been forwarded, and completes no response. -/
def Unanswered {β : Type} (F : Framing UInt8 β) (exchange : Exchange) : ExchangeStep → Prop
  | .receive chunk =>
    exchange.forwarded ≠ [] ∧ F.next (exchange.relay.received ++ chunk) = none
  | _ => True

end Exchange

/-- The exchange as a machine, until a fault, in which one request at a time is forwarded. -/
def exchangeMachine (memory : RelayMemory) : Machine Exchange ExchangeStep where
  step exchange label :=
    if exchange.fault then none
    else
      match label with
      | .pushCache url canCache =>
        if exchange.sending then none else some (exchange.pushCache url canCache)
      | .send => if exchange.sending then some { exchange with sending := false } else none
      | .receive chunk => some (exchange.receive memory chunk)

/-- Nothing has been popped, and no response is complete. -/
structure Unpopped {β : Type} (F : Framing UInt8 β) (exchange : Exchange) : Prop where
  sound : exchange.fault = false
  connected : exchange.relay.tunnel.serverConn = true
  queue : exchange.relay.tunnel.cacheQueue = exchange.forwarded
  incomplete : F.next exchange.relay.received = none

namespace Unpopped

variable {β : Type} {F : Framing UInt8 β} {memory : RelayMemory} {exchange next : Exchange}

/-- A new tunnel has received nothing. -/
theorem start : Unpopped F {} where
  sound := rfl
  connected := rfl
  queue := rfl
  incomplete := by
    -- A message has at least one byte.
    cases found : F.next [] with
    | none => rfl
    | some response =>
      have progress := F.progress found
      have within := F.within found
      rw [List.length_nil] at within
      omega

/-- While no response is complete, every forwarded request is outstanding. -/
theorem queueMatches (unpopped : Unpopped F exchange) : exchange.QueueMatches F := by
  -- No response has been split off, so every request forwarded is still outstanding.
  have all : exchange.outstanding F = exchange.forwarded := by
    rw [Exchange.outstanding, F.split_none unpopped.incomplete]
    rfl
  exact ⟨unpopped.sound, by rw [unpopped.queue, all], by rw [unpopped.queue, all]⟩

/-- A chunk that arrives after a forwarded request is only added to the input buffer. -/
theorem receive_eq (unpopped : Unpopped F exchange) (forwarded : exchange.forwarded ≠ [])
    (chunk : Bytes) :
    exchange.receive memory chunk =
      { exchange with
        relay := { exchange.relay with
          received := exchange.relay.received ++ chunk
          input := exchange.relay.input ++ chunk } } := by
  -- The queue is not empty, so its front exists, and no response is ever complete.
  have waiting : exchange.relay.tunnel.cacheQueue ≠ [] := by rwa [unpopped.queue]
  rw [Exchange.receive, relay_step memory unpopped.connected waiting]

/-- A step that meets the condition pops nothing and completes nothing. -/
theorem step (exchange : Exchange) (label : ExchangeStep) (next : Exchange)
    (unpopped : Unpopped F exchange) (_ : True) (unanswered : exchange.Unanswered F label)
    (stepped : (exchangeMachine memory).step exchange label = some next) : Unpopped F next := by
  -- Each exchange adds to both the queue and the list, or to neither.
  simp only [exchangeMachine, unpopped.sound, Bool.false_eq_true, if_false] at stepped
  cases label with
  | pushCache url canCache =>
    simp only [Option.ite_none_left_eq_some, Option.some.injEq] at stepped
    obtain ⟨-, rfl⟩ := stepped
    refine ⟨unpopped.sound, unpopped.connected, ?_, unpopped.incomplete⟩
    simp [Exchange.pushCache, Tunnel.pushCache, unpopped.queue]
  | send =>
    simp only [Option.ite_none_right_eq_some, Option.some.injEq] at stepped
    obtain ⟨-, rfl⟩ := stepped
    exact ⟨rfl, unpopped.connected, unpopped.queue, unpopped.incomplete⟩
  | receive chunk =>
    cases stepped
    obtain ⟨forwarded, incomplete⟩ := unanswered
    rw [unpopped.receive_eq forwarded]
    exact ⟨unpopped.sound, unpopped.connected, unpopped.queue, incomplete⟩

/-- A chunk before every request finds the queue empty, and a complete response is not popped. -/
theorem step_mismatch (exchange : Exchange) (label : ExchangeStep) (next : Exchange)
    (unpopped : Unpopped F exchange) (_ : True) (answered : ¬ exchange.Unanswered F label)
    (stepped : (exchangeMachine memory).step exchange label = some next) :
    ¬ next.QueueMatches F := by
  simp only [exchangeMachine, unpopped.sound, Bool.false_eq_true, if_false] at stepped
  cases label with
  | pushCache | send => exact absurd trivial answered
  | receive chunk =>
    cases stepped
    rintro ⟨sound, lengths, -⟩
    by_cases forwarded : exchange.forwarded = []
    · -- The callback takes the front of the empty queue.
      have queue := unpopped.queue.trans forwarded
      simp [Exchange.receive, relayMachine, onClientMessage, unpopped.connected, queue] at sound
    · rw [unpopped.receive_eq forwarded] at lengths
      cases found : F.next (exchange.relay.received ++ chunk) with
      | none => exact answered ⟨forwarded, found⟩
      | some response =>
        -- At least one response is complete, and all requests are still in the queue.
        have some_ : 0 < exchange.forwarded.length := List.length_pos_iff.mpr forwarded
        simp only [Exchange.outstanding, unpopped.queue, F.split_some found, List.length_cons,
          List.length_drop] at lengths
        omega

end Unpopped

/-- The queue lists the outstanding requests in exactly the runs in which the web server sends
nothing before the first request and never completes a response. -/
theorem queue_outstanding_iff {β : Type} (F : Framing UInt8 β) (memory : RelayMemory)
    {labels : List ExchangeStep} {last : Exchange}
    (ran : (exchangeMachine memory).run {} labels = some last) :
    (exchangeMachine memory).Always (Exchange.QueueMatches F) {} labels ↔
      (exchangeMachine memory).Meets (Exchange.Unanswered F) {} labels :=
  -- The first chunk that misses the condition shows at once.
  Machine.always_iff_meets Unpopped.step Unpopped.step_mismatch
    (fun _ unpopped => unpopped.queueMatches) Unpopped.start
    (Machine.meets_of_forall fun _ _ _ => trivial) ran

/-- A request, and the first bytes of its response. -/
theorem queue_outstanding_iff_partial :
    (exchangeMachine { atBufferObject := fun _ => [], behindVector := [] }).Always
      (Exchange.QueueMatches requestFraming) {}
      [.pushCache (ascii ['/']) true, .send, .receive (ascii ['H', 'T', 'T', 'P'])] := by
  -- Half a response is no response: nothing is removed from the queue, nor from the list.
  refine (queue_outstanding_iff requestFraming _ rfl).mpr ?_
  refine ⟨trivial, fun _ pushed => ?_⟩
  cases pushed
  refine ⟨trivial, fun _ sent => ?_⟩
  cases sent
  exact ⟨⟨by decide, by decide⟩, fun _ _ => trivial⟩

/-- A whole response to a request without a body. -/
def wholeResponse : Bytes :=
  ascii ['H', 'T', 'T', 'P', '/', '1', '.', '1', ' ', '2', '0', '0', ' ', 'O', 'K', '\r', '\n',
    '\r', '\n']

/-- One request and its whole response: the queue still lists the request. -/
theorem queue_keeps_answered :
    ¬ (exchangeMachine { atBufferObject := fun _ => [], behindVector := [] }).Always
      (Exchange.QueueMatches requestFraming) {}
      [.pushCache (ascii ['/']) true, .send, .receive wholeResponse] := by
  intro always
  obtain ⟨-, lengths, -⟩ := always _ _ (List.prefix_refl _) rfl
  -- The framing of the code's own parser finds one complete message in the chunk.
  have found : requestFraming.next wholeResponse =
      some ((ascii ['H', 'T', 'T', 'P', '/', '1', '.', '1'], ascii ['2', '0', '0']), 19) := by
    decide
  have none_ : Exchange.outstanding requestFraming
      { forwarded := [(ascii ['/'], true)], relay := { received := wholeResponse } } = [] := by
    simp [Exchange.outstanding, requestFraming.split_some found]
  have one : [(ascii ['/'], true)].length = _ := lengths
  exact absurd (one.trans (congrArg List.length none_)) (by decide)

end EnhancedProxy

import EnhancedProxy.Http.Fragmentation
import EnhancedProxy.Library.Machine

/-! The tunnel to the web server: its queue of forwarded urls, and its relay of responses. -/

namespace EnhancedProxy

/-- The part of a `Tunnel` object that its queue operations and its message callback use. -/
structure Tunnel where
  serverConn : Bool := true
  cacheQueue : List (Bytes × Bool) := []
  deriving DecidableEq, Repr

namespace Tunnel

/-- `pushCache` appends a forwarded url, and whether its response may be cached. -/
def pushCache (tunnel : Tunnel) (url : Bytes) (canCache : Bool) : Tunnel :=
  { tunnel with cacheQueue := tunnel.cacheQueue ++ [(url, canCache)] }

/-- `popCache` removes the oldest url, if there is one. -/
def popCache (tunnel : Tunnel) : Tunnel :=
  { tunnel with cacheQueue := tunnel.cacheQueue.tail }

end Tunnel

/-- The memory that the message callback passes to its callees without owning the bytes there. -/
structure RelayMemory where
  -- The bytes found at the address of the `Buffer` object, for a length of type `int`.
  atBufferObject : Int → Bytes
  -- The bytes up to the first NUL after the end of the copied vector.
  behindVector : Bytes

/-- One tunnel's relay: the input buffer of the backend connection, and all it has passed on. -/
structure Relay where
  tunnel : Tunnel := {}
  received : Bytes := []
  input : Bytes := []
  sent : List Bytes := []
  cacheWrites : List (Bytes × Bytes) := []
  deriving DecidableEq, Repr

/-- A vector read as a C string: its bytes before the first NUL, or else beyond its end. -/
def cString (memory : RelayMemory) (buff : Bytes) : Bytes :=
  if 0 ∈ buff then buff.takeWhile (· != 0) else buff ++ memory.behindVector

/-- `onClientMessage`. The call is refused where `front` reads an empty queue, and at `abort`. -/
def onClientMessage (memory : RelayMemory) (relay : Relay) : Option Relay :=
  if relay.tunnel.serverConn then
    match relay.tunnel.cacheQueue with
    -- `front` of an empty queue is undefined.
    | [] => none
    | res :: _ =>
      let context : HttpContext := {}
      let buff := relay.input
      if context.isResponseCompelete buff then
        -- The pointer and the length select `send` of raw memory, not `send` of a `Buffer`.
        let raw := memory.atBufferObject (toInt32 buff.length)
        some { relay with
          tunnel := relay.tunnel.popCache
          sent := relay.sent ++ [raw]
          -- Only a response to a cookieless request is stored.
          cacheWrites :=
            if res.2 then relay.cacheWrites ++ [(res.1, cString memory buff)]
            else relay.cacheWrites }
      else some relay
  else none

/-- A chunk is appended to the input buffer, whose only consumer is the callback that follows. -/
def relayMachine (memory : RelayMemory) : Machine Relay Bytes where
  step relay chunk :=
    onClientMessage memory
      { relay with received := relay.received ++ chunk, input := relay.input ++ chunk }

/-- A relay whose tunnel has already forwarded the given requests. -/
def Relay.start (forwarded : List (Bytes × Bool)) : Relay :=
  { tunnel := { cacheQueue := forwarded } }

/-- What was sent is a prefix of what was received, and holds every complete response that is due.
A framing of the backend's stream says which responses are complete. -/
def RelayCorrect {β : Type} (F : Framing UInt8 β) (forwarded : Nat) (relay : Relay) : Prop :=
  relay.sent.flatten <+: relay.received ∧
    (((F.split relay.received).1.take forwarded).map Prod.snd).flatten <+: relay.sent.flatten

/-- While a request awaits its response, a chunk is only added to the input buffer. -/
theorem relay_step (memory : RelayMemory) {relay : Relay} (connected : relay.tunnel.serverConn)
    (waiting : relay.tunnel.cacheQueue ≠ []) (chunk : Bytes) :
    (relayMachine memory).step relay chunk =
      some { relay with received := relay.received ++ chunk, input := relay.input ++ chunk } := by
  cases queue : relay.tunnel.cacheQueue with
  | nil => exact absurd queue waiting
  -- No response is ever judged complete, so the callback returns without an effect.
  | cons res later =>
    simp [relayMachine, onClientMessage, HttpContext.isResponseCompelete, connected, queue]

/-- While a request awaits its response, a run of chunks sends nothing and pops nothing. -/
theorem relay_run (memory : RelayMemory) (relay : Relay) (connected : relay.tunnel.serverConn)
    (waiting : relay.tunnel.cacheQueue ≠ []) (chunks : List Bytes) :
    (relayMachine memory).run relay chunks =
      some { relay with
        received := relay.received ++ chunks.flatten
        input := relay.input ++ chunks.flatten } := by
  -- The tunnel is the same after each chunk, so the next chunk meets the same conditions.
  induction chunks generalizing relay with
  | nil => simp
  | cons chunk chunks ih =>
    -- The first chunk is only stored.
    rw [Machine.run_cons, relay_step memory connected waiting]
    let grown : Relay :=
      { relay with received := relay.received ++ chunk, input := relay.input ++ chunk }
    have rest := ih grown connected waiting
    simpa [grown, List.append_assoc] using rest

/-- A relay that has sent nothing is correct exactly until a first response is complete. -/
theorem relayCorrect_unsent {β : Type} {F : Framing UInt8 β} {forwarded : Nat} {relay : Relay}
    (unsent : relay.sent = []) (due : 0 < forwarded) :
    RelayCorrect F forwarded relay ↔ F.next relay.received = none := by
  cases found : F.next relay.received with
  | none => simp [RelayCorrect, unsent, F.split_none found]
  | some response =>
    obtain ⟨m, n⟩ := response
    obtain ⟨requests, rfl⟩ := Nat.exists_eq_succ_of_ne_zero (Nat.ne_of_gt due)
    -- The first response has at least one byte, and none of its bytes was sent.
    have progress := F.progress found
    have within := F.within found
    simp only [RelayCorrect, unsent, F.split_some found, List.flatten_nil, List.take_succ_cons,
      List.map_cons, List.flatten_cons, List.prefix_nil, List.append_eq_nil_iff,
      List.take_eq_nil_iff, reduceCtorEq, iff_false]
    rintro ⟨-, ⟨none_taken | empty, -⟩⟩
    · omega
    · rw [empty, List.length_nil] at within
      omega

/-- The relay loses responses: it is correct in exactly the runs that complete no response. -/
theorem relay_correct_iff {β : Type} (F : Framing UInt8 β) (memory : RelayMemory)
    (first : Bytes × Bool) (later : List (Bytes × Bool)) (chunks : List Bytes) :
    (∃ relay, (relayMachine memory).run (Relay.start (first :: later)) chunks = some relay) ∧
      ((relayMachine memory).Always (RelayCorrect F (first :: later).length)
          (Relay.start (first :: later)) chunks ↔
        F.next chunks.flatten = none) := by
  have ran (chunks : List Bytes) :=
    relay_run memory (Relay.start (first :: later)) rfl (by simp [Relay.start]) chunks
  have due : 0 < (first :: later).length := by simp
  refine ⟨⟨_, ran chunks⟩, fun always => ?_, fun incomplete front relay isFront reached => ?_⟩
  · -- At the end of the run, nothing was sent and all chunks have been received.
    have correct := always chunks _ (List.prefix_refl chunks) (ran chunks)
    simpa [Relay.start] using (relayCorrect_unsent rfl due).mp correct
  · rw [ran front, Option.some.injEq] at reached
    subst reached
    rw [relayCorrect_unsent rfl due]
    -- A response that is complete in part of the stream is complete in the whole stream.
    obtain ⟨rest, rfl⟩ := isFront
    cases found : F.next front.flatten with
    | none => simpa [Relay.start] using found
    | some response =>
      have still := F.stable rest.flatten found
      rw [List.flatten_append, still] at incomplete
      cases incomplete

/-- One forwarded request and its response in a single chunk: no byte is sent. -/
theorem relay_drops_response :
    ∃ relay,
      (relayMachine { atBufferObject := fun _ => [], behindVector := [] }).run
          (Relay.start [(ascii ['/'], true)])
          [ascii ['H', 'T', 'T', 'P', '/', '1', '.', '1', ' ', '2', '0', '0', ' ', 'O', 'K',
            '\r', '\n', '\r', '\n']] = some relay ∧
        ¬ RelayCorrect requestFraming 1 relay := by
  refine ⟨_, rfl, fun correct => ?_⟩
  -- The framing of the code's own parser finds one complete message in the chunk.
  have incomplete := (relayCorrect_unsent rfl Nat.one_pos).mp correct
  exact absurd incomplete (by decide)

end EnhancedProxy

import EnhancedProxy.Http.ParseLaws

/-! Requests are cut from the stream at the same places however the stream is fragmented. -/

namespace EnhancedProxy

/-- A request cut from a stream: its method, its url, and all its bytes. -/
abbrev CutRequest := (Bytes × Bytes) × Bytes

/-- The framing of a client's byte stream that the parser's loop computes. -/
def requestFraming : Framing UInt8 (Bytes × Bytes) where
  next buf :=
    let done := parseLocals {} buf
    if done.2.ok then
      some ((done.1.requestMethod, done.1.requestUrl), done.2.it + done.2.bodySize)
    else none
  progress {buf m n} found := by
    -- Both line ends of an accepted head have been passed.
    dsimp only at found
    split at found
    · rename_i accepted
      have := parseLocals_within accepted
      cases found
      omega
    · cases found
  within {buf m n} found := by
    dsimp only at found
    split at found
    · rename_i accepted
      have := parseLocals_within accepted
      cases found
      omega
    · cases found
  stable {buf m n} more found := by
    dsimp only at found ⊢
    split at found
    · rename_i accepted
      rw [parseLocals_append more accepted, if_pos accepted]
      exact found
    · cases found

/-- Cut off at most the given number of requests: parse, erase the returned length, reset. -/
def extractRequests : Nat → HttpContext → Bytes → List CutRequest × Bytes
  | 0, _, buf => ([], buf)
  | requests + 1, context, buf =>
    let (context, ok, length) := parseRequest context buf
    if ok then
      let later := extractRequests requests context.reset (buf.drop length.toNat)
      (((context.requestMethod, context.requestUrl), buf.take length.toNat) :: later.1, later.2)
    else ([], buf)

/-- Add each chunk to the unconsumed bytes and cut off requests while `parseRequest` succeeds. -/
def feedChunks : Bytes → List Bytes → List CutRequest × Bytes
  | rest, [] => ([], rest)
  | rest, chunk :: chunks =>
    -- A request has at least one byte, so the buffer's length bounds the number of requests.
    let now := extractRequests (rest ++ chunk).length {} (rest ++ chunk)
    let later := feedChunks now.2 chunks
    (now.1 ++ later.1, later.2)

/-- No pass of the loop touches the cookie flag. -/
theorem parseIteration_hasCookie (context : HttpContext) (buf : Bytes) (locals : ParseLocals) :
    (parseIteration context buf locals).1.hasCookie = context.hasCookie := by
  cases state : context.state with
  | kExpectRequestLine =>
    simp only [parseIteration, state]
    cases searchCrlf buf locals.it with
    | none => rfl
    | some found =>
      -- The request line only fills in the method and the url.
      simp only [HttpContext.praseRequestLine]
      split_ifs <;> simp_all
  | kExpectHeaders =>
    simp only [parseIteration, state]
    cases searchCrlf buf locals.it with
    | none => rfl
    | some itCrlf => dsimp only; split <;> rfl
  | kExpectBody =>
    simp only [parseIteration, state]
    split_ifs <;> rfl
  | kGotAll => simp [parseIteration, state]

/-- The loop leaves the cookie flag as it was. -/
theorem parseLoop_hasCookie (passes : Nat) (context : HttpContext) (buf : Bytes)
    (locals : ParseLocals) :
    (parseLoop passes context buf locals).1.hasCookie = context.hasCookie := by
  -- No pass touches the flag, so the loop does not.
  induction passes generalizing context locals with
  | zero => rfl
  | succ passes ih =>
    cases running : locals.hasMore with
    | false => rw [parseLoop_ended running]
    | true =>
      simp only [parseLoop, running, if_true]
      rw [ih, parseIteration_hasCookie]

/-- A context that was new before a request is new again once it is reset. -/
theorem reset_parseRequest (buf : Bytes) : (parseRequest {} buf).1.reset = {} := by
  -- Reset leaves one field alone, and the parser has left that field alone too.
  have cookie : (parseRequest {} buf).1.hasCookie = true := parseLoop_hasCookie _ _ _ _
  simp [HttpContext.reset, cookie]

/-- What a pass does to the local variables depends on the parser's state only. -/
theorem parseIteration_sameState {context other : HttpContext} (same : context.state = other.state)
    (buf : Bytes) (locals : ParseLocals) :
    (parseIteration context buf locals).2 = (parseIteration other buf locals).2 ∧
      (parseIteration context buf locals).1.state = (parseIteration other buf locals).1.state := by
  -- The two passes read the same bytes, and branch on the same tests.
  cases state : other.state with
  | kExpectRequestLine =>
    rw [state] at same
    simp only [parseIteration, state, same]
    cases searchCrlf buf locals.it with
    | none => exact ⟨rfl, same.trans state.symm⟩
    | some found =>
      -- The method and the url are appended to, and do not decide the verdict.
      simp only [HttpContext.praseRequestLine]
      split_ifs <;> simp_all
  | kExpectHeaders =>
    rw [state] at same
    simp only [parseIteration, state, same]
    cases searchCrlf buf locals.it with
    | none => exact ⟨rfl, same.trans state.symm⟩
    | some itCrlf => dsimp only; split <;> simp_all
  | kExpectBody =>
    rw [state] at same
    simp only [parseIteration, state, same]
    split_ifs <;> simp_all
  | kGotAll =>
    rw [state] at same
    simp only [parseIteration, state, same, and_self]

/-- What the loop does to the local variables depends on the parser's state only. -/
theorem parseLoop_sameState (passes : Nat) {context other : HttpContext}
    (same : context.state = other.state) (buf : Bytes) (locals : ParseLocals) :
    (parseLoop passes context buf locals).2 = (parseLoop passes other buf locals).2 := by
  -- After each pass, the states agree again.
  induction passes generalizing context other locals with
  | zero => rfl
  | succ passes ih =>
    cases running : locals.hasMore with
    | false => rw [parseLoop_ended running, parseLoop_ended running]
    | true =>
      obtain ⟨sameLocals, sameState⟩ := parseIteration_sameState same buf locals
      simp only [parseLoop, running, if_true]
      rw [sameLocals]
      exact ih sameState _

/-- The verdict and the length do not depend on what the context held before. -/
theorem parseRequest_anyContext (context : HttpContext) (buf : Bytes) :
    (parseRequest context buf).2 = (parseRequest {} buf).2 := by
  -- `parseRequest` starts every context in the same state.
  have same : (parseLocals context buf).2 = (parseLocals {} buf).2 := by
    rw [parseLocals, parseLocals]
    apply parseLoop_sameState
    rfl
  rw [parseRequest, parseRequest, same]

/-- A buffer with no complete request is refused. -/
theorem parseRequest_of_none {buf : Bytes} (open_ : requestFraming.next buf = none)
    (context : HttpContext) : (parseRequest context buf).2.1 = false := by
  -- The verdict is that of a new context, on which the framing is defined.
  rw [parseRequest_anyContext]
  cases accepted : (parseLocals {} buf).2.ok with
  | false => exact accepted
  | true => simp [requestFraming, accepted] at open_

/-- A complete request is accepted with its length as an `int`. -/
theorem parseRequest_of_next {buf : Bytes} {m : Bytes × Bytes} {n : Nat}
    (found : requestFraming.next buf = some (m, n)) (context : HttpContext) :
    (parseRequest context buf).2 = (true, toInt32 n) := by
  -- The verdict is that of a new context, on which the framing is defined.
  rw [parseRequest_anyContext]
  cases accepted : (parseLocals {} buf).2.ok with
  | false => simp [requestFraming, accepted] at found
  | true =>
    simp only [requestFraming, accepted, if_true, Option.some.injEq, Prod.mk.injEq] at found
    rw [parseRequest, found.2, accepted]

/-- A complete request below 2^31 bytes is accepted with its length. -/
theorem parseRequest_of_some {buf : Bytes} {m : Bytes × Bytes} {n : Nat}
    (found : requestFraming.next buf = some (m, n)) (short : n < 2 ^ 31) (context : HttpContext) :
    (parseRequest context buf).2 = (true, (n : Int)) := by
  rw [parseRequest_of_next found, toInt32_of_lt short]

/-- In a buffer below 2^31 bytes, the returned `int` is the length the framing finds. -/
theorem requestFraming_next {buf : Bytes} (short : buf.length < 2 ^ 31) :
    requestFraming.next buf =
      if (parseRequest {} buf).2.1 then
        some (((parseRequest {} buf).1.requestMethod, (parseRequest {} buf).1.requestUrl),
          (parseRequest {} buf).2.2.toNat)
      else none := by
  -- The framing accepts exactly what `parseRequest` accepts.
  cases accepted : (parseLocals {} buf).2.ok with
  | false =>
    have refused : (parseRequest {} buf).2.1 = false := accepted
    simp [requestFraming, accepted, refused]
  | true =>
    have verdict : (parseRequest {} buf).2.1 = true := accepted
    -- The length is bounded by the buffer, so the conversion to `int` keeps it.
    have within := parseLocals_within accepted
    have kept : (parseRequest {} buf).2.2.toNat =
        (parseLocals {} buf).2.it + (parseLocals {} buf).2.bodySize := by
      rw [parseRequest, toInt32_of_lt (by omega), Int.toNat_natCast]
    simp only [requestFraming, accepted, verdict, if_true, kept]
    rfl

/-- Cutting requests off with the code's loop is splitting the buffer by the framing. -/
theorem extractRequests_eq_split {requests : Nat} {buf : Bytes} (enough : buf.length ≤ requests)
    (short : buf.length < 2 ^ 31) :
    extractRequests requests {} buf = requestFraming.split buf := by
  -- Every request found shortens the buffer by at least one byte.
  induction requests generalizing buf with
  | zero =>
    have empty : buf = [] := List.length_eq_zero_iff.mp (by omega)
    subst empty
    exact (requestFraming.split_none (by decide)).symm
  | succ requests ih =>
    have next := requestFraming_next short
    cases accepted : (parseRequest {} buf).2.1 with
    | false =>
      rw [requestFraming.split_none (by simpa [accepted] using next)]
      simp [extractRequests, accepted]
    | true =>
      simp only [accepted, if_true] at next
      have progress := requestFraming.progress next
      rw [requestFraming.split_some next]
      -- The request is not empty, so fewer passes are enough for the rest.
      have left : (buf.drop (parseRequest {} buf).2.2.toNat).length ≤ requests := by
        simp only [List.length_drop]
        omega
      simp only [extractRequests, accepted, if_true, reset_parseRequest]
      rw [ih left (by simp only [List.length_drop]; omega)]

/-- Feeding chunks through the code's loop is feeding them through the framing. -/
theorem feedChunks_eq_feed {rest : Bytes} {chunks : List Bytes}
    (short : (rest ++ chunks.flatten).length < 2 ^ 31) :
    feedChunks rest chunks = requestFraming.feed rest chunks := by
  -- The bound is on all bytes still to come, so it holds after each chunk.
  induction chunks generalizing rest with
  | nil => rfl
  | cons chunk chunks ih =>
    have shortNow : (rest ++ chunk).length < 2 ^ 31 := by
      simp only [List.flatten_cons, List.length_append] at short ⊢
      omega
    -- What is left after the requests of this chunk is no longer than what was there.
    have shrinks := congrArg List.length (requestFraming.peels_split (rest ++ chunk)).flatten
    have shortLater :
        ((requestFraming.split (rest ++ chunk)).2 ++ chunks.flatten).length < 2 ^ 31 := by
      simp only [List.flatten_cons, List.length_append] at short shrinks ⊢
      omega
    simp only [feedChunks, Framing.feed, extractRequests_eq_split (Nat.le_refl _) shortNow,
      ih shortLater]

/-- Fragmentation does not show in the requests a stream is read as. -/
theorem parseRequest_fragmentation :
    (∀ (buf more : Bytes) (length : Int), (parseRequest {} buf).2 = (true, length) →
      (parseRequest {} (buf ++ more)).2 = (true, length) ∧
      (parseRequest {} (buf ++ more)).1.requestMethod = (parseRequest {} buf).1.requestMethod ∧
      (parseRequest {} (buf ++ more)).1.requestUrl = (parseRequest {} buf).1.requestUrl) ∧
    ∀ chunks chunks' : List Bytes, chunks.flatten = chunks'.flatten →
      chunks.flatten.length < 2 ^ 31 → feedChunks [] chunks = feedChunks [] chunks' := by
  constructor
  · intro buf more length parsed
    -- The whole outcome is unchanged, because the loop never looks past an accepted request.
    have accepted : (parseLocals {} buf).2.ok = true := congrArg Prod.fst parsed
    have same : parseRequest {} (buf ++ more) = parseRequest {} buf := by
      simp only [parseRequest, parseLocals_append more accepted]
    rw [same]
    exact ⟨parsed, rfl, rfl⟩
  · intro chunks chunks' same short
    have nothing : requestFraming.next [] = none := by decide
    -- Both feeds are the split of the one stream.
    rw [feedChunks_eq_feed (by simpa using short), feedChunks_eq_feed (by simpa [same] using short),
      requestFraming.feed_eq_split nothing, requestFraming.feed_eq_split nothing, same]

/-- A request cut inside its last line end and one that arrives whole are read alike. -/
theorem parseRequest_fragmentation_split_crlf :
    ((parseRequest {} (ascii ['G', ' ', 'u', '\r', '\n', '\r', '\n'] ++ ascii ['X'])).2 = (true, 7) ∧
      (parseRequest {} (ascii ['G', ' ', 'u', '\r', '\n', '\r', '\n'] ++ ascii ['X'])).1.requestUrl =
        ascii ['u']) ∧
    feedChunks [] [ascii ['G', ' ', 'u', '\r', '\n', '\r'], ascii ['\n', 'X']] =
      feedChunks [] [ascii ['G', ' ', 'u', '\r', '\n', '\r', '\n', 'X']] := by
  -- Seven bytes make a request, and the eighth one does not change that.
  have parsed := parseRequest_fragmentation.1
    (ascii ['G', ' ', 'u', '\r', '\n', '\r', '\n']) (ascii ['X']) 7 (by decide)
  exact ⟨⟨parsed.1, parsed.2.2.trans (by decide)⟩,
    parseRequest_fragmentation.2 _ _ (by decide) (by decide)⟩

end EnhancedProxy

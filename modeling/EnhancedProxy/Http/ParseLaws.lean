import EnhancedProxy.Http.Context
import EnhancedProxy.Library.Framing

/-! The parser loop ends on every buffer, and bytes that arrive later do not change its verdict. -/

namespace EnhancedProxy

/-- A line end that is found lies after the starting position and inside the buffer. -/
theorem searchCrlf_within {buf : Bytes} {start found : Nat}
    (search : searchCrlf buf start = some found) (inside : start ≤ buf.length) :
    start ≤ found ∧ found + 2 ≤ buf.length := by
  -- The search runs over the rest of the buffer, and both bytes of the line end belong to it.
  obtain ⟨i, searched, rfl⟩ := Option.map_eq_some_iff.mp search
  have bound := Search.firstOccurrence_within searched
  simp only [crlf, List.length_cons, List.length_nil, List.length_drop] at bound
  omega

/-- The buffer is cut by a line end into the bytes before it, the line end, and the rest. -/
theorem searchCrlf_cut {buf : Bytes} {start found : Nat}
    (search : searchCrlf buf start = some found) :
    ∃ rest, buf = buf.take found ++ carriageReturn :: lineFeed :: rest := by
  -- The search starts at a suffix, so its result is counted from there.
  obtain ⟨i, searched, rfl⟩ := Option.map_eq_some_iff.mp search
  obtain ⟨rest, cut⟩ := Search.firstOccurrence_prefix searched
  refine ⟨rest, ?_⟩
  rw [List.drop_drop] at cut
  have whole := List.take_append_drop (start + i) buf
  rw [← cut] at whole
  exact whole.symm

/-- A line end found in the buffer is found at the same place once more bytes have arrived. -/
theorem searchCrlf_append {buf : Bytes} {start found : Nat} (more : Bytes)
    (search : searchCrlf buf start = some found) (inside : start ≤ buf.length) :
    searchCrlf (buf ++ more) start = some found := by
  -- More bytes at the end do not move the first occurrence in the suffix.
  obtain ⟨i, searched, rfl⟩ := Option.map_eq_some_iff.mp search
  rw [searchCrlf, List.drop_append_of_le_length inside, Search.firstOccurrence_append more searched]
  rfl

/-- The loop that skips spaces stops at the carriage return of the line. -/
theorem skippedSpaces_line (line rest : Bytes) {start : Nat} (inside : start ≤ line.length) :
    ((line ++ carriageReturn :: rest).drop start).takeWhile (· == space) =
      (line.drop start).takeWhile (· == space) := by
  -- No test for the end is needed because the byte at the end is not a space.
  have stops : (carriageReturn :: rest).takeWhile (· == space) = [] := by
    simp [carriageReturn, space]
  rw [List.drop_append_of_le_length inside, List.takeWhile_append, stops]
  split
  · rename_i all
    rw [List.append_nil]
    exact ((List.takeWhile_prefix _).eq_of_length all).symm
  · rfl

/-- A request line is accepted when something other than spaces follows its first space. -/
def hasUrl (line : Bytes) : Bool :=
  ((line.dropWhile (· != space)).dropWhile (· == space)) ≠ []

/-- What is read of a line as the method. -/
def lineMethod (line : Bytes) : Bytes := line.takeWhile (· != space)

/-- What is read of a line as the url. -/
def lineUrl (line : Bytes) : Bytes :=
  ((line.dropWhile (· != space)).dropWhile (· == space)).takeWhile (· != space)

/-- Behind the longest beginning with a property, the rest follows. -/
theorem drop_takeWhile {α : Type*} (p : α → Bool) (l : List α) :
    l.drop (l.takeWhile p).length = l.dropWhile p := by
  -- Both parts together are the whole list, so dropping the first leaves the second.
  have behind := congrArg (List.drop (l.takeWhile p).length)
    (List.takeWhile_append_dropWhile (p := p) (l := l))
  rw [List.drop_left] at behind
  exact behind.symm

/-- The longest beginning with a property is all of it exactly if nothing follows. -/
theorem length_takeWhile_eq_iff {α : Type*} (p : α → Bool) (l : List α) :
    (l.takeWhile p).length = l.length ↔ l.dropWhile p = [] := by
  -- The lengths of the two parts add up to that of the list.
  have whole := congrArg List.length (List.takeWhile_append_dropWhile (p := p) (l := l))
  rw [List.length_append] at whole
  rw [← List.length_eq_zero_iff]
  omega

/-- Behind the method and the spaces, the bytes follow that the url is read from. -/
theorem drop_method_spaces (line : Bytes) :
    line.drop ((line.takeWhile (· != space)).length +
        ((line.dropWhile (· != space)).takeWhile (· == space)).length) =
      (line.dropWhile (· != space)).dropWhile (· == space) := by
  rw [← List.drop_drop, drop_takeWhile, drop_takeWhile]

/-- The request line is read from the bytes before its line end alone: its method and its url are
appended to what the context holds, also when it is refused. -/
theorem praseRequestLine_line (context : HttpContext) (line rest : Bytes) :
    context.praseRequestLine (line ++ carriageReturn :: rest) line.length =
      (hasUrl line,
        { context with
          requestMethod := context.requestMethod ++ lineMethod line
          requestUrl := context.requestUrl ++ lineUrl line }) := by
  have taken : (line ++ carriageReturn :: rest).take line.length = line := List.take_left
  have inside : (line.takeWhile (· != space)).length ≤ line.length :=
    (List.takeWhile_prefix _).length_le
  -- The skip ends at the carriage return, so it sees only the line.
  have skipped := skippedSpaces_line line rest inside
  rw [drop_takeWhile] at skipped
  simp only [HttpContext.praseRequestLine, taken, skipped, drop_method_spaces, hasUrl, lineMethod,
    lineUrl]
  split_ifs with noSpace noUrl
  · have nothing := (length_takeWhile_eq_iff _ line).mp noSpace
    simp [nothing]
  · -- The spaces behind the method reach to the end of the line.
    have nothing : (line.dropWhile (· != space)).dropWhile (· == space) = [] := by
      rw [← drop_method_spaces, noUrl, List.drop_length]
    simp [nothing]
  · have something : (line.dropWhile (· != space)).dropWhile (· == space) ≠ [] := by
      intro nothing
      have rest := (length_takeWhile_eq_iff _ _).mpr nothing
      have whole := congrArg List.length
        (List.takeWhile_append_dropWhile (p := (· != space)) (l := line))
      rw [List.length_append] at whole
      omega
    simp [something]

/-- The request line of a buffer is read from the bytes before its line end alone. -/
theorem praseRequestLine_search {buf : Bytes} {start stop : Nat} (context : HttpContext)
    (search : searchCrlf buf start = some stop) (inside : start ≤ buf.length) :
    context.praseRequestLine buf stop =
      (hasUrl (buf.take stop),
        { context with
          requestMethod := context.requestMethod ++ lineMethod (buf.take stop)
          requestUrl := context.requestUrl ++ lineUrl (buf.take stop) }) := by
  -- What the search finds is the end of the line, so the parser reads exactly that line.
  have bound := searchCrlf_within search inside
  have length : (buf.take stop).length = stop := List.length_take_of_le (by omega)
  obtain ⟨rest, cut⟩ := searchCrlf_cut search
  have read := praseRequestLine_line context (buf.take stop) (lineFeed :: rest)
  rwa [← cut, length] at read

/-- The request line is read as before once more bytes have arrived. -/
theorem praseRequestLine_append {buf : Bytes} {start stop : Nat} (context : HttpContext)
    (more : Bytes) (search : searchCrlf buf start = some stop) (inside : start ≤ buf.length) :
    context.praseRequestLine (buf ++ more) stop = context.praseRequestLine buf stop := by
  -- Both buffers have the same first line, and nothing after it is read.
  have bound := searchCrlf_within search inside
  have longer : start ≤ (buf ++ more).length := by
    rw [List.length_append]
    omega
  rw [praseRequestLine_search context search inside,
    praseRequestLine_search context (searchCrlf_append more search inside) longer,
    List.take_append_of_le_length (by omega)]

/-- The state between two passes of the loop: the position is inside, and a verdict is sound. -/
structure Scanning (buf : Bytes) (context : HttpContext) (locals : ParseLocals) : Prop where
  inside : locals.it ≤ buf.length
  headed : context.state ≠ .kExpectRequestLine → 2 ≤ locals.it
  unfinished : context.state ≠ .kGotAll
  framed : locals.hasMore = false → locals.ok = true →
    2 ≤ locals.it ∧ locals.it + locals.bodySize ≤ buf.length

/-- The loop starts scanning at the beginning of the buffer. -/
theorem scanning_start (buf : Bytes) (context : HttpContext) :
    Scanning buf { context with state := .kExpectRequestLine } {} where
  -- No line end has been passed, and no verdict was reached.
  inside := Nat.zero_le _
  headed := fun started => absurd rfl started
  unfinished := by simp
  framed := by simp

/-- The number of passes the loop can still take. -/
def passesLeft (buf : Bytes) (context : HttpContext) (locals : ParseLocals) : Nat :=
  match context.state with
  | .kExpectRequestLine => buf.length - locals.it + 3
  | .kExpectHeaders => buf.length - locals.it + 2
  | .kExpectBody => 1
  | .kGotAll => 0

/-- A pass keeps the state of the scan sound. -/
theorem parseIteration_scanning {buf : Bytes} {context : HttpContext} {locals : ParseLocals}
    (scanning : Scanning buf context locals) (running : locals.hasMore = true) :
    Scanning buf (parseIteration context buf locals).1 (parseIteration context buf locals).2 := by
  have inside := scanning.inside
  -- One case per parser state, and in each the outcome of the line-end search.
  cases state : context.state with
  | kExpectRequestLine =>
    simp only [parseIteration, state]
    cases search : searchCrlf buf locals.it with
    | none => exact ⟨Nat.le_refl _, by simp [state], by simp [state], by simp⟩
    | some found =>
      have bound := searchCrlf_within search inside
      dsimp only
      split
      · -- An accepted request line has passed the first line end.
        exact ⟨by dsimp only; omega, by simp, by simp, by simp [running]⟩
      · -- A refused request line leaves the state as it was.
        refine ⟨by dsimp only; omega, ?_, ?_, by simp⟩ <;>
        · simp only [HttpContext.praseRequestLine]
          split_ifs <;> simp [state]
  | kExpectHeaders =>
    have headed := scanning.headed (by simp [state])
    simp only [parseIteration, state]
    cases search : searchCrlf buf locals.it with
    | none => exact ⟨inside, by simpa [state] using headed, by simp [state], by simp⟩
    | some itCrlf =>
      have bound := searchCrlf_within search inside
      dsimp only
      split
      · -- A header line moves the position past its line end.
        exact ⟨by dsimp only; omega, by simp, by simp [state], by simp [running]⟩
      · exact ⟨by dsimp only; omega, by simp, by simp, by simp [running]⟩
  | kExpectBody =>
    have headed := scanning.headed (by simp [state])
    simp only [parseIteration, state]
    -- The verdict is positive only for a body that fits, or for an empty one.
    split_ifs with announced empty
    · exact ⟨inside, by simpa [state] using headed, by simp [state], by dsimp only; omega⟩
    · exact ⟨inside, by simpa [state] using headed, by simp [state], by dsimp only; omega⟩
    · exact ⟨inside, by simpa [state] using headed, by simp [state], by simp⟩
  | kGotAll => exact absurd state scanning.unfinished

/-- A pass either ends the loop or uses up one of the passes left. -/
theorem parseIteration_passesLeft {buf : Bytes} {context : HttpContext} {locals : ParseLocals}
    (scanning : Scanning buf context locals) :
    (parseIteration context buf locals).2.hasMore = false ∨
      passesLeft buf (parseIteration context buf locals).1 (parseIteration context buf locals).2 <
        passesLeft buf context locals := by
  have inside := scanning.inside
  -- Either the verdict is reached, or the position or the state moves on.
  cases state : context.state with
  | kExpectRequestLine =>
    simp only [parseIteration, state]
    cases search : searchCrlf buf locals.it with
    | none => exact .inl rfl
    | some found =>
      have bound := searchCrlf_within search inside
      dsimp only
      split
      · -- The request line is behind, and at most the rest of the buffer is left.
        exact .inr (by simp only [passesLeft, state]; omega)
      · exact .inl rfl
  | kExpectHeaders =>
    simp only [parseIteration, state]
    cases search : searchCrlf buf locals.it with
    | none => exact .inl rfl
    | some itCrlf =>
      have bound := searchCrlf_within search inside
      dsimp only
      split
      · exact .inr (by simp only [passesLeft, state]; omega)
      · -- Another header line has been passed.
        exact .inr (by simp only [passesLeft, state]; omega)
  | kExpectBody =>
    simp only [parseIteration, state]
    split_ifs <;> exact .inl rfl
  | kGotAll => exact absurd state scanning.unfinished

/-- A pass that does not refuse the buffer makes the same move once more bytes have arrived. -/
theorem parseIteration_append {buf : Bytes} {context : HttpContext} {locals : ParseLocals}
    (more : Bytes) (scanning : Scanning buf context locals)
    (accepted : (parseIteration context buf locals).2.hasMore = true ∨
      (parseIteration context buf locals).2.ok = true) :
    parseIteration context (buf ++ more) locals = parseIteration context buf locals := by
  have inside := scanning.inside
  -- In each state, the bytes that decide the pass lie before the appended ones.
  cases state : context.state with
  | kExpectRequestLine =>
    simp only [parseIteration, state] at accepted ⊢
    cases search : searchCrlf buf locals.it with
    | none => simp [search] at accepted
    | some found =>
      simp only [searchCrlf_append more search inside,
        praseRequestLine_append context more search inside]
  | kExpectHeaders =>
    simp only [parseIteration, state] at accepted ⊢
    cases search : searchCrlf buf locals.it with
    | none => simp [search] at accepted
    | some itCrlf =>
      have bound := searchCrlf_within search inside
      -- The header line ends inside the shorter buffer.
      have taken : (buf ++ more).take itCrlf = buf.take itCrlf :=
        List.take_append_of_le_length (by omega)
      simp only [searchCrlf_append more search inside, taken]
  | kExpectBody =>
    simp only [parseIteration, state] at accepted ⊢
    by_cases empty : locals.bodySize = 0
    · simp [empty]
    · -- A body that fits in the shorter buffer fits in the longer one.
      by_cases fits : locals.bodySize ≤ buf.length - locals.it
      · have fitsMore : locals.bodySize ≤ (buf ++ more).length - locals.it := by
          simp only [List.length_append]
          omega
        rw [if_pos ⟨empty, fitsMore⟩, if_pos ⟨empty, fits⟩]
      · simp [empty, fits] at accepted
  | kGotAll => exact absurd state scanning.unfinished

/-- A loop that runs takes a pass and goes on with the rest. -/
theorem parseLoop_running {locals : ParseLocals} (running : locals.hasMore = true) {passes : Nat}
    {context : HttpContext} {buf : Bytes} :
    parseLoop (passes + 1) context buf locals =
      parseLoop passes (parseIteration context buf locals).1 buf
        (parseIteration context buf locals).2 := by
  simp [parseLoop, running]

/-- A loop that has ended takes no further pass. -/
theorem parseLoop_ended {locals : ParseLocals} (ended : locals.hasMore = false) (passes : Nat)
    (context : HttpContext) (buf : Bytes) :
    parseLoop passes context buf locals = (context, locals) := by
  cases passes <;> simp [parseLoop, ended]

/-- Enough passes bring the loop to its end. -/
theorem parseLoop_ends {buf : Bytes} {context : HttpContext} {locals : ParseLocals} {passes : Nat}
    (scanning : Scanning buf context locals) (enough : passesLeft buf context locals ≤ passes) :
    (parseLoop passes context buf locals).2.hasMore = false := by
  -- The number of passes left falls with each pass.
  induction passes generalizing context locals with
  | zero =>
    -- Every state of a scan has at least one pass left.
    have := scanning.unfinished
    cases state : context.state <;> simp_all [passesLeft]
  | succ passes ih =>
    cases running : locals.hasMore with
    | false => rw [parseLoop_ended running]; exact running
    | true =>
      simp only [parseLoop, running, if_true]
      rcases parseIteration_passesLeft scanning with ended | fewer
      · rw [parseLoop_ended ended]
        exact ended
      · exact ih (parseIteration_scanning scanning running) (by omega)

/-- Whatever pass the loop stops at, its state is sound. -/
theorem parseLoop_scanning {buf : Bytes} {context : HttpContext} {locals : ParseLocals}
    (scanning : Scanning buf context locals) (passes : Nat) :
    Scanning buf (parseLoop passes context buf locals).1
      (parseLoop passes context buf locals).2 := by
  -- Each pass keeps the scan sound, and a loop that has ended changes nothing.
  induction passes generalizing context locals with
  | zero => exact scanning
  | succ passes ih =>
    cases running : locals.hasMore with
    | false => rw [parseLoop_ended running]; exact scanning
    | true =>
      simp only [parseLoop, running, if_true]
      exact ih (parseIteration_scanning scanning running)

/-- A loop that accepts the buffer accepts it in the same way once more bytes have arrived. -/
theorem parseLoop_append {buf : Bytes} {context : HttpContext} {locals : ParseLocals}
    (more : Bytes) (extra passes : Nat) (scanning : Scanning buf context locals)
    (ended : (parseLoop passes context buf locals).2.hasMore = false)
    (accepted : (parseLoop passes context buf locals).2.ok = true) :
    parseLoop (passes + extra) context (buf ++ more) locals =
      parseLoop passes context buf locals := by
  -- Both loops make the same passes, as long as the shorter one has not ended.
  induction passes generalizing context locals with
  | zero =>
    have ended : locals.hasMore = false := ended
    rw [parseLoop_ended ended]
    rfl
  | succ passes ih =>
    cases running : locals.hasMore with
    | false => rw [parseLoop_ended running, parseLoop_ended running]
    | true =>
      have more_passes : passes + 1 + extra = passes + extra + 1 := by omega
      rw [more_passes]
      simp only [parseLoop, running, if_true] at ended accepted ⊢
      -- A pass that refused the buffer would have ended the loop without accepting.
      have moved : (parseIteration context buf locals).2.hasMore = true ∨
          (parseIteration context buf locals).2.ok = true := by
        cases stopped : (parseIteration context buf locals).2.hasMore with
        | true => exact .inl rfl
        | false => exact .inr (by simpa [parseLoop_ended stopped] using accepted)
      rw [parseIteration_append more scanning moved]
      exact ih (parseIteration_scanning scanning running) ended accepted

/-- `parseRequest` comes to an end on every buffer, whatever context it is called on. -/
theorem parseLocals_ends (context : HttpContext) (buf : Bytes) :
    (parseLocals context buf).2.hasMore = false :=
  parseLoop_ends (scanning_start buf context) (by simp [passesLeft, parsePasses])

/-- An accepted request ends inside the buffer and holds at least its two line ends. -/
theorem parseLocals_within {context : HttpContext} {buf : Bytes}
    (accepted : (parseLocals context buf).2.ok = true) :
    2 ≤ (parseLocals context buf).2.it ∧
      (parseLocals context buf).2.it + (parseLocals context buf).2.bodySize ≤ buf.length :=
  (parseLoop_scanning (scanning_start buf context) _).framed (parseLocals_ends context buf) accepted

/-- An accepted request is read in the same way from a buffer with more bytes after it. -/
theorem parseLocals_append {context : HttpContext} {buf : Bytes} (more : Bytes)
    (accepted : (parseLocals context buf).2.ok = true) :
    parseLocals context (buf ++ more) = parseLocals context buf := by
  -- The longer buffer only grants the loop more passes.
  have passes : parsePasses (buf ++ more) = parsePasses buf + more.length := by
    simp only [parsePasses, List.length_append]
    omega
  rw [parseLocals, passes]
  exact parseLoop_append more _ _ (scanning_start buf context) (parseLocals_ends context buf)
    accepted

end EnhancedProxy

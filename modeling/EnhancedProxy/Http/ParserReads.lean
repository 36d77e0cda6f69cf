import EnhancedProxy.Http.Verdict

/-! The parser with every read checked against the end of the buffer. -/

namespace EnhancedProxy

/-- `while (start != end && *start != ' ')`, on the bytes from `start` to the end of the buffer. It
yields the word and where it ends, or nothing if it reads behind the buffer. -/
def readWord (stop : Nat) : Nat → Bytes → Option (Bytes × Nat × Bytes)
  | start, [] => if start = stop then some ([], start, []) else none
  | start, c :: rest =>
    if start = stop ∨ c = space then some ([], start, c :: rest)
    else (readWord stop (start + 1) rest).map fun (word, behind) => (c :: word, behind)

/-- `while (*start == ' ')`, which does not test for the end. -/
def skipSpaces : Nat → Bytes → Option (Nat × Bytes)
  | _, [] => none
  | start, c :: rest => if c = space then skipSpaces (start + 1) rest else some (start, c :: rest)

/-- `praseRequestLine` with checked reads. -/
def praseRequestLineChecked (context : HttpContext) (buf : Bytes) (stop : Nat) :
    Option (Bool × HttpContext) := do
  let (method, start, rest) ← readWord stop 0 buf
  let context := { context with requestMethod := context.requestMethod ++ method }
  if start = stop then return (false, context)
  let (start, rest) ← skipSpaces start rest
  if start = stop then return (false, context)
  let (url, _, _) ← readWord stop start rest
  return (true, { context with requestUrl := context.requestUrl ++ url })

/-- The bytes of a range, which must lie inside the buffer and not end before it starts. -/
def readRange (buf : Bytes) (first last : Nat) : Option Bytes :=
  if first ≤ last ∧ last ≤ buf.length then some ((buf.take last).drop first) else none

/-- `std::search` for `CRLF` from the cursor to the end of the buffer. -/
def searchCrlfChecked (buf : Bytes) (it : Nat) : Option (Option Nat) :=
  (readRange buf it buf.length).map fun _ => searchCrlf buf it

/-- The cursor two bytes further on, which must not be behind the end. -/
def advanceChecked (buf : Bytes) (it : Nat) : Option Nat :=
  if it + 2 ≤ buf.length then some (it + 2) else none

/-- The body of the loop with checked reads. -/
def parseIterationChecked (context : HttpContext) (buf : Bytes) (locals : ParseLocals) :
    Option (HttpContext × ParseLocals) := do
  match context.state with
  | .kExpectRequestLine =>
    match ← searchCrlfChecked buf locals.it with
    | none => return (context, { locals with it := buf.length, ok := false, hasMore := false })
    | some found =>
      let (ok, context) ← praseRequestLineChecked context buf found
      if ok then
        let it ← advanceChecked buf found
        return ({ context with state := .kExpectHeaders }, { locals with it := it, ok := true })
      else return (context, { locals with it := found, ok := false, hasMore := false })
  | .kExpectHeaders =>
    match ← searchCrlfChecked buf locals.it with
    | none => return (context, { locals with ok := false, hasMore := false })
    | some itCrlf =>
      let line ← readRange buf locals.it itCrlf
      let at_ := locals.it + line.findIdx (· == colon)
      if at_ ≠ itCrlf then
        let header ← readRange buf locals.it at_
        if header = contentLength then
          let value ← readRange buf (at_ + 1) itCrlf
          let it ← advanceChecked buf itCrlf
          return (context, { locals with it := it, bodySize := toUnsigned32 (atoi value) })
        else
          let it ← advanceChecked buf itCrlf
          return (context, { locals with it := it })
      else
        let it ← advanceChecked buf itCrlf
        return ({ context with state := .kExpectBody }, { locals with it := it })
  | .kExpectBody =>
    -- The number of bytes left is computed without a sign.
    if locals.bodySize ≠ 0 ∧ locals.bodySize ≤ toUnsigned64 ((buf.length : Int) - locals.it) then
      return (context, { locals with ok := true, hasMore := false })
    else if locals.bodySize = 0 then return (context, { locals with ok := true, hasMore := false })
    else return (context, { locals with ok := false, hasMore := false })
  | .kGotAll => return (context, locals)

/-- The loop with checked reads, for at most the given number of passes. -/
def parseLoopChecked : Nat → HttpContext → Bytes → ParseLocals → Option (HttpContext × ParseLocals)
  | 0, context, _, locals => some (context, locals)
  | passes + 1, context, buf, locals =>
    if locals.hasMore then do
      let next ← parseIterationChecked context buf locals
      parseLoopChecked passes next.1 buf next.2
    else some (context, locals)

/-- A word is read up to the end of the line, wherever the line starts. -/
theorem readWord_line (stop : Nat) {start : Nat} (line tail : Bytes)
    (reaches : start + line.length = stop) :
    readWord stop start (line ++ tail) =
      some (line.takeWhile (· != space), start + (line.takeWhile (· != space)).length,
        line.dropWhile (· != space) ++ tail) := by
  induction line generalizing start with
  | nil =>
    -- At the end of the line, nothing is read.
    have atStop : start = stop := reaches
    cases tail <;> simp [readWord, atStop]
  | cons c line ih =>
    rw [List.length_cons] at reaches
    have before : start ≠ stop := by omega
    have further : start + 1 + line.length = stop := by omega
    by_cases isSpace : c = space
    · simp [readWord, isSpace]
    · have next := ih further
      simp [readWord, before, isSpace, next, Nat.add_comm 1, Nat.add_assoc]

/-- Spaces are skipped up to the first other byte, if there is one. -/
theorem skipSpaces_line {start : Nat} (line : Bytes) {c : UInt8} (tail : Bytes) (stops : c ≠ space) :
    skipSpaces start (line ++ c :: tail) =
      some (start + (line.takeWhile (· == space)).length,
        line.dropWhile (· == space) ++ c :: tail) := by
  -- The byte after the line is no space, so the skipping ends there at the latest.
  induction line generalizing start with
  | nil => simp [skipSpaces, stops]
  | cons d line ih =>
    by_cases isSpace : d = space
    · simp [skipSpaces, isSpace, ih, Nat.add_comm 1, Nat.add_assoc]
    · simp [skipSpaces, isSpace]

section Reads

variable {buf : Bytes} {context : HttpContext} {locals : ParseLocals}

/-- The request line is read without leaving the buffer: the carriage return behind it ends the loop
that skips spaces. -/
theorem praseRequestLineChecked_eq {stop : Nat} (search : searchCrlf buf 0 = some stop) :
    praseRequestLineChecked context buf stop = some (context.praseRequestLine buf stop) := by
  obtain ⟨rest, cut⟩ := searchCrlf_cut search
  have bound := searchCrlf_within search (Nat.zero_le _)
  have length : (buf.take stop).length = stop := List.length_take_of_le (by omega)
  generalize buf.take stop = line at cut length
  subst length
  -- The line is its method, some spaces, and what follows these.
  have method := List.takeWhile_append_dropWhile (p := (· != space)) (l := line)
  have spaces := List.takeWhile_append_dropWhile (p := (· == space))
    (l := line.dropWhile (· != space))
  have inside : (line.takeWhile (· != space)).length ≤ line.length :=
    (List.takeWhile_prefix _).length_le
  have methodLength := congrArg List.length method
  have spacesLength := congrArg List.length spaces
  rw [List.length_append] at methodLength spacesLength
  have taken : (line ++ carriageReturn :: lineFeed :: rest).take line.length = line := List.take_left
  have stops : carriageReturn ≠ space := by decide
  rw [cut]
  simp only [praseRequestLineChecked, HttpContext.praseRequestLine, taken,
    skippedSpaces_line line _ inside, drop_takeWhile, drop_method_spaces,
    readWord_line line.length line _ (Nat.zero_add _), skipSpaces_line _ _ stops, Nat.zero_add,
    Option.bind_eq_bind, Option.bind_some]
  rw [readWord_line line.length _ _ (by omega)]
  -- Both tests for the end are the same.
  split_ifs <;> rfl

/-- A range inside the buffer is read. -/
theorem readRange_inside {first last : Nat} (ordered : first ≤ last) (inside : last ≤ buf.length) :
    readRange buf first last = some ((buf.take last).drop first) :=
  if_pos ⟨ordered, inside⟩

/-- A search from a cursor inside the buffer reads no byte outside it. -/
theorem searchCrlfChecked_inside {it : Nat} (inside : it ≤ buf.length) :
    searchCrlfChecked buf it = some (searchCrlf buf it) := by
  -- The search looks at a range from the cursor to the end, which lies inside.
  rw [searchCrlfChecked, readRange_inside inside (Nat.le_refl _)]
  rfl

/-- The header name and the value are ranges of the header line. -/
theorem parseIterationChecked_headers (scanning : Scanning buf context locals)
    (state : context.state = .kExpectHeaders) :
    parseIterationChecked context buf locals = some (parseIteration context buf locals) := by
  have inside := scanning.inside
  simp only [parseIterationChecked, parseIteration, state, searchCrlfChecked_inside inside,
    Option.bind_eq_bind, Option.bind_some]
  cases search : searchCrlf buf locals.it with
  | none => rfl
  | some itCrlf =>
    have bound := searchCrlf_within search inside
    have length : ((buf.take itCrlf).drop locals.it).length = itCrlf - locals.it := by
      rw [List.length_drop, List.length_take_of_le (by omega)]
    have colonWithin : ((buf.take itCrlf).drop locals.it).findIdx (· == colon) ≤ itCrlf - locals.it :=
      length ▸ List.findIdx_le_length
    have line := readRange_inside bound.1 (by omega : itCrlf ≤ buf.length)
    have behind : advanceChecked buf itCrlf = some (itCrlf + 2) := if_pos bound.2
    dsimp only
    rw [line]
    simp only [Option.bind_some, behind, length]
    generalize colonAt : ((buf.take itCrlf).drop locals.it).findIdx (· == colon) = k at colonWithin
    -- The colon is behind the cursor, and at the end of the line only if there is none.
    by_cases hasColon : k = itCrlf - locals.it
    · rw [if_neg (by omega), if_neg (by omega)]
      rfl
    · have header := readRange_inside (Nat.le_add_right locals.it k)
        (by omega : locals.it + k ≤ buf.length)
      have value := readRange_inside (by omega : locals.it + k + 1 ≤ itCrlf)
        (by omega : itCrlf ≤ buf.length)
      have sameName : (buf.take (locals.it + k)).drop locals.it =
          ((buf.take itCrlf).drop locals.it).take k := by
        rw [List.drop_take, List.drop_take, List.take_take, Nat.add_sub_cancel_left,
          Nat.min_eq_left (by omega)]
      have sameValue : (buf.take itCrlf).drop (locals.it + k + 1) =
          ((buf.take itCrlf).drop locals.it).drop (k + 1) := by
        rw [List.drop_drop, Nat.add_assoc]
      rw [if_pos (by omega), if_pos hasColon, header, sameName]
      simp only [Option.bind_some, value, sameValue, headerBodySize, colonAt]
      split_ifs <;> rfl

/-- A pass reads nothing outside the buffer, and leaves the cursor inside. -/
theorem parseIterationChecked_eq (scanning : Scanning buf context locals)
    (start : context.state = .kExpectRequestLine → locals.it = 0) (short : buf.length < 2 ^ 64) :
    parseIterationChecked context buf locals = some (parseIteration context buf locals) := by
  have inside := scanning.inside
  cases state : context.state with
  | kExpectRequestLine =>
    -- The request line is read from the start of the buffer.
    have atStart := start state
    simp only [parseIterationChecked, parseIteration, state, searchCrlfChecked_inside inside,
      Option.bind_eq_bind, Option.bind_some]
    cases search : searchCrlf buf locals.it with
    | none => rfl
    | some found =>
      have bound := searchCrlf_within search inside
      have behind : advanceChecked buf found = some (found + 2) := if_pos bound.2
      rw [atStart] at search
      dsimp only
      rw [praseRequestLineChecked_eq search]
      simp only [Option.bind_some, behind]
      split <;> rfl
  | kExpectHeaders => exact parseIterationChecked_headers scanning state
  | kExpectBody =>
    -- The cursor is not behind the end, so the difference does not wrap.
    have left : toUnsigned64 ((buf.length : Int) - locals.it) = buf.length - locals.it := by
      unfold toUnsigned64
      omega
    simp only [parseIterationChecked, parseIteration, state, left]
    split_ifs <;> rfl
  | kGotAll => exact absurd state scanning.unfinished

/-- Only the first pass reads a request line. -/
theorem parseIteration_headed (unfinished : context.state ≠ .kGotAll)
    (running : (parseIteration context buf locals).2.hasMore = true) :
    (parseIteration context buf locals).1.state ≠ .kExpectRequestLine := by
  cases state : context.state with
  | kExpectRequestLine =>
    simp only [parseIteration, state] at running ⊢
    split at running
    · cases running
    · split at running
      · rename_i accepted
        simp [accepted]
      · cases running
  | kExpectHeaders =>
    simp only [parseIteration, state]
    split
    · simp [state]
    · split <;> simp [state]
  | kExpectBody =>
    -- The pass over the body is the last one.
    simp only [parseIteration, state] at running
    split_ifs at running
  | kGotAll => exact absurd state unfinished

/-- No pass of the loop reads outside the buffer. -/
theorem parseLoopChecked_eq (scanning : Scanning buf context locals)
    (start : locals.hasMore = true → context.state = .kExpectRequestLine → locals.it = 0)
    (short : buf.length < 2 ^ 64) (passes : Nat) :
    parseLoopChecked passes context buf locals = some (parseLoop passes context buf locals) := by
  -- Each pass is checked on its own, and after it the loop is scanning again.
  induction passes generalizing context locals with
  | zero => rfl
  | succ passes ih =>
    cases running : locals.hasMore with
    | false => simp [parseLoopChecked, parseLoop, running]
    | true =>
      have moved := parseIterationChecked_eq scanning (start running) short
      have headed := fun still : (parseIteration context buf locals).2.hasMore = true =>
        parseIteration_headed scanning.unfinished still
      simp only [parseLoopChecked, parseLoop, running, if_true, moved, Option.bind_eq_bind,
        Option.bind_some]
      exact ih (parseIteration_scanning scanning running)
        fun still expects => absurd expects (headed still)

end Reads

/-- The parser ends, reads nothing outside the buffer and never moves its cursor behind the end. A
length it returns with a request is positive and within the buffer, so erasing it makes progress. -/
def ParserBounds (context : HttpContext) (buf : Bytes) : Prop :=
  let start : HttpContext := { context with state := .kExpectRequestLine }
  (∃ passes after locals,
      parseLoopChecked passes start buf {} = some (after, locals) ∧ locals.hasMore = false ∧
        parseRequest context buf =
          (after, locals.ok, toInt32 (locals.it + locals.bodySize : Nat))) ∧
    (∀ passes, (parseLoop passes start buf {}).2.it ≤ buf.length) ∧
    ∀ n, (parseRequest context buf).2 = (true, n) →
      0 < n ∧ n ≤ buf.length ∧ (buf.drop n.toNat).length < buf.length

/-- The bounds hold on every buffer below 2^31 bytes. -/
theorem parseRequest_bounds (context : HttpContext) (buf : Bytes) (short : buf.length < 2 ^ 31) :
    ParserBounds context buf := by
  have scanning := scanning_start buf context
  refine ⟨⟨parsePasses buf, _, _, parseLoopChecked_eq scanning (fun _ _ => rfl) (by omega) _,
    parseLocals_ends context buf, rfl⟩, fun passes => (parseLoop_scanning scanning passes).inside,
    fun n returned => ?_⟩
  -- An accepted request lies inside the buffer, so its length is an `int`.
  simp only [parseRequest, Prod.mk.injEq] at returned
  obtain ⟨accepted, length⟩ := returned
  obtain ⟨headed, within⟩ := parseLocals_within accepted
  rw [toInt32_of_lt (by omega)] at length
  rw [List.length_drop]
  omega

/-- A request line and the empty line. -/
def emptyHead : Bytes := ascii ['G', ' ', 'u', '\r', '\n', '\r', '\n']

/-- The bounds for a request without headers. -/
theorem parseRequest_bounds_emptyHead : ParserBounds {} emptyHead :=
  parseRequest_bounds {} emptyHead (by decide)

end EnhancedProxy

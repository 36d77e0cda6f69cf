import EnhancedProxy.Http.Bytes
import EnhancedProxy.Library.Search

/-! The HTTP context: the request parser's state, its loop, and the pair it returns. -/

namespace EnhancedProxy

/-- The states of the request parser. -/
inductive HttpRequestParseState
  | kExpectRequestLine
  | kExpectHeaders
  | kExpectBody
  | kGotAll
  deriving DecidableEq, Repr

/-- One `_HttpContext` object. A new one expects a request line and has read nothing. -/
structure HttpContext where
  state : HttpRequestParseState := .kExpectRequestLine
  requestMethod : Bytes := []
  requestUrl : Bytes := []
  hasCookie : Bool := true
  deriving DecidableEq, Repr

/-- `GetMethod`, the spelling a method must have for its request to be looked up in the cache. -/
def getMethod : Bytes := ascii ['G', 'e', 't']

/-- The field name that announces a body. -/
def contentLength : Bytes :=
  ascii ['C', 'o', 'n', 't', 'e', 'n', 't', '-', 'L', 'e', 'n', 'g', 't', 'h']

namespace HttpContext

/-- `reset` forgets the request that was read, and leaves the cookie flag alone. -/
def reset (context : HttpContext) : HttpContext :=
  { context with state := .kExpectRequestLine, requestUrl := [], requestMethod := [] }

/-- `createResponse` returns the cached content itself. -/
def createResponse (_context : HttpContext) (content : Bytes) : Bytes := content

/-- `isResponseCompelete`, the test the relay applies to a response. -/
def isResponseCompelete (_context : HttpContext) (_buf : Bytes) : Bool := false

/-- `praseRequestLine` on the bytes of the buffer up to `stop`. -/
def praseRequestLine (context : HttpContext) (buf : Bytes) (stop : Nat) : Bool × HttpContext :=
  let method := (buf.take stop).takeWhile (· != space)
  let context := { context with requestMethod := context.requestMethod ++ method }
  -- Without a space, the whole line is taken for a method and refused.
  if method.length = stop then (false, context)
  else
    -- The loop that skips spaces does not test for the end, so it may read what follows `stop`.
    let start := method.length + ((buf.drop method.length).takeWhile (· == space)).length
    if start = stop then (false, context)
    else
      let url := ((buf.take stop).drop start).takeWhile (· != space)
      -- The url ends at the next space, or at the end of the line.
      (true, { context with requestUrl := context.requestUrl ++ url })

end HttpContext

/-- The local variables of `parseRequest`, with `it` counted from the start of the buffer. -/
structure ParseLocals where
  it : Nat := 0
  ok : Bool := false
  hasMore : Bool := true
  bodySize : Nat := 0
  deriving DecidableEq, Repr

/-- `std::search` for `CRLF` from a position to the end of the buffer. -/
def searchCrlf (buf : Bytes) (start : Nat) : Option Nat :=
  (Search.firstOccurrence crlf (buf.drop start)).map (start + ·)

/-- The body size after a header line: only a field named exactly `Content-Length` sets it. -/
def headerBodySize (line : Bytes) (bodySize : Nat) : Nat :=
  let at_ := line.findIdx (· == colon)
  -- The name is compared byte by byte, and `atoi` reads what follows the colon.
  if line.take at_ = contentLength then toUnsigned32 (atoi (line.drop (at_ + 1))) else bodySize

/-- One pass through the body of the `while (hasMore)` loop. -/
def parseIteration (context : HttpContext) (buf : Bytes) (locals : ParseLocals) :
    HttpContext × ParseLocals :=
  match context.state with
  | .kExpectRequestLine =>
    match searchCrlf buf locals.it with
    -- No line end has arrived yet.
    | none => (context, { locals with it := buf.length, ok := false, hasMore := false })
    | some found =>
      let (ok, context) := context.praseRequestLine buf found
      if ok then
        ({ context with state := .kExpectHeaders }, { locals with it := found + 2, ok := true })
      -- A refused request line leaves the state, but not the method, as it was.
      else (context, { locals with it := found, ok := false, hasMore := false })
  | .kExpectHeaders =>
    match searchCrlf buf locals.it with
    | none => (context, { locals with ok := false, hasMore := false })
    | some itCrlf =>
      let line := (buf.take itCrlf).drop locals.it
      if line.findIdx (· == colon) ≠ line.length then
        (context,
          { locals with it := itCrlf + 2, bodySize := headerBodySize line locals.bodySize })
      else
        -- Any line without a colon ends the headers, not only the empty one.
        ({ context with state := .kExpectBody }, { locals with it := itCrlf + 2 })
  | .kExpectBody =>
    -- The whole body must have arrived.
    if locals.bodySize ≠ 0 ∧ locals.bodySize ≤ buf.length - locals.it then
      (context, { locals with ok := true, hasMore := false })
    else if locals.bodySize = 0 then (context, { locals with ok := true, hasMore := false })
    else (context, { locals with ok := false, hasMore := false })
  -- No case of the `switch` handles this state.
  | .kGotAll => (context, locals)

/-- The `while (hasMore)` loop, for at most the given number of passes. -/
def parseLoop : Nat → HttpContext → Bytes → ParseLocals → HttpContext × ParseLocals
  | 0, context, _, locals => (context, locals)
  | passes + 1, context, buf, locals =>
    if locals.hasMore then
      let next := parseIteration context buf locals
      parseLoop passes next.1 buf next.2
    else (context, locals)

/-- More passes than any buffer of this length takes. -/
def parsePasses (buf : Bytes) : Nat := buf.length + 3

/-- `parseRequest` with its local variables still in view. -/
def parseLocals (context : HttpContext) (buf : Bytes) : HttpContext × ParseLocals :=
  parseLoop (parsePasses buf) { context with state := .kExpectRequestLine } buf {}

/-- `parseRequest`: the context afterwards, the verdict, and the length converted to `int`. -/
def parseRequest (context : HttpContext) (buf : Bytes) : HttpContext × Bool × Int :=
  let done := parseLocals context buf
  (done.1, done.2.ok, toInt32 (done.2.it + done.2.bodySize : Nat))

end EnhancedProxy

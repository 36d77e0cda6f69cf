import EnhancedProxy.Http.ParseLaws
import EnhancedProxy.Http.Fragmentation

/-! Requests written one after the other are read back one after the other. -/

namespace EnhancedProxy

/-- A part of a request line: not empty, and free of spaces and line ends. -/
def IsToken (text : Bytes) : Prop :=
  text ≠ [] ∧ space ∉ text ∧ carriageReturn ∉ text ∧ lineFeed ∉ text

/-- A header whose name ends at its colon and whose value ends at its line end. -/
def IsHeader (header : Bytes × Bytes) : Prop :=
  (colon ∉ header.1 ∧ carriageReturn ∉ header.1 ∧ lineFeed ∉ header.1) ∧
    carriageReturn ∉ header.2 ∧ lineFeed ∉ header.2

/-- The values of the headers named exactly `Content-Length`. -/
def contentLengths (headers : List (Bytes × Bytes)) : List Bytes :=
  (headers.filter fun header => header.1 = contentLength).map Prod.snd

/-- The headers announce the body: its decimal length once, or nothing for an empty body. -/
def Announces (headers : List (Bytes × Bytes)) (body : Bytes) : Prop :=
  (contentLengths headers = [] ∧ body = []) ∨
    ∃ blanks digits, contentLengths headers = [blanks ++ digits] ∧
      (∀ c ∈ blanks, c = space) ∧ (∀ c ∈ digits, isDigit c) ∧ digits ≠ [] ∧
      digitsValue digits = body.length ∧ body.length < 2 ^ 31

/-- A request as a client writes it, with its body announced by its headers. -/
structure Request where
  method : Bytes
  url : Bytes
  version : Bytes
  headers : List (Bytes × Bytes)
  body : Bytes
  methodToken : IsToken method
  urlToken : IsToken url
  versionToken : IsToken version
  headersClean : ∀ header ∈ headers, IsHeader header
  announced : Announces headers body

/-- A header line without its line end. -/
def headerLine (header : Bytes × Bytes) : Bytes := header.1 ++ colon :: header.2

/-- The header lines, each with its line end. -/
def renderHeaders (headers : List (Bytes × Bytes)) : Bytes :=
  headers.flatMap fun header => headerLine header ++ crlf

namespace Request

/-- The request line without its line end. -/
def requestLine (r : Request) : Bytes := r.method ++ space :: (r.url ++ space :: r.version)

/-- Everything before the body. -/
def head (r : Request) : Bytes := r.requestLine ++ crlf ++ renderHeaders r.headers ++ crlf

/-- The bytes of the request on the wire. -/
def render (r : Request) : Bytes := r.head ++ r.body

/-- What a reader of the stream should recover of the request. -/
def cut (r : Request) : CutRequest := ((r.method, r.url), r.render)

end Request

/-- Requests written one after the other, with further bytes behind them. -/
def pipelined (requests : List Request) (trailing : Bytes) : Bytes :=
  requests.flatMap Request.render ++ trailing

/-- The first request is recognized with its exact length, and all are recovered in order. -/
def RoundTrip (requests : List Request) (trailing : Bytes) : Prop :=
  ∀ context : HttpContext,
    (∀ first later, requests = first :: later →
      (parseRequest context.reset (pipelined requests trailing)).2 =
        (true, (first.render.length : Int)) ∧
      (parseRequest context.reset (pipelined requests trailing)).1.requestMethod = first.method ∧
      (parseRequest context.reset (pipelined requests trailing)).1.requestUrl = first.url) ∧
    extractRequests requests.length context.reset (pipelined requests trailing) =
      (requests.map Request.cut, trailing)

/-- A line without a carriage return ends at the line end that follows it. -/
theorem searchCrlf_line (done line rest : Bytes) (clean : carriageReturn ∉ line) :
    searchCrlf (done ++ (line ++ crlf ++ rest)) done.length = some (done.length + line.length) := by
  -- The line holds no first byte of a line end, so the search stops right behind it.
  rw [searchCrlf, List.drop_left, crlf, Search.firstOccurrence_after line rest clean]
  rfl

/-- A name without a colon is all that stands before the colon of its line. -/
theorem headerLine_colon {header : Bytes × Bytes} (clean : colon ∉ header.1) :
    (headerLine header).findIdx (· == colon) = header.1.length := by
  -- The search passes the name and stops at the colon behind it.
  have passed : header.1.findIdx (· == colon) = header.1.length := by
    refine List.findIdx_eq_length_of_false fun c member => ?_
    have differs : c ≠ colon := fun same => clean (same ▸ member)
    simpa using differs
  rw [headerLine, List.findIdx_append, passed, if_neg (Nat.lt_irrefl _)]
  simp [List.findIdx_cons]

/-- A header line sets the body size exactly when its name is `Content-Length`. -/
theorem headerBodySize_headerLine {header : Bytes × Bytes} (clean : colon ∉ header.1)
    (bodySize : Nat) :
    headerBodySize (headerLine header) bodySize =
      if header.1 = contentLength then toUnsigned32 (atoi header.2) else bodySize := by
  -- The name is what stands before the colon, and the value what stands after it.
  simp only [headerBodySize, headerLine_colon clean]
  simp [headerLine]

/-- The body size after all header lines have been read. -/
def headersBodySize (headers : List (Bytes × Bytes)) (bodySize : Nat) : Nat :=
  headers.foldl (fun size header => headerBodySize (headerLine header) size) bodySize

/-- Headers without a `Content-Length` leave the body size as it was. -/
theorem headersBodySize_unannounced {headers : List (Bytes × Bytes)}
    (clean : ∀ header ∈ headers, IsHeader header) (none_ : contentLengths headers = [])
    (bodySize : Nat) : headersBodySize headers bodySize = bodySize := by
  -- Each header has another name, so it passes the size on.
  induction headers with
  | nil => rfl
  | cons header headers ih =>
    simp only [contentLengths, List.map_eq_nil_iff, List.filter_cons] at none_ ih
    split at none_
    · cases none_
    · rename_i other
      have other : header.1 ≠ contentLength := by simpa using other
      have same := headerBodySize_headerLine (clean header (by simp)).1.1 bodySize
      rw [if_neg other] at same
      rw [headersBodySize, List.foldl_cons, same]
      exact ih (fun h member => clean h (by simp [member])) none_

/-- A single `Content-Length` sets the body size, wherever it stands among the headers. -/
theorem headersBodySize_announced {headers : List (Bytes × Bytes)} {value : Bytes}
    (clean : ∀ header ∈ headers, IsHeader header) (once : contentLengths headers = [value])
    (bodySize : Nat) : headersBodySize headers bodySize = toUnsigned32 (atoi value) := by
  induction headers generalizing bodySize with
  | nil => cases once
  | cons header headers ih =>
    have cleanRest : ∀ h ∈ headers, IsHeader h := fun h member => clean h (by simp [member])
    have size := headerBodySize_headerLine (clean header (by simp)).1.1 bodySize
    rw [headersBodySize, List.foldl_cons, size]
    simp only [contentLengths, List.filter_cons] at once
    split at once
    · -- This is the one header that announces the body, so the others change nothing.
      rename_i named
      simp only [List.map_cons, List.cons.injEq] at once
      rw [if_pos (by simpa using named), once.1]
      exact headersBodySize_unannounced cleanRest once.2 _
    · -- Another header passes the size on, and the announcement is still to come.
      rename_i other
      rw [if_neg (by simpa using other)]
      exact ih cleanRest once bodySize

/-- Headers that announce a body give the parser its length. -/
theorem headersBodySize_body {headers : List (Bytes × Bytes)} {body : Bytes}
    (clean : ∀ header ∈ headers, IsHeader header) (announced : Announces headers body) :
    headersBodySize headers 0 = body.length := by
  rcases announced with ⟨none_, rfl⟩ | ⟨blanks, digits, once, blank, digit, nonempty, value, small⟩
  · -- Without an announcement, both the size and the body are empty.
    exact headersBodySize_unannounced clean none_ 0
  · -- The digits are the length of the body, which no conversion cuts off.
    rw [headersBodySize_announced clean once, atoi_digits blank digit nonempty (by omega), value]
    unfold toUnsigned32
    omega

/-- A request line of tokens is accepted, and its words are the method and the url. -/
theorem requestLine_words {method url : Bytes} (version : Bytes) (methodToken : IsToken method)
    (urlToken : IsToken url) :
    hasUrl (method ++ space :: (url ++ space :: version)) = true ∧
      lineMethod (method ++ space :: (url ++ space :: version)) = method ∧
      lineUrl (method ++ space :: (url ++ space :: version)) = url := by
  obtain ⟨-, methodClean, -, -⟩ := methodToken
  obtain ⟨urlNonempty, urlClean, -, -⟩ := urlToken
  have notSpace : ∀ {text : Bytes}, space ∉ text → ∀ c ∈ text, (c != space) = true := by
    intro text clean c member
    have differs : c ≠ space := fun same => clean (same ▸ member)
    simpa using differs
  -- The method runs up to the first space, and exactly one space stands before the url.
  have behind : ((method ++ space :: (url ++ space :: version)).dropWhile (· != space)).dropWhile
      (· == space) = url ++ space :: version := by
    rw [List.dropWhile_append_of_pos (notSpace methodClean)]
    obtain ⟨u, later, urlHead⟩ := List.exists_cons_of_ne_nil urlNonempty
    have uNotSpace : (u != space) = true := notSpace urlClean u (by simp [urlHead])
    simp [urlHead, bne_iff_ne.mp uNotSpace]
  refine ⟨?_, ?_, ?_⟩
  · rw [hasUrl, behind]
    simp
  · rw [lineMethod, List.takeWhile_append_of_pos (notSpace methodClean)]
    simp
  · rw [lineUrl, behind, List.takeWhile_append_of_pos (notSpace urlClean)]
    simp

/-- Reading the request line of a rendered request fills in its method and url. -/
theorem praseRequestLine_requestLine (r : Request) (context : HttpContext) (rest : Bytes)
    (empty : context.requestMethod = [] ∧ context.requestUrl = []) :
    context.praseRequestLine (r.requestLine ++ crlf ++ rest) r.requestLine.length =
      (true, { context with requestMethod := r.method, requestUrl := r.url }) := by
  -- The rendered line has both words, and an empty context takes them over as they are.
  obtain ⟨accepted, method, url⟩ := requestLine_words r.version r.methodToken r.urlToken
  have ended : r.requestLine ++ crlf ++ rest =
      r.requestLine ++ carriageReturn :: (lineFeed :: rest) := by
    simp [crlf]
  rw [ended, praseRequestLine_line, Request.requestLine, accepted, method, url, empty.1, empty.2]
  rfl

/-- One pass over a header line moves behind its line end and updates the body size. -/
theorem parseIteration_header (context : HttpContext) (done rest : Bytes)
    {header : Bytes × Bytes} (clean : IsHeader header) (bodySize : Nat)
    (state : context.state = .kExpectHeaders) :
    parseIteration context (done ++ (headerLine header ++ crlf ++ rest))
        { it := done.length, ok := true, hasMore := true, bodySize := bodySize } =
      (context,
        { it := (done ++ (headerLine header ++ crlf)).length, ok := true, hasMore := true,
          bodySize := headerBodySize (headerLine header) bodySize }) := by
  -- The search for the line end must not stop inside the header.
  have noReturn : carriageReturn ∉ headerLine header := by
    simp only [headerLine, List.mem_append, List.mem_cons, not_or]
    exact ⟨clean.1.2.1, by decide, clean.2.1⟩
  have line : ((done ++ (headerLine header ++ crlf ++ rest)).take
      (done.length + (headerLine header).length)).drop done.length = headerLine header := by
    rw [List.take_length_add_append, List.drop_left, List.append_assoc, List.take_left]
  -- The colon lies inside the line, so the line is a header and not the end of the head.
  have hasColon : (headerLine header).findIdx (· == colon) ≠ (headerLine header).length := by
    rw [headerLine_colon clean.1.1]
    simp [headerLine]
  simp only [parseIteration, state, searchCrlf_line done _ rest noReturn, line]
  rw [if_pos hasColon]
  simp [crlf, Nat.add_assoc]

/-- As many passes as there are headers read all of them. -/
theorem parseLoop_headers (passes : Nat) (context : HttpContext) (done rest : Bytes)
    {headers : List (Bytes × Bytes)} (clean : ∀ header ∈ headers, IsHeader header)
    (bodySize : Nat) (state : context.state = .kExpectHeaders) :
    parseLoop (headers.length + passes) context (done ++ (renderHeaders headers ++ rest))
        { it := done.length, ok := true, hasMore := true, bodySize := bodySize } =
      parseLoop passes context (done ++ (renderHeaders headers ++ rest))
        { it := (done ++ renderHeaders headers).length, ok := true, hasMore := true,
          bodySize := headersBodySize headers bodySize } := by
  induction headers generalizing done bodySize with
  | nil => simp [renderHeaders, headersBodySize]
  | cons header headers ih =>
    have shape : done ++ (renderHeaders (header :: headers) ++ rest) =
        done ++ (headerLine header ++ crlf ++ (renderHeaders headers ++ rest)) := by
      simp [renderHeaders]
    have behind : done ++ (headerLine header ++ crlf ++ (renderHeaders headers ++ rest)) =
        (done ++ (headerLine header ++ crlf)) ++ (renderHeaders headers ++ rest) := by
      simp
    -- The first header takes one pass, and the others start behind it.
    rw [shape, List.length_cons, Nat.add_right_comm]
    simp only [parseLoop, if_true,
      parseIteration_header context done _ (clean header (by simp)) bodySize state]
    rw [behind, ih (done ++ (headerLine header ++ crlf)) (fun h member => clean h (by simp [member]))]
    simp [renderHeaders, headersBodySize]

/-- Loops that have both ended agree, whatever numbers of passes they were given. -/
theorem parseLoop_unique {context : HttpContext} {buf : Bytes} {locals : ParseLocals} {m n : Nat}
    (endedM : (parseLoop m context buf locals).2.hasMore = false)
    (endedN : (parseLoop n context buf locals).2.hasMore = false) :
    parseLoop m context buf locals = parseLoop n context buf locals := by
  -- Both loops make the same passes until they end.
  induction m generalizing context locals n with
  | zero =>
    have ended : locals.hasMore = false := endedM
    rw [parseLoop_ended ended, parseLoop_ended ended]
  | succ m ih =>
    cases running : locals.hasMore with
    | false => rw [parseLoop_ended running, parseLoop_ended running]
    | true =>
      cases n with
      -- A loop that still runs needs another pass.
      | zero => simp [parseLoop, running] at endedN
      | succ n =>
        simp only [parseLoop, running, if_true] at endedM endedN ⊢
        exact ih endedM endedN

/-- A rendered request is parsed to its last byte, whatever follows it. -/
theorem parseLocals_render (r : Request) (context : HttpContext) (trailing : Bytes)
    (empty : context.requestMethod = [] ∧ context.requestUrl = []) :
    parseLocals context (r.render ++ trailing) =
      ({ context with state := .kExpectBody, requestMethod := r.method, requestUrl := r.url },
        { it := r.head.length, ok := true, hasMore := false, bodySize := r.body.length }) := by
  -- One pass for the request line, one for each header, one for the empty line, one for the body.
  let passes := 1 + (r.headers.length + (1 + 1))
  let headed : HttpContext :=
    { context with state := .kExpectHeaders, requestMethod := r.method, requestUrl := r.url }
  have afterLine : r.render ++ trailing =
      (r.requestLine ++ crlf) ++ (renderHeaders r.headers ++ (crlf ++ (r.body ++ trailing))) := by
    simp [Request.render, Request.head]
  -- The first line end of the buffer is the one behind the request line.
  have lineClean : carriageReturn ∉ r.requestLine := by
    simp only [Request.requestLine, List.mem_append, List.mem_cons, not_or]
    exact ⟨r.methodToken.2.2.1, by decide, r.urlToken.2.2.1, by decide, r.versionToken.2.2.1⟩
  have first : parseIteration { context with state := .kExpectRequestLine }
        (r.render ++ trailing) {} =
      (headed,
        { it := (r.requestLine ++ crlf).length, ok := true, hasMore := true, bodySize := 0 }) := by
    have found := searchCrlf_line [] r.requestLine
      (renderHeaders r.headers ++ (crlf ++ (r.body ++ trailing))) lineClean
    have read := praseRequestLine_requestLine r { context with state := .kExpectRequestLine }
      (renderHeaders r.headers ++ (crlf ++ (r.body ++ trailing))) empty
    simp only [List.nil_append, List.length_nil, Nat.zero_add] at found
    rw [afterLine]
    simp only [parseIteration, found, read, if_true]
    simp [headed, crlf]
  -- The empty line has no colon, so it leads to the body.
  have blank : parseIteration headed (r.render ++ trailing)
        { it := (r.requestLine ++ crlf ++ renderHeaders r.headers).length, ok := true,
          hasMore := true, bodySize := r.body.length } =
      ({ headed with state := .kExpectBody },
        { it := r.head.length, ok := true, hasMore := true, bodySize := r.body.length }) := by
    have shape : r.render ++ trailing =
        (r.requestLine ++ crlf ++ renderHeaders r.headers) ++ ([] ++ crlf ++ (r.body ++ trailing)) := by
      simp [Request.render, Request.head]
    have found := searchCrlf_line (r.requestLine ++ crlf ++ renderHeaders r.headers) []
      (r.body ++ trailing) (by simp)
    rw [← shape] at found
    simp only [parseIteration, headed, found]
    simp [Request.head, crlf, Nat.add_assoc]
  -- The announced body is there in full.
  have last : parseIteration { headed with state := .kExpectBody } (r.render ++ trailing)
        { it := r.head.length, ok := true, hasMore := true, bodySize := r.body.length } =
      ({ headed with state := .kExpectBody },
        { it := r.head.length, ok := true, hasMore := false, bodySize := r.body.length }) := by
    have present : r.body.length ≤ (r.render ++ trailing).length - r.head.length := by
      simp only [Request.render, List.length_append]
      omega
    simp only [parseIteration]
    by_cases nothing : r.body.length = 0
    · simp [nothing]
    · rw [if_pos ⟨nothing, present⟩]
  -- The passes are put together in their order.
  have whole : parseLoop passes { context with state := .kExpectRequestLine }
        (r.render ++ trailing) {} =
      ({ headed with state := .kExpectBody },
        { it := r.head.length, ok := true, hasMore := false, bodySize := r.body.length }) := by
    have headers := parseLoop_headers (1 + 1) headed (r.requestLine ++ crlf)
      (crlf ++ (r.body ++ trailing)) r.headersClean 0 rfl
    rw [← afterLine, headersBodySize_body r.headersClean r.announced] at headers
    rw [show passes = r.headers.length + (1 + 1) + 1 by omega, parseLoop_running rfl, first,
      headers, parseLoop_running rfl, blank, parseLoop_running rfl, last]
    rfl
  -- The code makes more passes, but the loop has ended by then.
  have endedHere : (parseLoop passes { context with state := .kExpectRequestLine }
      (r.render ++ trailing) {}).2.hasMore = false := by rw [whole]
  exact (parseLoop_unique (parseLocals_ends context _) endedHere).trans whole

/-- What `parseRequest` returns for a rendered request: its length as an `int`, method and url. -/
theorem parseRequest_render (r : Request) (context : HttpContext) (trailing : Bytes) :
    parseRequest context.reset (r.render ++ trailing) =
      ({ context.reset with state := .kExpectBody, requestMethod := r.method, requestUrl := r.url },
        true, toInt32 r.render.length) := by
  -- A reset context holds no method and no url.
  have parsed := parseLocals_render r context.reset trailing ⟨rfl, rfl⟩
  rw [parseRequest, parsed]
  simp [Request.render]

/-- Requests below 2^31 bytes each survive the round trip. -/
theorem pipelined_roundTrip (requests : List Request) (trailing : Bytes)
    (short : ∀ r ∈ requests, r.render.length < 2 ^ 31) : RoundTrip requests trailing := by
  intro context
  constructor
  · intro first later shape
    -- Everything behind the first request is trailing data to it.
    have front : pipelined requests trailing =
        first.render ++ (later.flatMap Request.render ++ trailing) := by
      simp [pipelined, shape]
    rw [front, parseRequest_render first context, toInt32_of_lt (short first (by simp [shape]))]
    exact ⟨rfl, rfl, rfl⟩
  · induction requests generalizing context with
    | nil => rfl
    | cons first later ih =>
      have front : pipelined (first :: later) trailing =
          first.render ++ pipelined later trailing := by
        simp [pipelined]
      have length := toInt32_of_lt (short first (by simp))
      -- Erasing the returned length leaves the later requests, and the context is reset for them.
      simp only [List.length_cons, extractRequests, front, parseRequest_render first context,
        length, Int.toNat_natCast, List.drop_left, List.take_left, if_true]
      rw [ih (fun r member => short r (by simp [member]))]
      rfl

/-- A request whose body looks like the start of another request. -/
def postRequest : Request where
  method := ascii ['P', 'O', 'S', 'T']
  url := ascii ['/']
  version := ascii ['1']
  headers := [(ascii ['A'], ascii ['b']), (contentLength, ascii [' ', '5'])]
  body := ascii ['G', ' ', '/', '\r', '\n']
  methodToken := by unfold IsToken; decide
  urlToken := by unfold IsToken; decide
  versionToken := by unfold IsToken; decide
  headersClean := by unfold IsHeader; decide
  announced := by
    refine .inr ⟨[space], ascii ['5'], by decide, ?_, ?_, by decide, by decide, by decide⟩
    · intro c member
      exact List.mem_singleton.mp member
    · intro c member
      rw [List.mem_singleton.mp member]
      rfl

/-- Two such requests and the start of a third come back as two requests and that start. -/
theorem pipelined_roundTrip_post :
    RoundTrip [postRequest, postRequest] (ascii ['G', ' ']) :=
  pipelined_roundTrip [postRequest, postRequest] (ascii ['G', ' ']) (by decide)

/-- A request whose url has the given number of bytes after its slash. -/
def wideRequest (bytes : Nat) : Request where
  method := ascii ['G', 'E', 'T']
  url := ascii ['/'] ++ List.replicate bytes 97
  version := ascii ['1']
  headers := []
  body := []
  methodToken := by unfold IsToken; decide
  urlToken := by
    have clean : ∀ c : UInt8, c ≠ 97 → c ≠ 47 → c ∉ ascii ['/'] ++ List.replicate bytes 97 := by
      intro c notLetter notSlash member
      rcases List.mem_append.mp member with slash | letter
      · exact notSlash (List.mem_singleton.mp slash)
      · exact notLetter (List.eq_of_mem_replicate letter)
    exact ⟨by simp [ascii], clean _ (by decide) (by decide), clean _ (by decide) (by decide),
      clean _ (by decide) (by decide)⟩
  versionToken := by unfold IsToken; decide
  headersClean := by simp
  announced := .inl ⟨rfl, rfl⟩

/-- The request is longer than its url. -/
theorem wideRequest_long (bytes : Nat) : bytes < (wideRequest bytes).render.length := by
  -- The url alone has more bytes.
  have url : (wideRequest bytes).url.length = bytes + 1 := by simp [wideRequest, ascii]
  simp only [Request.render, Request.head, Request.requestLine, List.length_append,
    List.length_cons, url]
  omega

/-- A request of 2^31 bytes or more is returned with a wrapped length. -/
theorem wideRequest_wraps (bytes : Nat) (huge : 2 ^ 31 ≤ bytes) :
    ¬ RoundTrip [wideRequest bytes] [] := by
  intro roundTrip
  have parsed := (roundTrip {}).1 (wideRequest bytes) [] rfl
  -- A single request is the whole stream.
  have rendered : pipelined [wideRequest bytes] [] = (wideRequest bytes).render ++ [] := by
    simp only [pipelined, List.flatMap_cons, List.flatMap_nil, List.append_nil]
  rw [rendered, parseRequest_render (wideRequest bytes) {}] at parsed
  obtain ⟨length, -⟩ := parsed
  simp only [Prod.mk.injEq, true_and] at length
  -- No `int` equals a length of 2^31 or more.
  have long := wideRequest_long bytes
  unfold toInt32 at length
  omega

/-- The round trip fails for a request of a little more than 2^31 bytes. -/
theorem roundTrip_fails : ¬ ∀ requests trailing, RoundTrip requests trailing := by
  intro all
  -- The claim for all requests is a claim for this one.
  obtain ⟨bytes, huge⟩ : ∃ bytes : Nat, 2 ^ 31 ≤ bytes := ⟨2 ^ 31, Nat.le_refl _⟩
  exact wideRequest_wraps bytes huge (all [wideRequest bytes] [])

end EnhancedProxy

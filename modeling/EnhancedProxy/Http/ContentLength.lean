import EnhancedProxy.Http.RoundTrip
import EnhancedProxy.Http.Verdict

/-! The body size that a decimal `Content-Length` announces, and the one the parser waits for. -/

namespace EnhancedProxy

/-- The white space that may stand around a field value. -/
def isBlank (c : UInt8) : Bool := c == space || c == 9

/-- The head of a request with a single `Content-Length`, whose value is a decimal number. -/
structure AnnouncedHead where
  method : Bytes
  url : Bytes
  version : Bytes
  headers : List (Bytes × Bytes)
  digits : Bytes
  methodToken : IsToken method
  urlToken : IsToken url
  versionToken : IsToken version
  headersClean : ∀ header ∈ headers, IsHeader header
  nonempty : digits ≠ []
  decimal : ∀ c ∈ digits, isDigit c
  once : ∃ before after, contentLengths headers = [before ++ (digits ++ after)] ∧
    (∀ c ∈ before, isBlank c) ∧ ∀ c ∈ after, isBlank c

/-- A line without a carriage return, put before a text, is its first line. -/
theorem bufferLines_line {line : Bytes} (clean : carriageReturn ∉ line) (rest : Bytes) :
    bufferLines (line ++ crlf ++ rest) = line :: bufferLines rest :=
  Lines.lines_line (by decide) rest (Search.firstOccurrence_absent clean)

/-- Header lines put before a text are its first lines. -/
theorem bufferLines_headers {headers : List (Bytes × Bytes)}
    (clean : ∀ header ∈ headers, IsHeader header) (rest : Bytes) :
    bufferLines (renderHeaders headers ++ rest) = headers.map headerLine ++ bufferLines rest := by
  -- A clean header is one line of its own, so the headers are cut off the text one by one.
  induction headers with
  | nil => rfl
  | cons header headers ih =>
    have headerClean := clean header (by simp)
    have lineClean : carriageReturn ∉ headerLine header := by
      simp only [headerLine, List.mem_append, List.mem_cons, not_or]
      exact ⟨headerClean.1.2.1, by decide, headerClean.2.1⟩
    have shape : renderHeaders (header :: headers) ++ rest =
        headerLine header ++ crlf ++ (renderHeaders headers ++ rest) := by
      simp [renderHeaders]
    rw [shape, bufferLines_line lineClean, ih fun h member => clean h (by simp [member])]
    rfl

/-- Header lines take as many bytes as their lines with the line ends. -/
theorem size_headers (headers : List (Bytes × Bytes)) :
    Lines.size (headers.map headerLine) = (renderHeaders headers).length := by
  -- Each line counts its own bytes and the two that end it, which is how it is rendered.
  induction headers with
  | nil => rfl
  | cons header headers ih =>
    simp only [List.map_cons, Lines.size_cons, ih, renderHeaders, List.flatMap_cons,
      List.length_append, crlf, List.length_cons, List.length_nil]

namespace AnnouncedHead

/-- The request line without its line end. -/
def requestLine (head : AnnouncedHead) : Bytes :=
  head.method ++ space :: (head.url ++ space :: head.version)

/-- The bytes of the head on the wire. -/
def render (head : AnnouncedHead) : Bytes :=
  head.requestLine ++ crlf ++ renderHeaders head.headers ++ crlf

/-- The body size that the head announces. -/
def announced (head : AnnouncedHead) : Nat := digitsValue head.digits

/-- A request is complete once all of the announced body follows the head, and its length is that of
both. Before that it is reported incomplete. -/
def Honoured (head : AnnouncedHead) (rest : Bytes) : Prop :=
  ∀ context,
    (∀ n, (parseRequest context (head.render ++ rest)).2 = (true, n) →
      head.announced ≤ rest.length ∧ n = (head.render.length + head.announced : Nat)) ∧
    (rest.length < head.announced → (parseRequest context (head.render ++ rest)).2.1 = false) ∧
    (head.announced ≤ rest.length → (parseRequest context (head.render ++ rest)).2.1 = true)

/-- Either what follows is short even of the number that is left of the announced one by 64-bit
saturation and 32-bit truncation, or the whole request has arrived and is below 2^31 bytes. -/
def SizeSurvives (head : AnnouncedHead) (rest : Bytes) : Prop :=
  rest.length < min head.announced (2 ^ 63 - 1) % 2 ^ 32 ∨
    (head.announced ≤ rest.length ∧ head.render.length + head.announced < 2 ^ 31)

/-- A blank is white space, and no digit. -/
theorem isBlank_isSpace {c : UInt8} (blank : isBlank c) :
    isSpace c = true ∧ isDigit c = false := by
  -- There are two blanks.
  simp only [isBlank, Bool.or_eq_true, beq_iff_eq] at blank
  rcases blank with rfl | rfl <;> exact ⟨rfl, rfl⟩

/-- The request line is accepted. -/
theorem hasUrl_requestLine (head : AnnouncedHead) : hasUrl head.requestLine = true :=
  (requestLine_words head.version head.methodToken head.urlToken).1

/-- The lines of the head come first, with the empty one as their last. -/
theorem bufferLines_render (head : AnnouncedHead) (rest : Bytes) :
    bufferLines (head.render ++ rest) =
      head.requestLine :: (head.headers.map headerLine ++ [] :: bufferLines rest) := by
  have lineClean : carriageReturn ∉ head.requestLine := by
    simp only [requestLine, List.mem_append, List.mem_cons, not_or]
    exact ⟨head.methodToken.2.2.1, by decide, head.urlToken.2.2.1, by decide,
      head.versionToken.2.2.1⟩
  -- Each line is clean, so it ends where it was ended.
  have shape : head.render ++ rest =
      head.requestLine ++ crlf ++ (renderHeaders head.headers ++ ([] ++ crlf ++ rest)) := by
    simp [render]
  rw [shape, bufferLines_line lineClean, bufferLines_headers head.headersClean,
    bufferLines_line List.not_mem_nil]

/-- The size the parser reads from the headers is the announced one after both conversions. -/
theorem headersBodySize_render (head : AnnouncedHead) :
    headersBodySize head.headers 0 = min head.announced (2 ^ 63 - 1) % 2 ^ 32 := by
  obtain ⟨before, after, once, blankBefore, blankAfter⟩ := head.once
  have read := strtol_number (fun c member => (isBlank_isSpace (blankBefore c member)).1)
    head.decimal head.nonempty fun c member => (isBlank_isSpace (blankAfter c member)).2
  rw [headersBodySize_announced head.headersClean once, atoi, read, announced]
  -- Truncation to `int` and back to unsigned takes the remainder once.
  unfold toInt32 toUnsigned32
  omega

/-- The verdict on a head with what follows it. -/
theorem parseRequest_head (head : AnnouncedHead) (context : HttpContext) (rest : Bytes) :
    (parseRequest context (head.render ++ rest)).2 =
      (decide (min head.announced (2 ^ 63 - 1) % 2 ^ 32 ≤ rest.length),
        toInt32 (head.render.length + min head.announced (2 ^ 63 - 1) % 2 ^ 32 : Nat)) := by
  -- Each header line has its colon, and the empty line has none.
  have allColon : ∀ field ∈ head.headers.map headerLine, colon ∈ field := by
    intro field member
    obtain ⟨header, -, rfl⟩ := List.mem_map.mp member
    simp [headerLine]
  have length : head.requestLine.length + 2 + Lines.size (head.headers.map headerLine) + 0 + 2 =
      head.render.length := by
    simp only [render, List.length_append, size_headers, crlf, List.length_cons, List.length_nil]
  rw [parseRequest_verdict, bufferLines_render, linesVerdict, if_pos head.hasUrl_requestLine,
    headersVerdict_fields allColon, headersVerdict, if_neg List.not_mem_nil, List.length_nil, length,
    List.length_append, Nat.add_sub_cancel_left, List.foldl_map, ← headersBodySize_render]
  rfl

/-- A decimal `Content-Length` is honoured exactly when its size survives the conversions. -/
theorem contentLength_honoured_iff (head : AnnouncedHead) (rest : Bytes) :
    head.Honoured rest ↔ head.SizeSurvives rest := by
  -- The body the parser waits for is never larger than the announced one.
  simp only [Honoured, SizeSurvives, parseRequest_head, Prod.mk.injEq, decide_eq_true_eq,
    decide_eq_false_iff_not]
  have smaller : min head.announced (2 ^ 63 - 1) % 2 ^ 32 ≤ head.announced :=
    (Nat.mod_le _ _).trans (Nat.min_le_left _ _)
  generalize waited : min head.announced (2 ^ 63 - 1) % 2 ^ 32 = size at smaller ⊢
  constructor
  · intro honoured
    obtain ⟨complete, -, -⟩ := honoured {}
    rcases Nat.lt_or_ge rest.length size with short | enough
    · exact .inl short
    · -- A request that is accepted is returned with its length.
      obtain ⟨arrived, length⟩ := complete _ ⟨enough, rfl⟩
      refine .inr ⟨arrived, ?_⟩
      unfold toInt32 at length
      omega
  · rintro (short | ⟨arrived, small⟩) -
    · exact ⟨fun n accepted => absurd accepted.1 (by omega), fun _ => by omega,
        fun arrived => by omega⟩
    · have same : size = head.announced := by omega
      refine ⟨fun n accepted => ⟨arrived, ?_⟩, fun missing => by omega, fun _ => by omega⟩
      rw [← accepted.2, same, toInt32_of_lt small]

/-- A head that announces 2^32 bytes. -/
def wrapped : AnnouncedHead where
  method := postRequest.method
  url := postRequest.url
  version := postRequest.version
  headers := [(contentLength, ascii [' ', '4', '2', '9', '4', '9', '6', '7', '2', '9', '6'])]
  digits := ascii ['4', '2', '9', '4', '9', '6', '7', '2', '9', '6']
  methodToken := postRequest.methodToken
  urlToken := postRequest.urlToken
  versionToken := postRequest.versionToken
  headersClean := by unfold IsHeader; decide
  nonempty := by decide
  decimal := List.all_eq_true.mp rfl
  once := ⟨[space], [], by decide, List.all_eq_true.mp rfl, List.forall_mem_nil _⟩

/-- A body of 2^32 bytes is not waited for at all. -/
theorem contentLength_wraps : ¬ ∀ (head : AnnouncedHead) rest, head.Honoured rest := by
  -- The announced size wraps to zero, so the head alone counts as a whole request.
  intro always
  have incomplete := (always wrapped [] {}).2.1 (by decide)
  rw [parseRequest_head] at incomplete
  exact absurd incomplete (by decide)

end AnnouncedHead

end EnhancedProxy

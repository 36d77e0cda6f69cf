import EnhancedProxy.Http.Fragmentation
import EnhancedProxy.Http.Retry
import EnhancedProxy.Http.FieldCase

/-! The language of requests: the texts the parser accepts, and how it cuts a stream of them. -/

namespace EnhancedProxy

/-- The text of a request line, with its method and its url. The method runs up to the first space,
any number of spaces follow, and behind another space stands whatever is left. -/
inductive RequestLine : Bytes → Bytes × Bytes → Prop
  | intro {method gap url version : Bytes} :
      space ∉ method → gap ≠ [] → (∀ c ∈ gap, c = space) → url ≠ [] → space ∉ url →
      (∀ c ∈ version.head?, c = space) →
      RequestLine (method ++ gap ++ url ++ version) (method, url)

/-- The field is named exactly `Content-Length`, with its colon right behind the name. -/
def NamesLength (field : Bytes) : Prop := contentLength ++ [colon] <+: field

/-- The body size that header lines announce: the number in the last field named for it. -/
inductive BodySize : List Bytes → Nat → Prop
  | unset {fields : List Bytes} : (∀ field ∈ fields, ¬ NamesLength field) → BodySize fields 0
  | last {before after : List Bytes} {value : Bytes} :
      (∀ field ∈ after, ¬ NamesLength field) →
      BodySize (before ++ (contentLength ++ [colon] ++ value) :: after) (toUnsigned32 (atoi value))

/-- The text of one request, with its method and its url: the request line, header lines with a
colon, one line without a colon, and as many bytes as the headers announce. -/
inductive RequestText : Bytes → Bytes × Bytes → Prop
  | intro {requestLine : Bytes} {words : Bytes × Bytes} {fields : List Bytes} {last body : Bytes} :
      RequestLine requestLine words → IsLine requestLine →
      (∀ field ∈ fields, colon ∈ field ∧ IsLine field) → colon ∉ last → IsLine last →
      BodySize fields body.length →
      RequestText (requestLine ++ crlf ++ fields.flatMap (· ++ crlf) ++ last ++ crlf ++ body) words

section Line

variable {line method url : Bytes}

/-- Nothing of the text is a space exactly if all of it is read up to the first one. -/
theorem no_space_iff {text : Bytes} : space ∉ text ↔ ∀ c ∈ text, (c != space) = true := by
  -- The second form is the test that `takeWhile` and `dropWhile` make byte by byte.
  constructor
  · intro clean c member
    simpa using fun (same : c = space) => clean (same ▸ member)
  · intro clean member
    simpa using clean space member

/-- The words of such a line are the ones that are read. -/
theorem RequestLine.read (spelled : RequestLine line (method, url)) :
    hasUrl line = true ∧ lineMethod line = method ∧ lineUrl line = url := by
  cases spelled with
  | @intro _ gap _ version methodClean someGap spaces someUrl urlClean ended =>
    obtain ⟨g, gaps, rfl⟩ := List.exists_cons_of_ne_nil someGap
    obtain ⟨u, urls, rfl⟩ := List.exists_cons_of_ne_nil someUrl
    have gSpace : g = space := spaces g List.mem_cons_self
    have uOther : u ≠ space := fun same => urlClean (same ▸ List.mem_cons_self)
    -- Behind the method stands a space, and behind the spaces the url.
    have behindMethod : (method ++ (g :: gaps) ++ (u :: urls) ++ version).dropWhile (· != space) =
        (g :: gaps) ++ ((u :: urls) ++ version) := by
      rw [List.append_assoc, List.append_assoc,
        List.dropWhile_append_of_pos (no_space_iff.mp methodClean)]
      simp [gSpace]
    have behindSpaces : ((method ++ (g :: gaps) ++ (u :: urls) ++ version).dropWhile
        (· != space)).dropWhile (· == space) = (u :: urls) ++ version := by
      rw [behindMethod, List.dropWhile_append_of_pos (by simpa using spaces)]
      simp [uOther]
    refine ⟨?_, ?_, ?_⟩
    · rw [hasUrl, behindSpaces]
      simp
    · rw [lineMethod, List.append_assoc, List.append_assoc,
        List.takeWhile_append_of_pos (no_space_iff.mp methodClean)]
      simp [gSpace]
    · rw [lineUrl, behindSpaces, List.takeWhile_append_of_pos (no_space_iff.mp urlClean)]
      -- What is left is empty, or begins with a space.
      cases version with
      | nil => simp
      | cons c version => simp [ended c rfl]

/-- Every line that is accepted is such a line. -/
theorem requestLine_of_hasUrl (accepted : hasUrl line = true) :
    RequestLine line (lineMethod line, lineUrl line) := by
  have someRest : (line.dropWhile (· != space)).dropWhile (· == space) ≠ [] :=
    of_decide_eq_true accepted
  have whole : lineMethod line ++ (line.dropWhile (· != space)).takeWhile (· == space) ++
      lineUrl line ++ ((line.dropWhile (· != space)).dropWhile (· == space)).dropWhile
        (· != space) = line := by
    rw [List.append_assoc, List.append_assoc, lineUrl, List.takeWhile_append_dropWhile,
      List.takeWhile_append_dropWhile, lineMethod, List.takeWhile_append_dropWhile]
  have spelled : RequestLine (lineMethod line ++
      (line.dropWhile (· != space)).takeWhile (· == space) ++ lineUrl line ++
        ((line.dropWhile (· != space)).dropWhile (· == space)).dropWhile (· != space))
      (lineMethod line, lineUrl line) := by
    refine .intro ?_ ?_ ?_ ?_ ?_ ?_
    · exact no_space_iff.mpr fun c member => List.mem_takeWhile_imp (p := (· != space)) member
    · -- The method ends at a space.
      have someBehind : line.dropWhile (· != space) ≠ [] := by
        intro nothing
        rw [nothing] at someRest
        exact someRest rfl
      have first := List.head_dropWhile_not (· != space) someBehind
      obtain ⟨c, rest, behind⟩ := List.exists_cons_of_ne_nil someBehind
      simp only [behind, List.head_cons] at first
      rw [behind, List.takeWhile_cons_of_pos (by simpa using first)]
      exact List.cons_ne_nil _ _
    · intro c member
      simpa using List.mem_takeWhile_imp member
    · -- The spaces end at another byte.
      have first := List.head_dropWhile_not (· == space) someRest
      obtain ⟨c, rest, behind⟩ := List.exists_cons_of_ne_nil someRest
      simp only [behind, List.head_cons] at first
      rw [lineUrl, behind, List.takeWhile_cons_of_pos (by simpa using first)]
      exact List.cons_ne_nil _ _
    · exact no_space_iff.mpr fun c member => List.mem_takeWhile_imp (p := (· != space)) member
    · intro c member
      -- The url ends at the end of the line, or at a space.
      have stop := List.head?_dropWhile_not (· != space)
        ((line.dropWhile (· != space)).dropWhile (· == space))
      rw [Option.mem_def.mp member] at stop
      simpa using stop
  rwa [whole] at spelled

end Line

/-- The name of such a field ends at its first colon, and its value follows. -/
theorem headerBodySize_named (value : Bytes) (size : Nat) :
    headerBodySize (contentLength ++ [colon] ++ value) size = toUnsigned32 (atoi value) := by
  -- The field is spelled as the header line of that name.
  have noColon : colon ∉ contentLength := by decide
  have shape : contentLength ++ [colon] ++ value = headerLine (contentLength, value) := by
    simp [headerLine]
  rw [shape, headerBodySize_headerLine noColon, if_pos rfl]

/-- Every other field with a colon leaves the body size as it was. -/
theorem headerBodySize_unnamed {field : Bytes} (hasColon : colon ∈ field)
    (unnamed : ¬ NamesLength field) (size : Nat) : headerBodySize field size = size := by
  have found := List.findIdx_lt_length_of_exists (p := (· == colon))
    ⟨colon, hasColon, beq_self_eq_true colon⟩
  have isColon : field[field.findIdx (· == colon)] = colon := by
    simpa using List.findIdx_getElem (p := (· == colon)) (w := found)
  refine if_neg fun named => unnamed ⟨field.drop (field.findIdx (· == colon) + 1), ?_⟩
  -- The name, the colon at which it ends, and the value are the whole field.
  rw [← named, List.append_assoc]
  calc field.take (field.findIdx (· == colon)) ++
        ([colon] ++ field.drop (field.findIdx (· == colon) + 1))
      = field.take (field.findIdx (· == colon)) ++ field.drop (field.findIdx (· == colon)) := by
        rw [List.drop_eq_getElem_cons found, isColon]
        rfl
    _ = field := List.take_append_drop ..

/-- Fields without the name leave the body size as it was. -/
theorem foldl_unnamed {fields : List Bytes} (allColon : ∀ field ∈ fields, colon ∈ field)
    (unnamed : ∀ field ∈ fields, ¬ NamesLength field) (size : Nat) :
    fields.foldl (fun size line => headerBodySize line size) size = size := by
  -- No field names a length, so none of them changes the size that is handed on.
  induction fields with
  | nil => rfl
  | cons field fields ih =>
    obtain ⟨here, later⟩ := List.forall_mem_cons.mp allColon
    obtain ⟨unnamedHere, unnamedLater⟩ := List.forall_mem_cons.mp unnamed
    rw [List.foldl_cons, headerBodySize_unnamed here unnamedHere, ih later unnamedLater]

/-- What the parser adds up over the fields is the body size that they announce. -/
theorem bodySize_foldl {fields : List Bytes} (allColon : ∀ field ∈ fields, colon ∈ field) :
    BodySize fields (fields.foldl (fun size line => headerBodySize line size) 0) := by
  -- The last field decides, unless it has another name.
  induction fields using List.reverseRecOn with
  | nil => exact .unset (List.forall_mem_nil _)
  | append_singleton fields field ih =>
    obtain ⟨earlier, here⟩ := List.forall_mem_append.mp allColon
    rw [List.foldl_append, List.foldl_cons, List.foldl_nil]
    by_cases named : NamesLength field
    · obtain ⟨value, rfl⟩ := named
      rw [headerBodySize_named]
      exact .last (List.forall_mem_nil _)
    · rw [headerBodySize_unnamed (here field List.mem_cons_self) named]
      have still : ∀ {later : List Bytes}, (∀ f ∈ later, ¬ NamesLength f) →
          ∀ f ∈ later ++ [field], ¬ NamesLength f := fun unnamed =>
        List.forall_mem_append.mpr ⟨unnamed, List.forall_mem_singleton.mpr named⟩
      generalize fields.foldl (fun size line => headerBodySize line size) 0 = size at ih ⊢
      cases ih earlier with
      | unset unnamed => exact .unset (still unnamed)
      | @last before after value unnamed =>
        have shape : before ++ (contentLength ++ [colon] ++ value) :: after ++ [field] =
            before ++ (contentLength ++ [colon] ++ value) :: (after ++ [field]) := by
          simp
        rw [shape]
        exact .last (still unnamed)

/-- Fields announce one body size at most, the one the parser adds up. -/
theorem BodySize.eq_foldl {fields : List Bytes} {n : Nat} (announced : BodySize fields n)
    (allColon : ∀ field ∈ fields, colon ∈ field) :
    fields.foldl (fun size line => headerBodySize line size) 0 = n := by
  cases announced with
  | unset unnamed => exact foldl_unnamed allColon unnamed 0
  | @last before after value unnamed =>
    -- The named field sets the size, whatever it was before, and no later one changes it.
    have later := (List.forall_mem_cons.mp (List.forall_mem_append.mp allColon).2).2
    rw [List.foldl_append, List.foldl_cons, headerBodySize_named, foldl_unnamed later unnamed]

/-- Header lines are accepted exactly if a line without a colon follows after lines with one, and
the body has arrived behind it. -/
theorem headersVerdict_true_iff {length it bodySize n : Nat} {lines : List Bytes} :
    headersVerdict length it bodySize lines = (true, n) ↔
      ∃ fields last later, lines = fields ++ last :: later ∧ (∀ field ∈ fields, colon ∈ field) ∧
        colon ∉ last ∧
        fields.foldl (fun size line => headerBodySize line size) bodySize ≤
          length - (it + Lines.size fields + last.length + 2) ∧
        n = it + Lines.size fields + last.length + 2 +
          fields.foldl (fun size line => headerBodySize line size) bodySize := by
  constructor
  · intro verdict
    -- The fields are the lines up to the first one without a colon.
    have allColon : ∀ field ∈ lines.takeWhile (colon ∈ ·), colon ∈ field := by
      intro field member
      simpa using List.mem_takeWhile_imp (p := fun line : Bytes => decide (colon ∈ line)) member
    have cut := List.takeWhile_append_dropWhile (p := (colon ∈ ·)) (l := lines)
    cases behind : lines.dropWhile (colon ∈ ·) with
    | nil =>
      rw [← cut, behind, headersVerdict_fields allColon] at verdict
      cases verdict
    | cons last later =>
      have noColon : colon ∉ last := by
        have stop := List.head?_dropWhile_not (colon ∈ ·) lines
        rw [behind] at stop
        exact of_decide_eq_false stop
      rw [← cut, behind, headersVerdict_fields allColon, headersVerdict, if_neg noColon,
        Prod.mk.injEq, decide_eq_true_eq] at verdict
      rw [behind] at cut
      exact ⟨_, last, later, cut.symm, allColon, noColon, verdict.1, verdict.2.symm⟩
  · rintro ⟨fields, last, later, rfl, allColon, noColon, arrived, rfl⟩
    rw [headersVerdict_fields allColon, headersVerdict, if_neg noColon, Prod.mk.injEq,
      decide_eq_true_eq]
    exact ⟨arrived, rfl⟩

/-- The framing finds a request exactly if the verdict on the lines accepts one. -/
theorem requestFraming_next_iff {buf : Bytes} {words : Bytes × Bytes} {n : Nat} :
    requestFraming.next buf = some (words, n) ↔
      linesVerdict buf.length (bufferLines buf) = (true, n) ∧
        words = (lineMethod (firstLine buf), lineUrl (firstLine buf)) := by
  obtain ⟨method, url⟩ := parseRequest_words {} buf
  rw [← parseLocals_verdict {} buf]
  -- A new context holds no words yet, so those of the first line are all there are.
  have read : (parseLocals {} buf).1.requestMethod = lineMethod (firstLine buf) ∧
      (parseLocals {} buf).1.requestUrl = lineUrl (firstLine buf) := ⟨method, url⟩
  cases accepted : (parseLocals {} buf).2.ok with
  | false => simp [requestFraming, accepted]
  | true =>
    simp only [requestFraming, accepted, if_true, read.1, read.2, Option.some.injEq, Prod.mk.injEq,
      true_and]
    exact ⟨fun same => ⟨same.2, same.1.symm⟩, fun same => ⟨same.2.symm, same.1⟩⟩

/-- The text of the head of a request takes up the size of its lines. -/
theorem length_head (requestLine last : Bytes) (fields : List Bytes) :
    (requestLine ++ crlf ++ fields.flatMap (· ++ crlf) ++ last ++ crlf).length =
      requestLine.length + 2 + Lines.size fields + last.length + 2 := by
  -- Each field takes its own bytes and the two that end it.
  have spelled : (fields.flatMap (· ++ crlf)).length = Lines.size fields :=
    Lines.length_spelled fields
  simp only [List.length_append, spelled]
  rfl

/-- The lines of the head are the first lines of a buffer exactly if it begins with its text. -/
theorem head_prefix_iff {buf requestLine last : Bytes} {fields : List Bytes} :
    requestLine :: (fields ++ [last]) <+: bufferLines buf ↔
      (IsLine requestLine ∧ (∀ field ∈ fields, IsLine field) ∧ IsLine last) ∧
        requestLine ++ crlf ++ fields.flatMap (· ++ crlf) ++ last ++ crlf <+: buf := by
  -- The request line, the fields and the empty line are the first lines together,
  -- and lines are a prefix of the lines of a buffer exactly when their spelling is one of it.
  have differ : carriageReturn ≠ lineFeed := by decide
  have shape : (requestLine :: (fields ++ [last])).flatMap (· ++ [carriageReturn, lineFeed]) =
      requestLine ++ crlf ++ fields.flatMap (· ++ crlf) ++ last ++ crlf := by
    simp [crlf]
  rw [bufferLines, Lines.prefix_lines_iff differ, shape]
  simp [IsLine, crlf, or_imp, forall_and]

/-- The parser reads the language of requests. -/
theorem requestFraming_reads : requestFraming.Reads RequestText := by
  intro buf words n
  rw [requestFraming_next_iff]
  constructor
  · rintro ⟨verdict, rfl⟩
    cases cut : bufferLines buf with
    | nil =>
      rw [cut] at verdict
      cases verdict
    | cons requestLine lines =>
      have first : firstLine buf = requestLine := by rw [firstLine, cut]; rfl
      by_cases accepted : hasUrl requestLine
      · rw [cut, linesVerdict, if_pos accepted, headersVerdict_true_iff] at verdict
        obtain ⟨fields, last, later, rfl, allColon, noColon, arrived, rfl⟩ := verdict
        -- The buffer begins with the text of the head, and the body is taken off the rest.
        have begins : requestLine :: (fields ++ [last]) <+: bufferLines buf :=
          ⟨later, by rw [cut]; simp⟩
        obtain ⟨⟨line, eachLine, lastLine⟩, rest, whole⟩ := head_prefix_iff.mp begins
        have length := congrArg List.length whole
        rw [List.length_append, length_head] at length
        generalize sized : fields.foldl (fun size line => headerBodySize line size) 0 = size
          at arrived ⊢
        have taken : (rest.take size).length = size := List.length_take_of_le (by omega)
        have announced : BodySize fields (rest.take size).length := by
          rw [taken, ← sized]
          exact bodySize_foldl allColon
        rw [first]
        refine ⟨_, rest.drop size, ?_, .intro (requestLine_of_hasUrl accepted) line
          (fun field member => ⟨allColon field member, eachLine field member⟩) noColon lastLine
          announced, ?_⟩
        · rw [List.append_assoc, List.take_append_drop, whole]
        · rw [List.length_append, length_head, taken]
      · rw [cut, linesVerdict, if_neg accepted] at verdict
        cases verdict
  · rintro ⟨text, rest, rfl, spelled, rfl⟩
    cases spelled with
    | @intro requestLine words fields last body spelled line each noColon lastLine announced =>
      obtain ⟨accepted, method, url⟩ := spelled.read
      have allColon : ∀ field ∈ fields, colon ∈ field := fun field member => (each field member).1
      -- The lines of the head come first, whatever is behind it.
      have begins := head_prefix_iff.mpr ⟨⟨line, fun field member => (each field member).2,
        lastLine⟩, List.prefix_append _ (body ++ rest)⟩
      rw [← List.append_assoc] at begins
      obtain ⟨later, cut⟩ := begins
      have first : firstLine (requestLine ++ crlf ++ fields.flatMap (· ++ crlf) ++ last ++ crlf ++
          body ++ rest) = requestLine := by
        rw [firstLine, ← cut]
        rfl
      rw [first, method, url, ← cut, List.cons_append, linesVerdict, if_pos accepted,
        headersVerdict_true_iff]
      refine ⟨⟨fields, last, later, by simp, allColon, noColon, ?_, ?_⟩, rfl⟩
      · rw [announced.eq_foldl allColon, List.length_append, List.length_append, length_head]
        omega
      · rw [announced.eq_foldl allColon, List.length_append, length_head]

/-- `parseRequest` accepts a buffer exactly if it begins with the text of a request. It returns the
length of that text, as an `int`, and appends the words to what the context holds. -/
theorem parseRequest_iff (context : HttpContext) (buf method url : Bytes) (n : Int) :
    ((parseRequest context buf).2 = (true, n) ∧
        (parseRequest context buf).1.requestMethod = context.requestMethod ++ method ∧
        (parseRequest context buf).1.requestUrl = context.requestUrl ++ url) ↔
      ∃ text rest, buf = text ++ rest ∧ RequestText text (method, url) ∧
        n = toInt32 text.length := by
  obtain ⟨methods, urls⟩ := parseRequest_words context buf
  rw [methods, urls, List.append_cancel_left_eq, List.append_cancel_left_eq,
    parseRequest_verdict context buf]
  constructor
  · rintro ⟨verdict, rfl, rfl⟩
    obtain ⟨accepted, length⟩ := Prod.mk.inj verdict
    -- The length before the conversion is the one that the framing takes.
    have found := requestFraming_next_iff.mpr ⟨Prod.ext accepted rfl, rfl⟩
    obtain ⟨text, rest, same, spelled, taken⟩ := (requestFraming_reads buf _ _).mp found
    exact ⟨text, rest, same, spelled,
      length.symm.trans (congrArg (fun size : Nat => toInt32 size) taken)⟩
  · rintro ⟨text, rest, same, spelled, length⟩
    have found := (requestFraming_reads buf _ _).mpr ⟨text, rest, same, spelled, rfl⟩
    obtain ⟨verdict, words⟩ := requestFraming_next_iff.mp found
    obtain ⟨method, url⟩ := Prod.mk.inj words
    exact ⟨by rw [verdict, length], method.symm, url.symm⟩

/-- However a stream arrives, it is cut into texts of requests and a remainder that does not begin
with one, and there is no other way to cut it so. -/
theorem feedChunks_iff (chunks : List Bytes) (cuts : List CutRequest) (rest : Bytes)
    (short : chunks.flatten.length < 2 ^ 31) :
    feedChunks [] chunks = (cuts, rest) ↔
      chunks.flatten = (cuts.map Prod.snd).flatten ++ rest ∧
        (∀ cut ∈ cuts, RequestText cut.2 cut.1) ∧
        ∀ text more words, rest = text ++ more → ¬ RequestText text words := by
  -- Below 2^31 bytes the chunks are fed as one text, and splitting a text is characterised by
  -- the grammar of a request.
  have nothing : requestFraming.next [] = none := by decide
  rw [feedChunks_eq_feed (by simpa using short), requestFraming.feed_eq_split nothing,
    List.nil_append, requestFraming_reads.split_iff]

/-- A request whose last line end arrives in two parts, and the beginning of another one. -/
theorem feedChunks_unfinished :
    RequestText (ascii ['G', ' ', 'u', '\r', '\n', '\r', '\n']) (ascii ['G'], ascii ['u']) ∧
      ∀ text more words, ascii ['P'] = text ++ more → ¬ RequestText text words := by
  -- The second chunk completes the request that the first began, and leaves one byte.
  have read := (feedChunks_iff
    [ascii ['G', ' ', 'u', '\r', '\n', '\r'], ascii ['\n', 'P']]
    [((ascii ['G'], ascii ['u']), ascii ['G', ' ', 'u', '\r', '\n', '\r', '\n'])]
    (ascii ['P']) (by decide)).mp (by decide)
  exact ⟨read.2.1 _ List.mem_cons_self, read.2.2⟩

end EnhancedProxy

import EnhancedProxy.Http.ContentLength
import Mathlib.Data.List.Forall2
import Mathlib.Data.List.Induction

/-! Buffers whose header names differ in letter case, and the framing the parser gives them. -/

namespace EnhancedProxy

/-- `tolower` in the C locale. -/
def toLower (c : UInt8) : UInt8 := if 65 ≤ c && c ≤ 90 then c + 32 else c

/-- A text that a line end does not cut. -/
def IsLine (line : Bytes) : Prop := Search.firstOccurrence crlf line = none

/-- Two header lines that differ in the letter case of what stands before the colon at most. -/
def SameField (one other : Bytes) : Prop :=
  one = other ∨ ∃ name name' value,
    one = name ++ colon :: value ∧ other = name' ++ colon :: value ∧ colon ∉ name ∧ colon ∉ name' ∧
      name.map toLower = name'.map toLower

/-- Two buffers with the same request line that differ in the letter case of header names at most.
The last header line may be unfinished. -/
def SameUpToFieldCase (one other : Bytes) : Prop :=
  one = other ∨ ∃ requestLine fields fields' rest rest',
    one = requestLine ++ crlf ++ (fields.flatMap (· ++ crlf) ++ rest) ∧
      other = requestLine ++ crlf ++ (fields'.flatMap (· ++ crlf) ++ rest') ∧
      IsLine requestLine ∧ (∀ field ∈ fields ++ fields', field ≠ [] ∧ IsLine field) ∧
      List.Forall₂ SameField fields fields' ∧
      (rest = rest' ∨ IsLine rest ∧ IsLine rest' ∧ SameField rest rest')

/-- The header lines the parser passes: those before the first line without a colon. -/
def passedFields (buf : Bytes) : List Bytes := (bufferLines buf).tail.takeWhile (colon ∈ ·)

/-- The name of the field is spelled exactly `Content-Length`. -/
def isLengthField (line : Bytes) : Bool := line.take (line.findIdx (· == colon)) = contentLength

/-- What stands behind the first colon. -/
def fieldValue (line : Bytes) : Bytes := line.drop (line.findIdx (· == colon) + 1)

/-- The number in the last of the fields that are spelled exactly `Content-Length`, and zero where
there is none. -/
def lastLength (fields : List Bytes) : Int :=
  match (fields.filter isLengthField).getLast? with
  | none => 0
  | some field => atoi (fieldValue field)

/-- The request line is refused, or the fields that are spelled `Content-Length` say the same. -/
def LengthsAgree (one other : Bytes) : Prop :=
  (∀ requestLine ∈ (bufferLines one).head?, hasUrl requestLine = false) ∨
    lastLength (passedFields one) = lastLength (passedFields other)

/-- A further field counts if it is named for it. -/
theorem lastLength_concat (fields : List Bytes) (field : Bytes) :
    lastLength (fields ++ [field]) =
      if isLengthField field then atoi (fieldValue field) else lastLength fields := by
  by_cases named : isLengthField field <;> simp [lastLength, List.filter_append, named]

/-- The last field named for it sets the body size. -/
theorem foldl_headerBodySize (fields : List Bytes) :
    fields.foldl (fun size line => headerBodySize line size) 0 =
      toUnsigned32 (lastLength fields) := by
  -- The fields are added one by one, and each that is named for it replaces the size.
  induction fields using List.reverseRecOn with
  | nil => rfl
  | append_singleton fields field ih =>
    rw [List.foldl_append, ih, lastLength_concat]
    by_cases named : isLengthField field
    · rw [if_pos named]
      exact if_pos (of_decide_eq_true named)
    · rw [if_neg named]
      exact if_neg fun same => named (decide_eq_true same)

/-- What is read from the fields is an `int`. -/
theorem lastLength_range (fields : List Bytes) :
    -2 ^ 31 ≤ lastLength fields ∧ lastLength fields < 2 ^ 31 := by
  -- The last length is zero, or what `atoi` returns, which is an `int`.
  unfold lastLength
  split
  · decide
  · unfold atoi toInt32
    omega

/-- Two `int` values are the same body size only if they are equal. -/
theorem toUnsigned32_lastLength (fields fields' : List Bytes) :
    toUnsigned32 (lastLength fields) = toUnsigned32 (lastLength fields') ↔
      lastLength fields = lastLength fields' := by
  -- The conversion is injective on the range of `int`.
  have range := lastLength_range fields
  have range' := lastLength_range fields'
  unfold toUnsigned32
  omega

/-- Fields that are the same up to letter case have colons at the same places. -/
theorem SameField.shape {one other : Bytes} (same : SameField one other) :
    (colon ∈ one ↔ colon ∈ other) ∧ one.length = other.length := by
  -- The colon follows a name of the same length, and the values are equal.
  rcases same with rfl | ⟨name, name', value, rfl, rfl, -, -, names⟩
  · exact ⟨Iff.rfl, rfl⟩
  · have length : name.length = name'.length := by simpa using congrArg List.length names
    simp [length]

/-- The verdicts on such header lines are the same exactly if the body sizes are. -/
theorem headersVerdict_eq_iff (length it : Nat) {size size' : Nat} {lines lines' : List Bytes}
    (same : List.Forall₂ SameField lines lines') (small : size < 2 ^ 32) (small' : size' < 2 ^ 32) :
    ((headersVerdict length it size lines).1, toInt32 (headersVerdict length it size lines).2) =
        ((headersVerdict length it size' lines').1,
          toInt32 (headersVerdict length it size' lines').2) ↔
      (lines.takeWhile (colon ∈ ·)).foldl (fun size line => headerBodySize line size) size =
        (lines'.takeWhile (colon ∈ ·)).foldl (fun size line => headerBodySize line size) size' := by
  -- The length determines the body size, as the conversion takes the remainder of 2^32.
  have injective : ∀ behind : Nat,
      toInt32 (behind + size : Nat) = toInt32 (behind + size' : Nat) ↔ size = size' := by
    intro behind
    unfold toInt32
    omega
  induction same generalizing it size size' with
  | nil => simpa [headersVerdict] using injective it
  | @cons line line' lines lines' sameLine _ ih =>
    obtain ⟨colons, lengths⟩ := sameLine.shape
    by_cases hasColon : colon ∈ line
    · -- Both lines are passed, and each may set the size.
      have hasColon' := colons.mp hasColon
      have smallNext : headerBodySize line size < 2 ^ 32 := headerBodySize_lt small
      have smallNext' : headerBodySize line' size' < 2 ^ 32 := headerBodySize_lt small'
      simpa [headersVerdict, hasColon, hasColon', lengths] using
        ih _ smallNext smallNext' (by unfold toInt32; omega)
    · -- Both lines end the headers.
      have noColon' : colon ∉ line' := mt colons.mpr hasColon
      simp only [headersVerdict, hasColon, noColon', lengths, if_false, List.takeWhile_cons,
        decide_false, Bool.false_eq_true, List.foldl_nil, Prod.mk.injEq, injective]
      exact ⟨And.right, fun same => ⟨by rw [same], same⟩⟩

/-- A field is the same as itself. -/
theorem SameField.refl (line : Bytes) : SameField line line := .inl rfl

/-- Lines that are put before a text are its first lines. -/
theorem bufferLines_fields {fields : List Bytes} (each : ∀ field ∈ fields, IsLine field)
    (rest : Bytes) :
    bufferLines (fields.flatMap (· ++ crlf) ++ rest) = fields ++ bufferLines rest := by
  -- The fields are cut off one by one, as each is a line.
  induction fields with
  | nil => rfl
  | cons field fields ih =>
    have shape : (field :: fields).flatMap (· ++ crlf) ++ rest =
        field ++ crlf ++ (fields.flatMap (· ++ crlf) ++ rest) := by
      simp
    have first := Lines.lines_line (a := carriageReturn) (b := lineFeed) (by decide)
      (fields.flatMap (· ++ crlf) ++ rest) (each field (by simp))
    rw [shape, List.cons_append, ← ih fun f member => each f (by simp [member])]
    exact first

/-- Respelled header lines take the same room. -/
theorem length_fields {fields fields' : List Bytes} (same : List.Forall₂ SameField fields fields') :
    (fields.flatMap (· ++ crlf)).length = (fields'.flatMap (· ++ crlf)).length := by
  -- The fields have equal lengths one by one.
  induction same with
  | nil => rfl
  | cons sameLine _ ih => simp [sameLine.shape.2, ih]

/-- Such buffers have the same length, the same request line, and the same header lines up to the
case of the names. -/
theorem SameUpToFieldCase.lines {one other : Bytes} (same : SameUpToFieldCase one other) :
    one = other ∨ ∃ requestLine lines lines',
      bufferLines one = requestLine :: lines ∧ bufferLines other = requestLine :: lines' ∧
        List.Forall₂ SameField lines lines' ∧ one.length = other.length := by
  rcases same with rfl | ⟨requestLine, fields, fields', rest, rest', rfl, rfl, line, each, respelled,
    ends⟩
  · exact .inl rfl
  · -- What is behind the respelled lines has the same lines, or none where it is unfinished.
    have sameRest : List.Forall₂ SameField (bufferLines rest) (bufferLines rest') := by
      rcases ends with rfl | ⟨unfinished, unfinished', -⟩
      · exact List.forall₂_same.mpr fun line _ => SameField.refl line
      · rw [bufferLines, bufferLines, Lines.lines_none unfinished, Lines.lines_none unfinished']
        exact .nil
    have restLength : rest.length = rest'.length := by
      rcases ends with rfl | ⟨-, -, sameLine⟩
      · rfl
      · exact sameLine.shape.2
    refine .inr ⟨requestLine, fields ++ bufferLines rest, fields' ++ bufferLines rest', ?_, ?_,
      List.rel_append respelled sameRest, ?_⟩
    · rw [← bufferLines_fields (fun f member => (each f (by simp [member])).2)]
      exact Lines.lines_line (by decide) _ line
    · rw [← bufferLines_fields (fun f member => (each f (by simp [member])).2)]
      exact Lines.lines_line (by decide) _ line
    · simp only [List.length_append, length_fields respelled, restLength]

/-- Two buffers that differ in the letter case of header names are framed in the same way exactly if
their request line is refused or their `Content-Length` fields, spelled so, agree. -/
theorem framing_fieldCase_iff {one other : Bytes} (same : SameUpToFieldCase one other) :
    (parseRequest {} one).2 = (parseRequest {} other).2 ↔ LengthsAgree one other := by
  rcases same.lines with rfl | ⟨requestLine, lines, lines', cut, cut', respelled, length⟩
  · exact iff_of_true rfl (.inr rfl)
  · rw [parseRequest_verdict, parseRequest_verdict, cut, cut', length, LengthsAgree, passedFields,
      passedFields, cut, cut', List.tail_cons, List.tail_cons]
    by_cases accepted : hasUrl requestLine
    · -- The body sizes decide, and these are what the fields say.
      have sizes := headersVerdict_eq_iff other.length (requestLine.length + 2) respelled
        (Nat.two_pow_pos 32) (Nat.two_pow_pos 32)
      rw [foldl_headerBodySize, foldl_headerBodySize, toUnsigned32_lastLength] at sizes
      simpa [linesVerdict, accepted] using sizes
    · simp [linesVerdict, accepted]

/-- A request whose body is announced in lower case. -/
def lowerCase : Bytes :=
  ascii ['P', ' ', 'u', '\r', '\n', 'c', 'o', 'n', 't', 'e', 'n', 't', '-', 'l', 'e', 'n', 'g', 't',
    'h', ':', '2', '\r', '\n', '\r', '\n', 'o', 'k']

/-- The same request with the usual spelling of the field name. -/
def usualCase : Bytes :=
  ascii ['P', ' ', 'u', '\r', '\n', 'C', 'o', 'n', 't', 'e', 'n', 't', '-', 'L', 'e', 'n', 'g', 't',
    'h', ':', '2', '\r', '\n', '\r', '\n', 'o', 'k']

/-- The two spellings make the same request. -/
theorem lowerCase_same : SameUpToFieldCase lowerCase usualCase :=
  -- The two heads differ in their one header, and there only in the case of the field name.
  .inr ⟨ascii ['P', ' ', 'u'],
    [ascii ['c', 'o', 'n', 't', 'e', 'n', 't', '-', 'l', 'e', 'n', 'g', 't', 'h', ':', '2']],
    [ascii ['C', 'o', 'n', 't', 'e', 'n', 't', '-', 'L', 'e', 'n', 'g', 't', 'h', ':', '2']],
    ascii ['\r', '\n', 'o', 'k'], ascii ['\r', '\n', 'o', 'k'], by decide, by decide,
    by unfold IsLine; decide, by unfold IsLine; decide,
    .cons (.inr ⟨ascii ['c', 'o', 'n', 't', 'e', 'n', 't', '-', 'l', 'e', 'n', 'g', 't', 'h'],
      contentLength, ascii ['2'], by decide, by decide, by decide, by decide, by decide⟩) .nil,
    .inl rfl⟩

/-- The framing of the two spellings, which do not agree. -/
theorem framing_fieldCase_lowerCase :
    (parseRequest {} lowerCase).2 = (parseRequest {} usualCase).2 ↔
      LengthsAgree lowerCase usualCase :=
  framing_fieldCase_iff lowerCase_same

/-- The body announced in lower case is left for the next request. -/
theorem framing_case_sensitive :
    ¬ ∀ one other, SameUpToFieldCase one other →
      (parseRequest {} one).2 = (parseRequest {} other).2 := by
  -- In lower case the body counts as the next request, so the lengths returned differ.
  intro always
  exact absurd (always lowerCase usualCase lowerCase_same) (by decide)

end EnhancedProxy

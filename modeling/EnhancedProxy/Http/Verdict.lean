import EnhancedProxy.Http.HeadEnd

/-! What `parseRequest` returns, read off the lines of the buffer. -/

namespace EnhancedProxy

/-- The verdict and the length from the header lines on, in a buffer of the given length. -/
def headersVerdict (length it bodySize : Nat) : List Bytes → Bool × Nat
  -- The line that ends the headers has not arrived.
  | [] => (false, it + bodySize)
  | line :: later =>
    let behind := it + line.length + 2
    if colon ∈ line then headersVerdict length behind (headerBodySize line bodySize) later
    else (bodySize ≤ length - behind, behind + bodySize)

/-- The verdict and the length of a buffer with the given lines and the given length. -/
def linesVerdict (length : Nat) : List Bytes → Bool × Nat
  | [] => (false, length)
  | requestLine :: later =>
    if hasUrl requestLine then headersVerdict length (requestLine.length + 2) 0 later
    else (false, requestLine.length)

/-- The headers are passed one by one, each setting the body size if it is named for it. -/
theorem headersVerdict_fields {length it bodySize : Nat} {fields later : List Bytes}
    (allColon : ∀ field ∈ fields, colon ∈ field) :
    headersVerdict length it bodySize (fields ++ later) =
      headersVerdict length (it + Lines.size fields)
        (fields.foldl (fun size line => headerBodySize line size) bodySize) later := by
  -- Each field has a colon, so the verdict passes over it and hands its size on.
  induction fields generalizing it bodySize with
  | nil => rfl
  | cons field fields ih =>
    have here := allColon field (by simp)
    rw [List.cons_append, headersVerdict, if_pos here,
      ih fun f member => allColon f (by simp [member])]
    simp only [Lines.size_cons, List.foldl_cons, Nat.add_assoc]

section Parser

variable {buf : Bytes} {context : HttpContext} {locals : ParseLocals}

/-- Without another line end, there are no more lines. -/
theorem bufferLines_missing {start : Nat} (missing : searchCrlf buf start = none) :
    bufferLines (buf.drop start) = [] :=
  Lines.lines_none (Option.map_eq_none_iff.mp missing)

/-- The body is there in full or it is not, in the one pass that judges it. -/
theorem parseLoop_bodyVerdict {passes : Nat} (state : context.state = .kExpectBody)
    (running : locals.hasMore = true) :
    (parseLoop (passes + 1) context buf locals).2.ok =
      decide (locals.bodySize ≤ buf.length - locals.it) := by
  have judged : (parseIteration context buf locals).2.hasMore = false ∧
      (parseIteration context buf locals).2.ok =
        decide (locals.bodySize ≤ buf.length - locals.it) := by
    simp only [parseIteration, state]
    split_ifs with announced empty
    · exact ⟨rfl, by simp [announced.2]⟩
    · exact ⟨rfl, by simp [empty]⟩
    · -- Neither empty nor there in full.
      have short : ¬ locals.bodySize ≤ buf.length - locals.it := fun full => announced ⟨empty, full⟩
      exact ⟨rfl, by simp [short]⟩
  rw [parseLoop_running running, parseLoop_ended judged.1]
  exact judged.2

/-- From the header lines on, the loop comes to the verdict on these lines. -/
theorem parseLoop_headersVerdict {passes : Nat} (state : context.state = .kExpectHeaders)
    (running : locals.hasMore = true) (inside : locals.it ≤ buf.length)
    (ended : (parseLoop passes context buf locals).2.hasMore = false) :
    ((parseLoop passes context buf locals).2.ok,
        (parseLoop passes context buf locals).2.it +
          (parseLoop passes context buf locals).2.bodySize) =
      headersVerdict buf.length locals.it locals.bodySize (bufferLines (buf.drop locals.it)) := by
  -- Each pass takes one line off the rest of the buffer.
  induction passes generalizing locals with
  | zero =>
    rw [parseLoop, running] at ended
    cases ended
  | succ passes ih =>
    rw [parseLoop_running running] at ended ⊢
    cases search : searchCrlf buf locals.it with
    | none =>
      rw [bufferLines_missing search]
      simp only [parseIteration, state, search]
      rw [parseLoop_ended rfl]
      rfl
    | some itCrlf =>
      have bound := searchCrlf_within search inside
      have length : ((buf.take itCrlf).drop locals.it).length = itCrlf - locals.it := by
        rw [List.length_drop, List.length_take_of_le (by omega)]
      have behind : locals.it + ((buf.take itCrlf).drop locals.it).length + 2 = itCrlf + 2 := by
        omega
      rw [bufferLines_search search, headersVerdict, behind]
      by_cases hasColon : colon ∈ (buf.take itCrlf).drop locals.it
      · -- A header line.
        rw [parseIteration_field state search hasColon] at ended ⊢
        rw [if_pos hasColon]
        exact ih running bound.2 ended
      · -- The line that ends the headers, and then the body.
        rw [parseIteration_colonless state search hasColon] at ended ⊢
        rw [if_neg hasColon]
        cases passes with
        | zero =>
          rw [parseLoop] at ended
          cases ended.symm.trans running
        | succ passes =>
          have body : HttpContext.state { context with state := .kExpectBody } = .kExpectBody := rfl
          have still : ParseLocals.hasMore { locals with it := itCrlf + 2 } = true := running
          obtain ⟨it, bodySize⟩ := parseLoop_body body still
          rw [it, bodySize, parseLoop_bodyVerdict body still]

/-- The loop comes to the verdict on the lines of the buffer. -/
theorem parseLocals_verdict (context : HttpContext) (buf : Bytes) :
    ((parseLocals context buf).2.ok,
        (parseLocals context buf).2.it + (parseLocals context buf).2.bodySize) =
      linesVerdict buf.length (bufferLines buf) := by
  -- The first pass reads the request line, and the others are those over the headers.
  have ended := parseLocals_ends context buf
  rw [parseLocals, parsePasses, parseLoop_running rfl] at ended ⊢
  cases search : searchCrlf buf 0 with
  | none =>
    have noLines : bufferLines buf = [] := bufferLines_missing search
    simp only [parseIteration, search, noLines]
    rw [parseLoop_ended rfl]
    rfl
  | some found =>
    have bound := searchCrlf_within search (Nat.zero_le _)
    have cut := bufferLines_search search
    rw [List.drop_zero, List.drop_zero] at cut
    have length : (buf.take found).length = found := List.length_take_of_le (by omega)
    have read := praseRequestLine_search { context with state := .kExpectRequestLine } search
      (Nat.zero_le _)
    rw [cut, linesVerdict, length]
    simp only [parseIteration, search, read] at ended ⊢
    cases accepted : hasUrl (buf.take found) with
    | false =>
      simp only [Bool.false_eq_true, if_false]
      rw [parseLoop_ended rfl]
      rfl
    | true =>
      simp only [accepted, if_true] at ended ⊢
      have running : ParseLocals.hasMore { it := found + 2, ok := true } = true := rfl
      rw [← parseLoop_headersVerdict rfl running bound.2 ended]

/-- `parseRequest` returns the verdict on the lines of the buffer, with the length as an `int`. -/
theorem parseRequest_verdict (context : HttpContext) (buf : Bytes) :
    (parseRequest context buf).2 =
      ((linesVerdict buf.length (bufferLines buf)).1,
        toInt32 (linesVerdict buf.length (bufferLines buf)).2) := by
  -- The parser returns what its loop leaves in the locals.
  rw [← parseLocals_verdict context buf]
  rfl

end Parser

end EnhancedProxy

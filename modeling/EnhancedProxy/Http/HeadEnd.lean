import EnhancedProxy.Http.ParseLaws
import EnhancedProxy.Library.Lines

/-! Where the parser takes the head of a request to end, and where it does end. -/

namespace EnhancedProxy

/-- The lines of a buffer. -/
def bufferLines (buf : Bytes) : List Bytes := Lines.lines carriageReturn lineFeed buf

/-- The body size that header lines announce. A line without a colon is no header. -/
def announcedSize (headers : List Bytes) : Nat :=
  (headers.filter (colon ∈ ·)).foldl (fun size line => headerBodySize line size) 0

/-- The bytes up to the returned length are the head, up to the first empty line, and a body of the
size that the headers announce. -/
def HeadEnds (buf : Bytes) (n : Int) : Prop :=
  ∃ head body, buf.take n.toNat = head ++ body ∧ Lines.IsHead carriageReturn lineFeed buf head ∧
    body.length = announcedSize (bufferLines head).tail

/-- The first line without a colon, the request line apart, is the empty one, in a request below
2^31 bytes. If it is another one, an empty line must follow, and the headers between the two must
lower the announced size by just the bytes from the one to the other. -/
def ColonlessLineEnds (buf : Bytes) : Prop :=
  ∃ requestLine fields colonless later,
    bufferLines buf = requestLine :: (fields ++ colonless :: later) ∧
      (∀ field ∈ fields, colon ∈ field) ∧ colon ∉ colonless ∧
      Lines.size (requestLine :: (fields ++ [colonless])) + announcedSize fields < 2 ^ 31 ∧
      (colonless = [] ∨ ∃ between rest, later = between ++ [] :: rest ∧ [] ∉ between ∧
        announcedSize fields =
          Lines.size between + 2 + announcedSize (fields ++ colonless :: between))

section Parser

variable {buf : Bytes} {context : HttpContext} {locals : ParseLocals} {passes : Nat}

/-- The search of the parser finds the end of the next line. -/
theorem bufferLines_search {start found : Nat} (search : searchCrlf buf start = some found) :
    bufferLines (buf.drop start) =
      (buf.take found).drop start :: bufferLines (buf.drop (found + 2)) := by
  -- The search runs over the rest of the buffer, and its result is counted from the start.
  obtain ⟨i, searched, rfl⟩ := Option.map_eq_some_iff.mp search
  rw [bufferLines, Lines.lines_some searched, List.drop_take, Nat.add_sub_cancel_left,
    List.drop_drop, Nat.add_assoc]
  rfl

/-- A line with a colon is read as a header. -/
theorem parseIteration_field {itCrlf : Nat} (state : context.state = .kExpectHeaders)
    (search : searchCrlf buf locals.it = some itCrlf)
    (hasColon : colon ∈ (buf.take itCrlf).drop locals.it) :
    parseIteration context buf locals =
      (context, { locals with
        it := itCrlf + 2
        bodySize := headerBodySize ((buf.take itCrlf).drop locals.it) locals.bodySize }) := by
  -- The colon is found before the end of the line.
  have found := List.findIdx_lt_length_of_exists (p := (· == colon))
    ⟨colon, hasColon, beq_self_eq_true colon⟩
  simp only [parseIteration, state, search]
  rw [if_pos (Nat.ne_of_lt found)]

/-- A line without a colon ends the headers. -/
theorem parseIteration_colonless {itCrlf : Nat} (state : context.state = .kExpectHeaders)
    (search : searchCrlf buf locals.it = some itCrlf)
    (noColon : colon ∉ (buf.take itCrlf).drop locals.it) :
    parseIteration context buf locals =
      ({ context with state := .kExpectBody }, { locals with it := itCrlf + 2 }) := by
  -- The search for a colon runs to the end of the line.
  have missing : ((buf.take itCrlf).drop locals.it).findIdx (· == colon) =
      ((buf.take itCrlf).drop locals.it).length :=
    List.findIdx_eq_length_of_false fun c member => by
      simpa using fun (same : c = colon) => noColon (same ▸ member)
  simp only [parseIteration, state, search]
  rw [if_neg (not_not.mpr missing)]

/-- The body is judged in one pass, which does not move. -/
theorem parseLoop_body (state : context.state = .kExpectBody) (running : locals.hasMore = true) :
    (parseLoop (passes + 1) context buf locals).2.it = locals.it ∧
      (parseLoop (passes + 1) context buf locals).2.bodySize = locals.bodySize := by
  -- Each verdict about the body stops the loop and leaves position and size alone.
  have judged : (parseIteration context buf locals).2.hasMore = false ∧
      (parseIteration context buf locals).2.it = locals.it ∧
      (parseIteration context buf locals).2.bodySize = locals.bodySize := by
    simp only [parseIteration, state]
    split_ifs <;> exact ⟨rfl, rfl, rfl⟩
  rw [parseLoop_running running, parseLoop_ended judged.1]
  exact judged.2

/-- The headers are read line by line, up to the first one without a colon. -/
theorem parseLoop_headerLines (state : context.state = .kExpectHeaders)
    (running : locals.hasMore = true) (inside : locals.it ≤ buf.length)
    (ended : (parseLoop passes context buf locals).2.hasMore = false)
    (accepted : (parseLoop passes context buf locals).2.ok = true) :
    ∃ fields colonless later,
      bufferLines (buf.drop locals.it) = fields ++ colonless :: later ∧
        (∀ field ∈ fields, colon ∈ field) ∧ colon ∉ colonless ∧
        (parseLoop passes context buf locals).2.it =
          locals.it + Lines.size (fields ++ [colonless]) ∧
        (parseLoop passes context buf locals).2.bodySize =
          fields.foldl (fun size line => headerBodySize line size) locals.bodySize := by
  -- Each pass takes one line off the rest of the buffer.
  induction passes generalizing locals with
  | zero =>
    rw [parseLoop, running] at ended
    cases ended
  | succ passes ih =>
    rw [parseLoop_running running] at ended accepted ⊢
    cases search : searchCrlf buf locals.it with
    | none =>
      -- Without another line end, the buffer is refused.
      simp only [parseIteration, state, search] at accepted
      rw [parseLoop_ended rfl] at accepted
      cases accepted
    | some itCrlf =>
      have bound := searchCrlf_within search inside
      have cut := bufferLines_search search
      have length : ((buf.take itCrlf).drop locals.it).length = itCrlf - locals.it := by
        rw [List.length_drop, List.length_take_of_le (by omega)]
      by_cases hasColon : colon ∈ (buf.take itCrlf).drop locals.it
      · -- A header line.
        rw [parseIteration_field state search hasColon] at ended accepted ⊢
        generalize (buf.take itCrlf).drop locals.it = line at *
        have still : ParseLocals.hasMore { locals with
            it := itCrlf + 2, bodySize := headerBodySize line locals.bodySize } = true := running
        obtain ⟨fields, colonless, later, rest, allColon, noColon, it, bodySize⟩ :=
          ih still bound.2 ended accepted
        refine ⟨line :: fields, colonless, later, by rw [cut, rest]; rfl, ?_, noColon, ?_, ?_⟩
        · simpa [hasColon] using allColon
        · rw [it, List.cons_append, Lines.size_cons]
          dsimp only
          omega
        · rw [bodySize, List.foldl_cons]
      · -- The line that ends the headers, and then the body.
        rw [parseIteration_colonless state search hasColon] at ended accepted ⊢
        generalize (buf.take itCrlf).drop locals.it = line at *
        refine ⟨[], line, bufferLines (buf.drop (itCrlf + 2)), by rw [cut]; rfl, by simp, hasColon,
          ?_⟩
        cases passes with
        | zero =>
          rw [parseLoop] at ended
          cases ended.symm.trans running
        | succ passes =>
          have body : HttpContext.state { context with state := .kExpectBody } = .kExpectBody := rfl
          have still : ParseLocals.hasMore { locals with it := itCrlf + 2 } = true := running
          obtain ⟨it, bodySize⟩ := parseLoop_body body still
          refine ⟨?_, bodySize⟩
          rw [it]
          simp only [List.nil_append, Lines.size_cons, Lines.size_nil]
          omega

/-- An accepted buffer has a request line that is not empty, header lines, and a line without a
colon. The position and the body size are those after that line. -/
theorem parseLocals_lines (accepted : (parseLocals {} buf).2.ok = true) :
    ∃ requestLine fields colonless later,
      bufferLines buf = requestLine :: (fields ++ colonless :: later) ∧ requestLine ≠ [] ∧
        (∀ field ∈ fields, colon ∈ field) ∧ colon ∉ colonless ∧
        (parseLocals {} buf).2.it = Lines.size (requestLine :: (fields ++ [colonless])) ∧
        (parseLocals {} buf).2.bodySize = announcedSize fields := by
  -- The first pass reads the request line, and the others are those over the headers.
  have ended := parseLocals_ends {} buf
  rw [parseLocals, parsePasses, parseLoop_running rfl] at ended accepted ⊢
  cases search : searchCrlf buf 0 with
  | none =>
    simp only [parseIteration, search] at accepted
    rw [parseLoop_ended rfl] at accepted
    cases accepted
  | some found =>
    have bound := searchCrlf_within search (Nat.zero_le _)
    have cut := bufferLines_search search
    rw [List.drop_zero, List.drop_zero] at cut
    simp only [parseIteration, search] at ended accepted ⊢
    cases read : ({} : HttpContext).praseRequestLine buf found with
    | mk ok context =>
      simp only [read] at ended accepted ⊢
      cases ok with
      | false =>
        rw [parseLoop_ended rfl] at accepted
        cases accepted
      | true =>
        have state : HttpContext.state { context with state := .kExpectHeaders } =
          .kExpectHeaders := rfl
        have running : ParseLocals.hasMore { it := found + 2, ok := true } = true := rfl
        obtain ⟨fields, colonless, later, rest, allColon, noColon, it, bodySize⟩ :=
          parseLoop_headerLines state running bound.2 ended accepted
        have length : (buf.take found).length = found := List.length_take_of_le (by omega)
        refine ⟨buf.take found, fields, colonless, later, by rw [cut, rest], ?_, allColon, noColon,
          ?_, ?_⟩
        · -- An empty request line is refused.
          intro empty
          rw [empty, List.length_nil] at length
          subst length
          simp [HttpContext.praseRequestLine] at read
        · simp only [if_true, it, Lines.size_cons, length]
        · have all : fields.filter (colon ∈ ·) = fields :=
            List.filter_eq_self.mpr fun field member => by simpa using allColon field member
          simp only [if_true, bodySize, announcedSize, all]

/-- Each header keeps the size, or sets it to a 32-bit number. -/
theorem headerBodySize_lt {line : Bytes} {size : Nat} (small : size < 2 ^ 32) :
    headerBodySize line size < 2 ^ 32 := by
  -- A size that is read is the remainder of a division by 2^32.
  simp only [headerBodySize, toUnsigned32]
  split_ifs
  · omega
  · exact small

/-- An announced size is a 32-bit number. -/
theorem announcedSize_lt (headers : List Bytes) : announcedSize headers < 2 ^ 32 := by
  unfold announcedSize
  generalize headers.filter (colon ∈ ·) = fields
  -- The size starts at zero, and each header keeps it small.
  suffices kept : ∀ size < 2 ^ 32,
      fields.foldl (fun size line => headerBodySize line size) size < 2 ^ 32 from
    kept 0 (by decide)
  induction fields with
  | nil => exact fun size small => small
  | cons line fields ih => exact fun size small => ih _ (headerBodySize_lt small)

end Parser

section Head

variable {buf : Bytes} {n : Int}

/-- The colonless line is no header. -/
theorem announcedSize_concat (headers : List Bytes) {line : Bytes} (noColon : colon ∉ line) :
    announcedSize (headers ++ [line]) = announcedSize headers := by
  simp [announcedSize, noColon]

/-- A request is cut off right exactly if the length is that of its lines up to the first empty one,
and of the body these announce. -/
theorem headEnds_iff_size {front later : List Bytes} (cut : bufferLines buf = front ++ [] :: later)
    (some_ : front ≠ []) (first : [] ∉ front.tail) (inside : n.toNat ≤ buf.length) :
    HeadEnds buf n ↔ n.toNat = Lines.size front + 2 + announcedSize front.tail := by
  -- The lines up to the empty one are those of the head.
  have whole : bufferLines buf = (front ++ [[]]) ++ later := by rw [cut]; simp
  have within := Lines.size_le whole
  have headSize : Lines.size (front ++ [[]]) = Lines.size front + 2 := by simp
  rw [headSize] at within
  have isHead : Lines.IsHead carriageReturn lineFeed buf (buf.take (Lines.size front + 2)) :=
    (Lines.isHead_iff (by decide)).mpr ⟨front, later, cut, some_, first, rfl⟩
  have announced : announcedSize (bufferLines (buf.take (Lines.size front + 2))).tail =
      announcedSize front.tail := by
    rw [← headSize, bufferLines, Lines.lines_take whole, List.tail_append_of_ne_nil some_,
      announcedSize_concat _ List.not_mem_nil]
  have length : (buf.take (Lines.size front + 2)).length = Lines.size front + 2 :=
    List.length_take_of_le within
  constructor
  · rintro ⟨head, body, split, shortest, sized⟩
    -- There is only one shortest head.
    have same := shortest.unique isHead
    subst same
    have total := congrArg List.length split
    rw [List.length_take_of_le inside, List.length_append, length, sized, announced] at total
    exact total
  -- The rest up to the returned length is the body.
  · intro total
    refine ⟨_, (buf.take n.toNat).drop (Lines.size front + 2), ?_, isHead, ?_⟩
    · have prefix_ : buf.take (Lines.size front + 2) =
          (buf.take n.toNat).take (Lines.size front + 2) := by
        rw [List.take_take, Nat.min_eq_left (by omega)]
      rw [prefix_, List.take_append_drop]
    · rw [List.length_drop, List.length_take_of_le inside, announced]
      omega

/-- The conversion to `int` makes no number greater. -/
theorem toInt32_toNat_le {n bound : Nat} (within : n ≤ bound) : (toInt32 n).toNat ≤ bound := by
  -- A number is kept, or becomes smaller by a multiple of 2^32, and negative ones count as zero.
  unfold toInt32
  omega

/-- The returned length is a certain one from the body on exactly if that one is not changed by the
conversion to `int`. -/
theorem toInt32_toNat_eq_iff {it bodySize rest : Nat} (some_ : 0 < it) (small : bodySize < 2 ^ 32) :
    (toInt32 (it + bodySize : Nat)).toNat = it + rest ↔
      it + bodySize < 2 ^ 31 ∧ bodySize = rest := by
  -- The conversion takes off multiples of 2^32, each more than the body.
  unfold toInt32
  omega

/-- The fields are the lines that are taken while they have a colon. -/
theorem takeWhile_fields {fields later : List Bytes} {colonless : Bytes}
    (allColon : ∀ field ∈ fields, colon ∈ field) (noColon : colon ∉ colonless) :
    (fields ++ colonless :: later).takeWhile (colon ∈ ·) = fields := by
  -- The first line without a colon ends the taking.
  rw [List.takeWhile_append_of_pos (by simpa using allColon),
    List.takeWhile_cons_of_neg (by simpa using noColon), List.append_nil]

/-- The header lines of a buffer are those before the first line without a colon. -/
theorem fields_unique {fields fields' later later' : List Bytes} {colonless colonless' : Bytes}
    (same : fields ++ colonless :: later = fields' ++ colonless' :: later')
    (allColon : ∀ field ∈ fields, colon ∈ field) (noColon : colon ∉ colonless)
    (allColon' : ∀ field ∈ fields', colon ∈ field) (noColon' : colon ∉ colonless') :
    fields = fields' ∧ colonless = colonless' ∧ later = later' := by
  obtain rfl : fields = fields' := by
    rw [← takeWhile_fields allColon noColon, same, takeWhile_fields allColon' noColon']
  -- Behind the same fields, the same line follows.
  exact ⟨rfl, List.cons.inj (List.append_cancel_left same)⟩

end Head

section Ends

variable {buf requestLine colonless : Bytes} {fields later : List Bytes} {n : Int}

/-- The returned length of an accepted buffer with the given lines. -/
theorem parseRequest_length (parsed : (parseRequest {} buf).2 = (true, n)) :
    ∃ requestLine fields colonless later,
      bufferLines buf = requestLine :: (fields ++ colonless :: later) ∧
        (∀ field ∈ fields, colon ∈ field) ∧ colon ∉ colonless ∧ n.toNat ≤ buf.length ∧
        n = toInt32 (Lines.size (requestLine :: (fields ++ [colonless])) + announcedSize fields :
          Nat) := by
  -- What is accepted lies inside the buffer.
  simp only [parseRequest, Prod.mk.injEq] at parsed
  obtain ⟨accepted, length⟩ := parsed
  obtain ⟨requestLine, fields, colonless, later, cut, -, allColon, noColon, it, bodySize⟩ :=
    parseLocals_lines accepted
  have within := (parseLocals_within accepted).2
  rw [it, bodySize] at length within
  subst length
  exact ⟨requestLine, fields, colonless, later, cut, allColon, noColon,
    toInt32_toNat_le within, rfl⟩

/-- Where the empty line ends the headers, only the conversion to `int` can move the end. -/
theorem headEnds_of_empty
    (cut : bufferLines buf = requestLine :: (fields ++ [] :: later))
    (allColon : ∀ field ∈ fields, colon ∈ field) (inside : n.toNat ≤ buf.length)
    (length : n = toInt32 (Lines.size (requestLine :: (fields ++ [[]])) + announcedSize fields :
      Nat)) :
    HeadEnds buf n ↔
      Lines.size (requestLine :: (fields ++ [[]])) + announcedSize fields < 2 ^ 31 := by
  -- No field is the empty line, as each has a colon.
  have first : [] ∉ fields := fun member => absurd (allColon [] member) List.not_mem_nil
  have place : Lines.size (requestLine :: fields) + 2 =
      Lines.size (requestLine :: (fields ++ [[]])) := by
    simp only [Lines.size_cons, Lines.size_append, Lines.size_nil, List.length_nil]
    omega
  have some_ : 0 < Lines.size (requestLine :: (fields ++ [[]])) := by
    rw [← place]
    omega
  have cutFront : bufferLines buf = (requestLine :: fields) ++ [] :: later := cut
  rw [headEnds_iff_size cutFront (List.cons_ne_nil _ _) first inside, place, length,
    toInt32_toNat_eq_iff some_ (announcedSize_lt fields)]
  simp

/-- Where another line ends the headers, the lines up to the empty one must make up for the body. -/
theorem headEnds_of_colonless {between rest : List Bytes} (notEmpty : colonless ≠ [])
    (cut : bufferLines buf = requestLine :: (fields ++ colonless :: (between ++ [] :: rest)))
    (first : [] ∉ between)
    (allColon : ∀ field ∈ fields, colon ∈ field) (inside : n.toNat ≤ buf.length)
    (length : n = toInt32 (Lines.size (requestLine :: (fields ++ [colonless])) +
      announcedSize fields : Nat)) :
    HeadEnds buf n ↔
      Lines.size (requestLine :: (fields ++ [colonless])) + announcedSize fields < 2 ^ 31 ∧
        announcedSize fields =
          Lines.size between + 2 + announcedSize (fields ++ colonless :: between) := by
  -- The first empty line comes after the line that the parser stops at.
  have notField : [] ∉ fields := fun member => absurd (allColon [] member) List.not_mem_nil
  have noneEmpty : [] ∉ fields ++ colonless :: between := by
    simp [notField, first, notEmpty.symm]
  have cutFront : bufferLines buf =
      (requestLine :: (fields ++ colonless :: between)) ++ [] :: rest := by
    rw [cut]
    simp
  have place : Lines.size (requestLine :: (fields ++ colonless :: between)) + 2 +
        announcedSize (fields ++ colonless :: between) =
      Lines.size (requestLine :: (fields ++ [colonless])) +
        (Lines.size between + 2 + announcedSize (fields ++ colonless :: between)) := by
    simp only [Lines.size_cons, Lines.size_append, Lines.size_nil]
    omega
  have some_ : 0 < Lines.size (requestLine :: (fields ++ [colonless])) := by
    rw [Lines.size_cons]
    omega
  rw [headEnds_iff_size cutFront (List.cons_ne_nil _ _) noneEmpty inside, List.tail_cons, place,
    length, toInt32_toNat_eq_iff some_ (announcedSize_lt fields)]

/-- The head of an accepted request ends at the empty line exactly if the first line without a colon
is that line. -/
theorem head_ends_iff (parsed : (parseRequest {} buf).2 = (true, n)) :
    HeadEnds buf n ↔ ColonlessLineEnds buf := by
  obtain ⟨requestLine, fields, colonless, later, cut, allColon, noColon, inside, length⟩ :=
    parseRequest_length parsed
  constructor
  · intro ends
    refine ⟨requestLine, fields, colonless, later, cut, allColon, noColon, ?_⟩
    by_cases isEmpty : colonless = []
    · subst isEmpty
      exact ⟨(headEnds_of_empty cut allColon inside length).mp ends, .inl rfl⟩
    · -- The head ends with an empty line, which can only be a later one.
      have isLater : [] ∈ later := by
        obtain ⟨head, -, -, isHead, -⟩ := ends
        obtain ⟨front, after, cutHead, some_, -, -⟩ := (Lines.isHead_iff (by decide)).mp isHead
        obtain ⟨line, tail, rfl⟩ := List.exists_cons_of_ne_nil some_
        obtain ⟨-, same⟩ := List.cons.inj (cut.symm.trans cutHead)
        have member : [] ∈ fields ++ colonless :: later :=
          same ▸ List.mem_append_right tail List.mem_cons_self
        rcases List.mem_append.mp member with isField | isRest
        · exact absurd (allColon [] isField) List.not_mem_nil
        · exact (List.mem_cons.mp isRest).resolve_left (Ne.symm isEmpty)
      obtain ⟨between, rest, rfl, first⟩ := List.eq_append_cons_of_mem isLater
      obtain ⟨small, sizes⟩ :=
        (headEnds_of_colonless isEmpty cut first allColon inside length).mp ends
      exact ⟨small, .inr ⟨between, rest, rfl, first, sizes⟩⟩
  -- The lines of a buffer are cut in only one way.
  · rintro ⟨requestLine', fields', colonless', later', cut', allColon', noColon', small, empty⟩
    obtain ⟨rfl, same⟩ := List.cons.inj (cut.symm.trans cut')
    obtain ⟨rfl, rfl, rfl⟩ := fields_unique same allColon noColon allColon' noColon'
    rcases empty with rfl | ⟨between, rest, rfl, first, sizes⟩
    · exact (headEnds_of_empty cut allColon inside length).mpr small
    · by_cases isEmpty : colonless = []
      · subst isEmpty
        exact (headEnds_of_empty cut allColon inside length).mpr small
      · exact (headEnds_of_colonless isEmpty cut first allColon inside length).mpr ⟨small, sizes⟩

end Ends

/-- A request line, a header line and the empty line, and then the next request. -/
def oneHeader : Bytes :=
  ascii ['G', ' ', 'u', '\r', '\n', 'A', ':', 'b', '\r', '\n', '\r', '\n', 'G', ' ', 'v', '\r', '\n',
    '\r', '\n']

/-- A request line, a line without a colon, a second request line and the empty line. -/
def twoRequestLines : Bytes :=
  ascii ['G', ' ', 'u', '\r', '\n', 'x', '\r', '\n', 'G', ' ', 'v', '\r', '\n', '\r', '\n']

/-- A request with a header ends with its empty line. -/
theorem head_ends_iff_oneHeader : HeadEnds oneHeader 12 ↔ ColonlessLineEnds oneHeader :=
  head_ends_iff (by decide)

/-- A request ends right after a line without a colon, and the next request starts there. -/
theorem head_ends_early :
    ¬ ∀ buf n, (parseRequest {} buf).2 = (true, n) → HeadEnds buf n := by
  -- The parser leaves at byte 8, after the first line without a colon.
  intro always
  have ends := always twoRequestLines 8 (by decide)
  -- The head of this buffer has three lines before its empty one.
  have cut : bufferLines twoRequestLines =
      [ascii ['G', ' ', 'u'], ascii ['x'], ascii ['G', ' ', 'v']] ++ [] :: [] := by
    rw [bufferLines, Lines.lines_some (i := 3) (by decide), Lines.lines_some (i := 1) (by decide),
      Lines.lines_some (i := 3) (by decide), Lines.lines_some (i := 0) (by decide),
      Lines.lines_none (by decide)]
    decide
  have total := (headEnds_iff_size cut (by decide) (by decide) (by decide)).mp ends
  exact absurd total (by decide)

end EnhancedProxy

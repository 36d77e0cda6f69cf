import EnhancedProxy.Http.Verdict
import Mathlib.Data.List.Chain

/-! Several attempts to parse a request on one context, as more of it arrives. -/

namespace EnhancedProxy

/-- The calls of `parseRequest` on one context, one after the other. -/
def parseAll (context : HttpContext) (bufs : List Bytes) : HttpContext :=
  bufs.foldl (fun context buf => (parseRequest context buf).1) context

/-- The first line of a buffer, and nothing as long as no line end has arrived. -/
def firstLine (buf : Bytes) : Bytes := (bufferLines buf).head?.getD []

/-- A context that was just constructed or reset. -/
def IsFresh (context : HttpContext) : Prop := context = {} ∨ ∃ used, context = HttpContext.reset used

/-- Each buffer is the beginning of the next one, and all but the last one are refused. -/
def Attempts (earlier : List Bytes) (last : Bytes) : Prop :=
  (earlier ++ [last]).IsChain (· <+: ·) ∧ (∀ buf ∈ earlier, (parseRequest {} buf).2.1 = false) ∧
    (parseRequest {} last).2.1 = true

/-- The attempts leave the method and the url that a new context reads from the last buffer. -/
def Retried (earlier : List Bytes) (last : Bytes) : Prop :=
  ∀ context, IsFresh context →
    (parseAll context (earlier ++ [last])).requestMethod =
        (parseRequest {} last).1.requestMethod ∧
      (parseAll context (earlier ++ [last])).requestUrl = (parseRequest {} last).1.requestUrl

section Line

variable {line : Bytes}

/-- Nothing is read of a line exactly if it consists of spaces. -/
theorem lineWords_nil : lineMethod line = [] ∧ lineUrl line = [] ↔ ∀ c ∈ line, c = space := by
  constructor
  · rintro ⟨noMethod, noUrl⟩
    -- Without a method, the spaces begin the line.
    have whole := List.takeWhile_append_dropWhile (p := (· != space)) (l := line)
    rw [show line.takeWhile (· != space) = [] from noMethod, List.nil_append] at whole
    rw [lineUrl, whole] at noUrl
    have nothing : line.dropWhile (· == space) = [] := by
      cases behind : line.dropWhile (· == space) with
      | nil => rfl
      | cons c rest =>
        -- The first byte behind the spaces would belong to the url.
        have other := List.head_dropWhile_not (· == space) (l := line) (by simp [behind])
        simp only [behind, List.head_cons] at other
        rw [behind, List.takeWhile_cons_of_pos (by simpa using other)] at noUrl
        cases noUrl
    intro c member
    simpa using List.dropWhile_eq_nil_iff.mp nothing c member
  · intro allSpace
    have noMethod : ∀ c ∈ line, ¬ (c != space) = true := fun c member => by simp [allSpace c member]
    have kept : line.dropWhile (· != space) = line := by
      cases line with
      | nil => rfl
      | cons c line => exact List.dropWhile_cons_of_neg (noMethod c (by simp))
    have nothing : line.dropWhile (· == space) = [] :=
      List.dropWhile_eq_nil_iff.mpr fun c member => by simp [allSpace c member]
    refine ⟨?_, by rw [lineUrl, kept, nothing]; rfl⟩
    cases line with
    | nil => rfl
    | cons c line => exact List.takeWhile_cons_of_neg (noMethod c (by simp))

end Line

section Parser

variable {buf : Bytes} {context : HttpContext} {locals : ParseLocals}

/-- Behind the request line, nothing is added to the method and the url. -/
theorem parseLoop_words (passes : Nat) (headed : context.state ≠ .kExpectRequestLine) :
    (parseLoop passes context buf locals).1.requestMethod = context.requestMethod ∧
      (parseLoop passes context buf locals).1.requestUrl = context.requestUrl := by
  induction passes generalizing context locals with
  | zero => exact ⟨rfl, rfl⟩
  | succ passes ih =>
    cases running : locals.hasMore with
    | false => rw [parseLoop_ended running]; exact ⟨rfl, rfl⟩
    | true =>
      -- A pass over a header or the body leaves both alone, and does not go back.
      have kept : (parseIteration context buf locals).1.state ≠ .kExpectRequestLine ∧
          (parseIteration context buf locals).1.requestMethod = context.requestMethod ∧
          (parseIteration context buf locals).1.requestUrl = context.requestUrl := by
        cases state : context.state with
        | kExpectRequestLine => exact absurd state headed
        | kExpectHeaders =>
          simp only [parseIteration, state]
          split
          · simp [state]
          · split <;> simp [state]
        | kExpectBody =>
          simp only [parseIteration, state]
          split_ifs <;> simp [state]
        | kGotAll => simp [parseIteration, state]
      rw [parseLoop_running running, ← kept.2.1, ← kept.2.2]
      exact ih kept.1

/-- Every call appends the two words of the first line to what the context holds. -/
theorem parseRequest_words (context : HttpContext) (buf : Bytes) :
    (parseRequest context buf).1.requestMethod =
        context.requestMethod ++ lineMethod (firstLine buf) ∧
      (parseRequest context buf).1.requestUrl = context.requestUrl ++ lineUrl (firstLine buf) := by
  rw [parseRequest, parseLocals, parsePasses, parseLoop_running rfl]
  cases search : searchCrlf buf 0 with
  | none =>
    -- Without a line end, nothing is read.
    have noLine : firstLine buf = [] := by
      have noLines : bufferLines buf = [] := bufferLines_missing search
      rw [firstLine, noLines]
      rfl
    simp only [parseIteration, search, noLine]
    rw [parseLoop_ended rfl]
    simp [lineMethod, lineUrl]
  | some stop =>
    have line : firstLine buf = buf.take stop := by
      have cut := bufferLines_search search
      rw [List.drop_zero, List.drop_zero] at cut
      rw [firstLine, cut]
      rfl
    have read := praseRequestLine_search { context with state := .kExpectRequestLine } search
      (Nat.zero_le _)
    simp only [parseIteration, search, line, read]
    split
    · -- The passes behind the request line leave both words alone.
      exact parseLoop_words (buf.length + 2) HttpRequestParseState.noConfusion
    · rw [parseLoop_ended rfl]
      exact ⟨rfl, rfl⟩

end Parser

/-- The calls append the words of the first lines, in order. -/
theorem parseAll_words (context : HttpContext) (bufs : List Bytes) :
    (parseAll context bufs).requestMethod =
        context.requestMethod ++ bufs.flatMap (fun buf => lineMethod (firstLine buf)) ∧
      (parseAll context bufs).requestUrl =
        context.requestUrl ++ bufs.flatMap (fun buf => lineUrl (firstLine buf)) := by
  -- Every attempt appends the words of its first line to what the context has gathered.
  induction bufs generalizing context with
  | nil => simp [parseAll]
  | cons buf bufs ih =>
    obtain ⟨method, url⟩ := parseRequest_words context buf
    obtain ⟨methods, urls⟩ := ih (parseRequest context buf).1
    simp only [parseAll, List.foldl_cons] at methods urls ⊢
    rw [methods, urls, method, url]
    simp

/-- A context that was just constructed or reset holds no method and no url. -/
theorem IsFresh.empty {context : HttpContext} (fresh : IsFresh context) :
    context.requestMethod = [] ∧ context.requestUrl = [] := by
  rcases fresh with rfl | ⟨used, rfl⟩ <;> exact ⟨rfl, rfl⟩

/-- The last attempt finds the method and the url of its buffer alone exactly if nothing was read of
a first line in the earlier ones: none had arrived, or it consisted of spaces. -/
theorem retried_iff (earlier : List Bytes) (last : Bytes) :
    Retried earlier last ↔ ∀ buf ∈ earlier, ∀ c ∈ firstLine buf, c = space := by
  obtain ⟨lastMethod, lastUrl⟩ := parseRequest_words {} last
  constructor
  · intro retried buf member
    -- What the earlier attempts have appended stands before the words of the last one.
    obtain ⟨method, url⟩ := retried {} (.inl rfl)
    obtain ⟨methods, urls⟩ := parseAll_words {} (earlier ++ [last])
    rw [methods, lastMethod] at method
    rw [urls, lastUrl] at url
    simp only [List.nil_append, List.flatMap_append, List.flatMap_singleton,
      List.append_left_eq_self, List.flatMap_eq_nil_iff] at method url
    exact lineWords_nil.mp ⟨method buf member, url buf member⟩
  · intro spaces context fresh
    obtain ⟨noMethod, noUrl⟩ := fresh.empty
    obtain ⟨methods, urls⟩ := parseAll_words context (earlier ++ [last])
    have nothing := fun buf member => lineWords_nil.mpr (spaces buf member)
    have noMethods : earlier.flatMap (fun buf => lineMethod (firstLine buf)) = [] :=
      List.flatMap_eq_nil_iff.mpr fun buf member => (nothing buf member).1
    have noUrls : earlier.flatMap (fun buf => lineUrl (firstLine buf)) = [] :=
      List.flatMap_eq_nil_iff.mpr fun buf member => (nothing buf member).2
    rw [methods, urls, lastMethod, lastUrl, noMethod, noUrl, List.flatMap_append,
      List.flatMap_append, noMethods, noUrls]
    simp

/-- A request line without the empty line behind it, and then with it, is read twice. -/
theorem retry_appends : ¬ ∀ earlier last, Attempts earlier last → Retried earlier last := by
  -- The unfinished attempt has already stored its method and url, and the next stores them again.
  intro always
  have attempts : Attempts [ascii ['G', ' ', 'u', '\r', '\n']]
      (ascii ['G', ' ', 'u', '\r', '\n', '\r', '\n']) := by
    refine ⟨?_, by decide, by decide⟩
    simp [ascii]
  have retried := (always _ _ attempts {} (.inl rfl)).1
  exact absurd retried (by decide)

end EnhancedProxy

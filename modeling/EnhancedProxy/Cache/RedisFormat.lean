import EnhancedProxy.Cache.Redis
import EnhancedProxy.Library.Words

/-! The format strings of the Redis level, and whether a response survives them. -/

namespace EnhancedProxy

/-- The text that a format string without arguments stands for: two percent signs are one, and any
other directive needs an argument. A percent sign at the end is no directive. -/
def formatText : Bytes → Option Bytes
  | [] => some []
  | [c] => some [c]
  | c :: d :: rest =>
    if c = percent then
      if d = percent then (formatText rest).map (percent :: ·) else none
    else (formatText (d :: rest)).map (c :: ·)

/-- A command as `redisCommand` formats it: the string ends at its first NUL, the words stand
between spaces, and quotation marks are ordinary. -/
def RedisLibrary.Formats (library : RedisLibrary) : Prop :=
  ∀ command formatted, formatText (command.takeWhile (· ≠ 0)) = some formatted →
    library.words command = Words.words space formatted

/-- A library that refuses every other directive. -/
def formattingLibrary : RedisLibrary where
  words command := ((formatText (command.takeWhile (· ≠ 0))).map (Words.words space)).getD []
  refusal _ := []

/-- What is written for an absent key is read until it expires. -/
def RoundTrips (library : RedisLibrary) (url response : Bytes) : Prop :=
  ∀ now store later, store.lookup now url = none → now ≤ later →
    later ≤ now + defaultExpiredTime * 1000 →
    readRedisCache library later (updateRedisCache library now store url response) url = .ok response

section Format

variable {text front back formatted : Bytes} {c : UInt8}

/-- A text without percent signs stands for itself. -/
theorem formatText_append (free : percent ∉ front) :
    formatText (front ++ back) = (formatText back).map (front ++ ·) := by
  -- Its bytes are taken over one by one, and none begins a directive.
  induction front with
  | nil => simp
  | cons c front ih =>
    rw [List.mem_cons, not_or] at free
    have step : ∀ rest, formatText (c :: rest) = (formatText rest).map (c :: ·) := by
      intro rest
      cases rest with
      | nil => rfl
      | cons d rest => rw [formatText, if_neg (Ne.symm free.1)]
    rw [List.cons_append, step, ih free.2, Option.map_map]
    rfl

/-- The same at the end of a text. -/
theorem formatText_self (free : percent ∉ text) : formatText text = some text := by
  -- Nothing follows the text, and an empty text formats to itself.
  have appended : formatText (text ++ []) = (formatText []).map (text ++ ·) :=
    formatText_append free
  simpa [formatText] using appended

/-- Formatting brings in no new bytes. -/
theorem formatText_mem (whole : formatText text = some formatted) : ∀ c ∈ formatted, c ∈ text := by
  -- A pair of percent signs gives one, and every other byte itself.
  fun_induction formatText text generalizing formatted with
  | case1 => cases whole; simp
  | case2 c => cases whole; simp
  | case3 rest ih =>
    obtain ⟨inner, found, rfl⟩ := Option.map_eq_some_iff.mp whole
    intro c member
    rcases List.mem_cons.mp member with rfl | later
    · exact List.mem_cons_self
    · exact List.mem_cons_of_mem _ (List.mem_cons_of_mem _ (ih found c later))
  | case4 d rest ne => cases whole
  | case5 first d rest ne ih =>
    obtain ⟨inner, found, rfl⟩ := Option.map_eq_some_iff.mp whole
    intro c member
    rcases List.mem_cons.mp member with rfl | later
    · exact List.mem_cons_self
    · exact List.mem_cons_of_mem _ (ih found c later)

/-- Something stays of a text that is not empty. -/
theorem formatText_ne_nil (some_ : text ≠ []) (whole : formatText text = some formatted) :
    formatted ≠ [] := by
  -- The first byte, or the first pair, gives a byte.
  fun_induction formatText text generalizing formatted with
  | case1 => exact absurd rfl some_
  | case2 c => cases whole; simp
  | case3 rest ih =>
    obtain ⟨inner, -, rfl⟩ := Option.map_eq_some_iff.mp whole
    simp
  | case4 d rest ne => cases whole
  | case5 first d rest ne ih =>
    obtain ⟨inner, -, rfl⟩ := Option.map_eq_some_iff.mp whole
    simp

/-- A text that goes on after a byte that is no percent sign is formatted in two parts, and the
first one shrinks if it has percent signs. -/
theorem formatText_cut (ordinary : c ≠ percent)
    (whole : formatText (front ++ c :: back) = some formatted) :
    ∃ key, formatText front = some key ∧ (percent ∈ front → key.length < front.length) ∧
      ∀ rest, formatText (front ++ c :: rest) = (formatText (c :: rest)).map (key ++ ·) := by
  -- The front is read as before, as no pair of percent signs reaches across its end.
  fun_induction formatText front generalizing formatted with
  | case1 => exact ⟨[], rfl, by simp, by simp⟩
  | case2 d =>
    simp only [List.cons_append, List.nil_append, formatText, ordinary, if_false] at whole
    split at whole
    · cases whole
    · rename_i ne
      refine ⟨[d], rfl, fun isIn => (ne (List.mem_singleton.mp isIn).symm).elim, fun rest => ?_⟩
      simp [formatText, ne]
  | case3 rest ih =>
    simp only [List.cons_append, formatText, if_true] at whole
    obtain ⟨inner, found, -⟩ := Option.map_eq_some_iff.mp whole
    obtain ⟨key, formats, shorter, later⟩ := ih found
    refine ⟨percent :: key, by simp [formats], fun _ => ?_, fun back => ?_⟩
    · -- Two percent signs become one, and the rest does not grow.
      have : key.length ≤ rest.length := by
        by_cases more : percent ∈ rest
        · exact Nat.le_of_lt (shorter more)
        · rw [formatText_self more, Option.some.injEq] at formats
          rw [formats]
      simp only [List.length_cons]
      omega
    · simp only [List.cons_append, formatText, if_true, later, Option.map_map]
      rfl
  | case4 d rest ne =>
    simp only [List.cons_append, formatText, if_true, if_neg ne, reduceCtorEq] at whole
  | case5 first d rest ne ih =>
    simp only [List.cons_append, formatText, if_neg ne] at whole
    obtain ⟨inner, found, -⟩ := Option.map_eq_some_iff.mp whole
    obtain ⟨key, formats, shorter, later⟩ := ih found
    refine ⟨first :: key, by simp [formats], fun isIn => ?_, fun back => ?_⟩
    · have := shorter ((List.mem_cons.mp isIn).resolve_left (Ne.symm ne))
      simpa using this
    · have := later back
      simp only [List.cons_append] at this
      simp only [List.cons_append, formatText, if_neg ne, this, Option.map_map]
      rfl

end Format

section Library

variable {library : RedisLibrary} {url response : Bytes}

/-- A library that formats leaves plain words as they are. -/
theorem RedisLibrary.Formats.separates (formats : library.Formats) : library.Separates := by
  intro words _ plain
  -- Neither the words nor the spaces between them have anything to interpret.
  have ordinary : ∀ c ∈ [space].intercalate words, c ≠ 0 ∧ c ≠ percent := by
    intro c member
    rcases Words.mem_intercalate member with rfl | ⟨word, isWord, inside⟩
    · decide
    · exact ⟨((plain word isWord).2 c inside).1, ((plain word isWord).2 c inside).2.2⟩
  have noNul : ([space].intercalate words).takeWhile (· ≠ 0) = [space].intercalate words :=
    List.takeWhile_eq_self_iff.mpr fun c member => by simpa using (ordinary c member).1
  rw [formats _ _ (by rw [noNul]; exact formatText_self fun isIn => (ordinary _ isIn).2 rfl)]
  exact Words.words_intercalate fun word member =>
    ⟨(plain word member).1, fun isIn => ((plain word member).2 _ isIn).2.1 rfl⟩

/-- The concrete library formats. -/
theorem formats_formattingLibrary : formattingLibrary.Formats := by
  -- The library is defined by the formatting.
  intro command formatted whole
  simp only [formattingLibrary, whole, Option.map_some, Option.getD_some]

/-- A command that is refused after `MULTI` leaves the server as it was. -/
theorem updateRedisCache_refused (separates : library.Separates)
    (refused : RedisCommand.ofWords (library.words (ascii ['s', 'e', 't', 'n', 'x', ' '] ++ url ++
      ascii [' ', '"'] ++ response ++ ascii ['"'])) = none) (now : Nat) (store : RedisStore) :
    updateRedisCache library now store url response = store := by
  simp only [updateRedisCache, atomicUpdate, atomicUpdateCommands, List.foldl_cons, List.foldl_nil,
    RedisContext.redisCommand]
  generalize library.words (ascii ['e', 'x', 'p', 'i', 'r', 'e', ' '] ++ url ++ ascii [' '] ++
    toText defaultExpiredTime) = third
  -- Whatever the third command is, the last one discards all.
  simp only [RedisContext.answer, ofWords_multi separates, refused, ofWords_exec separates]
  rcases RedisCommand.ofWords third with _ | _ | _ | command <;> rfl

/-- Plain strings survive the round trip. -/
theorem roundTrips_plain (separates : library.Separates) (named : url ≠ []) (plainUrl : Plain url)
    (plainResponse : Plain response) : RoundTrips library url response := by
  intro now store later absent _ soon
  -- What was offered for the absent key is still there before its deadline.
  refine readRedisCache_quoted separates named plainUrl plainResponse ?_
  rw [updateRedisCache_plain separates named plainUrl plainResponse]
  have stored :=
    Expiring.Store.offer_own store now url (quoted response) (defaultExpiredTime * 1000)
  rw [absent, Option.getD_none] at stored
  rw [Expiring.Store.lookup_of_deadline stored, if_pos soon]

end Library

section Formatting

variable {url response : Bytes}

/-- A plain text has no NUL, no space and no percent sign. -/
theorem plain_of_notMem {text : Bytes} (noNul : 0 ∉ text) (noSpace : space ∉ text)
    (noPercent : percent ∉ text) : Plain text := fun _ member =>
  -- The three tests of a plain byte, one by one.
  ⟨fun same => noNul (same ▸ member), fun same => noSpace (same ▸ member),
    fun same => noPercent (same ▸ member)⟩

/-- The string of a command goes on behind bytes that are not NUL. -/
theorem takeWhile_noNul {front : Bytes} (noNul : 0 ∉ front) (back : Bytes) :
    (front ++ back).takeWhile (· ≠ 0) = front ++ back.takeWhile (· ≠ 0) :=
  -- Every byte of the front is taken.
  List.takeWhile_append_of_pos fun c member => by
    simpa using fun (same : c = 0) => noNul (same ▸ member)

/-- A command whose name is plain is formatted as far as its text is. -/
theorem formatText_command {name : Bytes} (plain : Plain name) (text : Bytes) :
    formatText ((name ++ space :: text).takeWhile (· ≠ 0)) =
      (formatText (text.takeWhile (· ≠ 0))).map (name ++ [space] ++ ·) := by
  -- The name and the space behind it are passed on as they are.
  have noNul : 0 ∉ name ++ [space] := by
    rw [List.mem_append, not_or]
    exact ⟨fun isIn => (plain 0 isIn).1 rfl, by decide⟩
  have noPercent : percent ∉ name ++ [space] := by
    rw [List.mem_append, not_or]
    exact ⟨fun isIn => (plain percent isIn).2.2 rfl, by decide⟩
  rw [List.append_cons, takeWhile_noNul noNul, formatText_append noPercent]

/-- The words of a command whose name is plain: none at all, or the name and those of the text that
follows. -/
theorem words_command {name : Bytes} (named : name ≠ []) (plain : Plain name) (text : Bytes) :
    formattingLibrary.words (name ++ space :: text) =
      match formatText (text.takeWhile (· ≠ 0)) with
      | none => []
      | some formatted => name :: Words.words space formatted := by
  have noSpace : space ∉ name := fun isIn => (plain space isIn).2.1 rfl
  simp only [formattingLibrary, formatText_command plain]
  -- The space behind the name ends the first word.
  cases formatText (text.takeWhile (· ≠ 0)) with
  | none => rfl
  | some formatted =>
    simp only [Option.map_some, Option.getD_some, ← List.append_cons]
    exact Words.words_cons named noSpace formatted

/-- `SETNX` takes a key and a value. -/
theorem ofWords_setnx_some {words : List Bytes} {command : RedisCommand}
    (known : RedisCommand.ofWords (ascii ['s', 'e', 't', 'n', 'x'] :: words) = some command) :
    ∃ key value, words = [key, value] ∧ command = .onKey (.setnx key value) := by
  -- The number of words decides.
  rcases words with _ | ⟨key, _ | ⟨value, _ | ⟨more, words⟩⟩⟩
  · cases known
  · cases known
  · cases known
    exact ⟨key, value, rfl, rfl⟩
  · cases known

/-- `GET` takes a key. -/
theorem ofWords_get_some {words : List Bytes} {command : RedisCommand}
    (known : RedisCommand.ofWords (ascii ['g', 'e', 't'] :: words) = some command) :
    ∃ key, words = [key] ∧ command = .onKey (.get key) := by
  -- The number of words decides.
  rcases words with _ | ⟨key, _ | ⟨value, _ | ⟨more, words⟩⟩⟩
  · cases known
  · cases known
    exact ⟨key, rfl, rfl⟩
  · cases known
  · cases known

/-- What is read with a single word for the key. -/
theorem readRedisCache_get {library : RedisLibrary} {key : Bytes}
    (words : library.words (ascii ['g', 'e', 't', ' '] ++ url) = [ascii ['g', 'e', 't'], key])
    (now : Nat) (store : RedisStore) :
    readRedisCache library now store url = readStr (store.lookup now key) := by
  -- With these words the server looks up the key and nothing else.
  rw [readRedisCache_eq, RedisContext.redisCommand, words]
  rfl

/-- Nothing is read from a server without keys, nor in answer to a command that is refused. -/
theorem readRedisCache_empty (now : Nat) (url response : Bytes) :
    readRedisCache formattingLibrary now (fun _ => none) url ≠ .ok response := by
  have named : ascii ['g', 'e', 't'] ≠ [] := by decide
  have words : formattingLibrary.words (ascii ['g', 'e', 't', ' '] ++ url) = _ :=
    words_command named (plain_ascii (by decide)) url
  rw [readRedisCache_eq, RedisContext.redisCommand]
  generalize formattingLibrary.words (ascii ['g', 'e', 't', ' '] ++ url) = command at words
  -- A refusal has no text here, and a key that is not there has a null string.
  cases known : RedisCommand.ofWords command with
  | none =>
    have answered :
        (RedisContext.answer formattingLibrary now { store := fun _ => none } command).2 =
          some [] := by
      simp only [RedisContext.answer, known]
      rfl
    rw [answered]
    exact fun same => by cases same
  | some read =>
    cases formats : formatText (url.takeWhile (· ≠ 0)) with
    | none =>
      simp only [formats] at words
      subst words
      cases known
    | some formatted =>
      simp only [formats] at words
      subst words
      obtain ⟨key, single, -⟩ := ofWords_get_some known
      rw [single]
      exact fun same => by cases same

/-- The string of a command that names a url. -/
theorem takeWhile_url (noNul : 0 ∉ url) (rest : Bytes) :
    (url ++ space :: rest).takeWhile (· ≠ 0) = url ++ space :: rest.takeWhile (· ≠ 0) := by
  rw [takeWhile_noNul noNul, List.takeWhile_cons_of_pos (by decide)]

/-- If one command that names a url is more than nothing, all have the same word for the url, which
is shorter if the url has percent signs, and then the words of the text behind it. -/
theorem words_url {command : Bytes} (commandNamed : command ≠ []) (commandPlain : Plain command)
    (named : url ≠ []) (noSpace : space ∉ url) (noNul : 0 ∉ url) {text : Bytes}
    (some_ : formattingLibrary.words (command ++ space :: (url ++ space :: text)) ≠ []) :
    ∃ key, formatText url = some key ∧ (percent ∈ url → key.length < url.length) ∧
      ∀ name rest, name ≠ [] → Plain name →
        formattingLibrary.words (name ++ space :: (url ++ space :: rest)) =
          match formatText (rest.takeWhile (· ≠ 0)) with
          | none => []
          | some inner => name :: key :: Words.words space inner := by
  -- The space behind the url is no part of a directive, so the formatting is cut there.
  rw [words_command commandNamed commandPlain, takeWhile_url noNul] at some_
  cases formats : formatText (url ++ space :: text.takeWhile (· ≠ 0)) with
  | none => simp only [formats, ne_eq, not_true_eq_false] at some_
  | some formatted =>
    obtain ⟨key, keyed, shorter, later⟩ := formatText_cut (by decide) formats
    have keyNamed := formatText_ne_nil named keyed
    have keyNoSpace : space ∉ key := fun isIn => noSpace (formatText_mem keyed space isIn)
    refine ⟨key, keyed, shorter, fun name rest nameNamed namePlain => ?_⟩
    have afterSpace : formatText (space :: rest.takeWhile (· ≠ 0)) =
        (formatText (rest.takeWhile (· ≠ 0))).map (space :: ·) :=
      formatText_append (by decide : percent ∉ [space])
    rw [words_command nameNamed namePlain, takeWhile_url noNul, later, afterSpace]
    cases formatText (rest.takeWhile (· ≠ 0)) with
    | none => rfl
    | some inner => exact congrArg (name :: ·) (Words.words_cons keyNamed keyNoSpace inner)

/-- The string of a command ends at a NUL of the url. -/
theorem takeWhile_nul (nul : 0 ∈ url) (rest : Bytes) :
    (url ++ rest).takeWhile (· ≠ 0) = url.takeWhile (· ≠ 0) := by
  -- The NUL stands in the url.
  rw [List.takeWhile_append, if_neg]
  intro whole
  have all := List.takeWhile_eq_self_iff.mp
    ((List.takeWhile_prefix (p := fun c : UInt8 => decide (c ≠ 0))).eq_of_length whole) 0 nul
  simp at all

/-- The text of `SETNX` has its parts between spaces. -/
theorem setnx_spelled (url response : Bytes) :
    ascii ['s', 'e', 't', 'n', 'x', ' '] ++ url ++ ascii [' ', '"'] ++ response ++ ascii ['"'] =
      ascii ['s', 'e', 't', 'n', 'x'] ++ space :: (url ++ space :: quoted response) := by
  simp [quoted, ascii, space]

/-- The text of `EXPIRE` has its parts between spaces. -/
theorem expire_spelled (url : Bytes) :
    ascii ['e', 'x', 'p', 'i', 'r', 'e', ' '] ++ url ++ ascii [' '] ++ toText defaultExpiredTime =
      ascii ['e', 'x', 'p', 'i', 'r', 'e'] ++
        space :: (url ++ space :: toText defaultExpiredTime) := by
  simp [ascii, space]

/-- An update is refused, or takes some key and some value. The key is the url, unless this has
percent signs, and the value is the only word of the quoted response. -/
theorem update_words (named : url ≠ []) (noSpace : space ∉ url) (noNul : 0 ∉ url) :
    RedisCommand.ofWords (formattingLibrary.words (ascii ['s', 'e', 't', 'n', 'x', ' '] ++ url ++
      ascii [' ', '"'] ++ response ++ ascii ['"'])) = none ∨
    ∃ key value formatted, (percent ∈ url → key.length < url.length) ∧
      formatText ((quoted response).takeWhile (· ≠ 0)) = some formatted ∧
      Words.words space formatted = [value] ∧
      RedisCommand.ofWords (formattingLibrary.words (ascii ['s', 'e', 't', 'n', 'x', ' '] ++ url ++
        ascii [' ', '"'] ++ response ++ ascii ['"'])) = some (.onKey (.setnx key value)) ∧
      RedisCommand.ofWords (formattingLibrary.words (ascii ['e', 'x', 'p', 'i', 'r', 'e', ' '] ++
        url ++ ascii [' '] ++ toText defaultExpiredTime)) =
          some (.onKey (.expire key defaultExpiredTime)) ∧
      formattingLibrary.words (ascii ['g', 'e', 't', ' '] ++ url) =
        [ascii ['g', 'e', 't'], key] := by
  rw [setnx_spelled, expire_spelled]
  -- Once `SETNX` is accepted, the other two commands have its word for the url.
  have setnxPlain : Plain (ascii ['s', 'e', 't', 'n', 'x']) := plain_ascii (by decide)
  cases known : RedisCommand.ofWords (formattingLibrary.words
      (ascii ['s', 'e', 't', 'n', 'x'] ++ space :: (url ++ space :: quoted response))) with
  | none => exact .inl rfl
  | some command =>
    have some_ : formattingLibrary.words
        (ascii ['s', 'e', 't', 'n', 'x'] ++ space :: (url ++ space :: quoted response)) ≠ [] := by
      intro nothing
      rw [nothing] at known
      cases known
    obtain ⟨key, keyed, shorter, words⟩ :=
      words_url (by decide) setnxPlain named noSpace noNul some_
    rw [words _ _ (by decide) setnxPlain] at known
    cases found : formatText ((quoted response).takeWhile (· ≠ 0)) with
    | none =>
      rw [found] at known
      cases known
    | some inner =>
      rw [found] at known
      obtain ⟨other, value, two, rfl⟩ := ofWords_setnx_some known
      obtain ⟨rfl, single⟩ := List.cons.inj two
      refine .inr ⟨key, value, inner, shorter, rfl, single, rfl, ?_, ?_⟩
      · -- The expiry time follows the same key.
        have time : formatText ((toText defaultExpiredTime).takeWhile (· ≠ 0)) =
            some (toText defaultExpiredTime) := by decide
        rw [words _ _ (by decide) (plain_ascii (by decide)), time]
        rfl
      · have whole : url.takeWhile (· ≠ 0) = url := by simpa using takeWhile_noNul noNul []
        have keyNamed := formatText_ne_nil named keyed
        have keyNoSpace : space ∉ key := fun isIn => noSpace (formatText_mem keyed space isIn)
        have getNamed : ascii ['g', 'e', 't'] ≠ [] := by decide
        have read : formattingLibrary.words (ascii ['g', 'e', 't', ' '] ++ url) = _ :=
          words_command getNamed (plain_ascii (by decide)) url
        rw [read, whole, keyed]
        simp only [Words.words_single keyNoSpace, if_neg keyNamed]

/-- A url with a NUL ends the command before its value. -/
theorem update_nul (noSpace : space ∉ url) (nul : 0 ∈ url) :
    RedisCommand.ofWords (formattingLibrary.words (ascii ['s', 'e', 't', 'n', 'x', ' '] ++ url ++
      ascii [' ', '"'] ++ response ++ ascii ['"'])) = none := by
  rw [setnx_spelled, words_command (by decide) (plain_ascii (by decide)), takeWhile_nul nul]
  cases formats : formatText (url.takeWhile (· ≠ 0)) with
  | none => rfl
  | some formatted =>
    have free : space ∉ formatted := fun isIn =>
      noSpace (List.takeWhile_subset _ (formatText_mem formats space isIn))
    -- There is at most one word behind the name.
    cases known : RedisCommand.ofWords (ascii ['s', 'e', 't', 'n', 'x'] ::
        Words.words space formatted) with
    | none => rfl
    | some command =>
      obtain ⟨key, value, two, -⟩ := ofWords_setnx_some known
      rw [Words.words_single free] at two
      split at two <;> cases two

/-- What is read of a value determines it, but for the two characters that are dropped. -/
theorem readStr_ok {value : Bytes} (noNul : 0 ∉ value)
    (read : readStr (some value) = .ok response) :
    value.length = response.length + 2 ∧ ∀ c ∈ response, c ∈ value := by
  -- The string ends where the value does.
  have whole : value.takeWhile (· ≠ 0) = value := by simpa using takeWhile_noNul noNul []
  simp only [readStr, whole] at read
  split at read
  · cases read
  · cases read
    refine ⟨?_, fun c member => List.mem_of_mem_drop (List.dropLast_subset _ member)⟩
    simp only [List.length_dropLast, List.length_drop]
    omega

/-- A quoted response with percent signs is stored with fewer characters. -/
theorem quoted_shrinks {formatted value : Bytes} (noNul : 0 ∉ response) (noSpace : space ∉ response)
    (isIn : percent ∈ response)
    (formats : formatText ((quoted response).takeWhile (· ≠ 0)) = some formatted)
    (single : Words.words space formatted = [value]) : value.length < response.length + 2 := by
  have noNulQuoted : 0 ∉ quoted response := by simp [quoted, ascii, noNul]
  have whole : (quoted response).takeWhile (· ≠ 0) = (ascii ['"'] ++ response) ++ 34 :: [] := by
    have := takeWhile_noNul noNulQuoted []
    rwa [List.append_nil, List.takeWhile_nil, List.append_nil] at this
  rw [whole] at formats
  have free : space ∉ formatted := fun isSpace => by
    have within := formatText_mem formats space isSpace
    simp only [List.mem_append, List.mem_singleton] at within
    rcases within with (mark | inside) | mark
    · exact absurd mark (by decide)
    · exact noSpace inside
    · exact absurd mark (by decide)
  -- The part before the closing quotation mark shrinks.
  obtain ⟨key, -, shorter, later⟩ := formatText_cut (by decide) formats
  have short := shorter (List.mem_append_right _ isIn)
  rw [later] at formats
  cases formats
  rw [Words.words_single free] at single
  split at single
  · cases single
  · cases single
    simp only [List.length_append, ascii, List.length_map, List.length_cons,
      List.length_nil] at short ⊢
    omega

/-- A response that is all in the value made of it, with two more characters, is plain. -/
theorem plain_of_value {formatted value : Bytes}
    (formats : formatText ((quoted response).takeWhile (· ≠ 0)) = some formatted)
    (single : Words.words space formatted = [value]) (within : ∀ c ∈ response, c ∈ value)
    (long : response.length + 2 ≤ value.length) : Plain response := by
  -- The value is a word that was formatted from the string of a command.
  have isWord : value ∈ Words.words space formatted := by
    rw [single]
    exact List.mem_cons_self
  have noSpace : space ∉ response := fun isIn => (Words.mem_words isWord).1 (within space isIn)
  have noNul : 0 ∉ response := fun isIn => by
    have inside := formatText_mem formats 0 ((Words.mem_words isWord).2 0 (within 0 isIn))
    simpa using List.mem_takeWhile_imp inside
  have noPercent : percent ∉ response := fun isIn =>
    Nat.not_lt.mpr long (quoted_shrinks noNul noSpace isIn formats single)
  exact plain_of_notMem noNul noSpace noPercent

end Formatting

/-- For a url that a request may have, a response that is written is read again, for every library
that formats its commands, exactly if neither the url nor the response holds a NUL, a space or a
percent sign. -/
theorem redis_roundTrip_iff {url : Bytes} (named : url ≠ []) (noSpace : space ∉ url)
    (response : Bytes) :
    (∀ library : RedisLibrary, library.Formats → RoundTrips library url response) ↔
      Plain url ∧ Plain response := by
  constructor
  · intro all
    have trips := all formattingLibrary formats_formattingLibrary
    have separates := formats_formattingLibrary.separates
    -- From every library, the concrete one is taken.
    -- On an empty server, the update must have taken place.
    have taken : RedisCommand.ofWords (formattingLibrary.words
        (ascii ['s', 'e', 't', 'n', 'x', ' '] ++ url ++ ascii [' ', '"'] ++ response ++
          ascii ['"'])) ≠ none := by
      intro refused
      have read := trips 0 (fun _ => none) 0 rfl (Nat.le_refl 0) (Nat.zero_le _)
      rw [updateRedisCache_refused separates refused] at read
      exact readRedisCache_empty 0 url response read
    -- A url with a NUL would have refused it.
    have noNul : 0 ∉ url := fun nul => taken (update_nul noSpace nul)
    obtain ⟨key, value, formatted, shorter, formats, single, setnx, expire, get⟩ :=
      (update_words named noSpace noNul).resolve_left taken
    -- From any server, what is read is what the key has afterwards.
    have read : ∀ store : RedisStore, store.lookup 0 url = none →
        readStr (some ((store.lookup 0 key).getD value)) = .ok response := by
      intro store absent
      have found := trips 0 store 0 absent (Nat.le_refl 0) (Nat.zero_le _)
      have stored := Expiring.Store.offer_own store 0 key value (defaultExpiredTime * 1000)
      rwa [updateRedisCache_offers separates setnx expire, readRedisCache_get get,
        Expiring.Store.lookup_of_deadline stored, if_pos (Nat.zero_le _)] at found
    have noPercent : percent ∉ url := by
      intro isIn
      -- Another url has the same key, and an empty value.
      have differs : url ≠ key := fun same => by
        have := shorter isIn
        rw [same] at this
        omega
      have short := read
        (Function.update (fun _ => none) key (some { value := [], deadline := none }))
        (by simp [Expiring.Store.lookup, Expiring.Store.visible, Function.update_of_ne differs])
      rw [show Expiring.Store.lookup _ 0 key = some [] by
        simp [Expiring.Store.lookup, Expiring.Store.visible, Expiring.Cell.alive]] at short
      cases short
    -- The value is a word of the quoted response.
    have isWord : value ∈ Words.words space formatted := by rw [single]; exact List.mem_cons_self
    have valueNoNul : 0 ∉ value := fun isIn => by
      have within := formatText_mem formats 0 ((Words.mem_words isWord).2 0 isIn)
      simpa using List.mem_takeWhile_imp within
    obtain ⟨length, within⟩ := readStr_ok valueNoNul (read (fun _ => none) rfl)
    exact ⟨plain_of_notMem noNul noSpace noPercent,
      plain_of_value formats single within (Nat.le_of_eq length.symm)⟩
  · rintro ⟨plainUrl, plainResponse⟩ library formats
    exact roundTrips_plain formats.separates named plainUrl plainResponse

/-- A one-letter response to a one-letter url survives. -/
theorem redis_roundTrip_iff_letters : RoundTrips formattingLibrary (ascii ['u']) (ascii ['a']) :=
  -- Letters are plain.
  (redis_roundTrip_iff (by decide : ascii ['u'] ≠ []) (by decide) (ascii ['a'])).mpr
    ⟨plain_ascii (by decide), plain_ascii (by decide)⟩ formattingLibrary formats_formattingLibrary

/-- A response with a space is not stored, and the read then has no string to work on. -/
theorem response_with_space_lost :
    ¬ ∀ (url response : Bytes) (library : RedisLibrary), url ≠ [] → space ∉ url → library.Formats →
      RoundTrips library url response := by
  -- The space cuts the response in two arguments, the command is refused, and nothing is stored.
  intro all
  have read := all (ascii ['u']) (ascii ['O', 'K', ' ', 'O', 'K']) formattingLibrary (by decide)
    (by decide) formats_formattingLibrary 0 (fun _ => none) 0 rfl (Nat.le_refl 0) (Nat.zero_le _)
  exact absurd read (by decide)

end EnhancedProxy

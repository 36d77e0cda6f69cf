import EnhancedProxy.Http.Bytes
import EnhancedProxy.Library.Expiring

/-! The Redis level of the cache: the commands it sends, and the replies it reads. -/

namespace EnhancedProxy

/-- What `hiredis` and the server do with the text they are given. -/
structure RedisLibrary where
  -- The words that `redisCommand` makes of a format string.
  words : Bytes → List Bytes
  -- The text of the reply to a command that the server refuses.
  refusal : List Bytes → Bytes

/-- The percent sign, which begins a directive in a format string. -/
def percent : UInt8 := 37

/-- A text in which `redisCommand` finds nothing to interpret. -/
def Plain (text : Bytes) : Prop := ∀ c ∈ text, c ≠ 0 ∧ c ≠ space ∧ c ≠ percent

/-- Plain words with single spaces between them arrive as they are. -/
def RedisLibrary.Separates (library : RedisLibrary) : Prop :=
  ∀ words, words ≠ [] → (∀ word ∈ words, word ≠ [] ∧ Plain word) →
    library.words ([space].intercalate words) = words

/-- A command that reads or writes a key. -/
inductive KeyCommand
  | setnx (key value : Bytes)
  | expire (key : Bytes) (seconds : Nat)
  | get (key : Bytes)
  deriving DecidableEq, Repr

/-- The commands that the program sends. -/
inductive RedisCommand
  | multi
  | exec
  | onKey (command : KeyCommand)
  deriving DecidableEq, Repr

/-- The command that the server reads from its words, if it knows one. -/
def RedisCommand.ofWords : List Bytes → Option RedisCommand
  | [name] =>
    if name = ascii ['m', 'u', 'l', 't', 'i'] then some .multi
    else if name = ascii ['e', 'x', 'e', 'c'] then some .exec
    else none
  | [name, key] =>
    if name = ascii ['g', 'e', 't'] then some (.onKey (.get key)) else none
  | [name, key, value] =>
    if name = ascii ['s', 'e', 't', 'n', 'x'] then some (.onKey (.setnx key value))
    else if name = ascii ['e', 'x', 'p', 'i', 'r', 'e'] ∧ value ≠ [] ∧ value.all isDigit then
      some (.onKey (.expire key (digitsValue value)))
    else none
  | _ => none

/-- The keys and values of a server. Its clock counts milliseconds. -/
abbrev RedisStore := Expiring.Store Bytes Bytes

/-- Perform a command. The answer is the string of the reply, which is null in any other reply. -/
def KeyCommand.perform (now : Nat) (store : RedisStore) : KeyCommand → RedisStore × Option Bytes
  | .setnx key value => (store.setIfAbsent now key value, none)
  | .expire key seconds => (store.setLifetime now key (seconds * 1000), none)
  | .get key => (store, store.lookup now key)

/-- A connection to the server, with the commands queued since `MULTI` and whether one of them was
refused. -/
structure RedisContext where
  store : RedisStore
  queued : Option (List KeyCommand) := none
  refused : Bool := false

namespace RedisContext

/-- The server answers a command. -/
def answer (library : RedisLibrary) (now : Nat) (conn : RedisContext) (words : List Bytes) :
    RedisContext × Option Bytes :=
  match RedisCommand.ofWords words, conn.queued with
  -- A command refused after `MULTI` makes `EXEC` discard the others.
  | none, _ => ({ conn with refused := true }, some (library.refusal words))
  | some .multi, none => ({ conn with queued := some [], refused := false }, some (ascii ['O', 'K']))
  | some .multi, some _ => (conn, some (library.refusal words))
  | some .exec, none => (conn, some (library.refusal words))
  | some .exec, some commands =>
    if conn.refused then ({ store := conn.store }, some (library.refusal words))
    else ({ store := commands.foldl (fun store command => (command.perform now store).1) conn.store },
      none)
  | some (.onKey command), none =>
    let (store, reply) := command.perform now conn.store
    ({ conn with store := store }, reply)
  | some (.onKey command), some commands =>
    ({ conn with queued := some (commands ++ [command]) },
      some (ascii ['Q', 'U', 'E', 'U', 'E', 'D']))

/-- `redisCommand` over a connection that does not fail, so that there always is a reply. -/
def redisCommand (library : RedisLibrary) (now : Nat) (conn : RedisContext) (command : Bytes) :
    RedisContext × Option Bytes :=
  conn.answer library now (library.words command)

end RedisContext

/-- `DEFAULT_EXPIRED_TIME`, in seconds. -/
def defaultExpiredTime : Nat := 30

/-- `std::to_string`. -/
def toText (n : Nat) : Bytes := ascii (Nat.toDigits 10 n)

/-- A response as it is stored, between quotation marks. -/
def quoted (response : Bytes) : Bytes := ascii ['"'] ++ response ++ ascii ['"']

/-- The four commands of `atomicUpdate`. -/
def atomicUpdateCommands (url response : Bytes) : List Bytes :=
  [ascii ['m', 'u', 'l', 't', 'i'],
    ascii ['s', 'e', 't', 'n', 'x', ' '] ++ url ++ ascii [' ', '"'] ++ response ++ ascii ['"'],
    ascii ['e', 'x', 'p', 'i', 'r', 'e', ' '] ++ url ++ ascii [' '] ++ toText defaultExpiredTime,
    ascii ['e', 'x', 'e', 'c']]

/-- `atomicUpdate`, which sends one command after the other and ignores what they are answered. -/
def atomicUpdate (library : RedisLibrary) (now : Nat) (conn : RedisContext)
    (url response : Bytes) : RedisContext :=
  (atomicUpdateCommands url response).foldl
    (fun conn command => (conn.redisCommand library now command).1) conn

/-- `updateRedisCache`, over a connection of its own. -/
def updateRedisCache (library : RedisLibrary) (now : Nat) (store : RedisStore)
    (url response : Bytes) : RedisStore :=
  (atomicUpdate library now { store := store } url response).store

/-- What ends a read of the Redis level. -/
inductive RedisFault
  -- `std::string` made of a null pointer.
  | nullString
  -- `begin() + 1` behind `end() - 1`.
  | badRange
  deriving DecidableEq, Repr

/-- `readRedisCache`, over a connection of its own. -/
def readRedisCache (library : RedisLibrary) (now : Nat) (store : RedisStore) (url : Bytes) :
    Except RedisFault Bytes :=
  let conn : RedisContext := { store := store }
  match (conn.redisCommand library now (ascii ['g', 'e', 't', ' '] ++ url)).2 with
  | none => .error .nullString
  | some str =>
    let res := str.takeWhile (· ≠ 0)
    if res.length < 2 then .error .badRange else .ok (res.drop 1).dropLast

/-- The content that a read makes of the string of a reply: what is left of it without its first and
its last character. -/
def readStr (str : Option Bytes) : Except RedisFault Bytes :=
  match str with
  | none => .error .nullString
  | some str =>
    let res := str.takeWhile (· ≠ 0)
    if res.length < 2 then .error .badRange else .ok (res.drop 1).dropLast

/-- A read makes its content of the reply to `GET`. -/
theorem readRedisCache_eq (library : RedisLibrary) (now : Nat) (store : RedisStore) (url : Bytes) :
    readRedisCache library now store url =
      readStr ((({ store := store } : RedisContext).redisCommand library now
        (ascii ['g', 'e', 't', ' '] ++ url)).2) := rfl

variable {library : RedisLibrary} {url response : Bytes}

/-- A stored response is a plain word if the response is. -/
theorem plain_quoted (plain : Plain response) : Plain (quoted response) := by
  -- The two quotation marks are plain characters, and the response between them is plain.
  intro c member
  simp only [quoted, List.mem_append] at member
  rcases member with (mark | inside) | mark
  · rw [List.mem_singleton.mp mark]
    decide
  · exact plain c inside
  · rw [List.mem_singleton.mp mark]
    decide

/-- A stored response is never empty. -/
theorem quoted_ne_nil (response : Bytes) : quoted response ≠ [] := by
  simp [quoted, ascii]

/-- A plain word of the code's own text. -/
theorem plain_ascii {text : List Char}
    (plain : ((ascii text).all fun c => c ≠ 0 ∧ c ≠ space ∧ c ≠ percent) = true) :
    Plain (ascii text) := by
  -- The test of the literal says so byte by byte.
  intro c member
  simpa using List.all_eq_true.mp plain c member

section Words

variable (separates : library.Separates)

include separates

/-- `MULTI` as the server reads it. -/
theorem ofWords_multi :
    RedisCommand.ofWords (library.words (ascii ['m', 'u', 'l', 't', 'i'])) = some .multi := by
  -- The command is a single plain word.
  have words := separates [ascii ['m', 'u', 'l', 't', 'i']] (List.cons_ne_nil _ _) (by
    simp only [List.mem_singleton, forall_eq]
    exact ⟨by decide, plain_ascii (by decide)⟩)
  exact (congrArg RedisCommand.ofWords words).trans rfl

/-- `EXEC` as the server reads it. -/
theorem ofWords_exec :
    RedisCommand.ofWords (library.words (ascii ['e', 'x', 'e', 'c'])) = some .exec := by
  -- As for MULTI.
  have words := separates [ascii ['e', 'x', 'e', 'c']] (List.cons_ne_nil _ _) (by
    simp only [List.mem_singleton, forall_eq]
    exact ⟨by decide, plain_ascii (by decide)⟩)
  exact (congrArg RedisCommand.ofWords words).trans rfl

/-- `SETNX` with plain strings, as the server reads it. -/
theorem ofWords_setnx (named : url ≠ []) (plainUrl : Plain url) (plainResponse : Plain response) :
    RedisCommand.ofWords (library.words (ascii ['s', 'e', 't', 'n', 'x', ' '] ++ url ++
      ascii [' ', '"'] ++ response ++ ascii ['"'])) =
        some (.onKey (.setnx url (quoted response))) := by
  have words := separates [ascii ['s', 'e', 't', 'n', 'x'], url, quoted response]
    (List.cons_ne_nil _ _) (by
      simp only [List.mem_cons, List.not_mem_nil, or_false, forall_eq_or_imp, forall_eq]
      exact ⟨⟨by decide, plain_ascii (by decide)⟩, ⟨named, plainUrl⟩,
        ⟨quoted_ne_nil response, plain_quoted plainResponse⟩⟩)
  -- The words are spelled with a space between them.
  have spelled : ascii ['s', 'e', 't', 'n', 'x', ' '] ++ url ++ ascii [' ', '"'] ++ response ++
      ascii ['"'] = [space].intercalate [ascii ['s', 'e', 't', 'n', 'x'], url, quoted response] := by
    simp [List.intercalate, quoted, ascii, space]
  rw [spelled, words]
  rfl

/-- `EXPIRE` of a plain url, as the server reads it. -/
theorem ofWords_expire (named : url ≠ []) (plainUrl : Plain url) :
    RedisCommand.ofWords (library.words (ascii ['e', 'x', 'p', 'i', 'r', 'e', ' '] ++ url ++
      ascii [' '] ++ toText defaultExpiredTime)) =
        some (.onKey (.expire url defaultExpiredTime)) := by
  -- The command is its three words with spaces between, and the library splits it back.
  have words := separates [ascii ['e', 'x', 'p', 'i', 'r', 'e'], url, toText defaultExpiredTime]
    (List.cons_ne_nil _ _) (by
      simp only [List.mem_cons, List.not_mem_nil, or_false, forall_eq_or_imp, forall_eq]
      exact ⟨⟨by decide, plain_ascii (by decide)⟩, ⟨named, plainUrl⟩,
        ⟨by decide, plain_ascii (by decide)⟩⟩)
  have spelled : ascii ['e', 'x', 'p', 'i', 'r', 'e', ' '] ++ url ++ ascii [' '] ++
      toText defaultExpiredTime = [space].intercalate
        [ascii ['e', 'x', 'p', 'i', 'r', 'e'], url, toText defaultExpiredTime] := by
    simp only [List.append_assoc]
    rfl
  rw [spelled, words]
  rfl

/-- `GET` of a plain url, as the server reads it. -/
theorem ofWords_get (named : url ≠ []) (plainUrl : Plain url) :
    RedisCommand.ofWords (library.words (ascii ['g', 'e', 't', ' '] ++ url)) =
      some (.onKey (.get url)) := by
  -- As for EXPIRE: two words with a space between are split back into the two.
  have words := separates [ascii ['g', 'e', 't'], url] (List.cons_ne_nil _ _) (by
    simp only [List.mem_cons, List.not_mem_nil, or_false, forall_eq_or_imp, forall_eq]
    exact ⟨⟨by decide, plain_ascii (by decide)⟩, ⟨named, plainUrl⟩⟩)
  have spelled : ascii ['g', 'e', 't', ' '] ++ url =
      [space].intercalate [ascii ['g', 'e', 't'], url] := by
    simp [List.intercalate, ascii, space]
  rw [spelled, words]
  rfl

/-- An update whose two commands on keys are read as such performs them at the end. -/
theorem updateRedisCache_offers {key value : Bytes} {seconds : Nat}
    (setnx : RedisCommand.ofWords (library.words (ascii ['s', 'e', 't', 'n', 'x', ' '] ++ url ++
      ascii [' ', '"'] ++ response ++ ascii ['"'])) = some (.onKey (.setnx key value)))
    (expire : RedisCommand.ofWords (library.words (ascii ['e', 'x', 'p', 'i', 'r', 'e', ' '] ++ url ++
      ascii [' '] ++ toText defaultExpiredTime)) = some (.onKey (.expire key seconds)))
    (now : Nat) (store : RedisStore) :
    updateRedisCache library now store url response =
      (store.setIfAbsent now key value).setLifetime now key (seconds * 1000) := by
  -- Both commands are queued, and performed together at the end.
  simp only [updateRedisCache, atomicUpdate, atomicUpdateCommands, List.foldl_cons, List.foldl_nil,
    RedisContext.redisCommand, RedisContext.answer, ofWords_multi separates, setnx, expire,
    ofWords_exec separates]
  rfl

/-- An update with plain strings offers the quoted response to the server for thirty seconds. -/
theorem updateRedisCache_plain (named : url ≠ []) (plainUrl : Plain url)
    (plainResponse : Plain response) (now : Nat) (store : RedisStore) :
    updateRedisCache library now store url response =
      (store.setIfAbsent now url (quoted response)).setLifetime now url
        (defaultExpiredTime * 1000) :=
  -- Both commands are read by the server as they were meant.
  updateRedisCache_offers separates (ofWords_setnx separates named plainUrl plainResponse)
    (ofWords_expire separates named plainUrl) now store

/-- What a read of a plain url finds. -/
theorem readRedisCache_plain (named : url ≠ []) (plainUrl : Plain url) (now : Nat)
    (store : RedisStore) :
    readRedisCache library now store url =
      match store.lookup now url with
      | none => .error .nullString
      | some str =>
        if (str.takeWhile (· ≠ 0)).length < 2 then .error .badRange
        else .ok ((str.takeWhile (· ≠ 0)).drop 1).dropLast := by
  -- The command is read as the GET of the url, which performs the lookup.
  simp only [readRedisCache, RedisContext.redisCommand, RedisContext.answer,
    ofWords_get separates named plainUrl, KeyCommand.perform]

/-- A stored plain response is read without its quotation marks. -/
theorem readRedisCache_quoted (named : url ≠ []) (plainUrl : Plain url)
    (plainResponse : Plain response) {now : Nat} {store : RedisStore}
    (found : store.lookup now url = some (quoted response)) :
    readRedisCache library now store url = .ok response := by
  -- The quoted response holds no NUL.
  have whole : (quoted response).takeWhile (· ≠ 0) = quoted response := by
    refine List.takeWhile_eq_self_iff.mpr fun c member => ?_
    simpa using (plain_quoted plainResponse c member).1
  rw [readRedisCache_plain separates named plainUrl, found]
  simp only [whole]
  simp [quoted, ascii]

end Words

/-- A library that divides a command at its spaces. -/
def splittingLibrary : RedisLibrary where
  words := fun text => text.splitOn space
  refusal := fun _ => ascii ['E', 'R', 'R']

/-- Words without spaces are recovered from between the spaces. -/
theorem separates_splittingLibrary : splittingLibrary.Separates := by
  -- No plain word has a space in it, so the text is split where the words were joined.
  intro words some_ plain
  refine List.splitOn_intercalate space (fun word member hasSpace => ?_) some_
  exact ((plain word member).2 space hasSpace).2.1 rfl

end EnhancedProxy

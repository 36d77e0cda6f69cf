import EnhancedProxy.Cache.RedisFormat

/-! An update of the Redis level over a connection that may fail, and what it reports. -/

namespace EnhancedProxy

/-- What becomes of a command: the server serves it or answers with an error, or the connection
fails before. -/
inductive CommandFate
  | served
  | refused
  | lost
  deriving DecidableEq, Repr

/-- Whether `Connect` gives a context, and what becomes of each command of an update. -/
structure UpdateFates where
  connects : Bool
  auth : CommandFate
  multi : CommandFate
  setnx : CommandFate
  expire : CommandFate
  exec : CommandFate
  deriving DecidableEq, Repr

namespace RedisCache

/-- `commandWrapper`, false for a null reply. A connection that fails loses what was queued. -/
def commandWrapper (library : RedisLibrary) (now : Nat) (conn : RedisContext) (fate : CommandFate)
    (command : Bytes) : RedisContext × Bool :=
  -- Without a command to send, `redisCommand` returns a null reply.
  if library.words command = [] then ({ store := conn.store }, false)
  else
    match fate with
    | .served => ((conn.redisCommand library now command).1, true)
    | .refused => ({ conn with refused := true }, true)
    | .lost => ({ store := conn.store }, false)

/-- The commands of `&&`, of which those after a null reply are not sent. -/
def commandsWhile (library : RedisLibrary) (now : Nat) (conn : RedisContext) :
    List (CommandFate × Bytes) → RedisContext × Bool
  | [] => (conn, true)
  | (fate, command) :: rest =>
    let (conn, replied) := commandWrapper library now conn fate command
    if replied then commandsWhile library now conn rest else (conn, false)

/-- `command2` of `atomicUpdate`. -/
def command2 (url response : Bytes) : Bytes :=
  ascii ['s', 'e', 't', 'n', 'x', ' '] ++ url ++ ascii [' ', '"'] ++ response ++ ascii ['"']

/-- `command3` of `atomicUpdate`. -/
def command3 (url : Bytes) : Bytes :=
  ascii ['e', 'x', 'p', 'i', 'r', 'e', ' '] ++ url ++ ascii [' '] ++ toText defaultExpiredTime

/-- The url and the response have no directive that lacks its argument, as far as the string of the
command goes. -/
def Formattable (url response : Bytes) : Prop :=
  (formatText ((command2 url response).takeWhile (· ≠ 0))).isSome

instance (url response : Bytes) : Decidable (Formattable url response) :=
  inferInstanceAs (Decidable (_ = true))

/-- `atomicUpdate`. -/
def atomicUpdate (library : RedisLibrary) (now : Nat) (conn : RedisContext)
    (url response : Bytes) (fates : UpdateFates) : RedisContext × Bool :=
  commandsWhile library now conn
    [(fates.multi, ascii ['m', 'u', 'l', 't', 'i']), (fates.setnx, command2 url response),
      (fates.expire, command3 url), (fates.exec, ascii ['e', 'x', 'e', 'c'])]

/-- `updateRedisCache`, with the string it returns. -/
def updateRedisCache (library : RedisLibrary) (now : Nat) (store : RedisStore)
    (url response : Bytes) (fates : UpdateFates) : RedisStore × Bytes :=
  if !fates.connects then (store, [])
  -- `getAuth` is true for an error reply.
  else if fates.auth = .lost then (store, [])
  else
    let (conn, updated) := atomicUpdate library now { store := store } url response fates
    (conn.store, if updated then ascii ['O', 'K'] else ascii ['F', 'A', 'I', 'L'])

/-- The key has this response, to be kept for the expiry time. -/
def Stored (now : Nat) (store : RedisStore) (url response : Bytes) : Prop :=
  store.visible now url =
    some { value := quoted response, deadline := some (now + defaultExpiredTime * 1000) }

instance (now : Nat) (store : RedisStore) (url response : Bytes) :
    Decidable (Stored now store url response) := inferInstanceAs (Decidable (_ = _))

/-- The update reports `OK` exactly if the response is stored, and otherwise has changed nothing
about the key. -/
def Truthful (now : Nat) (store : RedisStore) (url response : Bytes)
    (after : RedisStore × Bytes) : Prop :=
  (after.2 = ascii ['O', 'K'] ↔ Stored now after.1 url response) ∧
    (after.2 ≠ ascii ['O', 'K'] → after.1.visible now url = store.visible now url)

end RedisCache

/-- What becomes of a command in view of the words that are made of it: without words it is not
sent, and words that are no command are refused. -/
def RedisLibrary.fate (library : RedisLibrary) (fate : CommandFate) (command : Bytes) :
    CommandFate :=
  if library.words command = [] then .lost
  else if RedisCommand.ofWords (library.words command) = none ∧ fate = .served then .refused
  else fate

/-- A text that is a word of its own, as `redisCommand` reads it. -/
def PlainWord (text : Bytes) : Prop := text ≠ [] ∧ Plain text

instance (text : Bytes) : Decidable (Plain text) :=
  inferInstanceAs (Decidable (∀ c ∈ text, c ≠ 0 ∧ c ≠ space ∧ c ≠ percent))
instance (text : Bytes) : Decidable (PlainWord text) := inferInstanceAs (Decidable (_ ∧ _))

namespace UpdateFates

/-- The connection does not fail, and nothing is refused. -/
def allServed : UpdateFates := ⟨true, .served, .served, .served, .served, .served⟩

/-- What becomes of each command in view of its words. -/
def sent (fates : UpdateFates) (library : RedisLibrary) (url response : Bytes) : UpdateFates :=
  { fates with
    multi := library.fate fates.multi (ascii ['m', 'u', 'l', 't', 'i'])
    setnx := library.fate fates.setnx (RedisCache.command2 url response)
    expire := library.fate fates.expire (RedisCache.command3 url)
    exec := library.fate fates.exec (ascii ['e', 'x', 'e', 'c']) }

/-- Every command has a reply. -/
def Replied (fates : UpdateFates) : Prop :=
  fates.connects = true ∧ fates.auth ≠ .lost ∧ fates.multi ≠ .lost ∧ fates.setnx ≠ .lost ∧
    fates.expire ≠ .lost ∧ fates.exec ≠ .lost

/-- `EXEC` runs the transaction. -/
def Transaction (fates : UpdateFates) : Prop :=
  fates.connects = true ∧ fates.auth ≠ .lost ∧ fates.multi = .served ∧ fates.setnx = .served ∧
    fates.expire = .served ∧ fates.exec = .served

/-- `MULTI` is refused, and the commands that follow are run at once. -/
def Direct (fates : UpdateFates) : Prop :=
  fates.connects = true ∧ fates.auth ≠ .lost ∧ fates.multi = .refused

/-- `SETNX` is run. -/
def SetnxRuns (fates : UpdateFates) : Prop :=
  fates.Transaction ∨ (fates.Direct ∧ fates.setnx = .served)

/-- `EXPIRE` is run. -/
def ExpireRuns (fates : UpdateFates) : Prop :=
  fates.Transaction ∨ (fates.Direct ∧ fates.setnx ≠ .lost ∧ fates.expire = .served)

instance (fates : UpdateFates) : Decidable fates.Replied := inferInstanceAs (Decidable (_ ∧ _))
instance (fates : UpdateFates) : Decidable fates.Transaction := inferInstanceAs (Decidable (_ ∧ _))
instance (fates : UpdateFates) : Decidable fates.Direct := inferInstanceAs (Decidable (_ ∧ _))
instance (fates : UpdateFates) : Decidable fates.SetnxRuns := inferInstanceAs (Decidable (_ ∨ _))
instance (fates : UpdateFates) : Decidable fates.ExpireRuns := inferInstanceAs (Decidable (_ ∨ _))

/-- `SETNX` is run, on the key with the name of the url. -/
def SetsKey (fates : UpdateFates) (url : Bytes) : Prop := PlainWord url ∧ fates.SetnxRuns

/-- `EXPIRE` is run, on the key with the name of the url. -/
def ExpiresKey (fates : UpdateFates) (url : Bytes) : Prop := PlainWord url ∧ fates.ExpireRuns

instance (fates : UpdateFates) (url : Bytes) : Decidable (fates.SetsKey url) :=
  inferInstanceAs (Decidable (_ ∧ _))
instance (fates : UpdateFates) (url : Bytes) : Decidable (fates.ExpiresKey url) :=
  inferInstanceAs (Decidable (_ ∧ _))

variable {fates : UpdateFates}

/-- Only a `SETNX` that is served runs. -/
theorem SetnxRuns.served (runs : fates.SetnxRuns) : fates.setnx = .served := by
  -- Within a transaction or on its own, it has to be served to run.
  rcases runs with ⟨-, -, -, served, -⟩ | ⟨-, served⟩
  · exact served
  · exact served

/-- Only an `EXPIRE` that is served runs. -/
theorem ExpireRuns.served (runs : fates.ExpireRuns) : fates.expire = .served := by
  -- As for SETNX.
  rcases runs with ⟨-, -, -, -, served, -⟩ | ⟨-, -, served⟩
  · exact served
  · exact served

end UpdateFates

namespace RedisCache

variable {library : RedisLibrary} {now : Nat} {store : RedisStore} {url response : Bytes}
  {fates : UpdateFates}

/-- A command does what becomes of it in view of its words. -/
theorem commandWrapper_fate (conn : RedisContext) (fate : CommandFate) (command : Bytes) :
    commandWrapper library now conn fate command =
      match library.fate fate command with
      | .served => ((conn.redisCommand library now command).1, true)
      | .refused => ({ conn with refused := true }, true)
      | .lost => ({ store := conn.store }, false) := by
  -- Whether there are words comes first, and then whether they are a command.
  simp only [commandWrapper, RedisLibrary.fate]
  by_cases nothing : library.words command = []
  · simp only [if_pos nothing]
  · simp only [if_neg nothing]
    cases known : RedisCommand.ofWords (library.words command) with
    | none =>
      -- The server has the same answer for words that are no command.
      cases fate <;> simp [RedisContext.redisCommand, RedisContext.answer, known]
    | some read => cases fate <;> simp

/-- All commands have had their replies. -/
@[simp] theorem commandsWhile_nil (conn : RedisContext) :
    commandsWhile library now conn [] = (conn, true) := rfl

/-- A null reply ends the commands. -/
theorem commandsWhile_lost {conn : RedisContext} {fate : CommandFate} {command : Bytes}
    {rest : List (CommandFate × Bytes)} (lost : library.fate fate command = .lost) :
    commandsWhile library now conn ((fate, command) :: rest) =
      ({ store := conn.store }, false) := by
  simp [commandsWhile, commandWrapper_fate, lost]

/-- After an error reply, the next command follows. -/
theorem commandsWhile_refused {conn : RedisContext} {fate : CommandFate} {command : Bytes}
    {rest : List (CommandFate × Bytes)} (refused : library.fate fate command = .refused) :
    commandsWhile library now conn ((fate, command) :: rest) =
      commandsWhile library now { conn with refused := true } rest := by
  simp [commandsWhile, commandWrapper_fate, refused]

/-- After any other reply, the next command follows as well. -/
theorem commandsWhile_served {conn : RedisContext} {fate : CommandFate} {command : Bytes}
    {rest : List (CommandFate × Bytes)} (served : library.fate fate command = .served) :
    commandsWhile library now conn ((fate, command) :: rest) =
      commandsWhile library now (conn.redisCommand library now command).1 rest := by
  simp [commandsWhile, commandWrapper_fate, served]

/-- A command that is served is one. -/
theorem fate_served {fate : CommandFate} {command : Bytes}
    (served : library.fate fate command = .served) :
    ∃ read, RedisCommand.ofWords (library.words command) = some read := by
  -- Words that are no command would have been refused.
  simp only [RedisLibrary.fate] at served
  split_ifs at served with nothing unknown
  exact Option.ne_none_iff_exists'.mp fun none_ => unknown ⟨none_, served⟩

/-- The keys of the server after the commands that run. -/
def effects (now : Nat) (store : RedisStore) (setnx expire : KeyCommand) (fates : UpdateFates) :
    RedisStore :=
  let set := if fates.SetnxRuns then (setnx.perform now store).1 else store
  if fates.ExpireRuns then (expire.perform now set).1 else set

section Update

variable {setnx expire : KeyCommand} {expireFate execFate : CommandFate} {command : Bytes}

/-- `EXEC` performs what was queued, unless a command was refused. -/
theorem exec_run (separates : library.Separates) (conn : RedisContext) :
    (commandsWhile library now conn [(execFate, ascii ['e', 'x', 'e', 'c'])]).1.store =
        (if library.fate execFate (ascii ['e', 'x', 'e', 'c']) = .served ∧ conn.refused = false then
          (conn.queued.getD []).foldl (fun store command => (command.perform now store).1)
            conn.store
        else conn.store) ∧
      ((commandsWhile library now conn [(execFate, ascii ['e', 'x', 'e', 'c'])]).2 = true ↔
        library.fate execFate (ascii ['e', 'x', 'e', 'c']) ≠ .lost) := by
  -- The fate of `EXEC` decides whether the server sees it.
  cases last : library.fate execFate (ascii ['e', 'x', 'e', 'c']) with
  | lost => simp [commandsWhile_lost last]
  | refused => simp [commandsWhile_refused last]
  | served =>
    rw [commandsWhile_served last]
    simp only [RedisContext.redisCommand, RedisContext.answer, ofWords_exec separates]
    -- Without a transaction, there is nothing to perform.
    cases conn.queued with
    | none => simp
    | some queue => cases conn.refused <;> simp

/-- `EXPIRE` and `EXEC` in a transaction: what was queued is performed if both are served and
nothing was refused. -/
theorem expireExec_queued (separates : library.Separates)
    (readExpire : library.fate expireFate command = .served →
      RedisCommand.ofWords (library.words command) = some (.onKey expire))
    (queue : List KeyCommand) (refused : Bool) :
    let done := commandsWhile library now
      { store := store, queued := some queue, refused := refused }
      [(expireFate, command), (execFate, ascii ['e', 'x', 'e', 'c'])]
    done.1.store =
        (if refused = false ∧ library.fate expireFate command = .served ∧
            library.fate execFate (ascii ['e', 'x', 'e', 'c']) = .served then
          (queue ++ [expire]).foldl (fun store command => (command.perform now store).1) store
        else store) ∧
      (done.2 = true ↔ library.fate expireFate command ≠ .lost ∧
        library.fate execFate (ascii ['e', 'x', 'e', 'c']) ≠ .lost) := by
  -- The fate of `EXPIRE` decides whether it joins the queue.
  cases second : library.fate expireFate command with
  | lost => simp [commandsWhile_lost second]
  | refused => simp [commandsWhile_refused second, exec_run separates]
  | served =>
    rw [commandsWhile_served second]
    simp only [RedisContext.redisCommand, RedisContext.answer, readExpire second]
    cases refused <;> simp [exec_run separates]

/-- `EXPIRE` and `EXEC` without a transaction: the first is performed if it is served. -/
theorem expireExec_direct (separates : library.Separates)
    (readExpire : library.fate expireFate command = .served →
      RedisCommand.ofWords (library.words command) = some (.onKey expire)) (refused : Bool) :
    let done := commandsWhile library now { store := store, refused := refused }
      [(expireFate, command), (execFate, ascii ['e', 'x', 'e', 'c'])]
    done.1.store =
        (if library.fate expireFate command = .served then (expire.perform now store).1
        else store) ∧
      (done.2 = true ↔ library.fate expireFate command ≠ .lost ∧
        library.fate execFate (ascii ['e', 'x', 'e', 'c']) ≠ .lost) := by
  -- There is nothing for `EXEC` to perform.
  cases second : library.fate expireFate command with
  | lost => simp [commandsWhile_lost second]
  | refused => simp [commandsWhile_refused second, exec_run separates]
  | served =>
    rw [commandsWhile_served second]
    simp only [RedisContext.redisCommand, RedisContext.answer, readExpire second]
    simp [exec_run separates]

variable (separates : library.Separates)
  (readSetnx : (fates.sent library url response).setnx = .served →
    RedisCommand.ofWords (library.words (command2 url response)) = some (.onKey setnx))
  (readExpire : (fates.sent library url response).expire = .served →
    RedisCommand.ofWords (library.words (command3 url)) = some (.onKey expire))

include separates readSetnx readExpire

/-- Behind `AUTH`, the commands run as far as they are served, and are done if all have a reply. -/
theorem atomicUpdate_eq (now : Nat) (store : RedisStore) (connects : fates.connects = true)
    (auth : fates.auth ≠ .lost) :
    (atomicUpdate library now { store := store } url response fates).1.store =
        effects now store setnx expire (fates.sent library url response) ∧
      ((atomicUpdate library now { store := store } url response fates).2 = true ↔
        (fates.sent library url response).Replied) := by
  simp only [atomicUpdate, effects, UpdateFates.SetnxRuns, UpdateFates.ExpireRuns,
    UpdateFates.Transaction, UpdateFates.Direct, UpdateFates.Replied, UpdateFates.sent, connects,
    ne_eq, auth, not_false_eq_true, true_and] at readSetnx readExpire ⊢
  cases multi : library.fate fates.multi (ascii ['m', 'u', 'l', 't', 'i']) with
  | lost => simp [commandsWhile_lost multi]
  | served =>
    -- The commands are queued, and performed together by `EXEC`.
    rw [commandsWhile_served multi]
    simp only [RedisContext.redisCommand, RedisContext.answer, ofWords_multi separates]
    cases first : library.fate fates.setnx (command2 url response) with
    | lost => simp [commandsWhile_lost first]
    | refused => simp [commandsWhile_refused first, expireExec_queued separates readExpire]
    | served =>
      rw [commandsWhile_served first]
      simp only [RedisContext.redisCommand, RedisContext.answer, readSetnx first]
      by_cases runs : library.fate fates.expire (command3 url) = .served ∧
          library.fate fates.exec (ascii ['e', 'x', 'e', 'c']) = .served
      · simp [expireExec_queued separates readExpire, runs]
      · simp [expireExec_queued separates readExpire, runs]
  | refused =>
    -- The commands are performed at once.
    rw [commandsWhile_refused multi]
    cases first : library.fate fates.setnx (command2 url response) with
    | lost => simp [commandsWhile_lost first]
    | refused => simp [commandsWhile_refused first, expireExec_direct separates readExpire]
    | served =>
      rw [commandsWhile_served first]
      simp only [RedisContext.redisCommand, RedisContext.answer, readSetnx first]
      simp [expireExec_direct separates readExpire]

/-- An update runs its commands, and reports whether every command had a reply. -/
theorem updateRedisCache_eq :
    updateRedisCache library now store url response fates =
      (effects now store setnx expire (fates.sent library url response),
        if (fates.sent library url response).Replied then ascii ['O', 'K']
        else if fates.connects = true ∧ fates.auth ≠ .lost then ascii ['F', 'A', 'I', 'L']
        else []) := by
  by_cases reached : fates.connects = true ∧ fates.auth ≠ .lost
  · obtain ⟨connects, auth⟩ := reached
    obtain ⟨stored, replied⟩ :=
      atomicUpdate_eq separates readSetnx readExpire now store connects auth
    simp only [updateRedisCache, connects, auth, Bool.not_true, Bool.false_eq_true, if_false,
      stored, replied, ne_eq, not_false_eq_true, and_self, if_true]
  · -- No command is sent.
    have nothing : updateRedisCache library now store url response fates = (store, []) := by
      rw [not_and, not_not] at reached
      cases connects : fates.connects with
      | false => simp [updateRedisCache, connects]
      | true => simp [updateRedisCache, connects, reached connects]
    have notReplied : ¬ (fates.sent library url response).Replied := fun replied =>
      reached ⟨replied.1, replied.2.1⟩
    have notSet : ¬ (fates.sent library url response).SetnxRuns := by
      rintro (runs | ⟨runs, -⟩) <;> exact reached ⟨runs.1, runs.2.1⟩
    have notExpired : ¬ (fates.sent library url response).ExpireRuns := by
      rintro (runs | ⟨runs, -⟩) <;> exact reached ⟨runs.1, runs.2.1⟩
    rw [nothing, effects, if_neg notReplied, if_neg reached, if_neg notSet, if_neg notExpired]

end Update

/-- Over a connection that does not fail, an update with commands that can be sent does what the
commands do one after the other. -/
theorem updateRedisCache_served
    (sendable : ∀ command ∈ atomicUpdateCommands url response, library.words command ≠ []) :
    updateRedisCache library now store url response .allServed =
      (EnhancedProxy.updateRedisCache library now store url response, ascii ['O', 'K']) := by
  -- No reply is null, so every command is sent.
  simp only [atomicUpdateCommands, List.mem_cons, List.not_mem_nil, or_false, forall_eq_or_imp,
    forall_eq] at sendable
  obtain ⟨multi, setnx, expire, exec⟩ := sendable
  have sent : library.words (command2 url response) ≠ [] ∧ library.words (command3 url) ≠ [] :=
    ⟨setnx, expire⟩
  simp only [updateRedisCache, atomicUpdate, commandsWhile, commandWrapper, if_neg multi,
    if_neg sent.1, if_neg sent.2, if_neg exec]
  rfl

section Reading

/-- The cell of a key after a `SETNX` of some key. -/
theorem visible_setnx (key value : Bytes) :
    ((KeyCommand.setnx key value).perform now store).1.visible now url =
      if key = url then some ((store.visible now url).getD { value := value, deadline := none })
      else store.visible now url := by
  -- Another key is not touched.
  by_cases same : key = url
  · subst same
    rw [if_pos rfl]
    exact Expiring.Store.visible_setIfAbsent store now key value
  · rw [if_neg same]
    exact congrArg (Option.filter _)
      (Expiring.Store.setIfAbsent_other store now (Ne.symm same) value)

/-- The cell of a key after an `EXPIRE` of some key. -/
theorem visible_expire (key : Bytes) (seconds : Nat) :
    ((KeyCommand.expire key seconds).perform now store).1.visible now url =
      if key = url then
        (store.visible now url).map fun cell =>
          { cell with deadline := some (now + seconds * 1000) }
      else store.visible now url := by
  -- Another key is not touched.
  by_cases same : key = url
  · subst same
    rw [if_pos rfl]
    exact Expiring.Store.visible_setLifetime store now key (seconds * 1000)
  · rw [if_neg same]
    exact congrArg (Option.filter _)
      (Expiring.Store.setLifetime_other store now (Ne.symm same) (seconds * 1000))

/-- A command that names a url is about this very key exactly if the url is a plain word. -/
theorem key_eq_url_iff {name key rest : Bytes} {more : List Bytes} (name_ne : name ≠ [])
    (plain : Plain name)
    (words : formattingLibrary.words (name ++ space :: (url ++ space :: rest)) =
      name :: key :: more) : key = url ↔ PlainWord url := by
  have sent : formattingLibrary.words (name ++ space :: (url ++ space :: rest)) ≠ [] := by
    rw [words]
    exact List.cons_ne_nil _ _
  -- A url without spaces and NULs has just one word for it.
  have spelled (named : url ≠ []) (noSpace : space ∉ url) (noNul : 0 ∉ url) :
      formatText url = some key ∧ (percent ∈ url → key.length < url.length) := by
    obtain ⟨word, formats, shorter, later⟩ := words_url name_ne plain named noSpace noNul sent
    rw [later name rest name_ne plain] at words
    split at words
    · cases words
    · cases words
      exact ⟨formats, shorter⟩
  constructor
  · rintro rfl
    rw [words_command name_ne plain] at words
    cases formats : formatText ((key ++ space :: rest).takeWhile (· ≠ 0)) with
    | none =>
      rw [formats] at words
      cases words
    | some formatted =>
      rw [formats] at words
      -- The key is a word, and shorter than the url if this has percent signs.
      have isWord : key ∈ Words.words space formatted := by
        rw [(List.cons.inj words).2]
        exact List.mem_cons_self
      have named : key ≠ [] := by simpa using (List.mem_filter.mp isWord).2
      have noSpace := (Words.mem_words isWord).1
      have noNul : 0 ∉ key := fun isIn => by
        have within := formatText_mem formats 0 ((Words.mem_words isWord).2 0 isIn)
        simpa using List.mem_takeWhile_imp within
      have noPercent : percent ∉ key := fun isIn =>
        Nat.lt_irrefl _ ((spelled named noSpace noNul).2 isIn)
      exact ⟨named, plain_of_notMem noNul noSpace noPercent⟩
  · rintro ⟨named, plainUrl⟩
    have formats := (spelled named (fun isIn => (plainUrl _ isIn).2.1 rfl)
      fun isIn => (plainUrl _ isIn).1 rfl).1
    rw [formatText_self fun isIn => (plainUrl _ isIn).2.2 rfl, Option.some.injEq] at formats
    exact formats.symm

/-- A value that `SETNX` takes for a plain url is the quoted response exactly if this is plain. -/
theorem value_eq_quoted_iff {value : Bytes} (named : url ≠ []) (plainUrl : Plain url)
    (read : RedisCommand.ofWords (formattingLibrary.words (command2 url response)) =
      some (.onKey (.setnx url value))) : value = quoted response ↔ Plain response := by
  constructor
  · rintro rfl
    have noSpaceUrl : space ∉ url := fun isIn => (plainUrl _ isIn).2.1 rfl
    have noNulUrl : 0 ∉ url := fun isIn => (plainUrl _ isIn).1 rfl
    -- The value is the quoted response, which thus has all its characters.
    have taken : RedisCommand.ofWords (formattingLibrary.words (command2 url response)) ≠ none := by
      rw [read]
      exact Option.some_ne_none _
    obtain ⟨key, value, inner, -, formats, single, readAgain, -⟩ :=
      (update_words named noSpaceUrl noNulUrl).resolve_left taken
    cases (Option.some.inj (readAgain.symm.trans read))
    exact plain_of_value formats single (fun c member => by simp [quoted, member])
      (by simp [quoted, ascii])
  · intro plainResponse
    -- A plain response arrives as it is.
    have separates := formats_formattingLibrary.separates
    have known := ofWords_setnx separates named plainUrl plainResponse
    cases Option.some.inj (known.symm.trans read)
    rfl

/-- `EXPIRE` takes a key and a time. -/
theorem ofWords_expire_some {words : List Bytes} {command : RedisCommand}
    (known : RedisCommand.ofWords (ascii ['e', 'x', 'p', 'i', 'r', 'e'] :: words) = some command) :
    ∃ key time, words = [key, time] ∧ command = .onKey (.expire key (digitsValue time)) := by
  -- The number of words decides, and then the time must be a number.
  rcases words with _ | ⟨key, _ | ⟨time, _ | ⟨more, words⟩⟩⟩
  · cases known
  · cases known
  · rw [RedisCommand.ofWords, if_neg (by decide)] at known
    split at known
    · cases known
      exact ⟨key, time, rfl, rfl⟩
    · cases known
  · cases known

/-- If `SETNX` can be formatted, so can `EXPIRE`. -/
theorem Formattable.expire (formattable : Formattable url response) :
    (formatText ((command3 url).takeWhile (· ≠ 0))).isSome := by
  have setnx : command2 url response = _ := setnx_spelled url response
  have expire : command3 url = _ := expire_spelled url
  rw [Formattable, setnx, formatText_command (plain_ascii (by decide)), Option.isSome_map]
    at formattable
  rw [expire, formatText_command (plain_ascii (by decide)), Option.isSome_map]
  by_cases nul : 0 ∈ url
  · -- Both strings end within the url.
    rwa [takeWhile_nul nul] at formattable ⊢
  · -- The space behind the url is no part of a directive, so the formatting is cut there.
    rw [takeWhile_url nul] at formattable ⊢
    obtain ⟨formatted, whole⟩ := Option.isSome_iff_exists.mp formattable
    obtain ⟨key, -, -, later⟩ := formatText_cut (by decide) whole
    rw [later, Option.isSome_map]
    decide

/-- A url and a response without percent signs have no directives at all. -/
theorem formattable_of_noPercent (noPercentUrl : percent ∉ url) (noPercent : percent ∉ response) :
    Formattable url response := by
  have free : percent ∉ (command2 url response).takeWhile (· ≠ 0) := fun isIn => by
    -- The texts of the program around the two have none either.
    have within := List.takeWhile_subset _ isIn
    simp only [command2, List.mem_append] at within
    rcases within with (((name | inUrl) | mark) | inResponse) | mark
    · exact absurd name (by decide)
    · exact noPercentUrl inUrl
    · exact absurd mark (by decide)
    · exact noPercent inResponse
    · exact absurd mark (by decide)
  rw [Formattable, formatText_self free]
  rfl

variable (formats : library.Formats)

include formats

/-- The words of a command that can be formatted are determined. -/
theorem words_formatting {command : Bytes}
    (formattable : (formatText (command.takeWhile (· ≠ 0))).isSome) :
    library.words command = formattingLibrary.words command := by
  -- Both libraries split the formatted text, and there is one.
  obtain ⟨formatted, whole⟩ := Option.isSome_iff_exists.mp formattable
  rw [formats command formatted whole, formats_formattingLibrary command formatted whole]

variable (formattable : Formattable url response)

include formattable

/-- A `SETNX` that is served has some key and some value. -/
theorem setnx_served : ∃ key value, (fates.sent library url response).setnx = .served →
    RedisCommand.ofWords (library.words (command2 url response)) =
        some (.onKey (.setnx key value)) ∧
      (key = url ↔ PlainWord url) ∧ (key = url → (value = quoted response ↔ Plain response)) := by
  by_cases served : (fates.sent library url response).setnx = .served
  swap
  · exact ⟨[], [], fun isServed => absurd isServed served⟩
  obtain ⟨read, known⟩ := fate_served served
  rw [words_formatting formats formattable] at known ⊢
  -- Words that begin with the name of the command are a key and a value.
  have spelled : command2 url response = _ := setnx_spelled url response
  have plain : Plain (ascii ['s', 'e', 't', 'n', 'x']) := plain_ascii (by decide)
  have words := words_command (by decide) plain (url ++ space :: quoted response)
  rw [← spelled] at words
  split at words
  · rw [words] at known
    cases known
  · rename_i formatted _
    rw [words] at known
    obtain ⟨key, value, two, rfl⟩ := ofWords_setnx_some known
    rw [two] at words
    have aboutUrl := key_eq_url_iff (by decide) plain (spelled ▸ words)
    refine ⟨key, value, fun _ => ⟨by rw [words]; rfl, aboutUrl, ?_⟩⟩
    rintro rfl
    obtain ⟨named, plainUrl⟩ := aboutUrl.mp rfl
    exact value_eq_quoted_iff named plainUrl (by rw [words]; rfl)

/-- An `EXPIRE` that is served has some key and some time. -/
theorem expire_served : ∃ key seconds, (fates.sent library url response).expire = .served →
    RedisCommand.ofWords (library.words (command3 url)) = some (.onKey (.expire key seconds)) ∧
      (key = url ↔ PlainWord url) ∧ (key = url → seconds = defaultExpiredTime) := by
  by_cases served : (fates.sent library url response).expire = .served
  swap
  · exact ⟨[], 0, fun isServed => absurd isServed served⟩
  obtain ⟨read, known⟩ := fate_served served
  rw [words_formatting formats formattable.expire] at known ⊢
  -- Words that begin with the name of the command are a key and a time.
  have spelled : command3 url = _ := expire_spelled url
  have plain : Plain (ascii ['e', 'x', 'p', 'i', 'r', 'e']) := plain_ascii (by decide)
  have words := words_command (by decide) plain (url ++ space :: toText defaultExpiredTime)
  rw [← spelled] at words
  split at words
  · rw [words] at known
    cases known
  · rename_i formatted _
    rw [words] at known
    obtain ⟨key, time, two, rfl⟩ := ofWords_expire_some known
    have reads := known
    rw [two] at words reads
    have aboutUrl := key_eq_url_iff (by decide) plain (spelled ▸ words)
    refine ⟨key, digitsValue time, fun _ => ⟨by rw [words, reads], aboutUrl, ?_⟩⟩
    rintro rfl
    obtain ⟨named, plainUrl⟩ := aboutUrl.mp rfl
    -- For the url itself, the time is the one that was written.
    have read := ofWords_expire formats_formattingLibrary.separates named plainUrl
    have same : RedisCommand.ofWords (formattingLibrary.words (command3 key)) = _ := read
    rw [words, reads] at same
    simpa using same

/-- What an update reports, and the cell of the key after it. -/
theorem updateRedisCache_key (now : Nat) (store : RedisStore) :
    ((updateRedisCache library now store url response fates).2 = ascii ['O', 'K'] ↔
      (fates.sent library url response).Replied) ∧
    ∃ value, ((fates.sent library url response).SetsKey url →
        (value = quoted response ↔ Plain response)) ∧
      (updateRedisCache library now store url response fates).1.visible now url =
        let set := if (fates.sent library url response).SetsKey url then
            some ((store.visible now url).getD { value := value, deadline := none })
          else store.visible now url
        if (fates.sent library url response).ExpiresKey url then
          set.map fun cell => { cell with deadline := some (now + defaultExpiredTime * 1000) }
        else set := by
  obtain ⟨key, value, setnx⟩ := @setnx_served library url response fates formats formattable
  obtain ⟨expireKey, seconds, expire⟩ := @expire_served library url response fates formats formattable
  rw [updateRedisCache_eq formats.separates (fun served => (setnx served).1)
    fun served => (expire served).1]
  refine ⟨?_, value, fun sets => ?_, ?_⟩
  · -- The other two answers are different.
    by_cases replied : (fates.sent library url response).Replied
    · simp [replied]
    · rw [if_neg replied]
      simp only [replied, iff_false]
      split <;> decide
  · obtain ⟨-, aboutUrl, aboutValue⟩ := setnx sets.2.served
    exact aboutValue (aboutUrl.mpr sets.1)
  · -- First `SETNX`, and then `EXPIRE`.
    have set : (if (fates.sent library url response).SetnxRuns then
        ((KeyCommand.setnx key value).perform now store).1 else store).visible now url =
          if (fates.sent library url response).SetsKey url then
            some ((store.visible now url).getD { value := value, deadline := none })
          else store.visible now url := by
      by_cases runs : (fates.sent library url response).SetnxRuns
      · rw [if_pos runs, visible_setnx]
        simp only [(setnx runs.served).2.1, UpdateFates.SetsKey, runs, and_true]
      · rw [if_neg runs, if_neg fun sets => runs sets.2]
    dsimp only
    rw [← set, effects]
    by_cases runs : (fates.sent library url response).ExpireRuns
    · obtain ⟨-, aboutUrl, time⟩ := expire runs.served
      rw [if_pos runs, visible_expire]
      simp only [aboutUrl, UpdateFates.ExpiresKey, runs, and_true]
      by_cases isUrl : PlainWord url
      · rw [if_pos isUrl, if_pos isUrl, time (aboutUrl.mpr isUrl)]
      · rw [if_neg isUrl, if_neg isUrl]
    · have kept : ¬ (fates.sent library url response).ExpiresKey url := fun expires =>
        runs expires.2
      rw [if_neg runs, if_neg kept]

end Reading

/-- An update that can be formatted and whose commands all have a reply is truthful exactly if an
absent key gets both a plain response and its lifetime, or the key has this very response and gets
or has that lifetime. One with a null reply is truthful exactly if the key was not stored already,
and the commands that were run did not change it. -/
theorem update_truthful_iff {library : RedisLibrary} (formats : library.Formats)
    {url response : Bytes} (formattable : Formattable url response) (now : Nat) (store : RedisStore)
    (fates : UpdateFates) :
    Truthful now store url response (updateRedisCache library now store url response fates) ↔
      ((fates.sent library url response).Replied →
        (store.visible now url = none ∧ Plain response ∧
          (fates.sent library url response).SetsKey url ∧
          (fates.sent library url response).ExpiresKey url) ∨
        ∃ cell, store.visible now url = some cell ∧ cell.value = quoted response ∧
          ((fates.sent library url response).ExpiresKey url ∨
            cell.deadline = some (now + defaultExpiredTime * 1000))) ∧
      (¬ (fates.sent library url response).Replied →
        ¬ Stored now store url response ∧
        ((fates.sent library url response).SetsKey url → (store.visible now url).isSome) ∧
        ((fates.sent library url response).ExpiresKey url →
          ∀ cell, store.visible now url = some cell →
            cell.deadline = some (now + defaultExpiredTime * 1000))) := by
  obtain ⟨ok, value, valueIs, after⟩ :=
    @updateRedisCache_key library url response fates formats formattable now store
  simp only [Truthful, Stored, ne_eq, ok, after]
  generalize store.visible now url = before
  generalize fates.sent library url response = sent at *
  clear ok after
  by_cases replied : sent.Replied
  · -- The answer is `OK`, so the key must have been stored.
    simp only [replied, true_iff, not_true_eq_false, false_implies, and_true, true_implies]
    by_cases sets : sent.SetsKey url <;> by_cases expires : sent.ExpiresKey url <;>
      rcases before with _ | ⟨content, deadline⟩ <;> simp_all
  · -- The answer is another one, so the key must be as before, and not stored.
    simp only [replied, false_iff, not_false_eq_true, true_implies, false_implies, true_and]
    by_cases sets : sent.SetsKey url <;> by_cases expires : sent.ExpiresKey url <;>
      rcases before with _ | ⟨content, deadline⟩ <;> simp_all
    -- Only the deadline of a present key can change.
    all_goals
      constructor
      · rintro ⟨other, rfl⟩
        exact ⟨fun same => absurd same other, rfl⟩
      · rintro ⟨notStored, rfl⟩
        exact ⟨fun same => notStored same rfl, rfl⟩

/-- A key that is absent is stored, and reported as such. -/
theorem update_truthful_iff_absent :
    Truthful 0 (fun _ => none) (ascii ['u']) (ascii ['a'])
      (updateRedisCache formattingLibrary 0 (fun _ => none) (ascii ['u']) (ascii ['a'])
        .allServed) := by
  -- Nothing is stored under the url and all commands are served, so the SETNX takes effect.
  have replied : (UpdateFates.allServed.sent formattingLibrary (ascii ['u'])
    (ascii ['a'])).Replied := by decide
  have run : (UpdateFates.allServed.sent formattingLibrary (ascii ['u'])
    (ascii ['a'])).Transaction := by decide
  have named : PlainWord (ascii ['u']) := ⟨by decide, plain_ascii (by decide)⟩
  exact (update_truthful_iff formats_formattingLibrary
    (formattable_of_noPercent (by decide) (by decide)) 0 _ _).mpr
      ⟨fun _ => .inl ⟨rfl, plain_ascii (by decide), ⟨named, .inl run⟩, ⟨named, .inl run⟩⟩,
        fun lost => absurd replied lost⟩

/-- A key that has another response is reported as updated. -/
theorem other_response_reported_ok :
    ¬ ∀ (library : RedisLibrary) (now : Nat) (store : RedisStore) (url response : Bytes)
      (fates : UpdateFates), library.Formats →
      Truthful now store url response (updateRedisCache library now store url response fates) := by
  -- The key holds another response: SETNX keeps it, and the update answers OK all the same.
  intro all
  have truthful := all formattingLibrary 0
    (Function.update (fun _ => none) (ascii ['u'])
      (some { value := quoted (ascii ['a']), deadline := none }))
    (ascii ['u']) (ascii ['b']) .allServed formats_formattingLibrary
  exact absurd (truthful.1.mp (by decide)) (by decide)

end RedisCache

end EnhancedProxy

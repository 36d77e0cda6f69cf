import EnhancedProxy.Cache.CacheSystem

/-! Where the responses come from that the caches of all processes return. -/

namespace EnhancedProxy

/-- Every content in an `Lru` was written for its url. -/
def Lru.Holds (lru : Lru) (writes : List (Bytes × Bytes)) : Prop :=
  ∀ url content, lru.find url = some content → (url, content) ∈ writes

/-- Every content in a memory cache was written for its url. -/
structure MemoryWritten (memory : MemoryCache) (writes : List (Bytes × Bytes)) : Prop where
  sound : Sound memory
  faultless : memory.fault = none
  holds : ∀ k < memory.lruCount, (memory.lrus k).Holds writes
  named : ∀ reading ∈ memory.readings, PlainWord reading.url

/-- A get returns nothing or what the `Lru` holds, which holds no more than before. -/
theorem WellFormed.get_any {lru : Lru} (formed : WellFormed lru) (now : Int) (url : Bytes) :
    ∃ content next, lru.get now url = .ok (content, next) ∧ WellFormed next ∧
      (∀ other held, next.find other = some held → lru.find other = some held) ∧
      (content ≠ [] → lru.find url = some content) := by
  by_cases expires : lru.Expires now url
  · -- The entry is too old, and goes.
    obtain ⟨next, returned, becomes⟩ := formed.get_expired expires
    refine ⟨[], next, returned, becomes.formed, fun other held found => ?_, fun some_ =>
      absurd rfl some_⟩
    rw [becomes.find_others formed] at found
    by_cases same : other = url
    · simp [same] at found
    · rwa [Function.update_of_ne same] at found
  · cases found : lru.find url with
    | none =>
      exact ⟨[], lru, formed.get_miss found now, formed, fun _ _ => id, fun some_ =>
        absurd rfl some_⟩
    | some content =>
      obtain ⟨next, returned, becomes⟩ := formed.get_hit found expires
      refine ⟨content, next, returned, becomes.formed, fun other held still => ?_, fun _ => rfl⟩
      -- The hit has moved its entry, and changed no content.
      rwa [becomes.find_touch formed, Function.update_eq_self_iff.mpr found.symm] at still

/-- A put into an `Lru` that has room holds its content besides. -/
theorem Lru.Holds.put {lru next : Lru} {writes : List (Bytes × Bytes)} (holds : lru.Holds writes)
    (formed : WellFormed lru) {url content : Bytes} {putTime : Bytes → Option Nat}
    (becomes : Becomes lru next (Recency.touch url content lru.entries) putTime) :
    next.Holds (writes ++ [(url, content)]) := by
  -- The url put now holds the new write, and every other url what it held before.
  intro other held found
  rw [becomes.find_touch formed] at found
  by_cases same : other = url
  · rw [same, Function.update_self, Option.some.injEq] at found
    rw [same, found]
    exact List.mem_append_right _ List.mem_cons_self
  · rw [Function.update_of_ne same] at found
    exact List.mem_append_left _ (holds other held found)

namespace MemoryWritten

variable {memory : MemoryCache} {writes : List (Bytes × Bytes)}

/-- A new memory cache holds nothing. -/
theorem new (n : Int) (garbage : Nat) : MemoryWritten (MemoryCache.new n garbage) writes where
  -- There is no entry to be found and no reading is held.
  sound := (Isolated.start n garbage).toSound
  faultless := rfl
  holds _ _ _ _ found := by cases found
  named _ member := absurd member List.not_mem_nil

/-- More writes leave what was written. -/
theorem mono (written : MemoryWritten memory writes) {more : List (Bytes × Bytes)}
    (kept : writes ⊆ more) : MemoryWritten memory more :=
  -- The contents held were written before, and still are.
  { written with
    holds := fun k below url content found => kept (written.holds k below url content found) }

/-- An `Lru` may be replaced by one whose contents were written as well. -/
theorem replace (written : MemoryWritten memory writes) (k : Nat) {lru : Lru}
    (formed : WellFormed lru) (holds : lru.Holds writes) :
    MemoryWritten { memory with lrus := Function.update memory.lrus k lru } writes := by
  -- Both parts speak of one object at a time: the replaced one, or one left as it was.
  refine ⟨⟨written.sound.current, fun j made => ?_, written.sound.holds⟩, written.faultless,
    fun j made => ?_, written.named⟩
  · by_cases here : j = k
    · subst here
      simpa using formed
    · simpa [Function.update_of_ne here] using written.sound.formed j made
  · by_cases here : j = k
    · subst here
      simpa using holds
    · simpa [Function.update_of_ne here] using written.holds j made

/-- A read that takes its pointer does not fail. -/
theorem takePointer (written : MemoryWritten memory writes) {url : Bytes} (named : PlainWord url) :
    MemoryWritten (memory.takePointer url) writes := by
  have shared : ({ memory with readings := memory.readings ++
      [{ lru := memory.lruCache, url := url, seen := memory.writes }] } : MemoryCache).useCount
      memory.lruCache ≠ 1 := by
    -- The new pointer is counted.
    simp [MemoryCache.useCount]
  unfold MemoryCache.takePointer
  rw [if_neg shared]
  refine ⟨⟨written.sound.current, written.sound.formed, fun reading member => ?_⟩,
    written.faultless, written.holds, fun reading member => ?_⟩
  · rcases List.mem_append.mp member with old | new
    · exact written.sound.holds reading old
    · rw [List.mem_singleton.mp new]
      exact written.sound.current
  · rcases List.mem_append.mp member with old | new
    · exact written.named reading old
    · rw [List.mem_singleton.mp new]
      exact named

/-- A read does not fail, and returns nothing or what was written. -/
theorem get (written : MemoryWritten memory writes) {j : Nat} {reading : Reading}
    (active : memory.readings[j]? = some reading) (now : Int) :
    ∃ next content, memory.get j now = some next ∧ MemoryWritten next writes ∧
      next.results.getLast?.map (·.content) = some content ∧
      (content ≠ [] → (reading.url, content) ∈ writes) := by
  have member := List.mem_of_getElem? active
  have below := written.sound.holds reading member
  obtain ⟨content, lru, returned, formed, less, hit⟩ :=
    (written.sound.formed reading.lru below).get_any now reading.url
  refine ⟨_, content, by simp only [MemoryCache.get, active, returned]; rfl, ?_, by simp,
    fun some_ => written.holds reading.lru below reading.url content (hit some_)⟩
  -- The call is on the object of the reader, which holds no more than before.
  have replaced := written.replace reading.lru formed fun other held found =>
    written.holds reading.lru below other held (less other held found)
  refine ⟨⟨replaced.sound.current, replaced.sound.formed, fun other remaining => ?_⟩,
    replaced.faultless, replaced.holds, fun other remaining => ?_⟩
  · exact replaced.sound.holds other (List.mem_of_mem_eraseIdx remaining)
  · exact replaced.named other (List.mem_of_mem_eraseIdx remaining)

/-- The current `Lru` after `unshare` is like the one before, and no other one has changed. -/
theorem unshare (written : MemoryWritten memory writes) (clock : Nat → Int) :
    MemoryWritten (memory.unshare clock) writes ∧
      (memory.unshare clock).useCount (memory.unshare clock).lruCache = 1 ∧
      ∀ url, ((memory.unshare clock).lrus (memory.unshare clock).lruCache).Evicts url ↔
        (memory.lrus memory.lruCache).Evicts url := by
  obtain ⟨sound, free, entries, maxSize, readings, older⟩ := written.sound.unshare clock
  have formed := written.sound.formed _ written.sound.current
  have formedAfter := sound.formed _ sound.current
  refine ⟨⟨sound, (unshare_records memory clock).1.trans written.faultless, fun k made => ?_,
    readings ▸ written.named⟩, (useCount_eq_one_iff _).mpr free,
    fun url => formed.evicts_congr formedAfter entries maxSize url⟩
  by_cases current : k = (memory.unshare clock).lruCache
  · rw [current, Lru.Holds, formed.find_congr formedAfter entries]
    exact written.holds _ written.sound.current
  · -- Only the copy has been made, if there is one.
    have before : k < memory.lruCount := by
      unfold MemoryCache.unshare at made current
      split at made
      · exact made
      · rename_i shared
        rw [if_neg shared] at current
        have made : k < memory.lruCount + 1 := made
        have current : k ≠ memory.lruCount := current
        omega
    rw [older k before]
    exact written.holds k before

/-- A write fails exactly if its put enters the eviction loop. -/
theorem writeCache (written : MemoryWritten memory writes) (url response : Bytes)
    (clock : Nat → Int) (now : Int) :
    ((memory.lrus memory.lruCache).Evicts url ∧
        (memory.writeCache url response clock now).fault = some (.lru .emptyList)) ∨
      (¬ (memory.lrus memory.lruCache).Evicts url ∧
        MemoryWritten (memory.writeCache url response clock now)
          (writes ++ [(url, response)])) := by
  obtain ⟨unshared, unique, evicts⟩ := written.unshare clock
  unfold MemoryCache.writeCache
  rw [← evicts]
  dsimp only
  generalize memory.unshare clock = after at *
  have formed := unshared.sound.formed _ unshared.sound.current
  simp only [unique, ne_eq, not_true_eq_false, if_false]
  by_cases full : (after.lrus after.lruCache).Evicts url
  · -- The oldest entries are erased until none is left.
    refine .inl ⟨full, ?_⟩
    have failed := put_absent full.1 now response
    rw [if_pos full.2] at failed
    simp only [failed]
  · refine .inr ⟨full, ?_⟩
    obtain ⟨lru, returned, becomes⟩ := formed.put full now response
    simp only [returned]
    -- The write is recorded before the `Lru` holds it.
    have recorded := unshared.mono (List.subset_append_left writes [(url, response)])
    have holds := (unshared.holds _ unshared.sound.current).put formed becomes
    have replaced := recorded.replace after.lruCache becomes.formed holds
    exact ⟨⟨replaced.sound.current, replaced.sound.formed, replaced.sound.holds⟩,
      replaced.faultless, replaced.holds, replaced.named⟩

end MemoryWritten

/-- Every value on the server is a response that was written for its key. -/
def StoreWritten (store : RedisStore) (writes : List (Bytes × Bytes)) : Prop :=
  ∀ url cell, store url = some cell →
    ∃ response, cell.value = quoted response ∧ Plain response ∧ (url, response) ∈ writes

/-- A command that gives no key a value, except the url its response. -/
def KeyCommand.Concerns (url response : Bytes) : KeyCommand → Prop
  | .setnx key value => key = url ∧ value = quoted response
  | .expire _ _ => True
  | .get _ => True

/-- A call that sends the commands for a response that was written. -/
structure CallWritten (call : RedisCall) (writes : List (Bytes × Bytes)) : Prop where
  written : (call.url, call.response) ∈ writes
  named : PlainWord call.url
  plain : Plain call.response
  queued : ∀ commands, call.queued = some commands →
    ∀ command ∈ commands, command.Concerns call.url call.response
  unsent : ∀ commands, call.unsent = some commands →
    ∀ command ∈ commands, command ∈ atomicUpdateCommands call.url call.response

namespace StoreWritten

variable {library : RedisLibrary} {now : Nat} {store : RedisStore}
  {writes : List (Bytes × Bytes)} {url response : Bytes}

/-- A command of a call leaves no key with another value. -/
theorem perform (holds : StoreWritten store writes) (written : (url, response) ∈ writes)
    (plain : Plain response) {command : KeyCommand} (concerns : command.Concerns url response) :
    StoreWritten (command.perform now store).1 writes := by
  -- Only SETNX can store a new value, and that value is the quoted response written.
  cases command with
  | setnx key value =>
    obtain ⟨rfl, rfl⟩ := concerns
    intro other cell stored
    rcases Expiring.Store.setIfAbsent_value stored with old | ⟨rfl, new⟩
    · exact holds other cell old
    · exact ⟨response, new, plain, written⟩
  | expire key seconds =>
    intro other cell stored
    obtain ⟨old, before, same⟩ := Expiring.Store.setLifetime_value stored
    rw [← same]
    exact holds other old before
  | get key => exact holds

/-- The commands of a queue, one after the other. -/
theorem performAll (holds : StoreWritten store writes) (written : (url, response) ∈ writes)
    (plain : Plain response) {commands : List KeyCommand}
    (concern : ∀ command ∈ commands, command.Concerns url response) :
    StoreWritten (commands.foldl (fun store command => (command.perform now store).1) store)
      writes := by
  -- Each command concerns the one update, so its writes cover the commands one after the other.
  induction commands generalizing store with
  | nil => exact holds
  | cons command rest ih =>
    have first := concern command List.mem_cons_self
    apply ih (holds.perform written plain first)
    intro other member
    exact concern other (List.mem_cons_of_mem command member)

/-- The server answers a command of a call. -/
theorem answer (library : RedisLibrary) (now : Nat) (conn : RedisContext) {words : List Bytes}
    (holds : StoreWritten conn.store writes)
    (written : (url, response) ∈ writes) (plain : Plain response)
    (queued : ∀ commands, conn.queued = some commands →
      ∀ command ∈ commands, command.Concerns url response)
    {read : RedisCommand} (known : RedisCommand.ofWords words = some read)
    (concerns : ∀ command, read = .onKey command → command.Concerns url response) :
    StoreWritten (conn.answer library now words).1.store writes ∧
      ∀ commands, (conn.answer library now words).1.queued = some commands →
        ∀ command ∈ commands, command.Concerns url response := by
  cases read with
  | multi =>
    cases queue : conn.queued with
    | none =>
      simp only [RedisContext.answer, known, queue, Option.some.injEq]
      exact ⟨holds, fun commands empty command member => by
        rw [← empty] at member
        exact absurd member List.not_mem_nil⟩
    | some commands =>
      simp only [RedisContext.answer, known, queue]
      exact ⟨holds, queue ▸ queued⟩
  | exec =>
    cases queue : conn.queued with
    | none =>
      simp only [RedisContext.answer, known, queue]
      exact ⟨holds, queue ▸ queued⟩
    | some commands =>
      -- The queue is performed or discarded, and is gone in both cases.
      simp only [RedisContext.answer, known, queue]
      cases conn.refused with
      | false => exact ⟨holds.performAll written plain (queued commands queue), fun _ none_ => by
          cases none_⟩
      | true => exact ⟨holds, fun _ none_ => by cases none_⟩
  | onKey command =>
    cases queue : conn.queued with
    | none =>
      simp only [RedisContext.answer, known, queue]
      exact ⟨holds.perform written plain (concerns command rfl), fun _ none_ => by cases none_⟩
    | some commands =>
      simp only [RedisContext.answer, known, queue, Option.some.injEq, forall_eq']
      refine ⟨holds, fun other member => ?_⟩
      rcases List.mem_append.mp member with old | new
      · exact queued commands queue other old
      · rw [List.mem_singleton.mp new]
        exact concerns command rfl

end StoreWritten

section Calls

variable {library : RedisLibrary} {now : Nat} {store : RedisStore} {writes : List (Bytes × Bytes)}

/-- Each command of an update is known to the server, and concerns its url and response. -/
theorem known_of_mem (separates : library.Separates) {url response command : Bytes}
    (named : PlainWord url) (plain : Plain response)
    (member : command ∈ atomicUpdateCommands url response) :
    ∃ read, RedisCommand.ofWords (library.words command) = some read ∧
      ∀ onKey, read = .onKey onKey → onKey.Concerns url response := by
  -- The four commands in the order they are sent; MULTI and EXEC name no key.
  simp only [atomicUpdateCommands, List.mem_cons, List.not_mem_nil, or_false] at member
  rcases member with rfl | rfl | rfl | rfl
  · exact ⟨_, ofWords_multi separates, fun _ wrong => by cases wrong⟩
  · refine ⟨_, ofWords_setnx separates named.1 named.2 plain, fun onKey same => ?_⟩
    cases same
    exact ⟨rfl, rfl⟩
  · refine ⟨_, ofWords_expire separates named.1 named.2, fun onKey same => ?_⟩
    cases same
    trivial
  · exact ⟨_, ofWords_exec separates, fun _ wrong => by cases wrong⟩

namespace CallWritten

variable {call : RedisCall}

/-- A call that has just been made. -/
theorem start {url response : Bytes} (written : (url, response) ∈ writes) (named : PlainWord url)
    (plain : Plain response) : CallWritten { url := url, response := response } writes :=
  ⟨written, named, plain, fun _ none_ => (by cases none_), fun _ none_ => (by cases none_)⟩

/-- More writes leave what was written. -/
theorem mono (written : CallWritten call writes) {more : List (Bytes × Bytes)}
    (kept : writes ⊆ more) : CallWritten call more :=
  { written with written := kept written.written }

/-- A call that connects has all its commands still to send. -/
theorem connect (written : CallWritten call writes) {connects : Bool} {auth : CommandFate}
    {next : RedisCall} (came : call.connect connects auth = some (.goesOn next)) :
    CallWritten next writes := by
  -- A call that goes on has only had its commands queued; all other outcomes return.
  unfold RedisCall.connect at came
  split at came
  · cases came
  · split_ifs at came with offline lost
    · cases came
    · cases came
    · cases came
      refine { written with unsent := fun commands same command member => ?_ }
      cases same
      exact member

/-- A command of a call leaves every value one that was written, whatever becomes of it. -/
theorem sendNext (separates : library.Separates) (written : CallWritten call writes)
    (holds : StoreWritten store writes) {fate : CommandFate} {heard : Bool} {after : RedisStore}
    {progress : CallProgress}
    (sent : call.sendNext library now store fate heard = some (after, progress)) :
    StoreWritten after writes ∧ ∀ next, progress = .goesOn next → CallWritten next writes := by
  cases unsent : call.unsent with
  | none =>
    simp only [RedisCall.sendNext, unsent] at sent
    cases sent
  | some commands =>
    cases commands with
    | nil =>
      simp only [RedisCall.sendNext, unsent] at sent
      cases sent
    | cons command rest =>
      have ours := written.unsent _ unsent
      obtain ⟨read, known, concerns⟩ := known_of_mem separates written.named written.plain
        (ours command List.mem_cons_self)
      rw [sendNext_known known unsent] at sent
      -- What the connection is left with, if the call goes on at all.
      have goesOn {queued : Option (List KeyCommand)} {refused : Bool}
          (concern : ∀ commands, queued = some commands →
            ∀ command ∈ commands, command.Concerns call.url call.response) :
          CallWritten { call with unsent := some rest, queued := queued, refused := refused }
            writes := by
        refine { written with queued := concern, unsent := fun commands same other member => ?_ }
        cases same
        exact ours other (List.mem_cons_of_mem command member)
      cases fate with
      | served =>
        obtain ⟨stored, queued⟩ := StoreWritten.answer library now (call.conn store) holds
          written.written written.plain written.queued known concerns
        cases sent
        refine ⟨stored, fun next same => ?_⟩
        split_ifs at same
        cases same
        exact goesOn queued
      | refused =>
        cases sent
        refine ⟨holds, fun next same => ?_⟩
        split_ifs at same
        cases same
        exact goesOn written.queued
      | lost =>
        cases sent
        exact ⟨holds, fun next same => by cases same⟩

end CallWritten

/-- A plain response is read without its quotation marks. -/
theorem readStr_quoted {response : Bytes} (plain : Plain response) :
    readStr (some (quoted response)) = .ok response := by
  refine RedisCache.readStr_eq_ok.mpr ⟨quoted response, 34, 34, rfl, ?_⟩
  -- There is no NUL at which the string would end.
  refine List.takeWhile_eq_self_iff.mpr fun c member => ?_
  simpa using (plain_quoted plain c member).1

/-- The reply to the `GET` of a plain url. -/
theorem reply_answered (now : Nat) (store : RedisStore) (separates : library.Separates)
    {url : Bytes} (named : PlainWord url) :
    (GetFate.answered.reply library now store url).map RedisReply.str =
      some (store.lookup now url) := by
  -- A GET that is answered performs the lookup, and a missing value is the null reply.
  simp only [GetFate.reply, RedisContext.redisCommand, RedisContext.answer,
    ofWords_get separates named.1 named.2, KeyCommand.perform]
  cases store.lookup now url with
  | none => rfl
  | some str => rfl

/-- What a read of Redis returns, and how it may end its process: with a key that is absent, or an
error reply that is too short. -/
theorem readRedis_outcome (now : Nat) (separates : library.Separates)
    (holds : StoreWritten store writes) {url : Bytes} (named : PlainWord url) (connects : Bool)
    (auth : Option RedisReply) (fate : GetFate) :
    (∀ res, RedisCache.readRedisCache connects auth (fate.reply library now store url) = .ok res →
      res = [] ∨ (url, res) ∈ writes ∨
        ∃ text, fate.refusal = some text ∧ readStr (some text) = .ok res) ∧
    ∀ fault, RedisCache.readRedisCache connects auth (fate.reply library now store url) =
        .error fault ↔
      connects = true ∧ auth.isSome ∧
        match fate with
        | .answered => fault = .nullString ∧ store.lookup now url = none
        | .refused text => fault = .badRange ∧ (text.takeWhile (· ≠ 0)).length < 2
        | .lost => False := by
  -- Without a connection or a reply to `AUTH`, nothing is read.
  cases connects with
  | false =>
    refine ⟨fun res read => .inl (Except.ok.inj read).symm, fun fault => ?_⟩
    exact ⟨fun wrong => (by cases wrong), fun wrong => absurd wrong.1 Bool.false_ne_true⟩
  | true =>
    cases auth with
    | none =>
      refine ⟨fun res read => .inl (Except.ok.inj read).symm, fun fault => ?_⟩
      exact ⟨fun wrong => (by cases wrong), fun wrong => absurd wrong.2.1 Bool.false_ne_true⟩
    | some auth =>
      simp only [Option.isSome_some, true_and]
      cases fate with
      | answered =>
        obtain ⟨reply, answered, str⟩ :=
          Option.map_eq_some_iff.mp (reply_answered now store separates named)
        have reads : RedisCache.readRedisCache true (some auth)
            (GetFate.answered.reply library now store url) = readStr (store.lookup now url) := by
          rw [answered, ← str]
          rfl
        rw [reads]
        cases found : store.lookup now url with
        | none =>
          refine ⟨fun res read => (by cases read), fun fault => ?_⟩
          simp [readStr, eq_comm]
        | some value =>
          -- Whatever the server holds was written for its key.
          obtain ⟨cell, visible, rfl⟩ := Option.map_eq_some_iff.mp found
          obtain ⟨response, same, plain, written⟩ :=
            holds url cell (Option.filter_eq_some_iff.mp visible).1
          rw [same, readStr_quoted plain]
          refine ⟨fun res read => .inr (.inl ?_), fun fault => ?_⟩
          · rw [← Except.ok.inj read]
            exact written
          · simp
      | refused text =>
        have reads : RedisCache.readRedisCache true (some auth)
            ((GetFate.refused text).reply library now store url) = readStr (some text) := rfl
        rw [reads]
        refine ⟨fun res read => .inr (.inr ⟨text, rfl, read⟩), fun fault => ?_⟩
        simp only [readStr]
        split
        · rename_i short
          exact ⟨fun failed => ⟨(Except.error.inj failed).symm, short⟩,
            fun failed => congrArg Except.error failed.1.symm⟩
        · rename_i long
          exact ⟨fun wrong => (by cases wrong), fun wrong => absurd wrong.2 long⟩
      | lost =>
        refine ⟨fun res read => .inl (Except.ok.inj read).symm, fun fault => ?_⟩
        exact ⟨fun wrong => (by cases wrong), False.elim⟩

end Calls

/-- A read returns nothing, or a response that was written for its url, or it takes the text of an
error reply for one. -/
def CacheRead.Traceable (read : CacheRead) : Prop :=
  read.content = [] ∨ (read.url, read.content) ∈ read.seen ∨
    ∃ text, read.refusal = some text ∧ readStr (some text) = .ok read.content

/-- Strings in which nothing is interpreted. -/
def CacheSystemStep.Plain : CacheSystemStep → Prop
  | .lookUp _ url => PlainWord url
  | .writeMemory _ url response _ _ => PlainWord url ∧ EnhancedProxy.Plain response
  | _ => True

/-- A step with which its process ends, and the fault. -/
def EndsWith (system : CacheSystem) : CacheSystemStep → TwoLevelFault → Prop
  | .writeMemory i url _ _ _, fault => fault = .memory (.lru .emptyList) ∧
    ((system.processes i).memory.lrus (system.processes i).memory.lruCache).Evicts url
  | .askRedis i j connects auth .answered, fault => fault = .redis .nullString ∧
    connects = true ∧ auth.isSome ∧
      ∃ url ∈ (system.processes i).asking[j]?, system.store.lookup system.redisNow url = none
  | .askRedis _ _ connects auth (.refused text), fault => fault = .redis .badRange ∧
    connects = true ∧ auth.isSome ∧ (text.takeWhile (· ≠ 0)).length < 2
  | _, _ => False

/-- The calls of a process that goes on are about what was written. -/
structure ProcessWritten (process : CacheProcess) (writes : List (Bytes × Bytes)) : Prop where
  memory : process.fault = none → MemoryWritten process.memory writes
  asking : ∀ url ∈ process.asking, PlainWord url
  updating : ∀ call ∈ process.updating, CallWritten call writes

/-- All caches hold what was written, and all reads can be traced. -/
structure AllWritten (system : CacheSystem) : Prop where
  processes : ∀ i, ProcessWritten (system.processes i) system.writes
  store : StoreWritten system.store system.writes
  reads : ∀ read ∈ system.reads, read.Traceable

namespace AllWritten

variable {library : RedisLibrary} {system : CacheSystem}

/-- Before the first call. -/
theorem start (n : Nat → Int) (garbage : Nat → Nat) : AllWritten (CacheSystem.new n garbage) where
  -- Every process has an empty memory and no calls, and redis has no key.
  processes i := ⟨fun _ => MemoryWritten.new (n i) (garbage i),
    fun _ member => absurd member List.not_mem_nil, fun _ member => absurd member List.not_mem_nil⟩
  store _ _ stored := by cases stored
  reads _ member := absurd member List.not_mem_nil

/-- One process may change, as long as it is about what was written. -/
theorem put (all : AllWritten system) (i : Nat) {process : CacheProcess}
    (written : ProcessWritten process system.writes) : AllWritten (system.put i process) := by
  -- The other processes are left alone, and redis and the reads do not mention the processes.
  refine ⟨fun k => ?_, all.store, all.reads⟩
  show ProcessWritten (Function.update system.processes i process k) system.writes
  by_cases here : k = i
  · rwa [here, Function.update_self]
  · rw [Function.update_of_ne here]
    exact all.processes k

/-- A read may return what can be traced. -/
theorem returns (all : AllWritten system) {i : Nat} {url content : Bytes} {refusal : Option Bytes}
    (traceable : content = [] ∨ (url, content) ∈ system.writes ∨
      ∃ text, refusal = some text ∧ readStr (some text) = .ok content) :
    AllWritten (system.returns i url content refusal) := by
  -- The reads before are traceable already, so only the new one is left.
  refine ⟨all.processes, all.store, fun read member => ?_⟩
  rcases List.mem_append.mp member with old | new
  · exact all.reads read old
  · rw [List.mem_singleton.mp new]
    exact traceable

/-- A write that begins leaves what was written before. -/
theorem write (all : AllWritten system) (url response : Bytes) :
    AllWritten { system with writes := system.writes ++ [(url, response)] } := by
  -- More writes can only help: every part asks for membership in them.
  have kept : system.writes ⊆ system.writes ++ [(url, response)] :=
    List.subset_append_left _ _
  refine ⟨fun i => ?_, fun key cell stored => ?_, all.reads⟩
  · obtain ⟨memory, asking, updating⟩ := all.processes i
    exact ⟨fun alive => (memory alive).mono kept, asking, fun call member =>
      (updating call member).mono kept⟩
  · obtain ⟨held, same, plain, written⟩ := all.store key cell stored
    exact ⟨held, same, plain, kept written⟩

/-- The process that was changed. -/
@[simp] theorem processes_put (system : CacheSystem) (i : Nat) (process : CacheProcess) :
    (system.put i process).processes i = process := Function.update_self _ _ _

/-- A read that begins does not end its process. -/
theorem lookUp (all : AllWritten system) {i : Nat} (alive : (system.processes i).fault = none)
    {url : Bytes} (named : PlainWord url) :
    AllWritten (system.lookUp i url) ∧ ((system.lookUp i url).processes i).fault = none := by
  -- Taking the pointer changes the memory of this process only and cannot fail.
  obtain ⟨memory, asking, updating⟩ := all.processes i
  have taken := (memory alive).takePointer named
  have faultless : ((system.processes i).withMemory
      ((system.processes i).memory.takePointer url)).fault = none := by
    rw [CacheProcess.withMemory, taken.faultless]
    rfl
  refine ⟨all.put i ⟨fun _ => taken, asking, updating⟩, ?_⟩
  rw [CacheSystem.lookUp, processes_put]
  exact faultless

/-- A read of the memory cache does not end its process, and returns or asks Redis. -/
theorem get (all : AllWritten system) {i j : Nat} (alive : (system.processes i).fault = none)
    {now : Int} {next : CacheSystem} (got : system.get i j now = some next) :
    AllWritten next ∧ (next.processes i).fault = none := by
  obtain ⟨memory, asking, updating⟩ := all.processes i
  simp only [CacheSystem.get, Option.bind_eq_bind, Option.pure_def] at got
  obtain ⟨reading, active, got⟩ := Option.bind_eq_some_iff.mp got
  obtain ⟨after, content, returned, written, result, known⟩ := (memory alive).get active now
  have faultless : ((system.processes i).withMemory after).fault = none := by
    rw [CacheProcess.withMemory, written.faultless]
    rfl
  have named := (memory alive).named reading (List.mem_of_getElem? active)
  simp only [returned, Option.bind_some, faultless, Option.isSome_none, Bool.false_eq_true,
    if_false, result, Option.getD_some] at got
  have held : ProcessWritten ((system.processes i).withMemory after) system.writes :=
    ⟨fun _ => written, asking, updating⟩
  split_ifs at got with found
  · cases got
    refine ⟨(all.put i held).returns (.inr (.inl (known found))), ?_⟩
    show ((system.put i _).processes i).fault = none
    rw [processes_put]
    exact faultless
  · cases got
    -- Nothing was found, and Redis is asked for the same url.
    refine ⟨all.put i ⟨fun _ => written, fun url member => ?_, updating⟩, ?_⟩
    · rcases List.mem_append.mp member with old | new
      · exact asking url old
      · rw [List.mem_singleton.mp new]
        exact named
    · rw [processes_put]

/-- A read of Redis returns, or ends its process. -/
theorem askRedis (separates : library.Separates) (all : AllWritten system) {i j : Nat}
    (alive : (system.processes i).fault = none) {connects : Bool} {auth : Option RedisReply}
    {fate : GetFate} {next : CacheSystem}
    (asked : system.askRedis library i j connects auth fate = some next) :
    AllWritten next ∧ ∀ fault, (next.processes i).fault = some fault ↔
      EndsWith system (.askRedis i j connects auth fate) fault := by
  obtain ⟨memory, asking, updating⟩ := all.processes i
  simp only [CacheSystem.askRedis, Option.bind_eq_bind, Option.pure_def] at asked
  obtain ⟨url, active, asked⟩ := Option.bind_eq_some_iff.mp asked
  obtain ⟨traced, ends⟩ := readRedis_outcome system.redisNow separates all.store
    (asking url (List.mem_of_getElem? active)) connects auth fate
  -- The same conditions, said of the step.
  have endsWith (fault : TwoLevelFault) :
      EndsWith system (.askRedis i j connects auth fate) fault ↔
        ∃ inner, fault = .redis inner ∧ RedisCache.readRedisCache connects auth
          (fate.reply library system.redisNow system.store url) = .error inner := by
    simp only [ends]
    cases fate with
    | answered => simp [EndsWith, active, and_left_comm]
    | refused text => simp [EndsWith, and_left_comm]
    | lost => simp [EndsWith]
  have kept : ProcessWritten
      { system.processes i with asking := (system.processes i).asking.eraseIdx j } system.writes :=
    ⟨memory, fun url member => asking url (List.mem_of_mem_eraseIdx member), updating⟩
  cases outcome : RedisCache.readRedisCache connects auth
      (fate.reply library system.redisNow system.store url) with
  | error inner =>
    simp only [outcome] at asked
    cases asked
    refine ⟨all.put i ⟨fun wrong => (by cases wrong), kept.asking, updating⟩, fun fault => ?_⟩
    rw [processes_put, endsWith, outcome]
    simp [eq_comm]
  | ok res =>
    simp only [outcome] at asked
    cases asked
    refine ⟨(all.put i kept).returns (traced res outcome), fun fault => ?_⟩
    rw [endsWith, outcome]
    show ((system.put i _).processes i).fault = _ ↔ _
    rw [processes_put]
    simp [alive]

/-- A write goes on to Redis, unless its put enters the eviction loop. -/
theorem writeMemory (all : AllWritten system) {i : Nat} (alive : (system.processes i).fault = none)
    {url response : Bytes} (named : PlainWord url) (plain : Plain response) (clock : Nat → Int)
    (now : Int) :
    AllWritten (system.writeMemory i url response clock now) ∧
      ∀ fault, ((system.writeMemory i url response clock now).processes i).fault = some fault ↔
        EndsWith system (.writeMemory i url response clock now) fault := by
  -- The write is recorded first, so that the memory can point at it.
  have wrote := all.write url response
  obtain ⟨memory, asking, updating⟩ := wrote.processes i
  have own : (url, response) ∈ system.writes ++ [(url, response)] :=
    List.mem_append_right _ List.mem_cons_self
  simp only [CacheSystem.writeMemory, CacheProcess.withMemory, EndsWith]
  rcases ((all.processes i).memory alive).writeCache url response clock now with
    ⟨evicts, failed⟩ | ⟨roomy, written⟩
  -- The put evicts: the process ends with the fault, and its memory is not spoken of any more.
  · simp only [failed, Option.map_some, Option.isSome_some, if_true]
    refine ⟨wrote.put i ⟨fun wrong => (by cases wrong), asking, updating⟩, fun fault => ?_⟩
    rw [processes_put]
    simp [evicts, eq_comm]
  -- The put has room: the process lives on with the write in its memory.
  · simp only [written.faultless, Option.map_none, Option.isSome_none, Bool.false_eq_true, if_false]
    refine ⟨wrote.put i ⟨fun _ => written, asking, fun call member => ?_⟩, fun fault => ?_⟩
    · rcases List.mem_append.mp member with old | new
      · exact updating call old
      · rw [List.mem_singleton.mp new]
        exact .start own named plain
    · rw [processes_put]
      simp [roomy]

/-- A call of `updateRedisCache` goes on or returns, and does not end its process. -/
theorem proceed (all : AllWritten system) (i j : Nat) {progress : CallProgress}
    (goesOn : ∀ next, progress = .goesOn next → CallWritten next system.writes) :
    AllWritten (system.proceed i j progress) ∧
      ((system.proceed i j progress).processes i).fault = (system.processes i).fault := by
  -- Either the call goes on in its place in the list, or it leaves the list.
  obtain ⟨memory, asking, updating⟩ := all.processes i
  cases progress with
  | goesOn next =>
    refine ⟨all.put i ⟨memory, asking, fun call member => ?_⟩, ?_⟩
    · rcases List.mem_or_eq_of_mem_set member with old | rfl
      · exact updating call old
      · exact goesOn call rfl
    · rw [CacheSystem.proceed, processes_put]
  | returns answer =>
    refine ⟨all.put i ⟨memory, asking, fun call member => ?_⟩, ?_⟩
    · exact updating call (List.mem_of_mem_eraseIdx member)
    · rw [CacheSystem.proceed, processes_put]

/-- No step brings in a response that was not written for its url, and the steps that end their
process are known. -/
theorem step (separates : library.Separates) (all : AllWritten system) {label : CacheSystemStep}
    {next : CacheSystem} (plain : label.Plain)
    (stepped : (cacheSystemMachine library).step system label = some next) :
    AllWritten next ∧ ∀ i, label.process = some i → ∀ fault,
      (next.processes i).fault = some fault ↔ EndsWith system label fault := by
  simp only [cacheSystemMachine] at stepped
  split_ifs at stepped with ended
  -- A process that takes a step has not ended.
  have alive {i : Nat} (own : label.process = some i) : (system.processes i).fault = none := by
    simpa [own] using ended
  have ofOwn {i : Nat} {after : CacheSystem} (own : label.process = some i)
      (ends : ∀ fault, (after.processes i).fault = some fault ↔ EndsWith system label fault) :
      ∀ k, label.process = some k → ∀ fault,
        (after.processes k).fault = some fault ↔ EndsWith system label fault := by
    intro k same
    cases own.symm.trans same
    exact ends
  have goesOn {i : Nat} {after : CacheSystem} (none_ : (after.processes i).fault = none)
      (never : ∀ fault, ¬ EndsWith system label fault) (fault : TwoLevelFault) :
      (after.processes i).fault = some fault ↔ EndsWith system label fault := by
    rw [none_]
    exact ⟨fun wrong => (by cases wrong), fun wrong => absurd wrong (never fault)⟩
  cases label with
  | lookUp i url =>
    cases stepped
    obtain ⟨written, none_⟩ := all.lookUp (alive rfl) plain
    exact ⟨written, ofOwn rfl (goesOn none_ fun _ => id)⟩
  | get i j now =>
    obtain ⟨written, none_⟩ := all.get (alive rfl) stepped
    exact ⟨written, ofOwn rfl (goesOn none_ fun _ => id)⟩
  | askRedis i j connects auth fate =>
    obtain ⟨written, ends⟩ := all.askRedis separates (alive rfl) stepped
    exact ⟨written, ofOwn rfl ends⟩
  | writeMemory i url response clock now =>
    cases stepped
    obtain ⟨written, ends⟩ := all.writeMemory (alive rfl) plain.1 plain.2 clock now
    exact ⟨written, ofOwn rfl ends⟩
  | connect i j connects auth =>
    simp only [Option.bind_eq_bind, Option.pure_def] at stepped
    obtain ⟨call, active, stepped⟩ := Option.bind_eq_some_iff.mp stepped
    obtain ⟨progress, came, stepped⟩ := Option.bind_eq_some_iff.mp stepped
    cases stepped
    -- Connecting touches no key, and the call keeps its response.
    have calling := (all.processes i).updating call (List.mem_of_getElem? active)
    have calls (other : RedisCall) (goes : progress = .goesOn other) :
        CallWritten other system.writes := calling.connect (goes ▸ came)
    obtain ⟨written, same⟩ := all.proceed i j calls
    exact ⟨written, ofOwn rfl (goesOn (same.trans (alive rfl)) fun _ => id)⟩
  | send i j fate heard =>
    simp only [Option.bind_eq_bind, Option.pure_def] at stepped
    obtain ⟨call, active, stepped⟩ := Option.bind_eq_some_iff.mp stepped
    obtain ⟨⟨store, progress⟩, sent, stepped⟩ := Option.bind_eq_some_iff.mp stepped
    cases stepped
    -- The command may have changed the keys, and then the call goes on or returns.
    have calling := (all.processes i).updating call (List.mem_of_getElem? active)
    obtain ⟨stored, calls⟩ := calling.sendNext separates all.store sent
    have changed : AllWritten { system with store := store } := ⟨all.processes, stored, all.reads⟩
    obtain ⟨written, same⟩ := changed.proceed i j calls
    exact ⟨written, ofOwn rfl (goesOn (same.trans (alive rfl)) fun _ => id)⟩
  | restart i n garbage =>
    dsimp only at stepped
    split_ifs at stepped
    cases stepped
    exact ⟨all.put i ⟨fun _ => MemoryWritten.new n garbage, fun _ member =>
      absurd member List.not_mem_nil, fun _ member => absurd member List.not_mem_nil⟩,
      fun k own => by cases own⟩
  | keyGoes url =>
    cases stepped
    exact ⟨⟨all.processes, fun key cell stored =>
      all.store key cell (Expiring.Store.of_remove stored), all.reads⟩, fun k own => by cases own⟩
  | wait milliseconds =>
    cases stepped
    exact ⟨⟨all.processes, all.store, all.reads⟩, fun k own => by cases own⟩

end AllWritten

/-- The process that takes this step ends with it exactly in the known cases, and with the fault
that belongs to them. -/
def EndsAsKnown (library : RedisLibrary) (system : CacheSystem) (label : CacheSystemStep) : Prop :=
  ∀ next, (cacheSystemMachine library).step system label = some next →
    ∀ i, label.process = some i → ∀ fault,
      (next.processes i).fault = some fault ↔ EndsWith system label fault

/-- Whatever the processes do at the same time, and wherever Redis fails, a read returns nothing, or
a response that was written before for its very url, or the text of its own error reply. -/
theorem reads_traceable {library : RedisLibrary} (separates : library.Separates) {n : Nat → Int}
    {garbage : Nat → Nat} {labels : List CacheSystemStep} {system : CacheSystem}
    (plain : ∀ label ∈ labels, label.Plain)
    (ran : (cacheSystemMachine library).run (CacheSystem.new n garbage) labels = some system) :
    ∀ read ∈ system.reads, read.Traceable := by
  -- Every step is plain wherever it is taken, so the invariant holds after the whole run.
  have met : (cacheSystemMachine library).Meets (fun _ label => label.Plain)
      (CacheSystem.new n garbage) labels :=
    Machine.meets_of_forall fun label member _ => plain label member
  have all := Machine.run_invariant_of_meets (fun system label next all plain stepped =>
    (AllWritten.step separates all plain stepped).1) (AllWritten.start n garbage) met ran
  exact all.reads

/-- A response that one process has written is read by another one from Redis. -/
theorem reads_traceable_shared :
    ∃ system, (cacheSystemMachine splittingLibrary).run
        (CacheSystem.new (fun _ => 128) fun _ => 0)
        [.lookUp 1 (ascii ['u']), .writeMemory 0 (ascii ['u']) (ascii ['a']) (fun _ => 5) 5,
          .connect 0 0 true .served, .get 1 0 6, .send 0 0 .served true, .send 0 0 .served true,
          .send 0 0 .served true, .send 0 0 .served true,
          .askRedis 1 0 true (some (.status (ascii ['O', 'K']))) .answered] = some system ∧
      ∀ read ∈ system.reads, read.Traceable := by
  -- Process 1 misses in its memory and reads from redis what process 0 has sent there.
  have ran : (cacheSystemMachine splittingLibrary).run (CacheSystem.new (fun _ => 128) fun _ => 0)
      [.lookUp 1 (ascii ['u']), .writeMemory 0 (ascii ['u']) (ascii ['a']) (fun _ => 5) 5,
        .connect 0 0 true .served, .get 1 0 6, .send 0 0 .served true, .send 0 0 .served true,
        .send 0 0 .served true, .send 0 0 .served true,
        .askRedis 1 0 true (some (.status (ascii ['O', 'K']))) .answered] = some _ := rfl
  refine ⟨_, ran, reads_traceable separates_splittingLibrary ?_ ran⟩
  simp only [List.mem_cons, List.not_mem_nil, or_false, forall_eq_or_imp, forall_eq,
    CacheSystemStep.Plain, and_true]
  exact ⟨⟨by decide, plain_ascii (by decide)⟩, ⟨by decide, plain_ascii (by decide)⟩,
    plain_ascii (by decide)⟩

/-- In every run, a process ends exactly with a write whose put enters the eviction loop, with a
read that neither level can answer, or with an error reply that is too short. No assertion fails,
and no iterator is used that designates nothing. -/
theorem process_ends_iff {library : RedisLibrary} (separates : library.Separates) (n : Nat → Int)
    (garbage : Nat → Nat) {labels : List CacheSystemStep} (plain : ∀ label ∈ labels, label.Plain) :
    (cacheSystemMachine library).Meets (EndsAsKnown library) (CacheSystem.new n garbage) labels := by
  have met : (cacheSystemMachine library).Meets (fun _ label => label.Plain)
      (CacheSystem.new n garbage) labels :=
    Machine.meets_of_forall fun label member _ => plain label member
  -- What is written and nothing else is held at each step of the run.
  refine Machine.Meets.of_invariant (fun system label next all plain stepped =>
    (AllWritten.step separates all plain stepped).1) ?_ (AllWritten.start n garbage) met
  intro system label all plain next stepped
  exact (all.step separates plain stepped).2

/-- A read of a url that was never written ends its process, and the process is replaced. -/
theorem process_ends_iff_miss :
    (cacheSystemMachine splittingLibrary).Meets (EndsAsKnown splittingLibrary)
      (CacheSystem.new (fun _ => 128) fun _ => 0)
      [.lookUp 0 (ascii ['u']), .get 0 0 5,
        .askRedis 0 0 true (some (.status (ascii ['O', 'K']))) .answered, .restart 0 128 0] := by
  -- The url of the lookup and the reply to AUTH are plain.
  refine process_ends_iff separates_splittingLibrary _ _ ?_
  simp only [List.mem_cons, List.not_mem_nil, or_false, forall_eq_or_imp, forall_eq,
    CacheSystemStep.Plain, and_true]
  exact ⟨by decide, plain_ascii (by decide)⟩

end EnhancedProxy

import EnhancedProxy.Cache.MemoryCache
import EnhancedProxy.Cache.Redis

/-! The two levels of the cache: memory overwrites what it holds, and Redis keeps it. -/

namespace EnhancedProxy

namespace MemoryCache

/-- `readCache` of a process that does nothing else meanwhile: both parts, one after the other. -/
def readCache (cache : MemoryCache) (url : Bytes) (now : Int) : Option (MemoryCache × Bytes) :=
  ((cache.takePointer url).get cache.readings.length now).map fun after =>
    (after, (after.results.getLast?.map (·.content)).getD [])

/-- An entry disappears from the cache. -/
def forget (cache : MemoryCache) (url : Bytes) : MemoryCache :=
  match (cache.lrus cache.lruCache).erase url with
  | .error fault => { cache with fault := some (.lru fault) }
  | .ok lru => { cache with lrus := Function.update cache.lrus cache.lruCache lru }

/-- The content that the cache holds for a url, however old. -/
def find (cache : MemoryCache) (url : Bytes) : Option Bytes := (cache.lrus cache.lruCache).find url

end MemoryCache

/-- What ends the process in a call of the cache. -/
inductive TwoLevelFault
  | memory (fault : CacheFault)
  | redis (fault : RedisFault)
  deriving DecidableEq, Repr

/-- A `Cache` with the keys of the Redis server and its clock, in milliseconds. The history keeps
the writes, and what the reads returned. -/
structure TwoLevel where
  memory : MemoryCache
  redis : RedisStore := fun _ => none
  redisNow : Nat := 0
  fault : Option TwoLevelFault := none
  writes : List (Bytes × Bytes) := []
  reads : List ReadResult := []

/-- The calls of one process, with the clock readings they see, and what happens besides. -/
inductive TwoLevelStep
  | writeCache (url response : Bytes) (now : Int)
  | readCache (url : Bytes) (now : Int)
  | forget (url : Bytes)
  | keyExpires (url : Bytes)
  | wait (milliseconds : Nat)

namespace TwoLevel

/-- A read that returns. -/
def returns (cache : TwoLevel) (url content : Bytes) : TwoLevel :=
  { cache with reads := cache.reads ++ [{ url := url, seen := cache.writes, content := content }] }

/-- `Cache::readCache`. -/
def readCache (library : RedisLibrary) (cache : TwoLevel) (url : Bytes) (now : Int) :
    Option TwoLevel :=
  match cache.memory.readCache url now with
  | none => none
  | some (memory, res) =>
    match memory.fault with
    | some fault => some { cache with memory := memory, fault := some (.memory fault) }
    | none =>
      if res ≠ [] then some ({ cache with memory := memory }.returns url res)
      else
        -- The memory level has nothing, or an empty response.
        match readRedisCache library cache.redisNow cache.redis url with
        | .error fault => some { cache with memory := memory, fault := some (.redis fault) }
        | .ok res => some ({ cache with memory := memory }.returns url res)

/-- `Cache::writeCache`. -/
def writeCache (library : RedisLibrary) (cache : TwoLevel) (url response : Bytes) (now : Int) :
    TwoLevel :=
  let memory := cache.memory.writeCache url response (fun _ => now) now
  match memory.fault with
  | some fault => { cache with memory := memory, fault := some (.memory fault) }
  | none =>
    { cache with
      memory := memory
      redis := updateRedisCache library cache.redisNow cache.redis url response
      writes := cache.writes ++ [(url, response)] }

/-- A new cache, in front of a server that holds nothing. -/
def new (n : Int) (garbage : Nat) : TwoLevel where
  memory := MemoryCache.new n garbage

end TwoLevel

/-- The two levels as a machine, until a fault. -/
def twoLevelMachine (library : RedisLibrary) : Machine TwoLevel TwoLevelStep where
  step cache label :=
    if cache.fault.isSome then none
    else
      match label with
      | .writeCache url response now => some (cache.writeCache library url response now)
      | .readCache url now => cache.readCache library url now
      | .forget url => some { cache with memory := cache.memory.forget url }
      | .keyExpires url => some { cache with redis := cache.redis.remove url }
      | .wait milliseconds => some { cache with redisNow := cache.redisNow + milliseconds }

/-- No call has failed, and each read has returned nothing or the response written last. -/
def NeverBack (cache : TwoLevel) : Prop :=
  cache.fault = none ∧
    ∀ read ∈ cache.reads, read.content = [] ∨ lastWrite read.seen read.url = some read.content

/-- Strings in which nothing is interpreted. -/
def TwoLevelStep.Plain : TwoLevelStep → Prop
  | .writeCache url response _ =>
    url ≠ [] ∧ EnhancedProxy.Plain url ∧ EnhancedProxy.Plain response
  | .readCache url _ => url ≠ [] ∧ EnhancedProxy.Plain url
  | _ => True

/-- A write that finds no response for its url in Redis, or the same one, and room in memory. A read
that finds its url at one of the levels. -/
def LevelsAgree (cache : TwoLevel) : TwoLevelStep → Prop
  | .writeCache url response _ =>
    (∀ value, cache.redis.lookup cache.redisNow url = some value → value = quoted response) ∧
      ¬ (cache.memory.lrus cache.memory.lruCache).Evicts url
  | .readCache url now =>
    (∃ content, content ≠ [] ∧ cache.memory.find url = some content ∧
      ¬ (cache.memory.lrus cache.memory.lruCache).Expires now url) ∨
      (cache.redis.lookup cache.redisNow url).isSome
  | _ => True

/-- A memory cache without a reader and without a fault. -/
structure Alone (cache : MemoryCache) : Prop where
  readings : cache.readings = []
  sound : cache.fault = none
  formed : WellFormed (cache.lrus cache.lruCache)

namespace Alone

variable {cache : MemoryCache}

/-- The cache may replace its `Lru` by another one that is well formed. -/
theorem replace (alone : Alone cache) {lru : Lru} (formed : WellFormed lru) :
    Alone { cache with lrus := Function.update cache.lrus cache.lruCache lru } where
  -- Only the current object is replaced, and a formed one stands in for it.
  readings := alone.readings
  sound := alone.sound
  formed := by
    show WellFormed (Function.update cache.lrus cache.lruCache lru cache.lruCache)
    rwa [Function.update_self]

/-- What the cache holds after its `Lru` was replaced. -/
theorem find_replace (cache : MemoryCache) (lru : Lru) :
    MemoryCache.find { cache with lrus := Function.update cache.lrus cache.lruCache lru } =
      lru.find := by
  -- Only the current object is searched, and that is the one replaced.
  funext url
  show (Function.update cache.lrus cache.lruCache lru cache.lruCache).find url = _
  rw [Function.update_self]

/-- A write overwrites what the cache holds for its url. -/
theorem writeCache (alone : Alone cache) {url : Bytes}
    (roomy : ¬ (cache.lrus cache.lruCache).Evicts url) (response : Bytes) (clock : Nat → Int)
    (now : Int) :
    Alone (cache.writeCache url response clock now) ∧
      (cache.writeCache url response clock now).find =
        Function.update cache.find url (some response) := by
  -- Without a reader the pointer is not shared, and nothing is copied.
  have unique : cache.useCount cache.lruCache = 1 :=
    (useCount_eq_one_iff cache).mpr (by simp [MemoryCache.held, alone.readings])
  obtain ⟨lru, returned, becomes⟩ := alone.formed.put roomy now response
  have outcome : cache.writeCache url response clock now = { cache with
      lrus := Function.update cache.lrus cache.lruCache lru
      writes := cache.writes ++ [(url, response)]
      putsHeld := cache.putsHeld ++ [cache.held cache.lruCache] } := by
    simp [MemoryCache.writeCache, MemoryCache.unshare, unique, returned]
  rw [outcome]
  have replaced := alone.replace becomes.formed
  refine ⟨⟨replaced.readings, replaced.sound, replaced.formed⟩, ?_⟩
  exact (find_replace cache lru).trans (becomes.find_touch alone.formed)

/-- A read on its own is a `get` on the cache's `Lru`. -/
theorem readCache_of_get (alone : Alone cache) {url content : Bytes} {now : Int} {lru : Lru}
    (returned : (cache.lrus cache.lruCache).get now url = .ok (content, lru))
    (formed : WellFormed lru) :
    ∃ after, cache.readCache url now = some (after, content) ∧ Alone after ∧
      after.find = lru.find := by
  -- With its own pointer beside the one of the cache, the assertion holds.
  have shared : ({ cache with readings :=
      [{ lru := cache.lruCache, url := url, seen := cache.writes }] } : MemoryCache).useCount
      cache.lruCache = 2 := by
    simp [MemoryCache.useCount]
  have taken : cache.takePointer url = { cache with readings :=
      [{ lru := cache.lruCache, url := url, seen := cache.writes }] } := by
    simp [MemoryCache.takePointer, alone.readings, shared]
  have ran : cache.readCache url now = some ({ cache with
      lrus := Function.update cache.lrus cache.lruCache lru
      readings := []
      results := cache.results ++ [{ url := url, seen := cache.writes, content := content }] },
      content) := by
    simp [MemoryCache.readCache, taken, MemoryCache.get, alone.readings, returned]
  have replaced := alone.replace formed
  exact ⟨_, ran, ⟨rfl, replaced.sound, replaced.formed⟩, find_replace cache lru⟩

/-- A read returns what the cache holds, unless it is too old, and the cache holds no more than
before. -/
theorem readCache (alone : Alone cache) (url : Bytes) (now : Int) :
    ∃ after content, cache.readCache url now = some (after, content) ∧ Alone after ∧
      (∀ other held, after.find other = some held → cache.find other = some held) ∧
      (content ≠ [] → cache.find url = some content) ∧
      (∀ held, cache.find url = some held →
        ¬ (cache.lrus cache.lruCache).Expires now url → content = held) := by
  have formed := alone.formed
  by_cases expires : (cache.lrus cache.lruCache).Expires now url
  · -- The entry is too old, and goes.
    obtain ⟨lru, returned, becomes⟩ := formed.get_expired expires
    obtain ⟨after, ran, aloneAfter, find⟩ := alone.readCache_of_get returned becomes.formed
    refine ⟨after, [], ran, aloneAfter, fun other held found => ?_, fun some_ => absurd rfl some_,
      fun _ _ fresh => absurd expires fresh⟩
    rw [find, becomes.find_others formed] at found
    by_cases same : other = url
    · simp [same] at found
    · rw [Function.update_of_ne same] at found
      exact found
  · cases found : (cache.lrus cache.lruCache).find url with
    | none =>
      obtain ⟨after, ran, aloneAfter, find⟩ :=
        alone.readCache_of_get (formed.get_miss found now) formed
      refine ⟨after, [], ran, aloneAfter, fun other held still => ?_, fun some_ => absurd rfl some_,
        fun held wrong => ?_⟩
      · rwa [find] at still
      · exact absurd (found.symm.trans wrong) (Option.some_ne_none held).symm
    | some content =>
      obtain ⟨lru, returned, becomes⟩ := formed.get_hit found expires
      obtain ⟨after, ran, aloneAfter, find⟩ := alone.readCache_of_get returned becomes.formed
      refine ⟨after, content, ran, aloneAfter, fun other held still => ?_, fun _ => found,
        fun held same _ => ?_⟩
      · -- The hit has moved its entry, and changed no content.
        rw [find, becomes.find_touch formed, Function.update_eq_self_iff.mpr found.symm] at still
        exact still
      · exact Option.some.inj (found.symm.trans same)

/-- A disappearance leaves what the cache holds for the other urls. -/
theorem forget (alone : Alone cache) (url : Bytes) :
    Alone (cache.forget url) ∧
      ∀ other held, (cache.forget url).find other = some held → cache.find other = some held := by
  -- The erase succeeds on a formed object and only drops the url.
  obtain ⟨lru, returned, becomes⟩ := alone.formed.erase url
  have outcome : cache.forget url =
      { cache with lrus := Function.update cache.lrus cache.lruCache lru } := by
    simp [MemoryCache.forget, returned]
  rw [outcome]
  refine ⟨alone.replace becomes.formed, fun other held found => ?_⟩
  rw [find_replace, becomes.find_others alone.formed] at found
  by_cases same : other = url
  · simp [same] at found
  · rw [Function.update_of_ne same] at found
    exact found

end Alone

/-- Whatever one of the levels holds is the response written last. -/
structure Current (cache : TwoLevel) : Prop where
  alone : Alone cache.memory
  memory : ∀ url held, cache.memory.find url = some held → lastWrite cache.writes url = some held
  redis : ∀ url value, cache.redis.lookup cache.redisNow url = some value →
    ∃ held, value = quoted held ∧ Plain held ∧ lastWrite cache.writes url = some held
  sound : NeverBack cache

namespace Current

variable {library : RedisLibrary} {cache : TwoLevel}

/-- A new cache holds nothing. -/
theorem start (n : Int) (garbage : Nat) : Current (TwoLevel.new n garbage) where
  -- Neither level holds anything, and nothing was read.
  alone := ⟨rfl, rfl, wellFormed_new _ garbage⟩
  memory _ _ found := by cases found
  redis _ _ found := by cases found
  sound := ⟨rfl, fun _ member => absurd member List.not_mem_nil⟩

/-- A write that finds no other response in Redis leaves its response at both levels. -/
theorem writeCache (separates : library.Separates) (current : Current cache) {url response : Bytes}
    (named : url ≠ []) (plainUrl : Plain url) (plainResponse : Plain response)
    (same : ∀ value, cache.redis.lookup cache.redisNow url = some value → value = quoted response)
    (roomy : ¬ (cache.memory.lrus cache.memory.lruCache).Evicts url) (now : Int) :
    Current (cache.writeCache library url response now) := by
  obtain ⟨alone, find⟩ := current.alone.writeCache roomy response (fun _ => now) now
  have outcome : cache.writeCache library url response now = { cache with
      memory := cache.memory.writeCache url response (fun _ => now) now
      redis := updateRedisCache library cache.redisNow cache.redis url response
      writes := cache.writes ++ [(url, response)] } := by
    simp only [TwoLevel.writeCache, alone.sound]
  rw [outcome]
  refine ⟨alone, fun other held found => ?_, fun other value found => ?_, current.sound⟩
  · -- The memory level overwrites, as the history does.
    rw [lastWrite_snoc]
    have found : (cache.memory.writeCache url response (fun _ => now) now).find other =
      some held := found
    rw [find] at found
    by_cases here : other = url
    · rw [here, Function.update_self] at found ⊢
      exact found
    · rw [Function.update_of_ne here] at found ⊢
      exact current.memory other held found
  · rw [lastWrite_snoc]
    rw [updateRedisCache_plain separates named plainUrl plainResponse] at found
    by_cases here : other = url
    · -- The Redis level keeps what it had, which is the same response.
      subst here
      have stored := Expiring.Store.offer_own cache.redis cache.redisNow other (quoted response)
        (defaultExpiredTime * 1000)
      rw [Expiring.Store.lookup_of_deadline stored, if_pos (Nat.le_add_right _ _)] at found
      have kept : (cache.redis.lookup cache.redisNow other).getD (quoted response) =
          quoted response := by
        cases seen : cache.redis.lookup cache.redisNow other with
        | none => rfl
        | some value => exact same value seen
      refine ⟨response, ?_, plainResponse, Function.update_self _ _ _⟩
      rw [← kept]
      exact (Option.some.inj found).symm
    · have unchanged := Expiring.Store.offer_other cache.redis cache.redisNow here
        (quoted response) (defaultExpiredTime * 1000)
      rw [Function.update_of_ne here]
      apply current.redis other value
      simpa only [Expiring.Store.lookup, Expiring.Store.visible, unchanged] using found

/-- A read that returns something that was written last, or nothing. -/
theorem returns (current : Current cache) {memory : MemoryCache} (alone : Alone memory)
    (less : ∀ other held, memory.find other = some held → cache.memory.find other = some held)
    {url content : Bytes} (latest : content = [] ∨ lastWrite cache.writes url = some content) :
    Current ({ cache with memory := memory }.returns url content) := by
  -- The memory holds no more than before, and only the last read is new.
  refine ⟨alone, fun other held found => current.memory other held (less other held found),
    current.redis, current.sound.1, fun read member => ?_⟩
  rcases List.mem_append.mp member with old | new
  · exact current.sound.2 read old
  · rw [List.mem_singleton.mp new]
    exact latest

/-- A read that finds its url at one of the levels returns what was written last. -/
theorem readCache (separates : library.Separates) (current : Current cache) {url : Bytes}
    (named : url ≠ []) (plainUrl : Plain url) {now : Int} {next : TwoLevel}
    (present : (∃ content, content ≠ [] ∧ cache.memory.find url = some content ∧
      ¬ (cache.memory.lrus cache.memory.lruCache).Expires now url) ∨
        (cache.redis.lookup cache.redisNow url).isSome)
    (ran : cache.readCache library url now = some next) : Current next := by
  obtain ⟨memory, content, read, alone, less, hit, fresh⟩ := current.alone.readCache url now
  by_cases nothing : content = []
  · -- The memory level has nothing, and Redis is asked.
    have cached : (cache.redis.lookup cache.redisNow url).isSome := by
      rcases present with ⟨held, some_, found, young⟩ | cached
      · exact absurd ((fresh held found young).symm.trans nothing) some_
      · exact cached
    obtain ⟨value, found⟩ := Option.isSome_iff_exists.mp cached
    obtain ⟨held, rfl, plain, latest⟩ := current.redis url value found
    have outcome := readRedisCache_quoted separates named plainUrl plain found
    simp only [TwoLevel.readCache, read, alone.sound, nothing, ne_eq, not_true_eq_false, if_false,
      outcome, Option.some.injEq] at ran
    subst ran
    exact current.returns alone less (.inr latest)
  · simp only [TwoLevel.readCache, read, alone.sound, nothing, ne_eq, not_false_eq_true, if_true,
      Option.some.injEq] at ran
    subst ran
    exact current.returns alone less (.inr (current.memory url content (hit nothing)))

/-- A step at which the levels agree keeps both of them current. -/
theorem step (separates : library.Separates) (cache : TwoLevel) (label : TwoLevelStep)
    (next : TwoLevel) (current : Current cache) (met : label.Plain ∧ LevelsAgree cache label)
    (stepped : (twoLevelMachine library).step cache label = some next) : Current next := by
  simp only [twoLevelMachine, current.sound.1, Option.isSome_none, Bool.false_eq_true,
    if_false] at stepped
  obtain ⟨plain, agree⟩ := met
  cases label with
  | writeCache url response now =>
    cases stepped
    obtain ⟨named, plainUrl, plainResponse⟩ := plain
    exact current.writeCache separates named plainUrl plainResponse agree.1 agree.2 now
  | readCache url now => exact current.readCache separates plain.1 plain.2 agree stepped
  | forget url =>
    cases stepped
    obtain ⟨alone, less⟩ := current.alone.forget url
    exact ⟨alone, fun other held found => current.memory other held (less other held found),
      current.redis, ⟨rfl, current.sound.2⟩⟩
  | keyExpires url =>
    cases stepped
    exact ⟨current.alone, current.memory, fun other value found => current.redis other value
      (Expiring.Store.lookup_of_remove found), ⟨rfl, current.sound.2⟩⟩
  | wait milliseconds =>
    cases stepped
    -- What can be read later could be read before.
    exact ⟨current.alone, current.memory, fun other value found => current.redis other value
      (Expiring.Store.lookup_mono (Nat.le_add_right _ _) found), ⟨rfl, current.sound.2⟩⟩

end Current

/-- The cache never goes back in time in a run whose writes find no other response in Redis, and
whose reads find their url at one of the levels. -/
theorem twoLevel_never_back {library : RedisLibrary} (separates : library.Separates) {n : Int}
    {garbage : Nat} {labels : List TwoLevelStep} (plain : ∀ label ∈ labels, label.Plain)
    (agree : (twoLevelMachine library).Meets LevelsAgree (TwoLevel.new n garbage) labels) :
    (twoLevelMachine library).Always NeverBack (TwoLevel.new n garbage) labels := by
  -- Plain labels ask nothing of the states.
  have met := (Machine.meets_of_forall fun label member _ => plain label member).and agree
  exact Machine.always_of_meets (Current.step separates) (fun _ current => current.sound)
    (Current.start n garbage) met

/-- A url is written, disappears from memory, and is read from Redis. -/
theorem twoLevel_never_back_miss :
    (twoLevelMachine splittingLibrary).Always NeverBack (TwoLevel.new 1 0)
      [.writeCache (ascii ['u']) (ascii ['a']) 5, .forget (ascii ['u']),
        .readCache (ascii ['u']) 6] := by
  refine twoLevel_never_back separates_splittingLibrary ?_ ?_
  · simp only [List.mem_cons, List.not_mem_nil, or_false, forall_eq_or_imp, forall_eq]
    exact ⟨⟨by decide, plain_ascii (by decide), plain_ascii (by decide)⟩, trivial,
      ⟨by decide, plain_ascii (by decide)⟩⟩
  · refine ⟨⟨fun value found => (by cases found), ?_⟩, fun _ first => ?_⟩
    · unfold Lru.Evicts
      decide
    · cases first
      refine ⟨trivial, fun _ second => ?_⟩
      cases second
      -- Redis holds what memory has lost.
      exact ⟨.inr (by decide), fun _ _ => trivial⟩

/-- A url is written twice, disappears from memory, and the first response is read from Redis. -/
theorem twoLevel_goes_back :
    ∃ cache, (twoLevelMachine splittingLibrary).run (TwoLevel.new 1 0)
        [.writeCache (ascii ['u']) (ascii ['a']) 5, .writeCache (ascii ['u']) (ascii ['b']) 6,
          .forget (ascii ['u']), .readCache (ascii ['u']) 7] = some cache ∧
      cache.fault = none ∧ ¬ NeverBack cache := by
  refine ⟨_, rfl, rfl, fun sound => ?_⟩
  -- The read returned the first response, after the second was written.
  have read := sound.2 { url := ascii ['u'], seen := [(ascii ['u'], ascii ['a']),
    (ascii ['u'], ascii ['b'])], content := ascii ['a'] } (by decide)
  exact absurd read (by decide)

end EnhancedProxy

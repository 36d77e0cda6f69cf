import EnhancedProxy.Cache.Operations

/-! The memory cache: readers share an `Lru` by a pointer, and a writer copies it if it must. -/

namespace EnhancedProxy

/-- A call of `readCache` that holds its pointer, with the writes ordered before it took it. -/
structure Reading where
  lru : Nat
  url : Bytes
  seen : List (Bytes × Bytes)
  deriving DecidableEq, Repr

/-- What a call of `readCache` has returned. -/
structure ReadResult where
  url : Bytes
  seen : List (Bytes × Bytes)
  content : Bytes
  deriving DecidableEq, Repr

/-- An `assert` that fails, or a call on an `Lru` that goes wrong. -/
inductive CacheFault
  | assertion
  | lru (fault : LruFault)
  deriving DecidableEq, Repr

/-- A `MemoryCache`, the `Lru` objects it has made, and the pointers its readers hold. The history
keeps the writes, for each `put` whether a reader held its `Lru`, and what the reads returned. -/
structure MemoryCache where
  lrus : Nat → Lru
  lruCount : Nat := 1
  lruCache : Nat := 0
  readings : List Reading := []
  fault : Option CacheFault := none
  writes : List (Bytes × Bytes) := []
  putsHeld : List Bool := []
  results : List ReadResult := []

/-- What can happen to a `MemoryCache`, with the clock readings seen. -/
inductive CacheStep
  | takePointer (url : Bytes)
  | get (i : Nat) (now : Int)
  | writeCache (url respond : Bytes) (clock : Nat → Int) (now : Int)

namespace MemoryCache

/-- The constructor, which converts its `int` to a `size_t`. -/
def new (n : Int) (garbage : Nat) : MemoryCache where
  lrus := fun _ => Lru.new (toUnsigned64 n) garbage

/-- Whether a reader holds a pointer to an `Lru`. -/
def held (cache : MemoryCache) (k : Nat) : Bool := cache.readings.any (·.lru = k)

/-- How many pointers to an `Lru` there are: those of the readers, and that of the cache. -/
def useCount (cache : MemoryCache) (k : Nat) : Nat :=
  (if cache.lruCache = k then 1 else 0) + cache.readings.countP (·.lru = k)

/-- The first part of `readCache`, under the lock. -/
def takePointer (cache : MemoryCache) (url : Bytes) : MemoryCache :=
  let after := { cache with
    readings := cache.readings ++ [{ lru := cache.lruCache, url := url, seen := cache.writes }] }
  -- `assert(!lru_cache.unique())`, with the copy of the pointer in place.
  if after.useCount after.lruCache = 1 then { after with fault := some .assertion } else after

/-- The second part of `readCache`, which holds no lock and releases the pointer at its end. -/
def get (cache : MemoryCache) (i : Nat) (now : Int) : Option MemoryCache :=
  match cache.readings[i]? with
  | none => none
  | some reading =>
    match (cache.lrus reading.lru).get now reading.url with
    | .error fault => some { cache with fault := some (.lru fault) }
    | .ok (content, lru) =>
      some { cache with
        lrus := Function.update cache.lrus reading.lru lru
        readings := cache.readings.eraseIdx i
        results := cache.results ++
          [{ url := reading.url, seen := reading.seen, content := content }] }

/-- `lru_cache.reset(new Lru(*lru_cache))`, unless nobody else has a pointer to it. -/
def unshare (cache : MemoryCache) (clock : Nat → Int) : MemoryCache :=
  if cache.useCount cache.lruCache = 1 then cache
  else
    { cache with
      lrus := Function.update cache.lrus cache.lruCount ((cache.lrus cache.lruCache).copy clock)
      lruCount := cache.lruCount + 1
      lruCache := cache.lruCount }

/-- `writeCache`, all of it under the lock. -/
def writeCache (cache : MemoryCache) (url respond : Bytes) (clock : Nat → Int) (now : Int) :
    MemoryCache :=
  let cache := cache.unshare clock
  -- `assert(lru_cache.unique())`.
  if cache.useCount cache.lruCache ≠ 1 then { cache with fault := some .assertion }
  else
    match (cache.lrus cache.lruCache).put now url respond with
    | .error fault => { cache with fault := some (.lru fault) }
    | .ok lru =>
      { cache with
        lrus := Function.update cache.lrus cache.lruCache lru
        writes := cache.writes ++ [(url, respond)]
        putsHeld := cache.putsHeld ++ [cache.held cache.lruCache] }

end MemoryCache

/-- The memory cache as a machine, until a fault. -/
def memoryCacheMachine : Machine MemoryCache CacheStep where
  step cache label :=
    if cache.fault.isSome then none
    else
      match label with
      | .takePointer url => some (cache.takePointer url)
      | .get i now => cache.get i now
      | .writeCache url respond clock now => some (cache.writeCache url respond clock now)

/-- The response written last for each url. -/
def lastWrite (writes : List (Bytes × Bytes)) : Bytes → Option Bytes :=
  writes.foldl (fun last write => Function.update last write.1 (some write.2)) fun _ => none

/-- A step at which no entry expires and no put evicts. -/
def Undisturbed (cache : MemoryCache) : CacheStep → Prop
  | .takePointer _ => True
  | .get i now => ∀ reading ∈ cache.readings[i]?,
      ¬ (cache.lrus reading.lru).Expires now reading.url
  | .writeCache url _ _ _ => ¬ (cache.lrus cache.lruCache).Evicts url

/-- Every `Lru` that is pointed to has been made, and is well formed. -/
structure Sound (cache : MemoryCache) : Prop where
  current : cache.lruCache < cache.lruCount
  formed : ∀ k < cache.lruCount, WellFormed (cache.lrus k)
  holds : ∀ reading ∈ cache.readings, reading.lru < cache.lruCount

/-- Every `Lru` holds what was written before its readers took their pointers to it. -/
structure Isolated (cache : MemoryCache) : Prop where
  current : cache.lruCache < cache.lruCount
  formed : ∀ k < cache.lruCount, WellFormed (cache.lrus k)
  latest : (cache.lrus cache.lruCache).find = lastWrite cache.writes
  holds : ∀ reading ∈ cache.readings, reading.lru < cache.lruCount ∧
    (cache.lrus reading.lru).find = lastWrite reading.seen
  sound : cache.fault = none
  unheld : ∀ held ∈ cache.putsHeld, held = false
  exact : ∀ result ∈ cache.results,
    result.content = (lastWrite result.seen result.url).getD []

/-- The last write to a url decides, and the others stay. -/
theorem lastWrite_snoc (writes : List (Bytes × Bytes)) (url respond : Bytes) :
    lastWrite (writes ++ [(url, respond)]) =
      Function.update (lastWrite writes) url (some respond) := by
  simp [lastWrite]

/-- The cache is the only one to point at its `Lru` exactly while no reader holds it. -/
theorem useCount_eq_one_iff (cache : MemoryCache) :
    cache.useCount cache.lruCache = 1 ↔ cache.held cache.lruCache = false := by
  simp [MemoryCache.useCount, MemoryCache.held, List.countP_eq_zero]

/-- After `unshare` no reader holds the cache's own `Lru`, which has the entries it had, and no
other `Lru` is touched. -/
theorem Sound.unshare {cache : MemoryCache} (sound : Sound cache) (clock : Nat → Int) :
    Sound (cache.unshare clock) ∧
      (cache.unshare clock).held (cache.unshare clock).lruCache = false ∧
      ((cache.unshare clock).lrus (cache.unshare clock).lruCache).entries =
        (cache.lrus cache.lruCache).entries ∧
      ((cache.unshare clock).lrus (cache.unshare clock).lruCache).maxSize =
        (cache.lrus cache.lruCache).maxSize ∧
      (cache.unshare clock).readings = cache.readings ∧
      ∀ k < cache.lruCount, (cache.unshare clock).lrus k = cache.lrus k := by
  unfold MemoryCache.unshare
  split
  · rename_i unique
    exact ⟨sound, (useCount_eq_one_iff cache).mp unique, rfl, rfl, rfl, fun _ _ => rfl⟩
  · -- The copy is at an address that no reader has seen.
    obtain ⟨formed, entries⟩ := (sound.formed _ sound.current).copy clock
    have older {k : Nat} (below : k < cache.lruCount) :
        Function.update cache.lrus cache.lruCount ((cache.lrus cache.lruCache).copy clock) k =
          cache.lrus k := Function.update_of_ne (Nat.ne_of_lt below) _ _
    have new : Function.update cache.lrus cache.lruCount
        ((cache.lrus cache.lruCache).copy clock) cache.lruCount =
          (cache.lrus cache.lruCache).copy clock := Function.update_self _ _ _
    refine ⟨⟨Nat.lt_succ_self _, fun k below => ?_, fun reading member => ?_⟩, ?_, ?_, ?_, rfl,
      fun k below => older below⟩
    · dsimp only
      rcases Nat.lt_succ_iff_lt_or_eq.mp below with below | last
      · rw [older below]
        exact sound.formed k below
      · rw [last, new]
        exact formed
    · exact Nat.lt_succ_of_lt (sound.holds reading member)
    · show cache.readings.any _ = false
      rw [List.any_eq_false]
      intro reading member
      simpa using Nat.ne_of_lt (sound.holds reading member)
    · exact (congrArg Lru.entries new).trans entries
    · dsimp only
      rw [new]
      rfl

/-- Copying the `Lru` is not recorded. -/
theorem unshare_records (cache : MemoryCache) (clock : Nat → Int) :
    (cache.unshare clock).fault = cache.fault ∧ (cache.unshare clock).writes = cache.writes ∧
      (cache.unshare clock).putsHeld = cache.putsHeld ∧
      (cache.unshare clock).results = cache.results := by
  -- Copied or not, only the objects and the pointer to the current one are written.
  unfold MemoryCache.unshare
  split <;> exact ⟨rfl, rfl, rfl, rfl⟩

namespace Isolated

variable {cache : MemoryCache}

/-- A new cache has no readers and no writes. -/
theorem start (n : Int) (garbage : Nat) : Isolated (MemoryCache.new n garbage) where
  -- The single object is empty and nobody holds it.
  current := Nat.one_pos
  formed _ _ := wellFormed_new _ garbage
  latest := rfl
  holds _ member := absurd member List.not_mem_nil
  sound := rfl
  unheld _ member := absurd member List.not_mem_nil
  exact _ member := absurd member List.not_mem_nil

/-- A reader that takes the pointer sees all writes so far. -/
theorem takePointer (isolated : Isolated cache) (url : Bytes) :
    Isolated (cache.takePointer url) := by
  have shared : ({ cache with readings := cache.readings ++
      [{ lru := cache.lruCache, url := url, seen := cache.writes }] } : MemoryCache).useCount
      cache.lruCache ≠ 1 := by
    -- The new pointer is counted.
    simp [MemoryCache.useCount]
  unfold MemoryCache.takePointer
  rw [if_neg shared]
  refine { isolated with holds := fun reading member => ?_ }
  rcases List.mem_append.mp member with old | new
  · exact isolated.holds reading old
  · rw [List.mem_singleton.mp new]
    exact ⟨isolated.current, isolated.latest⟩

/-- An `Lru` may be replaced by one with the same contents. -/
theorem replace (isolated : Isolated cache) (k : Nat) {lru : Lru} (formed : WellFormed lru)
    (same : lru.find = (cache.lrus k).find) :
    Isolated { cache with lrus := Function.update cache.lrus k lru } := by
  -- No `Lru` has changed its contents.
  have find (j : Nat) : (Function.update cache.lrus k lru j).find = (cache.lrus j).find := by
    by_cases here : j = k
    · rw [here, Function.update_self, same]
    · rw [Function.update_of_ne here]
  refine { isolated with
    formed := fun j below => ?_
    latest := (find _).trans isolated.latest
    holds := fun reading member => ?_ }
  · by_cases here : j = k
    · subst here
      simpa using formed
    · simpa [Function.update_of_ne here] using isolated.formed j below
  · obtain ⟨below, seen⟩ := isolated.holds reading member
    exact ⟨below, (find _).trans seen⟩

/-- A read returns what was written last before it took its pointer. -/
theorem get (isolated : Isolated cache) {i : Nat} {now : Int} {next : MemoryCache}
    (fresh : ∀ reading ∈ cache.readings[i]?, ¬ (cache.lrus reading.lru).Expires now reading.url)
    (ran : cache.get i now = some next) : Isolated next := by
  unfold MemoryCache.get at ran
  cases active : cache.readings[i]? with
  | none =>
    rw [active] at ran
    cases ran
  | some reading =>
    have member := List.mem_of_getElem? active
    obtain ⟨below, seen⟩ := isolated.holds reading member
    have formed := isolated.formed reading.lru below
    -- The shared `Lru` is reordered by a hit, and its contents stay.
    have returned : ∃ lru, (cache.lrus reading.lru).get now reading.url =
        .ok ((lastWrite reading.seen reading.url).getD [], lru) ∧ WellFormed lru ∧
          lru.find = (cache.lrus reading.lru).find := by
      rw [← seen]
      cases found : (cache.lrus reading.lru).find reading.url with
      | none => exact ⟨_, formed.get_miss found now, formed, rfl⟩
      | some content =>
        obtain ⟨lru, returned, becomes⟩ := formed.get_hit found (fresh reading active)
        refine ⟨lru, returned, becomes.formed, ?_⟩
        rw [becomes.find_touch formed]
        exact Function.update_eq_self_iff.mpr found.symm
    obtain ⟨lru, returned, formedNext, same⟩ := returned
    simp only [active, returned, Option.some.injEq] at ran
    subst ran
    have replaced := isolated.replace reading.lru formedNext same
    refine { replaced with
      holds := fun other remaining => replaced.holds other (List.mem_of_mem_eraseIdx remaining)
      exact := fun result returned => ?_ }
    rcases List.mem_append.mp returned with old | new
    · exact isolated.exact result old
    · rw [List.mem_singleton.mp new]

/-- The cache and its readers point at what was made. -/
theorem toSound (isolated : Isolated cache) : Sound cache :=
  ⟨isolated.current, isolated.formed, fun reading member => (isolated.holds reading member).1⟩

/-- After `unshare` no reader holds the cache's own `Lru`, which has the contents it had. -/
theorem unshare (isolated : Isolated cache) (clock : Nat → Int) :
    Isolated (cache.unshare clock) ∧
      (cache.unshare clock).held (cache.unshare clock).lruCache = false ∧
      ((cache.unshare clock).lrus (cache.unshare clock).lruCache).entries =
        (cache.lrus cache.lruCache).entries ∧
      ((cache.unshare clock).lrus (cache.unshare clock).lruCache).maxSize =
        (cache.lrus cache.lruCache).maxSize := by
  -- Copying keeps the entries, so the latest writes can be read off the new current object,
  -- and the older objects, which readings hold, are not touched.
  obtain ⟨sound, free, entries, maxSize, readings, older⟩ := isolated.toSound.unshare clock
  obtain ⟨fault, writes, putsHeld, results⟩ := unshare_records cache clock
  refine ⟨⟨sound.current, sound.formed, ?_, fun reading member => ⟨sound.holds reading member, ?_⟩,
    fault.trans isolated.sound, putsHeld ▸ isolated.unheld, results ▸ isolated.exact⟩,
    free, entries, maxSize⟩
  · rw [writes, ← isolated.latest]
    have formed := isolated.formed _ isolated.current
    exact formed.find_congr (sound.formed _ sound.current) entries
  · obtain ⟨below, seen⟩ := isolated.holds reading (readings ▸ member)
    rw [older _ below, seen]

/-- A write goes to an `Lru` that no reader holds. -/
theorem writeCache (isolated : Isolated cache) {url : Bytes}
    (roomy : ¬ (cache.lrus cache.lruCache).Evicts url) (respond : Bytes) (clock : Nat → Int)
    (now : Int) : Isolated (cache.writeCache url respond clock now) := by
  obtain ⟨unshared, free, entries, maxSize⟩ := isolated.unshare clock
  unfold MemoryCache.writeCache
  dsimp only
  generalize cache.unshare clock = after at unshared free entries maxSize
  rw [if_neg (by rw [ne_eq, not_not]; exact (useCount_eq_one_iff after).mpr free)]
  have formed := unshared.formed _ unshared.current
  have stillRoomy : ¬ (after.lrus after.lruCache).Evicts url := by
    rwa [(isolated.formed _ isolated.current).evicts_congr formed entries maxSize]
  obtain ⟨lru, returned, becomes⟩ := formed.put stillRoomy now respond
  simp only [returned]
  -- The readers hold other objects.
  have other {reading : Reading} (member : reading ∈ after.readings) :
      reading.lru ≠ after.lruCache := by
    have all := List.any_eq_false.mp free reading member
    simpa using all
  refine { unshared with
    formed := fun j below => ?_
    latest := ?_
    holds := fun reading member => ?_
    unheld := fun held member => ?_ }
  · by_cases here : j = after.lruCache
    · subst here
      simpa using becomes.formed
    · simpa [Function.update_of_ne here] using unshared.formed j below
  · show (Function.update after.lrus after.lruCache lru after.lruCache).find = _
    rw [Function.update_self, becomes.find_touch formed, unshared.latest, lastWrite_snoc]
  · obtain ⟨below, seen⟩ := unshared.holds reading member
    refine ⟨below, ?_⟩
    show (Function.update after.lrus after.lruCache lru reading.lru).find = _
    rw [Function.update_of_ne (other member)]
    exact seen
  · rcases List.mem_append.mp member with old | new
    · exact unshared.unheld held old
    · rw [List.mem_singleton.mp new]
      exact free

/-- An undisturbed step keeps the readers isolated. -/
theorem step (cache : MemoryCache) (label : CacheStep) (next : MemoryCache)
    (isolated : Isolated cache) (undisturbed : Undisturbed cache label)
    (stepped : memoryCacheMachine.step cache label = some next) : Isolated next := by
  -- The machine stops at a fault, and the invariant says that there is none yet.
  simp only [memoryCacheMachine, isolated.sound, Option.isSome_none, Bool.false_eq_true,
    if_false] at stepped
  cases label with
  | takePointer url =>
    cases stepped
    exact isolated.takePointer url
  | get i now => exact isolated.get undisturbed stepped
  | writeCache url respond clock now =>
    cases stepped
    exact isolated.writeCache undisturbed respond clock now

end Isolated

end EnhancedProxy

import EnhancedProxy.Cache.CopyLifetime
import EnhancedProxy.Cache.MemoryCache
import EnhancedProxy.Library.RealTime
import Mathlib.Data.List.Permutation

/-! The calls of a memory cache, and the sequential orders of them that leave an `Lru` the same. -/

namespace EnhancedProxy

open TimedCall

/-- The calls of a `MemoryCache`: the steps so far, the reads under way with their urls and starts,
the calls that have finished, and the clock reading at the last write of each url. -/
structure CallHistory where
  steps : Nat := 0
  pending : List (Bytes × Nat) := []
  calls : List (TimedCall LruCall) := []
  puts : Bytes → Option Int := fun _ => none

/-- What a step adds. A read lasts from its pointer to its `get`, and a write is one step. -/
def CallHistory.note (history : CallHistory) : CacheStep → CallHistory
  | .takePointer url =>
    { history with
      steps := history.steps + 1
      pending := history.pending ++ [(url, history.steps)] }
  | .get i now =>
    match history.pending[i]? with
    | none => history
    | some (url, start) =>
      { history with
        steps := history.steps + 1
        pending := history.pending.eraseIdx i
        calls := history.calls ++ [⟨.get now url, start, history.steps⟩] }
  | .writeCache url respond _ now =>
    { history with
      steps := history.steps + 1
      calls := history.calls ++ [⟨.put now url respond, history.steps, history.steps⟩]
      puts := recordPut history.puts (.put now url respond) }

/-- The memory cache as a machine, with the history of its calls. -/
def callsMachine : Machine (MemoryCache × CallHistory) CacheStep :=
  memoryCacheMachine.recording CallHistory.note

/-- All calls have completed. -/
def Completed (state : MemoryCache × CallHistory) : Prop :=
  state.1.fault = none ∧ state.1.readings = []

/-- The contents and the recency order of the current `Lru` are those that the same calls leave in
one `Lru`, in some order that respects real time. -/
def Linearizable (n : Int) (garbage : Nat) (state : MemoryCache × CallHistory) : Prop :=
  ∃ order, order.Perm state.2.calls ∧ RealTime order ∧
    ∃ lru, replay lruMachine (Lru.new (toUnsigned64 n) garbage) order = some lru ∧
      lru.entries = (state.1.lrus state.1.lruCache).entries

/-- More than `expiredTime_` has passed since a put, in the arithmetic of `get`. -/
def AgedSince (put now : Int) : Prop :=
  toUnsigned64 (toUnsigned64 now - toUnsigned64 put : Int) > 2 ^ 31 - 1

/-- A read either finds no entry in its `Lru`, or no write has replaced the `Lru` since it took its
pointer, and its entry is as old as its last write makes it. -/
def NotOvertaken (state : MemoryCache × CallHistory) : CacheStep → Prop
  | .get i now => ∀ reading ∈ state.1.readings[i]?,
    (state.1.lrus reading.lru).find reading.url = none ∨
      reading.lru = state.1.lruCache ∧ ∀ put, state.2.puts reading.url = some put →
        ((state.1.lrus reading.lru).Expires now reading.url ↔ AgedSince put now)
  | _ => True

/-- What is computed from the outcome of an operation that returns. -/
theorem of_map_ok {α β : Type} {outcome : Except LruFault α} {f : α → β} {b : β}
    (returned : outcome.map f = .ok b) : ∃ a, outcome = .ok a ∧ f a = b := by
  -- A fault would be handed on by `map`.
  cases outcome with
  | error fault => cases returned
  | ok a => exact ⟨a, rfl, Except.ok.inj returned⟩

/-- A call that shows entries leaves them. -/
theorem step_of_observe {lru : Lru} {call : LruCall} {answer : Bytes}
    {entries : List (Bytes × Bytes)} (shown : call.observe lru = .ok (answer, entries)) :
    ∃ next, lruMachine.step lru call = some next ∧ next.entries = entries := by
  -- An outcome that shows an answer is not a fault, so the machine takes the step.
  cases call with
  | put now url content =>
    obtain ⟨next, returned, shows⟩ := of_map_ok shown
    exact ⟨next, by simp only [lruMachine, returned]; rfl, congrArg Prod.snd shows⟩
  | get now url =>
    obtain ⟨⟨own, next⟩, returned, shows⟩ := of_map_ok shown
    exact ⟨next, by simp only [lruMachine, returned]; rfl, congrArg Prod.snd shows⟩
  | erase url =>
    obtain ⟨next, returned, shows⟩ := of_map_ok shown
    exact ⟨next, by simp only [lruMachine, returned]; rfl, congrArg Prod.snd shows⟩

/-- A call that shows the same on another `Lru` leaves the same there. -/
theorem step_alongside {lru other next : Lru} {call : LruCall} (formed : WellFormed lru)
    (formedOther : WellFormed other) (maxSize : other.maxSize = lru.maxSize)
    (same : call.observe other = call.observe lru)
    (stepped : lruMachine.step lru call = some next) :
    ∃ after, lruMachine.step other call = some after ∧ after.entries = next.entries ∧
      after.maxSize = next.maxSize := by
  -- The other object shows the same, so it takes the step and has the same entries after it.
  obtain ⟨answer, shown⟩ := observe_of_step stepped
  obtain ⟨after, steppedOther, entries⟩ := step_of_observe (same.trans shown)
  refine ⟨after, steppedOther, entries, ?_⟩
  rw [(formedOther.stamp_step steppedOther).1, (formed.stamp_step stepped).1, maxSize]

/-- A read that returns has made its call on the `Lru` it held. -/
theorem get_returns {cache next : MemoryCache} {i : Nat} {now : Int}
    (got : cache.get i now = some next) (returned : next.fault = none) :
    ∃ reading lru results, cache.readings[i]? = some reading ∧
      lruMachine.step (cache.lrus reading.lru) (.get now reading.url) = some lru ∧
      next = { cache with
        lrus := Function.update cache.lrus reading.lru lru
        readings := cache.readings.eraseIdx i
        results := results } := by
  -- A lookup that neither lacks its reading nor fails has run on the object the reading holds.
  unfold MemoryCache.get at got
  cases active : cache.readings[i]? with
  | none =>
    rw [active] at got
    cases got
  | some reading =>
    rw [active] at got
    dsimp only at got
    split at got
    · cases got
      cases returned
    · rename_i content lru answered
      cases got
      exact ⟨reading, lru, _, rfl, by simp only [lruMachine, answered]; rfl, rfl⟩

/-- A write that returns has made its call on an `Lru` with the entries of the current one, which no
reader holds, and that is now the current one. -/
theorem Sound.writeCache {cache : MemoryCache} (sound : Sound cache) {url respond : Bytes}
    {clock : Nat → Int} {now : Int}
    (returned : (cache.writeCache url respond clock now).fault = none) :
    Sound (cache.writeCache url respond clock now) ∧
      (cache.writeCache url respond clock now).readings = cache.readings ∧
      (∀ reading ∈ cache.readings,
        reading.lru ≠ (cache.writeCache url respond clock now).lruCache ∧
        (cache.writeCache url respond clock now).lrus reading.lru = cache.lrus reading.lru) ∧
      ∃ base, WellFormed base ∧ base.entries = (cache.lrus cache.lruCache).entries ∧
        base.maxSize = (cache.lrus cache.lruCache).maxSize ∧
        lruMachine.step base (.put now url respond) =
          some ((cache.writeCache url respond clock now).lrus
            (cache.writeCache url respond clock now).lruCache) := by
  -- The put is on an object that only the cache points to, copied if a reader held the old one.
  obtain ⟨unshared, free, entries, maxSize, readings, older⟩ := sound.unshare clock
  unfold MemoryCache.writeCache at returned ⊢
  dsimp only at returned ⊢
  generalize cache.unshare clock = after at *
  rw [if_neg (by rw [ne_eq, not_not]; exact (useCount_eq_one_iff after).mpr free)] at returned ⊢
  have formed := unshared.formed _ unshared.current
  cases put : (after.lrus after.lruCache).put now url respond with
  | error fault =>
    rw [put] at returned
    cases returned
  | ok lru =>
    have stepped :
        lruMachine.step (after.lrus after.lruCache) (.put now url respond) = some lru := by
      simp only [lruMachine, put]
      rfl
    -- The readers hold other objects.
    have other {reading : Reading} (member : reading ∈ cache.readings) :
        reading.lru ≠ after.lruCache := by
      have all := List.any_eq_false.mp free reading (readings ▸ member)
      simpa using all
    refine ⟨⟨unshared.current, fun k below => ?_, unshared.holds⟩, readings, fun reading member =>
      ⟨other member, ?_⟩, _, formed, entries, maxSize, ?_⟩
    · dsimp only
      by_cases here : k = after.lruCache
      · rw [here, Function.update_self]
        exact wellFormed_step formed stepped
      · rw [Function.update_of_ne here]
        exact unshared.formed k below
    · dsimp only
      rw [Function.update_of_ne (other member), older _ (sound.holds reading member)]
    · dsimp only
      rw [stepped, Function.update_self]

/-- A read has a place in the order, as long as its `Lru` is not the current one: where the calls
before leave an `Lru` with the same entries, and those after have finished since the read began. -/
def HasPlace (start : Lru) (cache : MemoryCache) (order : List (TimedCall LruCall))
    (reading : Reading) (since : Nat) : Prop :=
  reading.lru ≠ cache.lruCache →
    ∃ lru, WellFormed lru ∧ Passes lruMachine start order lru since ∧
      lru.entries = (cache.lrus reading.lru).entries

/-- The calls that have finished, in an order that leaves an `Lru` like the current one, and in
which every read under way has its place. -/
structure Arranged (start : Lru) (state : MemoryCache × CallHistory)
    (order : List (TimedCall LruCall)) : Prop where
  sound : Sound state.1
  perm : order.Perm state.2.calls
  realTime : RealTime order
  begun : ∀ call ∈ order, call.start ≤ state.2.steps
  reference : ∃ reference, replay lruMachine start order = some reference ∧
    reference.entries = (state.1.lrus state.1.lruCache).entries ∧
    reference.maxSize = (state.1.lrus state.1.lruCache).maxSize ∧ Stamped (reference, state.2.puts)
  aligned : state.2.pending.length = state.1.readings.length
  pending : ∀ (i : Nat) (reading : Reading), state.1.readings[i]? = some reading →
    ∃ since, state.2.pending[i]? = some (reading.url, since) ∧ since ≤ state.2.steps ∧
      HasPlace start state.1 order reading since

namespace Arranged

variable {start : Lru} {cache next : MemoryCache} {history : CallHistory}
  {order : List (TimedCall LruCall)}

/-- Before the first call. -/
theorem new (n : Int) (garbage : Nat) :
    Arranged (Lru.new (toUnsigned64 n) garbage) (MemoryCache.new n garbage, {}) [] where
  -- Before the first event nothing is pending, nothing is returned and the order is empty.
  sound := (Isolated.start n garbage).toSound
  perm := List.Perm.refl []
  realTime := List.Pairwise.nil
  begun := nofun
  reference := ⟨_, rfl, rfl, rfl, Stamped.start _ garbage⟩
  aligned := rfl
  pending _ _ active := by cases active

/-- A read that takes the pointer holds the current `Lru`. -/
theorem takePointer (arranged : Arranged start (cache, history) order) (url : Bytes) :
    Arranged start (cache.takePointer url, history.note (.takePointer url)) order := by
  -- The new pointer makes at least two, so the assertion holds.
  have shared : ({ cache with readings := cache.readings ++
      [{ lru := cache.lruCache, url := url, seen := cache.writes }] } : MemoryCache).useCount
      cache.lruCache ≠ 1 := by
    simp [MemoryCache.useCount]
  unfold MemoryCache.takePointer
  rw [if_neg shared]
  refine ⟨⟨arranged.sound.current, arranged.sound.formed, fun reading member => ?_⟩, arranged.perm,
    arranged.realTime, fun call member => Nat.le_succ_of_le (arranged.begun call member),
    arranged.reference, ?_, fun i reading active => ?_⟩
  · rcases List.mem_append.mp member with old | new
    · exact arranged.sound.holds reading old
    · rw [List.mem_singleton.mp new]
      exact arranged.sound.current
  · simp [CallHistory.note, arranged.aligned]
  · by_cases within : i < cache.readings.length
    · rw [List.getElem?_append_left within] at active
      obtain ⟨since, waits, past, place⟩ := arranged.pending i reading active
      refine ⟨since, ?_, Nat.le_succ_of_le past, place⟩
      exact (List.getElem?_append_left (by rw [arranged.aligned]; exact within)).trans waits
    · -- The new reading is the last one, and begins now.
      rw [List.getElem?_append_right (Nat.le_of_not_lt within), List.getElem?_singleton] at active
      split at active
      · rename_i last
        cases active
        refine ⟨history.steps, ?_, Nat.le_succ _, fun overtaken => absurd rfl overtaken⟩
        have aligned := arranged.aligned
        dsimp only at aligned
        simp only [CallHistory.note]
        rw [List.getElem?_append_right (by omega), aligned, last]
        rfl
      · cases active

/-- A write that returns comes last. -/
theorem writeCache (arranged : Arranged start (cache, history) order) {url respond : Bytes}
    {clock : Nat → Int} {now : Int}
    (returned : (cache.writeCache url respond clock now).fault = none) :
    Arranged start (cache.writeCache url respond clock now,
      history.note (.writeCache url respond clock now))
      (order ++ [⟨.put now url respond, history.steps, history.steps⟩]) := by
  obtain ⟨sound, readings, others, base, formed, entries, maxSize, stepped⟩ :=
    arranged.sound.writeCache returned
  obtain ⟨reference, ran, same, size, stamped⟩ := arranged.reference
  -- The order's own `Lru` takes the same put.
  have shows := observe_put formed stamped.formed (same.trans entries.symm)
    (size.trans maxSize.symm) now url respond
  obtain ⟨after, steppedToo, sameAfter, sizeAfter⟩ :=
    step_alongside formed stamped.formed (size.trans maxSize.symm) shows stepped
  refine ⟨sound, arranged.perm.append_right _, arranged.realTime.append arranged.begun,
    fun call member => ?_,
    ⟨after, (replay_append ran _).trans steppedToo, sameAfter, sizeAfter, ?_⟩,
    arranged.aligned.trans (congrArg List.length readings).symm, fun i reading active => ?_⟩
  · rcases List.mem_append.mp member with old | new
    · exact Nat.le_succ_of_le (arranged.begun call old)
    · rw [List.mem_singleton.mp new]
      exact Nat.le_succ _
  · exact stamped.step (Option.map_eq_some_iff.mpr ⟨after, steppedToo, rfl⟩)
  · -- The reads under way keep their objects, which this write does not touch.
    dsimp only at active
    rw [readings] at active
    obtain ⟨since, waits, past, place⟩ := arranged.pending i reading active
    refine ⟨since, waits, Nat.le_succ_of_le past, fun _ => ?_⟩
    dsimp only
    rw [(others reading (List.mem_of_getElem? active)).2]
    by_cases current : reading.lru = cache.lruCache
    · -- This write has overtaken the read, whose place is before it.
      exact ⟨reference, stamped.formed, (Passes.last ran since).append past, current ▸ same⟩
    · -- A read that was overtaken before keeps its place.
      obtain ⟨lru, formedLru, passes, sameLru⟩ := place current
      exact ⟨lru, formedLru, passes.append past, sameLru⟩

/-- A read that returns is given a place in the order. -/
theorem finish (arranged : Arranged start (cache, history) order) {i since : Nat} {now : Int}
    {reading : Reading} {lru : Lru} {results : List ReadResult} {placed : List (TimedCall LruCall)}
    (active : cache.readings[i]? = some reading)
    (waits : history.pending[i]? = some (reading.url, since))
    (stepped : lruMachine.step (cache.lrus reading.lru) (.get now reading.url) = some lru)
    (perm : placed.Perm (order ++ [⟨.get now reading.url, since, history.steps⟩]))
    (realTime : RealTime placed)
    (reference : ∃ reference, replay lruMachine start placed = some reference ∧
      reference.entries =
        (Function.update cache.lrus reading.lru lru cache.lruCache).entries ∧
      reference.maxSize = (Function.update cache.lrus reading.lru lru cache.lruCache).maxSize ∧
      Stamped (reference, history.puts))
    (places : ∀ other since, since ≤ history.steps → HasPlace start cache order other since →
      HasPlace start { cache with lrus := Function.update cache.lrus reading.lru lru } placed other
        since) :
    Arranged start ({ cache with
        lrus := Function.update cache.lrus reading.lru lru
        readings := cache.readings.eraseIdx i
        results := results }, history.note (.get i now)) placed := by
  have below := arranged.sound.holds reading (List.mem_of_getElem? active)
  obtain ⟨own, waitsToo, past, -⟩ := arranged.pending i reading active
  obtain rfl : own = since := congrArg Prod.snd (Option.some.inj (waitsToo.symm.trans waits))
  simp only [CallHistory.note, waits]
  refine ⟨⟨arranged.sound.current, fun k made => ?_, fun other member => ?_⟩,
    perm.trans (arranged.perm.append_right _), realTime, fun call member => ?_, reference, ?_,
    fun j other stays => ?_⟩
  · dsimp only
    by_cases here : k = reading.lru
    · -- The call is on the object of the reader, and leaves the others alone.
      rw [here, Function.update_self]
      exact wellFormed_step (arranged.sound.formed _ below) stepped
    · rw [Function.update_of_ne here]
      exact arranged.sound.formed k made
  · exact arranged.sound.holds other (List.mem_of_mem_eraseIdx member)
  · -- The call began before this step, as all others did.
    rcases List.mem_append.mp (perm.mem_iff.mp member) with old | new
    · exact Nat.le_succ_of_le (arranged.begun call old)
    · rw [List.mem_singleton.mp new]
      exact Nat.le_succ_of_le past
  · -- Both lists lose the entry of the read.
    have within := (List.getElem?_eq_some_iff.mp active).1
    simp [List.length_eraseIdx, arranged.aligned, within]
  · -- The others are where they were, or one place further on.
    have found : ∃ k : Nat, cache.readings[k]? = some other ∧
        (history.pending.eraseIdx i)[j]? = history.pending[k]? := by
      dsimp only at stays
      rw [List.getElem?_eraseIdx] at stays ⊢
      split at stays
      · rename_i before
        exact ⟨j, stays, if_pos before⟩
      · rename_i behind
        exact ⟨j + 1, stays, if_neg behind⟩
    obtain ⟨k, activeToo, moved⟩ := found
    obtain ⟨began, waitsToo, pastToo, place⟩ := arranged.pending k other activeToo
    exact ⟨began, moved.trans waitsToo, Nat.le_succ_of_le pastToo, places other began pastToo place⟩

/-- A read that finds no entry has its place where its `Lru` was the current one, or else at the
end. -/
theorem getMissing (arranged : Arranged start (cache, history) order) {i : Nat} {now : Int}
    {reading : Reading} {lru : Lru} {results : List ReadResult}
    (active : cache.readings[i]? = some reading)
    (stepped : lruMachine.step (cache.lrus reading.lru) (.get now reading.url) = some lru)
    (missing : (cache.lrus reading.lru).find reading.url = none) :
    ∃ placed, Arranged start ({ cache with
        lrus := Function.update cache.lrus reading.lru lru
        readings := cache.readings.eraseIdx i
        results := results }, history.note (.get i now)) placed := by
  have formed := arranged.sound.formed _
    (arranged.sound.holds reading (List.mem_of_getElem? active))
  -- A miss changes nothing, here and wherever the entries are the same.
  have idle {other : Lru} (formedOther : WellFormed other)
      (same : other.entries = (cache.lrus reading.lru).entries) :
      lruMachine.step other (.get now reading.url) = some other := by
    have missingToo := (congrFun (formed.find_congr formedOther same) reading.url).trans missing
    simp only [lruMachine, formedOther.get_miss missingToo]
    rfl
  obtain rfl : cache.lrus reading.lru = lru :=
    Option.some.inj ((idle formed rfl).symm.trans stepped)
  have unchanged : Function.update cache.lrus reading.lru (cache.lrus reading.lru) = cache.lrus :=
    Function.update_eq_self _ _
  obtain ⟨reference, ran, same, size, stamped⟩ := arranged.reference
  obtain ⟨since, waits, past, place⟩ := arranged.pending i reading active
  -- Where its entries are those of the current one, its place is behind all calls.
  have passed : ∃ lru, WellFormed lru ∧ Passes lruMachine start order lru since ∧
      lru.entries = (cache.lrus reading.lru).entries := by
    by_cases current : reading.lru = cache.lruCache
    · exact ⟨reference, stamped.formed, Passes.last ran since, current ▸ same⟩
    · exact place current
  obtain ⟨lru, formedLru, passes, sameLru⟩ := passed
  -- The call may stand at its place, as it changes nothing there.
  obtain ⟨placed, perm, realTime, replays, keeps⟩ :=
    passes.place ⟨.get now reading.url, since, history.steps⟩ (idle formedLru sameLru)
      arranged.realTime arranged.begun
  refine ⟨placed, arranged.finish active waits stepped perm realTime ?_ ?_⟩
  · rw [unchanged]
    exact ⟨reference, replays.trans ran, same, size, stamped⟩
  · rw [unchanged]
    intro other began before place overtaken
    obtain ⟨found, formedFound, passes, sameFound⟩ := place overtaken
    exact ⟨found, formedFound, keeps found began passes before, sameFound⟩

/-- A read of the current `Lru` comes last, if the entry is as old there as its last write makes it.
-/
theorem getCurrent (arranged : Arranged start (cache, history) order) {i : Nat} {now : Int}
    {reading : Reading} {lru : Lru} {results : List ReadResult}
    (active : cache.readings[i]? = some reading)
    (stepped : lruMachine.step (cache.lrus reading.lru) (.get now reading.url) = some lru)
    (current : reading.lru = cache.lruCache)
    (aged : ∀ put, history.puts reading.url = some put →
      ((cache.lrus reading.lru).Expires now reading.url ↔ AgedSince put now)) :
    ∃ placed, Arranged start ({ cache with
        lrus := Function.update cache.lrus reading.lru lru
        readings := cache.readings.eraseIdx i
        results := results }, history.note (.get i now)) placed := by
  have formed := arranged.sound.formed _
    (arranged.sound.holds reading (List.mem_of_getElem? active))
  obtain ⟨reference, ran, same, size, stamped⟩ := arranged.reference
  obtain ⟨since, waits, past, -⟩ := arranged.pending i reading active
  dsimp only at same size
  rw [← current] at same size
  -- Both find the entry too old, or neither does.
  have shows : (LruCall.get now reading.url).observe reference =
      (LruCall.get now reading.url).observe (cache.lrus reading.lru) := by
    refine ((observe_get_iff stamped.formed formed same.symm now reading.url).mpr ?_).symm
    intro cached
    obtain ⟨put, last⟩ := stamped.exists_put cached
    rw [aged put last, stamped.expires_iff last cached, stamped.expiredTime]
    rfl
  obtain ⟨after, steppedToo, sameAfter, sizeAfter⟩ :=
    step_alongside formed stamped.formed size shows stepped
  refine ⟨order ++ [⟨.get now reading.url, since, history.steps⟩], arranged.finish active waits
    stepped (List.Perm.refl _) (arranged.realTime.append arranged.begun)
    ⟨after, (replay_append ran _).trans steppedToo, ?_, ?_, ?_⟩ ?_⟩
  · -- The reference and the current object have taken the same call.
    rw [← current, Function.update_self]
    exact sameAfter
  · rw [← current, Function.update_self]
    exact sizeAfter
  · exact stamped.step (Option.map_eq_some_iff.mpr ⟨after, steppedToo, rfl⟩)
  · -- The places of the others are on objects that this call does not touch.
    intro other began before place overtaken
    obtain ⟨found, formedFound, passes, sameFound⟩ := place overtaken
    refine ⟨found, formedFound, passes.append before, sameFound.trans ?_⟩
    dsimp only at overtaken ⊢
    rw [← current] at overtaken
    rw [Function.update_of_ne overtaken]

/-- Every step that returns, and is not overtaken, leaves the calls arranged. -/
theorem step {state : MemoryCache × CallHistory} {label : CacheStep}
    {after : MemoryCache × CallHistory} (arranged : Arranged start state order)
    (notOvertaken : NotOvertaken state label)
    (stepped : callsMachine.step state label = some after) (returned : after.1.fault = none) :
    ∃ placed, Arranged start after placed := by
  obtain ⟨cache, history⟩ := state
  obtain ⟨next, moved, rfl⟩ := Option.map_eq_some_iff.mp stepped
  simp only [memoryCacheMachine, Option.ite_none_left_eq_some] at moved
  obtain ⟨-, moved⟩ := moved
  cases label with
  | takePointer url =>
    cases moved
    exact ⟨order, arranged.takePointer url⟩
  | writeCache url respond clock now =>
    cases moved
    exact ⟨_, arranged.writeCache returned⟩
  | get i now =>
    obtain ⟨reading, lru, results, active, called, rfl⟩ := get_returns moved returned
    -- Either it finds nothing, or it is the current object that it reads.
    rcases notOvertaken reading active with missing | ⟨current, aged⟩
    · exact arranged.getMissing active called missing
    · exact arranged.getCurrent active called current aged

end Arranged

/-- In every run in which no read is overtaken by a write, in every state in which all calls have
completed, the current `Lru` is as some sequential order of these calls that respects real time
would leave it. -/
theorem linearizable_unless_overtaken (n : Int) (garbage : Nat) (labels : List CacheStep)
    (notOvertaken : callsMachine.Meets NotOvertaken (MemoryCache.new n garbage, {}) labels) :
    callsMachine.Always (fun state => Completed state → Linearizable n garbage state)
      (MemoryCache.new n garbage, {}) labels := by
  refine Machine.always_of_meets (fun state label next (kept : state.1.fault = none → ∃ order,
      Arranged (Lru.new (toUnsigned64 n) garbage) state order) held stepped returned => ?_)
    (fun state kept completed => ?_) (fun _ => ⟨[], Arranged.new n garbage⟩) notOvertaken
  · -- A cache that has failed takes no step.
    have sound : state.1.fault = none := by
      obtain ⟨after, moved, -⟩ := Option.map_eq_some_iff.mp stepped
      simp only [memoryCacheMachine, Option.ite_none_left_eq_some] at moved
      simpa using moved.1
    obtain ⟨order, arranged⟩ := kept sound
    exact arranged.step held stepped returned
  · obtain ⟨order, arranged⟩ := kept completed.1
    obtain ⟨reference, ran, same, -⟩ := arranged.reference
    exact ⟨order, arranged.perm, arranged.realTime, reference, ran, same⟩

/-- A read that is not overtaken: two writes, and then a read of the older entry. -/
theorem linearizable_unless_overtaken_hit :
    callsMachine.Always (fun state => Completed state → Linearizable 3 0 state)
      (MemoryCache.new 3 0, {})
      [.writeCache (ascii ['a']) (ascii ['x']) (fun _ => 5) 5,
        .writeCache (ascii ['b']) (ascii ['y']) (fun _ => 6) 6, .takePointer (ascii ['a']),
        .get 0 7] := by
  -- No step before the last has a condition to meet.
  refine linearizable_unless_overtaken 3 0 _ ⟨trivial, fun _ first => ?_⟩
  cases first
  refine ⟨trivial, fun _ second => ?_⟩
  cases second
  refine ⟨trivial, fun _ third => ?_⟩
  cases third
  refine ⟨fun reading active => ?_, fun _ _ => trivial⟩
  cases active
  refine .inr ⟨rfl, fun put last => ?_⟩
  cases last
  -- The entry is two seconds old, by its stamp and by its put.
  refine iff_of_false ?_ (by unfold AgedSince; decide)
  rintro ⟨node, cached, old⟩
  cases cached
  exact absurd old (by decide)

/-- Two writes, a read of the older entry, and a third write between its two steps. -/
def overtakenRead : List CacheStep :=
  [.writeCache (ascii ['a']) (ascii ['x']) (fun _ => 5) 5,
    .writeCache (ascii ['b']) (ascii ['y']) (fun _ => 6) 6, .takePointer (ascii ['a']),
    .writeCache (ascii ['c']) (ascii ['z']) (fun _ => 7) 7, .get 0 8]

/-- The hit has been lost: in every order, the entry that was read comes after the second write. -/
theorem overtaken_hit_is_lost :
    ∃ state, callsMachine.run (MemoryCache.new 3 0, {}) overtakenRead = some state ∧
      Completed state ∧ ¬ Linearizable 3 0 state := by
  refine ⟨_, rfl, ⟨rfl, rfl⟩, fun linearizable => ?_⟩
  obtain ⟨order, perm, realTime, lru, ran, same⟩ := linearizable
  have listed := List.mem_permutations'.mpr perm
  -- Only two orders respect real time: the read comes before the third write, or after it.
  have lost : ∀ order ∈ List.permutations'
      [TimedCall.mk (LruCall.put 5 (ascii ['a']) (ascii ['x'])) 0 0,
        ⟨.put 6 (ascii ['b']) (ascii ['y']), 1, 1⟩, ⟨.put 7 (ascii ['c']) (ascii ['z']), 3, 3⟩,
        ⟨.get 8 (ascii ['a']), 2, 4⟩],
      RealTime order → (replay lruMachine (Lru.new 3 0) order).map Lru.entries ≠
        some [(ascii ['a'], ascii ['x']), (ascii ['b'], ascii ['y']),
          (ascii ['c'], ascii ['z'])] := by
    decide
  refine lost order listed realTime ?_
  exact (congrArg (Option.map Lru.entries) ran).trans (congrArg some same)

end EnhancedProxy

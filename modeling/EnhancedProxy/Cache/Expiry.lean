import EnhancedProxy.Cache.RecencyOrder

/-! Which entries of an `Lru` a `get` discards, by the clock readings at their last put. -/

namespace EnhancedProxy

/-- A `get` that finds nothing any more under a url, and leaves no entry there. -/
def Lru.Discards (lru : Lru) (now : Int) (url : Bytes) : Prop :=
  ∃ next, lru.get now url = .ok ([], next) ∧ next.map.lookup url = none

/-- A `get` of a cached url discards its entry exactly if the code finds it too old. -/
theorem WellFormed.discards_iff {lru : Lru} (formed : WellFormed lru) {url : Bytes}
    (cached : lru.map.lookup url ≠ none) (now : Int) :
    lru.Discards now url ↔ lru.Expires now url := by
  constructor
  · rintro ⟨next, returned, gone⟩
    by_contra fresh
    -- A hit leaves the entry in the map.
    obtain ⟨content, found⟩ := Option.ne_none_iff_exists'.mp fun missing =>
      cached (formed.find_eq_none_iff.mp missing)
    obtain ⟨after, returnedToo, becomes⟩ := formed.get_hit found fresh
    obtain rfl : after = next := by
      have same := returnedToo.symm.trans returned
      simp only [Except.ok.injEq, Prod.mk.injEq] at same
      exact same.2
    rw [← becomes.formed.find_eq_none_iff, becomes.find_touch formed, Function.update_self] at gone
    cases gone
  · intro expires
    obtain ⟨next, returned, becomes⟩ := formed.get_expired expires
    refine ⟨next, returned, ?_⟩
    -- What is too old is erased from the map as well.
    rw [← becomes.formed.find_eq_none_iff, becomes.find_others formed, Function.update_self]

/-- The clock reading at the last put of each url. -/
def recordPut (puts : Bytes → Option Int) : LruCall → Bytes → Option Int
  | .put now url _ => Function.update puts url (some now)
  | .get _ _ => puts
  | .erase _ => puts

/-- A call whose clock reading is a `time_t` of 64 bits. -/
def LruCall.Signed (call : LruCall) : Prop :=
  ∀ now ∈ call.reading, -2 ^ 63 ≤ now ∧ now < 2 ^ 63

/-- A `get` of a cached url discards its entry exactly if more than `expiredTime_` has passed since
its last put. -/
def DiscardsByAge (state : Lru × (Bytes → Option Int)) : LruCall → Prop
  | .get now url =>
    ∀ put, state.2 url = some put → state.1.map.lookup url ≠ none →
      (state.1.Discards now url ↔ put + state.1.expiredTime < now)
  | _ => True

/-- The clock has not been set back since the last put, unless so far that the difference wraps
around to less than `expiredTime_`. -/
def ClockAhead (state : Lru × (Bytes → Option Int)) : LruCall → Prop
  | .get now url =>
    ∀ put, state.2 url = some put → state.1.map.lookup url ≠ none →
      put ≤ now ∨ now + 2 ^ 64 ≤ put + state.1.expiredTime
  | _ => True

/-- The eviction loop is not entered by a put that returns. -/
theorem WellFormed.roomy_of_put {lru next : Lru} {now : Int} {url content : Bytes}
    (returned : lru.put now url content = .ok next) : ¬ lru.Evicts url := by
  -- An evicting put ends in a fault, so it does not return.
  rintro ⟨absent, full⟩
  rw [put_absent absent, if_pos full] at returned
  cases returned

/-- An operation that returns has an outcome. -/
theorem ok_of_toOption {α : Type} {outcome : Except LruFault α} {a : α}
    (returned : outcome.toOption = some a) : outcome = .ok a := by
  -- The option has nothing in it for a fault.
  cases outcome with
  | error fault => cases returned
  | ok b => cases returned; rfl

/-- The stamp that a call gives to its url. -/
def stampPut (stamps : Bytes → Option Nat) : LruCall → Bytes → Option Nat
  | .put now url _ => Function.update stamps url (some (toUnsigned64 now))
  | .get _ _ => stamps
  | .erase _ => stamps

/-- A call that returns gives a stamp to the url that it puts, and to no other. -/
theorem WellFormed.stamp_step {lru next : Lru} (formed : WellFormed lru) {call : LruCall}
    (stepped : lruMachine.step lru call = some next) :
    next.maxSize = lru.maxSize ∧ next.expiredTime = lru.expiredTime ∧
      ∀ url time, next.putTime url = some time → stampPut lru.putTime call url = some time := by
  -- A stamp that is left after one was removed was there before.
  have older {url other : Bytes} {time : Nat}
      (left : Function.update lru.putTime other none url = some time) :
      lru.putTime url = some time := by
    by_cases same : url = other
    · rw [same, Function.update_self] at left
      cases left
    · rwa [Function.update_of_ne same] at left
  cases call with
  | put now url content =>
    -- The put has returned, so it has not entered the loop.
    have returned := ok_of_toOption stepped
    obtain ⟨again, returnedToo, becomes⟩ := formed.put (roomy_of_put returned) now content
    obtain rfl : again = next := Except.ok.inj (returnedToo.symm.trans returned)
    refine ⟨becomes.maxSize, becomes.expiredTime, fun other time stamp => ?_⟩
    rw [becomes.putTime] at stamp
    exact stamp
  | get now url =>
    obtain ⟨⟨answer, last⟩, got, rfl⟩ := Option.map_eq_some_iff.mp stepped
    have returned := ok_of_toOption got
    cases found : lru.find url with
    | none =>
      cases returned.symm.trans (formed.get_miss found now)
      exact ⟨rfl, rfl, fun other time stamp => stamp⟩
    | some content =>
      by_cases expires : lru.Expires now url
      · -- An entry that is discarded loses its stamp.
        obtain ⟨after, returnedToo, becomes⟩ := formed.get_expired expires
        cases returned.symm.trans returnedToo
        refine ⟨becomes.maxSize, becomes.expiredTime, fun other time stamp => ?_⟩
        rw [becomes.putTime] at stamp
        exact older stamp
      · -- A hit leaves the stamp as it is.
        obtain ⟨after, returnedToo, becomes⟩ := formed.get_hit found expires
        cases returned.symm.trans returnedToo
        refine ⟨becomes.maxSize, becomes.expiredTime, fun other time stamp => ?_⟩
        rw [becomes.putTime] at stamp
        exact stamp
  | erase url =>
    have returned := ok_of_toOption stepped
    obtain ⟨after, returnedToo, becomes⟩ := formed.erase url
    obtain rfl : after = next := Except.ok.inj (returnedToo.symm.trans returned)
    refine ⟨becomes.maxSize, becomes.expiredTime, fun other time stamp => ?_⟩
    rw [becomes.putTime] at stamp
    exact older stamp

/-- The stamps of an `Lru` are the readings at the last puts. -/
structure Stamped (state : Lru × (Bytes → Option Int)) : Prop where
  formed : WellFormed state.1
  expiredTime : state.1.expiredTime = 2 ^ 31 - 1
  stamp : ∀ url time, state.1.putTime url = some time →
    ∃ put, state.2 url = some put ∧ time = toUnsigned64 put

/-- The stamps are readings of a signed clock. -/
structure SignedStamps (state : Lru × (Bytes → Option Int)) : Prop extends Stamped state where
  signed : ∀ url put, state.2 url = some put → -2 ^ 63 ≤ put ∧ put < 2 ^ 63

namespace Stamped

variable {state next : Lru × (Bytes → Option Int)} {call : LruCall}

/-- A new `Lru` has no stamps. -/
theorem start (size garbage : Nat) : Stamped (Lru.new size garbage, fun _ => none) where
  -- The map is empty, so it has no stamp to account for.
  formed := wellFormed_new size garbage
  expiredTime := rfl
  stamp _ _ stamp := by cases stamp

/-- A put stamps its url, and no call gives another stamp to a url. -/
theorem step (stamped : Stamped state)
    (stepped : (lruMachine.recording recordPut).step state call = some next) : Stamped next := by
  obtain ⟨after, moved, rfl⟩ := Option.map_eq_some_iff.mp stepped
  obtain ⟨-, expiredTime, stamps⟩ := stamped.formed.stamp_step moved
  refine ⟨wellFormed_step stamped.formed moved, expiredTime.trans stamped.expiredTime,
    fun url time stamp => ?_⟩
  have stamp := stamps url time stamp
  -- Only a put renews a stamp; the other calls can at most drop one.
  cases call with
  | put now other content =>
    by_cases same : url = other
    · subst same
      rw [stampPut, Function.update_self, Option.some.injEq] at stamp
      exact ⟨now, Function.update_self _ _ _, stamp.symm⟩
    · rw [stampPut, Function.update_of_ne same] at stamp
      obtain ⟨put, last, stored⟩ := stamped.stamp url time stamp
      exact ⟨put, (Function.update_of_ne same _ _).trans last, stored⟩
  | get now other => exact stamped.stamp url time stamp
  | erase other => exact stamped.stamp url time stamp

/-- Every cached url was put. -/
theorem exists_put (stamped : Stamped state) {url : Bytes}
    (cached : state.1.map.lookup url ≠ none) : ∃ put, state.2 url = some put := by
  -- The node of the url bears a stamp, and each stamp is that of a put.
  obtain ⟨node, found⟩ := Option.ne_none_iff_exists'.mp cached
  obtain ⟨put, last, -⟩ := stamped.stamp url node.time (by rw [Lru.putTime, found]; rfl)
  exact ⟨put, last⟩

/-- The code's test of a stamp is a test of the age modulo 2^64. -/
theorem expires_iff (stamped : Stamped state) {url : Bytes} {put : Int}
    (last : state.2 url = some put) (cached : state.1.map.lookup url ≠ none) (now : Int) :
    state.1.Expires now url ↔
      toUnsigned64 (toUnsigned64 now - toUnsigned64 put : Int) > state.1.expiredTime := by
  obtain ⟨node, found⟩ := Option.ne_none_iff_exists'.mp cached
  -- The stamp in the map was taken from the reading that is recorded.
  obtain ⟨again, lastToo, stored⟩ := stamped.stamp url node.time (by rw [Lru.putTime, found]; rfl)
  obtain rfl : put = again := Option.some.inj (last.symm.trans lastToo)
  rw [← stored]
  constructor
  · rintro ⟨other, foundToo, old⟩
    obtain rfl : other = node := Option.some.inj (foundToo.symm.trans found)
    exact old
  · exact fun old => ⟨node, found, old⟩

end Stamped

namespace SignedStamps

variable {state next : Lru × (Bytes → Option Int)} {call : LruCall}

/-- A new `Lru` has no stamps. -/
theorem start (size garbage : Nat) : SignedStamps (Lru.new size garbage, fun _ => none) where
  -- Nothing was put, so no last put has to be signed.
  toStamped := Stamped.start size garbage
  signed _ _ put := by cases put

/-- A call that sees a signed clock gives a signed stamp. -/
theorem step (stamped : SignedStamps state) (signed : call.Signed)
    (stepped : (lruMachine.recording recordPut).step state call = some next) :
    SignedStamps next := by
  refine ⟨stamped.toStamped.step stepped, fun url put last => ?_⟩
  obtain ⟨after, moved, rfl⟩ := Option.map_eq_some_iff.mp stepped
  -- A put brings its own signed time, and the other calls leave every last put where it was.
  cases call with
  | put now other content =>
    replace last : Function.update state.2 other (some now) url = some put := last
    by_cases same : url = other
    · rw [same, Function.update_self, Option.some.injEq] at last
      exact last ▸ signed now rfl
    · rw [Function.update_of_ne same] at last
      exact stamped.signed url put last
  | get now other => exact stamped.signed url put last
  | erase other => exact stamped.signed url put last

/-- The test agrees with the age exactly if the clock is ahead of the last put, or far behind. -/
theorem discardsByAge_iff (stamped : SignedStamps state) (signed : call.Signed) :
    DiscardsByAge state call ↔ ClockAhead state call := by
  cases call with
  | put now url content => exact Iff.rfl
  | erase url => exact Iff.rfl
  | get now url =>
    refine forall_congr' fun put => forall_congr' fun last => forall_congr' fun cached => ?_
    rw [stamped.formed.discards_iff cached, stamped.expires_iff last cached, stamped.expiredTime]
    -- Both sides compare two signed readings, one modulo 2^64 and one in the integers.
    obtain ⟨low, high⟩ := stamped.signed url put last
    obtain ⟨lowNow, highNow⟩ := signed now rfl
    unfold toUnsigned64
    omega

end SignedStamps

/-- Along every run with signed clock readings, each `get` discards exactly the entries that are too
old, if and only if none of them sees a clock that was set back since the last put of its url. -/
theorem discards_by_age_iff {size garbage : Nat} {calls : List LruCall}
    (signed : ∀ call ∈ calls, call.Signed) :
    (lruMachine.recording recordPut).Meets DiscardsByAge (Lru.new size garbage, fun _ => none) calls ↔
      (lruMachine.recording recordPut).Meets ClockAhead (Lru.new size garbage, fun _ => none)
        calls :=
  -- The stamps stay signed while the calls are, and then each call can be judged by itself.
  Machine.meets_iff_within (fun _ _ _ (stamped : SignedStamps _) signed _ stepped =>
      stamped.step signed stepped)
    (fun _ _ stamped signed => stamped.discardsByAge_iff signed) (SignedStamps.start size garbage)
    (Machine.meets_of_forall fun call member _ => signed call member)

/-- A `get` as late as an entry may be read. -/
theorem discards_by_age_iff_late :
    (lruMachine.recording recordPut).Meets DiscardsByAge (Lru.new 1 0, fun _ => none)
      [.put 5 (ascii ['a']) (ascii ['x']), .get (5 + (2 ^ 31 - 1)) (ascii ['a'])] := by
  -- The only get sees a clock that has gone on.
  refine (discards_by_age_iff ?_).mpr ⟨trivial, fun next stepped => ⟨?_, fun _ _ => trivial⟩⟩
  · intro call member now reading
    simp only [List.mem_cons, List.not_mem_nil, or_false] at member
    rcases member with rfl | rfl <;> cases reading <;> decide
  · cases stepped
    intro put last _
    cases last
    exact .inl (by decide)

/-- An entry that is read one second before its put, after the clock was set back, is discarded. -/
theorem discarded_before_its_time :
    ¬ ∀ calls : List LruCall, (∀ call ∈ calls, call.Signed) →
      (lruMachine.recording recordPut).Meets DiscardsByAge (Lru.new 1 0, fun _ => none) calls := by
  intro claim
  have met := claim [.put 5 (ascii ['a']) (ascii ['x']), .get 4 (ascii ['a'])] (by
    intro call member now reading
    simp only [List.mem_cons, List.not_mem_nil, or_false] at member
    rcases member with rfl | rfl <;> cases reading <;> decide)
  -- The get discards the entry, so by the claim it must have been too old.
  have discards := (met.2 _ rfl).1 5 rfl (by decide)
  have too_old := discards.mp ⟨_, rfl, rfl⟩
  exact absurd too_old (by decide)

end EnhancedProxy

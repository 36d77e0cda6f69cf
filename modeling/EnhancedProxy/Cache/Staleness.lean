import EnhancedProxy.Cache.Redis
import EnhancedProxy.Library.Machine

/-! How long the Redis level may serve a response after it was written. -/

namespace EnhancedProxy

/-- A response that was passed to `updateRedisCache`, and when. -/
structure RedisWrite where
  time : Nat
  url : Bytes
  response : Bytes
  deriving DecidableEq, Repr

/-- The server that all processes share, its clock in milliseconds, and the calls so far. -/
structure SharedRedis where
  store : RedisStore := fun _ => none
  now : Nat := 0
  writes : List RedisWrite := []

/-- Time passes, or one of the processes updates the cache. -/
inductive SharedRedisStep
  | wait (milliseconds : Nat)
  | update (url response : Bytes)
  deriving DecidableEq, Repr

/-- The shared server as a machine. Each call has a connection of its own, so it does not matter
which process makes it. -/
def sharedRedisMachine (library : RedisLibrary) : Machine SharedRedis SharedRedisStep where
  step redis
    | .wait milliseconds => some { redis with now := redis.now + milliseconds }
    | .update url response =>
      some { redis with
        store := updateRedisCache library redis.now redis.store url response
        writes := redis.writes ++ [{ time := redis.now, url := url, response := response }] }

/-- From now on, what is read for a url was written at most the expiry time before. -/
def BoundedStaleness (redis : SharedRedis) : Prop :=
  ∀ url later value, redis.now ≤ later → redis.store.lookup later url = some value →
    ∃ write ∈ redis.writes, write.url = url ∧ value = quoted write.response ∧
      later ≤ write.time + defaultExpiredTime * 1000

/-- Urls and responses in which nothing is interpreted. -/
def SharedRedisStep.Plain : SharedRedisStep → Prop
  | .wait _ => True
  | .update url response => url ≠ [] ∧ EnhancedProxy.Plain url ∧ EnhancedProxy.Plain response

/-- An update that finds no response for its url, or the same one, or one that was passed to another
update at this very instant. -/
def Renews (redis : SharedRedis) : SharedRedisStep → Prop
  | .wait _ => True
  | .update url response =>
    ∀ value, redis.store.lookup redis.now url = some value → value = quoted response ∨
      ∃ write ∈ redis.writes, write.time = redis.now ∧ write.url = url ∧
        value = quoted write.response

/-- Every key has a deadline, which its response was given at its own write. -/
structure Dated (redis : SharedRedis) : Prop where
  past : ∀ write ∈ redis.writes, write.time ≤ redis.now
  dated : ∀ url cell, redis.store url = some cell →
    ∃ write ∈ redis.writes, write.url = url ∧ cell.value = quoted write.response ∧
      cell.deadline = some (write.time + defaultExpiredTime * 1000)

namespace Dated

variable {library : RedisLibrary} {redis : SharedRedis}

/-- A server without keys has nothing to date. -/
theorem start : Dated {} where
  -- There is no write yet and no cell.
  past _ member := absurd member List.not_mem_nil
  dated _ _ stored := by cases stored

/-- What is read later was alive until then. -/
theorem bounded (dated : Dated redis) : BoundedStaleness redis := by
  -- What is visible is stored and alive, and a stored cell is dated by one of the writes.
  intro url later value _ found
  obtain ⟨cell, visible, rfl⟩ := Option.map_eq_some_iff.mp found
  obtain ⟨stored, alive⟩ := Option.filter_eq_some_iff.mp visible
  obtain ⟨write, member, named, written, deadline⟩ := dated.dated url cell stored
  refine ⟨write, member, named, written, ?_⟩
  simpa [Expiring.Cell.alive, deadline] using alive

/-- A step that renews no other response keeps every key dated. -/
theorem step (separates : library.Separates) (redis : SharedRedis) (label : SharedRedisStep)
    (next : SharedRedis) (dated : Dated redis) (plain : label.Plain) (renews : Renews redis label)
    (stepped : (sharedRedisMachine library).step redis label = some next) : Dated next := by
  cases label with
  | wait milliseconds =>
    cases stepped
    exact ⟨fun write member => Nat.le_add_right_of_le (dated.past write member), dated.dated⟩
  | update url response =>
    cases stepped
    obtain ⟨named, plainUrl, plainResponse⟩ := plain
    refine ⟨fun write member => ?_, fun other cell stored => ?_⟩
    · rcases List.mem_append.mp member with old | new
      · exact dated.past write old
      · rw [List.mem_singleton.mp new]
    · rw [updateRedisCache_plain separates named plainUrl plainResponse] at stored
      dsimp only at stored
      by_cases same : other = url
      · -- The key has a new deadline, and a response that was written just now.
        subst same
        rw [Expiring.Store.offer_own, Option.some.injEq] at stored
        subst stored
        have own : (⟨redis.now, other, response⟩ : RedisWrite) ∈
            redis.writes ++ [⟨redis.now, other, response⟩] :=
          List.mem_append_right _ List.mem_cons_self
        cases found : redis.store.lookup redis.now other with
        | none => exact ⟨_, own, rfl, rfl, rfl⟩
        | some value =>
          rcases renews value found with again | ⟨write, member, justNow, urlOf, written⟩
          · exact ⟨_, own, rfl, again, rfl⟩
          · exact ⟨write, List.mem_append_left _ member, urlOf, written, by rw [justNow]⟩
      · -- The other keys are as they were.
        rw [Expiring.Store.offer_other _ _ same] at stored
        obtain ⟨write, member, rest⟩ := dated.dated other cell stored
        exact ⟨write, List.mem_append_left _ member, rest⟩

/-- A step that renews another response lets it live too long. -/
theorem step_stale (separates : library.Separates) (redis : SharedRedis) (label : SharedRedisStep)
    (next : SharedRedis) (dated : Dated redis) (plain : label.Plain)
    (missed : ¬ Renews redis label)
    (stepped : (sharedRedisMachine library).step redis label = some next) :
    ¬ BoundedStaleness next := by
  cases label with
  | wait milliseconds => exact absurd trivial missed
  | update url response =>
    cases stepped
    obtain ⟨named, plainUrl, plainResponse⟩ := plain
    intro bounded
    -- The stored response stays, and lives on for the whole expiry time.
    apply missed
    intro value found
    have stored := Expiring.Store.offer_own redis.store redis.now url (quoted response)
      (defaultExpiredTime * 1000)
    rw [found, Option.getD_some] at stored
    have last := Expiring.Store.lookup_of_deadline stored (redis.now + defaultExpiredTime * 1000)
    rw [if_pos (Nat.le_refl _),
      ← updateRedisCache_plain separates named plainUrl plainResponse] at last
    obtain ⟨write, member, urlOf, written, recent⟩ := bounded url _ value (Nat.le_add_right _ _) last
    rcases List.mem_append.mp member with old | new
    · have past := dated.past write old
      have recent : redis.now + defaultExpiredTime * 1000 ≤
          write.time + defaultExpiredTime * 1000 := recent
      exact .inr ⟨write, old, by omega, urlOf, written⟩
    · rw [List.mem_singleton.mp new] at written
      exact .inl written

end Dated

/-- The Redis level keeps the expiry time of every response exactly in the runs whose updates never
find another response for their url that was not written at that instant. -/
theorem bounded_staleness_iff {library : RedisLibrary} (separates : library.Separates)
    {labels : List SharedRedisStep} (plain : ∀ label ∈ labels, label.Plain) :
    (∃ redis, (sharedRedisMachine library).run {} labels = some redis) ∧
      ((sharedRedisMachine library).Always BoundedStaleness {} labels ↔
        (sharedRedisMachine library).Meets Renews {} labels) := by
  -- The store takes every step, so the run exists; what is left is the general equivalence
  -- for an invariant kept by the good steps and lost for ever by the others.
  have total (redis : SharedRedis) (label : SharedRedisStep) :
      ∃ next, (sharedRedisMachine library).step redis label = some next := by
    cases label with
    | wait milliseconds => exact ⟨_, rfl⟩
    | update url response => exact ⟨_, rfl⟩
  obtain ⟨redis, ran⟩ := Machine.run_total total {} labels
  have within : (sharedRedisMachine library).Meets (fun _ label => label.Plain) {} labels :=
    Machine.meets_of_forall fun label member _ => plain label member
  exact ⟨⟨redis, ran⟩, Machine.always_iff_meets (Dated.step separates) (Dated.step_stale separates)
    (fun _ => Dated.bounded) Dated.start within ran⟩

/-- A response that is written again before it expires keeps the whole run within bounds. -/
theorem bounded_staleness_iff_again :
    (sharedRedisMachine splittingLibrary).Always BoundedStaleness {}
      [.update (ascii ['u']) (ascii ['a']), .wait 20000, .update (ascii ['u']) (ascii ['a'])] := by
  refine (bounded_staleness_iff separates_splittingLibrary ?_).2.mpr ?_
  · simp only [List.mem_cons, List.not_mem_nil, or_false, forall_eq_or_imp, forall_eq]
    exact ⟨⟨by decide, plain_ascii (by decide), plain_ascii (by decide)⟩, trivial,
      ⟨by decide, plain_ascii (by decide), plain_ascii (by decide)⟩⟩
  · refine ⟨fun value found => (by cases found), fun _ first => ?_⟩
    cases first
    refine ⟨trivial, fun _ second => ?_⟩
    cases second
    refine ⟨fun value found => .inl ?_, fun _ _ => trivial⟩
    -- The update finds the response that was written twenty seconds before.
    exact (Option.some.inj found).symm

/-- A second response is written twenty seconds after the first, which then lives on. -/
theorem stale_response_served :
    ¬ ∀ (library : RedisLibrary) (labels : List SharedRedisStep), library.Separates →
      (∀ label ∈ labels, label.Plain) →
        (sharedRedisMachine library).Always BoundedStaleness {} labels := by
  intro all
  have always := all splittingLibrary
    [.update (ascii ['u']) (ascii ['a']), .wait 20000, .update (ascii ['u']) (ascii ['b'])]
    separates_splittingLibrary (by
      simp only [List.mem_cons, List.not_mem_nil, or_false, forall_eq_or_imp, forall_eq]
      exact ⟨⟨by decide, plain_ascii (by decide), plain_ascii (by decide)⟩, trivial,
        ⟨by decide, plain_ascii (by decide), plain_ascii (by decide)⟩⟩)
  have bounded := always _ _ (List.prefix_refl _) rfl
  -- Fifty seconds after the start, the first response is still read.
  obtain ⟨write, member, -, written, recent⟩ :=
    bounded (ascii ['u']) 50000 (quoted (ascii ['a'])) (by decide) (by decide)
  simp only [List.nil_append, List.cons_append, List.mem_cons, List.not_mem_nil, or_false] at member
  rcases member with rfl | rfl
  · exact absurd recent (by decide)
  · exact absurd written (by decide)

end EnhancedProxy

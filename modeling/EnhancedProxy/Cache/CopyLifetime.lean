import EnhancedProxy.Cache.Expiry

/-! A copy of an `Lru` beside its original, under the same calls. -/

namespace EnhancedProxy

/-- What a caller can see of a call: the answer, and the entries in their order, or that it fails.
-/
def LruCall.observe (lru : Lru) : LruCall → Except LruFault (Bytes × List (Bytes × Bytes))
  | .put now url content => (lru.put now url content).map fun next => ([], next.entries)
  | .get now url => (lru.get now url).map fun (answer, next) => (answer, next.entries)
  | .erase url => (lru.erase url).map fun next => ([], next.entries)

/-- An original and its copy, and for each the clock readings that its stamps were taken from. -/
structure Twins where
  original : Lru
  copy : Lru
  puts : Bytes → Option Int
  stamps : Bytes → Option Int

/-- Both take the same call. -/
def twinMachine : Machine Twins LruCall where
  step twins call :=
    (lruMachine.step twins.original call).bind fun original =>
      (lruMachine.step twins.copy call).map fun copy =>
        { original := original
          copy := copy
          puts := recordPut twins.puts call
          stamps := recordPut twins.stamps call }

/-- The readings at the last puts of a sequence of calls. -/
def lastPuts (calls : List LruCall) : Bytes → Option Int := calls.foldl recordPut fun _ => none

/-- The reading that a copy takes for each of its entries. -/
def copyStamps (lru : Lru) (clock : Nat → Int) (url : Bytes) : Option Int :=
  ((lru.copy clock).map.lookup url).map fun node => clock node.position

/-- An `Lru` that has seen these calls, and its copy. -/
def Twins.new (lru : Lru) (before : List LruCall) (clock : Nat → Int) : Twins where
  original := lru
  copy := lru.copy clock
  puts := lastPuts before
  stamps := copyStamps lru clock

/-- The call shows the same on the copy as on the original. -/
def Same (twins : Twins) (call : LruCall) : Prop :=
  call.observe twins.copy = call.observe twins.original

/-- No entry is read more than `expiredTime_` after its last put, and at most `expiredTime_` after
its stamp in the copy. -/
def NotOutlived (twins : Twins) : LruCall → Prop
  | .get now url =>
    ∀ put stamp, twins.puts url = some put → twins.stamps url = some stamp →
      twins.original.map.lookup url ≠ none →
        ¬ (put + twins.original.expiredTime < now ∧ now ≤ stamp + twins.copy.expiredTime)
  | _ => True

/-- The clock reading of a call is not before the readings that stamps were taken from. -/
def Timely (twins : Twins) (call : LruCall) : Prop :=
  ∀ now ∈ call.reading, (-2 ^ 63 ≤ now ∧ now < 2 ^ 63) ∧
    ∀ url put, twins.puts url = some put ∨ twins.stamps url = some put → put ≤ now

section Observe

variable {lru other : Lru}

/-- A put shows the same on an `Lru` with the same entries and capacity. -/
theorem observe_put (formed : WellFormed lru) (formedOther : WellFormed other)
    (entries : other.entries = lru.entries) (maxSize : other.maxSize = lru.maxSize) (now : Int)
    (url content : Bytes) :
    (LruCall.put now url content).observe other = (LruCall.put now url content).observe lru := by
  simp only [LruCall.observe]
  have agree := formed.evicts_congr formedOther entries maxSize url
  by_cases evicts : lru.Evicts url
  · -- Both enter the loop, and fail.
    rw [put_absent evicts.1, if_pos evicts.2, put_absent (agree.mpr evicts).1,
      if_pos (agree.mpr evicts).2]
  · obtain ⟨next, returned, becomes⟩ := formed.put evicts now content
    obtain ⟨nextOther, returnedOther, becomesOther⟩ :=
      formedOther.put (fun evictsOther => evicts (agree.mp evictsOther)) now content
    rw [returned, returnedOther, Except.map, Except.map, becomes.entries, becomesOther.entries,
      entries]

/-- An erase shows the same on an `Lru` with the same entries. -/
theorem observe_erase (formed : WellFormed lru) (formedOther : WellFormed other)
    (entries : other.entries = lru.entries) (url : Bytes) :
    (LruCall.erase url).observe other = (LruCall.erase url).observe lru := by
  -- Neither erase can fail on a formed cache, and both drop the entries of the same url.
  simp only [LruCall.observe]
  obtain ⟨next, returned, becomes⟩ := formed.erase url
  obtain ⟨nextOther, returnedOther, becomesOther⟩ := formedOther.erase url
  rw [returned, returnedOther, Except.map, Except.map, becomes.entries, becomesOther.entries,
    entries]

/-- A get of an entry that is too old shows the others. -/
theorem observe_get_expired (formed : WellFormed lru) {now : Int} {url : Bytes}
    (expires : lru.Expires now url) :
    (LruCall.get now url).observe lru = .ok ([], Recency.others url lru.entries) := by
  -- What is left after the lookup are the entries of the other urls.
  obtain ⟨next, returned, becomes⟩ := formed.get_expired expires
  rw [LruCall.observe, returned, ← becomes.entries]
  rfl

/-- A get of an entry that is not too old shows its content, with the entry at the recent end. -/
theorem observe_get_hit (formed : WellFormed lru) {now : Int} {url content : Bytes}
    (found : lru.find url = some content) (fresh : ¬ lru.Expires now url) :
    (LruCall.get now url).observe lru = .ok (content, Recency.touch url content lru.entries) := by
  -- The lookup answers the stored content and leaves the entries touched.
  obtain ⟨next, returned, becomes⟩ := formed.get_hit found fresh
  rw [LruCall.observe, returned, ← becomes.entries]
  rfl

/-- A discarded entry shows. -/
theorem others_ne_touch (url content : Bytes) (entries : List (Bytes × Bytes)) :
    Recency.others url entries ≠ Recency.touch url content entries := by
  -- The touched entry is in the one list, and every entry of its url is out of the other.
  intro same
  have member : (url, content) ∈ Recency.others url entries := by
    rw [same, Recency.touch]
    exact List.mem_append_right _ List.mem_cons_self
  exact (Recency.mem_others.mp member).1 rfl

/-- A get shows the same on an `Lru` with the same entries exactly if the test for its age comes out
the same. -/
theorem observe_get_iff (formed : WellFormed lru) (formedOther : WellFormed other)
    (entries : other.entries = lru.entries) (now : Int) (url : Bytes) :
    (LruCall.get now url).observe other = (LruCall.get now url).observe lru ↔
      (lru.map.lookup url ≠ none → (other.Expires now url ↔ lru.Expires now url)) := by
  have find := congrFun (formed.find_congr formedOther entries) url
  cases found : lru.find url with
  | none =>
    -- A miss shows the entries as they are.
    have missing := formed.find_eq_none_iff.mp found
    rw [found] at find
    refine iff_of_true ?_ fun cached => absurd missing cached
    simp only [LruCall.observe, formed.get_miss found now, formedOther.get_miss find now,
      Except.map, entries]
  | some content =>
    rw [found] at find
    have cached : lru.map.lookup url ≠ none := by
      rw [ne_eq, ← formed.find_eq_none_iff, found]
      exact Option.some_ne_none content
    rw [forall_prop_of_true cached]
    by_cases expires : lru.Expires now url
    · by_cases expiresOther : other.Expires now url
      · refine iff_of_true ?_ (iff_of_true expiresOther expires)
        rw [observe_get_expired formed expires, observe_get_expired formedOther expiresOther,
          entries]
      · -- One has lost the entry, and the other has it last.
        refine iff_of_false (fun same => ?_) fun agree => expiresOther (agree.mpr expires)
        rw [observe_get_expired formed expires, observe_get_hit formedOther find expiresOther,
          entries, Except.ok.injEq, Prod.mk.injEq] at same
        exact others_ne_touch url content _ same.2.symm
    · by_cases expiresOther : other.Expires now url
      · -- And the other way round.
        refine iff_of_false (fun same => ?_) fun agree => expires (agree.mp expiresOther)
        rw [observe_get_hit formed found expires, observe_get_expired formedOther expiresOther,
          entries, Except.ok.injEq, Prod.mk.injEq] at same
        exact others_ne_touch url content _ same.2
      · refine iff_of_true ?_ (iff_of_false expiresOther expires)
        rw [observe_get_hit formed found expires, observe_get_hit formedOther find expiresOther,
          entries]

/-- The entries left by a call are those that it shows. -/
theorem observe_of_step {next : Lru} {call : LruCall}
    (stepped : lruMachine.step lru call = some next) :
    ∃ answer, call.observe lru = .ok (answer, next.entries) := by
  -- A call that returned shows its answer and the entries it left; only a lookup has an answer.
  cases call with
  | put now url content =>
    exact ⟨[], by rw [LruCall.observe, ok_of_toOption stepped]; rfl⟩
  | get now url =>
    obtain ⟨⟨answer, last⟩, got, rfl⟩ := Option.map_eq_some_iff.mp stepped
    exact ⟨answer, by rw [LruCall.observe, ok_of_toOption got]; rfl⟩
  | erase url =>
    exact ⟨[], by rw [LruCall.observe, ok_of_toOption stepped]; rfl⟩

end Observe

/-- Twins with the same entries, whose stamps were taken from the readings recorded, the original's
not later than the copy's. -/
structure Alike (twins : Twins) : Prop where
  original : SignedStamps (twins.original, twins.puts)
  copy : SignedStamps (twins.copy, twins.stamps)
  entries : twins.copy.entries = twins.original.entries
  maxSize : twins.copy.maxSize = twins.original.maxSize
  older : ∀ url put stamp, twins.puts url = some put → twins.stamps url = some stamp → put ≤ stamp

namespace Alike

variable {twins next : Twins} {call : LruCall}

/-- The same urls are cached in both. -/
theorem cached_iff (alike : Alike twins) {url : Bytes} :
    twins.copy.map.lookup url ≠ none ↔ twins.original.map.lookup url ≠ none := by
  -- In a formed object a url is cached exactly if it is found, and both find the same.
  have formed := alike.original.formed
  have formedCopy := alike.copy.formed
  rw [ne_eq, ne_eq, ← formedCopy.find_eq_none_iff, ← formed.find_eq_none_iff,
    formed.find_congr formedCopy alike.entries]

/-- A get of the copy shows the same exactly if the entry has not outlived its original. -/
theorem same_iff (alike : Alike twins) (timely : Timely twins call) :
    Same twins call ↔ NotOutlived twins call := by
  have formed := alike.original.formed
  have formedCopy := alike.copy.formed
  cases call with
  | put now url content =>
    exact iff_of_true (observe_put formed formedCopy alike.entries alike.maxSize now url content)
      trivial
  | erase url => exact iff_of_true (observe_erase formed formedCopy alike.entries url) trivial
  | get now url =>
    rw [Same, observe_get_iff formed formedCopy alike.entries]
    obtain ⟨⟨low, high⟩, later⟩ := timely now rfl
    -- The two tests compare the reading with the put and with the stamp.
    have verdicts {put stamp : Int} (last : twins.puts url = some put)
        (stamped : twins.stamps url = some stamp) (cached : twins.original.map.lookup url ≠ none) :
        (twins.copy.Expires now url ↔ twins.original.Expires now url) ↔
          ¬ (put + twins.original.expiredTime < now ∧ now ≤ stamp + twins.copy.expiredTime) := by
      rw [alike.original.expires_iff last cached,
        alike.copy.expires_iff stamped (alike.cached_iff.mpr cached), alike.original.expiredTime,
        alike.copy.expiredTime]
      -- All three readings are signed, and neither stamp is from the future.
      have lowPut := alike.original.signed url put last
      have lowStamp := alike.copy.signed url stamp stamped
      have order := alike.older url put stamp last stamped
      have putPast := later url put (.inl last)
      have stampPast := later url stamp (.inr stamped)
      unfold toUnsigned64
      omega
    constructor
    · intro agree put stamp last stamped cached
      exact (verdicts last stamped cached).mp (agree cached)
    · intro within cached
      obtain ⟨put, last⟩ := alike.original.exists_put cached
      obtain ⟨stamp, stamped⟩ := alike.copy.exists_put (alike.cached_iff.mpr cached)
      exact (verdicts last stamped cached).mpr (within put stamp last stamped cached)

/-- Calls that show the same leave twins alike. -/
theorem step (alike : Alike twins) (timely : Timely twins call) (same : Same twins call)
    (stepped : twinMachine.step twins call = some next) : Alike next := by
  obtain ⟨original, moved, rest⟩ := Option.bind_eq_some_iff.mp stepped
  obtain ⟨copy, movedCopy, rfl⟩ := Option.map_eq_some_iff.mp rest
  have signed : call.Signed := fun now reading => (timely now reading).1
  have movedRecord {state : Lru × (Bytes → Option Int)} {after : Lru}
      (moved : lruMachine.step state.1 call = some after) :
      (lruMachine.recording recordPut).step state call = some (after, recordPut state.2 call) :=
    Option.map_eq_some_iff.mpr ⟨after, moved, rfl⟩
  have formed := alike.original.formed
  have formedCopy := alike.copy.formed
  obtain ⟨answer, shown⟩ := observe_of_step moved
  obtain ⟨answerCopy, shownCopy⟩ := observe_of_step movedCopy
  refine ⟨alike.original.step signed (movedRecord moved),
    alike.copy.step signed (movedRecord movedCopy), ?_, ?_, fun url put stamp last stamped => ?_⟩
  · -- What the call shows are the entries it leaves.
    rw [Same, shown, shownCopy, Except.ok.injEq, Prod.mk.injEq] at same
    exact same.2
  · exact (formedCopy.stamp_step movedCopy).1.trans
      (alike.maxSize.trans (formed.stamp_step moved).1.symm)
  · -- A put gives both the same stamp, and the other calls give none.
    cases call with
    | put now other content =>
      replace last : Function.update twins.puts other (some now) url = some put := last
      replace stamped : Function.update twins.stamps other (some now) url = some stamp := stamped
      by_cases here : url = other
      · rw [here, Function.update_self, Option.some.injEq] at last stamped
        exact Int.le_of_eq (last.symm.trans stamped)
      · rw [Function.update_of_ne here] at last stamped
        exact alike.older url put stamp last stamped
    | get now other => exact alike.older url put stamp last stamped
    | erase other => exact alike.older url put stamp last stamped

end Alike

/-- The calls on an `Lru`, its copy after some of them, and the other calls see a signed clock that
is never set back. -/
structure Steady (before : List LruCall) (lru : Lru) (clock : Nat → Int) (after : List LruCall) :
    Prop where
  inOrder : (before.filterMap LruCall.reading ++ (List.range lru.list.length).map clock ++
    after.filterMap LruCall.reading).Pairwise (· ≤ ·)
  signed : ∀ now ∈ before.filterMap LruCall.reading ++ (List.range lru.list.length).map clock ++
    after.filterMap LruCall.reading, -2 ^ 63 ≤ now ∧ now < 2 ^ 63

/-- A call records its own reading, or none. -/
theorem recorded_step {call : LruCall} {puts : Bytes → Option Int} {url : Bytes} {put : Int}
    (last : recordPut puts call url = some put) : puts url = some put ∨ put ∈ call.reading := by
  cases call with
  | put now other content =>
    replace last : Function.update puts other (some now) url = some put := last
    by_cases same : url = other
    · rw [same, Function.update_self] at last
      exact .inr last
    · -- The stamp of another url is as old as before.
      rw [Function.update_of_ne same] at last
      exact .inl last
  | get now other => exact .inl last
  | erase other => exact .inl last

/-- A reading that is recorded after some calls was recorded before, or is that of one of them. -/
theorem recorded_run {calls : List LruCall} {puts : Bytes → Option Int} {url : Bytes} {put : Int}
    (last : calls.foldl recordPut puts url = some put) :
    puts url = some put ∨ put ∈ calls.filterMap LruCall.reading := by
  induction calls generalizing puts with
  | nil => exact .inl last
  | cons call calls ih =>
    -- The induction goes from the first call on, with whatever is recorded so far.
    rcases ih last with recorded | later
    · refine (recorded_step recorded).imp id fun own => ?_
      exact List.mem_filterMap.mpr ⟨call, List.mem_cons_self, own⟩
    · exact .inr (((List.sublist_cons_self call calls).filterMap LruCall.reading).subset later)

/-- Calls that see a clock that is never set back are timely. -/
theorem timely_of_inOrder {twins : Twins} {calls : List LruCall}
    (signed : ∀ now ∈ calls.filterMap LruCall.reading, -2 ^ 63 ≤ now ∧ now < 2 ^ 63)
    (inOrder : (calls.filterMap LruCall.reading).Pairwise (· ≤ ·))
    (recorded : ∀ now ∈ calls.filterMap LruCall.reading, ∀ url put,
      twins.puts url = some put ∨ twins.stamps url = some put → put ≤ now) :
    twinMachine.Meets Timely twins calls := by
  induction calls generalizing twins with
  | nil => trivial
  | cons call calls ih =>
    have later := (List.sublist_cons_self call calls).filterMap LruCall.reading
    have own {now : Int} (reading : now ∈ call.reading) :
        now ∈ (call :: calls).filterMap LruCall.reading :=
      List.mem_filterMap.mpr ⟨call, List.mem_cons_self, reading⟩
    refine ⟨fun now reading => ⟨signed now (own reading), recorded now (own reading)⟩,
      fun next stepped => ih (fun now member => signed now (later.subset member))
        (inOrder.sublist later) fun now member url put last => ?_⟩
    -- What the call has recorded is its own reading, and the later ones are not before it.
    have before {put : Int} (reading : put ∈ call.reading) : put ≤ now := by
      rw [List.filterMap_cons_some reading] at inOrder
      exact (List.pairwise_cons.mp inOrder).1 now member
    obtain ⟨original, -, rest⟩ := Option.bind_eq_some_iff.mp stepped
    obtain ⟨copy, -, rfl⟩ := Option.map_eq_some_iff.mp rest
    have old := recorded now (later.subset member) url put
    rcases last with last | last
    · exact (recorded_step last).elim (fun earlier => old (.inl earlier)) before
    · exact (recorded_step last).elim (fun earlier => old (.inr earlier)) before

/-- The stamps of a copy are readings of the copy. -/
theorem copyStamps_mem {lru : Lru} (formed : WellFormed lru) {clock : Nat → Int} {url : Bytes}
    {stamp : Int} (stamped : copyStamps lru clock url = some stamp) :
    stamp ∈ (List.range lru.list.length).map clock := by
  obtain ⟨node, lookup, rfl⟩ := Option.map_eq_some_iff.mp stamped
  obtain ⟨entry, member, rfl⟩ := (formed.copy clock).1.listed url node lookup
  obtain ⟨time, indexed⟩ := (formed.copy clock).1.indexed entry member
  obtain rfl : node = ⟨time, entry.address⟩ := Option.some.inj (lookup.symm.trans indexed)
  -- The nodes of the copy are numbered from 0 in the order of the list.
  have inRange := (mem_copyList_address member).2
  rw [Nat.zero_add] at inRange
  exact List.mem_map_of_mem (List.mem_range.mpr inRange)

/-- An `Lru` that has seen its calls, and its copy, are alike. -/
theorem Alike.start {size garbage : Nat} {before after : List LruCall} {lru : Lru}
    {clock : Nat → Int} (reached : lruMachine.run (Lru.new size garbage) before = some lru)
    (steady : Steady before lru clock after) : Alike (Twins.new lru before clock) where
  original := by
    -- What is recorded along the calls before are the readings of their puts.
    have ran : (lruMachine.recording recordPut).run (Lru.new size garbage, fun _ => none) before =
        some (lru, lastPuts before) := by
      rw [Machine.recording_run_eq, reached]
      rfl
    have signed : (lruMachine.recording recordPut).Meets (fun _ call => call.Signed)
        (Lru.new size garbage, fun _ => none) before := by
      refine Machine.meets_of_forall fun call member _ now reading => steady.signed now ?_
      have listed : now ∈ before.filterMap LruCall.reading :=
        List.mem_filterMap.mpr ⟨call, member, reading⟩
      exact List.mem_append_left _ (List.mem_append_left _ listed)
    exact Machine.run_invariant_of_meets (fun _ _ _ (stamped : SignedStamps _) signed stepped =>
      stamped.step signed stepped) (SignedStamps.start size garbage) signed ran
  copy := by
    have formed := wellFormed_run reached
    refine ⟨⟨(formed.copy clock).1, rfl, fun url time stamp => ?_⟩, fun url stamp stamped => ?_⟩
    · -- The map of the copy was filled by walking its list.
      obtain ⟨node, lookup, rfl⟩ := Option.map_eq_some_iff.mp stamp
      obtain ⟨entry, member, rfl⟩ := (formed.copy clock).1.listed url node lookup
      refine ⟨clock node.position, Option.map_eq_some_iff.mpr ⟨node, lookup, rfl⟩, ?_⟩
      have own := lookup_indexList clock ∅ (formed.copy clock).1.urlsDistinct member
      obtain rfl := Option.some.inj (lookup.symm.trans own)
      rfl
    · exact steady.signed stamp (List.mem_append_left _
        (List.mem_append_right _ (copyStamps_mem formed stamped)))
  entries := ((wellFormed_run reached).copy clock).2
  maxSize := rfl
  older url put stamp last stamped := by
    -- The copy reads the clock after all calls before it.
    have earlier := (recorded_run last).resolve_left (by simp)
    have inOrder := (List.pairwise_append.mp steady.inOrder).1
    exact (List.pairwise_append.mp inOrder).2.2 put earlier stamp
      (copyStamps_mem (wellFormed_run reached) stamped)

/-- The calls after the copy are timely. -/
theorem Steady.timely {size garbage : Nat} {before after : List LruCall} {lru : Lru}
    {clock : Nat → Int} (reached : lruMachine.run (Lru.new size garbage) before = some lru)
    (steady : Steady before lru clock after) :
    twinMachine.Meets Timely (Twins.new lru before clock) after := by
  -- The stamps of the original come from its own puts, those of the copy from the copying clock.
  have split := List.pairwise_append.mp steady.inOrder
  refine timely_of_inOrder (fun now member => steady.signed now (List.mem_append_right _ member))
    split.2.1 fun now member url put recorded => split.2.2 put ?_ now member
  -- Either way the stamp is one of the times that `Steady` puts in order.
  rcases recorded with last | stamped
  · exact List.mem_append_left _ ((recorded_run last).resolve_left (by simp))
  · exact List.mem_append_right _ (copyStamps_mem (wellFormed_run reached) stamped)

/-- A copy shows the same as its original under every sequence of calls, if and only if none of them
reads an entry that has outlived its original. -/
theorem copy_same_iff {size garbage : Nat} {before after : List LruCall} {lru : Lru}
    {clock : Nat → Int} (reached : lruMachine.run (Lru.new size garbage) before = some lru)
    (steady : Steady before lru clock after) :
    twinMachine.Meets Same (Twins.new lru before clock) after ↔
      twinMachine.Meets NotOutlived (Twins.new lru before clock) after :=
  -- While the calls are timely the two stay alike, and alike objects differ in outliving alone.
  Machine.meets_iff_within (fun _ _ _ (alike : Alike _) timely same stepped =>
      alike.step timely same stepped)
    (fun _ _ alike timely => alike.same_iff timely) (Alike.start reached steady)
    (steady.timely reached)

/-- An entry put at 0 and copied at 10, read while it is young. -/
theorem copy_same_iff_young :
    ∃ lru, lruMachine.run (Lru.new 1 0) [.put 0 (ascii ['a']) (ascii ['x'])] = some lru ∧
      twinMachine.Meets Same (Twins.new lru [.put 0 (ascii ['a']) (ascii ['x'])] fun _ => 10)
        [.get 20 (ascii ['a'])] := by
  -- The lookup at 20 s is far from the lifetime of the put at 0 s, so neither object expires it.
  have reached : lruMachine.run (Lru.new 1 0) [.put 0 (ascii ['a']) (ascii ['x'])] = some _ := rfl
  refine ⟨_, reached, (copy_same_iff reached ⟨?_, ?_⟩).mpr ⟨?_, fun _ _ => trivial⟩⟩
  · show [(0 : Int), 10, 20].Pairwise (· ≤ ·)
    decide
  · show ∀ now ∈ [(0 : Int), 10, 20], -2 ^ 63 ≤ now ∧ now < 2 ^ 63
    decide
  · intro put stamp last _ _ outlived
    obtain rfl : (0 : Int) = put := Option.some.inj last
    have old : 0 + ((2 ^ 31 - 1 : Nat) : Int) < 20 := outlived.1
    omega

/-- An entry put at 0 and copied at 10 is discarded from the original at `expiredTime_` + 5, and
served from the copy. -/
theorem copy_outlives_original :
    ¬ ∀ before after : List LruCall, ∀ lru, lruMachine.run (Lru.new 1 0) before = some lru →
      ∀ clock : Nat → Int, Steady before lru clock after →
        twinMachine.Meets Same (Twins.new lru before clock) after := by
  -- Five seconds past the lifetime the original drops the entry, while the copy,
  -- stamped at 10 s, still answers it.
  intro claim
  have met := claim [.put 0 (ascii ['a']) (ascii ['x'])] [.get (2 ^ 31 - 1 + 5) (ascii ['a'])] _ rfl
    (fun _ => 10) ⟨by
      show [(0 : Int), 10, 2 ^ 31 - 1 + 5].Pairwise (· ≤ ·)
      decide, by
      show ∀ now ∈ [(0 : Int), 10, 2 ^ 31 - 1 + 5], -2 ^ 63 ≤ now ∧ now < 2 ^ 63
      decide⟩
  have shown : Except.ok (ascii ['x'], [(ascii ['a'], ascii ['x'])]) = Except.ok ([], []) := met.1
  exact absurd (congrArg Prod.fst (Except.ok.inj shown)) (by decide)

end EnhancedProxy

import EnhancedProxy.Cache.LruLaws

/-! When a put to the LRU list keeps within its capacity, and what the eviction loop does else. -/

namespace EnhancedProxy

/-- A url is either not cached, or it has one entry that the map designates. -/
theorem WellFormed.absent_or_cached {lru : Lru} (formed : WellFormed lru) (url : Bytes) :
    lru.map.lookup url = none ∨ ∃ entry ∈ lru.list, ∃ time, url = entry.url ∧
      lru.map.lookup entry.url = some { time := time, position := entry.address } := by
  cases lookup : lru.map.lookup url with
  | none => exact .inl rfl
  | some node =>
    -- The list names the entry, and the map's node for it holds its address.
    obtain ⟨entry, member, rfl⟩ := formed.listed url node lookup
    obtain ⟨time, indexed⟩ := formed.indexed entry member
    exact .inr ⟨entry, member, time, rfl, lookup ▸ indexed⟩

/-- What a call that returns does: it changes nothing, appends an entry for a url that is not
cached, moves an entry to the recent end, or erases one. -/
theorem WellFormed.step_cases {lru next : Lru} {call : LruCall} (formed : WellFormed lru)
    (stepped : lruMachine.step lru call = some next) :
    next = lru ∨
    (∃ (now : Int) (url content : Bytes), lru.map.lookup url = none ∧
      ¬ Lru.overfull (toInt32 (lru.list.length + 1 : Nat)) lru.maxSize ∧
      next = { lru with
        list := lru.list ++ [{ address := lru.nextAddress, url := url, content := content }]
        map := lru.map.insert url { time := toUnsigned64 now, position := lru.nextAddress }
        nextAddress := lru.nextAddress + 1 }) ∨
    (∃ entry ∈ lru.list, ∃ content size map,
      (∃ time, map.lookup entry.url = some { time := time, position := entry.address }) ∧
      (∀ url, url ≠ entry.url → map.lookup url = lru.map.lookup url) ∧
      next = { lru with
        list := lru.list.filter (·.url ≠ entry.url) ++ [{ entry with content := content }]
        map := map
        size := size }) ∨
    ∃ url, next = { lru with
      list := lru.list.filter (·.url ≠ url), map := lru.map.erase url } := by
  cases call with
  | put now url content =>
    rcases formed.absent_or_cached url with absent | ⟨entry, member, time, rfl, cached⟩
    · simp only [lruMachine, put_absent absent] at stepped
      -- The call returned, so the eviction loop was not entered.
      split at stepped
      · cases stepped
      · rename_i fits
        cases stepped
        exact .inr (.inl ⟨now, url, content, absent, fits, rfl⟩)
    · -- Overwriting changes the map only at this url.
      simp only [lruMachine, put_cached formed member cached] at stepped
      cases stepped
      exact .inr (.inr (.inl ⟨entry, member, content, _, _, ⟨_, AList.lookup_insert _⟩,
        fun other differs => AList.lookup_insert_ne differs, rfl⟩))
  | get now url =>
    rcases formed.absent_or_cached url with absent | ⟨entry, member, time, rfl, cached⟩
    · simp only [lruMachine, Lru.get, absent] at stepped
      cases stepped
      exact .inl rfl
    · simp only [lruMachine, get_cached formed member cached] at stepped
      -- An entry that is too old is erased, and any other moves to the recent end.
      split at stepped
      · cases stepped
        exact .inr (.inr (.inr ⟨entry.url, rfl⟩))
      · cases stepped
        exact .inr (.inr (.inl ⟨entry, member, entry.content, lru.size, lru.map, ⟨time, cached⟩,
          fun _ _ => rfl, rfl⟩))
  | erase url =>
    rcases formed.absent_or_cached url with absent | ⟨entry, member, time, rfl, cached⟩
    · simp only [lruMachine, Lru.erase, absent] at stepped
      cases stepped
      exact .inl rfl
    · simp only [lruMachine, erase_cached formed member cached] at stepped
      cases stepped
      exact .inr (.inr (.inr ⟨entry.url, rfl⟩))

/-- Every call that returns leaves the list and the map in agreement. -/
theorem wellFormed_step {lru next : Lru} {call : LruCall} (formed : WellFormed lru)
    (stepped : lruMachine.step lru call = some next) : WellFormed next := by
  -- `step_cases` names the four things a call can do, and each has its own formation lemma.
  obtain rfl | ⟨now, url, content, absent, -, rfl⟩ |
    ⟨entry, member, content, size, map, here, elsewhere, rfl⟩ | ⟨url, rfl⟩ :=
      formed.step_cases stepped
  · exact formed
  · exact formed.appended absent _ content
  · exact formed.touched member content size here elsewhere
  · exact formed.erased url

/-- A put that returns leaves the list and the map in agreement. -/
theorem put_wellFormed {lru next : Lru} {now : Int} {url content : Bytes}
    (formed : WellFormed lru) (returned : lru.put now url content = .ok next) :
    WellFormed next := by
  -- A put that returns is a step of the machine.
  have stepped : lruMachine.step lru (.put now url content) = some next := by
    simp only [lruMachine, returned]
    rfl
  exact wellFormed_step formed stepped

/-- Every reachable `Lru` is well formed. -/
theorem wellFormed_run {size garbage : Nat} {calls : List LruCall} {lru : Lru}
    (reached : lruMachine.run (Lru.new size garbage) calls = some lru) : WellFormed lru :=
  -- The invariant of one call, along the run.
  Machine.run_invariant (fun _ _ _ formed stepped => wellFormed_step formed stepped)
    (wellFormed_new size garbage) reached

/-- An entry that moves to the end leaves the length as it is. -/
theorem length_filter_append {list : List Entry} (formed : (list.map (·.url)).Nodup) {entry : Entry}
    (member : entry ∈ list) (last : Entry) :
    (list.filter (·.url ≠ entry.url) ++ [last]).length = list.length := by
  -- The filter removes exactly one entry, the one of this url.
  let entries := list.map fun e => (e.url, e.content)
  have distinct : (entries.map Prod.fst).Nodup := by
    simpa [entries, Function.comp_def] using formed
  have listed : entry.url ∈ entries.map Prod.fst := by
    simpa [entries] using ⟨entry, member, rfl⟩
  have removed := Recency.length_others distinct listed
  simpa [entries, Recency.others, List.filter_map, Function.comp_def] using removed

/-- The content found for a url is the content of its entry in the list. -/
theorem WellFormed.find_eq {lru : Lru} (formed : WellFormed lru) (entry : Entry)
    (member : entry ∈ lru.list) : lru.find entry.url = some entry.content := by
  -- The map leads to the address of the entry, where no other entry is.
  obtain ⟨time, cached⟩ := formed.indexed entry member
  rw [Lru.find, cached, Option.bind_some, find_address formed.addressesDistinct member]
  rfl

/-- The entries of the other urls are those whose nodes remain after a removal. -/
theorem others_entries (lru : Lru) (url : Bytes) :
    Recency.others url lru.entries =
      (lru.list.filter (·.url ≠ url)).map fun entry => (entry.url, entry.content) := by
  -- Filtering by url commutes with showing an entry as its url and content.
  rw [Recency.others, Lru.entries, List.filter_map]
  rfl

/-- A put that does what an LRU cache of this capacity should do. -/
def PutEvicts (before : Lru) (url content : Bytes) (outcome : Except LruFault Lru) : Prop :=
  ∃ after, outcome = .ok after ∧ after.find url = some content ∧
    after.entries.getLast? = some (url, content) ∧ after.entries.length ≤ before.maxSize ∧
    after.entries = Recency.put before.maxSize url content before.entries

/-- The number of entries there would be after a put if nothing were evicted. -/
def entriesWithPut (lru : Lru) (url : Bytes) : Nat :=
  if (lru.map.lookup url).isSome then lru.list.length else lru.list.length + 1

/-- A put evicts correctly exactly when nothing has to be evicted and the guard agrees. -/
theorem put_evicts_iff {size garbage : Nat} {calls : List LruCall} {lru : Lru}
    (reached : lruMachine.run (Lru.new size garbage) calls = some lru) (now : Int)
    (url content : Bytes) :
    PutEvicts lru url content (lru.put now url content) ↔
      entriesWithPut lru url ≤ lru.maxSize ∧
        ((lru.map.lookup url).isSome ∨
          Lru.overfull (toInt32 (entriesWithPut lru url)) lru.maxSize = false) := by
  have formed := wellFormed_run reached
  rcases formed.absent_or_cached url with absent | ⟨entry, member, time, rfl, cached⟩
  · -- A new url enters the loop or not, and a loop that is entered never ends well.
    have count : entriesWithPut lru url = lru.list.length + 1 := by simp [entriesWithPut, absent]
    -- The url has no entry that the recency order would have to move.
    have notListed : url ∉ lru.entries.map Prod.fst := by
      intro listed
      have inList : url ∈ lru.list.map (·.url) := by simpa [Lru.entries] using listed
      simpa [absent] using formed.mem_urls_iff.mp inList
    have all := Recency.others_of_absent notListed
    have length : lru.entries.length = lru.list.length := List.length_map _
    have outcome := put_absent absent now content
    rw [count]
    split at outcome
    · -- The loop is entered, and the call does not return.
      rename_i full
      constructor
      · rintro ⟨after, returned, -⟩
        rw [outcome] at returned
        cases returned
      · rintro ⟨-, cached | fits⟩
        · rw [absent] at cached
          cases cached
        · rw [full] at fits
          cases fits
    · -- The loop is not entered, and the new entry is appended.
      rename_i fits
      constructor
      · rintro ⟨after, returned, -, -, within, -⟩
        rw [outcome] at returned
        cases returned
        exact ⟨by simpa [Lru.entries] using within, .inr (by simpa using fits)⟩
      · rintro ⟨within, -⟩
        refine ⟨_, outcome, (put_wellFormed formed outcome).find_eq ⟨lru.nextAddress, url, content⟩
          (by simp), by simp [Lru.entries], by simpa [Lru.entries] using within, ?_⟩
        rw [Recency.put_of_fits (by rw [all, length]; exact within), Recency.touch, all]
        simp [Lru.entries]
  · -- Overwriting keeps the number of entries, so there is nothing to evict.
    have count : entriesWithPut lru entry.url = lru.list.length := by simp [entriesWithPut, cached]
    have same := length_filter_append formed.urlsDistinct member { entry with content := content }
    have distinct : (lru.entries.map Prod.fst).Nodup := by
      simpa [Lru.entries, Function.comp_def] using formed.urlsDistinct
    have listed : entry.url ∈ lru.entries.map Prod.fst := by
      simpa [Lru.entries] using ⟨entry, member, rfl⟩
    -- The entry stands once, so moving it keeps the length.
    have others := Recency.length_others distinct listed
    have length : lru.entries.length = lru.list.length := List.length_map _
    have outcome := put_cached formed member cached now content
    rw [count]
    simp only [cached, Option.isSome_some, true_or, and_true]
    constructor
    · rintro ⟨after, returned, -, -, within, -⟩
      rw [outcome] at returned
      cases returned
      simpa only [Lru.entries, List.length_map, same] using within
    · intro within
      refine ⟨_, outcome, (put_wellFormed formed outcome).find_eq { entry with content := content }
        (by simp), by simp [Lru.entries],
        by simpa only [Lru.entries, List.length_map, same] using within, ?_⟩
      rw [Recency.put_of_fits (by omega), Recency.touch, others_entries]
      simp [Lru.entries]

/-- A cached url is overwritten in a full cache without an eviction. -/
theorem put_evicts_iff_overwrite :
    ∃ lru, lruMachine.run (Lru.new 1 0) [.put 5 (ascii ['a']) (ascii ['x'])] = some lru ∧
      PutEvicts lru (ascii ['a']) (ascii ['y']) (lru.put 6 (ascii ['a']) (ascii ['y'])) := by
  -- One put fills a cache of one entry.
  have reached : lruMachine.run (Lru.new 1 0) [.put 5 (ascii ['a']) (ascii ['x'])] = some _ := rfl
  refine ⟨_, reached, (put_evicts_iff reached 6 (ascii ['a']) (ascii ['y'])).mpr ?_⟩
  exact ⟨by decide, .inl (by decide)⟩

/-- A second url put into a cache of one entry makes the loop run off the end of the list. -/
theorem put_second_fails :
    ¬ ∀ (size garbage : Nat) (calls : List LruCall) (lru : Lru) (now : Int) (url content : Bytes),
      1 ≤ size → lruMachine.run (Lru.new size garbage) calls = some lru →
        PutEvicts lru url content (lru.put now url content) := by
  intro all
  obtain ⟨after, returned, -⟩ := all 1 0 [.put 5 (ascii ['a']) (ascii ['x'])] _ 6 (ascii ['b'])
    (ascii ['y']) (Nat.le_refl 1) rfl
  -- The guard stays true while both entries are evicted, and then the list is empty.
  have failed : Except.ok after = .error LruFault.emptyList := returned.symm.trans rfl
  cases failed

end EnhancedProxy

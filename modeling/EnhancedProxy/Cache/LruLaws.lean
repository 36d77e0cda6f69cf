import EnhancedProxy.Cache.Lru

/-! The list and the map of an `Lru` describe the same entries after every call that returns. -/

namespace EnhancedProxy

/-- Two members of a list without repeated images are equal when their images are. -/
theorem eq_of_nodup_map {α β : Type*} {f : α → β} {l : List α} (distinct : (l.map f).Nodup)
    {a b : α} (first : a ∈ l) (second : b ∈ l) (same : f a = f b) : a = b :=
  List.inj_on_of_nodup_map distinct first second same

/-- A search by address finds the one entry at that address. -/
theorem find_address {list : List Entry} (distinct : (list.map (·.address)).Nodup) {entry : Entry}
    (member : entry ∈ list) : list.find? (·.address = entry.address) = some entry := by
  cases found : list.find? (·.address = entry.address) with
  | none =>
    have absent := List.find?_eq_none.mp found entry member
    simp at absent
  | some other =>
    -- The entry found is in the list and has the same address.
    have inList := List.mem_of_find?_eq_some found
    have same : other.address = entry.address := by simpa using List.find?_some found
    rw [eq_of_nodup_map distinct inList member same]

/-- The list, the map and the allocator of an `Lru` agree. -/
structure WellFormed (lru : Lru) : Prop where
  urlsDistinct : (lru.list.map (·.url)).Nodup
  addressesDistinct : (lru.list.map (·.address)).Nodup
  indexed : ∀ entry ∈ lru.list,
    ∃ time, lru.map.lookup entry.url = some { time := time, position := entry.address }
  listed : ∀ url node, lru.map.lookup url = some node → ∃ entry ∈ lru.list, entry.url = url
  allocated : ∀ entry ∈ lru.list, entry.address < lru.nextAddress

namespace WellFormed

variable {lru : Lru} (formed : WellFormed lru)

include formed

/-- A url is in the list exactly when the map has a node for it. -/
theorem mem_urls_iff {url : Bytes} :
    url ∈ lru.list.map (·.url) ↔ (lru.map.lookup url).isSome := by
  constructor
  · -- Every entry of the list is indexed.
    intro present
    obtain ⟨entry, member, rfl⟩ := List.mem_map.mp present
    obtain ⟨time, lookup⟩ := formed.indexed entry member
    simp [lookup]
  · -- Every node of the map is listed.
    intro cached
    obtain ⟨node, lookup⟩ := Option.isSome_iff_exists.mp cached
    obtain ⟨entry, member, rfl⟩ := formed.listed url node lookup
    exact List.mem_map_of_mem member

/-- Removing the node at an entry's address removes the entry of its url. -/
theorem filter_address {entry : Entry} (member : entry ∈ lru.list) :
    lru.list.filter (·.address ≠ entry.address) = lru.list.filter (·.url ≠ entry.url) := by
  refine List.filter_congr fun other inList => ?_
  -- Addresses and urls both tell the entries of the list apart.
  have sameAddress : other.address = entry.address ↔ other = entry :=
    ⟨eq_of_nodup_map formed.addressesDistinct inList member, fun same => by rw [same]⟩
  have sameUrl : other.url = entry.url ↔ other = entry :=
    ⟨eq_of_nodup_map formed.urlsDistinct inList member, fun same => by rw [same]⟩
  simp only [ne_eq, sameAddress, sameUrl]

end WellFormed

/-- A new `Lru` holds nothing, and its map agrees. -/
theorem wellFormed_new (size garbage : Nat) : WellFormed (Lru.new size garbage) where
  -- There are no entries to disagree about.
  urlsDistinct := List.nodup_nil
  addressesDistinct := List.nodup_nil
  indexed := by simp [Lru.new]
  listed := by simp [Lru.new]
  allocated := by simp [Lru.new]

/-- The eviction loop does nothing when its guard is false at the start. -/
theorem evict_of_fits {sizeNow : Int} {maxSize : Nat} (fits : Lru.overfull sizeNow maxSize = false)
    (list : List Entry) (map : AList fun _ : Bytes => Node) :
    Lru.evict sizeNow maxSize list map = .ok (list, map) := by
  cases list <;> simp [Lru.evict, fits]

/-- Once the guard is true it stays true, so the loop empties the list and then goes wrong. -/
theorem evict_of_overfull {sizeNow : Int} {maxSize : Nat}
    (full : Lru.overfull sizeNow maxSize = true)
    (list : List Entry) (map : AList fun _ : Bytes => Node) :
    Lru.evict sizeNow maxSize list map = .error .emptyList := by
  -- Each pass removes one entry, and the measure stays as it was.
  induction list generalizing map with
  | nil => simp [Lru.evict, full]
  | cons oldest rest ih => simp [Lru.evict, full, ih]

/-- Writing through an iterator leaves the entries at other addresses alone. -/
theorem filter_reassign (list : List Entry) (position : Nat) (content : Bytes) :
    (list.map (Lru.reassign position content)).filter (·.address ≠ position) =
      list.filter (·.address ≠ position) := by
  -- The entry written to is filtered out on both sides.
  induction list with
  | nil => rfl
  | cons entry list ih =>
    by_cases here : entry.address = position
    · simp [Lru.reassign, here] at ih ⊢
      exact ih
    · simp [Lru.reassign, here] at ih ⊢
      exact ih

/-- The entry found through an iterator after a write is the old one with the new content. -/
theorem find_reassign {list : List Entry} (distinct : (list.map (·.address)).Nodup) {entry : Entry}
    (member : entry ∈ list) (content : Bytes) :
    (list.map (Lru.reassign entry.address content)).find? (·.address = entry.address) =
      some { entry with content := content } := by
  -- Writing the content does not change which entry is at the address.
  have kept : ((fun e : Entry => decide (e.address = entry.address)) ∘
      Lru.reassign entry.address content) = fun e => decide (e.address = entry.address) := by
    funext other
    simp only [Function.comp, Lru.reassign]
    split <;> rfl
  rw [List.find?_map, kept, find_address distinct member]
  simp [Lru.reassign]

/-- A put of a url that is not cached appends it, and fails when the eviction loop is entered. -/
theorem put_absent {lru : Lru} {url : Bytes} (absent : lru.map.lookup url = none) (now : Int)
    (content : Bytes) :
    lru.put now url content =
      if Lru.overfull (toInt32 (lru.list.length + 1 : Nat)) lru.maxSize then .error .emptyList
      else .ok { lru with
        list := lru.list ++ [{ address := lru.nextAddress, url := url, content := content }]
        map := lru.map.insert url { time := toUnsigned64 now, position := lru.nextAddress }
        nextAddress := lru.nextAddress + 1 } := by
  -- What the loop does depends on its guard alone.
  simp only [Lru.put, absent, List.length_append, List.length_cons, List.length_nil]
  split
  · rename_i full
    rw [evict_of_overfull full]
    rfl
  · rename_i fits
    rw [evict_of_fits (by simpa using fits)]
    rfl

/-- A put of a cached url overwrites its content and moves it to the recent end. -/
theorem put_cached {lru : Lru} (formed : WellFormed lru) {entry : Entry} {time : Nat}
    (member : entry ∈ lru.list)
    (cached : lru.map.lookup entry.url = some { time := time, position := entry.address })
    (now : Int) (content : Bytes) :
    lru.put now entry.url content = .ok { lru with
      list := lru.list.filter (·.url ≠ entry.url) ++ [{ entry with content := content }]
      map := lru.map.insert entry.url { time := toUnsigned64 now, position := entry.address }
      size := (lru.list.filter (fun e : Entry => e.url ≠ entry.url) ++
        [({ entry with content := content } : Entry)]).length } := by
  have present : lru.list.any (·.address = entry.address) = true :=
    List.any_eq_true.mpr ⟨entry, member, by simp⟩
  -- The write, the splice and the recorded size each act on the node of this url.
  simp only [Lru.put, cached, Lru.assign, present, if_true, Lru.splice, Bind.bind, Except.bind,
    find_reassign formed.addressesDistinct member content, filter_reassign,
    formed.filter_address member]
  rfl

/-- An erase of a cached url removes its entry from the list and from the map. -/
theorem erase_cached {lru : Lru} (formed : WellFormed lru) {entry : Entry} {time : Nat}
    (member : entry ∈ lru.list)
    (cached : lru.map.lookup entry.url = some { time := time, position := entry.address }) :
    lru.erase entry.url = .ok { lru with
      list := lru.list.filter (·.url ≠ entry.url), map := lru.map.erase entry.url } := by
  -- The iterator of the node designates the entry.
  have present : lru.list.any (·.address = entry.address) = true :=
    List.any_eq_true.mpr ⟨entry, member, by simp⟩
  simp only [Lru.erase, cached, present, if_true, formed.filter_address member]

/-- A get of a cached url erases it when it is too old, and otherwise makes it the most recent. -/
theorem get_cached {lru : Lru} (formed : WellFormed lru) {entry : Entry} {time : Nat}
    (member : entry ∈ lru.list)
    (cached : lru.map.lookup entry.url = some { time := time, position := entry.address })
    (now : Int) :
    lru.get now entry.url =
      if toUnsigned64 (toUnsigned64 now - time : Int) > lru.expiredTime then
        .ok ([], { lru with
          list := lru.list.filter (·.url ≠ entry.url), map := lru.map.erase entry.url })
      else .ok (entry.content, { lru with
        list := lru.list.filter (·.url ≠ entry.url) ++ [entry] }) := by
  -- The age decides whether the entry is erased or moved.
  simp only [Lru.get, cached]
  split
  · rw [erase_cached formed member cached]
    rfl
  · have last : (lru.list.filter (·.url ≠ entry.url) ++ [entry]).find?
        (·.address = entry.address) = some entry := by
      -- After the splice no other entry has this address.
      have gone : (lru.list.filter (·.address ≠ entry.address)).find?
          (·.address = entry.address) = none := by
        refine List.find?_eq_none.mpr fun other kept => ?_
        simpa using (List.mem_filter.mp kept).2
      rw [← formed.filter_address member, List.find?_append, gone]
      simp
    simp only [Lru.splice, find_address formed.addressesDistinct member,
      formed.filter_address member, Bind.bind, Except.bind, last]
    rfl

/-- Moving an entry of a url to the recent end, with any content, keeps the `Lru` well formed. -/
theorem WellFormed.touched {lru : Lru} (formed : WellFormed lru) {entry : Entry}
    (member : entry ∈ lru.list) (content : Bytes) (size : Nat)
    {map : AList fun _ : Bytes => Node}
    (here : ∃ time, map.lookup entry.url = some { time := time, position := entry.address })
    (elsewhere : ∀ url, url ≠ entry.url → map.lookup url = lru.map.lookup url) :
    WellFormed { lru with
      list := lru.list.filter (·.url ≠ entry.url) ++ [{ entry with content := content }]
      map := map
      size := size } where
  urlsDistinct := by
    -- The other urls are distinct from this one, which stands last.
    have kept := formed.urlsDistinct.sublist ((List.filter_sublist (l := lru.list)
      (p := fun e => decide (e.url ≠ entry.url))).map (·.url))
    rw [List.map_append, List.nodup_append]
    refine ⟨kept, by simp, ?_⟩
    intro url inFiltered other isLast
    obtain ⟨e, inList, rfl⟩ := List.mem_map.mp inFiltered
    have differs : e.url ≠ entry.url := by simpa using (List.mem_filter.mp inList).2
    simp only [List.map_cons, List.map_nil, List.mem_singleton] at isLast
    rw [isLast]
    exact differs
  addressesDistinct := by
    -- The other addresses are distinct from this one, which stands last.
    have kept := formed.addressesDistinct.sublist ((List.filter_sublist (l := lru.list)
      (p := fun e => decide (e.address ≠ entry.address))).map (·.address))
    rw [← formed.filter_address member, List.map_append, List.nodup_append]
    refine ⟨kept, by simp, ?_⟩
    intro address inFiltered other isLast
    obtain ⟨e, inList, rfl⟩ := List.mem_map.mp inFiltered
    have differs : e.address ≠ entry.address := by simpa using (List.mem_filter.mp inList).2
    simp only [List.map_cons, List.map_nil, List.mem_singleton] at isLast
    rw [isLast]
    exact differs
  indexed := by
    intro e inList
    rcases List.mem_append.mp inList with kept | last
    · -- The nodes of other urls are those from before.
      obtain ⟨inOld, differs⟩ := List.mem_filter.mp kept
      obtain ⟨time, lookup⟩ := formed.indexed e inOld
      exact ⟨time, (elsewhere e.url (by simpa using differs)).trans lookup⟩
    · rw [List.mem_singleton.mp last]
      exact here
  listed := by
    intro url node lookup
    -- This url is listed last, and the others where they were.
    by_cases same : url = entry.url
    · exact ⟨{ entry with content := content }, by simp, same.symm⟩
    · obtain ⟨e, inList, named⟩ := formed.listed url node ((elsewhere url same).symm.trans lookup)
      refine ⟨e, List.mem_append_left _ (List.mem_filter.mpr ⟨inList, ?_⟩), named⟩
      simpa [named] using same
  allocated := by
    intro e inList
    rcases List.mem_append.mp inList with kept | last
    · exact formed.allocated e (List.mem_filter.mp kept).1
    · rw [List.mem_singleton.mp last]
      exact formed.allocated entry member

/-- Removing the entry of a url from list and map keeps the `Lru` well formed. -/
theorem WellFormed.erased {lru : Lru} (formed : WellFormed lru) (url : Bytes) :
    WellFormed { lru with list := lru.list.filter (·.url ≠ url), map := lru.map.erase url } where
  -- What remains of the list is as distinct as it was.
  urlsDistinct := formed.urlsDistinct.sublist (List.filter_sublist.map _)
  addressesDistinct := formed.addressesDistinct.sublist (List.filter_sublist.map _)
  indexed := by
    intro entry inList
    obtain ⟨inOld, differs⟩ := List.mem_filter.mp inList
    obtain ⟨time, lookup⟩ := formed.indexed entry inOld
    exact ⟨time, by rw [AList.lookup_erase_ne (by simpa using differs), lookup]⟩
  listed := by
    intro other node lookup
    -- The map has no node for the erased url.
    have differs : other ≠ url := by
      rintro rfl
      rw [AList.lookup_erase] at lookup
      cases lookup
    rw [AList.lookup_erase_ne differs] at lookup
    obtain ⟨entry, inList, named⟩ := formed.listed other node lookup
    exact ⟨entry, List.mem_filter.mpr ⟨inList, by simpa [named] using differs⟩, named⟩
  allocated := fun entry inList => formed.allocated entry (List.mem_filter.mp inList).1

/-- Appending a new entry for a url that has none keeps the `Lru` well formed. -/
theorem WellFormed.appended {lru : Lru} (formed : WellFormed lru) {url : Bytes}
    (absent : lru.map.lookup url = none) (time : Nat) (content : Bytes) :
    WellFormed { lru with
      list := lru.list ++ [{ address := lru.nextAddress, url := url, content := content }]
      map := lru.map.insert url { time := time, position := lru.nextAddress }
      nextAddress := lru.nextAddress + 1 } where
  urlsDistinct := by
    rw [List.map_append, List.nodup_append]
    refine ⟨formed.urlsDistinct, by simp, ?_⟩
    intro other inOld last isLast
    -- The url was not listed, because it was not cached.
    have present := formed.mem_urls_iff.mp inOld
    have isLast : last = url := by simpa using isLast
    intro same
    rw [same, isLast, absent] at present
    cases present
  addressesDistinct := by
    rw [List.map_append, List.nodup_append]
    refine ⟨formed.addressesDistinct, by simp, ?_⟩
    intro address inOld last isLast
    -- The allocator has not handed out this address before.
    obtain ⟨entry, member, rfl⟩ := List.mem_map.mp inOld
    have below := formed.allocated entry member
    have isLast : last = lru.nextAddress := by simpa using isLast
    omega
  indexed := by
    intro entry inList
    rcases List.mem_append.mp inList with old | last
    · obtain ⟨oldTime, lookup⟩ := formed.indexed entry old
      have differs : entry.url ≠ url := by
        intro same
        rw [same, absent] at lookup
        cases lookup
      exact ⟨oldTime, by rw [AList.lookup_insert_ne differs, lookup]⟩
    · rw [List.mem_singleton.mp last]
      exact ⟨time, AList.lookup_insert _⟩
  listed := by
    intro other node lookup
    -- The new url is listed last, and the others where they were.
    by_cases same : other = url
    · exact ⟨{ address := lru.nextAddress, url := url, content := content }, by simp, same.symm⟩
    · rw [AList.lookup_insert_ne same] at lookup
      obtain ⟨entry, inList, named⟩ := formed.listed other node lookup
      exact ⟨entry, List.mem_append_left _ inList, named⟩
  allocated := by
    intro entry inList
    rcases List.mem_append.mp inList with old | last
    · exact Nat.lt_succ_of_lt (formed.allocated entry old)
    · rw [List.mem_singleton.mp last]
      exact Nat.lt_succ_self _

end EnhancedProxy

import EnhancedProxy.Cache.Eviction

/-! What each operation of an `Lru` does to its entries, seen as a map ordered by recency. -/

namespace EnhancedProxy

namespace Lru

/-- The time of the last put of a url, as the map records it. -/
def putTime (lru : Lru) (url : Bytes) : Option Nat := (lru.map.lookup url).map (·.time)

/-- The urls in the list, least recently used first. -/
def urls (lru : Lru) : List Bytes := lru.list.map (·.url)

/-- A put that enters the eviction loop. -/
def Evicts (lru : Lru) (url : Bytes) : Prop :=
  lru.map.lookup url = none ∧ overfull (toInt32 (lru.list.length + 1 : Nat)) lru.maxSize = true

/-- A get that finds its entry too old. -/
def Expires (lru : Lru) (now : Int) (url : Bytes) : Prop :=
  ∃ node, lru.map.lookup url = some node ∧
    toUnsigned64 (toUnsigned64 now - node.time : Int) > lru.expiredTime

end Lru

/-- What an operation leaves: the given entries with the given times, in a well-formed `Lru` of the
same dimensions. -/
structure Becomes (before after : Lru) (entries : List (Bytes × Bytes))
    (putTime : Bytes → Option Nat) : Prop where
  formed : WellFormed after
  entries : after.entries = entries
  putTime : after.putTime = putTime
  maxSize : after.maxSize = before.maxSize
  expiredTime : after.expiredTime = before.expiredTime

namespace WellFormed

variable {lru : Lru} (formed : WellFormed lru)

/-- The urls are the keys of the entries. -/
theorem urls_eq (lru : Lru) : lru.urls = lru.entries.map Prod.fst := by
  simp [Lru.urls, Lru.entries, Function.comp_def]

include formed

/-- The content found for a url is the one that stands beside it in the list. -/
theorem find_eq_some_iff {url content : Bytes} :
    lru.find url = some content ↔ (url, content) ∈ lru.entries := by
  constructor
  · -- A url with a content is cached, and its entry is in the list.
    intro found
    rcases formed.absent_or_cached url with absent | ⟨entry, member, -, rfl, -⟩
    · rw [Lru.find, absent] at found
      cases found
    · rw [formed.find_eq entry member, Option.some.injEq] at found
      exact List.mem_map.mpr ⟨entry, member, by rw [found]⟩
  · intro listed
    obtain ⟨entry, member, same⟩ := List.mem_map.mp listed
    obtain ⟨rfl, rfl⟩ := Prod.mk.inj same
    exact formed.find_eq entry member

/-- A url without a content is not cached. -/
theorem find_eq_none_iff {url : Bytes} : lru.find url = none ↔ lru.map.lookup url = none := by
  -- A url in the map is found with its content, so only an absent one is not found.
  constructor
  · intro missing
    rcases formed.absent_or_cached url with absent | ⟨entry, member, -, rfl, -⟩
    · exact absent
    · rw [formed.find_eq entry member] at missing
      cases missing
  · intro absent
    rw [Lru.find, absent, Option.bind_none]

/-- A url with a content has an entry with that content. -/
theorem cached_of_find {url content : Bytes} (found : lru.find url = some content) :
    ∃ entry ∈ lru.list, ∃ time, url = entry.url ∧ content = entry.content ∧
      lru.map.lookup entry.url = some { time := time, position := entry.address } := by
  -- What is found is not absent, and then it is the entry at the position in the map.
  rcases formed.absent_or_cached url with absent | ⟨entry, member, time, rfl, cached⟩
  · rw [formed.find_eq_none_iff.mpr absent] at found
    cases found
  · rw [formed.find_eq entry member, Option.some.injEq] at found
    exact ⟨entry, member, time, rfl, found.symm, cached⟩

/-- The entries determine the contents. -/
theorem find_congr {other : Lru} (formedOther : WellFormed other)
    (same : other.entries = lru.entries) : other.find = lru.find := by
  -- What is found can be read off the entries.
  funext url
  apply Option.ext
  intro content
  rw [formedOther.find_eq_some_iff, same, formed.find_eq_some_iff]

/-- The entries and the capacity determine which puts evict. -/
theorem evicts_congr {other : Lru} (formedOther : WellFormed other)
    (same : other.entries = lru.entries) (maxSize : other.maxSize = lru.maxSize) (url : Bytes) :
    other.Evicts url ↔ lru.Evicts url := by
  -- A put evicts if its url is not found and the list has the length of the capacity.
  have length : other.list.length = lru.list.length := by
    simpa [Lru.entries] using congrArg List.length same
  rw [Lru.Evicts, Lru.Evicts, ← formed.find_eq_none_iff, ← formedOther.find_eq_none_iff,
    formed.find_congr formedOther same, length, maxSize]

end WellFormed

namespace Becomes

variable {before after : Lru} {entries : List (Bytes × Bytes)} {putTime : Bytes → Option Nat}

/-- The urls left are the keys of the entries left. -/
theorem urls (becomes : Becomes before after entries putTime) :
    after.urls = entries.map Prod.fst := by
  rw [WellFormed.urls_eq, becomes.entries]

/-- After a touch, its url has the content of the touch, and the others have theirs. -/
theorem find_touch {url content : Bytes} (formed : WellFormed before)
    (becomes : Becomes before after (Recency.touch url content before.entries) putTime) :
    after.find = Function.update before.find url (some content) := by
  -- The touched url now has the content, and every other url keeps its entries.
  funext other
  apply Option.ext
  intro value
  rw [becomes.formed.find_eq_some_iff, becomes.entries, Recency.mem_touch]
  by_cases same : other = url
  · simp [same, eq_comm]
  · simp [same, formed.find_eq_some_iff]

/-- After a removal, its url has no content, and the others have theirs. -/
theorem find_others {url : Bytes} (formed : WellFormed before)
    (becomes : Becomes before after (Recency.others url before.entries) putTime) :
    after.find = Function.update before.find url none := by
  -- No entry of the url is left, and every other url keeps its own.
  funext other
  apply Option.ext
  intro value
  rw [becomes.formed.find_eq_some_iff, becomes.entries, Recency.mem_others]
  by_cases same : other = url
  · simp [same]
  · simp [same, formed.find_eq_some_iff]

end Becomes

/-- The entries after a url was moved to the recent end with a content. -/
theorem entries_touch (lru : Lru) {entry : Entry} (content : Bytes) :
    (lru.list.filter (fun e : Entry => e.url ≠ entry.url) ++
        [({ entry with content := content } : Entry)]).map (fun e : Entry => (e.url, e.content)) =
      Recency.touch entry.url content lru.entries := by
  -- The entry goes to the end with its new content, and the others keep their order.
  rw [Recency.touch, others_entries, List.map_append]
  rfl

/-- A node that is inserted gives its url a time. -/
theorem time_insert (map : AList fun _ : Bytes => Node) (url : Bytes) (node : Node) :
    (fun other => ((map.insert url node).lookup other).map (·.time)) =
      Function.update (fun other => (map.lookup other).map (·.time)) url (some node.time) := by
  -- The url inserted has the time of its node, and every other url what it had.
  funext other
  by_cases same : other = url
  · rw [same, AList.lookup_insert, Function.update_self, Option.map_some]
  · rw [AList.lookup_insert_ne same, Function.update_of_ne same]

/-- A url whose node is erased has no time. -/
theorem time_erase (map : AList fun _ : Bytes => Node) (url : Bytes) :
    (fun other => ((map.erase url).lookup other).map (·.time)) =
      Function.update (fun other => (map.lookup other).map (·.time)) url none := by
  -- The url erased has none, and every other url what it had.
  funext other
  by_cases same : other = url
  · rw [same, AList.lookup_erase, Function.update_self, Option.map_none]
  · rw [AList.lookup_erase_ne same, Function.update_of_ne same]

namespace WellFormed

variable {lru : Lru} (formed : WellFormed lru)

include formed

/-- A put that evicts nothing gives its url the content, and makes it the most recent one. -/
theorem put {url : Bytes} (roomy : ¬ lru.Evicts url) (now : Int) (content : Bytes) :
    ∃ next, lru.put now url content = .ok next ∧
      Becomes lru next (Recency.touch url content lru.entries)
        (Function.update lru.putTime url (some (toUnsigned64 now))) := by
  rcases formed.absent_or_cached url with absent | ⟨entry, member, time, rfl, cached⟩
  · -- A new url is appended to the others, which are all entries there are.
    have fits : Lru.overfull (toInt32 (lru.list.length + 1 : Nat)) lru.maxSize = false := by
      rw [Lru.Evicts, not_and, Bool.not_eq_true] at roomy
      exact roomy absent
    have outcome := put_absent absent now content
    simp only [fits, Bool.false_eq_true, if_false] at outcome
    have unlisted : url ∉ lru.entries.map Prod.fst := by
      intro listed
      rw [← urls_eq] at listed
      simpa [absent] using formed.mem_urls_iff.mp listed
    refine ⟨_, outcome, formed.appended absent _ content, ?_, time_insert lru.map url _, rfl, rfl⟩
    rw [Recency.touch, Recency.others_of_absent unlisted]
    simp [Lru.entries]
  · -- A cached url keeps its node.
    have outcome := put_cached formed member cached now content
    exact ⟨_, outcome, put_wellFormed formed outcome, entries_touch lru content,
      time_insert lru.map entry.url _, rfl, rfl⟩

/-- A get of a url that is not cached finds nothing, and changes nothing. -/
theorem get_miss {url : Bytes} (missing : lru.find url = none) (now : Int) :
    lru.get now url = .ok ([], lru) := by
  simp only [Lru.get, formed.find_eq_none_iff.mp missing]

/-- A get of a cached url that is not too old finds its content, and makes it the most recent. -/
theorem get_hit {now : Int} {url content : Bytes} (found : lru.find url = some content)
    (fresh : ¬ lru.Expires now url) :
    ∃ next, lru.get now url = .ok (content, next) ∧
      Becomes lru next (Recency.touch url content lru.entries) lru.putTime := by
  -- The stored url is not too old, so the lookup takes the branch that moves its entry.
  obtain ⟨entry, member, time, rfl, rfl, cached⟩ := formed.cached_of_find found
  have young : ¬ toUnsigned64 (toUnsigned64 now - time : Int) > lru.expiredTime := by
    intro old
    exact fresh ⟨_, cached, old⟩
  have outcome := get_cached formed member cached now
  rw [if_neg young] at outcome
  refine ⟨_, outcome, ?_, entries_touch lru entry.content, rfl, rfl, rfl⟩
  exact formed.touched member entry.content lru.size ⟨time, cached⟩ fun _ _ => rfl

/-- A get of an entry that is too old finds nothing, and removes it. -/
theorem get_expired {now : Int} {url : Bytes} (expires : lru.Expires now url) :
    ∃ next, lru.get now url = .ok ([], next) ∧
      Becomes lru next (Recency.others url lru.entries) (Function.update lru.putTime url none) := by
  -- An expired url is in the map, so the lookup takes the branch that erases the entry.
  obtain ⟨node, lookup, old⟩ := expires
  rcases formed.absent_or_cached url with absent | ⟨entry, member, time, rfl, cached⟩
  · rw [absent] at lookup
    cases lookup
  · rw [cached, Option.some.injEq] at lookup
    subst lookup
    have outcome := get_cached formed member cached now
    rw [if_pos old] at outcome
    exact ⟨_, outcome, formed.erased entry.url, (others_entries lru entry.url).symm,
      time_erase lru.map entry.url, rfl, rfl⟩

/-- An erase leaves the entries of the other urls. -/
theorem erase (url : Bytes) :
    ∃ next, lru.erase url = .ok next ∧
      Becomes lru next (Recency.others url lru.entries) (Function.update lru.putTime url none) := by
  rcases formed.absent_or_cached url with absent | ⟨entry, member, time, rfl, cached⟩
  · -- A url that is not cached has no entry to go.
    have unlisted : url ∉ lru.entries.map Prod.fst := by
      intro listed
      rw [← urls_eq] at listed
      simpa [absent] using formed.mem_urls_iff.mp listed
    refine ⟨lru, by simp only [Lru.erase, absent], formed,
      (Recency.others_of_absent unlisted).symm, ?_, rfl, rfl⟩
    refine (Function.update_eq_self_iff.mpr ?_).symm
    rw [Lru.putTime, absent, Option.map_none]
  · exact ⟨_, erase_cached formed member cached, formed.erased entry.url,
      (others_entries lru entry.url).symm, time_erase lru.map entry.url, rfl, rfl⟩

end WellFormed

/-- A copy of a list has the same urls and contents, in the same order. -/
theorem entries_copyList (address : Nat) (list : List Entry) :
    (Lru.copyList address list).map (fun entry => (entry.url, entry.content)) =
      list.map fun entry => (entry.url, entry.content) := by
  -- The copy differs in the addresses alone.
  induction list generalizing address with
  | nil => rfl
  | cons entry rest ih => simp [Lru.copyList, ih]

/-- The addresses of a copy are consecutive. -/
theorem addresses_copyList (address : Nat) (list : List Entry) :
    (Lru.copyList address list).map (·.address) = List.range' address list.length := by
  -- Each node is allocated next to the one before.
  induction list generalizing address with
  | nil => rfl
  | cons entry rest ih => simp [Lru.copyList, ih, List.range'_succ]

/-- Urls that are not in the list keep the node they had. -/
theorem lookup_indexList_other (clock : Nat → Int) (map : AList fun _ : Bytes => Node)
    {list : List Entry} {url : Bytes} (unlisted : url ∉ list.map (·.url)) :
    (Lru.indexList clock map list).lookup url = map.lookup url := by
  -- No pass of the loop writes to this url.
  induction list generalizing map with
  | nil => rfl
  | cons entry rest ih =>
    rw [List.map_cons, List.mem_cons, not_or] at unlisted
    rw [Lru.indexList, ih _ unlisted.2, AList.lookup_insert_ne unlisted.1]

/-- Every entry of a list without repeated urls gets a node that leads to it. -/
theorem lookup_indexList (clock : Nat → Int) (map : AList fun _ : Bytes => Node)
    {list : List Entry} (distinct : (list.map (·.url)).Nodup) {entry : Entry}
    (member : entry ∈ list) :
    (Lru.indexList clock map list).lookup entry.url =
      some { time := toUnsigned64 (clock entry.address), position := entry.address } := by
  induction list generalizing map with
  | nil => cases member
  | cons first rest ih =>
    rw [List.map_cons, List.nodup_cons] at distinct
    rcases List.mem_cons.mp member with rfl | later
    · -- Later passes write to other urls.
      rw [Lru.indexList, lookup_indexList_other clock _ distinct.1, AList.lookup_insert]
    · exact ih _ distinct.2 later

/-- The copy constructor, whose list nodes are allocated from an address on. -/
def Lru.copyAt (lru : Lru) (clock : Nat → Int) (address : Nat) : Lru :=
  { maxSize := lru.maxSize
    expiredTime := 2 ^ 31 - 1
    size := lru.size
    list := Lru.copyList address lru.list
    map := Lru.indexList clock ∅ (Lru.copyList address lru.list)
    nextAddress := address + lru.list.length }

/-- The addresses of a copied list. -/
theorem mem_copyList_address {address : Nat} {list : List Entry} {entry : Entry}
    (member : entry ∈ Lru.copyList address list) :
    address ≤ entry.address ∧ entry.address < address + list.length := by
  -- The addresses are consecutive, from the first one on.
  have inRange : entry.address ∈ List.range' address list.length :=
    addresses_copyList address list ▸ List.mem_map_of_mem member
  exact List.mem_range'_1.mp inRange

/-- A copy has the entries of its original, and its map leads to its own nodes, wherever they are. -/
theorem WellFormed.copyAt {lru : Lru} (formed : WellFormed lru) (clock : Nat → Int)
    (address : Nat) :
    WellFormed (lru.copyAt clock address) ∧ (lru.copyAt clock address).entries = lru.entries := by
  have same := entries_copyList address lru.list
  have urls : (Lru.copyList address lru.list).map (·.url) = lru.list.map (·.url) := by
    simpa [Function.comp_def] using congrArg (List.map Prod.fst) same
  have distinct : ((Lru.copyList address lru.list).map (·.url)).Nodup :=
    urls ▸ formed.urlsDistinct
  refine ⟨⟨distinct, ?_, fun entry member => ⟨_, lookup_indexList clock ∅ distinct member⟩,
    fun url node lookup => ?_, fun entry member => (mem_copyList_address member).2⟩, same⟩
  · show ((Lru.copyList address lru.list).map (·.address)).Nodup
    rw [addresses_copyList]
    exact List.nodup_range'
  · -- The map starts empty, so only listed urls have a node.
    by_contra unlisted
    have absent : url ∉ (Lru.copyList address lru.list).map (·.url) := by
      intro listed
      obtain ⟨entry, member, named⟩ := List.mem_map.mp listed
      exact unlisted ⟨entry, member, named⟩
    have empty := lookup_indexList_other clock ∅ absent
    rw [AList.lookup_empty] at empty
    exact absurd (lookup.symm.trans empty) (Option.some_ne_none node)

/-- A copy with an allocator of its own allocates from the start. -/
theorem Lru.copy_eq_copyAt (lru : Lru) (clock : Nat → Int) : lru.copy clock = lru.copyAt clock 0 := by
  -- The copied list, allocated from address zero, ends where its own length says.
  have length : (Lru.copyList 0 lru.list).length = 0 + lru.list.length := by
    rw [Nat.zero_add]
    simpa using congrArg List.length (addresses_copyList 0 lru.list)
  rw [Lru.copyAt, ← length]
  rfl

/-- A copy has the entries of its original, and its map leads to its own nodes. -/
theorem WellFormed.copy {lru : Lru} (formed : WellFormed lru) (clock : Nat → Int) :
    WellFormed (lru.copy clock) ∧ (lru.copy clock).entries = lru.entries := by
  -- The copy is made at address zero.
  rw [lru.copy_eq_copyAt clock]
  exact formed.copyAt clock 0

end EnhancedProxy

import EnhancedProxy.Cache.Operations
import Mathlib.Data.List.Induction

/-! An `Lru` under a well-behaved clock and within its capacity is a map ordered by recency. -/

namespace EnhancedProxy

/-- The clock reading that a call sees. -/
def LruCall.reading : LruCall → Option Int
  | .put now _ _ => some now
  | .get now _ => some now
  | .erase _ => none

/-- What a call does to the log. A put writes its content together with the time. -/
def record (log : Recency.Log Bytes (Int × Bytes)) : LruCall → Recency.Log Bytes (Int × Bytes)
  | .put now url content => log.write url (now, content)
  | .get _ url => log.read url
  | .erase url => log.erase url

/-- What a sequence of calls has done. -/
def history (calls : List LruCall) : Recency.Log Bytes (Int × Bytes) := calls.foldl record {}

/-- Calls that never have more live urls than the capacity, under a clock that never goes backwards
and never advances past the expiry of a live entry. -/
structure Ordinary (size : Nat) (calls : List LruCall) : Prop where
  room : ∀ front, front <+: calls → ∀ urls : List Bytes, urls.Nodup →
    (∀ url ∈ urls, ((history front).written url).isSome) → urls.length ≤ size
  steady : (calls.filterMap LruCall.reading).Pairwise (· ≤ ·)
  fresh : ∀ front call now, front ++ [call] <+: calls → call.reading = some now →
    ∀ url time content, (history front).written url = some (time, content) →
      now ≤ time + (2 ^ 31 - 1)

/-- An `Lru` that agrees with the log of the calls made on it. -/
structure Tracks (size : Nat) (log : Recency.Log Bytes (Int × Bytes)) (lru : Lru) : Prop where
  formed : WellFormed lru
  ordered : Recency.Ordered log lru.urls
  find : ∀ url, lru.find url = (log.written url).map Prod.snd
  time : ∀ url, lru.putTime url = (log.written url).map fun written => toUnsigned64 written.1
  maxSize : lru.maxSize = size
  expiredTime : lru.expiredTime = 2 ^ 31 - 1

/-- The log of a sequence grows by its last call. -/
theorem history_snoc (calls : List LruCall) (call : LruCall) :
    history (calls ++ [call]) = record (history calls) call := by
  simp [history]

/-- What is live was put by one of the calls. -/
theorem put_of_written {calls : List LruCall} {url content : Bytes} {time : Int}
    (live : (history calls).written url = some (time, content)) :
    .put time url content ∈ calls := by
  -- The last call has written it, or it was live before.
  induction calls using List.reverseRecOn with
  | nil => cases live
  | append_singleton calls call ih =>
    rw [history_snoc] at live
    have before : (history calls).written url = some (time, content) →
        .put time url content ∈ calls ++ [call] := fun live =>
      List.mem_append_left _ (ih live)
    cases call with
    | put now other written =>
      by_cases same : url = other
      · subst same
        have last : some (now, written) = some (time, content) := by
          simpa [record, Recency.Log.write] using live
        cases last
        exact List.mem_append_right _ List.mem_cons_self
      · exact before (by simpa [record, Recency.Log.write, same] using live)
    | get now other => exact before live
    | erase other =>
      by_cases same : url = other
      · simp [record, Recency.Log.erase, same] at live
      · exact before (by simpa [record, Recency.Log.erase, same] using live)

namespace Tracks

variable {size : Nat} {log : Recency.Log Bytes (Int × Bytes)} {lru : Lru}

/-- A new `Lru` agrees with the empty log. -/
theorem start (size garbage : Nat) : Tracks size {} (Lru.new size garbage) where
  -- The new object and the empty log agree field by field.
  formed := wellFormed_new size garbage
  ordered := Recency.Ordered.empty
  find _ := rfl
  time _ := rfl
  maxSize := rfl
  expiredTime := rfl

/-- A put that finds room is a write to the log. -/
theorem put (tracks : Tracks size log lru) (small : size < 2 ^ 31) {url : Bytes}
    (room : log.written url = none → lru.urls.length < size) (now : Int) (content : Bytes) :
    ∃ next, lru.put now url content = .ok next ∧
      Tracks size (log.write url (now, content)) next := by
  have roomy : ¬ lru.Evicts url := by
    rintro ⟨absent, full⟩
    -- A url that is not cached is not live, so one more entry fits.
    have dead : log.written url = none := by
      have missing := tracks.find url
      rw [tracks.formed.find_eq_none_iff.mpr absent] at missing
      exact Option.map_eq_none_iff.mp missing.symm
    have room := room dead
    rw [Lru.urls, List.length_map] at room
    rw [Lru.overfull, toInt32_of_lt (by omega), toUnsigned64_of_lt (by omega),
      tracks.maxSize, decide_eq_true_eq] at full
    omega
  obtain ⟨next, returned, becomes⟩ := tracks.formed.put roomy now content
  refine ⟨next, returned, becomes.formed, ?_, fun other => ?_, fun other => ?_,
    becomes.maxSize.trans tracks.maxSize, becomes.expiredTime.trans tracks.expiredTime⟩
  · rw [becomes.urls, Recency.keys_touch, ← WellFormed.urls_eq]
    exact tracks.ordered.write url (now, content)
  · rw [becomes.find_touch tracks.formed]
    by_cases same : other = url
    · simp [same, Recency.Log.write]
    · simp [same, Recency.Log.write, tracks.find]
  · rw [becomes.putTime]
    by_cases same : other = url
    · simp [same, Recency.Log.write]
    · simp [same, Recency.Log.write, tracks.time]

/-- A get of a url that is not live finds nothing. -/
theorem get_dead (tracks : Tracks size log lru) {url : Bytes} (dead : log.written url = none)
    (now : Int) : lru.get now url = .ok ([], lru) ∧ Tracks size (log.read url) lru := by
  -- A url without a write is not in the object, which the lookup leaves as it is.
  have missing : lru.find url = none := by rw [tracks.find, dead, Option.map_none]
  refine ⟨tracks.formed.get_miss missing now, tracks.formed, tracks.ordered.read_dead dead,
    tracks.find, tracks.time, tracks.maxSize, tracks.expiredTime⟩

/-- A get of a live url, before it expires, finds its content and touches it. -/
theorem get_live (tracks : Tracks size log lru) {url content : Bytes} {time now : Int}
    (live : log.written url = some (time, content)) (later : time ≤ now)
    (fresh : now ≤ time + (2 ^ 31 - 1)) :
    ∃ next, lru.get now url = .ok (content, next) ∧ Tracks size (log.read url) next := by
  have found : lru.find url = some content := by rw [tracks.find, live, Option.map_some]
  have young : ¬ lru.Expires now url := by
    rintro ⟨node, cached, old⟩
    -- The age is the difference of two readings, though both are stored modulo 2^64.
    have recorded := tracks.time url
    rw [Lru.putTime, cached, live, Option.map_some, Option.map_some, Option.some.injEq] at recorded
    rw [recorded, tracks.expiredTime] at old
    unfold toUnsigned64 at old
    omega
  obtain ⟨next, returned, becomes⟩ := tracks.formed.get_hit found young
  refine ⟨next, returned, becomes.formed, ?_, fun other => ?_, fun other => ?_,
    becomes.maxSize.trans tracks.maxSize, becomes.expiredTime.trans tracks.expiredTime⟩
  · rw [becomes.urls, Recency.keys_touch, ← WellFormed.urls_eq]
    exact tracks.ordered.read_live (by rw [live]; rfl)
  · rw [becomes.find_touch tracks.formed]
    -- The touch leaves every content as it was.
    by_cases same : other = url
    · simp [same, Recency.Log.read, live]
    · simp [same, Recency.Log.read, tracks.find]
  · rw [becomes.putTime]
    exact tracks.time other

/-- A get finds what the log holds for its url. -/
theorem get (tracks : Tracks size log lru) {now : Int} {url : Bytes}
    (age : ∀ time content, log.written url = some (time, content) →
      time ≤ now ∧ now ≤ time + (2 ^ 31 - 1)) :
    ∃ next, lru.get now url = .ok (((log.written url).map Prod.snd).getD [], next) ∧
      Tracks size (log.read url) next := by
  -- A url that the log has no write for is missed; one it has is young enough to be a hit.
  cases live : log.written url with
  | none => exact ⟨lru, tracks.get_dead live now⟩
  | some written =>
    obtain ⟨time, content⟩ := written
    obtain ⟨later, fresh⟩ := age time content live
    exact tracks.get_live live later fresh

/-- An erase is an erase in the log. -/
theorem erase (tracks : Tracks size log lru) (url : Bytes) :
    ∃ next, lru.erase url = .ok next ∧ Tracks size (log.erase url) next := by
  -- The log and the object forget the same url and agree about all the others.
  obtain ⟨next, returned, becomes⟩ := tracks.formed.erase url
  refine ⟨next, returned, becomes.formed, ?_, fun other => ?_, fun other => ?_,
    becomes.maxSize.trans tracks.maxSize, becomes.expiredTime.trans tracks.expiredTime⟩
  · rw [becomes.urls, Recency.keys_others, ← WellFormed.urls_eq]
    exact tracks.ordered.erase url
  · rw [becomes.find_others tracks.formed]
    by_cases same : other = url
    · simp [same, Recency.Log.erase]
    · simp [same, Recency.Log.erase, tracks.find]
  · rw [becomes.putTime]
    by_cases same : other = url
    · simp [same, Recency.Log.erase]
    · simp [same, Recency.Log.erase, tracks.time]

end Tracks

namespace Ordinary

variable {size : Nat} {calls : List LruCall}

/-- Ordinary calls begin with ordinary calls. -/
theorem front {back : List LruCall} (ordinary : Ordinary size (calls ++ back)) :
    Ordinary size calls where
  -- A prefix of the front is a prefix of the whole, so each condition is inherited.
  room first isFront := ordinary.room first (isFront.trans (List.prefix_append calls back))
  steady := by
    have steady := ordinary.steady
    rw [List.filterMap_append] at steady
    exact (List.pairwise_append.mp steady).1
  fresh first call now isFront :=
    ordinary.fresh first call now (isFront.trans (List.prefix_append calls back))

/-- A put of a url that is not live finds room. -/
theorem room_put {now : Int} {url content : Bytes} {urls : List Bytes}
    (ordinary : Ordinary size (calls ++ [.put now url content]))
    (ordered : Recency.Ordered (history calls) urls)
    (dead : (history calls).written url = none) : urls.length < size := by
  have absent : url ∉ urls := by
    intro present
    simpa [dead] using (ordered.live url).mp present
  -- After the call this url is live beside all the others.
  have distinct : (url :: urls).Nodup := List.nodup_cons.mpr ⟨absent, ordered.distinct⟩
  have bounded := ordinary.room _ (List.prefix_refl _) (url :: urls) distinct
  rw [history_snoc, List.length_cons] at bounded
  apply bounded
  intro other member
  by_cases same : other = url
  · simp [same, record, Recency.Log.write]
  · have live := (ordered.live other).mp ((List.mem_cons.mp member).resolve_left same)
    simpa [same, record, Recency.Log.write] using live

/-- A get sees a clock between the put of a live entry and its expiry. -/
theorem age_get {now : Int} {url content : Bytes} {time : Int}
    (ordinary : Ordinary size (calls ++ [.get now url]))
    (live : (history calls).written url = some (time, content)) :
    time ≤ now ∧ now ≤ time + (2 ^ 31 - 1) := by
  constructor
  · -- The put was one of the calls before.
    have steady := ordinary.steady
    rw [List.filterMap_append] at steady
    have seen : time ∈ calls.filterMap LruCall.reading :=
      List.mem_filterMap.mpr ⟨_, put_of_written live, rfl⟩
    exact (List.pairwise_append.mp steady).2.2 time seen now List.mem_cons_self
  · exact ordinary.fresh calls _ now (List.prefix_refl _) rfl url time content live

/-- All ordinary calls return, and the `Lru` they leave agrees with the log. -/
theorem tracks_run (ordinary : Ordinary size calls) (small : size < 2 ^ 31) (garbage : Nat) :
    ∃ lru, lruMachine.run (Lru.new size garbage) calls = some lru ∧
      Tracks size (history calls) lru := by
  -- Each call keeps the agreement, given what the calls before it have done.
  induction calls using List.reverseRecOn with
  | nil => exact ⟨_, rfl, Tracks.start size garbage⟩
  | append_singleton calls call ih =>
    obtain ⟨lru, ran, tracks⟩ := ih ordinary.front
    have stepped : ∃ next, lruMachine.step lru call = some next ∧
        Tracks size (record (history calls) call) next := by
      cases call with
      | put now url content =>
        obtain ⟨next, returned, tracks⟩ :=
          tracks.put small (ordinary.room_put tracks.ordered) now content
        exact ⟨next, by simp only [lruMachine, returned]; rfl, tracks⟩
      | get now url =>
        obtain ⟨next, returned, tracks⟩ := tracks.get fun _ _ => ordinary.age_get
        exact ⟨next, by simp only [lruMachine, returned]; rfl, tracks⟩
      | erase url =>
        obtain ⟨next, returned, tracks⟩ := tracks.erase url
        exact ⟨next, by simp only [lruMachine, returned]; rfl, tracks⟩
    obtain ⟨next, stepped, tracks⟩ := stepped
    refine ⟨next, Machine.run_trans _ ran (by simp [stepped]), ?_⟩
    rw [history_snoc]
    exact tracks

end Ordinary

/-- After every call of an ordinary sequence, the list holds exactly the live urls, each once and
from the least to the most recently touched, and a get returns what was put last and not erased. -/
theorem lru_refines_recency {size garbage : Nat} (small : size < 2 ^ 31) {front back : List LruCall}
    (ordinary : Ordinary size (front ++ back)) :
    ∃ lru, lruMachine.run (Lru.new size garbage) front = some lru ∧
      lru.urls.Nodup ∧
      (∀ url, url ∈ lru.urls ↔ ((history front).written url).isSome) ∧
      (lru.urls.Pairwise fun a b => (history front).touched a < (history front).touched b) ∧
      ∀ now url rest, back = .get now url :: rest →
        ∃ next, lru.get now url =
          .ok ((((history front).written url).map Prod.snd).getD [], next) := by
  obtain ⟨lru, ran, tracks⟩ := ordinary.front.tracks_run small garbage
  refine ⟨lru, ran, tracks.ordered.distinct, tracks.ordered.live, tracks.ordered.byTouch, ?_⟩
  intro now url rest called
  -- The calls up to this get are ordinary as well.
  rw [called, ← List.singleton_append, ← List.append_assoc] at ordinary
  obtain ⟨next, returned, -⟩ := tracks.get fun _ _ => ordinary.front.age_get
  exact ⟨next, returned⟩

/-- A url is put twice into a cache of one entry, and then read. -/
theorem lru_refines_recency_overwritten :
    ∃ lru, lruMachine.run (Lru.new 1 0)
        [.put 5 (ascii ['a']) (ascii ['x']), .put 6 (ascii ['a']) (ascii ['y'])] = some lru ∧
      ∃ next, lru.get 7 (ascii ['a']) = .ok (ascii ['y'], next) := by
  let front : List LruCall :=
    [.put 5 (ascii ['a']) (ascii ['x']), .put 6 (ascii ['a']) (ascii ['y'])]
  let back : List LruCall := [.get 7 (ascii ['a'])]
  have puts {time : Int} {url content : Bytes} (member : .put time url content ∈ front ++ back) :
      url = ascii ['a'] ∧ 5 ≤ time := by
    simp only [front, back, List.cons_append, List.nil_append, List.mem_cons, LruCall.put.injEq,
      reduceCtorEq, List.not_mem_nil, or_false] at member
    rcases member with ⟨rfl, rfl, -⟩ | ⟨rfl, rfl, -⟩
    · exact ⟨rfl, by decide⟩
    · exact ⟨rfl, by decide⟩
  have ordinary : Ordinary 1 (front ++ back) := by
    refine ⟨fun first isFront urls distinct live => ?_, by decide,
      fun first call now isFront reading url time content live => ?_⟩
    · -- The only url that is ever live is the one that is put.
      have only : urls ⊆ [ascii ['a']] := by
        intro url member
        obtain ⟨⟨time, content⟩, written⟩ := Option.isSome_iff_exists.mp (live url member)
        exact List.mem_singleton.mpr (puts (isFront.subset (put_of_written written))).1
      exact (List.subperm_of_subset distinct only).length_le
    · -- All readings are within two seconds.
      have early := (puts (((List.prefix_append first [call]).trans isFront).subset
        (put_of_written live))).2
      have member : call ∈ front ++ back :=
        isFront.subset (List.mem_append_right _ List.mem_cons_self)
      simp only [front, back, List.cons_append, List.nil_append, List.mem_cons, List.not_mem_nil,
        or_false] at member
      rcases member with rfl | rfl | rfl <;> cases reading <;> omega
  obtain ⟨lru, ran, -, -, -, returned⟩ := @lru_refines_recency 1 0 (by decide) front back ordinary
  exact ⟨lru, ran, returned 7 (ascii ['a']) [] rfl⟩

end EnhancedProxy

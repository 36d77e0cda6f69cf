import EnhancedProxy.Cache.Operations

/-! Several `Lru` objects, whose list nodes share one heap, and whose maps are read by subscripts.
-/

namespace EnhancedProxy

namespace Lru

/-- `map_[url]`, which inserts an initial node for a url that has none. -/
def subscript (initial : Node) (map : AList fun _ : Bytes => Node) (url : Bytes) :
    (AList fun _ : Bytes => Node) × Node :=
  match map.lookup url with
  | some node => (map, node)
  | none => (map.insert url initial, initial)

/-- `put`, with the subscripts as they stand. -/
def putSubscripts (initial : Node) (lru : Lru) (now : Int) (url content : Bytes) :
    Except LruFault Lru :=
  if lru.map.lookup url = none then do
    let list := lru.list ++ [{ address := lru.nextAddress, url := url, content := content }]
    -- The position is assigned to one use of the subscript, and the time to the next.
    let (map, node) := subscript initial lru.map url
    let map := map.insert url { node with position := lru.nextAddress }
    let (map, node) := subscript initial map url
    let map := map.insert url { node with time := toUnsigned64 now }
    let (list, map) ← evict (toInt32 list.length) lru.maxSize list map
    return { lru with list := list, map := map, nextAddress := lru.nextAddress + 1 }
  else do
    let (map, node) := subscript initial lru.map url
    let list ← assign lru.list node.position content
    let (map, node) := subscript initial map url
    let map := map.insert url { node with time := toUnsigned64 now }
    let (map, node) := subscript initial map url
    let list ← splice list node.position
    return { lru with list := list, map := map, size := list.length }

/-- `erase`, with the subscript as it stands. -/
def eraseSubscripts (initial : Node) (lru : Lru) (url : Bytes) : Except LruFault Lru :=
  if lru.map.lookup url = none then .ok lru
  else
    let (map, node) := subscript initial lru.map url
    if lru.list.any (·.address = node.position) then
      .ok { lru with list := lru.list.filter (·.address ≠ node.position), map := map.erase url }
    else .error .badPosition

/-- `get`, with the subscripts as they stand. -/
def getSubscripts (initial : Node) (lru : Lru) (now : Int) (url : Bytes) :
    Except LruFault (Bytes × Lru) :=
  if lru.map.lookup url = none then .ok ([], lru)
  else
    let (map, node) := subscript initial lru.map url
    if toUnsigned64 (toUnsigned64 now - node.time : Int) > lru.expiredTime then do
      let lru ← eraseSubscripts initial { lru with map := map } url
      return ([], lru)
    else do
      let (map, node) := subscript initial map url
      let list ← splice lru.list node.position
      let (map, node) := subscript initial map url
      match list.find? (·.address = node.position) with
      | none => .error .badPosition
      | some entry => return (entry.content, { lru with list := list, map := map })

/-- A call on an `Lru`, with the subscripts as they stand. -/
def perform (initial : Node) (lru : Lru) : LruCall → Except LruFault Lru
  | .put now url content => lru.putSubscripts initial now url content
  | .get now url => (lru.getSubscripts initial now url).map Prod.snd
  | .erase url => lru.eraseSubscripts initial url

variable {initial : Node} {lru : Lru} {map : AList fun _ : Bytes => Node} {url : Bytes}
  {node : Node}

/-- The subscript of a cached url finds its node. -/
@[simp] theorem subscript_cached (cached : map.lookup url = some node) :
    subscript initial map url = (map, node) := by
  simp only [subscript, cached]

/-- No subscript of `put` is left with an initial node. -/
theorem putSubscripts_eq (now : Int) (content : Bytes) :
    lru.putSubscripts initial now url content = lru.put now url content := by
  cases cached : lru.map.lookup url with
  | none =>
    -- The initial node is overwritten in both its fields.
    have first : subscript initial lru.map url = (lru.map.insert url initial, initial) := by
      simp only [subscript, cached]
    have second : subscript initial
        (lru.map.insert url { initial with position := lru.nextAddress }) url = _ :=
      subscript_cached (AList.lookup_insert _)
    simp only [putSubscripts, put, cached, if_true, first, AList.insert_insert, second]
  | some node =>
    have second : subscript initial
        (lru.map.insert url { node with time := toUnsigned64 now }) url = _ :=
      subscript_cached (AList.lookup_insert _)
    simp only [putSubscripts, put, cached, subscript_cached cached, second, reduceCtorEq, if_false]

/-- No subscript of `erase` inserts a node. -/
theorem eraseSubscripts_eq : lru.eraseSubscripts initial url = lru.erase url := by
  -- The one subscript is used after the test that the url is there.
  cases cached : lru.map.lookup url with
  | none => simp only [eraseSubscripts, erase, cached, if_true]
  | some node =>
    simp only [eraseSubscripts, erase, cached, subscript_cached cached, reduceCtorEq, if_false]

/-- No subscript of `get` inserts a node. -/
theorem getSubscripts_eq (now : Int) : lru.getSubscripts initial now url = lru.get now url := by
  cases cached : lru.map.lookup url with
  | none => simp only [getSubscripts, get, cached, if_true]
  | some node =>
    -- The map that the subscripts leave is the map they find.
    simp only [getSubscripts, get, cached, subscript_cached cached, reduceCtorEq, if_false]
    exact if_congr Iff.rfl
      (congrArg (fun erased => erased >>= fun lru => pure ([], lru)) eraseSubscripts_eq) rfl

/-- The calls with their subscripts are the calls of the machine. -/
theorem perform_toOption (call : LruCall) :
    (lru.perform initial call).toOption = lruMachine.step lru call := by
  -- With subscripts in range the checked operations are the plain ones, call by call.
  cases call with
  | put now url content => rw [perform, putSubscripts_eq, lruMachine]
  | get now url =>
    rw [perform, getSubscripts_eq]
    show _ = (lru.get now url).toOption.map Prod.snd
    cases lru.get now url with
    | error fault => rfl
    | ok result => rfl
  | erase url => rw [perform, eraseSubscripts_eq, lruMachine]

/-- No call depends on what an initial node holds. -/
theorem perform_initial (other : Node) (call : LruCall) :
    lru.perform initial call = lru.perform other call := by
  -- No subscript inserts a node, so the initial one is never read.
  cases call with
  | put now url content => rw [perform, perform, putSubscripts_eq, putSubscripts_eq]
  | get now url => rw [perform, perform, getSubscripts_eq, getSubscripts_eq]
  | erase url => rw [perform, perform, eraseSubscripts_eq, eraseSubscripts_eq]

end Lru

/-- The `Lru` objects made so far, and where the next list node will be allocated. -/
structure LruHeap where
  lrus : Nat → Lru := fun _ => Lru.new 0 0
  lruCount : Nat := 0
  nextAddress : Nat := 0

/-- An `Lru` is made, or copied, or called. -/
inductive LruHeapStep
  | new (size garbage : Nat)
  | copy (k : Nat) (clock : Nat → Int)
  | call (k : Nat) (call : LruCall)

namespace LruHeap

/-- Another `Lru` object. -/
def add (heap : LruHeap) (lru : Lru) : LruHeap where
  lrus := Function.update heap.lrus heap.lruCount lru
  lruCount := heap.lruCount + 1
  nextAddress := max heap.nextAddress lru.nextAddress

/-- An `Lru` object, which allocates from the heap. -/
def lru (heap : LruHeap) (k : Nat) : Lru := { heap.lrus k with nextAddress := heap.nextAddress }

/-- A call on one of the objects. -/
def perform (initial : Node) (heap : LruHeap) (k : Nat) (call : LruCall) :
    Except LruFault LruHeap :=
  ((heap.lru k).perform initial call).map fun next =>
    { heap with
      lrus := Function.update heap.lrus k next
      nextAddress := next.nextAddress }

end LruHeap

/-- The objects as a machine, as long as the calls return. -/
def lruHeapMachine (initial : Node) : Machine LruHeap LruHeapStep where
  step heap
    | .new size garbage => some (heap.add (Lru.new size garbage))
    | .copy k clock =>
      if k < heap.lruCount then some (heap.add ((heap.lrus k).copyAt clock heap.nextAddress))
      else none
    | .call k call => if k < heap.lruCount then (heap.perform initial k call).toOption else none

/-- The map of every object describes its list: no url stands twice, the keys are the urls, each
position is the address of the node with its url and of no other node of any object, and no call
goes on with another position, or with what a subscript has inserted. -/
structure IndexConsistent (initial : Node) (heap : LruHeap) : Prop where
  distinct : ∀ k < heap.lruCount, (heap.lrus k).urls.Nodup
  keys : ∀ k < heap.lruCount, ∀ url, url ∈ (heap.lrus k).map ↔ url ∈ (heap.lrus k).urls
  designates : ∀ k < heap.lruCount, ∀ url node, (heap.lrus k).map.lookup url = some node →
    ∃ entry ∈ (heap.lrus k).list, entry.url = url ∧ entry.address = node.position ∧
      ∀ j < heap.lruCount, ∀ other ∈ (heap.lrus j).list, other.address = node.position →
        j = k ∧ other = entry
  size : ∀ k < heap.lruCount, (heap.lrus k).map.entries.length = (heap.lrus k).list.length
  dereferences : ∀ k < heap.lruCount, ∀ call,
    heap.perform initial k call ≠ .error .badPosition ∧
      ∀ other, heap.perform other k call = heap.perform initial k call

/-- Every object is well formed, and no two of them have a node in common. -/
structure Apart (heap : LruHeap) : Prop where
  formed : ∀ k < heap.lruCount, WellFormed (heap.lru k)
  apart : ∀ j < heap.lruCount, ∀ k < heap.lruCount, ∀ first ∈ (heap.lrus j).list,
    ∀ second ∈ (heap.lrus k).list, first.address = second.address → j = k

/-- An allocator that has moved on has still allocated what it had. -/
theorem WellFormed.allocate {lru : Lru} (formed : WellFormed lru) {address : Nat}
    (later : lru.nextAddress ≤ address) : WellFormed { lru with nextAddress := address } where
  -- Only the bound on the addresses mentions the next one, and it can only grow.
  urlsDistinct := formed.urlsDistinct
  addressesDistinct := formed.addressesDistinct
  indexed := formed.indexed
  listed := formed.listed
  allocated entry member := (formed.allocated entry member).trans_le later

/-- A call that returns leaves only nodes that were there, or that it has allocated. -/
theorem WellFormed.nodes_step {lru next : Lru} (formed : WellFormed lru) {call : LruCall}
    (stepped : lruMachine.step lru call = some next) :
    lru.nextAddress ≤ next.nextAddress ∧ ∀ entry ∈ next.list,
      (∃ old ∈ lru.list, old.address = entry.address) ∨
        (lru.nextAddress ≤ entry.address ∧ entry.address < next.nextAddress) := by
  obtain rfl | ⟨now, url, content, -, -, rfl⟩ |
    ⟨entry, member, content, size, map, -, -, rfl⟩ | ⟨url, rfl⟩ := formed.step_cases stepped
  · exact ⟨Nat.le_refl _, fun other inList => .inl ⟨other, inList, rfl⟩⟩
  · -- The entry of a new url gets a new node.
    refine ⟨Nat.le_succ _, fun other inList => ?_⟩
    rcases List.mem_append.mp inList with old | new
    · exact .inl ⟨other, old, rfl⟩
    · rw [List.mem_singleton.mp new]
      exact .inr ⟨Nat.le_refl _, Nat.lt_succ_self _⟩
  · -- The entry that moves to the recent end keeps its node.
    refine ⟨Nat.le_refl _, fun other inList => .inl ?_⟩
    rcases List.mem_append.mp inList with kept | last
    · exact ⟨other, (List.mem_filter.mp kept).1, rfl⟩
    · exact ⟨entry, member, by rw [List.mem_singleton.mp last]⟩
  · exact ⟨Nat.le_refl _, fun other inList => .inl ⟨other, (List.mem_filter.mp inList).1, rfl⟩⟩

/-- No call on a well-formed `Lru` goes on with a position that designates no entry. -/
theorem WellFormed.perform_ne_badPosition {lru : Lru} (formed : WellFormed lru) (initial : Node)
    (call : LruCall) : lru.perform initial call ≠ .error .badPosition := by
  -- On a formed object every position the map gives points at an entry of the list.
  cases call with
  | put now url content =>
    rw [Lru.perform, Lru.putSubscripts_eq]
    rcases formed.absent_or_cached url with absent | ⟨entry, member, time, rfl, cached⟩
    · rw [put_absent absent]
      split <;> simp
    · rw [put_cached formed member cached]
      exact fun bad => by cases bad
  | get now url =>
    rw [Lru.perform, Lru.getSubscripts_eq]
    rcases formed.absent_or_cached url with absent | ⟨entry, member, time, rfl, cached⟩
    · simp [Lru.get, absent, Except.map]
    · rw [get_cached formed member cached]
      split <;> simp [Except.map]
  | erase url =>
    rw [Lru.perform, Lru.eraseSubscripts_eq]
    obtain ⟨next, returned, -⟩ := formed.erase url
    rw [returned]
    exact fun bad => by cases bad

namespace Apart

variable {initial : Node} {heap next : LruHeap}

/-- There are no objects at the start. -/
theorem start : Apart {} where
  -- Both parts speak of objects below the count, which is zero.
  formed _ below := absurd below (Nat.not_lt_zero _)
  apart _ below := absurd below (Nat.not_lt_zero _)

/-- A new object whose nodes are newly allocated stays apart from the others. -/
theorem add (apart : Apart heap) {lru : Lru} (formed : WellFormed lru)
    (fresh : ∀ entry ∈ lru.list, heap.nextAddress ≤ entry.address) : Apart (heap.add lru) where
  formed k below := by
    by_cases new : k = heap.lruCount
    · subst new
      have same : (heap.add lru).lru heap.lruCount =
          { lru with nextAddress := max heap.nextAddress lru.nextAddress } := by
        simp [LruHeap.lru, LruHeap.add]
      rw [same]
      exact formed.allocate (Nat.le_max_right _ _)
    · -- The old objects go on allocating behind the new one.
      have old : k < heap.lruCount := Nat.lt_of_le_of_ne (Nat.le_of_lt_succ below) new
      have same : (heap.add lru).lru k =
          { heap.lru k with nextAddress := max heap.nextAddress lru.nextAddress } := by
        simp [LruHeap.lru, LruHeap.add, Function.update_of_ne new]
      rw [same]
      exact (apart.formed k old).allocate (Nat.le_max_left _ _)
  apart j below k belowToo first member second memberToo same := by
    -- An old node was allocated before the heap's next address, and a new one after.
    have old {i : Nat} (below : i < heap.lruCount + 1) (differs : i ≠ heap.lruCount) :
        i < heap.lruCount := Nat.lt_of_le_of_ne (Nat.le_of_lt_succ below) differs
    by_cases new : j = heap.lruCount
    · by_cases newToo : k = heap.lruCount
      · exact new.trans newToo.symm
      · subst new
        simp only [LruHeap.add, Function.update_self] at member
        simp only [LruHeap.add, Function.update_of_ne newToo] at memberToo
        have before := (apart.formed k (old belowToo newToo)).allocated second memberToo
        have after := fresh first member
        simp only [LruHeap.lru] at before
        omega
    · simp only [LruHeap.add, Function.update_of_ne new] at member
      by_cases newToo : k = heap.lruCount
      · subst newToo
        simp only [LruHeap.add, Function.update_self] at memberToo
        have before := (apart.formed j (old below new)).allocated first member
        have after := fresh second memberToo
        simp only [LruHeap.lru] at before
        omega
      · simp only [LruHeap.add, Function.update_of_ne newToo] at memberToo
        exact apart.apart j (old below new) k (old belowToo newToo) first member second memberToo same

/-- A call on one object leaves the objects apart. -/
theorem call (apart : Apart heap) {k : Nat} (below : k < heap.lruCount) {call : LruCall}
    (returned : heap.perform initial k call = .ok next) : Apart next := by
  cases performed : (heap.lru k).perform initial call with
  | error fault =>
    rw [LruHeap.perform, performed] at returned
    cases returned
  | ok after =>
    rw [LruHeap.perform, performed] at returned
    cases returned
    -- The call with its subscripts is the call of the machine.
    have stepped : lruMachine.step (heap.lru k) call = some after := by
      rw [← Lru.perform_toOption, performed]
      rfl
    obtain ⟨advances, nodes⟩ := (apart.formed k below).nodes_step stepped
    have advances : heap.nextAddress ≤ after.nextAddress := advances
    -- A node is an old one of the same object, or new and of the object that was called.
    have origin {j : Nat} {entry : Entry}
        (member : entry ∈ (Function.update heap.lrus k after j).list) :
        (∃ old ∈ (heap.lrus j).list, old.address = entry.address) ∨
          (j = k ∧ heap.nextAddress ≤ entry.address) := by
      by_cases called : j = k
      · subst called
        rw [Function.update_self] at member
        exact (nodes entry member).imp id fun new => ⟨rfl, new.1⟩
      · rw [Function.update_of_ne called] at member
        exact .inl ⟨entry, member, rfl⟩
    have before {j : Nat} (below : j < heap.lruCount) {old : Entry}
        (member : old ∈ (heap.lrus j).list) : old.address < heap.nextAddress :=
      (apart.formed j below).allocated old member
    refine ⟨fun j belowJ => ?_, fun i belowI j belowJ first member second memberToo same => ?_⟩
    · by_cases called : j = k
      · subst called
        simpa only [LruHeap.lru, Function.update_self] using
          wellFormed_step (apart.formed j below) stepped
      · simp only [LruHeap.lru, Function.update_of_ne called]
        exact (apart.formed j belowJ).allocate advances
    · -- Old nodes were apart, no new one has an old address, and all new ones have one owner.
      rcases origin member with ⟨old, inList, place⟩ | ⟨called, new⟩
      · rcases origin memberToo with ⟨oldToo, inListToo, placeToo⟩ | ⟨-, newToo⟩
        · exact apart.apart i belowI j belowJ old inList oldToo inListToo
            (place.trans (same.trans placeToo.symm))
        · have early := before belowI inList
          omega
      · rcases origin memberToo with ⟨oldToo, inListToo, placeToo⟩ | ⟨calledToo, -⟩
        · have early := before belowJ inListToo
          omega
        · exact called.trans calledToo.symm

/-- Every step keeps the objects apart. -/
theorem step (apart : Apart heap) {label : LruHeapStep}
    (stepped : (lruHeapMachine initial).step heap label = some next) : Apart next := by
  cases label with
  | new size garbage =>
    cases stepped
    exact apart.add (wellFormed_new size garbage) fun entry member => by cases member
  | copy k clock =>
    simp only [lruHeapMachine] at stepped
    split at stepped
    · rename_i below
      cases stepped
      -- The nodes of a copy are allocated behind all others.
      have formed := (apart.formed k below).copyAt clock heap.nextAddress
      refine apart.add formed.1 fun entry member => ?_
      exact (mem_copyList_address member).1
    · cases stepped
  | call k call =>
    simp only [lruHeapMachine] at stepped
    split at stepped
    · rename_i below
      cases returned : heap.perform initial k call with
      | error fault =>
        rw [returned] at stepped
        cases stepped
      | ok after =>
        rw [returned] at stepped
        cases stepped
        exact apart.call below returned
    · cases stepped

/-- Objects that are well formed and apart have consistent indices. -/
theorem indexConsistent (apart : Apart heap) (initial : Node) : IndexConsistent initial heap where
  distinct k below := (apart.formed k below).urlsDistinct
  keys k below url := by
    have formed := apart.formed k below
    have listed : url ∈ (heap.lrus k).list.map (·.url) ↔ ((heap.lrus k).map.lookup url).isSome :=
      formed.mem_urls_iff
    rw [Lru.urls, listed, AList.lookup_isSome]
  designates k below url node lookup := by
    have formed := apart.formed k below
    obtain ⟨entry, member, rfl⟩ := formed.listed url node lookup
    obtain ⟨time, indexed⟩ := formed.indexed entry member
    obtain rfl : node = { time := time, position := entry.address } :=
      Option.some.inj (lookup.symm.trans indexed)
    refine ⟨entry, member, rfl, rfl, fun j belowToo other memberToo same => ?_⟩
    -- A node with the address is of the same object, and so is the same entry.
    obtain rfl : j = k := apart.apart j belowToo k below other memberToo entry member same
    exact ⟨rfl, eq_of_nodup_map formed.addressesDistinct memberToo member same⟩
  size k below := by
    have formed := apart.formed k below
    -- Keys and urls are the same without repetition, so there are equally many.
    have same : (heap.lrus k).map.keys.Perm ((heap.lrus k).list.map (·.url)) := by
      refine (List.perm_ext_iff_of_nodup (heap.lrus k).map.keys_nodup formed.urlsDistinct).mpr
        fun url => ?_
      rw [← AList.mem_keys, ← AList.lookup_isSome]
      exact formed.mem_urls_iff.symm
    simpa [AList.keys, List.keys] using same.length_eq
  dereferences k below call := by
    refine ⟨fun bad => ?_, fun other => ?_⟩
    · refine (apart.formed k below).perform_ne_badPosition initial call ?_
      rw [LruHeap.perform] at bad
      cases performed : (heap.lru k).perform initial call with
      | error fault =>
        rw [performed] at bad
        cases bad
        rfl
      | ok after =>
        rw [performed] at bad
        cases bad
    · rw [LruHeap.perform, Lru.perform_initial initial, LruHeap.perform]

end Apart

/-- In every state of every sequence of calls and copies, each map indexes the list of its own
object. -/
theorem index_consistent (initial : Node) (labels : List LruHeapStep) :
    (lruHeapMachine initial).Always (IndexConsistent initial) {} labels := by
  -- Every state of the run is a heap of objects kept apart, each with its index in order.
  intro front reached isFront ran
  exact (Machine.run_invariant (fun _ _ _ (apart : Apart _) stepped => apart.step stepped)
    Apart.start ran).indexConsistent initial

end EnhancedProxy

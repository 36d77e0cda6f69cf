import EnhancedProxy.Http.Bytes
import EnhancedProxy.Library.Machine
import EnhancedProxy.Library.Recency
import Mathlib.Data.List.AList

/-! The LRU list of the memory cache: a list of entries, and a map from urls into that list. -/

namespace EnhancedProxy

/-- A node of `list_`, with the address that an iterator to it designates. -/
structure Entry where
  address : Nat
  url : Bytes
  content : Bytes
  deriving DecidableEq, Repr

/-- A `Node` of `map_`: the time of the last put, and an iterator into `list_`. -/
structure Node where
  time : Nat
  position : Nat
  deriving DecidableEq, Repr

/-- An `Lru` object. `nextAddress` is where its next list node will be allocated. -/
structure Lru where
  maxSize : Nat
  expiredTime : Nat
  size : Nat
  list : List Entry
  map : AList fun _ : Bytes => Node
  nextAddress : Nat

/-- What the program does where it would go on with an iterator that designates no entry. -/
inductive LruFault
  | emptyList
  | badPosition
  deriving DecidableEq, Repr

namespace Lru

/-- The constructor. It leaves `size_` with whatever value its memory had. -/
def new (size garbage : Nat) : Lru where
  maxSize := size
  expiredTime := 2 ^ 31 - 1
  size := garbage
  list := []
  map := ∅
  nextAddress := 0

/-- A copy of the list, whose nodes are allocated one after the other. -/
def copyList (address : Nat) : List Entry → List Entry
  | [] => []
  | entry :: rest => { entry with address := address } :: copyList (address + 1) rest

/-- The loop of the copy constructor gives each entry of the copy a node in the new map. The clock
is read once for each of them. -/
def indexList (clock : Nat → Int) (map : AList fun _ : Bytes => Node) :
    List Entry → AList fun _ : Bytes => Node
  | [] => map
  | entry :: rest =>
    let node := { time := toUnsigned64 (clock entry.address), position := entry.address }
    indexList clock (map.insert entry.url node) rest

/-- The copy constructor. The expiry time is the default again, and every entry is as new. -/
def copy (lru : Lru) (clock : Nat → Int) : Lru :=
  let list := copyList 0 lru.list
  { maxSize := lru.maxSize
    expiredTime := 2 ^ 31 - 1
    size := lru.size
    list := list
    map := indexList clock ∅ list
    nextAddress := list.length }

/-- The entry after a write through an iterator to the given position. -/
def reassign (position : Nat) (content : Bytes) (entry : Entry) : Entry :=
  if entry.address = position then { entry with content := content } else entry

/-- Write through an iterator: `position->second = content`. -/
def assign (list : List Entry) (position : Nat) (content : Bytes) :
    Except LruFault (List Entry) :=
  if list.any (·.address = position) then .ok (list.map (reassign position content))
  else .error .badPosition

/-- `list_.splice(list_.end(), list_, position)`. -/
def splice (list : List Entry) (position : Nat) : Except LruFault (List Entry) :=
  match list.find? (·.address = position) with
  | none => .error .badPosition
  | some entry => .ok (list.filter (·.address ≠ position) ++ [entry])

/-- The guard of the eviction loop. The `int` is converted to `size_t` for the comparison. -/
def overfull (sizeNow : Int) (maxSize : Nat) : Bool := toUnsigned64 sizeNow > maxSize

/-- The eviction loop. Its measure is computed once, before the loop. -/
def evict (sizeNow : Int) (maxSize : Nat) (list : List Entry) (map : AList fun _ : Bytes => Node) :
    Except LruFault (List Entry × AList fun _ : Bytes => Node) :=
  match list with
  -- `begin` of the empty list designates no entry.
  | [] => if overfull sizeNow maxSize then .error .emptyList else .ok ([], map)
  | oldest :: rest =>
    if overfull sizeNow maxSize then evict sizeNow maxSize rest (map.erase oldest.url)
    else .ok (oldest :: rest, map)

/-- `put`, at a moment when `time(nullptr)` reads `now`. -/
def put (lru : Lru) (now : Int) (url content : Bytes) : Except LruFault Lru :=
  match lru.map.lookup url with
  -- A new url is appended, and the oldest entries are to make room for it.
  | none => do
    let list := lru.list ++ [{ address := lru.nextAddress, url := url, content := content }]
    let node := { time := toUnsigned64 now, position := lru.nextAddress }
    let sizeNow := toInt32 list.length
    let (list, map) ← evict sizeNow lru.maxSize list (lru.map.insert url node)
    return { lru with list := list, map := map, nextAddress := lru.nextAddress + 1 }
  -- A cached url keeps its node, which moves to the recent end.
  | some node => do
    let list ← assign lru.list node.position content
    let map := lru.map.insert url { node with time := toUnsigned64 now }
    let list ← splice list node.position
    return { lru with list := list, map := map, size := list.length }

/-- `erase`. -/
def erase (lru : Lru) (url : Bytes) : Except LruFault Lru :=
  match lru.map.lookup url with
  -- A url that is not cached is left alone.
  | none => .ok lru
  | some node =>
    if lru.list.any (·.address = node.position) then
      .ok { lru with list := lru.list.filter (·.address ≠ node.position), map := lru.map.erase url }
    else .error .badPosition

/-- `get`. The age is computed in `unsigned long`. -/
def get (lru : Lru) (now : Int) (url : Bytes) : Except LruFault (Bytes × Lru) :=
  match lru.map.lookup url with
  -- A miss has no effect.
  | none => .ok ([], lru)
  | some node =>
    -- An entry that is too old is erased instead of returned.
    if toUnsigned64 (toUnsigned64 now - node.time : Int) > lru.expiredTime then do
      let lru ← lru.erase url
      return ([], lru)
    else do
      let list ← splice lru.list node.position
      match list.find? (·.address = node.position) with
      | none => .error .badPosition
      | some entry => return (entry.content, { lru with list := list })

/-- The urls and contents in the list, least recently used first. -/
def entries (lru : Lru) : List (Bytes × Bytes) := lru.list.map fun entry => (entry.url, entry.content)

/-- The content that the map's iterator for a url designates. -/
def find (lru : Lru) (url : Bytes) : Option Bytes :=
  (lru.map.lookup url).bind fun node =>
    (lru.list.find? (·.address = node.position)).map (·.content)

end Lru

/-- The calls made on one `Lru`, with the clock readings they see. -/
inductive LruCall
  | put (now : Int) (url content : Bytes)
  | get (now : Int) (url : Bytes)
  | erase (url : Bytes)

/-- One `Lru` under a sequence of calls, each of which returns. -/
def lruMachine : Machine Lru LruCall where
  step lru
    | .put now url content => (lru.put now url content).toOption
    | .get now url => (lru.get now url).toOption.map Prod.snd
    | .erase url => (lru.erase url).toOption

end EnhancedProxy

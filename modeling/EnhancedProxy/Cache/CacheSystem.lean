import EnhancedProxy.Cache.Linearization
import EnhancedProxy.Cache.RedisClients
import EnhancedProxy.Cache.RedisReplies
import EnhancedProxy.Cache.TwoLevel

/-! The caches of all worker processes in front of one Redis server, their calls interleaved. -/

namespace EnhancedProxy

/-- What becomes of a `GET`: it has its reply, or an error reply, or a null one. -/
inductive GetFate
  | answered
  | refused (text : Bytes)
  | lost
  deriving DecidableEq, Repr

/-- A read that has returned, with the writes begun before, and the text of the error reply if it
had one. -/
structure CacheRead where
  process : Nat
  url : Bytes
  content : Bytes
  seen : List (Bytes × Bytes)
  refusal : Option Bytes := none
  deriving DecidableEq, Repr

/-- The `Cache` of a process, with the reads that have found nothing in memory, and the writes that
have been made in memory. -/
structure CacheProcess where
  memory : MemoryCache
  asking : List Bytes := []
  updating : List RedisCall := []
  fault : Option TwoLevelFault := none

/-- The caches of all processes, and the keys of the server with its clock. The history keeps the
writes, and the reads that have returned. -/
structure CacheSystem where
  processes : Nat → CacheProcess
  store : RedisStore := fun _ => none
  redisNow : Nat := 0
  writes : List (Bytes × Bytes) := []
  reads : List CacheRead := []

/-- A step of one of the calls of a process, or a process that has ended is replaced, or a key goes,
or time passes. -/
inductive CacheSystemStep
  | lookUp (i : Nat) (url : Bytes)
  | get (i j : Nat) (now : Int)
  | askRedis (i j : Nat) (connects : Bool) (auth : Option RedisReply) (fate : GetFate)
  | writeMemory (i : Nat) (url response : Bytes) (clock : Nat → Int) (now : Int)
  | connect (i j : Nat) (connects : Bool) (auth : CommandFate)
  | send (i j : Nat) (fate : CommandFate) (heard : Bool)
  | restart (i : Nat) (n : Int) (garbage : Nat)
  | keyGoes (url : Bytes)
  | wait (milliseconds : Nat)

/-- The reply that a `GET` has from a server with the given keys. -/
def GetFate.reply (library : RedisLibrary) (now : Nat) (store : RedisStore) (url : Bytes) :
    GetFate → Option RedisReply
  | .answered =>
    match (({ store := store } : RedisContext).redisCommand library now
      (ascii ['g', 'e', 't', ' '] ++ url)).2 with
    | none => some .nil
    | some str => some (.string str)
  | .refused text => some (.error text)
  | .lost => none

/-- The text of an error reply. -/
def GetFate.refusal : GetFate → Option Bytes
  | .refused text => some text
  | _ => none

/-- The process goes on with its memory cache, or ends with the fault of it. -/
def CacheProcess.withMemory (process : CacheProcess) (memory : MemoryCache) : CacheProcess :=
  { process with memory := memory, fault := memory.fault.map .memory }

namespace CacheSystem

/-- New processes, and a server that holds nothing. -/
def new (n : Nat → Int) (garbage : Nat → Nat) : CacheSystem where
  processes := fun i => { memory := MemoryCache.new (n i) (garbage i) }

/-- The system with one of its processes changed. -/
def put (system : CacheSystem) (i : Nat) (process : CacheProcess) : CacheSystem :=
  { system with processes := Function.update system.processes i process }

/-- A read that returns. -/
def returns (system : CacheSystem) (i : Nat) (url content : Bytes) (refusal : Option Bytes) :
    CacheSystem :=
  { system with
    reads := system.reads ++ [{ process := i, url := url, content := content,
                                seen := system.writes, refusal := refusal }] }

/-- The first part of `MemoryCache::readCache`. -/
def lookUp (system : CacheSystem) (i : Nat) (url : Bytes) : CacheSystem :=
  let process := system.processes i
  system.put i (process.withMemory (process.memory.takePointer url))

/-- The second part of `MemoryCache::readCache`, and the test of what it returns. -/
def get (system : CacheSystem) (i j : Nat) (now : Int) : Option CacheSystem := do
  let process := system.processes i
  let reading ← process.memory.readings[j]?
  let memory ← process.memory.get j now
  let process := process.withMemory memory
  if process.fault.isSome then return system.put i process
  else
    let res := (memory.results.getLast?.map (·.content)).getD []
    if res ≠ [] then return (system.put i process).returns i reading.url res none
    else return system.put i { process with asking := process.asking ++ [reading.url] }

/-- `RedisCache::readRedisCache`. -/
def askRedis (library : RedisLibrary) (system : CacheSystem) (i j : Nat) (connects : Bool)
    (auth : Option RedisReply) (fate : GetFate) : Option CacheSystem := do
  let process := system.processes i
  let url ← process.asking[j]?
  let process := { process with asking := process.asking.eraseIdx j }
  let reply := fate.reply library system.redisNow system.store url
  match RedisCache.readRedisCache connects auth reply with
  | .error fault => return system.put i { process with fault := some (.redis fault) }
  | .ok res => return (system.put i process).returns i url res fate.refusal

/-- `MemoryCache::writeCache` in `Cache::writeCache`. -/
def writeMemory (system : CacheSystem) (i : Nat) (url response : Bytes) (clock : Nat → Int)
    (now : Int) : CacheSystem :=
  let process := system.processes i
  let process := process.withMemory (process.memory.writeCache url response clock now)
  let system := { system with writes := system.writes ++ [(url, response)] }
  if process.fault.isSome then system.put i process
  else
    system.put i
      { process with updating := process.updating ++ [{ url := url, response := response }] }

/-- One of the calls of `updateRedisCache` goes on, or returns. -/
def proceed (system : CacheSystem) (i j : Nat) : CallProgress → CacheSystem
  | .goesOn call =>
    let process := system.processes i
    system.put i { process with updating := process.updating.set j call }
  | .returns _ =>
    let process := system.processes i
    system.put i { process with updating := process.updating.eraseIdx j }

end CacheSystem

/-- The process that a step belongs to. -/
def CacheSystemStep.process : CacheSystemStep → Option Nat
  | .lookUp i _ | .get i _ _ | .askRedis i _ _ _ _ | .writeMemory i _ _ _ _ | .connect i _ _ _
  | .send i _ _ _ => some i
  | .restart _ _ _ | .keyGoes _ | .wait _ => none

/-- The caches as a machine. A process that has ended takes no step until it is replaced. -/
def cacheSystemMachine (library : RedisLibrary) : Machine CacheSystem CacheSystemStep where
  step system label :=
    if label.process.any fun i => (system.processes i).fault.isSome then none
    else
      match label with
      | .lookUp i url => some (system.lookUp i url)
      | .get i j now => system.get i j now
      | .askRedis i j connects auth fate => system.askRedis library i j connects auth fate
      | .writeMemory i url response clock now =>
        some (system.writeMemory i url response clock now)
      | .connect i j connects auth => do
        let call ← (system.processes i).updating[j]?
        let progress ← call.connect connects auth
        return system.proceed i j progress
      | .send i j fate heard => do
        let call ← (system.processes i).updating[j]?
        let (store, progress) ← call.sendNext library system.redisNow system.store fate heard
        return { system with store := store }.proceed i j progress
      | .restart i n garbage =>
        if (system.processes i).fault.isSome then
          some (system.put i { memory := MemoryCache.new n garbage })
        else none
      | .keyGoes url => some { system with store := system.store.remove url }
      | .wait milliseconds => some { system with redisNow := system.redisNow + milliseconds }

end EnhancedProxy

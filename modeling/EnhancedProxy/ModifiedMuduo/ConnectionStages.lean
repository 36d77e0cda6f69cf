import EnhancedProxy.ModifiedMuduo.Connections
import Mathlib.Data.List.Nodup

/-! What becomes of a connection: the stages between its acceptance and the end of its channel. -/

namespace EnhancedProxy

/-- The digits determine the number. -/
theorem toDigits_injective {id other : Nat} (same : Nat.toDigits 10 id = Nat.toDigits 10 other) :
    id = other := by
  -- The number is read back from its digits.
  rw [← Nat.ofDigitChars_toDigits (b := 10) (n := id) (by decide) (by decide), same,
    Nat.ofDigitChars_toDigits (by decide) (by decide)]

/-- The address of a server is short enough that the names of its connections are not cut off, and
differ while the ids are `int` values. -/
theorem connName_injective {name ipPort : List Char} (short : ipPort.length ≤ 51) {id other : Nat}
    (below : id < 2 ^ 31) (belowOther : other < 2 ^ 31)
    (same : connName name ipPort id = connName name ipPort other) : id = other := by
  have fits : ∀ n < 2 ^ 31, ('-' :: ipPort ++ '#' :: Nat.toDigits 10 n).length ≤ 63 := by
    intro n bound
    have digits : (Nat.toDigits 10 n).length ≤ 10 :=
      (Nat.length_toDigits_le_iff (by decide) (by decide)).mpr (by omega)
    simp only [List.length_append, List.length_cons]
    omega
  rw [connName, connName, List.take_of_length_le (fits id below),
    List.take_of_length_le (fits other belowOther)] at same
  -- What comes before the numbers is the same in both.
  have numbers := List.append_cancel_left (List.append_cancel_left same)
  exact toDigits_injective (List.cons.inj numbers).2

/-- The stages of a connection. -/
inductive LifeStage
  -- `connectEstablished` is pending in its loop.
  | establishing
  | up
  -- It has ended, and `removeConnectionInLoop` is pending in the base loop.
  | removing
  -- The map has forgotten it, and `connectDestroyed` is pending in its loop.
  | destroying
  | gone
  deriving DecidableEq, Repr

namespace LifeStage

/-- The state in which muduo has the connection. -/
def state : LifeStage → ConnectionState
  | .establishing => .connecting
  | .up => .connected
  | .removing | .destroying => .disconnected
  | .gone => .destroyed

/-- The map has an entry for the connection. -/
def listed : LifeStage → Bool
  | .establishing | .up | .removing => true
  | .destroying | .gone => false

/-- The loop and the functor that the connection waits for. -/
def waiting {muduo : Muduo} (base : Nat) (c : Nat) (conn : ServerConnection muduo) :
    LifeStage → Option (Nat × LoopFunctor)
  | .establishing => some (conn.loop, .connectEstablished c)
  | .removing => some (base, .removeConnectionInLoop c)
  | .destroying => some (conn.loop, .connectDestroyed c)
  | .up | .gone => none

end LifeStage

namespace RunningServer

variable {muduo : Muduo}

/-- Where a connection stands: what it is, whether the map has an entry for it, and the only functor
that is pending for it. -/
structure Stands (server : RunningServer muduo) (c : Nat) (conn : ServerConnection muduo)
    (listed : Bool) (waiting : Option (Nat × LoopFunctor)) : Prop where
  made : server.conns[c]? = some conn
  listed : (conn.name, c) ∈ server.connections ↔ listed = true
  waiting : ∀ loop functor, functor.conn = c →
    (server.pending loop).count functor = if waiting = some (loop, functor) then 1 else 0

/-- The connections have names of their own, and maps and functors know only those that exist. -/
structure Indexed (server : RunningServer muduo) : Prop where
  short : server.ipPort.length ≤ 51
  bounded : server.nextConnId < 2 ^ 31
  numbered : server.nextConnId = server.conns.length + 1
  named : ∀ c conn, server.conns[c]? = some conn →
    conn.name = connName server.name server.ipPort (c + 1)
  distinct : (server.connections.map Prod.fst).Nodup
  known : ∀ entry ∈ server.connections,
    ∃ conn, server.conns[entry.2]? = some conn ∧ conn.name = entry.1
  holding : ∀ loop, ∀ functor ∈ server.pending loop, functor.conn < server.conns.length

/-- One connection has moved, and the others stand where they stood. -/
structure Moves (server next : RunningServer muduo) (c : Nat) (conn : ServerConnection muduo)
    (listed : Bool) (waiting : Option (Nat × LoopFunctor)) : Prop where
  intact : next.failed = server.failed
  base : next.threadPool.baseLoop = server.threadPool.baseLoop
  length : next.conns.length = server.conns.length
  indexed : next.Indexed
  stands : next.Stands c conn listed waiting
  others : ∀ d, d ≠ c → ∀ other has waits, server.Stands d other has waits →
    next.Stands d other has waits

variable {server next last : RunningServer muduo} {c d loop : Nat}
  {conn other : ServerConnection muduo} {listed : Bool} {waiting : Option (Nat × LoopFunctor)}
  {functor : LoopFunctor}

/-- Two moves of one connection are one move. -/
theorem Moves.trans {conn' : ServerConnection muduo} {listed' : Bool}
    {waiting' : Option (Nat × LoopFunctor)}
    (first : Moves server next c conn listed waiting)
    (second : Moves next last c conn' listed' waiting') :
    Moves server last c conn' listed' waiting' where
  -- What the second move leaves alone is what the first has left alone.
  intact := second.intact.trans first.intact
  base := second.base.trans first.base
  length := second.length.trans first.length
  indexed := second.indexed
  stands := second.stands
  others d differs other has waits stood :=
    second.others d differs other has waits (first.others d differs other has waits stood)

/-- Connections with the same name are the same. -/
theorem Indexed.eq_of_name (indexed : server.Indexed) (made : server.conns[c]? = some conn)
    (madeOther : server.conns[d]? = some other) (same : conn.name = other.name) : c = d := by
  -- Connections are numbered as they are made, and the number can be read off the name.
  have below : c < server.conns.length := (List.getElem?_eq_some_iff.mp made).1
  have belowOther : d < server.conns.length := (List.getElem?_eq_some_iff.mp madeOther).1
  have bounded := indexed.bounded
  rw [indexed.numbered] at bounded
  rw [indexed.named c conn made, indexed.named d other madeOther] at same
  have ids := connName_injective indexed.short (by omega) (by omega) same
  omega

/-- Queueing a functor adds one to its loop. -/
theorem count_queueInLoop (documented : muduo.Documented) (other : Nat) (f : LoopFunctor) :
    (pending { server with loops := muduo.queueInLoop server.loops loop functor } other).count f =
      (server.pending other).count f + if (loop, functor) = (other, f) then 1 else 0 := by
  simp only [pending, documented.queueInLoop]
  -- The functor goes to the end of one loop, and the other loops keep what they have.
  by_cases same : other = loop
  · subst same
    simp [List.count_singleton]
  · have differs : loop ≠ other := fun h => same h.symm
    simp [same, differs]

/-- A connection that waits for nothing is given a functor. -/
theorem Moves.queueInLoop (documented : muduo.Documented) (indexed : server.Indexed)
    (stands : server.Stands c conn listed none) (own : functor.conn = c) :
    Moves server { server with loops := muduo.queueInLoop server.loops loop functor } c conn listed
      (some (loop, functor)) where
  intact := rfl
  base := rfl
  length := rfl
  indexed := { indexed with
    holding := by
      intro other f member
      have counted := List.count_pos_iff.mpr member
      rw [count_queueInLoop documented] at counted
      split at counted
      · rename_i new
        cases new
        rw [own]
        exact (List.getElem?_eq_some_iff.mp stands.made).1
      · exact indexed.holding other f (List.count_pos_iff.mp counted) }
  stands := { stands with
    waiting := by
      intro other f held
      rw [count_queueInLoop documented, stands.waiting other f held]
      simp }
  others d differs other has waits stood := { stood with
    waiting := by
      intro l f held
      rw [count_queueInLoop documented, stood.waiting l f held]
      -- The functor of another connection is another functor.
      have foreign : (loop, functor) ≠ (l, f) := by
        intro same
        cases same
        exact differs (held.symm.trans own)
      simp [foreign] }

/-- What muduo makes of a connection leaves the names as they are. -/
theorem setTcp_names (server : RunningServer muduo) (c : Nat) (tcp : muduo.Tcp) (d : Nat) :
    ((server.setTcp c tcp).conns[d]?).map ServerConnection.name =
      (server.conns[d]?).map ServerConnection.name := by
  -- Only one entry is replaced, and it keeps its name.
  simp only [setTcp, List.getElem?_modify]
  by_cases own : c = d
  · subst own
    cases server.conns[c]? <;> simp
  · cases server.conns[d]? <;> simp [own]

/-- What muduo makes of a connection changes nothing else. -/
theorem Moves.setTcp (indexed : server.Indexed) (stands : server.Stands c conn listed waiting)
    (tcp : muduo.Tcp) :
    Moves server (server.setTcp c tcp) c { conn with tcp := tcp } listed waiting where
  -- The connection keeps its name and its loop, so the map and the loops still know it.
  intact := rfl
  base := rfl
  length := List.length_modify _ _ _
  indexed := { indexed with
    numbered := by
      rw [RunningServer.setTcp, List.length_modify]
      exact indexed.numbered
    named := by
      intro d other made
      have names := setTcp_names server c tcp d
      rw [made] at names
      obtain ⟨before, madeBefore, same⟩ := Option.map_eq_some_iff.mp names.symm
      rw [← same]
      exact indexed.named d before madeBefore
    known := by
      intro entry member
      obtain ⟨before, madeBefore, same⟩ := indexed.known entry member
      have names := setTcp_names server c tcp entry.2
      rw [madeBefore] at names
      obtain ⟨after, madeAfter, sameAfter⟩ := Option.map_eq_some_iff.mp names
      exact ⟨after, madeAfter, sameAfter.trans same⟩
    holding := by
      intro other f member
      rw [RunningServer.setTcp, List.length_modify]
      exact indexed.holding other f member }
  stands := { stands with
    made := by simp [RunningServer.setTcp, stands.made]
    listed := stands.listed }
  others d differs other has waits stood := { stood with
    made := by
      have apart : c ≠ d := fun same => differs same.symm
      simp [RunningServer.setTcp, apart, stood.made] }

/-- The functor that a connection waits for leaves its loop. -/
theorem Moves.dequeue (documented : muduo.Documented) (indexed : server.Indexed)
    {loops : muduo.Loops} (next : muduo.nextFunctor server.loops loop = some (functor, loops))
    (stands : server.Stands functor.conn conn listed waiting) :
    waiting = some (loop, functor) ∧
      Moves server { server with loops := loops } functor.conn conn listed none := by
  obtain ⟨rest, first, after⟩ := documented.nextFunctor _ _ _ _ next
  -- The loop has one functor less.
  have counted : ∀ other f, (server.pending other).count f =
      (pending { server with loops := loops } other).count f +
        if (loop, functor) = (other, f) then 1 else 0 := by
    intro other f
    simp only [pending, after]
    by_cases same : other = loop
    · subst same
      simp [first, List.count_cons]
    · have differs : loop ≠ other := fun h => same h.symm
      simp [same, differs]
  have waits : waiting = some (loop, functor) := by
    have once := stands.waiting loop functor rfl
    rw [counted, if_pos rfl] at once
    by_contra none_
    rw [if_neg none_] at once
    omega
  refine ⟨waits, ⟨rfl, rfl, rfl, { indexed with holding := ?_ }, { stands with waiting := ?_ }, ?_⟩⟩
  · intro other f member
    apply indexed.holding other f
    rw [← List.count_pos_iff, counted]
    exact Nat.add_pos_left (List.count_pos_iff.mpr member) _
  · intro other f held
    have before := stands.waiting other f held
    rw [counted, waits] at before
    simp only [Option.some.injEq] at before
    rw [if_neg (by simp)]
    omega
  · intro d differs other has waitsOther stood
    refine { stood with waiting := fun l f held => ?_ }
    have before := stood.waiting l f held
    have foreign : (loop, functor) ≠ (l, f) := by
      intro same
      cases same
      exact differs held.symm
    rw [counted, if_neg foreign] at before
    exact before

/-- The entry of a connection, and only that, is erased from the map. -/
theorem Moves.erase (indexed : server.Indexed) (stands : server.Stands c conn true waiting) :
    server.connections.countP (·.1 = conn.name) = 1 ∧
      Moves server { server with
        connections := server.connections.filter (·.1 ≠ conn.name) } c conn false waiting := by
  have entry := stands.listed.mpr rfl
  have counted : server.connections.countP (·.1 = conn.name) = 1 := by
    have once := List.count_eq_one_of_mem indexed.distinct (List.mem_map_of_mem entry)
    rw [List.count, List.countP_map] at once
    rw [← once]
    exact List.countP_congr fun other _ => by simp
  refine ⟨counted, ⟨rfl, rfl, rfl, { indexed with distinct := ?_, known := ?_ },
    { stands with listed := by simp }, ?_⟩⟩
  · exact indexed.distinct.sublist (List.filter_sublist.map _)
  · intro other member
    exact indexed.known other (List.mem_of_mem_filter member)
  · intro d differs other has waits stood
    refine { stood with listed := ?_ }
    -- Another connection has another name.
    have name : other.name ≠ conn.name := fun same =>
      differs (indexed.eq_of_name stood.made stands.made same)
    rw [← stood.listed]
    simp [name]

/-- A function of muduo that succeeds takes its connection on. -/
theorem Moves.onTcp (indexed : server.Indexed) (stands : server.Stands c conn listed waiting)
    {function : muduo.Tcp → Option muduo.Tcp} {tcp : muduo.Tcp}
    (succeeds : function conn.tcp = some tcp) :
    Moves server (server.onTcp c function) c { conn with tcp := tcp } listed waiting := by
  -- Where muduo's function succeeds, its result is stored and nothing else is touched.
  have called : server.onTcp c function = server.setTcp c tcp := by
    simp [RunningServer.onTcp, stands.made, succeeds]
  rw [called]
  exact Moves.setTcp indexed stands tcp

/-- `removeConnectionInLoop` of a connection that is in the map. -/
theorem Moves.removeConnectionInLoop (documented : muduo.Documented) (indexed : server.Indexed)
    (stands : server.Stands c conn true none) :
    Moves server (server.removeConnectionInLoop c) c conn false
      (some (conn.loop, .connectDestroyed c)) := by
  -- The name is in the map once, so one entry is erased, and then its destruction is queued.
  obtain ⟨once, erased⟩ := Moves.erase indexed stands
  have called : server.removeConnectionInLoop c =
      { server with
        connections := server.connections.filter (·.1 ≠ conn.name)
        loops := muduo.queueInLoop server.loops conn.loop (.connectDestroyed c) } := by
    simp only [RunningServer.removeConnectionInLoop, stands.made, once, if_true]
  rw [called]
  exact erased.trans (Moves.queueInLoop documented erased.indexed erased.stands rfl)

/-- A connection is at a stage of its life. -/
structure AtStage (server : RunningServer muduo) (c : Nat) (conn : ServerConnection muduo)
    (stage : LifeStage) : Prop where
  state : muduo.state conn.tcp = stage.state
  stands : server.Stands c conn stage.listed (stage.waiting server.threadPool.baseLoop c conn)

/-- One connection has come to another stage, and the others stand where they stood. -/
def Advances (server next : RunningServer muduo) (c : Nat) : Prop :=
  ∃ conn, ∃ stage : LifeStage, muduo.state conn.tcp = stage.state ∧
    Moves server next c conn stage.listed (stage.waiting server.threadPool.baseLoop c conn)

/-- The functor for which a connection has waited takes it to its next stage. -/
theorem Advances.call (documented : muduo.Documented) (indexed : server.Indexed) {stage : LifeStage}
    (state : muduo.state conn.tcp = stage.state)
    (stands : server.Stands functor.conn conn stage.listed none)
    (waits : stage.waiting server.threadPool.baseLoop functor.conn conn = some (loop, functor)) :
    Advances server (server.call functor) functor.conn := by
  -- The stage tells which functor this is, and muduo what it does in that state.
  cases stage with
  | up => cases waits
  | gone => cases waits
  | establishing =>
    have called : server.call functor = server.onTcp functor.conn muduo.connectEstablished := by
      rw [← (Prod.mk.inj (Option.some.inj waits)).2]
      rfl
    obtain ⟨tcp, succeeds, connected⟩ := documented.connectEstablished conn.tcp state
    rw [called]
    exact ⟨_, .up, connected, Moves.onTcp indexed stands succeeds⟩
  | removing =>
    have called : server.call functor = server.removeConnectionInLoop functor.conn := by
      rw [← (Prod.mk.inj (Option.some.inj waits)).2]
      rfl
    rw [called]
    exact ⟨conn, .destroying, state, Moves.removeConnectionInLoop documented indexed stands⟩
  | destroying =>
    have called : server.call functor = server.onTcp functor.conn muduo.connectDestroyed := by
      rw [← (Prod.mk.inj (Option.some.inj waits)).2]
      rfl
    obtain ⟨tcp, succeeds, destroyed⟩ := documented.connectDestroyed conn.tcp state
    rw [called]
    exact ⟨_, .gone, destroyed, Moves.onTcp indexed stands succeeds⟩

/-- `runInLoop` calls the functor at once, or leaves the connection to wait for it. -/
theorem Advances.giveTo (documented : muduo.Documented) (indexed : server.Indexed)
    (functor : LoopFunctor) (stage : LifeStage) (state : muduo.state conn.tcp = stage.state)
    (stands : server.Stands functor.conn conn stage.listed none)
    (waits : stage.waiting server.threadPool.baseLoop functor.conn conn = some (loop, functor))
    (current : Nat) : Advances server (server.giveTo current loop functor) functor.conn := by
  -- In its own loop the functor is called at once; otherwise it waits there in the queue.
  unfold RunningServer.giveTo
  rw [documented.runInLoop]
  by_cases same : current = loop
  · rw [if_pos same]
    exact Advances.call documented indexed state stands waits
  · rw [if_neg same]
    refine ⟨conn, stage, state, ?_⟩
    rw [waits]
    exact Moves.queueInLoop documented indexed stands rfl

/-- No assertion has failed, and every connection is at a stage of its life. -/
structure Kept (server : RunningServer muduo) : Prop where
  intact : server.failed = false
  indexed : server.Indexed
  staged : ∀ c conn, server.conns[c]? = some conn → ∃ stage, server.AtStage c conn stage

/-- After the rest of a move, one connection has come to another stage. -/
theorem Moves.advances (moves : Moves server next c conn listed waiting)
    (advances : Advances next last c) : Advances server last c := by
  -- The two moves are joined, and the stage reached is that of the second.
  obtain ⟨after, stage, state, later⟩ := advances
  exact ⟨after, stage, state, moves.base ▸ moves.trans later⟩

/-- A connection that comes to a stage leaves the others at theirs. -/
theorem Kept.of_advances (intact : server.failed = false)
    (staged : ∀ d, d ≠ c → ∀ other, server.conns[d]? = some other →
      ∃ stage, server.AtStage d other stage)
    (advances : Advances server next c) : next.Kept := by
  -- The connection that moved is at its new stage, and the others are at theirs as before.
  obtain ⟨conn, stage, state, moves⟩ := advances
  refine ⟨moves.intact.trans intact, moves.indexed, fun d other made => ?_⟩
  by_cases own : d = c
  · subst own
    obtain rfl : other = conn := Option.some.inj (made.symm.trans moves.stands.made)
    exact ⟨stage, state, moves.base ▸ moves.stands⟩
  · have below : d < server.conns.length := by
      rw [← moves.length]
      exact (List.getElem?_eq_some_iff.mp made).1
    obtain ⟨before, at_⟩ := staged d own _ (List.getElem?_eq_getElem below)
    have stood := moves.others d own _ _ _ at_.stands
    obtain rfl : other = server.conns[d] := Option.some.inj (made.symm.trans stood.made)
    exact ⟨before, at_.state, moves.base ▸ stood⟩

/-- A server without connections. -/
theorem Kept.start (documented : muduo.Documented) (addresses : Addresses) (numThreads : Nat)
    (name ipPort : List Char) (short : ipPort.length ≤ 51) :
    (RunningServer.start muduo addresses numThreads name ipPort).Kept where
  -- There is no connection yet, the map is empty, and no loop has a functor.
  intact := rfl
  indexed :=
    { short := short
      bounded := show 1 < 2 ^ 31 by decide
      numbered := rfl
      named := fun c conn made => by cases made
      distinct := List.nodup_nil
      known := fun entry member => absurd member List.not_mem_nil
      holding := by
        intro loop functor member
        have nothing : (RunningServer.start muduo addresses numThreads name ipPort).pending loop =
          [] := documented.idle loop
        rw [nothing] at member
        cases member }
  staged c conn made := by cases made

/-- Handing out a loop changes no other loop. -/
theorem getNextLoop_baseLoop (pool : EventLoopThreadPool) :
    pool.getNextLoop.1.baseLoop = pool.baseLoop := by
  -- Only the turn moves on, whether it wraps around or not.
  simp only [EventLoopThreadPool.getNextLoop]
  split
  · rfl
  · split <;> rfl

/-- The connection that a server makes next. -/
def fresh (server : RunningServer muduo) : ServerConnection muduo where
  name := connName server.name server.ipPort server.nextConnId
  loop := server.threadPool.getNextLoop.2

/-- The name of a new connection is new. -/
theorem Indexed.fresh_name (indexed : server.Indexed) (made : server.conns[d]? = some other) :
    other.name ≠ server.fresh.name := by
  -- A connection made before has a smaller number, and so another name.
  intro same
  have below : d < server.conns.length := (List.getElem?_eq_some_iff.mp made).1
  have bounded := indexed.bounded
  have numbered := indexed.numbered
  rw [indexed.named d other made] at same
  have ids := connName_injective indexed.short (by omega) (by omega) same
  omega

/-- A new connection is in the map, and those that were there still are. -/
theorem register_connections (indexed : server.Indexed) :
    server.register.connections =
      (server.fresh.name, server.conns.length) :: server.connections := by
  -- The fresh name is in no entry, so entering it removes nothing.
  have kept : server.connections.filter (·.1 ≠ server.fresh.name) = server.connections := by
    rw [List.filter_eq_self]
    intro entry member
    obtain ⟨conn, made, name⟩ := indexed.known entry member
    simp only [decide_eq_true_eq, ← name]
    exact indexed.fresh_name made
  show (server.fresh.name, server.conns.length) ::
    server.connections.filter (·.1 ≠ server.fresh.name) = _
  rw [kept]

/-- The new connection comes after those that were made before. -/
theorem register_conns : server.register.conns = server.conns ++ [server.fresh] := rfl

/-- A connection was made before, or is the new one. -/
theorem register_made (made : server.register.conns[d]? = some other) :
    server.conns[d]? = some other ∨ d = server.conns.length ∧ other = server.fresh := by
  -- The new connection is put at the end of the list; everything before it is old.
  rw [register_conns, List.getElem?_append] at made
  split at made
  · exact .inl made
  · rename_i past
    cases beyond : d - server.conns.length with
    | zero =>
      rw [beyond] at made
      exact .inr ⟨by omega, (Option.some.inj made).symm⟩
    | succ n =>
      rw [beyond] at made
      cases made

/-- What was made before stays. -/
theorem register_old (made : server.conns[d]? = some other) :
    server.register.conns[d]? = some other := by
  -- The new connection is behind all the old ones.
  rw [register_conns, List.getElem?_append_left (List.getElem?_eq_some_iff.mp made).1]
  exact made

/-- The map and the functors of a server know its new connection. -/
theorem Indexed.register (indexed : server.Indexed) (counts : server.nextConnId + 1 < 2 ^ 31) :
    server.register.Indexed := by
  -- Every part speaks of the old connections and of the one at the end.
  refine ⟨indexed.short, counts, ?_, fun d other made => ?_, ?_, fun entry member => ?_,
    fun loop functor member => ?_⟩
  · rw [register_conns, List.length_append]
    exact congrArg (· + 1) indexed.numbered
  · rcases register_made made with before | ⟨rfl, rfl⟩
    · exact indexed.named d other before
    · rw [← indexed.numbered]
      rfl
  · rw [register_connections indexed, List.map_cons, List.nodup_cons]
    refine ⟨fun listed => ?_, indexed.distinct⟩
    obtain ⟨entry, member, same⟩ := List.mem_map.mp listed
    obtain ⟨before, made, name⟩ := indexed.known entry member
    exact indexed.fresh_name made (name.trans same)
  · rw [register_connections indexed] at member
    rcases List.mem_cons.mp member with rfl | member
    · exact ⟨server.fresh, List.getElem?_concat_length, rfl⟩
    · obtain ⟨before, made, name⟩ := indexed.known entry member
      exact ⟨before, register_old made, name⟩
  · rw [register_conns, List.length_append]
    exact Nat.lt_add_right _ (indexed.holding loop functor member)

/-- The new connection is in the map, and waits for nothing yet. -/
theorem Stands.register (indexed : server.Indexed) :
    server.register.Stands server.conns.length server.fresh true none where
  made := List.getElem?_concat_length
  listed := by simp [register_connections indexed]
  waiting loop functor held := by
    -- No functor has held the connection before it was made.
    rw [if_neg (by simp), List.count_eq_zero]
    intro member
    have below := indexed.holding loop functor member
    omega

/-- The connections that were made before stand where they stood. -/
theorem Stands.of_register (indexed : server.Indexed) {has : Bool}
    (stood : server.Stands d other has waiting) :
    server.register.Stands d other has waiting where
  -- The fresh name is not that of the old connection, so its entry is untouched.
  made := register_old stood.made
  listed := by
    rw [register_connections indexed, List.mem_cons, ← stood.listed]
    exact or_iff_right fun same => indexed.fresh_name stood.made (congrArg Prod.fst same)
  waiting := stood.waiting

/-- Every event leaves the assertions intact and every connection at some stage. -/
theorem Kept.step (documented : muduo.Documented) {event : ServerEvent} (kept : server.Kept)
    (counts : server.Counts event)
    (stepped : (runningServerMachine muduo).step server event = some next) : next.Kept := by
  simp only [runningServerMachine, kept.intact, Bool.false_eq_true, if_false] at stepped
  cases event with
  | newConnection =>
    cases stepped
    have base : server.register.threadPool.baseLoop = server.threadPool.baseLoop :=
      getNextLoop_baseLoop _
    have intact : server.register.failed = false := kept.intact
    refine Kept.of_advances intact (fun d differs other made => ?_)
      (Advances.giveTo documented (kept.indexed.register (counts rfl))
        (.connectEstablished server.conns.length) .establishing documented.new
        (Stands.register kept.indexed) rfl _)
    obtain before | ⟨new, -⟩ := register_made made
    · obtain ⟨stage, state, stood⟩ := kept.staged d other before
      exact ⟨stage, state, base ▸ Stands.of_register kept.indexed stood⟩
    · exact absurd new differs
  | functor loop =>
    obtain ⟨⟨functor, loops⟩, taken, rfl⟩ := Option.map_eq_some_iff.mp stepped
    obtain ⟨rest, first, -⟩ := documented.nextFunctor _ _ _ _ taken
    have member : functor ∈ server.pending loop := by simp [pending, first]
    have below := kept.indexed.holding loop functor member
    obtain ⟨stage, state, stood⟩ := kept.staged _ _ (List.getElem?_eq_getElem below)
    -- The connection that the functor holds has waited for just this one.
    obtain ⟨waits, moves⟩ := Moves.dequeue documented kept.indexed taken stood
    exact Kept.of_advances kept.intact (fun d _ => kept.staged d)
      (moves.advances
        (Advances.call documented moves.indexed state moves.stands (moves.base ▸ waits)))
  | handleClose c =>
    obtain ⟨connection, made, closed⟩ := Option.bind_eq_some_iff.mp stepped
    obtain ⟨tcp, ended, rfl⟩ := Option.map_eq_some_iff.mp closed
    obtain ⟨connected, disconnected⟩ := documented.handleClose _ _ ended
    obtain ⟨stage, state, stood⟩ := kept.staged _ _ made
    -- A connection that is up is in the map, and waits for nothing.
    obtain rfl : stage = .up := by
      rw [connected] at state
      cases stage <;> cases state
      rfl
    have moves := Moves.setTcp kept.indexed stood tcp
    exact Kept.of_advances kept.intact (fun d _ => kept.staged d)
      (moves.advances (Advances.giveTo documented moves.indexed (.removeConnectionInLoop c)
        .removing disconnected moves.stands rfl _))

/-- A functor called at once leaves the next id as it is. -/
theorem call_nextConnId : (server.call functor).nextConnId = server.nextConnId := by
  -- The functions of muduo know nothing of the ids.
  have onTcp (c : Nat) (function : muduo.Tcp → Option muduo.Tcp) :
      (server.onTcp c function).nextConnId = server.nextConnId := by
    unfold RunningServer.onTcp
    split <;> rfl
  cases functor with
  | connectEstablished c => exact onTcp c _
  | removeConnectionInLoop c =>
    simp only [RunningServer.call, removeConnectionInLoop]
    split
    · split <;> rfl
    · rfl
  | connectDestroyed c => exact onTcp c _

/-- A functor given to a loop leaves the next id as it is. -/
theorem giveTo_nextConnId {current : Nat} :
    (server.giveTo current loop functor).nextConnId = server.nextConnId := by
  -- A functor that waits changes the loops alone, and one that is called makes no name.
  unfold giveTo
  split
  · rfl
  · exact call_nextConnId

/-- Each new connection uses up one id. -/
theorem nextConnId_of_step {event : ServerEvent}
    (stepped : (runningServerMachine muduo).step server event = some next) :
    next.nextConnId = server.nextConnId + if event = .newConnection then 1 else 0 := by
  -- Only `newConnection` makes a name; the functors and the closing make none.
  simp only [runningServerMachine, Option.ite_none_left_eq_some] at stepped
  obtain ⟨-, stepped⟩ := stepped
  cases event with
  | newConnection =>
    cases stepped
    exact giveTo_nextConnId
  | functor loop =>
    obtain ⟨⟨functor, loops⟩, -, rfl⟩ := Option.map_eq_some_iff.mp stepped
    exact call_nextConnId
  | handleClose c =>
    obtain ⟨connection, -, closed⟩ := Option.bind_eq_some_iff.mp stepped
    obtain ⟨tcp, -, rfl⟩ := Option.map_eq_some_iff.mp closed
    exact giveTo_nextConnId

/-- While fewer connections are accepted than there are ids, the next id does not overflow. -/
theorem counts_of_count {events : List ServerEvent}
    (few : server.nextConnId + events.count .newConnection < 2 ^ 31) :
    (runningServerMachine muduo).Meets Counts server events := by
  -- Each of the connections left to make uses up one number.
  induction events generalizing server with
  | nil => trivial
  | cons event rest ih =>
    rw [List.count_cons] at few
    refine ⟨fun new => ?_, fun next stepped => ih ?_⟩
    · subst new
      simp only [beq_self_eq_true, if_true] at few
      omega
    · rw [nextConnId_of_step stepped]
      simp only [beq_iff_eq] at few
      omega

/-- The map or a functor has a shared pointer to the connection. -/
def Holds (server : RunningServer muduo) (c : Nat) : Prop :=
  (∃ name, (name, c) ∈ server.connections) ∨
    ∃ loop, ∃ functor ∈ server.pending loop, functor.conn = c

/-- The server has lost sight of no connection. The map has the names, no two of them the same, of
the connections whose `connectDestroyed` has neither run nor been queued, and no connection is given
up before it has run. -/
structure Accounted (server : RunningServer muduo) : Prop where
  intact : server.failed = false
  distinct : (server.connections.map Prod.fst).Nodup
  known : ∀ entry ∈ server.connections,
    ∃ conn, server.conns[entry.2]? = some conn ∧ conn.name = entry.1
  listed : ∀ c conn, server.conns[c]? = some conn → ((conn.name, c) ∈ server.connections ↔
    muduo.state conn.tcp ≠ .destroyed ∧ .connectDestroyed c ∉ server.pending conn.loop)
  held : ∀ c conn, server.conns[c]? = some conn → muduo.state conn.tcp ≠ .destroyed →
    server.Holds c
  settled : (∀ loop, server.pending loop = []) → ∀ c conn, server.conns[c]? = some conn →
    muduo.state conn.tcp = .destroyed ∨
      muduo.state conn.tcp = .connected ∧ (conn.name, c) ∈ server.connections

/-- A functor is pending for a connection exactly if the connection is at the stage that waits for
it. -/
theorem AtStage.mem_pending {stage : LifeStage} (at_ : server.AtStage c conn stage) (loop : Nat)
    (own : functor.conn = c) : functor ∈ server.pending loop ↔
      stage.waiting server.threadPool.baseLoop c conn = some (loop, functor) := by
  -- Each functor waits as often as the stage says: once or not at all.
  rw [← List.count_pos_iff, at_.stands.waiting loop functor own]
  split
  · simp [*]
  · simp [*]

/-- Connections that are all at some stage are accounted for. -/
theorem Kept.accounted (kept : server.Kept) : server.Accounted where
  intact := kept.intact
  distinct := kept.indexed.distinct
  known := kept.indexed.known
  listed c conn made := by
    obtain ⟨stage, at_⟩ := kept.staged c conn made
    rw [at_.stands.listed, at_.mem_pending conn.loop rfl, at_.state]
    cases stage <;> simp [LifeStage.listed, LifeStage.state, LifeStage.waiting]
  held c conn made alive := by
    obtain ⟨stage, at_⟩ := kept.staged c conn made
    rw [at_.state] at alive
    by_cases has : stage.listed = true
    · exact .inl ⟨_, at_.stands.listed.mpr has⟩
    · -- What the map has forgotten is held by the functor that is to destroy it.
      have last : stage = .destroying := by
        cases stage <;> simp [LifeStage.listed, LifeStage.state] at has alive ⊢
      subst last
      exact .inr ⟨conn.loop, _, (at_.mem_pending conn.loop rfl).mpr rfl, rfl⟩
  settled rest c conn made := by
    obtain ⟨stage, at_⟩ := kept.staged c conn made
    have idle : stage.waiting server.threadPool.baseLoop c conn = none := by
      rw [Option.eq_none_iff_forall_ne_some]
      rintro ⟨loop, functor⟩ waits
      have own : functor.conn = c := by
        cases stage <;> cases waits <;> rfl
      have pending := (at_.mem_pending loop own).mpr waits
      rw [rest loop] at pending
      exact absurd pending List.not_mem_nil
    cases stage with
    | up => exact .inr ⟨at_.state, at_.stands.listed.mpr rfl⟩
    | gone => exact .inl at_.state
    | establishing => cases idle
    | removing => cases idle
    | destroying => cases idle

end RunningServer

/-- Over muduo as it is documented, in every run of a started server that accepts fewer connections
than there are positive `int` values, no assertion on its connections fails, and every connection is
accounted for. -/
theorem connections_accounted {muduo : Muduo} (documented : muduo.Documented) (addresses : Addresses)
    (numThreads : Nat) (name : List Char) {ipPort : List Char} (short : ipPort.length ≤ 51)
    {events : List ServerEvent} (few : events.count .newConnection < 2 ^ 31 - 1) :
    (runningServerMachine muduo).Always RunningServer.Accounted
      (RunningServer.start muduo addresses numThreads name ipPort) events := by
  have counts : (runningServerMachine muduo).Meets RunningServer.Counts
      (RunningServer.start muduo addresses numThreads name ipPort) events := by
    -- The first id is 1.
    apply RunningServer.counts_of_count
    show 1 + _ < _
    omega
  exact Machine.always_of_meets
    (fun _ _ _ kept counts stepped => kept.step documented counts stepped)
    (fun _ => RunningServer.Kept.accounted)
    (RunningServer.Kept.start documented addresses numThreads name ipPort short) counts

/-- A connection that ends before the next one is accepted, on two I/O threads. -/
theorem connections_accounted_two :
    (runningServerMachine plainMuduo).Always RunningServer.Accounted
      (RunningServer.start plainMuduo freshMemory 2 ['p'] ['i'])
      [.newConnection, .functor 4, .handleClose 0, .newConnection, .functor 2, .functor 4] :=
  connections_accounted documented_plainMuduo freshMemory 2 ['p'] (by decide) (by decide)

end EnhancedProxy

import EnhancedProxy.ModifiedMuduo.Connections
import Mathlib.Data.Int.CardIntervalMod

/-! How the connections of a server are dealt out to its loops. -/

namespace EnhancedProxy

namespace RunningServer

/-- The connections have been dealt out to the threads' loops in turn. -/
structure Dealt {muduo : Muduo} (addresses : Addresses) (n : Nat) (server : RunningServer muduo) :
    Prop where
  threadPool : server.threadPool =
    { startedPool addresses n with nextLoop := server.conns.length % n }
  loops : server.conns.map (·.loop) =
    (List.range server.conns.length).map fun c => addresses.loop (c % n)

variable {muduo : Muduo} {addresses : Addresses} {n : Nat} {server next : RunningServer muduo}
  {c loop : Nat} {functor : LoopFunctor}

/-- What muduo makes of a connection leaves it in its loop. -/
theorem setTcp_loops (tcp : muduo.Tcp) :
    (server.setTcp c tcp).conns.map (·.loop) = server.conns.map (·.loop) := by
  -- Each entry keeps its loop, the one that is replaced included.
  apply List.ext_getElem?
  intro d
  simp only [setTcp, List.getElem?_map, List.getElem?_modify]
  by_cases own : c = d
  · subst own
    cases server.conns[c]? <;> simp
  · cases server.conns[d]? <;> simp [own]

/-- What is dealt out does not depend on what becomes of the connections. -/
theorem Dealt.congr (dealt : server.Dealt addresses n)
    (threadPool : next.threadPool = server.threadPool)
    (loops : next.conns.map (·.loop) = server.conns.map (·.loop)) : next.Dealt addresses n := by
  -- Only the pool, with its turn, and the loops of the connections are spoken of.
  have length : next.conns.length = server.conns.length := by
    simpa using congrArg List.length loops
  refine ⟨?_, ?_⟩
  · rw [threadPool, length]
    exact dealt.threadPool
  · rw [loops, length]
    exact dealt.loops

/-- Before the first connection, it is the first loop's turn. -/
theorem Dealt.start (n : Nat) (name ipPort : List Char) :
    (RunningServer.start muduo addresses n name ipPort).Dealt addresses n where
  -- The turn is at the first loop, and there is no connection.
  threadPool := by
    have first : (startedPool addresses n).nextLoop = 0 :=
      EventLoopThreadPool.afterThreads_nextLoop n
    show startedPool addresses n = { startedPool addresses n with nextLoop := 0 % n }
    rw [Nat.zero_mod, ← first]
  loops := rfl

/-- A function of muduo deals out nothing. -/
theorem Dealt.onTcp (dealt : server.Dealt addresses n) (function : muduo.Tcp → Option muduo.Tcp) :
    (server.onTcp c function).Dealt addresses n := by
  -- The connection keeps its loop, whatever its state becomes.
  unfold RunningServer.onTcp
  split
  · exact dealt.congr rfl (setTcp_loops _)
  · exact dealt.congr rfl rfl

/-- A functor called at once deals out nothing. -/
theorem Dealt.call (dealt : server.Dealt addresses n) : (server.call functor).Dealt addresses n := by
  -- A functor moves a connection or drops its entry, and deals no loop.
  cases functor with
  | connectEstablished c => exact dealt.onTcp _
  | removeConnectionInLoop c =>
    simp only [RunningServer.call, removeConnectionInLoop]
    split
    · split
      · exact dealt.congr rfl rfl
      · exact dealt.congr rfl rfl
    · exact dealt.congr rfl rfl
  | connectDestroyed c => exact dealt.onTcp _

/-- A functor given to a loop deals out nothing. -/
theorem Dealt.giveTo (dealt : server.Dealt addresses n) (current : Nat) :
    (server.giveTo current loop functor).Dealt addresses n := by
  -- It waits in a loop, or it is called at once.
  unfold RunningServer.giveTo
  split
  · exact dealt.congr rfl rfl
  · exact dealt.call

/-- A new connection is dealt to the next loop. -/
theorem Dealt.register (threads : 0 < n) (dealt : server.Dealt addresses n) :
    server.register.Dealt addresses n := by
  have loops : (startedPool addresses n).loops = (List.range n).map addresses.loop :=
    EventLoopThreadPool.afterThreads_loops n
  have length : (startedPool addresses n).loops.length = n := by simp [loops]
  have some_ : (startedPool addresses n).loops ≠ [] := by
    rw [← List.length_pos_iff, length]
    exact threads
  have turn (connections : Nat) : (fun pool => pool.getNextLoop.1)^[connections]
      (startedPool addresses n) =
        { startedPool addresses n with nextLoop := connections % n } := by
    rw [EventLoopThreadPool.getNextLoop_iterate some_
      (EventLoopThreadPool.afterThreads_nextLoop n), length]
  have counted : server.register.conns.length = server.conns.length + 1 := List.length_append
  constructor
  · show server.threadPool.getNextLoop.1 = _
    rw [dealt.threadPool, counted, ← turn, ← turn]
    exact (Function.iterate_succ_apply'
      (fun pool : EventLoopThreadPool => pool.getNextLoop.1) _ _).symm
  · -- The loop is the one whose turn it is.
    have given : server.threadPool.getNextLoop.2 = addresses.loop (server.conns.length % n) := by
      have inside := Nat.mod_lt server.conns.length threads
      rw [dealt.threadPool]
      simp only [EventLoopThreadPool.getNextLoop, if_neg some_]
      rw [loops]
      split <;> simp [inside]
    rw [counted, List.range_succ, List.map_append, ← dealt.loops, List.map_singleton, ← given]
    exact List.map_append

/-- Every event leaves the connections dealt out in turn. -/
theorem Dealt.step (threads : 0 < n) {event : ServerEvent} (dealt : server.Dealt addresses n)
    (stepped : (runningServerMachine muduo).step server event = some next) :
    next.Dealt addresses n := by
  simp only [runningServerMachine, Option.ite_none_left_eq_some] at stepped
  obtain ⟨-, stepped⟩ := stepped
  -- Only an accepted connection is dealt out.
  cases event with
  | newConnection =>
    cases stepped
    exact (dealt.register threads).giveTo _
  | functor loop =>
    obtain ⟨⟨functor, loops⟩, -, rfl⟩ := Option.map_eq_some_iff.mp stepped
    have taken : RunningServer.Dealt addresses n { server with loops := loops } :=
      dealt.congr rfl rfl
    exact taken.call
  | handleClose c =>
    obtain ⟨connection, -, closed⟩ := Option.bind_eq_some_iff.mp stepped
    obtain ⟨tcp, -, rfl⟩ := Option.map_eq_some_iff.mp closed
    have ended : (server.setTcp c tcp).Dealt addresses n := dealt.congr rfl (setTcp_loops _)
    exact ended.giveTo _

end RunningServer

/-- In every state of every run of a server with I/O threads, the connections made so far have been
dealt out evenly: each loop was given its share, the first loops one more if there is a rest. -/
theorem loops_balanced (muduo : Muduo) (addresses : Addresses) {n : Nat} (threads : 0 < n)
    (name ipPort : List Char) {events : List ServerEvent} {server : RunningServer muduo}
    (reached : (runningServerMachine muduo).run (RunningServer.start muduo addresses n name ipPort)
      events = some server) {i : Nat} (below : i < n) :
    server.conns.countP (·.loop = addresses.loop i) =
      server.conns.length / n + if i < server.conns.length % n then 1 else 0 := by
  -- The connections have the loops that the turn gave them, which counts modulo n.
  have dealt : server.Dealt addresses n := Machine.run_invariant
    (fun _ _ _ dealt stepped => RunningServer.Dealt.step threads dealt stepped)
    (RunningServer.Dealt.start n name ipPort) reached
  have turns : server.conns.countP (·.loop = addresses.loop i) =
      Nat.count (· ≡ i [MOD n]) server.conns.length := by
    calc server.conns.countP (·.loop = addresses.loop i)
        = (server.conns.map (·.loop)).countP (· = addresses.loop i) := by
          rw [List.countP_map]
          rfl
      _ = (List.range server.conns.length).countP (· ≡ i [MOD n]) := by
          rw [dealt.loops, List.countP_map]
          refine List.countP_congr fun c _ => ?_
          simp [addresses.loop_injective.eq_iff, Nat.ModEq, Nat.mod_eq_of_lt below]
      _ = Nat.count (· ≡ i [MOD n]) server.conns.length := rfl
  rw [turns, Nat.count_modEq_card _ threads, Nat.mod_eq_of_lt below]

/-- Five connections to a server with two I/O threads, of which the first two end meanwhile. -/
def comeAndGo : List ServerEvent :=
  [.newConnection, .newConnection, .functor 4, .functor 6, .handleClose 0, .newConnection,
    .functor 2, .functor 4, .functor 4, .handleClose 1, .functor 2, .newConnection, .functor 6,
    .newConnection]

/-- The first loop was given three of them. -/
theorem loops_balanced_comeAndGo :
    ∃ server, (runningServerMachine plainMuduo).run
        (RunningServer.start plainMuduo freshMemory 2 ['p'] ['i']) comeAndGo = some server ∧
      server.conns.countP (·.loop = freshMemory.loop 0) = 3 := by
  -- Five connections have been made when the run ends.
  have reached := (Option.some_get (x := (runningServerMachine plainMuduo).run
    (RunningServer.start plainMuduo freshMemory 2 ['p'] ['i']) comeAndGo) rfl).symm
  exact ⟨_, reached, loops_balanced plainMuduo freshMemory Nat.two_pos ['p'] ['i'] reached
    Nat.two_pos⟩

end EnhancedProxy

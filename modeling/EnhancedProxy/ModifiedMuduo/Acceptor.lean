import EnhancedProxy.Library.Handles
import EnhancedProxy.Library.Machine

/-! The acceptor and its reserve descriptor, beside threads that open and close their own. -/

namespace EnhancedProxy

/-- Who has opened a descriptor. -/
inductive FdOwner
  -- `acceptSocket_`.
  | acceptSocket
  -- What `idleFd_` is for: the reserve, or a connection that is to be closed at once.
  | idle
  -- A connection that was handed to `newConnection`.
  | connection
  -- Any other thread.
  | other
  deriving DecidableEq, Repr

/-- Where the loop stands in `handleRead`. -/
inductive AcceptorPc
  -- Between two callbacks.
  | between
  -- After EMFILE, before `close(idleFd_)`.
  | closing
  -- Before `accept` into `idleFd_`.
  | accepting
  -- Before the second `close(idleFd_)`.
  | discarding
  -- Before `open` of the reserve.
  | reopening
  deriving DecidableEq, Repr

/-- An `Acceptor` object, with `none` for the descriptor -1. -/
structure Acceptor where
  listenning : Bool := false
  startListenTime : Int := -1
  reading : Bool := false
  idleFd : Option Nat

/-- An acceptor, the descriptors of its process, and the connections that wait to be accepted. The
history keeps the descriptors of accepted connections, and counts those closed at once. -/
structure AcceptorState where
  acceptor : Acceptor
  handles : Handles FdOwner
  pc : AcceptorPc := .between
  listens : Bool := false
  waiting : Nat := 0
  accepted : List Nat := []
  discarded : Nat := 0

/-- What the loop does, and what goes on outside of it. -/
inductive AcceptorStep
  | listen (now : Int)
  | enableListen
  | disableListen
  -- `handleRead`, up to its first `close`.
  | handleRead
  | closeIdle
  | acceptIdle
  | discardIdle
  | reopenIdle
  -- A connection comes to wait, or gives up.
  | arrive
  | giveUp
  -- Another thread opens a descriptor, or one is closed by its owner.
  | openOther
  | closeOther (n : Nat)
  deriving DecidableEq, Repr

namespace AcceptorState

/-- The constructor, which ends the process if it gets no descriptor. -/
def new (handles : Handles FdOwner) : Option AcceptorState :=
  (handles.take .acceptSocket).bind fun (_, handles) =>
    (handles.take .idle).map fun (idleFd, handles) =>
      { acceptor := { idleFd := some idleFd }, handles := handles }

/-- `Acceptor::listen`. -/
def listen (s : AcceptorState) (now : Int) : AcceptorState :=
  { s with
    acceptor := { s.acceptor with listenning := true, reading := true, startListenTime := now }
    listens := if s.acceptor.startListenTime = -1 then true else s.listens }

/-- `Acceptor::enableListen`. -/
def enableListen (s : AcceptorState) : AcceptorState :=
  { s with acceptor := { s.acceptor with listenning := true, reading := true } }

/-- `Acceptor::disableListen`. -/
def disableListen (s : AcceptorState) : AcceptorState :=
  { s with acceptor := { s.acceptor with listenning := false, reading := false } }

/-- `handleRead` up to its first `close`. Without a descriptor, `accept` fails before it looks at
the connections that wait. -/
def handleRead (s : AcceptorState) : AcceptorState :=
  match s.handles.take .connection with
  -- EMFILE.
  | none => { s with pc := .closing }
  | some (connfd, handles) =>
    -- EAGAIN.
    if s.waiting = 0 then s
    else
      { s with
        handles := handles
        waiting := s.waiting - 1
        accepted := s.accepted ++ [connfd] }

/-- `close(idleFd_)`, which fails for -1. -/
def closeIdle (s : AcceptorState) : AcceptorState :=
  match s.acceptor.idleFd with
  | none => s
  | some n => { s with handles := s.handles.close n }

/-- `idleFd_ = accept(…)`. -/
def acceptIdle (s : AcceptorState) : AcceptorState :=
  match s.handles.take .idle with
  | none => { s with acceptor := { s.acceptor with idleFd := none } }
  | some (n, handles) =>
    if s.waiting = 0 then { s with acceptor := { s.acceptor with idleFd := none } }
    else
      { s with
        acceptor := { s.acceptor with idleFd := some n }
        handles := handles
        waiting := s.waiting - 1
        discarded := s.discarded + 1 }

/-- `idleFd_ = open("/dev/null", …)`. -/
def reopenIdle (s : AcceptorState) : AcceptorState :=
  match s.handles.take .idle with
  | none => { s with acceptor := { s.acceptor with idleFd := none } }
  | some (n, handles) =>
    { s with
      acceptor := { s.acceptor with idleFd := some n }
      handles := handles }

/-- The loop has come to another place. -/
def goTo (s : AcceptorState) (pc : AcceptorPc) : AcceptorState := { s with pc := pc }

end AcceptorState

/-- The acceptor as a machine. A step is refused where the loop does not stand before it. -/
def acceptorMachine : Machine AcceptorState AcceptorStep where
  step s
    | .listen now => if s.pc = .between then some (s.listen now) else none
    | .enableListen => if s.pc = .between then some s.enableListen else none
    | .disableListen => if s.pc = .between then some s.disableListen else none
    | .handleRead => if s.pc = .between ∧ s.acceptor.reading then some s.handleRead else none
    | .closeIdle => if s.pc = .closing then some (s.closeIdle.goTo .accepting) else none
    | .acceptIdle => if s.pc = .accepting then some (s.acceptIdle.goTo .discarding) else none
    | .discardIdle => if s.pc = .discarding then some (s.closeIdle.goTo .reopening) else none
    | .reopenIdle => if s.pc = .reopening then some (s.reopenIdle.goTo .between) else none
    | .arrive => if s.listens then some { s with waiting := s.waiting + 1 } else none
    | .giveUp => if 0 < s.waiting then some { s with waiting := s.waiting - 1 } else none
    | .openOther => (s.handles.take .other).map fun (_, handles) => { s with handles := handles }
    | .closeOther n =>
      if s.handles.owner n = some .connection ∨ s.handles.owner n = some .other then
        some { s with handles := s.handles.close n }
      else none

/-- At this place `idleFd_` is a descriptor of the acceptor, or -1. -/
def AcceptorPc.hasIdle : AcceptorPc → Bool
  | .between | .closing | .discarding => true
  | .accepting | .reopening => false

namespace AcceptorState

variable {s next : AcceptorState} {label : AcceptorStep} {n : Nat} {k : FdOwner}

/-- The step hands no connection over, and closes none that has waited. -/
def SameCounts (s next : AcceptorState) : Prop :=
  next.accepted = s.accepted ∧ next.discarded = s.discarded

/-- What a step can do to the descriptors and to `idleFd_`. -/
inductive Effect (s : AcceptorState) : AcceptorStep → AcceptorState → Prop
  | quiet (label : AcceptorStep) (next : AcceptorState) (handles : next.handles = s.handles)
      (idleFd : next.acceptor.idleFd = s.acceptor.idleFd)
      (pc : next.pc = s.pc ∨ s.pc = .between ∧ next.pc = .closing) (counts : s.SameCounts next) :
    Effect s label next
  -- A descriptor for a new connection, or for somebody else.
  | take (label : AcceptorStep) (next : AcceptorState) (k : FdOwner) (n : Nat) (other : k ≠ .idle)
      (taken : s.handles.take k = some (n, next.handles))
      (idleFd : next.acceptor.idleFd = s.acceptor.idleFd) (pc : next.pc = s.pc)
      (outside : label = .openOther ∨ s.pc = .between) :
    Effect s label next
  | free (label : AcceptorStep)
      (leaving : s.pc = .closing ∧ label = .closeIdle ∨ s.pc = .discarding ∧ label = .discardIdle) :
    Effect s label
      (s.closeIdle.goTo (if s.pc = .closing then .accepting else .reopening))
  | gain (label : AcceptorStep) (next : AcceptorState) (n : Nat)
      (pc : s.pc = .accepting ∧ next.pc = .discarding ∨ s.pc = .reopening ∧ next.pc = .between)
      (taken : s.handles.take .idle = some (n, next.handles))
      (idleFd : next.acceptor.idleFd = some n) :
    Effect s label next
  | miss (label : AcceptorStep) (next : AcceptorState)
      (pc : s.pc = .accepting ∧ next.pc = .discarding ∨
        s.pc = .reopening ∧ next.pc = .between ∧ s.handles.free = none)
      (handles : next.handles = s.handles) (idleFd : next.acceptor.idleFd = none)
      (counts : s.SameCounts next) :
    Effect s label next
  | close (n : Nat) (other : s.handles.owner n = some .connection ∨ s.handles.owner n = some .other) :
    Effect s (.closeOther n) { s with handles := s.handles.close n }

/-- Every step has one of these effects. -/
theorem effect_of_step (stepped : acceptorMachine.step s label = some next) :
    s.Effect label next := by
  -- One case for each kind of step.
  cases label with
  | listen | enableListen | disableListen =>
    obtain ⟨-, same⟩ := Option.ite_none_right_eq_some.mp stepped
    cases same
    exact .quiet _ _ rfl rfl (.inl rfl) ⟨rfl, rfl⟩
  | handleRead =>
    obtain ⟨⟨here, -⟩, same⟩ := Option.ite_none_right_eq_some.mp stepped
    cases same
    unfold handleRead
    split
    · exact .quiet _ _ rfl rfl (.inr ⟨here, rfl⟩) ⟨rfl, rfl⟩
    · rename_i connfd handles taken
      split
      · exact .quiet _ _ rfl rfl (.inl rfl) ⟨rfl, rfl⟩
      · exact .take _ _ .connection connfd (by simp) taken rfl rfl (.inr here)
  | closeIdle =>
    obtain ⟨here, same⟩ := Option.ite_none_right_eq_some.mp stepped
    cases same
    have effect := Effect.free (s := s) .closeIdle (.inl ⟨here, rfl⟩)
    rwa [if_pos here] at effect
  | acceptIdle =>
    obtain ⟨here, same⟩ := Option.ite_none_right_eq_some.mp stepped
    cases same
    unfold acceptIdle
    split
    · exact .miss _ _ (.inl ⟨here, rfl⟩) rfl rfl ⟨rfl, rfl⟩
    · rename_i m handles taken
      split
      · exact .miss _ _ (.inl ⟨here, rfl⟩) rfl rfl ⟨rfl, rfl⟩
      · exact .gain _ _ m (.inl ⟨here, rfl⟩) taken rfl
  | discardIdle =>
    obtain ⟨here, same⟩ := Option.ite_none_right_eq_some.mp stepped
    cases same
    have effect := Effect.free (s := s) .discardIdle (.inr ⟨here, rfl⟩)
    rwa [if_neg (by simp [here])] at effect
  | reopenIdle =>
    obtain ⟨here, same⟩ := Option.ite_none_right_eq_some.mp stepped
    cases same
    unfold reopenIdle
    split
    · rename_i full
      exact .miss _ _ (.inr ⟨here, rfl, Handles.take_eq_none.mp full⟩) rfl rfl ⟨rfl, rfl⟩
    · rename_i m handles taken
      exact .gain _ _ m (.inr ⟨here, rfl⟩) taken rfl
  | arrive | giveUp =>
    obtain ⟨-, same⟩ := Option.ite_none_right_eq_some.mp stepped
    cases same
    exact .quiet _ _ rfl rfl (.inl rfl) ⟨rfl, rfl⟩
  | openOther =>
    obtain ⟨⟨m, handles⟩, taken, same⟩ := Option.map_eq_some_iff.mp stepped
    cases same
    exact .take _ _ .other m (by simp) taken rfl rfl (.inl rfl)
  | closeOther m =>
    obtain ⟨other, same⟩ := Option.ite_none_right_eq_some.mp stepped
    cases same
    exact .close m other

/-- `close(idleFd_)` closes that descriptor and no other. -/
theorem closeIdle_owner (s : AcceptorState) (m : Nat) :
    s.closeIdle.handles.owner m =
      if s.acceptor.idleFd = some m then none else s.handles.owner m := by
  -- Closing the reserve frees one number, or none where the reserve is lost.
  unfold closeIdle
  split
  · rename_i absent
    simp [absent]
  · rename_i n present
    simp [present, eq_comm]

/-- `close(idleFd_)` does not change the number in `idleFd_`. -/
@[simp] theorem closeIdle_idleFd (s : AcceptorState) :
    s.closeIdle.acceptor.idleFd = s.acceptor.idleFd := by
  -- The table of handles changes, or nothing does.
  unfold closeIdle
  split <;> rfl

/-- The acceptor has no other descriptor open than `idleFd_`, and that only where it may use it. -/
def Tidy (s : AcceptorState) : Prop :=
  ∀ n, s.handles.owner n = some .idle ↔ s.acceptor.idleFd = some n ∧ s.pc.hasIdle

/-- The constructor opens the reserve. -/
theorem Tidy.start {handles : Handles FdOwner} (fresh : ∀ n, handles.owner n ≠ some .idle)
    (made : new handles = some s) : s.Tidy := by
  -- The constructor opens the socket first and then the reserve, whose number is another one.
  obtain ⟨⟨socket, first⟩, tookSocket, opened⟩ := Option.bind_eq_some_iff.mp made
  obtain ⟨⟨idleFd, both⟩, tookIdle, rfl⟩ := Option.map_eq_some_iff.mp opened
  obtain ⟨-, ownersSocket⟩ := Handles.take_some tookSocket
  obtain ⟨-, owners⟩ := Handles.take_some tookIdle
  intro n
  have before := fresh n
  by_cases reserve : n = idleFd
  · subst reserve
    simp [owners, AcceptorPc.hasIdle]
  · have away : idleFd ≠ n := fun same => reserve same.symm
    by_cases listening : n = socket
    · subst listening
      simp [owners, ownersSocket, reserve, away]
    · simp [owners, ownersSocket, reserve, listening, before, away]

/-- Every step keeps the acceptor's descriptors in order. -/
theorem Tidy.step (tidy : s.Tidy) (effect : s.Effect label next) : next.Tidy := by
  intro m
  have here := tidy m
  cases effect with
  | quiet _ _ handles idleFd pc counts =>
    rw [handles, idleFd, here]
    rcases pc with same | ⟨before, after⟩
    · rw [same]
    · rw [before, after]
      rfl
  | take _ _ k n foreign taken idleFd pc outside =>
    obtain ⟨empty, owners⟩ := Handles.take_some taken
    rw [owners, idleFd, pc, ← here]
    split
    · -- A number that was free is no descriptor of the acceptor.
      rename_i same
      subst same
      simp [empty, foreign]
    · rfl
  | free _ leaving =>
    have gone : (s.closeIdle.goTo (if s.pc = .closing then .accepting else .reopening)).pc.hasIdle =
        false := by
      unfold goTo
      dsimp only
      split <;> rfl
    rw [gone]
    simp only [Bool.false_eq_true, and_false, iff_false]
    show s.closeIdle.handles.owner m ≠ some .idle
    rw [closeIdle_owner]
    split
    · simp
    · -- Only `idleFd_` was open.
      rename_i another
      intro idle
      exact another (here.mp idle).1
  | gain _ _ n pc taken idleFd =>
    obtain ⟨-, owners⟩ := Handles.take_some taken
    have none_ : s.handles.owner m ≠ some .idle := by
      intro idle
      obtain ⟨-, there⟩ := here.mp idle
      rcases pc with ⟨before, -⟩ | ⟨before, -⟩ <;> simp [before, AcceptorPc.hasIdle] at there
    have after : next.pc.hasIdle = true := by
      rcases pc with ⟨-, after⟩ | ⟨-, after⟩ <;> rw [after] <;> rfl
    rw [owners, idleFd, after]
    by_cases same : m = n
    · simp [same]
    · have away : n ≠ m := fun equal => same equal.symm
      simp [same, none_, away]
  | miss _ _ pc handles idleFd counts =>
    have none_ : s.handles.owner m ≠ some .idle := by
      intro idle
      obtain ⟨-, there⟩ := here.mp idle
      rcases pc with ⟨before, -⟩ | ⟨before, -⟩ <;> simp [before, AcceptorPc.hasIdle] at there
    rw [handles, idleFd]
    simp [none_]
  | close n theirs =>
    rw [← here]
    show (s.handles.close n).owner m = _ ↔ _
    rw [Handles.close_owner]
    split
    · rename_i same
      subst same
      rcases theirs with connection | elsewhere
      · simp [connection]
      · simp [elsewhere]
    · rfl

/-- A descriptor of somebody else stays open, unless its owner closes it. -/
theorem Tidy.owner_step (tidy : s.Tidy) (effect : s.Effect label next) (foreign : k ≠ .idle)
    (owned : s.handles.owner n = some k) (kept : label ≠ .closeOther n) :
    next.handles.owner n = some k := by
  cases effect with
  | quiet _ _ handles => rw [handles, owned]
  | miss _ _ _ handles => rw [handles, owned]
  | take _ _ _ m _ taken => exact Handles.owner_take taken owned
  | gain _ _ m _ taken => exact Handles.owner_take taken owned
  | free _ leaving =>
    show s.closeIdle.handles.owner n = _
    rw [closeIdle_owner, if_neg, owned]
    intro idle
    -- `idleFd_` is a descriptor of the acceptor itself.
    have inUse : s.pc.hasIdle = true := by
      rcases leaving with ⟨before, -⟩ | ⟨before, -⟩ <;> rw [before] <;> rfl
    rw [(tidy n).mpr ⟨idle, inUse⟩] at owned
    cases owned
    exact foreign rfl
  | close m _ =>
    have away : n ≠ m := by
      intro same
      exact kept (congrArg _ same.symm)
    show (s.handles.close m).owner n = _
    rw [Handles.close_owner, if_neg away, owned]

/-- Nobody else opens a descriptor from the time the reserve is closed until it is open again. -/
def LeavesReserve (s : AcceptorState) (label : AcceptorStep) : Prop :=
  label = .openOther → s.pc = .between ∨ s.pc = .closing

/-- The reserve is there, or a descriptor is free for it. -/
def Reserved (s : AcceptorState) : Prop :=
  match s.pc with
  | .between | .closing => s.acceptor.idleFd ≠ none
  | .accepting | .reopening => s.handles.free ≠ none
  | .discarding => s.acceptor.idleFd ≠ none ∨ s.handles.free ≠ none

/-- After `close(idleFd_)` a descriptor is free, if there was one to close or one was free. -/
theorem Tidy.free_closeIdle (tidy : s.Tidy) (inUse : s.pc.hasIdle)
    (some_ : s.acceptor.idleFd ≠ none ∨ s.handles.free ≠ none) :
    s.closeIdle.handles.free ≠ none := by
  -- Without a reserve the free number was there before; with one it is the number just closed.
  unfold closeIdle
  split
  · rename_i absent
    exact some_.resolve_left fun present => present absent
  · rename_i n present
    refine Handles.free_close ?_
    rw [(tidy n).mpr ⟨present, inUse⟩]
    simp

/-- Without disturbance the reserve is opened again after each pass. -/
theorem Reserved.step (reserved : s.Reserved) (tidy : s.Tidy) (leaves : s.LeavesReserve label)
    (effect : s.Effect label next) : next.Reserved := by
  unfold Reserved at reserved ⊢
  cases effect with
  | quiet _ _ handles idleFd pc counts =>
    rw [handles, idleFd]
    rcases pc with same | ⟨before, after⟩
    · rwa [same]
    · rw [before] at reserved
      rwa [after]
  | take _ _ k n foreign taken idleFd pc outside =>
    -- The reserve is not needed here.
    have early : s.pc = .between ∨ s.pc = .closing := by
      rcases outside with opens | before
      · exact leaves opens
      · exact .inl before
    rw [pc, idleFd]
    rcases early with before | before
    · rw [before] at reserved ⊢
      exact reserved
    · rw [before] at reserved ⊢
      exact reserved
  | free _ leaving =>
    rcases leaving with ⟨before, -⟩ | ⟨before, -⟩
    · rw [before] at reserved
      rw [if_pos before]
      exact tidy.free_closeIdle (by rw [before]; rfl) (.inl reserved)
    · rw [before] at reserved
      rw [if_neg (by simp [before])]
      exact tidy.free_closeIdle (by rw [before]; rfl) reserved
  | gain _ _ n pc taken idleFd =>
    have present : next.acceptor.idleFd ≠ none := by simp [idleFd]
    rcases pc with ⟨-, after⟩ | ⟨-, after⟩
    · rw [after]
      exact .inl present
    · rw [after]
      exact present
  | miss _ _ pc handles idleFd counts =>
    rcases pc with ⟨before, after⟩ | ⟨before, -, full⟩
    · -- No connection was there to be accepted, and the number is still free.
      rw [before] at reserved
      rw [after, handles]
      exact .inr reserved
    · rw [before] at reserved
      exact absurd full reserved
  | close n theirs =>
    show match s.pc with
      | .between | .closing => s.acceptor.idleFd ≠ none
      | .accepting | .reopening => (s.handles.close n).free ≠ none
      | .discarding => s.acceptor.idleFd ≠ none ∨ (s.handles.close n).free ≠ none
    split
    · rename_i before
      rwa [before] at reserved
    · rename_i before
      rwa [before] at reserved
    · rename_i before
      rw [before] at reserved
      exact Handles.free_close_of_free reserved
    · rename_i before
      rw [before] at reserved
      exact Handles.free_close_of_free reserved
    · rename_i before
      rw [before] at reserved
      exact reserved.imp id Handles.free_close_of_free

/-- With the reserve closed, a connection that waits is accepted and will be closed. -/
theorem Reserved.discards (reserved : s.Reserved) (here : s.pc = .accepting)
    (waits : s.waiting ≠ 0) :
    (acceptorMachine.step s .acceptIdle).map (·.discarded) = some (s.discarded + 1) := by
  -- A reserved acceptor has a free number here, so the second accept gets the connection.
  unfold Reserved at reserved
  rw [here] at reserved
  have room : s.handles.take .idle ≠ none := fun full => reserved (Handles.take_eq_none.mp full)
  obtain ⟨⟨n, handles⟩, taken⟩ := Option.ne_none_iff_exists'.mp room
  simp [acceptorMachine, here, acceptIdle, taken, waits, goTo]

/-- The reserve is lost while every descriptor is in use. -/
structure Starved (s : AcceptorState) : Prop where
  lost : s.acceptor.idleFd = none
  full : s.handles.free = none

/-- Nothing is accepted any more until somebody closes a descriptor. -/
theorem Starved.step (starved : s.Starved) (kept : ∀ n, label ≠ .closeOther n)
    (effect : s.Effect label next) : next.Starved ∧ s.SameCounts next := by
  -- Only an `accept` or an `open` could count anything, and with no number free neither succeeds.
  cases effect with
  | quiet _ _ handles idleFd pc counts =>
    exact ⟨⟨idleFd.trans starved.lost, handles ▸ starved.full⟩, counts⟩
  | take _ _ k n foreign taken =>
    rw [Handles.take_eq_none.mpr starved.full] at taken
    cases taken
  | free _ leaving =>
    have same : s.closeIdle = s := by
      unfold closeIdle
      rw [starved.lost]
    rw [same]
    exact ⟨⟨starved.lost, starved.full⟩, rfl, rfl⟩
  | gain _ _ n pc taken =>
    rw [Handles.take_eq_none.mpr starved.full] at taken
    cases taken
  | miss _ _ pc handles idleFd counts =>
    exact ⟨⟨idleFd, handles ▸ starved.full⟩, counts⟩
  | close n theirs => exact absurd rfl (kept n)

end AcceptorState

open AcceptorState in
/-- In every run of an acceptor beside other threads: of its own it has at most `idleFd_` open, and a
descriptor of somebody else stays open until its owner closes it. If nobody opens a descriptor while
the reserve is closed, the reserve is open again after every pass, and each pass after EMFILE closes
a connection that waits. If the reserve is lost and no descriptor is free, then no connection is
accepted or closed any more, until somebody closes a descriptor. -/
theorem acceptor_reserve {handles : Handles FdOwner} (fresh : ∀ n, handles.owner n ≠ some .idle)
    {s last : AcceptorState} {labels : List AcceptorStep} (made : AcceptorState.new handles = some s)
    (ran : acceptorMachine.run s labels = some last) :
    last.Tidy ∧
    (∀ n k, k ≠ .idle → last.handles.owner n = some k → ∀ later, .closeOther n ∉ later →
      acceptorMachine.Always (fun after => after.handles.owner n = some k) last later) ∧
    (acceptorMachine.Meets LeavesReserve s labels →
      (last.pc = .between → last.acceptor.idleFd ≠ none) ∧
      (last.pc = .accepting → last.waiting ≠ 0 →
        (acceptorMachine.step last .acceptIdle).map (·.discarded) = some (last.discarded + 1))) ∧
    (last.Starved → ∀ later, (∀ n, .closeOther n ∉ later) →
      acceptorMachine.Always last.SameCounts last later) := by
  -- The constructor leaves the table tidy, and every step of the acceptor or of others keeps it so.
  have start : s.Tidy := Tidy.start fresh made
  have tidy : last.Tidy := Machine.run_invariant
    (fun _ _ _ tidy stepped => Tidy.step tidy (effect_of_step stepped)) start ran
  refine ⟨tidy, fun n k foreign owned later kept => ?_, fun leaves => ?_,
    fun starved later kept => ?_⟩
  -- A foreign number: only its owner closes it, and the acceptor closes its own reserve alone.
  · refine @Machine.always_of_meets _ _ acceptorMachine
      (fun t => t.Tidy ∧ t.handles.owner n = some k) _ (fun _ label => label ≠ .closeOther n)
      (fun t label next both allowed stepped => ?_) (fun _ both => both.2) last later
      ⟨tidy, owned⟩ (Machine.meets_of_forall fun label member _ same => kept (same ▸ member))
    have effect := effect_of_step stepped
    exact ⟨both.1.step effect, both.1.owner_step effect foreign both.2 allowed⟩
  -- The reserve: while others leave a number where it was given up, it is there or can be got back.
  · have reservedAtStart : s.Reserved := by
      obtain ⟨⟨socket, first⟩, -, opened⟩ := Option.bind_eq_some_iff.mp made
      obtain ⟨⟨idleFd, both⟩, -, rfl⟩ := Option.map_eq_some_iff.mp opened
      simp [Reserved]
    have both := @Machine.run_invariant_of_meets _ _ acceptorMachine
      (fun t => t.Tidy ∧ t.Reserved) LeavesReserve
      (fun t label next both leaves stepped => by
        have effect := effect_of_step stepped
        exact ⟨both.1.step effect, both.2.step both.1 leaves effect⟩)
      s last labels ⟨start, reservedAtStart⟩ leaves ran
    refine ⟨fun here => ?_, fun here waits => both.2.discards here waits⟩
    have reserved := both.2
    unfold Reserved at reserved
    rwa [here] at reserved
  -- Starved: no number is free, and none becomes free while nobody closes one.
  · refine @Machine.always_of_meets _ _ acceptorMachine
      (fun t => t.Starved ∧ last.SameCounts t) _ (fun _ label => ∀ n, label ≠ .closeOther n)
      (fun t label next both allowed stepped => ?_) (fun _ both => both.2) last later
      ⟨starved, rfl, rfl⟩
      (Machine.meets_of_forall fun label member _ n same => kept n (same ▸ member))
    obtain ⟨still, accepted, discarded⟩ := both.1.step allowed (effect_of_step stepped)
    exact ⟨still, accepted.trans both.2.1, discarded.trans both.2.2⟩

/-- A process that may have three descriptors, and has none yet. -/
def threeDescriptors : Handles FdOwner where
  limit := 3
  owner _ := none
  within _ _ := rfl

/-- The acceptor takes two of three descriptors. -/
def acceptorOfTwo : AcceptorState := (AcceptorState.new threeDescriptors).get rfl

/-- Another thread takes the third descriptor, and later the one that the reserve gives up. -/
def reserveTaken : List AcceptorStep :=
  [.listen 7, .openOther, .arrive, .handleRead, .closeIdle, .openOther, .acceptIdle, .discardIdle,
    .reopenIdle]

/-- The acceptor has lost its reserve, and starves. -/
theorem acceptor_reserve_taken : ∃ last,
    acceptorMachine.run acceptorOfTwo reserveTaken = some last ∧ last.Starved ∧ last.Tidy ∧
    (∀ n k, k ≠ .idle → last.handles.owner n = some k → ∀ later, .closeOther n ∉ later →
      acceptorMachine.Always (fun after => after.handles.owner n = some k) last later) ∧
    (acceptorMachine.Meets AcceptorState.LeavesReserve acceptorOfTwo reserveTaken →
      (last.pc = .between → last.acceptor.idleFd ≠ none) ∧
      (last.pc = .accepting → last.waiting ≠ 0 →
        (acceptorMachine.step last .acceptIdle).map (·.discarded) = some (last.discarded + 1))) ∧
    (last.Starved → ∀ later, (∀ n, .closeOther n ∉ later) →
      acceptorMachine.Always last.SameCounts last later) := by
  -- No descriptor of the initial table is a reserve.
  refine ⟨_, rfl, ⟨rfl, rfl⟩, ?_⟩
  have fresh : ∀ n, threeDescriptors.owner n ≠ some .idle := fun _ => by simp [threeDescriptors]
  exact acceptor_reserve fresh (Option.some_get rfl).symm rfl

end EnhancedProxy

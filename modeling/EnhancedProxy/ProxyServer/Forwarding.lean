import EnhancedProxy.ProxyServer.CacheFirst

/-! Whether a task that takes its steps alone has served all its requests in the end. -/

namespace EnhancedProxy

namespace Connection

/-- The process has stopped, or the task has come to its end. -/
def Ended (conn : Connection) (i : Nat) : Prop :=
  conn.fault ≠ none ∨ (conn.tasks i).pc = .finished

/-- The task has created a tunnel that has not come up. -/
def Awaits (conn : Connection) (i : Nat) : Prop :=
  ((conn.tasks i).pc = .addTunnel ∨ (conn.tasks i).isCheck = true) ∧ conn.context = none

instance (conn : Connection) (i : Nat) : Decidable (conn.Awaits i) :=
  inferInstanceAs (Decidable (_ ∧ _))

/-- The client is connected, and its tunnel is established and in the map, or will come up once the
task has created it. -/
def CanForward (conn : Connection) (patience : Option Nat) : Prop :=
  conn.connected = true ∧
    (conn.context ≠ none ∧ (∃ k, conn.tunnelEntry = some (some k)) ∨
      conn.context = none ∧ patience ≠ none)

end Connection

/-- A connection, and how many steps the task goes on without the tunnel it has created. A web
server that never accepts has no such number. -/
structure Service where
  conn : Connection
  patience : Option Nat

/-- The connection, with the steps counted in which its task waits for a tunnel. -/
def serviceMachine (memory : RelayMemory) (assertions : Bool) (i : Nat) :
    Machine Service ConnectionStep where
  step service label :=
    ((connectionMachine memory assertions).step service.conn label).map fun conn =>
      { conn := conn
        patience :=
          if service.conn.Awaits i then service.patience.map (· - 1) else service.patience }

namespace Service

/-- The web server accepts the new tunnel in its time, and all other steps are the task's. -/
def turn (stored : Bytes → Bytes) (i : Nat) (service : Service) : ConnectionStep :=
  if service.conn.Awaits i ∧ service.patience = some 0 then
    .backendUp (service.conn.tasks i).tunnel
  else .work i (stored (service.conn.tasks i).context.requestUrl)

/-- In the end, the task has served the requests as designed. -/
def Completes (memory : RelayMemory) (assertions : Bool) (stored : Bytes → Bytes) (i : Nat)
    (requests : List Request) (service : Service) : Prop :=
  (serviceMachine memory assertions i).Comes (turn stored i)
    (fun last => last.conn.Ended i ∧ last.conn.ServedAsDesigned stored requests service.conn)
    service

end Service

/-- Where the assertion is compiled in, a request with others behind it is all of the live buffer,
and only one other is behind it. -/
def Spared (assertions : Bool) (buf : Bytes) (requests : List Request) : Prop :=
  assertions = true → ∀ r s rest, requests = r :: s :: rest → buf = r.render ∧ rest = []

/-- A request is forwarded as designed, the assertion does not keep those behind it from being
served, and these have their outcome. -/
def Passes (stored : Bytes → Bytes) (assertions : Bool) (buf : Bytes) (r : Request)
    (left : List Request) (outcome : Prop) : Prop :=
  Unanswerable stored r ∧ (assertions = true → left ≠ [] → buf = r.render) ∧ outcome

/-- Something is written for every request. -/
theorem render_ne_nil (r : Request) : r.render ≠ [] := by
  -- There is at least the line end behind the request line.
  simp [Request.render, Request.head, Request.requestLine]

/-- A request passes before others that are spared exactly if all are. -/
theorem passes_iff {stored : Bytes → Bytes} {assertions : Bool} {buf : Bytes} {r : Request}
    {left : List Request} :
    Passes stored assertions buf r left
        ((∀ s ∈ left, Unanswerable stored s) ∧
          Spared assertions (buf.drop r.render.length) left) ↔
      (∀ s ∈ r :: left, Unanswerable stored s) ∧ Spared assertions buf (r :: left) := by
  rw [List.forall_mem_cons, Passes, Spared, Spared]
  constructor
  · rintro ⟨first, whole, others, spared⟩
    refine ⟨⟨first, others⟩, fun compiled one two rest same => ?_⟩
    obtain ⟨rfl, rfl⟩ := List.cons.inj same
    have all := whole compiled (List.cons_ne_nil _ _)
    refine ⟨all, ?_⟩
    cases rest with
    | nil => rfl
    | cons three rest =>
      -- Nothing of the live buffer is left for the second request.
      have empty := (spared compiled two three rest rfl).1
      rw [all, List.drop_length] at empty
      exact absurd empty.symm (render_ne_nil two)
  · rintro ⟨⟨first, others⟩, spared⟩
    refine ⟨first, fun compiled more => ?_, others, fun compiled one two rest same => ?_⟩
    · obtain ⟨two, rest, rfl⟩ := List.exists_cons_of_ne_nil more
      exact (spared compiled r two rest rfl).1
    · -- There are too many requests.
      rw [same] at spared
      cases (spared compiled r one (two :: rest) rfl).2

section Steps

variable {memory : RelayMemory} {assertions : Bool} {stored : Bytes → Bytes} {i : Nat}
  {requests left : List Request} {service : Service} {conn next : Connection}
  {patience : Option Nat} {r : Request} {entry : Handled}

variable (memory assertions stored i)

/-- What is handled is not taken back. -/
theorem Service.handled_drive (service : Service) :
    ∃ more, ((serviceMachine memory assertions i).drive (turn stored i) service).conn.handled =
      service.conn.handled ++ more := by
  -- Where the turn is refused nothing is handled, and else one step is taken.
  unfold Machine.drive
  cases stepped : (serviceMachine memory assertions i).step service (turn stored i service) with
  | none => exact ⟨[], (List.append_nil _).symm⟩
  | some next =>
    obtain ⟨conn, moved, rfl⟩ := Option.map_eq_some_iff.mp stepped
    exact handled_grows moved

/-- After the end, nothing is handled any more. -/
theorem Service.ended_drive (ended : service.conn.Ended i) :
    let next := (serviceMachine memory assertions i).drive (turn stored i) service
    next.conn.Ended i ∧ next.conn.handled = service.conn.handled := by
  unfold Machine.drive
  cases stepped : (serviceMachine memory assertions i).step service (turn stored i service) with
  | none => exact ⟨ended, rfl⟩
  | some next =>
    obtain ⟨conn, moved, rfl⟩ := Option.map_eq_some_iff.mp stepped
    have finished := ended.resolve_left (not_not.mpr (Connection.running_of_step moved))
    -- A task at its end takes no step, so the tunnel has come up.
    unfold turn at moved
    split at moved
    · obtain ⟨step, event, same⟩ := Connection.streamEvent_of_step moved
      cases event
      exact ⟨.inr ((congrArg (fun tasks => (tasks i).pc) same.tasks).trans finished), same.handled⟩
    · have worked := Connection.work_of_step moved
      simp [Connection.work, finished] at worked

variable {memory assertions stored i}

/-- A service that has ended leaves no request unserved only if there was none. -/
theorem Service.completes_ended (ended : service.conn.Ended i) :
    service.Completes memory assertions stored i requests ↔ requests = [] := by
  constructor
  · rintro ⟨n, -, handled, grown, designed⟩
    -- The history stays as it is.
    have kept : ∀ last : Service, last.conn.Ended i ∧ last.conn.handled = service.conn.handled →
        let next := (serviceMachine memory assertions i).drive (turn stored i) last
        next.conn.Ended i ∧ next.conn.handled = service.conn.handled := by
      rintro last ⟨past, same⟩
      obtain ⟨pastNext, sameNext⟩ := ended_drive memory assertions stored i past
      exact ⟨pastNext, sameNext.trans same⟩
    rw [(Machine.drive_invariant kept ⟨ended, rfl⟩ n).2, List.self_eq_append_right] at grown
    subst grown
    cases designed
    rfl
  · rintro rfl
    exact ⟨0, ended, [], (List.append_nil _).symm, .nil⟩

/-- A service that has ended is as complete one step before its end. -/
theorem Service.completes_drive :
    (serviceMachine memory assertions i).Comes (turn stored i)
        (fun last => last.conn.Ended i ∧ last.conn.ServedAsDesigned stored requests service.conn)
        ((serviceMachine memory assertions i).drive (turn stored i) service) ↔
      service.Completes memory assertions stored i requests := by
  -- After the end no turn is taken, so the journal stays as it was then.
  refine Machine.comes_drive fun last both => ?_
  obtain ⟨ended, same⟩ := ended_drive memory assertions stored i both.1
  obtain ⟨handled, grown, designed⟩ := both.2
  exact ⟨ended, handled, same.trans grown, designed⟩

/-- A step of a task that does not wait takes the service further. -/
theorem Service.drive_of_work (running : conn.fault = none)
    (ready : ¬ (conn.Awaits i ∧ patience = some 0))
    (worked : conn.work assertions i (stored (conn.tasks i).context.requestUrl) = some next) :
    (serviceMachine memory assertions i).drive (turn stored i) ⟨conn, patience⟩ =
      ⟨next, if conn.Awaits i then patience.map (· - 1) else patience⟩ := by
  -- The call is not waiting with its patience at an end, so the turn is its own.
  apply Machine.drive_of_step
  have own : turn stored i ⟨conn, patience⟩ =
      .work i (stored (conn.tasks i).context.requestUrl) := if_neg ready
  rw [own]
  simp [serviceMachine, connectionMachine, running, worked]

/-- A step that handles nothing changes nothing about what is served in the end. -/
theorem Service.completes_of_work (running : conn.fault = none)
    (ready : ¬ (conn.Awaits i ∧ patience = some 0))
    (worked : conn.work assertions i (stored (conn.tasks i).context.requestUrl) = some next)
    (unsent : next.handled = conn.handled) :
    Completes memory assertions stored i requests ⟨conn, patience⟩ ↔
      Completes memory assertions stored i requests
        ⟨next, if conn.Awaits i then patience.map (· - 1) else patience⟩ := by
  -- One turn earlier or later the service comes to the same end.
  rw [← completes_drive, drive_of_work running ready worked, Completes]
  simp only [Connection.ServedAsDesigned, unsent]

/-- Where the tunnel is there, no step waits for it. -/
theorem Service.completes_of_step (running : conn.fault = none) (ready : ¬ conn.Awaits i)
    (worked : conn.work assertions i (stored (conn.tasks i).context.requestUrl) = some next)
    (unsent : next.handled = conn.handled) :
    Completes memory assertions stored i requests ⟨conn, patience⟩ ↔
      Completes memory assertions stored i requests ⟨next, patience⟩ := by
  rw [completes_of_work running (fun both => ready both.1) worked unsent, if_neg ready]

/-- A step that handles a request must do so as designed, and the others remain to be served. -/
theorem Service.completes_of_handled (running : conn.fault = none) (ready : ¬ conn.Awaits i)
    (worked : conn.work assertions i (stored (conn.tasks i).context.requestUrl) = some next)
    (handled : next.handled = conn.handled ++ [entry]) :
    Completes memory assertions stored i (r :: left) ⟨conn, patience⟩ ↔
      AsDesigned stored r entry ∧ Completes memory assertions stored i left ⟨next, patience⟩ := by
  rw [← completes_drive, drive_of_work running (fun both => ready both.1) worked, if_neg ready]
  -- Whatever follows, the entry is the first one of the run.
  have grows : ∀ last : Service, (∃ more, last.conn.handled = next.handled ++ more) →
      (last.conn.ServedAsDesigned stored (r :: left) conn ↔
        AsDesigned stored r entry ∧ last.conn.ServedAsDesigned stored left next) := by
    rintro last ⟨more, grown⟩
    simp only [Connection.ServedAsDesigned, grown, handled, List.append_assoc,
      List.append_cancel_left_eq, List.singleton_append, exists_eq_left', List.forall₂_cons,
      List.cons.injEq, true_and]
  have kept : ∀ last : Service, (∃ more, last.conn.handled = next.handled ++ more) →
      ∃ more, ((serviceMachine memory assertions i).drive (turn stored i) last).conn.handled =
        next.handled ++ more := by
    rintro last ⟨more, grown⟩
    obtain ⟨further, later⟩ := handled_drive memory assertions stored i last
    exact ⟨more ++ further, by rw [later, grown, List.append_assoc]⟩
  have start : ∃ more, next.handled = next.handled ++ more := ⟨[], (List.append_nil _).symm⟩
  rw [Machine.comes_congr kept (fun last grown => and_congr_right fun _ => grows last grown) start]
  constructor
  · rintro ⟨n, ended, designed, served⟩
    exact ⟨designed, n, ended, served⟩
  · rintro ⟨designed, n, ended, served⟩
    exact ⟨n, ended, designed, served⟩

/-- A step after which the service has ended. -/
theorem Service.completes_of_last (running : conn.fault = none) (ready : ¬ conn.Awaits i)
    (worked : conn.work assertions i (stored (conn.tasks i).context.requestUrl) = some next)
    (unsent : next.handled = conn.handled) (ended : next.Ended i) :
    Completes memory assertions stored i requests ⟨conn, patience⟩ ↔ requests = [] :=
  (completes_of_step running ready worked unsent).trans (completes_ended ended)

end Steps

/-- A task that is done with a request, and goes on with those that are left. -/
structure Connection.Rests (conn : Connection) (i : Nat) (left : List Request)
    (trailing buf : Bytes) : Prop where
  running : conn.fault = none
  live : conn.buf = buf
  here : (conn.tasks i).pc = .loopHead
  unchecked : (conn.tasks i).isCheck = false
  buff : (conn.tasks i).buff = pipelined left trailing
  empty : (conn.tasks i).context.requestMethod = [] ∧ (conn.tasks i).context.requestUrl = []

/-- A task that has parsed its first request. -/
structure Connection.Carries (conn : Connection) (i : Nat) (r : Request) (left : List Request)
    (trailing buf : Bytes) : Prop where
  running : conn.fault = none
  connected : conn.connected = true
  live : conn.buf = buf
  buff : (conn.tasks i).buff = pipelined (r :: left) trailing
  info : (conn.tasks i).info = (true, toInt32 r.render.length)
  method : (conn.tasks i).context.requestMethod = r.method
  url : (conn.tasks i).context.requestUrl = r.url

/-- The requests that are left have their outcome once the first is done over its tunnel. -/
structure LeftOutcome (memory : RelayMemory) (assertions : Bool) (stored : Bytes → Bytes) (i : Nat)
    (left : List Request) (trailing buf : Bytes) (outcome : Prop) : Prop where
  nothing : left = [] → outcome
  served : ∀ (next : Connection) (patience : Option Nat), next.Rests i left trailing buf →
    next.connected = true → next.context ≠ none → (∃ k, next.tunnelEntry = some (some k)) →
    (Service.Completes memory assertions stored i left ⟨next, patience⟩ ↔ outcome)

namespace Connection.Carries

variable {memory : RelayMemory} {assertions : Bool} {stored : Bytes → Bytes} {i : Nat}
  {left : List Request} {conn next : Connection} {patience : Option Nat} {r : Request}
  {trailing buf : Bytes} {outcome : Prop}

/-- A task with the same request carries it on. -/
theorem move (carries : conn.Carries i r left trailing buf) (fault : next.fault = conn.fault)
    (connected : next.connected = conn.connected) (live : next.buf = conn.buf) {task : Task}
    (own : next.tasks i = task) (buff : task.buff = (conn.tasks i).buff)
    (info : task.info = (conn.tasks i).info) (context : task.context = (conn.tasks i).context) :
    next.Carries i r left trailing buf := by
  -- Each field speaks of a part that the step leaves as it was.
  refine ⟨?_, ?_, ?_, ?_, ?_, ?_, ?_⟩
  · rw [fault, carries.running]
  · rw [connected, carries.connected]
  · rw [live, carries.live]
  · rw [own, buff, carries.buff]
  · rw [own, info, carries.info]
  · rw [own, context, carries.method]
  · rw [own, context, carries.url]

/-- So does a task that takes its place. -/
theorem set (carries : conn.Carries i r left trailing buf) {task : Task}
    (buff : task.buff = (conn.tasks i).buff) (info : task.info = (conn.tasks i).info)
    (context : task.context = (conn.tasks i).context) :
    (conn.set i task).Carries i r left trailing buf :=
  carries.move rfl rfl rfl Connection.set_own buff info context

/-- The request that was sent is taken off both buffers, unless the assertion stops the process. -/
theorem dropForwarded_iff (carries : conn.Carries i r left trailing buf)
    (here : (conn.tasks i).pc = .dropForwarded) (copied : (conn.tasks i).http = buf)
    (small : r.render.length < 2 ^ 31) (context : conn.context ≠ none)
    (entry : ∃ k, conn.tunnelEntry = some (some k))
    (rest : LeftOutcome memory assertions stored i left trailing (buf.drop r.render.length)
      outcome) :
    Service.Completes memory assertions stored i left ⟨conn, patience⟩ ↔
      (assertions = true → left ≠ [] → buf = r.render) ∧ outcome := by
  have ready : ¬ conn.Awaits i := fun awaits => context awaits.2
  have length : (conn.tasks i).info.2 = (r.render.length : Int) := by
    rw [carries.info, toInt32_of_lt small]
  have request : (conn.tasks i).request = r.render := by
    rw [Task.request, length, carries.buff, Int.toNat_natCast, take_pipelined]
  have worked : conn.work assertions i (stored (conn.tasks i).context.requestUrl) =
      some (conn.dropForwarded assertions i) := by simp only [Connection.work, here]
  by_cases fails : assertions = true ∧ buf ≠ r.render
  · -- The process stops, which is too early if anything is left.
    have stopped : conn.dropForwarded assertions i =
        ((conn.retrieve (toUnsigned64 (conn.tasks i).info.2)).set i (conn.tasks i).drop).fail
          .assertion := by
      simp only [Connection.dropForwarded, copied, request]
      exact if_pos fails
    rw [stopped] at worked
    rw [Service.completes_of_last carries.running ready worked rfl (.inl (Option.some_ne_none _))]
    constructor
    · intro none_
      exact ⟨fun _ more => absurd none_ more, rest.nothing none_⟩
    · intro both
      by_contra more
      exact fails.2 (both.1 fails.1 more)
  · -- The task is at the loop's condition again.
    have goesOn : conn.dropForwarded assertions i =
        (conn.retrieve (toUnsigned64 (conn.tasks i).info.2)).set i (conn.tasks i).drop := by
      simp only [Connection.dropForwarded, copied, request]
      exact if_neg fails
    rw [goesOn] at worked
    rw [Service.completes_of_step carries.running ready worked rfl]
    have whole : assertions = true → left ≠ [] → buf = r.render := fun compiled _ => by
      by_contra differs
      exact fails ⟨compiled, differs⟩
    rw [and_iff_right whole]
    refine rest.served _ _ ⟨carries.running, ?_, ?_, ?_, ?_, ?_⟩ carries.connected context entry
    · show conn.buf.drop (toUnsigned64 (conn.tasks i).info.2) = _
      rw [carries.live, length, toUnsigned64_of_lt (by omega)]
    all_goals rw [set_own]
    · rfl
    · rfl
    · rw [Task.drop, length, carries.buff]
      exact drop_pipelined r left trailing
    · exact ⟨rfl, rfl⟩

/-- The live buffer is copied before the request is taken off. -/
theorem copyBuffer_iff (carries : conn.Carries i r left trailing buf)
    (here : (conn.tasks i).pc = .copyBuffer) (small : r.render.length < 2 ^ 31)
    (context : conn.context ≠ none) (entry : ∃ k, conn.tunnelEntry = some (some k))
    (rest : LeftOutcome memory assertions stored i left trailing (buf.drop r.render.length)
      outcome) :
    Service.Completes memory assertions stored i left ⟨conn, patience⟩ ↔
      (assertions = true → left ≠ [] → buf = r.render) ∧ outcome := by
  -- The copy is of the live buffer, so the assertion that follows compares it with this request.
  have worked : conn.work assertions i (stored (conn.tasks i).context.requestUrl) =
      some (conn.set i { conn.tasks i with http := conn.buf, pc := .dropForwarded }) := by
    simp only [Connection.work, here]
  have moved : (conn.set i { conn.tasks i with http := conn.buf, pc := .dropForwarded }).Carries
      i r left trailing buf := carries.set rfl rfl rfl
  rw [Service.completes_of_step carries.running (fun awaits => context awaits.2) worked rfl]
  refine moved.dropForwarded_iff ?_ ?_ small context entry rest
  · rw [set_own]
  · rw [set_own]
    exact carries.live

/-- The request is sent to the backend connection that is in the context, or its length is no
length. -/
theorem send_iff (carries : conn.Carries i r left trailing buf) (here : (conn.tasks i).pc = .send)
    (same : conn.context = some (conn.tasks i).clientConn)
    (entry : ∃ k, conn.tunnelEntry = some (some k))
    (rest : LeftOutcome memory assertions stored i left trailing (buf.drop r.render.length)
      outcome) :
    Service.Completes memory assertions stored i (r :: left) ⟨conn, patience⟩ ↔
      Passes stored assertions buf r left outcome := by
  have context : conn.context ≠ none := by
    rw [same]
    exact Option.some_ne_none _
  have ready : ¬ conn.Awaits i := fun awaits => context awaits.2
  have worked : conn.work assertions i (stored (conn.tasks i).context.requestUrl) =
      some (conn.send i) := by simp only [Connection.work, here]
  have length : (conn.tasks i).info.2 = toInt32 r.render.length := by rw [carries.info]
  by_cases negative : (conn.tasks i).info.2 < 0
  · -- Nothing is sent, and the request is too long.
    have stopped : conn.send i = conn.fail .badRange := by
      rw [Connection.send, if_neg (not_not.mpr same), if_pos negative]
    rw [stopped] at worked
    rw [Service.completes_of_last carries.running ready worked rfl (.inl (Option.some_ne_none _))]
    refine iff_of_false (List.cons_ne_nil _ _) fun passes => ?_
    rw [length, toInt32_of_lt passes.1.2] at negative
    omega
  · have sent : conn.send i =
        { conn.set i { conn.tasks i with pc := .copyBuffer } with
          handled := conn.handled ++ [.forwarded (conn.tasks i).clientConn
            (conn.tasks i).context.requestUrl (conn.tasks i).request] } := by
      rw [Connection.send, if_neg (not_not.mpr same), if_neg negative]
    have verdict := asDesigned_forwarded stored r left trailing (conn.tasks i).clientConn length
      (Int.not_lt.mp negative)
    rw [← carries.buff, ← carries.url] at verdict
    have own : (conn.send i).tasks i = { conn.tasks i with pc := .copyBuffer } := by
      rw [sent]
      exact set_own
    have moved : (conn.send i).Carries i r left trailing buf := by
      refine carries.move ?_ ?_ ?_ own rfl rfl rfl
      all_goals rw [sent]; rfl
    have handled : (conn.send i).handled = _ := congrArg Connection.handled sent
    rw [Service.completes_of_handled carries.running ready worked handled, Task.request, verdict,
      Passes]
    -- The others follow if this one was forwarded as designed.
    refine and_congr_right fun unanswerable => ?_
    refine moved.copyBuffer_iff (by rw [own]) unanswerable.2 ?_ ?_ rest
    · rw [sent]
      exact context
    · rw [sent]
      exact entry

/-- The url is pushed onto the queue of the tunnel that is in the map, which must be there. -/
theorem push_iff (carries : conn.Carries i r left trailing buf) (here : (conn.tasks i).pc = .push)
    (same : conn.context = some (conn.tasks i).clientConn)
    (rest : LeftOutcome memory assertions stored i left trailing (buf.drop r.render.length)
      outcome) :
    Service.Completes memory assertions stored i (r :: left) ⟨conn, patience⟩ ↔
      (∃ k, conn.tunnelEntry = some (some k)) ∧ Passes stored assertions buf r left outcome := by
  have ready : ¬ conn.Awaits i := fun awaits =>
    Option.some_ne_none _ (same.symm.trans awaits.2)
  have worked : conn.work assertions i (stored (conn.tasks i).context.requestUrl) =
      some (conn.push i) := by simp only [Connection.work, here]
  by_cases found : ∃ k, conn.tunnelEntry = some (some k)
  · rw [and_iff_right found]
    obtain ⟨k, entry⟩ := found
    have pushed : (conn.push i).tasks i = { conn.tasks i with pc := .send } := by
      simp only [Connection.push, entry]
      exact set_own
    have kept : (conn.push i).handled = conn.handled ∧ (conn.push i).fault = conn.fault ∧
        (conn.push i).connected = conn.connected ∧ (conn.push i).buf = conn.buf ∧
        (conn.push i).context = conn.context ∧
        (conn.push i).tunnelEntry = conn.tunnelEntry := by
      simp only [Connection.push, entry]
      exact ⟨rfl, rfl, rfl, rfl, rfl, entry⟩
    obtain ⟨handled, fault, connected, live, context, entryKept⟩ := kept
    rw [Service.completes_of_step carries.running ready worked handled]
    refine (carries.move fault connected live pushed rfl rfl rfl).send_iff ?_ ?_ ?_ rest
    · rw [pushed]
    · rw [context, pushed, same]
    · exact ⟨k, entryKept.trans entry⟩
  · -- A null pointer is made for the missing tunnel.
    have stopped : conn.push i = { conn with tunnelEntry := some none }.fail .nullTunnel := by
      unfold Connection.push
      split
      · rename_i k entry
        exact absurd ⟨k, entry⟩ found
      · rfl
    rw [stopped] at worked
    rw [Service.completes_of_last carries.running ready worked rfl (.inl (Option.some_ne_none _))]
    exact iff_of_false (List.cons_ne_nil _ _) fun both => found both.1

/-- The backend connection is taken from the context. -/
theorem castContext_iff (carries : conn.Carries i r left trailing buf)
    (here : (conn.tasks i).pc = .castContext) (context : conn.context ≠ none)
    (rest : LeftOutcome memory assertions stored i left trailing (buf.drop r.render.length)
      outcome) :
    Service.Completes memory assertions stored i (r :: left) ⟨conn, patience⟩ ↔
      (∃ k, conn.tunnelEntry = some (some k)) ∧ Passes stored assertions buf r left outcome := by
  -- The context is set, so the cast yields the backend's connection.
  obtain ⟨k, linked⟩ := Option.ne_none_iff_exists'.mp context
  have worked : conn.work assertions i (stored (conn.tasks i).context.requestUrl) =
      some (conn.set i { conn.tasks i with clientConn := k, pc := .push }) := by
    simp only [Connection.work, here, linked]
  have moved : (conn.set i { conn.tasks i with clientConn := k, pc := .push }).Carries i r left
      trailing buf := carries.set rfl rfl rfl
  rw [Service.completes_of_step carries.running (fun awaits => context awaits.2) worked rfl]
  refine moved.push_iff ?_ ?_ rest
  · rw [set_own]
  · rw [set_own]
    exact linked

/-- The context is found not to be empty. -/
theorem checkContext_iff (carries : conn.Carries i r left trailing buf)
    (here : (conn.tasks i).pc = .checkContext) (context : conn.context ≠ none)
    (rest : LeftOutcome memory assertions stored i left trailing (buf.drop r.render.length)
      outcome) :
    Service.Completes memory assertions stored i (r :: left) ⟨conn, patience⟩ ↔
      (∃ k, conn.tunnelEntry = some (some k)) ∧ Passes stored assertions buf r left outcome := by
  -- The context is set, so the call does not go back to wait.
  have worked : conn.work assertions i (stored (conn.tasks i).context.requestUrl) =
      some (conn.set i { conn.tasks i with pc := .castContext }) := by
    simp only [Connection.work, here, if_neg context]
  have moved : (conn.set i { conn.tasks i with pc := .castContext }).Carries i r left trailing
      buf := carries.set rfl rfl rfl
  rw [Service.completes_of_step carries.running (fun awaits => context awaits.2) worked rfl]
  exact moved.castContext_iff (by rw [set_own]) context rest

/-- No tunnel is created for a context that is not empty. -/
theorem checkTunnel_iff (carries : conn.Carries i r left trailing buf)
    (here : (conn.tasks i).pc = .checkTunnel) (context : conn.context ≠ none)
    (rest : LeftOutcome memory assertions stored i left trailing (buf.drop r.render.length)
      outcome) :
    Service.Completes memory assertions stored i (r :: left) ⟨conn, patience⟩ ↔
      (∃ k, conn.tunnelEntry = some (some k)) ∧ Passes stored assertions buf r left outcome := by
  -- With the context set, the tunnel is taken to be up.
  have worked : conn.work assertions i (stored (conn.tasks i).context.requestUrl) =
      some (conn.set i { conn.tasks i with pc := .checkContext }) := by
    simp [Connection.work, here, Connection.checkTunnel, context]
  have moved : (conn.set i { conn.tasks i with pc := .checkContext }).Carries i r left trailing
      buf := carries.set rfl rfl rfl
  rw [Service.completes_of_step carries.running (fun awaits => context awaits.2) worked rfl]
  exact moved.checkContext_iff (by rw [set_own]) context rest

/-- The method is not the one that is looked up. -/
theorem readCache_worked (carries : conn.Carries i r left trailing buf)
    (here : (conn.tasks i).pc = .readCache) (upperCase : UpperCase r.method) (content : Bytes) :
    conn.work assertions i content = some (conn.set i { conn.tasks i with pc := .checkTunnel }) := by
  simp [Connection.work, here, Task.readCache, carries.method, upperCase.ne_getMethod]

/-- A request is looked up only if its method is spelled otherwise. -/
theorem readCache_iff (carries : conn.Carries i r left trailing buf)
    (here : (conn.tasks i).pc = .readCache) (upperCase : UpperCase r.method)
    (context : conn.context ≠ none)
    (rest : LeftOutcome memory assertions stored i left trailing (buf.drop r.render.length)
      outcome) :
    Service.Completes memory assertions stored i (r :: left) ⟨conn, patience⟩ ↔
      (∃ k, conn.tunnelEntry = some (some k)) ∧ Passes stored assertions buf r left outcome := by
  -- An upper-case method is not `Get`, so the cache is passed over.
  have moved : (conn.set i { conn.tasks i with pc := .checkTunnel }).Carries i r left trailing
      buf := carries.set rfl rfl rfl
  rw [Service.completes_of_step carries.running (fun awaits => context awaits.2)
    (carries.readCache_worked here upperCase _) rfl]
  exact moved.checkTunnel_iff (by rw [set_own]) context rest

/-- A task with its tunnel created enters the loop without parsing again. -/
theorem loopHead_iff (carries : conn.Carries i r left trailing buf)
    (here : (conn.tasks i).pc = .loopHead) (created : (conn.tasks i).isCheck = true)
    (upperCase : UpperCase r.method) (context : conn.context ≠ none)
    (rest : LeftOutcome memory assertions stored i left trailing (buf.drop r.render.length)
      outcome) :
    Service.Completes memory assertions stored i (r :: left) ⟨conn, patience⟩ ↔
      (∃ k, conn.tunnelEntry = some (some k)) ∧ Passes stored assertions buf r left outcome := by
  -- The tunnel is checked already, so the request in hand is tried again.
  have worked : conn.work assertions i (stored (conn.tasks i).context.requestUrl) =
      some (conn.set i { conn.tasks i with pc := .readCache }) := by
    simp [Connection.work, here, Task.loopHead, created]
  have moved : (conn.set i { conn.tasks i with pc := .readCache }).Carries i r left trailing
      buf := carries.set rfl rfl rfl
  rw [Service.completes_of_step carries.running (fun awaits => context awaits.2) worked rfl]
  exact moved.readCache_iff (by rw [set_own]) upperCase context rest

/-- The tunnel that is added is in the map. -/
theorem addTunnel_iff (carries : conn.Carries i r left trailing buf)
    (here : (conn.tasks i).pc = .addTunnel) (upperCase : UpperCase r.method)
    (context : conn.context ≠ none)
    (rest : LeftOutcome memory assertions stored i left trailing (buf.drop r.render.length)
      outcome) :
    Service.Completes memory assertions stored i (r :: left) ⟨conn, patience⟩ ↔
      Passes stored assertions buf r left outcome := by
  -- The entry is put into the map here, so the push will find it.
  have worked : conn.work assertions i (stored (conn.tasks i).context.requestUrl) =
      some (conn.addTunnel i) := by simp only [Connection.work, here]
  have own : (conn.addTunnel i).tasks i = { conn.tasks i with isCheck := true, pc := .loopHead } :=
    set_own
  have moved : (conn.addTunnel i).Carries i r left trailing buf :=
    carries.move rfl rfl rfl own rfl rfl rfl
  rw [Service.completes_of_step carries.running (fun awaits => context awaits.2) worked rfl,
    moved.loopHead_iff (by rw [own]) (by rw [own]) upperCase context rest]
  exact and_iff_right ⟨_, rfl⟩

end Connection.Carries

/-- A task whose tunnel has not come up, between its creation and the test of the context. -/
structure Connection.Waiting (conn : Connection) (i : Nat) : Prop where
  context : conn.context = none
  created : (conn.tasks i).tunnel < conn.tunnelCount
  place : (conn.tasks i).pc = .addTunnel ∨
    (conn.tasks i).isCheck = true ∧ (∃ k, conn.tunnelEntry = some (some k)) ∧
      ((conn.tasks i).pc = .loopHead ∨ (conn.tasks i).pc = .readCache ∨
        (conn.tasks i).pc = .checkTunnel ∨ (conn.tasks i).pc = .checkContext)

namespace Connection.Waiting

variable {memory : RelayMemory} {assertions : Bool} {stored : Bytes → Bytes} {i : Nat}
  {left : List Request} {conn : Connection} {r : Request} {content trailing buf : Bytes}
  {outcome : Prop}

/-- The web server has accepted, and the task goes on from where it is. -/
theorem accepted_iff {patience : Option Nat} (waiting : conn.Waiting i)
    (carries : conn.Carries i r left trailing buf) (upperCase : UpperCase r.method)
    (rest : LeftOutcome memory assertions stored i left trailing (buf.drop r.render.length)
      outcome) (k : Nat) :
    Service.Completes memory assertions stored i (r :: left)
        ⟨{ conn with context := some k }, patience⟩ ↔
      Passes stored assertions buf r left outcome := by
  have moved : ({ conn with context := some k } : Connection).Carries i r left trailing buf :=
    carries.move rfl rfl rfl rfl rfl rfl rfl
  have context : ({ conn with context := some k } : Connection).context ≠ none :=
    Option.some_ne_none k
  -- Behind the place where the tunnel is added, it is in the map.
  rcases waiting.place with here | ⟨created, entry, here | here | here | here⟩
  · exact moved.addTunnel_iff here upperCase context rest
  · exact (moved.loopHead_iff here created upperCase context rest).trans (and_iff_right entry)
  · exact (moved.readCache_iff here upperCase context rest).trans (and_iff_right entry)
  · exact (moved.checkTunnel_iff here context rest).trans (and_iff_right entry)
  · exact (moved.checkContext_iff here context rest).trans (and_iff_right entry)

/-- A task that waits goes round its loop. -/
theorem work (waiting : conn.Waiting i) (carries : conn.Carries i r left trailing buf)
    (upperCase : UpperCase r.method) (assertions : Bool) (content : Bytes) :
    ∃ next, conn.work assertions i content = some next ∧ next.handled = conn.handled ∧
      next.Carries i r left trailing buf ∧ next.Waiting i := by
  have own {task : Task} : (conn.set i task).tasks i = task := Connection.set_own
  have context := waiting.context
  rcases waiting.place with here | ⟨created, entry, place⟩
  · refine ⟨conn.addTunnel i, by simp only [Connection.work, here], rfl,
      carries.move rfl rfl rfl own rfl rfl rfl, context, ?_, .inr ⟨?_, ⟨_, rfl⟩, .inl ?_⟩⟩
    · show ((conn.set i _).tasks i).tunnel < conn.tunnelCount
      rw [own]
      exact waiting.created
    · exact congrArg Task.isCheck own
    · exact congrArg Task.pc own
  · -- Only the place changes.
    have moves (pc : TaskPc)
        (round : pc = .loopHead ∨ pc = .readCache ∨ pc = .checkTunnel ∨ pc = .checkContext)
        (worked : conn.work assertions i content =
          some (conn.set i { conn.tasks i with pc := pc })) :
        ∃ next, conn.work assertions i content = some next ∧ next.handled = conn.handled ∧
          next.Carries i r left trailing buf ∧ next.Waiting i := by
      refine ⟨_, worked, rfl, carries.set rfl rfl rfl, context, ?_, .inr ⟨?_, entry, ?_⟩⟩
      all_goals rw [own]
      · exact waiting.created
      · exact created
      · exact round
    rcases place with here | here | here | here
    · exact moves .readCache (by simp) (by simp [Connection.work, here, Task.loopHead, created])
    · exact moves .checkTunnel (by simp) (carries.readCache_worked here upperCase content)
    · exact moves .checkContext (by simp)
        (by simp [Connection.work, here, Connection.checkTunnel, created])
    · exact moves .loopHead (by simp) (by simp [Connection.work, here, context])

/-- A task that waits has its tunnel in mind. -/
theorem awaits (waiting : conn.Waiting i) : conn.Awaits i :=
  ⟨waiting.place.imp id And.left, waiting.context⟩

/-- Once the web server accepts, however late, the request is forwarded. -/
theorem completes_iff (waiting : conn.Waiting i) (carries : conn.Carries i r left trailing buf)
    (upperCase : UpperCase r.method)
    (rest : LeftOutcome memory assertions stored i left trailing (buf.drop r.render.length)
      outcome) (steps : Nat) :
    Service.Completes memory assertions stored i (r :: left) ⟨conn, some steps⟩ ↔
      Passes stored assertions buf r left outcome := by
  -- The induction is on the steps until then.
  induction steps generalizing conn with
  | zero =>
    have accepted : (serviceMachine memory assertions i).drive (Service.turn stored i)
        ⟨conn, some 0⟩ = ⟨{ conn with context := some (conn.tasks i).tunnel }, some 0⟩ := by
      apply Machine.drive_of_step
      have own : Service.turn stored i ⟨conn, some 0⟩ = .backendUp (conn.tasks i).tunnel :=
        if_pos ⟨waiting.awaits, rfl⟩
      rw [own]
      simp [serviceMachine, connectionMachine, carries.running, waiting.created]
    rw [← Service.completes_drive, accepted]
    exact waiting.accepted_iff carries upperCase rest _
  | succ steps ih =>
    obtain ⟨next, worked, unsent, carriesNext, waitingNext⟩ :=
      waiting.work carries upperCase assertions (stored (conn.tasks i).context.requestUrl)
    rw [Service.completes_of_work carries.running (fun both => by cases both.2) worked unsent,
      if_pos waiting.awaits]
    exact ih waitingNext carriesNext

/-- Where the web server never accepts, the task never comes to its end. -/
theorem not_completes (waiting : conn.Waiting i) (carries : conn.Carries i r left trailing buf)
    (upperCase : UpperCase r.method) (requests : List Request) :
    ¬ Service.Completes memory assertions stored i requests ⟨conn, none⟩ := by
  -- It goes round its loop.
  have kept : ∀ service : Service, (service.patience = none ∧ service.conn.Waiting i ∧
      service.conn.Carries i r left trailing buf) →
      let next := (serviceMachine memory assertions i).drive (Service.turn stored i) service
      next.patience = none ∧ next.conn.Waiting i ∧
        next.conn.Carries i r left trailing buf := by
    rintro ⟨conn, patience⟩ ⟨rfl, waiting, carries⟩
    obtain ⟨next, worked, -, carriesNext, waitingNext⟩ :=
      waiting.work carries upperCase assertions (stored (conn.tasks i).context.requestUrl)
    rw [Service.drive_of_work carries.running (fun both => by cases both.2) worked,
      if_pos waiting.awaits]
    exact ⟨rfl, waitingNext, carriesNext⟩
  refine Machine.not_comes kept ?_ ⟨rfl, waiting, carries⟩
  -- There, neither the process nor the task has come to its end.
  rintro last ⟨-, waiting, carries⟩ ⟨ended, -⟩
  have finished := ended.resolve_left (not_not.mpr carries.running)
  have place := waiting.place
  simp [finished] at place

end Connection.Waiting

section Total

variable {memory : RelayMemory} {assertions : Bool} {stored : Bytes → Bytes} {i : Nat}
  {requests left : List Request} {conn : Connection} {patience : Option Nat} {r : Request}
  {trailing buf : Bytes} {outcome : Prop}

/-- The condition of the loop does not change whether a tunnel was created. -/
theorem Task.loopHead_isCheck (task : Task) (connected : Bool) :
    (task.loopHead connected).isCheck = task.isCheck := by
  -- The flag is set where a tunnel is added, and nowhere else.
  unfold Task.loopHead
  dsimp only
  split_ifs <;> rfl

/-- A task that leaves its loop has come to its end. -/
theorem Service.completes_of_leave (running : conn.fault = none)
    (here : (conn.tasks i).pc = .loopHead) (unchecked : (conn.tasks i).isCheck = false)
    (leaves : ((conn.tasks i).loopHead conn.connected).pc = .tail) :
    Completes memory assertions stored i requests ⟨conn, patience⟩ ↔ requests = [] := by
  have worked : conn.work assertions i (stored (conn.tasks i).context.requestUrl) =
      some (conn.set i ((conn.tasks i).loopHead conn.connected)) := by
    simp only [Connection.work, here]
  have own : (conn.set i ((conn.tasks i).loopHead conn.connected)).tasks i =
      (conn.tasks i).loopHead conn.connected := Connection.set_own
  rw [completes_of_step running (by simp [Connection.Awaits, here, unchecked]) worked rfl]
  have open_ := ((conn.tasks i).loopHead_isCheck conn.connected).trans unchecked
  generalize (conn.tasks i).loopHead conn.connected = task at own leaves open_
  -- What follows the loop is the last step, whatever it does.
  have last : (conn.set i task).work assertions i
      (stored ((conn.set i task).tasks i).context.requestUrl) =
        some ((conn.set i task).tail i) := by
    simp only [Connection.work, own, leaves]
  have finished : ((conn.set i task).set i { task with pc := .finished }).tasks i =
      { task with pc := .finished } := Connection.set_own
  refine completes_of_last running (by simp [Connection.Awaits, own, leaves, open_]) last ?_ ?_
  · unfold Connection.tail
    split
    · split <;> rfl
    · rfl
  · unfold Connection.tail
    rw [own]
    split
    · split
      · exact .inl (Option.some_ne_none _)
      · exact .inr (congrArg Task.pc finished)
    · exact .inr (congrArg Task.pc finished)

/-- A tunnel is created, and the request is forwarded exactly if the web server accepts. -/
theorem Connection.Carries.createTunnel_iff (carries : conn.Carries i r left trailing buf)
    (here : (conn.tasks i).pc = .createTunnel) (unchecked : (conn.tasks i).isCheck = false)
    (upperCase : UpperCase r.method) (context : conn.context = none)
    (rest : LeftOutcome memory assertions stored i left trailing (buf.drop r.render.length)
      outcome) :
    Service.Completes memory assertions stored i (r :: left) ⟨conn, patience⟩ ↔
      patience ≠ none ∧ Passes stored assertions buf r left outcome := by
  -- The new tunnel has no context yet: from here on the call waits for the backend.
  have worked : conn.work assertions i (stored (conn.tasks i).context.requestUrl) =
      some (conn.createTunnel i) := by simp only [Connection.work, here]
  have own : (conn.createTunnel i).tasks i =
      { conn.tasks i with tunnel := conn.tunnelCount, pc := .addTunnel } := Connection.set_own
  have moved : (conn.createTunnel i).Carries i r left trailing buf :=
    carries.move rfl rfl rfl own rfl rfl rfl
  have waiting : (conn.createTunnel i).Waiting i := by
    refine ⟨context, ?_, .inl ?_⟩
    · rw [own]
      exact Nat.lt_succ_self conn.tunnelCount
    · rw [own]
  rw [Service.completes_of_step carries.running (by simp [Connection.Awaits, here, unchecked])
    worked rfl]
  cases patience with
  | none =>
    exact iff_of_false (waiting.not_completes moved upperCase _) fun both => both.1 rfl
  | some steps =>
    rw [waiting.completes_iff moved upperCase rest steps]
    exact (and_iff_right (Option.some_ne_none steps)).symm

/-- A task that finds the context empty goes on to create a tunnel. -/
theorem Connection.Carries.create_iff (carries : conn.Carries i r left trailing buf)
    (here : (conn.tasks i).pc = .readCache) (unchecked : (conn.tasks i).isCheck = false)
    (upperCase : UpperCase r.method) (context : conn.context = none)
    (rest : LeftOutcome memory assertions stored i left trailing (buf.drop r.render.length)
      outcome) :
    Service.Completes memory assertions stored i (r :: left) ⟨conn, patience⟩ ↔
      patience ≠ none ∧ Passes stored assertions buf r left outcome := by
  have own {conn : Connection} {task : Task} : (conn.set i task).tasks i = task :=
    Connection.set_own
  -- The cache is passed by, and then the context is tested.
  rw [Service.completes_of_step carries.running (by simp [Connection.Awaits, here, unchecked])
    (carries.readCache_worked here upperCase _) rfl]
  have atTest : (conn.set i { conn.tasks i with pc := .checkTunnel }).Carries i r left trailing
      buf := carries.set rfl rfl rfl
  have opened : ((conn.set i { conn.tasks i with pc := .checkTunnel }).tasks i).isCheck = false := by
    rw [own]
    exact unchecked
  have place : ((conn.set i { conn.tasks i with pc := .checkTunnel }).tasks i).pc = .checkTunnel :=
    congrArg Task.pc own
  have contextKept : (conn.set i { conn.tasks i with pc := .checkTunnel }).context = none := context
  generalize conn.set i { conn.tasks i with pc := .checkTunnel } = conn
    at atTest opened place contextKept
  have tested : conn.work assertions i (stored (conn.tasks i).context.requestUrl) =
      some (conn.set i { conn.tasks i with pc := .createTunnel }) := by
    simp [Connection.work, place, Connection.checkTunnel, opened, contextKept]
  have moved : (conn.set i { conn.tasks i with pc := .createTunnel }).Carries i r left trailing
      buf := atTest.set rfl rfl rfl
  rw [Service.completes_of_step atTest.running (by simp [Connection.Awaits, place, opened])
    tested rfl]
  exact moved.createTunnel_iff (by rw [own]) (by rw [own]; exact opened) upperCase contextKept rest

/-- A task at the condition of its loop serves what is left exactly if each request is to be
forwarded, can be forwarded, and is spared by the assertion. -/
theorem Connection.Rests.completes_iff (rests : conn.Rests i left trailing buf)
    (upperCase : ∀ r ∈ left, UpperCase r.method) (incomplete : requestFraming.next trailing = none) :
    Service.Completes memory assertions stored i left ⟨conn, patience⟩ ↔
      ((∀ r ∈ left, Unanswerable stored r) ∧ Spared assertions buf left) ∧
        (left ≠ [] → conn.CanForward patience) := by
  induction left generalizing conn patience buf with
  | nil =>
    have refused : (parseRequest (conn.tasks i).context (conn.tasks i).buff).2.1 = false := by
      refine parseRequest_of_none ?_ _
      rw [rests.buff]
      exact incomplete
    -- Nothing is left to be parsed.
    rw [Service.completes_of_leave rests.running rests.here rests.unchecked]
    · simp [Spared]
    · cases conn.connected <;> simp [Task.loopHead, rests.unchecked, refused]
  | cons r left ih =>
    by_cases connected : conn.connected = true
    swap
    · -- Nothing is parsed any more.
      rw [Service.completes_of_leave rests.running rests.here rests.unchecked]
      · exact iff_of_false (List.cons_ne_nil _ _) fun both =>
          connected (both.2 (List.cons_ne_nil _ _)).1
      · simp [Task.loopHead, rests.unchecked, connected]
    obtain ⟨method, url, verdict⟩ := parseRequest_pipelined r left trailing rests.empty
    rw [← rests.buff] at method url verdict
    have rest : LeftOutcome memory assertions stored i left trailing (buf.drop r.render.length)
        ((∀ s ∈ left, Unanswerable stored s) ∧
          Spared assertions (buf.drop r.render.length) left) := by
      refine ⟨?_, fun next patience restsNext connected context entry => ?_⟩
      · rintro rfl
        simp [Spared]
      · -- The tunnel is there for the others.
        rw [ih restsNext fun s member => upperCase s (List.mem_cons_of_mem r member)]
        exact and_iff_left fun _ => ⟨connected, .inl ⟨context, entry⟩⟩
    -- The first request is parsed.
    have entered : (conn.tasks i).loopHead conn.connected =
        { conn.tasks i with
          context := (parseRequest (conn.tasks i).context (conn.tasks i).buff).1
          info := (true, toInt32 r.render.length)
          pc := .readCache } := by
      simp [Task.loopHead, rests.unchecked, connected, verdict]
    have worked : conn.work assertions i (stored (conn.tasks i).context.requestUrl) =
        some (conn.set i ((conn.tasks i).loopHead conn.connected)) := by
      simp only [Connection.work, rests.here]
    rw [entered] at worked
    have own {task : Task} : (conn.set i task).tasks i = task := Connection.set_own
    have carries : (conn.set i { conn.tasks i with
        context := (parseRequest (conn.tasks i).context (conn.tasks i).buff).1
        info := (true, toInt32 r.render.length)
        pc := .readCache }).Carries i r left trailing buf := by
      refine ⟨rests.running, connected, rests.live, ?_, ?_, ?_, ?_⟩
      all_goals rw [own]
      · exact rests.buff
      · exact method
      · exact url
    have first := upperCase r List.mem_cons_self
    rw [Service.completes_of_step rests.running
      (by simp [Connection.Awaits, rests.here, rests.unchecked]) worked rfl, ← passes_iff,
      and_comm]
    by_cases context : conn.context = none
    · -- The tunnel is created by this task.
      rw [carries.create_iff (by rw [own]) (by rw [own]; exact rests.unchecked) first context rest]
      simp [Connection.CanForward, connected, context]
    · -- The tunnel was there before.
      rw [carries.readCache_iff (by rw [own]) first context rest]
      show (∃ k, conn.tunnelEntry = some (some k)) ∧ _ ↔ _
      simp [Connection.CanForward, connected, context]

end Total

/-- A task that takes its steps alone serves all its requests as designed in the end exactly if none
of them is a `GET` request with a stored response, each is below 2^31 bytes, the assertion spares
them, and unless there are none, the client is connected and its tunnel there or accepted later. -/
theorem cacheFirst_iff (library : RedisLibrary) (cache : TwoLevel) (now : Int)
    (memory : RelayMemory) (assertions : Bool) (patience : Option Nat) {conn : Connection} {i : Nat}
    {requests : List Request} {trailing : Bytes} (serves : conn.Serves i requests trailing) :
    Service.Completes memory assertions (cache.stored library now) i requests ⟨conn, patience⟩ ↔
      (∀ r ∈ requests, (r.method = httpGet → cache.stored library now r.url = []) ∧
        r.render.length < 2 ^ 31) ∧
      (assertions = true → ∀ r s rest, requests = r :: s :: rest →
        conn.buf = r.render ∧ rest = []) ∧
      (requests ≠ [] → conn.connected = true ∧
        (conn.context ≠ none ∧ (∃ k, conn.tunnelEntry = some (some k)) ∨
          conn.context = none ∧ patience ≠ none)) := by
  -- The task starts, and is at the loop's condition.
  have here : (conn.tasks i).pc = .queued := by rw [serves.queued]
  have unchecked : (conn.tasks i).isCheck = false := by rw [serves.queued]
  have worked : conn.work assertions i (cache.stored library now (conn.tasks i).context.requestUrl) =
      some (conn.set i { conn.tasks i with pc := .loopHead }) := by
    simp only [Connection.work, here]
  have own : (conn.set i { conn.tasks i with pc := .loopHead }).tasks i =
      { pc := .loopHead, buff := pipelined requests trailing } := by
    rw [Connection.set_own, serves.queued]
  have rests : (conn.set i { conn.tasks i with pc := .loopHead }).Rests i requests trailing
      conn.buf := by
    refine ⟨serves.running, rfl, ?_, ?_, ?_, ?_⟩
    all_goals rw [own]
    exact ⟨rfl, rfl⟩
  rw [Service.completes_of_step serves.running (by simp [Connection.Awaits, here, unchecked]) worked
    rfl, rests.completes_iff serves.upperCase serves.incomplete, and_assoc]
  rfl

/-- The requests `POST /` and `GET /a`, with the beginning of a third. -/
def postThenGet : Connection :=
  ({} : Connection).onServerMessage (pipelined [postRequest, wideRequest 1] (ascii ['G', ' ']))

/-- The first task of a new connection is about to start on them. -/
theorem serves_postThenGet :
    postThenGet.Serves 0 [postRequest, wideRequest 1] (ascii ['G', ' ']) where
  -- Two whole requests with upper-case methods, and the beginning of a third.
  queued := rfl
  enqueued := Nat.one_pos
  running := rfl
  upperCase := by
    intro r member
    simp only [List.mem_cons, List.not_mem_nil, or_false] at member
    rcases member with rfl | rfl
    · simp [UpperCase, postRequest, ascii]
    · simp [UpperCase, wideRequest, ascii]
  incomplete := rfl

/-- Both are forwarded although there is a response for `/`, once the web server accepts. -/
theorem cacheFirst_postThenGet :
    Service.Completes noMemory false (cachedRoot.stored splittingLibrary 6) 0
      [postRequest, wideRequest 1] ⟨postThenGet, some 3⟩ := by
  -- Assertions are off, the backend accepts in time, and nothing is stored for the `GET`.
  refine (cacheFirst_iff splittingLibrary cachedRoot 6 noMemory false (some 3)
    serves_postThenGet).mpr ⟨fun r member => ?_, fun compiled => (by cases compiled), fun _ =>
      ⟨rfl, .inr ⟨rfl, Option.some_ne_none 3⟩⟩⟩
  simp only [List.mem_cons, List.not_mem_nil, or_false] at member
  rcases member with rfl | rfl
  · exact ⟨fun same => absurd same (by decide), by decide⟩
  · exact ⟨fun _ => rfl, by decide⟩

end EnhancedProxy

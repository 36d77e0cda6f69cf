import EnhancedProxy.Cache.TwoLevel
import EnhancedProxy.Http.RoundTrip
import EnhancedProxy.ProxyServer.QueueOrder

/-! What becomes of GET requests whose responses are in the cache. -/

namespace EnhancedProxy

/-- The method `GET`, as HTTP spells it. -/
def httpGet : Bytes := ascii ['G', 'E', 'T']

/-- A method as HTTP spells it has no small letter. -/
def UpperCase (method : Bytes) : Prop := ∀ c ∈ method, ¬ (97 ≤ c ∧ c ≤ 122)

/-- The response that `Cache::readCache` finds for a url in memory or else in Redis, and nothing
where it fails. -/
def TwoLevel.stored (library : RedisLibrary) (cache : TwoLevel) (now : Int) (url : Bytes) : Bytes :=
  match cache.readCache library url now with
  | none => []
  | some after =>
    if after.fault.isSome then [] else (after.reads.getLast?.map (·.content)).getD []

/-- A `GET` request with a stored response is answered with it, and any other request is forwarded
with its url and its bytes. -/
def AsDesigned (stored : Bytes → Bytes) (r : Request) : Handled → Prop
  | .answered content bytes =>
    r.method = httpGet ∧ stored r.url ≠ [] ∧ content = stored r.url ∧ bytes = r.render
  | .forwarded _ url bytes =>
    ¬ (r.method = httpGet ∧ stored r.url ≠ []) ∧ url = r.url ∧ bytes = r.render

/-- A request that is not to be answered from the cache, and is below 2^31 bytes. -/
def Unanswerable (stored : Bytes → Bytes) (r : Request) : Prop :=
  (r.method = httpGet → stored r.url = []) ∧ r.render.length < 2 ^ 31

/-- One task is about to start on the requests. The tunnels may be in any state. -/
structure Connection.Serves (conn : Connection) (i : Nat) (requests : List Request)
    (trailing : Bytes) : Prop where
  queued : conn.tasks i = { pc := .queued, buff := pipelined requests trailing }
  enqueued : i < conn.taskCount
  running : conn.fault = none
  upperCase : ∀ r ∈ requests, UpperCase r.method
  incomplete : requestFraming.next trailing = none

/-- Only this task takes steps, while its client is connected, and its reads of the cache find what
is stored. -/
def Connection.ServedBy (i : Nat) (stored : Bytes → Bytes) (conn : Connection) :
    ConnectionStep → Prop
  | .work j content =>
    j = i ∧ conn.connected = true ∧
      ((conn.tasks i).pc = .readCache → content = stored (conn.tasks i).context.requestUrl)
  | _ => True

/-- What was handled since the start of a run is what the design says, one request after the
other. -/
def Connection.ServedAsDesigned (conn : Connection) (stored : Bytes → Bytes)
    (requests : List Request) (start : Connection) : Prop :=
  ∃ handled, conn.handled = start.handled ++ handled ∧
    List.Forall₂ (AsDesigned stored) requests handled

/-- The places between the parser and `send`, apart from the answer from the cache. -/
def TaskPc.toForward : TaskPc → Bool
  | .readCache | .checkTunnel | .createTunnel | .addTunnel | .checkContext | .castContext | .push
  | .send => true
  | _ => false

/-- Where a task stands between the requests it is done with and those that are left. -/
inductive Stage (conn : Connection) (i : Nat) (trailing : Bytes) :
    List Request → List Request → Prop
  -- Nothing of the remaining requests was read.
  | rest {done left : List Request}
      (place : (conn.tasks i).pc = .queued ∨ (conn.tasks i).pc = .loopHead)
      (unchecked : (conn.tasks i).isCheck = false)
      (buff : (conn.tasks i).buff = pipelined left trailing)
      (empty : (conn.tasks i).context.requestMethod = [] ∧ (conn.tasks i).context.requestUrl = []) :
    Stage conn i trailing done left
  -- The first of them was parsed.
  | parsed {done left : List Request} {r : Request}
      (place : (conn.tasks i).pc.toForward ∨
        ((conn.tasks i).pc = .loopHead ∧ (conn.tasks i).isCheck = true))
      (buff : (conn.tasks i).buff = pipelined (r :: left) trailing)
      (info : (conn.tasks i).info = (true, toInt32 r.render.length))
      (method : (conn.tasks i).context.requestMethod = r.method)
      (url : (conn.tasks i).context.requestUrl = r.url)
      -- Without a new tunnel, the context was found not to be empty.
      (linked : (conn.tasks i).pc = .checkContext → (conn.tasks i).isCheck = false →
        conn.connected = true → conn.context ≠ none) :
    Stage conn i trailing done (r :: left)
  -- The last of those that are done is still in the copy.
  | owing {done left : List Request} {r : Request}
      (place : (conn.tasks i).pc = .copyBuffer ∨ (conn.tasks i).pc = .dropForwarded)
      (buff : (conn.tasks i).buff = pipelined (r :: left) trailing)
      (info : (conn.tasks i).info = (true, (r.render.length : Int))) :
    Stage conn i trailing (done ++ [r]) left
  | ended {done : List Request}
      (place : (conn.tasks i).pc = .tail ∨ (conn.tasks i).pc = .finished) :
    Stage conn i trailing done []

/-- So far, every request was handled as designed, and none of them should have been answered. -/
structure OnDesign (stored : Bytes → Bytes) (requests : List Request) (trailing : Bytes)
    (start : Connection) (i : Nat) (conn : Connection) : Prop where
  enqueued : i < conn.taskCount
  progress : ∃ done left handled, requests = done ++ left ∧
    conn.handled = start.handled ++ handled ∧ List.Forall₂ (AsDesigned stored) done handled ∧
    (∀ r ∈ done, Unanswerable stored r) ∧ Stage conn i trailing done left

/-- Some request was not handled as designed. -/
def Astray (stored : Bytes → Bytes) (requests : List Request) (start conn : Connection) : Prop :=
  ∃ done r left handled entry more, requests = done ++ r :: left ∧
    conn.handled = start.handled ++ (handled ++ entry :: more) ∧ handled.length = done.length ∧
    ¬ AsDesigned stored r entry ∧ ¬ Unanswerable stored r

/-- A method without small letters is not the one the code compares with. -/
theorem UpperCase.ne_getMethod {method : Bytes} (upper : UpperCase method) :
    method ≠ getMethod := by
  -- The second letter of `Get` is small.
  rintro rfl
  exact upper 101 (by decide) (by decide)

/-- The first of the pipelined requests is what the parser finds. -/
theorem next_pipelined (r : Request) (left : List Request) (trailing : Bytes) :
    requestFraming.next (pipelined (r :: left) trailing) =
      some ((r.method, r.url), r.render.length) := by
  -- The parser stops at the end of the first rendered request, whatever follows it.
  have front : pipelined (r :: left) trailing = r.render ++ pipelined left trailing := by
    simp [pipelined]
  have parsed := parseLocals_render r {} (pipelined left trailing) ⟨rfl, rfl⟩
  have length : r.render.length = r.head.length + r.body.length := by simp [Request.render]
  rw [front, length]
  simp only [requestFraming, parsed, if_true]

/-- Once its bytes are taken off, the next request comes first. -/
theorem drop_pipelined (r : Request) (left : List Request) (trailing : Bytes) :
    (pipelined (r :: left) trailing).drop r.render.length = pipelined left trailing := by
  simp [pipelined]

/-- The bytes of the first request come first. -/
theorem take_pipelined (r : Request) (left : List Request) (trailing : Bytes) :
    (pipelined (r :: left) trailing).take r.render.length = r.render := by
  simp [pipelined]

/-- An empty context reads the method and the url of the first request. -/
theorem parseRequest_pipelined (r : Request) (left : List Request) (trailing : Bytes)
    {context : HttpContext} (empty : context.requestMethod = [] ∧ context.requestUrl = []) :
    (parseRequest context (pipelined (r :: left) trailing)).1.requestMethod = r.method ∧
      (parseRequest context (pipelined (r :: left) trailing)).1.requestUrl = r.url ∧
      (parseRequest context (pipelined (r :: left) trailing)).2 =
        (true, toInt32 r.render.length) := by
  -- An empty context takes over the words of the first request, and its length is the return value.
  have front : pipelined (r :: left) trailing = r.render ++ pipelined left trailing := by
    simp [pipelined]
  have parsed := parseLocals_render r context (pipelined left trailing) empty
  refine ⟨?_, ?_, parseRequest_of_next (next_pipelined r left trailing) context⟩
  · rw [front, parseRequest, parsed]
  · rw [front, parseRequest, parsed]

namespace Stage

variable {conn next : Connection} {i : Nat} {trailing content : Bytes} {done left : List Request}
  {assertions : Bool}

/-- A step of something else leaves the task where it stands. -/
theorem elsewhere (stage : Stage conn i trailing done left) (same : next.tasks i = conn.tasks i)
    (linked : next.connected = true →
      conn.connected = true ∧ (conn.context ≠ none → next.context ≠ none)) :
    Stage next i trailing done left := by
  -- The task is the same, and a connection that is still up has lost no link.
  cases stage with
  | rest place unchecked buff empty =>
    exact .rest (by rwa [same]) (by rwa [same]) (by rwa [same]) (by rwa [same])
  | parsed place buff info method url open_ =>
    refine .parsed (by rwa [same]) (by rwa [same]) (by rwa [same]) (by rwa [same]) (by rwa [same])
      fun here unchecked connected => ?_
    rw [same] at here unchecked
    exact (linked connected).2 (open_ here unchecked (linked connected).1)
  | owing place buff info => exact .owing (by rwa [same]) (by rwa [same]) (by rwa [same])
  | ended place => exact .ended (by rwa [same])

/-- A task that goes on with its request still has it first in its copy. -/
theorem goOn {r : Request} {task : Task} (own : next.tasks i = task)
    (place : task.pc.toForward ∨ (task.pc = .loopHead ∧ task.isCheck = true))
    (buff : task.buff = pipelined (r :: left) trailing)
    (info : task.info = (true, toInt32 r.render.length))
    (method : task.context.requestMethod = r.method) (url : task.context.requestUrl = r.url)
    (linked : task.pc = .checkContext → task.isCheck = false → next.connected = true →
      next.context ≠ none) : Stage next i trailing done (r :: left) :=
  -- The task is the one written, and the stage asks these six things of it.
  .parsed (by rwa [own]) (by rwa [own]) (by rwa [own]) (by rwa [own]) (by rwa [own])
    (by rwa [own])

/-- The condition of the loop parses the next request, or ends the loop. -/
theorem enterLoop (stage : Stage conn i trailing done left)
    (incomplete : requestFraming.next trailing = none) (connected : conn.connected = true)
    (here : (conn.tasks i).pc = .loopHead) :
    Stage (conn.set i ((conn.tasks i).loopHead conn.connected)) i trailing done left := by
  have own {task : Task} : (conn.set i task).tasks i = task := Connection.set_own
  cases stage with
  | rest place unchecked buff empty =>
    cases left with
    | nil =>
      -- What is left holds no complete request.
      have refused : (parseRequest (conn.tasks i).context (conn.tasks i).buff).2.1 = false := by
        refine parseRequest_of_none ?_ _
        rw [buff]
        exact incomplete
      exact .ended (.inl (by rw [own]; simp [Task.loopHead, unchecked, connected, refused]))
    | cons r left =>
      obtain ⟨method, url, verdict⟩ := parseRequest_pipelined r left trailing empty
      rw [← buff] at method url verdict
      have entered : (conn.tasks i).loopHead conn.connected =
          { conn.tasks i with
            context := (parseRequest (conn.tasks i).context (conn.tasks i).buff).1
            info := (true, toInt32 r.render.length)
            pc := .readCache } := by
        simp [Task.loopHead, unchecked, connected, verdict]
      rw [entered]
      exact goOn own (.inl rfl) buff rfl method url (by simp)
  | parsed place buff info method url linked =>
    -- The request was parsed before its tunnel was created.
    have waiting : (conn.tasks i).isCheck = true := by
      rcases place with place | place
      · rw [here] at place
        cases place
      · exact place.2
    have entered : (conn.tasks i).loopHead conn.connected =
        { conn.tasks i with pc := .readCache } := by
      simp [Task.loopHead, waiting]
    rw [entered]
    exact goOn own (.inl rfl) buff info method url (by simp)
  | owing place => simp [here] at place
  | ended place => simp [here] at place

/-- A step from the parser towards `send` keeps the request that was parsed. -/
theorem forward {r : Request} (stage : Stage conn i trailing done (r :: left))
    (place : (conn.tasks i).pc.toForward) (upperCase : UpperCase r.method)
    (connected : conn.connected = true) (notSend : (conn.tasks i).pc ≠ .send)
    (worked : conn.work assertions i content = some next) :
    next.handled = conn.handled ∧ Stage next i trailing done (r :: left) := by
  have own {task : Task} : (conn.set i task).tasks i = task := Connection.set_own
  have whole := stage
  cases stage with
  | rest idle => rcases idle with here | here <;> rw [here] at place <;> cases place
  | owing idle => rcases idle with here | here <;> rw [here] at place <;> cases place
  | parsed _ buff info method url linked =>
    cases here : (conn.tasks i).pc with
    | readCache =>
      -- The method is not the one that is looked up.
      have missed : (conn.tasks i).readCache content =
          { conn.tasks i with pc := .checkTunnel } := by
        simp [Task.readCache, method, upperCase.ne_getMethod]
      simp only [Connection.work, here, missed, Option.some.injEq] at worked
      subst worked
      exact ⟨rfl, goOn own (.inl rfl) buff info method url (by simp)⟩
    | checkTunnel =>
      simp only [Connection.work, here, Connection.checkTunnel, Option.some.injEq] at worked
      subst worked
      split
      · exact ⟨rfl, goOn own (.inl rfl) buff info method url (by simp)⟩
      · rename_i tunnel
        refine ⟨rfl, goOn own (.inl rfl) buff info method url fun _ unchecked _ none_ => tunnel ?_⟩
        have unchecked : (conn.tasks i).isCheck = false := unchecked
        exact ⟨by simp [unchecked], none_⟩
    | createTunnel =>
      simp only [Connection.work, here, Connection.createTunnel, Option.some.injEq] at worked
      subst worked
      exact ⟨rfl, goOn own (.inl rfl) buff info method url (by simp)⟩
    | addTunnel =>
      simp only [Connection.work, here, Connection.addTunnel, Option.some.injEq] at worked
      subst worked
      exact ⟨rfl, goOn own (.inr ⟨rfl, rfl⟩) buff info method url (by simp)⟩
    | checkContext =>
      simp only [Connection.work, here, Option.some.injEq] at worked
      subst worked
      by_cases none_ : conn.context = none
      · -- Only a task that waits for its tunnel finds the context empty.
        have waiting : (conn.tasks i).isCheck = true := by
          by_contra unchecked
          exact linked here (by simpa using unchecked) connected none_
        exact ⟨rfl, goOn own (.inr ⟨by simp [none_], waiting⟩) buff info method url
          (by simp [none_])⟩
      · exact ⟨rfl, goOn own (.inl (by simp [none_, TaskPc.toForward])) buff info method url
          (by simp [none_])⟩
    | castContext =>
      simp only [Connection.work, here] at worked
      split at worked <;> cases worked
      · exact ⟨rfl, whole.elsewhere rfl fun up => ⟨up, id⟩⟩
      · exact ⟨rfl, goOn own (.inl rfl) buff info method url (by simp)⟩
    | push =>
      simp only [Connection.work, here, Connection.push, Option.some.injEq] at worked
      subst worked
      split
      · exact ⟨rfl, goOn own (.inl rfl) buff info method url (by simp)⟩
      · exact ⟨rfl, whole.elsewhere rfl fun up => ⟨up, id⟩⟩
    | send => exact absurd here notSend
    | absent | queued | loopHead | answer | dropAnswered | copyBuffer | dropForwarded | tail
      | finished =>
      rw [here] at place
      cases place

/-- The request that was sent is taken off the copy. -/
theorem dropForwarded {r : Request} (here : (conn.tasks i).pc = .dropForwarded)
    (buff : (conn.tasks i).buff = pipelined (r :: left) trailing)
    (info : (conn.tasks i).info = (true, (r.render.length : Int)))
    (worked : conn.work assertions i content = some next) :
    next.handled = conn.handled ∧ Stage next i trailing done left := by
  simp only [Connection.work, here, Connection.dropForwarded, Option.some.injEq] at worked
  subst worked
  -- Whether the assertion holds or not, the task is at the loop's condition again.
  have own : (if assertions ∧ (conn.tasks i).http ≠ (conn.tasks i).request then
      ((conn.retrieve (toUnsigned64 (conn.tasks i).info.2)).set i (conn.tasks i).drop).fail .assertion
      else (conn.retrieve (toUnsigned64 (conn.tasks i).info.2)).set i (conn.tasks i).drop).tasks i =
        (conn.tasks i).drop := by
    split <;> exact Connection.set_own
  refine ⟨by split <;> rfl, .rest (.inr (by rw [own]; rfl)) (by rw [own]; rfl) ?_
    (by rw [own]; exact ⟨rfl, rfl⟩)⟩
  rw [own, Task.drop, buff, info]
  exact drop_pipelined r left trailing

/-- Every step of the task but `send` leaves the requests that are done and those that are left. -/
theorem work (stage : Stage conn i trailing done left)
    (incomplete : requestFraming.next trailing = none)
    (upperCase : ∀ r ∈ left, UpperCase r.method) (connected : conn.connected = true)
    (notSend : (conn.tasks i).pc ≠ .send) (worked : conn.work assertions i content = some next) :
    next.handled = conn.handled ∧ Stage next i trailing done left := by
  -- At the head of the loop the copy decides; elsewhere the stage tells what the place does.
  have own {task : Task} : (conn.set i task).tasks i = task := Connection.set_own
  by_cases atLoop : (conn.tasks i).pc = .loopHead
  · simp only [Connection.work, atLoop, Option.some.injEq] at worked
    subst worked
    exact ⟨rfl, stage.enterLoop incomplete connected atLoop⟩
  have whole := stage
  cases stage with
  | rest place unchecked buff empty =>
    have here := place.resolve_right atLoop
    simp only [Connection.work, here, Option.some.injEq] at worked
    subst worked
    exact ⟨rfl, .rest (.inr (by rw [own])) (by rw [own]; exact unchecked) (by rw [own]; exact buff)
      (by rw [own]; exact empty)⟩
  | parsed place =>
    exact whole.forward (place.resolve_right fun both => atLoop both.1) (upperCase _ (by simp))
      connected notSend worked
  | owing place buff info =>
    rcases place with here | here
    · simp only [Connection.work, here, Option.some.injEq] at worked
      subst worked
      exact ⟨rfl, .owing (.inr (by rw [own])) (by rw [own]; exact buff) (by rw [own]; exact info)⟩
    · exact dropForwarded here buff info worked
  | ended place =>
    rcases place with here | here
    · simp only [Connection.work, here, Connection.tail, Option.some.injEq] at worked
      subst worked
      have finished :
          ((conn.set i { conn.tasks i with pc := .finished }).tasks i).pc = .finished := by
        rw [own]
      split
      · split
        · exact ⟨rfl, .ended (.inl here)⟩
        · exact ⟨rfl, .ended (.inr finished)⟩
      · exact ⟨rfl, .ended (.inr finished)⟩
    · simp [Connection.work, here] at worked

end Stage

section Runs

variable {stored : Bytes → Bytes} {requests : List Request} {trailing content : Bytes}
  {start conn next : Connection} {i : Nat} {memory : RelayMemory} {assertions : Bool}

/-- A request that is sent is handled as designed exactly if it is not to be answered. -/
theorem asDesigned_forwarded (stored : Bytes → Bytes) (r : Request) (left : List Request)
    (trailing : Bytes) (tunnel : Nat) {length : Int} (info : length = toInt32 r.render.length)
    (notNegative : 0 ≤ length) :
    AsDesigned stored r
        (.forwarded tunnel r.url ((pipelined (r :: left) trailing).take length.toNat)) ↔
      Unanswerable stored r := by
  -- The bytes that are sent are those of the request if its length is not changed.
  have kept : (pipelined (r :: left) trailing).take length.toNat = r.render ↔
      r.render.length < 2 ^ 31 := by
    constructor
    · intro same
      have lengths := congrArg List.length same
      rw [List.length_take] at lengths
      have short : r.render.length ≤ length.toNat := by omega
      rw [info] at short notNegative
      unfold toInt32 at short notNegative
      omega
    · intro small
      rw [info, toInt32_of_lt small]
      exact take_pipelined r left trailing
  simp only [AsDesigned, Unanswerable, kept, true_and]
  constructor
  · rintro ⟨notStored, small⟩
    exact ⟨fun get => Classical.byContradiction fun some_ => notStored ⟨get, some_⟩, small⟩
  · rintro ⟨notStored, small⟩
    exact ⟨fun both => both.2 (notStored both.1), small⟩

/-- Sending a request keeps the run on its design, or leads it astray for good. -/
theorem OnDesign.send (design : OnDesign stored requests trailing start i conn)
    (here : (conn.tasks i).pc = .send) (worked : conn.work assertions i content = some next) :
    OnDesign stored requests trailing start i next ∨ Astray stored requests start next := by
  obtain ⟨enqueued, done, left, handled, split, kept, designed, unanswered, stage⟩ := design
  have whole := stage
  cases stage with
  | rest place => simp [here] at place
  | owing place => simp [here] at place
  | ended place => simp [here] at place
  | @parsed _ left r place buff info method url linked =>
    simp only [Connection.work, here, Connection.send, Option.some.injEq] at worked
    subst worked
    split
    · exact .inl ⟨enqueued, done, _, handled, split, kept, designed, unanswered,
        whole.elsewhere rfl fun up => ⟨up, id⟩⟩
    split
    · exact .inl ⟨enqueued, done, _, handled, split, kept, designed, unanswered,
        whole.elsewhere rfl fun up => ⟨up, id⟩⟩
    · rename_i notNegative
      have entry : Handled.forwarded (conn.tasks i).clientConn (conn.tasks i).context.requestUrl
          (conn.tasks i).request =
          .forwarded (conn.tasks i).clientConn r.url
            ((pipelined (r :: left) trailing).take (conn.tasks i).info.2.toNat) := by
        rw [Task.request, buff, url]
      have length : (conn.tasks i).info.2 = toInt32 r.render.length := by rw [info]
      have verdict := asDesigned_forwarded stored r left trailing (conn.tasks i).clientConn length
        (Int.not_lt.mp notNegative)
      rw [← entry] at verdict
      by_cases unanswerable : Unanswerable stored r
      · -- One more request is done.
        refine .inl ⟨enqueued, done ++ [r], left, handled ++ [_], by rw [split]; simp, ?_,
          List.rel_append designed (.cons (verdict.mpr unanswerable) .nil), ?_, ?_⟩
        · show conn.handled ++ [_] = _
          rw [kept, List.append_assoc]
        · simpa [or_imp, forall_and] using ⟨unanswered, unanswerable⟩
        · have own : ((conn.set i { conn.tasks i with pc := .copyBuffer }).tasks i) =
              { conn.tasks i with pc := .copyBuffer } := Connection.set_own
          refine .owing (.inl (congrArg Task.pc own)) ((congrArg Task.buff own).trans buff)
            ((congrArg Task.info own).trans ?_)
          show (conn.tasks i).info = _
          rw [info, toInt32_of_lt unanswerable.2]
      · refine .inr ⟨done, r, left, handled, _, [], split, ?_, designed.length_eq.symm,
          mt verdict.mp unanswerable, unanswerable⟩
        show conn.handled ++ [_] = _
        rw [kept, List.append_assoc]

/-- A run on its design stays there, or goes astray, with every step. -/
theorem OnDesign.step {label : ConnectionStep} (serves : start.Serves i requests trailing)
    (design : OnDesign stored requests trailing start i conn)
    (served : conn.ServedBy i stored label)
    (stepped : (connectionMachine memory assertions).step conn label = some next) :
    OnDesign stored requests trailing start i next ∨ Astray stored requests start next := by
  have running := Connection.running_of_step stepped
  obtain ⟨moved, event, same⟩ := Connection.streamEvent_of_step stepped
  have whole := design
  obtain ⟨enqueued, done, left, handled, split, kept, designed, unanswered, stage⟩ := design
  cases label with
  | work j content =>
    obtain ⟨rfl, connected, -⟩ := served
    have worked := Connection.work_of_step stepped
    by_cases here : (conn.tasks j).pc = .send
    · exact whole.send here worked
    · have upperCase : ∀ r ∈ left, UpperCase r.method := fun r member =>
        serves.upperCase r (by rw [split]; exact List.mem_append_right done member)
      obtain ⟨unsent, stage⟩ := stage.work serves.incomplete upperCase connected here worked
      exact .inl ⟨by rwa [Connection.work_taskCount worked], done, left, handled, split,
        unsent.trans kept, designed, unanswered, stage⟩
  | deliver chunk =>
    cases Connection.deliver_of_step stepped
    -- The new task is another one.
    have other : (conn.onServerMessage chunk).tasks i = conn.tasks i :=
      Connection.onServerMessage_other chunk (Nat.ne_of_lt enqueued)
    exact .inl ⟨Nat.lt_succ_of_lt enqueued, done, left, handled, split, kept, designed, unanswered,
      stage.elsewhere other fun up => ⟨up, id⟩⟩
  | respond k chunk | backendUp k | backendDown k =>
    cases event
    refine .inl ⟨by rwa [same.taskCount], done, left, handled, split, by rwa [same.handled],
      designed, unanswered, stage.elsewhere (by rw [same.tasks]) fun up => ?_⟩
    simp only [connectionMachine, running, Option.isSome_none, Bool.false_eq_true, if_false,
      Option.ite_none_right_eq_some, Option.some.injEq] at stepped
    obtain ⟨-, rfl⟩ := stepped
    first
      | cases up
      | exact ⟨up, fun _ => by simp⟩
      | revert up
        unfold Connection.respond
        split <;> exact fun up => ⟨up, id⟩
  | clientDown =>
    cases event
    refine .inl ⟨by rwa [same.taskCount], done, left, handled, split, by rwa [same.handled],
      designed, unanswered, stage.elsewhere (by rw [same.tasks]) fun up => ?_⟩
    cases Connection.clientDown_of_step stepped
    revert up
    unfold Connection.onServerConnectionDown
    split
    · exact fun up => ⟨up, id⟩
    · exact fun up => by cases up

/-- What has been handled stays in the history. -/
theorem handled_grows {label : ConnectionStep}
    (stepped : (connectionMachine memory assertions).step conn label = some next) :
    ∃ more, next.handled = conn.handled ++ more := by
  -- Only the step that handles a request writes a journal entry, and it appends it.
  obtain ⟨moved, event, same⟩ := Connection.streamEvent_of_step stepped
  rw [same.handled]
  cases event with
  | handle _ _ _ entry => exact ⟨[entry], rfl⟩
  | _ => exact ⟨[], (List.append_nil _).symm⟩

/-- A run that has gone astray stays so. -/
theorem Astray.step {label : ConnectionStep} (astray : Astray stored requests start conn)
    (stepped : (connectionMachine memory assertions).step conn label = some next) :
    Astray stored requests start next := by
  -- The wrong entry stands in the journal, which only grows behind it.
  obtain ⟨done, r, left, handled, entry, more, split, kept, length, wrong, answerable⟩ := astray
  obtain ⟨further, grown⟩ := handled_grows stepped
  exact ⟨done, r, left, handled, entry, more ++ further, split, by rw [grown, kept]; simp, length,
    wrong, answerable⟩

/-- In a run that has gone astray, the requests are not served as designed. -/
theorem Astray.not_served (astray : Astray stored requests start conn) :
    ¬ conn.ServedAsDesigned stored requests start := by
  obtain ⟨done, r, left, handled, entry, more, split, kept, length, wrong, -⟩ := astray
  rintro ⟨all, whole, designed⟩
  rw [kept, List.append_cancel_left_eq] at whole
  rw [← whole, split] at designed
  -- The entry stands at the place of its request.
  have both := List.forall₂_drop_append _ _ _ designed
  rw [length, List.drop_left] at both
  exact wrong (List.forall₂_cons.mp both).1

end Runs

/-- A task that has come to its end has served its requests as designed exactly if none of them was
to be answered. -/
theorem servedAsDesigned_iff {stored : Bytes → Bytes} {memory : RelayMemory} {assertions : Bool}
    {conn last : Connection} {i : Nat} {requests : List Request} {trailing : Bytes}
    {labels : List ConnectionStep} (serves : conn.Serves i requests trailing)
    (served :
      (connectionMachine memory assertions).Meets (Connection.ServedBy i stored) conn labels)
    (ran : (connectionMachine memory assertions).run conn labels = some last)
    (ended : (last.tasks i).pc = .finished) :
    last.ServedAsDesigned stored requests conn ↔ ∀ r ∈ requests, Unanswerable stored r := by
  have begun : OnDesign stored requests trailing conn i conn := by
    have own := serves.queued
    refine ⟨serves.enqueued, [], requests, [], rfl, (List.append_nil _).symm, .nil, by simp,
      .rest (.inl ?_) ?_ ?_ ?_⟩ <;> rw [own]
    exact ⟨rfl, rfl⟩
  -- The run ends on its design or astray.
  have regime :
      OnDesign stored requests trailing conn i last ∨ Astray stored requests conn last := by
    have step : ∀ state label next,
        OnDesign stored requests trailing conn i state ∨ Astray stored requests conn state →
          Connection.ServedBy i stored state label →
          (connectionMachine memory assertions).step state label = some next →
          OnDesign stored requests trailing conn i next ∨ Astray stored requests conn next :=
      fun state label next held served stepped => held.elim
        (fun design => design.step serves served stepped) fun astray => .inr (astray.step stepped)
    exact Machine.run_invariant_of_meets step (.inl begun) served ran
  rcases regime with ⟨-, done, left, handled, split, kept, designed, unanswered, stage⟩ | astray
  · -- No request is left at the end.
    have nothing : left = [] := by
      cases stage with
      | ended => rfl
      | rest place => simp [ended] at place
      | parsed place => simp [ended, TaskPc.toForward] at place
      | owing place => simp [ended] at place
    rw [nothing, List.append_nil] at split
    subst split
    exact iff_of_true ⟨handled, kept, designed⟩ unanswered
  · refine iff_of_false astray.not_served fun all => ?_
    obtain ⟨done, r, left, -, -, -, split, -, -, -, answerable⟩ := astray
    exact answerable (all r (by rw [split]; simp))

/-- The request `GET /`. -/
def getRoot : Request := wideRequest 0

/-- A cache to which a response for `/` was written. -/
def cachedRoot : TwoLevel :=
  (TwoLevel.new 1 0).writeCache splittingLibrary (ascii ['/']) (ascii ['a']) 5

/-- The response is found. -/
theorem stored_cachedRoot : cachedRoot.stored splittingLibrary 6 (ascii ['/']) = ascii ['a'] := rfl

/-- The first task has the request, over a tunnel that has come up. -/
theorem serves_getRoot :
    (establishedStart.onServerMessage (pipelined [getRoot] [])).Serves 0 [getRoot] [] where
  -- One upper-case request in the buffer, nothing after it, and its call queued.
  queued := rfl
  enqueued := Nat.one_pos
  running := rfl
  upperCase := by
    intro r member
    rw [List.mem_singleton.mp member]
    simp [UpperCase, getRoot, wideRequest, ascii]
  incomplete := rfl

/-- The run in which the task forwards the request. -/
theorem served_getRoot :
    (connectionMachine noMemory true).Meets
      (Connection.ServedBy 0 (cachedRoot.stored splittingLibrary 6))
      (establishedStart.onServerMessage (pipelined [getRoot] []))
      (List.replicate 12 (.work 0 (ascii ['a']))) := by
  -- Twelve steps of the one call; where the cache is read, the content is the stored one.
  iterate 12
    refine ⟨⟨rfl, rfl, fun here => ?_⟩, fun _ stepped => ?_⟩
    · first
        | exact absurd here (by decide)
        | exact stored_cachedRoot.symm
    cases stepped
  trivial

/-- A `GET` request whose response is in memory is forwarded. -/
theorem cached_get_forwarded :
    ¬ ∀ (library : RedisLibrary) (cache : TwoLevel) (now : Int) (memory : RelayMemory)
        (conn last : Connection) (i : Nat) (requests : List Request) (trailing : Bytes)
        (labels : List ConnectionStep), conn.Serves i requests trailing →
      (connectionMachine memory true).Meets
          (Connection.ServedBy i (cache.stored library now)) conn labels →
        (connectionMachine memory true).run conn labels = some last →
        (last.tasks i).pc = .finished →
        last.ServedAsDesigned (cache.stored library now) requests conn := by
  -- The url is cached and the method is GET, but only `Get` is looked up: it is forwarded.
  intro always
  have ran : ∃ last, (connectionMachine noMemory true).run
      (establishedStart.onServerMessage (pipelined [getRoot] []))
      (List.replicate 12 (.work 0 (ascii ['a']))) = some last ∧ (last.tasks 0).pc = .finished :=
    ⟨_, rfl, rfl⟩
  obtain ⟨last, ran, ended⟩ := ran
  have designed := always splittingLibrary cachedRoot 6 noMemory _ last 0 [getRoot] [] _
    serves_getRoot served_getRoot ran ended
  have unanswered :=
    (servedAsDesigned_iff serves_getRoot served_getRoot ran ended).mp designed getRoot (by simp)
  exact absurd ((unanswered.1 rfl).symm.trans stored_cachedRoot) (by decide)

end EnhancedProxy

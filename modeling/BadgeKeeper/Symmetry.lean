import BadgeKeeper.Lib.Pointwise
import BadgeKeeper.Conservation

/-!
The post path and the increment path are one machine. Exchanging the two kinds
in a run exchanges the dictionaries and the classes of the change requests and
changes nothing else. The posts of one run allocate copies that the increments
of the other do not, so the arrays of the two worlds are compared by what they
contain; pair objects are allocated in the same order on both sides.
-/

namespace BadgeKeeper

def Kind.swap : Kind → Kind
  | .post => .increment
  | .increment => .post

/-- The same event with the two kinds exchanged. -/
def Event.swap : Event → Event
  | .prepare kind value key => .prepare kind.swap value key
  | .flush kind target call => .flush kind.swap target call
  | e => e

def InternalCallback.swap : InternalCallback → InternalCallback
  | .setUserChanges userId => .incrementUserChanges userId
  | .incrementUserChanges userId => .setUserChanges userId
  | internalCallback => internalCallback

namespace BKApiRequest

/-- The same request of the other change class. -/
def swap : BKApiRequest → BKApiRequest
  | .setUserChanges projectId userId pairs => .incrementUserChanges projectId userId pairs
  | .incrementUserChanges projectId userId pairs => .setUserChanges projectId userId pairs
  | request => request

/-- The same request with another array of pairs. -/
def withPairs (array : Heap.Ref) : BKApiRequest → BKApiRequest
  | .setUserChanges projectId userId _ => .setUserChanges projectId userId array
  | .incrementUserChanges projectId userId _ => .incrementUserChanges projectId userId array
  | request => request

@[simp] theorem swap_swap (request : BKApiRequest) : request.swap.swap = request := by
  cases request <;> rfl

theorem swap_withPairs (array : Heap.Ref) (request : BKApiRequest) :
    (request.withPairs array).swap = request.swap.withPairs array := by
  cases request <;> rfl

@[simp] theorem pathURL_withPairs (array : Heap.Ref) (request : BKApiRequest) :
    (request.withPairs array).pathURL = request.pathURL := by
  cases request <;> rfl

end BKApiRequest

@[simp] theorem Kind.swap_swap (kind : Kind) : kind.swap.swap = kind := by
  cases kind <;> rfl

@[simp] theorem Kind.swap_eq_iff {kind other : Kind} : kind.swap = other.swap ↔ kind = other := by
  cases kind <;> cases other <;> decide

@[simp] theorem Event.swap_swap (e : Event) : e.swap.swap = e := by
  cases e <;> simp [Event.swap]

@[simp] theorem InternalCallback.swap_swap (internalCallback : InternalCallback) :
    internalCallback.swap.swap = internalCallback := by
  cases internalCallback <;> rfl

/-- What the array of a dictionary entry contains, if there is an entry. -/
def World.waiting (w : World) (kind : Kind) (user : NSString) : Option (List BKPair) :=
  ((w.dictionary kind).lookup user).map w.arrays.get

/-- The same request of the other class: for the same call, project and user,
and the same on the wire but for the path, which is that of the other class. -/
structure SwappedTask (task task' : DataTask) : Prop where
  call : task'.call = task.call
  request : ∀ array, task'.request.withPairs array = task.request.swap.withPairs array
  urlRequest : task'.urlRequest = { task.urlRequest with path := task.request.swap.pathURL }
  path : task.urlRequest.path = task.request.pathURL
  internalCallback : task'.internalCallback = task.internalCallback.swap

/-- The second world is the first one with the two kinds exchanged: in the
dictionaries, and in the requests sent, in flight and completed. The reward
table and the callbacks are the same. -/
structure Swapped (w w' : World) : Prop where
  left : w.Inv
  right : w'.Inv
  projectId : w'.projectId = w.projectId
  userId : w'.userId = w.userId
  shouldLoadIcons : w'.shouldLoadIcons = w.shouldLoadIcons
  allocated : w'.allocated = w.allocated
  waiting : ∀ kind user, w'.waiting kind.swap user = w.waiting kind user
  realm : w'.realm = w.realm
  calls : w'.calls = w.calls
  callbacks : w'.callbacks = w.callbacks
  session : List.Forall₂ SwappedTask w.session w'.session
  requests : List.Forall₂ SwappedTask w.requests w'.requests
  completed : List.Forall₂
    (fun entry entry' => SwappedTask entry.1 entry'.1 ∧ entry'.2 = entry.2)
    w.completed w'.completed

theorem Swapped.initial : Swapped World.initial World.initial := by
  refine ⟨World.initial_inv, World.initial_inv, rfl, rfl, rfl, rfl, ?_, rfl, rfl, rfl,
    .nil, .nil, .nil⟩
  intro kind user
  cases kind <;> rfl

theorem SwappedTask.symm {task task' : DataTask} (h : SwappedTask task task') :
    SwappedTask task' task := by
  have hback (array : Heap.Ref) :
      task.request.withPairs array = task'.request.swap.withPairs array := by
    rw [← BKApiRequest.swap_withPairs, h.request, BKApiRequest.swap_withPairs,
      BKApiRequest.swap_swap]
  have hpath : task'.request.pathURL = task.request.swap.pathURL := by
    simpa using congrArg BKApiRequest.pathURL (h.request 0)
  have hpath' : task.request.pathURL = task'.request.swap.pathURL := by
    simpa using congrArg BKApiRequest.pathURL (hback 0)
  refine ⟨h.call.symm, hback, ?_, ?_, ?_⟩
  · rw [h.urlRequest, ← hpath', ← h.path]
  · rw [h.urlRequest, hpath]
  · rw [h.internalCallback, InternalCallback.swap_swap]

theorem Swapped.symm {w w' : World} (h : Swapped w w') : Swapped w' w where
  left := h.right
  right := h.left
  projectId := h.projectId.symm
  userId := h.userId.symm
  shouldLoadIcons := h.shouldLoadIcons.symm
  allocated := h.allocated.symm
  waiting kind user := by rw [← h.waiting, Kind.swap_swap]
  realm := h.realm.symm
  calls := h.calls.symm
  callbacks := h.callbacks.symm
  session := (h.session.imp fun _ _ htask => htask.symm).flip
  requests := (h.requests.imp fun _ _ htask => htask.symm).flip
  completed := (h.completed.imp fun _ _ hentry => ⟨hentry.1.symm, hentry.2.symm⟩).flip

section

variable {w : World} {kind : Kind} {user : NSString}

theorem World.waiting_eq (w : World) (kind : Kind) (user : NSString) :
    w.waiting kind user =
      if ((w.dictionary kind).lookup user).isSome then some (w.pending kind user)
      else none := by
  cases hentry : (w.dictionary kind).lookup user <;>
    simp [World.waiting, World.pending, hentry]

theorem World.pending_eq (w : World) (kind : Kind) (user : NSString) :
    w.pending kind user = (w.waiting kind user).getD [] := by
  cases hentry : (w.dictionary kind).lookup user <;>
    simp [World.waiting, World.pending, hentry]

theorem World.waiting_congr {w' : World} (harrays : w'.arrays = w.arrays)
    (hpost : w'.postValues = w.postValues)
    (hincrement : w'.incrementValues = w.incrementValues) (kind : Kind) (user : NSString) :
    w'.waiting kind user = w.waiting kind user := by
  cases kind <;> simp [World.waiting, World.dictionary, harrays, hpost, hincrement]

theorem World.waiting_afterPrepare (hinv : w.Inv) (pair : BKPair) (other : Kind)
    (user' : NSString) :
    (w.afterPrepare kind user pair).waiting other user' =
      if other = kind ∧ user' = user then some (w.pending kind user ++ [pair])
      else w.waiting other user' := by
  rw [World.waiting_eq, World.lookup_afterPrepare, World.pending_afterPrepare hinv,
    World.waiting_eq w]
  by_cases hsame : other = kind ∧ user' = user
  · simp [hsame]
  · simp [hsame]

theorem World.waiting_afterFlush [NumberFormat] (hinv : w.Inv) {array : Heap.Ref}
    {call : Call} (other : Kind) (user' : NSString) :
    (w.afterFlush kind user array call).waiting other user' =
      if other = kind ∧ user' = user then none else w.waiting other user' := by
  rw [World.waiting_eq, World.lookup_afterFlush, World.pending_afterFlush hinv,
    World.waiting_eq]
  split_ifs <;> simp_all

end

section

variable {w w' next : World}

theorem Swapped.pending (h : Swapped w w') (kind : Kind) (user : NSString) :
    w'.pending kind.swap user = w.pending kind user := by
  rw [World.pending_eq, World.pending_eq, h.waiting]

theorem Swapped.resolve (h : Swapped w w') (target : FlushTarget) :
    target.resolve w' = target.resolve w := by
  cases target with
  | active => exact h.userId
  | user userId => rfl

/-- Making the same call on both sides. -/
theorem Swapped.register (h : Swapped w w') (call : Call) :
    Swapped (w.register call) (w'.register call) where
  left := h.left.register call
  right := h.right.register call
  projectId := h.projectId
  userId := h.userId
  shouldLoadIcons := h.shouldLoadIcons
  allocated := h.allocated
  waiting kind user := by
    rw [World.waiting_congr rfl rfl rfl, World.waiting_congr rfl rfl rfl]
    exact h.waiting kind user
  realm := h.realm
  calls := by simp only [World.register, h.calls]
  callbacks := h.callbacks
  session := h.session
  requests := h.requests
  completed := h.completed

/-- Setting the properties to the same values on both sides. -/
theorem Swapped.assign {projectId projectId' userId userId' : Option NSString}
    {icons icons' : Bool} (h : Swapped w w') (hprojectId : projectId' = projectId)
    (huserId : userId' = userId) (hicons : icons' = icons) :
    Swapped { w with projectId := projectId, userId := userId, shouldLoadIcons := icons }
      { w' with projectId := projectId', userId := userId', shouldLoadIcons := icons' } where
  left := World.inv_congr h.left rfl rfl rfl rfl
  right := World.inv_congr h.right rfl rfl rfl rfl
  projectId := hprojectId
  userId := huserId
  shouldLoadIcons := hicons
  allocated := h.allocated
  waiting := h.waiting
  realm := h.realm
  calls := h.calls
  callbacks := h.callbacks
  session := h.session
  requests := h.requests
  completed := h.completed

/-- A request goes out on both sides, with what it takes from the dictionaries. -/
theorem Swapped.sent {task task' : DataTask} {next' : World} (h : Swapped w w')
    (htask : SwappedTask task task') (hleft : next.Inv) (hright : next'.Inv)
    (hwaiting : ∀ kind user, next'.waiting kind.swap user = next.waiting kind user)
    (hnext : ∃ arrays post increment, next =
      { w with
        arrays := arrays
        postValues := post
        incrementValues := increment
        session := w.session ++ [task]
        requests := w.requests ++ [task] })
    (hnext' : ∃ arrays post increment, next' =
      { w' with
        arrays := arrays
        postValues := post
        incrementValues := increment
        session := w'.session ++ [task']
        requests := w'.requests ++ [task'] }) :
    Swapped next next' := by
  obtain ⟨_, _, _, rfl⟩ := hnext
  obtain ⟨_, _, _, rfl⟩ := hnext'
  exact ⟨hleft, hright, h.projectId, h.userId, h.shouldLoadIcons, h.allocated, hwaiting,
    h.realm, h.calls, h.callbacks, List.rel_append h.session (.cons htask .nil),
    List.rel_append h.requests (.cons htask .nil), h.completed⟩

variable [NumberFormat]

theorem Swapped.prepare {kind : Kind} {value : Double} {key : NSString} (h : Swapped w w')
    (hstep : w.step (.prepare kind value key) = some next) :
    ∃ next', w'.step (.prepare kind.swap value key) = some next' ∧ Swapped next next' := by
  obtain ⟨user, huser, rfl⟩ := step_prepare_eq_some.mp hstep
  refine ⟨_, step_prepare_eq_some.mpr ⟨user, h.userId.trans huser, rfl⟩, ?_⟩
  rw [h.allocated]
  let pair : BKPair := ⟨w.allocated, key, value⟩
  have hleft : (w.afterPrepare kind user pair).Inv := World.afterPrepare_inv h.left
  have hright : (w'.afterPrepare kind.swap user pair).Inv := World.afterPrepare_inv h.right
  have hwaiting (other : Kind) (user' : NSString) :
      (w'.afterPrepare kind.swap user pair).waiting other.swap user' =
        (w.afterPrepare kind user pair).waiting other user' := by
    rw [World.waiting_afterPrepare h.left, World.waiting_afterPrepare h.right, h.waiting,
      h.pending]
    simp only [Kind.swap_eq_iff]
  obtain ⟨_, _, _, heq⟩ := w.afterPrepare_eq kind user pair
  obtain ⟨_, _, _, heq'⟩ := w'.afterPrepare_eq kind.swap user pair
  rw [heq] at hleft hwaiting ⊢
  rw [heq'] at hright hwaiting ⊢
  exact ⟨hleft, hright, h.projectId, h.userId, h.shouldLoadIcons,
    congrArg (· + 1) h.allocated, hwaiting, h.realm, h.calls, h.callbacks, h.session,
    h.requests, h.completed⟩

/-- The request of a flush only depends on the pairs that it takes. -/
theorem flushTask_swapped {kind : Kind} {user : NSString} {array array' : Heap.Ref}
    (call : Call) (hprojectId : w'.projectId = w.projectId)
    (hpairs : w'.arrays.get array' = w.arrays.get array) :
    SwappedTask (w.flushTask kind user array call)
      (w'.flushTask kind.swap user array' call) := by
  have hget : (kind.handOver w.arrays array).1.get (kind.handOver w.arrays array).2 =
      w.arrays.get array := Kind.get_handedOver w.arrays
  have hget' : (kind.swap.handOver w'.arrays array').1.get
      (kind.swap.handOver w'.arrays array').2 = w.arrays.get array :=
    (Kind.get_handedOver w'.arrays).trans hpairs
  refine ⟨rfl, ?_, ?_, ?_, ?_⟩
  · intro other
    cases kind <;> simp [World.flushTask, Kind.request, Kind.swap, BKApiRequest.swap,
      BKApiRequest.withPairs, hprojectId]
  · cases kind with
    | post =>
        simp only [World.flushTask, Kind.request, Kind.swap, BKApiRequest.swap, urlRequestFor,
          BKApiRequest.body] at hget hget' ⊢
        rw [hget, hget', hprojectId]
        rfl
    | increment =>
        simp only [World.flushTask, Kind.request, Kind.swap, BKApiRequest.swap, urlRequestFor,
          BKApiRequest.body] at hget hget' ⊢
        rw [hget, hget', hprojectId]
        rfl
  · cases kind <;> rfl
  · cases kind <;> rfl

theorem Swapped.flush {kind : Kind} {target : FlushTarget} {call : Call} (h : Swapped w w')
    (hstep : w.step (.flush kind target call) = some next) :
    ∃ next', w'.step (.flush kind.swap target call) = some next' ∧ Swapped next next' := by
  have hregister := h.register call
  obtain ⟨hfresh, hcases⟩ := step_flush_eq_some.mp hstep
  have hfresh' : call.id ∉ w'.calls := by rwa [h.calls]
  rcases hcases with ⟨hnothing, rfl⟩ | ⟨user, array, hresolve, hentry, hget, rfl⟩
  · refine ⟨_, step_flush_eq_some.mpr ⟨hfresh', .inl ⟨?_, rfl⟩⟩, hregister⟩
    intro user huser
    rw [h.pending]
    rw [h.resolve] at huser
    exact hnothing user huser
  · have hpending := World.pending_of_lookup hentry
    have hsome : w'.pending kind.swap user ≠ [] := by
      rw [h.pending, hpending]
      exact hget
    obtain ⟨array', hentry', hget'⟩ := World.exists_array hsome
    have hpairs : w'.arrays.get array' = w.arrays.get array := by
      rw [← hpending, ← World.pending_of_lookup hentry', h.pending]
    refine ⟨_, step_flush_eq_some.mpr ⟨hfresh', .inr
      ⟨user, array', (h.resolve target).trans hresolve, hentry', hget', rfl⟩⟩, ?_⟩
    apply hregister.sent
      (flushTask_swapped call hregister.projectId hpairs)
      (World.afterFlush_inv hregister.left hentry)
      (World.afterFlush_inv hregister.right hentry')
    · intro other user'
      rw [World.waiting_afterFlush hregister.left, World.waiting_afterFlush hregister.right,
        hregister.waiting]
      simp only [Kind.swap_eq_iff]
    · exact World.afterFlush_eq _ _ _ _ _
    · exact World.afterFlush_eq _ _ _ _ _

/-- A get request is the same on both sides. -/
theorem Swapped.get {request : BKApiRequest} {internalCallback : InternalCallback}
    {call : Call} (h : Swapped w w') (hpairs : request.pairs? = none)
    (hrequest : request.swap = request) (hbody : ∀ arrays, request.body arrays = none)
    (hcallback : internalCallback.swap = internalCallback) :
    Swapped ((w.register call).resume (w.dataTask request internalCallback call))
      ((w'.register call).resume (w'.dataTask request internalCallback call)) := by
  have hregister := h.register call
  have htask : SwappedTask (w.dataTask request internalCallback call)
      (w'.dataTask request internalCallback call) := by
    refine ⟨rfl, ?_, ?_, ?_, hcallback.symm⟩
    · intro array
      change request.withPairs array = request.swap.withPairs array
      rw [hrequest]
    · simp only [World.dataTask, urlRequestFor, hbody, hrequest]
    · simp only [World.dataTask, urlRequestFor, hbody]
  apply hregister.sent htask (World.resume_inv hregister.left hpairs)
    (World.resume_inv hregister.right hpairs)
  · intro kind user
    rw [World.waiting_congr rfl rfl rfl, World.waiting_congr rfl rfl rfl]
    exact hregister.waiting kind user
  · exact ⟨_, _, _, rfl⟩
  · exact ⟨_, _, _, rfl⟩

/-- The two change classes react in the same way to a completion. -/
theorem SwappedTask.reaction_eq {task task' : DataTask} (h : SwappedTask task task')
    (completion : Completion) : task'.reaction completion = task.reaction completion := by
  have hreaction (json : JSONObject) :
      task'.internalCallback.reaction task.call json =
        task.internalCallback.reaction task.call json := by
    rw [h.internalCallback]
    cases task.internalCallback <;> rfl
  cases completion with
  | error _ => simp only [DataTask.reaction, h.call]
  | unparsable _ => simp only [DataTask.reaction, h.call]
  | json value => simp only [DataTask.reaction, h.call, hreaction]

theorem Swapped.complete {id : Nat} {completion : Completion} (h : Swapped w w')
    (hstep : w.step (.complete id completion) = some next) :
    ∃ next', w'.step (.complete id completion) = some next' ∧ Swapped next next' := by
  obtain ⟨task, reaction, realm, hfind, hreaction, hsave, rfl⟩ :=
    step_complete_eq_some.mp hstep
  obtain ⟨task', hfind', htask, hsession⟩ : ∃ task',
      w'.session.find? (fun task => task.call.id = id) = some task' ∧
        SwappedTask task task' ∧
        List.Forall₂ SwappedTask (w.session.eraseP fun task => task.call.id = id)
          (w'.session.eraseP fun task => task.call.id = id) :=
    Pointwise.find_of_related (fun _ _ hsame => by rw [hsame.call]) h.session hfind
  rw [← htask.reaction_eq completion] at hreaction
  rw [← h.realm] at hsave
  refine ⟨_, step_complete_eq_some.mpr ⟨task', reaction, realm, hfind', hreaction, hsave,
    rfl⟩, ?_⟩
  refine ⟨World.inv_congr h.left rfl rfl rfl rfl, World.inv_congr h.right rfl rfl rfl rfl,
    h.projectId, h.userId, h.shouldLoadIcons, h.allocated, ?_, rfl, h.calls, ?_, hsession,
    h.requests, List.rel_append h.completed (.cons ⟨htask, rfl⟩ .nil)⟩
  · intro kind user
    rw [World.waiting_congr rfl rfl rfl, World.waiting_congr rfl rfl rfl]
    exact h.waiting kind user
  · simp only [h.callbacks]

theorem Swapped.step {e : Event} (h : Swapped w w') (hstep : w.step e = some next) :
    ∃ next', w'.step e.swap = some next' ∧ Swapped next next' := by
  cases e with
  | setProjectId projectId =>
      cases hstep
      exact ⟨_, rfl, h.assign rfl h.userId h.shouldLoadIcons⟩
  | setUserId userId =>
      cases hstep
      exact ⟨_, rfl, h.assign h.projectId rfl h.shouldLoadIcons⟩
  | setShouldLoadIcons shouldLoadIcons =>
      cases hstep
      exact ⟨_, rfl, h.assign h.projectId h.userId rfl⟩
  | prepare kind value key => exact h.prepare hstep
  | flush kind target call => exact h.flush hstep
  | getProjectAchievements call =>
      obtain ⟨hfresh, rfl⟩ := step_getProjectAchievements_eq_some.mp hstep
      refine ⟨_, step_getProjectAchievements_eq_some.mpr ⟨?_, rfl⟩, ?_⟩
      · rwa [h.calls]
      · rw [h.projectId, h.shouldLoadIcons]
        exact h.get rfl rfl (fun _ => rfl) rfl
  | getUserAchievements call =>
      obtain ⟨hfresh, rfl⟩ := step_getUserAchievements_eq_some.mp hstep
      refine ⟨_, step_getUserAchievements_eq_some.mpr ⟨?_, rfl⟩, ?_⟩
      · rwa [h.calls]
      · rw [h.projectId, h.userId, h.shouldLoadIcons]
        exact h.get rfl rfl (fun _ => rfl) rfl
  | complete id completion => exact h.complete hstep

/-- Swapped worlds raise together, since exchanging twice changes nothing. -/
theorem Swapped.step_related (e : Event) (h : Swapped w w') :
    Option.Rel Swapped (w.step e) (w'.step e.swap) := by
  cases hstep : w.step e with
  | some next =>
      obtain ⟨next', hstep', hnext⟩ := h.step hstep
      rw [hstep']
      exact .some hnext
  | none =>
      cases hstep' : w'.step e.swap with
      | none => exact .none
      | some next' =>
          obtain ⟨next, hback, _⟩ := h.symm.step hstep'
          rw [Event.swap_swap, hstep] at hback
          cases hback

/-- A run and the run with the two kinds exchanged raise together, and
otherwise end in worlds that are the same up to the exchange. -/
theorem run_swap (es : List Event) :
    Option.Rel Swapped (World.initial.run es) (World.initial.run (es.map Event.swap)) :=
  Machine.run_related (fun _ _ e h => Swapped.step_related e h) Swapped.initial es

end

end BadgeKeeper

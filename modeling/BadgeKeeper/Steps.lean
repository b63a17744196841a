import BadgeKeeper.Lib.Machine
import BadgeKeeper.Client

/-!
What each event does to the world, as one equation or inversion per operation.
The two flush operations differ only in the array they hand to the request;
the completion handler is a pure decoding of the response followed by saving
rewards and invoking at most one callback. Later modules use these statements
and do not unfold the operations again.
-/

namespace BadgeKeeper

section

variable (w : World) (kind : Kind) (dictionary : NSMutableDictionary Heap.Ref)

@[simp] theorem World.dictionary_setDictionary_self :
    (w.setDictionary kind dictionary).dictionary kind = dictionary := by
  cases kind <;> rfl

theorem World.dictionary_setDictionary_of_ne {kind other : Kind} (h : other ≠ kind) :
    (w.setDictionary kind dictionary).dictionary other = w.dictionary other := by
  cases kind <;> cases other <;> first | rfl | exact absurd rfl h

/-- Storing a dictionary changes nothing else in the world. -/
theorem World.setDictionary_eq :
    ∃ post increment, w.setDictionary kind dictionary =
      { w with postValues := post, incrementValues := increment } := by
  cases kind
  · exact ⟨_, _, rfl⟩
  · exact ⟨_, _, rfl⟩

end

/-- The pairs waiting in one kind's dictionary for a user. -/
def World.pending (w : World) (kind : Kind) (user : NSString) : List BKPair :=
  match (w.dictionary kind).lookup user with
  | none => []
  | some array => w.arrays.get array

section

variable {w : World} {kind : Kind} {user : NSString}

theorem World.pending_of_lookup {array : Heap.Ref}
    (h : (w.dictionary kind).lookup user = some array) :
    w.pending kind user = w.arrays.get array := by
  simp only [World.pending, h]

/-- Something only waits for a user with an array. -/
theorem World.exists_array (h : w.pending kind user ≠ []) :
    ∃ array, (w.dictionary kind).lookup user = some array ∧ w.arrays.get array ≠ [] := by
  cases hlookup : (w.dictionary kind).lookup user with
  | none => simp [World.pending, hlookup] at h
  | some array =>
      rw [World.pending_of_lookup hlookup] at h
      exact ⟨array, rfl, h⟩

theorem World.pending_congr {w' : World} (harrays : w'.arrays = w.arrays)
    (hpost : w'.postValues = w.postValues)
    (hincrement : w'.incrementValues = w.incrementValues) (kind : Kind) (user : NSString) :
    w'.pending kind user = w.pending kind user := by
  cases kind <;> simp [World.pending, World.dictionary, harrays, hpost, hincrement]

end

section

variable (w : World)

@[simp] theorem objectForKey_run (dictionary : Kind) (key : Option NSString) :
    (objectForKey dictionary key).run w =
      .ok (key.bind fun key => (w.dictionary dictionary).lookup key) w := rfl

@[simp] theorem setObject_run_nil (dictionary : Kind) (object : Heap.Ref) :
    (setObject dictionary object none).run w = .error .invalidArgument w := rfl

@[simp] theorem setObject_run (dictionary : Kind) (object : Heap.Ref) (key : NSString) :
    (setObject dictionary object (some key)).run w =
      .ok () (w.setDictionary dictionary ((w.dictionary dictionary).insert key object)) :=
  rfl

@[simp] theorem removeObjectForKey_run (dictionary : Kind) (key : NSString) :
    (removeObjectForKey dictionary (some key)).run w =
      .ok () (w.setDictionary dictionary ((w.dictionary dictionary).erase key)) := rfl

@[simp] theorem newArray_run (contents : List BKPair) :
    (newArray contents).run w =
      .ok w.arrays.size { w with arrays := w.arrays.alloc contents } := rfl

@[simp] theorem addObject_run_array (array : Heap.Ref) (pair : BKPair) :
    (addObject (some array) pair).run w =
      .ok () { w with arrays := w.arrays.push array pair } := rfl

@[simp] theorem newPair_run (key : NSString) (value : Double) :
    (newPair key value).run w =
      .ok ⟨w.allocated, key, value⟩ { w with allocated := w.allocated + 1 } := rfl

end

/-- The world after preparing a pair for a known user. -/
def World.afterPrepare (w : World) (kind : Kind) (user : NSString) (pair : BKPair) :
    World :=
  match (w.dictionary kind).lookup user with
  | some array =>
      { w with allocated := w.allocated + 1, arrays := w.arrays.push array pair }
  | none =>
      { w.setDictionary kind ((w.dictionary kind).insert user w.arrays.size) with
        allocated := w.allocated + 1
        arrays := (w.arrays.alloc []).push w.arrays.size pair }

theorem prepareEvent_eq (value : Double) (key : NSString) (kind : Kind) :
    prepareEvent value key kind = prepareValue value key kind := by
  cases kind <;> rfl

theorem prepareEvent_run_nil (w : World) (kind : Kind) (value : Double)
    (key : NSString) (huser : w.userId = none) :
    ∃ w', (prepareEvent value key kind).run w = .error .invalidArgument w' := by
  simp [prepareEvent_eq, prepareValue, huser]

theorem prepareEvent_run (w : World) (kind : Kind) (value : Double)
    (key : NSString) {user : NSString} (huser : w.userId = some user) :
    (prepareEvent value key kind).run w =
      .ok () (w.afterPrepare kind user ⟨w.allocated, key, value⟩) := by
  rw [prepareEvent_eq]
  cases harray : (w.dictionary kind).lookup user <;> cases kind <;>
    simp only [World.dictionary] at harray <;>
    simp [prepareValue, World.afterPrepare, World.dictionary, World.setDictionary, huser,
      harray]

/-- The request that a flush of this kind builds. -/
def Kind.request : Kind → Option NSString → Option NSString → Heap.Ref → BKApiRequest
  | .post => .setUserChanges
  | .increment => .incrementUserChanges

def Kind.internalCallback : Kind → Option NSString → InternalCallback
  | .post => .setUserChanges
  | .increment => .incrementUserChanges

/-- The heap and the array that the request gets: a copy for a post, the live
array for an increment. -/
def Kind.handOver (kind : Kind) (arrays : Heap BKPair) (array : Heap.Ref) :
    Heap BKPair × Heap.Ref :=
  match kind with
  | .post => (arrays.alloc (arrays.get array), arrays.size)
  | .increment => (arrays, array)

section

variable [NumberFormat]

def flushForUserId (userId : Option NSString) (call : Call) : Kind → ObjC Unit
  | .post => postPreparedValuesForUserId userId call
  | .increment => incrementPreparedValuesForUserId userId call

/-- The user whose values a flush sends. -/
def FlushTarget.resolve (w : World) : FlushTarget → Option NSString
  | .active => w.userId
  | .user userId => userId

theorem flushEvent_run (w : World) (kind : Kind) (target : FlushTarget) (call : Call) :
    (flushEvent call kind target).run w =
      (flushForUserId (target.resolve w) call kind).run w := by
  cases kind <;> cases target <;>
    simp [flushEvent, flushForUserId, FlushTarget.resolve, postPreparedValues,
      incrementPreparedValues]

/-- The data task that a flush resumes. -/
def World.flushTask (w : World) (kind : Kind) (user : NSString) (array : Heap.Ref)
    (call : Call) : DataTask :=
  let (arrays, pairs) := kind.handOver w.arrays array
  let request := kind.request w.projectId (some user) pairs
  { call := call
    request := request
    urlRequest := urlRequestFor arrays request
    internalCallback := kind.internalCallback (some user) }

/-- The world after a data task is resumed. -/
def World.resume (w : World) (task : DataTask) : World :=
  { w with session := w.session ++ [task], requests := w.requests ++ [task] }

@[simp] theorem sendRequest_run (w : World) (request : BKApiRequest)
    (internalCallback : InternalCallback) (call : Call) :
    (sendRequest request internalCallback call).run w =
      .ok () (w.resume ⟨call, request, urlRequestFor w.arrays request, internalCallback⟩) :=
  rfl

/-- The world after a flush that had something to send. -/
def World.afterFlush (w : World) (kind : Kind) (user : NSString) (array : Heap.Ref)
    (call : Call) : World :=
  World.resume
    { w.setDictionary kind ((w.dictionary kind).erase user) with
      arrays := (kind.handOver w.arrays array).1 }
    (w.flushTask kind user array call)

theorem flushForUserId_run_nothing (w : World) (kind : Kind) (call : Call)
    (userId : Option NSString)
    (hnothing : ∀ user, userId = some user → w.pending kind user = []) :
    (flushForUserId userId call kind).run w = .ok () w := by
  cases userId with
  | none =>
      cases kind <;>
        simp [flushForUserId, postPreparedValuesForUserId,
          incrementPreparedValuesForUserId]
  | some user =>
      have hpending := hnothing user rfl
      cases harray : (w.dictionary kind).lookup user with
      | none =>
          cases kind <;>
            simp [flushForUserId, postPreparedValuesForUserId,
              incrementPreparedValuesForUserId, harray]
      | some array =>
          have hempty : w.arrays.get array = [] := by
            simpa [World.pending, harray] using hpending
          cases kind <;>
            simp [flushForUserId, postPreparedValuesForUserId,
              incrementPreparedValuesForUserId, harray, hempty]

theorem flushForUserId_run_pending (w : World) (kind : Kind) (call : Call)
    {user : NSString} {array : Heap.Ref}
    (harray : (w.dictionary kind).lookup user = some array)
    (hpending : w.arrays.get array ≠ []) :
    (flushForUserId (some user) call kind).run w =
      .ok () (w.afterFlush kind user array call) := by
  have hlength : 0 < (w.arrays.get array).length :=
    List.length_pos_iff.mpr hpending
  cases kind with
  | post =>
      simp only [World.dictionary] at harray
      simp [flushForUserId, postPreparedValuesForUserId, harray, hlength, World.afterFlush,
        World.flushTask, Kind.handOver, Kind.request, Kind.internalCallback,
        World.dictionary, World.setDictionary]
  | increment =>
      simp only [World.dictionary] at harray
      simp [flushForUserId, incrementPreparedValuesForUserId, harray, hlength,
        World.afterFlush, World.flushTask, Kind.handOver, Kind.request,
        Kind.internalCallback, World.dictionary, World.setDictionary]

/-- What the completion handler does once the response is decoded: whose
rewards it saves, and the callback it ends with. -/
structure Reaction where
  user : Option NSString
  unlocked : List BKUnlockedAchievement
  callback : Option Callback

omit [NumberFormat] in
def Call.onSuccess (call : Call) (achievements : Achievements) : Option Callback :=
  if call.success then some (.success call.id achievements) else none

omit [NumberFormat] in
def Call.onFailure (call : Call) (code : Int32) (message : Option JSONObject) :
    Option Callback :=
  if call.failure then some (.failure call.id code message) else none

def InternalCallback.reaction (internalCallback : InternalCallback) (call : Call)
    (json : JSONObject) : Except NSException Reaction :=
  match internalCallback with
  | .getProjectAchievements =>
      (BKApiResponseGetProjectAchievements.initWithJSON json).map fun response =>
        { user := none
          unlocked := []
          callback := call.onSuccess
            (.project (response.project.map BKProject.achievements)) }
  | .getUserAchievements =>
      (BKApiResponseGetUserAchievements.initWithJSON json).map fun response =>
        { user := none
          unlocked := []
          callback := call.onSuccess (.user response.achievements) }
  | .setUserChanges userId | .incrementUserChanges userId =>
      (BKApiResponseSetUserChanges.initWithJSON json).map fun response =>
        { user := userId
          unlocked := response.achievements
          callback := call.onSuccess (.unlocked response.achievements) }

def DataTask.reaction (task : DataTask) : Completion → Except NSException Reaction
  | .error localizedDescription =>
      .ok { user := none
            unlocked := []
            callback := task.call.onFailure INTERNAL_SERVER_ERROR
              (some (.string localizedDescription)) }
  | .unparsable localizedDescription =>
      .ok { user := none
            unlocked := []
            callback := task.call.onFailure PARSING_JSON_ERROR
              (some (.string localizedDescription)) }
  | .json value =>
      (BKApiResponse.initWithJSON value).bind fun response =>
        match response.error with
        | some error =>
            .ok { user := none
                  unlocked := []
                  callback := task.call.onFailure error.code error.message }
        | none => task.internalCallback.reaction task.call value

def Reaction.perform (reaction : Reaction) : ObjC Unit := do
  onRealm (saveRewardsForUser reaction.user reaction.unlocked)
  reaction.callback.forM invoke

omit [NumberFormat] in
@[simp] theorem raising_ok {α : Type} (value : α) :
    raising (.ok value) = (pure value : ObjC α) := rfl

omit [NumberFormat] in
@[simp] theorem raising_error_run {α : Type} (exception : NSException) (w : World) :
    (raising (.error exception) : ObjC α).run w = .error exception w := rfl

omit [NumberFormat] in
/-- A reaction that saves nothing only invokes its callback. -/
theorem Reaction.perform_run_nil (w : World) (user : Option NSString)
    (callback : Option Callback) :
    (Reaction.perform ⟨user, [], callback⟩).run w =
      .ok () { w with callbacks := w.callbacks ++ callback.toList } := by
  have hstore : (onRealm (saveRewardsForUser user [])).run w = .ok () w := rfl
  cases callback with
  | none => simp [perform, hstore]
  | some callback => simp [perform, hstore, invoke]

theorem InternalCallback.run_setUserChanges (userId : Option NSString) (call : Call)
    (json : JSONObject) (w : World) :
    ((InternalCallback.setUserChanges userId).run call json).run w =
      match (InternalCallback.setUserChanges userId).reaction call json with
      | .error exception => .error exception w
      | .ok reaction => reaction.perform.run w := by
  cases hdecode : BKApiResponseSetUserChanges.initWithJSON json with
  | error exception => simp [InternalCallback.run, reaction, hdecode, Except.map]
  | ok response =>
      cases hsuccess : call.success <;>
        simp [InternalCallback.run, reaction, hdecode, Except.map, Reaction.perform,
          Call.onSuccess, hsuccess]

theorem InternalCallback.run_eq (internalCallback : InternalCallback) (call : Call)
    (json : JSONObject) (w : World) :
    (internalCallback.run call json).run w =
      match internalCallback.reaction call json with
      | .error exception => .error exception w
      | .ok reaction => reaction.perform.run w := by
  cases internalCallback with
  | getProjectAchievements =>
      cases hdecode : BKApiResponseGetProjectAchievements.initWithJSON json with
      | error exception => simp [InternalCallback.run, reaction, hdecode, Except.map]
      | ok response =>
          cases hsuccess : call.success <;>
            simp [InternalCallback.run, reaction, hdecode, Except.map,
              Reaction.perform_run_nil, Call.onSuccess, hsuccess, invoke]
  | getUserAchievements =>
      cases hdecode : BKApiResponseGetUserAchievements.initWithJSON json with
      | error exception => simp [InternalCallback.run, reaction, hdecode, Except.map]
      | ok response =>
          cases hsuccess : call.success <;>
            simp [InternalCallback.run, reaction, hdecode, Except.map,
              Reaction.perform_run_nil, Call.onSuccess, hsuccess, invoke]
  | setUserChanges userId =>
      exact InternalCallback.run_setUserChanges userId call json w
  | incrementUserChanges userId =>
      -- the increment response decodes through its superclass and nothing else differs
      exact InternalCallback.run_setUserChanges userId call json w

/-- The completion handler is a pure decoding followed by its reaction. -/
theorem handler_run (task : DataTask) (completion : Completion) (w : World) :
    (handler task completion).run w =
      match task.reaction completion with
      | .error exception => .error exception w
      | .ok reaction => reaction.perform.run w := by
  cases completion with
  | error localizedDescription =>
      cases hfailure : task.call.failure <;>
        simp [handler, DataTask.reaction, Reaction.perform_run_nil, Call.onFailure,
          hfailure, invoke]
  | unparsable localizedDescription =>
      cases hfailure : task.call.failure <;>
        simp [handler, DataTask.reaction, Reaction.perform_run_nil, Call.onFailure,
          hfailure, invoke]
  | json value =>
      cases hdecode : BKApiResponse.initWithJSON value with
      | error exception =>
          simp [handler, packetSuccess, DataTask.reaction, hdecode, Except.bind]
      | ok response =>
          cases herror : response.error with
          | none =>
              simpa [handler, packetSuccess, DataTask.reaction, hdecode, Except.bind,
                herror] using
                InternalCallback.run_eq task.internalCallback task.call value w
          | some error =>
              cases hfailure : task.call.failure <;>
                simp [handler, packetSuccess, DataTask.reaction, hdecode, Except.bind,
                  herror, Reaction.perform_run_nil, Call.onFailure, hfailure, invoke]

omit [NumberFormat] in
theorem Reaction.perform_run (reaction : Reaction) (w : World) :
    reaction.perform.run w =
      match (saveRewardsForUser reaction.user reaction.unlocked).run w.realm with
      | .error exception realm => .error exception { w with realm := realm }
      | .ok _ realm =>
          .ok ()
            { w with
              realm := realm
              callbacks := w.callbacks ++ reaction.callback.toList } := by
  cases hstore : (saveRewardsForUser reaction.user reaction.unlocked).run w.realm with
  | error exception realm =>
      have hworld : (onRealm (saveRewardsForUser reaction.user reaction.unlocked)).run w =
          .error exception { w with realm := realm } := by
        simp only [onRealm, EStateM.run] at hstore ⊢
        rw [hstore]
      simp [perform, hworld]
  | ok value realm =>
      have hworld : (onRealm (saveRewardsForUser reaction.user reaction.unlocked)).run w =
          .ok () { w with realm := realm } := by
        simp only [onRealm, EStateM.run] at hstore ⊢
        rw [hstore]
      cases hcallback : reaction.callback with
      | none => simp [perform, hworld, hcallback]
      | some callback => simp [perform, hworld, hcallback, invoke]

theorem step_prepare_eq_some {w w' : World} {kind : Kind} {value : Double}
    {key : NSString} :
    w.step (.prepare kind value key) = some w' ↔
      ∃ user, w.userId = some user ∧
        w' = w.afterPrepare kind user ⟨w.allocated, key, value⟩ := by
  cases huser : w.userId with
  | none =>
      obtain ⟨final, hrun⟩ := prepareEvent_run_nil w kind value key huser
      simp [World.step, hrun, finished]
  | some user =>
      simp [World.step, prepareEvent_run w kind value key huser, finished, eq_comm]

/-- A flush either has nothing to send and only registers the call, or hands
the waiting pairs of its user to a new data task. -/
theorem step_flush_eq_some {w w' : World} {kind : Kind} {target : FlushTarget}
    {call : Call} :
    w.step (.flush kind target call) = some w' ↔
      call.id ∉ w.calls ∧
        (((∀ user, target.resolve w = some user → w.pending kind user = []) ∧
            w' = w.register call) ∨
          ∃ user array, target.resolve w = some user ∧
            (w.dictionary kind).lookup user = some array ∧
            w.arrays.get array ≠ [] ∧
            w' = (w.register call).afterFlush kind user array call) := by
  by_cases hfresh : call.id ∈ w.calls
  · simp [World.step, World.makeCall, hfresh]
  have hstep : w.step (.flush kind target call) =
      finished ((flushForUserId (target.resolve w) call kind).run (w.register call)) := by
    have hresolve : target.resolve (w.register call) = target.resolve w := by
      cases target <;> rfl
    simp only [World.step, World.makeCall, hfresh, if_false]
    rw [flushEvent_run, hresolve]
  have hpending (user : NSString) :
      (w.register call).pending kind user = w.pending kind user := by
    cases kind <;> rfl
  have hdictionary : (w.register call).dictionary kind = w.dictionary kind := by
    cases kind <;> rfl
  by_cases hnothing : ∀ user, target.resolve w = some user → w.pending kind user = []
  · rw [hstep, flushForUserId_run_nothing (w.register call) kind call _
      (fun user huser => (hpending user).trans (hnothing user huser))]
    constructor
    · intro h
      exact ⟨hfresh, Or.inl ⟨hnothing, (Option.some.inj h).symm⟩⟩
    · rintro ⟨_, ⟨_, rfl⟩ | ⟨user, array, huser, harray, hget, _⟩⟩
      · rfl
      · have hempty := hnothing user huser
        rw [World.pending_of_lookup harray] at hempty
        exact absurd hempty hget
  · obtain ⟨user, huser, hsome⟩ : ∃ user, target.resolve w = some user ∧
        w.pending kind user ≠ [] := by
      simpa using hnothing
    obtain ⟨array, harray, hget⟩ := World.exists_array hsome
    rw [hstep, huser, flushForUserId_run_pending (w.register call) kind call
      (by rw [hdictionary]; exact harray) hget]
    constructor
    · intro h
      exact ⟨hfresh, Or.inr
        ⟨user, array, rfl, harray, hget, (Option.some.inj h).symm⟩⟩
    · rintro ⟨_, ⟨hnone, _⟩ | ⟨user', array', huser', harray', _, rfl⟩⟩
      · exact absurd (hnone user rfl) hsome
      · cases huser'
        rw [harray] at harray'
        cases harray'
        rfl

def World.dataTask (w : World) (request : BKApiRequest)
    (internalCallback : InternalCallback) (call : Call) : DataTask :=
  { call := call
    request := request
    urlRequest := urlRequestFor w.arrays request
    internalCallback := internalCallback }

theorem step_getProjectAchievements_eq_some {w w' : World} {call : Call} :
    w.step (.getProjectAchievements call) = some w' ↔
      call.id ∉ w.calls ∧
        w' = (w.register call).resume
          (w.dataTask (.getProjectAchievements w.projectId w.shouldLoadIcons)
            .getProjectAchievements call) := by
  by_cases hfresh : call.id ∈ w.calls
  · simp [World.step, World.makeCall, hfresh]
  · simp [World.step, World.makeCall, hfresh, getProjectAchievements, sendRequest,
      finished, World.register, World.resume, World.dataTask, eq_comm]

theorem step_getUserAchievements_eq_some {w w' : World} {call : Call} :
    w.step (.getUserAchievements call) = some w' ↔
      call.id ∉ w.calls ∧
        w' = (w.register call).resume
          (w.dataTask (.getUserAchievements w.projectId w.userId w.shouldLoadIcons)
            .getUserAchievements call) := by
  by_cases hfresh : call.id ∈ w.calls
  · simp [World.step, World.makeCall, hfresh]
  · simp [World.step, World.makeCall, hfresh, getUserAchievements, sendRequest,
      finished, World.register, World.resume, World.dataTask, eq_comm]

/-- A completion reaches a task in flight, whose reaction must not raise while
the response is decoded nor while its rewards are saved. -/
theorem step_complete_eq_some {w w' : World} {id : Nat} {completion : Completion} :
    w.step (.complete id completion) = some w' ↔
      ∃ task reaction realm,
        w.session.find? (fun task => task.call.id = id) = some task ∧
        task.reaction completion = .ok reaction ∧
        (saveRewardsForUser reaction.user reaction.unlocked).run w.realm =
          .ok () realm ∧
        w' = { w with
          realm := realm
          session := w.session.eraseP fun task => task.call.id = id
          completed := w.completed ++ [(task, completion)]
          callbacks := w.callbacks ++ reaction.callback.toList } := by
  cases htask : w.session.find? (fun task => task.call.id = id) with
  | none => simp [World.step, World.complete, htask]
  | some task =>
      cases hreaction : task.reaction completion with
      | error exception =>
          simp [World.step, World.complete, htask, handler_run, hreaction, finished]
      | ok reaction =>
          cases hstore : (saveRewardsForUser reaction.user reaction.unlocked).run
              w.realm with
          | error exception realm =>
              simp [World.step, World.complete, htask, handler_run, hreaction,
                Reaction.perform_run, hstore, finished]
          | ok value realm =>
              simp only [World.step, World.complete, htask, handler_run, hreaction,
                Reaction.perform_run, hstore, finished, Option.some.injEq]
              constructor
              · rintro rfl
                exact ⟨task, reaction, realm, rfl, hreaction, hstore, rfl⟩
              · rintro ⟨task', reaction', realm', rfl, hreaction', hstore', rfl⟩
                rw [hreaction] at hreaction'
                cases hreaction'
                rw [hstore] at hstore'
                cases hstore'
                rfl

end

end BadgeKeeper

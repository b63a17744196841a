import BadgeKeeper.Requests
import BadgeKeeper.Storage

/-!
The client object, the service under it and the world they act on. The world
holds the heap of pair arrays, the properties and dictionaries of the single
`BadgeKeeper` instance, the reward store and the data tasks of the URL session
that have not completed. Four lists record the history of a run: the calls
made, the requests sent, the completions delivered and the callbacks invoked.

Every public call is one atomic event, and so is the completion handler of a
data task, whose last action is the callback. A completion hands the handler
an error, bytes that do not parse, or some JSON value.
-/

namespace BadgeKeeper

/-- The two kinds of prepared values. -/
inductive Kind where
  | post
  | increment
deriving DecidableEq, Repr

/-- One call of a service operation: its identity, and which of the two
callback blocks the caller passed. -/
structure Call where
  id : Nat
  success : Bool
  failure : Bool
deriving DecidableEq

/-- The array a success callback receives, by operation. -/
inductive Achievements where
  | project (list : Option (List BKAchievement))
  | user (list : List BKUserAchievement)
  | unlocked (list : List BKUnlockedAchievement)

/-- An invocation of one of a call's blocks. -/
inductive Callback where
  | success (call : Nat) (achievements : Achievements)
  | failure (call : Nat) (code : Int32) (message : Option JSONObject)

def Callback.call : Callback → Nat
  | .success call _ => call
  | .failure call _ _ => call

/-- The success block that an operation passes to `sendPacket`, with the user
it captured. -/
inductive InternalCallback where
  | getProjectAchievements
  | getUserAchievements
  | setUserChanges (userId : Option NSString)
  | incrementUserChanges (userId : Option NSString)
deriving DecidableEq

structure NSMutableURLRequest where
  scheme : NSString
  host : NSString
  path : NSString
  query : NSString
  headers : List (NSString × NSString)
  HTTPMethod : NSString
  HTTPBody : Option ByteArray

structure DataTask where
  call : Call
  request : BKApiRequest
  urlRequest : NSMutableURLRequest
  internalCallback : InternalCallback

/-- What the completion handler of a data task receives. -/
inductive Completion where
  /-- A transport error. -/
  | error (localizedDescription : NSString)
  /-- Data that `NSJSONSerialization` reports an error for. -/
  | unparsable (localizedDescription : NSString)
  | json (value : JSONObject)

structure World where
  arrays : Heap BKPair
  /-- How many pair objects have been allocated. -/
  allocated : Nat
  projectId : Option NSString
  userId : Option NSString
  shouldLoadIcons : Bool
  postValues : NSMutableDictionary Heap.Ref
  incrementValues : NSMutableDictionary Heap.Ref
  realm : RLMRealm
  session : List DataTask
  calls : List Nat
  requests : List DataTask
  completed : List (DataTask × Completion)
  callbacks : List Callback

def World.initial : World where
  arrays := Heap.empty
  allocated := 0
  projectId := none
  userId := none
  shouldLoadIcons := false
  postValues := ∅
  incrementValues := ∅
  realm := RLMRealm.empty
  session := []
  calls := []
  requests := []
  completed := []
  callbacks := []

/-- The dictionary of one kind. -/
def World.dictionary (w : World) : Kind → NSMutableDictionary Heap.Ref
  | .post => w.postValues
  | .increment => w.incrementValues

def World.setDictionary (w : World) (kind : Kind)
    (dictionary : NSMutableDictionary Heap.Ref) : World :=
  match kind with
  | .post => { w with postValues := dictionary }
  | .increment => { w with incrementValues := dictionary }

abbrev ObjC := EStateM NSException World

/-- Run code that can only raise. -/
def raising {α : Type} : Except NSException α → ObjC α
  | .ok value => pure value
  | .error exception => throw exception

/-- Run code that only touches the reward store. -/
def onRealm {α : Type} (action : Storage α) : ObjC α := fun w =>
  match action.run w.realm with
  | .ok value realm => .ok value { w with realm := realm }
  | .error exception realm => .error exception { w with realm := realm }

def invoke (callback : Callback) : ObjC Unit :=
  modify fun w => { w with callbacks := w.callbacks ++ [callback] }

/-- `[dictionary objectForKey:key]`, which answers nil for a nil key. -/
def objectForKey (dictionary : Kind) (key : Option NSString) :
    ObjC (Option Heap.Ref) := do
  let w ← get
  return key.bind fun key => (w.dictionary dictionary).lookup key

def setObject (dictionary : Kind) (object : Heap.Ref) (key : Option NSString) :
    ObjC Unit :=
  match key with
  | none => throw .invalidArgument
  | some key =>
      modify fun w =>
        w.setDictionary dictionary ((w.dictionary dictionary).insert key object)

def removeObjectForKey (dictionary : Kind) (key : Option NSString) : ObjC Unit :=
  match key with
  | none => throw .invalidArgument
  | some key =>
      modify fun w =>
        w.setDictionary dictionary ((w.dictionary dictionary).erase key)

/-- A fresh array: `[NSMutableArray new]`, or a copy of another one. -/
def newArray (contents : List BKPair) : ObjC Heap.Ref := do
  let w ← get
  set { w with arrays := w.arrays.alloc contents }
  return w.arrays.size

def addObject (array : Option Heap.Ref) (pair : BKPair) : ObjC Unit :=
  match array with
  | none => pure ()
  | some array => modify fun w => { w with arrays := w.arrays.push array pair }

/-- `[[BKPair alloc] initWithKey:value:]`. -/
def newPair (key : NSString) (value : Double) : ObjC BKPair := do
  let w ← get
  set { w with allocated := w.allocated + 1 }
  return { object := w.allocated, key := key, value := value }

def INTERNAL_SERVER_ERROR : Int32 := -1

def PARSING_JSON_ERROR : Int32 := -2

/-- `dataUsingEncoding:NSUTF8StringEncoding`, nil for an unpaired surrogate. -/
def dataUsingEncoding (string : NSString) : Option ByteArray :=
  (Unicode.decode string).map fun text => (String.ofList text).toUTF8

variable [NumberFormat]

def urlRequestFor (arrays : Heap BKPair) (request : BKApiRequest) :
    NSMutableURLRequest :=
  let r : NSMutableURLRequest :=
    { scheme := ns "https"
      host := ns "api.badgekeeper.net"
      path := request.pathURL
      query := request.queryURL
      headers :=
        [(ns "Accept", ns "application/json"), (ns "Content-Type", ns "application/json")]
      HTTPMethod := request.HTTPMethod
      HTTPBody := none }
  match request.body arrays with
  | none => r
  | some body =>
      let bodyData := dataUsingEncoding body
      let bodyLength := (bodyData.map ByteArray.size).getD 0
      { r with
        HTTPBody := bodyData
        headers := r.headers ++ [(ns "Content-Length", ns (toString bodyLength))] }

/-- Build the URL request and resume a data task for it. -/
def sendRequest (request : BKApiRequest) (internalCallback : InternalCallback)
    (call : Call) : ObjC Unit :=
  modify fun w =>
    let task : DataTask :=
      { call := call
        request := request
        urlRequest := urlRequestFor w.arrays request
        internalCallback := internalCallback }
    { w with session := w.session ++ [task], requests := w.requests ++ [task] }

/-- The success block of an operation: decode the response again by its own
class, save the rewards of a change, hand the list to the caller. -/
def InternalCallback.run (internalCallback : InternalCallback) (call : Call)
    (json : JSONObject) : ObjC Unit := do
  match internalCallback with
  | .getProjectAchievements =>
      let response ← raising (BKApiResponseGetProjectAchievements.initWithJSON json)
      if call.success then
        invoke (.success call.id (.project (response.project.map BKProject.achievements)))
  | .getUserAchievements =>
      let response ← raising (BKApiResponseGetUserAchievements.initWithJSON json)
      if call.success then
        invoke (.success call.id (.user response.achievements))
  | .setUserChanges userId =>
      let response ← raising (BKApiResponseSetUserChanges.initWithJSON json)
      onRealm (saveRewardsForUser userId response.achievements)
      if call.success then
        invoke (.success call.id (.unlocked response.achievements))
  | .incrementUserChanges userId =>
      let response ← raising (BKApiResponseIncrementUserChanges.initWithJSON json)
      onRealm (saveRewardsForUser userId response.achievements)
      if call.success then
        invoke (.success call.id (.unlocked response.achievements))

/-- The block that `sendPacket` gives the service as its success block. -/
def packetSuccess (task : DataTask) (json : JSONObject) : ObjC Unit := do
  let response ← raising (BKApiResponse.initWithJSON json)
  match response.error with
  | some error =>
      if task.call.failure then
        invoke (.failure task.call.id error.code error.message)
  | none => task.internalCallback.run task.call json

/-- The completion handler that `sendRequest` gives the data task. -/
def handler (task : DataTask) (completion : Completion) : ObjC Unit := do
  match completion with
  | .error localizedDescription =>
      if task.call.failure then
        invoke (.failure task.call.id INTERNAL_SERVER_ERROR
          (some (.string localizedDescription)))
  | .unparsable localizedDescription =>
      if task.call.failure then
        invoke (.failure task.call.id PARSING_JSON_ERROR
          (some (.string localizedDescription)))
  | .json value => packetSuccess task value

def getProjectAchievements (call : Call) : ObjC Unit := do
  let self ← get
  sendRequest (.getProjectAchievements self.projectId self.shouldLoadIcons)
    .getProjectAchievements call

def getUserAchievements (call : Call) : ObjC Unit := do
  let self ← get
  sendRequest (.getUserAchievements self.projectId self.userId self.shouldLoadIcons)
    .getUserAchievements call

omit [NumberFormat] in
def prepareValue (value : Double) (key : NSString) (dictionary : Kind) :
    ObjC Unit := do
  let userId := (← get).userId
  let pair ← newPair key value
  if (← objectForKey dictionary userId).isNone then
    setObject dictionary (← newArray []) userId
  addObject (← objectForKey dictionary userId) pair

def preparePostValue (value : Double) (key : NSString) : ObjC Unit :=
  prepareValue value key .post

def prepareIncrementValue (value : Double) (key : NSString) : ObjC Unit :=
  prepareValue value key .increment

/-- The request gets a copy of the array of pairs. -/
def postPreparedValuesForUserId (userId : Option NSString) (call : Call) :
    ObjC Unit := do
  match ← objectForKey .post userId with
  | none => return ()
  | some pairs =>
      let contents := (← get).arrays.get pairs
      if 0 < contents.length then
        let copied ← newArray contents
        let request := BKApiRequest.setUserChanges (← get).projectId userId copied
        removeObjectForKey .post userId
        sendRequest request (.setUserChanges userId) call

/-- The request gets the array of the dictionary itself. -/
def incrementPreparedValuesForUserId (userId : Option NSString) (call : Call) :
    ObjC Unit := do
  match ← objectForKey .increment userId with
  | none => return ()
  | some pairs =>
      let contents := (← get).arrays.get pairs
      if 0 < contents.length then
        let request := BKApiRequest.incrementUserChanges (← get).projectId userId pairs
        removeObjectForKey .increment userId
        sendRequest request (.incrementUserChanges userId) call

def postPreparedValues (call : Call) : ObjC Unit := do
  postPreparedValuesForUserId (← get).userId call

def incrementPreparedValues (call : Call) : ObjC Unit := do
  incrementPreparedValuesForUserId (← get).userId call

def readRewardValuesForName (name userId : Option NSString) :
    ObjC (Bool × List BKEntityReward) := do
  let result ← onRealm (BKEntityStorage.readRewardValuesForName name userId)
  return (true, result)

/-- Whose values a flush call names. -/
inductive FlushTarget where
  /-- `…WithSuccess:withFailure:`, which passes the active user. -/
  | active
  /-- `…ForUserId:withSuccess:withFailure:`. -/
  | user (userId : Option NSString)

inductive Event where
  | setProjectId (projectId : Option NSString)
  | setUserId (userId : Option NSString)
  | setShouldLoadIcons (shouldLoadIcons : Bool)
  /-- For a key that is not nil. -/
  | prepare (kind : Kind) (value : Double) (key : NSString)
  | flush (kind : Kind) (target : FlushTarget) (call : Call)
  | getProjectAchievements (call : Call)
  | getUserAchievements (call : Call)
  | complete (call : Nat) (completion : Completion)

def prepareEvent (value : Double) (key : NSString) : Kind → ObjC Unit
  | .post => preparePostValue value key
  | .increment => prepareIncrementValue value key

def flushEvent (call : Call) : Kind → FlushTarget → ObjC Unit
  | .post, .active => postPreparedValues call
  | .post, .user userId => postPreparedValuesForUserId userId call
  | .increment, .active => incrementPreparedValues call
  | .increment, .user userId => incrementPreparedValuesForUserId userId call

/-- The world after code that did not raise; an uncaught exception ends the
process. -/
def finished {α : Type} : EStateM.Result NSException World α → Option World
  | .ok _ w => some w
  | .error _ _ => none

def World.register (w : World) (call : Call) : World :=
  { w with calls := w.calls ++ [call.id] }

/-- Each call of a service operation has an identity of its own. -/
def World.makeCall (w : World) (call : Call) (action : ObjC Unit) : Option World :=
  if call.id ∈ w.calls then none else finished (action.run (w.register call))

/-- A completion is delivered to a task in flight, once. -/
def World.complete (w : World) (call : Nat) (completion : Completion) : Option World :=
  match w.session.find? fun task => task.call.id = call with
  | none => none
  | some task =>
      finished ((handler task completion).run
        { w with
          session := w.session.eraseP fun task => task.call.id = call
          completed := w.completed ++ [(task, completion)] })

def World.step (w : World) : Event → Option World
  | .setProjectId projectId => some { w with projectId := projectId }
  | .setUserId userId => some { w with userId := userId }
  | .setShouldLoadIcons shouldLoadIcons =>
      some { w with shouldLoadIcons := shouldLoadIcons }
  | .prepare kind value key => finished ((prepareEvent value key kind).run w)
  | .flush kind target call => w.makeCall call (flushEvent call kind target)
  | .getProjectAchievements call => w.makeCall call (BadgeKeeper.getProjectAchievements call)
  | .getUserAchievements call => w.makeCall call (BadgeKeeper.getUserAchievements call)
  | .complete call completion => w.complete call completion

end BadgeKeeper

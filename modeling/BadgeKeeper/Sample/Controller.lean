import BadgeKeeper.Server
import BadgeKeeper.Isolation
import BadgeKeeper.Sample.ResponseText

/-!
The sample application: one screen with a login field, four buttons, an
activity indicator and a text view, on top of the client. A click starts a
request and disables the controls; the callback of the request shows its text
and enables them again. So the screen is ready exactly when no request is in
flight, there is never more than one, and the client keeps nothing waiting.
-/

namespace BadgeKeeper

/-- Which controls are enabled, and whether the indicator is animating. -/
structure Controls where
  loginTextField : Bool
  postVariablesButton : Bool
  incrementVariablesButton : Bool
  getProjectAchievementsButton : Bool
  getUserAchievementsButton : Bool
  activityIndicatorView : Bool
deriving DecidableEq

namespace Controls

def ready : Controls := ⟨true, true, true, true, true, false⟩

def busy : Controls := ⟨false, false, false, false, false, true⟩

/-- `setLoading:` -/
def setLoading (controls : Controls) (isLoading : Bool) : Controls :=
  if isLoading then
    { controls with
      loginTextField := false
      postVariablesButton := false
      incrementVariablesButton := false
      getProjectAchievementsButton := false
      getUserAchievementsButton := false
      activityIndicatorView := true }
  else
    { controls with
      loginTextField := true
      postVariablesButton := true
      incrementVariablesButton := true
      getProjectAchievementsButton := true
      getUserAchievementsButton := true
      activityIndicatorView := false }

theorem setLoading_eq (controls : Controls) (isLoading : Bool) :
    controls.setLoading isLoading = if isLoading then busy else ready := by
  cases isLoading <;> rfl

end Controls

/-- The four buttons. -/
inductive Button where
  | postVariables
  | incrementVariables
  | getUserAchievements
  | getProjectAchievements
deriving DecidableEq

def Controls.enabled (controls : Controls) : Button → Bool
  | .postVariables => controls.postVariablesButton
  | .incrementVariables => controls.incrementVariablesButton
  | .getUserAchievements => controls.getUserAchievementsButton
  | .getProjectAchievements => controls.getProjectAchievementsButton

/-- The application with the server behind it. The two counters are the static
variables of the click handlers; they count without the bound of `NSInteger`. -/
structure Sample where
  controls : Controls
  /-- The text of the login field. -/
  login : NSString
  /-- The text that the controller last gave the response view. -/
  response : NSString
  /-- The message of the alert that is shown. -/
  alert : Option NSString
  posts : Nat
  increments : Nat
  system : System

inductive SampleEvent where
  | editLogin (text : NSString)
  | click (button : Button)
  /-- The only action of the alert. -/
  | dismissAlert
  /-- A request reaches the server. -/
  | arrive (call : Nat)
  | complete (call : Nat) (completion : Completion)

namespace Sample

def projectId : NSString := ns "a93a3a6d-d5f3-4b5c-b153-538063af6121"

/-- `application:didFinishLaunchingWithOptions:` with the controls as the
interface file has them. -/
def didFinishLaunching (server : Server) : Sample where
  controls := .ready
  login := []
  response := []
  alert := none
  posts := 0
  increments := 0
  system :=
    { System.start server with
      client := { World.initial with projectId := some projectId } }

variable [NumberFormat]

/-- A call of the client. -/
def perform (s : Sample) (event : SystemEvent) : Option Sample :=
  (s.system.step event).map fun system => { s with system := system }

/-- The next call of a service operation, with both blocks. -/
def call (s : Sample) : Call := ⟨s.system.client.calls.length, true, true⟩

/-- Every action but the one for the project begins like this. -/
def isLoginValid (s : Sample) : Bool := s.login.length ≠ 0

def showAlertWithMessage (s : Sample) (message : NSString) : Sample :=
  { s with alert := some message }

/-- The check shows an alert by itself. -/
def alertLogin (s : Sample) : Sample :=
  s.showAlertWithMessage (ns "You should specify your User ID first!")

/-- `setLoading:YES` and an empty text. -/
def startLoading (s : Sample) : Sample :=
  { s with controls := s.controls.setLoading true, response := [] }

def whenLoginValid (s : Sample) (action : Sample → Option Sample) : Option Sample :=
  if s.isLoginValid then action s.startLoading
  else some s.alertLogin

def counter (s : Sample) : Kind → Nat
  | .post => s.posts
  | .increment => s.increments

/-- The part that the two click handlers of values share. -/
def sendCounter (s : Sample) (kind : Kind) : Option Sample := do
  let s ← s.perform (.client (.setUserId (some s.login)))
  let s ← s.perform (.client (.prepare kind (Double.ofNat (s.counter kind)) (ns "x")))
  s.perform (.client (.flush kind .active s.call))

def postButtonClick (s : Sample) : Option Sample :=
  s.whenLoginValid fun s => sendCounter { s with posts := s.posts + 1 } .post

def incrementButtonClick (s : Sample) : Option Sample :=
  s.whenLoginValid fun s => sendCounter { s with increments := s.increments + 1 } .increment

def getUserAchievementsClick (s : Sample) : Option Sample :=
  s.whenLoginValid fun s => do
    let s ← s.perform (.client (.setUserId (some s.login)))
    s.perform (.client (.getUserAchievements s.call))

def getProjectAchievementsClick (s : Sample) : Option Sample :=
  s.startLoading.perform (.client (.getProjectAchievements s.call))

def buttonClick (s : Sample) : Button → Option Sample
  | .postVariables => s.postButtonClick
  | .incrementVariables => s.incrementButtonClick
  | .getUserAchievements => s.getUserAchievementsClick
  | .getProjectAchievements => s.getProjectAchievementsClick

omit [NumberFormat] in
/-- The four callbacks of the controller end alike: the text, and `setLoading:NO`. -/
def didReceive (describe : JSONObject → NSString) (s : Sample) (callback : Callback) : Sample :=
  { s with response := callback.text describe, controls := s.controls.setLoading false }

/-- The handler of a request on the session's queue, which waits for the main
queue to run the callback that it invoked. -/
def complete (describe : JSONObject → NSString) (s : Sample) (call : Nat)
    (completion : Completion) : Option Sample := do
  let next ← s.perform (.client (.complete call completion))
  return (next.system.client.callbacks.drop s.system.client.callbacks.length).foldl
    (didReceive describe) next

/-- The user reaches enabled controls only, and none behind an alert. -/
def step (describe : JSONObject → NSString) (s : Sample) : SampleEvent → Option Sample
  | .editLogin text =>
      if s.controls.loginTextField ∧ s.alert = none then some { s with login := text } else none
  | .click button =>
      if s.controls.enabled button ∧ s.alert = none then s.buttonClick button else none
  | .dismissAlert => s.alert.map fun _ => { s with alert := none }
  | .arrive call => s.perform (.arrive call)
  | .complete call completion => s.complete describe call completion

def run (describe : JSONObject → NSString) : Sample → List SampleEvent → Option Sample :=
  Machine.run (step describe)

end Sample

end BadgeKeeper

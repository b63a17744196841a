import BadgeKeeper.Decoding
import BadgeKeeper.Ledger

/-!
What a completion makes the client do. The handler raises in the decoding
exactly when the response does not have the shape that the operation expects;
otherwise it saves the rewards of a change and ends with one callback, both
functions of the response alone.
-/

namespace BadgeKeeper

open JSONObject

variable [NumberFormat]

namespace InternalCallback

omit [NumberFormat] in
def shape : InternalCallback → JSONObject → Bool
  | .getProjectAchievements => BKApiResponseGetProjectAchievements.shape
  | .getUserAchievements => BKApiResponseGetUserAchievements.shape
  | .setUserChanges _ | .incrementUserChanges _ => BKApiResponseSetUserChanges.shape

omit [NumberFormat] in
/-- The user whose rewards are saved. -/
def user : InternalCallback → Option NSString
  | .getProjectAchievements | .getUserAchievements => none
  | .setUserChanges userId | .incrementUserChanges userId => userId

def unlocked (json : JSONObject) : InternalCallback → List BKUnlockedAchievement
  | .getProjectAchievements | .getUserAchievements => []
  | .setUserChanges _ | .incrementUserChanges _ =>
      (BKApiResponseSetUserChanges.read json).achievements

/-- The list that the success block of the caller gets. -/
def achievements (json : JSONObject) : InternalCallback → Achievements
  | .getProjectAchievements =>
      .project ((BKApiResponseGetProjectAchievements.read json).project.map
        BKProject.achievements)
  | .getUserAchievements => .user (BKApiResponseGetUserAchievements.read json).achievements
  | .setUserChanges _ | .incrementUserChanges _ =>
      .unlocked (BKApiResponseSetUserChanges.read json).achievements

def readReaction (internalCallback : InternalCallback) (call : Call)
    (json : JSONObject) : Reaction where
  user := internalCallback.user
  unlocked := internalCallback.unlocked json
  callback := call.onSuccess (internalCallback.achievements json)

theorem decodes_reaction (internalCallback : InternalCallback) (call : Call) :
    Decodes (internalCallback.reaction call) internalCallback.shape
      (internalCallback.readReaction call) .unrecognizedSelector := by
  intro json
  cases internalCallback with
  | getProjectAchievements =>
      simp only [reaction, shape]
      rw [BKApiResponseGetProjectAchievements.decodes_initWithJSON json]
      cases BKApiResponseGetProjectAchievements.shape json <;> rfl
  | getUserAchievements =>
      simp only [reaction, shape]
      rw [BKApiResponseGetUserAchievements.decodes_initWithJSON json]
      cases BKApiResponseGetUserAchievements.shape json <;> rfl
  | setUserChanges userId =>
      simp only [reaction, shape]
      rw [BKApiResponseSetUserChanges.decodes_initWithJSON json]
      cases BKApiResponseSetUserChanges.shape json <;> rfl
  | incrementUserChanges userId =>
      simp only [reaction, shape]
      rw [BKApiResponseSetUserChanges.decodes_initWithJSON json]
      cases BKApiResponseSetUserChanges.shape json <;> rfl

end InternalCallback

namespace DataTask

omit [NumberFormat] in
/-- Which completions the handler decodes without raising. -/
def shape (task : DataTask) : Completion → Bool
  | .error _ | .unparsable _ => true
  | .json value =>
      BKApiResponse.shape value &&
        ((errorOf value).isSome || task.internalCallback.shape value)

omit [NumberFormat] in
/-- A reaction that only passes an error on. -/
def failure (task : DataTask) (code : Int32) (message : Option JSONObject) : Reaction where
  user := none
  unlocked := []
  callback := task.call.onFailure code message

def readReaction (task : DataTask) : Completion → Reaction
  | .error localizedDescription =>
      task.failure INTERNAL_SERVER_ERROR (some (.string localizedDescription))
  | .unparsable localizedDescription =>
      task.failure PARSING_JSON_ERROR (some (.string localizedDescription))
  | .json value =>
      match errorOf value with
      | some error =>
          task.failure (readInt (error.member? (ns "Code"))) (error.member? (ns "Message"))
      | none => task.internalCallback.readReaction task.call value

theorem decodes_reaction (task : DataTask) :
    Decodes task.reaction task.shape task.readReaction .unrecognizedSelector := by
  intro completion
  cases completion with
  | error _ => rfl
  | unparsable _ => rfl
  | json value =>
      simp only [reaction, shape]
      rw [BKApiResponse.decodes_initWithJSON.bind value]
      cases BKApiResponse.shape value with
      | false => rfl
      | true =>
          cases herror : errorOf value with
          | some error =>
              simp [BKApiResponse.read, BKApiResponseError.read, readReaction, failure,
                herror]
          | none =>
              simpa [BKApiResponse.read, readReaction, herror] using
                InternalCallback.decodes_reaction task.internalCallback task.call value

end DataTask

end BadgeKeeper

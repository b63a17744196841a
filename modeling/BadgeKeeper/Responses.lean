import BadgeKeeper.Models

/-!
The response classes of `Network/Packets/Responses`. Every operation's class
extends `BKApiResponse`, whose initializer decodes the `Error` member first.
-/

namespace BadgeKeeper

structure BKApiResponseError where
  code : Int32
  message : Option JSONObject

structure BKApiResponse where
  error : Option BKApiResponseError

structure BKApiResponseGetProjectAchievements extends BKApiResponse where
  project : Option BKProject

structure BKApiResponseGetUserAchievements extends BKApiResponse where
  achievements : List BKUserAchievement

structure BKApiResponseSetUserChanges extends BKApiResponse where
  achievements : List BKUnlockedAchievement

abbrev BKApiResponseIncrementUserChanges := BKApiResponseSetUserChanges

open JSONObject

variable [NumberFormat]

def BKApiResponseError.initWithJSON (json : JSONObject) :
    Except NSException BKApiResponseError := do
  let code ← intValue (← json.subscript (ns "Code"))
  let message ← json.subscript (ns "Message")
  return { code := code, message := copy message }

def BKApiResponse.initWithJSON (json : JSONObject) :
    Except NSException BKApiResponse := do
  match unlessNull (← json.subscript (ns "Error")) with
  | none => return { error := none }
  | some error => return { error := some (← BKApiResponseError.initWithJSON error) }

def BKApiResponseGetProjectAchievements.initWithJSON (json : JSONObject) :
    Except NSException BKApiResponseGetProjectAchievements := do
  let super ← BKApiResponse.initWithJSON json
  match unlessNull (← json.subscript (ns "Result")) with
  | none => return { super with project := none }
  | some result =>
      return { super with project := some (← BKProject.initWithJSON result) }

def BKApiResponseGetUserAchievements.initWithJSON (json : JSONObject) :
    Except NSException BKApiResponseGetUserAchievements := do
  let super ← BKApiResponse.initWithJSON json
  let items ← enumerate (unlessNull (← json.subscript (ns "Result")))
  let list ← items.mapM BKUserAchievement.initWithJSON
  return { super with achievements := list }

def BKApiResponseSetUserChanges.initWithJSON (json : JSONObject) :
    Except NSException BKApiResponseSetUserChanges := do
  let super ← BKApiResponse.initWithJSON json
  let items ← enumerate (unlessNull (← json.subscript (ns "Result")))
  let list ← items.mapM BKUnlockedAchievement.initWithJSON
  return { super with achievements := list }

/-- The increment response only calls its superclass. -/
def BKApiResponseIncrementUserChanges.initWithJSON (json : JSONObject) :
    Except NSException BKApiResponseIncrementUserChanges :=
  BKApiResponseSetUserChanges.initWithJSON json

end BadgeKeeper

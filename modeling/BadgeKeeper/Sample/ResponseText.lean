import BadgeKeeper.Client
import BadgeKeeper.Sample.Numbers

/-!
The texts that the sample shows for a callback. A list is written element by
element, with a separator after all but the last, and no text in it is escaped.
How an object that is no string describes itself is a parameter.
-/

namespace BadgeKeeper

/-- `%@` of a member that the decoders copied. -/
def formatMember (describe : JSONObject → NSString) : Option JSONObject → NSString
  | none => ns "(null)"
  | some .null => ns "<null>"
  | some (.string text) => text
  | some other => describe other

/-- The three loops over a list. Every element was allocated by a decoder, so it
is identical to the last object only in the last place. -/
def appendTexts {α : Type} (text : α → NSString) : NSString → List α → NSString
  | written, [] => written
  | written, element :: rest =>
      let atext := text element
      let atext := if rest.isEmpty then atext else atext ++ ns ", "
      appendTexts text (written ++ atext) rest

theorem appendTexts_eq {α : Type} (text : α → NSString) (written : NSString) (list : List α) :
    appendTexts text written list = written ++ (ns ", ").intercalate (list.map text) := by
  induction list generalizing written with
  | nil => simp [appendTexts]
  | cons element rest ih =>
      rw [appendTexts, ih]
      cases rest with
      | nil => simp
      | cons next rest => simp [List.intercalate_cons_cons]

section

variable (describe : JSONObject → NSString)

def BKAchievement.text (achievement : BKAchievement) : NSString :=
  ns "\x7b \"Title\": \"" ++ formatMember describe achievement.displayName ++
    ns "\", \"Description\": \"" ++ formatMember describe achievement.desc ++ ns "\" \x7d"

def yesOrNo (isUnlocked : Bool) : NSString := if isUnlocked then ns "YES" else ns "NO"

def BKUserAchievement.text (achievement : BKUserAchievement) : NSString :=
  ns "\x7b \"Title\": \"" ++ formatMember describe achievement.displayName ++
    ns "\", \"Description\": \"" ++ formatMember describe achievement.desc ++
    ns "\", \"IsUnlocked\":\"" ++ yesOrNo achievement.isUnlocked ++ ns "\" \x7d"

def BKReward.text (reward : BKReward) : NSString :=
  ns "\x7b \"Name\": \"" ++ formatMember describe reward.name ++ ns "\", \"Value\": " ++
    reward.value.fixed ++ ns " \x7d"

def BKUnlockedAchievement.text (achievement : BKUnlockedAchievement) : NSString :=
  let atext :=
    ns "\x7b \"Title\": \"" ++ formatMember describe achievement.displayName ++
      ns "\", \"Description\": \"" ++ formatMember describe achievement.desc ++
      ns "\", \"IsUnlocked\":\"" ++ yesOrNo achievement.isUnlocked ++
      ns "\", \"Rewards\": ["
  appendTexts (BKReward.text describe) atext achievement.rewards ++ ns "] \x7d"

/-- The text for a list of achievements. -/
def achievementsText {α : Type} (text : α → NSString) (achievements : List α) : NSString :=
  appendTexts text (ns "Achievements: [") achievements ++ ns "]"

/-- A list that is nil has no elements to loop over. -/
def Achievements.text : Achievements → NSString
  | .project list => achievementsText (BKAchievement.text describe) (list.getD [])
  | .user list => achievementsText (BKUserAchievement.text describe) list
  | .unlocked list => achievementsText (BKUnlockedAchievement.text describe) list

/-- The bracket is not closed. -/
def errorText (code : Int32) (message : Option JSONObject) : NSString :=
  ns "Error: [\"Code\": " ++ formatCode code ++ ns ", \"Message\": \"" ++
    formatMember describe message ++ ns "\""

/-- The text of each of the four callbacks of the controller. -/
def Callback.text : Callback → NSString
  | .success _ achievements => achievements.text describe
  | .failure _ code message => errorText describe code message

end

end BadgeKeeper

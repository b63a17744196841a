import BadgeKeeper.Foundation

/-!
The model objects of `Objects/` and their `initWithJSON:` decoders. The
declared property types are not checked at run time: a copied member keeps
whatever class the response gave it, and a decoder raises only where it sends
a message that this class does not implement.
-/

namespace BadgeKeeper

/-- A prepared value. `object` is the identity of the allocated pair, which the
separator loop of the request body compares. The key is not nil; the body, which
alone reads it, would print a nil key as `(null)`. -/
structure BKPair where
  object : Nat
  key : NSString
  value : Double
deriving DecidableEq

/-- The prepared content without the identity of its object. -/
def BKPair.entry (pair : BKPair) : NSString × Double := (pair.key, pair.value)

structure BKReward where
  name : Option JSONObject
  value : Double

structure BKAchievement where
  displayName : Option JSONObject
  desc : Option JSONObject
  iconUnlocked : Option JSONObject
  iconLocked : Option JSONObject

structure BKUserAchievement extends BKAchievement where
  isUnlocked : Bool

structure BKUnlockedAchievement extends BKUserAchievement where
  rewards : List BKReward

structure BKProject where
  title : Option JSONObject
  desc : Option JSONObject
  icon : Option JSONObject
  achievements : List BKAchievement

open JSONObject

def BKAchievement.initWithJSON (json : JSONObject) :
    Except NSException BKAchievement := do
  let displayName ← json.subscript (ns "DisplayName")
  let desc ← json.subscript (ns "Description")
  let iconUnlocked ← json.subscript (ns "UnlockedIcon")
  let iconLocked ← json.subscript (ns "LockedIcon")
  return {
    displayName := copy displayName
    desc := copy desc
    iconUnlocked := copy iconUnlocked
    iconLocked := copy iconLocked }

def BKProject.initWithJSON (json : JSONObject) : Except NSException BKProject := do
  let title ← json.subscript (ns "Title")
  let desc ← json.subscript (ns "Description")
  let icon ← json.subscript (ns "Icon")
  let items ← enumerate (← json.subscript (ns "Achievements"))
  let list ← items.mapM BKAchievement.initWithJSON
  return { title := copy title, desc := copy desc, icon := copy icon, achievements := list }

section

variable [NumberFormat]

def BKReward.initWithJSON (json : JSONObject) : Except NSException BKReward := do
  let name ← json.subscript (ns "Name")
  let value ← doubleValue (← json.subscript (ns "Value"))
  return { name := copy name, value := value }

def BKUserAchievement.initWithJSON (json : JSONObject) :
    Except NSException BKUserAchievement := do
  let super ← BKAchievement.initWithJSON json
  let isUnlocked ← boolValue (← json.subscript (ns "IsUnlocked"))
  return { super with isUnlocked := isUnlocked }

def BKUnlockedAchievement.initWithJSON (json : JSONObject) :
    Except NSException BKUnlockedAchievement := do
  let super ← BKUserAchievement.initWithJSON json
  let items ← enumerate (← json.subscript (ns "Rewards"))
  let list ← items.mapM BKReward.initWithJSON
  return { super with rewards := list }

end

end BadgeKeeper

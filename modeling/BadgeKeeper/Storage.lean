import BadgeKeeper.Responses

/-!
The reward table and its Realm. A write transaction collects rows and commits
them; nothing in the repository cancels one, so an exception between begin and
commit leaves it open. Which of the coming `addObject:` and
`commitWriteTransaction` calls fail on their own is the environment's choice,
`faults`. `addObject:` also raises by itself when the name is of a class that
cannot be stored in a string column.
-/

namespace BadgeKeeper

/-- A row of the reward table. -/
structure BKEntityReward where
  name : Option NSString
  user : Option NSString
  value : Double
deriving DecidableEq

structure RLMRealm where
  /-- The committed rows, in insertion order. -/
  rows : List BKEntityReward
  /-- The rows of the open write transaction. -/
  written : List BKEntityReward
  inWriteTransaction : Bool
  /-- Whether each of the coming `addObject:` and commit calls fails. -/
  faults : List Bool
deriving DecidableEq

abbrev Storage := EStateM NSException RLMRealm

namespace RLMRealm

/-- The default realm of a fresh installation whose calls never fail. -/
def empty : RLMRealm := ⟨[], [], false, []⟩

def beginWriteTransaction : Storage Unit := do
  let realm ← get
  if realm.inWriteTransaction then
    throw .realm
  else
    set { realm with inWriteTransaction := true, written := [] }

/-- Consume the environment's choice for this call. -/
def fault : Storage Unit := do
  let realm ← get
  match realm.faults with
  | [] => return ()
  | failed :: rest =>
      set { realm with faults := rest }
      if failed then throw .realm

/-- A string column takes a string, and stores nil for nil and for null. -/
def stringColumn (value : Option JSONObject) : Except NSException (Option NSString) :=
  match value with
  | none | some .null => .ok none
  | some (.string string) => .ok (some string)
  | some _ => .error .unrecognizedSelector

def addObject (name : Option JSONObject) (user : Option NSString) (value : Double) :
    Storage Unit := do
  fault
  match stringColumn name with
  | .error exception => throw exception
  | .ok column =>
      modify fun realm => { realm with written := realm.written ++ [⟨column, user, value⟩] }

def commitWriteTransaction : Storage Unit := do
  fault
  modify fun realm =>
    { realm with
      rows := realm.rows ++ realm.written
      written := []
      inWriteTransaction := false }

end RLMRealm

namespace BKEntityStorage

open RLMRealm

def saveRewardValueForName (name : Option JSONObject) (value : Double)
    (user : Option NSString) : Storage Unit := do
  beginWriteTransaction
  addObject name user value
  commitWriteTransaction

/-- The rows selected by `name == %@ AND user == %@`. -/
def readRewardValuesForName (name user : Option NSString) :
    Storage (List BKEntityReward) := do
  let realm ← get
  return realm.rows.filter fun row => row.name = name ∧ row.user = user

end BKEntityStorage

/-- `saveRewardsForUser:withUnlockedAchievements:` of the client. The list that
the decoders build is never nil, and the count checks only skip empty loops. -/
def saveRewardsForUser (userId : Option NSString) (list : List BKUnlockedAchievement) :
    Storage Unit := do
  if 0 < list.length then
    list.forM fun achievement => do
      if 0 < achievement.rewards.length then
        achievement.rewards.forM fun reward =>
          BKEntityStorage.saveRewardValueForName reward.name reward.value userId

end BadgeKeeper

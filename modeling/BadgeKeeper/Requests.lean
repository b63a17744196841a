import BadgeKeeper.Models

/-!
The request classes of `Network/Packets/Requests`. A request refers to its
array of pairs; the body is read from that array when it is asked for.
-/

namespace BadgeKeeper

inductive BKApiRequest where
  | getProjectAchievements (projectId : Option NSString) (shouldLoadIcons : Bool)
  | getUserAchievements (projectId userId : Option NSString) (shouldLoadIcons : Bool)
  | setUserChanges (projectId userId : Option NSString) (pairs : Heap.Ref)
  | incrementUserChanges (projectId userId : Option NSString) (pairs : Heap.Ref)
deriving DecidableEq

namespace BKApiRequest

def pathURL : BKApiRequest → NSString
  | .getProjectAchievements projectId _ =>
      ns "/api/gateway/" ++ formatObject projectId ++ ns "/get"
  | .getUserAchievements projectId userId _ =>
      ns "/api/gateway/" ++ formatObject projectId ++ ns "/users/get/" ++
        formatObject userId
  | .setUserChanges projectId userId _ =>
      ns "/api/gateway/" ++ formatObject projectId ++ ns "/users/post/" ++
        formatObject userId
  | .incrementUserChanges projectId userId _ =>
      ns "/api/gateway/" ++ formatObject projectId ++ ns "/users/increment/" ++
        formatObject userId

def queryURL : BKApiRequest → NSString
  | .getProjectAchievements _ shouldLoadIcons
  | .getUserAchievements _ _ shouldLoadIcons =>
      ns "shouldLoadIcons=" ++ if shouldLoadIcons then ns "true" else ns "false"
  | .setUserChanges _ _ _ | .incrementUserChanges _ _ _ => []

/-- The change requests inherit the default of `BKApiRequest`. -/
def HTTPMethod : BKApiRequest → NSString
  | .getProjectAchievements _ _ | .getUserAchievements _ _ _ => ns "GET"
  | .setUserChanges _ _ _ | .incrementUserChanges _ _ _ => ns "POST"

variable [NumberFormat]

/-- One array element of the body, keys and values inserted as they are. -/
def node (pair : BKPair) : NSString :=
  ns "\x7b\"Key\":\"" ++ pair.key ++ ns "\", \"Value\":" ++
    NumberFormat.description pair.value ++ ns "\x7d"

/-- One turn of the loop over `pairs`: the separator is left out for the pair
that is the same object as the last one. -/
def appendNode (pairs : List BKPair) (body : NSString) (pair : BKPair) : NSString :=
  let body := body ++ node pair
  if pairs.getLast?.map BKPair.object ≠ some pair.object then body ++ ns "," else body

def pairsBody (pairs : List BKPair) : NSString :=
  pairs.foldl (appendNode pairs) (ns "[") ++ ns "]"

/-- Only the change requests have a body. -/
def body (arrays : Heap BKPair) : BKApiRequest → Option NSString
  | .getProjectAchievements _ _ | .getUserAchievements _ _ _ => none
  | .setUserChanges _ _ pairs | .incrementUserChanges _ _ pairs =>
      some (pairsBody (arrays.get pairs))

end BKApiRequest

end BadgeKeeper

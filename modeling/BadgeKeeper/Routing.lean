import BadgeKeeper.Lib.Path
import BadgeKeeper.Requests

/-!
Which requests share an endpoint. The four path templates insert identifiers
as they are, and every slash in an identifier separates segments like those of
the templates. Two projects can be confused precisely when the identifier of
one continues that of the other with `/users/get`, `/users/post` or
`/users/increment`.
-/

namespace BadgeKeeper

open Path

/-- The operations on behalf of a user. -/
inductive UserOperation where
  | get
  | post
  | increment
deriving DecidableEq

def UserOperation.segment : UserOperation → NSString
  | .get => ns "get"
  | .post => ns "post"
  | .increment => ns "increment"

/-- What a request addresses: its class and the identifiers of that class. -/
inductive Endpoint where
  | project (projectId : NSString)
  | user (operation : UserOperation) (projectId userId : NSString)
deriving DecidableEq

def Endpoint.projectId : Endpoint → NSString
  | .project projectId | .user _ projectId _ => projectId

/-- All identifiers are non-empty. -/
def Endpoint.Named : Endpoint → Prop
  | .project projectId => projectId ≠ []
  | .user _ projectId userId => projectId ≠ [] ∧ userId ≠ []

/-- Defined when the request's identifiers are not nil. -/
def BKApiRequest.endpoint? : BKApiRequest → Option Endpoint
  | .getProjectAchievements projectId _ => projectId.map .project
  | .getUserAchievements projectId userId _ => .map₂ (.user .get) projectId userId
  | .setUserChanges projectId userId _ => .map₂ (.user .post) projectId userId
  | .incrementUserChanges projectId userId _ => .map₂ (.user .increment) projectId userId

/-- One project identifier is the other with `/users/…` of an operation behind
it, and then nothing or further segments. -/
def Extends (longer shorter : NSString) : Prop :=
  ∃ (operation : UserOperation) (more : NSString),
    longer = shorter ++ ns "/users/" ++ operation.segment ++ more ∧
      (more = [] ∨ ∃ rest, more = ns "/" ++ rest)

def slash : UInt16 := 47

/-- What the template has behind the project. -/
def Endpoint.tail : Endpoint → List NSString
  | .project _ => [ns "get"]
  | .user operation _ userId =>
      ns "users" :: operation.segment :: segments slash userId

theorem Endpoint.tail_ne_nil (endpoint : Endpoint) : endpoint.tail ≠ [] := by
  cases endpoint <;> simp [tail]

theorem UserOperation.segment_injective : Function.Injective UserOperation.segment := by
  intro first second h
  cases first <;> cases second <;> first | rfl | exact absurd h (by decide)

theorem segments_template (projectId rest : NSString) :
    segments slash (ns "/api/gateway/" ++ projectId ++ slash :: rest) =
      [[], ns "api", ns "gateway"] ++ segments slash projectId ++ segments slash rest := by
  have hroot : ns "/api/gateway/" ++ projectId ++ slash :: rest =
      slash :: (ns "api" ++ slash :: (ns "gateway" ++ slash :: (projectId ++ slash :: rest))) :=
    rfl
  rw [hroot, segments_cons_separator, segments_append, segments_append, segments_append,
    segments_of_not_mem slash (by decide : slash ∉ ns "api"),
    segments_of_not_mem slash (by decide : slash ∉ ns "gateway")]
  rfl

theorem segments_operation (operation : UserOperation) :
    segments slash operation.segment = [operation.segment] := by
  cases operation <;> exact segments_of_not_mem slash (by decide)

/-- The segments of a request's path. -/
theorem segments_pathURL {request : BKApiRequest} {endpoint : Endpoint}
    (h : request.endpoint? = some endpoint) :
    segments slash request.pathURL =
      [[], ns "api", ns "gateway"] ++ segments slash endpoint.projectId ++ endpoint.tail := by
  have huser (operation : UserOperation) (projectId userId : NSString) :
      segments slash (ns "/api/gateway/" ++ projectId ++
          slash :: (ns "users" ++ slash :: (operation.segment ++ slash :: userId))) =
        [[], ns "api", ns "gateway"] ++ segments slash projectId ++
          (Endpoint.user operation projectId userId).tail := by
    rw [segments_template, segments_append, segments_append, segments_operation,
      segments_of_not_mem slash (by decide : slash ∉ ns "users")]
    rfl
  cases request with
  | getProjectAchievements projectId _ =>
      obtain ⟨projectId, rfl, rfl⟩ := Option.map_eq_some_iff.mp h
      have hget : segments slash (ns "get") = [ns "get"] :=
        segments_operation .get
      exact (segments_template projectId (ns "get")).trans (by rw [hget]; rfl)
  | getUserAchievements projectId userId _ =>
      obtain ⟨projectId, userId, rfl, rfl, rfl⟩ := Option.map₂_eq_some_iff.mp h
      simp only [BKApiRequest.pathURL, formatObject]
      rw [List.append_assoc]
      exact huser .get projectId userId
  | setUserChanges projectId userId _ =>
      obtain ⟨projectId, userId, rfl, rfl, rfl⟩ := Option.map₂_eq_some_iff.mp h
      simp only [BKApiRequest.pathURL, formatObject]
      rw [List.append_assoc]
      exact huser .post projectId userId
  | incrementUserChanges projectId userId _ =>
      obtain ⟨projectId, userId, rfl, rfl, rfl⟩ := Option.map₂_eq_some_iff.mp h
      simp only [BKApiRequest.pathURL, formatObject]
      rw [List.append_assoc]
      exact huser .increment projectId userId

/-- The project and what stands behind it in the template determine the
endpoint. -/
theorem Endpoint.eq_of_tail {first second : Endpoint}
    (hproject : first.projectId = second.projectId) (htail : first.tail = second.tail) :
    first = second := by
  cases first with
  | project projectId =>
      cases second with
      | project projectId' =>
          cases hproject
          rfl
      | user operation projectId' userId => simp [tail] at htail
  | user operation projectId userId =>
      cases second with
      | project projectId' => simp [tail] at htail
      | user operation' projectId' userId' =>
          simp only [tail, List.cons.injEq, true_and] at htail
          obtain ⟨hoperation, huser⟩ := htail
          cases hproject
          cases UserOperation.segment_injective hoperation
          cases segments_injective slash huser
          rfl

/-- Segments of a project that the other endpoint's template accounts for
contain the template's own. -/
theorem extends_of_tail {longer shorter : NSString} {first second : Endpoint}
    {rest : List NSString} (hrest : rest ≠ [])
    (hsegments : segments slash longer = segments slash shorter ++ rest)
    (htail : rest ++ first.tail = second.tail) : Extends longer shorter := by
  cases second with
  | project projectId =>
      obtain ⟨segment, others, rfl⟩ := List.exists_cons_of_ne_nil hrest
      have hlength : (segment :: others ++ first.tail).length = 1 := by
        rw [htail]
        rfl
      rw [List.length_append, List.length_cons] at hlength
      have hpositive := List.length_pos_iff.mpr first.tail_ne_nil
      omega
  | user operation projectId userId =>
      obtain ⟨segment, others, rfl⟩ := List.exists_cons_of_ne_nil hrest
      simp only [Endpoint.tail, List.cons_append, List.cons.injEq] at htail
      obtain ⟨rfl, hothers⟩ := htail
      cases others with
      | nil =>
          -- the template of the shorter project would have to follow at once
          exfalso
          cases first with
          | project _ =>
              simp only [List.nil_append, List.cons.injEq] at hothers
              exact segments_ne_nil slash userId hothers.2.symm
          | user operation' _ _ =>
              simp only [List.nil_append, List.cons.injEq] at hothers
              cases operation <;> exact absurd hothers.1 (by decide)
      | cons next others =>
          simp only [List.cons_append, List.cons.injEq] at hothers
          obtain ⟨rfl, _⟩ := hothers
          refine ⟨operation, others.flatMap (slash :: ·), ?_, ?_⟩
          · rw [eq_append_of_segments slash hsegments]
            simp only [List.flatMap_cons, List.append_assoc]
            rfl
          · cases others with
            | nil => exact .inl rfl
            | cons segment more => exact .inr ⟨segment ++ more.flatMap (slash :: ·), rfl⟩

/-- Requests with the same path address the same endpoint unless one project
extends the other. -/
theorem endpoint_eq_of_pathURL {r₁ r₂ : BKApiRequest} {e₁ e₂ : Endpoint}
    (h₁ : r₁.endpoint? = some e₁) (h₂ : r₂.endpoint? = some e₂)
    (hpath : r₁.pathURL = r₂.pathURL)
    (hfirst : ¬ Extends e₁.projectId e₂.projectId)
    (hsecond : ¬ Extends e₂.projectId e₁.projectId) : e₁ = e₂ := by
  have hsegments : segments slash e₁.projectId ++ e₁.tail =
      segments slash e₂.projectId ++ e₂.tail := by
    have hpaths := congrArg (segments slash) hpath
    rw [segments_pathURL h₁, segments_pathURL h₂] at hpaths
    simpa using hpaths
  rcases List.append_eq_append_iff.mp hsegments with
    ⟨rest, hproject, htail⟩ | ⟨rest, hproject, htail⟩
  · by_cases hrest : rest = []
    · subst hrest
      rw [List.append_nil] at hproject
      exact Endpoint.eq_of_tail (segments_injective slash hproject.symm) htail
    · exact absurd (extends_of_tail hrest hproject htail.symm) hsecond
  · by_cases hrest : rest = []
    · subst hrest
      rw [List.append_nil] at hproject
      exact Endpoint.eq_of_tail (segments_injective slash hproject) htail.symm
    · exact absurd (extends_of_tail hrest hproject htail.symm) hfirst

/-- A user request of an operation. -/
def UserOperation.request (operation : UserOperation) (projectId userId : NSString) :
    BKApiRequest :=
  match operation with
  | .get => .getUserAchievements (some projectId) (some userId) false
  | .post => .setUserChanges (some projectId) (some userId) 0
  | .increment => .incrementUserChanges (some projectId) (some userId) 0

@[simp] theorem UserOperation.endpoint?_request (operation : UserOperation)
    (projectId userId : NSString) :
    (operation.request projectId userId).endpoint? =
      some (.user operation projectId userId) := by
  cases operation <;> rfl

theorem UserOperation.pathURL_request (operation : UserOperation)
    (projectId userId : NSString) :
    (operation.request projectId userId).pathURL =
      ns "/api/gateway/" ++ (projectId ++ (ns "/users/" ++ operation.segment ++
        (ns "/" ++ userId))) := by
  cases operation <;> simp only [request, BKApiRequest.pathURL, formatObject,
    List.append_assoc] <;> rfl

/-- A project that extends another has a request with a path of the other. -/
theorem pathURL_collision {longer shorter : NSString} (hextends : Extends longer shorter) :
    ∃ (operation : UserOperation) (userId : NSString), userId ≠ [] ∧
      (operation.request longer (ns "u")).pathURL =
        (operation.request shorter userId).pathURL := by
  obtain ⟨operation, more, rfl, hmore⟩ := hextends
  have hrest : ∃ userId, userId ≠ [] ∧
      more ++ (ns "/users/" ++ operation.segment ++ (ns "/" ++ ns "u")) =
        ns "/" ++ userId := by
    rcases hmore with rfl | ⟨rest, rfl⟩
    · exact ⟨ns "users/" ++ operation.segment ++ (ns "/" ++ ns "u"),
        List.append_ne_nil_of_right_ne_nil _ (by decide), rfl⟩
    · exact ⟨rest ++ (ns "/users/" ++ operation.segment ++ (ns "/" ++ ns "u")),
        List.append_ne_nil_of_right_ne_nil _
          (List.append_ne_nil_of_right_ne_nil _ (by decide)), rfl⟩
  obtain ⟨userId, huser, hpath⟩ := hrest
  refine ⟨operation, userId, huser, ?_⟩
  rw [UserOperation.pathURL_request, UserOperation.pathURL_request, ← hpath]
  simp only [List.append_assoc]

theorem Extends.ne {longer shorter : NSString} (h : Extends longer shorter) :
    longer ≠ shorter := by
  obtain ⟨operation, more, rfl, _⟩ := h
  intro hsame
  have hlength := congrArg List.length hsame
  have htemplate : (ns "/users/").length = 7 := by decide
  simp only [List.length_append, htemplate] at hlength
  omega

/-- For two projects, method and path determine class, project and user of a
request if and only if neither project extends the other. -/
theorem routing_unambiguous_iff {p q : NSString} (hp : p ≠ []) (hq : q ≠ []) :
    (∀ (r₁ r₂ : BKApiRequest) (e₁ e₂ : Endpoint), r₁.endpoint? = some e₁ →
        r₂.endpoint? = some e₂ → e₁.Named → e₂.Named → e₁.projectId = p →
        e₂.projectId = q → r₁.HTTPMethod = r₂.HTTPMethod →
        r₁.pathURL = r₂.pathURL → e₁ = e₂) ↔
      ¬ Extends p q ∧ ¬ Extends q p := by
  constructor
  · intro hunambiguous
    constructor
    · intro hextends
      obtain ⟨operation, userId, huser, hpath⟩ := pathURL_collision hextends
      have hsame := hunambiguous _ _ (.user operation p (ns "u")) (.user operation q userId)
        (by simp) (by simp) ⟨hp, by decide⟩ ⟨hq, huser⟩ rfl rfl
        (by cases operation <;> rfl) hpath
      exact hextends.ne (congrArg Endpoint.projectId hsame)
    · intro hextends
      obtain ⟨operation, userId, huser, hpath⟩ := pathURL_collision hextends
      have hsame := hunambiguous _ _ (.user operation p userId) (.user operation q (ns "u"))
        (by simp) (by simp) ⟨hp, huser⟩ ⟨hq, by decide⟩ rfl rfl
        (by cases operation <;> rfl) hpath.symm
      exact hextends.ne (congrArg Endpoint.projectId hsame).symm
  · rintro ⟨hfirst, hsecond⟩ r₁ r₂ e₁ e₂ h₁ h₂ _ _ rfl rfl _ hpath
    exact endpoint_eq_of_pathURL h₁ h₂ hpath hfirst hsecond

theorem routing_unambiguous_iff_p_q :
    (∀ (r₁ r₂ : BKApiRequest) (e₁ e₂ : Endpoint), r₁.endpoint? = some e₁ →
        r₂.endpoint? = some e₂ → e₁.Named → e₂.Named → e₁.projectId = ns "p" →
        e₂.projectId = ns "q" → r₁.HTTPMethod = r₂.HTTPMethod →
        r₁.pathURL = r₂.pathURL → e₁ = e₂) ↔
      ¬ Extends (ns "p") (ns "q") ∧ ¬ Extends (ns "q") (ns "p") :=
  routing_unambiguous_iff (by decide) (by decide)

/-- The achievements of project `p/users/get` and those of user `get` of
project `p` have one address. -/
theorem project_and_user_share_path :
    ∃ (r₁ r₂ : BKApiRequest) (e₁ e₂ : Endpoint),
      r₁.endpoint? = some e₁ ∧ r₂.endpoint? = some e₂ ∧ e₁.Named ∧
      e₂.Named ∧ r₁.HTTPMethod = r₂.HTTPMethod ∧ r₁.pathURL = r₂.pathURL ∧ e₁ ≠ e₂ :=
  ⟨.getProjectAchievements (some (ns "p/users/get")) false,
    .getUserAchievements (some (ns "p")) (some (ns "get")) false,
    _, _, rfl, rfl, (by decide : ns "p/users/get" ≠ []), ⟨by decide, by decide⟩, rfl,
    by decide, by decide⟩

end BadgeKeeper

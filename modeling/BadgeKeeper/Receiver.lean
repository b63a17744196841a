import BadgeKeeper.Lib.Percent
import BadgeKeeper.Routing
import BadgeKeeper.Server
import BadgeKeeper.Wire

/-!
Requests as they arrive: a method, the bytes of a URL and the bytes of a body.
A receiver that knows the four path templates gets back the operation, the
identifiers, the icons flag and the entries of every request whose identifiers
are well-formed and have no slash and whose entries are transmissible, and of no
other. A server
that only sees these bytes therefore ends where the server of the system does.
-/

namespace BadgeKeeper

open Path

def question : UInt8 := 0x3F

def hash : UInt8 := 0x23

/-- The bytes that `NSURLComponents` leaves as they are in a path and in a
query. What would end the component is not among them. -/
structure URLCharacters where
  path : Percent.Allowed
  query : Percent.Allowed
  pathQuestion : path.allows question = false
  pathHash : path.allows hash = false
  queryHash : query.allows hash = false

/-- Letters, digits and these further bytes. -/
def allowing (others : String) : UInt8 → Bool := fun unit =>
  (0x30 ≤ unit && unit ≤ 0x39) || (0x41 ≤ unit && unit ≤ 0x5A) ||
    (0x61 ≤ unit && unit ≤ 0x7A) || others.toList.any fun c => UInt8.ofNat c.toNat = unit

/-- The documented sets of `URLPathAllowedCharacterSet` and of
`URLQueryAllowedCharacterSet`. -/
def URLCharacters.documented : URLCharacters where
  path := ⟨allowing "!$&'()*+,-./:=@_~", by decide⟩
  query := ⟨allowing "!$&'()*+,-./:;=?@_~", by decide⟩
  pathQuestion := by decide
  pathHash := by decide
  queryHash := by decide

/-- The `URL` of the components, for texts with a UTF-8 form. -/
def NSMutableURLRequest.absoluteURL (characters : URLCharacters) (r : NSMutableURLRequest) :
    Option (List UInt8) := do
  let scheme ← Unicode.toUtf8 r.scheme
  let host ← Unicode.toUtf8 r.host
  let path ← Unicode.toUtf8 r.path
  let query ← Unicode.toUtf8 r.query
  return scheme ++ [0x3A, 0x2F, 0x2F] ++ host ++
    (Percent.encode characters.path path ++ question :: Percent.encode characters.query query)

/-- What goes over the connection. -/
structure HTTPMessage where
  method : NSString
  url : List UInt8
  body : Option ByteArray

def NSMutableURLRequest.message (characters : URLCharacters) (r : NSMutableURLRequest) :
    Option HTTPMessage :=
  (r.absoluteURL characters).map fun url => ⟨r.HTTPMethod, url, r.HTTPBody⟩

/-- `https://api.badgekeeper.net` -/
def origin : List UInt8 :=
  "https://api.badgekeeper.net".toList.map fun c => UInt8.ofNat c.toNat

/-- The path and the query of a URL of this origin, without their escapes. -/
def readURL (url : List UInt8) : Option (NSString × NSString) := do
  let rest ← url.dropPrefix? origin
  let target := rest.takeWhile (· ≠ hash)
  let path ← (Percent.decode (target.takeWhile (· ≠ question))).bind Unicode.ofUtf8
  let query ← (Percent.decode ((target.dropWhile (· ≠ question)).drop 1)).bind Unicode.ofUtf8
  return (path, query)

def readOperation (segment : NSString) : Option UserOperation :=
  if segment = ns "get" then some .get
  else if segment = ns "post" then some .post
  else if segment = ns "increment" then some .increment
  else none

/-- The endpoint of a path that is one of the templates segment by segment. -/
def readEndpoint (path : NSString) : Option Endpoint :=
  match segments slash path with
  | [root, api, gateway, projectId, get] =>
      if [root, api, gateway, get] = [[], ns "api", ns "gateway", ns "get"] then
        some (.project projectId)
      else none
  | [root, api, gateway, projectId, users, operation, userId] =>
      if [root, api, gateway, users] = [[], ns "api", ns "gateway", ns "users"] then
        (readOperation operation).map fun operation => .user operation projectId userId
      else none
  | _ => none

/-- The flag in the query of a get request. -/
def readIcons (query : NSString) : Option Bool :=
  if query = ns "shouldLoadIcons=true" then some true
  else if query = ns "shouldLoadIcons=false" then some false
  else none

/-- What a receiver takes a request for. -/
inductive Received where
  | get (endpoint : Endpoint) (shouldLoadIcons : Bool)
  | change (kind : Kind) (projectId userId : NSString)
      (entries : List (NSString × Double))
deriving DecidableEq

/-- The path names the endpoint; a get request is completed by its query, a
change request by its body. -/
def interpret (read : NSString → Double) (method path query : NSString)
    (body : Option ByteArray) : Option Received :=
  (readEndpoint path).bind fun endpoint =>
    match endpoint with
    | .user .post projectId userId =>
        if method = ns "POST" then
          (readBody read body).map (.change .post projectId userId)
        else none
    | .user .increment projectId userId =>
        if method = ns "POST" then
          (readBody read body).map (.change .increment projectId userId)
        else none
    | .user .get _ _ | .project _ =>
        if method = ns "GET" then (readIcons query).map (.get endpoint) else none

def receive (read : NSString → Double) (message : HTTPMessage) : Option Received :=
  (readURL message.url).bind fun target =>
    interpret read message.method target.1 target.2 message.body

/-- What a request is meant as, for a project and a user that are not nil. -/
def World.meant (w : World) (task : DataTask) : Option Received :=
  let entries := (w.contents task).map BKPair.entry
  match task.request with
  | .getProjectAchievements projectId icons =>
      projectId.map fun projectId => .get (.project projectId) icons
  | .getUserAchievements projectId userId icons =>
      .map₂ (fun projectId userId => .get (.user .get projectId userId) icons) projectId userId
  | .setUserChanges projectId userId _ =>
      .map₂ (fun projectId userId => .change .post projectId userId entries) projectId userId
  | .incrementUserChanges projectId userId _ =>
      .map₂ (fun projectId userId => .change .increment projectId userId entries)
        projectId userId

def Endpoint.identifiers : Endpoint → List NSString
  | .project projectId => [projectId]
  | .user _ projectId userId => [projectId, userId]

def Received.endpoint : Received → Endpoint
  | .get endpoint _ => endpoint
  | .change .post projectId userId _ => .user .post projectId userId
  | .change .increment projectId userId _ => .user .increment projectId userId

section

variable (characters : URLCharacters)

theorem origin_eq :
    Unicode.toUtf8 (ns "https") = some (origin.take 5) ∧
      Unicode.toUtf8 (ns "api.badgekeeper.net") = some (origin.drop 8) ∧
      origin.take 5 ++ [0x3A, 0x2F, 0x2F] ++ origin.drop 8 = origin := by
  decide +kernel

/-- A text with a UTF-8 form is read back from its escaped form. -/
theorem decode_text (allowed : Percent.Allowed) {text : NSString} {bytes : List UInt8}
    (h : Unicode.toUtf8 text = some bytes) :
    (Percent.decode (Percent.encode allowed bytes)).bind Unicode.ofUtf8 = some text := by
  rw [Percent.decode_encode, Option.bind_some, Unicode.ofUtf8_of_toUtf8 h]

/-- A byte that does not occur before it splits the bytes. -/
theorem split_at {stop : UInt8} {first : List UInt8} (hfirst : stop ∉ first)
    (rest : List UInt8) :
    (first ++ stop :: rest).takeWhile (· ≠ stop) = first ∧
      (first ++ stop :: rest).dropWhile (· ≠ stop) = stop :: rest := by
  have hall : ∀ unit ∈ first, decide (unit ≠ stop) = true := by
    intro unit hunit
    rw [decide_eq_true_eq]
    rintro rfl
    exact hfirst hunit
  rw [List.takeWhile_append_of_pos hall, List.dropWhile_append_of_pos hall]
  simp

/-- The path and the query of a request are read back from its URL. -/
theorem readURL_absoluteURL {r : NSMutableURLRequest} (hscheme : r.scheme = ns "https")
    (hhost : r.host = ns "api.badgekeeper.net") (hpath : Unicode.WellFormed r.path)
    (hquery : Unicode.WellFormed r.query) :
    (r.absoluteURL characters).bind readURL = some (r.path, r.query) := by
  obtain ⟨path, hpathBytes⟩ := Unicode.toUtf8_of_wellFormed hpath
  obtain ⟨query, hqueryBytes⟩ := Unicode.toUtf8_of_wellFormed hquery
  obtain ⟨hschemeBytes, hhostBytes, horigin⟩ := origin_eq
  let target := Percent.encode characters.path path ++
    question :: Percent.encode characters.query query
  have hurl : r.absoluteURL characters = some (origin ++ target) := by
    simp only [NSMutableURLRequest.absoluteURL, hscheme, hhost, hschemeBytes, hhostBytes,
      hpathBytes, hqueryBytes, Option.bind_eq_bind, Option.bind_some, horigin]
    rfl
  have hquestion : question ∉ Percent.encode characters.path path := by
    apply Percent.not_mem_encode _ characters.pathQuestion
    · decide
    · decide
  have hhash : ∀ unit ∈ target, decide (unit ≠ hash) = true := by
    intro unit hunit
    rw [decide_eq_true_eq]
    rintro rfl
    rcases List.mem_append.mp hunit with hleft | hright
    · exact Percent.not_mem_encode _ characters.pathHash (by decide) (by decide) _ hleft
    · rcases List.mem_cons.mp hright with hsame | hright
      · exact absurd hsame (by decide)
      · exact Percent.not_mem_encode _ characters.queryHash (by decide) (by decide) _ hright
  have hrest : (origin ++ target).dropPrefix? origin = some target :=
    List.dropPrefix?_eq_some_iff.mpr ⟨origin, rfl, beq_self_eq_true origin⟩
  obtain ⟨htake, hdrop⟩ :=
    split_at hquestion (Percent.encode characters.query query)
  have htakeTarget : target.takeWhile (· ≠ question) = Percent.encode characters.path path :=
    htake
  have hdropTarget : target.dropWhile (· ≠ question) =
      question :: Percent.encode characters.query query := hdrop
  simp only [hurl, Option.bind_some, readURL, hrest, List.takeWhile_eq_self_iff.mpr hhash,
    htakeTarget, hdropTarget, List.drop_succ_cons, List.drop_zero, decode_text _ hpathBytes,
    decode_text _ hqueryBytes, Option.bind_eq_bind]
  rfl

end

theorem readOperation_segment (operation : UserOperation) :
    readOperation operation.segment = some operation := by
  cases operation with
  | get => rfl
  | post => rfl
  | increment => rfl

/-- Identifiers without a slash take one segment each. -/
theorem readEndpoint_pathURL {request : BKApiRequest} {endpoint : Endpoint}
    (hendpoint : request.endpoint? = some endpoint)
    (hslash : ∀ identifier ∈ endpoint.identifiers, slash ∉ identifier) :
    readEndpoint request.pathURL = some endpoint := by
  unfold readEndpoint
  rw [segments_pathURL hendpoint]
  cases endpoint with
  | project projectId =>
      have hproject := hslash projectId (by simp [Endpoint.identifiers])
      simp [Endpoint.projectId, Endpoint.tail, segments_of_not_mem slash hproject]
  | user operation projectId userId =>
      have hproject := hslash projectId (by simp [Endpoint.identifiers])
      have huser := hslash userId (by simp [Endpoint.identifiers])
      simp [Endpoint.projectId, Endpoint.tail, segments_of_not_mem slash hproject,
        segments_of_not_mem slash huser, readOperation_segment]

/-- What is read as an identifier is one segment. -/
theorem mem_segments_of_readEndpoint {path : NSString} {endpoint : Endpoint}
    (hread : readEndpoint path = some endpoint) :
    ∀ identifier ∈ endpoint.identifiers, identifier ∈ segments slash path := by
  unfold readEndpoint at hread
  split at hread
  · next hsegments =>
      split_ifs at hread
      cases hread
      simp [Endpoint.identifiers, hsegments]
  · next hsegments =>
      split_ifs at hread
      obtain ⟨operation, _, rfl⟩ := Option.map_eq_some_iff.mp hread
      simp [Endpoint.identifiers, hsegments]
  · cases hread

/-- The separator is no surrogate, so no pair reaches over it. -/
theorem wellFormed_iff_segments (path : NSString) :
    Unicode.WellFormed path ↔
      ∀ segment ∈ segments slash path, Unicode.WellFormed segment := by
  have hjoin : [slash].intercalate (segments slash path) = path := by simp [segments]
  have hslash : Unicode.IsScalar slash := by decide
  rw [← Unicode.wellFormed_intercalate hslash, hjoin]

theorem wellFormed_pathURL {request : BKApiRequest} {endpoint : Endpoint}
    (hendpoint : request.endpoint? = some endpoint)
    (hwell : ∀ identifier ∈ endpoint.identifiers, Unicode.WellFormed identifier) :
    Unicode.WellFormed request.pathURL := by
  have hproject : ∀ segment ∈ segments slash endpoint.projectId,
      Unicode.WellFormed segment := by
    apply (wellFormed_iff_segments _).mp
    apply hwell
    cases endpoint <;> simp [Endpoint.projectId, Endpoint.identifiers]
  have htail : ∀ segment ∈ endpoint.tail, Unicode.WellFormed segment := by
    cases endpoint with
    | project projectId => exact List.forall_mem_singleton.mpr (wellFormed_ns "get")
    | user operation projectId userId =>
        have huser := hwell userId (by simp [Endpoint.identifiers])
        refine List.forall_mem_cons.mpr ⟨wellFormed_ns "users", ?_⟩
        refine List.forall_mem_cons.mpr ⟨?_, (wellFormed_iff_segments userId).mp huser⟩
        cases operation <;> exact wellFormed_ns _
  rw [wellFormed_iff_segments, segments_pathURL hendpoint]
  simp only [List.forall_mem_append, List.forall_mem_cons]
  exact ⟨⟨⟨Unicode.wellFormed_nil, wellFormed_ns _, wellFormed_ns _, List.forall_mem_nil _⟩,
    hproject⟩, htail⟩

/-- The path of a request has a UTF-8 form and is read as its endpoint exactly
when the identifiers are well-formed and have no slash. -/
theorem readEndpoint_pathURL_iff {request : BKApiRequest} {endpoint : Endpoint}
    (hendpoint : request.endpoint? = some endpoint) :
    Unicode.WellFormed request.pathURL ∧ readEndpoint request.pathURL = some endpoint ↔
      ∀ identifier ∈ endpoint.identifiers,
        Unicode.WellFormed identifier ∧ slash ∉ identifier := by
  constructor
  · rintro ⟨hwell, hread⟩ identifier hidentifier
    have hsegment := mem_segments_of_readEndpoint hread identifier hidentifier
    exact ⟨(wellFormed_iff_segments _).mp hwell identifier hsegment,
      not_mem_of_mem_segments slash hsegment⟩
  · intro h
    exact ⟨wellFormed_pathURL hendpoint fun identifier hmem => (h identifier hmem).1,
      readEndpoint_pathURL hendpoint fun identifier hmem => (h identifier hmem).2⟩

theorem endpoint_of_interpret {read : NSString → Double} {method path query : NSString}
    {body : Option ByteArray} {received : Received}
    (h : interpret read method path query body = some received) :
    readEndpoint path = some received.endpoint := by
  obtain ⟨endpoint, hendpoint, hrest⟩ := Option.bind_eq_some_iff.mp h
  rw [hendpoint]
  split at hrest
  all_goals
    split_ifs at hrest
    obtain ⟨_, _, rfl⟩ := Option.map_eq_some_iff.mp hrest
    rfl

/-- Whether an endpoint is asked for achievements. -/
def Endpoint.asks : Endpoint → Bool
  | .project _ | .user .get _ _ => true
  | .user .post _ _ | .user .increment _ _ => false

theorem readIcons_queryURL (icons : Bool) :
    readIcons (ns "shouldLoadIcons=" ++ if icons then ns "true" else ns "false") =
      some icons := by
  cases icons
  · rfl
  · rfl

theorem interpret_get {read : NSString → Double} {path : NSString} {endpoint : Endpoint}
    (hread : readEndpoint path = some endpoint) (hasks : endpoint.asks = true)
    (icons : Bool) (body : Option ByteArray) :
    interpret read (ns "GET") path
        (ns "shouldLoadIcons=" ++ if icons then ns "true" else ns "false") body =
      some (.get endpoint icons) := by
  cases endpoint with
  | project projectId => simp [interpret, hread, readIcons_queryURL]
  | user operation projectId userId =>
      cases operation with
      | get => simp [interpret, hread, readIcons_queryURL]
      | post | increment => cases hasks

/-- A change request whose endpoint is read is received as what its body says. -/
theorem interpret_change {read : NSString → Double} {path query : NSString}
    {body : Option ByteArray} {kind : Kind} {projectId userId : NSString}
    {entries : List (NSString × Double)}
    (hread : readEndpoint path = some (Received.change kind projectId userId entries).endpoint) :
    interpret read (ns "POST") path query body = some (.change kind projectId userId entries) ↔
      readBody read body = some entries := by
  cases kind with
  | post => simp [interpret, hread, Received.endpoint]
  | increment => simp [interpret, hread, Received.endpoint]

theorem wellFormed_queryURL (request : BKApiRequest) :
    Unicode.WellFormed request.queryURL := by
  have hflag (icons : Bool) : Unicode.WellFormed
      (ns "shouldLoadIcons=" ++ if icons then ns "true" else ns "false") := by
    rw [Unicode.wellFormed_append (wellFormed_ns _)]
    cases icons
    · exact wellFormed_ns _
    · exact wellFormed_ns _
  cases request with
  | getProjectAchievements _ icons => exact hflag icons
  | getUserAchievements _ _ icons => exact hflag icons
  | setUserChanges _ _ _ => exact Unicode.wellFormed_nil
  | incrementUserChanges _ _ _ => exact Unicode.wellFormed_nil

section

variable [NumberFormat] {read : NSString → Double} {w : World} {task : DataTask}
  {received : Received}

omit [NumberFormat] in
/-- What a request is meant as is addressed to its endpoint. -/
theorem World.endpoint_of_meant (hmeant : w.meant task = some received) :
    task.request.endpoint? = some received.endpoint := by
  unfold World.meant at hmeant
  split at hmeant
  · next hrequest =>
      obtain ⟨_, rfl, rfl⟩ := Option.map_eq_some_iff.mp hmeant
      rw [hrequest]
      rfl
  all_goals
    next hrequest =>
      obtain ⟨_, _, rfl, rfl, rfl⟩ := Option.map₂_eq_some_iff.mp hmeant
      rw [hrequest]
      rfl

omit [NumberFormat] in
/-- A request that asks for achievements. -/
theorem World.meant_get {endpoint : Endpoint} {icons : Bool}
    (hmeant : w.meant task = some (.get endpoint icons)) :
    task.request.pairs? = none ∧ task.request.channel? = none ∧ endpoint.asks = true ∧
      task.request.HTTPMethod = ns "GET" ∧
      task.request.queryURL =
        ns "shouldLoadIcons=" ++ if icons then ns "true" else ns "false" := by
  unfold World.meant at hmeant
  split at hmeant
  · next hrequest =>
      obtain ⟨_, _, heq⟩ := Option.map_eq_some_iff.mp hmeant
      cases heq
      rw [hrequest]
      exact ⟨rfl, rfl, rfl, rfl, rfl⟩
  · next hrequest =>
      obtain ⟨_, _, _, _, heq⟩ := Option.map₂_eq_some_iff.mp hmeant
      cases heq
      rw [hrequest]
      exact ⟨rfl, rfl, rfl, rfl, rfl⟩
  all_goals
    obtain ⟨_, _, _, _, heq⟩ := Option.map₂_eq_some_iff.mp hmeant
    cases heq

omit [NumberFormat] in
/-- A request that carries values. -/
theorem World.meant_change {kind : Kind} {projectId userId : NSString}
    {entries : List (NSString × Double)}
    (hmeant : w.meant task = some (.change kind projectId userId entries)) :
    entries = (w.contents task).map BKPair.entry ∧
      task.request.channel? = some (kind, userId) ∧ task.request.pairs?.isSome ∧
      task.request.HTTPMethod = ns "POST" := by
  unfold World.meant at hmeant
  split at hmeant
  · obtain ⟨_, _, heq⟩ := Option.map_eq_some_iff.mp hmeant
    cases heq
  · obtain ⟨_, _, _, _, heq⟩ := Option.map₂_eq_some_iff.mp hmeant
    cases heq
  all_goals
    next hrequest =>
      obtain ⟨_, _, rfl, rfl, heq⟩ := Option.map₂_eq_some_iff.mp hmeant
      cases heq
      rw [hrequest]
      exact ⟨rfl, rfl, rfl, rfl⟩

/-- The receiver sees the parts that the request was built from, if its path has
a UTF-8 form. -/
theorem receive_message_eq_some (characters : URLCharacters) (hled : w.Ledger)
    (htask : task ∈ w.requests) :
    (task.urlRequest.message characters).bind (receive read) = some received ↔
      Unicode.WellFormed task.request.pathURL ∧
        interpret read task.request.HTTPMethod task.request.pathURL task.request.queryURL
          task.urlRequest.HTTPBody = some received := by
  have hparts : task.urlRequest.scheme = ns "https" ∧
      task.urlRequest.host = ns "api.badgekeeper.net" ∧
      task.urlRequest.path = task.request.pathURL ∧
      task.urlRequest.query = task.request.queryURL ∧
      task.urlRequest.HTTPMethod = task.request.HTTPMethod := by
    rw [hled.wire task htask, urlRequestFor]
    cases task.request.body w.arrays <;> exact ⟨rfl, rfl, rfl, rfl, rfl⟩
  obtain ⟨hscheme, hhost, hsamePath, hquery, hmethod⟩ := hparts
  by_cases hpath : Unicode.WellFormed task.request.pathURL
  · have hread := readURL_absoluteURL characters hscheme hhost (by rwa [hsamePath])
      (by rw [hquery]; exact wellFormed_queryURL _)
    obtain ⟨url, hurl, hread⟩ := Option.bind_eq_some_iff.mp hread
    simp only [NSMutableURLRequest.message, hurl, Option.map_some, Option.bind_some, receive,
      hread, hsamePath, hquery, hmethod, hpath, true_and]
  · have hurl : task.urlRequest.absoluteURL characters = none := by
      simp [NSMutableURLRequest.absoluteURL, hsamePath,
        Unicode.toUtf8_of_not_wellFormed hpath]
    simp [NSMutableURLRequest.message, hurl, hpath]

/-- The body of a sent change request. -/
theorem World.sent_body (hinv : w.Fresh) (hled : w.Ledger) (htask : task ∈ w.requests)
    (hchange : task.request.pairs?.isSome) :
    task.urlRequest.HTTPBody =
      dataUsingEncoding (entriesBody ((w.contents task).map BKPair.entry)) := by
  have hdistinct := hinv.sent task htask
  obtain ⟨array, harray⟩ := Option.isSome_iff_exists.mp hchange
  have hcontents : w.contents task = w.arrays.get array := by
    simp only [World.contents, harray]
  have hbody : task.request.body w.arrays =
      some (BKApiRequest.pairsBody (w.contents task)) := by
    rw [hcontents]
    cases hrequest : task.request <;> rw [hrequest] at harray <;> cases harray <;> rfl
  rw [hled.wire task htask, urlRequestFor, hbody, pairsBody_eq hdistinct]

/-- The body of a change request gives its entries back when they are all
transmissible. -/
theorem readBody_sent (hnumbers : FaithfulNumbers read) {es : List Event}
    (hrun : World.initial.run es = some w) (htask : task ∈ w.requests)
    (hchange : task.request.pairs?.isSome) :
    readBody read task.urlRequest.HTTPBody = some ((w.contents task).map BKPair.entry) ↔
      ∀ pair ∈ w.contents task, Transmissible pair.entry := by
  have hne : (w.contents task).map BKPair.entry ≠ [] :=
    mt List.map_eq_nil_iff.mp (World.contents_ne_nil hrun htask hchange).2
  rw [World.sent_body (World.reachable_fresh hrun) (World.reachable_sound hrun).2 htask hchange,
    readBody_entriesBody hnumbers hne, List.forall_mem_map]

/-- A sent request is received as what it is meant as exactly when its
identifiers are well-formed and have no slash and its entries are transmissible. -/
theorem received_as_meant_iff (characters : URLCharacters) (hnumbers : FaithfulNumbers read)
    {es : List Event} (hrun : World.initial.run es = some w) (htask : task ∈ w.requests)
    (hmeant : w.meant task = some received) :
    (task.urlRequest.message characters).bind (receive read) = some received ↔
      (∀ identifier ∈ received.endpoint.identifiers,
          Unicode.WellFormed identifier ∧ slash ∉ identifier) ∧
        ∀ pair ∈ w.contents task, Transmissible pair.entry := by
  rw [receive_message_eq_some characters (World.reachable_sound hrun).2 htask,
    ← readEndpoint_pathURL_iff (World.endpoint_of_meant hmeant)]
  cases received with
  | get endpoint icons =>
      obtain ⟨hpairs, _, hasks, hmethod, hquery⟩ := World.meant_get hmeant
      have hcontents : w.contents task = [] := by rw [World.contents, hpairs]
      rw [hcontents, hmethod, hquery]
      constructor
      · rintro ⟨hwell, h⟩
        exact ⟨⟨hwell, endpoint_of_interpret h⟩, List.forall_mem_nil _⟩
      · rintro ⟨⟨hwell, hread⟩, _⟩
        exact ⟨hwell, interpret_get hread hasks icons _⟩
  | change kind projectId userId entries =>
      obtain ⟨rfl, _, hchange, hmethod⟩ := World.meant_change hmeant
      rw [hmethod, ← readBody_sent hnumbers hrun htask hchange]
      constructor
      · rintro ⟨hwell, h⟩
        have hread := endpoint_of_interpret h
        exact ⟨⟨hwell, hread⟩, (interpret_change hread).mp h⟩
      · rintro ⟨⟨hwell, hread⟩, hentries⟩
        exact ⟨hwell, (interpret_change hread).mpr hentries⟩

end

/-- What a received request does to the stores of the projects. -/
def Received.apply (projects : NSString → Server) : Received → NSString → Server
  | .get _ _ => projects
  | .change kind projectId userId entries =>
      Function.update projects projectId
        ((projects projectId).receive (kind, userId)
          (entries.map fun entry => ⟨0, entry.1, entry.2⟩))

/-- A server that only sees what comes over the connection. -/
def serve (characters : URLCharacters) (read : NSString → Double)
    (projects : NSString → Server) (task : DataTask) : NSString → Server :=
  match (task.urlRequest.message characters).bind (receive read) with
  | none => projects
  | some received => received.apply projects

/-- What a request of the system's server does to its store. -/
def World.applied (w : World) (server : Server) (task : DataTask) : Server :=
  match task.request.channel? with
  | none => server
  | some channel => server.receive channel (w.contents task)

/-- A request for a project that a receiver can make out. -/
structure World.Legible (w : World) (projectId : NSString) (task : DataTask) : Prop where
  meant : ∃ received, w.meant task = some received ∧
    received.endpoint.projectId = projectId ∧
    ∀ identifier ∈ received.endpoint.identifiers,
      Unicode.WellFormed identifier ∧ slash ∉ identifier
  entries : ∀ pair ∈ w.contents task, Transmissible pair.entry

theorem Server.eq_of_values_totals {first second : Server}
    (hvalues : first.values = second.values) (htotals : first.totals = second.totals) :
    first = second := by
  cases first
  cases second
  cases hvalues
  cases htotals
  rfl

/-- Only the keys and values of the pairs count. -/
theorem Server.receive_entries (server : Server) (channel : Channel) (pairs : List BKPair) :
    server.receive channel ((pairs.map BKPair.entry).map fun entry => ⟨0, entry.1, entry.2⟩) =
      server.receive channel pairs := by
  obtain ⟨kind, user⟩ := channel
  cases kind <;> simp [Server.receive, BKPair.entry, Function.comp_def]

theorem World.foldl_applied (w : World) (server : Server) (tasks : List DataTask) :
    (tasks.foldl w.applied server).values =
        Delivery.overwrite server.values (tasks.flatMap (w.entries .post)) ∧
      (tasks.foldl w.applied server).totals =
        Delivery.accumulate server.totals
          ((tasks.flatMap (w.entries .increment)).map fun entry => (entry.1, entry.2.toRat)) := by
  induction tasks generalizing server with
  | nil => exact ⟨rfl, rfl⟩
  | cons task rest ih =>
      obtain ⟨hvalues, htotals⟩ := ih (w.applied server task)
      have hone : (w.applied server task).values =
          Delivery.overwrite server.values (w.entries .post task) ∧
        (w.applied server task).totals =
          Delivery.accumulate server.totals
            ((w.entries .increment task).map fun entry => (entry.1, entry.2.toRat)) := by
        cases hchannel : task.request.channel? with
        | none =>
            simp [World.applied, World.entries, hchannel, Delivery.overwrite,
              Delivery.accumulate]
        | some channel =>
            obtain ⟨kind, user⟩ := channel
            cases kind <;>
              simp [World.applied, World.entries, hchannel, Server.receive,
                Delivery.overwrite, Delivery.accumulate, Function.comp_def]
      simp only [List.foldl_cons, List.flatMap_cons, List.map_append, hvalues, htotals, hone.1,
        hone.2, Delivery.overwrite_append, Delivery.accumulate_append, and_self]

section

variable [NumberFormat] {read : NSString → Double} {w : World}

/-- A legible request does to its project what it does to the system's server. -/
theorem serve_legible (characters : URLCharacters) (hnumbers : FaithfulNumbers read)
    {es : List Event} (hrun : World.initial.run es = some w) {task : DataTask}
    (htask : task ∈ w.requests) {projectId : NSString} (hlegible : w.Legible projectId task)
    (projects : NSString → Server) :
    serve characters read projects task =
      Function.update projects projectId (w.applied (projects projectId) task) := by
  obtain ⟨⟨received, hmeant, rfl, hidentifiers⟩, hentries⟩ := hlegible
  rw [serve, (received_as_meant_iff characters hnumbers hrun htask hmeant).mpr
    ⟨hidentifiers, hentries⟩]
  cases received with
  | get endpoint icons =>
      obtain ⟨_, hchannel, _⟩ := World.meant_get hmeant
      simp [Received.apply, World.applied, hchannel]
  | change kind projectId userId entries =>
      obtain ⟨rfl, hchannel, _, _⟩ := World.meant_change hmeant
      simp only [Received.apply, Server.receive_entries, World.applied, hchannel]
      cases kind <;> rfl

theorem foldl_serve (characters : URLCharacters) (hnumbers : FaithfulNumbers read)
    {es : List Event} (hrun : World.initial.run es = some w) {projectId : NSString}
    {tasks : List DataTask} (hsent : ∀ task ∈ tasks, task ∈ w.requests)
    (hlegible : ∀ task ∈ tasks, w.Legible projectId task) (projects : NSString → Server) :
    tasks.foldl (serve characters read) projects =
      Function.update projects projectId (tasks.foldl w.applied (projects projectId)) := by
  induction tasks generalizing projects with
  | nil => simp
  | cons task rest ih =>
      obtain ⟨hfirst, hrest⟩ := List.forall_mem_cons.mp hsent
      obtain ⟨hlegibleFirst, hlegibleRest⟩ := List.forall_mem_cons.mp hlegible
      rw [List.foldl_cons, ih hrest hlegibleRest,
        serve_legible characters hnumbers hrun hfirst hlegibleFirst]
      simp

/-- A server that only sees bytes, and files the changes by project, user and
key, ends with the store of the system's server for the project of a run whose
requests are all legible, and leaves every other project alone. -/
theorem server_of_messages (characters : URLCharacters) (hnumbers : FaithfulNumbers read)
    {projects : NSString → Server} {projectId : NSString} {es : List SystemEvent} {s : System}
    (hrun : (System.start (projects projectId)).run es = some s)
    (hlegible : ∀ task ∈ s.client.requests, s.client.Legible projectId task) :
    s.arrived.foldl (serve characters read) projects =
      Function.update projects projectId s.server := by
  have hsound := System.run_sound hrun
  have hfold := foldl_serve characters hnumbers (System.run_client hrun) hsound.sent
    (fun task htask => hlegible task (hsound.sent task htask)) projects
  obtain ⟨hvalues, htotals⟩ := s.client.foldl_applied (projects projectId) s.arrived
  rw [hfold, Server.eq_of_values_totals (hvalues.trans hsound.values.symm)
    (htotals.trans hsound.totals.symm)]

end

/-- A post of one value for a project and a user with escaped characters. -/
def escapedPost : List Event :=
  [.setProjectId (some (ns "my project")),
    .setUserId (some (ns "anné?")),
    .prepare .post Double.one (ns "gold"),
    .flush .post .active ⟨0, true, true⟩]

theorem received_as_meant_iff_escaped :
    letI := NumberFormat.numerals
    ∃ w task received, World.initial.run escapedPost = some w ∧ w.requests = [task] ∧
      w.meant task = some received ∧
      ((task.urlRequest.message URLCharacters.documented).bind (receive readNumeral) =
          some received ↔
        (∀ identifier ∈ received.endpoint.identifiers,
            Unicode.WellFormed identifier ∧ slash ∉ identifier) ∧
          ∀ pair ∈ w.contents task, Transmissible pair.entry) :=
  letI := NumberFormat.numerals
  have hrun : World.initial.run escapedPost = some _ := rfl
  ⟨_, _, _, hrun, rfl, rfl, received_as_meant_iff URLCharacters.documented
    numerals_faithful hrun (List.mem_singleton_self _) rfl⟩

/-- A receiver can make out a post of that run. -/
theorem legible_escapedPost {w : World} {task : DataTask} (hrequests : w.requests = [task])
    (hmeant : w.meant task = some
      (.change .post (ns "my project") (ns "anné?") [(ns "gold", Double.one)]))
    (hcontents : w.contents task = [⟨0, ns "gold", Double.one⟩]) :
    ∀ other ∈ w.requests, w.Legible (ns "my project") other := by
  rw [hrequests, List.forall_mem_singleton]
  refine ⟨⟨_, hmeant, rfl, ?_⟩, ?_⟩
  · change ∀ identifier ∈ [ns "my project", ns "anné?"], _
    rw [List.forall_mem_cons, List.forall_mem_singleton]
    exact ⟨⟨wellFormed_ns _, by decide⟩, wellFormed_ns _, by decide⟩
  · rw [hcontents, List.forall_mem_singleton]
    decide

theorem server_of_messages_escaped :
    letI := NumberFormat.numerals
    ∃ s, (System.start Server.fresh).run
          (escapedPost.map .client ++ [.arrive 0]) = some s ∧
      s.arrived.foldl (serve URLCharacters.documented readNumeral) (fun _ => Server.fresh) =
        Function.update (fun _ => Server.fresh) (ns "my project") s.server :=
  letI := NumberFormat.numerals
  ⟨_, rfl, @server_of_messages _ _ URLCharacters.documented numerals_faithful
    (fun _ => Server.fresh) (ns "my project") (escapedPost.map .client ++ [.arrive 0]) _ rfl
    (legible_escapedPost rfl rfl rfl)⟩

end BadgeKeeper

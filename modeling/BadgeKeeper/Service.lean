import BadgeKeeper.Replies

/-!
What the client is for, as a machine of its own: values wait by kind and user,
a flush asks the server to change them, questions wait for their replies, and a
reply tells the caller and adds rewards. Nothing in it is an object or a byte:
no arrays that are shared or copied, no dictionaries, no JSON, no write
transactions. The client with its heap, its store and its decoders is this
machine, event by event, whatever it is told to do and in whatever order the
replies come.
-/

namespace BadgeKeeper

@[ext]
structure Service where
  projectId : Option NSString
  userId : Option NSString
  shouldLoadIcons : Bool
  pending : Channel → List (NSString × Double)
  calls : List Nat
  /-- The questions without a reply. -/
  waiting : List (Call × Question)
  /-- All questions in their order. -/
  asked : List (Call × Question)
  told : List Callback
  rewards : List BKEntityReward

inductive ServiceEvent where
  | setProjectId (projectId : Option NSString)
  | setUserId (userId : Option NSString)
  | setShouldLoadIcons (shouldLoadIcons : Bool)
  | prepare (kind : Kind) (value : Double) (key : NSString)
  | flush (kind : Kind) (target : FlushTarget) (call : Call)
  | getProjectAchievements (call : Call)
  | getUserAchievements (call : Call)
  | reply (call : Nat) (reply : Reply)

namespace Service

def initial : Service where
  projectId := none
  userId := none
  shouldLoadIcons := false
  pending _ := []
  calls := []
  waiting := []
  asked := []
  told := []
  rewards := []

def put (s : Service) (channel : Channel) (entry : NSString × Double) : Service :=
  { s with pending := Function.update s.pending channel (s.pending channel ++ [entry]) }

def ask (s : Service) (call : Call) (question : Question) : Service :=
  { s with
    waiting := s.waiting ++ [(call, question)]
    asked := s.asked ++ [(call, question)] }

/-- Everything that waits in the channel becomes one question. -/
def send (s : Service) (channel : Channel) (call : Call) : Service :=
  if s.pending channel = [] then s
  else
    { s.ask call (.change channel.1 s.projectId (some channel.2) (s.pending channel)) with
      pending := Function.update s.pending channel [] }

def target (s : Service) : FlushTarget → Option NSString
  | .active => s.userId
  | .user userId => userId

def call (s : Service) (call : Call) (action : Service → Service) : Option Service :=
  if call.id ∈ s.calls then none else some (action { s with calls := s.calls ++ [call.id] })

/-- The caller hears what the reply stands for, and its rewards are stored. -/
def tell (reason : NSString) (reply : Reply) (s : Service) (entry : Call × Question) : Service :=
  { s with
    waiting := s.waiting.eraseP fun other => other.1.id = entry.1.id
    told := s.told ++ (reply.callback reason entry.1).toList
    rewards := s.rewards ++ reply.rows entry.2.internalCallback.user }

def step (reason : NSString) (s : Service) : ServiceEvent → Option Service
  | .setProjectId projectId => some { s with projectId := projectId }
  | .setUserId userId => some { s with userId := userId }
  | .setShouldLoadIcons shouldLoadIcons => some { s with shouldLoadIcons := shouldLoadIcons }
  | .prepare kind value key => s.userId.map fun user => s.put (kind, user) (key, value)
  | .flush kind target call =>
      s.call call fun s =>
        match s.target target with
        | none => s
        | some user => s.send (kind, user) call
  | .getProjectAchievements call =>
      s.call call fun s => s.ask call (.project s.projectId s.shouldLoadIcons)
  | .getUserAchievements call =>
      s.call call fun s => s.ask call (.user s.projectId s.userId s.shouldLoadIcons)
  | .reply id reply =>
      (s.waiting.find? fun entry => entry.1.id = id).map (s.tell reason reply)

def run (reason : NSString) : Service → List ServiceEvent → Option Service :=
  Machine.run (step reason)

/-- A reply to a question is one that its operation may get. -/
def Polite (numbers : JSONNumbers) (s : Service) : ServiceEvent → Prop
  | .reply id reply =>
      ∀ entry ∈ s.waiting, entry.1.id = id → reply.Proper numbers entry.2.internalCallback
  | _ => True

end Service

/-- The event of the client, with the reply as its handler sees it. -/
def ServiceEvent.concrete (numbers : JSONNumbers) (reason : NSString) : ServiceEvent → Event
  | .setProjectId projectId => .setProjectId projectId
  | .setUserId userId => .setUserId userId
  | .setShouldLoadIcons shouldLoadIcons => .setShouldLoadIcons shouldLoadIcons
  | .prepare kind value key => .prepare kind value key
  | .flush kind target call => .flush kind target call
  | .getProjectAchievements call => .getProjectAchievements call
  | .getUserAchievements call => .getUserAchievements call
  | .reply id said => .complete id (said.completion numbers reason)

def World.asks (w : World) (task : DataTask) : Call × Question := (task.call, w.question task)

/-- What the client stands for. -/
def World.service (w : World) : Service where
  projectId := w.projectId
  userId := w.userId
  shouldLoadIcons := w.shouldLoadIcons
  pending channel := (w.pending channel.1 channel.2).map BKPair.entry
  calls := w.calls
  waiting := w.session.map w.asks
  asked := w.requests.map w.asks
  told := w.callbacks
  rewards := w.realm.rows

theorem World.service_initial : World.initial.service = Service.initial := by
  have hpending : World.initial.service.pending = Service.initial.pending := by
    funext channel
    obtain ⟨kind, user⟩ := channel
    cases kind <;> rfl
  exact Service.ext rfl rfl rfl hpending rfl rfl rfl rfl rfl

section

variable {w next : World}

/-- What a task asks is settled by what it carries. -/
theorem World.asks_congr {task : DataTask} (h : next.contents task = w.contents task) :
    next.asks task = w.asks task := by
  simp only [World.asks, World.question, h]

theorem World.question_internalCallback (task : DataTask) :
    (w.question task).internalCallback = task.request.internalCallback := by
  unfold World.question
  cases task.request <;> rfl

/-- A call that only moves values leaves the rest of the service. -/
theorem World.service_eq (h : ∃ arrays allocated post increment session requests, next =
    { w with
      arrays := arrays
      allocated := allocated
      postValues := post
      incrementValues := increment
      session := session
      requests := requests }) :
    next.service =
      { w.service with
        pending := next.service.pending
        waiting := next.session.map next.asks
        asked := next.requests.map next.asks } := by
  obtain ⟨_, _, _, _, _, _, rfl⟩ := h
  rfl

section

variable [NumberFormat]

theorem World.Consistent.session_sent (hw : w.Consistent) {task : DataTask}
    (htask : task ∈ w.session) : task ∈ w.requests :=
  hw.ledger.conserved.mem_iff.mpr (List.mem_append_left _ htask)

/-- A prepared pair is put into its channel, whatever array it goes to. -/
theorem World.service_afterPrepare (hw : w.Consistent) (kind : Kind) (user : NSString)
    (pair : BKPair) :
    (w.afterPrepare kind user pair).service = w.service.put (kind, user) pair.entry := by
  obtain ⟨arrays, post, increment, heq⟩ := w.afterPrepare_eq kind user pair
  have hasks : ∀ task ∈ w.requests,
      (w.afterPrepare kind user pair).asks task = w.asks task := by
    intro task htask
    exact World.asks_congr (World.contents_afterPrepare hw.inv htask)
  have hsession : (w.afterPrepare kind user pair).session = w.session := by rw [heq]
  have hrequests : (w.afterPrepare kind user pair).requests = w.requests := by rw [heq]
  have hpending : (w.afterPrepare kind user pair).service.pending =
      (w.service.put (kind, user) pair.entry).pending := by
    funext channel
    obtain ⟨other, user'⟩ := channel
    simp only [World.service, Service.put, World.pending_afterPrepare hw.inv,
      Function.update_apply, Prod.mk.injEq]
    split_ifs <;> simp
  rw [World.service_eq ⟨arrays, _, post, increment, w.session, w.requests, heq⟩, hpending,
    hsession, hrequests, List.map_congr_left hasks,
    List.map_congr_left fun task htask => hasks task (hw.session_sent htask)]
  rfl

theorem World.asks_flushTask (kind : Kind) (user : NSString) (array : Heap.Ref) (call : Call) :
    (w.afterFlush kind user array call).asks (w.flushTask kind user array call) =
      (call, .change kind w.projectId (some user)
        ((w.arrays.get array).map BKPair.entry)) := by
  rw [World.asks, World.question_flushTask]
  rfl

/-- A flush of a waiting channel asks with what waits in it, copied or not. -/
theorem World.service_afterFlush (hw : w.Inv)
    (hsent : ∀ task ∈ w.session, task ∈ w.requests) {kind : Kind} {user : NSString}
    {array : Heap.Ref} (hentry : (w.dictionary kind).lookup user = some array)
    (hget : w.arrays.get array ≠ []) (call : Call) :
    (w.afterFlush kind user array call).service = w.service.send (kind, user) call := by
  obtain ⟨arrays, post, increment, heq⟩ := w.afterFlush_eq kind user array call
  have hasks : ∀ task ∈ w.requests,
      (w.afterFlush kind user array call).asks task = w.asks task := by
    intro task htask
    exact World.asks_congr (World.contents_afterFlush hw htask)
  have hsession : (w.afterFlush kind user array call).session =
      w.session ++ [w.flushTask kind user array call] := by rw [heq]
  have hwaits : w.service.pending (kind, user) = (w.arrays.get array).map BKPair.entry :=
    congrArg (List.map BKPair.entry) (World.pending_of_lookup hentry)
  have hnonempty : w.service.pending (kind, user) ≠ [] := by
    rw [hwaits]
    exact fun hnil => hget (List.map_eq_nil_iff.mp hnil)
  have hpending : (w.afterFlush kind user array call).service.pending =
      Function.update w.service.pending (kind, user) [] := by
    funext channel
    obtain ⟨other, user'⟩ := channel
    simp only [World.service, World.pending_afterFlush hw, Function.update_apply,
      Prod.mk.injEq]
    split_ifs <;> simp
  rw [World.service_eq ⟨arrays, _, post, increment, _, _, heq⟩, hpending, hsession,
    World.requests_afterFlush, List.map_append, List.map_append, List.map_congr_left hasks,
    List.map_congr_left fun task htask => hasks task (hsent task htask), List.map_singleton,
    World.asks_flushTask, Service.send, if_neg hnonempty, hwaits]
  rfl

omit [NumberFormat] in
theorem World.service_resume (task : DataTask) :
    (w.resume task).service = w.service.ask task.call (w.question task) := by
  simp only [World.service, World.resume, Service.ask, List.map_append, List.map_singleton]
  rfl

variable {numbers : JSONNumbers} {reason : NSString}

theorem World.prepare_service (hw : w.Consistent) (kind : Kind) (value : Double)
    (key : NSString) :
    (w.step (.prepare kind value key)).map World.service =
      w.service.step reason (.prepare kind value key) := by
  change _ = w.userId.map _
  cases huser : w.userId with
  | none =>
      -- without a user the dictionary gets a nil key, which raises
      have hraised : w.step (.prepare kind value key) = none := by
        apply Option.eq_none_iff_forall_ne_some.mpr
        intro next hstep
        obtain ⟨user, hsome, _⟩ := step_prepare_eq_some.mp hstep
        rw [huser] at hsome
        cases hsome
      rw [hraised]
      rfl
  | some user =>
      rw [step_prepare_eq_some.mpr ⟨user, huser, rfl⟩]
      exact congrArg some (World.service_afterPrepare hw kind user _)

omit [NumberFormat] in
/-- A call whose identity was used before is refused by both. -/
theorem World.makeCall_service {call : Call} {action : ObjC Unit}
    {step : Service → Service}
    (h : call.id ∉ w.calls →
      ∃ next, w.makeCall call action = some next ∧
        next.service = step (w.register call).service) :
    (w.makeCall call action).map World.service = w.service.call call step := by
  by_cases hused : call.id ∈ w.calls
  · rw [World.makeCall, if_pos hused]
    exact (if_pos hused).symm
  · obtain ⟨next, hnext, hservice⟩ := h hused
    rw [hnext, Option.map_some, hservice]
    exact (if_neg hused).symm

theorem World.flush_service (hw : w.Consistent) (kind : Kind) (target : FlushTarget)
    (call : Call) :
    (w.step (.flush kind target call)).map World.service =
      w.service.step reason (.flush kind target call) := by
  rw [World.step, Service.step]
  apply World.makeCall_service
  intro hfresh
  have htarget : (w.register call).service.target target = target.resolve w := by
    cases target <;> rfl
  simp only [htarget]
  cases huser : target.resolve w with
  | none =>
      refine ⟨_, step_flush_eq_some.mpr ⟨hfresh, .inl ⟨?_, rfl⟩⟩, rfl⟩
      intro user hsome
      rw [huser] at hsome
      cases hsome
  | some user =>
      by_cases hpending : w.pending kind user = []
      · refine ⟨_, step_flush_eq_some.mpr ⟨hfresh, .inl ⟨?_, rfl⟩⟩, ?_⟩
        · intro other hother
          rw [huser] at hother
          cases hother
          exact hpending
        · have hnothing : (w.register call).service.pending (kind, user) = [] :=
            congrArg (List.map BKPair.entry) hpending
          exact (if_pos hnothing).symm
      · obtain ⟨array, hentry, hget⟩ := World.exists_array hpending
        refine ⟨_, step_flush_eq_some.mpr
          ⟨hfresh, .inr ⟨user, array, huser, hentry, hget, rfl⟩⟩, ?_⟩
        exact World.service_afterFlush (hw.inv.register call) (fun _ => hw.session_sent)
          hentry hget call

theorem World.questions_service (call : Call) :
    (w.step (.getProjectAchievements call)).map World.service =
        w.service.step reason (.getProjectAchievements call) ∧
      (w.step (.getUserAchievements call)).map World.service =
        w.service.step reason (.getUserAchievements call) := by
  constructor
  · rw [World.step, Service.step]
    apply World.makeCall_service
    intro hfresh
    exact ⟨_, step_getProjectAchievements_eq_some.mpr ⟨hfresh, rfl⟩,
      World.service_resume _⟩
  · rw [World.step, Service.step]
    apply World.makeCall_service
    intro hfresh
    exact ⟨_, step_getUserAchievements_eq_some.mpr ⟨hfresh, rfl⟩, World.service_resume _⟩

omit [NumberFormat] in
theorem World.find_asks (id : Nat) :
    (w.session.map w.asks).find? (fun entry => entry.1.id = id) =
      (w.session.find? fun task => task.call.id = id).map w.asks :=
  List.find?_map

omit [NumberFormat] in
theorem World.eraseP_asks (id : Nat) :
    (w.session.map w.asks).eraseP (fun entry => entry.1.id = id) =
      (w.session.eraseP fun task => task.call.id = id).map w.asks :=
  List.eraseP_map

/-- A proper reply is told to the caller of the question that it answers. -/
theorem World.reply_service (hw : w.Consistent) (hnumbers : numbers.Faithful) {id : Nat}
    {said : Reply} (hpolite : w.service.Polite numbers (.reply id said)) :
    (w.step (.complete id (said.completion numbers reason))).map World.service =
      w.service.step reason (.reply id said) := by
  change _ = ((w.session.map w.asks).find? _).map _
  rw [World.find_asks]
  cases hfind : w.session.find? (fun task => task.call.id = id) with
  | none =>
      have hunknown : w.step (.complete id (said.completion numbers reason)) = none := by
        rw [World.step, World.complete, hfind]
      rw [hunknown]
      rfl
  | some task =>
      have htask := List.mem_of_find?_eq_some hfind
      have hid : task.call.id = id := by simpa using List.find?_some hfind
      have hblock : (w.asks task).2.internalCallback = task.internalCallback := by
        rw [World.asks, World.question_internalCallback,
          hw.ledger.captured task (hw.session_sent htask)]
      have hproper : said.Proper numbers task.internalCallback := by
        rw [← hblock]
        exact hpolite (w.asks task) (List.mem_map_of_mem htask) hid
      obtain ⟨hshape, hstorable, hcallback, hrows⟩ :=
        Reply.readReaction_completion hnumbers reason hproper
      have hwaiting : (w.session.eraseP fun task => task.call.id = id).map w.asks =
          (w.session.map w.asks).eraseP fun entry => entry.1.id = task.call.id := by
        rw [hid, World.eraseP_asks]
      have htold : w.callbacks ++
          (task.readReaction (said.completion numbers reason)).callback.toList =
          w.callbacks ++ (said.callback reason task.call).toList := by
        rw [hcallback]
      have hrewards : w.deliveredRows ++
          (rewardsOf (task.readReaction (said.completion numbers reason)).unlocked).map
            (BKReward.row (task.readReaction (said.completion numbers reason)).user) =
          w.realm.rows ++ said.rows (w.asks task).2.internalCallback.user := by
        rw [hrows, hw.realm, hblock]
        rfl
      rw [(step_complete_idle hw.realm).mpr ⟨task, hfind, hshape, hstorable, rfl⟩]
      exact congrArg some (Service.ext rfl rfl rfl rfl rfl hwaiting rfl htold hrewards)

theorem World.step_service (hw : w.Consistent) (hnumbers : numbers.Faithful)
    {e : ServiceEvent} (hpolite : w.service.Polite numbers e) :
    (w.step (e.concrete numbers reason)).map World.service = w.service.step reason e := by
  cases e with
  | setProjectId projectId => rfl
  | setUserId userId => rfl
  | setShouldLoadIcons shouldLoadIcons => rfl
  | prepare kind value key => exact World.prepare_service hw kind value key
  | flush kind target call => exact World.flush_service hw kind target call
  | getProjectAchievements call => exact (World.questions_service call).1
  | getUserAchievements call => exact (World.questions_service call).2
  | reply id said => exact World.reply_service hw hnumbers hpolite

/-- A client that starts with an empty store is the service, for every list of
events whose replies are proper; it ends early exactly where the service does. -/
theorem client_refines_service (hnumbers : numbers.Faithful) {es : List ServiceEvent}
    (hpolite : Machine.Along (Service.step reason) (Service.Polite numbers)
      Service.initial es) :
    (World.initial.run (es.map (ServiceEvent.concrete numbers reason))).map World.service =
      Service.initial.run reason es := by
  have hsteps : ∀ (w : World) (e : ServiceEvent), w.Consistent →
      w.service.Polite numbers e →
      (w.step (e.concrete numbers reason)).map World.service = w.service.step reason e :=
    fun _ _ hw => World.step_service hw hnumbers
  rw [← World.service_initial] at hpolite ⊢
  exact Machine.run_abstraction World.service (ServiceEvent.concrete numbers reason)
    (fun _ _ _ hw => World.step_consistent hw) hsteps World.initial_consistent hpolite

end

def twoQuestionsService : List ServiceEvent :=
  [.setUserId (some (ns "ann")),
    .prepare .increment Double.one (ns "gold"),
    .flush .increment .active ⟨0, true, true⟩,
    .getUserAchievements ⟨1, true, true⟩,
    .reply 1 (rewardOrRefusal 1),
    .reply 0 (rewardOrRefusal 0)]

theorem polite_twoQuestionsService (reason : NSString) :
    Machine.Along (Service.step reason) (Service.Polite .numerals) Service.initial
      twoQuestionsService := by
  refine .cons trivial rfl (.cons trivial rfl (.cons trivial rfl (.cons trivial rfl ?_)))
  refine .cons ?_ rfl (.cons ?_ rfl trivial)
  · refine List.forall_mem_cons.mpr ⟨fun hid => absurd hid (by decide), ?_⟩
    exact List.forall_mem_singleton.mpr fun _ => proper_refusal
  · exact List.forall_mem_singleton.mpr fun _ => proper_reward _

theorem told_twoQuestionsService {reason : NSString} :
    (Service.initial.run reason twoQuestionsService).map Service.told =
      some [.failure 1 1 (some (.string (ns "denied"))),
        .success 0 (.unlocked [goldAchievement])] := rfl

theorem client_refines_service_two_questions :
    letI := NumberFormat.numerals
    (World.initial.run (twoQuestionsService.map
        (ServiceEvent.concrete .numerals (ns "bad data")))).map World.callbacks =
      some [.failure 1 1 (some (.string (ns "denied"))),
        .success 0 (.unlocked [goldAchievement])] :=
  letI := NumberFormat.numerals
  have hservice := client_refines_service numerals_carry
    (polite_twoQuestionsService (ns "bad data"))
  have htold := (congrArg (Option.map Service.told) hservice).trans told_twoQuestionsService
  (Option.map_map Service.told World.service _).symm.trans htold

end

end BadgeKeeper

import BadgeKeeper.Lib.Outbox
import BadgeKeeper.Steps

/-!
The client refines a keyed outbox with one channel for each kind and user. The
heap invariant behind it says that no two dictionary entries share an array
and that a request's array has left the dictionaries: a post request holds a
copy, and an increment request holds the live array, whose entry is removed in
the same call. So neither a later prepare nor another flush can change what a
request carries.
-/

namespace BadgeKeeper

/-- A kind of values of one user. -/
abbrev Channel := Kind × NSString

namespace BKApiRequest

/-- The array of pairs of a change request. -/
def pairs? : BKApiRequest → Option Heap.Ref
  | .getProjectAchievements _ _ | .getUserAchievements _ _ _ => none
  | .setUserChanges _ _ pairs | .incrementUserChanges _ _ pairs => some pairs

/-- The kind and the user that a change request is sent for. -/
def channel? : BKApiRequest → Option Channel
  | .getProjectAchievements _ _ | .getUserAchievements _ _ _ => none
  | .setUserChanges _ userId _ => userId.map (Kind.post, ·)
  | .incrementUserChanges _ userId _ => userId.map (Kind.increment, ·)

end BKApiRequest

/-- The pairs that a task's request carries. -/
def World.contents (w : World) (task : DataTask) : List BKPair :=
  match task.request.pairs? with
  | none => []
  | some array => w.arrays.get array

def World.batch? (w : World) (task : DataTask) : Option (Channel × List BKPair) :=
  task.request.channel?.map fun channel => (channel, w.contents task)

/-- What a request asks of the server. -/
inductive Question where
  | project (projectId : Option NSString) (shouldLoadIcons : Bool)
  | user (projectId userId : Option NSString) (shouldLoadIcons : Bool)
  | change (kind : Kind) (projectId userId : Option NSString)
      (entries : List (NSString × Double))

def Question.internalCallback : Question → InternalCallback
  | .project _ _ => .getProjectAchievements
  | .user _ _ _ => .getUserAchievements
  | .change kind _ userId _ => kind.internalCallback userId

def World.question (w : World) (task : DataTask) : Question :=
  match task.request with
  | .getProjectAchievements projectId shouldLoadIcons => .project projectId shouldLoadIcons
  | .getUserAchievements projectId userId shouldLoadIcons =>
      .user projectId userId shouldLoadIcons
  | .setUserChanges projectId userId _ =>
      .change .post projectId userId ((w.contents task).map BKPair.entry)
  | .incrementUserChanges projectId userId _ =>
      .change .increment projectId userId ((w.contents task).map BKPair.entry)

structure World.Inv (w : World) : Prop where
  live : ∀ kind user array, (w.dictionary kind).lookup user = some array →
    array < w.arrays.size
  separate : ∀ kind user kind' user' array,
    (w.dictionary kind).lookup user = some array →
    (w.dictionary kind').lookup user' = some array → kind = kind' ∧ user = user'
  sentLive : ∀ task ∈ w.requests, ∀ array, task.request.pairs? = some array →
    array < w.arrays.size
  detached : ∀ task ∈ w.requests, ∀ array, task.request.pairs? = some array →
    ∀ kind user, (w.dictionary kind).lookup user ≠ some array

theorem World.initial_inv : World.initial.Inv := by
  refine ⟨?_, ?_, ?_, ?_⟩
  · intro kind user array h
    cases kind <;> simp [World.initial, World.dictionary] at h
  · intro kind user kind' user' array h
    cases kind <;> simp [World.initial, World.dictionary] at h
  · intro task htask
    simp [World.initial] at htask
  · intro task htask
    simp [World.initial] at htask

theorem World.lookup_insert (w : World) (kind other : Kind) (user user' : NSString)
    (array : Heap.Ref) :
    ((w.setDictionary kind ((w.dictionary kind).insert user array)).dictionary
        other).lookup user' =
      if other = kind ∧ user' = user then some array
      else (w.dictionary other).lookup user' := by
  by_cases hkind : other = kind
  · subst hkind
    by_cases huser : user' = user
    · subst huser
      simp
    · simp [huser, AList.lookup_insert_ne huser]
  · simp [hkind, World.dictionary_setDictionary_of_ne]

theorem World.lookup_erase (w : World) (kind other : Kind) (user user' : NSString) :
    ((w.setDictionary kind ((w.dictionary kind).erase user)).dictionary
        other).lookup user' =
      if other = kind ∧ user' = user then none
      else (w.dictionary other).lookup user' := by
  by_cases hkind : other = kind
  · subst hkind
    by_cases huser : user' = user
    · subst huser
      simp
    · simp [huser, AList.lookup_erase_ne huser]
  · simp [hkind, World.dictionary_setDictionary_of_ne]

section

variable {w : World} {kind : Kind} {user : NSString} {pair : BKPair}

/-- Preparing for a user with an array. -/
theorem World.afterPrepare_held {array : Heap.Ref}
    (hentry : (w.dictionary kind).lookup user = some array) :
    w.afterPrepare kind user pair =
      { w with
        allocated := w.allocated + 1
        arrays := w.arrays.push array pair } := by
  simp [World.afterPrepare, hentry]

/-- Preparing for a user without one. -/
theorem World.afterPrepare_absent (hentry : (w.dictionary kind).lookup user = none) :
    w.afterPrepare kind user pair =
      { w.setDictionary kind ((w.dictionary kind).insert user w.arrays.size) with
        allocated := w.allocated + 1
        arrays := (w.arrays.alloc []).push w.arrays.size pair } := by
  simp [World.afterPrepare, hentry]

/-- Preparing changes the heap, the dictionaries and the allocation count. -/
theorem World.afterPrepare_eq (w : World) (kind : Kind) (user : NSString)
    (pair : BKPair) :
    ∃ arrays post increment, w.afterPrepare kind user pair =
      { w with
        arrays := arrays
        allocated := w.allocated + 1
        postValues := post
        incrementValues := increment } := by
  unfold World.afterPrepare
  split
  · exact ⟨_, _, _, rfl⟩
  · obtain ⟨post, increment, hset⟩ := w.setDictionary_eq kind
      ((w.dictionary kind).insert user w.arrays.size)
    exact ⟨_, post, increment, by rw [hset]⟩

@[simp] theorem World.requests_afterPrepare :
    (w.afterPrepare kind user pair).requests = w.requests := by
  obtain ⟨_, _, _, h⟩ := w.afterPrepare_eq kind user pair
  rw [h]

/-- The prepared channel has its array, which is a new one if it had none; the
other channels keep theirs. -/
theorem World.lookup_afterPrepare (other : Kind) (user' : NSString) :
    ((w.afterPrepare kind user pair).dictionary other).lookup user' =
      if other = kind ∧ user' = user then
        some (((w.dictionary kind).lookup user).getD w.arrays.size)
      else (w.dictionary other).lookup user' := by
  cases hentry : (w.dictionary kind).lookup user with
  | some array =>
      rw [World.afterPrepare_held hentry]
      change (w.dictionary other).lookup user' = _
      split_ifs with hsame
      · rw [hsame.1, hsame.2, hentry]
        rfl
      · rfl
  | none =>
      rw [World.afterPrepare_absent hentry]
      exact World.lookup_insert w kind other user user' w.arrays.size

/-- An array that no entry of the prepared channel holds keeps its contents. -/
theorem World.get_afterPrepare {array : Heap.Ref} (hlive : array < w.arrays.size)
    (hother : (w.dictionary kind).lookup user ≠ some array) :
    (w.afterPrepare kind user pair).arrays.get array = w.arrays.get array := by
  unfold World.afterPrepare
  split
  · next held hheld =>
      have hne : array ≠ held := by
        rintro rfl
        exact hother hheld
      exact Heap.get_push_of_ne _ _ hne
  · have hne : array ≠ w.arrays.size := Nat.ne_of_lt hlive
    exact (Heap.get_push_of_ne _ _ hne).trans (Heap.get_alloc_of_lt _ _ hlive)

/-- The array of the prepared channel ends with the pair. -/
theorem World.get_afterPrepare_self (hinv : w.Inv) :
    (w.afterPrepare kind user pair).arrays.get
        (((w.dictionary kind).lookup user).getD w.arrays.size) =
      w.pending kind user ++ [pair] := by
  cases hentry : (w.dictionary kind).lookup user with
  | some array =>
      rw [World.afterPrepare_held hentry, World.pending_of_lookup hentry]
      exact Heap.get_push_self _ _ (hinv.live kind user array hentry)
  | none =>
      have hlive : w.arrays.size < (w.arrays.alloc ([] : List BKPair)).size := by
        simp
      rw [World.afterPrepare_absent hentry]
      simp only [World.pending, hentry]
      exact (Heap.get_push_self _ _ hlive).trans
        (congrArg (· ++ [pair]) (Heap.get_alloc_self _ _))

theorem World.pending_afterPrepare (hinv : w.Inv) (other : Kind) (user' : NSString) :
    (w.afterPrepare kind user pair).pending other user' =
      if other = kind ∧ user' = user then w.pending kind user ++ [pair]
      else w.pending other user' := by
  have hlookup := @World.lookup_afterPrepare w kind user pair other user'
  split_ifs at hlookup ⊢ with hsame
  · rw [World.pending_of_lookup hlookup]
    exact World.get_afterPrepare_self hinv
  · cases hfound : (w.dictionary other).lookup user' with
    | none =>
        rw [hfound] at hlookup
        simp only [World.pending, hlookup, hfound]
    | some found =>
        rw [hfound] at hlookup
        rw [World.pending_of_lookup hlookup, World.pending_of_lookup hfound]
        apply World.get_afterPrepare (hinv.live other user' found hfound)
        intro hheld
        exact hsame (hinv.separate other user' kind user found hfound hheld)

theorem World.contents_afterPrepare (hinv : w.Inv) {task : DataTask}
    (htask : task ∈ w.requests) :
    (w.afterPrepare kind user pair).contents task = w.contents task := by
  unfold World.contents
  cases harray : task.request.pairs? with
  | none => rfl
  | some array =>
      exact World.get_afterPrepare (hinv.sentLive task htask array harray)
        (hinv.detached task htask array harray kind user)

theorem World.afterPrepare_inv (hinv : w.Inv) :
    (w.afterPrepare kind user pair).Inv := by
  cases hentry : (w.dictionary kind).lookup user with
  | some array =>
      rw [World.afterPrepare_held hentry]
      refine ⟨?_, hinv.separate, ?_, hinv.detached⟩
      · intro other user' found hfound
        simpa using hinv.live other user' found hfound
      · intro task htask found hfound
        simpa using hinv.sentLive task htask found hfound
  | none =>
      have hlookup (other : Kind) (user' : NSString) :
          ((w.afterPrepare kind user pair).dictionary other).lookup user' =
            if other = kind ∧ user' = user then some w.arrays.size
            else (w.dictionary other).lookup user' := by
        rw [World.lookup_afterPrepare, hentry]
        rfl
      have hsize : (w.afterPrepare kind user pair).arrays.size = w.arrays.size + 1 := by
        rw [World.afterPrepare_absent hentry]
        simp
      refine ⟨?_, ?_, ?_, ?_⟩
      · intro other user' found hfound
        rw [hlookup] at hfound
        rw [hsize]
        split_ifs at hfound with hsame
        · cases hfound
          exact Nat.lt_succ_self _
        · exact Nat.lt_succ_of_lt (hinv.live other user' found hfound)
      · intro first firstUser second secondUser found hfirst hsecond
        rw [hlookup] at hfirst hsecond
        split_ifs at hfirst hsecond with h1 h2 h2
        · exact ⟨h1.1.trans h2.1.symm, h1.2.trans h2.2.symm⟩
        · cases hfirst
          exact absurd (hinv.live _ _ _ hsecond) (Nat.lt_irrefl _)
        · cases hsecond
          exact absurd (hinv.live _ _ _ hfirst) (Nat.lt_irrefl _)
        · exact hinv.separate _ _ _ _ _ hfirst hsecond
      · intro task htask found hfound
        rw [World.requests_afterPrepare] at htask
        rw [hsize]
        exact Nat.lt_succ_of_lt (hinv.sentLive task htask found hfound)
      · intro task htask found hfound other user' hentry'
        rw [World.requests_afterPrepare] at htask
        rw [hlookup] at hentry'
        split_ifs at hentry' with hsame
        · cases hentry'
          exact absurd (hinv.sentLive task htask _ hfound) (Nat.lt_irrefl _)
        · exact hinv.detached task htask found hfound other user' hentry'

end

section

variable {kind : Kind} {array : Heap.Ref}

theorem Kind.get_handOver (arrays : Heap BKPair) {other : Heap.Ref}
    (hlive : other < arrays.size) :
    (kind.handOver arrays array).1.get other = arrays.get other := by
  cases kind with
  | post => exact Heap.get_alloc_of_lt _ _ hlive
  | increment => rfl

theorem Kind.size_handOver (arrays : Heap BKPair) :
    arrays.size ≤ (kind.handOver arrays array).1.size := by
  cases kind with
  | post => simp [Kind.handOver]
  | increment => exact Nat.le_refl _

/-- The array handed to the request carries the flushed pairs. -/
theorem Kind.get_handedOver (arrays : Heap BKPair) :
    (kind.handOver arrays array).1.get (kind.handOver arrays array).2 =
      arrays.get array := by
  cases kind with
  | post => exact Heap.get_alloc_self _ _
  | increment => rfl

end

section

variable [NumberFormat] {w : World} {kind : Kind} {user : NSString}
  {array : Heap.Ref} {call : Call}

@[simp] theorem World.pairs?_flushTask :
    (w.flushTask kind user array call).request.pairs? =
      some (kind.handOver w.arrays array).2 := by
  cases kind <;> rfl

@[simp] theorem World.channel?_flushTask :
    (w.flushTask kind user array call).request.channel? = some (kind, user) := by
  cases kind <;> rfl

@[simp] theorem World.requests_afterFlush :
    (w.afterFlush kind user array call).requests =
      w.requests ++ [w.flushTask kind user array call] := by
  cases kind <;> rfl

/-- A flush leaves the properties, the completions and the callbacks alone. -/
theorem World.afterFlush_eq (w : World) (kind : Kind) (user : NSString) (array : Heap.Ref)
    (call : Call) :
    ∃ arrays post increment, w.afterFlush kind user array call =
      { w with
        arrays := arrays
        postValues := post
        incrementValues := increment
        session := w.session ++ [w.flushTask kind user array call]
        requests := w.requests ++ [w.flushTask kind user array call] } := by
  cases kind <;> exact ⟨_, _, _, rfl⟩

theorem World.lookup_afterFlush (other : Kind) (user' : NSString) :
    ((w.afterFlush kind user array call).dictionary other).lookup user' =
      if other = kind ∧ user' = user then none
      else (w.dictionary other).lookup user' :=
  World.lookup_erase w kind other user user'

theorem World.pending_afterFlush (hinv : w.Inv) (other : Kind) (user' : NSString) :
    (w.afterFlush kind user array call).pending other user' =
      if other = kind ∧ user' = user then [] else w.pending other user' := by
  simp only [World.pending, World.lookup_afterFlush]
  split_ifs with hsame
  · rfl
  · cases hfound : (w.dictionary other).lookup user' with
    | none => rfl
    | some found =>
        exact Kind.get_handOver w.arrays (hinv.live other user' found hfound)

theorem World.contents_afterFlush (hinv : w.Inv) {task : DataTask}
    (htask : task ∈ w.requests) :
    (w.afterFlush kind user array call).contents task = w.contents task := by
  unfold World.contents
  cases hpairs : task.request.pairs? with
  | none => rfl
  | some found =>
      exact Kind.get_handOver w.arrays (hinv.sentLive task htask found hpairs)

theorem World.contents_flushTask :
    (w.afterFlush kind user array call).contents (w.flushTask kind user array call) =
      w.arrays.get array := by
  simp only [World.contents, World.pairs?_flushTask]
  exact Kind.get_handedOver w.arrays

/-- A flush asks the server to change everything that waited. -/
theorem World.question_flushTask :
    (w.afterFlush kind user array call).question (w.flushTask kind user array call) =
      .change kind w.projectId (some user) ((w.arrays.get array).map BKPair.entry) := by
  have hcontents : (w.afterFlush kind user array call).contents
      (w.flushTask kind user array call) = w.arrays.get array := World.contents_flushTask
  cases kind <;> exact congrArg (fun pairs => Question.change _ w.projectId (some user)
    (pairs.map BKPair.entry)) hcontents

theorem World.afterFlush_inv (hinv : w.Inv)
    (hentry : (w.dictionary kind).lookup user = some array) :
    (w.afterFlush kind user array call).Inv := by
  have hsize : w.arrays.size ≤ (w.afterFlush kind user array call).arrays.size :=
    Kind.size_handOver w.arrays
  refine ⟨?_, ?_, ?_, ?_⟩
  · intro other user' found hfound
    rw [World.lookup_afterFlush] at hfound
    split_ifs at hfound
    exact Nat.lt_of_lt_of_le (hinv.live other user' found hfound) hsize
  · intro first firstUser second secondUser found hfirst hsecond
    rw [World.lookup_afterFlush] at hfirst hsecond
    split_ifs at hfirst hsecond
    exact hinv.separate _ _ _ _ _ hfirst hsecond
  · intro task htask found hfound
    rw [World.requests_afterFlush, List.mem_append, List.mem_singleton] at htask
    rcases htask with hold | rfl
    · exact Nat.lt_of_lt_of_le (hinv.sentLive task hold found hfound) hsize
    · rw [World.pairs?_flushTask] at hfound
      cases hfound
      cases kind with
      | post =>
          change w.arrays.size < (w.arrays.alloc (w.arrays.get array)).size
          simp
      | increment => exact hinv.live .increment user array hentry
  · intro task htask found hfound other user' hother
    rw [World.requests_afterFlush, List.mem_append, List.mem_singleton] at htask
    rw [World.lookup_afterFlush] at hother
    split_ifs at hother with hsame
    rcases htask with hold | rfl
    · exact hinv.detached task hold found hfound other user' hother
    · rw [World.pairs?_flushTask] at hfound
      cases hfound
      cases kind with
      | post => exact absurd (hinv.live other user' _ hother) (Nat.lt_irrefl _)
      | increment => exact hsame (hinv.separate _ _ _ _ _ hother hentry)

end

/-- The outbox that a world stands for. -/
def World.outbox (w : World) : Outbox.State Channel BKPair where
  pending := fun channel => w.pending channel.1 channel.2
  sent := w.requests.filterMap w.batch?

/-- What an event does to the outbox. -/
def Event.moves (w : World) : Event → List (Outbox.Op Channel BKPair)
  | .prepare kind value key =>
      match w.userId with
      | none => []
      | some user => [.put (kind, user) ⟨w.allocated, key, value⟩]
  | .flush kind target _ =>
      match target.resolve w with
      | none => []
      | some user => [.flush (kind, user)]
  | _ => []

section

variable {w : World}

/-- An event that leaves the heap, the dictionaries and the requests alone. -/
theorem World.inv_congr {w' : World} (hinv : w.Inv) (harrays : w'.arrays = w.arrays)
    (hpost : w'.postValues = w.postValues)
    (hincrement : w'.incrementValues = w.incrementValues)
    (hrequests : w'.requests = w.requests) : w'.Inv := by
  have hdictionary (kind : Kind) : w'.dictionary kind = w.dictionary kind := by
    cases kind
    · exact hpost
    · exact hincrement
  constructor
  · simpa only [hdictionary, harrays] using hinv.live
  · simpa only [hdictionary] using hinv.separate
  · simpa only [harrays, hrequests] using hinv.sentLive
  · simpa only [hdictionary, hrequests] using hinv.detached

theorem World.outbox_congr {w' : World} (harrays : w'.arrays = w.arrays)
    (hpost : w'.postValues = w.postValues)
    (hincrement : w'.incrementValues = w.incrementValues)
    (hrequests : w'.requests = w.requests) : w'.outbox = w.outbox := by
  have hpending := World.pending_congr harrays hpost hincrement
  have hbatch : w'.batch? = w.batch? := by
    funext task
    simp [World.batch?, World.contents, harrays]
  simp [World.outbox, hpending, hbatch, hrequests]

/-- Making a call leaves the queues alone. -/
theorem World.Inv.register (hinv : w.Inv) (call : Call) : (w.register call).Inv :=
  World.inv_congr hinv rfl rfl rfl rfl

theorem World.outbox_register (call : Call) : (w.register call).outbox = w.outbox :=
  World.outbox_congr rfl rfl rfl rfl

theorem World.outbox_afterPrepare (hinv : w.Inv) (kind : Kind) (user : NSString)
    (pair : BKPair) :
    (w.afterPrepare kind user pair).outbox =
      Outbox.step w.outbox (.put (kind, user) pair) := by
  have hpending : (w.afterPrepare kind user pair).outbox.pending =
      Function.update w.outbox.pending (kind, user)
        (w.outbox.pending (kind, user) ++ [pair]) := by
    funext channel
    obtain ⟨other, user'⟩ := channel
    simp only [World.outbox, World.pending_afterPrepare hinv, Function.update_apply,
      Prod.mk.injEq]
  have hsent : (w.afterPrepare kind user pair).outbox.sent = w.outbox.sent := by
    simp only [World.outbox, World.requests_afterPrepare]
    apply List.filterMap_congr
    intro task htask
    simp only [World.batch?, World.contents_afterPrepare hinv htask]
  simp only [Outbox.step, ← hpending, ← hsent]

theorem World.outbox_afterFlush [NumberFormat] (hinv : w.Inv) {kind : Kind}
    {user : NSString} {array : Heap.Ref} (call : Call)
    (hentry : (w.dictionary kind).lookup user = some array)
    (hpending : w.arrays.get array ≠ []) :
    (w.afterFlush kind user array call).outbox =
      Outbox.step w.outbox (.flush (kind, user)) := by
  have hwaiting : w.outbox.pending (kind, user) = w.arrays.get array :=
    World.pending_of_lookup hentry
  have hleft : (w.afterFlush kind user array call).outbox.pending =
      Function.update w.outbox.pending (kind, user) [] := by
    funext channel
    obtain ⟨other, user'⟩ := channel
    simp only [World.outbox, World.pending_afterFlush hinv, Function.update_apply,
      Prod.mk.injEq]
  have hsent : (w.afterFlush kind user array call).outbox.sent =
      w.outbox.sent ++ [((kind, user), w.outbox.pending (kind, user))] := by
    have hold : w.requests.filterMap (w.afterFlush kind user array call).batch? =
        w.requests.filterMap w.batch? := by
      apply List.filterMap_congr
      intro task htask
      simp only [World.batch?, World.contents_afterFlush hinv htask]
    rw [hwaiting]
    simp only [World.outbox, World.requests_afterFlush, List.filterMap_append, hold]
    simp [World.batch?, World.contents_flushTask]
  have hne : w.outbox.pending (kind, user) ≠ [] := by
    rw [hwaiting]
    exact hpending
  simp only [Outbox.step, if_neg hne, ← hleft, ← hsent]

/-- Resuming a task without pairs adds no batch. -/
theorem World.outbox_resume {task : DataTask} (hchannel : task.request.channel? = none) :
    (w.resume task).outbox = w.outbox := by
  have hbatch : w.batch? task = none := by
    simp [World.batch?, hchannel]
  have hsent : (w.requests ++ [task]).filterMap w.batch? =
      w.requests.filterMap w.batch? := by
    simp [hbatch]
  exact congrArg (Outbox.State.mk w.outbox.pending) hsent

theorem World.resume_inv {task : DataTask} (hinv : w.Inv)
    (hpairs : task.request.pairs? = none) : (w.resume task).Inv := by
  refine ⟨hinv.live, hinv.separate, ?_, ?_⟩
  · intro other hother array harray
    rcases List.mem_append.mp hother with hold | hnew
    · exact hinv.sentLive other hold array harray
    · rw [List.mem_singleton.mp hnew, hpairs] at harray
      cases harray
  · intro other hother array harray
    rcases List.mem_append.mp hother with hold | hnew
    · exact hinv.detached other hold array harray
    · rw [List.mem_singleton.mp hnew, hpairs] at harray
      cases harray

variable [NumberFormat]

/-- One client event keeps the heap invariant and is matched by its moves. -/
theorem World.step_refines {w' : World} {e : Event} (hinv : w.Inv)
    (hstep : w.step e = some w') :
    w'.Inv ∧ w'.outbox = (e.moves w).foldl Outbox.step w.outbox := by
  cases e with
  | setProjectId _ | setUserId _ | setShouldLoadIcons _ =>
      cases hstep
      exact ⟨World.inv_congr hinv rfl rfl rfl rfl, World.outbox_congr rfl rfl rfl rfl⟩
  | prepare kind value key =>
      obtain ⟨user, huser, rfl⟩ := step_prepare_eq_some.mp hstep
      refine ⟨World.afterPrepare_inv hinv, ?_⟩
      simp only [Event.moves, huser, List.foldl_cons, List.foldl_nil]
      exact World.outbox_afterPrepare hinv kind user _
  | flush kind target call =>
      obtain ⟨_, ⟨hnothing, rfl⟩ | ⟨user, array, huser, hentry, hget, rfl⟩⟩ :=
        step_flush_eq_some.mp hstep
      · refine ⟨hinv.register call, ?_⟩
        rw [World.outbox_register]
        cases hresolve : target.resolve w with
        | none => simp [Event.moves, hresolve]
        | some user =>
            have hempty : w.outbox.pending (kind, user) = [] := hnothing user hresolve
            simp [Event.moves, hresolve, Outbox.step, hempty]
      · have hentry' : ((w.register call).dictionary kind).lookup user = some array :=
          hentry
        refine ⟨World.afterFlush_inv (hinv.register call) hentry', ?_⟩
        rw [World.outbox_afterFlush (hinv.register call) call hentry' hget,
          World.outbox_register]
        simp only [Event.moves, huser, List.foldl_cons, List.foldl_nil]
  | getProjectAchievements call =>
      obtain ⟨_, rfl⟩ := step_getProjectAchievements_eq_some.mp hstep
      refine ⟨World.resume_inv (hinv.register call) rfl, ?_⟩
      rw [World.outbox_resume rfl, World.outbox_register]
      rfl
  | getUserAchievements call =>
      obtain ⟨_, rfl⟩ := step_getUserAchievements_eq_some.mp hstep
      refine ⟨World.resume_inv (hinv.register call) rfl, ?_⟩
      rw [World.outbox_resume rfl, World.outbox_register]
      rfl
  | complete id completion =>
      obtain ⟨_, _, _, _, _, _, rfl⟩ := step_complete_eq_some.mp hstep
      exact ⟨World.inv_congr hinv rfl rfl rfl rfl, World.outbox_congr rfl rfl rfl rfl⟩

/-- Requests are only ever added, and what a sent request carries stays. -/
theorem World.step_contents {w' : World} {e : Event} (hinv : w.Inv)
    (hstep : w.step e = some w') {task : DataTask} (htask : task ∈ w.requests) :
    task ∈ w'.requests ∧ w'.contents task = w.contents task := by
  cases e with
  | setProjectId _ | setUserId _ | setShouldLoadIcons _ =>
      cases hstep
      exact ⟨htask, rfl⟩
  | prepare kind value key =>
      obtain ⟨user, huser, rfl⟩ := step_prepare_eq_some.mp hstep
      rw [World.requests_afterPrepare]
      exact ⟨htask, World.contents_afterPrepare hinv htask⟩
  | flush kind target call =>
      obtain ⟨_, ⟨_, rfl⟩ | ⟨user, array, _, _, _, rfl⟩⟩ := step_flush_eq_some.mp hstep
      · exact ⟨htask, rfl⟩
      · rw [World.requests_afterFlush]
        exact ⟨List.mem_append_left _ htask,
          World.contents_afterFlush (hinv.register call) htask⟩
  | getProjectAchievements call =>
      obtain ⟨_, rfl⟩ := step_getProjectAchievements_eq_some.mp hstep
      exact ⟨List.mem_append_left _ htask, rfl⟩
  | getUserAchievements call =>
      obtain ⟨_, rfl⟩ := step_getUserAchievements_eq_some.mp hstep
      exact ⟨List.mem_append_left _ htask, rfl⟩
  | complete id completion =>
      obtain ⟨_, _, _, _, _, _, rfl⟩ := step_complete_eq_some.mp hstep
      exact ⟨htask, rfl⟩

/-- Only a completion touches the reward table, the completions and the
callbacks. -/
theorem World.step_frame {w' : World} {e : Event} (hstep : w.step e = some w')
    (hother : ∀ id completion, e ≠ .complete id completion) :
    w'.realm = w.realm ∧ w'.completed = w.completed ∧ w'.callbacks = w.callbacks := by
  cases e with
  | setProjectId _ | setUserId _ | setShouldLoadIcons _ =>
      cases hstep
      exact ⟨rfl, rfl, rfl⟩
  | prepare kind value key =>
      obtain ⟨user, _, rfl⟩ := step_prepare_eq_some.mp hstep
      obtain ⟨_, _, _, heq⟩ := w.afterPrepare_eq kind user ⟨w.allocated, key, value⟩
      rw [heq]
      exact ⟨rfl, rfl, rfl⟩
  | flush kind target call =>
      obtain ⟨_, ⟨_, rfl⟩ | ⟨user, array, _, _, _, rfl⟩⟩ := step_flush_eq_some.mp hstep
      · exact ⟨rfl, rfl, rfl⟩
      · obtain ⟨_, _, _, heq⟩ := (w.register call).afterFlush_eq kind user array call
        rw [heq]
        exact ⟨rfl, rfl, rfl⟩
  | getProjectAchievements call =>
      obtain ⟨_, rfl⟩ := step_getProjectAchievements_eq_some.mp hstep
      exact ⟨rfl, rfl, rfl⟩
  | getUserAchievements call =>
      obtain ⟨_, rfl⟩ := step_getUserAchievements_eq_some.mp hstep
      exact ⟨rfl, rfl, rfl⟩
  | complete id completion => exact absurd rfl (hother id completion)

end

end BadgeKeeper

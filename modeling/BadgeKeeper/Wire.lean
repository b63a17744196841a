import BadgeKeeper.Body
import BadgeKeeper.Lib.JsonText

/-!
What a receiver reads out of the body of a change request. The body is put
together from templates with keys and numbers inserted as they are, although
its content type says JSON. A key is read back as itself precisely when it
needs no JSON escape and has a UTF-8 form, and a value precisely when it is
finite.
-/

namespace BadgeKeeper

open JsonText

/-- The keys and values of a body are readable if a receiver gets them back. -/
def Transmissible (entry : NSString × Double) : Prop :=
  Plain entry.1 ∧ Unicode.WellFormed entry.1 ∧ entry.2.isFinite

instance (entry : NSString × Double) : Decidable (Transmissible entry) :=
  inferInstanceAs (Decidable (_ ∧ _ ∧ _))

/-- The members `Key` and `Value`, with the number read by the receiver. -/
def readEntry (read : NSString → Double) (json : Json NSString) :
    Option (NSString × Double) :=
  match json.member? (ns "Key"), json.member? (ns "Value") with
  | some (.string key), some (.number token) => some (key, read token)
  | _, _ => none

/-- The entries of a body that is an array of such objects. -/
def readBody (read : NSString → Double) (body : Option ByteArray) :
    Option (List (NSString × Double)) :=
  match body.bind parseUtf8 with
  | some (.array items) => items.mapM (readEntry read)
  | _ => none

/-- The platform's numbers: a finite one is a JSON number that reads back, the
others have names. -/
structure FaithfulNumbers [NumberFormat] (read : NSString → Double) : Prop where
  numeral : ∀ d : Double, d.isFinite → isNumeral (NumberFormat.description d)
  reads : ∀ d : Double, d.isFinite → read (NumberFormat.description d) = d
  nan : ∀ d : Double, d.isNaN → NumberFormat.description d = ns "nan"
  infinite : ∀ d : Double, ¬ d.isFinite → ¬ d.isNaN →
    NumberFormat.description d = ns "inf" ∨ NumberFormat.description d = ns "-inf"

theorem plain_Key : Plain (ns "Key") := by decide

theorem plain_Value : Plain (ns "Value") := by decide

section

variable [NumberFormat] {read : NSString → Double}

/-- The object that an element is meant to denote. -/
def entryJson (entry : NSString × Double) : Json NSString :=
  .object [(ns "Key", .string entry.1), (ns "Value", .number (NumberFormat.description entry.2))]

/-- What stands behind the inserted key. -/
def afterKey (value : Double) (rest : NSString) : NSString :=
  comma :: 0x20 :: quote :: (ns "Value" ++ quote :: colon ::
    (NumberFormat.description value ++ closeBrace :: rest))

theorem entryNode_append (entry : NSString × Double) (rest : NSString) :
    entryNode entry ++ rest =
      openBrace :: quote :: (ns "Key" ++ quote :: colon :: quote ::
        (entry.1 ++ quote :: afterKey entry.2 rest)) := by
  have hkey : ns "\x7b\"Key\":\"" = openBrace :: quote :: (ns "Key" ++ [quote, colon, quote]) := rfl
  have hvalue : ns "\", \"Value\":" =
      quote :: comma :: 0x20 :: quote :: (ns "Value" ++ [quote, colon]) := rfl
  have hend : ns "\x7d" = [closeBrace] := rfl
  simp only [entryNode, afterKey, hkey, hvalue, hend, List.append_assoc, List.cons_append,
    List.nil_append]

/-- An element is read member by member. -/
theorem value_entryNode (depth : Nat) (entry : NSString × Double) (rest : NSString) :
    ∃ fuel, value (depth + 1) (entryNode entry ++ rest) =
      (items (member (value depth)) closeBrace (fuel + 2)
        (quote :: (ns "Key" ++ quote :: colon :: quote ::
          (entry.1 ++ quote :: afterKey entry.2 rest)))).map (Prod.map .object id) := by
  refine ⟨(ns "ey" ++ quote :: colon :: quote ::
    (entry.1 ++ quote :: afterKey entry.2 rest)).length, ?_⟩
  have hspace : isSpace quote = false := by decide
  have hclose : quote ≠ closeBrace := by decide
  rw [entryNode_append, value_openBrace, sequence_cons hspace hclose]
  rfl

omit [NumberFormat] in
/-- The member `Key` in an element. -/
theorem member_Key (depth : Nat) (key rest : NSString) :
    member (value (depth + 1)) (quote :: (ns "Key" ++ quote :: colon :: quote :: (key ++ rest))) =
      (string (key ++ rest)).map fun read => ((ns "Key", .string read.1), read.2) := by
  rw [member_plain plain_Key, value_quote]
  cases string (key ++ rest) <;> rfl

/-- The member `Value` in an element. -/
theorem member_Value (depth : Nat) (value : Double) (rest : NSString) :
    member (JsonText.value depth) (0x20 :: quote :: (ns "Value" ++ quote :: colon ::
        (NumberFormat.description value ++ closeBrace :: rest))) =
      (JsonText.value depth (NumberFormat.description value ++ closeBrace :: rest)).map
        fun read => ((ns "Value", read.1), read.2) := by
  have hspace : isSpace 0x20 = true := by decide
  rw [member_space hspace, member_plain plain_Value]

/-- A plain key and a numeral are read back. -/
theorem value_entryNode_plain {entry : NSString × Double} (hkey : Plain entry.1)
    (hvalue : isNumeral (NumberFormat.description entry.2)) (depth : Nat) (rest : NSString) :
    value (depth + 2) (entryNode entry ++ rest) = some (entryJson entry, rest) := by
  obtain ⟨fuel, hitems⟩ := value_entryNode (depth + 1) entry rest
  have hunit : isNumberUnit closeBrace = false := by decide
  have hfirst := member_Key depth entry.1 (quote :: afterKey entry.2 rest)
  rw [string_plain hkey] at hfirst
  have hsecond := member_Value (depth + 1) entry.2 rest
  rw [value_numeral hvalue hunit] at hsecond
  rw [hitems, items_comma closes_brace hfirst, items_close closes_brace hsecond]
  rfl

/-- Nothing but a plain key is read back as it was. -/
theorem plain_of_value {entry : NSString × Double} {depth : Nat} {rest after : NSString}
    {json : Json NSString} (h : value (depth + 2) (entryNode entry ++ rest) = some (json, after))
    (hkey : json.member? (ns "Key") = some (.string entry.1)) : Plain entry.1 := by
  obtain ⟨fuel, hitems⟩ := value_entryNode (depth + 1) entry rest
  rw [hitems, Option.map_eq_some_iff] at h
  obtain ⟨⟨members, _⟩, hmembers, hjson⟩ := h
  cases hjson
  obtain ⟨first, others, _, hfirst, hlist⟩ := items_head hmembers
  rw [member_Key, Option.map_eq_some_iff] at hfirst
  obtain ⟨⟨key, _⟩, hstring, hpair⟩ := hfirst
  cases hpair
  cases hlist
  have hsame : key = entry.1 := by simpa using hkey
  subst hsame
  have hbetween : Plain [comma, 0x20] := by decide
  exact plain_of_string hbetween hstring

/-- The names of the other numbers are no JSON values. -/
theorem value_of_not_finite (hnumbers : FaithfulNumbers read) {d : Double}
    (hfinite : ¬ d.isFinite) (depth : Nat) (rest : NSString) :
    value depth (NumberFormat.description d ++ closeBrace :: rest) = none := by
  cases depth with
  | zero => rfl
  | succ depth =>
      by_cases hnan : d.isNaN
      · rw [hnumbers.nan d hnan]
        rfl
      · rcases hnumbers.infinite d hfinite hnan with hname | hname
        · rw [hname]
          rfl
        · rw [hname]
          rfl

theorem finite_of_value (hnumbers : FaithfulNumbers read) {entry : NSString × Double}
    (hkey : Plain entry.1) {depth : Nat} {rest after : NSString} {json : Json NSString}
    (h : value (depth + 2) (entryNode entry ++ rest) = some (json, after)) :
    entry.2.isFinite := by
  obtain ⟨fuel, hitems⟩ := value_entryNode (depth + 1) entry rest
  have hfirst := member_Key depth entry.1 (quote :: afterKey entry.2 rest)
  rw [string_plain hkey] at hfirst
  rw [hitems, items_comma closes_brace hfirst, Option.map_map, Option.map_eq_some_iff] at h
  obtain ⟨_, hmembers, _⟩ := h
  obtain ⟨_, _, _, hsecond, _⟩ := items_head hmembers
  by_contra hfinite
  rw [member_Value, value_of_not_finite hnumbers hfinite] at hsecond
  cases hsecond

omit [NumberFormat] in
theorem key_of_readEntry {json : Json NSString} {entry : NSString × Double}
    (h : readEntry read json = some entry) :
    json.member? (ns "Key") = some (.string entry.1) := by
  unfold readEntry at h
  split at h
  · next hkey _ =>
      cases h
      exact hkey
  · cases h

theorem readEntry_entryJson (hnumbers : FaithfulNumbers read) {entry : NSString × Double}
    (hfinite : entry.2.isFinite) : readEntry read (entryJson entry) = some entry := by
  have hmembers : readEntry read (entryJson entry) =
      some (entry.1, read (NumberFormat.description entry.2)) := rfl
  rw [hmembers, hnumbers.reads entry.2 hfinite]

theorem mapM_readEntry (hnumbers : FaithfulNumbers read) {entries : List (NSString × Double)}
    (hfinite : ∀ entry ∈ entries, entry.2.isFinite) :
    (entries.map entryJson).mapM (readEntry read) = some entries := by
  induction entries with
  | nil => rfl
  | cons entry entries ih =>
      obtain ⟨hfirst, hrest⟩ := List.forall_mem_cons.mp hfinite
      rw [List.map_cons, List.mapM_cons, readEntry_entryJson hnumbers hfirst, ih hrest]
      rfl

/-- An entry that is read back from the first element was transmitted as such. -/
theorem head_of_items (hnumbers : FaithfulNumbers read) {entry : NSString × Double}
    {entries : List (NSString × Double)} {depth fuel : Nat} {more rest : NSString}
    {list : List (Json NSString)}
    (h : items (value (depth + 2)) closeBracket fuel (entryNode entry ++ more) =
      some (list, rest))
    (hread : list.mapM (readEntry read) = some (entry :: entries)) :
    (Plain entry.1 ∧ entry.2.isFinite) ∧ ∃ others, list = entryJson entry :: others ∧
      others.mapM (readEntry read) = some entries := by
  obtain ⟨first, others, after, hfirst, rfl⟩ := items_head h
  rw [List.mapM_cons] at hread
  obtain ⟨_, hentry, hread⟩ := Option.bind_eq_some_iff.mp hread
  obtain ⟨_, hothers, hread⟩ := Option.bind_eq_some_iff.mp hread
  cases hread
  have hplain := plain_of_value hfirst (key_of_readEntry hentry)
  have hfinite := finite_of_value hnumbers hplain hfirst
  rw [value_entryNode_plain hplain (hnumbers.numeral _ hfinite)] at hfirst
  cases hfirst
  exact ⟨⟨hplain, hfinite⟩, others, rfl, hothers⟩

/-- Entries that are read back from the elements are plain and finite. -/
theorem plain_finite_of_items (hnumbers : FaithfulNumbers read)
    {entries : List (NSString × Double)} {depth fuel : Nat} {tail rest : NSString}
    {list : List (Json NSString)}
    (h : items (value (depth + 2)) closeBracket fuel
      ([comma].intercalate (entries.map entryNode) ++ closeBracket :: tail) = some (list, rest))
    (hread : list.mapM (readEntry read) = some entries) :
    ∀ entry ∈ entries, Plain entry.1 ∧ entry.2.isFinite := by
  induction entries generalizing fuel list with
  | nil =>
      intro entry hentry
      exact absurd hentry List.not_mem_nil
  | cons entry entries ih =>
      cases entries with
      | nil =>
          rw [List.map_singleton, List.intercalate_singleton] at h
          intro other hother
          rw [List.mem_singleton.mp hother]
          exact (head_of_items hnumbers h hread).1
      | cons next entries =>
          have htext : [comma].intercalate ((entry :: next :: entries).map entryNode) ++
              closeBracket :: tail =
                entryNode entry ++ comma ::
                  ([comma].intercalate ((next :: entries).map entryNode) ++
                    closeBracket :: tail) := by
            simp [List.intercalate_cons_cons]
          rw [htext] at h
          obtain ⟨⟨hplain, hfinite⟩, others, rfl, hothers⟩ := head_of_items hnumbers h hread
          cases fuel with
          | zero => cases h
          | succ fuel =>
              have hentry := value_entryNode_plain hplain (hnumbers.numeral _ hfinite) depth
                (comma ::
                  ([comma].intercalate ((next :: entries).map entryNode) ++ closeBracket :: tail))
              rw [items_comma closes_bracket hentry, Option.map_eq_some_iff] at h
              obtain ⟨⟨_, _⟩, hrest, hlist⟩ := h
              cases hlist
              exact List.forall_mem_cons.mpr ⟨⟨hplain, hfinite⟩, ih hrest hothers⟩

omit [NumberFormat] in
theorem wellFormed_ns (literal : String) : Unicode.WellFormed (ns literal) :=
  Unicode.wellFormed_encode _

theorem wellFormed_entryNode (entry : NSString × Double) :
    Unicode.WellFormed (entryNode entry) ↔
      Unicode.WellFormed entry.1 ∧ Unicode.WellFormed (NumberFormat.description entry.2) := by
  have hquote : Unicode.IsScalar quote := by decide
  have hbrace : Unicode.IsScalar closeBrace := by decide
  have htext : entryNode entry = ns "\x7b\"Key\":\"" ++ (entry.1 ++ quote ::
      (ns ", \"Value\":" ++ (NumberFormat.description entry.2 ++ closeBrace :: []))) := by
    simp only [entryNode, List.append_assoc]
    rfl
  rw [htext, Unicode.wellFormed_append (wellFormed_ns _),
    Unicode.wellFormed_append_cons _ hquote, Unicode.wellFormed_append (wellFormed_ns _),
    Unicode.wellFormed_append_cons _ hbrace]
  simp [Unicode.wellFormed_nil]

/-- The body has a UTF-8 form exactly when its keys and numbers have one. -/
theorem wellFormed_entriesBody (entries : List (NSString × Double)) :
    Unicode.WellFormed (entriesBody entries) ↔ ∀ entry ∈ entries,
      Unicode.WellFormed entry.1 ∧ Unicode.WellFormed (NumberFormat.description entry.2) := by
  have hopen : Unicode.IsScalar openBracket := by decide
  have hclose : Unicode.IsScalar closeBracket := by decide
  have hcomma : Unicode.IsScalar comma := by decide
  have htext : entriesBody entries = openBracket ::
      ([comma].intercalate (entries.map entryNode) ++ closeBracket :: []) := rfl
  rw [htext, Unicode.wellFormed_cons hopen, Unicode.wellFormed_append_cons _ hclose,
    Unicode.wellFormed_intercalate hcomma]
  simp only [Unicode.wellFormed_nil, and_true, List.forall_mem_map, wellFormed_entryNode]

omit [NumberFormat] in
/-- Text without a UTF-8 form has no data; other text is parsed as it was. -/
theorem bind_dataUsingEncoding (text : NSString) :
    (dataUsingEncoding text).bind parseUtf8 =
      if Unicode.WellFormed text then parse text else none := by
  by_cases hwell : Unicode.WellFormed text
  · obtain ⟨chars, hdecode⟩ := Option.isSome_iff_exists.mp hwell
    rw [if_pos hwell, dataUsingEncoding, hdecode, Option.map_some, Option.bind_some,
      parseUtf8_toUTF8, Unicode.encode_of_decode hdecode]
  · have hdecode : Unicode.decode text = none := Option.not_isSome_iff_eq_none.mp hwell
    rw [if_neg hwell, dataUsingEncoding, hdecode]
    rfl

/-- The body is read element by element. -/
theorem parse_entriesBody {entries : List (NSString × Double)} (hne : entries ≠ []) :
    ∃ depth fuel, entries.length ≤ fuel ∧ parse (entriesBody entries) =
      (items (value (depth + 2)) closeBracket fuel
        ([comma].intercalate (entries.map entryNode) ++ closeBracket :: [])).bind fun found =>
          if skipSpace found.2 = [] then some (.array found.1) else none := by
  obtain ⟨entry, others, rfl⟩ := List.exists_cons_of_ne_nil hne
  obtain ⟨more, hmore⟩ : ∃ more, [comma].intercalate ((entry :: others).map entryNode) ++
      closeBracket :: [] = openBrace :: quote :: more := by
    cases others with
    | nil =>
        rw [List.map_singleton, List.intercalate_singleton, entryNode_append]
        exact ⟨_, rfl⟩
    | cons next others =>
        rw [List.map_cons, List.map_cons, List.intercalate_cons_cons, List.append_assoc,
          List.append_assoc, entryNode_append]
        exact ⟨_, rfl⟩
  have hlength := length_le_intercalate comma ((entry :: others).map entryNode) closeBracket
  have htext : entriesBody (entry :: others) = openBracket ::
      ([comma].intercalate ((entry :: others).map entryNode) ++ closeBracket :: []) := rfl
  have hspace : isSpace openBrace = false := by decide
  have hclose : openBrace ≠ closeBracket := by decide
  rw [hmore, List.length_map] at hlength
  refine ⟨more.length + 1, _, hlength, ?_⟩
  rw [htext, hmore, parse]
  simp only [List.length_cons, value_openBracket, sequence_cons hspace hclose]
  cases items (value (more.length + 3)) closeBracket (more.length + 2)
    (openBrace :: quote :: more) <;> rfl

/-- A body is read back if and only if all its entries are transmissible. -/
theorem readBody_entriesBody (hnumbers : FaithfulNumbers read)
    {entries : List (NSString × Double)} (hne : entries ≠ []) :
    readBody read (dataUsingEncoding (entriesBody entries)) = some entries ↔
      ∀ entry ∈ entries, Transmissible entry := by
  obtain ⟨depth, fuel, hfuel, hparse⟩ := parse_entriesBody hne
  constructor
  · intro hread
    rw [readBody, bind_dataUsingEncoding] at hread
    split_ifs at hread with hwell
    · rw [hparse] at hread
      cases hitems : items (value (depth + 2)) closeBracket fuel
          ([comma].intercalate (entries.map entryNode) ++ closeBracket :: []) with
      | none =>
          rw [hitems] at hread
          cases hread
      | some found =>
          obtain ⟨list, rest⟩ := found
          rw [hitems, Option.bind_some] at hread
          split_ifs at hread with hrest
          have hplain := plain_finite_of_items hnumbers hitems hread
          have hkeys := (wellFormed_entriesBody entries).mp hwell
          exact fun entry hentry =>
            ⟨(hplain entry hentry).1, (hkeys entry hentry).1, (hplain entry hentry).2⟩
  · intro htransmissible
    have hnumeral : ∀ entry ∈ entries, isNumeral (NumberFormat.description entry.2) :=
      fun entry hentry => hnumbers.numeral _ (htransmissible entry hentry).2.2
    have hwell : Unicode.WellFormed (entriesBody entries) :=
      (wellFormed_entriesBody entries).mpr fun entry hentry =>
        ⟨(htransmissible entry hentry).2.1, wellFormed_of_isNumeral (hnumeral entry hentry)⟩
    have hitems := items_intercalate closes_bracket hne
      (fun entry hentry rest => value_entryNode_plain (htransmissible entry hentry).1
        (hnumeral entry hentry) depth rest) hfuel []
    rw [readBody, bind_dataUsingEncoding, if_pos hwell, hparse, hitems]
    exact mapM_readEntry hnumbers fun entry hentry => (htransmissible entry hentry).2.2

/-- Whether an event flushes a kind for a user. -/
def Event.flushes (kind : Kind) (user : NSString) (active : Option NSString) : Event → Prop
  | .flush flushed .active _ => flushed = kind ∧ active = some user
  | .flush flushed (.user userId) _ => flushed = kind ∧ userId = some user
  | _ => False

/-- No event of a run does. -/
def NeverFlushed (kind : Kind) (user : NSString) : Option NSString → List Event → Prop
  | _, [] => True
  | active, e :: es =>
      ¬ e.flushes kind user active ∧ NeverFlushed kind user (e.userAfter active) es

omit [NumberFormat] in
theorem Event.moves_ne_flush {w : World} {e : Event} {kind : Kind} {user : NSString}
    (h : ¬ e.flushes kind user w.userId) : ∀ op ∈ e.moves w, op ≠ .flush (kind, user) := by
  rintro op hop rfl
  cases e with
  | prepare prepared value key =>
      cases hactive : w.userId <;> simp [Event.moves, hactive] at hop
  | flush flushed target call =>
      cases hresolve : target.resolve w with
      | none => simp [Event.moves, hresolve] at hop
      | some user' =>
          simp only [Event.moves, hresolve, List.mem_singleton, Outbox.Op.flush.injEq,
            Prod.mk.injEq] at hop
          obtain ⟨rfl, rfl⟩ := hop
          cases target <;> exact h ⟨rfl, hresolve⟩
  | setProjectId _ | setUserId _ | setShouldLoadIcons _ | getProjectAchievements _
  | getUserAchievements _ | complete _ _ => exact absurd hop List.not_mem_nil

/-- Without a flush, what waits grows by what is prepared. -/
theorem World.run_pending {w w' : World} {es : List Event} {kind : Kind} {user : NSString}
    (hinv : w.Inv) (hrun : w.run es = some w') (hkept : NeverFlushed kind user w.userId es) :
    (w'.pending kind user).map BKPair.entry =
      (w.pending kind user).map BKPair.entry ++ preparedFor kind user w.userId es := by
  induction es generalizing w with
  | nil =>
      cases hrun
      simp [preparedFor]
  | cons e rest ih =>
      obtain ⟨next, hnext, hrest⟩ := Machine.run_cons_eq_some.mp hrun
      obtain ⟨hinv', houtbox⟩ := World.step_refines hinv hnext
      obtain ⟨hevent, hlater⟩ := hkept
      rw [← World.step_userId hnext] at hlater
      have hpending : next.pending kind user =
          w.pending kind user ++ (e.moves w).flatMap (Outbox.Op.puts (kind, user)) := by
        have hmoves := Outbox.run_pending w.outbox (Event.moves_ne_flush hevent)
        rw [← houtbox] at hmoves
        exact hmoves
      rw [ih hinv' hrest hlater, hpending, List.map_append, Event.puts_moves hnext,
        World.step_userId hnext, List.append_assoc]
      rfl

/-- The body of the request that a flush sends. -/
theorem World.body_flushTask (w : World) (kind : Kind) (user : NSString) (array : Heap.Ref)
    (call : Call) :
    (w.flushTask kind user array call).urlRequest.HTTPBody =
      dataUsingEncoding (BKApiRequest.pairsBody (w.arrays.get array)) := by
  have hget : (kind.handOver w.arrays array).1.get (kind.handOver w.arrays array).2 =
      w.arrays.get array := Kind.get_handedOver w.arrays
  rw [← hget]
  cases kind <;> rfl

/-- A flush sends the entries that were waiting. -/
theorem World.step_flush_waiting {w : World} (hfresh : w.Fresh) {kind : Kind}
    {target : FlushTarget} {call : Call} {user : NSString}
    (htarget : target.resolve w = some user) (hwaiting : w.pending kind user ≠ [])
    (hcall : call.id ∉ w.calls) :
    ∃ w' task, w.step (.flush kind target call) = some w' ∧
      w'.requests = w.requests ++ [task] ∧ task.request.channel? = some (kind, user) ∧
      task.urlRequest.HTTPBody =
        dataUsingEncoding (entriesBody ((w.pending kind user).map BKPair.entry)) := by
  obtain ⟨array, hentry, hget⟩ := World.exists_array hwaiting
  have hdistinct := hfresh.pending kind user
  rw [World.pending_of_lookup hentry] at hdistinct ⊢
  have hstep : w.step (.flush kind target call) =
      some ((w.register call).afterFlush kind user array call) :=
    step_flush_eq_some.mpr ⟨hcall, .inr ⟨user, array, htarget, hentry, hget, rfl⟩⟩
  refine ⟨_, _, hstep, World.requests_afterFlush, World.channel?_flushTask, ?_⟩
  rw [World.body_flushTask]
  exact congrArg dataUsingEncoding (pairsBody_eq hdistinct)

/-- The body that a flush sends after any events that prepare values for its
user and do not flush them is read back as these values if and only if they
are all transmissible. -/
theorem body_round_trips_iff (hnumbers : FaithfulNumbers read) {es later : List Event}
    {w next : World} {kind : Kind} {user : NSString} {target : FlushTarget} {call : Call}
    (hreach : World.initial.run es = some w) (hidle : w.pending kind user = [])
    (hrun : w.run later = some next) (hkept : NeverFlushed kind user w.userId later)
    (hsome : preparedFor kind user w.userId later ≠ [])
    (htarget : target.resolve next = some user) (hcall : call.id ∉ next.calls) :
    ∃ w' task, next.step (.flush kind target call) = some w' ∧
      w'.requests = next.requests ++ [task] ∧ task.request.channel? = some (kind, user) ∧
      (readBody read task.urlRequest.HTTPBody = some (preparedFor kind user w.userId later) ↔
        ∀ entry ∈ preparedFor kind user w.userId later, Transmissible entry) := by
  have hrun' : World.initial.run (es ++ later) = some next := by
    rw [World.run, Machine.run_append]
    exact (congrArg (Option.bind · _) hreach).trans hrun
  have hentries := World.run_pending (World.reachable_sound hreach).1 hrun hkept
  rw [hidle, List.map_nil, List.nil_append] at hentries
  have hwaiting : next.pending kind user ≠ [] := by
    intro hempty
    rw [hempty] at hentries
    exact hsome hentries.symm
  obtain ⟨w', task, hstep, hrequests, hchannel, hbody⟩ :=
    World.step_flush_waiting (World.reachable_fresh hrun') htarget hwaiting hcall
  refine ⟨w', task, hstep, hrequests, hchannel, ?_⟩
  rw [hbody, hentries]
  exact readBody_entriesBody hnumbers hsome

end

/-- Reads back what `NumberFormat.numerals` writes. -/
def readNumeral (token : NSString) : Double :=
  if token = ns "0" then Double.zero
  else if token = ns "1" then Double.one
  else ⟨UInt64.ofNat (Nat.ofDigits 10 (token.tail.map fun unit => unit.toNat - 0x30))⟩

theorem isDigit_ofNat {digit : Nat} (h : digit < 10) :
    isDigit (UInt16.ofNat (0x30 + digit)) = true := by
  interval_cases digit <;> decide

theorem toNat_digit {digit : Nat} (h : digit < 10) :
    (UInt16.ofNat (0x30 + digit)).toNat - 0x30 = digit := by
  interval_cases digit <;> decide

/-- A one followed by digits is a numeral. -/
theorem isNumeral_one_cons {digits : NSString} (h : ∀ unit ∈ digits, isDigit unit = true) :
    isNumeral (0x31 :: digits) = true := by
  have hrest : digits.dropWhile isDigit = [] := List.dropWhile_eq_nil_iff.mpr h
  have hmagnitude : isNumeral (0x31 :: digits) = isFraction (digits.dropWhile isDigit) := rfl
  rw [hmagnitude, hrest]
  rfl

theorem numeral_of_finite {d : Double} (h : d.isFinite) :
    d.numeral =
      if d = Double.zero then ns "0"
      else if d = Double.one then ns "1"
      else 0x31 :: (Nat.digits 10 d.bits.toNat).map fun digit => UInt16.ofNat (0x30 + digit) := by
  have hnan : d.isNaN = false := by simp [Double.isNaN, h]
  simp only [Double.numeral, hnan, h, Bool.not_true, Bool.false_eq_true, if_false]

theorem readNumeral_digits {d : Double} (h : d ≠ Double.zero) :
    readNumeral (0x31 ::
      (Nat.digits 10 d.bits.toNat).map fun digit => UInt16.ofNat (0x30 + digit)) = d := by
  have hbits : d.bits.toNat ≠ 0 := by
    intro hzero
    exact h (congrArg Double.mk (UInt64.toNat_inj.mp hzero))
  have hdigits : ((Nat.digits 10 d.bits.toNat).map fun digit =>
      UInt16.ofNat (0x30 + digit)).map (fun unit => unit.toNat - 0x30) =
        Nat.digits 10 d.bits.toNat := by
    rw [List.map_map]
    refine (List.map_congr_left fun digit hdigit => ?_).trans (List.map_id _)
    exact toNat_digit (Nat.digits_lt_base (by decide) hdigit)
  have hnotZero : ∀ rest : NSString, (0x31 :: rest : NSString) ≠ ns "0" := by
    intro rest hsame
    exact absurd (List.cons.inj hsame).1 (by decide)
  have hnotOne : (0x31 :: (Nat.digits 10 d.bits.toNat).map fun digit =>
      UInt16.ofNat (0x30 + digit) : NSString) ≠ ns "1" := by
    intro hsame
    have hempty := List.map_eq_nil_iff.mp (List.cons.inj hsame).2
    exact hbits (Nat.digits_eq_nil_iff_eq_zero.mp hempty)
  rw [readNumeral, if_neg (hnotZero _), if_neg hnotOne, List.tail_cons, hdigits,
    Nat.ofDigits_digits]
  exact congrArg Double.mk (UInt64.ofNat_toNat)

theorem numerals_faithful : @FaithfulNumbers NumberFormat.numerals readNumeral := by
  refine @FaithfulNumbers.mk NumberFormat.numerals readNumeral ?_ ?_ ?_ ?_
  · intro d hfinite
    change isNumeral d.numeral = true
    rw [numeral_of_finite hfinite]
    split_ifs with hzero hone
    · decide
    · decide
    · apply isNumeral_one_cons
      intro unit hunit
      obtain ⟨digit, hdigit, rfl⟩ := List.mem_map.mp hunit
      exact isDigit_ofNat (Nat.digits_lt_base (by decide) hdigit)
  · intro d hfinite
    change readNumeral d.numeral = d
    rw [numeral_of_finite hfinite]
    split_ifs with hzero hone
    · rw [hzero]
      rfl
    · rw [hone]
      rfl
    · exact readNumeral_digits hzero
  · intro d hnan
    exact if_pos hnan
  · intro d hfinite hnan
    change d.numeral = _ ∨ d.numeral = _
    cases hnegative : d.isNegative <;> simp [Double.numeral, hnan, hfinite, hnegative]

/-- Two values for one user, the second after another user was active. -/
def twoValues : List Event :=
  [.prepare .post Double.one (ns "gold"),
    .setUserId (some (ns "bob")),
    .prepare .post Double.one (ns "iron"),
    .setUserId (some (ns "ann")),
    .prepare .post Double.zero (ns "gold")]

theorem body_round_trips_iff_two_values :
    letI := NumberFormat.numerals
    ∃ w next, World.initial.run [.setUserId (some (ns "ann"))] = some w ∧
      w.run twoValues = some next ∧
      ∃ w' task, next.step (.flush .post .active ⟨0, true, true⟩) = some w' ∧
        w'.requests = next.requests ++ [task] ∧
        task.request.channel? = some (.post, ns "ann") ∧
        (readBody readNumeral task.urlRequest.HTTPBody =
            some (preparedFor .post (ns "ann") w.userId twoValues) ↔
          ∀ entry ∈ preparedFor .post (ns "ann") w.userId twoValues, Transmissible entry) :=
  letI := NumberFormat.numerals
  ⟨_, _, rfl, rfl, body_round_trips_iff numerals_faithful
    (rfl : World.initial.run [.setUserId (some (ns "ann"))] = some _) rfl rfl
    ⟨not_false, not_false, not_false, not_false, not_false, trivial⟩
    (by decide) rfl (by decide)⟩

/-- A key with quotes in it. -/
def forgingKey : NSString := ns "a\", \"Value\":0\x7d,\x7b\"Key\":\"b"

def forgery : List Event :=
  [.setUserId (some (ns "ann")),
    .prepare .post Double.one forgingKey,
    .flush .post .active ⟨0, true, true⟩]

/-- One value is prepared and two are received, neither under its key. -/
theorem key_forges_entry :
    letI := NumberFormat.numerals
    FaithfulNumbers readNumeral ∧
      preparedFor .post (ns "ann") none forgery = [(forgingKey, Double.one)] ∧
      ∃ w task, World.initial.run forgery = some w ∧ w.requests = [task] ∧
        readBody readNumeral task.urlRequest.HTTPBody =
          some [(ns "a", Double.zero), (ns "b", Double.one)] :=
  letI := NumberFormat.numerals
  ⟨numerals_faithful, by decide, _, _, rfl, rfl, by decide +kernel⟩

end BadgeKeeper

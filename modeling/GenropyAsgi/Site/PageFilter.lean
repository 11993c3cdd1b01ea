import GenropyAsgi.Site.Demolition

/-!
# The filter of the pages

A filter `name:pattern AND name:pattern AND ...` names the rows that every clause matches. The loop
of `_filter_items` takes a row each time one of its clauses matches it, of the clauses of one name
only the last one being asked. What it selects is therefore the conjunction exactly where, on every
row, none of the clauses that it asks matches, or they all do and bear one name.
-/

namespace GenropyAsgi.Site

open Library

variable {V : Type} [PyValue V]

/-- The owner of a page, at one moment. -/
def Registers.ownerOf (s : Registers V) (page_id : PageId) : Option User :=
  (s.find .page page_id).bind fun page =>
    (s.find .connection (s.page page.object).connection_id).map fun connection =>
      (s.connection connection.object).user

/-- The value that a clause names, at one moment. -/
def Registers.clauseValue (s : Registers V) (item : Ref) (fltname : String) : Field V :=
  if fltname = "user" then ((s.ownerOf (s.itemId item)).map Field.text).getD .none
  else s.field item fltname

/-- A clause matches a row: the value that it names is not missing and not empty, and its pattern
matches it. -/
def ClauseHolds (engine : RegexEngine) (s : Registers V) (item : Ref) (clause : String × String) :
    Prop :=
  clauseMatches engine (s.clauseValue item clause.1) (filterValue engine clause.2) = true

instance (engine : RegexEngine) (s : Registers V) (item : Ref) :
    DecidablePred (ClauseHolds engine s item) :=
  fun _ => inferInstanceAs (Decidable (_ = true))

/-- Every clause matches a row. -/
def AllHold (engine : RegexEngine) (s : Registers V) (clauses : List (String × String))
    (item : Ref) : Prop :=
  ∀ clause ∈ clauses, ClauseHolds engine s item clause

instance (engine : RegexEngine) (s : Registers V) (clauses : List (String × String)) :
    DecidablePred (AllHold engine s clauses) :=
  fun _ => inferInstanceAs (Decidable (∀ clause ∈ clauses, _))

/-- The clauses of a filter decide on a row as their conjunction does: none of those that are the
last of their name matches it, or all clauses bear one name and match it. -/
def DecidedTogether (engine : RegexEngine) (s : Registers V) (clauses : List (String × String))
    (item : Ref) : Prop :=
  (∀ clause, OrderedDict.LastOf clauses clause → ¬ ClauseHolds engine s item clause) ∨
    (∀ clause ∈ clauses, ∀ clause' ∈ clauses, clause.1 = clause'.1) ∧
      AllHold engine s clauses item

/-! ## The loop -/

omit [PyValue V] in
/-- `_page_owner`, when nothing moves. -/
@[simp]
theorem atRest_pageOwner (s : Registers V) (page_id : PageId) :
    (pageOwner page_id : Reader V (Option User)).atRest s = .ok (s.ownerOf page_id) := by
  unfold pageOwner Registers.ownerOf
  rw [Lookups.atRest_bind, Lookups.atRest_read]
  dsimp only [Except.bind]
  cases s.find .page page_id with
  | none => rfl
  | some page =>
    dsimp only
    rw [Lookups.atRest_bind, Lookups.atRest_read]
    dsimp only [Except.bind]
    rw [Lookups.atRest_bind, Lookups.atRest_read]
    dsimp only [Except.bind]
    rw [Option.bind_some]
    cases s.find .connection (s.page page.object).connection_id with
    | none => rfl
    | some connection => rfl

/-- The value that a clause names, when nothing moves. -/
@[simp]
theorem atRest_clauseValue (s : Registers V) (item : Ref) (fltname : String) :
    (clauseValue item fltname).atRest s = .ok (s.clauseValue item fltname) := by
  unfold clauseValue Registers.clauseValue
  split_ifs
  · rw [Lookups.atRest_bind, Lookups.atRest_read]
    dsimp only [Except.bind]
    rw [Lookups.atRest_bind, atRest_pageOwner]
    rfl
  · rfl

/-- How often the loop takes a row: once for each clause asked that matches it. -/
def takings (engine : RegexEngine) (s : Registers V) (clauses : List (String × String))
    (item : Ref) : ℕ :=
  (filterDict engine clauses).items.countP fun clause =>
    clauseMatches engine (s.clauseValue item clause.1) clause.2

omit [PyValue V] in
/-- A list to which one element is added each time a test holds. -/
theorem flatMap_ite_singleton {α β : Type} (xs : List α) (test : α → Bool) (b : β) :
    (xs.flatMap fun a => if test a then [b] else []) = List.replicate (xs.countP test) b := by
  induction xs with
  | nil => rfl
  | cons a xs ih =>
    rw [List.flatMap_cons, ih, List.countP_cons]
    split_ifs with h
    · rw [List.replicate_succ, List.singleton_append]
    · rw [List.nil_append, Nat.add_zero]

omit [PyValue V] in
/-- A filter with clauses is no empty text. -/
theorem given_of_clauses {filters : String} {clauses : List (String × String)}
    (hclauses : clausesOf filters = some clauses) : given (some filters) = some filters := by
  have hne : filters ≠ "" := by
    rintro rfl
    have hnone : clausesOf "" = none := by decide
    rw [hnone] at hclauses
    cases hclauses
  unfold given
  rw [Option.filter_some, if_pos (decide_eq_true hne)]

/-- What `_filter_items` answers when nothing moves: each row as often as it is taken. -/
theorem atRest_filterItems (engine : RegexEngine) (s : Registers V) (items : List Ref)
    {filters : String} {clauses : List (String × String)}
    (hclauses : clausesOf filters = some clauses) :
    (filterItems engine items (some filters)).atRest s =
      .ok (items.flatMap fun item => List.replicate (takings engine s clauses item) item) := by
  have hstar : filters ≠ "*" := by
    rintro rfl
    have hnone : clausesOf "*" = none := by decide
    rw [hnone] at hclauses
    cases hclauses
  unfold filterItems
  rw [given_of_clauses hclauses]
  dsimp only
  rw [if_neg hstar, hclauses]
  dsimp only
  refine Lookups.atRest_gather s fun item _ => ?_
  rw [takings, ← flatMap_ite_singleton]
  refine Lookups.atRest_gather s fun clause _ => ?_
  rw [Lookups.atRest_bind, atRest_clauseValue]
  rfl

omit [PyValue V] in
/-- The clauses that are asked. -/
theorem mem_filterDict {engine : RegexEngine} {clauses : List (String × String)} {fltname : String}
    {fltpat : FilterValue engine.Pattern} :
    (fltname, fltpat) ∈ (filterDict engine clauses).items ↔
      ∃ fltvalue, OrderedDict.LastOf clauses (fltname, fltvalue) ∧
        filterValue engine fltvalue = fltpat := by
  unfold filterDict
  rw [OrderedDict.mem_items_assign, OrderedDict.lastOf_map]

/-- A row is not taken when no clause that is asked matches it. -/
theorem takings_eq_zero_iff (engine : RegexEngine) (s : Registers V)
    (clauses : List (String × String)) (item : Ref) :
    takings engine s clauses item = 0 ↔
      ∀ clause, OrderedDict.LastOf clauses clause → ¬ ClauseHolds engine s item clause := by
  unfold takings
  rw [List.countP_eq_zero]
  constructor
  · intro h clause hlast hholds
    exact h (clause.1, filterValue engine clause.2) (mem_filterDict.2 ⟨clause.2, hlast, rfl⟩) hholds
  · rintro h ⟨fltname, fltpat⟩ hmem hholds
    obtain ⟨fltvalue, hlast, rfl⟩ := mem_filterDict.1 hmem
    exact h (fltname, fltvalue) hlast hholds

/-- Where all clauses match, a row is taken once for each name. -/
theorem takings_of_allHold {engine : RegexEngine} {s : Registers V}
    {clauses : List (String × String)} {item : Ref} (h : AllHold engine s clauses item) :
    takings engine s clauses item = (filterDict engine clauses).items.length := by
  unfold takings
  rw [List.countP_eq_length]
  rintro ⟨fltname, fltpat⟩ hmem
  obtain ⟨fltvalue, hlast, rfl⟩ := mem_filterDict.1 hmem
  exact h (fltname, fltvalue) hlast.mem

omit [PyValue V] in
/-- One clause is asked exactly when all of them bear one name. -/
theorem length_filterDict_eq_one_iff (engine : RegexEngine) {clauses : List (String × String)}
    (hne : clauses ≠ []) :
    (filterDict engine clauses).items.length = 1 ↔
      ∀ clause ∈ clauses, ∀ clause' ∈ clauses, clause.1 = clause'.1 := by
  have hasked : ∀ clause ∈ clauses,
      clause.1 ∈ (filterDict engine clauses).items.map Prod.fst := by
    intro clause hclause
    obtain ⟨fltvalue, hlast⟩ := OrderedDict.exists_lastOf hclause
    exact List.mem_map.2 ⟨_, mem_filterDict.2 ⟨fltvalue, hlast, rfl⟩, rfl⟩
  constructor
  · intro h clause hclause clause' hclause'
    obtain ⟨asked, hitems⟩ := List.length_eq_one_iff.1 h
    have h₁ := hasked clause hclause
    have h₂ := hasked clause' hclause'
    rw [hitems] at h₁ h₂
    rw [List.mem_singleton.1 h₁, List.mem_singleton.1 h₂]
  · intro h
    obtain ⟨clause, hclause⟩ := List.exists_mem_of_ne_nil clauses hne
    -- Every name asked is the one name, and no name is asked twice.
    have hnames : ∀ name ∈ (filterDict engine clauses).items.map Prod.fst, name = clause.1 := by
      intro name hname
      obtain ⟨⟨_, fltpat⟩, hmem, rfl⟩ := List.mem_map.1 hname
      obtain ⟨fltvalue, hlast, _⟩ := mem_filterDict.1 hmem
      exact h _ hlast.mem clause hclause
    have hreplicate := List.eq_replicate_of_mem hnames
    have hnodup := (filterDict engine clauses).nodup
    rw [hreplicate, List.nodup_replicate, List.length_map] at hnodup
    have hpos := List.length_pos_of_mem (hasked clause hclause)
    rw [List.length_map] at hpos
    omega

/-- A row is taken as the conjunction takes it exactly when the clauses decide on it as their
conjunction does. -/
theorem takings_iff (engine : RegexEngine) (s : Registers V) {clauses : List (String × String)}
    (hne : clauses ≠ []) (item : Ref) :
    takings engine s clauses item = (if AllHold engine s clauses item then 1 else 0) ↔
      DecidedTogether engine s clauses item := by
  unfold DecidedTogether
  by_cases hall : AllHold engine s clauses item
  · rw [if_pos hall, takings_of_allHold hall, length_filterDict_eq_one_iff engine hne]
    constructor
    · exact fun h => Or.inr ⟨h, hall⟩
    · rintro (h | h)
      · -- Some clause is the last of its name, and it matches.
        obtain ⟨clause, hclause⟩ := List.exists_mem_of_ne_nil clauses hne
        obtain ⟨fltvalue, hlast⟩ := OrderedDict.exists_lastOf hclause
        exact absurd (hall _ hlast.mem) (h _ hlast)
      · exact h.1
  · rw [if_neg hall, takings_eq_zero_iff]
    constructor
    · exact Or.inl
    · rintro (h | h)
      · exact h
      · exact absurd h.2 hall

omit [PyValue V] in
/-- Elements taken over and over make the list that a test selects exactly when each is taken once
or not at all, as the test says. -/
theorem flatMap_replicate_eq_filter_iff {α : Type} [DecidableEq α] (xs : List α) (n : α → ℕ)
    (p : α → Prop) [DecidablePred p] :
    (xs.flatMap fun a => List.replicate (n a) a) = xs.filter p ↔
      ∀ a ∈ xs, n a = if p a then 1 else 0 := by
  have hcount : ∀ (ys : List α) (a : α),
      (ys.flatMap fun b => List.replicate (n b) b).count a = ys.count a * n a := by
    intro ys a
    induction ys with
    | nil => simp
    | cons b ys ih =>
      rw [List.flatMap_cons, List.count_append, ih, List.count_replicate, List.count_cons,
        Nat.add_mul, Nat.add_comm]
      congr 1
      by_cases hb : b = a
      · subst hb
        simp
      · simp [beq_eq_false_iff_ne.2 hb]
  constructor
  · intro h a ha
    -- The two lists have the same number of copies of each element.
    have hsame := congrArg (List.count a) h
    rw [hcount] at hsame
    have hpos : 0 < xs.count a := List.count_pos_iff.2 ha
    by_cases hp : p a
    · rw [List.count_filter (by simpa using hp)] at hsame
      rw [if_pos hp]
      exact Nat.eq_of_mul_eq_mul_left hpos (by rw [hsame, Nat.mul_one])
    · have hnone : (xs.filter p).count a = 0 := by
        rw [List.count_eq_zero]
        intro hmem
        exact hp (by simpa using (List.mem_filter.1 hmem).2)
      rw [hnone] at hsame
      rw [if_neg hp]
      exact (Nat.mul_eq_zero.1 hsame).resolve_left hpos.ne'
  · intro h
    induction xs with
    | nil => rfl
    | cons a xs ih =>
      rw [List.flatMap_cons, h a List.mem_cons_self,
        ih fun b hb => h b (List.mem_cons_of_mem a hb), List.filter_cons]
      by_cases hp : p a
      · simp [hp]
      · simp [hp]

omit [PyValue V] in
/-- A filter has a clause. -/
theorem clausesOf_ne_nil {filters : String} {clauses : List (String × String)}
    (h : clausesOf filters = some clauses) : clauses ≠ [] := by
  have hpieces : ∀ (chars piece : List Char) (skip : ℕ),
      splitText " AND ".toList skip piece chars ≠ [] := by
    intro chars
    induction chars with
    | nil =>
      intro piece skip
      cases skip <;> exact List.cons_ne_nil _ _
    | cons char chars ih =>
      intro piece skip
      cases skip with
      | succ skip => exact ih piece skip
      | zero =>
        unfold splitText
        split_ifs
        · exact List.cons_ne_nil _ _
        · exact ih _ 0
  unfold clausesOf at h
  rintro rfl
  cases hsplit : splitText " AND ".toList 0 [] filters.toList with
  | nil => exact hpieces _ _ _ hsplit
  | cons piece pieces =>
    rw [hsplit, List.mapM_cons] at h
    obtain ⟨clause, _, hrest⟩ := Option.bind_eq_some_iff.1 h
    obtain ⟨rest, _, hcons⟩ := Option.bind_eq_some_iff.1 hrest
    cases hcons

/-! ## The pushes to the clients -/

/-- A node of the Bag of changes that `setInClientData` may be given, with the two attributes that
are taken off it. -/
structure ChangeNode (V : Type) where
  /-- `_client_path`. -/
  client_path : String
  /-- `fired`. -/
  fired : Option V
  /-- The other attributes. -/
  attributes : Attributes V
  /-- The value. -/
  value : V

/-- What `setInClientData` writes: one path, or the nodes of a Bag. -/
inductive ClientPath (V : Type) where
  /-- A path. -/
  | path (path : String)
  /-- A Bag of changes. -/
  | bag (nodes : List (ChangeNode V))

/-- A call of `set_datachange`. -/
structure ClientPush (V : Type) where
  /-- The page addressed. -/
  page_id : PageId
  /-- The path written. -/
  path : String
  /-- The value. -/
  value : V
  /-- The reason. -/
  reason : Option String
  /-- The attributes. -/
  attributes : Option (Attributes V)
  /-- Whether the write is a one-shot event. -/
  fired : Option V
  /-- Whether it replaces the pending change of its key. -/
  replace : Bool

omit [PyValue V] in
/-- The calls for one page. -/
def pushesTo (pid : PageId) (value : V) (attributes : Option (Attributes V)) (fired : Option V)
    (reason : Option String) (replace : Bool) : ClientPath V → List (ClientPush V)
  | .path path => [⟨pid, path, value, reason, attributes, fired, replace⟩]
  | .bag nodes => nodes.map fun change_node =>
    ⟨pid, change_node.client_path, change_node.value, none, some change_node.attributes,
      change_node.fired, false⟩

/-- The pages that `setInClientData` addresses. -/
def pushedPages (engine : RegexEngine) (localTime : Instant → V)
    (page_id filters : Option String) : Reader V (List PageId) :=
  match given filters with
  | some filters => do
    let items ← pages engine localTime none none (some filters)
    pure (items.items.map Prod.fst)
  | none => pure page_id.toList

/-- `setInClientData`: the calls that it makes. -/
def setInClientData (engine : RegexEngine) (localTime : Instant → V) (path : ClientPath V)
    (value : V) (attributes : Option (Attributes V)) (page_id filters : Option String)
    (fired : Option V) (reason : Option String) (replace : Bool) :
    Reader V (List (ClientPush V)) := do
  let page_ids ← pushedPages engine localTime page_id filters
  pure (page_ids.flatMap fun pid =>
    if pid = "" then [] else pushesTo pid value attributes fired reason replace path)

omit [PyValue V] in
/-- The calls for a page address it. -/
theorem page_id_of_mem_pushesTo {pid : PageId} {value : V} {attributes : Option (Attributes V)}
    {fired : Option V} {reason : Option String} {replace : Bool} {path : ClientPath V}
    {push : ClientPush V} (h : push ∈ pushesTo pid value attributes fired reason replace path) :
    push.page_id = pid := by
  cases path with
  | path path =>
    rw [List.mem_singleton.1 h]
  | bag nodes =>
    obtain ⟨node, _, rfl⟩ := List.mem_map.1 h
    rfl

/-- Other threads that do nothing. -/
def still : CoreSteps V where
  after s _ := s
  keeps_id _ _ _ := rfl
  keyed _ _ _ _ _ h := Or.inl h

/-- A filtered `pages`, when nothing moves: each of its keys is the id of a registered row that the
filter has taken. -/
theorem atRest_pages (engine : RegexEngine) (localTime : Instant → V) {s : Registers V}
    (hcoherent : s.Coherent) {filters : String} {clauses : List (String × String)}
    (hclauses : clausesOf filters = some clauses) :
    ∃ answer, (pages engine localTime none none (some filters)).atRest s = .ok answer ∧
      ∀ key ∈ answer.items.map Prod.fst,
        ∃ item, s.find .page key = some item ∧ takings engine s clauses item ≠ 0 := by
  have hknown := known_singleton hcoherent
  have hstill : (still : CoreSteps V).Follows s s := ⟨[], rfl⟩
  obtain ⟨items, seen, hitems, hseen, hregistered⟩ :=
    Lookups.Always.atRest hstill (answers_pageRows none none [s] hknown)
  have hfiltered := atRest_filterItems engine s items hclauses
  -- The rows that are adapted are those that the filter has taken.
  have hrows : ∀ item ∈ items.flatMap fun item =>
      List.replicate (takings engine s clauses item) item, Registered .page [s] item := by
    intro item hitem
    obtain ⟨row, hrow, hreplicate⟩ := List.mem_flatMap.1 hitem
    rw [(List.mem_replicate.1 hreplicate).2]
    obtain ⟨hregister, s', hs', hfind⟩ := hregistered row hrow
    rw [hseen s' hs'] at hfind
    exact ⟨hregister, s, List.mem_singleton_self s, hfind⟩
  obtain ⟨answer, seen', hanswer, hseen', hhanded⟩ :=
    Lookups.Always.atRest hstill (always_adaptListToDict localTime hknown hrows)
  refine ⟨answer, ?_, ?_⟩
  · unfold pages
    rw [Lookups.atRest_bind, hitems]
    dsimp only [Except.bind]
    rw [Lookups.atRest_bind, hfiltered]
    exact hanswer
  · intro key hkey
    obtain ⟨⟨_, view⟩, hmem, rfl⟩ := List.mem_map.1 hkey
    obtain ⟨item, hitem, hhandedOut⟩ := hhanded _ view hmem
    obtain ⟨s', hs', hfind⟩ := hhandedOut.registered
    rw [hseen' s' hs'] at hfind
    obtain ⟨row, _, hreplicate⟩ := List.mem_flatMap.1 hitem
    obtain ⟨htaken, rfl⟩ := List.mem_replicate.1 hreplicate
    exact ⟨item, hfind, htaken⟩

/-- The filter of the pages and its conjunction. For every list of rows and every filter of
clauses, `_filter_items` answers the rows that every clause matches, each once and in their order,
if and only if on each row none of the clauses that are the last of their name matches, or all
clauses bear one name and match; and where this is so of every registered page, a `setInClientData`
with the filter reaches no page that fails a clause. -/
theorem filterItems_is_conjunction_iff (engine : RegexEngine) (localTime : Instant → V)
    (s : Registers V) (items : List Ref) {filters : String} {clauses : List (String × String)}
    (hclauses : clausesOf filters = some clauses) :
    ((filterItems engine items (some filters)).atRest s =
        .ok (items.filter fun item => decide (AllHold engine s clauses item)) ↔
      ∀ item ∈ items, DecidedTogether engine s clauses item) ∧
      (s.Coherent →
        (∀ key item, s.find .page key = some item → DecidedTogether engine s clauses item) →
        ∀ (path : ClientPath V) (value : V) (attributes : Option (Attributes V))
          (page_id : Option String) (fired : Option V) (reason : Option String) (replace : Bool),
          ∃ pushes, (setInClientData engine localTime path value attributes page_id (some filters)
              fired reason replace).atRest s = .ok pushes ∧
            ∀ push ∈ pushes, ∃ item, s.find .page push.page_id = some item ∧
              AllHold engine s clauses item) := by
  have hne := clausesOf_ne_nil hclauses
  refine ⟨?_, ?_⟩
  · rw [atRest_filterItems engine s items hclauses, Except.ok.injEq,
      flatMap_replicate_eq_filter_iff]
    exact forall_congr' fun item => forall_congr' fun _ => takings_iff engine s hne item
  · intro hcoherent htogether path value attributes page_id fired reason replace
    obtain ⟨answer, hanswer, hkeys⟩ := atRest_pages engine localTime hcoherent hclauses
    refine ⟨(answer.items.map Prod.fst).flatMap fun pid =>
      if pid = "" then [] else pushesTo pid value attributes fired reason replace path, ?_, ?_⟩
    · unfold setInClientData pushedPages
      rw [given_of_clauses hclauses]
      dsimp only
      rw [Lookups.atRest_bind, Lookups.atRest_bind, hanswer]
      rfl
    · intro push hpush
      obtain ⟨pid, hpid, hpush⟩ := List.mem_flatMap.1 hpush
      split_ifs at hpush
      · cases hpush
      · rw [page_id_of_mem_pushesTo hpush]
        -- The row was taken, so that the clauses decide on it by matching it, all of them.
        obtain ⟨item, hfind, htaken⟩ := hkeys pid hpid
        refine ⟨item, hfind, ?_⟩
        rcases htogether pid item hfind with hnone | hall
        · exact absurd ((takings_eq_zero_iff engine s clauses item).2 hnone) htaken
        · exact hall.2

namespace Sample

/-- An engine for patterns without special characters: they match what begins with them. -/
def literalEngine : RegexEngine where
  Pattern := String
  compile := some
  patternMatch pattern text := pattern.toList.isPrefixOf text.toList

end Sample

/-- One clause selects the page that it names. -/
theorem filterItems_of_one_clause :
    (filterItems Sample.literalEngine [⟨.page, 0⟩, ⟨.page, 1⟩] (some "user_ip:10")).atRest
        Sample.registers =
      .ok ([⟨.page, 0⟩, ⟨.page, 1⟩].filter fun item =>
        decide (AllHold Sample.literalEngine Sample.registers [("user_ip", "10")] item)) := by
  have hclauses : clausesOf "user_ip:10" = some [("user_ip", "10")] := by decide
  obtain ⟨hiff, _⟩ := filterItems_is_conjunction_iff Sample.literalEngine Sample.Value.instant
    Sample.registers [⟨.page, 0⟩, ⟨.page, 1⟩] hclauses
  refine hiff.2 fun item _ => ?_
  -- The one clause matches the row or does not.
  by_cases h : ClauseHolds Sample.literalEngine Sample.registers item ("user_ip", "10")
  · refine Or.inr ⟨?_, ?_⟩
    · intro clause hclause clause' hclause'
      rw [List.mem_singleton.1 hclause, List.mem_singleton.1 hclause']
    · intro clause hclause
      rw [List.mem_singleton.1 hclause]
      exact h
  · refine Or.inl fun clause hlast => ?_
    rw [List.mem_singleton.1 hlast.mem]
    exact h

/-- A page that fails the second clause is selected by the first one, and a page that both match is
selected twice; a push with the filter reaches them both. -/
theorem filterItems_is_no_conjunction :
    (filterItems Sample.literalEngine [⟨.page, 0⟩, ⟨.page, 1⟩]
        (some "pagename:chat AND user_ip:10")).atRest Sample.registers =
      .ok [⟨.page, 0⟩, ⟨.page, 0⟩, ⟨.page, 1⟩] ∧
    ([⟨.page, 0⟩, ⟨.page, 1⟩].filter fun item => decide (AllHold Sample.literalEngine
        Sample.registers [("pagename", "chat"), ("user_ip", "10")] item)) = [⟨.page, 0⟩] ∧
    (pushedPages Sample.literalEngine Sample.Value.instant none
        (some "pagename:chat AND user_ip:10")).atRest Sample.registers = .ok ["p", "q"] :=
  ⟨rfl, by decide, rfl⟩

end GenropyAsgi.Site

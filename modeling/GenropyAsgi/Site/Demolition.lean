import GenropyAsgi.Site.Readers

/-!
# The readers against the demolitions

Between any two accesses of a reader other threads drop pages, connections and users, and re-label
connections. What the readers rely on is little: a row keeps its id, and a register only ever refers
to a row by that id. From it every reader answers, hands out no `None`, and every item of its answer
is the view of a row that was registered at some moment of the read, under the row's own id.
-/

namespace GenropyAsgi.Site

open Library

variable {V : Type}

/-! ## The demolitions -/

/-- What other threads do. -/
inductive Act where
  /-- `drop_page`. -/
  | dropPage (page_id : PageId)
  /-- `drop_connection`. -/
  | dropConnection (connection_id : ConnectionId)
  /-- `drop_user`. -/
  | dropUser (user : User)
  /-- `change_connection_user`, the re-labelling. -/
  | changeConnectionUser (connection_id : ConnectionId) (user : User)

/-- What the core's steps do to the registers. -/
structure CoreSteps (V : Type) where
  /-- The registers after a step. -/
  after : Registers V → Act → Registers V
  /-- A row keeps its id. -/
  keeps_id : ∀ s a item, (after s a).itemId item = s.itemId item
  /-- What a register comes to refer to is a row of that id. -/
  keyed : ∀ s a register key item, (after s a).find register key = some item →
    s.find register key = some item ∨ (after s a).itemId item = key

/-- The moments that may follow a moment: any number of steps of other threads lie between them. -/
def CoreSteps.Follows (core : CoreSteps V) (s s' : Registers V) : Prop :=
  ∃ acts : List Act, s' = acts.foldl core.after s

/-- Every register refers to a row by the row's own id. -/
def Registers.Coherent (s : Registers V) : Prop :=
  ∀ register key item, s.find register key = some item → s.itemId item = key

/-- The steps of other threads keep the ids of the rows, and the registers coherent. -/
theorem CoreSteps.Follows.keeps {core : CoreSteps V} {s s' : Registers V} (h : core.Follows s s') :
    (∀ item, s'.itemId item = s.itemId item) ∧ (s.Coherent → s'.Coherent) := by
  obtain ⟨acts, rfl⟩ := h
  induction acts generalizing s with
  | nil => exact ⟨fun _ => rfl, id⟩
  | cons a acts ih =>
    obtain ⟨hid, hcoherent⟩ := @ih (core.after s a)
    refine ⟨fun item => (hid item).trans (core.keeps_id s a item), fun h => hcoherent ?_⟩
    intro register key item hitem
    rcases core.keyed s a register key item hitem with hold | hnew
    · rw [core.keeps_id]
      exact h register key item hold
    · exact hnew

/-- What is known of the moments seen: they are coherent, and agree on the ids of the rows. -/
structure Known (seen : List (Registers V)) : Prop where
  /-- A moment has been seen. -/
  some : seen ≠ []
  /-- The registers are coherent. -/
  coherent : ∀ s ∈ seen, s.Coherent
  /-- A row has one id. -/
  ids : ∀ s ∈ seen, ∀ s' ∈ seen, ∀ item, s.itemId item = s'.itemId item

/-- One coherent moment is known as much. -/
theorem known_singleton {s : Registers V} (h : s.Coherent) : Known [s] where
  some := List.cons_ne_nil _ _
  coherent := by
    intro s' hs'
    rw [List.mem_singleton.1 hs']
    exact h
  ids := by
    intro s₁ h₁ s₂ h₂ item
    rw [List.mem_singleton.1 h₁, List.mem_singleton.1 h₂]

variable {core : CoreSteps V}

/-- The next moment is known as much. -/
theorem Known.cons (s : Registers V) (seen : List (Registers V)) (h : Known seen)
    (hs : ∀ last ∈ seen.head?, core.Follows last s) : Known (s :: seen) := by
  cases seen with
  | nil => exact absurd rfl h.some
  | cons last seen =>
    obtain ⟨hid, hcoherent⟩ := (hs last rfl).keeps
    have hlast : ∀ s' ∈ s :: last :: seen, ∀ item, s'.itemId item = last.itemId item := by
      intro s' hs' item
      rcases List.mem_cons.1 hs' with heq | hs'
      · rw [heq]
        exact hid item
      · exact h.ids s' hs' last List.mem_cons_self item
    refine ⟨List.cons_ne_nil _ _, ?_, ?_⟩
    · intro s' hs'
      rcases List.mem_cons.1 hs' with heq | hs'
      · rw [heq]
        exact hcoherent (h.coherent last List.mem_cons_self)
      · exact h.coherent s' hs'
    · intro s₁ h₁ s₂ h₂ item
      rw [hlast s₁ h₁, hlast s₂ h₂]

/-! ## The rules for the readers -/

/-- A program that always answers, with an answer of which something holds. -/
def Answers {α : Type} (core : CoreSteps V) (x : Reader V α)
    (post : List (Registers V) → α → Prop) : Prop :=
  ∀ seen, Known seen → Lookups.Always core.Follows post seen x

section

variable {α β : Type}

/-- An answer. -/
theorem answers_pure {a : α} {post : List (Registers V) → α → Prop} (h : ∀ seen, post seen a) :
    Answers core (pure a : Reader V α) post := fun seen _ => h seen

/-- A look. -/
theorem answers_read (f : Registers V → α) :
    Answers core (Lookups.read f) fun seen a => ∃ s ∈ seen, s.Coherent ∧ f s = a := by
  intro seen hseen
  rw [Lookups.always_read]
  intro s hs
  exact ⟨s, List.mem_cons_self, (hseen.cons s seen hs).coherent s List.mem_cons_self, rfl⟩

/-- One program after another from some moment on, with something that is kept as other moments are
seen. -/
theorem bind_at {x : Reader V α} {f : α → Reader V β} {post : List (Registers V) → α → Prop}
    {post' : List (Registers V) → β → Prop} {kept : List (Registers V) → Prop}
    (hkept : ∀ s seen, kept seen → kept (s :: seen)) {seen : List (Registers V)}
    (hseen : Known seen) (hnow : kept seen) (hx : Lookups.Always core.Follows post seen x)
    (hf : ∀ seen a, Known seen → kept seen → post seen a →
      Lookups.Always core.Follows post' seen (f a)) :
    Lookups.Always core.Follows post' seen (x >>= f) := by
  have hframe : ∀ s seen, Known seen ∧ kept seen →
      (∀ last ∈ seen.head?, core.Follows last s) → Known (s :: seen) ∧ kept (s :: seen) :=
    fun s seen h hs => ⟨h.1.cons s seen hs, hkept s seen h.2⟩
  rw [Lookups.always_bind]
  refine (hx.frame hframe ⟨hseen, hnow⟩).imp ?_
  rintro seen' a ⟨⟨hseen', hkept'⟩, ha⟩
  exact hf seen' a hseen' hkept' ha

/-- One program after another. -/
theorem Answers.bind {x : Reader V α} {f : α → Reader V β} {post : List (Registers V) → α → Prop}
    {post' : List (Registers V) → β → Prop} (hx : Answers core x post)
    (hf : ∀ seen a, Known seen → post seen a → Lookups.Always core.Follows post' seen (f a)) :
    Answers core (x >>= f) post' := by
  intro seen hseen
  have hkept : ∀ (s : Registers V) (seen : List (Registers V)), True → True := fun _ _ h => h
  exact bind_at hkept hseen trivial (hx seen hseen) fun seen a hseen _ => hf seen a hseen

/-- What is kept as other moments are seen holds at the end as well. -/
theorem Answers.keeping {x : Reader V α} {post post' : List (Registers V) → α → Prop}
    (hx : Answers core x post) {kept : List (Registers V) → Prop}
    (hkept : ∀ s seen, kept seen → kept (s :: seen))
    (h : ∀ seen a, kept seen → post seen a → post' seen a) {seen : List (Registers V)}
    (hseen : Known seen) (hnow : kept seen) : Lookups.Always core.Follows post' seen x := by
  refine ((hx seen hseen).frame (fun s seen hk _ => hkept s seen hk) hnow).imp ?_
  rintro seen' a ⟨hseen', ha⟩
  exact h seen' a hseen' ha

/-- A loop each of whose turns brings one element. -/
theorem Answers.gather_one {P : List (Registers V) → α → β → Prop}
    (hP : ∀ s seen a b, P seen a b → P (s :: seen) a b) {f : α → Reader V (List β)} {xs : List α}
    (hf : ∀ a ∈ xs, Answers core (f a) fun seen bs => ∃ b, bs = [b] ∧ P seen a b) :
    Answers core (Lookups.gather f xs) fun seen bs => List.Forall₂ (P seen) xs bs :=
  fun _ hseen => Lookups.Always.gather_one Known.cons hP hseen hf

/-- A loop. -/
theorem Answers.gather {P : List (Registers V) → β → Prop}
    (hP : ∀ s seen b, P seen b → P (s :: seen) b) {f : α → Reader V (List β)} {xs : List α}
    (hf : ∀ a ∈ xs, Answers core (f a) fun seen bs => ∀ b ∈ bs, P seen b) :
    Answers core (Lookups.gather f xs) fun seen bs => ∀ b ∈ bs, P seen b :=
  fun _ hseen => Lookups.Always.gather Known.cons hP hseen hf

end

/-! ## What the readers find -/

/-- A row that was registered, by its own id, at one of the moments. -/
def Registered (register : RegisterName) (seen : List (Registers V)) (item : Ref) : Prop :=
  item.register = register ∧ ∃ s ∈ seen, s.find register (s.itemId item) = some item

/-- It stays one as other moments are seen. -/
theorem Registered.cons {register : RegisterName} {seen : List (Registers V)} {item : Ref}
    (h : Registered register seen item) (s : Registers V) :
    Registered register (s :: seen) item := by
  obtain ⟨hregister, s', hs', hfind⟩ := h
  exact ⟨hregister, s', List.mem_cons_of_mem s hs', hfind⟩

/-- `_live_rows` answers rows that were registered. -/
theorem answers_liveRows (register : RegisterName) (keys : List String) :
    Answers core (liveRows register keys) fun seen items =>
      ∀ item ∈ items, Registered register seen item := by
  refine Answers.gather (fun s seen item h => h.cons s) ?_
  intro key _
  refine (answers_read fun s => s.find register key).bind ?_
  rintro seen row _ ⟨s, hs, hcoherent, hrow⟩ item hitem
  have hfind : s.find register key = some item := by
    rw [hrow]
    exact Option.mem_toList.1 hitem
  -- The row that a key refers to has that key as its id.
  have hid := hcoherent register key item hfind
  refine ⟨?_, s, hs, by rw [hid]; exact hfind⟩
  obtain ⟨object, _, rfl⟩ := Option.map_eq_some_iff.1 hfind
  rfl

/-- A user that the walk of `_page_owner` reads: the label of a connection that was registered for
the page. -/
def OwnerSeen (seen : List (Registers V)) (page_id : PageId) (user : User) : Prop :=
  ∃ s₁ ∈ seen, ∃ s₂ ∈ seen, ∃ s₃ ∈ seen, ∃ s₄ ∈ seen, ∃ page connection,
    s₁.find .page page_id = some page ∧
      s₃.find .connection (s₂.page page.object).connection_id = some connection ∧
      (s₄.connection connection.object).user = user

/-- It stays one as other moments are seen. -/
theorem OwnerSeen.cons {seen : List (Registers V)} {page_id : PageId} {user : User}
    (h : OwnerSeen seen page_id user) (s : Registers V) : OwnerSeen (s :: seen) page_id user := by
  obtain ⟨s₁, h₁, s₂, h₂, s₃, h₃, s₄, h₄, page, connection, hpage, hconnection, huser⟩ := h
  exact ⟨s₁, List.mem_cons_of_mem s h₁, s₂, List.mem_cons_of_mem s h₂, s₃,
    List.mem_cons_of_mem s h₃, s₄, List.mem_cons_of_mem s h₄, page, connection, hpage,
    hconnection, huser⟩

/-- `_page_owner` always answers. -/
theorem answers_pageOwner (page_id : PageId) :
    Answers core (pageOwner page_id) fun seen owner =>
      ∀ user ∈ owner, OwnerSeen seen page_id user := by
  intro seen _
  unfold pageOwner
  rw [Lookups.always_bind, Lookups.always_read]
  intro s₁ _
  cases hpage : s₁.find .page page_id with
  | none => exact fun user huser => absurd huser (Option.not_mem_none user)
  | some page =>
    dsimp only
    rw [Lookups.always_bind, Lookups.always_read]
    intro s₂ _
    rw [Lookups.always_bind, Lookups.always_read]
    intro s₃ _
    cases hconnection : s₃.find .connection (s₂.page page.object).connection_id with
    | none => exact fun user huser => absurd huser (Option.not_mem_none user)
    | some connection =>
      dsimp only
      rw [Lookups.always_bind, Lookups.always_read]
      intro s₄ _ user huser
      cases huser
      exact ⟨s₁, by simp, s₂, by simp, s₃, by simp, s₄, by simp, page, connection, hpage,
        hconnection, rfl⟩

/-- A loop over rows that keeps some of them. -/
theorem answers_gather_subset {items : List Ref} {f : Ref → Reader V (List Ref)}
    (hf : ∀ item ∈ items, Answers core (f item) fun _ found => ∀ row ∈ found, row ∈ items) :
    Answers core (Lookups.gather f items) fun _ found => ∀ row ∈ found, row ∈ items :=
  Answers.gather (fun _ _ _ h => h) hf

/-- The edges of a user are always answered. -/
theorem answers_connectionsOf (user : User) :
    Answers core (connectionsOf user) fun _ _ => True := by
  refine (answers_read fun s => s.find .user user).bind ?_
  intro seen entry _ _
  cases entry with
  | none => trivial
  | some entry => exact fun _ _ => trivial

variable (core) in
/-- The loop over the owners keeps some of the rows that were found. -/
theorem answers_ownedRows (items : List Ref) (user : User) :
    Answers core (Lookups.gather (fun item => do
        let item_id ← Lookups.read fun s => s.itemId item
        let owner ← pageOwner item_id
        pure (if owner = some user then [item] else [])) items)
      fun _ found => ∀ row ∈ found, row ∈ items := by
  refine answers_gather_subset fun item hitem => ?_
  refine (answers_read fun s => s.itemId item).bind ?_
  intro seen item_id hseen _
  refine (answers_pageOwner item_id).bind ?_ seen hseen
  intro _ owner _ _ row hrow
  split_ifs at hrow
  · rw [List.mem_singleton] at hrow
    rw [hrow]
    exact hitem
  · cases hrow

/-- The rows that `pages` filters were registered. -/
theorem answers_pageRows (connection_id user : Option String) :
    Answers core (pageRows connection_id user) fun seen items =>
      ∀ item ∈ items, Registered .page seen item := by
  unfold pageRows
  cases given connection_id with
  | some connection_id =>
    refine (answers_read fun s => s.keys_by_connection connection_id).bind ?_
    intro seen keys hseen _
    refine (answers_liveRows .page keys).bind ?_ seen hseen
    intro seen items hseen hitems
    cases given user with
    | none => exact hitems
    | some user =>
      have hloop := answers_ownedRows core items user
      have hkept : ∀ (s : Registers V) (seen : List (Registers V)),
          (∀ item ∈ items, Registered .page seen item) →
            ∀ item ∈ items, Registered .page (s :: seen) item :=
        fun s seen h item hitem => (h item hitem).cons s
      exact hloop.keeping hkept (fun _ _ h hfound row hrow => h row (hfound row hrow)) hseen hitems
  | none =>
    cases given user with
    | some user =>
      refine (answers_connectionsOf user).bind ?_
      intro seen connections hseen _
      refine Answers.gather (fun s seen item h => h.cons s) ?_ seen hseen
      intro cid _
      refine (answers_read fun s => s.find .connection cid).bind ?_
      intro seen connection hseen _
      cases connection with
      | none => exact fun item hitem => absurd hitem List.not_mem_nil
      | some connection =>
        refine (answers_read fun s => (s.connection connection.object).pages).bind ?_ seen hseen
        intro seen pages hseen _
        exact answers_liveRows .page pages seen hseen
    | none =>
      refine (answers_read fun s => s.keys .page).bind ?_
      intro seen keys hseen _
      exact answers_liveRows .page keys seen hseen

/-- A filter that can be read: none, the star, or clauses each of which has a colon. -/
def Formed (filters : Option String) : Prop :=
  ∀ text ∈ given filters, text = "*" ∨ (clausesOf text).isSome = true

/-- `_filter_items` keeps some of the rows. -/
theorem answers_filterItems [PyValue V] (engine : RegexEngine) (items : List Ref)
    {filters : Option String} (hformed : Formed filters) :
    Answers core (filterItems engine items filters) fun _ found =>
      ∀ row ∈ found, row ∈ items := by
  unfold filterItems
  cases hgiven : given filters with
  | none => exact answers_pure fun _ _ h => h
  | some text =>
    dsimp only
    by_cases hstar : text = "*"
    · rw [if_pos hstar]
      exact answers_pure fun _ _ h => h
    rw [if_neg hstar]
    cases hclauses : clausesOf text with
    | none =>
      rcases hformed text hgiven with h | h
      · exact absurd h hstar
      · rw [hclauses] at h
        cases h
    | some clauses =>
      refine answers_gather_subset fun item hitem => ?_
      have hfound : ∀ (value : Field V) (fltpat : FilterValue engine.Pattern),
          ∀ row ∈ if clauseMatches engine value fltpat then [item] else [], row ∈ items := by
        intro value fltpat row hrow
        split_ifs at hrow
        · rw [List.mem_singleton] at hrow
          rw [hrow]
          exact hitem
        · cases hrow
      refine Answers.gather (fun _ _ _ h => h) ?_
      intro clause _
      have hvalue : Answers core (clauseValue item clause.1 : Reader V (Field V))
          fun _ _ => True := by
        unfold clauseValue
        split_ifs
        · refine (answers_read fun s => s.itemId item).bind ?_
          intro seen item_id hseen _
          refine (answers_pageOwner item_id).bind ?_ seen hseen
          exact fun _ _ _ _ => trivial
        · exact fun _ _ _ _ => trivial
      exact hvalue.bind fun _ value _ _ => hfound value clause.2

/-! ## The views -/

/-- The id of a row, as it was read. -/
def IdSeen (item : Ref) (item_id : String) (seen : List (Registers V)) : Prop :=
  ∃ s ∈ seen, s.itemId item = item_id

/-- It stays so as other moments are seen. -/
theorem IdSeen.cons {item : Ref} {item_id : String} (s : Registers V) (seen : List (Registers V))
    (h : IdSeen item item_id seen) : IdSeen item item_id (s :: seen) := by
  obtain ⟨s', hs', hid⟩ := h
  exact ⟨s', List.mem_cons_of_mem s hs', hid⟩

/-- Where a field of a view comes from. -/
inductive FieldOf [PyValue V] (localTime : Instant → V) (seen : List (Registers V)) (item : Ref) :
    String → Field V → Prop
  /-- The field of the row, at some moment. -/
  | row (s : Registers V) (hs : s ∈ seen) (name : String) :
    FieldOf localTime seen item name (s.field item name)
  /-- The owner of a page, or `None` where the chain has lost a link. -/
  | owner (owner : Option User) (hregister : item.register = .page)
    (howner : ∀ user ∈ owner, ∃ s ∈ seen, OwnerSeen seen (s.itemId item) user) :
    FieldOf localTime seen item "user" ((owner.map Field.text).getD .none)
  /-- The tables of a page. -/
  | tables (s : Registers V) (hs : s ∈ seen) (hregister : item.register = .page) :
    FieldOf localTime seen item "subscribed_tables"
      (.names (namesOf (s.field item "table_subscriptions")))
  /-- The name of a user. -/
  | name (s : Registers V) (hs : s ∈ seen) (hregister : item.register = .user) :
    FieldOf localTime seen item "user" (.text (s.itemId item))
  /-- The last refresh, for a row that was born without a `start_ts`. -/
  | born (s : Registers V) (hs : s ∈ seen) :
    FieldOf localTime seen item "start_ts" (.value (localTime (s.lastRefreshTs item)))

/-- The captured prefixes of a view: none, or those of the page that was registered by the id of the
row. -/
def PathsSeen (seen : List (Registers V)) (item : Ref) (paths : List String) : Prop :=
  paths = [] ∨
    ∃ s₁ ∈ seen, ∃ s₂ ∈ seen, ∃ s₃ ∈ seen, ∃ page, s₂.find .page (s₁.itemId item) = some page ∧
      (s₃.page page.object).subscribed_paths = paths

/-- They stay so as other moments are seen. -/
theorem PathsSeen.cons {item : Ref} {paths : List String} (s : Registers V)
    (seen : List (Registers V)) (h : PathsSeen seen item paths) :
    PathsSeen (s :: seen) item paths := by
  rcases h with h | ⟨s₁, h₁, s₂, h₂, s₃, h₃, page, hpage⟩
  · exact Or.inl h
  · exact Or.inr ⟨s₁, List.mem_cons_of_mem s h₁, s₂, List.mem_cons_of_mem s h₂, s₃,
      List.mem_cons_of_mem s h₃, page, hpage⟩

/-- The legacy view of a row, read at the moments seen. -/
structure ViewOf [PyValue V] (localTime : Instant → V) (seen : List (Registers V)) (item : Ref)
    (view : LegacyItem V) : Prop where
  /-- It names the register. -/
  register_name : view.register_name = item.register
  /-- Its queue is empty, -/
  datachanges : view.datachanges = []
  /-- and so is the index. -/
  datachanges_idx : view.datachanges_idx = 0
  /-- The captured prefixes are those of the page that is registered by the id of the row. -/
  subscribed_paths : PathsSeen seen item view.subscribed_paths
  /-- It has the fields of the daemon's row and no other, in their order. -/
  names : view.fields.items.map Prod.fst = legacyRegisterItemFields item.register
  /-- Each comes from the row. -/
  values : ∀ name value, (name, value) ∈ view.fields.items →
    FieldOf localTime seen item name value

/-- Pairs that were read for a list of names have those names. -/
theorem forall₂_pairs {P : String → Field V → Prop} {names : List String}
    {pairs : List (String × Field V)}
    (h : List.Forall₂ (fun name pair => pair.1 = name ∧ P name pair.2) names pairs) :
    pairs.map Prod.fst = names ∧ ∀ name value, (name, value) ∈ pairs → P name value := by
  induction h with
  | nil => exact ⟨rfl, fun _ _ hmem => absurd hmem List.not_mem_nil⟩
  | cons hpair _ ih =>
    obtain ⟨rfl, hvalue⟩ := hpair
    refine ⟨by rw [List.map_cons, ih.1], fun name value hmem => ?_⟩
    rcases List.mem_cons.1 hmem with rfl | hmem
    · exact hvalue
    · exact ih.2 name value hmem

section

variable [PyValue V] {localTime : Instant → V} {item : Ref}

/-- A field comes from the row as other moments are seen. -/
theorem FieldOf.cons {seen : List (Registers V)} {name : String} {value : Field V}
    (h : FieldOf localTime seen item name value) (s : Registers V) :
    FieldOf localTime (s :: seen) item name value := by
  cases h with
  | row s' hs' name => exact .row s' (List.mem_cons_of_mem s hs') name
  | owner owner hregister howner =>
    refine .owner owner hregister fun user huser => ?_
    obtain ⟨s', hs', hseen⟩ := howner user huser
    exact ⟨s', List.mem_cons_of_mem s hs', hseen.cons s⟩
  | tables s' hs' hregister => exact .tables s' (List.mem_cons_of_mem s hs') hregister
  | name s' hs' hregister => exact .name s' (List.mem_cons_of_mem s hs') hregister
  | born s' hs' => exact .born s' (List.mem_cons_of_mem s hs')

/-- The fields of a view under construction. -/
structure Adapted (localTime : Instant → V) (item : Ref) (adapted : OrderedDict String (Field V))
    (seen : List (Registers V)) : Prop where
  /-- They have the names of the daemon's row, -/
  names : adapted.items.map Prod.fst = legacyRegisterItemFields item.register
  /-- and each comes from the row. -/
  values : ∀ name value, (name, value) ∈ adapted.items → FieldOf localTime seen item name value

/-- They do so as other moments are seen. -/
theorem Adapted.cons {adapted : OrderedDict String (Field V)} (s : Registers V)
    (seen : List (Registers V)) (h : Adapted localTime item adapted seen) :
    Adapted localTime item adapted (s :: seen) where
  names := h.names
  values := fun name value hmem => (h.values name value hmem).cons s

/-- One of the fields is replaced. -/
theorem Adapted.set {adapted : OrderedDict String (Field V)} {seen : List (Registers V)}
    (h : Adapted localTime item adapted seen) {name : String} {value : Field V}
    (hname : name ∈ legacyRegisterItemFields item.register)
    (hvalue : FieldOf localTime seen item name value) :
    Adapted localTime item (adapted.set name value) seen := by
  refine ⟨?_, ?_⟩
  · rw [OrderedDict.keys_set_of_mem (by rw [h.names]; exact hname), h.names]
  · intro name' value' hmem
    rcases Listing.mem_set hmem with hold | hnew
    · exact h.values name' value' hold
    · cases hnew
      exact hvalue

/-- The fields read off the row. -/
theorem answers_fields (localTime : Instant → V) (item : Ref) :
    Answers core (Lookups.gather (fun field => do
      let value ← Lookups.read fun s => s.field item field
      pure [(field, value)]) (legacyRegisterItemFields item.register))
      fun seen fields => Adapted localTime item (OrderedDict.empty.assign fields) seen := by
  have hone : ∀ field ∈ legacyRegisterItemFields item.register,
      Answers core (do
        let value ← Lookups.read fun s => s.field item field
        pure [(field, value)]) fun seen pairs => ∃ pair : String × Field V, pairs = [pair] ∧
          (pair.1 = field ∧ FieldOf localTime seen item field pair.2) := by
    intro field _
    refine (answers_read fun s => s.field item field).bind ?_
    rintro seen value _ ⟨s, hs, _, rfl⟩
    exact ⟨_, rfl, rfl, .row s hs field⟩
  have hall := Answers.gather_one (fun s seen field pair h => ⟨h.1, h.2.cons s⟩) hone
  intro seen hseen
  refine (hall seen hseen).imp ?_
  intro seen fields hfields
  obtain ⟨hnames, hvalues⟩ := forall₂_pairs hfields
  have hnodup : (legacyRegisterItemFields item.register).Nodup := by
    cases item.register <;> decide
  have hitems : (OrderedDict.empty.assign fields).items = fields :=
    OrderedDict.items_assign (by rw [hnames]; exact hnodup)
  refine ⟨by rw [hitems, hnames], ?_⟩
  rw [hitems]
  exact hvalues

/-- What `_adapt_to_legacy` puts over the fields comes from the row as well. -/
theorem always_derivedFields {item_id : String} {adapted : OrderedDict String (Field V)}
    {seen : List (Registers V)} (hseen : Known seen) (hid : IdSeen item item_id seen)
    (h : Adapted localTime item adapted seen) :
    Lookups.Always core.Follows (fun seen adapted => Adapted localTime item adapted seen) seen
      (derivedFields item item_id adapted) := by
  unfold derivedFields
  cases hregister : item.register with
  | page =>
    dsimp only
    have hkept : ∀ (s : Registers V) (seen : List (Registers V)),
        IdSeen item item_id seen ∧ Adapted localTime item adapted seen →
          IdSeen item item_id (s :: seen) ∧ Adapted localTime item adapted (s :: seen) :=
      fun s seen h => ⟨h.1.cons s, h.2.cons s⟩
    refine bind_at hkept hseen ⟨hid, h⟩ (answers_pageOwner item_id seen hseen) ?_
    rintro seen owner hseen ⟨⟨s, hs, rfl⟩, h⟩ howner
    have howned : Adapted localTime item
        (adapted.set "user" ((owner.map Field.text).getD .none)) seen := by
      refine h.set (by rw [hregister]; decide) (.owner owner hregister ?_)
      exact fun user huser => ⟨s, hs, howner user huser⟩
    refine bind_at Adapted.cons hseen howned (answers_read _ seen hseen) ?_
    rintro seen tables _ howned ⟨s, hs, _, rfl⟩
    exact howned.set (by rw [hregister]; decide) (.tables s hs hregister)
  | connection => exact h
  | user =>
    obtain ⟨s, hs, rfl⟩ := hid
    exact h.set (by rw [hregister]; decide) (.name s hs hregister)

/-- So does its `start_ts`. -/
theorem always_withStartTs {adapted : OrderedDict String (Field V)} {seen : List (Registers V)}
    (hseen : Known seen) (h : Adapted localTime item adapted seen) :
    Lookups.Always core.Follows (fun seen adapted => Adapted localTime item adapted seen) seen
      (withStartTs localTime item adapted) := by
  unfold withStartTs
  split_ifs
  · refine bind_at Adapted.cons hseen h (answers_read _ seen hseen) ?_
    rintro seen last_refresh_ts _ h ⟨s, hs, _, rfl⟩
    refine h.set ?_ (.born s hs)
    cases item.register <;> decide
  · exact h

omit [PyValue V] in
/-- `_item_subscribed_paths` of a row. -/
theorem always_itemSubscribedPaths {item_id : String} {seen : List (Registers V)}
    (hseen : Known seen) (hid : IdSeen item item_id seen) (register : RegisterName) :
    Lookups.Always core.Follows (fun seen paths => PathsSeen seen item paths) seen
      (itemSubscribedPaths item_id register) := by
  unfold itemSubscribedPaths
  split_ifs
  · exact Or.inl rfl
  · refine bind_at IdSeen.cons hseen hid (answers_read _ seen hseen) ?_
    rintro seen page hseen ⟨s₁, h₁, rfl⟩ ⟨s₂, h₂, _, hpage⟩
    cases page with
    | none => exact Or.inl rfl
    | some page =>
      dsimp only
      rw [Lookups.always_read]
      intro s₃ _
      exact Or.inr ⟨s₁, List.mem_cons_of_mem s₃ h₁, s₂, List.mem_cons_of_mem s₃ h₂, s₃,
        List.mem_cons_self, page, hpage, rfl⟩

/-- `_adapt_to_legacy` of a row is a view of it. -/
theorem answers_adaptToLegacy (localTime : Instant → V) (item : Ref) :
    Answers core (adaptToLegacy localTime (some item)) fun seen answer =>
      ∃ view, answer = some view ∧ ViewOf localTime seen item view := by
  refine (answers_read fun s => s.itemId item).bind ?_
  rintro seen item_id hseen ⟨s, hs, _, hs_id⟩
  have hid : IdSeen item item_id seen := ⟨s, hs, hs_id⟩
  -- The id, the prefixes and the fields are read one after another, and each stays as it was read.
  refine bind_at IdSeen.cons hseen hid (always_itemSubscribedPaths hseen hid item.register) ?_
  intro seen paths hseen hid hpaths
  have hread : ∀ (s : Registers V) (seen : List (Registers V)),
      IdSeen item item_id seen ∧ PathsSeen seen item paths →
        IdSeen item item_id (s :: seen) ∧ PathsSeen (s :: seen) item paths :=
    fun s seen h => ⟨h.1.cons s, h.2.cons s⟩
  refine bind_at hread hseen ⟨hid, hpaths⟩ (answers_fields localTime item seen hseen) ?_
  rintro seen fields hseen ⟨hid, hpaths⟩ hfields
  refine bind_at PathsSeen.cons hseen hpaths (always_derivedFields hseen hid hfields) ?_
  intro seen derived hseen hpaths hderived
  refine bind_at PathsSeen.cons hseen hpaths (always_withStartTs hseen hderived) ?_
  intro seen adapted _ hpaths hadapted
  refine ⟨_, rfl, ?_⟩
  exact {
    register_name := rfl
    datachanges := rfl
    datachanges_idx := rfl
    subscribed_paths := hpaths
    names := hadapted.names
    values := hadapted.values }

/-! ## The answers -/

/-- An item of an answer: the view of a row that was registered, under the row's own id. -/
structure HandedOut (localTime : Instant → V) (register : RegisterName) (seen : List (Registers V))
    (key : String) (view : Option (LegacyItem V)) (item : Ref) : Prop where
  /-- The row was registered under the key, -/
  registered : ∃ s ∈ seen, s.find register key = some item
  /-- which is its own id, -/
  own_id : IdSeen item key seen
  /-- and this is its view. -/
  view : ∃ legacy, view = some legacy ∧ ViewOf localTime seen item legacy

/-- It stays one as other moments are seen. -/
theorem HandedOut.cons {localTime : Instant → V} {register : RegisterName} {key : String}
    {view : Option (LegacyItem V)} (s : Registers V) {seen : List (Registers V)} {item : Ref}
    (h : HandedOut localTime register seen key view item) :
    HandedOut localTime register (s :: seen) key view item := by
  obtain ⟨⟨s', hs', hfind⟩, hid, legacy, hlegacy, hview⟩ := h
  exact ⟨⟨s', List.mem_cons_of_mem s hs', hfind⟩, hid.cons s, legacy, hlegacy,
    { hview with
      subscribed_paths := hview.subscribed_paths.cons s
      values := fun name value hmem => (hview.values name value hmem).cons s }⟩

/-- A row of the list, adapted, is handed out under its own id. -/
theorem always_adaptItem (localTime : Instant → V) {register : RegisterName} {items : List Ref}
    {item : Ref} (hitem : item ∈ items) {seen : List (Registers V)} (hseen : Known seen)
    (hregistered : Registered register seen item) :
    Lookups.Always core.Follows
      (fun seen pairs => ∀ pair ∈ pairs,
        ∃ item ∈ items, HandedOut localTime register seen pair.1 pair.2 item) seen
      (do
        let item_id ← Lookups.read fun s => s.itemId item
        let adapted ← adaptToLegacy localTime (some item)
        pure [(item_id, adapted)]) := by
  have hkept : ∀ (s : Registers V) (seen : List (Registers V)),
      Registered register seen item → Registered register (s :: seen) item :=
    fun s seen h => h.cons s
  refine bind_at hkept hseen hregistered (answers_read _ seen hseen) ?_
  rintro seen item_id hseen hregistered ⟨s, hs, _, hid⟩
  have hboth : ∀ (s : Registers V) (seen : List (Registers V)),
      Registered register seen item ∧ IdSeen item item_id seen →
        Registered register (s :: seen) item ∧ IdSeen item item_id (s :: seen) :=
    fun s seen h => ⟨h.1.cons s, h.2.cons s⟩
  refine bind_at hboth hseen ⟨hregistered, ⟨s, hs, hid⟩⟩
    (answers_adaptToLegacy localTime item seen hseen) ?_
  rintro seen answer hseen ⟨⟨_, s, hs, hfind⟩, s', hs', hid⟩ ⟨view, rfl, hview⟩ pair hpair
  rw [List.mem_singleton] at hpair
  rw [hpair]
  -- The id by which the row was registered is the one that was read off it.
  have hkey : s.itemId item = item_id := by
    rw [hseen.ids s hs s' hs' item]
    exact hid
  rw [hkey] at hfind
  exact ⟨item, hitem, ⟨s, hs, hfind⟩, ⟨s', hs', hid⟩, view, rfl, hview⟩

/-- The rows of a list, adapted. -/
theorem always_adaptListToDict (localTime : Instant → V) {register : RegisterName}
    {items : List Ref} {seen : List (Registers V)} (hseen : Known seen)
    (hitems : ∀ item ∈ items, Registered register seen item) :
    Lookups.Always core.Follows
      (fun seen answer => ∀ key view, (key, view) ∈ answer.items →
        ∃ item ∈ items, HandedOut localTime register seen key view item) seen
      (adaptListToDict localTime items) := by
  have hkept : ∀ (s : Registers V) (seen : List (Registers V)),
      (Known seen ∧ ∀ item ∈ items, Registered register seen item) →
        (∀ last ∈ seen.head?, core.Follows last s) →
          Known (s :: seen) ∧ ∀ item ∈ items, Registered register (s :: seen) item :=
    fun s seen h hs => ⟨h.1.cons s seen hs, fun item hitem => (h.2 item hitem).cons s⟩
  have hmono : ∀ (s : Registers V) (seen : List (Registers V))
      (pair : String × Option (LegacyItem V)),
      (∃ item ∈ items, HandedOut localTime register seen pair.1 pair.2 item) →
        ∃ item ∈ items, HandedOut localTime register (s :: seen) pair.1 pair.2 item :=
    fun s seen pair ⟨item, hitem, h⟩ => ⟨item, hitem, h.cons s⟩
  have hgather := Lookups.Always.gather hkept hmono ⟨hseen, hitems⟩
    fun item hitem seen h => always_adaptItem localTime hitem h.1 (h.2 item hitem)
  unfold adaptListToDict
  rw [Lookups.always_bind]
  refine hgather.imp ?_
  intro seen pairs hpairs key view hmem
  exact hpairs (key, view) (OrderedDict.mem_of_mem_assign hmem)

/-- What the readers answer with. -/
def AllHandedOut (localTime : Instant → V) (register : RegisterName) (seen : List (Registers V))
    (answer : OrderedDict String (Option (LegacyItem V))) : Prop :=
  ∀ key view, (key, view) ∈ answer.items →
    ∃ item, HandedOut localTime register seen key view item

/-- The rows of a list, adapted, are such an answer. -/
theorem always_allHandedOut (localTime : Instant → V) {register : RegisterName}
    {items : List Ref} {seen : List (Registers V)} (hseen : Known seen)
    (hitems : ∀ item ∈ items, Registered register seen item) :
    Lookups.Always core.Follows (AllHandedOut localTime register) seen
      (adaptListToDict localTime items) := by
  refine (always_adaptListToDict localTime hseen hitems).imp ?_
  intro seen answer h key view hmem
  obtain ⟨item, _, hitem⟩ := h key view hmem
  exact ⟨item, hitem⟩

/-- `pages` hands out views of page rows. -/
theorem answers_pages (engine : RegexEngine) (localTime : Instant → V)
    (connection_id user : Option String) {filters : Option String} (hformed : Formed filters) :
    Answers core (pages engine localTime connection_id user filters)
      (AllHandedOut localTime .page) := by
  refine (answers_pageRows connection_id user).bind ?_
  intro seen items hseen hitems
  have hkept : ∀ (s : Registers V) (seen : List (Registers V)),
      (∀ item ∈ items, Registered .page seen item) →
        ∀ item ∈ items, Registered .page (s :: seen) item :=
    fun s seen h item hitem => (h item hitem).cons s
  refine bind_at hkept hseen hitems (answers_filterItems engine items hformed seen hseen) ?_
  intro seen filtered hseen hitems hfiltered
  exact always_allHandedOut localTime hseen fun item hitem => hitems item (hfiltered item hitem)

/-- `connections` hands out views of connection rows. -/
theorem answers_connections (localTime : Instant → V) (user : Option String) :
    Answers core (connections localTime user) (AllHandedOut localTime .connection) := by
  have hkeys : Answers core (connectionKeys user : Reader V (List ConnectionId))
      fun _ _ => True := by
    unfold connectionKeys
    cases given user with
    | some user => exact answers_connectionsOf user
    | none => exact fun _ _ _ _ => trivial
  refine hkeys.bind ?_
  intro seen keys hseen _
  refine (answers_liveRows .connection keys).bind ?_ seen hseen
  intro seen items hseen hitems
  exact always_allHandedOut localTime hseen hitems

/-- `users` hands out views of user rows. -/
theorem answers_users (localTime : Instant → V) :
    Answers core (users localTime) (AllHandedOut localTime .user) := by
  refine (answers_read fun s => s.keys .user).bind ?_
  intro seen keys hseen _
  refine (answers_liveRows .user keys).bind ?_ seen hseen
  intro seen items hseen hitems
  exact always_allHandedOut localTime hseen hitems

/-- The moments of a read: the last one first, and the one at which it was called at the end. -/
def seenBy (moments : ℕ → Registers V) (looks : ℕ) : List (Registers V) :=
  ((List.range looks).map moments).reverse ++ [moments 0]

/-- A reader that has answered: it hands out views of rows that were registered at some moment of
the read, each under the row's own id. -/
def HandsOut (localTime : Instant → V) (register : RegisterName) (moments : ℕ → Registers V)
    (result : Except SiteError (OrderedDict String (Option (LegacyItem V))) × ℕ) : Prop :=
  ∃ answer, result.1 = .ok answer ∧
    AllHandedOut localTime register (seenBy moments result.2) answer

/-- A reader that always answers has answered. -/
theorem Answers.handsOut {x : Reader V (OrderedDict String (Option (LegacyItem V)))}
    {localTime : Instant → V} {register : RegisterName}
    (hx : Answers core x (AllHandedOut localTime register)) {moments : ℕ → Registers V}
    (hcoherent : (moments 0).Coherent)
    (hmoments : ∀ n, core.Follows (moments n) (moments (n + 1))) :
    HandsOut localTime register moments (x.run moments) := by
  have hfirst : ∀ last ∈ [moments 0].head?, core.Follows last (moments 0) := by
    intro last hlast
    cases hlast
    exact ⟨[], rfl⟩
  obtain ⟨answer, hrun, hanswer⟩ := (hx _ (known_singleton hcoherent)).run hmoments 0 hfirst
  simp only [Nat.zero_add] at hrun hanswer
  exact ⟨answer, hrun, hanswer⟩

/-- The readers tolerate demolition. Whatever drops and re-labellings other threads execute between
two accesses of a reader, `pages` (by connection, by user, by any filter that can be read, or all),
`connections` and `users` answer; no item is `None`, and each is the legacy view of a row that was
registered at some moment of the read, under the row's own id. -/
theorem readers_tolerate_demolition (core : CoreSteps V) (engine : RegexEngine)
    (localTime : Instant → V) (moments : ℕ → Registers V) (hcoherent : (moments 0).Coherent)
    (hmoments : ∀ n, core.Follows (moments n) (moments (n + 1)))
    (connection_id user filters : Option String) (hformed : Formed filters) :
    HandsOut localTime .page moments
        ((pages engine localTime connection_id user filters).run moments) ∧
      HandsOut localTime .connection moments ((connections localTime user).run moments) ∧
      HandsOut localTime .user moments ((users localTime).run moments) :=
  ⟨(answers_pages engine localTime connection_id user hformed).handsOut hcoherent hmoments,
    (answers_connections localTime user).handsOut hcoherent hmoments,
    (answers_users localTime).handsOut hcoherent hmoments⟩

end

namespace Sample

/-- The values of the sample: what the code writes itself. -/
inductive Value where
  /-- `None`. -/
  | none
  /-- `True`. -/
  | true
  /-- A datetime. -/
  | instant (instant : Instant)
deriving DecidableEq

instance : PyValue Value where
  none := .none
  true := .true
  ofInstant := .instant
  truthy value := decide (value ≠ .none)

/-- The rows of two pages of one connection, which differ in their addresses. -/
def pageRow (object : Object) : PageItem Value where
  register_item_id := if object = 0 then "p" else "q"
  connection_id := "c"
  subscribed_paths := []
  table_subscriptions := []
  last_refresh_ts := 0
  fields := ((∅ : Dict String (Field Value)).set "pagename" (.text "chat")).set "user_ip"
    (.text (if object = 0 then "10" else "20"))

/-- The registers with the two pages, the connection and its user. -/
def registers : Registers Value where
  register
    | .page => ⟨[("p", 0), ("q", 1)], by decide⟩
    | .connection => ⟨[("c", 0)], by decide⟩
    | .user => ⟨[("u", 0)], by decide⟩
  keys_by_connection _ := ["p", "q"]
  page := pageRow
  connection _ := ⟨"c", "u", ["p", "q"], 0, ∅⟩
  user _ := ⟨"u", ["c"], 0, ∅⟩

/-- The registers are coherent. -/
theorem registers_coherent : registers.Coherent := by
  intro register key item hitem
  obtain ⟨object, hget, rfl⟩ := Option.map_eq_some_iff.1 hitem
  have hmem := Listing.mem_of_get hget
  cases register with
  | page =>
    rcases List.mem_cons.1 hmem with h | h
    · cases h
      rfl
    · cases List.mem_singleton.1 h
      rfl
  | connection =>
    cases List.mem_singleton.1 hmem
    rfl
  | user =>
    cases List.mem_singleton.1 hmem
    rfl

/-- A core that takes a dropped page out of its register. -/
def dropping : CoreSteps Value where
  after s
    | .dropPage page_id =>
      { s with
        register := fun register =>
          if register = .page then (s.register .page).pop page_id else s.register register }
    | _ => s
  keeps_id s a item := by cases a <;> rfl
  keyed s a register key item hitem := by
    left
    cases a with
    | dropPage page_id =>
      obtain ⟨object, hget, rfl⟩ := Option.map_eq_some_iff.1 hitem
      unfold Registers.find
      dsimp only at hget
      split_ifs at hget with hregister
      · rw [OrderedDict.get_pop] at hget
        split_ifs at hget
        rw [hregister, hget]
        rfl
      · rw [hget]
        rfl
    | _ => exact hitem

/-- A page is dropped after the first look. -/
def moments : ℕ → Registers Value
  | 0 => registers
  | _ + 1 => dropping.after registers (.dropPage "p")

end Sample

/-- A page that is dropped while the pages are read is no `None` in the answer. -/
theorem pages_without_none :
    ∃ answer, ((pages ⟨String, some, fun pattern text => pattern == text⟩ Sample.Value.instant
        none none none).run Sample.moments).1 = .ok answer ∧
      ∀ key view, (key, view) ∈ answer.items → view ≠ none := by
  have hmoments : ∀ n, Sample.dropping.Follows (Sample.moments n) (Sample.moments (n + 1)) := by
    intro n
    cases n with
    | zero => exact ⟨[.dropPage "p"], rfl⟩
    | succ n => exact ⟨[], rfl⟩
  have hformed : Formed none := fun text h => absurd h (Option.not_mem_none text)
  obtain ⟨⟨answer, hrun, hanswer⟩, _⟩ := readers_tolerate_demolition Sample.dropping
    ⟨String, some, fun pattern text => pattern == text⟩ Sample.Value.instant Sample.moments
    Sample.registers_coherent hmoments none none none hformed
  refine ⟨answer, hrun, fun key view hmem hnone => ?_⟩
  obtain ⟨item, _, _, legacy, hview, _⟩ := hanswer key view hmem
  rw [hnone] at hview
  cases hview

end GenropyAsgi.Site

import GenropyAsgi.GlobalStore.Refinement

/-!
# Naive dates across the global store

A value with naive datetimes is written at a path, outside a block or inside one, and left alone by
everything that happens next. From the exit of the block on, the dictionary and every private copy
hold at the path what came off the wire (`Kept`), and a read answers the legacy side of it. That is
the value again, clock by clock, exactly when no datetime of it sits below a list or a dictionary:
`legacy_value` copies those containers and does not enter them, and `wire_value` gives a zone to a
bare datetime only.
-/

namespace GenropyAsgi.GlobalStore

open Library

variable {A : Type}

/-- The acts that leave a path alone: their writes and deletes go to paths that part from it. -/
def Act.LeavesAlone (path : String) : Act A → Prop
  | .call (.get _ _) => True
  | .call (.set other _) => Dotted other ∧ Apart (labels other) (labels path)
  | .call (.delete other) => Dotted other ∧ Apart (labels other) (labels path)
  | .call .storeBag => True
  | .enter => True
  | .exit _ => True

/-! ## What stands at a path -/

/-- The dictionary holds `w` at the path, and so does the private copy of a turn. -/
structure Kept (site : Site A) (path : String) (w : Value A) : Prop where
  /-- The dictionary does. -/
  master : ∃ master, site.master = some master ∧
    PathTree.lookup (Value.bag master.content.items) (labels path) = some w
  /-- The private copy does. -/
  turn : ∀ content, site.turn = some content →
    PathTree.lookup (Value.bag content.items) (labels path) = some w

/-- The turn in force holds `w` at the path. -/
def Pending (site : Site A) (path : String) (w : Value A) : Prop :=
  ∃ content, site.turn = some content ∧
    PathTree.lookup (Value.bag content.items) (labels path) = some w

section

variable (zone : ℤ) {path key rest : String} (hparts : Parts path key rest)

include hparts

/-- A read of a dictionary that holds `w` at the path answers its legacy side. -/
theorem read_of_lookup {content : Content A} {w : Value A}
    (h : PathTree.lookup (Value.bag content.items) (labels path) = some w) (default : Value A) :
    (match content.get key with
      | none => default
      | some value => legacyRead zone value rest default) = legacyValue zone w := by
  have hget : content.get key = Listing.get content.items key := rfl
  have hitems : PathTree.itemsOf (Value.bag content.items) = content.items := rfl
  rcases hparts.cut with ⟨hrest, hlabels⟩ | ⟨-, hrest, hlabels⟩
  · rw [hlabels, PathTree.lookup_cons, hitems] at h
    obtain ⟨value, hvalue, hw⟩ := Option.bind_eq_some_iff.1 h
    cases hw
    rw [hget, hvalue]
    unfold legacyRead
    exact if_neg (not_not.2 hrest)
  · rw [hlabels, PathTree.lookup_cons, hitems] at h
    obtain ⟨value, hvalue, hw⟩ := Option.bind_eq_some_iff.1 h
    rw [hget, hvalue]
    unfold legacyRead
    dsimp only
    rw [if_pos hrest]
    cases hnodes : value.nodes? with
    | none =>
      rw [lookup_of_nodes_none hnodes (labels_ne_nil rest)] at hw
      cases hw
    | some nodes =>
      unfold getItem
      rw [hw]
      rfl

/-- What the exit of a turn publishes at a path. -/
theorem lookup_publish (content : Content A) :
    PathTree.lookup (Value.bag (publish zone (content.mapVals (wireValue zone))).content.items)
        (labels path) =
      (PathTree.lookup (Value.bag content.items) (labels path)).map (stored zone rest) := by
  have hitems : PathTree.itemsOf (Value.bag content.items) = content.items := rfl
  have hpublished : PathTree.itemsOf
      (Value.bag (publish zone (content.mapVals (wireValue zone))).content.items) =
        Listing.mapVals (wired zone) (Listing.mapVals (wireValue zone) content.items) := rfl
  rcases hparts.cut with ⟨hrest, hlabels⟩ | ⟨-, hrest, hlabels⟩
  · rw [hlabels, PathTree.lookup_cons, PathTree.lookup_cons, hitems, hpublished,
      Listing.get_mapVals, Listing.get_mapVals, hrest]
    cases Listing.get content.items key with
    | none => rfl
    | some value => rfl
  · rw [hlabels, PathTree.lookup_cons, PathTree.lookup_cons, hitems, hpublished,
      Listing.get_mapVals, Listing.get_mapVals]
    have hstored : stored zone rest = (cross zone zone : Value A → Value A) := by
      funext value
      unfold stored
      exact if_neg hrest
    cases Listing.get content.items key with
    | none => rfl
    | some value =>
      rw [Option.map_some, Option.map_some, Option.bind_some, Option.bind_some, hstored]
      -- A bare datetime under the key is no Bag, with a zone or without.
      have hwire : PathTree.lookup (wireValue zone value) (labels rest) =
          PathTree.lookup value (labels rest) := by
        cases value with
        | datetime d =>
          have hne := labels_ne_nil rest
          cases d with
          | naive clock =>
            have hnone : (Value.datetime (.aware (clock - zone)) : Value A).nodes? = none := rfl
            have hnone' : (Value.datetime (.naive clock) : Value A).nodes? = none := rfl
            rw [wireValue, lookup_of_nodes_none hnone hne, lookup_of_nodes_none hnone' hne]
          | aware instant => rfl
        | none => rfl
        | scalar a => rfl
        | list items => rfl
        | dict items => rfl
        | bag nodes => rfl
      unfold wired
      rw [(through_cross zone zone).lookup (through_cross zone 0) _ (labels_ne_nil rest), hwire]

/-- A read at a path that holds `w` answers its legacy side. -/
theorem Kept.read {site : Site A} {w : Value A} (h : Kept site path w) (default : Value A) :
    site.getGlobalItem zone (some path) default = legacyValue zone w := by
  obtain ⟨master, hmaster, hlookup⟩ := h.master
  unfold Site.getGlobalItem
  rw [hparts.split]
  dsimp only
  cases hturn : site.turn with
  | some content => exact read_of_lookup zone hparts (h.turn content hturn) default
  | none =>
    rw [hmaster]
    dsimp only
    rw [Master.get_eq]
    exact read_of_lookup zone hparts hlookup default

/-- A read inside the turn that holds `w` answers its legacy side. -/
theorem Pending.read {site : Site A} {w : Value A} (h : Pending site path w) (default : Value A) :
    site.getGlobalItem zone (some path) default = legacyValue zone w := by
  obtain ⟨content, hturn, hlookup⟩ := h
  unfold Site.getGlobalItem
  rw [hparts.split, hturn]
  exact read_of_lookup zone hparts hlookup default

end

/-! ## What leaves a path alone -/

section

variable (zone : ℤ) {site : Site A} {path : String} {w : Value A}

/-- Inside a turn, an operation elsewhere leaves what stands at the path in the private copy. -/
theorem call_frame_turn {content : Content A} (hturn : site.turn = some content) {c : Call A}
    (hc : (Act.call c).LeavesAlone path) :
    ∃ content', (site.call zone c).1 = { site with turn := some content' } ∧
      PathTree.lookup (Value.bag content'.items) (labels path) =
        PathTree.lookup (Value.bag content.items) (labels path) := by
  have hself : site = { site with turn := some content } := by rw [← hturn]
  cases c with
  | get other default => exact ⟨content, hself, rfl⟩
  | storeBag => exact ⟨content, hself, rfl⟩
  | set other value =>
    obtain ⟨hdotted, hapart⟩ := hc
    obtain ⟨key, rest, hparts⟩ := hdotted.parts
    have hset := setGlobalItem_of_turn zone hparts hturn value
    refine ⟨_, congrArg (fun result => (site.settle result).1) hset, ?_⟩
    rw [items_writeInto zone hparts]
    exact PathTree.lookup_write_apart hapart _ _
  | delete other =>
    obtain ⟨hdotted, hapart⟩ := hc
    obtain ⟨key, rest, hparts⟩ := hdotted.parts
    have hdelete := deleteGlobalItem_of_turn zone hparts hturn
    refine ⟨_, congrArg (fun result => (site.settle result).1) hdelete, ?_⟩
    rw [items_deleteFrom hparts]
    exact PathTree.lookup_remove_apart hapart _

/-- Outside a turn, an operation elsewhere leaves what stands at the path in the dictionary. -/
theorem call_frame_master (hturn : site.turn = none) {master : Master A}
    (hmaster : site.master = some master) {c : Call A} (hc : (Act.call c).LeavesAlone path) :
    ∃ master', (site.call zone c).1 = { site with master := some master' } ∧
      PathTree.lookup (Value.bag master'.content.items) (labels path) =
        PathTree.lookup (Value.bag master.content.items) (labels path) := by
  have hself : site = { site with master := some master } := by rw [← hmaster]
  cases c with
  | get other default => exact ⟨master, hself, rfl⟩
  | storeBag => exact ⟨master, hself, rfl⟩
  | set other value =>
    obtain ⟨hdotted, hapart⟩ := hc
    obtain ⟨key, rest, hparts⟩ := hdotted.parts
    have hset := setGlobalItem_of_master zone hparts hturn hmaster value
    refine ⟨_, congrArg (fun result => (site.settle result).1) hset, ?_⟩
    rw [items_write zone hparts]
    exact PathTree.lookup_write_apart hapart _ _
  | delete other =>
    obtain ⟨hdotted, hapart⟩ := hc
    obtain ⟨key, rest, hparts⟩ := hdotted.parts
    have hdelete := deleteGlobalItem_of_master zone hparts hturn hmaster
    refine ⟨_, congrArg (fun result => (site.settle result).1) hdelete, ?_⟩
    rw [items_delete zone hparts]
    exact PathTree.lookup_remove_apart hapart _

/-- An act elsewhere keeps what stands at the path, once it came off the wire: a later turn
publishes it as it is. -/
theorem Kept.act (h : Kept site path w) (hw : w.IsAware) (hpath : Dotted path) {act : Act A}
    (hact : act.LeavesAlone path) : Kept (site.act zone act).1 path w := by
  obtain ⟨master, hmaster, hlookup⟩ := h.master
  cases act with
  | call c =>
    show Kept (site.call zone c).1 path w
    cases hturn : site.turn with
    | some content =>
      obtain ⟨content', hcall, hsame⟩ := call_frame_turn zone hturn hact
      rw [hcall]
      refine ⟨⟨master, hmaster, hlookup⟩, fun content'' hcontent'' => ?_⟩
      rw [← Option.some.inj hcontent'', hsame]
      exact h.turn content hturn
    | none =>
      obtain ⟨master', hcall, hsame⟩ := call_frame_master zone hturn hmaster hact
      rw [hcall]
      exact ⟨⟨master', rfl, hsame.trans hlookup⟩, h.turn⟩
  | enter =>
    unfold Site.act Site.openTurn
    rw [hmaster]
    cases hturn : site.turn with
    | some content => exact h
    | none =>
      refine ⟨⟨master, rfl, hlookup⟩, fun content hcontent => ?_⟩
      have hcopy : master.forUpdate zone = content := Option.some.inj hcontent
      rw [← hcopy, Master.forUpdate_eq]
      exact hlookup
  | exit raised =>
    show Kept (site.closeTurn zone raised) path w
    unfold Site.closeTurn
    cases hturn : site.turn with
    | none => exact h
    | some content =>
      dsimp only
      split_ifs with hraised
      · -- The body raised: nothing is published.
        exact ⟨⟨master, hmaster, hlookup⟩, fun content' hcontent' => by cases hcontent'⟩
      · refine ⟨⟨_, rfl, ?_⟩, fun content' hcontent' => by cases hcontent'⟩
        obtain ⟨key, rest, hparts⟩ := hpath.parts
        rw [lookup_publish zone hparts, h.turn content hturn, Option.map_some,
          stored_of_isAware zone rest hw]

/-- An act elsewhere other than an exit leaves what the turn holds at the path. -/
theorem Pending.act (h : Pending site path w) (hmaster : site.master.isSome) {act : Act A}
    (hact : act.LeavesAlone path) (hexit : ∀ raised, act ≠ .exit raised) :
    Pending (site.act zone act).1 path w ∧ (site.act zone act).1.master.isSome := by
  obtain ⟨content, hturn, hlookup⟩ := h
  cases act with
  | call c =>
    show Pending (site.call zone c).1 path w ∧ _
    obtain ⟨content', hcall, hsame⟩ := call_frame_turn zone hturn hact
    have hact' : (site.act zone (.call c)).1 = (site.call zone c).1 := rfl
    rw [hact', hcall]
    exact ⟨⟨content', rfl, hsame.trans hlookup⟩, hmaster⟩
  | enter =>
    -- A nested enter is refused.
    obtain ⟨master, hsome⟩ := Option.isSome_iff_exists.1 hmaster
    unfold Site.act Site.openTurn
    rw [hsome, hturn]
    exact ⟨⟨content, hturn, hlookup⟩, hmaster⟩
  | exit raised => exact absurd rfl (hexit raised)

end

/-! ## What is written -/

section

variable (zone : ℤ) {site : Site A} {path key rest : String} (hparts : Parts path key rest)

include hparts

/-- A write outside a turn is kept as it is stored. -/
theorem kept_of_set (hturn : site.turn = none) {master : Master A}
    (hmaster : site.master = some master) (value : Value A) :
    Kept (site.call zone (.set path value)).1 path (stored zone rest value) := by
  have hset := setGlobalItem_of_master zone hparts hturn hmaster value
  have hcall := congrArg (fun result => (site.settle result).1) hset
  have hself : (site.call zone (.set path value)).1 =
      (site.settle (site.setGlobalItem zone path value)).1 := rfl
  rw [hself, hcall]
  refine ⟨⟨_, rfl, ?_⟩, fun content hcontent => ?_⟩
  · rw [items_write zone hparts]
    exact PathTree.lookup_write_self _ _ _
  · have hnone : site.turn = some content := hcontent
    rw [hturn] at hnone
    cases hnone

/-- What a turn holds of a value written at a path: a whole key is given its zone. -/
def held (zone : ℤ) (rest : String) (value : Value A) : Value A :=
  if rest = "" then wireValue zone (legacyValue zone value) else legacyValue zone value

/-- A write inside a turn is held by the turn. -/
theorem pending_of_set {content : Content A} (hturn : site.turn = some content)
    (value : Value A) :
    Pending (site.call zone (.set path value)).1 path (held zone rest value) := by
  have hset := setGlobalItem_of_turn zone hparts hturn value
  have hcall := congrArg (fun result => (site.settle result).1) hset
  have hself : (site.call zone (.set path value)).1 =
      (site.settle (site.setGlobalItem zone path value)).1 := rfl
  rw [hself, hcall]
  refine ⟨_, rfl, ?_⟩
  rw [items_writeInto zone hparts]
  exact PathTree.lookup_write_self _ _ _

/-- The normal exit of a turn stores what it held. -/
theorem Pending.exit {w : Value A} (h : Pending site path w) :
    Kept (site.act zone (.exit false)).1 path (stored zone rest w) := by
  obtain ⟨content, hturn, hlookup⟩ := h
  show Kept (site.closeTurn zone false) path _
  unfold Site.closeTurn
  rw [hturn]
  refine ⟨⟨_, rfl, ?_⟩, fun content' hcontent' => by cases hcontent'⟩
  rw [lookup_publish zone hparts, hlookup]
  rfl

end

/-- Giving a datetime its zone twice is giving it once. -/
theorem stored_held (zone : ℤ) (rest : String) {value : Value A} (hnaive : value.IsNaive) :
    stored zone rest (held zone rest value) = stored zone rest value := by
  unfold stored held
  rw [legacyValue_of_isNaive zone hnaive]
  split_ifs
  · have htwice : wireValue zone (wireValue zone value) = wireValue zone value := by
      cases value with
      | datetime d =>
        cases d with
        | naive clock => rfl
        | aware instant => rfl
      | none => rfl
      | scalar a => rfl
      | list items => rfl
      | dict items => rfl
      | bag nodes => rfl
    rw [htwice]
  · rfl

/-- What a turn holds of a value with naive datetimes is seen as that value. -/
theorem legacyValue_held (zone : ℤ) (rest : String) {value : Value A} (hnaive : value.IsNaive) :
    legacyValue zone (held zone rest value) = value := by
  unfold held
  rw [legacyValue_of_isNaive zone hnaive]
  split_ifs
  · cases value with
    | datetime d =>
      obtain ⟨clock, rfl⟩ := hnaive d (List.mem_singleton.2 rfl)
      rw [wireValue, legacyValue, sub_add_cancel]
    | none => rfl
    | scalar a => rfl
    | list items => rfl
    | dict items => rfl
    | bag nodes => exact legacyValue_of_isNaive zone hnaive
  · exact legacyValue_of_isNaive zone hnaive

/-- What the dictionary holds of a value with naive datetimes is seen as that value exactly when no
datetime of it sits below a list or a dictionary. -/
theorem legacyValue_stored_iff (zone : ℤ) (rest : String) {value : Value A}
    (hnaive : value.IsNaive) :
    legacyValue zone (stored zone rest value) = value ↔ value.boxed = [] := by
  constructor
  · intro h
    have hseen : (legacyValue zone (stored zone rest value)).IsNaive := by
      rw [h]
      exact hnaive
    have hboxed := boxed_of_legacyValue zone (isAware_stored zone rest value) hseen
    rw [h] at hboxed
    exact hboxed
  · intro h
    unfold stored
    split_ifs
    · exact legacyValue_wired zone hnaive h
    · exact legacyValue_cross zone hnaive h

end GenropyAsgi.GlobalStore

import GenropyAsgi.Library.PathTree
import GenropyAsgi.DottedPath
import GenropyAsgi.RequestSlot
import GenropyAsgi.Delivery.Readers

/-!
# The envelope of a ping

`handle_ping` of `siteregister_client.py` collects the page and each of its children and packs what
they were delivered into one Bag: the changes of the page under `dataChanges`, those of a child
under `childDataChanges.<id>`, each change a node `sc_0`, `sc_1` and so on whose attributes carry
its fields. The writes that the client sent along, and the clocks, come first; they reach the
collects through the workers that these find.

The result is that nothing is lost in the packing: read back at its place, each section tells what
its collect was delivered, change after change, exactly where no child's id leads to another's.
-/

namespace GenropyAsgi.Envelope

open Library Peek Request Delivery

variable {V B : Type}

/-! ## What is packed -/

/-- A value in the envelope: the site's, the events of a table, or a name that may be `None`. -/
inductive Payload (V : Type) where
  /-- A value of the site. -/
  | value (v : V)
  /-- The events of one table. -/
  | batch (events : List V)
  /-- A name. -/
  | text (name : Option String)

/-- A change of the data, with its values as the envelope has them. -/
def ofChange (change : ClientDataChange V) : ClientDataChange (Payload V) where
  path := change.path
  value := .value change.value
  attributes := change.attributes.map (Dict.mapVals fun _ v => .value v)
  reason := change.reason
  fired := change.fired
  change_ts := change.change_ts
  change_idx := change.change_idx
  delete := change.delete

/-- The path under which the events of a table travel: its dots become underscores. -/
def tableCode (table : Table) : String := table.map fun c => if c = '.' then '_' else c

/-- `_dbevent_to_client`; `unsaid` is what the constructor of the legacy puts in the fields that it
is not given. -/
def dbeventToClient (unsaid : DbEvent V → ClientDataChange (Payload V)) (deposit : DbEvent V) :
    ClientDataChange (Payload V) :=
  { unsaid deposit with
    path := "gnr.dbchanges." ++ tableCode deposit.table
    value := .batch deposit.batch
    attributes := some ((Dict.set ∅ "from_page_id" (.text deposit.from_page_id)).set
      "dbevent_reason" (.text deposit.reason)) }

/-- `_collect_local_datachanges`, on what the collect comes to: a page that is gone answers empty,
and every other exception is raised. -/
def collectLocalDatachanges (unsaid : DbEvent V → ClientDataChange (Payload V))
    (collected : Except PyError (Worker.PageDelivery V)) :
    Except PyError (List (ClientDataChange (Payload V))) :=
  match collected with
  | .ok delivery => .ok ((dressed delivery.datachanges).map ofChange ++
      delivery.dbevents.map (dbeventToClient unsaid))
  | .error (.keyError _ _) => .ok []
  | .error error => .error error

/-- The node of one change: its value and its attributes. -/
structure ChangeNode (V : Type) where
  /-- The value. -/
  value : Payload V
  /-- The dotted path. -/
  change_path : String
  /-- The reason of the write. -/
  change_reason : Option String
  /-- Whether the write is a one-shot event. -/
  change_fired : Bool
  /-- The attributes of the node written. -/
  change_attr : Option (Attributes (Payload V))
  /-- The writer's clock. -/
  change_ts : Instant
  /-- Whether the change removes the node. -/
  change_delete : Bool

/-- The node of a change, as `_changes_to_bag` writes it. -/
def ChangeNode.of (change : ClientDataChange (Payload V)) : ChangeNode V where
  value := change.value
  change_path := change.path
  change_reason := change.reason
  change_fired := change.fired
  change_attr := change.attributes
  change_ts := change.change_ts
  change_delete := change.delete

/-- A value of a node of the envelope. -/
inductive Item (V : Type) where
  /-- `None`. -/
  | none
  /-- `True`. -/
  | true
  /-- A change, with its attributes. -/
  | change (node : ChangeNode V)
  /-- A Bag: its nodes in order, each with its label. -/
  | bag (nodes : List (String × Item V))

/-- The nodes of a Bag, `none` for any other value. -/
def Item.nodes? : Item V → Option (List (String × Item V))
  | bag nodes => some nodes
  | none => Option.none
  | true => Option.none
  | change _ => Option.none

/-- The envelope is a tree addressed by the labels of a path. -/
instance : Branching String (Item V) where
  node := .bag
  nodes := Item.nodes?
  nodes_node _ := rfl
  node_of_nodes v items h := by
    cases v with
    | bag nodes => rw [Option.some.inj h]
    | none => cases h
    | true => cases h
    | change node => cases h

/-- `setItem` of the legacy Bag: the Bags along the path are made, and the value put at its end. -/
def setItem (bag : Item V) (path : String) (value : Item V) : Item V :=
  PathTree.write bag (labels path) value

/-- The label of a change by its place. -/
def scLabel (j : ℕ) : String := "sc_" ++ toString j

/-- `_changes_to_bag`. -/
def changesToBag (changes : List (ClientDataChange (Payload V))) : Option (Item V) :=
  if changes = [] then none
  else some (changes.zipIdx.foldl (fun result change =>
    setItem result (scLabel change.2) (.change (.of change.1))) (.bag []))

/-- The section of a child, when it has changes. -/
def addChild (envelope : Item V) (child_id : PageId)
    (changes : List (ClientDataChange (Payload V))) : Item V :=
  match changesToBag changes with
  | none => envelope
  | some child_bag => setItem envelope ("childDataChanges." ++ child_id) child_bag

/-! ## The ping -/

/-- The loop over the children: each is collected and told, until one of them raises. -/
def tellChildren [PyValue V] [LegacyBag B V] (unsaid : DbEvent V → ClientDataChange (Payload V)) :
    RequestSlot V → Item V → List (Collecting V B) → RequestSlot V × Except PyError (Item V)
  | slot, envelope, [] => (slot, .ok envelope)
  | slot, envelope, child :: children =>
    let outcome := collectPage slot child
    match collectLocalDatachanges unsaid outcome.result with
    | .error error => (outcome.slot, .error error)
    | .ok changes =>
      tellChildren unsaid outcome.slot (addChild envelope child.page_id changes) children

/-- `handle_ping` from its first collect on, with the collects of the page and of the children.
`user_item` is whether the refresh has found the user of the page; `running` is whether
`_flag_running_batch` sets its flag. `none` is the answer `False`. -/
def handlePing [PyValue V] [LegacyBag B V] (unsaid : DbEvent V → ClientDataChange (Payload V))
    (slot : RequestSlot V) (user_item : Bool) (page : Collecting V B)
    (children : List (Collecting V B)) (running : Bool) :
    RequestSlot V × Except PyError (Option (Item V)) :=
  if user_item then
    let outcome := collectPage slot page
    match collectLocalDatachanges unsaid outcome.result with
    | .error error => (outcome.slot, .error error)
    | .ok changes =>
      let envelope : Item V := .bag [("result", .none)]
      let told := tellChildren unsaid outcome.slot
        (match changesToBag changes with
          | none => envelope
          | some bag => setItem envelope "dataChanges" bag) children
      (told.1, told.2.map fun envelope =>
        some (if running then setItem envelope "runningBatch" .true else envelope))
  else (slot, .ok none)

/-- What each collect of a ping is delivered, in order; the slot goes from one to the next. -/
def deliveries [PyValue V] [LegacyBag B V] (unsaid : DbEvent V → ClientDataChange (Payload V)) :
    RequestSlot V → List (Collecting V B) →
      List (PageId × Except PyError (List (ClientDataChange (Payload V))))
  | _, [] => []
  | slot, c :: rest =>
    let outcome := collectPage slot c
    (c.page_id, collectLocalDatachanges unsaid outcome.result) ::
      deliveries unsaid outcome.slot rest

/-- What a section must be to tell a list of changes: absent for none, and else a Bag with a node
for each, labelled by its place. -/
def Tells (item : Option (Item V)) (changes : List (ClientDataChange (Payload V))) : Prop :=
  if changes = [] then item = none
  else ∃ nodes, item = some (.bag nodes) ∧
    nodes.map Prod.fst = (List.range changes.length).map scLabel ∧
    nodes.map Prod.snd = changes.map fun change => .change (.of change)

/-- The place of a child's section in the envelope. -/
def childPlace (child_id : PageId) : List String := "childDataChanges" :: labels child_id

/-! ## The labels -/

/-- The places tell the labels apart. -/
theorem scLabel_injective : Function.Injective scLabel := by
  intro i j h
  have hchars := congrArg String.toList h
  unfold scLabel at hchars
  rw [String.toList_append, String.toList_append, List.append_cancel_left_eq] at hchars
  -- A number is read back from its digits.
  have hdigits : Nat.toDigits 10 i = Nat.toDigits 10 j := by
    rw [← Nat.toList_repr, ← Nat.toList_repr]
    exact hchars
  calc i = Nat.ofDigitChars 10 (Nat.toDigits 10 i) 0 := Nat.ofDigitChars_ten_toDigits.symm
    _ = Nat.ofDigitChars 10 (Nat.toDigits 10 j) 0 := by rw [hdigits]
    _ = j := Nat.ofDigitChars_ten_toDigits

/-- The label of a place is one label. -/
theorem labels_scLabel (j : ℕ) : labels (scLabel j) = [scLabel j] := by
  have hdot : '.' ∉ (scLabel j).toList := by
    unfold scLabel
    rw [String.toList_append, List.mem_append]
    rintro (h | h)
    · exact absurd h (by decide)
    · have hdigits : (toString j).toList = Nat.toDigits 10 j := Nat.toList_repr
      rw [hdigits] at h
      have hdigit := Nat.isDigit_of_mem_toDigits (by decide) (by decide) h
      exact absurd hdigit (by decide)
  have hlabels := labels_of_not_mem hdot
  rwa [String.ofList_toList] at hlabels

/-- The path of a child's section has the labels of its place. -/
theorem labels_child (child_id : PageId) :
    labels ("childDataChanges." ++ child_id) = childPlace child_id := by
  have hdot : '.' ∉ "childDataChanges".toList := by decide
  have hsplit := List.splitOn_append_cons_self_of_not_mem hdot child_id.toList
  unfold labels childPlace
  rw [String.toList_append]
  have hchars : "childDataChanges.".toList ++ child_id.toList =
      "childDataChanges".toList ++ '.' :: child_id.toList := rfl
  rw [hchars, hsplit]
  rfl

/-- Different ids have different places. -/
theorem childPlace_injective : Function.Injective childPlace := by
  intro p q h
  have hlabels : labels p = labels q := List.cons.inj h |>.2
  rw [← intercalate_labels p, hlabels, intercalate_labels]

/-! ## One section -/

/-- A node is added at the end of a Bag whose nodes stand at earlier places. -/
theorem foldl_setItem :
    ∀ (changes : List (ClientDataChange (Payload V))) (n : ℕ) (nodes : List (String × Item V)),
      (∀ node ∈ nodes, ∃ i < n, node.1 = scLabel i) →
        (changes.zipIdx n).foldl (fun result change =>
            setItem result (scLabel change.2) (.change (.of change.1))) (.bag nodes) =
          .bag (nodes ++ (changes.zipIdx n).map fun change =>
            (scLabel change.2, .change (.of change.1)))
  | [], n, nodes, _ => by simp
  | change :: changes, n, nodes, hnodes => by
    have hnew : scLabel n ∉ nodes.map Prod.fst := by
      intro hmem
      obtain ⟨node, hnode, hlabel⟩ := List.mem_map.1 hmem
      obtain ⟨i, hi, heq⟩ := hnodes node hnode
      have hin : i = n := scLabel_injective (heq.symm.trans hlabel)
      omega
    have hset : setItem (.bag nodes) (scLabel n) (.change (.of change)) =
        .bag (nodes ++ [(scLabel n, .change (.of change))]) := by
      rw [setItem, labels_scLabel, PathTree.write_cons]
      have hitems : PathTree.itemsOf (Item.bag nodes) = nodes := PathTree.itemsOf_node nodes
      rw [hitems, PathTree.write_nil, Listing.set_of_not_mem hnew]
      rfl
    have hrest := foldl_setItem changes (n + 1) (nodes ++ [(scLabel n, .change (.of change))]) (by
      intro node hnode
      rcases List.mem_append.1 hnode with hold | hlast
      · obtain ⟨i, hi, heq⟩ := hnodes node hold
        exact ⟨i, by omega, heq⟩
      · rw [List.mem_singleton] at hlast
        exact ⟨n, by omega, by rw [hlast]⟩)
    rw [List.zipIdx_cons, List.foldl_cons, hset, hrest, List.map_cons, List.append_assoc]
    rfl

/-- The nodes of a section. -/
def sectionNodes (changes : List (ClientDataChange (Payload V))) : List (String × Item V) :=
  changes.zipIdx.map fun change => (scLabel change.2, .change (.of change.1))

/-- `_changes_to_bag` makes a node for each change. -/
theorem changesToBag_eq {changes : List (ClientDataChange (Payload V))} (h : changes ≠ []) :
    changesToBag changes = some (.bag (sectionNodes changes)) := by
  have hfold := foldl_setItem changes 0 [] fun node hnode => absurd hnode List.not_mem_nil
  rw [changesToBag, if_neg h, hfold]
  rfl

/-- What `_changes_to_bag` makes of a list tells it. -/
theorem tells_changesToBag (changes : List (ClientDataChange (Payload V))) :
    Tells (changesToBag changes) changes := by
  unfold Tells
  split_ifs with h
  · exact if_pos h
  · refine ⟨sectionNodes changes, changesToBag_eq h, ?_, ?_⟩
    · rw [sectionNodes, List.map_map, List.range_eq_range', ← List.zipIdx_map_snd 0 changes,
        List.map_map]
      rfl
    · conv_rhs => rw [← List.zipIdx_map_fst 0 changes]
      rw [sectionNodes, List.map_map, List.map_map]
      rfl

/-- No Bag stands inside a section. -/
theorem lookup_section_ne_bag {nodes : List (String × Item V)}
    {changes : List (ClientDataChange (Payload V))}
    (hnodes : nodes.map Prod.snd = changes.map fun change => .change (.of change))
    {place : List String} (hplace : place ≠ []) (nodes' : List (String × Item V)) :
    PathTree.lookup (Item.bag nodes) place ≠ some (.bag nodes') := by
  intro h
  cases place with
  | nil => exact hplace rfl
  | cons label rest =>
    rw [PathTree.lookup_cons] at h
    have hitems : PathTree.itemsOf (Item.bag nodes) = nodes := PathTree.itemsOf_node nodes
    rw [hitems] at h
    obtain ⟨child, hget, hchild⟩ := Option.bind_eq_some_iff.1 h
    have hmem : child ∈ nodes.map Prod.snd := List.mem_map.2 ⟨_, Listing.mem_of_get hget, rfl⟩
    rw [hnodes] at hmem
    obtain ⟨change, _, rfl⟩ := List.mem_map.1 hmem
    -- A change has nothing below it.
    cases rest with
    | nil => cases hchild
    | cons label rest => cases hchild

/-! ## All sections -/

/-- The changes of a page, with the page. -/
abbrev Section (V : Type) := PageId × List (ClientDataChange (Payload V))

/-- The section of the page put at its place, when it has changes. -/
def pageWrites (changes : List (ClientDataChange (Payload V))) : List (List String × Item V) :=
  (changesToBag changes).toList.map fun bag => (["dataChanges"], bag)

/-- The sections of the children put at their places. -/
def childWrites (sections : List (Section V)) : List (List String × Item V) :=
  sections.flatMap fun s => (changesToBag s.2).toList.map fun bag => (childPlace s.1, bag)

/-- The flag put at its place. -/
def flagWrites (running : Bool) : List (List String × Item V) :=
  if running then [(["runningBatch"], .true)] else []

/-- The flag stands beside whatever has another first label. -/
theorem apart_flagWrites {running : Bool} {label : String} {rest : List String}
    (hlabel : label ≠ "runningBatch") {put : List String × Item V}
    (hput : put ∈ (flagWrites running : List (List String × Item V))) :
    Apart put.1 (label :: rest) := by
  unfold flagWrites at hput
  split_ifs at hput
  · rw [List.mem_singleton.1 hput]
    exact ⟨by simp [hlabel.symm], by simp [hlabel]⟩
  · cases hput

/-- A section of a child is one more write. -/
theorem addChild_eq (envelope : Item V) (child : Section V) :
    addChild envelope child.1 child.2 = PathTree.writeEach envelope (childWrites [child]) := by
  unfold addChild childWrites
  rw [List.flatMap_singleton]
  cases changesToBag child.2 with
  | none => rfl
  | some bag =>
    simp only [setItem, labels_child]
    rfl

/-- A write of a child's section stands at its place, and is made for changes only. -/
theorem mem_childWrites {sections : List (Section V)} {put : List String × Item V} :
    put ∈ childWrites sections ↔ ∃ s ∈ sections, s.2 ≠ [] ∧
      put = (childPlace s.1, .bag (sectionNodes s.2)) := by
  unfold childWrites
  rw [List.mem_flatMap]
  constructor
  · rintro ⟨s, hs, hput⟩
    by_cases hempty : s.2 = []
    · rw [changesToBag, if_pos hempty] at hput
      cases hput
    · rw [changesToBag_eq hempty] at hput
      exact ⟨s, hs, hempty, List.mem_singleton.1 hput⟩
  · rintro ⟨s, hs, hempty, rfl⟩
    refine ⟨s, hs, ?_⟩
    rw [changesToBag_eq hempty]
    exact List.mem_singleton.2 rfl

/-- The writes of the children part where the ids of those with changes do. -/
theorem pairwise_childWrites {sections : List (Section V)}
    (h : (sections.filter fun s => !s.2.isEmpty).Pairwise
      fun s t => Apart (labels s.1) (labels t.1)) :
    (childWrites sections).Pairwise fun a b => Apart a.1 b.1 := by
  induction sections with
  | nil => exact List.Pairwise.nil
  | cons s sections ih =>
    have hcons : childWrites (s :: sections) = childWrites [s] ++ childWrites sections := by
      simp [childWrites]
    by_cases hempty : s.2 = []
    · have hnone : childWrites [s] = ([] : List (List String × Item V)) := by
        simp [childWrites, changesToBag, hempty]
      rw [List.filter_cons_of_neg (by simp [hempty])] at h
      rw [hcons, hnone, List.nil_append]
      exact ih h
    · have hone : childWrites [s] = [(childPlace s.1, .bag (sectionNodes s.2))] := by
        simp [childWrites, changesToBag_eq hempty]
      rw [List.filter_cons_of_pos (by simpa using hempty), List.pairwise_cons] at h
      rw [hcons, hone, List.singleton_append, List.pairwise_cons]
      refine ⟨?_, ih h.2⟩
      intro put hput
      obtain ⟨t, ht, htempty, rfl⟩ := mem_childWrites.1 hput
      have hapart := h.1 t (List.mem_filter.2 ⟨ht, by simpa using htempty⟩)
      -- Both places begin with the same label.
      exact ⟨fun hle => hapart.1 (List.cons_prefix_cons.1 hle).2,
        fun hle => hapart.2 (List.cons_prefix_cons.1 hle).2⟩

section

variable [PyValue V] [LegacyBag B V] (unsaid : DbEvent V → ClientDataChange (Payload V))

/-- A delivery is told with the page that it is for. -/
theorem map_fst_deliveries (slot : RequestSlot V) (children : List (Collecting V B)) :
    (deliveries unsaid slot children).map Prod.fst = children.map Collecting.page_id := by
  induction children generalizing slot with
  | nil => rfl
  | cons child children ih => rw [deliveries, List.map_cons, List.map_cons, ih]

/-- The loop over the children comes to its end exactly when no collect raises, and has then put the
section of each. -/
theorem tellChildren_cases :
    ∀ (children : List (Collecting V B)) (slot : RequestSlot V) (envelope : Item V),
      (∃ sections : List (Section V),
          deliveries unsaid slot children = sections.map (fun s => (s.1, .ok s.2)) ∧
          (tellChildren unsaid slot envelope children).2 =
            .ok (PathTree.writeEach envelope (childWrites sections))) ∨
        ∃ error, (tellChildren unsaid slot envelope children).2 = .error error ∧
          ∃ d ∈ deliveries unsaid slot children, d.2 = .error error
  | [], _, _ => Or.inl ⟨[], rfl, rfl⟩
  | child :: children, slot, envelope => by
    simp only [tellChildren, deliveries]
    cases hcollect : collectLocalDatachanges unsaid (collectPage slot child).result with
    | error error => exact Or.inr ⟨error, rfl, _, List.mem_cons_self, rfl⟩
    | ok changes =>
      dsimp only
      have hadd := addChild_eq envelope (child.page_id, changes)
      dsimp only at hadd
      rw [hadd]
      rcases tellChildren_cases children (collectPage slot child).slot
          (PathTree.writeEach envelope (childWrites [(child.page_id, changes)])) with
        ⟨sections, hdeliveries, htold⟩ | ⟨error, herror, d, hd, heq⟩
      · refine Or.inl ⟨(child.page_id, changes) :: sections, ?_, ?_⟩
        · rw [hdeliveries, List.map_cons]
        · rw [htold, ← PathTree.writeEach_append]
          simp [childWrites]
      · exact Or.inr ⟨error, herror, d, List.mem_cons_of_mem _ hd, heq⟩

/-- A ping of a page that is there answers its envelope exactly when no collect raises, and the
envelope has the sections put in it one after another. -/
theorem handlePing_cases (slot : RequestSlot V) (page : Collecting V B)
    (children : List (Collecting V B)) (running : Bool) :
    (∃ changes, ∃ sections : List (Section V),
        deliveries unsaid slot (page :: children) =
          (page.page_id, .ok changes) :: sections.map (fun s => (s.1, .ok s.2)) ∧
        (handlePing unsaid slot true page children running).2 =
          .ok (some (PathTree.writeEach (.bag [("result", .none)])
            (pageWrites changes ++ (childWrites sections ++ flagWrites running))))) ∨
      ∃ error, (handlePing unsaid slot true page children running).2 = .error error ∧
        ∃ d ∈ deliveries unsaid slot (page :: children), d.2 = .error error := by
  simp only [handlePing, if_true, deliveries]
  cases hcollect : collectLocalDatachanges unsaid (collectPage slot page).result with
  | error error => exact Or.inr ⟨error, rfl, _, List.mem_cons_self, rfl⟩
  | ok changes =>
    dsimp only
    have hpage : (match changesToBag changes with
        | none => (.bag [("result", .none)] : Item V)
        | some bag => setItem (.bag [("result", .none)]) "dataChanges" bag) =
        PathTree.writeEach (.bag [("result", .none)]) (pageWrites changes) := by
      unfold pageWrites
      cases changesToBag changes with
      | none => rfl
      | some bag => rfl
    rw [hpage]
    rcases tellChildren_cases unsaid children (collectPage slot page).slot
        (PathTree.writeEach (.bag [("result", .none)]) (pageWrites changes)) with
      ⟨sections, hdeliveries, htold⟩ | ⟨error, herror, d, hd, heq⟩
    · refine Or.inl ⟨changes, sections, by rw [hdeliveries], ?_⟩
      rw [htold, Except.map]
      congr 2
      rw [PathTree.writeEach_append, PathTree.writeEach_append]
      cases running with
      | false => rfl
      | true => rfl
    · exact Or.inr ⟨error, by rw [herror]; rfl, d, List.mem_cons_of_mem _ hd, heq⟩

omit [PyValue V] [LegacyBag B V] in
/-- Where the sections of two children are both told, no id leads to the other: a section would
stand inside a section. -/
theorem not_prefix_of_told {envelope : Item V} {s t : Section V} (hs : s.2 ≠ []) (ht : t.2 ≠ [])
    (hne : s.1 ≠ t.1) (hread : Tells (PathTree.lookup envelope (childPlace s.1)) s.2)
    (hread' : Tells (PathTree.lookup envelope (childPlace t.1)) t.2) :
    ¬ labels s.1 <+: labels t.1 := by
  rintro ⟨rest, hrest⟩
  rw [Tells, if_neg hs] at hread
  rw [Tells, if_neg ht] at hread'
  obtain ⟨nodes, hnodes, _, hchanges⟩ := hread
  obtain ⟨nodes', hnodes', _, _⟩ := hread'
  have hplace : childPlace t.1 = childPlace s.1 ++ rest := by
    rw [childPlace, childPlace, ← hrest]
    rfl
  rw [hplace, PathTree.lookup_append, hnodes, Option.bind_some] at hnodes'
  refine lookup_section_ne_bag hchanges ?_ nodes' hnodes'
  rintro rfl
  rw [List.append_nil] at hplace
  exact hne (childPlace_injective hplace).symm

omit [PyValue V] [LegacyBag B V] in
/-- The children's sections all tell their changes exactly when no id of a child with changes leads
to another's. -/
theorem children_told_iff {sections : List (Section V)} (hids : (sections.map Prod.fst).Nodup)
    (changes : List (ClientDataChange (Payload V))) (running : Bool) :
    (∀ s ∈ sections, s.2 ≠ [] →
        Tells (PathTree.lookup (PathTree.writeEach (.bag [("result", .none)])
          (pageWrites changes ++ (childWrites sections ++ flagWrites running)))
            (childPlace s.1)) s.2) ↔
      (sections.filter fun s => !s.2.isEmpty).Pairwise
        fun s t => Apart (labels s.1) (labels t.1) := by
  set envelope : Item V := PathTree.writeEach (.bag [("result", .none)])
    (pageWrites changes ++ (childWrites sections ++ flagWrites running)) with henvelope
  constructor
  · intro htold
    have hdistinct : (sections.filter fun s => !s.2.isEmpty).Pairwise fun s t => s.1 ≠ t.1 :=
      (List.pairwise_map.1 hids).sublist List.filter_sublist
    refine List.Pairwise.imp_of_mem ?_ hdistinct
    intro s t hs ht hne
    obtain ⟨hs, hsome⟩ := List.mem_filter.1 hs
    obtain ⟨ht, htsome⟩ := List.mem_filter.1 ht
    have hsome : s.2 ≠ [] := by simpa using hsome
    have htsome : t.2 ≠ [] := by simpa using htsome
    exact ⟨not_prefix_of_told hsome htsome hne (htold s hs hsome) (htold t ht htsome),
      not_prefix_of_told htsome hsome hne.symm (htold t ht htsome) (htold s hs hsome)⟩
  · intro hpairwise s hs hsome
    -- The page's section and the flag stand beside the children's.
    have hmem : (childPlace s.1, Item.bag (sectionNodes s.2)) ∈ childWrites sections :=
      mem_childWrites.2 ⟨s, hs, hsome, rfl⟩
    have hflag : ∀ put ∈ (flagWrites running : List (List String × Item V)),
        Apart put.1 (childPlace s.1) := fun put hput => apart_flagWrites (by decide) hput
    have hread := PathTree.lookup_writeEach_of_mem
      (PathTree.writeEach (.bag [("result", .none)]) (pageWrites changes))
      (pairwise_childWrites hpairwise) _ hmem
    have hkept := PathTree.lookup_writeEach_apart (PathTree.writeEach (PathTree.writeEach
      (.bag [("result", .none)]) (pageWrites changes)) (childWrites sections)) hflag
    rw [henvelope, PathTree.writeEach_append, PathTree.writeEach_append, hkept, hread,
      ← changesToBag_eq hsome]
    exact tells_changesToBag s.2

omit [PyValue V] [LegacyBag B V] in
/-- The section of the page tells its changes, whatever the children have. -/
theorem page_told (sections : List (Section V)) (changes : List (ClientDataChange (Payload V)))
    (running : Bool) :
    Tells (PathTree.lookup (PathTree.writeEach (.bag [("result", .none)])
      (pageWrites changes ++ (childWrites sections ++ flagWrites running))) ["dataChanges"])
        changes := by
  have hafter : ∀ put ∈ childWrites sections ++ flagWrites running,
      Apart put.1 ["dataChanges"] := by
    intro put hput
    rcases List.mem_append.1 hput with hchild | hflag
    · obtain ⟨s, _, _, rfl⟩ := mem_childWrites.1 hchild
      exact ⟨by simp [childPlace], by simp [childPlace]⟩
    · exact apart_flagWrites (by decide) hflag
  have hkept := PathTree.lookup_writeEach_apart (PathTree.writeEach (.bag [("result", .none)])
    (pageWrites changes)) hafter
  have hread : PathTree.lookup (PathTree.writeEach (Item.bag [("result", .none)])
      (pageWrites changes)) ["dataChanges"] = changesToBag changes := by
    unfold pageWrites
    cases changesToBag changes with
    | none => rfl
    | some bag => exact PathTree.lookup_write_self _ ["dataChanges"] bag
  rw [PathTree.writeEach_append, hkept, hread]
  exact tells_changesToBag changes

end

/-! ## A ping of two pages -/

/-- What the constructor leaves unsaid, at its simplest. -/
def plainUnsaid (deposit : DbEvent Sample.Value) : ClientDataChange (Payload Sample.Value) :=
  ⟨"", .batch [], none, none, false, deposit.ts, 0, false⟩

/-- A collect of a page on the worker of two pages, where `"p"` has a change on its row and `"q"`
one at the desk. -/
def sampleCollect (p : PageId) : Collecting Sample.Value Sample.FlatBag where
  page_id := p
  looking := (Sample.start ["p", "q"]).worker
  desk := some ((Sample.start ["p", "q"]).desk.onDatachange (Sample.start ["p", "q"]).population
    (Sample.message .page "q" "a" 1) 1).1
  filing := fun _ => 2
  finishing := ((Sample.start ["p", "q"]).worker.routeDatachange "u"
    (Sample.message .page "p" "b" 2) 2).1
  clock := fun _ _ => 3

end GenropyAsgi.Envelope

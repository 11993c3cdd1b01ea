import GenropyAsgi.Delivery.Machine

/-!
# What is not filed

`on_datachange` files an addressed write when its target is known at the vertex and the write can be
applied: it is not filtered, and its parcel decodes. Whatever else happens leaves the desk as it
was, except that the queue of a known target is created before the parcel is decoded: an undecodable
one that comes where no queue is leaves an empty queue behind.

On the worker the refusal of a verb comes first, before its row, its slot and its CALL.
-/

namespace GenropyAsgi.Delivery

open Library

variable {V B : Type}

/-- The parcel of the write, if it has one, decodes. -/
def Decodes : Op V → Bool
  | .setDatachange none _ => false
  | _ => true

/-- The target of the write is known at the vertex for its kind. -/
def Known (population : Population) (message : Message V) : Prop :=
  ∃ target, message.target = some target ∧ population.known message.kind target = true

/-- The write can be applied. -/
def Applicable (message : Message V) : Prop :=
  message.filters = none ∧ Decodes message.op = true

/-- The write is filed exactly when its target is known and it can be applied, and a write that is
not filed leaves the queue maps and the subscription index exactly as they were. -/
def LeavesNoTrace (desk : DeliveryDesk V) (population : Population) (message : Message V)
    (now : Instant) : Prop :=
  ((desk.onDatachange population message now).2 = .ok true ↔
      Known population message ∧ Applicable message) ∧
    ((desk.onDatachange population message now).2 ≠ .ok true →
      (desk.onDatachange population message now).1 = desk)

/-- The queue at which a write is addressed, if there is one. -/
def queueAt (desk : DeliveryDesk V) (kind : Kind) (target : String) : Option (List (Change V)) :=
  if kind.isState then desk.user_store_change_map.get target
  else desk.page_datachange_map.get target

/-- The write has a parcel that does not decode, is not filtered, and is addressed at a known target
that has no queue. -/
def BearsAQueue (desk : DeliveryDesk V) (population : Population) (message : Message V) : Prop :=
  Decodes message.op = false ∧ message.filters = none ∧
    ∃ target, message.target = some target ∧ population.known message.kind target = true ∧
      queueAt desk message.kind target = none

/-- The verb is refused on the worker: for its filters, or for its STATE kind. -/
def RefusedVerb (message : Message V) : Prop :=
  message.filters.isSome = true ∨ (message.kind.isState = true ∧ message.kind ≠ .user_store)

/-! ## The desk -/

/-- A write is applied exactly when its parcel decodes. -/
theorem fileOn_ok_iff (op : Op V) (queue : List (Change V)) (now : Instant) :
    ((op.fileOn queue now).2.map fun _ => true) = .ok true ↔ Decodes op = true := by
  cases op with
  | resetDatachanges => exact ⟨fun _ => rfl, fun _ => rfl⟩
  | dropDatachanges path => exact ⟨fun _ => rfl, fun _ => rfl⟩
  | setDatachange change replace =>
    cases change with
    | none => simp [Op.fileOn, Except.map, Decodes]
    | some change => exact ⟨fun _ => rfl, fun _ => rfl⟩

/-- A parcel that does not decode leaves the pending changes as they are. -/
theorem fileOn_of_not_decodes {op : Op V} (h : Decodes op = false) (queue : List (Change V))
    (now : Instant) : (op.fileOn queue now).1 = queue := by
  cases op with
  | resetDatachanges => cases h
  | dropDatachanges path => cases h
  | setDatachange change replace =>
    cases change with
    | none => rfl
    | some change => cases h

/-- A map in which the queue that is there is put again is the same map; where none was, the empty
queue is a new one. -/
theorem set_getD_eq_iff (map : Dict String (List (Change V))) (target : String) :
    map.set target ((map.get target).getD []) = map ↔ map.get target ≠ none := by
  constructor
  · intro heq hnone
    have h := congrArg (fun m => m.get target) heq
    rw [Dict.get_set, if_pos rfl, hnone] at h
    cases h
  · intro hsome
    obtain ⟨queue, hqueue⟩ := Option.ne_none_iff_exists'.1 hsome
    apply Dict.ext
    intro k
    rw [Dict.get_set]
    split_ifs with hk
    · rw [hk, hqueue, Option.getD_some]
    · rfl

/-- A known target. -/
theorem known_iff {population : Population} {message : Message V} {target : String}
    (h : message.target = some target) :
    Known population message ↔ population.known message.kind target = true := by
  constructor
  · rintro ⟨target', h', hknown⟩
    rw [h] at h'
    cases h'
    exact hknown
  · exact fun hknown => ⟨target, h, hknown⟩

/-- What an edit of the addressed queue leaves, in the map of either kind. -/
theorem leavesNoTrace_of_queue {desk : DeliveryDesk V} {population : Population}
    {message : Message V} {now : Instant} {target : String} {map : Dict String (List (Change V))}
    (put : Dict String (List (Change V)) → DeliveryDesk V) (htarget : message.target = some target)
    (hfilters : message.filters = none) (hknown : population.known message.kind target = true)
    (hqueue : queueAt desk message.kind target = map.get target)
    (hput : ∀ map', put map' = desk ↔ map' = map)
    (hserved : desk.onDatachange population message now =
      (put (map.set target (message.op.fileOn ((map.get target).getD []) now).1),
        (message.op.fileOn ((map.get target).getD []) now).2.map fun _ => true)) :
    LeavesNoTrace desk population message now ↔ ¬ BearsAQueue desk population message := by
  have hexact : (desk.onDatachange population message now).2 = .ok true ↔
      Known population message ∧ Applicable message := by
    rw [hserved, fileOn_ok_iff]
    exact ⟨fun h => ⟨(known_iff htarget).2 hknown, hfilters, h⟩, fun h => h.2.2⟩
  have hbears : BearsAQueue desk population message ↔
      Decodes message.op = false ∧ map.get target = none := by
    constructor
    · rintro ⟨hdecodes, _, target', htarget', _, hnone⟩
      rw [htarget] at htarget'
      cases htarget'
      exact ⟨hdecodes, by rw [← hqueue]; exact hnone⟩
    · rintro ⟨hdecodes, hnone⟩
      exact ⟨hdecodes, hfilters, target, htarget, hknown, by rw [hqueue]; exact hnone⟩
  unfold LeavesNoTrace
  rw [hbears]
  cases hdecodes : Decodes message.op with
  | true =>
    -- It is filed.
    have hfiled : (desk.onDatachange population message now).2 = .ok true :=
      hexact.2 ⟨(known_iff htarget).2 hknown, hfilters, hdecodes⟩
    exact ⟨fun _ h => Bool.noConfusion h.1, fun _ => ⟨hexact, fun hnot => absurd hfiled hnot⟩⟩
  | false =>
    have hnot : (desk.onDatachange population message now).2 ≠ .ok true := by
      intro hfiled
      have := (hexact.1 hfiled).2.2
      rw [hdecodes] at this
      cases this
    have hsame : (desk.onDatachange population message now).1 = desk ↔ map.get target ≠ none := by
      rw [hserved, fileOn_of_not_decodes hdecodes]
      exact (hput _).trans (set_getD_eq_iff map target)
    constructor
    · rintro ⟨_, htrace⟩ ⟨_, hnone⟩
      exact hsame.1 (htrace hnot) hnone
    · intro hbirth
      exact ⟨hexact, fun _ => hsame.2 fun hnone => hbirth ⟨rfl, hnone⟩⟩

/-- A write that is filtered, or addressed at nobody, leaves the desk as it is. -/
theorem onDatachange_of_closed (desk : DeliveryDesk V) {population : Population}
    {message : Message V} (now : Instant)
    (h : ¬ (Known population message ∧ message.filters = none)) :
    (desk.onDatachange population message now).2 ≠ .ok true ∧
      (desk.onDatachange population message now).1 = desk := by
  unfold DeliveryDesk.onDatachange
  cases htarget : message.target with
  | none => exact ⟨by simp, rfl⟩
  | some target =>
    dsimp only
    split_ifs with hknown
    · have hfilters : message.filters ≠ none := fun hnone =>
        h ⟨(known_iff htarget).2 hknown, hnone⟩
      obtain ⟨filters, hfilters⟩ := Option.ne_none_iff_exists'.1 hfilters
      unfold DeliveryDesk.fileDatachange
      rw [hfilters]
      exact ⟨by simp [Except.map], rfl⟩
    · exact ⟨by simp, rfl⟩

/-- The desk leaves no trace of what it does not file, unless a parcel that does not decode comes to
a known target that has no queue. -/
theorem leavesNoTrace_iff (desk : DeliveryDesk V) (population : Population) (message : Message V)
    (now : Instant) :
    LeavesNoTrace desk population message now ↔ ¬ BearsAQueue desk population message := by
  by_cases hopen : Known population message ∧ message.filters = none
  · obtain ⟨⟨target, htarget, hknown⟩, hfilters⟩ := hopen
    cases hkind : message.kind.isState with
    | true =>
      refine leavesNoTrace_of_queue (fun map => { desk with user_store_change_map := map })
        htarget hfilters hknown (if_pos hkind) (fun map' => ?_) ?_
      · constructor
        · exact fun h => congrArg DeliveryDesk.user_store_change_map h
        · rintro rfl
          rfl
      · simp [DeliveryDesk.onDatachange, DeliveryDesk.fileDatachange, htarget, hknown, hfilters,
          hkind]
    | false =>
      refine leavesNoTrace_of_queue (fun map => { desk with page_datachange_map := map })
        htarget hfilters hknown (if_neg (by rw [hkind]; exact Bool.false_ne_true))
        (fun map' => ?_) ?_
      · constructor
        · exact fun h => congrArg DeliveryDesk.page_datachange_map h
        · rintro rfl
          rfl
      · simp [DeliveryDesk.onDatachange, DeliveryDesk.fileDatachange, htarget, hknown, hfilters,
          hkind]
  · obtain ⟨hanswer, hsame⟩ := onDatachange_of_closed desk now hopen
    refine ⟨fun _ h => hopen ?_, fun _ => ⟨⟨fun h => absurd h hanswer, ?_⟩, fun _ => hsame⟩⟩
    · obtain ⟨_, hfilters, target, htarget, hknown, _⟩ := h
      exact ⟨⟨target, htarget, hknown⟩, hfilters⟩
    · exact fun h => absurd ⟨h.1, h.2.1⟩ hopen

/-! ## The worker -/

/-- A refused verb raises, and the worker is as it was. -/
theorem routeDatachange_of_refused {message : Message V} (h : RefusedVerb message)
    (worker : Worker V B) (identity : User) (now : Instant) :
    ∃ text argument, worker.routeDatachange identity message now =
      (worker, .raised (.notImplementedError text argument)) := by
  unfold Worker.routeDatachange
  by_cases hfilters : message.filters.isSome = true
  · exact ⟨_, _, if_pos hfilters⟩
  · rw [if_neg hfilters]
    have hkind := h.resolve_left hfilters
    exact ⟨_, _, if_pos hkind⟩

/-- A refused verb leaves the whole machine as it was: the rows, the slots of the requests and the
lane of the CALLs. -/
theorem write_of_refused {message : Message V} (h : RefusedVerb message) (s : State V B)
    (identity : User) (now : Instant) : s.write identity message now = s := by
  obtain ⟨text, argument, hroute⟩ := routeDatachange_of_refused h s.worker identity now
  unfold State.write
  rw [hroute]
  simp [Worker.Road.call, Worker.Road.isLocal]

/-- **A write that is not filed leaves no trace, unless it bears a queue.** For every desk and every
addressed message: it is answered as filed exactly when its target is known at the vertex for its
kind and it can be applied, and what is not filed leaves the queue maps, keys included, and the
index as they were, if and only if it is not an undecodable parcel that comes, unfiltered, to a
known target without a queue. A verb that is refused on the worker raises and changes nothing. -/
theorem not_filed_leaves_no_trace_iff (desk : DeliveryDesk V) (population : Population)
    (message : Message V) (now : Instant) :
    (LeavesNoTrace desk population message now ↔ ¬ BearsAQueue desk population message) ∧
      (RefusedVerb message → ∀ (s : State V B) (identity : User),
        s.write identity message now = s ∧
          ∃ text argument, (s.worker.routeDatachange identity message now).2 =
            .raised (.notImplementedError text argument)) := by
  refine ⟨leavesNoTrace_iff desk population message now, fun hrefused s identity => ?_⟩
  obtain ⟨text, argument, hroute⟩ := routeDatachange_of_refused hrefused s.worker identity now
  exact ⟨write_of_refused hrefused s identity now, text, argument, by rw [hroute]⟩

/-- A filtered verb is refused. -/
theorem not_filed_leaves_no_trace_filtered (s : State Sample.Value Sample.FlatBag) :
    s.write "u" ⟨.resetDatachanges, .page, some "p", some "user:alice"⟩ 1 = s :=
  ((not_filed_leaves_no_trace_iff DeliveryDesk.empty ⟨∅, ∅⟩
    ⟨.resetDatachanges, .page, some "p", some "user:alice"⟩ 1).2 (.inl rfl) s "u").1

/-- A parcel that does not decode comes to a known page that nothing waits for: an empty queue is
left behind. -/
theorem undecodable_parcel_leaves_a_queue :
    ¬ LeavesNoTrace (DeliveryDesk.empty : DeliveryDesk ℕ)
      ⟨(∅ : Dict PageId ConnectionId).set "p" "c", ∅⟩
      ⟨.setDatachange none false, .page, some "p", none⟩ 1 := by
  rintro ⟨_, htrace⟩
  have hsame := htrace (by decide)
  have hqueue := congrArg (fun desk => desk.page_datachange_map.get "p") hsame
  cases hqueue

end GenropyAsgi.Delivery

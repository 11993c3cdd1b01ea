import GenropyAsgi.Library.Latest
import GenropyAsgi.Delivery.OneList

/-!
# Writes that coalesce

`set_datachange` with `replace` takes the pending change of the same key out before it appends its
own, on the row or at the desk, "so a value written over and over reaches the browser once". Two
things hold over whole runs. Whatever the writes take out, the change accepted last under a key is
never among it (`last_word_kept`). And a key that is only written with `replace` is pending once at
most on each of the two roads, and reaches the browser twice at most in one answer
(`replaced_key_once`): once for each road, since neither looks into the other.
-/

namespace GenropyAsgi.Delivery

open Library

variable {V B : Type}

/-! ## An action as an edit of the queues -/

/-- The change accepted for a page by a message that is an edit of its queue. -/
theorem about_addressed {message : Message V} {p : PageId} (hstate : message.kind.isState = false)
    (htarget : message.target = some p) (now : Instant) :
    about p (message.addressed now) = (editOf now message.op).entry.toList := by
  unfold Message.addressed
  rw [hstate, htarget]
  cases message.op with
  | resetDatachanges => rfl
  | dropDatachanges path => rfl
  | setDatachange change replace =>
    cases change with
    | none => rfl
    | some change =>
      dsimp only
      rw [about_singleton, if_pos rfl]
      rfl

/-- What a message does to a queue of a page: nothing, or its own edit. -/
def EditedBy (p : PageId) (message : Message V) (now : Instant) (edit : Edit (Change V)) : Prop :=
  edit = Edit.idle ∨
    message.kind.isState = false ∧ message.target = some p ∧ edit = editOf now message.op

/-- A message that raises for its change is the edit that does nothing. -/
theorem editOf_of_error {op : Op V} {queue : List (Change V)} {now : Instant} {error : PyError}
    (h : (op.fileOn queue now).2 = .error error) : editOf now op = Edit.idle := by
  unfold Op.fileOn at h
  split at h
  · cases h
  · cases h
  · rfl
  · cases h

/-- A verb called on the worker edits the queue of a page's row, and what it adds is accepted. -/
theorem edited_row (worker : Worker V B) (identity : User) (message : Message V) (now : Instant)
    (p : PageId) : ∃ edit, EditedBy p message now edit ∧
      (worker.routeDatachange identity message now).1.rowQueue p =
        edit.apply (worker.rowQueue p) ∧
      about p (if (worker.routeDatachange identity message now).2.isLocal then
        message.addressed now else []) = edit.entry.toList := by
  rcases worker.routeDatachange_cases identity message now with
    ⟨target, page, htarget, _, hkind, hrow, _, heq⟩ | ⟨error, heq⟩ | heq
  · have hstate : message.kind.isState = false := by rw [hkind]; rfl
    rw [heq]
    dsimp only
    by_cases hp : p = target
    · subst hp
      refine ⟨editOf now message.op, Or.inr ⟨hstate, htarget, rfl⟩, ?_, ?_⟩
      · rw [Worker.rowQueue_setPage, if_pos rfl, PageRow.queue_actOnRow, map_fileOn,
          Worker.rowQueue_of_get hrow]
        rfl
      · rw [about_ite, about_addressed hstate htarget]
        cases hresult : (page.actOnRow now message.op).2 with
        | ok _ => exact if_pos rfl
        | error error =>
          -- A change that does not decode is no entry.
          rw [PageRow.actOnRow_result] at hresult
          rw [editOf_of_error hresult]
          exact ite_self _
    · refine ⟨Edit.idle, Or.inl rfl, ?_, ?_⟩
      · rw [Worker.rowQueue_setPage, if_neg hp, Edit.apply_idle]
      · rw [about_ite, Message.about_addressed_of_ne htarget hp, ite_self]
        rfl
  · rw [heq]
    exact ⟨Edit.idle, Or.inl rfl, (Edit.apply_idle _).symm, rfl⟩
  · rw [heq]
    exact ⟨Edit.idle, Or.inl rfl, (Edit.apply_idle _).symm, rfl⟩

/-- The desk serving an addressed write edits the queue of a page, and what it adds is accepted. -/
theorem edited_desk (desk : DeliveryDesk V) (population : Population) (message : Message V)
    (now : Instant) (p : PageId) : ∃ edit, EditedBy p message now edit ∧
      ((desk.onDatachange population message now).1.datachangesFor p).map Change.unnumbered =
        edit.apply ((desk.datachangesFor p).map Change.unnumbered) ∧
      about p (if DeliveryDesk.isFiled (desk.onDatachange population message now).2 then
        message.addressed now else []) = edit.entry.toList := by
  rcases desk.onDatachange_cases population message now with
    ⟨target, htarget, _, hstate, _, heq⟩ | ⟨target, htarget, _, hstate, _, heq⟩ |
      ⟨answer, hanswer, heq⟩
  · -- A STATE write is no write to a page.
    have hnone : message.addressed now = [] := by simp [Message.addressed, hstate]
    rw [heq, hnone, ite_self]
    exact ⟨Edit.idle, Or.inl rfl, (Edit.apply_idle _).symm, rfl⟩
  · rw [heq]
    dsimp only
    rw [DeliveryDesk.datachangesFor_set]
    by_cases hp : p = target
    · subst hp
      refine ⟨editOf now message.op, Or.inr ⟨hstate, htarget, rfl⟩, ?_, ?_⟩
      · rw [if_pos rfl, map_fileOn]
      · rw [about_ite, about_addressed hstate htarget]
        cases hresult : (message.op.fileOn (desk.datachangesFor p) now).2 with
        | ok _ => exact if_pos rfl
        | error error =>
          rw [editOf_of_error hresult]
          exact ite_self _
    · refine ⟨Edit.idle, Or.inl rfl, ?_, ?_⟩
      · rw [if_neg hp, Edit.apply_idle]
      · rw [about_ite, Message.about_addressed_of_ne htarget hp, ite_self]
        rfl
  · rw [heq, DeliveryDesk.isFiled_of_ne hanswer]
    exact ⟨Edit.idle, Or.inl rfl, (Edit.apply_idle _).symm, rfl⟩

/-- What a capture does to the queue of a page's row: nothing, or it appends its change. -/
def CapturedBy [PyValue V] (event : BagEvent V) (written arrived : Instant)
    (edit : Edit (Change V)) : Prop :=
  edit = Edit.idle ∨
    edit = ⟨fun _ => false, some ((PageRow.serverChange event written).arriving arrived)⟩

/-- A capture appends to the queue of its page's row, and what it adds is accepted. -/
theorem edited_capture [PyValue V] (worker : Worker V B) (q : PageId) (event : BagEvent V)
    (written arrived : Instant) (p : PageId) : ∃ edit, CapturedBy event written arrived edit ∧
      (worker.capture q event written arrived).rowQueue p = edit.apply (worker.rowQueue p) ∧
      about p (if worker.captures q event then
        [(q, (PageRow.serverChange event written).arriving arrived)] else []) =
          edit.entry.toList := by
  rw [worker.rowQueue_capture q event written arrived p, about_ite, about_singleton]
  by_cases hq : worker.captures q event = true ∧ q = p
  · obtain ⟨hcaptures, rfl⟩ := hq
    refine ⟨⟨fun _ => false, _⟩, Or.inr rfl, ?_, ?_⟩
    · simp [Edit.apply, hcaptures]
    · simp [hcaptures]
  · have hnone : (if worker.captures q event = true then
        if q = p then [(PageRow.serverChange event written).arriving arrived] else []
      else []) = [] := by
      split_ifs with hcaptures hp
      · exact absurd ⟨hcaptures, hp⟩ hq
      · rfl
      · rfl
    refine ⟨Edit.idle, Or.inl rfl, ?_, hnone⟩
    rw [hnone, List.append_nil, Edit.apply_idle]

/-! ## The last word -/

/-- A message that, where it is addressed at a page, is a `set_datachange`, with `replace` or
without. -/
def SetsPage (p : PageId) (message : Message V) : Prop :=
  message.kind.isState = false → message.target = some p →
    ∃ change replace, message.op = .setDatachange change replace

/-- The actions of the writers, with `replace` or without, of the captures and of the collects. -/
def SetsAndCollects (p : PageId) : Act V → Prop
  | .write _ message _ => SetsPage p message
  | .foreign message => SetsPage p message
  | .serve .. => True
  | .capture .. => True
  | .lookup .. => True
  | .exchange .. => True
  | .refuse .. => True
  | .finish .. => True
  | _ => False

/-- The edit of a `set_datachange` takes out changes of its own key only. -/
theorem EditedBy.replaces {p : PageId} {message : Message V} {now : Instant}
    {edit : Edit (Change V)} (h : EditedBy p message now edit) (hsets : SetsPage p message) :
    edit.Replaces Change.key := by
  rcases h with rfl | ⟨hstate, htarget, rfl⟩
  · intro x hx
    cases hx
  · obtain ⟨change, replace, hop⟩ := hsets hstate htarget
    intro x hx
    cases change with
    | none =>
      rw [hop] at hx
      cases hx
    | some change =>
      rw [hop] at hx ⊢
      simp only [editOf, Bool.and_eq_true, decide_eq_true_eq] at hx
      exact ⟨_, rfl, hx.2⟩

/-- The edit of a capture takes nothing out. -/
theorem CapturedBy.replaces [PyValue V] {event : BagEvent V} {written arrived : Instant}
    {edit : Edit (Change V)} (h : CapturedBy event written arrived edit) :
    edit.Replaces Change.key := by
  intro x hx
  rcases h with rfl | rfl
  · cases hx
  · cases hx

/-- What holds of a registered page along the writes and the collects. -/
structure KeepsWord (p : PageId) (u : User) (s : State V B) : Prop where
  /-- The page keeps its owner. -/
  owner : s.worker.registry.pageUser p = some u
  /-- The writes on the lane are `set_datachange`s. -/
  lane : ∀ message ∈ s.lane, SetsPage p message
  /-- The collects of the page are its owner's. -/
  looked : ∀ collect ∈ s.looked, collect.page_id = p → collect.user = u
  /-- The replies for the page are its owner's, and what they bear is stamped. -/
  flying : ∀ flight ∈ s.replies, flight.collect.page_id = p → flight.collect.user = u ∧
    ∀ change ∈ flight.reply.datachanges, change.arrival_ts.isSome = true
  /-- What waits at the desk is stamped. -/
  stamped : ∀ change ∈ s.desk.datachangesFor p, change.arrival_ts.isSome = true
  /-- The places keep the last change of every key. -/
  kept : KeepsLatest Change.key (about p s.accepted) (s.places p).flatten

/-- A state with what the places of another one hold for all that has been accepted, and nothing on
the lane. -/
def State.recounted (s : State V B) (p : PageId) (places : List (List (Change V))) : State V B :=
  { s with
    lane := []
    accepted := places.flatten.map fun change => (p, change) }

/-- An exchange does not look at what has been accepted. -/
theorem exchange_recounted (s : State V B) (p : PageId) (places : List (List (Change V))) (k : ℕ)
    (clock : ℕ → Instant) :
    (s.recounted p places).exchange k clock =
      (s.exchange k clock).map fun s' => s'.recounted p places := by
  rw [State.exchange, State.exchange, Option.map_map]
  rfl

/-- Nor does a final critical section. -/
theorem finish_recounted [PyValue V] [LegacyBag B V] (s : State V B) (p : PageId)
    (places : List (List (Change V))) (k : ℕ) (clock : ℕ → PageId → Instant) :
    (s.recounted p places).finish k clock =
      (s.finish k clock).map fun s' => s'.recounted p places := by
  rw [State.finish, State.finish, Option.map_map]
  rfl

namespace KeepsWord

variable {p : PageId} {u : User} {s s' : State V B}

/-- The places balance what they hold. -/
theorem conserved (h : KeepsWord p u s) : Conserved p u (s.recounted p (s.places p)) where
  owner := h.owner
  lane := fun _ hm => absurd hm List.not_mem_nil
  looked := h.looked
  flying := h.flying
  stamped := h.stamped
  balance := by
    have hplaces := coe_flatten_places (s.recounted p (s.places p)) p
    rw [State.recounted, about_map_pair, if_pos rfl]
    exact hplaces

/-- An action that moves changes between the places, and neither accepts nor drops any. -/
theorem moved (h : KeepsWord p u s) (hs : Conserved p u (s'.recounted p (s.places p)))
    (hlane : s'.lane = s.lane) (haccepted : s'.accepted = s.accepted) : KeepsWord p u s' where
  owner := hs.owner
  lane := by
    rw [hlane]
    exact h.lane
  looked := hs.looked
  flying := hs.flying
  stamped := hs.stamped
  kept := by
    rw [haccepted]
    refine h.kept.perm ?_
    have hbalance := hs.balance
    rw [← coe_flatten_places, State.recounted, about_map_pair, if_pos rfl,
      Multiset.coe_eq_coe] at hbalance
    exact hbalance

/-- A verb called on the worker. -/
theorem write (h : KeepsWord p u s) (identity : User) {message : Message V} (now : Instant)
    (hsets : SetsPage p message) : KeepsWord p u (s.write identity message now) := by
  obtain ⟨edit, hedit, hrow, hadded⟩ := edited_row s.worker identity message now p
  exact {
    owner := by
      rw [← h.owner]
      exact s.worker.pageUser_routeDatachange identity message now p
    lane := by
      intro m hm
      rcases List.mem_append.1 hm with hold | hnew
      · exact h.lane m hold
      · rw [Worker.mem_call hnew]
        exact hsets
    looked := h.looked
    flying := h.flying
    stamped := h.stamped
    kept := by
      simp only [State.write, State.places, about_append, hadded, List.flatten_cons, hrow]
      exact h.kept.edit (hedit.replaces hsets) }

/-- The desk serves an addressed write. -/
theorem serve (h : KeepsWord p u s) {k : ℕ} {now : Instant} (hs : s.serve k now = some s') :
    KeepsWord p u s' := by
  obtain ⟨message, hk, rfl⟩ := Option.map_eq_some_iff.1 hs
  have hsets := h.lane message (List.mem_of_getElem? hk)
  obtain ⟨edit, hedit, hdesk, hadded⟩ := edited_desk s.desk s.population message now p
  exact {
    owner := h.owner
    lane := fun m hm => h.lane m (List.mem_of_mem_eraseIdx hm)
    looked := h.looked
    flying := h.flying
    stamped := s.desk.stamped_onDatachange s.population message now h.stamped
    kept := by
      -- The desk's queue is edited, wherever it stands among the places.
      have hfront : (s.places p).flatten.Perm (s.deskQueue p ++ (s.worker.rowQueue p ++
          (s.replies.map (Flight.bears p) ++ s.endings.map (Ending.brought p)).flatten)) := by
        rw [State.places, List.flatten_cons, List.flatten_cons, ← List.append_assoc,
          ← List.append_assoc]
        exact List.Perm.append_right _ List.perm_append_comm
      have hkept := (h.kept.perm hfront).edit (hedit.replaces hsets)
      simp only [about_append, hadded]
      refine hkept.perm ?_
      simp only [State.places, State.deskQueue, hdesk, List.flatten_cons]
      rw [← List.append_assoc, ← List.append_assoc]
      exact List.Perm.append_right _ List.perm_append_comm }

/-- The capture of a page's own store. -/
theorem capture [PyValue V] (h : KeepsWord p u s) (q : PageId) (event : BagEvent V)
    (written arrived : Instant) : KeepsWord p u (s.capture q event written arrived) := by
  obtain ⟨edit, hedit, hrow, hadded⟩ := edited_capture s.worker q event written arrived p
  exact {
    owner := by
      rw [← h.owner]
      exact s.worker.pageUser_capture q event written arrived p
    lane := h.lane
    looked := h.looked
    flying := h.flying
    stamped := h.stamped
    kept := by
      simp only [State.capture, State.places, about_append, hadded, List.flatten_cons, hrow]
      exact h.kept.edit hedit.replaces }

/-- The desk serves an exchange. -/
theorem exchange (h : KeepsWord p u s) {k : ℕ} {clock : ℕ → Instant}
    (hs : s.exchange k clock = some s') : KeepsWord p u s' := by
  have hsame := exchange_recounted s p (s.places p) k clock
  rw [hs, Option.map_some] at hsame
  have hmoved := h.conserved.exchange hsame
  obtain ⟨collect, _, rfl⟩ := Option.map_eq_some_iff.1 hs
  exact h.moved hmoved rfl rfl

/-- The final critical section of a collect. -/
theorem finish [PyValue V] [LegacyBag B V] (h : KeepsWord p u s) {k : ℕ}
    {clock : ℕ → PageId → Instant} (hs : s.finish k clock = some s') : KeepsWord p u s' := by
  have hsame := finish_recounted s p (s.places p) k clock
  rw [hs, Option.map_some] at hsame
  have hmoved := h.conserved.finish hsame
  obtain ⟨flight, _, rfl⟩ := Option.map_eq_some_iff.1 hs
  exact h.moved hmoved rfl rfl

/-- One action of the writers, the captures and the collects. -/
theorem step [PyValue V] [LegacyBag B V] {core : CoreRegister V} (h : KeepsWord p u s) {a : Act V}
    (ha : SetsAndCollects p a) (hs : step core s a = some s') : KeepsWord p u s' := by
  cases a with
  | write identity message now =>
    cases hs
    exact h.write identity now ha
  | foreign message =>
    cases hs
    refine { h with lane := ?_ }
    intro m hm
    rcases List.mem_append.1 hm with hold | hnew
    · exact h.lane m hold
    · rw [List.mem_singleton] at hnew
      rw [hnew]
      exact ha
  | serve k now => exact h.serve hs
  | capture q event written arrived =>
    cases hs
    exact h.capture q event written arrived
  | lookup q slot =>
    cases hs
    -- The owner that the lookup reads is the page's.
    exact h.moved (h.conserved.lookup q slot) rfl rfl
  | exchange k clock => exact h.exchange hs
  | refuse k =>
    obtain ⟨collect, _, rfl⟩ := Option.map_eq_some_iff.1 hs
    exact { h with looked := fun c hc => h.looked c (List.mem_of_mem_eraseIdx hc) }
  | finish k clock => exact h.finish hs
  | _ => exact ha.elim

end KeepsWord

/-- Before the first action nothing has been accepted for a page with nothing waiting. -/
theorem keepsWord_start (worker : Worker V B) (desk : DeliveryDesk V) (population : Population)
    (clock : Instant) {p : PageId} {u : User} (howner : worker.registry.pageUser p = some u)
    (hrow : worker.rowQueue p = []) (hdesk : desk.datachangesFor p = []) :
    KeepsWord p u (start worker desk population clock) := by
  have hconserved := conserved_start worker desk population clock howner hrow hdesk
  exact {
    owner := hconserved.owner
    lane := fun m hm => absurd hm List.not_mem_nil
    looked := hconserved.looked
    flying := hconserved.flying
    stamped := hconserved.stamped
    kept := by
      simp only [start, State.places, State.deskQueue, hrow, hdesk, about_nil]
      exact KeepsLatest.nil }

/-- The last word is kept. Take a page with an owner and nothing waiting for it. Along every run of
`set_datachange`s to the page, on either road and with `replace` or without, of captures and of
collects, overlapping as they may: the places hold nothing but what was accepted, each change as
often as it was; and the change accepted last under a key is in one of them, so that, the accepted
changes being told apart, it is in exactly one. -/
theorem last_word_kept [PyValue V] [LegacyBag B V] (core : CoreRegister V) (worker : Worker V B)
    (desk : DeliveryDesk V) (population : Population) (clock : Instant) (p : PageId) (u : User)
    (howner : worker.registry.pageUser p = some u) (hrow : worker.rowQueue p = [])
    (hdesk : desk.datachangesFor p = []) (acts : List (Act V))
    (hacts : ∀ a ∈ acts, SetsAndCollects p a) (s : State V B)
    (hrun : run (step core) (start worker desk population clock) acts = some s) :
    (s.places p).flatten.Subperm (about p s.accepted) ∧
      ∀ key change, latest Change.key key (about p s.accepted) = some change →
        change ∈ (s.places p).flatten ∧
          ((about p s.accepted).Nodup →
            ∃! n : ℕ, ∃ place, (s.places p)[n]? = some place ∧ change ∈ place) := by
  have hstep : ∀ (s : State V B) a s', KeepsWord p u s → SetsAndCollects p a →
      Delivery.step core s a = some s' → KeepsWord p u s' := fun _ _ _ h ha hs => h.step ha hs
  have hkept := (run_invariant hstep (keepsWord_start worker desk population clock howner hrow
    hdesk) (Meets.of_forall hacts) hrun).kept
  refine ⟨hkept.subperm, ?_⟩
  intro key change hlatest
  have hmem := hkept.latest key change hlatest
  refine ⟨hmem, ?_⟩
  intro hnodup
  obtain ⟨kept, hperm, hsub⟩ := hkept.subperm
  exact existsUnique_of_nodup_flatten (hperm.nodup_iff.1 (hsub.nodup hnodup)) hmem

/-- A write with `replace` addressed at a page. -/
def Sample.replacing (target : String) (path : String) (value : ℤ) : Message Sample.Value :=
  ⟨.setDatachange (some (Sample.change path value)) true, .page, some target, none⟩

/-- A value written over twice while the reply that bears the first one is in flight. -/
def writtenOver : List (Act Sample.Value) :=
  [.foreign (Sample.replacing "p" "a" 1), .serve 0 1, .lookup "p" Sample.slot,
    .exchange 0 fun _ => 2, .write "u" (Sample.replacing "p" "a" 2) 3,
    .write "u" (Sample.replacing "p" "a" 3) 4]

/-- The second value is gone, and the last one waits on the row. -/
theorem last_word_kept_written_over :
    ∃ s : State Sample.Value Sample.FlatBag,
      run (step Sample.core) (Sample.start ["p"]) writtenOver = some s ∧
        s.places "p" =
          [[(Sample.change "a" 3).arriving 4], [], [(Sample.change "a" 1).arriving 1]] ∧
        (s.places "p").flatten.Subperm (about "p" s.accepted) := by
  have hplaces : (run (step Sample.core) (Sample.start ["p"]) writtenOver).map
      (fun s => s.places "p") =
        some [[(Sample.change "a" 3).arriving 4], [], [(Sample.change "a" 1).arriving 1]] := rfl
  obtain ⟨s, hs, hs'⟩ := Option.map_eq_some_iff.1 hplaces
  refine ⟨s, hs, hs', ?_⟩
  refine (last_word_kept Sample.core _ _ _ _ "p" "u" rfl rfl rfl writtenOver ?_ s hs).1
  intro a ha
  simp only [writtenOver, List.mem_cons, List.not_mem_nil, or_false] at ha
  rcases ha with rfl | rfl | rfl | rfl | rfl | rfl
  · exact fun _ _ => ⟨_, _, rfl⟩
  · trivial
  · trivial
  · trivial
  · exact fun _ _ => ⟨_, _, rfl⟩
  · exact fun _ _ => ⟨_, _, rfl⟩

/-! ## A key that is only written over -/

/-- A message that writes a key of a page with `replace` only. -/
def WritesOver (p : PageId) (key : ChangeKey) (message : Message V) : Prop :=
  message.kind.isState = false → message.target = some p →
    ∀ change replace, message.op = .setDatachange (some change) replace → change.key = key →
      replace = true

/-- The actions: whatever writes a key of a page does so with `replace`. -/
def KeyWrittenOver (p : PageId) (key : ChangeKey) : Act V → Prop
  | .write _ message _ => WritesOver p key message
  | .foreign message => WritesOver p key message
  | _ => True

/-- A key of a page is pending once at most on the row, at the desk and in each reply, and has been
brought twice at most by each collect, once by each road. -/
structure OnceEach (p : PageId) (key : ChangeKey) (s : State V B) : Prop where
  /-- On the row. -/
  row : countOf Change.key key (s.worker.rowQueue p) ≤ 1
  /-- At the desk. -/
  desk : countOf Change.key key (s.deskQueue p) ≤ 1
  /-- In a reply. -/
  flying : ∀ flight ∈ s.replies, countOf Change.key key (flight.bears p) ≤ 1
  /-- In an answer. -/
  answered : ∀ ending ∈ s.endings, countOf Change.key key (ending.brought p) ≤ 2

/-- What holds along every run in which the key is only written over. -/
structure Coalesced (p : PageId) (key : ChangeKey) (s : State V B) : Prop
    extends OnceEach p key s where
  /-- The writes on the lane write the key over. -/
  lane : ∀ message ∈ s.lane, WritesOver p key message
  /-- What waits at the desk is stamped. -/
  stamped : ∀ change ∈ s.desk.datachangesFor p, change.arrival_ts.isSome = true
  /-- What the replies for the page bear is stamped. -/
  borne : ∀ flight ∈ s.replies, flight.collect.page_id = p →
    ∀ change ∈ flight.reply.datachanges, change.arrival_ts.isSome = true

/-- A registry after which no row has another queue than before. -/
def SparesQueues (registry registry' : Registry V) : Prop :=
  ∀ p row', registry'.page_register.get p = some row' →
    ∃ row, registry.page_register.get p = some row ∧ row'.datachanges = row.datachanges

/-- What the queues need of the core: its drops take rows away and its re-labelling moves them, and
neither touches the queue of a row that stays. -/
structure CoreSparesQueues (core : CoreRegister V) : Prop where
  /-- The cascading drop. -/
  dropPage : ∀ registry p, SparesQueues registry (core.dropPage registry p)
  /-- The drop of a page alone. -/
  dropPageAlone : ∀ registry p, SparesQueues registry (core.dropPageAlone registry p)
  /-- The drop of a connection. -/
  dropConnection : ∀ registry cid, SparesQueues registry (core.dropConnection registry cid)
  /-- The re-labelling. -/
  changeConnectionUser : ∀ registry cid user,
    SparesQueues registry (core.changeConnectionUser registry cid user)

/-- The edit of a message that writes the key over. -/
theorem EditedBy.coalesces {p : PageId} {key : ChangeKey} {message : Message V} {now : Instant}
    {edit : Edit (Change V)} (h : EditedBy p message now edit) (hover : WritesOver p key message) :
    edit.Coalesces Change.key key := by
  rcases h with rfl | ⟨hstate, htarget, rfl⟩
  · intro entry hentry
    cases hentry
  · intro entry hentry hkey x hx
    cases hop : message.op with
    | resetDatachanges => rfl
    | dropDatachanges path =>
      rw [hop] at hentry
      cases hentry
    | setDatachange change replace =>
      rw [hop] at hentry
      cases change with
      | none => cases hentry
      | some change =>
        cases hentry
        have hreplace := hover hstate htarget change replace hop hkey
        rw [hreplace]
        exact decide_eq_true (hx.trans hkey.symm)

/-- A capture writes no key but those of a `serverChange`. -/
theorem CapturedBy.coalesces [PyValue V] {event : BagEvent V} {written arrived : Instant}
    {edit : Edit (Change V)} {key : ChangeKey} (h : CapturedBy event written arrived edit)
    (hkey : key.reason ≠ some "serverChange") : edit.Coalesces Change.key key := by
  intro entry hentry hsame
  rcases h with rfl | rfl
  · cases hentry
  · cases hentry
    exact absurd (congrArg ChangeKey.reason hsame).symm hkey

namespace Coalesced

variable {p : PageId} {key : ChangeKey} {s s' : State V B}

/-- A verb called on the worker. -/
theorem write (h : Coalesced p key s) (identity : User) {message : Message V} (now : Instant)
    (hover : WritesOver p key message) : Coalesced p key (s.write identity message now) := by
  obtain ⟨edit, hedit, hrow, _⟩ := edited_row s.worker identity message now p
  exact { h with
    row := by
      simp only [State.write, hrow]
      exact countOf_apply_le (hedit.coalesces hover) h.row
    lane := by
      intro m hm
      rcases List.mem_append.1 hm with hold | hnew
      · exact h.lane m hold
      · rw [Worker.mem_call hnew]
        exact hover }

/-- The desk serves an addressed write. -/
theorem serve (h : Coalesced p key s) {k : ℕ} {now : Instant} (hs : s.serve k now = some s') :
    Coalesced p key s' := by
  obtain ⟨message, hk, rfl⟩ := Option.map_eq_some_iff.1 hs
  have hover := h.lane message (List.mem_of_getElem? hk)
  obtain ⟨edit, hedit, hdesk, _⟩ := edited_desk s.desk s.population message now p
  exact { h with
    desk := by
      simp only [State.deskQueue, hdesk]
      exact countOf_apply_le (hedit.coalesces hover) h.desk
    lane := fun m hm => h.lane m (List.mem_of_mem_eraseIdx hm)
    stamped := s.desk.stamped_onDatachange s.population message now h.stamped }

/-- The capture of a page's own store. -/
theorem capture [PyValue V] (h : Coalesced p key s) (hkey : key.reason ≠ some "serverChange")
    (q : PageId) (event : BagEvent V) (written arrived : Instant) :
    Coalesced p key (s.capture q event written arrived) := by
  obtain ⟨edit, hedit, hrow, _⟩ := edited_capture s.worker q event written arrived p
  exact { h with
    row := by
      simp only [State.capture, hrow]
      exact countOf_apply_le (hedit.coalesces hkey) h.row }

/-- The desk serves an exchange: a queue that held the key once is a reply that does. -/
theorem exchange (h : Coalesced p key s) {k : ℕ} {clock : ℕ → Instant}
    (hs : s.exchange k clock = some s') : Coalesced p key s' := by
  obtain ⟨collect, hk, rfl⟩ := Option.map_eq_some_iff.1 hs
  exact { h with
    desk := by
      simp only [State.deskQueue]
      rw [DeliveryDesk.datachangesFor_exchange]
      split_ifs
      · simp [countOf]
      · exact h.desk
    flying := by
      intro flight hflight
      rcases List.mem_append.1 hflight with hold | hnew
      · exact h.flying flight hold
      · rw [List.mem_singleton] at hnew
        subst hnew
        rw [DeliveryDesk.exchange_reply, Flight.bears]
        split_ifs with hp
        · have hp : collect.page_id = p := hp
          have hdesk := h.desk
          rw [State.deskQueue, ← hp] at hdesk
          exact hdesk
        · simp [countOf]
    stamped := by
      intro change hchange
      rw [DeliveryDesk.datachangesFor_exchange] at hchange
      split_ifs at hchange
      · cases hchange
      · exact h.stamped change hchange
    borne := by
      intro flight hflight hp
      rcases List.mem_append.1 hflight with hold | hnew
      · exact h.borne flight hold hp
      · rw [List.mem_singleton] at hnew
        subst hnew
        have hp : collect.page_id = p := hp
        rw [DeliveryDesk.exchange_reply]
        intro change hchange
        exact h.stamped change (hp ▸ hchange) }

/-- What a final critical section brings of a key, from the row and from the reply. -/
theorem countOf_brought [PyValue V] [LegacyBag B V] (h : Coalesced p key s) {flight : Flight V}
    (hflight : flight ∈ s.replies) (clock : ℕ → PageId → Instant) :
    countOf Change.key key ((flight.ending s.worker clock).brought p) ≤ 2 := by
  have hbears := h.flying flight hflight
  have hborne := h.borne flight hflight
  unfold Ending.brought
  split_ifs with hp
  · have hp : flight.collect.page_id = p := hp
    rw [Flight.bears, if_pos hp] at hbears
    simp only [Flight.ending, Flight.finished]
    rcases s.worker.collectFinish_cases flight.collect.page_id flight.collect.user flight.reply
        flight.collect.slot.own_dbevents clock with
      ⟨_, heq⟩ | ⟨_, _, heq⟩ | ⟨row, user_item, hrow, _, page, _, hchanges, heq⟩
    · rw [heq]
      simp [countOf]
    · rw [heq]
      simp [countOf]
    · rw [heq]
      dsimp only
      -- A merge has the entries of its two inputs.
      have hrowCount := h.row
      rw [← hp, Worker.rowQueue_of_get hrow, PageRow.queue] at hrowCount
      rw [Worker.arrived_mergedDatachanges page flight.reply.datachanges (hborne hp), hchanges,
        countOf_perm ((mergeOn_perm _ _ _).map Change.unnumbered), List.map_append,
        countOf_append]
      omega
  · simp [countOf]

/-- The final critical section of a collect. -/
theorem finish [PyValue V] [LegacyBag B V] (h : Coalesced p key s) {k : ℕ}
    {clock : ℕ → PageId → Instant} (hs : s.finish k clock = some s') : Coalesced p key s' := by
  obtain ⟨flight, hk, rfl⟩ := Option.map_eq_some_iff.1 hs
  have hmem := List.mem_of_getElem? hk
  exact { h with
    row := by
      simp only [Flight.finished]
      rcases s.worker.collectFinish_cases flight.collect.page_id flight.collect.user flight.reply
          flight.collect.slot.own_dbevents clock with
        ⟨_, heq⟩ | ⟨_, _, heq⟩ | ⟨row, user_item, _, _, page, _, _, heq⟩
      · rw [heq]
        exact h.row
      · rw [heq]
        exact h.row
      · rw [heq, Worker.rowQueue_setPage, Worker.rowQueue_applyStoreChanges]
        split_ifs
        · simp [countOf, PageRow.queue, PageRow.drained]
        · exact h.row
    flying := fun f hf => h.flying f (List.mem_of_mem_eraseIdx hf)
    answered := by
      intro ending hending
      rcases List.mem_append.1 hending with hold | hnew
      · exact h.answered ending hold
      · rw [List.mem_singleton] at hnew
        rw [hnew]
        exact h.countOf_brought hmem clock
    borne := fun f hf => h.borne f (List.mem_of_mem_eraseIdx hf) }

/-- Another request moves the registry. -/
theorem withRegistry (h : Coalesced p key s) {registry : Registry V}
    (hspares : SparesQueues s.worker.registry registry) :
    Coalesced p key (s.withRegistry registry) := by
  have hrow : countOf Change.key key ((s.withRegistry registry).worker.rowQueue p) ≤
      countOf Change.key key (s.worker.rowQueue p) := by
    simp only [State.withRegistry, Worker.rowQueue]
    cases hget : registry.page_register.get p with
    | none => simp [countOf]
    | some row' =>
      obtain ⟨row, hrow, hsame⟩ := hspares p row' hget
      simp only [hrow, PageRow.queue, hsame]
      exact le_refl _
  exact { h with row := le_trans hrow h.row }

end Coalesced

/-- A drop of the bridge spares the queues as the core's do. -/
theorem sparesQueues_dropPage {core : CoreRegister V} (hcore : CoreSparesQueues core)
    (registry : Registry V) (page_id : PageId) (cascade : Bool) :
    SparesQueues registry (registry.dropPage core page_id cascade) := by
  unfold Registry.dropPage
  split
  · exact fun _ row' hrow' => ⟨row', hrow', rfl⟩
  · split_ifs
    · exact hcore.dropPage registry page_id
    · exact hcore.dropPageAlone registry page_id

/-- A login of the bridge does, though it moves the views. -/
theorem sparesQueues_changeConnectionUser {core : CoreRegister V} (hcore : CoreSparesQueues core)
    (registry : Registry V) (connection_id : ConnectionId) (user : User) :
    SparesQueues registry (registry.changeConnectionUser core connection_id user) := by
  have hrelabelled := hcore.changeConnectionUser registry connection_id user
  unfold Registry.changeConnectionUser
  dsimp only
  split
  · intro p row' hrow'
    rw [Registry.mapPages, Dict.get_mapVals] at hrow'
    obtain ⟨row, hrow, rfl⟩ := Option.map_eq_some_iff.1 hrow'
    obtain ⟨old, hold, hsame⟩ := hrelabelled p row hrow
    refine ⟨old, hold, ?_⟩
    split_ifs
    · exact hsame
    · exact hsame
  · exact hrelabelled

/-- Every action that writes the key over, if it writes it. -/
theorem Coalesced.step [PyValue V] [LegacyBag B V] {core : CoreRegister V} {p : PageId}
    {key : ChangeKey} {s s' : State V B} (hcore : CoreSparesQueues core)
    (hkey : key.reason ≠ some "serverChange") (h : Coalesced p key s) {a : Act V}
    (ha : KeyWrittenOver p key a) (hs : step core s a = some s') : Coalesced p key s' := by
  cases a with
  | write identity message now =>
    cases hs
    exact h.write identity now ha
  | foreign message =>
    cases hs
    refine { h with lane := ?_ }
    intro m hm
    rcases List.mem_append.1 hm with hold | hnew
    · exact h.lane m hold
    · rw [List.mem_singleton] at hnew
      rw [hnew]
      exact ha
  | serve k now => exact h.serve hs
  | capture q event written arrived =>
    cases hs
    exact h.capture hkey q event written arrived
  | lookup q slot =>
    cases hs
    exact { h with }
  | exchange k clock => exact h.exchange hs
  | refuse k =>
    obtain ⟨collect, _, rfl⟩ := Option.map_eq_some_iff.1 hs
    exact { h with }
  | finish k clock => exact h.finish hs
  | dropPage page_id cascade =>
    cases hs
    exact h.withRegistry (sparesQueues_dropPage hcore _ page_id cascade)
  | dropConnection connection_id =>
    cases hs
    exact h.withRegistry (hcore.dropConnection _ connection_id)
  | login connection_id user =>
    cases hs
    exact h.withRegistry (sparesQueues_changeConnectionUser hcore _ connection_id user)
  | populate population =>
    cases hs
    exact { h with }
  | vertexDropPage page_id population =>
    cases hs
    refine { h with desk := ?_, stamped := ?_ }
    · simp only [State.deskQueue, DeliveryDesk.datachangesFor, DeliveryDesk.dropPage,
        Dict.get_pop]
      split_ifs
      · simp [countOf]
      · exact h.desk
    · intro change hchange
      simp only [DeliveryDesk.datachangesFor, DeliveryDesk.dropPage, Dict.get_pop] at hchange
      split_ifs at hchange
      · cases hchange
      · exact h.stamped change hchange
  | vertexDropUser user population =>
    cases hs
    exact { h with }

/-- A key that is only written over. Where nothing of a page is pending, along every run in which
whatever writes the key addresses the page with `replace`, be it on either road, and whatever else
is written, reset, dropped, collected, demolished and re-labelled in between: the key is pending
once at most on the row, at the desk and in each reply, and no collect has brought it more than
twice. -/
theorem replaced_key_once [PyValue V] [LegacyBag B V] {core : CoreRegister V}
    (hcore : CoreSparesQueues core) (worker : Worker V B) (desk : DeliveryDesk V)
    (population : Population) (clock : Instant) (p : PageId) (key : ChangeKey)
    (hkey : key.reason ≠ some "serverChange") (hrow : worker.rowQueue p = [])
    (hdesk : desk.datachangesFor p = []) (acts : List (Act V))
    (hacts : ∀ a ∈ acts, KeyWrittenOver p key a) (s : State V B)
    (hrun : run (step core) (start worker desk population clock) acts = some s) :
    OnceEach p key s := by
  have hstart : Coalesced p key (start worker desk population clock : State V B) := {
    row := by
      rw [start, hrow]
      exact Nat.zero_le 1
    desk := by
      rw [start, State.deskQueue, hdesk]
      exact Nat.zero_le 1
    flying := fun f hf => absurd hf List.not_mem_nil
    answered := fun e he => absurd he List.not_mem_nil
    lane := fun m hm => absurd hm List.not_mem_nil
    stamped := by
      rw [start, hdesk]
      exact fun c hc => absurd hc List.not_mem_nil
    borne := fun f hf => absurd hf List.not_mem_nil }
  have hstep : ∀ (s : State V B) a s', Coalesced p key s → KeyWrittenOver p key a →
      step core s a = some s' → Coalesced p key s' := fun _ _ _ h ha hs =>
    h.step hcore hkey ha hs
  exact (run_invariant hstep hstart (Meets.of_forall hacts) hrun).toOnceEach

/-- The sample core spares the queues. -/
theorem Sample.core_sparesQueues : CoreSparesQueues Sample.core := by
  have htake : ∀ registry p, SparesQueues registry (Sample.takePage registry p) := by
    intro registry p q row' hrow'
    simp only [Sample.takePage, Dict.get_pop] at hrow'
    split_ifs at hrow'
    exact ⟨row', hrow', rfl⟩
  exact {
    dropPage := htake
    dropPageAlone := htake
    dropConnection := by
      intro registry cid q row' hrow'
      simp only [Sample.core, Dict.get_foldl_pop] at hrow'
      split_ifs at hrow'
      exact ⟨row', hrow', rfl⟩
    changeConnectionUser := by
      intro registry cid user q row' hrow'
      refine ⟨row', ?_, rfl⟩
      simp only [Sample.core] at hrow'
      split at hrow'
      · exact hrow'
      · split_ifs at hrow'
        · exact hrow'
        · exact hrow' }

/-- The bound is reached: the collect of the values written over brings one by each road. -/
theorem replaced_key_once_each_road :
    ∃ s : State Sample.Value Sample.FlatBag,
      run (step Sample.core) (Sample.start ["p"]) (writtenOver ++ [.finish 0 fun _ _ => 5]) =
          some s ∧
        s.endings.map (fun ending => countOf Change.key (Sample.change "a" 1).key
          (ending.brought "p")) = [2] ∧
        OnceEach "p" (Sample.change "a" 1).key s := by
  have hcounts : (run (step Sample.core) (Sample.start ["p"])
      (writtenOver ++ [.finish 0 fun _ _ => 5])).map (fun s => s.endings.map fun ending =>
        countOf Change.key (Sample.change "a" 1).key (ending.brought "p")) = some [2] := rfl
  obtain ⟨s, hs, hs'⟩ := Option.map_eq_some_iff.1 hcounts
  refine ⟨s, hs, hs', ?_⟩
  refine replaced_key_once Sample.core_sparesQueues _ _ _ _ "p" (Sample.change "a" 1).key
    (by decide) rfl rfl _ ?_ s hs
  have hover : ∀ value, WritesOver "p" (Sample.change "a" 1).key
      (Sample.replacing "p" "a" value) := by
    intro value _ _ change replace hop _
    cases hop
    rfl
  intro a ha
  simp only [writtenOver, List.cons_append, List.nil_append, List.mem_cons, List.not_mem_nil,
    or_false] at ha
  rcases ha with rfl | rfl | rfl | rfl | rfl | rfl | rfl
  · exact hover 1
  · trivial
  · trivial
  · trivial
  · exact hover 2
  · exact hover 3
  · trivial

end GenropyAsgi.Delivery

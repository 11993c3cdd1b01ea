import GenropyAsgi.Benchmarks.Counters

/-!
# The windows of the load engine

A window closes once the driver has seen every inbox empty, one after another; the driver alone puts
tasks, so that an inbox that it has seen empty stays so, and the calls that it takes are those of
the rows that it offered. Whatever the order in which the driver, the threads of the users, the
pacers and the sampler come in, the counters account for every request (`accounts_hold`), every
window that closes tells the calls of its rows (`windows_tell_calls`), and the calls of a user go
out in the order in which they were offered (`calls_in_offer_order`).
-/

namespace GenropyAsgi.Benchmarks.LoadEngine

open Library

/-! ## The windows -/

/-- A figure of the windows whose phase passes a test, added up. -/
def sumOn (p : String → Bool) (f : WindowRecord → ℕ) (windows : List WindowRecord) : ℕ :=
  ((windows.filter fun w => p w.phase).map f).sum

/-- One more window. -/
theorem sumOn_concat (p : String → Bool) (f : WindowRecord → ℕ) (windows : List WindowRecord)
    (w : WindowRecord) :
    sumOn p f (windows ++ [w]) = sumOn p f windows + if p w.phase then f w else 0 := by
  unfold sumOn
  rw [List.filter_append, List.map_append, List.sum_append]
  cases hp : p w.phase <;> simp [hp]

/-- A figure of all the windows. -/
theorem sumOn_true (f : WindowRecord → ℕ) (windows : List WindowRecord) :
    sumOn (fun _ => true) f windows = (windows.map f).sum := by
  unfold sumOn
  rw [List.filter_true]

/-- A figure that is nowhere greater has the same sum exactly when it is the same everywhere. -/
theorem sumOn_eq_iff (p : String → Bool) {f g : WindowRecord → ℕ} {windows : List WindowRecord}
    (h : ∀ w ∈ windows, f w ≤ g w) :
    sumOn p f windows ≤ sumOn p g windows ∧
      (sumOn p f windows = sumOn p g windows ↔ ∀ w ∈ windows, p w.phase = true → f w = g w) := by
  induction windows with
  | nil => exact ⟨le_rfl, iff_of_true rfl nofun⟩
  | cons w windows ih =>
    obtain ⟨hw, hwindows⟩ := List.forall_mem_cons.1 h
    obtain ⟨hle, hiff⟩ := ih hwindows
    rw [List.forall_mem_cons, ← hiff]
    unfold sumOn at hle ⊢
    cases hp : p w.phase with
    | true =>
      rw [List.filter_cons_of_pos (by rw [hp]), List.map_cons, List.map_cons, List.sum_cons,
        List.sum_cons]
      refine ⟨Nat.add_le_add hw hle, fun heq => ?_, fun heq => ?_⟩
      · exact ⟨fun _ => by omega, by omega⟩
      · rw [heq.1 rfl, heq.2]
    | false =>
      rw [List.filter_cons_of_neg (by rw [hp]; nofun)]
      exact ⟨hle, fun heq => ⟨nofun, heq⟩, fun heq => heq.2⟩

/-- The errors of a kind in a window. -/
def WindowRecord.errors (w : WindowRecord) : ErrorKind → ℕ
  | .transport => w.errors_transport
  | .app => w.errors_app
  | .http => w.errors_http

namespace Driver

/-- The phases go on. -/
def InPlay : Driver → Prop
  | .raised _ => False
  | .stopping .. => False
  | _ => True

/-- The window of the phase that is played. -/
def window? : Driver → Option Window
  | .offering w _ => some w
  | .pacing w _ _ => some w
  | .putting w _ _ => some w
  | .draining w _ => some w
  | .waiting w => some w
  | .closing w => some w
  | .reporting w _ _ => some w
  | _ => none

/-- The rows offered of the phase that is played, if it passes a test. -/
def offeredOn (p : String → Bool) (driver : Driver) : ℕ :=
  match driver.window? with
  | some w => if p w.phase then w.offered else 0
  | none => 0

/-- The phase whose tasks may be under way. -/
def busy? : Driver → Option String
  | .reporting .. => none
  | driver => driver.window?.map Window.phase

/-- The rows to come. -/
def rest : Driver → ℕ
  | .offering _ rest => rest.length
  | .pacing _ _ rest => rest.length + 1
  | .putting _ _ rest => rest.length + 1
  | _ => 0

/-- The rows of the phase are offered, withheld or to come, unless a stop was asked for. -/
def RowsFit (stopped : Bool) (driver : Driver) : Prop :=
  ∀ w, driver.window? = some w →
    w.offered + w.withheld + driver.rest ≤ w.rows.length ∧
      (w.offered + w.withheld + driver.rest = w.rows.length ∨ stopped = true)

/-- The calls taken for the record of a window. -/
def taken : Driver → List CallRow
  | .reporting _ calls _ => calls
  | _ => []

/-- How many of the inboxes have been seen to be empty since the last row was put. -/
def quiet : Driver → ℕ → ℕ
  | .idle, size => size
  | .closing _, size => size
  | .reporting .., size => size
  | .draining _ (some sum), _ => if sum.total = 0 then sum.read else 0
  | _, _ => 0

/-- What was seen to be empty does not change with the size. -/
theorem take_quiet_succ {α : Type} (driver : Driver) (items : List α) :
    items.take (driver.quiet (items.length + 1)) = items.take (driver.quiet items.length) := by
  have hall : items.take (items.length + 1) = items.take items.length := by
    rw [List.take_length, List.take_of_length_le (Nat.le_succ _)]
  unfold quiet
  split
  · exact hall
  · exact hall
  · exact hall
  · rfl
  · rfl

end Driver

/-- What holds of a closed window. -/
structure Told (w : WindowRecord) : Prop where
  /-- Nothing was pending. -/
  pending : w.pending_at_end = 0
  /-- No more calls than rows offered. -/
  completed : w.completed ≤ w.offered
  /-- No more rows offered and withheld than declared. -/
  declared : w.offered + w.withheld ≤ w.offered_declared
  /-- A response, or an error of the transport. -/
  responses : w.responses_received + w.errors_transport = w.completed
  /-- The kinds of error are kept apart. -/
  errors : w.errors_transport + w.errors_app + w.errors_http ≤ w.completed
  /-- Whether it was truncated. -/
  truncated : w.truncated_by_stop = true ↔ w.offered < w.offered_declared

/-- The errors that the record counts are those that the counters count. -/
theorem errors_closeWindow (w : Window) {calls : List CallRow} (pending : ℕ)
    (hclassified : ∀ c ∈ calls, c.Classified) (kind : ErrorKind) :
    (closeWindow w calls pending).errors kind = calls.countP fun c => c.error = some kind := by
  cases kind with
  | transport =>
    refine List.countP_congr fun c _ => ?_
    unfold CallRow.error
    split_ifs <;> simp [*]
  | app =>
    refine List.countP_congr fun c hc => ?_
    have hone := hclassified c hc
    unfold CallRow.Classified at hone
    unfold CallRow.error
    split_ifs with htransport <;> simp_all
  | http =>
    refine List.countP_congr fun c _ => ?_
    unfold CallRow.error
    split_ifs <;> simp_all

/-- A call counts as one error at most. -/
theorem countP_errors_le (calls : List CallRow) :
    (calls.countP fun c => c.error = some .transport) +
        (calls.countP fun c => c.error = some .app) +
      (calls.countP fun c => c.error = some .http) ≤ calls.length := by
  induction calls with
  | nil => exact le_rfl
  | cons c calls ih =>
    simp only [List.countP_cons, List.length_cons, decide_eq_true_eq]
    cases c.error with
    | none => simp only [reduceCtorEq, if_false]; omega
    | some kind => cases kind <;> simp <;> omega

/-- What holds while the phases go on. -/
structure InPlay (e : Engine) : Prop where
  /-- The rows of the phase are accounted for. -/
  rows : e.driver.RowsFit e.stopped
  /-- The tasks put are those of the windows. -/
  offered : ∀ p : String → Bool,
    sumOn p WindowRecord.offered e.windows + e.driver.offeredOn p =
      e.runners.tally fun r => r.tasks.countP fun task => p task.phase
  /-- The calls recorded are those of the windows. -/
  completed : ∀ p : String → Bool,
    sumOn p WindowRecord.completed e.windows +
        (e.window_calls ++ e.driver.taken).countP (fun c => p c.phase) =
      e.runners.tally fun r => r.recorded.countP fun c => p c.phase
  /-- What the windows miss is lost. -/
  missed : ∀ p : String → Bool,
    sumOn p WindowRecord.offered e.windows ≤ sumOn p WindowRecord.completed e.windows +
      e.runners.tally fun r => r.lost.countP fun task => p task.phase
  /-- So are their errors. -/
  errors : ∀ kind : ErrorKind,
    sumOn (fun _ => true) (fun w => w.errors kind) e.windows +
        (e.window_calls ++ e.driver.taken).countP (fun c => c.error = some kind) =
      e.runners.tally fun r => r.recorded.countP fun c => c.error = some kind
  /-- The tasks to come are those of the phase. -/
  toCome : ∀ label r, e.runners.get label = some r → ∀ task ∈ r.toCome,
    e.driver.busy? = some task.phase
  /-- So are the calls since the last window. -/
  calls : ∀ c ∈ e.window_calls, e.driver.busy? = some c.phase
  /-- The calls taken are those of the window. -/
  taken : ∀ w, e.driver.window? = some w → ∀ c ∈ e.driver.taken, c.phase = w.phase
  /-- A call has one kind of error at most. -/
  classified : ∀ c ∈ e.window_calls ++ e.driver.taken, c.Classified
  /-- What was seen to be empty is empty. -/
  quiet : ∀ item ∈ e.runners.items.take (e.driver.quiet e.runners.items.length),
    item.2.pending = 0
  /-- So the second sum is zero. -/
  second : ∀ w calls sum, e.driver = .reporting w calls (some sum) → sum.total = 0

namespace InPlay

variable {e e' : Engine} {label : String} {r r' : Runner} {act : RunnerAct}

/-- A new engine. -/
theorem new (trace : List Row) : InPlay (.new trace) where
  rows _ hw := nomatch hw
  offered _ := rfl
  completed _ := rfl
  missed _ := le_rfl
  errors _ := rfl
  toCome _ _ hget := nomatch hget
  calls _ hc := absurd hc List.not_mem_nil
  taken _ _ _ hc := absurd hc List.not_mem_nil
  classified _ hc := absurd hc List.not_mem_nil
  quiet _ hitem := absurd hitem List.not_mem_nil
  second _ _ _ hdriver := nomatch hdriver

/-- An act of a user's thread. -/
theorem runner (ha : Accounts e) (h : InPlay e) (hget : e.runners.get label = some r)
    (hstep : r.step label act = some r') :
    InPlay { e.account label r act with runners := e.runners.set label r' } := by
  have hmoved := (ha.sound label r hget).moved hstep
  rw [account_eq]
  exact {
    rows := h.rows
    offered := by
      intro p
      have hfigure : (r'.tasks.countP fun task => p task.phase) =
          r.tasks.countP fun task => p task.phase := by
        rw [hmoved.tasks]
      dsimp only
      rw [h.offered, OrderedDict.tally_set_same _ hget hfigure]
    completed := by
      intro p
      have hcompleted := h.completed p
      have hfigure : (r'.recorded.countP fun c => p c.phase) =
          (r.recorded.countP fun c => p c.phase) +
            (r.reported label act).toList.countP fun c => p c.phase := by
        rw [hmoved.recorded, List.countP_append]
      rw [List.countP_append] at hcompleted
      dsimp only
      rw [OrderedDict.tally_set_add _ hget hfigure, List.countP_append, List.countP_append]
      omega
    missed := by
      intro p
      have hmissed := h.missed p
      have hfigure : (r'.lost.countP fun task => p task.phase) =
          (r.lost.countP fun task => p task.phase) +
            (r.dropped act).toList.countP fun task => p task.phase := by
        rw [hmoved.lost, List.countP_append]
      dsimp only
      rw [OrderedDict.tally_set_add _ hget hfigure]
      omega
    errors := by
      intro kind
      have herrors := h.errors kind
      have hfigure : (r'.recorded.countP fun c => c.error = some kind) =
          (r.recorded.countP fun c => c.error = some kind) +
            (r.reported label act).toList.countP fun c => c.error = some kind := by
        rw [hmoved.recorded, List.countP_append]
      rw [List.countP_append] at herrors
      dsimp only
      rw [OrderedDict.tally_set_add _ hget hfigure, List.countP_append, List.countP_append]
      omega
    toCome := by
      intro l s hs task htask
      rw [OrderedDict.get_set] at hs
      split_ifs at hs
      · cases hs
        exact h.toCome label r hget task (hmoved.toCome task htask)
      · exact h.toCome l s hs task htask
    calls := by
      intro c hc
      rcases List.mem_append.1 hc with hold | hnew
      · exact h.calls c hold
      · exact h.toCome label r hget c.task (hmoved.rows c (Option.mem_toList.1 hnew)).1
    taken := h.taken
    classified := by
      intro c hc
      rw [List.append_assoc] at hc
      rcases List.mem_append.1 hc with hold | hc
      · exact h.classified c (List.mem_append_left _ hold)
      · rcases List.mem_append.1 hc with hnew | hold
        · exact (hmoved.rows c (Option.mem_toList.1 hnew)).2
        · exact h.classified c (List.mem_append_right _ hold)
    quiet := by
      have hkeeps : r.pending = 0 → r'.pending = 0 := fun hr =>
        Nat.le_zero.1 (hr ▸ hmoved.pending)
      dsimp only
      rw [OrderedDict.length_set hget]
      exact OrderedDict.forall_take_set (P := fun r : Runner => r.pending = 0) hget hkeeps h.quiet
    second := h.second }

/-- A new thread. -/
theorem build (h : InPlay e) (hget : e.runners.get label = none) :
    InPlay { e with runners := e.runners.set label .new } := by
  have hitems := OrderedDict.items_set_new hget Runner.new
  exact {
    rows := h.rows
    offered := fun p => (h.offered p).trans (tally_build hget rfl).symm
    completed := fun p => (h.completed p).trans (tally_build hget rfl).symm
    missed := by
      intro p
      dsimp only
      rw [tally_build hget rfl]
      exact h.missed p
    errors := fun kind => (h.errors kind).trans (tally_build hget rfl).symm
    toCome := by
      intro l s hs task htask
      rw [OrderedDict.get_set] at hs
      split_ifs at hs
      · cases hs
        exact absurd htask List.not_mem_nil
      · exact h.toCome l s hs task htask
    calls := h.calls
    taken := h.taken
    classified := h.classified
    quiet := by
      dsimp only
      rw [hitems, List.length_append, List.length_singleton, List.take_append,
        Driver.take_quiet_succ]
      intro item hitem
      rcases List.mem_append.1 hitem with hold | hnew
      · exact h.quiet item hold
      · rw [List.mem_singleton.1 (List.mem_of_mem_take hnew)]
        rfl
    second := h.second }

/-- An act of the driver that leaves the windows and the calls alone. -/
theorem moves (h : InPlay e) {old driver : Driver} (hdriver : e.driver = old)
    (hoffered : ∀ p, driver.offeredOn p = old.offeredOn p)
    (hbusy : ∀ phase, old.busy? = some phase → driver.busy? = some phase)
    (htaken : driver.taken = old.taken)
    (hphase : ∀ w, driver.window? = some w → ∀ c ∈ driver.taken, c.phase = w.phase)
    (hrows : old.RowsFit e.stopped → driver.RowsFit e.stopped)
    (hquiet : ∀ item ∈ e.runners.items.take (driver.quiet e.runners.items.length),
      item.2.pending = 0)
    (hsecond : ∀ w calls sum, driver = .reporting w calls (some sum) → sum.total = 0) :
    InPlay { e with driver := driver } := by
  subst hdriver
  exact {
    rows := hrows h.rows
    offered := by
      intro p
      dsimp only
      rw [hoffered]
      exact h.offered p
    completed := by
      intro p
      dsimp only
      rw [htaken]
      exact h.completed p
    missed := h.missed
    errors := by
      intro kind
      dsimp only
      rw [htaken]
      exact h.errors kind
    toCome := fun label r hget task htask => hbusy _ (h.toCome label r hget task htask)
    calls := fun c hc => hbusy _ (h.calls c hc)
    taken := hphase
    classified := by
      dsimp only
      rw [htaken]
      exact h.classified
    quiet := hquiet
    second := hsecond }

/-- An act of the driver between the beginning of a phase and its end. -/
theorem plays (h : InPlay e) {old driver : Driver} (hdriver : e.driver = old)
    (hoffered : ∀ p, driver.offeredOn p = old.offeredOn p) (hbusy : driver.busy? = old.busy?)
    (hold : old.taken = []) (htaken : driver.taken = [])
    (hrows : old.RowsFit e.stopped → driver.RowsFit e.stopped)
    (hquiet : driver.quiet e.runners.items.length = 0)
    (hsecond : ∀ w calls sum, driver ≠ .reporting w calls sum) :
    InPlay { e with driver := driver } := by
  refine h.moves hdriver hoffered (fun phase hphase => hbusy.trans hphase) (htaken.trans hold.symm)
    ?_ hrows ?_ fun w calls sum heq => absurd heq (hsecond w calls _)
  · rw [htaken]
    exact fun w _ c hc => absurd hc List.not_mem_nil
  · rw [hquiet, List.take_zero]
    exact fun item hitem => absurd hitem List.not_mem_nil

/-- A row put in the inbox of its user. -/
theorem puts (h : InPlay e) {w : Window} {row : Row} {rest : List Row}
    (hdriver : e.driver = .putting w row rest) (hget : e.runners.get row.user = some r) :
    InPlay { e with
      runners := e.runners.set row.user
        { r with inbox := r.inbox.put (some ⟨w.started + row.t_rel, w.phase⟩) }
      driver := .offering { w with offered := w.offered + 1 } rest } := by
  have hcompleted := h.completed
  have herrors := h.errors
  have hclassified := h.classified
  have htoCome := h.toCome
  have hcalls := h.calls
  rw [hdriver] at hcompleted herrors hclassified htoCome hcalls
  exact {
    rows := by
      rintro w' ⟨⟩
      have hrows := h.rows w (by rw [hdriver]; rfl)
      rw [hdriver] at hrows
      obtain ⟨hle, heq⟩ := hrows
      unfold Driver.rest at hle heq ⊢
      dsimp only at hle heq ⊢
      exact ⟨by omega, heq.imp_left fun heq => by omega⟩
    offered := by
      intro p
      have hoffered := h.offered p
      rw [hdriver] at hoffered
      have hfigure :
          (({ r with inbox := r.inbox.put (some ⟨w.started + row.t_rel, w.phase⟩) } :
            Runner).tasks.countP fun task => p task.phase) =
              (r.tasks.countP fun task => p task.phase) + if p w.phase then 1 else 0 := by
        rw [Runner.tasks_put, Option.toList_some, List.countP_append, List.countP_singleton]
      dsimp only
      rw [OrderedDict.tally_set_add _ hget hfigure]
      unfold Driver.offeredOn Driver.window? at hoffered ⊢
      dsimp only at hoffered ⊢
      cases hp : p w.phase with
      | true =>
        simp only [hp, if_true] at hoffered ⊢
        omega
      | false =>
        simp only [hp, Bool.false_eq_true, if_false] at hoffered ⊢
        omega
    completed := fun p => (hcompleted p).trans (tally_put hget _ rfl).symm
    missed := by
      intro p
      dsimp only
      rw [tally_put hget _ rfl]
      exact h.missed p
    errors := fun kind => (herrors kind).trans (tally_put hget _ rfl).symm
    toCome := by
      intro l s hs task htask
      rw [OrderedDict.get_set] at hs
      split_ifs at hs
      · cases hs
        rw [Runner.toCome_put, Option.toList_some] at htask
        rcases List.mem_append.1 htask with hold | hnew
        · exact htoCome row.user r hget task hold
        · rw [List.mem_singleton.1 hnew]
          rfl
      · exact htoCome l s hs task htask
    calls := hcalls
    taken := fun _ _ _ hc => absurd hc List.not_mem_nil
    classified := hclassified
    quiet := fun _ hitem => absurd hitem List.not_mem_nil
    second := fun _ _ _ heq => nomatch heq }

/-- With every inbox seen to be empty, every inbox is. -/
theorem pending_eq_zero (h : InPlay e)
    (hquiet : e.driver.quiet e.runners.items.length = e.runners.items.length)
    (hget : e.runners.get label = some r) : r.pending = 0 := by
  have hall := h.quiet
  rw [hquiet, List.take_length] at hall
  exact hall (label, r) (OrderedDict.mem_items.2 hget)

/-- The calls of the window are taken. -/
theorem takeCalls (h : InPlay e) {w : Window} (hdriver : e.driver = .closing w) :
    InPlay { e with
      window_calls := e.window_calls.filter fun c => c.phase ≠ w.phase
      driver := .reporting w (e.window_calls.filter fun c => c.phase = w.phase) none } := by
  have hphase : ∀ c ∈ e.window_calls, c.phase = w.phase := by
    intro c hc
    have hbusy := h.calls c hc
    rw [hdriver] at hbusy
    exact (Option.some.inj hbusy).symm
  -- All the calls since the last window are of this phase, so that none stays behind.
  have hnone : (e.window_calls.filter fun c => c.phase ≠ w.phase) = [] :=
    List.filter_eq_nil_iff.2 fun c hc => by simp [hphase c hc]
  have hall : (e.window_calls.filter fun c => c.phase = w.phase) = e.window_calls :=
    List.filter_eq_self.2 fun c hc => by simp [hphase c hc]
  -- Every inbox was seen to be empty, and nobody but the driver puts a task: they all are.
  have hquiet : ∀ label r, e.runners.get label = some r → r.pending = 0 := by
    intro label r hget
    refine h.pending_eq_zero ?_ hget
    rw [hdriver]
    rfl
  have hrows := h.rows
  have hoffered := h.offered
  have hcompleted := h.completed
  have herrors := h.errors
  have hclassified := h.classified
  have hempty := h.quiet
  have hnotTaken : (Driver.closing w).taken = [] := rfl
  rw [hdriver] at hrows hoffered hcompleted herrors hclassified hempty
  rw [hnone, hall]
  exact {
    rows := hrows
    offered := hoffered
    completed := by
      intro p
      have hp := hcompleted p
      rwa [hnotTaken, List.append_nil] at hp
    missed := h.missed
    errors := by
      intro kind
      have hkind := herrors kind
      rwa [hnotTaken, List.append_nil] at hkind
    toCome := by
      intro label r hget task htask
      rw [Runner.toCome_of_pending (hquiet label r hget)] at htask
      cases htask
    calls := fun _ hc => absurd hc List.not_mem_nil
    taken := by
      rintro w' ⟨⟩ c hc
      exact hphase c hc
    classified := by
      rwa [hnotTaken, List.append_nil] at hclassified
    quiet := hempty
    second := fun _ _ _ heq => nomatch heq }

/-- The second sum is zero. -/
theorem second_eq_zero (h : InPlay e) {w : Window} {calls : List CallRow}
    {sum : Option PendingSum} {total : ℕ} (hdriver : e.driver = .reporting w calls sum)
    (hsum : sumNext e.runners sum = .made total) : total = 0 := by
  cases sum with
  | none => cases hsum
  | some sum =>
    unfold sumNext at hsum
    dsimp only at hsum
    split_ifs at hsum
    split at hsum
    · cases hsum
    · cases hsum
      exact h.second w calls sum hdriver

/-- Where nothing is under way, what is put is recorded or lost. -/
theorem tally_tasks (ha : Accounts e) (h : InPlay e) (hbusy : e.driver.busy? = none)
    (p : String → Bool) :
    (e.runners.tally fun r => r.tasks.countP fun task => p task.phase) =
      (e.runners.tally fun r => r.recorded.countP fun c => p c.phase) +
        e.runners.tally fun r => r.lost.countP fun task => p task.phase := by
  rw [← OrderedDict.tally_add]
  refine OrderedDict.tally_congr fun item hitem => ?_
  have hget : e.runners.get item.1 = some item.2 := OrderedDict.get_of_mem hitem
  -- A task to come would be one of the phase that is played, and none is.
  have hnone : item.2.toCome = [] := by
    refine List.eq_nil_iff_forall_not_mem.2 fun task htask => ?_
    have hsome := h.toCome item.1 item.2 hget task htask
    rw [hbusy] at hsome
    cases hsome
  rw [(ha.sound item.1 item.2 hget).tasks_eq, hnone, List.append_nil, Runner.settled,
    List.countP_append, List.countP_map]
  rfl

/-- What holds of the record of the window that is played. -/
theorem told (ha : Accounts e) (h : InPlay e) {w : Window} {calls : List CallRow}
    {sum : Option PendingSum} (hdriver : e.driver = .reporting w calls sum) :
    Told (closeWindow w calls 0) := by
  have hrows := h.rows w (by rw [hdriver]; rfl)
  have hoffered := h.offered fun phase => phase = w.phase
  have hcompleted := h.completed fun phase => phase = w.phase
  have hmissed := h.missed fun phase => phase = w.phase
  have htally := h.tally_tasks ha (by rw [hdriver]; rfl) fun phase => phase = w.phase
  have hphase := h.taken w (by rw [hdriver]; rfl)
  have hclassified := h.classified
  rw [hdriver] at hrows hoffered hcompleted hphase hclassified
  -- The figures of the phase are those of this window and of the earlier ones of its name.
  have hcalls : (calls.countP fun c => decide (c.phase = w.phase)) = calls.length :=
    List.countP_eq_length.2 fun c hc => decide_eq_true (hphase c hc)
  have herrors : ∀ kind, (closeWindow w calls 0).errors kind =
      calls.countP fun c => c.error = some kind :=
    errors_closeWindow w 0 fun c hc => hclassified c (List.mem_append_right _ hc)
  have hresponses : calls.length = _ :=
    List.length_eq_countP_add_countP fun c : CallRow => c.transport_error = ""
  unfold Driver.offeredOn Driver.window? at hoffered
  unfold Driver.taken at hcompleted
  rw [List.countP_append, hcalls] at hcompleted
  simp only [decide_true, if_true] at hoffered
  exact {
    pending := rfl
    completed := by
      unfold closeWindow
      dsimp only
      omega
    declared := hrows.1
    responses := by
      unfold closeWindow
      dsimp only
      rw [hresponses]
      simp
    errors := by
      have htransport := herrors .transport
      have happ := herrors .app
      have hhttp := herrors .http
      have hle := countP_errors_le calls
      unfold WindowRecord.errors at htransport happ hhttp
      dsimp only at htransport happ hhttp
      rw [htransport, happ, hhttp]
      exact hle
    truncated := decide_eq_true_iff }

/-- The window is closed. -/
theorem closes (ha : Accounts e) (h : InPlay e) {w : Window} {calls : List CallRow}
    {sum : Option PendingSum} (hdriver : e.driver = .reporting w calls sum) :
    InPlay { e with windows := e.windows ++ [closeWindow w calls 0], driver := .idle } := by
  have hbusy : e.driver.busy? = none := by
    rw [hdriver]
    rfl
  -- No call comes in between the two sums: there is nothing to come.
  have hempty : e.window_calls = [] := by
    refine List.eq_nil_iff_forall_not_mem.2 fun c hc => ?_
    cases hbusy.symm.trans (h.calls c hc)
  have hphase := h.taken w (by rw [hdriver]; rfl)
  have htaken : e.driver.taken = calls := by
    rw [hdriver]
    rfl
  have hon : ∀ p, e.driver.offeredOn p = if p w.phase then w.offered else 0 := by
    rw [hdriver]
    exact fun _ => rfl
  have hquiet := h.quiet
  rw [hdriver] at hquiet
  rw [htaken] at hphase
  have hoffered : ∀ p, sumOn p WindowRecord.offered (e.windows ++ [closeWindow w calls 0]) =
      e.runners.tally fun r => r.tasks.countP fun task => p task.phase := by
    intro p
    rw [sumOn_concat, ← h.offered, hon]
    rfl
  have hcompleted : ∀ p, sumOn p WindowRecord.completed (e.windows ++ [closeWindow w calls 0]) =
      e.runners.tally fun r => r.recorded.countP fun c => p c.phase := by
    intro p
    -- The calls are all of one phase, so that a test takes them all or none.
    have hcount : (calls.countP fun c => p c.phase) = if p w.phase then calls.length else 0 := by
      split_ifs with hw
      · exact List.countP_eq_length.2 fun c hc => by rw [hphase c hc, hw]
      · exact List.countP_eq_zero.2 fun c hc => by rw [hphase c hc]; exact hw
    rw [sumOn_concat, ← h.completed, hempty, htaken, List.nil_append, hcount]
    rfl
  exact {
    rows := fun _ hw => nomatch hw
    offered := hoffered
    completed := by
      dsimp only
      rw [hempty]
      exact hcompleted
    missed := by
      intro p
      dsimp only
      rw [hoffered, hcompleted, h.tally_tasks ha hbusy]
    errors := by
      intro kind
      have hkind := h.errors kind
      rw [hempty, htaken, List.nil_append] at hkind
      have hclassified : ∀ c ∈ calls, c.Classified := fun c hc =>
        h.classified c (List.mem_append_right _ (htaken ▸ hc))
      dsimp only
      rw [sumOn_concat, if_pos rfl, errors_closeWindow w 0 hclassified, hempty]
      exact hkind
    toCome := fun label r hget task htask => hbusy.symm.trans (h.toCome label r hget task htask)
    calls := fun c hc => hbusy.symm.trans (h.calls c hc)
    taken := fun _ hw => nomatch hw
    classified := by
      intro c hc
      rcases List.mem_append.1 hc with hc | hc
      · exact h.classified c (List.mem_append_left _ hc)
      · cases hc
    quiet := hquiet
    second := fun _ _ _ heq => nomatch heq }

/-- A reading of the sum. -/
theorem sumNext_more {runners : OrderedDict String Runner} {sum : Option PendingSum}
    {sum' : PendingSum} (h : sumNext runners sum = .more sum') :
    (sum = none ∧ sum'.read = 0 ∧ sum'.total = 0) ∨
      ∃ old item, sum = some old ∧ runners.items[old.read]? = some item ∧
        sum'.read = old.read + 1 ∧ sum'.total = old.total + item.2.pending := by
  cases sum with
  | none =>
    cases h
    exact Or.inl ⟨rfl, rfl, rfl⟩
  | some old =>
    unfold sumNext at h
    dsimp only at h
    split_ifs at h
    split at h
    · rename_i item hitem
      cases h
      exact Or.inr ⟨old, item, rfl, hitem, rfl, rfl⟩
    · cases h

/-- Once the sum is made, every inbox has been read. -/
theorem sumNext_made {runners : OrderedDict String Runner} {sum : Option PendingSum} {total : ℕ}
    (h : sumNext runners sum = .made total) :
    ∃ old, sum = some old ∧ old.total = total ∧ runners.items.length ≤ old.read := by
  cases sum with
  | none => cases h
  | some old =>
    unfold sumNext at h
    dsimp only at h
    split_ifs at h
    split at h
    · cases h
    · rename_i hitem
      cases h
      exact ⟨old, rfl, rfl, List.getElem?_eq_none_iff.1 hitem⟩

/-- A phase begins. -/
theorem begins (h : InPlay e) (hdriver : e.driver = .idle) (state : EngineState) (phase : String)
    (rows : List Row) (now : ℚ) :
    InPlay { e with state := state, driver := .offering ⟨phase, rows, now, 0, 0⟩ rows } := by
  -- All the rows are to come.
  have hfit : (Driver.offering ⟨phase, rows, now, 0, 0⟩ rows).RowsFit e.stopped := by
    rintro w ⟨⟩
    exact ⟨by simp [Driver.rest], Or.inl (by simp [Driver.rest])⟩
  have hmoved : InPlay { e with driver := .offering ⟨phase, rows, now, 0, 0⟩ rows } :=
    h.moves hdriver (fun _ => ite_self 0) (fun _ heq => nomatch heq) rfl
      (fun _ _ _ hc => absurd hc List.not_mem_nil) (fun _ => hfit)
      (fun _ hitem => absurd hitem List.not_mem_nil) fun _ _ _ heq => nomatch heq
  exact { hmoved with }

/-- The sum goes on: what had been read was empty, and so is what is read now. -/
theorem more (h : InPlay e) {w : Window} {sum : Option PendingSum} {sum' : PendingSum}
    (hdriver : e.driver = .draining w sum) (hsum : sumNext e.runners sum = .more sum') :
    InPlay { e with driver := .draining w (some sum') } := by
  have hquiet := h.quiet
  rw [hdriver] at hquiet
  refine h.moves hdriver (fun _ => rfl) (fun _ hphase => hphase) rfl
    (fun _ _ _ hc => absurd hc List.not_mem_nil) id ?_ fun _ _ _ heq => nomatch heq
  have hnothing : ∀ item ∈ e.runners.items.take 0, item.2.pending = 0 :=
    fun item hitem => absurd hitem List.not_mem_nil
  unfold Driver.quiet at hquiet ⊢
  dsimp only at hquiet ⊢
  split_ifs with htotal
  · rcases sumNext_more hsum with ⟨_, hread, _⟩ | ⟨old, item, rfl, hitem, hread, htotal'⟩
    · rw [hread]
      exact hnothing
    -- The total is still zero: so was the old one, and the inbox read now.
    · have hold : old.total = 0 := by omega
      have hpending : item.2.pending = 0 := by omega
      dsimp only at hquiet
      rw [if_pos hold] at hquiet
      rw [hread, List.take_add_one, hitem]
      intro other hother
      rcases List.mem_append.1 hother with hother | hother
      · exact hquiet other hother
      · rw [List.mem_singleton.1 hother]
        exact hpending
  · exact hnothing

/-- The second sum goes on. -/
theorem more' (h : InPlay e) {w : Window} {calls : List CallRow} {sum : Option PendingSum}
    {sum' : PendingSum} (hdriver : e.driver = .reporting w calls sum)
    (hsum : sumNext e.runners sum = .more sum') :
    InPlay { e with driver := .reporting w calls (some sum') } := by
  have hquiet := h.quiet
  have htaken := h.taken
  rw [hdriver] at hquiet htaken
  refine h.moves hdriver (fun _ => rfl) (fun _ hphase => hphase) rfl htaken id hquiet ?_
  rintro w' calls' sum'' ⟨⟩
  rcases sumNext_more hsum with ⟨_, _, htotal⟩ | ⟨old, item, rfl, hitem, _, htotal⟩
  · exact htotal
  · have hpending : item.2.pending = 0 := by
      refine hquiet item ?_
      unfold Driver.quiet
      rw [List.take_length]
      exact List.mem_of_getElem? hitem
    rw [htotal, h.second w calls old hdriver, hpending]

/-- Every step of the driver that goes on keeps it. -/
theorem step (ha : Accounts e) (h : InPlay e) {a : Act} (hstep : LoadEngine.step e a = some e')
    (hplay : e'.driver.InPlay) : InPlay e' := by
  cases steps_of_step hstep with
  | absent => exact h
  | refused hdriver => cases hplay
  | begins hdriver => exact h.begins hdriver _ _ _ _
  | finished hdriver =>
    exact h.plays hdriver (fun _ => rfl) rfl rfl rfl id rfl fun _ _ _ heq => nomatch heq
  | cut hdriver hstopped =>
    exact h.plays hdriver (fun _ => rfl) rfl rfl rfl (fun hrows w hw =>
      ⟨Nat.le_trans (Nat.le_add_right _ _) (hrows w hw).1, Or.inr hstopped⟩) rfl
      fun _ _ _ heq => nomatch heq
  | paces hdriver =>
    exact h.plays hdriver (fun _ => rfl) rfl rfl rfl id rfl fun _ _ _ heq => nomatch heq
  | interrupted hdriver hstopped =>
    exact h.plays hdriver (fun _ => rfl) rfl rfl rfl (fun hrows w hw =>
      ⟨Nat.le_trans (Nat.le_add_right _ _) (hrows w hw).1, Or.inr hstopped⟩) rfl
      fun _ _ _ heq => nomatch heq
  | @counts w row rest hdriver =>
    have hmoved : InPlay { e with driver := .putting w row rest } :=
      h.plays hdriver (fun _ => rfl) rfl rfl rfl id rfl fun _ _ _ heq => nomatch heq
    exact { hmoved with }
  | @withholds w row rest hdriver =>
    refine h.plays hdriver (fun _ => rfl) rfl rfl rfl ?_ rfl fun _ _ _ heq => nomatch heq
    rintro hrows w' ⟨⟩
    obtain ⟨hle, heq⟩ := hrows w rfl
    unfold Driver.rest at hle heq ⊢
    dsimp only at hle heq ⊢
    exact ⟨by omega, heq.imp_left fun heq => by omega⟩
  | missing hdriver => cases hplay
  | puts hdriver hget => exact h.puts hdriver hget
  | changed hdriver => cases hplay
  | more hdriver hsum => exact h.more hdriver hsum
  | @emptied w sum hdriver hsum =>
    obtain ⟨old, rfl, htotal, hread⟩ := sumNext_made hsum
    have hquiet := h.quiet
    rw [hdriver] at hquiet
    unfold Driver.quiet at hquiet
    dsimp only at hquiet
    rw [if_pos htotal, List.take_of_length_le hread] at hquiet
    refine h.moves hdriver (fun _ => rfl) (fun _ hphase => hphase) rfl
      (fun _ _ _ hc => absurd hc List.not_mem_nil) id ?_ fun _ _ _ heq => nomatch heq
    exact fun item hitem => hquiet item (List.mem_of_mem_take hitem)
  | pending hdriver =>
    exact h.plays hdriver (fun _ => rfl) rfl rfl rfl id rfl fun _ _ _ heq => nomatch heq
  | changed' hdriver => cases hplay
  | more' hdriver hsum => exact h.more' hdriver hsum
  | closes hdriver hsum =>
    -- What the record is told as pending is the second sum.
    have hzero := h.second_eq_zero hdriver hsum
    subst hzero
    exact h.closes ha hdriver
  | again hdriver =>
    exact h.plays hdriver (fun _ => rfl) rfl rfl rfl id rfl fun _ _ _ heq => nomatch heq
  | deadline hdriver => cases hplay
  | takeCalls hdriver => exact h.takeCalls hdriver
  | stopRunners hdriver => cases hplay
  | stopRunners' hdriver => cases hplay
  | tell hdriver hget => cases hplay
  | runner hget hact => exact h.runner ha hget hact
  | buildUser hget => exact h.build hget
  | calling calling => exact { h with }
  | askStop => exact { h with rows := fun w hw => ⟨(h.rows w hw).1, Or.inr rfl⟩ }
  | takeInterval => exact { h with }

end InPlay

/-! ## Every run -/

/-- What every state keeps. -/
structure Kept (e : Engine) : Prop where
  /-- The accounts. -/
  accounts : Accounts e
  /-- The closed windows; no row is left out of one unless a stop was asked for. -/
  windows : ∀ w ∈ e.windows,
    Told w ∧ (w.offered + w.withheld = w.offered_declared ∨ e.stopped = true)
  /-- The counters, as the sampler was answered them, are in order. -/
  intervals : ∀ i ∈ e.intervals, i.completed ≤ i.started ∧ i.started ≤ i.offered
  /-- What holds while the phases go on. -/
  play : e.driver.InPlay → InPlay e

namespace Kept

variable {e e' : Engine} {a : Act}

/-- A new engine. -/
theorem new (trace : List Row) : Kept (.new trace) where
  accounts := .new trace
  windows _ hw := absurd hw List.not_mem_nil
  intervals _ hi := absurd hi List.not_mem_nil
  play _ := .new trace

/-- The phases do not begin again once one has raised. -/
theorem inPlay_of_step (h : step e a = some e') (hplay : e'.driver.InPlay) : e.driver.InPlay := by
  cases steps_of_step h with
  | refused hdriver => cases hplay
  | missing hdriver => cases hplay
  | changed hdriver => cases hplay
  | changed' hdriver => cases hplay
  | deadline hdriver => cases hplay
  | stopRunners hdriver => cases hplay
  | stopRunners' hdriver => cases hplay
  | tell hdriver hget => cases hplay
  | runner hget hact =>
    rw [account_eq] at hplay
    exact hplay
  | absent => exact hplay
  | buildUser hget => exact hplay
  | calling calling => exact hplay
  | askStop => exact hplay
  | takeInterval => exact hplay
  | _ hdriver =>
    rw [hdriver]
    trivial

/-- Every step keeps it. -/
theorem step (h : Kept e) (hstep : LoadEngine.step e a = some e') : Kept e' where
  accounts := h.accounts.step hstep
  windows := by
    cases steps_of_step hstep with
    | @closes w calls sum total hdriver hsum =>
      have hplay := h.play (by rw [hdriver]; trivial)
      have hzero := hplay.second_eq_zero hdriver hsum
      have hrows := hplay.rows w (by rw [hdriver]; rfl)
      rw [hdriver] at hrows
      subst hzero
      intro w' hw'
      rcases List.mem_append.1 hw' with hold | hnew
      · exact h.windows w' hold
      · rw [List.mem_singleton.1 hnew]
        exact ⟨hplay.told h.accounts hdriver, hrows.2⟩
    | askStop => exact fun w hw => ⟨(h.windows w hw).1, Or.inr rfl⟩
    | runner hget hact =>
      rw [account_eq]
      exact h.windows
    | _ => exact h.windows
  intervals := by
    cases steps_of_step hstep with
    | takeInterval =>
      intro i hi
      rcases List.mem_append.1 hi with hold | hnew
      · exact h.intervals i hold
      · rw [List.mem_singleton.1 hnew]
        exact h.accounts.ordered
    | runner hget hact =>
      rw [account_eq]
      exact h.intervals
    | _ => exact h.intervals
  play hplay := (h.play (inPlay_of_step hstep hplay)).step h.accounts hstep hplay

/-- Every run keeps it. -/
theorem run {trace : List Row} {acts : List Act}
    (hrun : Library.run LoadEngine.step (.new trace) acts = some e) : Kept e :=
  run_invariant (fun _ _ _ h _ hstep => h.step hstep) (new trace)
    (Meets.of_forall fun _ _ => trivial) hrun

end Kept

/-! ## A ramp of two users -/

namespace Sample

/-- A row for each user. -/
def ramp : List Row := [⟨"ramp", "user_1", 0, 1⟩, ⟨"ramp", "user_2", 1, 1⟩]

/-- The first user alone is admitted. Its request goes out while the pending tasks are summed, is
tried twice, and answers an error of the application; the sampler comes in between. -/
def oneAdmitted : List Act :=
  [.buildUser "user_1", .admitUser "user_1", .playWindow "ramp" 0, .loop, .due, .put, .loop, .due,
    .runner "user_1" .get, .loop, .runner "user_1" (.start 0), .sum, .takeInterval, .sum, .sum,
    .runner "user_1" (.answer 1 (.raises "reset") (.answers 200 true)),
    .runner "user_1" (.record true), .again, .runner "user_1" .done, .sum, .sum, .sum, .takeCalls,
    .sum, .sum, .sum]

/-- The window that it closes: truncated, with nobody having asked for a stop. -/
def rampWindow : WindowRecord where
  phase := "ramp"
  offered := 1
  offered_declared := 2
  completed := 1
  responses_received := 1
  pending_at_end := 0
  errors_http := 0
  errors_app := 1
  errors_transport := 0
  truncated_by_stop := true
  withheld := 1

end Sample

/-! ## The results -/

/-- The counters account for every request. Whatever the order in which the driver, the users, the
pacers and the sampler come in: a row is counted as offered exactly once, and put, unless it is the
one about to be put or its user had no runner; a call that was started is recorded, lost to an
exception, or on the wire; every call recorded is counted once, under one kind of error at most; and
the sampler is answered every latency once, with counters that are in order. -/
theorem accounts_hold {trace : List Row} {acts : List Act} {e : Engine}
    (hrun : run step (.new trace) acts = some e) :
    Accounts e ∧ e.state.completed ≤ e.state.started ∧ e.state.started ≤ e.state.offered ∧
      e.state.errors_transport + e.state.errors_app + e.state.errors_http ≤ e.state.completed ∧
      ∀ i ∈ e.intervals, i.completed ≤ i.started ∧ i.started ≤ i.offered := by
  have h := Kept.run hrun
  obtain ⟨hcompleted, hstarted⟩ := h.accounts.ordered
  refine ⟨h.accounts, hcompleted, hstarted, ?_, h.intervals⟩
  have htransport : e.state.errors_transport = _ := h.accounts.errors .transport
  have happ : e.state.errors_app = _ := h.accounts.errors .app
  have hhttp : e.state.errors_http = _ := h.accounts.errors .http
  rw [htransport, happ, hhttp, h.accounts.completed, ← OrderedDict.tally_add,
    ← OrderedDict.tally_add]
  exact OrderedDict.tally_le fun item _ => countP_errors_le item.2.recorded

/-- The counters of the ramp. -/
theorem accounts_hold_ramp :
    ∃ e, run step (.new Sample.ramp) Sample.oneAdmitted = some e ∧ Accounts e ∧
      e.state.offered = 1 ∧ e.intervals.map Interval.started = [1] := by
  obtain ⟨e, hrun, hoffered, hintervals⟩ :
      ∃ e, run step (.new Sample.ramp) Sample.oneAdmitted = some e ∧ e.state.offered = 1 ∧
        e.intervals.map Interval.started = [1] := ⟨_, rfl, rfl, rfl⟩
  exact ⟨e, hrun, (accounts_hold hrun).1, hoffered, hintervals⟩

/-- Every window tells the calls of its rows. In every run, a window that closes has nothing
pending, as many rows offered and withheld as declared unless a stop was asked for, and a call for
each row offered but for those that raised before they were recorded; so that between two phases the
windows have all that the counters have, and those of a phase are complete exactly when none of its
calls was lost. -/
theorem windows_tell_calls {trace : List Row} {acts : List Act} {e : Engine}
    (hrun : run step (.new trace) acts = some e) :
    (∀ w ∈ e.windows, Told w ∧
        (e.stopped = false → w.offered + w.withheld = w.offered_declared)) ∧
      (e.driver = .idle →
        e.state.offered = (e.windows.map WindowRecord.offered).sum ∧
          e.state.completed = (e.windows.map WindowRecord.completed).sum ∧
          (∀ kind, e.state.errors kind = (e.windows.map fun w => w.errors kind).sum) ∧
          ∀ phase, (∀ w ∈ e.windows, w.phase = phase → w.completed = w.offered) ↔
            ∀ label r, e.runners.get label = some r → ∀ task ∈ r.lost, task.phase ≠ phase) := by
  have h := Kept.run hrun
  constructor
  · intro w hw
    obtain ⟨htold, hrows⟩ := h.windows w hw
    exact ⟨htold, fun hstopped => hrows.resolve_right (by rw [hstopped]; nofun)⟩
  · intro hdriver
    have hplay := h.play (by rw [hdriver]; trivial)
    have hbusy : e.driver.busy? = none := by
      rw [hdriver]
      rfl
    have hempty : e.window_calls = [] := by
      refine List.eq_nil_iff_forall_not_mem.2 fun c hc => ?_
      cases hbusy.symm.trans (hplay.calls c hc)
    have hoffered : ∀ p, sumOn p WindowRecord.offered e.windows =
        e.runners.tally fun r => r.tasks.countP fun task => p task.phase := by
      intro p
      rw [← hplay.offered, hdriver]
      rfl
    have hcompleted : ∀ p, sumOn p WindowRecord.completed e.windows =
        e.runners.tally fun r => r.recorded.countP fun c => p c.phase := by
      intro p
      rw [← hplay.completed, hempty, hdriver]
      rfl
    refine ⟨?_, ?_, ?_, ?_⟩
    · rw [h.accounts.offered, hdriver, ← sumOn_true, hoffered]
      simp only [List.countP_true]
      rfl
    · rw [h.accounts.completed, ← sumOn_true, hcompleted]
      simp only [List.countP_true]
    · intro kind
      rw [h.accounts.errors, ← sumOn_true, ← hplay.errors, hempty, hdriver]
      rfl
    · intro phase
      -- No window has more calls than rows, so that the sums agree where each of them does.
      have hle : ∀ w ∈ e.windows, w.completed ≤ w.offered :=
        fun w hw => (h.windows w hw).1.completed
      have hwindows := (sumOn_eq_iff (fun other => other = phase) hle).2
      have htally := hplay.tally_tasks h.accounts hbusy fun other => other = phase
      rw [hoffered, hcompleted, htally] at hwindows
      simp only [decide_eq_true_eq] at hwindows
      rw [← hwindows, Nat.left_eq_add, OrderedDict.tally_eq_zero]
      constructor
      · intro hzero label r hget task htask hphase
        have hnone := hzero (label, r) (OrderedDict.mem_items.2 hget)
        exact List.countP_eq_zero.1 hnone task htask (decide_eq_true hphase)
      · intro hnone item hitem
        refine List.countP_eq_zero.2 fun task htask hphase => ?_
        exact hnone item.1 item.2 (OrderedDict.get_of_mem hitem) task htask
          (of_decide_eq_true hphase)

/-- The window of the ramp. -/
theorem windows_tell_calls_ramp :
    ∃ e, run step (.new Sample.ramp) Sample.oneAdmitted = some e ∧
      e.windows = [Sample.rampWindow] ∧ Told Sample.rampWindow ∧
        e.state.completed = Sample.rampWindow.completed := by
  obtain ⟨e, hrun, hwindows, hdriver⟩ :
      ∃ e, run step (.new Sample.ramp) Sample.oneAdmitted = some e ∧
        e.windows = [Sample.rampWindow] ∧ e.driver = .idle := ⟨_, rfl, rfl, rfl⟩
  obtain ⟨hall, hidle⟩ := windows_tell_calls hrun
  obtain ⟨_, hcompleted, _⟩ := hidle hdriver
  rw [hwindows] at hall hcompleted
  exact ⟨e, hrun, hwindows, (hall _ (List.mem_singleton_self _)).1, hcompleted⟩

/-- The calls of a user go out one at a time, in the order in which they were offered. In every run,
what a user's thread has recorded, and the one task at most at which it raised, are the first tasks
put in its inbox, in their order; and all of them where nothing is pending. -/
theorem calls_in_offer_order {trace : List Row} {acts : List Act} {e : Engine}
    (hrun : run step (.new trace) acts = some e) {label : String} {r : Runner}
    (hget : e.runners.get label = some r) :
    r.recorded.map CallRow.task ++ r.lost <+: r.tasks ∧ r.lost.length ≤ 1 ∧
      (r.lost ≠ [] → r.stage = .finishing false ∨ r.stage = .ended) ∧
      (r.pending = 0 → r.recorded.map CallRow.task ++ r.lost = r.tasks) := by
  have hsound := (Kept.run hrun).accounts.sound label r hget
  have htasks := hsound.tasks_eq
  refine ⟨⟨r.toCome, htasks.symm⟩, ?_, ?_, ?_⟩
  · rcases hsound.lost with hlost | ⟨hlost, _⟩
    · rw [hlost]
      exact Nat.zero_le 1
    · exact hlost.le
  · exact fun hsome => (hsound.lost.resolve_left hsome).2
  · intro hpending
    rw [htasks, Runner.toCome_of_pending hpending, List.append_nil]
    rfl

/-- The one call of the ramp. -/
theorem calls_in_offer_order_ramp :
    ∃ e r, run step (.new Sample.ramp) Sample.oneAdmitted = some e ∧
      e.runners.get "user_1" = some r ∧
        r.recorded.map CallRow.task ++ r.lost = r.tasks ∧ r.tasks.map Task.phase = ["ramp"] := by
  obtain ⟨e, r, hrun, hget, hpending, htasks⟩ :
      ∃ e r, run step (.new Sample.ramp) Sample.oneAdmitted = some e ∧
        e.runners.get "user_1" = some r ∧ r.pending = 0 ∧ r.tasks.map Task.phase = ["ramp"] :=
    ⟨_, _, rfl, rfl, rfl, rfl⟩
  obtain ⟨_, _, _, hall⟩ := calls_in_offer_order hrun hget
  exact ⟨e, r, hrun, hget, hall hpending, htasks⟩

end GenropyAsgi.Benchmarks.LoadEngine

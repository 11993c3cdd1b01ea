import GenropyAsgi.Site.ClientClocks

/-!
# Clocks that are never corrupted or rewound

What the folding of the client clocks keeps. On rows whose clocks are numbers an assignment leaves a
number that is not below the one before it, unless it puts a text or another value on a clock that
is absent or zero, or a negative number on a clock at zero: `max` is skipped for a current value
that is false. An assignment that raises leaves everything as it was. `WriteFits` is that condition
on an assignment, and the assignments of one refresh meet it exactly when the refresh keeps the
clocks, since they are made to six different clocks.

The server's own stamp is not among the assignments, so whatever the clients report it is the
server's clock.
-/

namespace GenropyAsgi.Site

open Library

variable {O : Type} {env : ClockEnv O} {rows rows' : Rows O}

/-- The clock of a row. -/
def clockAt (rows : Rows O) (key : ItemKey) (field : ClockField) : Option (ClockValue O) :=
  (rows.get key).bind fun row => row.clock field

/-- The server's stamp of a row. -/
def stampAt (rows : Rows O) (key : ItemKey) : Option ℚ :=
  (rows.get key).map ClientRow.last_refresh_ts

/-- Every clock that is present is a number. -/
def Numbers (rows : Rows O) : Prop :=
  ∀ key field value, clockAt rows key field = some value → ∃ n, value = .number n

/-- Every clock that is a number stays one, and does not decrease. -/
def NoRewind (rows rows' : Rows O) : Prop :=
  ∀ key field n, clockAt rows key field = some (.number n) →
    ∃ m, clockAt rows' key field = some (.number m) ∧ n ≤ m

/-- The chain of a page is whole. -/
def Whole (rows : Rows O) (page_id : PageId) : Prop :=
  ∀ page, rows.get (.page, page_id) = some page →
    ∃ connection, rows.get (.connection, page.owner) = some connection ∧
      (rows.get (.user, connection.owner)).isSome

/-- A value that can be a clock: absent, a datetime that is converted, or a number. -/
def Reported.Valid (value : Reported O) : Prop :=
  value.converted = .ok none ∨ ∃ n, value.converted = .ok (some (.number n))

/-- A refresh of a whole chain with values that can be clocks does not fail. -/
def Accepts (env : ClockEnv O) (rows : Rows O) : Prop :=
  ∀ call : RefreshCall O, call.last_user_ts.Valid → call.last_rpc_ts.Valid →
    Whole rows call.page_id → ∃ answer, (localRefresh env rows call).2 = .ok answer

/-- The clocks of the rows are not corrupted. -/
structure SoundClocks (env : ClockEnv O) (rows : Rows O) : Prop where
  /-- They are numbers. -/
  numbers : Numbers rows
  /-- No value among them makes a refresh fail. -/
  accepts : Accepts env rows

/-- The refresh does not rewind a clock. -/
def KeepsClocks (env : ClockEnv O) (rows : Rows O) (call : RefreshCall O) : Prop :=
  NoRewind rows (localRefresh env rows call).1

/-- The value of an assignment fits the clock that it finds. A number fits, unless it is negative
and the clock is zero. A value that is not a number fits only a clock that is not zero: the
assignment raises, and nothing is stored. -/
def WriteFits (rows : Rows O) (write : ClockWrite O) : Prop :=
  ∀ value row, write.value = some value → rows.get write.key = some row →
    match value with
    | .number n => row.clock write.field = some (.number 0) → 0 ≤ n
    | _ => ∃ current, row.clock write.field = some (.number current) ∧ current ≠ 0

/-- One assignment, as a step. -/
def writeStep (env : ClockEnv O) (rows : Rows O) (write : ClockWrite O) : Option (Rows O) :=
  (writeClock env rows write).toOption

/-- Every assignment that the refresh comes to fits. -/
def CallFits (env : ClockEnv O) (rows : Rows O) (call : RefreshCall O) : Prop :=
  match call.loop env rows with
  | (stamped, .ok (some (_, writes))) => Meets (writeStep env) WriteFits stamped writes
  | _ => True

/-! ## One assignment -/

/-- A clock at zero is false, and the value is stored as it is. -/
theorem bumped_zero (value : ClockValue O) : bumped env (some (.number 0)) value = .ok value := by
  simp [bumped, ClockValue.truthy]

variable (env) in
/-- A clock that is another number is compared with the value. -/
theorem bumped_of_ne_zero {c : ℚ} (h : c ≠ 0) (value : ClockValue O) :
    bumped env (some (.number c)) value =
      (value.gt env (.number c)).map fun greater => if greater then value else .number c := by
  unfold bumped
  simp only [ClockValue.truthy, ne_eq, h, not_false_eq_true, decide_true, if_true]
  cases value.gt env (.number c) with
  | error e => rfl
  | ok greater => rfl

variable (env) in
/-- What a number is folded to, on a clock that is absent or a number. -/
theorem bumped_number {current : Option (ClockValue O)} (n : ℚ)
    (h : ∀ value, current = some value → ∃ m, value = .number m) :
    ∃ m, bumped env current (.number n) = .ok (.number m) ∧
      ∀ c, current = some (.number c) → (c ≤ m ↔ (c = 0 → 0 ≤ n)) := by
  cases current with
  | none => exact ⟨n, rfl, fun c hc => by cases hc⟩
  | some value =>
    obtain ⟨c, rfl⟩ := h value rfl
    by_cases hzero : c = 0
    · subst hzero
      refine ⟨n, bumped_zero _, fun c' hc' => ?_⟩
      cases hc'
      simp
    · have hbumped := bumped_of_ne_zero env hzero (.number n)
      by_cases hgreater : n > c
      · refine ⟨n, by rw [hbumped]; simp [ClockValue.gt, Except.map, hgreater], ?_⟩
        intro c' hc'
        cases hc'
        exact ⟨fun _ h0 => absurd h0 hzero, fun _ => le_of_lt hgreater⟩
      · refine ⟨c, by rw [hbumped]; simp [ClockValue.gt, Except.map, hgreater], ?_⟩
        intro c' hc'
        cases hc'
        exact ⟨fun _ h0 => absurd h0 hzero, fun _ => le_refl c⟩

/-- A value that is not a number is not compared with one. -/
theorem gt_number {value : ClockValue O} (h : ∀ n, value ≠ .number n) (c : ℚ) :
    value.gt env (.number c) = .error .typeError := by
  cases value with
  | number n => exact absurd rfl (h n)
  | text t => rfl
  | other o => rfl

variable (env) in
/-- What a value that is not a number is folded to: it cannot be compared with a clock that is not
zero, and is stored on any other. -/
theorem bumped_of_not_number {current : Option (ClockValue O)} {value : ClockValue O}
    (hvalue : ∀ n, value ≠ .number n) (h : ∀ v, current = some v → ∃ m, v = .number m) :
    (bumped env current value = .error .typeError ∧
        ∃ c, current = some (.number c) ∧ c ≠ 0) ∨
      bumped env current value = .ok value ∧ ∀ c, current = some (.number c) → c = 0 := by
  cases current with
  | none => exact .inr ⟨rfl, fun c hc => by cases hc⟩
  | some v =>
    obtain ⟨c, rfl⟩ := h v rfl
    by_cases hzero : c = 0
    · subst hzero
      refine .inr ⟨bumped_zero value, fun c' hc' => ?_⟩
      cases hc'
      rfl
    · left
      rw [bumped_of_ne_zero env hzero, gt_number hvalue]
      exact ⟨rfl, c, rfl, hzero⟩

variable {write : ClockWrite O}

/-- An assignment that raises nothing. -/
theorem writeClock_cases (h : writeClock env rows write = .ok rows') :
    (write.value = none ∧ rows' = rows) ∨
      ∃ value row clock, write.value = some value ∧ rows.get write.key = some row ∧
        bumped env (row.clock write.field) value = .ok clock ∧
        rows' = rows.set write.key
          { row with clock := Function.update row.clock write.field (some clock) } := by
  unfold writeClock at h
  cases hvalue : write.value with
  | none =>
    rw [hvalue] at h
    cases h
    exact .inl ⟨rfl, rfl⟩
  | some value =>
    right
    rw [hvalue] at h
    dsimp only at h
    cases hrow : rows.get write.key with
    | none =>
      rw [hrow] at h
      cases h
    | some row =>
      rw [hrow] at h
      dsimp only at h
      cases hclock : bumped env (row.clock write.field) value with
      | error e =>
        rw [hclock] at h
        cases h
      | ok clock =>
        rw [hclock] at h
        cases h
        exact ⟨value, row, clock, rfl, rfl, hclock, rfl⟩

/-- The clocks after an assignment. -/
theorem clockAt_set {row : ClientRow O} (hrow : rows.get write.key = some row)
    (clock : ClockValue O) (key : ItemKey) (field : ClockField) :
    clockAt (rows.set write.key
        { row with clock := Function.update row.clock write.field (some clock) }) key field =
      if (key, field) = (write.key, write.field) then some clock else clockAt rows key field := by
  unfold clockAt
  rw [Dict.get_set]
  by_cases hkey : key = write.key
  · subst hkey
    rw [if_pos rfl, hrow, Option.bind_some, Option.bind_some]
    dsimp only
    by_cases hfield : field = write.field
    · subst hfield
      rw [if_pos rfl, Function.update_self]
    · rw [Function.update_of_ne hfield, if_neg]
      intro heq
      exact hfield (congrArg Prod.snd heq)
  · rw [if_neg hkey, if_neg]
    intro heq
    exact hkey (congrArg Prod.fst heq)

/-- An assignment touches one clock. -/
theorem clockAt_writeClock (h : writeClock env rows write = .ok rows') {key : ItemKey}
    {field : ClockField} (hslot : (key, field) ≠ (write.key, write.field)) :
    clockAt rows' key field = clockAt rows key field := by
  obtain ⟨_, rfl⟩ | ⟨value, row, clock, _, hrow, _, rfl⟩ := writeClock_cases h
  · rfl
  · rw [clockAt_set hrow, if_neg hslot]

/-- An assignment leaves the server's stamps alone. -/
theorem stampAt_writeClock (h : writeClock env rows write = .ok rows') (key : ItemKey) :
    stampAt rows' key = stampAt rows key := by
  obtain ⟨_, rfl⟩ | ⟨value, row, clock, _, hrow, _, rfl⟩ := writeClock_cases h
  · rfl
  · unfold stampAt
    rw [Dict.get_set]
    split_ifs with hkey
    · rw [hkey, hrow]
      rfl
    · rfl

/-- The clock of a row that is a number, as the folding asks for it. -/
theorem Numbers.of_row (h : Numbers rows) {key : ItemKey} {row : ClientRow O}
    (hrow : rows.get key = some row) (field : ClockField) :
    ∀ value, row.clock field = some value → ∃ n, value = .number n := by
  intro value hvalue
  refine h key field value ?_
  unfold clockAt
  rw [hrow]
  exact hvalue

/-- What fits, of a number. -/
theorem writeFits_number {n : ℚ} {row : ClientRow O} (hvalue : write.value = some (.number n))
    (hrow : rows.get write.key = some row) :
    WriteFits rows write ↔ (row.clock write.field = some (.number 0) → 0 ≤ n) := by
  constructor
  · exact fun h => h _ row hvalue hrow
  · intro h value' row' hvalue' hrow'
    rw [hvalue] at hvalue'
    rw [hrow] at hrow'
    cases hvalue'
    cases hrow'
    exact h

/-- What fits, of a value that is not a number. -/
theorem writeFits_of_not_number {value : ClockValue O} {row : ClientRow O}
    (hnot : ∀ n, value ≠ .number n) (hvalue : write.value = some value)
    (hrow : rows.get write.key = some row) :
    WriteFits rows write ↔
      ∃ current, row.clock write.field = some (.number current) ∧ current ≠ 0 := by
  constructor
  · intro h
    have hfits := h _ row hvalue hrow
    cases value with
    | number n => exact absurd rfl (hnot n)
    | text t => exact hfits
    | other o => exact hfits
  · intro h value' row' hvalue' hrow'
    rw [hvalue] at hvalue'
    rw [hrow] at hrow'
    cases hvalue'
    cases hrow'
    cases value with
    | number n => exact absurd rfl (hnot n)
    | text t => exact h
    | other o => exact h

/-- An assignment keeps the clocks exactly when it fits. -/
theorem keeps_iff_writeFits (hnumbers : Numbers rows)
    (h : writeClock env rows write = .ok rows') :
    Numbers rows' ∧ NoRewind rows rows' ↔ WriteFits rows write := by
  obtain ⟨hnone, rfl⟩ | ⟨value, row, clock, hvalue, hrow, hclock, rfl⟩ := writeClock_cases h
  · refine ⟨fun _ value _ hvalue => ?_, fun _ => ⟨hnumbers, fun _ _ n hn => ⟨n, hn, le_refl n⟩⟩⟩
    rw [hnone] at hvalue
    cases hvalue
  · have hcurrent := hnumbers.of_row hrow write.field
    have hat : clockAt rows write.key write.field = row.clock write.field := by
      unfold clockAt
      rw [hrow]
      rfl
    by_cases hnot : ∀ n, value ≠ .number n
    · -- It has been stored, so the clock is not a number any more.
      rw [writeFits_of_not_number hnot hvalue hrow]
      obtain ⟨herror, _⟩ | ⟨hok, hzero⟩ := bumped_of_not_number env hnot hcurrent
      · rw [hclock] at herror
        cases herror
      · rw [hclock] at hok
        cases hok
        constructor
        · rintro ⟨hnumbers', _⟩
          obtain ⟨n, hn⟩ := hnumbers' write.key write.field value
            (by rw [clockAt_set hrow, if_pos rfl])
          exact absurd hn (hnot n)
        · rintro ⟨c, hc, hne⟩
          exact absurd (hzero c hc) hne
    · obtain ⟨n, hn⟩ := not_forall_not.1 hnot
      subst hn
      rw [writeFits_number hvalue hrow]
      obtain ⟨m, hm, hle⟩ := bumped_number env n hcurrent
      rw [hclock] at hm
      cases hm
      constructor
      · rintro ⟨_, hkeep⟩ hzero
        obtain ⟨m', hm', hle'⟩ := hkeep write.key write.field 0 (by rw [hat, hzero])
        rw [clockAt_set hrow, if_pos rfl] at hm'
        cases hm'
        exact (hle 0 hzero).1 hle' rfl
      · intro hzero
        refine ⟨fun key field value' hvalue' => ?_, fun key field c hc => ?_⟩
        · rw [clockAt_set hrow] at hvalue'
          split_ifs at hvalue' with hslot
          · cases hvalue'
            exact ⟨m, rfl⟩
          · exact hnumbers key field value' hvalue'
        · rw [clockAt_set hrow]
          split_ifs with hslot
          · cases hslot
            rw [hat] at hc
            refine ⟨m, rfl, (hle c hc).2 fun h0 => hzero ?_⟩
            rw [hc, h0]
          · exact ⟨c, hc, le_refl c⟩

/-- An assignment that raises fits: its value is not a number, and the clock is not zero. -/
theorem writeFits_of_error (hnumbers : Numbers rows) {e : ClockError}
    (h : writeClock env rows write = .error e) : WriteFits rows write := by
  intro value row hvalue hrow
  have hcurrent := hnumbers.of_row hrow write.field
  have herror : ∃ e, bumped env (row.clock write.field) value = .error e := by
    unfold writeClock at h
    rw [hvalue] at h
    dsimp only at h
    rw [hrow] at h
    dsimp only at h
    cases hclock : bumped env (row.clock write.field) value with
    | error e => exact ⟨e, rfl⟩
    | ok clock =>
      rw [hclock] at h
      cases h
  obtain ⟨e, herror⟩ := herror
  have hnot : ∀ n, value ≠ .number n := by
    rintro n rfl
    obtain ⟨m, hm, _⟩ := bumped_number env n hcurrent
    rw [herror] at hm
    cases hm
  refine (writeFits_of_not_number hnot hvalue hrow).2 ?_ value row hvalue hrow
  obtain ⟨_, hc⟩ | ⟨hok, _⟩ := bumped_of_not_number env hnot hcurrent
  · exact hc
  · rw [herror] at hok
    cases hok

/-! ## The assignments of a refresh -/

/-- The clock that an assignment is made to. -/
def ClockWrite.slot (write : ClockWrite O) : ItemKey × ClockField := (write.key, write.field)

/-- An assignment that is made leads where its step does. -/
theorem writeStep_eq_some : writeStep env rows write = some rows' ↔
    writeClock env rows write = .ok rows' := by
  unfold writeStep
  cases writeClock env rows write with
  | error e => simp [Except.toOption]
  | ok rows₁ => simp [Except.toOption]

/-- The loop touches the clocks of its assignments alone. -/
theorem clockAt_writeClocks {key : ItemKey} {field : ClockField} :
    ∀ {rows : Rows O} {writes : List (ClockWrite O)}, (∀ w ∈ writes, w.slot ≠ (key, field)) →
      clockAt (writeClocks env rows writes).1 key field = clockAt rows key field
  | _, [], _ => rfl
  | rows, write :: writes, h => by
    obtain ⟨hwrite, hwrites⟩ := List.forall_mem_cons.1 h
    unfold writeClocks
    cases hok : writeClock env rows write with
    | error e => rfl
    | ok rows' =>
      dsimp only
      rw [clockAt_writeClocks hwrites, clockAt_writeClock hok (Ne.symm hwrite)]

/-- The loop leaves the server's stamps alone. -/
theorem stampAt_writeClocks (key : ItemKey) :
    ∀ (rows : Rows O) (writes : List (ClockWrite O)),
      stampAt (writeClocks env rows writes).1 key = stampAt rows key
  | _, [] => rfl
  | rows, write :: writes => by
    unfold writeClocks
    cases hok : writeClock env rows write with
    | error e => rfl
    | ok rows' =>
      dsimp only
      rw [stampAt_writeClocks key rows' writes, stampAt_writeClock hok]

/-- Assignments to different clocks keep the clocks exactly when each one that is reached fits: a
later one does not repair an earlier one. -/
theorem keeps_iff_meets_writeFits :
    ∀ {rows : Rows O} {writes : List (ClockWrite O)}, Numbers rows →
      writes.Pairwise (fun w w' => w.slot ≠ w'.slot) →
      (Numbers (writeClocks env rows writes).1 ∧ NoRewind rows (writeClocks env rows writes).1 ↔
        Meets (writeStep env) WriteFits rows writes)
  | rows, [], hnumbers, _ =>
    ⟨fun _ => trivial, fun _ => ⟨hnumbers, fun _ _ n hn => ⟨n, hn, le_refl n⟩⟩⟩
  | rows, write :: writes, hnumbers, hslots => by
    obtain ⟨hslot, hrest⟩ := List.pairwise_cons.1 hslots
    unfold writeClocks
    cases hok : writeClock env rows write with
    | error e =>
      dsimp only
      constructor
      · refine fun _ => ⟨writeFits_of_error hnumbers hok, fun rows' hrows' => ?_⟩
        rw [writeStep_eq_some, hok] at hrows'
        cases hrows'
      · exact fun _ => ⟨hnumbers, fun _ _ n hn => ⟨n, hn, le_refl n⟩⟩
    | ok rows' =>
      dsimp only
      have hfits := keeps_iff_writeFits hnumbers hok
      -- The clock of this assignment stays as it leaves it; the others are as before it.
      have hhere : clockAt (writeClocks env rows' writes).1 write.key write.field =
          clockAt rows' write.key write.field :=
        clockAt_writeClocks fun w hw => Ne.symm (hslot w hw)
      have hother : ∀ key field, (key, field) ≠ (write.key, write.field) →
          clockAt rows' key field = clockAt rows key field :=
        fun _ _ hne => clockAt_writeClock hok hne
      constructor
      · rintro ⟨hnumbers', hkeep⟩
        have hnow : Numbers rows' := by
          intro key field value hvalue
          by_cases hne : (key, field) = (write.key, write.field)
          · cases hne
            exact hnumbers' _ _ value (by rw [hhere]; exact hvalue)
          · rw [hother key field hne] at hvalue
            exact hnumbers key field value hvalue
        have hstep : NoRewind rows rows' := by
          intro key field n hn
          by_cases hne : (key, field) = (write.key, write.field)
          · cases hne
            rw [← hhere]
            exact hkeep _ _ n hn
          · rw [hother key field hne]
            exact ⟨n, hn, le_refl n⟩
        have hlater : NoRewind rows' (writeClocks env rows' writes).1 := by
          intro key field n hn
          by_cases hne : (key, field) = (write.key, write.field)
          · cases hne
            rw [hhere]
            exact ⟨n, hn, le_refl n⟩
          · rw [hother key field hne] at hn
            exact hkeep key field n hn
        exact .cons (writeStep_eq_some.2 hok) (hfits.1 ⟨hnow, hstep⟩)
          ((keeps_iff_meets_writeFits hnow hrest).1 ⟨hnumbers', hlater⟩)
      · rintro ⟨hwrite, hmeets⟩
        obtain ⟨hnow, hstep⟩ := hfits.2 hwrite
        obtain ⟨hnumbers', hlater⟩ := (keeps_iff_meets_writeFits hnow hrest).2
          (hmeets rows' (writeStep_eq_some.2 hok))
        refine ⟨hnumbers', fun key field n hn => ?_⟩
        obtain ⟨m, hm, hle⟩ := hstep key field n hn
        obtain ⟨k, hk, hle'⟩ := hlater key field m hm
        exact ⟨k, hk, le_trans hle hle'⟩

end GenropyAsgi.Site

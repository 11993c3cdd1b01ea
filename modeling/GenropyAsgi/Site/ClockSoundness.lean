import Mathlib.Tactic.NormNum
import GenropyAsgi.Site.ClockFolding

/-!
# Refreshes that keep the clocks

A refresh makes its assignments to six different clocks, on rows that `refresh_chain` has stamped
with the server's clock. It keeps the client clocks exactly when the assignments that it comes to
fit, and along a sequence of `refresh` and `handle_ping` calls the clocks are sound exactly when
every refresh does.
-/

namespace GenropyAsgi.Site

open Library

variable {O : Type} {env : ClockEnv O} {rows rows' : Rows O}

/-! ## One refresh -/

variable {call : RefreshCall O}

variable (env rows) in
/-- The rows that a refresh comes to its loop with differ in the server's stamps alone, and those
are the server's clock. -/
theorem loop_restamps (call : RefreshCall O) (key : ItemKey) :
    (call.loop env rows).1.get key = rows.get key ∨
      (call.loop env rows).1.get key =
        (rows.get key).map fun row => { row with last_refresh_ts := call.now } := by
  unfold RefreshCall.loop
  cases call.last_user_ts.converted with
  | error e => exact .inl rfl
  | ok last_user_ts =>
    cases call.last_rpc_ts.converted with
    | error e => exact .inl rfl
    | ok last_rpc_ts =>
      dsimp only
      cases rows.get (.page, call.page_id) with
      | none => exact .inl rfl
      | some page =>
        dsimp only
        have hstamped := env.restamps rows call.page_id call.now key
        cases (env.refresh_chain rows call.page_id call.now).get (.connection, page.owner) with
        | none => exact hstamped
        | some connection => exact hstamped

variable (env rows) in
/-- The clocks are the same when a refresh comes to its loop. -/
theorem clockAt_loop (call : RefreshCall O) (key : ItemKey) (field : ClockField) :
    clockAt (call.loop env rows).1 key field = clockAt rows key field := by
  unfold clockAt
  rcases loop_restamps env rows call key with h | h
  · rw [h]
  · rw [h]
    cases rows.get key with
    | none => rfl
    | some row => rfl

/-- The assignments of a refresh are made to different clocks. -/
theorem loop_slots {stamped : Rows O} {user : User} {writes : List (ClockWrite O)}
    (h : call.loop env rows = (stamped, .ok (some (user, writes)))) :
    writes.Pairwise fun w w' => w.slot ≠ w'.slot := by
  unfold RefreshCall.loop at h
  split at h
  · cases h
  · cases h
  · split at h
    · cases h
    · dsimp only at h
      split at h
      · cases h
      · cases h
        simp [chainWrites, ClockWrite.slot]

/-- What a refresh assigns is what it is called with. -/
theorem loop_values {stamped : Rows O} {user : User} {writes : List (ClockWrite O)}
    (h : call.loop env rows = (stamped, .ok (some (user, writes)))) :
    ∀ w ∈ writes, call.last_user_ts.converted = .ok w.value ∨
      call.last_rpc_ts.converted = .ok w.value := by
  unfold RefreshCall.loop at h
  split at h
  · cases h
  · cases h
  · rename_i last_user_ts last_rpc_ts huser hrpc
    split at h
    · cases h
    · dsimp only at h
      split at h
      · cases h
      · cases h
        intro w hw
        simp only [chainWrites, List.mem_cons, List.not_mem_nil, or_false] at hw
        rcases hw with rfl | rfl | rfl | rfl | rfl | rfl
        all_goals first | exact .inl huser | exact .inr hrpc

/-- The rows that a refresh leaves. -/
theorem localRefresh_fst (call : RefreshCall O) :
    (localRefresh env rows call).1 =
      match call.loop env rows with
      | (stamped, .ok (some (_, writes))) => (writeClocks env stamped writes).1
      | (stamped, _) => stamped := by
  unfold localRefresh
  split
  · rename_i h
    rw [h]
  · rename_i h
    rw [h]
  · rename_i stamped user writes h
    rw [h]
    dsimp only
    split
    · rename_i h'
      rw [h']
    · rename_i h'
      rw [h']

/-- Rows of the same clocks are kept alike. -/
theorem keeps_congr {stamped : Rows O} (h : ∀ key field, clockAt stamped key field =
    clockAt rows key field) : NoRewind stamped rows' ↔ NoRewind rows rows' := by
  unfold NoRewind
  constructor
  · intro hkeep key field n hn
    exact hkeep key field n (by rw [h]; exact hn)
  · intro hkeep key field n hn
    exact hkeep key field n (by rw [← h]; exact hn)

/-- Numbers are a matter of the clocks. -/
theorem numbers_congr {stamped : Rows O} (h : ∀ key field, clockAt stamped key field =
    clockAt rows key field) : Numbers stamped ↔ Numbers rows := by
  unfold Numbers
  constructor
  · intro hnumbers key field value hvalue
    exact hnumbers key field value (by rw [h]; exact hvalue)
  · intro hnumbers key field value hvalue
    exact hnumbers key field value (by rw [← h]; exact hvalue)

/-- A refresh keeps the clocks exactly when its assignments fit. -/
theorem keeps_iff_callFits (hnumbers : Numbers rows) (call : RefreshCall O) :
    Numbers (localRefresh env rows call).1 ∧ KeepsClocks env rows call ↔
      CallFits env rows call := by
  unfold KeepsClocks CallFits
  rw [localRefresh_fst]
  have hclocks : ∀ key field, clockAt (call.loop env rows).1 key field = clockAt rows key field :=
    clockAt_loop env rows call
  cases hloop : call.loop env rows with
  | mk stamped answer =>
    rw [hloop] at hclocks
    dsimp only at hclocks
    have hstay : Numbers stamped ∧ NoRewind rows stamped := by
      refine ⟨(numbers_congr hclocks).2 hnumbers, ?_⟩
      exact (keeps_congr hclocks).1 fun _ _ n hn => ⟨n, hn, le_refl n⟩
    rcases answer with e | _ | ⟨user, writes⟩
    · exact ⟨fun _ => trivial, fun _ => hstay⟩
    · exact ⟨fun _ => trivial, fun _ => hstay⟩
    · dsimp only
      rw [← keeps_iff_meets_writeFits hstay.1 (loop_slots hloop), keeps_congr hclocks]

/-! ## A refresh with values that can be clocks -/

/-- The value of an assignment that is absent or a number. -/
def ClockWrite.Valid (write : ClockWrite O) : Prop :=
  write.value = none ∨ ∃ n, write.value = some (.number n)

/-- Assignments of such values to rows that are there raise nothing. -/
theorem writeClocks_accepts :
    ∀ {rows : Rows O} {writes : List (ClockWrite O)}, Numbers rows → (∀ w ∈ writes, w.Valid) →
      (∀ w ∈ writes, (rows.get w.key).isSome) → (writeClocks env rows writes).2 = none
  | _, [], _, _, _ => rfl
  | rows, write :: writes, hnumbers, hvalid, hrows => by
    obtain ⟨hwrite, hwrites⟩ := List.forall_mem_cons.1 hvalid
    obtain ⟨hrow, hrest⟩ := List.forall_mem_cons.1 hrows
    unfold writeClocks
    rcases hwrite with hnone | ⟨n, hn⟩
    · have hok : writeClock env rows write = .ok rows := by
        unfold writeClock
        rw [hnone]
      rw [hok]
      exact writeClocks_accepts hnumbers hwrites hrest
    · obtain ⟨row, hrow⟩ := Option.isSome_iff_exists.1 hrow
      obtain ⟨m, hm, _⟩ := bumped_number env n (hnumbers.of_row hrow write.field)
      have hok : writeClock env rows write = .ok (rows.set write.key
          { row with clock := Function.update row.clock write.field (some (.number m)) }) := by
        unfold writeClock
        rw [hn]
        dsimp only
        rw [hrow]
        dsimp only
        rw [hm]
      rw [hok]
      refine writeClocks_accepts ?_ hwrites fun w hw => ?_
      · intro key field value hvalue
        rw [clockAt_set hrow] at hvalue
        split_ifs at hvalue with hslot
        · cases hvalue
          exact ⟨m, rfl⟩
        · exact hnumbers key field value hvalue
      · rw [Dict.get_set]
        split_ifs
        · rfl
        · exact hrest w hw

variable (env rows) in
/-- Restamping keeps the rows that are there, with their owners. -/
theorem refresh_chain_owner (page_id : PageId) (now : ℚ) (key : ItemKey) :
    ((env.refresh_chain rows page_id now).get key).map ClientRow.owner =
      (rows.get key).map ClientRow.owner := by
  rcases env.restamps rows page_id now key with h | h
  · rw [h]
  · rw [h, Option.map_map]
    rfl

/-- A value that can be a clock is absent or a number once it is converted. -/
theorem Reported.Valid.converted_eq {reported : Reported O} (h : reported.Valid)
    {value : Option (ClockValue O)} (hvalue : reported.converted = .ok value) :
    value = none ∨ ∃ n, value = some (.number n) := by
  rcases h with hnone | ⟨n, hn⟩
  · rw [hnone] at hvalue
    cases hvalue
    exact .inl rfl
  · rw [hn] at hvalue
    cases hvalue
    exact .inr ⟨n, rfl⟩

variable (env) in
/-- A refresh of a whole chain with values that can be clocks comes to its loop, or finds no page. -/
theorem loop_answers (huser : call.last_user_ts.Valid) (hrpc : call.last_rpc_ts.Valid)
    (hwhole : Whole rows call.page_id) : ∃ answer, (call.loop env rows).2 = .ok answer := by
  obtain ⟨u, hu⟩ : ∃ u, call.last_user_ts.converted = .ok u :=
    huser.elim (fun h => ⟨_, h⟩) fun ⟨_, h⟩ => ⟨_, h⟩
  obtain ⟨r, hr⟩ : ∃ r, call.last_rpc_ts.converted = .ok r :=
    hrpc.elim (fun h => ⟨_, h⟩) fun ⟨_, h⟩ => ⟨_, h⟩
  unfold RefreshCall.loop
  rw [hu, hr]
  dsimp only
  cases hpage : rows.get (.page, call.page_id) with
  | none => exact ⟨none, rfl⟩
  | some page =>
    dsimp only
    obtain ⟨connection, hconnection, _⟩ := hwhole page hpage
    have howner := refresh_chain_owner env rows call.page_id call.now (.connection, page.owner)
    rw [hconnection, Option.map_some, Option.map_eq_some_iff] at howner
    obtain ⟨connection', hconnection', _⟩ := howner
    rw [hconnection']
    exact ⟨_, rfl⟩

/-- The rows that a refresh of a whole chain assigns to are there. -/
theorem loop_there (hwhole : Whole rows call.page_id) {stamped : Rows O} {user : User}
    {writes : List (ClockWrite O)} (h : call.loop env rows = (stamped, .ok (some (user, writes)))) :
    ∀ w ∈ writes, (stamped.get w.key).isSome := by
  have howner := refresh_chain_owner env rows call.page_id call.now
  -- A row is there after the restamping when it was before.
  have hthere : ∀ key, (rows.get key).isSome →
      ((env.refresh_chain rows call.page_id call.now).get key).isSome := by
    intro key hkey
    have hkept := congrArg Option.isSome (howner key)
    rw [Option.isSome_map, Option.isSome_map] at hkept
    rw [hkept]
    exact hkey
  unfold RefreshCall.loop at h
  split at h
  · cases h
  · cases h
  · cases hpage : rows.get (.page, call.page_id) with
    | none =>
      rw [hpage] at h
      cases h
    | some page =>
      rw [hpage] at h
      dsimp only at h
      obtain ⟨connection, hconnection, huser⟩ := hwhole page hpage
      have hconnection' := howner (.connection, page.owner)
      rw [hconnection, Option.map_some, Option.map_eq_some_iff] at hconnection'
      obtain ⟨connection', hconnection', howner'⟩ := hconnection'
      rw [hconnection'] at h
      cases h
      have h1 := hthere (.page, call.page_id) (by rw [hpage]; rfl)
      have h2 := hthere (.connection, page.owner) (by rw [hconnection]; rfl)
      have h3 := hthere (.user, connection'.owner) (by rw [howner']; exact huser)
      intro w hw
      simp only [chainWrites, List.mem_cons, List.not_mem_nil, or_false] at hw
      rcases hw with rfl | rfl | rfl | rfl | rfl | rfl
      · exact h1
      · exact h1
      · exact h2
      · exact h2
      · exact h3
      · exact h3

/-- Rows whose clocks are numbers accept every refresh of a whole chain with values that can be
clocks. -/
theorem Numbers.accepts (hnumbers : Numbers rows) : Accepts env rows := by
  intro call huser hrpc hwhole
  obtain ⟨answer, hanswer⟩ := loop_answers env huser hrpc hwhole
  unfold localRefresh
  cases hcall : call.loop env rows with
  | mk stamped answer' =>
    rw [hcall] at hanswer
    cases hanswer
    rcases answer with _ | ⟨user, writes⟩
    · exact ⟨none, rfl⟩
    · dsimp only
      have hstamped : Numbers stamped := by
        refine (numbers_congr fun key field => ?_).2 hnumbers
        have h := clockAt_loop env rows call key field
        rw [hcall] at h
        exact h
      have hvalid : ∀ w ∈ writes, w.Valid := fun w hw =>
        (loop_values hcall w hw).elim huser.converted_eq hrpc.converted_eq
      have hnone : (writeClocks env stamped writes).2 = none :=
        writeClocks_accepts hstamped hvalid (loop_there hwhole hcall)
      cases hloop : writeClocks env stamped writes with
      | mk written e =>
        rw [hloop] at hnone
        cases hnone
        exact ⟨_, rfl⟩

/-- A refresh whose values are absent or numbers, none of them negative. -/
def RefreshCall.NonNegative (call : RefreshCall O) : Prop :=
  (call.last_user_ts.converted = .ok none ∨
      ∃ n, call.last_user_ts.converted = .ok (some (.number n)) ∧ 0 ≤ n) ∧
    (call.last_rpc_ts.converted = .ok none ∨
      ∃ n, call.last_rpc_ts.converted = .ok (some (.number n)) ∧ 0 ≤ n)

/-- A value that is absent or a number that is not negative is such a number where it is there. -/
theorem nonneg_of_converted {reported : Reported O}
    (h : reported.converted = .ok none ∨ ∃ n, reported.converted = .ok (some (.number n)) ∧ 0 ≤ n)
    {value : ClockValue O} (hvalue : reported.converted = .ok (some value)) :
    ∃ n, value = .number n ∧ 0 ≤ n := by
  rcases h with hnone | ⟨n, hn, hpos⟩
  · rw [hnone] at hvalue
    cases hvalue
  · rw [hn] at hvalue
    cases hvalue
    exact ⟨n, rfl, hpos⟩

/-- Numbers that are not negative fit every clock. -/
theorem RefreshCall.NonNegative.fits (h : call.NonNegative) : CallFits env rows call := by
  unfold CallFits
  cases hloop : call.loop env rows with
  | mk stamped answer =>
    rcases answer with e | _ | ⟨user, writes⟩
    · trivial
    · trivial
    · dsimp only
      have hvalues : ∀ w ∈ writes, ∀ value, w.value = some value →
          ∃ n, value = .number n ∧ 0 ≤ n := by
        intro w hw value hvalue
        have hw := loop_values hloop w hw
        rw [hvalue] at hw
        exact hw.elim (nonneg_of_converted h.1) (nonneg_of_converted h.2)
      refine (Meets.of_forall hvalues).imp fun rows₁ w hw value row hvalue hrow => ?_
      obtain ⟨n, rfl, hpos⟩ := hw value hvalue
      exact fun _ => hpos

/-! ## Runs -/

variable (env rows) in
/-- A refresh stamps rows with the server's clock. -/
theorem stampAt_localRefresh (call : RefreshCall O) (key : ItemKey) :
    stampAt (localRefresh env rows call).1 key = stampAt rows key ∨
      stampAt (localRefresh env rows call).1 key = some call.now := by
  have hloop : stampAt (call.loop env rows).1 key = stampAt rows key ∨
      stampAt (call.loop env rows).1 key = some call.now := by
    unfold stampAt
    rcases loop_restamps env rows call key with h | h
    · exact .inl (by rw [h])
    · rw [h]
      cases rows.get key with
      | none => exact .inl rfl
      | some row => exact .inr rfl
  have hwrites : stampAt (localRefresh env rows call).1 key =
      stampAt (call.loop env rows).1 key := by
    rw [localRefresh_fst]
    split
    · rename_i stamped user writes h
      rw [h, stampAt_writeClocks]
    · rename_i h
      rw [h]
  rw [hwrites]
  exact hloop

/-- The stamps after a run of refreshes. -/
theorem stampAt_run (key : ItemKey) :
    ∀ {rows final : Rows O} {calls : List (RefreshCall O)},
      run (refreshStep env) rows calls = some final →
      stampAt final key = stampAt rows key ∨
        ∃ call ∈ calls, stampAt final key = some call.now
  | _, _, [], h => by
    cases h
    exact .inl rfl
  | rows, final, call :: calls, h => by
    obtain ⟨rows₁, h₁, hrest⟩ := (run_cons_eq_some (refreshStep env)).1 h
    cases h₁
    rcases stampAt_run key hrest with hsame | ⟨later, hlater, hstamp⟩
    · rcases stampAt_localRefresh env rows call key with hstep | hstep
      · exact .inl (hsame.trans hstep)
      · exact .inr ⟨call, List.mem_cons_self, hsame.trans hstep⟩
    · exact .inr ⟨later, List.mem_cons_of_mem call hlater, hstamp⟩

/-- A site with one chain: its stamping touches every row, its catalog leaves texts as they are. -/
def oneChain : ClockEnv Empty where
  truthy := fun o => o.elim
  gt := fun o _ => o.elim
  fromTypedText := fun text => .ok (.text text)
  refresh_chain := fun rows _ now => rows.mapVals fun _ row => { row with last_refresh_ts := now }
  restamps := fun rows _ _ key => .inr (Dict.get_mapVals _ rows key)

/-- The rows of a page, its connection and its user. -/
def threeRows : Rows Empty :=
  ((((∅ : Rows Empty).set (.page, "p") ⟨"c", 0, fun _ => none⟩).set
    (.connection, "c") ⟨"u", 0, fun _ => none⟩).set (.user, "u") ⟨"", 0, fun _ => none⟩)

/-- None of the three rows has a clock. -/
theorem numbers_threeRows : Numbers threeRows := by
  intro key field value h
  unfold clockAt threeRows at h
  simp only [Dict.get_set, Dict.get_empty] at h
  split_ifs at h <;> cases h

end GenropyAsgi.Site

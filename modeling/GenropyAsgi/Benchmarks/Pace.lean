import GenropyAsgi.Benchmarks.CyclePlan

/-!
# One call a second, no two calls one instant

What the cycle plan promises of a phase (`Paced`): no two of its instants are the same, all of them
lie inside its window, and every active user makes its calls in steps of one second, the first of
them a second after its entry where it has one.

All of it but the first holds of every plan. The instants of the ramps are distinct for some periods
only: two users meet where what parts their entries and what parts their offsets come to a whole
number of seconds, and the ramp goes on after the later of them has begun. For the logins that can
be told from the period and the number of users (`LoginsApart`); for the returns it depends on the
order that was drawn (`ReturnsApart`).
-/

namespace GenropyAsgi.Benchmarks

open Library

namespace CyclePlan

variable (plan : CyclePlan)

/-- When a user logs in or returns in a phase. -/
def entryOf : Phase → ℕ → Option ℚ
  | .login_ramp, index => some (index * plan.login_period)
  | .return_ramp, index =>
    (plan.paused_order.idxOf? (userName index)).map fun (position : ℕ) =>
      (position : ℚ) * plan.return_period
  | _, _ => none

/-- The users that call in a phase: in the pause, those that are not paused. -/
def Active (phase : Phase) (index : ℕ) : Prop :=
  index < plan.users ∧ (phase = .pause_50 → userName index ∉ plan.paused_order)

/-- The instants of one user in a phase. -/
def callsOf (window : Window) (index : ℕ) : List ℚ :=
  ((plan.builders window.phase window).filter fun row => decide (row.2 = index)).map Prod.fst

/-- What the plan promises of a phase. -/
structure Paced (window : Window) : Prop where
  /-- No two instants are the same. -/
  distinct : ((plan.builders window.phase window).map Prod.fst).Nodup
  /-- All of them lie inside the window. -/
  inside : ∀ row ∈ plan.builders window.phase window, 0 ≤ row.1 ∧ row.1 < window.seconds
  /-- An active user calls in steps of one second up to the end of the window, from an instant of
  the first second or, where it enters, of the second that begins one second after. -/
  steps : ∀ index, plan.Active window.phase index → ∃ first,
    (plan.entryOf window.phase index = none → 0 ≤ first ∧ first < 1) ∧
    (∀ entry, plan.entryOf window.phase index = some entry →
      entry + 1 ≤ first ∧ first < entry + 2) ∧
    ∀ (k : ℕ) (t : ℚ), (plan.callsOf window index)[k]? = some t ↔
      t = first + k ∧ t < window.seconds
  /-- Nobody else has a row. -/
  silent : ∀ index, ¬ plan.Active window.phase index → plan.callsOf window index = []

/-- The period and a slot, as a fraction in lowest terms, have a numerator that is at most one short
of the length of the ramp. -/
def LoginsApart : Prop :=
  (plan.users : ℚ) * plan.login_period ≤ 1 + (plan.login_period + 1 / plan.users).num

/-- Where a user stands in the return ramp: its return, if it is paused, and its offset. -/
def slotOf (index : ℕ) : ℚ := (plan.entryOf .return_ramp index).getD 0 + plan.offsetOf index

/-- Whoever returns early enough to call has no slot an integer away from the slot of one who was
never paused or has returned before. -/
def ReturnsApart : Prop :=
  ∀ index < plan.users, ∀ entry, plan.entryOf .return_ramp index = some entry →
    entry + 1 + plan.offsetOf index < (plan.paused + 1) * plan.return_period →
    ∀ other < plan.users, other ≠ index →
      (∀ earlier, plan.entryOf .return_ramp other = some earlier → earlier < entry) →
      ∀ k : ℤ, plan.slotOf index - plan.slotOf other ≠ k

/-- The first instant of a user that calls in a phase. -/
def beginOf (phase : Phase) (index : ℕ) : ℚ :=
  ((plan.entryOf phase index).elim 0 fun entry => entry + 1) + plan.offsetOf index

/-- The argument `first_call_at` of a user in a phase. -/
def firstCallAt (phase : Phase) (index : ℕ) : Option ℚ :=
  if phase = .pause_50 ∧ userName index ∈ plan.paused_order then none
  else some ((plan.entryOf phase index).elim 0 fun entry => entry + 1)

variable {plan}

/-! ## The builders -/

/-- Every builder is the common loop. -/
theorem builders_eq (phase : Phase) (window : Window) :
    plan.builders phase window = plan.rowsFrom (plan.firstCallAt phase) window := by
  cases phase with
  | login_ramp => rfl
  | full_warmup => rfl
  | full_measure_1 => rfl
  | pause_50 =>
    refine congrArg (plan.rowsFrom · window) (funext fun index => ?_)
    by_cases hpaused : userName index ∈ plan.paused_order
    · rw [if_pos hpaused, firstCallAt, if_pos ⟨rfl, hpaused⟩]
    · rw [if_neg hpaused, firstCallAt, if_neg fun h => hpaused h.2]
      rfl
  | return_ramp =>
    refine congrArg (plan.rowsFrom · window) (funext fun index => ?_)
    simp only [firstCallAt, entryOf, get_pausedAt, reduceCtorEq, false_and, if_false]
    cases plan.paused_order.idxOf? (userName index) with
    | none => rfl
    | some position => rfl
  | full_measure_2 => rfl

/-- Nobody enters before the phase begins. -/
theorem entryOf_nonneg {phase : Phase} {index : ℕ} {entry : ℚ}
    (h : plan.entryOf phase index = some entry) : 0 ≤ entry := by
  cases phase with
  | login_ramp =>
    cases h
    exact mul_nonneg (Nat.cast_nonneg _) plan.login_period_pos.le
  | return_ramp =>
    obtain ⟨position, _, rfl⟩ := Option.map_eq_some_iff.1 h
    exact mul_nonneg (Nat.cast_nonneg _) plan.return_period_pos.le
  | full_warmup => cases h
  | full_measure_1 => cases h
  | pause_50 => cases h
  | full_measure_2 => cases h

/-- No first call is before the phase begins. -/
theorem firstCallAt_nonneg {phase : Phase} {index : ℕ} {first : ℚ}
    (h : plan.firstCallAt phase index = some first) : 0 ≤ first := by
  unfold firstCallAt at h
  split_ifs at h
  cases h
  cases hentry : plan.entryOf phase index with
  | none => exact le_refl _
  | some entry => exact add_nonneg (entryOf_nonneg hentry) zero_le_one

/-- A user alone of all. -/
theorem flatMap_range_ite {α : Type} (of : ℕ → List α) (index : ℕ) (users : ℕ) :
    ((List.range users).flatMap fun i => if i = index then of i else []) =
      if index < users then of index else [] := by
  induction users with
  | zero => rfl
  | succ users ih =>
    rw [List.range_succ, List.flatMap_append, ih, List.flatMap_singleton]
    obtain hlt | rfl | hgt := lt_trichotomy index users
    · rw [if_pos hlt, if_neg hlt.ne', if_pos (by omega), List.append_nil]
    · rw [if_neg (lt_irrefl _), if_pos rfl, if_pos (by omega), List.nil_append]
    · rw [if_neg (by omega), if_neg hgt.ne, if_neg (by omega), List.append_nil]

variable (plan) in
/-- The instants of a user are steps of one. -/
theorem callsOf_eq (window : Window) (index : ℕ) :
    plan.callsOf window index =
      if index < plan.users then
        (plan.firstCallAt window.phase index).elim [] fun first =>
          unitSteps (first + plan.offsetOf index) window.seconds
      else [] := by
  rw [callsOf, builders_eq, rowsFrom, List.filter_flatMap, List.map_flatMap]
  rw [← flatMap_range_ite fun i => (plan.firstCallAt window.phase i).elim [] fun first =>
    unitSteps (first + plan.offsetOf i) window.seconds]
  refine List.flatMap_congr fun i _ => ?_
  by_cases hi : i = index
  · rw [if_pos hi]
    cases plan.firstCallAt window.phase i with
    | none => rfl
    | some first =>
      dsimp only [Option.elim_some]
      rw [List.filter_eq_self.2, List.map_map, userCalls_eq]
      · exact List.map_id _
      · intro row hrow
        obtain ⟨when, _, rfl⟩ := List.mem_map.1 hrow
        exact decide_eq_true hi
  · rw [if_neg hi]
    cases plan.firstCallAt window.phase i with
    | none => rfl
    | some first =>
      dsimp only
      rw [List.filter_eq_nil_iff.2, List.map_nil]
      intro row hrow
      obtain ⟨when, _, rfl⟩ := List.mem_map.1 hrow
      simpa using hi

/-! ## What every plan keeps -/

/-- All instants lie inside the window. -/
theorem rows_inside (window : Window) (row : ℚ × ℕ)
    (hrow : row ∈ plan.builders window.phase window) : 0 ≤ row.1 ∧ row.1 < window.seconds := by
  rw [builders_eq] at hrow
  have hinstant := List.mem_map_of_mem (f := Prod.fst) hrow
  rw [map_fst_rowsFrom] at hinstant
  obtain ⟨index, _, hindex⟩ := List.mem_flatMap.1 hinstant
  cases hfirst : plan.firstCallAt window.phase index with
  | none =>
    rw [hfirst] at hindex
    cases hindex
  | some first =>
    rw [hfirst] at hindex
    obtain ⟨k, hk, hlt⟩ := mem_unitSteps.1 hindex
    have hnonneg := firstCallAt_nonneg hfirst
    have hoffset := offsetOf_nonneg plan index
    have hstep := Nat.cast_nonneg (α := ℚ) k
    exact ⟨by linarith, hlt⟩

/-- Every active user calls in steps of one second. -/
theorem calls_step (window : Window) {index : ℕ} (hactive : plan.Active window.phase index) :
    ∃ first, (plan.entryOf window.phase index = none → 0 ≤ first ∧ first < 1) ∧
      (∀ entry, plan.entryOf window.phase index = some entry →
        entry + 1 ≤ first ∧ first < entry + 2) ∧
      ∀ (k : ℕ) (t : ℚ), (plan.callsOf window index)[k]? = some t ↔
        t = first + k ∧ t < window.seconds := by
  obtain ⟨hindex, hpause⟩ := hactive
  have hnonneg := offsetOf_nonneg plan index
  have hlt := offsetOf_lt_one hindex
  have hcalls := callsOf_eq plan window index
  rw [if_pos hindex, firstCallAt, if_neg fun h => hpause h.1 h.2] at hcalls
  refine ⟨_, ?_, ?_, fun k t => by rw [hcalls]; exact getElem?_unitSteps⟩
  · intro hentry
    rw [hentry, Option.elim_none, zero_add]
    exact ⟨hnonneg, hlt⟩
  · intro entry hentry
    rw [hentry, Option.elim_some]
    exact ⟨by linarith, by linarith⟩

/-- Nobody else has a row. -/
theorem callsOf_eq_nil (window : Window) {index : ℕ}
    (hactive : ¬ plan.Active window.phase index) : plan.callsOf window index = [] := by
  rw [callsOf_eq]
  split_ifs with hindex
  · have hpaused : window.phase = .pause_50 ∧ userName index ∈ plan.paused_order := by
      by_contra h
      exact hactive ⟨hindex, fun hphase hname => h ⟨hphase, hname⟩⟩
    rw [firstCallAt, if_pos hpaused]
    rfl
  · rfl

/-- A phase is paced exactly where no two of its instants are the same. -/
theorem paced_iff (window : Window) :
    plan.Paced window ↔ ((plan.builders window.phase window).map Prod.fst).Nodup :=
  ⟨Paced.distinct, fun h => ⟨h, rows_inside window, fun _ => calls_step window,
    fun _ => callsOf_eq_nil window⟩⟩

/-! ## Distinct instants -/

variable (plan) in
/-- No two instants of a phase are the same exactly where no two users that call in it begin an
integer apart. -/
theorem distinct_iff (window : Window) :
    ((plan.builders window.phase window).map Prod.fst).Nodup ↔
      ∀ i < plan.users, ∀ j < plan.users, i ≠ j →
        ∀ f ∈ plan.firstCallAt window.phase i, ∀ g ∈ plan.firstCallAt window.phase j,
          f + plan.offsetOf i < window.seconds → g + plan.offsetOf j < window.seconds →
            ∀ k : ℤ, g + plan.offsetOf j - (f + plan.offsetOf i) ≠ k := by
  rw [builders_eq, map_fst_rowsFrom, nodup_flatMap_unitSteps_iff List.nodup_range]
  simp only [List.mem_range, Option.mem_def, Option.map_eq_some_iff, forall_exists_index, and_imp,
    forall_apply_eq_imp_iff₂]

variable (plan) in
/-- In a phase in which all users call, no two instants are the same exactly where no two users begin
an integer apart, both inside the window. -/
theorem distinct_iff_begins {phase : Phase} (hphase : phase ≠ .pause_50) (rate seconds : ℚ) :
    ((plan.builders phase ⟨phase, rate, seconds⟩).map Prod.fst).Nodup ↔
      ∀ i < plan.users, ∀ j < plan.users, i ≠ j → plan.beginOf phase i < seconds →
        plan.beginOf phase j < seconds → ∀ k : ℤ, plan.beginOf phase j - plan.beginOf phase i ≠ k := by
  have hfirst : ∀ index, plan.firstCallAt phase index =
      some ((plan.entryOf phase index).elim 0 fun entry => entry + 1) := fun index => by
    rw [firstCallAt, if_neg fun h => hphase h.1]
  have hdistinct := distinct_iff plan ⟨phase, rate, seconds⟩
  simp only [hfirst, Option.mem_def, Option.some_inj, forall_eq'] at hdistinct
  exact hdistinct

/-- Offsets of different users are no integer apart. -/
theorem offsets_apart {i j : ℕ} (hi : i < plan.users) (hj : j < plan.users) (hne : i ≠ j) (k : ℤ) :
    plan.offsetOf j - plan.offsetOf i ≠ k := by
  intro hk
  have hi0 := offsetOf_nonneg plan i
  have hj0 := offsetOf_nonneg plan j
  have hi1 := offsetOf_lt_one hi
  have hj1 := offsetOf_lt_one hj
  have hlow : (-1 : ℤ) < k := by
    have : (-1 : ℚ) < k := by linarith
    exact_mod_cast this
  have hhigh : k < 1 := by
    have : (k : ℚ) < 1 := by linarith
    exact_mod_cast this
  obtain rfl : k = 0 := by omega
  rw [Int.cast_zero] at hk
  obtain hlt | hlt := Nat.lt_or_gt_of_ne hne
  · have := offsetOf_lt plan hlt
    linarith
  · have := offsetOf_lt plan hlt
    linarith

/-- Where nobody enters, no two instants are the same. -/
theorem distinct_of_no_entry (window : Window)
    (h : ∀ index, plan.entryOf window.phase index = none) :
    ((plan.builders window.phase window).map Prod.fst).Nodup := by
  have hzero : ∀ {index : ℕ} {f : ℚ}, f ∈ plan.firstCallAt window.phase index → f = 0 := by
    intro index f hf
    rw [firstCallAt, h] at hf
    split_ifs at hf
    · cases hf
    · cases hf
      rfl
  refine (distinct_iff plan window).2 fun i hi j hj hne f hf g hg _ _ k => ?_
  rw [hzero hf, hzero hg, zero_add, zero_add]
  exact offsets_apart hi hj hne k

/-! ## The login ramp -/

/-- Two users that meet in the login ramp, the later of which begins inside it, are a multiple of
the denominator apart. -/
theorem logins_meet {i j : ℕ} (hij : i < j) {k : ℤ} {seconds : ℚ}
    (hinside : j * plan.login_period + 1 + plan.offsetOf j < seconds)
    (hk : j * plan.login_period + 1 + plan.offsetOf j -
      (i * plan.login_period + 1 + plan.offsetOf i) = k) :
    1 + ((plan.login_period + 1 / plan.users).num : ℚ) < seconds := by
  set pace := plan.login_period + 1 / plan.users with hpace
  have hpos : 0 < pace := add_pos plan.login_period_pos
    (one_div_pos.2 (Nat.cast_pos.2 users_pos))
  have hoffset : ∀ index : ℕ, index * plan.login_period + plan.offsetOf index = index * pace := by
    intro index
    rw [hpace, offsetOf]
    ring
  have hmultiple : ((j - i : ℕ) : ℚ) * pace = k := by
    rw [Nat.cast_sub hij.le]
    have hi := hoffset i
    have hj := hoffset j
    linarith
  have hden : pace.den ≤ j := by
    have hdvd := den_dvd_of_mul_eq (by omega) hmultiple
    have := Nat.le_of_dvd (by omega) hdvd
    omega
  have hnum : (pace.num : ℚ) ≤ j * pace := by
    rw [← Rat.den_mul_eq_num]
    exact mul_le_mul_of_nonneg_right (Nat.cast_le.2 hden) hpos.le
  have hj := hoffset j
  linarith

/-- The instants of the login ramp are distinct exactly where its logins are apart. -/
theorem distinct_login_iff {rate : ℚ} :
    ((plan.builders .login_ramp ⟨.login_ramp, rate, plan.users * plan.login_period⟩).map
      Prod.fst).Nodup ↔ plan.LoginsApart := by
  have hbegin : ∀ index : ℕ, plan.beginOf .login_ramp index =
      index * plan.login_period + 1 + plan.offsetOf index := fun _ => rfl
  rw [distinct_iff_begins plan (by decide)]
  simp only [hbegin]
  constructor
  · intro hapart
    by_contra hnot
    have hshort := not_le.1 hnot
    -- The first user, and the one that the denominator counts.
    set pace := plan.login_period + 1 / plan.users with hpace
    have hpos : 0 < pace := add_pos plan.login_period_pos
      (one_div_pos.2 (Nat.cast_pos.2 users_pos))
    have hnum : (pace.den : ℚ) * pace = pace.num := Rat.den_mul_eq_num _
    have hnum_pos : (0 : ℚ) < pace.num := Int.cast_pos.2 (Rat.num_pos.2 hpos)
    have hden : (pace.den : ℚ) * plan.login_period + plan.offsetOf pace.den = pace.num := by
      rw [← hnum, hpace, offsetOf]
      ring
    have hoffset := offsetOf_nonneg plan pace.den
    have hlt : pace.den < plan.users := by
      have hmul : (pace.den : ℚ) * plan.login_period < plan.users * plan.login_period := by linarith
      exact_mod_cast lt_of_mul_lt_mul_right hmul plan.login_period_pos.le
    have hzero : plan.offsetOf 0 = 0 := by rw [offsetOf, Nat.cast_zero, zero_div]
    refine hapart 0 users_pos pace.den hlt pace.den_pos.ne ?_ ?_ pace.num ?_
    · rw [hzero, Nat.cast_zero]
      linarith
    · linarith
    · rw [hzero, Nat.cast_zero]
      linarith
  · intro hlong i _ j _ hne hi hj k hk
    obtain hlt | hlt := Nat.lt_or_gt_of_ne hne
    · exact absurd (logins_meet hlt hj hk) (not_lt.2 hlong)
    · refine absurd (logins_meet hlt hi (k := -k) ?_) (not_lt.2 hlong)
      push_cast
      linarith

/-! ## The return ramp -/

/-- No two users return at once. -/
theorem entryOf_return_injective {i j : ℕ} {entry : ℚ}
    (hi : plan.entryOf .return_ramp i = some entry)
    (hj : plan.entryOf .return_ramp j = some entry) : i = j := by
  obtain ⟨position, hposition, rfl⟩ := Option.map_eq_some_iff.1 hi
  obtain ⟨position', hposition', heq⟩ := Option.map_eq_some_iff.1 hj
  obtain rfl : position' = position := by
    exact_mod_cast mul_right_cancel₀ plan.return_period_pos.ne' heq
  obtain ⟨_, hname, _⟩ := List.idxOf?_eq_some_iff.1 hposition
  obtain ⟨_, hname', _⟩ := List.idxOf?_eq_some_iff.1 hposition'
  exact userName_injective (hname.symm.trans hname')

variable (plan) in
/-- Of two users one returns after the other, or neither was paused. -/
theorem return_order {i j : ℕ} (hne : i ≠ j) :
    (plan.entryOf .return_ramp i = none ∧ plan.entryOf .return_ramp j = none) ∨
      (∃ entry, plan.entryOf .return_ramp j = some entry ∧
        ∀ earlier, plan.entryOf .return_ramp i = some earlier → earlier < entry) ∨
      ∃ entry, plan.entryOf .return_ramp i = some entry ∧
        ∀ earlier, plan.entryOf .return_ramp j = some earlier → earlier < entry := by
  cases hi : plan.entryOf .return_ramp i with
  | none =>
    cases hj : plan.entryOf .return_ramp j with
    | none => exact .inl ⟨rfl, rfl⟩
    | some entry => exact .inr (.inl ⟨entry, rfl, fun _ h => nomatch h⟩)
  | some entry =>
    cases hj : plan.entryOf .return_ramp j with
    | none => exact .inr (.inr ⟨entry, rfl, fun _ h => nomatch h⟩)
    | some entry' =>
      obtain hlt | rfl | hlt := lt_trichotomy entry entry'
      · exact .inr (.inl ⟨entry', rfl, fun _ h => Option.some.inj h ▸ hlt⟩)
      · exact absurd (entryOf_return_injective hi hj) hne
      · exact .inr (.inr ⟨entry, rfl, fun _ h => Option.some.inj h ▸ hlt⟩)

/-- Who enters begins one second later, at its offset. -/
theorem beginOf_of_entry {phase : Phase} {index : ℕ} {entry : ℚ}
    (h : plan.entryOf phase index = some entry) :
    plan.beginOf phase index = entry + 1 + plan.offsetOf index := by
  rw [beginOf, h, Option.elim_some]

/-- Who does not enter begins at its offset. -/
theorem beginOf_of_no_entry {phase : Phase} {index : ℕ} (h : plan.entryOf phase index = none) :
    plan.beginOf phase index = plan.offsetOf index := by
  rw [beginOf, h, Option.elim_none, zero_add]

variable (plan) in
/-- A user begins at its slot in the return ramp, or one second after. -/
theorem beginOf_eq_slotOf (index : ℕ) :
    ∃ c : ℤ, plan.beginOf .return_ramp index = plan.slotOf index + c := by
  cases h : plan.entryOf .return_ramp index with
  | none =>
    refine ⟨0, ?_⟩
    rw [beginOf_of_no_entry h, slotOf, h, Option.getD_none, zero_add, Int.cast_zero, add_zero]
  | some entry =>
    refine ⟨1, ?_⟩
    rw [beginOf_of_entry h, slotOf, h, Option.getD_some, Int.cast_one, add_right_comm]

/-- A user that returns later than another, an integer of slots apart, does not begin sooner. -/
theorem beginOf_le {index other : ℕ} {entry : ℚ}
    (hentry : plan.entryOf .return_ramp index = some entry) (hother : other < plan.users)
    (hearlier : ∀ earlier, plan.entryOf .return_ramp other = some earlier → earlier < entry) {k : ℤ}
    (hk : plan.slotOf index - plan.slotOf other = k) :
    plan.beginOf .return_ramp other ≤ plan.beginOf .return_ramp index := by
  have hentry_nonneg := entryOf_nonneg hentry
  have hindex_nonneg := offsetOf_nonneg plan index
  have hother_lt := offsetOf_lt_one hother
  rw [slotOf, slotOf, hentry, Option.getD_some] at hk
  rw [beginOf_of_entry hentry]
  cases hback : plan.entryOf .return_ramp other with
  | none =>
    rw [beginOf_of_no_entry hback]
    linarith
  | some earlier =>
    rw [hback, Option.getD_some] at hk
    rw [beginOf_of_entry hback]
    -- Offsets are less than a second, so that what parts the slots is not negative.
    have hlt := hearlier earlier hback
    have hk_gt : (-1 : ℤ) < k := by
      have : (-1 : ℚ) < k := by linarith
      exact_mod_cast this
    have hk_nonneg : (0 : ℚ) ≤ k := by exact_mod_cast Int.le_of_sub_one_lt hk_gt
    linarith

/-- The instants of the return ramp are distinct exactly where its returns are apart. -/
theorem distinct_return_iff {rate : ℚ} :
    ((plan.builders .return_ramp
      ⟨.return_ramp, rate, (plan.paused + 1) * plan.return_period⟩).map Prod.fst).Nodup ↔
        plan.ReturnsApart := by
  rw [distinct_iff_begins plan (by decide)]
  constructor
  · intro hapart index hindex entry hentry hinside other hother hne hearlier k hk
    have hle := beginOf_le hentry hother hearlier hk
    rw [← beginOf_of_entry hentry] at hinside
    obtain ⟨c, hc⟩ := beginOf_eq_slotOf plan index
    obtain ⟨c', hc'⟩ := beginOf_eq_slotOf plan other
    refine hapart other hother index hindex hne (lt_of_le_of_lt hle hinside) hinside (k + c - c') ?_
    rw [hc, hc']
    push_cast
    linarith
  · intro hapart i hi j hj hne hinside hinside' k hk
    obtain ⟨c, hc⟩ := beginOf_eq_slotOf plan i
    obtain ⟨c', hc'⟩ := beginOf_eq_slotOf plan j
    obtain ⟨hentry, hentry'⟩ | ⟨entry, hentry, hearlier⟩ | ⟨entry, hentry, hearlier⟩ :=
      return_order plan hne
    · rw [beginOf_of_no_entry hentry, beginOf_of_no_entry hentry'] at hk
      exact offsets_apart hi hj hne k hk
    · rw [beginOf_of_entry hentry] at hinside'
      refine hapart j hj entry hentry hinside' i hi hne hearlier (k - c' + c) ?_
      rw [hc, hc'] at hk
      push_cast
      linarith
    · rw [beginOf_of_entry hentry] at hinside
      refine hapart i hi entry hentry hinside j hj hne.symm hearlier (c' - c - k) ?_
      rw [hc, hc'] at hk
      push_cast
      linarith

/-- **The cycle plan gives every active user one call a second, and no two calls one instant,
exactly where its logins and its returns are apart.** For every number of users, every order of
return drawn from fewer than all of them, every positive login and return period, and whatever the
lengths of the other phases. -/
theorem phases_paced_iff (plan : CyclePlan) :
    (∀ window ∈ plan.phases, plan.Paced window) ↔ plan.LoginsApart ∧ plan.ReturnsApart := by
  simp only [phases, List.forall_mem_cons, List.not_mem_nil, false_implies, implies_true, and_true,
    paced_iff, distinct_login_iff, distinct_return_iff]
  have hstill : ∀ (phase : Phase) (rate seconds : ℚ), (∀ index, plan.entryOf phase index = none) →
      ((plan.builders phase ⟨phase, rate, seconds⟩).map Prod.fst).Nodup :=
    fun phase rate seconds h => distinct_of_no_entry ⟨phase, rate, seconds⟩ h
  constructor
  · rintro ⟨hlogins, _, _, _, hreturns, _⟩
    exact ⟨hlogins, hreturns⟩
  · rintro ⟨hlogins, hreturns⟩
    exact ⟨hlogins, hstill _ _ _ fun _ => rfl, hstill _ _ _ fun _ => rfl,
      hstill _ _ _ fun _ => rfl, hreturns, hstill _ _ _ fun _ => rfl⟩

/-- Four users that log in every three quarters of a second. -/
def threeQuarters : CyclePlan where
  users := 4
  paused_order := []
  login_period := 3 / 4
  return_period := 1
  warmup_seconds := 60
  measure_seconds := 120
  pause_seconds := 60
  drawn := List.nil_subperm
  paused_lt_users := by decide
  login_period_pos := by norm_num
  return_period_pos := one_pos

/-- `user_1` makes its second call and `user_2` its first one at the instant 2. -/
theorem threeQuarters_not_paced :
    ¬ ∀ window ∈ threeQuarters.phases, threeQuarters.Paced window := by
  intro h
  have hlogins := h _ List.mem_cons_self
  have hapart : threeQuarters.LoginsApart := distinct_login_iff.1 ((paced_iff _).1 hlogins)
  have hpace : (3 / 4 : ℚ) + 1 / ((4 : ℕ) : ℚ) = 1 := by norm_num
  simp only [LoginsApart, threeQuarters, hpace, Rat.num_one] at hapart
  norm_num at hapart

end CyclePlan

end GenropyAsgi.Benchmarks

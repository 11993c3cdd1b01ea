import Mathlib
import GenropyAsgi.Library.Dict
import GenropyAsgi.Library.UnitSteps

/-!
# The cycle plan

`CyclePlan` of `make_cycle_trace.py`, over exact rationals: which users pause and in which order
they come back, the six phases, and the rows of each, a row being an instant and a user. Users are
counted from 0, and user `index` is called `user_{index + 1}`.

The order of return is drawn once, and any draw is taken. The lookups of the calls, their rounding
to microseconds, the capture and the protocol that is written out beside the rows are not modelled.
-/

namespace GenropyAsgi.Benchmarks

open Library

/-- `f"user_{index + 1}"`. -/
def userName (index : ℕ) : String := "user_" ++ toString (index + 1)

/-- The phases. -/
inductive Phase where
  /-- `login_ramp`. -/
  | login_ramp
  /-- `full_warmup`. -/
  | full_warmup
  /-- `full_measure_1`. -/
  | full_measure_1
  /-- `pause_50`. -/
  | pause_50
  /-- `return_ramp`. -/
  | return_ramp
  /-- `full_measure_2`. -/
  | full_measure_2
deriving DecidableEq

/-- A phase with its nominal peak rate and its length. -/
structure Window where
  /-- `phase`. -/
  phase : Phase
  /-- `rate`. -/
  rate : ℚ
  /-- `seconds`. -/
  seconds : ℚ
deriving DecidableEq

/-- What the plan is made of. -/
structure CyclePlan where
  /-- `arguments.users`. -/
  users : ℕ
  /-- `paused_order`, as long as `arguments.paused`. -/
  paused_order : List String
  /-- `arguments.login_period`. -/
  login_period : ℚ
  /-- `arguments.return_period`. -/
  return_period : ℚ
  /-- `arguments.warmup_seconds`. -/
  warmup_seconds : ℚ
  /-- `arguments.measure_seconds`. -/
  measure_seconds : ℚ
  /-- `arguments.pause_seconds`. -/
  pause_seconds : ℚ
  /-- `draw_paused` samples the users. -/
  drawn : paused_order.Subperm ((List.range users).map userName)
  /-- The pause leaves somebody active. -/
  paused_lt_users : paused_order.length < users
  /-- The login period is positive. -/
  login_period_pos : 0 < login_period
  /-- The return period is positive. -/
  return_period_pos : 0 < return_period

namespace CyclePlan

variable (plan : CyclePlan)

/-- `arguments.paused`. -/
def paused : ℕ := plan.paused_order.length

/-- `offset_of`. -/
def offsetOf (index : ℕ) : ℚ := index / plan.users

/-- The loop of `user_calls` from a step on. -/
def userCallsFrom (index : ℕ) (first_call_at bound : ℚ) (step : ℕ) : List ℚ :=
  if bound ≤ first_call_at + step + plan.offsetOf index then []
  else
    (first_call_at + step + plan.offsetOf index) ::
      userCallsFrom index first_call_at bound (step + 1)
termination_by ⌈bound - (first_call_at + plan.offsetOf index)⌉₊ - step
decreasing_by
  have hstep : step < ⌈bound - (first_call_at + plan.offsetOf index)⌉₊ :=
    Nat.lt_ceil.2 (by linarith)
  omega

/-- `user_calls`. -/
def userCalls (index : ℕ) (first_call_at bound : ℚ) : List ℚ :=
  plan.userCallsFrom index first_call_at bound 0

/-- `phases`. -/
def phases : List Window :=
  let users : ℚ := plan.users
  let active : ℚ := (plan.users : ℚ) - plan.paused
  [⟨.login_ramp, users, users * plan.login_period⟩,
    ⟨.full_warmup, users, plan.warmup_seconds⟩,
    ⟨.full_measure_1, users, plan.measure_seconds⟩,
    ⟨.pause_50, active, plan.pause_seconds⟩,
    ⟨.return_ramp, users, (plan.paused + 1) * plan.return_period⟩,
    ⟨.full_measure_2, users, plan.measure_seconds⟩]

/-- The loop of the builders: every user that calls, with the argument `first_call_at`. -/
def rowsFrom (first_call_at : ℕ → Option ℚ) (window : Window) : List (ℚ × ℕ) :=
  (List.range plan.users).flatMap fun index =>
    match first_call_at index with
    | none => []
    | some first => (plan.userCalls index first window.seconds).map fun when => (when, index)

/-- `rows_of_login_ramp`. -/
def rowsOfLoginRamp (window : Window) : List (ℚ × ℕ) :=
  plan.rowsFrom (fun index =>
    let entry := index * plan.login_period
    some (entry + 1)) window

/-- `rows_of_all_active`. -/
def rowsOfAllActive (window : Window) : List (ℚ × ℕ) :=
  plan.rowsFrom (fun _ => some 0) window

/-- `rows_of_pause`. -/
def rowsOfPause (window : Window) : List (ℚ × ℕ) :=
  plan.rowsFrom (fun index => if userName index ∈ plan.paused_order then none else some 0) window

/-- `paused_at`: when each paused user returns. -/
def pausedAt : Dict String ℚ :=
  plan.paused_order.zipIdx.foldl (fun paused_at (name, position) =>
    paused_at.set name (position * plan.return_period)) ∅

/-- `rows_of_return_ramp`. -/
def rowsOfReturnRamp (window : Window) : List (ℚ × ℕ) :=
  plan.rowsFrom (fun index =>
    match plan.pausedAt.get (userName index) with
    | none => some 0
    | some returns => some (returns + 1)) window

/-- `builders`. -/
def builders : Phase → Window → List (ℚ × ℕ)
  | .login_ramp => plan.rowsOfLoginRamp
  | .full_warmup => plan.rowsOfAllActive
  | .full_measure_1 => plan.rowsOfAllActive
  | .pause_50 => plan.rowsOfPause
  | .return_ramp => plan.rowsOfReturnRamp
  | .full_measure_2 => plan.rowsOfAllActive

/-! ## The instants of one user -/

variable {plan}

/-- The loop takes the steps of one that are left. -/
theorem userCallsFrom_eq (index : ℕ) (first_call_at bound : ℚ) (step : ℕ) :
    plan.userCallsFrom index first_call_at bound step =
      unitSteps (first_call_at + step + plan.offsetOf index) bound := by
  induction step using userCallsFrom.induct plan index first_call_at bound with
  | case1 step hdone =>
    rw [userCallsFrom, if_pos hdone, unitSteps_eq_nil hdone]
  | case2 step hmore ih =>
    rw [userCallsFrom, if_neg hmore, ih, unitSteps_eq_cons (not_le.1 hmore)]
    have hnext : first_call_at + ((step + 1 : ℕ) : ℚ) + plan.offsetOf index =
        first_call_at + step + plan.offsetOf index + 1 := by push_cast; ring
    rw [hnext]

/-- The instants of one user are steps of one, from its first call and its offset. -/
theorem userCalls_eq (index : ℕ) (first_call_at bound : ℚ) :
    plan.userCalls index first_call_at bound =
      unitSteps (first_call_at + plan.offsetOf index) bound := by
  rw [userCalls, userCallsFrom_eq, Nat.cast_zero, add_zero]

/-- The users are at least one. -/
theorem users_pos : 0 < plan.users := lt_of_le_of_lt (Nat.zero_le _) plan.paused_lt_users

variable (plan) in
/-- An offset is not negative. -/
theorem offsetOf_nonneg (index : ℕ) : 0 ≤ plan.offsetOf index :=
  div_nonneg (Nat.cast_nonneg _) (Nat.cast_nonneg _)

/-- The offset of a user is less than a second. -/
theorem offsetOf_lt_one {index : ℕ} (h : index < plan.users) : plan.offsetOf index < 1 := by
  rw [offsetOf, div_lt_one (Nat.cast_pos.2 users_pos)]
  exact Nat.cast_lt.2 h

variable (plan) in
/-- A user has a larger offset than those before. -/
theorem offsetOf_lt {index other : ℕ} (h : index < other) :
    plan.offsetOf index < plan.offsetOf other :=
  div_lt_div_of_pos_right (Nat.cast_lt.2 h) (Nat.cast_pos.2 users_pos)

/-! ## Names and returns -/

/-- Users have different names. -/
theorem userName_injective : Function.Injective userName := by
  intro index other h
  have hdigits : Nat.repr (index + 1) = Nat.repr (other + 1) := (String.append_right_inj _).1 h
  exact Nat.succ_injective (Nat.repr_injective hdigits)

/-- Nobody is drawn twice. -/
theorem paused_order_nodup : plan.paused_order.Nodup := by
  obtain ⟨sampled, hperm, hsublist⟩ := plan.drawn
  exact hperm.nodup_iff.1 (hsublist.nodup (List.nodup_range.map userName_injective))

/-- When a user returns. -/
theorem get_pausedAt (name : String) :
    plan.pausedAt.get name =
      (plan.paused_order.idxOf? name).map fun (position : ℕ) =>
        (position : ℚ) * plan.return_period := by
  have hkeys : (plan.paused_order.zipIdx.map Prod.fst).Nodup := by
    rw [List.zipIdx_map_fst]
    exact paused_order_nodup
  cases hposition : plan.paused_order.idxOf? name with
  | none =>
    have hother : ∀ drawn ∈ plan.paused_order.zipIdx, drawn.1 ≠ name := by
      rintro ⟨drawn, position⟩ hdrawn rfl
      exact List.idxOf?_eq_none_iff.1 hposition (List.fst_mem_of_mem_zipIdx hdrawn)
    exact Dict.get_foldl_assign_of_notMem Prod.fst _ _ _ hother
  | some position =>
    have hdrawn : (name, position) ∈ plan.paused_order.zipIdx := by
      obtain ⟨hlt, hname, _⟩ := List.idxOf?_eq_some_iff.1 hposition
      rw [List.mk_mem_zipIdx_iff_getElem?]
      exact List.getElem?_eq_some_iff.2 ⟨hlt, hname⟩
    exact Dict.get_foldl_assign_of_mem (i := (name, position)) Prod.fst
      (fun drawn : String × ℕ => (drawn.2 : ℚ) * plan.return_period) _ _ hkeys hdrawn

/-! ## The rows of a phase -/

/-- The instants of the rows are those of each user, one user after the other. -/
theorem map_fst_rowsFrom (first_call_at : ℕ → Option ℚ) (window : Window) :
    (plan.rowsFrom first_call_at window).map Prod.fst =
      (List.range plan.users).flatMap fun index =>
        ((first_call_at index).map (· + plan.offsetOf index)).elim []
          fun first => unitSteps first window.seconds := by
  rw [rowsFrom, List.map_flatMap]
  refine List.flatMap_congr fun index _ => ?_
  cases first_call_at index with
  | none => rfl
  | some first =>
    dsimp only [Option.map_some, Option.elim_some]
    rw [List.map_map, userCalls_eq]
    exact List.map_id _

end CyclePlan

end GenropyAsgi.Benchmarks

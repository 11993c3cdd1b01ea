import Mathlib.Algebra.Order.Floor.Ring
import Mathlib.Data.Rat.Floor
import GenropyAsgi.Library.Dict
import GenropyAsgi.Library.Run
import GenropyAsgi.Library.StableSort

/-!
# The admission guard

`AdmissionGuard` of `admission_guard.py`, over exact rationals. The threads of the load engine file
each completed call under its bucket; the guard's own thread makes passes, each of which takes and
judges one bucket after the other up to the last one that has closed. A record and the taking of a
bucket are atomic, under the guard's lock, so a run is an interleaving of records, of the starts of
passes, and of the judgements in between. What comes late is seen: a record is made at some instant
at or after its completion, and nothing says that its bucket has not been taken by then.

The context of the event, its texts and the file that it is written to are not modelled.
-/

namespace GenropyAsgi.Benchmarks

open Library

/-- `int(x)`, which goes towards zero. -/
def toInt (x : ℚ) : ℤ := if 0 ≤ x then ⌊x⌋ else ⌈x⌉

/-- `round(x, digits)`, a tie going to the even neighbour. -/
def roundTo (digits : ℕ) (x : ℚ) : ℚ :=
  let scaled := x * 10 ^ digits
  let low := ⌊scaled⌋
  let nearest :=
    if 2 * (scaled - low) < 1 then low
    else if 2 * (scaled - low) > 1 then low + 1
    else if low % 2 = 0 then low
    else low + 1
  nearest / 10 ^ digits

/-- What the guard reads of its settings. -/
structure GuardSettings where
  /-- `p95_limit_ms`. -/
  p95_limit_ms : ℚ
  /-- `consecutive_buckets`. -/
  consecutive_buckets : ℤ
  /-- `bucket_seconds`, the width. -/
  bucket_seconds : ℚ
  /-- `minimum_samples`. -/
  minimum_samples : ℤ
  /-- The width is positive. -/
  bucket_seconds_pos : 0 < bucket_seconds

/-- A completed call. -/
structure Call where
  /-- The instant at which it completed. -/
  completed_at : ℚ
  /-- Its latency. -/
  latency_ms : ℚ
deriving DecidableEq

/-- The verdict on a bucket. -/
inductive Verdict where
  /-- `"pochi campioni"`. -/
  | pochi_campioni
  /-- `"oltre"`. -/
  | oltre
  /-- `"dentro"`. -/
  | dentro
deriving DecidableEq

/-- The record of a judged bucket. -/
structure BucketRecord where
  /-- The index. -/
  bucket : ℤ
  /-- Where it starts. -/
  started_at : ℚ
  /-- Its width. -/
  seconds : ℚ
  /-- How many calls it held. -/
  samples : ℕ
  /-- Their 95th percentile. -/
  p95_ms : Option ℚ
  /-- The verdict. -/
  verdict : Verdict
  /-- The length of the run that it ends. -/
  consecutive : ℕ
  /-- Whether it closed the door. -/
  fired : Bool
  /-- The calls that were counted. -/
  calls : List Call

/-- The event `ADMISSION_STOP`. -/
structure AdmissionStop where
  /-- The bucket that closed the door. -/
  bucket : ℤ
  /-- Where it starts. -/
  bucket_started_at : ℚ
  /-- The length of the run. -/
  consecutive_buckets : ℕ
  /-- How many calls the bucket held. -/
  samples_in_bucket : ℕ
  /-- Their 50th percentile. -/
  p50_ms : Option ℚ
  /-- Their 95th percentile. -/
  p95_ms : Option ℚ
  /-- Their 99th percentile. -/
  p99_ms : Option ℚ

/-- The guard, with the pass that it is making and what has happened so far. An entry of a bucket is
a latency; the call that it is of is kept with it. -/
structure GuardState where
  /-- `buckets`. -/
  buckets : Dict ℤ (List Call)
  /-- `next_bucket`. -/
  next_bucket : Option ℤ
  /-- `consecutive`. -/
  consecutive : ℕ
  /-- `judged`. -/
  judged : ℕ
  /-- `bad`. -/
  bad : ℕ
  /-- `thin`. -/
  thin : ℕ
  /-- `peak_consecutive`. -/
  peak_consecutive : ℕ
  /-- `closed`. -/
  closed : Bool
  /-- `event`. -/
  event : Option AdmissionStop
  /-- `history`. -/
  history : List BucketRecord
  /-- `last_closed` of the pass. -/
  last_closed : Option ℤ
  /-- The instant of the last record or start. -/
  now : ℚ
  /-- The instant of the first pass. -/
  first : Option ℚ
  /-- The calls recorded so far. -/
  recorded : List Call

/-- The newborn guard. -/
def newGuard (now : ℚ) : GuardState :=
  ⟨∅, none, 0, 0, 0, 0, 0, false, none, [], none, now, none, []⟩

/-- `percentile`. -/
def percentile (values : List ℚ) (which : ℚ) : Option ℚ :=
  if values = [] then none
  else
    let ordered := sortOn id values
    let index := max 0 (min ((ordered.length : ℤ) - 1) (toInt (ordered.length * which / 100) - 1))
    ordered[index.toNat]?.map (roundTo 4)

variable (settings : GuardSettings)

/-- The bucket of an instant. -/
def indexOf (instant : ℚ) : ℤ := toInt (instant / settings.bucket_seconds)

/-- `record_latency`. -/
def recordLatency (s : GuardState) (call : Call) : GuardState :=
  let index := indexOf settings call.completed_at
  { s with
    buckets := s.buckets.set index ((s.buckets.get index).getD [] ++ [call])
    recorded := s.recorded ++ [call] }

/-- `close_admission`. -/
def closeAdmission (s : GuardState) (index : ℤ) (latencies : List ℚ) : GuardState :=
  { s with
    closed := true
    event := some ⟨index, index * settings.bucket_seconds, s.consecutive, latencies.length,
      percentile latencies 50, percentile latencies 95, percentile latencies 99⟩ }

/-- `judge_bucket`: the guard, and the record, none where `None` is compared with the limit. -/
def judgeBucket (s : GuardState) (index : ℤ) : GuardState × Option BucketRecord :=
  let calls := (s.buckets.get index).getD []
  let latencies := calls.map Call.latency_ms
  let taken := { s with buckets := s.buckets.pop index, judged := s.judged + 1 }
  let record (verdict : Verdict) (consecutive : ℕ) (fired : Bool) : BucketRecord :=
    ⟨index, roundTo 3 (index * settings.bucket_seconds), settings.bucket_seconds,
      latencies.length, percentile latencies 95, verdict, consecutive, fired, calls⟩
  if (latencies.length : ℤ) < settings.minimum_samples then
    ({ taken with
        thin := s.thin + 1
        consecutive := 0
        history := s.history ++ [record .pochi_campioni 0 false] },
      some (record .pochi_campioni 0 false))
  else
    match percentile latencies 95 with
    | none => (taken, none)
    | some p95_ms =>
      if p95_ms > settings.p95_limit_ms then
        let oltre := { taken with
          bad := s.bad + 1
          consecutive := s.consecutive + 1
          peak_consecutive := max s.peak_consecutive (s.consecutive + 1) }
        let fires := decide (settings.consecutive_buckets ≤ (s.consecutive + 1 : ℕ)) && !s.closed
        let shut := if fires then closeAdmission settings oltre index latencies else oltre
        ({ shut with history := s.history ++ [record .oltre (s.consecutive + 1) fires] },
          some (record .oltre (s.consecutive + 1) fires))
      else
        ({ taken with consecutive := 0, history := s.history ++ [record .dentro 0 false] },
          some (record .dentro 0 false))

/-! ## The machine -/

/-- The actions. -/
inductive GuardAct where
  /-- A completed call is recorded at an instant. -/
  | record (call : Call) (instant : ℚ)
  /-- `judge_closed_buckets` is called, and reads where it is to stop. -/
  | start (now : ℚ)
  /-- It judges its next bucket. -/
  | judge

/-- No pass is in its loop. -/
def GuardState.idle (s : GuardState) : Bool :=
  match s.last_closed, s.next_bucket with
  | some last_closed, some next_bucket => decide (last_closed < next_bucket)
  | _, _ => true

/-- The start of a pass. The first one judges nothing. -/
def startPass (s : GuardState) (now : ℚ) : GuardState :=
  let last_closed := indexOf settings now - 1
  match s.next_bucket with
  | none => { s with next_bucket := some (last_closed + 1), first := some now, now := now }
  | some _ => { s with last_closed := some last_closed, now := now }

/-- One bucket of the loop. A judgement that raises ends the pass. -/
def judgeNext (s : GuardState) : Option GuardState :=
  match s.last_closed, s.next_bucket with
  | some last_closed, some next_bucket =>
    if next_bucket ≤ last_closed then
      match judgeBucket settings s next_bucket with
      | (judged, some _) => some { judged with next_bucket := some (next_bucket + 1) }
      | (raised, none) => some { raised with last_closed := none }
    else none
  | _, _ => none

/-- One action, the instants of which do not go back. A call is recorded at or after its own
completion. -/
def guardStep (s : GuardState) : GuardAct → Option GuardState
  | .record call instant =>
    if s.now ≤ instant ∧ call.completed_at ≤ instant then
      some { recordLatency settings s call with now := instant }
    else none
  | .start now => if s.now ≤ now ∧ s.idle = true then some (startPass settings s now) else none
  | .judge => judgeNext settings s

variable {settings}

/-! ## Buckets and percentiles -/

/-- The buckets follow the instants. -/
theorem toInt_mono {x y : ℚ} (h : x ≤ y) : toInt x ≤ toInt y := by
  unfold toInt
  split_ifs with hx hy hy
  · exact Int.floor_le_floor h
  · exact absurd (le_trans hx h) hy
  · have hzero : ⌈x⌉ ≤ 0 := Int.ceil_le.2 (by push_cast; exact (not_le.1 hx).le)
    exact le_trans hzero (Int.floor_nonneg.2 hy)
  · exact Int.ceil_le_ceil h

variable (settings) in
/-- A later instant is in the same bucket or a later one. -/
theorem indexOf_mono {x y : ℚ} (h : x ≤ y) : indexOf settings x ≤ indexOf settings y :=
  toInt_mono (div_le_div_of_nonneg_right h settings.bucket_seconds_pos.le)

/-- There is a percentile exactly of some values. -/
theorem percentile_eq_none {values : List ℚ} {which : ℚ} :
    percentile values which = none ↔ values = [] := by
  unfold percentile
  constructor
  · intro h
    by_contra hne
    rw [if_neg hne, Option.map_eq_none_iff, List.getElem?_eq_none_iff] at h
    have hlength : (sortOn id values).length = values.length := (sortOn_perm id values).length_eq
    have hpos : 0 < values.length := List.length_pos_iff.2 hne
    rw [hlength] at h
    omega
  · intro h
    rw [if_pos h]

end GenropyAsgi.Benchmarks

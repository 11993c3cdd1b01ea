import Mathlib.Data.List.DropRight
import Mathlib.Tactic.NormNum
import GenropyAsgi.Benchmarks.AdmissionGuard

/-!
# Every call is judged once

What the admission guard is for (`JudgesOnce`), and when it gives it. The guard takes a bucket when
the clock has passed its end, on the assumption that nothing can still land in it. A call that is
recorded later than its bucket is taken is counted nowhere. `InTime` asks that no such call comes,
and that `None` is not compared with the limit; `Tally` is the invariant of the runs that meet it.
-/

namespace GenropyAsgi.Benchmarks

open Library

variable (settings : GuardSettings)

/-- A judged bucket is too slow: it holds enough calls, and their percentile is strictly above
the limit. -/
def tooSlow (calls : List Call) : Bool :=
  decide (settings.minimum_samples ≤ calls.length) &&
    (percentile (calls.map Call.latency_ms) 95).any fun p95_ms =>
      decide (p95_ms > settings.p95_limit_ms)

/-- The judgements end with a run of buckets that are too slow, long enough. -/
def RunEnds (judgements : List BucketRecord) : Prop :=
  ∃ before run, judgements = before ++ run ∧ run ≠ [] ∧
    settings.consecutive_buckets ≤ (run.length : ℕ) ∧
    ∀ record ∈ run, tooSlow settings record.calls = true

/-- The guard judges every call once, and closes the door on the declared run. -/
structure JudgesOnce (s : GuardState) : Prop where
  /-- Of the calls completed at or after the first pass, a judged bucket counts those of its own
  index that have been recorded, each as often as it has been. -/
  counted : ∀ first, s.first = some first → ∀ record ∈ s.history,
    (record.calls.filter fun call => decide (first ≤ call.completed_at)) =
      s.recorded.filter fun call => decide (first ≤ call.completed_at) &&
        decide (indexOf settings call.completed_at = record.bucket)
  /-- The judged buckets are those from the one of the first pass up to the next one, in their
  order and each once. -/
  in_order : ∀ first next_bucket, s.first = some first → s.next_bucket = some next_bucket →
    indexOf settings first ≤ next_bucket ∧ s.history.map BucketRecord.bucket =
      (List.range (next_bucket - indexOf settings first).toNat).map fun (i : ℕ) =>
        indexOf settings first + (i : ℤ)
  /-- The door is closed exactly when some judgement has ended a run that is long enough. -/
  closes : s.closed = true ↔ ∃ judgements, judgements <+: s.history ∧ RunEnds settings judgements
  /-- The event is of the first judgement that has. -/
  stops : ∀ stop, s.event = some stop → ∃ before record, before ++ [record] <+: s.history ∧
    RunEnds settings (before ++ [record]) ∧ stop.bucket = record.bucket ∧
    ∀ judgements, judgements <+: before → ¬ RunEnds settings judgements
  /-- There is an event exactly when the door is closed. -/
  stopped : s.event.isSome = s.closed

/-- A judgement does not raise, and the door does not open again. -/
def Proceeds (s : GuardState) (act : GuardAct) : Prop :=
  (∀ last_closed next_bucket, act = .judge → s.last_closed = some last_closed →
      s.next_bucket = some next_bucket → next_bucket ≤ last_closed →
      (judgeBucket settings s next_bucket).2 ≠ none) ∧
    ∀ s', guardStep settings s act = some s' → s.closed = true → s'.closed = true

/-- A call completed at or after the first pass is recorded before its bucket is taken; and a bucket
without calls is judged only where some are asked for. -/
def InTime (s : GuardState) : GuardAct → Prop
  | .record call instant => s.now ≤ instant → call.completed_at ≤ instant →
      ∀ first next_bucket, s.first = some first → s.next_bucket = some next_bucket →
        first ≤ call.completed_at → next_bucket ≤ indexOf settings call.completed_at
  | .start _ => True
  | .judge => ∀ last_closed next_bucket, s.last_closed = some last_closed →
      s.next_bucket = some next_bucket → next_bucket ≤ last_closed →
      (s.buckets.get next_bucket).getD [] = [] → 0 < settings.minimum_samples

variable {settings}

/-! ## One judgement -/

/-- What a judgement that does not raise does. -/
structure Judges (settings : GuardSettings) (s : GuardState) (index : ℤ) (s' : GuardState)
    (record : BucketRecord) : Prop where
  bucket : record.bucket = index
  calls : record.calls = (s.buckets.get index).getD []
  buckets : s'.buckets = s.buckets.pop index
  history : s'.history = s.history ++ [record]
  consecutive : s'.consecutive = if tooSlow settings record.calls then s.consecutive + 1 else 0
  closed : s'.closed = (s.closed || (tooSlow settings record.calls &&
    decide (settings.consecutive_buckets ≤ (s.consecutive + 1 : ℕ))))
  event : (s'.event = s.event ∧ (s.closed = true ∨ s'.closed = false)) ∨
    (s.closed = false ∧ s'.closed = true ∧ ∃ stop, s'.event = some stop ∧ stop.bucket = index)
  frame : s'.recorded = s.recorded ∧ s'.first = s.first ∧ s'.now = s.now ∧
    s'.next_bucket = s.next_bucket ∧ s'.last_closed = s.last_closed

/-- A bucket with too few calls is not too slow. -/
theorem tooSlow_of_few {calls : List Call} (h : (calls.length : ℤ) < settings.minimum_samples) :
    tooSlow settings calls = false := by
  unfold tooSlow
  rw [decide_eq_false (not_le.2 h), Bool.false_and]

/-- A bucket with enough calls is too slow when its percentile is above the limit. -/
theorem tooSlow_of_enough {calls : List Call} {p95_ms : ℚ}
    (h : ¬ (calls.length : ℤ) < settings.minimum_samples)
    (hp95 : percentile (calls.map Call.latency_ms) 95 = some p95_ms) :
    tooSlow settings calls = decide (p95_ms > settings.p95_limit_ms) := by
  unfold tooSlow
  rw [decide_eq_true (not_lt.1 h), Bool.true_and, hp95]
  rfl

/-- A judgement that does not fire leaves the door and the event alone. -/
theorem judges_of_not_fired {s s' : GuardState} {index : ℤ} {record : BucketRecord}
    (hbucket : record.bucket = index) (hcalls : record.calls = (s.buckets.get index).getD [])
    (hbuckets : s'.buckets = s.buckets.pop index) (hhistory : s'.history = s.history ++ [record])
    (hconsecutive : s'.consecutive = if tooSlow settings record.calls then s.consecutive + 1 else 0)
    (hfires : ((tooSlow settings record.calls &&
      decide (settings.consecutive_buckets ≤ (s.consecutive + 1 : ℕ))) && !s.closed) = false)
    (hclosed : s'.closed = s.closed) (hevent : s'.event = s.event)
    (hframe : s'.recorded = s.recorded ∧ s'.first = s.first ∧ s'.now = s.now ∧
      s'.next_bucket = s.next_bucket ∧ s'.last_closed = s.last_closed) :
    Judges settings s index s' record := by
  refine ⟨hbucket, hcalls, hbuckets, hhistory, hconsecutive, ?_, .inl ⟨hevent, ?_⟩, hframe⟩
  · rw [hclosed]
    cases hopen : s.closed with
    | true => rfl
    | false =>
      rw [hopen, Bool.not_false, Bool.and_true] at hfires
      rw [hfires, Bool.or_false]
  · rw [hclosed]
    cases s.closed with
    | true => exact .inl rfl
    | false => exact .inr rfl

variable (settings) in
/-- A judgement raises on a bucket without calls where none are asked for, and otherwise answers. -/
theorem judgeBucket_cases (s : GuardState) (index : ℤ) :
    ((s.buckets.get index).getD [] = [] ∧ settings.minimum_samples ≤ 0 ∧
      judgeBucket settings s index =
        ({ s with buckets := s.buckets.pop index, judged := s.judged + 1 }, none)) ∨
      (((s.buckets.get index).getD [] = [] → 0 < settings.minimum_samples) ∧
        ∃ s' record, judgeBucket settings s index = (s', some record) ∧
          Judges settings s index s' record) := by
  unfold judgeBucket
  generalize hcalls : (s.buckets.get index).getD [] = calls
  dsimp only
  rw [List.length_map]
  by_cases hthin : (calls.length : ℤ) < settings.minimum_samples
  · right
    rw [if_pos hthin]
    have hslow := tooSlow_of_few hthin
    refine ⟨fun hnil => ?_, _, _, rfl, ?_⟩
    · rw [hnil] at hthin
      exact hthin
    · refine judges_of_not_fired rfl hcalls.symm rfl rfl ?_ ?_ rfl rfl ⟨rfl, rfl, rfl, rfl, rfl⟩
      · dsimp only
        rw [hslow]
        rfl
      · dsimp only
        rw [hslow, Bool.false_and, Bool.false_and]
  · rw [if_neg hthin]
    cases hp95 : percentile (calls.map Call.latency_ms) 95 with
    | none =>
      left
      have hnil : calls = [] := List.map_eq_nil_iff.1 (percentile_eq_none.1 hp95)
      rw [hnil] at hthin
      exact ⟨hnil, not_lt.1 hthin, rfl⟩
    | some p95_ms =>
      right
      have hslow := tooSlow_of_enough hthin hp95
      refine ⟨fun hnil => ?_, ?_⟩
      · rw [hnil, List.map_nil, percentile_eq_none.2 rfl] at hp95
        cases hp95
      dsimp only
      by_cases hlimit : p95_ms > settings.p95_limit_ms
      · rw [if_pos hlimit]
        rw [decide_eq_true hlimit] at hslow
        refine ⟨_, _, rfl, ?_⟩
        cases hfires : decide (settings.consecutive_buckets ≤ (s.consecutive + 1 : ℕ)) &&
            !s.closed with
        | true =>
          rw [if_pos rfl]
          obtain ⟨hneeded, hopen⟩ := Bool.and_eq_true_iff.1 hfires
          have hclosed : s.closed = false := by simpa using hopen
          refine ⟨rfl, hcalls.symm, rfl, rfl, ?_, ?_, .inr ⟨hclosed, rfl, _, rfl, rfl⟩,
            rfl, rfl, rfl, rfl, rfl⟩
          · dsimp only
            rw [hslow]
            rfl
          · dsimp only
            rw [hslow, hneeded, hclosed]
            rfl
        | false =>
          rw [if_neg Bool.false_ne_true]
          refine judges_of_not_fired rfl hcalls.symm rfl rfl ?_ ?_ rfl rfl
            ⟨rfl, rfl, rfl, rfl, rfl⟩
          · dsimp only
            rw [hslow]
            rfl
          · dsimp only
            rw [hslow, Bool.true_and, hfires]
      · rw [if_neg hlimit]
        rw [decide_eq_false hlimit] at hslow
        refine ⟨_, _, rfl, ?_⟩
        refine judges_of_not_fired rfl hcalls.symm rfl rfl ?_ ?_ rfl rfl ⟨rfl, rfl, rfl, rfl, rfl⟩
        · dsimp only
          rw [hslow]
          rfl
        · dsimp only
          rw [hslow, Bool.false_and, Bool.false_and]

/-! ## The run of bad buckets -/

/-- A run ends with a list exactly when the buckets that are too slow at its end are enough. -/
theorem runEnds_iff {judgements : List BucketRecord} :
    RunEnds settings judgements ↔
      0 < (judgements.rtakeWhile fun record => tooSlow settings record.calls).length ∧
        settings.consecutive_buckets ≤
          (judgements.rtakeWhile fun record => tooSlow settings record.calls).length := by
  constructor
  · rintro ⟨before, run, rfl, hne, hneeded, hslow⟩
    have hlong : run.length ≤
        ((before ++ run).rtakeWhile fun record => tooSlow settings record.calls).length := by
      unfold List.rtakeWhile
      rw [List.reverse_append, List.takeWhile_append_of_pos
        (fun record hrecord => hslow record (List.mem_reverse.1 hrecord)), List.length_reverse,
        List.length_append, List.length_reverse]
      omega
    have hpos := List.length_pos_iff.2 hne
    omega
  · rintro ⟨hpos, hneeded⟩
    have hsplit : (judgements.rdropWhile fun record => tooSlow settings record.calls) ++
        (judgements.rtakeWhile fun record => tooSlow settings record.calls) = judgements :=
      List.rdropWhile_append_rtakeWhile
    refine ⟨_, _, hsplit.symm, List.length_pos_iff.1 hpos, hneeded, fun record hrecord => ?_⟩
    exact List.mem_rtakeWhile_imp (p := fun record : BucketRecord => tooSlow settings record.calls)
      hrecord

/-- A judgement ends a run exactly when it is too slow, and long enough with those before. -/
theorem runEnds_concat {judgements : List BucketRecord} {record : BucketRecord} :
    RunEnds settings (judgements ++ [record]) ↔ tooSlow settings record.calls = true ∧
      settings.consecutive_buckets ≤
        ((judgements.rtakeWhile fun record => tooSlow settings record.calls).length + 1 : ℕ) := by
  rw [runEnds_iff]
  cases hslow : tooSlow settings record.calls with
  | true =>
    rw [List.rtakeWhile_concat_pos (fun record => tooSlow settings record.calls) judgements record
      hslow, List.length_append, List.length_singleton]
    exact ⟨fun h => ⟨rfl, h.2⟩, fun h => ⟨Nat.succ_pos _, h.2⟩⟩
  | false =>
    rw [List.rtakeWhile_concat_neg (fun record => tooSlow settings record.calls) judgements record
      (by rw [hslow]; exact Bool.false_ne_true)]
    simp

/-! ## The tally -/

/-- What has been recorded of a bucket. -/
def samplesOf (settings : GuardSettings) (s : GuardState) (index : ℤ) : List Call :=
  s.recorded.filter fun call => decide (indexOf settings call.completed_at = index)

/-- Every call is counted, or waits in its bucket. -/
structure Tally (settings : GuardSettings) (s : GuardState) : Prop where
  judges : JudgesOnce settings s
  started : s.first.isSome = s.next_bucket.isSome
  unstarted : s.first = none → s.history = []
  pending : ∀ index, (∀ next_bucket, s.next_bucket = some next_bucket → next_bucket ≤ index) →
    (s.buckets.get index).getD [] = samplesOf settings s index
  run : s.consecutive = (s.history.rtakeWhile fun record => tooSlow settings record.calls).length

variable {s s' : GuardState}

/-- The newborn guard has nothing to count. -/
theorem tally_newGuard (now : ℚ) : Tally settings (newGuard now) where
  judges := by
    refine ⟨fun first h => absurd h (by simp [newGuard]),
      fun first next_bucket h => absurd h (by simp [newGuard]),
      ⟨fun h => absurd h (by simp [newGuard]), ?_⟩, fun stop h => absurd h (by simp [newGuard]),
      rfl⟩
    rintro ⟨judgements, hprefix, before, run, rfl, hne, _⟩
    have hnil := List.prefix_nil.1 hprefix
    exact absurd (List.append_eq_nil_iff.1 hnil).2 hne
  started := rfl
  unstarted := fun _ => rfl
  pending := fun index _ => by
    show ((∅ : Dict ℤ (List Call)).get index).getD [] = []
    rw [Dict.get_empty]
    rfl
  run := rfl

/-- The judged buckets lie between the one of the first pass and the next one. -/
theorem JudgesOnce.bucket_lt (h : JudgesOnce settings s) {first : ℚ} {next_bucket : ℤ}
    (hfirst : s.first = some first) (hnext : s.next_bucket = some next_bucket)
    {record : BucketRecord} (hrecord : record ∈ s.history) : record.bucket < next_bucket := by
  obtain ⟨hle, hbuckets⟩ := h.in_order first next_bucket hfirst hnext
  have hmem : record.bucket ∈ s.history.map BucketRecord.bucket := List.mem_map_of_mem hrecord
  rw [hbuckets, List.mem_map] at hmem
  obtain ⟨i, hi, hbucket⟩ := hmem
  have hlt := List.mem_range.1 hi
  omega

/-- Every bucket between the two has been judged. -/
theorem JudgesOnce.exists_record (h : JudgesOnce settings s) {first : ℚ} {next_bucket index : ℤ}
    (hfirst : s.first = some first) (hnext : s.next_bucket = some next_bucket)
    (hlow : indexOf settings first ≤ index) (hhigh : index < next_bucket) :
    ∃ record ∈ s.history, record.bucket = index := by
  obtain ⟨hle, hbuckets⟩ := h.in_order first next_bucket hfirst hnext
  have hmem : index ∈ s.history.map BucketRecord.bucket := by
    rw [hbuckets, List.mem_map]
    refine ⟨(index - indexOf settings first).toNat, List.mem_range.2 ?_, ?_⟩
    · omega
    · omega
  obtain ⟨record, hrecord, hbucket⟩ := List.mem_map.1 hmem
  exact ⟨record, hrecord, hbucket⟩

/-- A call recorded in time waits in its bucket. -/
theorem Tally.record (h : Tally settings s) {call : Call} {instant : ℚ}
    (hintime : ∀ first next_bucket, s.first = some first → s.next_bucket = some next_bucket →
      first ≤ call.completed_at → next_bucket ≤ indexOf settings call.completed_at) :
    Tally settings { recordLatency settings s call with now := instant } where
  judges := by
    refine ⟨fun first hfirst record hrecord => ?_, h.judges.in_order, h.judges.closes,
      h.judges.stops, h.judges.stopped⟩
    have hfirst : s.first = some first := hfirst
    have hcounted := h.judges.counted first hfirst record hrecord
    obtain ⟨next_bucket, hnext⟩ : ∃ next_bucket, s.next_bucket = some next_bucket := by
      rw [← Option.isSome_iff_exists, ← h.started, hfirst]
      rfl
    have hlt : record.bucket < next_bucket := h.judges.bucket_lt hfirst hnext hrecord
    show _ = (s.recorded ++ [call]).filter _
    rw [List.filter_append, ← hcounted]
    have hnot : (decide (first ≤ call.completed_at) &&
        decide (indexOf settings call.completed_at = record.bucket)) = false := by
      rw [Bool.and_eq_false_iff]
      by_cases hlate : first ≤ call.completed_at
      · right
        have hle := hintime first next_bucket hfirst hnext hlate
        rw [decide_eq_false_iff_not]
        omega
      · left
        rw [decide_eq_false_iff_not]
        exact hlate
    rw [List.filter_cons_of_neg (by rw [hnot]; exact Bool.false_ne_true), List.filter_nil,
      List.append_nil]
  started := h.started
  unstarted := h.unstarted
  pending := by
    intro index hindex
    have hpending := h.pending index hindex
    unfold samplesOf at hpending ⊢
    show ((s.buckets.set (indexOf settings call.completed_at)
      ((s.buckets.get (indexOf settings call.completed_at)).getD [] ++ [call])).get index).getD [] =
        (s.recorded ++ [call]).filter _
    rw [Dict.get_set, List.filter_append, ← hpending]
    split_ifs with heq
    · subst heq
      rw [Option.getD_some, List.filter_cons_of_pos (by simp), List.filter_nil]
    · rw [List.filter_cons_of_neg (by simpa using fun h => heq h.symm), List.filter_nil,
        List.append_nil]
  run := h.run

/-- The start of a pass moves no call. -/
theorem Tally.start (h : Tally settings s) (now : ℚ) :
    Tally settings (startPass settings s now) := by
  cases hnext : s.next_bucket with
  | none =>
    have hpass : startPass settings s now =
        { s with
          next_bucket := some (indexOf settings now - 1 + 1)
          first := some now
          now := now } := by
      simp [startPass, hnext]
    have hfirst : s.first = none := by
      have := h.started
      rw [hnext] at this
      simpa using this
    have hhistory := h.unstarted hfirst
    rw [hpass]
    refine ⟨⟨fun first _ record hrecord => ?_, fun first next_bucket hf hn => ?_, h.judges.closes,
      h.judges.stops, h.judges.stopped⟩, rfl, fun _ => hhistory, ?_, h.run⟩
    · dsimp only at hrecord
      rw [hhistory] at hrecord
      cases hrecord
    · cases hf
      cases hn
      dsimp only
      rw [hhistory]
      refine ⟨by omega, ?_⟩
      have hzero : (indexOf settings now - 1 + 1 - indexOf settings now).toNat = 0 := by omega
      rw [hzero]
      rfl
    · intro index _
      exact h.pending index fun next_bucket hn => by
        rw [hnext] at hn
        cases hn
  | some next_bucket =>
    have hpass : startPass settings s now =
        { s with last_closed := some (indexOf settings now - 1), now := now } := by
      simp [startPass, hnext]
    rw [hpass]
    exact ⟨⟨h.judges.counted, h.judges.in_order, h.judges.closes, h.judges.stops,
      h.judges.stopped⟩, h.started, h.unstarted, h.pending, h.run⟩

/-- A judgement that raises finds no call, and moves none. -/
theorem Tally.raised (h : Tally settings s) {index : ℤ}
    (hempty : (s.buckets.get index).getD [] = []) (judged : ℕ) (last_closed : Option ℤ) :
    Tally settings { s with
      buckets := s.buckets.pop index
      judged := judged
      last_closed := last_closed } where
  judges := ⟨h.judges.counted, h.judges.in_order, h.judges.closes, h.judges.stops,
    h.judges.stopped⟩
  started := h.started
  unstarted := h.unstarted
  pending := by
    intro k hk
    have hpending := h.pending k hk
    show ((s.buckets.pop index).get k).getD [] = samplesOf settings s k
    rw [Dict.get_pop, ← hpending]
    split_ifs with heq
    · rw [heq, hempty]
      rfl
    · rfl
  run := h.run

/-- A judgement takes what has been recorded of its bucket. -/
theorem Tally.calls_eq (h : Tally settings s) {next_bucket : ℤ} {judged : GuardState}
    {record : BucketRecord} (hnext : s.next_bucket = some next_bucket)
    (hjudges : Judges settings s next_bucket judged record) :
    record.calls = samplesOf settings s next_bucket := by
  rw [hjudges.calls]
  refine h.pending next_bucket fun next hn => ?_
  rw [hnext] at hn
  cases hn
  exact le_refl _

/-- The door is closed after a judgement when it was before, or the judgement ends a run. -/
theorem Tally.closed_iff (h : Tally settings s) {index : ℤ} {judged : GuardState}
    {record : BucketRecord} (hjudges : Judges settings s index judged record) :
    judged.closed = true ↔ s.closed = true ∨ RunEnds settings (s.history ++ [record]) := by
  rw [hjudges.closed, runEnds_concat, Bool.or_eq_true, Bool.and_eq_true, decide_eq_true_eq, h.run]

/-- A run has ended with one more judgement when it had before, or ends with it. -/
theorem exists_runEnds_concat {judgements : List BucketRecord} {record : BucketRecord} :
    (∃ judged, judged <+: judgements ++ [record] ∧ RunEnds settings judged) ↔
      (∃ judged, judged <+: judgements ∧ RunEnds settings judged) ∨
        RunEnds settings (judgements ++ [record]) := by
  constructor
  · rintro ⟨judged, hprefix, hrun⟩
    obtain rfl | hprefix := List.prefix_concat_iff.1 hprefix
    · exact .inr hrun
    · exact .inl ⟨judged, hprefix, hrun⟩
  · rintro (⟨judged, hprefix, hrun⟩ | hrun)
    · exact ⟨judged, hprefix.trans (List.prefix_append _ _), hrun⟩
    · exact ⟨_, List.prefix_refl _, hrun⟩

/-- After a judgement every judged bucket counts what has been recorded of it. -/
theorem Tally.counted_judged (h : Tally settings s) {next_bucket : ℤ} {judged : GuardState}
    {record : BucketRecord} (hnext : s.next_bucket = some next_bucket)
    (hjudges : Judges settings s next_bucket judged record) {first : ℚ}
    (hfirst : s.first = some first) {other : BucketRecord} (hother : other ∈ judged.history) :
    (other.calls.filter fun call => decide (first ≤ call.completed_at)) =
      s.recorded.filter fun call => decide (first ≤ call.completed_at) &&
        decide (indexOf settings call.completed_at = other.bucket) := by
  rw [hjudges.history, List.mem_append, List.mem_singleton] at hother
  obtain hold | rfl := hother
  · exact h.judges.counted first hfirst other hold
  · rw [h.calls_eq hnext hjudges, hjudges.bucket, samplesOf, List.filter_filter]

/-- A judgement takes the next bucket in the order. -/
theorem Tally.in_order_judged (h : Tally settings s) {next_bucket : ℤ} {judged : GuardState}
    {record : BucketRecord} (hnext : s.next_bucket = some next_bucket)
    (hjudges : Judges settings s next_bucket judged record) {first : ℚ}
    (hfirst : s.first = some first) :
    indexOf settings first ≤ next_bucket + 1 ∧ judged.history.map BucketRecord.bucket =
      (List.range (next_bucket + 1 - indexOf settings first).toNat).map fun (i : ℕ) =>
        indexOf settings first + (i : ℤ) := by
  obtain ⟨hle, hbuckets⟩ := h.judges.in_order first next_bucket hfirst hnext
  have hsucc : (next_bucket + 1 - indexOf settings first).toNat =
      (next_bucket - indexOf settings first).toNat + 1 := by omega
  have hlast : indexOf settings first + ((next_bucket - indexOf settings first).toNat : ℤ) =
      next_bucket := by omega
  refine ⟨by omega, ?_⟩
  rw [hjudges.history, List.map_append, hbuckets, hsucc, List.range_succ, List.map_append,
    List.map_singleton, List.map_singleton, hjudges.bucket, hlast]

/-- The event is of the first judgement that has ended a run. -/
theorem Tally.stops_judged (h : Tally settings s) {index : ℤ} {judged : GuardState}
    {record : BucketRecord} (hjudges : Judges settings s index judged record) {stop : AdmissionStop}
    (hstop : judged.event = some stop) :
    ∃ before first, before ++ [first] <+: s.history ++ [record] ∧
      RunEnds settings (before ++ [first]) ∧ stop.bucket = first.bucket ∧
      ∀ judgements, judgements <+: before → ¬ RunEnds settings judgements := by
  obtain ⟨hsame, _⟩ | ⟨hopen, hshut, stop', hstop', hbucket⟩ := hjudges.event
  · rw [hsame] at hstop
    obtain ⟨before, first, hprefix, hrest⟩ := h.judges.stops stop hstop
    exact ⟨before, first, hprefix.trans (List.prefix_append _ _), hrest⟩
  · -- The door was open, so no run had ended before.
    rw [hstop'] at hstop
    cases hstop
    have hnone : ¬ ∃ judgements, judgements <+: s.history ∧ RunEnds settings judgements := by
      rw [← h.judges.closes, hopen]
      exact Bool.false_ne_true
    have hrun : RunEnds settings (s.history ++ [record]) := by
      refine ((h.closed_iff hjudges).1 hshut).resolve_left ?_
      rw [hopen]
      exact Bool.false_ne_true
    exact ⟨s.history, record, List.prefix_refl _, hrun, by rw [hbucket, hjudges.bucket],
      fun judgements hprefix hends => hnone ⟨judgements, hprefix, hends⟩⟩

/-- There is an event once the door is closed. -/
theorem Tally.stopped_judged (h : Tally settings s) {index : ℤ} {judged : GuardState}
    {record : BucketRecord} (hjudges : Judges settings s index judged record) :
    judged.event.isSome = judged.closed := by
  obtain ⟨hsame, hstay⟩ | ⟨hopen, hshut, stop, hstop, _⟩ := hjudges.event
  · rw [hsame, h.judges.stopped]
    obtain htrue | hfalse := hstay
    · rw [htrue, (h.closed_iff hjudges).2 (.inl htrue)]
    · rw [hfalse]
      by_contra hne
      rw [Bool.not_eq_false] at hne
      rw [(h.closed_iff hjudges).2 (.inl hne)] at hfalse
      cases hfalse
  · rw [hstop, hshut]
    rfl

/-- A judgement leaves the calls of the later buckets where they are. -/
theorem Tally.pending_judged (h : Tally settings s) {next_bucket : ℤ} {judged : GuardState}
    {record : BucketRecord} (hnext : s.next_bucket = some next_bucket)
    (hjudges : Judges settings s next_bucket judged record) {index : ℤ}
    (hindex : next_bucket + 1 ≤ index) :
    (judged.buckets.get index).getD [] = samplesOf settings s index := by
  have hne : index ≠ next_bucket := by omega
  rw [hjudges.buckets, Dict.get_pop, if_neg hne]
  refine h.pending index fun next hn => ?_
  rw [hnext] at hn
  cases hn
  omega

/-- The counter is the length of the run that the judgements end with. -/
theorem Tally.run_judged (h : Tally settings s) {index : ℤ} {judged : GuardState}
    {record : BucketRecord} (hjudges : Judges settings s index judged record) :
    judged.consecutive =
      (judged.history.rtakeWhile fun record => tooSlow settings record.calls).length := by
  rw [hjudges.consecutive, hjudges.history]
  cases hslow : tooSlow settings record.calls with
  | true =>
    rw [List.rtakeWhile_concat_pos (fun record => tooSlow settings record.calls) s.history record
      hslow, List.length_append, List.length_singleton, h.run]
    rfl
  | false =>
    rw [List.rtakeWhile_concat_neg (fun record => tooSlow settings record.calls) s.history record
      (by rw [hslow]; exact Bool.false_ne_true)]
    rfl

/-- A judgement keeps the tally. -/
theorem Tally.judged (h : Tally settings s) {next_bucket : ℤ} {judged : GuardState}
    {record : BucketRecord} (hnext : s.next_bucket = some next_bucket)
    (hjudges : Judges settings s next_bucket judged record) :
    Tally settings { judged with next_bucket := some (next_bucket + 1) } := by
  obtain ⟨hrecorded, hfirst, _, _, _⟩ := hjudges.frame
  have hstarted : s.first.isSome = true := by
    rw [h.started, hnext]
    rfl
  have hstopped := h.stopped_judged hjudges
  have hrun := h.run_judged hjudges
  refine ⟨⟨?_, ?_, ?_, ?_, hstopped⟩, ?_, ?_, ?_, hrun⟩
  · intro first hf other hother
    dsimp only at hf hother ⊢
    rw [hrecorded]
    exact h.counted_judged hnext hjudges (hfirst.symm.trans hf) hother
  · intro first next hf hn
    cases hn
    exact h.in_order_judged hnext hjudges (hfirst.symm.trans hf)
  · dsimp only
    rw [hjudges.history, exists_runEnds_concat, h.closed_iff hjudges, h.judges.closes]
  · intro stop hstop
    dsimp only at hstop ⊢
    rw [hjudges.history]
    exact h.stops_judged hjudges hstop
  · dsimp only
    rw [hfirst, hstarted]
    rfl
  · intro hf
    rw [hfirst.symm.trans hf] at hstarted
    cases hstarted
  · intro index hindex
    unfold samplesOf
    dsimp only
    rw [hrecorded]
    exact h.pending_judged hnext hjudges (hindex _ rfl)

/-! ## The steps -/

/-- What the judge does next. -/
theorem judgeNext_cases (h : judgeNext settings s = some s') :
    ∃ last_closed next_bucket, s.last_closed = some last_closed ∧
      s.next_bucket = some next_bucket ∧ next_bucket ≤ last_closed ∧
      (((s.buckets.get next_bucket).getD [] = [] ∧ settings.minimum_samples ≤ 0 ∧
          (judgeBucket settings s next_bucket).2 = none ∧
          s' = { s with
            buckets := s.buckets.pop next_bucket
            judged := s.judged + 1
            last_closed := none }) ∨
        (((s.buckets.get next_bucket).getD [] = [] → 0 < settings.minimum_samples) ∧
          ∃ judged record, judgeBucket settings s next_bucket = (judged, some record) ∧
            Judges settings s next_bucket judged record ∧
            s' = { judged with next_bucket := some (next_bucket + 1) })) := by
  unfold judgeNext at h
  split at h
  · rename_i last_closed next_bucket hlast hnext
    split_ifs at h with hle
    refine ⟨last_closed, next_bucket, hlast, hnext, hle, ?_⟩
    obtain ⟨hempty, hnone, hjudge⟩ | ⟨hsome, judged, record, hjudge, hjudges⟩ :=
      judgeBucket_cases settings s next_bucket
    · left
      rw [hjudge] at h
      cases h
      exact ⟨hempty, hnone, by rw [hjudge], rfl⟩
    · right
      rw [hjudge] at h
      cases h
      exact ⟨hsome, judged, record, hjudge, hjudges, rfl⟩
  · cases h

/-- A step in time keeps the tally. -/
theorem Tally.step (h : Tally settings s) {act : GuardAct} (hintime : InTime settings s act)
    (hstep : guardStep settings s act = some s') : Tally settings s' := by
  cases act with
  | record call instant =>
    simp only [guardStep] at hstep
    split_ifs at hstep with henabled
    cases hstep
    exact h.record (hintime henabled.1 henabled.2)
  | start now =>
    simp only [guardStep] at hstep
    split_ifs at hstep with henabled
    cases hstep
    exact h.start now
  | judge =>
    obtain ⟨last_closed, next_bucket, _, hnext, _, ⟨hempty, _, _, rfl⟩ |
      ⟨_, judged, record, _, hjudges, rfl⟩⟩ := judgeNext_cases hstep
    · exact h.raised hempty _ _
    · exact h.judged hnext hjudges

/-- The door does not open again. -/
theorem closed_of_guardStep {act : GuardAct} (hstep : guardStep settings s act = some s')
    (hclosed : s.closed = true) : s'.closed = true := by
  cases act with
  | record call instant =>
    simp only [guardStep] at hstep
    split_ifs at hstep
    cases hstep
    exact hclosed
  | start now =>
    simp only [guardStep] at hstep
    split_ifs at hstep
    cases hstep
    unfold startPass
    split
    · exact hclosed
    · exact hclosed
  | judge =>
    obtain ⟨last_closed, next_bucket, _, _, _, ⟨_, _, _, rfl⟩ |
      ⟨_, judged, record, _, hjudges, rfl⟩⟩ := judgeNext_cases hstep
    · exact hclosed
    · dsimp only
      rw [hjudges.closed, hclosed, Bool.true_or]

/-- A step in time proceeds. -/
theorem proceeds_of_inTime {act : GuardAct} (hintime : InTime settings s act) :
    Proceeds settings s act := by
  refine ⟨?_, fun s' hstep hclosed => closed_of_guardStep hstep hclosed⟩
  rintro last_closed next_bucket rfl hlast hnext hle hraises
  obtain ⟨hempty, hnone, _⟩ | ⟨_, _, record, hjudge, _⟩ :=
    judgeBucket_cases settings s next_bucket
  · have := hintime last_closed next_bucket hlast hnext hle hempty
    omega
  · rw [hjudge] at hraises
    cases hraises

/-- An action that is not enabled is in time. -/
theorem inTime_of_disabled {act : GuardAct} (h : guardStep settings s act = none) :
    InTime settings s act := by
  cases act with
  | record call instant =>
    intro hnow hcompleted
    simp only [guardStep] at h
    rw [if_pos ⟨hnow, hcompleted⟩] at h
    cases h
  | start now => trivial
  | judge =>
    intro last_closed next_bucket hlast hnext hle
    simp only [guardStep, judgeNext] at h
    rw [hlast, hnext] at h
    dsimp only at h
    rw [if_pos hle] at h
    split at h
    · cases h
    · cases h

/-- A step after which every call is judged once, and which proceeds, is in time. -/
theorem Tally.inTime (h : Tally settings s) {act : GuardAct}
    (hstep : guardStep settings s act = some s') (hafter : JudgesOnce settings s')
    (hproceeds : Proceeds settings s act) : InTime settings s act := by
  cases act with
  | record call instant =>
    intro hnow hcompleted first next_bucket hfirst hnext hlate
    simp only [guardStep] at hstep
    rw [if_pos ⟨hnow, hcompleted⟩] at hstep
    cases hstep
    by_contra hgone
    -- Its bucket has been judged without it.
    obtain ⟨record, hrecord, hbucket⟩ := h.judges.exists_record hfirst hnext
      (indexOf_mono settings hlate) (not_le.1 hgone)
    have hbefore := h.judges.counted first hfirst record hrecord
    have hnow := hafter.counted first hfirst record hrecord
    have hmore : (s.recorded ++ [call]).filter (fun call => decide (first ≤ call.completed_at) &&
        decide (indexOf settings call.completed_at = record.bucket)) =
        s.recorded.filter (fun call => decide (first ≤ call.completed_at) &&
          decide (indexOf settings call.completed_at = record.bucket)) ++ [call] := by
      rw [List.filter_append, List.filter_cons_of_pos (by simp [hlate, hbucket]), List.filter_nil]
    have hsame := hbefore.symm.trans (hnow.trans hmore)
    have hlength := congrArg List.length hsame
    rw [List.length_append, List.length_singleton] at hlength
    omega
  | start now => trivial
  | judge =>
    intro last_closed next_bucket hlast hnext hle hempty
    obtain ⟨_, _, hjudge⟩ | ⟨hsome, _⟩ := judgeBucket_cases settings s next_bucket
    · exact absurd (by rw [hjudge]) (hproceeds.1 last_closed next_bucket rfl hlast hnext hle)
    · exact hsome hempty

/-- **The admission guard judges every call once, exactly where they come in time.** For every
positive width and every interleaving of records, each at or after its completion, with passes at
instants that do not go back: in every state a judged bucket counts what has been recorded of its
own index and was completed at or after the first pass, the buckets are judged in strictly
consecutive order, and the door is closed exactly when a judgement has ended a run that is long
enough, the event being of the first one; and no judgement raises and the door does not open again;
if and only if every such call is recorded before its bucket is taken, and a bucket without calls is
judged only where some are asked for. -/
theorem guard_judges_once_iff (settings : GuardSettings) (now : ℚ) (acts : List GuardAct) :
    Throughout (guardStep settings) (JudgesOnce settings) (newGuard now) acts ∧
        Meets (guardStep settings) (Proceeds settings) (newGuard now) acts ↔
      Meets (guardStep settings) (InTime settings) (newGuard now) acts :=
  throughout_and_meets_iff_meets (fun _ h => h.judges) (fun _ _ _ h => proceeds_of_inTime h)
    (fun _ _ _ h hintime hstep => h.step hintime hstep) (fun _ _ h => inTime_of_disabled h)
    (fun _ _ _ h hstep hafter hproceeds => h.inTime hstep hafter hproceeds) (tally_newGuard now)

/-- One bucket a second, with at least one call each, and a run of two. -/
def oneSecond : GuardSettings := ⟨300, 2, 1, 1, by norm_num⟩

/-- A call completes in bucket 0 and is recorded when that bucket has been judged. It is counted
nowhere. -/
theorem late_call_is_lost :
    ¬ Throughout (guardStep oneSecond) (JudgesOnce oneSecond) (newGuard 0)
      [.start 0, .start 1, .judge, .record ⟨1 / 2, 400⟩ 1] := by
  have hzero : indexOf oneSecond 0 = 0 := by norm_num [indexOf, toInt, oneSecond]
  have hone : indexOf oneSecond 1 = 1 := by norm_num [indexOf, toInt, oneSecond]
  have hhalf : indexOf oneSecond (1 / 2) = 0 := by
    norm_num [indexOf, toInt, oneSecond, Int.floor_eq_iff]
  have hfirst : guardStep oneSecond (newGuard 0) (.start 0) =
      some { newGuard 0 with next_bucket := some 0, first := some 0 } := by
    simp [guardStep, startPass, newGuard, GuardState.idle, hzero]
  have hsecond : guardStep oneSecond
      { newGuard 0 with next_bucket := some 0, first := some 0 } (.start 1) =
      some { newGuard 1 with next_bucket := some 0, first := some 0, last_closed := some 0 } := by
    simp [guardStep, startPass, newGuard, GuardState.idle, hone]
  rintro ⟨_, h⟩
  obtain ⟨_, h⟩ := h _ hfirst
  obtain ⟨_, h⟩ := h _ hsecond
  obtain ⟨_, h⟩ := h _ rfl
  have hpast : (1 / 2 : ℚ) ≤ 1 := by norm_num
  have hafter := h _ (if_pos ⟨le_refl _, hpast⟩)
  -- The record of bucket 0 counts no call, and the call is of bucket 0.
  have hcounted := hafter.counted 0 rfl _ (List.mem_singleton.2 rfl)
  have hcall : [(⟨1 / 2, 400⟩ : Call)].filter (fun call => decide ((0 : ℚ) ≤ call.completed_at) &&
      decide (indexOf oneSecond call.completed_at = 0)) = [⟨1 / 2, 400⟩] := by
    rw [List.filter_cons_of_pos (by simp only [hhalf]; norm_num), List.filter_nil]
  have habsurd : ([] : List Call) = [⟨1 / 2, 400⟩] := hcounted.trans hcall
  cases habsurd

end GenropyAsgi.Benchmarks

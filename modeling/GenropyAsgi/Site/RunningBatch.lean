import GenropyAsgi.Library.Run
import Mathlib.Algebra.Order.Ring.Int

/-!
# The flag of a running batch

`_flag_running_batch` of `siteregister_client.py`. A batch touches `lastBatchUpdate` of the user's
store, and a ping flags it while the touch is recent, or clears it. The elapsed time is compared by
the `seconds` of a `timedelta`, which leaves its days out, so a ping that comes a whole number of
days and a few seconds after the touch is flagged as well.

Time is counted in microseconds, the resolution of a datetime. A run is a sequence of touches and
pings, each with the time since the one before it, so that the instants never go back. Its history
says what the flag should follow: the last touch, and whether a ping has come outside the window
since.
-/

namespace GenropyAsgi.Site

open Library

/-- A second, in microseconds. -/
def SECOND : ℤ := 1000000

/-- A day, in microseconds. -/
def DAY : ℤ := 86400 * SECOND

/-- `RUNNING_BATCH_WINDOW`, in seconds. -/
def RUNNING_BATCH_WINDOW : ℤ := 5

/-- A `timedelta`, as Python normalises it. -/
structure Timedelta where
  /-- Whole days. -/
  days : ℤ
  /-- Seconds of the day. -/
  seconds : ℤ
  /-- Microseconds of the second. -/
  microseconds : ℤ
  /-- The seconds are those of one day. -/
  seconds_range : 0 ≤ seconds ∧ seconds < 86400
  /-- The microseconds are those of one second. -/
  microseconds_range : 0 ≤ microseconds ∧ microseconds < SECOND

/-- `later - earlier`. -/
def Timedelta.between (later earlier : ℤ) : Timedelta where
  days := (later - earlier) / DAY
  seconds := (later - earlier) % DAY / SECOND
  microseconds := (later - earlier) % SECOND
  seconds_range := by
    unfold DAY SECOND
    omega
  microseconds_range := by
    unfold SECOND
    omega

/-- The three parts make up the difference. -/
theorem Timedelta.between_total (later earlier : ℤ) :
    (between later earlier).days * DAY + (between later earlier).seconds * SECOND +
      (between later earlier).microseconds = later - earlier := by
  unfold between DAY SECOND
  dsimp only
  omega

/-- The seconds are below the window when what is left of the last day is. -/
theorem Timedelta.seconds_lt_window (later earlier : ℤ) :
    (between later earlier).seconds < RUNNING_BATCH_WINDOW ↔
      (later - earlier) % DAY < RUNNING_BATCH_WINDOW * SECOND := by
  unfold between RUNNING_BATCH_WINDOW DAY SECOND
  dsimp only
  generalize (later - earlier) % (86400 * 1000000) = rest
  omega

/-- `_flag_running_batch`: the mark that it leaves in the user's store, and whether it flags. -/
def flagRunningBatch (lastBatchUpdate : Option ℤ) (now : ℤ) : Option ℤ × Bool :=
  match lastBatchUpdate with
  | none => (none, false)
  | some last_batch_update =>
    if (Timedelta.between now last_batch_update).seconds < RUNNING_BATCH_WINDOW then
      (some last_batch_update, true)
    else (none, false)

/-! ## Runs -/

/-- An action, with the time since the one before it. -/
inductive BatchAct where
  /-- A batch sets `lastBatchUpdate` to the current instant. -/
  | touch (gap : ℕ)
  /-- A page of the user pings. -/
  | ping (gap : ℕ)

/-- The time that passes before an action. -/
def BatchAct.gap : BatchAct → ℕ
  | .touch gap => gap
  | .ping gap => gap

/-- What has happened. -/
structure BatchHistory where
  /-- The instant of the last action. -/
  now : ℤ
  /-- The last touch. -/
  touched : Option ℤ
  /-- Whether a ping has come outside the window since. -/
  outside : Bool

/-- The last touch lies less than the window before an instant. -/
def BatchHistory.Recent (h : BatchHistory) (now : ℤ) : Prop :=
  ∃ touch, h.touched = some touch ∧ now - touch < RUNNING_BATCH_WINDOW * SECOND

instance (h : BatchHistory) (now : ℤ) : Decidable (h.Recent now) :=
  match htouched : h.touched with
  | none => .isFalse (by
      rintro ⟨touch, h', _⟩
      rw [htouched] at h'
      cases h')
  | some touch =>
    decidable_of_iff (now - touch < RUNNING_BATCH_WINDOW * SECOND)
      ⟨fun hlt => ⟨touch, htouched, hlt⟩, by
        rintro ⟨touch', h', hlt⟩
        rw [htouched] at h'
        cases h'
        exact hlt⟩

/-- The history after an action. -/
def BatchHistory.next (h : BatchHistory) : BatchAct → BatchHistory
  | .touch gap => ⟨h.now + gap, some (h.now + gap), false⟩
  | .ping gap => ⟨h.now + gap, h.touched, h.outside || !decide (h.Recent (h.now + gap))⟩

/-- The state: the mark in the user's store, with the history. -/
structure BatchState where
  /-- `lastBatchUpdate`. -/
  lastBatchUpdate : Option ℤ
  /-- What has happened. -/
  history : BatchHistory

/-- One action. -/
def batchStep (s : BatchState) (act : BatchAct) : Option BatchState :=
  match act with
  | .touch gap => some ⟨some (s.history.now + gap), s.history.next act⟩
  | .ping gap =>
    some ⟨(flagRunningBatch s.lastBatchUpdate (s.history.now + gap)).1, s.history.next act⟩

/-- No batch has run yet. -/
def noBatch (now : ℤ) : BatchState := ⟨none, ⟨now, none, false⟩⟩

/-- A ping follows the window: it flags exactly when the last touch is recent, and clears the mark
when it is not. -/
def FollowsWindow (s : BatchState) : BatchAct → Prop
  | .touch _ => True
  | .ping gap =>
    ((flagRunningBatch s.lastBatchUpdate (s.history.now + gap)).2 = true ↔
        s.history.Recent (s.history.now + gap)) ∧
      (¬ s.history.Recent (s.history.now + gap) →
        (flagRunningBatch s.lastBatchUpdate (s.history.now + gap)).1 = none)

/-- The first ping outside the window after a touch does not come less than the window after a whole
number of days. -/
def OffTheDay (s : BatchState) : BatchAct → Prop
  | .touch _ => True
  | .ping gap => ∀ touch, s.history.touched = some touch → s.history.outside = false →
      ¬ s.history.Recent (s.history.now + gap) →
        RUNNING_BATCH_WINDOW * SECOND ≤ (s.history.now + gap - touch) % DAY

/-- The mark is the last touch until a ping has come outside the window, and `None` from then on. -/
structure Marked (s : BatchState) : Prop where
  mark : s.lastBatchUpdate = if s.history.outside then none else s.history.touched
  past : ∀ touch, s.history.touched = some touch → touch ≤ s.history.now
  outside : s.history.outside = true → ¬ s.history.Recent s.history.now

/-- A touch that is not recent is not recent later. -/
theorem BatchHistory.not_recent_later {h : BatchHistory} {now : ℤ} (hnot : ¬ h.Recent now)
    (gap : ℕ) : ¬ h.Recent (now + gap) := by
  rintro ⟨touch, htouched, hlt⟩
  exact hnot ⟨touch, htouched, by omega⟩

/-- A ping that finds a mark: the days are what it misses. -/
theorem flagRunningBatch_mark {touch now : ℤ} (hpast : touch ≤ now) :
    ((flagRunningBatch (some touch) now).2 = true ↔
        (now - touch) % DAY < RUNNING_BATCH_WINDOW * SECOND) ∧
      ((flagRunningBatch (some touch) now).2 = false →
        (flagRunningBatch (some touch) now).1 = none) ∧
      (now - touch < RUNNING_BATCH_WINDOW * SECOND →
        flagRunningBatch (some touch) now = (some touch, true)) := by
  have hseconds := Timedelta.seconds_lt_window now touch
  unfold flagRunningBatch
  dsimp only
  by_cases hlt : (Timedelta.between now touch).seconds < RUNNING_BATCH_WINDOW
  · rw [if_pos hlt]
    refine ⟨⟨fun _ => hseconds.1 hlt, fun _ => rfl⟩, ?_, fun _ => rfl⟩
    intro h
    cases h
  · rw [if_neg hlt]
    refine ⟨⟨?_, fun h => absurd (hseconds.2 h) hlt⟩, fun _ => rfl, ?_⟩
    · intro h
      cases h
    · -- A difference below the window is what is left of the last day, which is the first.
      intro hrecent
      refine absurd (hseconds.2 ?_) hlt
      unfold RUNNING_BATCH_WINDOW SECOND at hrecent
      unfold DAY RUNNING_BATCH_WINDOW SECOND
      omega

variable {s s' : BatchState}

/-- Recency is a matter of the last touch. -/
theorem BatchHistory.recent_iff {h : BatchHistory} {touch : ℤ} (htouched : h.touched = some touch)
    (now : ℤ) : h.Recent now ↔ now - touch < RUNNING_BATCH_WINDOW * SECOND := by
  constructor
  · rintro ⟨touch', h', hlt⟩
    rw [htouched] at h'
    cases h'
    exact hlt
  · exact fun hlt => ⟨touch, htouched, hlt⟩

/-- A ping that finds no mark follows the window when the last touch is not recent. -/
theorem followsWindow_of_no_mark {gap : ℕ} (hmark : s.lastBatchUpdate = none)
    (hnot : ¬ s.history.Recent (s.history.now + gap)) : FollowsWindow s (.ping gap) := by
  unfold FollowsWindow
  rw [hmark]
  refine ⟨⟨fun hflagged => ?_, fun hrecent => absurd hrecent hnot⟩, fun _ => rfl⟩
  cases hflagged

/-- A ping that finds the last touch for a mark follows the window exactly when the days do not hide
that it is not recent. -/
theorem followsWindow_iff_of_mark {gap : ℕ} {touch : ℤ} (hmark : s.lastBatchUpdate = some touch)
    (htouched : s.history.touched = some touch) (hpast : touch ≤ s.history.now + gap) :
    FollowsWindow s (.ping gap) ↔ (¬ s.history.Recent (s.history.now + gap) →
      RUNNING_BATCH_WINDOW * SECOND ≤ (s.history.now + gap - touch) % DAY) := by
  obtain ⟨hflag, hclear, hfresh⟩ := flagRunningBatch_mark hpast
  have hrecent := BatchHistory.recent_iff htouched (s.history.now + gap)
  simp only [FollowsWindow, hmark]
  constructor
  · rintro ⟨hiff, _⟩ hnot
    by_contra hday
    exact hnot (hiff.1 (hflag.2 (Int.not_le.1 hday)))
  · intro hday
    by_cases hnow : s.history.Recent (s.history.now + gap)
    · rw [hfresh (hrecent.1 hnow)]
      exact ⟨⟨fun _ => hnow, fun _ => rfl⟩, fun hnot => absurd hnow hnot⟩
    · have hlate := hday hnow
      have hunflagged : (flagRunningBatch (some touch) (s.history.now + gap)).2 = false := by
        rw [Bool.eq_false_iff]
        intro hflagged
        exact absurd (hflag.1 hflagged) (Int.not_lt.2 hlate)
      refine ⟨⟨fun h' => ?_, fun h' => absurd h' hnow⟩, fun _ => hclear hunflagged⟩
      rw [hunflagged] at h'
      cases h'

/-- A ping follows the window exactly when it is not the one that the days hide. -/
theorem Marked.followsWindow_iff (h : Marked s) (act : BatchAct) :
    FollowsWindow s act ↔ OffTheDay s act := by
  cases act with
  | touch gap => exact Iff.rfl
  | ping gap =>
    cases htouched : s.history.touched with
    | none =>
      -- Nothing has been touched, and there is no mark.
      have hmark : s.lastBatchUpdate = none := by
        rw [h.mark, htouched, ite_self]
      have hnot : ¬ s.history.Recent (s.history.now + gap) := by
        rintro ⟨touch, h', _⟩
        rw [htouched] at h'
        cases h'
      refine iff_of_true (followsWindow_of_no_mark hmark hnot) fun touch h' => ?_
      rw [htouched] at h'
      cases h'
    | some touch =>
      cases houtside : s.history.outside with
      | true =>
        have hmark : s.lastBatchUpdate = none := by
          rw [h.mark, houtside]
          rfl
        have hnot := BatchHistory.not_recent_later (h.outside houtside) gap
        refine iff_of_true (followsWindow_of_no_mark hmark hnot) fun _ _ h' => ?_
        rw [houtside] at h'
        cases h'
      | false =>
        have hmark : s.lastBatchUpdate = some touch := by
          rw [h.mark, houtside, htouched]
          rfl
        have hpast : touch ≤ s.history.now + gap := by
          have := h.past touch htouched
          omega
        rw [followsWindow_iff_of_mark hmark htouched hpast]
        constructor
        · intro hday touch' h' _ hnot
          rw [htouched] at h'
          cases h'
          exact hday hnot
        · exact fun hday => hday touch htouched houtside

/-- A step that the days do not hide keeps the mark. -/
theorem Marked.step (h : Marked s) {act : BatchAct} (hday : OffTheDay s act)
    (hstep : batchStep s act = some s') : Marked s' := by
  cases act with
  | touch gap =>
    cases hstep
    refine ⟨rfl, fun touch htouch => ?_, fun houtside => by cases houtside⟩
    cases htouch
    exact Int.le_refl _
  | ping gap =>
    have hfollows : FollowsWindow s (.ping gap) := (h.followsWindow_iff _).2 hday
    cases hstep
    refine ⟨?_, fun touch htouch => ?_, ?_⟩
    · by_cases hrecent : s.history.Recent (s.history.now + gap)
      · -- No ping has come outside the window, and the mark stays.
        have hinside : s.history.outside = false := by
          rw [Bool.eq_false_iff]
          intro houtside
          exact BatchHistory.not_recent_later (h.outside houtside) gap hrecent
        obtain ⟨touch, htouched, hlt⟩ := id hrecent
        have hmark : s.lastBatchUpdate = some touch := by
          rw [h.mark, hinside, htouched]
          rfl
        have hpast : touch ≤ s.history.now + gap := by
          have := h.past touch htouched
          omega
        have hkept := (flagRunningBatch_mark hpast).2.2 hlt
        simp [BatchHistory.next, hmark, hkept, hinside, htouched, hrecent]
      · have hcleared := hfollows.2 hrecent
        simp [BatchHistory.next, hcleared, hrecent]
    · have := h.past touch htouch
      dsimp only [BatchHistory.next]
      omega
    · dsimp only [BatchHistory.next]
      intro houtside
      rw [Bool.or_eq_true, Bool.not_eq_true', decide_eq_false_iff_not] at houtside
      rcases houtside with houtside | hnot
      · exact BatchHistory.not_recent_later (h.outside houtside) gap
      · exact hnot

/-- **The flag of a running batch follows the window, except on the day.** For every sequence of
touches and pings at instants that do not go back, every ping is flagged exactly when the last touch
lies less than the window before it, and clears the mark when it does not, if and only if the first
ping outside the window after each touch does not come less than the window after a whole number of
days. -/
theorem running_batch_follows_window_iff (now : ℤ) (acts : List BatchAct) :
    Meets batchStep FollowsWindow (noBatch now) acts ↔
      Meets batchStep OffTheDay (noBatch now) acts := by
  have hstart : Marked (noBatch now) := by
    refine ⟨rfl, ?_, ?_⟩
    · intro touch h
      cases h
    · intro h
      cases h
  exact meets_iff_meets (fun _ act h => h.followsWindow_iff act)
    (fun _ _ _ h hday hstep => h.step hday hstep) hstart

/-- A ping one day and two seconds after the touch is flagged. -/
theorem running_batch_flagged_a_day_later :
    ¬ Meets batchStep FollowsWindow (noBatch 0) [.touch 0, .ping 86402000000] := by
  rintro ⟨_, h⟩
  obtain ⟨hping, _⟩ := h _ rfl
  have hrecent := hping.1.1 (by decide)
  revert hrecent
  decide

end GenropyAsgi.Site

import Mathlib.Data.List.Range
import GenropyAsgi.Benchmarks.Fidelity

/-!
# The books of a replay

Whatever the target answers: the exchanges go out in the order of the trace, each is told once, as
compared or as not compared, and each status that is not the recorded one is told once, as a failure
or as a race. The replay ends before the trace does only where the client raises or at a divergence
that nothing declares, which is one of the last exchange (`replay_keeps_books`).
-/

namespace GenropyAsgi.Benchmarks.Replica

open Library

section Books

variable {S : Type} (setting : Setting S)

/-- The statuses of the rows that are not the recorded ones, by position. -/
def differing (rows : List Row) (done : List Exchange) : List ℕ :=
  ((rows.zip done).filter fun pair => pair.1.status ≠ pair.2.status).map fun pair =>
    pair.1.position

/-- The books after some exchanges. -/
structure Books (replay : Replay S) (done : List Exchange) : Prop where
  /-- They went out in their order. -/
  sent : replay.sent.map Request.replica_of = done.map Exchange.exchange_id
  /-- Each has its row. -/
  rows : replay.rows.map Row.position = List.range' 1 done.length
  /-- Each is compared or is not, and is told once. -/
  once : setting.archive.isSome = true →
    (replay.compared.map Prod.fst ++ replay.uncompared.map Prod.fst).Perm
      (List.range' 1 done.length)
  /-- Each status that is not the recorded one is told once. -/
  statuses : (replay.failures.map Mismatch.position ++
    replay.races.map fun race => race.1.position).Perm (differing replay.rows done)
  /-- What is compared was replayed. -/
  below : ∀ entry ∈ replay.compared, entry.1 ≤ done.length
  /-- A row has the numbers of lines where its exchange was compared. -/
  figures : ∀ row ∈ replay.rows, ∀ n m, row.reference_lines = some n ∧ row.replica_lines = some m ↔
    (row.position, n, m) ∈ replay.compared
  /-- A divergence is one of the last exchange, which was compared. -/
  last : ∀ d, replay.divergence = some d → d.position = done.length ∧
    done.getLast? = some d.exchange ∧ d.position ∈ replay.compared.map Prod.fst

variable {setting}

/-- A difference is told with its exchange and its position. -/
theorem getDivergence_told {E : Type} {left right : List LineShape} {exchange : E} {position : ℕ}
    {matcher : SequenceMatcher AlignmentKey} {rules : List DeclaredRule} {d : Divergence E}
    (h : (getDivergence left right exchange position matcher rules).1 = some d) :
    d.exchange = exchange ∧ d.position = position := by
  rw [getDivergence, firstUndeclared_eq_find, getDifferences_eq] at h
  obtain ⟨op, _, hd⟩ := List.mem_flatMap.1 (List.mem_of_find?_eq_some h)
  unfold opDifferences at hd
  split_ifs at hd
  · obtain ⟨step, _, hstep⟩ := List.mem_filterMap.1 hd
    split at hstep
    · split_ifs at hstep
      · cases hstep
        exact ⟨rfl, rfl⟩
      · cases hstep
        exact ⟨rfl, rfl⟩
    · cases hstep
  · cases List.mem_singleton.1 hd
    exact ⟨rfl, rfl⟩

/-- One more row, and its exchange. -/
theorem differing_concat {rows : List Row} {done : List Exchange}
    (hlength : rows.length = done.length) (row : Row) (record : Exchange) :
    differing (rows ++ [row]) (done ++ [record]) = differing rows done ++
      if row.status = record.status then [] else [row.position] := by
  unfold differing
  rw [List.zip_append hlength, List.filter_append, List.map_append]
  by_cases hsame : row.status = record.status <;> simp [hsame]

/-- A list that is dealt into two, and one more entry for the first of them. -/
theorem perm_concat_append {α : Type} {first second all : List α}
    (h : (first ++ second).Perm all) (a : α) : (first ++ [a] ++ second).Perm (all ++ [a]) := by
  rw [List.append_assoc]
  refine (List.perm_append_comm.append_left first).trans ?_
  rw [← List.append_assoc]
  exact h.append_right [a]

/-- One more entry for the second. -/
theorem perm_append_concat {α : Type} {first second all : List α}
    (h : (first ++ second).Perm all) (a : α) : (first ++ (second ++ [a])).Perm (all ++ [a]) := by
  rw [← List.append_assoc]
  exact h.append_right [a]

namespace Books

variable {replay next : Replay S} {done : List Exchange} {record : Exchange} {server : S}
  {reply : Reply}

/-- Before the first exchange. -/
theorem new (server : S) : Books setting (.new server) [] where
  sent := rfl
  rows := rfl
  once _ := List.Perm.refl _
  statuses := List.Perm.refl _
  below _ h := absurd h List.not_mem_nil
  figures _ h := absurd h List.not_mem_nil
  last _ h := nomatch h

/-- As many rows as exchanges. -/
theorem length_rows (h : Books setting replay done) : replay.rows.length = done.length := by
  have hlength := congrArg List.length h.rows
  rwa [List.length_map, List.length_range'] at hlength

/-- The positions up to one more. -/
theorem range'_concat_one (n : ℕ) : List.range' 1 (n + 1) = List.range' 1 n ++ [n + 1] := by
  rw [List.range'_concat, Nat.one_mul, Nat.add_comm 1]

/-- One more exchange is told once. -/
theorem once_went (h : Books setting replay done)
    (hwent : Went setting replay next record (done.length + 1) server reply)
    (harchive : setting.archive.isSome = true) :
    (next.compared.map Prod.fst ++ next.uncompared.map Prod.fst).Perm
      (List.range' 1 (done.length + 1)) := by
  have hold := h.once harchive
  obtain ⟨archive, hsome⟩ := Option.isSome_iff_exists.1 harchive
  rw [range'_concat_one, hwent.compared, hwent.uncompared, verdict?, hsome, Option.map_some]
  cases verdict setting record (raceOf setting record reply.status)
    (archive server record.exchange_id) with
  | inl reason =>
    dsimp only
    rw [List.append_nil, List.map_append]
    exact perm_append_concat hold (done.length + 1)
  | inr answered =>
    dsimp only
    rw [List.append_nil, List.map_append]
    exact perm_concat_append hold (done.length + 1)

/-- So is one more status that is not the recorded one. -/
theorem statuses_went (h : Books setting replay done)
    (hwent : Went setting replay next record (done.length + 1) server reply) :
    (next.failures.map Mismatch.position ++ next.races.map fun race => race.1.position).Perm
      (differing next.rows (done ++ [record])) := by
  have hold := h.statuses
  have hdiffering : differing next.rows (done ++ [record]) = differing replay.rows done ++
      if reply.status = record.status then [] else [done.length + 1] := by
    rw [hwent.rows]
    exact differing_concat h.length_rows _ record
  rw [hdiffering, hwent.failures, hwent.races]
  by_cases hstatus : reply.status = record.status
  · have hrace : raceOf setting record reply.status = none := if_pos hstatus
    rw [hrace, if_pos hstatus, if_pos (Or.inl hstatus), Option.toList_none, List.map_nil,
      List.append_nil, List.append_nil, List.append_nil]
    exact hold
  · rw [if_neg hstatus]
    cases hrace : raceOf setting record reply.status with
    | none =>
      rw [if_neg (by simp [hstatus]), Option.toList_none, List.map_nil, List.append_nil,
        List.map_append]
      exact perm_concat_append hold (done.length + 1)
    | some reason =>
      have hsome : reply.status = record.status ∨ (some reason).isSome = true := Or.inr rfl
      rw [if_pos hsome, List.append_nil, List.map_append]
      exact perm_append_concat hold (done.length + 1)

/-- An exchange that is compared is one of those that went out, or the one that goes out now. -/
theorem below_went (h : Books setting replay done)
    (hwent : Went setting replay next record (done.length + 1) server reply)
    (entry : ℕ × ℕ × ℕ) (hentry : entry ∈ next.compared) :
    entry ∈ replay.compared ∧ entry.1 ≤ done.length ∨ entry.1 = done.length + 1 := by
  rw [hwent.compared] at hentry
  rcases List.mem_append.1 hentry with hold | hnew
  · exact Or.inl ⟨hold, h.below entry hold⟩
  · refine Or.inr ?_
    split at hnew
    · rw [List.mem_singleton.1 hnew]
    · exact absurd hnew List.not_mem_nil

/-- The rows that are there keep their numbers of lines. -/
theorem figures_kept (h : Books setting replay done)
    (hwent : Went setting replay next record (done.length + 1) server reply) {row : Row}
    (hrow : row ∈ replay.rows) (n m : ℕ) :
    row.reference_lines = some n ∧ row.replica_lines = some m ↔
      (row.position, n, m) ∈ next.compared := by
  have hposition : row.position ≤ done.length := by
    have hmem := List.mem_map_of_mem (f := Row.position) hrow
    rw [h.rows, List.mem_range'_1] at hmem
    omega
  rw [h.figures row hrow]
  constructor
  · intro hold
    rw [hwent.compared]
    exact List.mem_append_left _ hold
  · intro hin
    obtain ⟨hold, _⟩ | hlast := h.below_went hwent _ hin
    · exact hold
    · dsimp only at hlast
      omega

/-- The new row has those of its own comparison. -/
theorem figures_new (h : Books setting replay done)
    (hwent : Went setting replay next record (done.length + 1) server reply) (n m : ℕ) :
    (getRow next record (done.length + 1) reply.status).reference_lines = some n ∧
        (getRow next record (done.length + 1) reply.status).replica_lines = some m ↔
      (done.length + 1, n, m) ∈ next.compared := by
  -- No earlier comparison bears the position of this exchange.
  have habove : ∀ entry ∈ replay.compared, entry.1 ≠ done.length + 1 := by
    intro entry hentry heq
    have hle := h.below entry hentry
    omega
  have hfind : replay.compared.find? (fun entry => decide (entry.1 = done.length + 1)) =
      none := List.find?_eq_none.2 fun entry hentry => by simpa using habove entry hentry
  have hnot : (done.length + 1, n, m) ∉ replay.compared := fun hin => habove _ hin rfl
  unfold getRow
  dsimp only
  rw [hwent.compared, List.find?_append, hfind, Option.none_or, List.mem_append,
    or_iff_right hnot]
  split
  · rw [List.find?_cons_of_pos (by simp), List.mem_singleton]
    constructor
    · rintro ⟨⟨⟩, ⟨⟩⟩
      rfl
    · rintro ⟨⟩
      exact ⟨rfl, rfl⟩
  · refine iff_of_false (fun hsome => ?_) List.not_mem_nil
    cases hsome.1

/-- A divergence is one of the exchange that has just gone out. -/
theorem last_went (hnone : replay.divergence = none)
    (hwent : Went setting replay next record (done.length + 1) server reply)
    {d : Divergence Exchange} (hd : next.divergence = some d) :
    d.position = done.length + 1 ∧ d.exchange = record ∧
      d.position ∈ next.compared.map Prod.fst := by
  rw [hwent.compared]
  rw [hwent.divergence] at hd
  split at hd
  · obtain ⟨hexchange, hposition⟩ := getDivergence_told hd
    refine ⟨hposition, hexchange, ?_⟩
    rw [hposition, List.map_append]
    exact List.mem_append_right _ (List.mem_singleton_self _)
  · rw [hnone] at hd
    cases hd

/-- One more exchange. -/
theorem went (h : Books setting replay done) (hnone : replay.divergence = none)
    (hwent : Went setting replay next record (done.length + 1) server reply) :
    Books setting next (done ++ [record]) := by
  have hlength : (done ++ [record]).length = done.length + 1 := List.length_append
  exact {
    sent := by
      rw [hwent.sent, List.map_append, List.map_append, h.sent]
      rfl
    rows := by
      rw [hwent.rows, List.map_append, h.rows, hlength, range'_concat_one]
      rfl
    once := by
      rw [hlength]
      exact h.once_went hwent
    statuses := h.statuses_went hwent
    below := by
      intro entry hentry
      rw [hlength]
      obtain ⟨_, hle⟩ | hlast := h.below_went hwent entry hentry
      · exact Nat.le_succ_of_le hle
      · exact hlast.le
    figures := by
      intro row hrow n m
      rw [hwent.rows] at hrow
      rcases List.mem_append.1 hrow with hold | hnew
      · exact h.figures_kept hwent hold n m
      · rw [List.mem_singleton.1 hnew]
        exact h.figures_new hwent n m
    last := by
      intro d hd
      obtain ⟨hposition, hexchange, hcompared⟩ := last_went hnone hwent hd
      rw [hlength, List.getLast?_concat, hexchange]
      exact ⟨hposition, rfl, hcompared⟩ }

end Books

/-- The books of a replay from some exchange on. -/
theorem books_replayFrom {replay : Replay S} {done records : List Exchange}
    (h : Books setting replay done) (hnone : replay.divergence = none)
    (hraised : replay.raised = false) :
    ∃ more, more <+: records ∧
      Books setting (replayFrom setting replay (done.length + 1) records) (done ++ more) ∧
        (more = records ∨ (replayFrom setting replay (done.length + 1) records).raised = true ∨
          (replayFrom setting replay (done.length + 1) records).divergence.isSome = true) := by
  induction records generalizing replay done with
  | nil => exact ⟨[], List.prefix_rfl, by rw [List.append_nil]; exact h, Or.inl rfl⟩
  | cons record records ih =>
    rw [replayFrom]
    cases hone : replayOne setting replay record (done.length + 1) with
    | none =>
      refine ⟨[], List.nil_prefix, ?_, Or.inr (Or.inl rfl)⟩
      rw [List.append_nil]
      exact { h with }
    | some next =>
      obtain ⟨server, reply, _, hwent⟩ := went hone
      have hnext := h.went hnone hwent
      dsimp only
      split_ifs with hfound
      · exact ⟨[record], ⟨records, rfl⟩, hnext, Or.inr (Or.inr hfound)⟩
      · have hlength : (done ++ [record]).length = done.length + 1 := List.length_append
        obtain ⟨more, hmore, hbooks, hend⟩ := ih hnext
          (Option.not_isSome_iff_eq_none.1 hfound) (hwent.raised.trans hraised)
        rw [hlength] at hbooks hend
        refine ⟨record :: more, List.cons_prefix_cons.2 ⟨rfl, hmore⟩, ?_, ?_⟩
        · rw [List.append_assoc, List.singleton_append] at hbooks
          exact hbooks
        · rcases hend with hall | hend
          · exact Or.inl (congrArg _ hall)
          · exact Or.inr hend

/-- A replay keeps its books. Whatever the target answers, whatever its archive tells and whatever
the rules recognise, a replay that is not refused takes the exchanges of the trace in order, up to
some point; each has its row, with the numbers of lines where it was compared; each is told once, as
compared or as not compared, if there is an archive; each status that is not the recorded one is
told once, as a failure or as a race; and it ends before the trace does only where the client raises
or at a divergence, which is one of its last exchange. -/
theorem replay_keeps_books {aligned : Bool} {target : Option TraceReader} {server : S}
    {replay : Replay S} (hrun : replicaRun setting aligned target server = .ok replay) :
    aligned = true ∧ (∀ reader, target = some reader → separated setting.trace reader) ∧
      ∃ done, done <+: setting.trace.exchanges ∧ Books setting replay done ∧
        (done = setting.trace.exchanges ∨ replay.raised = true ∨
          replay.divergence.isSome = true) := by
  unfold replicaRun at hrun
  split_ifs at hrun with hparity hdatabase
  cases hrun
  refine ⟨by simpa using hparity, fun reader hreader => ?_, books_replayFrom (.new server) rfl rfl⟩
  rw [hreader] at hdatabase
  simpa using hdatabase

/-- The books of a replay with two exchanges. -/
theorem replay_keeps_books_login :
    ∃ replay done, replicaRun Sample.setting true none 0 = .ok replay ∧
      done <+: Sample.setting.trace.exchanges ∧ Books Sample.setting replay done := by
  obtain ⟨_, _, done, hprefix, hbooks, _⟩ :=
    @replay_keeps_books _ Sample.setting true none 0 _ rfl
  exact ⟨_, done, rfl, hprefix, hbooks⟩

end Books

end GenropyAsgi.Benchmarks.Replica

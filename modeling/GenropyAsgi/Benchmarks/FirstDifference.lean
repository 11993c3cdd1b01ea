import GenropyAsgi.Benchmarks.StructuralDiff

/-!
# The first difference that nothing declares

What the structural diff is for: its answer is the first difference, in the order of the calls, that
no rule recognises, where every line without a counterpart is a difference of its own. The code
judges a range without counterparts by its first lines. `StandFor` says that this is enough: up to
the first difference that is not recognised, a range whose first lines are recognised holds nothing
else. The two searches then agree, and only then, since the differences of two ranges are told apart
by their kinds and their ordinals.
-/

namespace GenropyAsgi.Benchmarks

open Library

variable {E : Type} (left right : List LineShape) (exchange : E) (position : ℕ)

/-! ## What there is to see -/

/-- The lines of the reference without a counterpart, each as a missing call. -/
def missingCalls (op : Opcode) : List (Divergence E) :=
  (List.range (op.left_end - op.left_start)).filterMap fun step =>
    left[op.left_start + step]?.map fun line =>
      ⟨exchange, position, .call_missing, some line, none, op.left_start + step + 1⟩

/-- The lines of the replica without a counterpart, each as an extra call. -/
def extraCalls (op : Opcode) : List (Divergence E) :=
  (List.range (op.right_end - op.right_start)).filterMap fun step =>
    right[op.right_start + step]?.map fun line =>
      ⟨exchange, position, .extra_call, none, some line, op.left_start + 1⟩

/-- Every difference of a range. A range with lines on both sides is a different call as well. -/
def present (op : Opcode) : List (Divergence E) :=
  if op.tag = .equal then getValueDifferences left right exchange position op
  else
    (if op.tag = .replace then [getCallDifference left right exchange position op] else []) ++
      (missingCalls left exchange position op ++ extraCalls right exchange position op)

/-- Every difference, in the order of the calls. -/
def everyDifference (matcher : SequenceMatcher AlignmentKey) : List (Divergence E) :=
  (alignment left right matcher).flatMap (present left right exchange position)

variable {left right} {exchange position}

/-- A rule of the table recognises the difference. -/
def Recognised (rules : List DeclaredRule) (d : Divergence E) : Prop :=
  getDivergenceReason rules d.reference d.replica ≠ none

instance (rules : List DeclaredRule) (d : Divergence E) : Decidable (Recognised rules d) :=
  inferInstanceAs (Decidable (_ ≠ _))

/-- Two lines that agree. -/
def SameLine (one other : LineShape) : Prop :=
  one.alignment_key = other.alignment_key ∧ one.arguments = other.arguments ∧
    one.answer = other.answer

variable (left right) (exchange position)

/-- The two sequences agree line by line. -/
def Agree : Prop :=
  left.length = right.length ∧
    ∀ (k : ℕ) (one other : LineShape), left[k]? = some one → right[k]? = some other →
      SameLine one other

variable (matcher : SequenceMatcher AlignmentKey) (rules : List DeclaredRule)

/-- The structural diff hides nothing that is not declared. -/
structure HidesNothing : Prop where
  /-- It answers nothing only if every difference is recognised. -/
  none_only : (getDivergence left right exchange position matcher rules).1 = none →
    ∀ d ∈ everyDifference left right exchange position matcher, Recognised rules d
  /-- With a table that recognises nothing it answers nothing exactly when the sequences agree. -/
  silent : (∀ reference replica, getDivergenceReason rules reference replica = none) →
    ((getDivergence left right exchange position matcher rules).1 = none ↔ Agree left right)
  /-- What it answers is the first difference that is not recognised. -/
  first : ∀ d, (getDivergence left right exchange position matcher rules).1 = some d →
    ∃ before after, everyDifference left right exchange position matcher = before ++ d :: after ∧
      (∀ e ∈ before, Recognised rules e) ∧ ¬ Recognised rules d

/-- As long as everything before is recognised, the first lines of a range without counterparts
stand for the others: if they are recognised, so is every line of the range. -/
def StandFor : List Opcode → Prop
  | [] => True
  | op :: ops =>
    (op.tag ≠ .equal → Recognised rules (getCallDifference left right exchange position op) →
        ∀ d ∈ present left right exchange position op, Recognised rules d) ∧
      ((∀ d ∈ present left right exchange position op, Recognised rules d) → StandFor ops)

variable {left right} {exchange position} {matcher} {rules}

/-! ## The loop -/

/-- The loop answers the first difference that is not recognised. -/
theorem firstUndeclared_eq_find :
    ∀ differences : List (Divergence E), (firstUndeclared rules differences).1 =
      differences.find? fun d => decide (¬ Recognised rules d)
  | [] => rfl
  | d :: differences => by
    unfold firstUndeclared
    cases hreason : getDivergenceReason rules d.reference d.replica with
    | none =>
      have hnot : ¬ Recognised rules d := fun h => h hreason
      rw [List.find?_cons_of_pos (by simpa using hnot)]
    | some known =>
      have hrecognised : Recognised rules d := by
        unfold Recognised
        rw [hreason]
        simp
      rw [List.find?_cons_of_neg (by simpa using hrecognised)]
      exact firstUndeclared_eq_find differences

/-- Nothing is found among differences that are all recognised. -/
theorem find_eq_none {differences : List (Divergence E)} :
    (differences.find? fun d => decide (¬ Recognised rules d)) = none ↔
      ∀ d ∈ differences, Recognised rules d := by
  rw [List.find?_eq_none]
  simp

/-! ## One range -/

section Range

variable {a b : List AlignmentKey} {op : Opcode}

/-- The ranges of an opcode go on. -/
theorem Opcode.Fits.le (h : op.Fits a b) :
    op.left_start ≤ op.left_end ∧ op.right_start ≤ op.right_end := by
  unfold Opcode.Fits at h
  cases hop : op.tag with
  | equal =>
    rw [hop] at h
    exact ⟨h.1.le, h.2.2.1⟩
  | replace =>
    rw [hop] at h
    exact ⟨h.1.le, h.2.le⟩
  | delete =>
    rw [hop] at h
    exact ⟨h.1.le, h.2.le⟩
  | insert =>
    rw [hop] at h
    exact ⟨h.1.le, h.2.le⟩

/-- The first line of a range that is not empty. -/
theorem range_filterMap_cons {α : Type} {n : ℕ} (hn : 0 < n) (f : ℕ → Option α) {x : α}
    (hx : f 0 = some x) : ∃ rest, (List.range n).filterMap f = x :: rest := by
  obtain ⟨m, rfl⟩ := Nat.exists_eq_succ_of_ne_zero (Nat.pos_iff_ne_zero.1 hn)
  rw [List.range_succ_eq_map, List.filterMap_cons, hx]
  exact ⟨_, rfl⟩

variable (exchange position) in
/-- What the code makes of a range without counterparts is the first of its differences. -/
theorem present_eq_cons (hfits : op.Fits a b) (hleft : op.left_end ≤ left.length)
    (hright : op.right_end ≤ right.length) (htag : op.tag ≠ .equal) :
    ∃ rest, present left right exchange position op =
      getCallDifference left right exchange position op :: rest := by
  unfold present
  rw [if_neg htag]
  unfold Opcode.Fits at hfits
  cases hop : op.tag with
  | equal => exact absurd hop htag
  | replace =>
    rw [if_pos rfl]
    exact ⟨_, rfl⟩
  | delete =>
    rw [hop] at hfits
    obtain ⟨hlt, heq⟩ := hfits
    have hline : left[op.left_start]? = some left[op.left_start] :=
      List.getElem?_eq_getElem (by omega)
    have hfirst : (left[op.left_start + 0]?.map fun line =>
        (⟨exchange, position, .call_missing, some line, none, op.left_start + 0 + 1⟩ :
          Divergence E)) =
        some ⟨exchange, position, .call_missing, some left[op.left_start], none,
          op.left_start + 1⟩ :=
      congrArg (Option.map _) hline
    obtain ⟨rest, hrest⟩ := range_filterMap_cons (n := op.left_end - op.left_start) (by omega)
      (fun step => left[op.left_start + step]?.map fun line =>
        (⟨exchange, position, .call_missing, some line, none, op.left_start + step + 1⟩ :
          Divergence E)) hfirst
    refine ⟨rest ++ extraCalls right exchange position op, ?_⟩
    rw [if_neg (by decide), List.nil_append, missingCalls, hrest]
    simp [getCallDifference, hop, Tag.kind, hlt, heq]
  | insert =>
    rw [hop] at hfits
    obtain ⟨heq, hlt⟩ := hfits
    have hline : right[op.right_start]? = some right[op.right_start] :=
      List.getElem?_eq_getElem (by omega)
    have hfirst : (right[op.right_start + 0]?.map fun line =>
        (⟨exchange, position, .extra_call, none, some line, op.left_start + 1⟩ :
          Divergence E)) =
        some ⟨exchange, position, .extra_call, none, some right[op.right_start],
          op.left_start + 1⟩ :=
      congrArg (Option.map _) hline
    obtain ⟨rest, hrest⟩ := range_filterMap_cons (n := op.right_end - op.right_start) (by omega)
      (fun step => right[op.right_start + step]?.map fun line =>
        (⟨exchange, position, .extra_call, none, some line, op.left_start + 1⟩ :
          Divergence E)) hfirst
    refine ⟨rest, ?_⟩
    have hmissing : missingCalls left exchange position op = [] := by
      rw [missingCalls, heq, Nat.sub_self]
      rfl
    rw [if_neg (by decide), List.nil_append, hmissing, List.nil_append, extraCalls, hrest]
    simp [getCallDifference, hop, Tag.kind, hlt, heq]

/-- A value difference is of a pair of its range, at the ordinal of its line. -/
theorem mem_getValueDifferences {d : Divergence E}
    (h : d ∈ getValueDifferences left right exchange position op) :
    (d.kind = .arguments ∨ d.kind = .answer) ∧ op.left_start + 1 ≤ d.ordinal ∧
      d.ordinal ≤ op.left_end := by
  unfold getValueDifferences at h
  obtain ⟨step, hstep, hd⟩ := List.mem_filterMap.1 h
  have hlt := List.mem_range.1 hstep
  split at hd
  · split_ifs at hd
    · cases hd
      dsimp only
      exact ⟨.inl rfl, by omega, by omega⟩
    · cases hd
      dsimp only
      exact ⟨.inr rfl, by omega, by omega⟩
  · cases hd

/-- A difference of a range without counterparts is of another kind, and lies in the range. -/
theorem mem_present {d : Divergence E} (hfits : op.Fits a b) (htag : op.tag ≠ .equal)
    (h : d ∈ present left right exchange position op) :
    d.kind ≠ .arguments ∧ d.kind ≠ .answer ∧ d.ordinal ≤ op.left_end + 1 := by
  have hle := hfits.le.1
  unfold present at h
  rw [if_neg htag] at h
  rcases List.mem_append.1 h with h | h
  · split_ifs at h with hreplace
    · rw [List.mem_singleton] at h
      subst h
      have hkind : (getCallDifference left right exchange position op).kind =
          .different_call := by
        unfold getCallDifference
        rw [hreplace]
        rfl
      rw [hkind]
      exact ⟨by decide, by decide, Nat.succ_le_succ hle⟩
    · cases h
  · rcases List.mem_append.1 h with h | h
    · obtain ⟨step, hstep, hd⟩ := List.mem_filterMap.1 h
      have hlt := List.mem_range.1 hstep
      obtain ⟨line, _, rfl⟩ := Option.map_eq_some_iff.1 hd
      dsimp only
      exact ⟨by decide, by decide, by omega⟩
    · obtain ⟨step, _, hd⟩ := List.mem_filterMap.1 h
      obtain ⟨line, _, rfl⟩ := Option.map_eq_some_iff.1 hd
      dsimp only
      exact ⟨by decide, by decide, by omega⟩

/-- What the code makes of a range without counterparts is at its start. -/
theorem opDifferences_ordinal {d : Divergence E} (hfits : op.Fits a b)
    (h : d ∈ opDifferences left right exchange position op) :
    op.left_start + 1 ≤ d.ordinal ∧ d.ordinal ≤ op.left_end + 1 := by
  unfold opDifferences at h
  split_ifs at h with htag
  · have hvalue := mem_getValueDifferences h
    omega
  · rw [List.mem_singleton] at h
    subst h
    exact ⟨le_refl _, Nat.succ_le_succ hfits.le.1⟩

/-- What the code makes of a range is among its differences. -/
theorem opDifferences_subset (hfits : op.Fits a b) (hleft : op.left_end ≤ left.length)
    (hright : op.right_end ≤ right.length) :
    opDifferences left right exchange position op ⊆ present left right exchange position op := by
  unfold opDifferences
  by_cases htag : op.tag = .equal
  · unfold present
    rw [if_pos htag, if_pos htag]
    exact List.Subset.refl _
  · obtain ⟨rest, hrest⟩ := present_eq_cons exchange position hfits hleft hright htag
    rw [if_neg htag, hrest]
    intro d hd
    rw [List.mem_singleton] at hd
    rw [hd]
    exact List.mem_cons_self

end Range

/-! ## The ranges in their order -/

section Ranges

variable {a b : List AlignmentKey}

/-- What is left of the two sequences is within them. -/
theorem Aligns.le : ∀ {ops : List Opcode} {i j : ℕ}, Aligns a b i j ops →
    i ≤ a.length ∧ j ≤ b.length
  | [], _, _, h => ⟨h.1.le, h.2.le⟩
  | op :: ops, i, j, h => by
    obtain ⟨rfl, rfl, hfits, _, hrest⟩ := h
    have hend := Aligns.le hrest
    have hle := hfits.le
    omega

variable (exchange position) in
/-- What the code makes of the first range of an alignment is among its differences. -/
theorem Aligns.opDifferences_subset {op : Opcode} {ops : List Opcode}
    {i j : ℕ} (h : Aligns a b i j (op :: ops)) (hleft : a.length = left.length)
    (hright : b.length = right.length) :
    opDifferences left right exchange position op ⊆
      present left right exchange position op := by
  obtain ⟨rfl, rfl, hfits, _, hrest⟩ := h
  have hends := hrest.le
  exact Benchmarks.opDifferences_subset hfits (hleft ▸ hends.1) (hright ▸ hends.2)

variable (left right exchange position) in
/-- The differences that the code finds come at or after the start of the ranges, in the order of
the calls. -/
theorem Aligns.ordinals : ∀ {ops : List Opcode} {i j : ℕ}, Aligns a b i j ops →
    (∀ d ∈ ops.flatMap (opDifferences left right exchange position), i + 1 ≤ d.ordinal) ∧
      (ops.flatMap (opDifferences left right exchange position)).Pairwise
        fun d d' => d.ordinal ≤ d'.ordinal
  | [], _, _, _ => ⟨fun _ h => absurd h List.not_mem_nil, List.Pairwise.nil⟩
  | op :: ops, i, j, h => by
    obtain ⟨rfl, rfl, hfits, _, hrest⟩ := h
    obtain ⟨hlater, hsorted⟩ := Aligns.ordinals hrest
    have hle := hfits.le
    have hhere : ∀ d ∈ opDifferences left right exchange position op,
        op.left_start + 1 ≤ d.ordinal ∧ d.ordinal ≤ op.left_end + 1 :=
      fun d hd => opDifferences_ordinal hfits hd
    rw [List.flatMap_cons]
    refine ⟨fun d hd => ?_, List.pairwise_append.2 ⟨?_, hsorted, fun d hd d' hd' => ?_⟩⟩
    · rcases List.mem_append.1 hd with hd | hd
      · exact (hhere d hd).1
      · have := hlater d hd
        omega
    · -- Within one range: the pairs of an aligned range in their order, or one difference.
      unfold opDifferences
      split_ifs with htag
      · unfold getValueDifferences
        refine List.Pairwise.filterMap _ ?_ List.pairwise_lt_range
        intro step step' hlt d hd d' hd'
        have hstep : d.ordinal = op.left_start + step + 1 := by
          split at hd
          · split_ifs at hd
            · cases hd
              rfl
            · cases hd
              rfl
          · cases hd
        have hstep' : d'.ordinal = op.left_start + step' + 1 := by
          split at hd'
          · split_ifs at hd'
            · cases hd'
              rfl
            · cases hd'
              rfl
          · cases hd'
        omega
      · exact List.pairwise_singleton _ _
    · have h₁ := (hhere d hd).2
      have h₂ := hlater d' hd'
      omega

/-- The sort changes nothing: the differences are found in the order of the calls. -/
theorem getDifferences_eq (matcher : SequenceMatcher AlignmentKey) :
    getDifferences left right exchange position matcher =
      (alignment left right matcher).flatMap (opDifferences left right exchange position) := by
  have haligns : Aligns _ _ 0 0 (alignment left right matcher) :=
    matcher.aligns (left.map LineShape.alignment_key) (right.map LineShape.alignment_key)
  have hsorted := (haligns.ordinals left right exchange position).2
  exact List.mergeSort_of_pairwise (hsorted.imp fun h => decide_eq_true h)

end Ranges

/-! ## The two searches -/

section Searches

variable {a b : List AlignmentKey}

/-- A difference that is not recognised is found in a range, or after it when there is none. -/
theorem find_append {before after : List (Divergence E)}
    (h : ∀ d ∈ before, Recognised rules d) :
    ((before ++ after).find? fun d => decide (¬ Recognised rules d)) =
      after.find? fun d => decide (¬ Recognised rules d) := by
  rw [List.find?_append, find_eq_none.2 h, Option.none_or]

/-- Where the first lines stand for their ranges, the code finds the first difference that is not
recognised. -/
theorem find_opDifferences_of_standFor :
    ∀ {ops : List Opcode} {i j : ℕ}, Aligns a b i j ops → a.length = left.length →
      b.length = right.length → StandFor left right exchange position rules ops →
      ((ops.flatMap (opDifferences left right exchange position)).find?
          fun d => decide (¬ Recognised rules d)) =
        (ops.flatMap (present left right exchange position)).find?
          fun d => decide (¬ Recognised rules d)
  | [], _, _, _, _, _, _ => rfl
  | op :: ops, i, j, h, hleft, hright, hstand => by
    have hsubset := h.opDifferences_subset exchange position hleft hright
    obtain ⟨rfl, rfl, hfits, _, hrest⟩ := h
    have hends := hrest.le
    rw [List.flatMap_cons, List.flatMap_cons]
    by_cases hall : ∀ d ∈ present left right exchange position op, Recognised rules d
    · -- Nothing is found in this range.
      rw [find_append hall, find_append fun d hd => hall d (hsubset hd)]
      exact find_opDifferences_of_standFor hrest hleft hright (hstand.2 hall)
    · -- The first one is in this range, and it is its first lines' if it has no counterparts.
      rw [List.find?_append, List.find?_append]
      have hsame : ((opDifferences left right exchange position op).find?
            fun d => decide (¬ Recognised rules d)) =
          (present left right exchange position op).find?
            fun d => decide (¬ Recognised rules d) := by
        by_cases htag : op.tag = .equal
        · unfold opDifferences present
          rw [if_pos htag, if_pos htag]
        · obtain ⟨rest, hcons⟩ :=
            present_eq_cons exchange position hfits (hleft ▸ hends.1) (hright ▸ hends.2) htag
          have hnot : ¬ Recognised rules (getCallDifference left right exchange position op) :=
            fun h => hall (hstand.1 htag h)
          unfold opDifferences
          rw [if_neg htag, hcons, List.find?_cons_of_pos (by simpa using hnot),
            List.find?_cons_of_pos (by simpa using hnot)]
      obtain ⟨d, hd⟩ := Option.ne_none_iff_exists'.1 (mt find_eq_none.1 hall)
      rw [hsame, hd, Option.some_or, Option.some_or]

/-- A difference of a range without counterparts is none of those that the code finds later. -/
theorem not_mem_later {op : Opcode} {ops : List Opcode} {i j : ℕ}
    (h : Aligns a b i j (op :: ops)) (htag : op.tag ≠ .equal) {d : Divergence E}
    (hd : d ∈ present left right exchange position op) :
    d ∉ ops.flatMap (opDifferences left right exchange position) := by
  obtain ⟨rfl, rfl, hfits, hnext, hrest⟩ := h
  obtain ⟨hargs, hanswer, hordinal⟩ := mem_present hfits htag hd
  cases ops with
  | nil => exact List.not_mem_nil
  | cons next ops =>
    -- The next range is aligned: its differences are of another kind, and those after it later.
    have hequal : next.tag = .equal := hnext htag next rfl
    obtain ⟨hstart, _, hfits', _, hrest'⟩ := hrest
    have hlt : next.left_start < next.left_end := by
      unfold Opcode.Fits at hfits'
      rw [hequal] at hfits'
      exact hfits'.1
    rw [List.flatMap_cons]
    intro hmem
    rcases List.mem_append.1 hmem with hmem | hmem
    · unfold opDifferences at hmem
      rw [if_pos hequal] at hmem
      rcases (mem_getValueDifferences hmem).1 with hkind | hkind
      · exact hargs hkind
      · exact hanswer hkind
    · have hlater := (hrest'.ordinals left right exchange position).1 d hmem
      omega

/-- Where the code finds the first difference that is not recognised, or nothing only when there is
none, the first lines stand for their ranges. -/
theorem standFor_of_find :
    ∀ {ops : List Opcode} {i j : ℕ}, Aligns a b i j ops → a.length = left.length →
      b.length = right.length →
      ((ops.flatMap (opDifferences left right exchange position)).find?
          fun d => decide (¬ Recognised rules d)) =
        ((ops.flatMap (present left right exchange position)).find?
          fun d => decide (¬ Recognised rules d)) →
      StandFor left right exchange position rules ops
  | [], _, _, _, _, _, _ => trivial
  | op :: ops, i, j, h, hleft, hright, hfind => by
    have haligns := h
    have hsubset := h.opDifferences_subset exchange position hleft hright
    obtain ⟨rfl, rfl, _, _, hrest⟩ := h
    rw [List.flatMap_cons, List.flatMap_cons] at hfind
    refine ⟨fun htag hrecognised => ?_, fun hall => ?_⟩
    · by_contra hhidden
      -- The code goes past this range, and what it is to find lies in it.
      obtain ⟨d, hd⟩ := Option.ne_none_iff_exists'.1 (mt find_eq_none.1 hhidden)
      have hpast : ∀ e ∈ opDifferences left right exchange position op, Recognised rules e := by
        unfold opDifferences
        rw [if_neg htag]
        intro e he
        rw [List.mem_singleton] at he
        rw [he]
        exact hrecognised
      rw [find_append hpast, List.find?_append, hd, Option.some_or] at hfind
      exact not_mem_later haligns htag (List.mem_of_find?_eq_some hd)
        (List.mem_of_find?_eq_some hfind)
    · rw [find_append hall, find_append fun d hd => hall d (hsubset hd)] at hfind
      exact standFor_of_find hrest hleft hright hfind

end Searches

/-! ## Sequences that agree -/

section Agreement

/-- An aligned range has no differences exactly when the arguments and the answers of its pairs are
the same. -/
theorem getValueDifferences_eq_nil {op : Opcode} :
    getValueDifferences left right exchange position op = [] ↔
      ∀ step < op.left_end - op.left_start, ∀ one other : LineShape,
        left[op.left_start + step]? = some one → right[op.right_start + step]? = some other →
        one.arguments = other.arguments ∧ one.answer = other.answer := by
  unfold getValueDifferences
  rw [List.filterMap_eq_nil_iff]
  constructor
  · intro h step hstep one other hone hother
    have hnone := h step (List.mem_range.2 hstep)
    rw [hone, hother] at hnone
    dsimp only at hnone
    split_ifs at hnone with hargs hanswer
    exact ⟨not_not.1 hargs, not_not.1 hanswer⟩
  · intro h step hstep
    split
    · rename_i one other hone hother
      obtain ⟨hargs, hanswer⟩ := h step (List.mem_range.1 hstep) one other hone hother
      rw [if_neg (not_not.2 hargs), if_neg (not_not.2 hanswer)]
    · rfl

/-- Where the code finds no difference, the lines agree from there on. -/
theorem agree_of_nothing :
    ∀ {ops : List Opcode} {i : ℕ},
      Aligns (left.map LineShape.alignment_key) (right.map LineShape.alignment_key) i i ops →
      ops.flatMap (opDifferences left right exchange position) = [] →
      left.length = right.length ∧ ∀ (k : ℕ) (one other : LineShape), i ≤ k →
        left[k]? = some one → right[k]? = some other → SameLine one other
  | [], i, h, _ => by
    obtain ⟨hleft, hright⟩ := h
    rw [List.length_map] at hleft hright
    refine ⟨by omega, fun k one other hk hone _ => ?_⟩
    have hlt := (List.getElem?_eq_some_iff.1 hone).1
    omega
  | op :: ops, i, h, hnothing => by
    obtain ⟨hstart, hstart', hfits, _, hrest⟩ := h
    rw [List.flatMap_cons, List.append_eq_nil_iff] at hnothing
    obtain ⟨hhere, hlater⟩ := hnothing
    have htag : op.tag = .equal := by
      by_contra hne
      unfold opDifferences at hhere
      rw [if_neg hne] at hhere
      cases hhere
    unfold opDifferences at hhere
    rw [if_pos htag, getValueDifferences_eq_nil] at hhere
    unfold Opcode.Fits at hfits
    rw [htag] at hfits
    obtain ⟨hlt, hlength, hle, hkeys⟩ := hfits
    have hend : op.left_end = op.right_end := by omega
    rw [← hend] at hrest
    obtain ⟨hlengths, hagree⟩ := agree_of_nothing hrest hlater
    refine ⟨hlengths, fun k one other hk hone hother => ?_⟩
    by_cases hkend : op.left_end ≤ k
    · exact hagree k one other hkend hone hother
    · -- The pair is one of this range.
      obtain ⟨step, rfl⟩ : ∃ step, k = i + step := ⟨k - i, by omega⟩
      have hstep : step < op.left_end - op.left_start := by omega
      have hvalues := hhere step hstep one other (by rw [hstart]; exact hone)
        (by rw [hstart']; exact hother)
      have hkey := hkeys step hstep
      rw [hstart, hstart', List.getElem?_map, List.getElem?_map, hone, hother] at hkey
      exact ⟨Option.some.inj hkey, hvalues⟩

/-- Sequences that agree give no difference on aligned ranges. -/
theorem nothing_of_agree (h : Agree left right) :
    ∀ {ops : List Opcode} {a b : List AlignmentKey} {i : ℕ}, Aligns a b i i ops →
      (∀ op ∈ ops, op.tag = .equal) →
      ops.flatMap (opDifferences left right exchange position) = []
  | [], _, _, _, _, _ => rfl
  | op :: ops, a, b, i, haligns, hequal => by
    obtain ⟨hstart, hstart', hfits, _, hrest⟩ := haligns
    have htag : op.tag = .equal := hequal op List.mem_cons_self
    unfold Opcode.Fits at hfits
    rw [htag] at hfits
    obtain ⟨hlt, hlength, hle, _⟩ := hfits
    have hend : op.left_end = op.right_end := by omega
    rw [← hend] at hrest
    have hlater := nothing_of_agree h hrest fun op' hop' =>
      hequal op' (List.mem_cons_of_mem op hop')
    rw [List.flatMap_cons, hlater, List.append_nil]
    unfold opDifferences
    rw [if_pos htag, getValueDifferences_eq_nil]
    intro step _ one other hone hother
    rw [hstart] at hone
    rw [hstart'] at hother
    exact (h.2 _ one other hone hother).2

/-- Sequences that agree have the same keys. -/
theorem keys_eq_of_agree (h : Agree left right) :
    left.map LineShape.alignment_key = right.map LineShape.alignment_key := by
  obtain ⟨hlength, hsame⟩ := h
  apply List.ext_getElem
  · rw [List.length_map, List.length_map, hlength]
  · intro k hk hk'
    rw [List.length_map] at hk hk'
    rw [List.getElem_map, List.getElem_map]
    exact (hsame k _ _ (List.getElem?_eq_getElem hk) (List.getElem?_eq_getElem hk')).1

variable (left right exchange position matcher) in
/-- The code finds no difference exactly in sequences that agree. -/
theorem getDifferences_eq_nil_iff :
    getDifferences left right exchange position matcher = [] ↔ Agree left right := by
  have haligns : Aligns _ _ 0 0 (alignment left right matcher) :=
    matcher.aligns (left.map LineShape.alignment_key) (right.map LineShape.alignment_key)
  rw [getDifferences_eq]
  constructor
  · intro hnothing
    obtain ⟨hlength, hagree⟩ := agree_of_nothing haligns hnothing
    exact ⟨hlength, fun k one other => hagree k one other (Nat.zero_le k)⟩
  · intro h
    refine nothing_of_agree h haligns ?_
    unfold alignment
    rw [keys_eq_of_agree h]
    exact matcher.identical _

end Agreement

/-- **The structural diff hides nothing, exactly where the first lines stand for their ranges.** For
every two sequences of register lines, every alignment of them and every table of rules: the diff
answers nothing only if every line without a counterpart and every pair that differs is recognised,
with a table that recognises nothing it answers nothing exactly when the sequences agree, and what
it answers is the first difference that is not recognised, if and only if, as long as everything
before is recognised, a range without counterparts whose first lines are recognised holds nothing
else. -/
theorem structural_diff_hides_nothing_iff (left right : List LineShape) (exchange : E)
    (position : ℕ) (matcher : SequenceMatcher AlignmentKey) (rules : List DeclaredRule) :
    HidesNothing left right exchange position matcher rules ↔
      StandFor left right exchange position rules (alignment left right matcher) := by
  have haligns : Aligns _ _ 0 0 (alignment left right matcher) :=
    matcher.aligns (left.map LineShape.alignment_key) (right.map LineShape.alignment_key)
  have hfound : (getDivergence left right exchange position matcher rules).1 =
      ((alignment left right matcher).flatMap (opDifferences left right exchange position)).find?
        fun d => decide (¬ Recognised rules d) := by
    rw [getDivergence, firstUndeclared_eq_find, getDifferences_eq]
  constructor
  · intro h
    refine standFor_of_find haligns (List.length_map _) (List.length_map _) ?_
    rw [← hfound]
    cases hanswer : (getDivergence left right exchange position matcher rules).1 with
    | none => exact (find_eq_none.2 (h.none_only hanswer)).symm
    | some d =>
      obtain ⟨before, after, hevery, hbefore, hnot⟩ := h.first d hanswer
      have hevery' : (alignment left right matcher).flatMap (present left right exchange position) =
          before ++ d :: after := hevery
      rw [hevery', find_append hbefore, List.find?_cons_of_pos (by simpa using hnot)]
  · intro hstand
    have hsame := find_opDifferences_of_standFor haligns (List.length_map _) (List.length_map _)
      hstand
    rw [← hfound] at hsame
    refine ⟨fun hnone => ?_, fun hsilent => ?_, fun d hd => ?_⟩
    · rw [hnone] at hsame
      exact find_eq_none.1 hsame.symm
    · -- Nothing is recognised, so that the first difference is the answer.
      rw [← getDifferences_eq_nil_iff left right exchange position matcher, getDivergence,
        firstUndeclared_eq_find, find_eq_none]
      constructor
      · intro hall
        rw [List.eq_nil_iff_forall_not_mem]
        exact fun d hd => hall d hd (hsilent _ _)
      · intro hnil d hd
        rw [hnil] at hd
        cases hd
    · rw [hd] at hsame
      obtain ⟨hnot, before, after, hevery, hbefore⟩ := List.find?_eq_some_iff_append.1 hsame.symm
      refine ⟨before, after, hevery, fun e he => ?_, by simpa using hnot⟩
      simpa using hbefore e he

/-- A matcher that aligns equal sequences, and takes any other two for one range. -/
def wholeMatcher : SequenceMatcher AlignmentKey where
  get_opcodes := fun a b =>
    if a = b then if a = [] then [] else [⟨.equal, 0, a.length, 0, b.length⟩]
    else if a = [] then [⟨.insert, 0, 0, 0, b.length⟩]
    else if b = [] then [⟨.delete, 0, a.length, 0, 0⟩]
    else [⟨.replace, 0, a.length, 0, b.length⟩]
  aligns := by
    intro a b
    split_ifs with hsame hnil ha hb
    · subst hsame
      rw [hnil]
      exact ⟨rfl, rfl⟩
    · subst hsame
      have hpos := List.length_pos_iff.2 hnil
      exact ⟨rfl, rfl, ⟨hpos, rfl, Nat.zero_le _, fun _ _ => rfl⟩, fun h => absurd rfl h, rfl, rfl⟩
    · have hpos : 0 < b.length := List.length_pos_iff.2 fun hb => hsame (ha.trans hb.symm)
      refine ⟨rfl, rfl, ⟨rfl, hpos⟩, fun _ next hnext => ?_, by rw [ha]; rfl, rfl⟩
      cases hnext
    · have hpos := List.length_pos_iff.2 ha
      refine ⟨rfl, rfl, ⟨hpos, rfl⟩, fun _ next hnext => ?_, rfl, by rw [hb]; rfl⟩
      cases hnext
    · have hleft := List.length_pos_iff.2 ha
      have hright := List.length_pos_iff.2 hb
      refine ⟨rfl, rfl, ⟨hleft, hright⟩, fun _ next hnext => ?_, rfl, rfl⟩
      cases hnext
  identical := by
    intro a op hop
    rw [if_pos rfl] at hop
    split_ifs at hop with hnil
    · cases hop
    · rw [List.mem_singleton] at hop
      rw [hop]

/-- A call made while a service is resolved. -/
def warmupCall : LineShape :=
  ⟨"store", "getItem", some "lib/services/__init__.py getService", "('[]', '{}')", "null"⟩

/-- A call of a page. -/
def pageCall : LineShape := ⟨"client", "new_page", some "web/gnrwebpage.py", "('[]', '{}')", "null"⟩

/-- The replica makes two calls more, a warm-up and the call of a page. The warm-up is recognised,
and the other call is not seen. -/
theorem warmup_hides_an_extra_call :
    ¬ HidesNothing [] [warmupCall, pageCall] () 0 wholeMatcher [serviceWarmup] := by
  intro h
  have halignment : alignment [] [warmupCall, pageCall] wholeMatcher =
      [⟨.insert, 0, 0, 0, 2⟩] := rfl
  have hnone : (getDivergence [] [warmupCall, pageCall] () 0 wholeMatcher [serviceWarmup]).1 =
      none := by
    rw [getDivergence, firstUndeclared_eq_find, getDifferences_eq, halignment, find_eq_none]
    intro d hd
    have hd' : d = getCallDifference [] [warmupCall, pageCall] () 0 ⟨.insert, 0, 0, 0, 2⟩ :=
      List.mem_singleton.1 hd
    rw [hd']
    decide
  have hpage := h.none_only hnone ⟨(), 0, .extra_call, none, some pageCall, 1⟩ (by
    rw [everyDifference, halignment]
    exact List.mem_cons_of_mem _ List.mem_cons_self)
  revert hpage
  decide

end GenropyAsgi.Benchmarks

import Mathlib.Data.List.Infix
import Mathlib.Logic.Basic

/-!
# Runs of a partial step function

A machine is a step function `σ → α → Option σ`: what an action makes of a state, `none` where the
action is not enabled. A run is a list of actions, and `run` folds the step function along it.

Two ways of speaking about the states in between are enough for invariants. `Meets cond` says that
every step of a run satisfies `cond`, a relation between the state before the step and its action:
the form of an assumption about the environment, or of the condition under which a property holds.
`Throughout P` says that `P` holds in every state of the run. `run_invariant` is the induction: what
one step preserves, a run preserves.
-/

namespace GenropyAsgi.Library

variable {σ α : Type} (step : σ → α → Option σ)

/-- The state a run leads to, `none` when one of its actions is not enabled. -/
def run (s : σ) (acts : List α) : Option σ := acts.foldlM step s

/-- The empty run stays where it is. -/
@[simp]
theorem run_nil (s : σ) : run step s [] = some s := rfl

/-- A run whose first action is enabled goes on from the state it leads to. -/
theorem run_cons (s : σ) (a : α) (acts : List α) :
    run step s (a :: acts) = (step s a).bind fun s' => run step s' acts := rfl

/-- A run that gets somewhere passes through the state after its first action. -/
theorem run_cons_eq_some {s s'' : σ} {a : α} {acts : List α} :
    run step s (a :: acts) = some s'' ↔
      ∃ s', step s a = some s' ∧ run step s' acts = some s'' := by
  rw [run_cons, Option.bind_eq_some_iff]

/-- A run in two parts. -/
theorem run_append (s : σ) (acts later : List α) :
    run step s (acts ++ later) = (run step s acts).bind fun s' => run step s' later :=
  List.foldlM_append

/-- Every step of the run satisfies `cond`, in the state in which it is taken. -/
def Meets (cond : σ → α → Prop) : σ → List α → Prop
  | _, [] => True
  | s, a :: acts => cond s a ∧ ∀ s', step s a = some s' → Meets cond s' acts

/-- The state before the run and every state along it satisfy `P`. -/
def Throughout (P : σ → Prop) : σ → List α → Prop
  | s, [] => P s
  | s, a :: acts => P s ∧ ∀ s', step s a = some s' → Throughout P s' acts

variable {step}

/-- A run whose first action is enabled and meets the condition, and whose rest meets it. -/
theorem Meets.cons {cond : σ → α → Prop} {s s' : σ} {a : α} {acts : List α}
    (hs : step s a = some s') (ha : cond s a) (hm : Meets step cond s' acts) :
    Meets step cond s (a :: acts) := by
  refine ⟨ha, fun s'' hs'' => ?_⟩
  rw [hs] at hs''
  cases hs''
  exact hm

/-- A condition that follows from another one is met where the other one is. -/
theorem Meets.imp {cond cond' : σ → α → Prop} (h : ∀ s a, cond s a → cond' s a) :
    ∀ {s : σ} {acts : List α}, Meets step cond s acts → Meets step cond' s acts
  | _, [], _ => trivial
  | _, _ :: _, hm => ⟨h _ _ hm.1, fun s' hs' => Meets.imp h (hm.2 s' hs')⟩

/-- Two conditions that are met are met together. -/
theorem Meets.and {cond cond' : σ → α → Prop} :
    ∀ {s : σ} {acts : List α}, Meets step cond s acts → Meets step cond' s acts →
      Meets step (fun s a => cond s a ∧ cond' s a) s acts
  | _, [], _, _ => trivial
  | _, _ :: _, h, h' => ⟨⟨h.1, h'.1⟩, fun s' hs' => Meets.and (h.2 s' hs') (h'.2 s' hs')⟩

/-- A condition on the actions alone is met by every run made of such actions. -/
theorem Meets.of_forall {P : α → Prop} :
    ∀ {s : σ} {acts : List α}, (∀ a ∈ acts, P a) → Meets step (fun _ a => P a) s acts
  | _, [], _ => trivial
  | _, a :: acts, h =>
    ⟨h a (by simp), fun _ _ => Meets.of_forall fun b hb => h b (List.mem_cons_of_mem a hb)⟩

/-- The state before a run is one of its states. -/
theorem Throughout.start {P : σ → Prop} :
    ∀ {s : σ} {acts : List α}, Throughout step P s acts → P s
  | _, [], h => h
  | _, _ :: _, h => h.1

/-- What one step preserves under a condition, a run whose steps meet the condition preserves. -/
theorem run_invariant {cond : σ → α → Prop} {inv : σ → Prop}
    (hstep : ∀ s a s', inv s → cond s a → step s a = some s' → inv s') :
    ∀ {s s' : σ} {acts : List α}, inv s → Meets step cond s acts → run step s acts = some s' →
      inv s'
  | _, _, [], hs, _, hr => by
    cases hr
    exact hs
  | s, _, a :: _, hs, hm, hr => by
    obtain ⟨s₁, h₁, hr₁⟩ := (run_cons_eq_some step).1 hr
    exact run_invariant hstep (hstep s a s₁ hs hm.1 h₁) (hm.2 s₁ h₁) hr₁

/-- Under an assumption on the steps and an invariant that they keep, let one step keep a property
exactly when it meets a condition. Then the property holds throughout a run exactly when the run
meets the condition. An action that is not enabled meets it. -/
theorem throughout_iff_meets {asm cond : σ → α → Prop} {base inv : σ → Prop}
    (hbase : ∀ s a s', base s → asm s a → step s a = some s' → base s')
    (hnone : ∀ s a, step s a = none → cond s a)
    (hstep : ∀ s a s', base s → asm s a → inv s → step s a = some s' → (inv s' ↔ cond s a)) :
    ∀ {s : σ} {acts : List α}, base s → inv s → Meets step asm s acts →
      (Throughout step inv s acts ↔ Meets step cond s acts)
  | _, [], _, hs, _ => ⟨fun _ => trivial, fun _ => hs⟩
  | s, a :: acts, hb, hs, hm => by
    have hnext : ∀ s', step s a = some s' → inv s' →
        (Throughout step inv s' acts ↔ Meets step cond s' acts) := fun s' h' hs' =>
      throughout_iff_meets hbase hnone hstep (hbase s a s' hb hm.1 h') hs' (hm.2 s' h')
    constructor
    · -- The state after the step has the property, so the step meets the condition.
      rintro ⟨_, hrest⟩
      refine ⟨?_, fun s' h' => (hnext s' h' (hrest s' h').start).1 (hrest s' h')⟩
      cases ha : step s a with
      | none => exact hnone s a ha
      | some s' => exact (hstep s a s' hb hm.1 hs ha).1 (hrest s' ha).start
    · -- The step meets the condition, so the state after it has the property.
      rintro ⟨ha, hrest⟩
      refine ⟨hs, fun s' h' => ?_⟩
      have hs' : inv s' := (hstep s a s' hb hm.1 hs h').2 ha
      exact (hnext s' h' hs').2 (hrest s' h')

/-- The same without an assumption and an invariant. -/
theorem throughout_iff_meets' {cond : σ → α → Prop} {inv : σ → Prop}
    (hnone : ∀ s a, step s a = none → cond s a)
    (hstep : ∀ s a s', inv s → step s a = some s' → (inv s' ↔ cond s a)) {s : σ} {acts : List α}
    (hs : inv s) : Throughout step inv s acts ↔ Meets step cond s acts :=
  have hbase : ∀ s a s', (fun _ : σ => True) s → (fun (_ : σ) (_ : α) => True) s a →
      step s a = some s' → (fun _ : σ => True) s' := fun _ _ _ _ _ _ => trivial
  throughout_iff_meets hbase hnone (fun s a s' _ _ => hstep s a s') trivial hs
    (Meets.of_forall fun _ _ => trivial)

/-- Properties of the states and of the steps together. Where an invariant that the condition keeps
gives both, and a step that breaks the condition breaks one of them, they hold along a run exactly
when the run meets the condition. -/
theorem throughout_and_meets_iff_meets {obs cond : σ → α → Prop} {base inv : σ → Prop}
    (hinv : ∀ s, base s → inv s) (hobs : ∀ s a, base s → cond s a → obs s a)
    (hbase : ∀ s a s', base s → cond s a → step s a = some s' → base s')
    (hnone : ∀ s a, step s a = none → cond s a)
    (hexact : ∀ s a s', base s → step s a = some s' → inv s' → obs s a → cond s a) :
    ∀ {s : σ} {acts : List α}, base s →
      (Throughout step inv s acts ∧ Meets step obs s acts ↔ Meets step cond s acts)
  | s, [], hb => ⟨fun _ => trivial, fun _ => ⟨hinv s hb, trivial⟩⟩
  | s, a :: acts, hb => by
    have hnext : ∀ s', step s a = some s' → cond s a →
        (Throughout step inv s' acts ∧ Meets step obs s' acts ↔ Meets step cond s' acts) :=
      fun s' h' ha => throughout_and_meets_iff_meets hinv hobs hbase hnone hexact
        (hbase s a s' hb ha h')
    constructor
    · rintro ⟨⟨_, hrest⟩, ho, horest⟩
      have ha : cond s a := by
        cases h : step s a with
        | none => exact hnone s a h
        | some s' => exact hexact s a s' hb h (hrest s' h).start ho
      exact ⟨ha, fun s' h' => (hnext s' h' ha).1 ⟨hrest s' h', horest s' h'⟩⟩
    · rintro ⟨ha, hrest⟩
      refine ⟨⟨hinv s hb, fun s' h' => ?_⟩, hobs s a hb ha, fun s' h' => ?_⟩
      · exact ((hnext s' h' ha).2 (hrest s' h')).1
      · exact ((hnext s' h' ha).2 (hrest s' h')).2

/-- Properties of the steps alone. Where they agree under an invariant that the condition keeps, a
run meets the one exactly when it meets the other. -/
theorem meets_iff_meets {obs cond : σ → α → Prop} {base : σ → Prop}
    (hiff : ∀ s a, base s → (obs s a ↔ cond s a))
    (hbase : ∀ s a s', base s → cond s a → step s a = some s' → base s') :
    ∀ {s : σ} {acts : List α}, base s → (Meets step obs s acts ↔ Meets step cond s acts)
  | _, [], _ => ⟨fun _ => trivial, fun _ => trivial⟩
  | s, a :: acts, hb => by
    constructor
    · rintro ⟨ho, hrest⟩
      have ha : cond s a := (hiff s a hb).1 ho
      exact ⟨ha, fun s' h' => (meets_iff_meets hiff hbase (hbase s a s' hb ha h')).1 (hrest s' h')⟩
    · rintro ⟨ha, hrest⟩
      refine ⟨(hiff s a hb).2 ha, fun s' h' => ?_⟩
      exact (meets_iff_meets hiff hbase (hbase s a s' hb ha h')).2 (hrest s' h')

/-- A property that every step preserves is preserved by every run. -/
theorem run_invariant' {inv : σ → Prop} (hstep : ∀ s a s', inv s → step s a = some s' → inv s')
    {s s' : σ} {acts : List α} (hs : inv s) (hr : run step s acts = some s') : inv s' :=
  have hstep' : ∀ s a s', inv s → (fun (_ : σ) (_ : α) => True) s a → step s a = some s' →
      inv s' := fun s a s' h _ => hstep s a s' h
  run_invariant hstep' hs (Meets.of_forall fun _ _ => trivial) hr

/-! ## Machines that answer -/

/-- A machine that takes every action and answers it: where a list of actions leads it, with the
answers in order. -/
def serve {β : Type} (step : σ → α → σ × β) : σ → List α → σ × List β
  | s, [] => (s, [])
  | s, a :: acts => (serve step (step s a).1 acts).map id (List.cons (step s a).2)

/-- Where two lists of actions lead, one after the other. -/
theorem serve_append {β : Type} (step : σ → α → σ × β) :
    ∀ (s : σ) (acts later : List α),
      (serve step s (acts ++ later)).1 = (serve step (serve step s acts).1 later).1
  | _, [], _ => rfl
  | s, a :: acts, later => serve_append step (step s a).1 acts later

/-- One action more: where it leads from there, and its answer after the others. -/
theorem serve_concat {β : Type} (step : σ → α → σ × β) :
    ∀ (s : σ) (acts : List α) (a : α),
      serve step s (acts ++ [a]) =
        ((step (serve step s acts).1 a).1,
          (serve step s acts).2 ++ [(step (serve step s acts).1 a).2])
  | _, [], _ => rfl
  | s, b :: acts, a => by
    have h := serve_concat step (step s b).1 acts a
    show (serve step (step s b).1 (acts ++ [a])).map id (List.cons (step s b).2) = _
    rw [h]
    rfl

/-- What every action of a kind preserves, every list of such actions preserves. -/
theorem serve_invariant {β : Type} {step : σ → α → σ × β} {inv : σ → Prop} {ok : α → Prop}
    (h : ∀ s a, inv s → ok a → inv (step s a).1) :
    ∀ {acts : List α} {s : σ}, inv s → (∀ a ∈ acts, ok a) → inv (serve step s acts).1
  | [], _, hs, _ => hs
  | a :: acts, s, hs, hok =>
    have hnext : inv (step s a).1 := h s a hs (hok a List.mem_cons_self)
    have hlast : inv (serve step (step s a).1 acts).1 :=
      serve_invariant h hnext fun b hb => hok b (List.mem_cons_of_mem a hb)
    hlast

/-- Two machines that answer alike, and stay related, on every action of a kind, do so on every list
of such actions. -/
theorem serve_refines {τ β : Type} {step : σ → α → σ × β} {step' : τ → α → τ × β}
    {related : σ → τ → Prop} {ok : α → Prop}
    (h : ∀ s t a, related s t → ok a →
      (step s a).2 = (step' t a).2 ∧ related (step s a).1 (step' t a).1) :
    ∀ {acts : List α} {s : σ} {t : τ}, related s t → (∀ a ∈ acts, ok a) →
      (serve step s acts).2 = (serve step' t acts).2 ∧
        related (serve step s acts).1 (serve step' t acts).1
  | [], _, _, hr, _ => ⟨rfl, hr⟩
  | a :: acts, s, t, hr, hok => by
    obtain ⟨hanswer, hnext⟩ := h s t a hr (hok a List.mem_cons_self)
    obtain ⟨hanswers, hlast⟩ :=
      serve_refines h hnext fun b hb => hok b (List.mem_cons_of_mem a hb)
    refine ⟨?_, hlast⟩
    show (step s a).2 :: (serve step (step s a).1 acts).2 =
      (step' t a).2 :: (serve step' (step' t a).1 acts).2
    rw [hanswer, hanswers]

end GenropyAsgi.Library

import Mathlib.Data.List.Basic
import Mathlib.Data.List.Count

/-!
# Programs that look at a state which others change

A program that holds no lock sees a shared state only at the moments at which it looks: between two
looks anything may happen. `Lookups σ ε α` is such a program, as the tree of its looks, each of
which continues with what it saw; it ends with an answer or with an exception. `run` is its
execution along the moments that it meets, and `atRest` the one in which nothing moves.

`Always next post seen x` says that whatever the others do, as long as each moment follows the one
before by `next`, the program ends with an answer, of which `post` holds given the moments that were
seen. Its rules follow the program: an answer (`always_answer`), a look (`always_read`), one program
after another (`always_bind`), and a loop that gathers a list (`Always.gather`). `Always.run` takes
it back to the execution.
-/

namespace GenropyAsgi.Library

/-- A program that looks at a state of type `σ`, and ends with an answer or with an exception. -/
inductive Lookups (σ ε α : Type) where
  /-- It answers. -/
  | answer (a : α)
  /-- It raises. -/
  | raise (e : ε)
  /-- It looks, and goes on with what it saw. -/
  | look (next : σ → Lookups σ ε α)

namespace Lookups

variable {σ ε α β : Type}

/-- One program after another. -/
def bind : Lookups σ ε α → (α → Lookups σ ε β) → Lookups σ ε β
  | .answer a, f => f a
  | .raise e, _ => .raise e
  | .look next, f => .look fun s => (next s).bind f

instance : Monad (Lookups σ ε) where
  pure := .answer
  bind := bind

/-- One look, of which something is read. -/
def read (f : σ → α) : Lookups σ ε α := .look fun s => .answer (f s)

/-- The loop that extends a list by what each element brings. -/
def gather (f : α → Lookups σ ε (List β)) : List α → Lookups σ ε (List β)
  | [] => .answer []
  | a :: rest => do
    let found ← f a
    let others ← gather f rest
    pure (found ++ others)

/-! ## The executions -/

/-- The execution along the moments met, with the number of looks. -/
def run : Lookups σ ε α → (ℕ → σ) → Except ε α × ℕ
  | .answer a, _ => (.ok a, 0)
  | .raise e, _ => (.error e, 0)
  | .look next, moments =>
    let rest := (next (moments 0)).run fun n => moments (n + 1)
    (rest.1, rest.2 + 1)

/-- The execution in which nothing moves. -/
def atRest (s : σ) : Lookups σ ε α → Except ε α
  | .answer a => .ok a
  | .raise e => .error e
  | .look next => atRest s (next s)

/-- At rest every moment is the same one. -/
theorem run_const (s : σ) : ∀ x : Lookups σ ε α, (x.run fun _ => s).1 = x.atRest s
  | .answer _ => rfl
  | .raise _ => rfl
  | .look next => run_const s (next s)

/-- An answer, at rest. -/
@[simp]
theorem atRest_pure (s : σ) (a : α) : atRest s (pure a : Lookups σ ε α) = .ok a := rfl

/-- A look, at rest. -/
@[simp]
theorem atRest_read (s : σ) (f : σ → α) : atRest s (read f : Lookups σ ε α) = .ok (f s) := rfl

/-- One program after another, at rest. -/
@[simp]
theorem atRest_bind (s : σ) (f : α → Lookups σ ε β) :
    ∀ x : Lookups σ ε α, atRest s (x >>= f) = (atRest s x).bind fun a => atRest s (f a)
  | .answer _ => rfl
  | .raise _ => rfl
  | .look next => atRest_bind s f (next s)

/-- A loop, at rest, each of whose turns answers. -/
theorem atRest_gather (s : σ) {f : α → Lookups σ ε (List β)} {g : α → List β} :
    ∀ {xs : List α}, (∀ a ∈ xs, atRest s (f a) = .ok (g a)) →
      atRest s (gather f xs) = .ok (xs.flatMap g)
  | [], _ => rfl
  | a :: rest, h => by
    have hrest := atRest_gather s fun b hb => h b (List.mem_cons_of_mem a hb)
    unfold gather
    rw [atRest_bind, h a List.mem_cons_self]
    dsimp only [Except.bind]
    rw [atRest_bind, hrest]
    rfl

/-! ## What always holds -/

/-- Whatever the others do between two looks, the program answers, and the answer satisfies a
property of the moments seen, of which the last one comes first. -/
def Always (next : σ → σ → Prop) (post : List σ → α → Prop) :
    List σ → Lookups σ ε α → Prop
  | seen, .answer a => post seen a
  | _, .raise _ => False
  | seen, .look k => ∀ s, (∀ last ∈ seen.head?, next last s) → Always next post (s :: seen) (k s)

variable {next : σ → σ → Prop} {post post' : List σ → α → Prop}

/-- An answer. -/
theorem always_answer {seen : List σ} {a : α} :
    Always next post seen (pure a : Lookups σ ε α) ↔ post seen a := Iff.rfl

/-- A look. -/
theorem always_read {seen : List σ} {f : σ → α} :
    Always next post seen (read f : Lookups σ ε α) ↔
      ∀ s, (∀ last ∈ seen.head?, next last s) → post (s :: seen) (f s) := Iff.rfl

/-- One program after another. -/
theorem always_bind {post : List σ → β → Prop} {f : α → Lookups σ ε β} :
    ∀ {x : Lookups σ ε α} {seen : List σ}, Always next post seen (x >>= f) ↔
      Always next (fun seen a => Always next post seen (f a)) seen x
  | .answer _, _ => Iff.rfl
  | .raise _, _ => Iff.rfl
  | .look _, _ => forall_congr' fun _ => forall_congr' fun _ => always_bind

/-- A consequence of what always holds. -/
theorem Always.imp (h : ∀ seen a, post seen a → post' seen a) :
    ∀ {x : Lookups σ ε α} {seen : List σ}, Always next post seen x → Always next post' seen x
  | .answer a, seen, hx => h seen a hx
  | .raise _, _, hx => hx
  | .look _, _, hx => fun s hs => Always.imp h (hx s hs)

/-- What holds of the moments seen, and is kept as others are seen, holds at the end as well. -/
theorem Always.frame {kept : List σ → Prop}
    (hkept : ∀ s seen, kept seen → (∀ last ∈ seen.head?, next last s) → kept (s :: seen)) :
    ∀ {x : Lookups σ ε α} {seen : List σ}, kept seen → Always next post seen x →
      Always next (fun seen a => kept seen ∧ post seen a) seen x
  | .answer _, _, hseen, hx => ⟨hseen, hx⟩
  | .raise _, _, _, hx => hx
  | .look _, seen, hseen, hx => fun s hs => Always.frame hkept (hkept s seen hseen hs) (hx s hs)

/-- The execution of a program along moments that follow one another. -/
theorem Always.run {moments : ℕ → σ} (hmoments : ∀ n, next (moments n) (moments (n + 1))) :
    ∀ {x : Lookups σ ε α} (n : ℕ) {seen : List σ}, (∀ last ∈ seen.head?, next last (moments n)) →
      Always next post seen x →
        ∃ a, (x.run fun k => moments (n + k)).1 = .ok a ∧
          post (((List.range (x.run fun k => moments (n + k)).2).map
            fun k => moments (n + k)).reverse ++ seen) a
  | .answer a, _, _, _, hx => ⟨a, rfl, hx⟩
  | .raise _, _, _, _, hx => hx.elim
  | .look k, n, seen, hn, hx => by
    have hnext : ∀ last ∈ (moments n :: seen).head?, next last (moments (n + 1)) := by
      intro last hlast
      cases hlast
      exact hmoments n
    obtain ⟨a, hrun, hpost⟩ := Always.run hmoments (n + 1) hnext (hx (moments n) hn)
    have hshift : (fun j => moments (n + 1 + j)) = fun j => moments (n + (j + 1)) := by
      funext j
      rw [Nat.add_right_comm, Nat.add_assoc]
    rw [hshift] at hrun hpost
    refine ⟨a, hrun, ?_⟩
    -- The first moment of the run is the last but the new ones.
    have hrange : ∀ m, (List.range (m + 1)).map (fun j => moments (n + j)) =
        moments n :: (List.range m).map fun j => moments (n + (j + 1)) := by
      intro m
      rw [List.range_succ_eq_map, List.map_cons, List.map_map]
      rfl
    show post ((List.map (fun j => moments (n + j)) (List.range (_ + 1))).reverse ++ seen) a
    rw [hrange, List.reverse_cons, List.append_assoc, List.singleton_append]
    exact hpost

/-- The execution at rest of a program that always answers. -/
theorem Always.atRest {s : σ} (hnext : next s s) {x : Lookups σ ε α} (hx : Always next post [s] x) :
    ∃ a seen, x.atRest s = .ok a ∧ (∀ t ∈ seen, t = s) ∧ post seen a := by
  have hfirst : ∀ last ∈ [s].head?, next last s := by
    intro last hlast
    cases hlast
    exact hnext
  have hconst : ∀ n : ℕ, next ((fun _ => s) n) ((fun _ => s) (n + 1)) := fun _ => hnext
  obtain ⟨a, hrun, hpost⟩ := Always.run hconst 0 hfirst hx
  refine ⟨a, _, (run_const s x).symm.trans hrun, ?_, hpost⟩
  intro t ht
  rcases List.mem_append.1 ht with ht | ht
  · obtain ⟨_, _, rfl⟩ := List.mem_map.1 (List.mem_reverse.1 ht)
    rfl
  · exact List.mem_singleton.1 ht

/-- A loop each of whose turns brings elements with a property that later moments keep. -/
theorem Always.gather {kept : List σ → Prop} {P : List σ → β → Prop}
    (hkept : ∀ s seen, kept seen → (∀ last ∈ seen.head?, next last s) → kept (s :: seen))
    (hP : ∀ s seen b, P seen b → P (s :: seen) b) {f : α → Lookups σ ε (List β)} :
    ∀ {xs : List α} {seen : List σ}, kept seen →
      (∀ a ∈ xs, ∀ seen, kept seen → Always next (fun seen bs => ∀ b ∈ bs, P seen b) seen (f a)) →
        Always next (fun seen bs => ∀ b ∈ bs, P seen b) seen (Lookups.gather f xs)
  | [], _, _, _ => fun _ hb => absurd hb List.not_mem_nil
  | a :: rest, seen, hseen, hf => by
    have hfirst := (hf a List.mem_cons_self seen hseen).frame hkept hseen
    unfold Lookups.gather
    rw [always_bind]
    refine hfirst.imp ?_
    rintro seen' found ⟨hseen', hfound⟩
    -- What the first turn has brought keeps its property while the others go on.
    have hothers := Always.gather hkept hP hseen' fun b hb =>
      hf b (List.mem_cons_of_mem a hb)
    have hfound_kept : ∀ (s : σ) (seen : List σ), (∀ b ∈ found, P seen b) →
        (∀ last ∈ seen.head?, next last s) → ∀ b ∈ found, P (s :: seen) b :=
      fun s seen h _ b hb => hP s seen b (h b hb)
    have hboth := hothers.frame hfound_kept hfound
    rw [always_bind]
    refine hboth.imp ?_
    rintro seen'' others ⟨hfound', hothers'⟩ b hb
    rcases List.mem_append.1 hb with hb | hb
    · exact hfound' b hb
    · exact hothers' b hb

/-- A loop each of whose turns brings one element: the elements in the order of the turns. -/
theorem Always.gather_one {kept : List σ → Prop} {P : List σ → α → β → Prop}
    (hkept : ∀ s seen, kept seen → (∀ last ∈ seen.head?, next last s) → kept (s :: seen))
    (hP : ∀ s seen a b, P seen a b → P (s :: seen) a b) {f : α → Lookups σ ε (List β)} :
    ∀ {xs : List α} {seen : List σ}, kept seen →
      (∀ a ∈ xs, ∀ seen, kept seen →
        Always next (fun seen bs => ∃ b, bs = [b] ∧ P seen a b) seen (f a)) →
        Always next (fun seen bs => List.Forall₂ (P seen) xs bs) seen (Lookups.gather f xs)
  | [], _, _, _ => List.Forall₂.nil
  | a :: rest, seen, hseen, hf => by
    have hfirst := (hf a List.mem_cons_self seen hseen).frame hkept hseen
    unfold Lookups.gather
    rw [always_bind]
    refine hfirst.imp ?_
    rintro seen' found ⟨hseen', b, rfl, hb⟩
    have hothers := Always.gather_one hkept hP hseen' fun c hc =>
      hf c (List.mem_cons_of_mem a hc)
    have hboth := hothers.frame (fun s seen h _ => hP s seen a b h) hb
    rw [always_bind]
    refine hboth.imp ?_
    rintro seen'' others ⟨hb', hothers'⟩
    exact List.Forall₂.cons hb' hothers'

end Lookups
end GenropyAsgi.Library

import Mathlib.Data.Set.Defs
import GenropyAsgi.Library.PathTree

/-!
# Replicas of watched subtrees

A tree is edited at paths, and a replica of it is told of some of the edits. `tops` are the paths
watched: an edit is `Watched` when its path goes through one of them, and `Clear` when no watched
subtree lies below it unless it is watched itself. Watched edits are told, in order, except those
that change nothing (`Fed`).

Then what the tree and the replica have at the watched paths stays the same, as long as the edits
are clear (`Fed.agree`). An edit that is told is made to both trees, which keeps each lookup on
which they agree; one that is not told parts from every watched path.
-/

namespace GenropyAsgi.Library.PathTree

/-- An edit of a tree. -/
inductive Edit (K V : Type) where
  /-- A value put at a path. -/
  | put (path : List K) (value : V)
  /-- The node at a path taken out. -/
  | drop (path : List K)

namespace Edit

variable {K V : Type}

/-- The path of an edit. -/
def path : Edit K V → List K
  | put path _ => path
  | drop path => path

/-- An edit goes through one of the watched paths. -/
def Watched (tops : Set (List K)) (edit : Edit K V) : Prop := ∃ top ∈ tops, top <+: edit.path

/-- No watched subtree lies below an edit, unless the edit is watched itself. -/
def Clear (tops : Set (List K)) (edit : Edit K V) : Prop :=
  (∃ top ∈ tops, edit.path <+: top) → edit.Watched tops

/-- An edit that is clear and not watched parts from every watched path. -/
theorem Clear.apart {tops : Set (List K)} {edit : Edit K V} (h : edit.Clear tops)
    (hwatched : ¬ edit.Watched tops) {top : List K} (htop : top ∈ tops) : Apart edit.path top := by
  constructor
  · exact fun hbelow => hwatched (h ⟨top, htop, hbelow⟩)
  · exact fun habove => hwatched ⟨top, htop, habove⟩

variable [DecidableEq K] [Branching K V]

/-- The tree after an edit. -/
def on (v : V) : Edit K V → V
  | put path value => write v path value
  | drop path => remove v path

/-- The tree after a list of edits. -/
def run (v : V) (edits : List (Edit K V)) : V := edits.foldl on v

theorem run_append (v : V) (edits edits' : List (Edit K V)) :
    run v (edits ++ edits') = run (run v edits) edits' := List.foldl_append

/-- One edit made to two trees keeps the lookups on which they agree. -/
theorem lookup_on_congr {v w : V} {q : List K} (h : lookup v q = lookup w q) {edit : Edit K V}
    (hpath : edit.path ≠ []) : lookup (edit.on v) q = lookup (edit.on w) q := by
  cases edit with
  | put path value => exact lookup_write_congr h path value
  | drop path => exact lookup_remove_congr h hpath

/-- An edit changes nothing at a path that parts from its own. -/
theorem lookup_on_apart {edit : Edit K V} {q : List K} (h : Apart edit.path q) (v : V) :
    lookup (edit.on v) q = lookup v q := by
  cases edit with
  | put path value => exact lookup_write_apart h v value
  | drop path => exact lookup_remove_apart h v

end Edit

section

variable {K V : Type} [DecidableEq K] [Branching K V]

/-- What a replica is told of the edits of a tree: the watched ones in order, except those that
change nothing. -/
inductive Fed (tops : Set (List K)) : V → List (Edit K V) → List (Edit K V) → Prop where
  /-- No edit. -/
  | nil (v : V) : Fed tops v [] []
  /-- A watched edit is told. -/
  | told {v : V} {edit : Edit K V} {edits told : List (Edit K V)} (hwatched : edit.Watched tops)
    (hrest : Fed tops (edit.on v) edits told) : Fed tops v (edit :: edits) (edit :: told)
  /-- Any other is not. -/
  | unwatched {v : V} {edit : Edit K V} {edits told : List (Edit K V)}
    (hwatched : ¬ edit.Watched tops) (hrest : Fed tops (edit.on v) edits told) :
    Fed tops v (edit :: edits) told
  /-- Nor is one that changes nothing. -/
  | silent {v : V} {edit : Edit K V} {edits told : List (Edit K V)} (hsame : edit.on v = v)
    (hrest : Fed tops (edit.on v) edits told) : Fed tops v (edit :: edits) told

/-- Two trees have the same at every watched path. -/
def Agree (tops : Set (List K)) (v w : V) : Prop := ∀ top ∈ tops, lookup v top = lookup w top

/-- The replica agrees with the tree after any clear edits. -/
theorem Fed.agree {tops : Set (List K)} {v w : V} {edits told : List (Edit K V)}
    (h : Fed tops v edits told) (hagree : Agree tops v w)
    (hpath : ∀ edit ∈ edits, edit.path ≠ []) (hclear : ∀ edit ∈ edits, edit.Clear tops) :
    Agree tops (Edit.run v edits) (Edit.run w told) := by
  induction h generalizing w with
  | nil v => exact hagree
  | told hwatched hrest ih =>
    -- The same edit is made to both.
    have hstep := fun top htop =>
      Edit.lookup_on_congr (hagree top htop) (hpath _ List.mem_cons_self)
    exact ih hstep (fun edit hedit => hpath edit (List.mem_cons_of_mem _ hedit))
      fun edit hedit => hclear edit (List.mem_cons_of_mem _ hedit)
  | @unwatched v edit edits told hwatched hrest ih =>
    -- The tree alone is edited, away from what is watched.
    have hstep : Agree tops (edit.on v) w := by
      intro top htop
      have hapart := (hclear edit List.mem_cons_self).apart hwatched htop
      rw [Edit.lookup_on_apart hapart]
      exact hagree top htop
    exact ih hstep (fun edit hedit => hpath edit (List.mem_cons_of_mem _ hedit))
      fun edit hedit => hclear edit (List.mem_cons_of_mem _ hedit)
  | @silent v edit edits told hsame hrest ih =>
    have hstep : Agree tops (edit.on v) w := by
      rw [hsame]
      exact hagree
    exact ih hstep (fun edit hedit => hpath edit (List.mem_cons_of_mem _ hedit))
      fun edit hedit => hclear edit (List.mem_cons_of_mem _ hedit)

end

end GenropyAsgi.Library.PathTree

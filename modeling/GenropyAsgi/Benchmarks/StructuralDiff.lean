import GenropyAsgi.Library.StableSort
import Mathlib.Data.List.Infix

/-!
# The structural diff

`StructuralDiff` of `structural_diff.py`: the register lines of two exchanges are aligned by
`difflib.SequenceMatcher`, the differences are put in the order of the calls, and the first one that
no declared rule recognises is the answer. An aligned range gives a difference for each pair whose
arguments or answers differ; any other range gives one difference, made of its first lines.

The shapes of the arguments and of the answer are fields of a line here; the masking that makes them
is not modelled.
-/

namespace GenropyAsgi.Benchmarks

open Library

/-- `REGISTER_CLIENT_SURFACES`. -/
def REGISTER_CLIENT_SURFACES : List String := ["client", "passthrough"]

/-- `CLIENT_SURFACE`. -/
def CLIENT_SURFACE : String := "client"

/-- A `LineShape`, with what the comparison reads off its record. -/
structure LineShape where
  /-- The recorded surface. -/
  surface : String
  /-- The verb. -/
  verb : String
  /-- The site code that made the call, if the run recorded it. -/
  site_caller : Option String
  /-- The shapes of the positional and keyword arguments, as the pair prints. -/
  arguments : String
  /-- The shape of the answer. -/
  answer : String
deriving DecidableEq

/-- `call`. -/
def LineShape.call (shape : LineShape) : String × String :=
  (if shape.surface ∈ REGISTER_CLIENT_SURFACES then CLIENT_SURFACE else shape.surface, shape.verb)

/-- `caller`. -/
def LineShape.caller (shape : LineShape) : String :=
  match shape.site_caller with
  | none => "(no site_caller in this run)"
  | some caller => if caller = "" then "(no site_caller in this run)" else caller

/-- What an alignment compares. -/
abbrev AlignmentKey := String × String × String

/-- `alignment_key`. -/
def LineShape.alignment_key (shape : LineShape) : AlignmentKey :=
  (shape.call.1, shape.call.2, shape.caller)

/-- The `kind` of a divergence. -/
inductive DivergenceKind where
  /-- `"arguments"`. -/
  | arguments
  /-- `"answer"`. -/
  | answer
  /-- `"extra call in the replica"`. -/
  | extra_call
  /-- `"call missing in the replica"`. -/
  | call_missing
  /-- `"different call"`. -/
  | different_call
deriving DecidableEq

/-- A `Divergence`. -/
structure Divergence (E : Type) where
  /-- The exchange of the reference. -/
  exchange : E
  /-- Its position. -/
  position : ℕ
  /-- What differs. -/
  kind : DivergenceKind
  /-- The line of the reference. -/
  reference : Option LineShape
  /-- The line of the replica. -/
  replica : Option LineShape
  /-- The register call at which it is. -/
  ordinal : ℕ

/-! ## The declared rules -/

/-- A `DeclaredRule`, which judges a divergence by its two lines. -/
structure DeclaredRule where
  /-- Its name. -/
  name : String
  /-- `get_divergence_reason`. -/
  get_divergence_reason : Option LineShape → Option LineShape → Option String

/-- `DeclaredRules.get_divergence_reason`: the first rule with a reason that is not empty. -/
def getDivergenceReason (rules : List DeclaredRule) (reference replica : Option LineShape) :
    Option String :=
  rules.findSome? fun rule =>
    match rule.get_divergence_reason reference replica with
    | none => none
    | some reason => if reason = "" then none else some (rule.name ++ ": " ++ reason)

/-- `SERVICE_RESOLUTION`. -/
def SERVICE_RESOLUTION : List String := ["lib/services/__init__.py", "getService"]

/-- `ServiceWarmup.is_resolution`. -/
def isResolution (shape : LineShape) : Bool :=
  SERVICE_RESOLUTION.all fun frame => decide (frame.toList <:+: shape.caller.toList)

/-- `ServiceWarmup`. -/
def serviceWarmup : DeclaredRule where
  name := "service-warmup"
  get_divergence_reason := fun reference replica =>
    match replica with
    | none => none
    | some shape =>
      if !isResolution shape then none
      else if reference.any isResolution then none
      else some ("the worker was still instantiating a service — " ++ shape.call.1 ++ ":" ++
        shape.call.2 ++ "(" ++ shape.arguments ++ ") under " ++
          (shape.caller.splitOn " <- ").headD "")

/-! ## The alignment -/

/-- The tag of an opcode. -/
inductive Tag where
  /-- `"equal"`. -/
  | equal
  /-- `"replace"`. -/
  | replace
  /-- `"delete"`. -/
  | delete
  /-- `"insert"`. -/
  | insert
deriving DecidableEq

/-- An opcode of a `SequenceMatcher`. -/
structure Opcode where
  /-- Its tag. -/
  tag : Tag
  /-- Where its range of the reference starts. -/
  left_start : ℕ
  /-- Where that range ends. -/
  left_end : ℕ
  /-- Where its range of the replica starts. -/
  right_start : ℕ
  /-- Where that range ends. -/
  right_end : ℕ

/-- The ranges of an opcode are those of its tag, none of them empty; an equal one pairs equal
keys. -/
def Opcode.Fits {K : Type} (a b : List K) (op : Opcode) : Prop :=
  match op.tag with
  | .equal => op.left_start < op.left_end ∧
      op.left_end - op.left_start = op.right_end - op.right_start ∧
      op.right_start ≤ op.right_end ∧
      ∀ step < op.left_end - op.left_start, a[op.left_start + step]? = b[op.right_start + step]?
  | .replace => op.left_start < op.left_end ∧ op.right_start < op.right_end
  | .delete => op.left_start < op.left_end ∧ op.right_start = op.right_end
  | .insert => op.left_start = op.left_end ∧ op.right_start < op.right_end

/-- The opcodes partition what is left of the two sequences, and a range that is not equal is
followed by one that is. -/
def Aligns {K : Type} (a b : List K) : ℕ → ℕ → List Opcode → Prop
  | i, j, [] => i = a.length ∧ j = b.length
  | i, j, op :: ops => op.left_start = i ∧ op.right_start = j ∧ op.Fits a b ∧
      (op.tag ≠ .equal → ∀ next ∈ ops.head?, next.tag = .equal) ∧
      Aligns a b op.left_end op.right_end ops

/-- `difflib.SequenceMatcher`. -/
structure SequenceMatcher (K : Type) where
  /-- `get_opcodes`. -/
  get_opcodes : List K → List K → List Opcode
  /-- They align the two sequences. -/
  aligns : ∀ a b, Aligns a b 0 0 (get_opcodes a b)
  /-- A sequence is aligned with itself, the longest match being all of it. -/
  identical : ∀ a, ∀ op ∈ get_opcodes a a, op.tag = .equal

/-! ## The differences -/

section Differences

variable {E : Type} (left right : List LineShape) (exchange : E) (position : ℕ)

/-- `get_value_differences`. -/
def getValueDifferences (op : Opcode) : List (Divergence E) :=
  (List.range (op.left_end - op.left_start)).filterMap fun step =>
    match left[op.left_start + step]?, right[op.right_start + step]? with
    | some one, some other =>
      if one.arguments ≠ other.arguments then
        some ⟨exchange, position, .arguments, some one, some other, op.left_start + step + 1⟩
      else if one.answer ≠ other.answer then
        some ⟨exchange, position, .answer, some one, some other, op.left_start + step + 1⟩
      else none
    | _, _ => none

/-- The kind of a difference of calls. -/
def Tag.kind : Tag → DivergenceKind
  | .insert => .extra_call
  | .delete => .call_missing
  | _ => .different_call

/-- `get_call_difference`. -/
def getCallDifference (op : Opcode) : Divergence E :=
  ⟨exchange, position, op.tag.kind,
    if op.left_end > op.left_start then left[op.left_start]? else none,
    if op.right_end > op.right_start then right[op.right_start]? else none, op.left_start + 1⟩

/-- What one opcode adds to the differences. -/
def opDifferences (op : Opcode) : List (Divergence E) :=
  if op.tag = .equal then getValueDifferences left right exchange position op
  else [getCallDifference left right exchange position op]

variable (matcher : SequenceMatcher AlignmentKey)

/-- The alignment of the lines. -/
def alignment : List Opcode :=
  matcher.get_opcodes (left.map LineShape.alignment_key) (right.map LineShape.alignment_key)

/-- `get_differences`. -/
def getDifferences : List (Divergence E) :=
  sortOn Divergence.ordinal
    ((alignment left right matcher).flatMap (opDifferences left right exchange position))

variable (rules : List DeclaredRule)

/-- The loop of `get_divergence`: the first difference that nothing recognises, and those before it
with the rule and the reason that recognise them. -/
def firstUndeclared : List (Divergence E) → Option (Divergence E) × List (Divergence E × String)
  | [] => (none, [])
  | difference :: differences =>
    match getDivergenceReason rules difference.reference difference.replica with
    | none => (some difference, [])
    | some known => (firstUndeclared differences).map id (List.cons (difference, known))

/-- `get_divergence`, with what it adds to `known`. -/
def getDivergence : Option (Divergence E) × List (Divergence E × String) :=
  firstUndeclared rules (getDifferences left right exchange position matcher)

end Differences

end GenropyAsgi.Benchmarks

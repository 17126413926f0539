/-
# Repairing missed samples

Now and then the stack of a sample could not be walked, and the sample names the node `(program)`
instead.  If such a sample stands alone between two that belong to the same top-level call, it
splits one call in two.  `Repair.run` replaces it by the sample before it.

A sample is replaced only if neither neighbour is one of the three nodes that stand for the
system, and only neighbours as they were recorded count, so the order of replacements does not
matter (`Repair.fromSample`).
-/
import SampledProfile.Value.Arithmetic
import SampledProfile.Value.Key

namespace SampledProfile

/-- The ids of the nodes that stand for the system itself. -/
structure SystemIds (α : Type) where
  program : Value α
  collector : Value α
  idle : Value α

namespace Repair

variable {α : Type} [Scalar α]

/-- The keys of the three nodes. -/
def keys (ids : SystemIds α) : Except Fault (List Key) := do
  return [← ids.program.key, ← ids.collector.key, ← ids.idle.key]

/-- Is a sample between two others to be replaced?  `top` gives the top-level node of an id. -/
def isMissed (top : Value α → Except Fault Nat) (program : Value α) (system : List Key)
    (before sample after : Value α) : Except Fault Bool := do
  if !sample.equals program then return false
  if system.contains (← before.key) then return false
  if system.contains (← after.key) then return false
  return decide ((← top before) = (← top after))

/-- The samples from one on that has a sample before it, with missed ones replaced, and how many
were.  Where a question has no answer, the samples from there on stay as they are. -/
def fromSample (missed : Value α → Value α → Value α → Except Fault Bool) :
    Value α → Value α → List (Value α) → List (Value α) × Except Fault Nat
  | _, sample, [] => ([sample], .ok 0)
  | before, sample, after :: rest =>
    match missed before sample after with
    | .error fault => (sample :: after :: rest, .error fault)
    | .ok replaced =>
      let (repaired, count) := fromSample missed sample after rest
      ((if replaced then before else sample) :: repaired,
        count.map (· + if replaced then 1 else 0))

/-- The samples with missed ones replaced, and how many were. -/
def run (top : Value α → Except Fault Nat) (ids : SystemIds α) (samples : List (Value α)) :
    List (Value α) × Except Fault Nat :=
  match samples with
  | first :: second :: third :: rest =>
    match keys ids with
    | .ok system =>
      let (repaired, count) :=
        fromSample (isMissed top ids.program system) first second (third :: rest)
      (first :: repaired, count)
    | .error fault => (samples, .error fault)
  | _ => (samples, .ok 0)

/-- What is reported when samples were replaced. -/
def message (count : Nat) : String :=
  "CPU profile parser is fixing " ++ toString count ++ " missing samples."

end Repair
end SampledProfile

/-
# Work that keeps what it did

Some operations change a state and may fail on the way, and what they changed by then stays changed:
the tasks of a workspace, work on a directory, and the writing of tables.  `Effect.run` gives what
comes of such work, the result and the state that is left, and the equations say so for the steps that
the work is made of.
-/
import SampledProfile.Fault

namespace SampledProfile
namespace Effect

variable {σ β γ : Type}

/-- What comes of a piece of work: its result, and the state that it leaves. -/
def run (work : ExceptT Fault (StateM σ) β) (state : σ) : Except Fault β × σ := work.run.run state

@[simp] theorem run_pure (b : β) (state : σ) :
    run (pure b : ExceptT Fault (StateM σ) β) state = (.ok b, state) := rfl

@[simp] theorem run_throw (fault : Fault) (state : σ) :
    run (throw fault : ExceptT Fault (StateM σ) β) state = (.error fault, state) := rfl

@[simp] theorem run_get (state : σ) :
    run (get : ExceptT Fault (StateM σ) σ) state = (.ok state, state) := rfl

@[simp] theorem run_modify (change : σ → σ) (state : σ) :
    run (modify change : ExceptT Fault (StateM σ) PUnit) state = (.ok ⟨⟩, change state) := rfl

/-- A result that is taken changes nothing. -/
@[simp] theorem run_mk (result : Except Fault β) (state : σ) :
    run (ExceptT.mk (pure result) : ExceptT Fault (StateM σ) β) state = (result, state) := rfl

/-- What follows is done with the result, from the state that is left. -/
theorem run_bind (work : ExceptT Fault (StateM σ) β) (next : β → ExceptT Fault (StateM σ) γ)
    (state : σ) :
    run (work >>= next) state =
      match run work state with
      | (.ok b, left) => run (next b) left
      | (.error fault, left) => (.error fault, left) := by
  rcases h : run work state with ⟨_ | b, left⟩
  · have hwork : work.run.run state = (.error _, left) := h
    simp only [run, ExceptT.run_bind, StateT.run_bind, hwork]
    rfl
  · have hwork : work.run.run state = (.ok b, left) := h
    simp only [run, ExceptT.run_bind, StateT.run_bind, hwork]
    rfl

end Effect
end SampledProfile

/-
The end of a process.

`exit` is called at any point by a thread that is not inside a call into the backend.  It
runs what has been registered with `std::atexit`, the last registered first; until all of
it has returned the other threads, the callbacks and StarPU's workers go on.
-/
import Tangor.IyokanThreads

namespace Tangor.Iyokan

variable {Tid Key N V : Type}

/-- What `exit` runs, in its order. -/
def World.exitHandlers (w : World Key) : List ExitHandler :=
  (w.calls.filterMap fun
    | .atexit handler => some handler
    | _ => none).reverse

/-- The process of the evaluator. -/
structure Evaluator (Tid Key N V : Type) where
  system : System Tid Key N V
  /-- The thread that has called `exit`, and what it has still to run. -/
  exiting : Option (Tid × List ExitHandler) := none

variable [DecidableEq Tid] [DecidableEq Key] [DecidableEq N] [Inhabited V] (tfhe : TFHE Key V)
  (main : N) (useCufhepp : Bool)

/-- The life of the backend, and its end by `exit`.  After the last handler has returned
nothing happens. -/
inductive ExitStep : Evaluator Tid Key N V → Evaluator Tid Key N V → Prop
  | life (e : Evaluator Tid Key N V) (s : System Tid Key N V)
      (h : LifeStep tfhe main useCufhepp e.system s)
      (hexiting : ∀ t handlers, e.exiting = some (t, handlers) →
        handlers ≠ [] ∧ s.threads t = e.system.threads t) : ExitStep e { e with system := s }
  | exit (e : Evaluator Tid Key N V) (t : Tid) (hpc : (e.system.threads t).pc = .idle)
      (hrunning : e.exiting = none) :
      ExitStep e { e with exiting := some (t, e.system.world.exitHandlers) }
  | cleanupIyokanCufhepp (e : Evaluator Tid Key N V) (t : Tid) (rest : List ExitHandler)
      (w : World Key) (hexiting : e.exiting = some (t, .cleanupIyokanCufhepp :: rest))
      (hexec : Iyokan.cleanupIyokanCufhepp.exec e.system.world = (.ok ⟨⟩, w)) :
      ExitStep e ⟨e.system.ran tfhe main w, some (t, rest)⟩
  | shutdownIyokanStarpu (e : Evaluator Tid Key N V) (t : Tid) (rest : List ExitHandler)
      (hexiting : e.exiting = some (t, .shutdownIyokanStarpu :: rest))
      (hpc : (e.system.threads t).pc = .idle) (hlock : e.system.Unlocked) :
      ExitStep e { e with system := e.system.goto t .shuttingDown }
  | shutDown (e : Evaluator Tid Key N V) (t : Tid) (rest : List ExitHandler)
      (s : System Tid Key N V) (hexiting : e.exiting = some (t, .shutdownIyokanStarpu :: rest))
      (hpc : (e.system.threads t).pc = .shuttingDown)
      (h : LifeStep tfhe main useCufhepp e.system s) (hdone : (s.threads t).pc ≠ .shuttingDown) :
      ExitStep e ⟨s, some (t, rest)⟩

end Tangor.Iyokan

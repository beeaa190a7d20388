import CalcCycle.Config
import CalcCycle.Execution.GraphRun
import CalcCycle.Text.Quoted

/-! What cycles run in: settings, a feed of live data, a listener and a pool of workers, which stay the
same, and a world of feed and caches, which the cycles change. -/

namespace CalcCycle

structure World (σ : Type) where
  feed : σ
  caches : CacheStore := .empty

structure Context (σ : Type) where
  config : Config
  feed : Feed σ
  listener : Listener := .silent
  pool : WorkerPool := .single

/-- The parts of a context as far as they are chosen. -/
structure ContextPlan (σ : Type) where
  config : Option Config := none
  feed : Option (Feed σ × σ) := none
  caches : Option CacheStore := none
  listener : Option Listener := none

namespace ContextPlan

/-- Only the feed has to be chosen. -/
def build (p : ContextPlan σ) : Except Failure (Context σ × World σ) := do
  let config := p.config.getD {}
  config.validate
  match p.feed with
  | none => throw (.configuration "live_data not configured")
  | some (feed, state) =>
    pure ({ config, feed, listener := p.listener.getD .silent },
      { feed := state, caches := p.caches.getD .empty })

end ContextPlan

def Config.text (c : Config) : String :=
  "EngineConfig \x7b worker_threads: " ++ toString c.workers ++
    ", thread_name_prefix: " ++ Quoted.quote c.workerName ++
    ", max_logged_missing_live_data: " ++ toString c.maxLoggedMissing ++
    ", catch_function_panics: " ++ toString c.containCrashes ++ " \x7d"

/-- `workers` is the number of workers at work. -/
def Context.text (c : Context σ) (w : World σ) (workers : Nat) : String :=
  "ViewProcessingContext \x7b config: " ++ c.config.text ++
    ", active_caches: " ++ toString w.caches.active ++
    ", worker_threads: " ++ toString workers ++ " \x7d"

end CalcCycle

import Lookout.Comments
import Mathlib.Logic.Relation
/-!
# Lookout — the fan-out of `concurrentRequest`

`concurrentRequest` is three kinds of goroutine sharing three things. The
goroutine that called it visits `s.analyzers`, pushing `nil` on `commentsCh`
for a skipped analyzer and spawning a task for every other one, then
collects `len(s.analyzers)` receives, returning at the first value on
`errCh`. Each task runs `send` (which stores its settings in the event every
task shares, then calls the analyzer with that event) and finally pushes its
result on `commentsCh`; with `exitOnError` a failed task first sends its
error on `errCh`, which has no buffer.

The state is the main goroutine's position, every live task's position,
the buffered channel's contents, the event's `Configuration`, and the
record of what each analyzer was sent. `Step` is one atomic action of one
goroutine; a run is any sequence of steps, so every completion order and
every interleaving is a run.
-/

namespace Lookout

/-- What one analyzer's `send` comes back with: comments, or an RPC error. -/
abbrev SendResult := Except String (List Comment)

/-- Everything one run of `concurrentRequest` is given. `toStruct` is
`pb.ToStruct`, `outcome` what each analyzer's `send` returns. -/
structure FanOutEnv (Struct : Type) where
  registry : Registry
  conf : ConfigMap
  exitOnError : Bool
  toStruct : Settings → Option Struct
  outcome : String → SendResult

/-- Where a task goroutine is. -/
inductive TaskPc where
  /-- About to run `send`, whose first line stores the settings in the event. -/
  | start
  /-- About to call `NotifyReviewEvent` (or `NotifyPushEvent`) with the event. -/
  | notify
  /-- Blocked on `errCh <- err`. -/
  | errSend (err : String)
  /-- At the deferred `commentsCh <- result`. -/
  | push (result : Option AnalyzerComments)

/-- A task goroutine, spawned for the registered analyzer `name`. -/
structure Task where
  name : String
  config : AnalyzerConfig
  pc : TaskPc

/-- Where the goroutine running `concurrentRequest` is. -/
inductive MainPc where
  /-- In the loop over `s.analyzers`, with `rest` still to visit. -/
  | spawn (rest : ConfigMap)
  /-- In the collector loop, after `i` receives. -/
  | collect (i : Nat) (comments : List AnalyzerComments)
  /-- Returned. -/
  | returned (result : Except String (List AnalyzerComments))

/-- A state of the fan-out. -/
structure FanOut (Struct : Type) where
  main : MainPc
  tasks : List Task
  /-- The contents of `commentsCh`, oldest first. -/
  commentsCh : List (Option AnalyzerComments)
  /-- `e.Configuration`, which every task's `send` writes. -/
  configuration : Struct
  /-- Each `Notify*` call so far: the analyzer, and the `Configuration` the
  event it was handed carried. -/
  notified : List (String × Struct)

variable {Struct : Type}

namespace FanOutEnv

variable (env : FanOutEnv Struct)

/-- `len(s.analyzers)`: the capacity of `commentsCh` and the number of
receives the collector makes. -/
def cap : Nat := env.registry.analyzers.length

/-- The fan-out as `concurrentRequest` starts it, on an event whose
`Configuration` is `c`. -/
def init (c : Struct) : FanOut Struct := ⟨.spawn env.registry.analyzers, [], [], c, []⟩

/-- What a task does once its `Notify*` call has returned. -/
def afterSend (t : Task) : TaskPc :=
  match env.outcome t.name with
  | .error err => if env.exitOnError then .errSend err else .push none
  | .ok cs => .push (if cs.isEmpty then none else some ⟨t.config, cs⟩)

/-- The `Configuration` a task's `send` stores: `*pb.ToStruct(settings)`,
or the event's own when that is nil. -/
def stored (t : Task) (c : Struct) : Struct :=
  (env.toStruct (taskSettings env.conf t.name t.config)).getD c

end FanOutEnv

/-- One atomic action of one goroutine. -/
inductive FanOut.Step (env : FanOutEnv Struct) : FanOut Struct → FanOut Struct → Prop
  /-- The loop meets a skipped analyzer: `commentsCh <- nil`. -/
  | skip {s : FanOut Struct} {name : String} {a : AnalyzerConfig} {rest : ConfigMap} :
      s.main = .spawn ((name, a) :: rest) → skipped env.conf name a = true →
      s.commentsCh.length < env.cap →
      Step env s { s with main := .spawn rest, commentsCh := s.commentsCh ++ [none] }
  /-- The loop spawns a task. -/
  | spawn {s : FanOut Struct} {name : String} {a : AnalyzerConfig} {rest : ConfigMap} :
      s.main = .spawn ((name, a) :: rest) → skipped env.conf name a = false →
      Step env s { s with main := .spawn rest, tasks := s.tasks ++ [⟨name, a, .start⟩] }
  /-- The loop ends; the collector starts. -/
  | collectStart {s : FanOut Struct} :
      s.main = .spawn [] → Step env s { s with main := .collect 0 [] }
  /-- A task's `send` stores its settings in the shared event. -/
  | write {s : FanOut Struct} {pre post : List Task} {t : Task} :
      s.tasks = pre ++ t :: post → t.pc = .start →
      Step env s { s with tasks := pre ++ { t with pc := .notify } :: post,
                          configuration := env.stored t s.configuration }
  /-- A task calls its analyzer with the shared event, and the call returns. -/
  | notify {s : FanOut Struct} {pre post : List Task} {t : Task} :
      s.tasks = pre ++ t :: post → t.pc = .notify →
      Step env s { s with tasks := pre ++ { t with pc := env.afterSend t } :: post,
                          notified := s.notified ++ [(t.name, s.configuration)] }
  /-- A task's deferred push; the task ends. -/
  | push {s : FanOut Struct} {pre post : List Task} {t : Task} {r : Option AnalyzerComments} :
      s.tasks = pre ++ t :: post → t.pc = .push r → s.commentsCh.length < env.cap →
      Step env s { s with tasks := pre ++ post, commentsCh := s.commentsCh ++ [r] }
  /-- The collector receives from `commentsCh`. -/
  | recv {s : FanOut Struct} {i : Nat} {acc : List AnalyzerComments}
      {r : Option AnalyzerComments} {ch : List (Option AnalyzerComments)} :
      s.main = .collect i acc → i < env.cap → s.commentsCh = r :: ch →
      Step env s { s with main := .collect (i + 1) (acc ++ r.toList), commentsCh := ch }
  /-- The collector receives from `errCh`, and returns the error. -/
  | recvErr {s : FanOut Struct} {i : Nat} {acc : List AnalyzerComments}
      {pre post : List Task} {t : Task} {err : String} :
      s.main = .collect i acc → i < env.cap → s.tasks = pre ++ t :: post → t.pc = .errSend err →
      Step env s { s with main := .returned (.error err),
                          tasks := pre ++ { t with pc := .push none } :: post }
  /-- The collector has made its receives and returns. -/
  | finish {s : FanOut Struct} {acc : List AnalyzerComments} :
      s.main = .collect env.cap acc → Step env s { s with main := .returned (.ok acc) }

/-- The states a run of the fan-out reaches from `s`. -/
def FanOut.Reaches (env : FanOutEnv Struct) : FanOut Struct → FanOut Struct → Prop :=
  Relation.ReflTransGen (FanOut.Step env)

/-! ## Runs that end -/

/-- Every run from `s` is finite, and every state where one stops satisfies `P`. -/
inductive Terminates {σ : Type} (step : σ → σ → Prop) (P : σ → Prop) : σ → Prop
  /-- No step is possible here, and `P` holds. -/
  | stop {s : σ} : (∀ s', ¬ step s s') → P s → Terminates step P s
  /-- Some step is possible, and every step leads where all runs stop well. -/
  | next {s : σ} : (∃ s', step s s') → (∀ s', step s s' → Terminates step P s') → Terminates step P s

theorem Terminates.mono {σ : Type} {step : σ → σ → Prop} {P Q : σ → Prop} (h : ∀ s, P s → Q s) {s : σ}
    (ht : Terminates step P s) : Terminates step Q s := by
  induction ht with
  | stop hs hp => exact .stop hs (h _ hp)
  | next hex _ ih => exact .next hex ih

/-- A measure every step lowers and an invariant every step keeps give
termination, provided every stuck state with the invariant satisfies `P`. -/
theorem terminates_of_measure {σ : Type} {step : σ → σ → Prop} {P I : σ → Prop} (μ : σ → ℕ)
    (hdec : ∀ s s', I s → step s s' → μ s' < μ s) (hI : ∀ s s', I s → step s s' → I s')
    (hstop : ∀ s, I s → (∀ s', ¬ step s s') → P s) : ∀ s, I s → Terminates step P s := by
  intro s hs
  obtain ⟨n, h⟩ : ∃ n, μ s = n := ⟨_, rfl⟩
  induction n using Nat.strong_induction_on generalizing s with
  | _ n ih =>
    by_cases hex : ∃ s', step s s'
    · exact .next hex fun s' h' => ih _ (h ▸ hdec s s' hs h') s' (hI s s' hs h') rfl
    · exact .stop (fun s' h' => hex ⟨s', h'⟩) (hstop s hs fun s' h' => hex ⟨s', h'⟩)

end Lookout

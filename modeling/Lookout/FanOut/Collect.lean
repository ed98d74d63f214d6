import Lookout.FanOut
import Mathlib.Data.Multiset.Basic
import Mathlib.Tactic.Abel
/-!
# Lookout — the fan-out without `exitOnError` always collects

Without `exitOnError` no task ever blocks: every push finds room in
`commentsCh`, whose capacity is the number of registered analyzers and
which receives one item per analyzer. `CollectInv` counts each analyzer
exactly once (unvisited, a live task, an item in the channel, or a receive
made) and keeps the multiset of results fixed; `Step.weight_lt` bounds every
run. Together they give `collect_terminates`: every run, in whatever order
the goroutines are scheduled, returns the comments of exactly the analyzers
that were not skipped and answered with comments.
-/

namespace Lookout

variable {Struct : Type}

namespace MainPc

/-- The analyzers the loop has still to visit. -/
def pending : MainPc → ConfigMap
  | .spawn rest => rest
  | _ => []

/-- The comments the collector holds. -/
def collected : MainPc → List AnalyzerComments
  | .collect _ acc => acc
  | .returned (.ok acc) => acc
  | _ => []

/-- How many receives the collector has made, counting all of them once it returned. -/
def received (cap : Nat) : MainPc → Nat
  | .spawn _ => 0
  | .collect i _ => i
  | .returned _ => cap

/-- What is left to do, for the termination measure. -/
def weight : MainPc → Nat
  | .spawn rest => 5 * rest.length + 2
  | .collect _ _ => 1
  | .returned _ => 0

end MainPc

/-- What is left for a task to do, for the termination measure. -/
def TaskPc.weight : TaskPc → Nat
  | .start => 4
  | .notify => 3
  | .errSend _ => 2
  | .push _ => 2

@[simp] theorem TaskPc.weight_start : TaskPc.start.weight = 4 := rfl
@[simp] theorem TaskPc.weight_notify : TaskPc.notify.weight = 3 := rfl
@[simp] theorem TaskPc.weight_errSend (err : String) : (TaskPc.errSend err).weight = 2 := rfl
@[simp] theorem TaskPc.weight_push (r : Option AnalyzerComments) : (TaskPc.push r).weight = 2 := rfl

/-- What is left for the live tasks to do. -/
def tasksWeight : List Task → Nat
  | [] => 0
  | t :: ts => t.pc.weight + tasksWeight ts

@[simp] theorem tasksWeight_nil : tasksWeight [] = 0 := rfl

@[simp] theorem tasksWeight_cons (t : Task) (ts : List Task) :
    tasksWeight (t :: ts) = t.pc.weight + tasksWeight ts := rfl

@[simp] theorem tasksWeight_append (ts ts' : List Task) :
    tasksWeight (ts ++ ts') = tasksWeight ts + tasksWeight ts' := by
  induction ts with
  | nil => simp
  | cons t ts ih => simp [ih, Nat.add_assoc]

/-- What is left for the whole fan-out to do. -/
def FanOut.weight (s : FanOut Struct) : Nat :=
  s.main.weight + tasksWeight s.tasks + s.commentsCh.length

namespace FanOutEnv

variable (env : FanOutEnv Struct)

/-- What a spawned analyzer adds to the collected comments: its comments
under its `Config`, or nothing when `send` failed or returned none. -/
def resultOf (name : String) (a : AnalyzerConfig) : Option AnalyzerComments :=
  match env.outcome name with
  | .ok cs => if cs.isEmpty then none else some ⟨a, cs⟩
  | .error _ => none

/-- What a registered analyzer adds: nothing when it is skipped. -/
def contribution (e : String × AnalyzerConfig) : Option AnalyzerComments :=
  if skipped env.conf e.1 e.2 then none else env.resultOf e.1 e.2

/-- What a live task will still push. -/
def taskResult (t : Task) : Option AnalyzerComments :=
  match t.pc with
  | .start | .notify => env.resultOf t.name t.config
  | .errSend _ => none
  | .push r => r

theorem afterSend_ne_errSend (hx : env.exitOnError = false) (t : Task) (err : String) :
    env.afterSend t ≠ .errSend err := by
  unfold afterSend; split <;> simp [hx]

@[simp] theorem weight_afterSend (t : Task) : (env.afterSend t).weight = 2 := by
  unfold afterSend; split <;> (try split) <;> rfl

theorem taskResult_afterSend (t : Task) :
    env.taskResult { t with pc := env.afterSend t } = env.resultOf t.name t.config := by
  unfold afterSend resultOf
  cases env.outcome t.name with
  | error err => cases env.exitOnError <;> rfl
  | ok cs => rfl

end FanOutEnv

namespace FanOut

variable {env : FanOutEnv Struct} {s s' : FanOut Struct}

/-- **Every step lowers the weight**, whatever the outcomes: no run is infinite. -/
theorem Step.weight_lt (h : Step env s s') : s'.weight < s.weight := by
  cases h with
  | skip hm | spawn hm | collectStart hm | finish hm =>
    simp only [weight, hm, MainPc.weight, List.length_cons, List.length_append, List.length_singleton,
      List.length_nil, tasksWeight_append, tasksWeight_cons, tasksWeight_nil, TaskPc.weight_start]; omega
  | write ht hpc | notify ht hpc | push ht hpc =>
    simp only [weight, ht, hpc, List.length_append, List.length_singleton, tasksWeight_append, tasksWeight_cons,
      TaskPc.weight_start, TaskPc.weight_notify, TaskPc.weight_push, FanOutEnv.weight_afterSend]; omega
  | recv hm _ hch => simp only [weight, hm, hch, MainPc.weight, List.length_cons]; omega
  | recvErr hm _ ht hpc =>
    simp only [weight, hm, ht, hpc, MainPc.weight, tasksWeight_append, tasksWeight_cons, TaskPc.weight_errSend,
      TaskPc.weight_push]; omega

/-- **The collector's invariant**, for a run without `exitOnError`: every
analyzer is accounted for exactly once (still to visit, a live task, an
item in the channel, or a receive made), no task waits on `errCh`, and the
collected comments, the channel's, the live tasks' and the unvisited
analyzers' together are what the analyzers contribute. -/
structure CollectInv (env : FanOutEnv Struct) (s : FanOut Struct) : Prop where
  count : s.main.received env.cap + s.commentsCh.length + s.tasks.length + s.main.pending.length = env.cap
  noErrSend : ∀ t ∈ s.tasks, ∀ err, t.pc ≠ .errSend err
  noError : ∀ err, s.main ≠ .returned (.error err)
  results : (s.main.collected : Multiset AnalyzerComments) + ↑(s.commentsCh.filterMap id) +
      ↑(s.tasks.filterMap env.taskResult) + ↑(s.main.pending.filterMap env.contribution) =
    ↑(env.registry.analyzers.filterMap env.contribution)

theorem collectInv_init (c : Struct) : CollectInv env (env.init c) where
  count := by simp [FanOutEnv.init, MainPc.received, MainPc.pending, FanOutEnv.cap]
  noErrSend := nofun
  noError := nofun
  results := by simp [FanOutEnv.init, MainPc.collected, MainPc.pending]

theorem taskResult_write (t : Task) (hpc : t.pc = .start) :
    env.taskResult { t with pc := .notify } = env.taskResult t := by
  simp [FanOutEnv.taskResult, hpc]

theorem coe_filterMap_append {α β : Type} (f : α → Option β) (l l' : List α) :
    (↑((l ++ l').filterMap f) : Multiset β) = ↑(l.filterMap f) + ↑(l'.filterMap f) := by
  simp

theorem coe_filterMap_cons {α β : Type} (f : α → Option β) (x : α) (l : List α) :
    (↑((x :: l).filterMap f) : Multiset β) = ↑(f x).toList + ↑(l.filterMap f) := by
  cases h : f x <;> simp [List.filterMap_cons, h]

/-- A task moved to a pc other than `errSend` leaves no task waiting on `errCh`. -/
theorem noErrSend_update {pre post : List Task} {t : Task} {p : TaskPc}
    (hn : ∀ t' ∈ pre ++ t :: post, ∀ err, t'.pc ≠ .errSend err) (hp : ∀ err, p ≠ .errSend err) :
    ∀ t' ∈ pre ++ { t with pc := p } :: post, ∀ err, t'.pc ≠ .errSend err := by
  simp only [List.mem_append, List.mem_cons] at hn ⊢
  rintro t' (h' | rfl | h') err
  · exact hn t' (.inl h') err
  · exact hp err
  · exact hn t' (.inr (.inr h')) err

/-- **The fan-out's bookkeeping**, what both `CollectInv` and the run with
`exitOnError` keep until an error is returned: the count and the results of
`CollectInv`. -/
structure Books (env : FanOutEnv Struct) (s : FanOut Struct) : Prop where
  count : s.main.received env.cap + s.commentsCh.length + s.tasks.length + s.main.pending.length = env.cap
  results : (s.main.collected : Multiset AnalyzerComments) + ↑(s.commentsCh.filterMap id) +
      ↑(s.tasks.filterMap env.taskResult) + ↑(s.main.pending.filterMap env.contribution) =
    ↑(env.registry.analyzers.filterMap env.contribution)

theorem books_init (c : Struct) : Books env (env.init c) :=
  ⟨(collectInv_init c).count, (collectInv_init c).results⟩

/-- **Every step that returns no error keeps the bookkeeping**, with or
without `exitOnError`. -/
theorem Books.step (hb : Books env s) (h : Step env s s') (hs' : ∀ err, s'.main ≠ .returned (.error err)) :
    Books env s' := by
  obtain ⟨hc, hr⟩ := hb
  cases h with
  | @skip name a rest hm hsk _ =>
    rw [hm] at hc hr
    refine ⟨by simp [MainPc.received, MainPc.pending] at hc ⊢; omega, ?_⟩
    rw [← hr]
    simp [MainPc.collected, MainPc.pending, FanOutEnv.contribution, hsk]
  | @spawn name a rest hm hsk =>
    rw [hm] at hc hr
    refine ⟨by simp [MainPc.received, MainPc.pending] at hc ⊢; omega, ?_⟩
    rw [← hr]
    simp only [MainPc.collected, MainPc.pending, coe_filterMap_append, coe_filterMap_cons,
        FanOutEnv.contribution, hsk, FanOutEnv.taskResult, List.filterMap_nil, Multiset.coe_nil,
        add_zero, Bool.false_eq_true, if_false]
    abel
  | collectStart hm =>
    rw [hm] at hc hr
    exact ⟨by simpa [MainPc.received, MainPc.pending] using hc, by simpa [MainPc.collected, MainPc.pending] using hr⟩
  | @write pre post t ht hpc =>
    rw [ht] at hc hr
    refine ⟨by simpa using hc, ?_⟩
    rw [← hr]
    simp only [coe_filterMap_append, coe_filterMap_cons, taskResult_write t hpc]
  | @notify pre post t ht hpc =>
    rw [ht] at hc hr
    refine ⟨by simpa using hc, ?_⟩
    rw [← hr]
    simp only [coe_filterMap_append, coe_filterMap_cons, FanOutEnv.taskResult_afterSend]
    simp [FanOutEnv.taskResult, hpc]
  | @push pre post t r ht hpc _ =>
    rw [ht] at hc hr
    refine ⟨by simp at hc ⊢; omega, ?_⟩
    rw [← hr]
    simp only [coe_filterMap_append, coe_filterMap_cons, FanOutEnv.taskResult, hpc, List.filterMap_nil,
      Multiset.coe_nil, add_zero, id]
    abel
  | @recv i acc r ch hm _ hch =>
    rw [hm, hch] at hc hr
    refine ⟨by simp [MainPc.received, MainPc.pending] at hc ⊢; omega, ?_⟩
    rw [← hr]
    simp only [MainPc.collected, MainPc.pending, coe_filterMap_cons, ← Multiset.coe_add, id]
    abel
  | recvErr => exact absurd rfl (hs' _)
  | finish hm =>
    rw [hm] at hc hr
    exact ⟨by simpa [MainPc.received, MainPc.pending] using hc, by simpa [MainPc.collected, MainPc.pending] using hr⟩

/-- **The fan-out never deadlocks before it returns**, with or without
`exitOnError`: in a state with the bookkeeping some goroutine can always
move until the collector has returned. A task on `errCh` can, since the
collector has receives left while any task is live. -/
theorem Books.stuck (hb : Books env s) (hstuck : ∀ s', ¬ Step env s s') : ∃ r, s.main = .returned r := by
  have hc := hb.count
  cases hm : s.main with
  | spawn rest =>
    rcases rest with _ | ⟨⟨name, a⟩, rest⟩
    · exact absurd (Step.collectStart hm) (hstuck _)
    · cases hsk : skipped env.conf name a
      · exact absurd (Step.spawn hm hsk) (hstuck _)
      · rw [hm] at hc
        simp only [MainPc.received, MainPc.pending, List.length_cons] at hc
        exact absurd (Step.skip hm hsk (by omega)) (hstuck _)
  | collect i acc =>
    rw [hm] at hc
    simp only [MainPc.received, MainPc.pending, List.length_nil, add_zero] at hc
    by_cases hcap : i = env.cap
    · exact absurd (Step.finish (hcap ▸ hm)) (hstuck _)
    · rcases hch : s.commentsCh with _ | ⟨r, ch⟩
      · rcases ht : s.tasks with _ | ⟨t, post⟩
        · rw [hch, ht] at hc; simp at hc; omega
        · have ht' : s.tasks = [] ++ t :: post := ht
          cases hpc : t.pc with
          | start => exact absurd (Step.write ht' hpc) (hstuck _)
          | notify => exact absurd (Step.notify ht' hpc) (hstuck _)
          | errSend err => exact absurd (Step.recvErr hm (by omega) ht' hpc) (hstuck _)
          | push r => exact absurd (Step.push ht' hpc (by rw [hch]; simp; omega)) (hstuck _)
      · exact absurd (Step.recv hm (by omega) hch) (hstuck _)
  | returned r => exact ⟨r, rfl⟩

/-- **Every step keeps the collector's invariant**, without `exitOnError`. -/
theorem CollectInv.step (hx : env.exitOnError = false) (hi : CollectInv env s) (h : Step env s s') :
    CollectInv env s' := by
  obtain ⟨hc, hn, he, hr⟩ := hi
  -- no task waits on `errCh`, so no step returns an error
  have he' : ∀ err, s'.main ≠ .returned (.error err) := by
    cases h with
    | skip | spawn | collectStart | recv | finish => simp
    | write | notify | push => exact he
    | recvErr _ _ ht hpc => exact absurd hpc (hn _ (by simp [ht]) _)
  have hn' : ∀ t ∈ s'.tasks, ∀ err, t.pc ≠ .errSend err := by
    cases h with
    | skip | collectStart | recv | finish => exact hn
    | spawn => exact fun t' h' => (List.mem_append.1 h').elim (hn t') fun h => by simp [List.mem_singleton.1 h]
    | write ht => rw [ht] at hn; exact noErrSend_update hn nofun
    | notify ht => rw [ht] at hn; exact noErrSend_update hn (env.afterSend_ne_errSend hx _)
    | push ht =>
      rw [ht] at hn
      exact fun t' h' => hn t' (List.mem_append.2 ((List.mem_append.1 h').imp id (List.mem_cons_of_mem _)))
    | recvErr _ _ ht hpc => exact absurd hpc (hn _ (by simp [ht]) _)
  have hb := Books.step ⟨hc, hr⟩ h he'
  exact ⟨hb.count, hn', he', hb.results⟩

/-- **The collector never deadlocks.** Without `exitOnError`, a state with
the invariant where no step is possible has returned its comments, with no
task left and nothing in the channel. -/
theorem CollectInv.stuck (hi : CollectInv env s) (hstuck : ∀ s', ¬ Step env s s') :
    ∃ acc, s.main = .returned (.ok acc) ∧ s.tasks = [] ∧ s.commentsCh = [] := by
  obtain ⟨r, hm⟩ := Books.stuck ⟨hi.count, hi.results⟩ hstuck
  rcases r with err | acc
  · exact absurd hm (hi.noError err)
  · have hc := hi.count
    rw [hm] at hc
    simp only [MainPc.received, MainPc.pending, List.length_nil, add_zero] at hc
    exact ⟨acc, hm, List.eq_nil_of_length_eq_zero (by omega), List.eq_nil_of_length_eq_zero (by omega)⟩

/-- **Without `exitOnError`, every run of `concurrentRequest` returns**, and
whatever the order the tasks ran and finished in, what it returns is, up to
order, the comments of every analyzer it did not skip and whose `send`
succeeded with at least one comment. -/
theorem collect_terminates (hx : env.exitOnError = false) (c : Struct) :
    Terminates (Step env) (fun s => ∃ acc, s.main = .returned (.ok acc) ∧
      (acc : Multiset AnalyzerComments) = ↑(env.registry.analyzers.filterMap env.contribution))
      (env.init c) :=
  terminates_of_measure weight (fun _ _ _ h => h.weight_lt) (fun _ _ hi h => hi.step hx h)
    (fun s hi hstuck => by
      obtain ⟨acc, hm, ht, hch⟩ := hi.stuck hstuck
      have := hi.results
      rw [hm, ht, hch] at this
      exact ⟨acc, hm, by simpa [MainPc.collected, MainPc.pending] using this⟩)
    _ (collectInv_init c)

end FanOut

end Lookout

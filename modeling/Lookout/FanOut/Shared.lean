import Lookout.FanOut
/-!
# Lookout — what the fan-out's goroutines share

Two things every task of one event shares, and what goes wrong through
them. `errCh` has no buffer and only the collector receives from it, once:
after a first error the collector returns, and a second failing task blocks
on its send for good (`errSend_stuck`, `stranded_errSend`). And every task's
`send` writes its settings into the one event the handler was given before
calling its analyzer with that event, so an analyzer can be sent another's
settings (`configuration_race`).
-/

namespace Lookout

variable {Struct : Type}

/-! ## A second error on `errCh` -/

/-- A server-side `Config` with nothing set. -/
def plainConfig (name : String) : AnalyzerConfig := ⟨name, "", false, "", []⟩

/-- Two registered analyzers, `a` and `b`, neither disabled. -/
def registryAB : Registry := ⟨[("a", plainConfig "a"), ("b", plainConfig "b")], by decide⟩

/-- Both analyzers fail, and `exitOnError` is set. -/
def bothFail : FanOutEnv Settings :=
  ⟨registryAB, [], true, some, fun _ => .error "rpc error: code = Unavailable"⟩

namespace FanOut

variable {env : FanOutEnv Struct} {s s' : FanOut Struct} {t : Task} {err : String}
  {r : Except String (List AnalyzerComments)}

/-- After `concurrentRequest` has returned, a step moves no task off `errCh`. -/
theorem Step.errSend_stays (h : Step env s s') (hs : s.main = .returned r) (ht : t ∈ s.tasks)
    (hpc : t.pc = .errSend err) : s'.main = .returned r ∧ t ∈ s'.tasks := by
  cases h with
  | skip hm | spawn hm | collectStart hm | recv hm | recvErr hm | finish hm => simp_all
  | write htasks hpc' | notify htasks hpc' | push htasks hpc' =>
    refine ⟨hs, ?_⟩
    rw [htasks] at ht
    simp only [List.mem_append, List.mem_cons] at ht ⊢
    rcases ht with ht | rfl | ht
    · exact .inl ht
    · simp_all
    · simp [ht]

/-- **An error nobody received is never received.** Once
`concurrentRequest` has returned, a task blocked on `errCh` stays blocked in
every later state. -/
theorem errSend_stuck (hs : s.main = .returned r) (ht : t ∈ s.tasks) (hpc : t.pc = .errSend err)
    (h : Reaches env s s') : s'.main = .returned r ∧ t ∈ s'.tasks := by
  induction h with
  | refl => exact ⟨hs, ht⟩
  | tail _ hstep ih => exact hstep.errSend_stays ih.1 ih.2 hpc

end FanOut

open FanOut in
/-- **A failing task can block for good.** With `exitOnError` and two
failing analyzers, the collector returns `a`'s error, and `b`'s task is left
on `errCh <- err` in every state reachable from there. -/
theorem stranded_errSend : ∃ s, Reaches bothFail (bothFail.init []) s ∧
    s.main = .returned (.error "rpc error: code = Unavailable") ∧
    ∀ s', Reaches bothFail s s' →
      ⟨"b", plainConfig "b", .errSend "rpc error: code = Unavailable"⟩ ∈ s'.tasks := by
  have h := ((((((((Relation.ReflTransGen.refl : Reaches bothFail (bothFail.init []) _).tail
    (Step.spawn rfl rfl)).tail (Step.spawn rfl rfl)).tail (Step.collectStart rfl)).tail
    (Step.write (show _ = [] ++ _ :: [_] from rfl) rfl)).tail
    (Step.notify (show _ = [] ++ _ :: [_] from rfl) rfl)).tail
    (Step.write (show _ = [_] ++ _ :: [] from rfl) rfl)).tail
    (Step.notify (show _ = [_] ++ _ :: [] from rfl) rfl)).tail
    (Step.recvErr rfl (by decide) (show _ = [] ++ _ :: [_] from rfl) rfl)
  exact ⟨_, h, rfl, fun s' hs' => (errSend_stuck rfl
    (List.mem_append_right _ (List.mem_cons_of_mem _ (List.mem_singleton.2 rfl))) rfl hs').2⟩

/-! ## One `Configuration` for every task -/

/-- A server-side `Config` with nothing set but its settings. -/
def configWith (name : String) (settings : Settings) : AnalyzerConfig :=
  ⟨name, "", false, "", settings⟩

/-- The settings the server gives `a`. -/
def settingsA : Settings := [("mode", .scalar (.str "a"))]

/-- The settings the server gives `b`. -/
def settingsB : Settings := [("mode", .scalar (.str "b"))]

/-- Two registered analyzers with different settings. -/
def registrySettings : Registry :=
  ⟨[("a", configWith "a" settingsA), ("b", configWith "b" settingsB)], by decide⟩

/-- Both analyzers answer with no comment; every settings map converts. -/
def raceEnv : FanOutEnv Settings := ⟨registrySettings, [], false, some, fun _ => .ok []⟩

open FanOut in
/-- **One task's settings reach another analyzer.** Both tasks store their
settings in the one event before `a`'s task calls its analyzer, which is
then sent `b`'s. -/
theorem configuration_race : ∃ s, Reaches raceEnv (raceEnv.init []) s ∧
    s.notified = [("a", settingsB)] ∧
    raceEnv.toStruct (taskSettings raceEnv.conf "a" (configWith "a" settingsA)) = some settingsA ∧
    settingsA ≠ settingsB := by
  have h := (((((Relation.ReflTransGen.refl : Reaches raceEnv (raceEnv.init []) _).tail
    (Step.spawn rfl rfl)).tail (Step.spawn rfl rfl)).tail
    (Step.write (show _ = [] ++ _ :: [_] from rfl) rfl)).tail
    (Step.write (show _ = [_] ++ _ :: [] from rfl) rfl)).tail
    (Step.notify (show _ = [] ++ _ :: [_] from rfl) rfl)
  exact ⟨_, h, rfl, rfl, by simp [settingsA, settingsB]⟩

end Lookout

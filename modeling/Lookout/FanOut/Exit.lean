import Lookout.FanOut.Collect
import Lookout.FanOut.Shared
/-!
# Lookout — how the fan-out ends

`commentsCh` is made with room for one item per registered analyzer, and
each analyzer puts at most one there, so no push on it ever blocks, with
or without `exitOnError` and even after `concurrentRequest` returned
(`commentsCh_room`).

With `exitOnError` a failed task sends its error on `errCh`, which has no
buffer, before its deferred push. Only the collector receives from `errCh`,
so a failed task stays live until the collector takes its error and
returns. The collector therefore never makes its `len(s.analyzers)`
receives while a spawned analyzer has failed: it returns one of their
errors, or, when none failed, every comment. `ExitInv` keeps the
bookkeeping of `Books` until an error is returned and says where every
failing analyzer is; `exit_terminates` is the result over every
interleaving.
-/

namespace Lookout

variable {Struct : Type}

namespace FanOutEnv

variable (env : FanOutEnv Struct)

/-- The error the task of a registered analyzer sends on `errCh`: it is
spawned, and its `send` fails. -/
def failure (e : String × AnalyzerConfig) : Option String :=
  if skipped env.conf e.1 e.2 then none else
    match env.outcome e.1 with
    | .error err => some err
    | .ok _ => none

/-- The errors the analyzers' tasks send, in the order the loop visits them. -/
def failures : List String := env.registry.analyzers.filterMap env.failure

variable {env}

theorem afterSend_errSend {t : Task} {err : String} (h : env.afterSend t = .errSend err) :
    env.outcome t.name = .error err := by
  unfold afterSend at h
  split at h
  · split at h <;> simp_all
  · simp at h

theorem afterSend_push (hx : env.exitOnError = true) {t : Task} {r : Option AnalyzerComments}
    (h : env.afterSend t = .push r) (err : String) : env.outcome t.name ≠ .error err := by
  unfold afterSend at h
  split at h <;> simp_all

end FanOutEnv

namespace FanOut

variable {env : FanOutEnv Struct} {s s' : FanOut Struct}

/-! ## Moving one task -/

section Tasks

variable {Q : Task → Prop} {pre post : List Task} {t : Task} {p : TaskPc}

theorem forall_update (h : ∀ t' ∈ pre ++ t :: post, Q t') (hp : Q { t with pc := p }) :
    ∀ t' ∈ pre ++ { t with pc := p } :: post, Q t' := by
  simp only [List.mem_append, List.mem_cons] at h ⊢
  rintro t' (h' | rfl | h')
  · exact h t' (.inl h')
  · exact hp
  · exact h t' (.inr (.inr h'))

theorem forall_erase (h : ∀ t' ∈ pre ++ t :: post, Q t') : ∀ t' ∈ pre ++ post, Q t' :=
  fun t' h' => h t' (List.mem_append.2 ((List.mem_append.1 h').imp id (List.mem_cons_of_mem _)))

theorem exists_update (h : ∃ t' ∈ pre ++ t :: post, Q t') (hp : Q t → Q { t with pc := p }) :
    ∃ t' ∈ pre ++ { t with pc := p } :: post, Q t' := by
  obtain ⟨t', h', hq⟩ := h
  simp only [List.mem_append, List.mem_cons] at h'
  rcases h' with h' | rfl | h'
  · exact ⟨t', List.mem_append_left _ h', hq⟩
  · exact ⟨_, List.mem_append_right _ (List.mem_cons_self _ _), hp hq⟩
  · exact ⟨t', List.mem_append_right _ (List.mem_cons_of_mem _ h'), hq⟩

end Tasks

/-- A step never takes back an error the collector returned. -/
theorem Step.noError_of (h : Step env s s') (hs' : ∀ err, s'.main ≠ .returned (.error err)) :
    ∀ err, s.main ≠ .returned (.error err) := by
  cases h with
  | skip hm | spawn hm | collectStart hm | recv hm | recvErr hm | finish hm => simp [hm]
  | write | notify | push => exact hs'

/-! ## The invariant -/

/-- **The fan-out's invariant with `exitOnError`.** Every live task runs for
a registered analyzer the loop did not skip, and one on `errCh` sends its
analyzer's error; an error the collector returned is one of those. Until it
returns one, the bookkeeping holds, and every analyzer whose task fails is
still to visit or live short of its push. -/
structure ExitInv (env : FanOutEnv Struct) (s : FanOut Struct) : Prop where
  spawned : ∀ t ∈ s.tasks, (t.name, t.config) ∈ env.registry.analyzers ∧ skipped env.conf t.name t.config = false
  unvisited : ∀ e ∈ s.main.pending, e ∈ env.registry.analyzers
  errSend : ∀ t ∈ s.tasks, ∀ err, t.pc = .errSend err → env.outcome t.name = .error err
  returned : ∀ err, s.main = .returned (.error err) → err ∈ env.failures
  books : (∀ err, s.main ≠ .returned (.error err)) → Books env s
  failing : (∀ err, s.main ≠ .returned (.error err)) → ∀ e ∈ env.registry.analyzers, (env.failure e).isSome →
    e ∈ s.main.pending ∨ ∃ t ∈ s.tasks, t.name = e.1 ∧ ∀ r, t.pc ≠ .push r

theorem exitInv_init (c : Struct) : ExitInv env (env.init c) where
  spawned := nofun
  unvisited _ h := h
  errSend := nofun
  returned := nofun
  books _ := books_init c
  failing _ _ he _ := .inl he

/-- A failing analyzer's task runs `send` to `errCh`, never to its push. -/
theorem failure_outcome {e : String × AnalyzerConfig} (h : (env.failure e).isSome) :
    skipped env.conf e.1 e.2 = false ∧ ∃ err, env.outcome e.1 = .error err := by
  unfold FanOutEnv.failure at h
  split at h
  · cases h
  · rename_i hs
    split at h
    · exact ⟨Bool.eq_false_iff.2 hs, _, ‹_›⟩
    · cases h

theorem mem_failures {e : String × AnalyzerConfig} (he : e ∈ env.registry.analyzers)
    (hs : skipped env.conf e.1 e.2 = false) {err : String} (ho : env.outcome e.1 = .error err) :
    err ∈ env.failures :=
  List.mem_filterMap.2 ⟨e, he, by simp [FanOutEnv.failure, hs, ho]⟩

/-- **Every step keeps the invariant**, with `exitOnError`. -/
theorem ExitInv.step (hx : env.exitOnError = true) (hi : ExitInv env s) (h : Step env s s') :
    ExitInv env s' := by
  have hb (hs' : ∀ err, s'.main ≠ .returned (.error err)) : Books env s' :=
    (hi.books (h.noError_of hs')).step h hs'
  obtain ⟨hsp, hun, herr, hret, -, hfl⟩ := hi
  have hf (hs' : ∀ err, s'.main ≠ .returned (.error err)) := hfl (h.noError_of hs')
  cases h with
  | @skip name a rest hm hsk _ =>
    refine ⟨hsp, fun e he => hun e (by rw [hm]; exact List.mem_cons_of_mem _ he), herr, nofun, hb,
      fun hs' e he hfe => ?_⟩
    rcases hf hs' e he hfe with hp | ht
    · rw [hm] at hp
      rcases List.mem_cons.1 hp with rfl | hp
      · exact absurd hsk (by simp [(failure_outcome hfe).1])
      · exact .inl hp
    · exact .inr ht
  | @spawn name a rest hm hsk =>
    have hmem : (name, a) ∈ env.registry.analyzers := hun _ (by rw [hm]; exact List.mem_cons_self _ _)
    refine ⟨?_, fun e he => hun e (by rw [hm]; exact List.mem_cons_of_mem _ he), ?_, nofun, hb,
      fun hs' e he hfe => ?_⟩
    · simp only [List.mem_append, List.mem_singleton]
      rintro t (ht | rfl)
      · exact hsp t ht
      · exact ⟨hmem, hsk⟩
    · simp only [List.mem_append, List.mem_singleton]
      rintro t (ht | rfl)
      · exact herr t ht
      · nofun
    · rcases hf hs' e he hfe with hp | ⟨t, ht, hn, hpc⟩
      · rw [hm] at hp
        rcases List.mem_cons.1 hp with rfl | hp
        · exact .inr ⟨_, List.mem_append_right _ (List.mem_singleton_self _), rfl, nofun⟩
        · exact .inl hp
      · exact .inr ⟨t, List.mem_append_left _ ht, hn, hpc⟩
  | collectStart hm =>
    exact ⟨hsp, nofun, herr, nofun, hb, fun hs' e he hfe => (hf hs' e he hfe).imp (by simp [hm, MainPc.pending]) id⟩
  | @write pre post t ht hpc =>
    rw [ht] at hsp herr hf
    exact ⟨forall_update hsp (hsp t (by simp)), hun, forall_update herr nofun, hret, hb,
      fun hs' e he hfe => (hf hs' e he hfe).imp id fun hw => exists_update hw fun ⟨hn, _⟩ => ⟨hn, nofun⟩⟩
  | @notify pre post t ht hpc =>
    rw [ht] at hsp herr hf
    refine ⟨forall_update hsp (hsp t (by simp)), hun, forall_update herr fun _ h => FanOutEnv.afterSend_errSend h,
      hret, hb, fun hs' e he hfe => (hf hs' e he hfe).imp id fun hw => exists_update hw fun ⟨hn, _⟩ => ⟨hn, ?_⟩⟩
    obtain ⟨-, err, ho⟩ := failure_outcome hfe
    exact fun r hr => FanOutEnv.afterSend_push hx hr err (hn ▸ ho)
  | @push pre post t r ht hpc _ =>
    rw [ht] at hsp herr hf
    refine ⟨forall_erase hsp, hun, forall_erase herr, hret, hb,
      fun hs' e he hfe => (hf hs' e he hfe).imp id fun ⟨t', ht', hn, hp⟩ => ⟨t', ?_, hn, hp⟩⟩
    simp only [List.mem_append, List.mem_cons] at ht' ⊢
    rcases ht' with ht' | rfl | ht'
    · exact .inl ht'
    · exact absurd hpc (hp r)
    · exact .inr ht'
  | recv hm =>
    exact ⟨hsp, nofun, herr, nofun, hb, fun hs' e he hfe => (hf hs' e he hfe).imp (by simp [hm, MainPc.pending]) id⟩
  | @recvErr i acc pre post t err hm _ ht hpc =>
    rw [ht] at hsp herr
    obtain ⟨hmem, hsk⟩ := hsp t (by simp)
    refine ⟨forall_update hsp ⟨hmem, hsk⟩, nofun, forall_update herr nofun, fun err' h' => ?_,
      fun hs' => absurd rfl (hs' err), fun hs' => absurd rfl (hs' err)⟩
    cases h'
    exact mem_failures hmem hsk (herr t (by simp) err hpc)
  | finish hm =>
    exact ⟨hsp, nofun, herr, by simp, hb, fun hs' e he hfe => (hf hs' e he hfe).imp (by simp [hm, MainPc.pending]) id⟩

/-- A state with the invariant where no step is possible has returned:
all comments when no spawned analyzer failed, or one failed analyzer's
error. -/
theorem ExitInv.stuck (hi : ExitInv env s) (hstuck : ∀ s', ¬ Step env s s') :
    ∃ r, s.main = .returned r ∧
      (∀ acc, r = .ok acc → env.failures = [] ∧
        (acc : Multiset AnalyzerComments) = ↑(env.registry.analyzers.filterMap env.contribution)) ∧
      (∀ err, r = .error err → err ∈ env.failures) := by
  by_cases he : ∀ err, s.main ≠ .returned (.error err)
  · obtain ⟨r, hm⟩ := (hi.books he).stuck hstuck
    refine ⟨r, hm, fun acc hr => ?_, fun err hr => absurd (hr ▸ hm) (he err)⟩
    subst hr
    have hc := (hi.books he).count
    have hres := (hi.books he).results
    rw [hm] at hc hres
    simp only [MainPc.received, MainPc.pending, List.length_nil, add_zero] at hc
    have hch : s.commentsCh = [] := List.eq_nil_of_length_eq_zero (by omega)
    have ht : s.tasks = [] := List.eq_nil_of_length_eq_zero (by omega)
    refine ⟨List.filterMap_eq_nil_iff.2 fun e hme => Option.not_isSome_iff_eq_none.1 fun hfe => ?_, ?_⟩
    · rcases hi.failing he e hme hfe with hp | ⟨t, htm, -⟩
      · simp [hm, MainPc.pending] at hp
      · simp [ht] at htm
    · simpa [hch, ht, MainPc.collected, MainPc.pending] using hres
  · push_neg at he
    obtain ⟨err, hm⟩ := he
    exact ⟨_, hm, nofun, fun _ h => by cases h; exact hi.returned _ hm⟩

/-- **With `exitOnError`, every run of `concurrentRequest` returns**, in
whatever order the goroutines run. It returns the comments of every
analyzer it did not skip and that answered with comments, up to order,
exactly when no analyzer it spawned failed; otherwise it returns the error
of one of the failed analyzers. -/
theorem exit_terminates (hx : env.exitOnError = true) (c : Struct) :
    Terminates (Step env) (fun s => ∃ r, s.main = .returned r ∧
      (∀ acc, r = .ok acc → env.failures = [] ∧
        (acc : Multiset AnalyzerComments) = ↑(env.registry.analyzers.filterMap env.contribution)) ∧
      (∀ err, r = .error err → err ∈ env.failures)) (env.init c) :=
  terminates_of_measure (I := ExitInv env) weight (fun _ _ _ h => h.weight_lt) (fun _ _ hi h => hi.step hx h)
    (fun _ hi hstuck => hi.stuck hstuck) _ (exitInv_init c)

theorem exit_terminates_bothFail : bothFail.exitOnError = true ∧
    Terminates (Step bothFail) (fun s => ∃ r, s.main = .returned r ∧
      (∀ acc, r = .ok acc → bothFail.failures = [] ∧
        (acc : Multiset AnalyzerComments) = ↑(bothFail.registry.analyzers.filterMap bothFail.contribution)) ∧
      (∀ err, r = .error err → err ∈ bothFail.failures)) (bothFail.init []) :=
  ⟨rfl, exit_terminates rfl []⟩

end FanOut

/-! ## `commentsCh` never blocks -/

/-- How many receives the collector has made; none count once it returned. -/
def MainPc.taken : MainPc → Nat
  | .spawn _ => 0
  | .collect i _ => i
  | .returned _ => 0

namespace FanOut

variable {env : FanOutEnv Struct} {s s' : FanOut Struct}

/-- The channel's items, the live tasks, the unvisited analyzers and the
receives made never outnumber the registered analyzers. -/
def RoomInv (env : FanOutEnv Struct) (s : FanOut Struct) : Prop :=
  s.commentsCh.length + s.tasks.length + s.main.pending.length + s.main.taken ≤ env.cap

theorem RoomInv.step (hi : RoomInv env s) (h : Step env s s') : RoomInv env s' := by
  unfold RoomInv at hi ⊢
  cases h with
  | skip hm | spawn hm | collectStart hm | finish hm | recv hm _ hch | recvErr hm _ ht =>
    simp only [hm, MainPc.pending, MainPc.taken, List.length_cons, List.length_append, List.length_singleton,
      List.length_nil, *] at hi ⊢; omega
  | write ht | notify ht | push ht =>
    simp only [ht, List.length_cons, List.length_append, List.length_singleton, List.length_nil] at hi ⊢; omega

/-- **No push on `commentsCh` ever blocks.** In every state of every run,
whatever the outcomes and with or without `exitOnError`, before and after
`concurrentRequest` returned: while a task is live its deferred push has
room, and while the loop has analyzers to visit, so has its push of `nil`
for a skipped one. -/
theorem commentsCh_room (c : Struct) (h : Reaches env (env.init c) s) :
    (∀ t ∈ s.tasks, s.commentsCh.length < env.cap) ∧ (s.main.pending ≠ [] → s.commentsCh.length < env.cap) := by
  have hi : RoomInv env s := by
    induction h with
    | refl => simp [RoomInv, FanOutEnv.init, MainPc.pending, MainPc.taken, FanOutEnv.cap]
    | tail _ hstep ih => exact ih.step hstep
  unfold RoomInv at hi
  refine ⟨fun t ht => ?_, fun hp => ?_⟩
  · have := List.length_pos_of_mem ht; omega
  · have := List.length_pos_of_ne_nil hp; omega

theorem commentsCh_room_bothFail : ∃ s, Reaches bothFail (bothFail.init []) s ∧ s.tasks.length = 2 ∧
    (∀ t ∈ s.tasks, s.commentsCh.length < bothFail.cap) ∧ (s.main.pending ≠ [] → s.commentsCh.length < bothFail.cap) :=
  have h0 : Reaches bothFail (bothFail.init []) (bothFail.init []) := .refl
  have h := (h0.tail (Step.spawn rfl rfl)).tail (Step.spawn rfl rfl)
  ⟨_, h, rfl, commentsCh_room [] h⟩

end FanOut

end Lookout

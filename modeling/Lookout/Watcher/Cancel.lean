import Lookout.Watcher
/-!
# Lookout — `Watch` when `ctx` ends

`ctx` can end at any point of a run, and `select` may go on taking lines
after it has, as Go picks among ready cases at random. Every step but the
last of `Watch` is a step of a run with `ctx` open once `ctx` is read as
open (`Step.reopen_or`), so `WatchInv` carries over: over every run, the
calls `Watch` makes are the first of those `watch_delivers` describes, and
it returns either the callback's first error after all of them or
`ctx.Err()` (`watch_safe`). Every run ends with `Watch` returned
(`watch_returns`), and the reading goroutine can be left blocked on the
channel for good once it has (`reader_blocked`).
-/

namespace Lookout

namespace WatchState

variable {Review Push Err : Type} {env : WatchEnv Review Push Err} {input : List UInt8}
  {s s' : WatchState Review Push Err}

/-- `s` with `ctx` read as open. -/
def reopen (s : WatchState Review Push Err) : WatchState Review Push Err := { s with ctxDone := false }

/-- **A step of `Watch` with `ctx` ended** is a step with `ctx` open on the
states read as open, the end of `ctx` itself, or `select` taking `ctx.Done()`. -/
theorem Step.reopen_or (h : Step env s s') :
    OpenStep env s.reopen s'.reopen ∨ s'.reopen = s.reopen ∨
      (s.main = .loop ∧ s.ctxDone = true ∧ s' = { s with main := .returned (some env.ctxErr) }) := by
  cases h with
  | scanToken hr hs => exact .inl ⟨.scanToken hr hs, rfl⟩
  | scanStop hr hs => exact .inl ⟨.scanStop hr hs, rfl⟩
  | send hr hl => exact .inl ⟨.send hr hl, rfl⟩
  | recv hm hl => exact .inl ⟨.recv hm hl, rfl⟩
  | cancel => exact .inr (.inl rfl)
  | done hm hd => exact .inr (.inr ⟨hm, hd, rfl⟩)

/-- Once `Watch` has returned with `ctx` ended, only the reading goroutine moves. -/
theorem Step.of_returned {r : Option Err} (h : Step env s s') (hm : s.main = .returned r) (hd : s.ctxDone = true) :
    s'.main = s.main ∧ s'.calls = s.calls ∧ s'.ctxDone = true ∧ s'.lines.length ≤ s.lines.length + 1 := by
  cases h with
  | scanToken | scanStop => exact ⟨rfl, rfl, hd, by simp⟩
  | send => exact ⟨rfl, rfl, hd, by simp⟩
  | recv hm' | done hm' => rw [hm] at hm'; cases hm'
  | cancel hd' => rw [hd] at hd'; cases hd'

/-- **The watcher's invariant over every run**: `WatchInv` of the state read
as open, until `Watch` returns `ctx.Err()` having made the first of the calls. -/
def CancelInv (env : WatchEnv Review Push Err) (input : List UInt8) (s : WatchState Review Push Err) : Prop :=
  WatchInv env input s.reopen ∨
    (s.main = .returned (some env.ctxErr) ∧ s.ctxDone = true ∧ s.calls <+: (deliver env.cb [] (env.events input)).1)

theorem cancelInv_init (env : WatchEnv Review Push Err) (input : List UInt8) : CancelInv env input (init input) :=
  .inl (watchInv_init env input)

/-- While `Watch` loops, the calls made are the first of those `deliver` makes. -/
theorem WatchInv.calls_prefix (hi : WatchInv env input s) : s.calls <+: (deliver env.cb [] (env.events input)).1 := by
  cases hm : s.main with
  | loop => rw [hi.loop hm]; exact List.prefix_append _ _
  | returned r =>
    obtain ⟨err, hd, -⟩ := hi.returned r hm
    exact ⟨[], by simp [hd]⟩

theorem CancelInv.step (hi : CancelInv env input s) (h : Step env s s') : CancelInv env input s' := by
  rcases hi with hi | ⟨hm, hd, hp⟩
  · rcases h.reopen_or with ho | he | ⟨hm, hd, rfl⟩
    · exact .inl (hi.step ho)
    · exact .inl (he ▸ hi)
    · exact .inr ⟨rfl, hd, hi.calls_prefix⟩
  · obtain ⟨hm', hc, hd', -⟩ := h.of_returned hm hd
    exact .inr ⟨hm'.trans hm, hd', hc ▸ hp⟩

theorem CancelInv.reaches (h : Relation.ReflTransGen (Step env) (init input) s) : CancelInv env input s := by
  induction h with
  | refl => exact cancelInv_init env input
  | tail _ hstep ih => exact ih.step hstep

/-- What `Watch` has returned in a state of a run: the callback's first
error after all the calls `deliver` makes, or `ctx.Err()` once `ctx` ended. -/
def ReturnedWell (env : WatchEnv Review Push Err) (input : List UInt8) (s : WatchState Review Push Err)
    (r : Option Err) : Prop :=
  (∃ err, deliver env.cb [] (env.events input) = (s.calls, some err) ∧ .returned r = afterInput env (some err)) ∨
    (s.ctxDone = true ∧ r = some env.ctxErr)

theorem CancelInv.returned (hi : CancelInv env input s) {r : Option Err} (hm : s.main = .returned r) :
    ReturnedWell env input s r := by
  rcases hi with hi | ⟨hm', hd, -⟩
  · obtain ⟨err, hd, he⟩ := hi.returned r hm
    exact .inl ⟨err, hd, hm ▸ he⟩
  · rw [hm] at hm'
    cases hm'
    exact .inr ⟨hd, rfl⟩

/-- **What `Watch` does in every run.** In every state of every run, with
`ctx` ended at any point or never: the calls made so far are the first of
those `deliver` makes on the events of the input's lines, in order and each
once; and once `Watch` has returned, either it made all of them and returned
their error (nil for the stop sentinel), or `ctx` has ended and it returned
`ctx.Err()`. -/
theorem watch_safe (env : WatchEnv Review Push Err) (input : List UInt8)
    (h : Relation.ReflTransGen (Step env) (init input) s) :
    s.calls <+: (deliver env.cb [] (env.events input)).1 ∧ ∀ r, s.main = .returned r → ReturnedWell env input s r := by
  have hi := CancelInv.reaches h
  refine ⟨?_, fun r hm => hi.returned hm⟩
  rcases hi with hi | ⟨-, -, hp⟩
  · exact hi.calls_prefix
  · exact hp

end WatchState

/-! ## Every run ends -/

/-- Whether `Watch` still loops, for the termination measure. -/
def WatchPc.weight {Err : Type} : WatchPc Err → Nat
  | .loop => 1
  | .returned _ => 0

@[simp] theorem WatchPc.weight_loop {Err : Type} : (WatchPc.loop : WatchPc Err).weight = 1 := rfl

@[simp] theorem WatchPc.weight_returned {Err : Type} (r : Option Err) : (WatchPc.returned r).weight = 0 := rfl

theorem WatchPc.weight_le {Err : Type} (p : WatchPc Err) : p.weight ≤ 1 := by
  cases p <;> simp

namespace WatchState

variable {Review Push Err : Type} {env : WatchEnv Review Push Err} {input : List UInt8}
  {s s' : WatchState Review Push Err}

/-- What is left to do in a run that may end `ctx`. -/
def fullWeight (s : WatchState Review Push Err) : Nat := s.weight + s.main.weight + if s.ctxDone then 0 else 1

/-- **Every step lowers the weight**, the end of `ctx` included: no run is infinite. -/
theorem Step.fullWeight_lt (h : Step env s s') : s'.fullWeight < s.fullWeight := by
  cases h with
  | scanToken hr hs =>
    have := scan_rest_lt hs
    simp only [fullWeight, weight, hr, ReaderPc.weight]; omega
  | scanStop hr => simp [fullWeight, weight, hr, ReaderPc.weight]
  | send hr => simp only [fullWeight, weight, hr, ReaderPc.weight, List.length_append, List.length_singleton]; omega
  | @recv line rest hm hl =>
    have := (afterInput env (env.handleInput s.calls line).2).weight_le
    simp only [fullWeight, weight, hm, hl, WatchPc.weight_loop, List.length_cons]; omega
  | cancel hd => simp [fullWeight, weight, hd]
  | done hm hd => simp [fullWeight, weight, hm, hd]

/-- `ctx` can always end, and `select` then takes it: a state where nothing
can move has `Watch` returned. -/
theorem returned_of_stuck (hstuck : ∀ s', ¬ Step env s s') : ∃ r, s.main = .returned r := by
  cases hm : s.main with
  | returned r => exact ⟨r, rfl⟩
  | loop =>
    cases hd : s.ctxDone
    · exact absurd (Step.cancel hd) (hstuck _)
    · exact absurd (Step.done hm hd) (hstuck _)

/-- **Every run of `Watch` ends with it returned.** Since `ctx` can end at
any point, no run stops with `Watch` waiting, and none is infinite: whatever
the order the goroutines run in, and however many lines `select` takes
after `ctx` has ended, every run ends with `Watch` returned, with the
callback's first error after all the calls `deliver` makes or with
`ctx.Err()`. -/
theorem watch_returns (env : WatchEnv Review Push Err) (input : List UInt8) :
    Terminates (Step env) (fun s => ∃ r, s.main = .returned r ∧ ReturnedWell env input s r) (init input) :=
  terminates_of_measure (I := Relation.ReflTransGen (Step env) (init input)) fullWeight
    (fun _ _ _ h => h.fullWeight_lt) (fun _ _ hr h => hr.tail h)
    (fun _ hr hstuck =>
      let ⟨r, hm⟩ := returned_of_stuck hstuck
      ⟨r, hm, (CancelInv.reaches hr).returned hm⟩) _ .refl

/-! ## The reading goroutine after `Watch` returned -/

/-- Once `Watch` has returned, a reading goroutine blocked on a full channel
stays so: no step moves it, and only `ctx` can still change. -/
theorem Step.blocked {r : Option Err} {line : List UInt8} (h : Step env s s') (hm : s.main = .returned r)
    (hr : s.reader = .send line) (hl : s.lines ≠ []) : s'.main = s.main ∧ s'.reader = s.reader ∧ s'.lines = s.lines := by
  cases h with
  | scanToken hr' | scanStop hr' => rw [hr] at hr'; cases hr'
  | send _ hl' => exact absurd (List.eq_nil_of_length_eq_zero (by omega)) hl
  | recv hm' | done hm' => rw [hm] at hm'; cases hm'
  | cancel => exact ⟨rfl, rfl, rfl⟩

/-- **The reading goroutine can be left behind.** Once `Watch` has
returned, a reading goroutine that holds a line while the channel holds
another is blocked on `lines <- line` in every later state: nothing
receives from `lines` any more, and the goroutine never exits. -/
theorem reader_blocked {r : Option Err} {line : List UInt8} (hm : s.main = .returned r) (hr : s.reader = .send line)
    (hl : s.lines ≠ []) {s' : WatchState Review Push Err} (h : Relation.ReflTransGen (Step env) s s') :
    s'.reader = .send line := by
  have : s'.main = s.main ∧ s'.reader = s.reader ∧ s'.lines = s.lines := by
    induction h with
    | refl => exact ⟨rfl, rfl, rfl⟩
    | tail _ hstep ih =>
      obtain ⟨hm', hr', hl'⟩ := ih
      obtain ⟨hm'', hr'', hl''⟩ := hstep.blocked (hm'.trans hm) (hr'.trans hr) (hl' ▸ hl)
      exact ⟨hm''.trans hm', hr''.trans hr', hl''.trans hl'⟩
  exact this.2.1.trans hr

end WatchState

/-! ## Runs on three lines -/

/-- Three `{"event":"push"}` lines. -/
def threePushA : List UInt8 := pushLineA ++ 10 :: pushLineA ++ 10 :: pushLineA ++ [10]

/-- `watchEnvA` with a callback that fails on every event. -/
def watchEnvFailA : WatchEnv Unit Unit String := { watchEnvA with cb := fun _ _ => some "handler failed" }

theorem scan_pushLineA (rest : List UInt8) : scan (pushLineA ++ 10 :: rest) = .token pushLineA rest :=
  (scan_line (by decide) (by decide) rest).trans (by rfl)

open WatchState in
/-- The first line is handled, then `ctx` ends and `select` takes it. -/
theorem watch_safe_cancelA : ∃ s, Relation.ReflTransGen (Step watchEnvA) (init threePushA) s ∧
    s.calls <+: (deliver watchEnvA.cb [] (watchEnvA.events threePushA)).1 ∧
      ∀ r, s.main = .returned r → ReturnedWell watchEnvA threePushA s r :=
  have h0 : Relation.ReflTransGen (Step watchEnvA) (init threePushA) (init threePushA) := .refl
  have h := ((((h0.tail (Step.scanToken rfl (scan_pushLineA _))).tail (Step.send rfl (by decide))).tail
    (Step.recv rfl rfl)).tail (Step.cancel rfl)).tail (Step.done rfl rfl)
  ⟨_, h, watch_safe watchEnvA threePushA h⟩

open WatchState in
/-- The callback fails on the first line; the reading goroutine has by then
sent the second and holds the third. -/
theorem reader_blocked_threePushA : ∃ s, Relation.ReflTransGen (Step watchEnvFailA) (init threePushA) s ∧
    s.main = .returned (some "handler failed") ∧ s.reader = .send pushLineA ∧ s.lines ≠ [] ∧
    ∀ s', Relation.ReflTransGen (Step watchEnvFailA) s s' → s'.reader = .send pushLineA :=
  have h0 : Relation.ReflTransGen (Step watchEnvFailA) (init threePushA) (init threePushA) := .refl
  have h := (((((h0.tail (Step.scanToken rfl (scan_pushLineA _))).tail (Step.send rfl (by decide))).tail
    (Step.scanToken rfl (scan_pushLineA _))).tail (Step.recv rfl rfl)).tail (Step.send rfl (by decide))).tail
    (Step.scanToken rfl (scan_pushLineA []))
  ⟨_, h, by rfl, rfl, List.cons_ne_nil _ _, fun _ h' => reader_blocked rfl rfl (List.cons_ne_nil _ _) h'⟩

end Lookout

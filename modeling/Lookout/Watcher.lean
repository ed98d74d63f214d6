import Lookout.FanOut
/-!
# Lookout — the JSON event watcher

`Watcher.Watch` reads events from its input one line at a time: a goroutine
calls `Scanner.Scan` and sends each line on the channel `lines`, whose
capacity is one, and `Watch` takes lines from it in a `select` with
`ctx.Done()`, hands each to `handleInput`, and returns on the first error
`handleInput` returns. `WatchState.Step` is one atomic action of either
goroutine, or of the context; every interleaving is a run.

The scanner is `bufio.Scanner` with `ScanLines` and its default buffer
(`scan`): it stops at the end of the input, and also at a line that does not
fit `maxScanTokenSize` bytes, and the goroutine never reads `Err()`.
`watch_delivers` says what every run in which `ctx` stays open does: it
ends, having called the callback once for each event of the lines the
scanner yields (`tokens`), in order, up to the first call that returns an
error, and returned that error (nil for the stop sentinel), or blocked with
the scanner stopped and `unread` left unread. It rests on one invariant,
`WatchInv`, which every step keeps and which leaves no state stuck early.
On lines that fit the buffer the scanner's tokens are the lines, and the
whole input is read (`watch_delivers_lines`); `watch_stops_at_long_line` is
the case of a line too long: no line after it ever reaches the callback.
-/

namespace Lookout

/-! ## The scanner -/

/-- `bufio.MaxScanTokenSize`, the longest token a default `Scanner` holds. -/
def maxScanTokenSize : Nat := 64 * 1024

/-- `dropCR` of `bufio.ScanLines`: a `\r` ending the line is dropped. -/
def dropCR (line : List UInt8) : List UInt8 :=
  if line.getLast? = some 13 then line.dropLast else line

/-- What one call of `Scanner.Scan` gives. -/
inductive ScanResult where
  /-- `Scan` is true, `Text()` is `line`, and `rest` is left to read. -/
  | token (line rest : List UInt8)
  /-- `Scan` is false at the end of the input, and `Err()` is nil. -/
  | eof
  /-- `Scan` is false on a line that does not fit the buffer, and `Err()` is `ErrTooLong`. -/
  | tooLong
  deriving DecidableEq, Repr

/-- Modelled from the Go library: `Scanner.Scan` with `ScanLines` and the
default buffer, on a reader that has `input` left and reports its end on a
read of its own, as `os.Stdin` and `strings.Reader` do. The buffer grows to
at most `maxScanTokenSize` bytes, and a line is found once its `\n`, or the
end of the input, is in the buffer: a line of `maxScanTokenSize` bytes or
more before its `\n` fills the buffer first, and the scan stops. -/
def scan (input : List UInt8) : ScanResult :=
  if input = [] then .eof
  else if maxScanTokenSize ≤ (input.takeWhile (· != 10)).length then .tooLong
  else .token (dropCR (input.takeWhile (· != 10))) ((input.dropWhile (· != 10)).drop 1)

theorem scan_rest_lt {input line rest : List UInt8} (h : scan input = .token line rest) :
    rest.length < input.length := by
  unfold scan at h
  split_ifs at h with h0
  cases h
  have : (input.dropWhile (· != 10)).length ≤ input.length := (List.dropWhile_suffix _).length_le
  cases input with
  | nil => exact absurd rfl h0
  | cons b bs =>
    simp only [List.length_drop, List.length_cons] at this ⊢
    omega

/-- The lines a `Scanner` yields from `input`, until `Scan` is false. -/
def tokens (input : List UInt8) : List (List UInt8) :=
  match h : scan input with
  | .token line rest =>
    have := scan_rest_lt h
    line :: tokens rest
  | .eof | .tooLong => []
termination_by input.length

/-- What the scanner leaves unread when `Scan` is false. -/
def unread (input : List UInt8) : List UInt8 :=
  match h : scan input with
  | .token _ rest =>
    have := scan_rest_lt h
    unread rest
  | .eof | .tooLong => input
termination_by input.length

/-! ### What `Scan` yields -/

section Scan

variable {line rest more input : List UInt8}

theorem takeWhile_line (hl : 10 ∉ line) (more : List UInt8) :
    (line ++ more).takeWhile (· != 10) = line ++ more.takeWhile (· != 10) := by
  induction line with
  | nil => rfl
  | cons b bs ih =>
    simp only [List.mem_cons, not_or] at hl
    simp [List.takeWhile_cons, Ne.symm hl.1, ih hl.2]

theorem dropWhile_line (hl : 10 ∉ line) (more : List UInt8) :
    (line ++ more).dropWhile (· != 10) = more.dropWhile (· != 10) := by
  induction line with
  | nil => rfl
  | cons b bs ih =>
    simp only [List.mem_cons, not_or] at hl
    simp [List.dropWhile_cons, Ne.symm hl.1, ih hl.2]

/-- A line that fits, ended by `\n`, is the next token. -/
theorem scan_line (hl : 10 ∉ line) (hs : line.length < maxScanTokenSize) (rest : List UInt8) :
    scan (line ++ 10 :: rest) = .token (dropCR line) rest := by
  simp [scan, takeWhile_line hl, dropWhile_line hl, Nat.not_le.2 hs]

/-- A last line that fits, with no `\n`, is the last token. -/
theorem scan_last (hne : line ≠ []) (hl : 10 ∉ line) (hs : line.length < maxScanTokenSize) :
    scan line = .token (dropCR line) [] := by
  have h := takeWhile_line hl []
  have h' := dropWhile_line hl []
  simp only [List.append_nil, List.takeWhile_nil, List.dropWhile_nil] at h h'
  simp [scan, hne, h, h', Nat.not_le.2 hs]

/-- **A line too long stops the scan**, whatever follows it. -/
theorem scan_long (hl : 10 ∉ line) (hs : maxScanTokenSize ≤ line.length) (more : List UInt8) :
    scan (line ++ more) = .tooLong := by
  have hne : line ++ more ≠ [] := by
    intro h
    rw [List.append_eq_nil] at h
    simp [h.1, maxScanTokenSize] at hs
  simp only [scan, hne, if_false, takeWhile_line hl, List.length_append]
  rw [if_pos (by omega)]

theorem tokens_of_token (h : scan input = .token line rest) : tokens input = line :: tokens rest := by
  rw [tokens]; split <;> simp_all

theorem tokens_of_stop (h : ∀ line rest, scan input ≠ .token line rest) : tokens input = [] := by
  rw [tokens]; split <;> simp_all

theorem unread_of_token (h : scan input = .token line rest) : unread input = unread rest := by
  rw [unread]; split <;> simp_all

theorem unread_of_stop (h : ∀ line rest, scan input ≠ .token line rest) : unread input = input := by
  rw [unread]; split <;> simp_all

/-- **Lines that fit are the scanner's tokens**, each without its `\r`. -/
theorem tokens_lines {ls : List (List UInt8)} (hls : ∀ l ∈ ls, 10 ∉ l ∧ l.length < maxScanTokenSize)
    (more : List UInt8) : tokens (ls.flatMap (· ++ [10]) ++ more) = ls.map dropCR ++ tokens more := by
  induction ls with
  | nil => rfl
  | cons l ls ih =>
    have hl := hls l (List.mem_cons_self _ _)
    rw [List.flatMap_cons, List.append_assoc, List.append_assoc, List.singleton_append,
      tokens_of_token (scan_line hl.1 hl.2 _), ih fun l' h' => hls l' (List.mem_cons_of_mem _ h'), List.map_cons,
      List.cons_append]

theorem unread_lines {ls : List (List UInt8)} (hls : ∀ l ∈ ls, 10 ∉ l ∧ l.length < maxScanTokenSize)
    (more : List UInt8) : unread (ls.flatMap (· ++ [10]) ++ more) = unread more := by
  induction ls with
  | nil => rfl
  | cons l ls ih =>
    have hl := hls l (List.mem_cons_self _ _)
    rw [List.flatMap_cons, List.append_assoc, List.append_assoc, List.singleton_append,
      unread_of_token (scan_line hl.1 hl.2 _), ih fun l' h' => hls l' (List.mem_cons_of_mem _ h')]

theorem tokens_last (hl : 10 ∉ line) (hs : line.length < maxScanTokenSize) :
    tokens line = if line = [] then [] else [dropCR line] := by
  split_ifs with h0
  · subst h0; exact tokens_of_stop (by simp [scan])
  · rw [tokens_of_token (scan_last h0 hl hs), tokens_of_stop (by simp [scan])]

theorem unread_last (hl : 10 ∉ line) (hs : line.length < maxScanTokenSize) : unread line = [] := by
  by_cases h0 : line = []
  · subst h0; exact unread_of_stop (by simp [scan])
  · rw [unread_of_token (scan_last h0 hl hs), unread_of_stop (by simp [scan])]

theorem scan_long_ne (hl : 10 ∉ line) (hs : maxScanTokenSize ≤ line.length) (more : List UInt8) :
    ∀ l r, scan (line ++ more) ≠ .token l r := by
  rw [scan_long hl hs]; nofun

end Scan

/-! ## `handleInput` -/

/-- A `lookout.Event` as the watcher makes it. -/
inductive WatchEvent (Review Push : Type) where
  /-- A `*lookout.ReviewEvent`. -/
  | review (e : Review)
  /-- A `*lookout.PushEvent`. -/
  | push (e : Push)
  deriving DecidableEq, Repr

/-- What `Watch` calls outside this file, and the errors it returns. -/
structure WatchEnv (Review Push Err : Type) where
  /-- `json.Unmarshal` into `eventType`: the `event` field, "" when there is none. -/
  eventType : List UInt8 → Except String String
  /-- `json.Unmarshal` into a `*lookout.ReviewEvent`. -/
  reviewEvent : List UInt8 → Except String Review
  /-- `json.Unmarshal` into a `*lookout.PushEvent`. -/
  pushEvent : List UInt8 → Except String Push
  /-- `strings.ToLower`. -/
  toLower : String → String
  /-- The callback `cb`: its answer to a call, given the events of the calls before it. -/
  cb : List (WatchEvent Review Push) → WatchEvent Review Push → Option Err
  /-- `lookout.NoErrStopWatcher.Is`. -/
  isStop : Err → Bool
  /-- `ctx.Err()`, once `ctx` is done. -/
  ctxErr : Err

namespace WatchEnv

variable {Review Push Err : Type} (env : WatchEnv Review Push Err)

/-- The event `handleInput` makes of `line`, if any; every other line is
logged and skipped. -/
def lineEvent (line : List UInt8) : Option (WatchEvent Review Push) :=
  if line = [] then none
  else
    match env.eventType line with
    | .error _ => none
    | .ok event =>
      match env.toLower event with
      | "" => none
      | "review" =>
        match env.reviewEvent line with
        | .error _ => none
        | .ok e => some (.review e)
      | "push" =>
        match env.pushEvent line with
        | .error _ => none
        | .ok e => some (.push e)
      | _ => none

/-- `Watcher.handleInput`, after the calls `calls`: the event it calls `cb`
with, if any, and the error it returns. -/
def handleInput (calls : List (WatchEvent Review Push)) (line : List UInt8) :
    Option (WatchEvent Review Push) × Option Err :=
  match env.lineEvent line with
  | none => (none, none)
  | some e => (some e, env.cb calls e)

end WatchEnv

/-! ## `Watch` -/

/-- Where the goroutine reading `w.scanner` is. -/
inductive ReaderPc where
  /-- About to call `Scan`. -/
  | scan
  /-- Blocked on `lines <- line`. -/
  | send (line : List UInt8)
  /-- `Scan` was false: the loop ended and the goroutine exited. -/
  | exited
  deriving DecidableEq, Repr

/-- Where `Watch` is. -/
inductive WatchPc (Err : Type) where
  /-- In its `for`/`select` loop. -/
  | loop
  /-- Returned this error. -/
  | returned (err : Option Err)
  deriving DecidableEq, Repr

/-- A running `Watch`: the scanner's input left, both goroutines, the
channel `lines`, the callback's calls so far, and whether `ctx` is done. -/
structure WatchState (Review Push Err : Type) where
  input : List UInt8
  reader : ReaderPc
  lines : List (List UInt8)
  main : WatchPc Err
  calls : List (WatchEvent Review Push)
  ctxDone : Bool

namespace WatchState

variable {Review Push Err : Type}

/-- `Watch` as it starts, on `input`. -/
def init (input : List UInt8) : WatchState Review Push Err := ⟨input, .scan, [], .loop, [], false⟩

/-- `Watch` on the error `handleInput` returned: nil goes on with the loop,
the stop sentinel returns nil, and any other error returns it. -/
def afterInput (env : WatchEnv Review Push Err) : Option Err → WatchPc Err
  | none => .loop
  | some err => .returned (if env.isStop err then none else some err)

/-- One atomic action of `Watch`, of its reading goroutine, or of `ctx`. -/
inductive Step (env : WatchEnv Review Push Err) : WatchState Review Push Err → WatchState Review Push Err → Prop
  /-- `Scan` is true: the goroutine goes on to send the line. -/
  | scanToken {s : WatchState Review Push Err} {line rest : List UInt8} :
      s.reader = .scan → scan s.input = .token line rest →
      Step env s { s with input := rest, reader := .send line }
  /-- `Scan` is false: the goroutine exits. -/
  | scanStop {s : WatchState Review Push Err} :
      s.reader = .scan → (∀ line rest, scan s.input ≠ .token line rest) →
      Step env s { s with reader := .exited }
  /-- `lines <- line` completes when the channel has room. -/
  | send {s : WatchState Review Push Err} {line : List UInt8} :
      s.reader = .send line → s.lines.length < 1 →
      Step env s { s with reader := .scan, lines := s.lines ++ [line] }
  /-- `select` takes a line, and `handleInput` runs on it. -/
  | recv {s : WatchState Review Push Err} {line : List UInt8} {rest : List (List UInt8)} :
      s.main = .loop → s.lines = line :: rest →
      Step env s { s with
        lines := rest
        calls := s.calls ++ Option.toList (env.handleInput s.calls line).1
        main := afterInput env (env.handleInput s.calls line).2 }
  /-- `ctx` is cancelled, or its deadline passes. -/
  | cancel {s : WatchState Review Push Err} :
      s.ctxDone = false → Step env s { s with ctxDone := true }
  /-- `select` takes `ctx.Done()`. -/
  | done {s : WatchState Review Push Err} :
      s.main = .loop → s.ctxDone = true → Step env s { s with main := .returned (some env.ctxErr) }

/-- A step of a run in which `ctx` stays open. -/
def OpenStep (env : WatchEnv Review Push Err) (s s' : WatchState Review Push Err) : Prop :=
  Step env s s' ∧ s'.ctxDone = false

end WatchState

/-! ## What a run delivers -/

/-- The calls `Watch` makes on the events `evs`, after the calls `done`:
each in order, up to and including the first the callback answers with an
error, and that error. -/
def deliver {E Err : Type} (cb : List E → E → Option Err) (done : List E) : List E → List E × Option Err
  | [] => ([], none)
  | e :: es =>
    match cb done e with
    | none => (e :: (deliver cb (done ++ [e]) es).1, (deliver cb (done ++ [e]) es).2)
    | some err => ([e], some err)

/-- The events of the lines the scanner yields from `input`. -/
def WatchEnv.events {Review Push Err : Type} (env : WatchEnv Review Push Err) (input : List UInt8) :
    List (WatchEvent Review Push) :=
  (tokens input).filterMap env.lineEvent

/-- The line the reading goroutine holds, if any. -/
def ReaderPc.held : ReaderPc → List (List UInt8)
  | .send line => [line]
  | _ => []

/-- What is left for the reading goroutine to do, for the termination measure. -/
def ReaderPc.weight : ReaderPc → Nat
  | .scan => 2
  | .send _ => 4
  | .exited => 0

namespace WatchState

variable {Review Push Err : Type} {env : WatchEnv Review Push Err} {input : List UInt8}
  {s s' : WatchState Review Push Err}

/-- The lines `handleInput` has still to see: those in the channel, the one
the reading goroutine holds, and those the scanner will yield. -/
def pending (s : WatchState Review Push Err) : List (List UInt8) := s.lines ++ s.reader.held ++ tokens s.input

/-- What is left to do, for the termination measure. -/
def weight (s : WatchState Review Push Err) : Nat := 3 * s.input.length + s.reader.weight + s.lines.length

/-- **Every step of a run with `ctx` open lowers the weight**: no such run is infinite. -/
theorem OpenStep.weight_lt (h : OpenStep env s s') : s'.weight < s.weight := by
  obtain ⟨h, hopen⟩ := h
  cases h with
  | scanToken hr hs =>
    have := scan_rest_lt hs
    simp only [weight, hr, ReaderPc.weight]; omega
  | scanStop hr => simp [weight, hr, ReaderPc.weight]
  | send hr hl => simp only [weight, hr, ReaderPc.weight, List.length_append, List.length_singleton]; omega
  | recv _ hl => simp only [weight, hl, List.length_cons]; omega
  | cancel => cases hopen
  | done _ hd => simp [hd] at hopen

/-- **The watcher's invariant**, for a run in which `ctx` stays open: the
scanner keeps to the lines of `input`, and while `Watch` loops, the calls
made so far followed by those the pending lines give are the calls
`deliver` makes on `input`; once `Watch` returned, it made all of them and
returned their error. -/
structure WatchInv (env : WatchEnv Review Push Err) (input : List UInt8) (s : WatchState Review Push Err) :
    Prop where
  ctxOpen : s.ctxDone = false
  exited : s.reader = .exited → tokens s.input = []
  unread : unread s.input = unread input
  loop : s.main = .loop → deliver env.cb [] (env.events input) =
    (s.calls ++ (deliver env.cb s.calls (s.pending.filterMap env.lineEvent)).1,
      (deliver env.cb s.calls (s.pending.filterMap env.lineEvent)).2)
  returned : ∀ r, s.main = .returned r →
    ∃ err, deliver env.cb [] (env.events input) = (s.calls, some err) ∧ s.main = afterInput env (some err)

theorem watchInv_init (env : WatchEnv Review Push Err) (input : List UInt8) : WatchInv env input (init input) where
  ctxOpen := rfl
  exited := nofun
  unread := rfl
  loop _ := by simp [pending, init, ReaderPc.held, WatchEnv.events]
  returned := nofun

/-- A step that moves only the reading goroutine keeps the invariant when
it keeps the pending lines. -/
theorem WatchInv.of_reader (hi : WatchInv env input s) (hm : s'.main = s.main) (hc : s'.calls = s.calls)
    (hp : s'.pending = s.pending) (ho : s'.ctxDone = false) (he : s'.reader = .exited → tokens s'.input = [])
    (hu : Lookout.unread s'.input = Lookout.unread s.input) : WatchInv env input s' where
  ctxOpen := ho
  exited := he
  unread := hu.trans hi.unread
  loop h := by rw [hi.loop (hm ▸ h), hc, hp]
  returned r h := by rw [hc, hm]; exact hi.returned r (hm ▸ h)

/-- **Every step with `ctx` open keeps the watcher's invariant.** -/
theorem WatchInv.step (hi : WatchInv env input s) (h : OpenStep env s s') : WatchInv env input s' := by
  obtain ⟨h, hopen⟩ := h
  cases h with
  | scanToken hr hs =>
    exact hi.of_reader rfl rfl (by simp [pending, hr, ReaderPc.held, tokens_of_token hs]) hopen nofun
      (unread_of_token hs).symm
  | scanStop hr hs =>
    exact hi.of_reader rfl rfl (by simp [pending, hr, ReaderPc.held]) hopen (fun _ => tokens_of_stop hs) rfl
  | send hr hl => exact hi.of_reader rfl rfl (by simp [pending, hr, ReaderPc.held]) hopen nofun rfl
  | @recv line rest hm hl =>
    -- the line taken is the first pending one
    have hp : s.pending = line :: { s with lines := rest }.pending := by simp [pending, hl]
    have hd := hi.loop hm
    rw [hp] at hd
    unfold WatchEnv.handleInput
    cases hev : env.lineEvent line with
    | none =>
      rw [List.filterMap_cons_none hev] at hd
      exact ⟨hopen, hi.exited, hi.unread, fun _ => by simpa using hd, fun r h => by simp [afterInput] at h⟩
    | some e =>
      rw [List.filterMap_cons_some hev, deliver] at hd
      cases hcb : env.cb s.calls e with
      | none =>
        rw [hcb] at hd
        exact ⟨hopen, hi.exited, hi.unread, fun _ => by simpa using hd, fun r h => by simp [hcb, afterInput] at h⟩
      | some err =>
        rw [hcb] at hd
        exact ⟨hopen, hi.exited, hi.unread, fun h => by simp [hcb, afterInput] at h,
          fun _ _ => ⟨err, by simpa using hd, by simp [hcb]⟩⟩
  | cancel => cases hopen
  | done _ hd => rw [hi.ctxOpen] at hd; cases hd

/-- What a run of `Watch` with `ctx` open ends with: the calls `deliver`
makes on the events of `input`, and `Watch` returned with their error or,
when none failed, waiting in its loop with the scanner stopped, the channel
empty and `unread input` left unread. -/
def Delivered (env : WatchEnv Review Push Err) (input : List UInt8) (s : WatchState Review Push Err) : Prop :=
  s.calls = (deliver env.cb [] (env.events input)).1 ∧
    s.main = afterInput env (deliver env.cb [] (env.events input)).2 ∧
    ((deliver env.cb [] (env.events input)).2 = none →
      s.reader = .exited ∧ s.lines = [] ∧ s.input = unread input)

/-- **`Watch` never blocks early.** A state with the invariant where no step
with `ctx` open is possible has delivered everything. -/
theorem WatchInv.stuck (hi : WatchInv env input s) (hstuck : ∀ s', ¬ OpenStep env s s') :
    Delivered env input s := by
  have hopen := hi.ctxOpen
  -- the reading goroutine is not about to scan: `Scan` always returns
  have hr : s.reader ≠ .scan := fun hr => by
    by_cases hs : ∃ line rest, scan s.input = .token line rest
    · obtain ⟨line, rest, hs⟩ := hs
      exact hstuck _ ⟨.scanToken hr hs, hopen⟩
    · exact hstuck _ ⟨.scanStop hr fun l r h => hs ⟨l, r, h⟩, hopen⟩
  cases hm : s.main with
  | loop =>
    have hl : s.lines = [] := by
      cases hl : s.lines with
      | nil => rfl
      | cons line rest => exact absurd ⟨.recv hm hl, hopen⟩ (hstuck _)
    have he : s.reader = .exited := by
      cases hrd : s.reader with
      | scan => exact absurd hrd hr
      | send line => exact absurd ⟨.send hrd (by simp [hl]), hopen⟩ (hstuck _)
      | exited => rfl
    have ht := hi.exited he
    have hd := hi.loop hm
    simp only [pending, hl, he, ReaderPc.held, ht, List.append_nil, List.filterMap_nil, deliver] at hd
    refine ⟨by rw [hd], by rw [hd, hm]; rfl, fun _ => ⟨he, hl, ?_⟩⟩
    rw [← hi.unread, unread_of_stop]
    intro line rest h
    rw [tokens_of_token h] at ht
    cases ht
  | returned r =>
    obtain ⟨err, hd, hm'⟩ := hi.returned r hm
    rw [hm] at hm'
    exact ⟨by rw [hd], by rw [hd, hm, hm'], by rw [hd]; nofun⟩

/-- **What `Watch` does while `ctx` stays open.** On every input, whatever
the decoders and the callback, every run of `Watch` in which `ctx` stays
open ends. It has then called the callback once for each event of the lines
the scanner yields, in order, up to and including the first call that
returned an error, and returned that error (nil for the stop sentinel);
when no call failed, `Watch` waits in its loop with the scanner stopped and
`unread input` left unread. -/
theorem watch_delivers (env : WatchEnv Review Push Err) (input : List UInt8) :
    Terminates (OpenStep env) (Delivered env input) (init input) :=
  terminates_of_measure (I := WatchInv env input) weight (fun _ _ _ h => h.weight_lt)
    (fun _ _ hi h => hi.step h) (fun _ hi hstuck => hi.stuck hstuck) _ (watchInv_init env input)

end WatchState

theorem WatchEnv.lineEvent_nil {Review Push Err : Type} (env : WatchEnv Review Push Err) : env.lineEvent [] = none := by
  simp [WatchEnv.lineEvent]

open WatchState in
/-- **Every line that fits is delivered.** On an input of lines that each
fit the scanner's buffer, the last one with or without its `\n`, every run
of `Watch` with `ctx` open ends having called the callback once for the
event of each line that makes one, in order, up to and including the first
call that returned an error, and returned that error (nil for the stop
sentinel); when no call failed, the whole input was read. -/
theorem watch_delivers_lines {Review Push Err : Type} (env : WatchEnv Review Push Err)
    {ls : List (List UInt8)} {last : List UInt8} (hls : ∀ l ∈ ls ++ [last], 10 ∉ l ∧ l.length < maxScanTokenSize) :
    Terminates (OpenStep env) (fun s =>
      s.calls = (deliver env.cb [] (((ls ++ [last]).map dropCR).filterMap env.lineEvent)).1 ∧
      s.main = afterInput env (deliver env.cb [] (((ls ++ [last]).map dropCR).filterMap env.lineEvent)).2 ∧
      ((deliver env.cb [] (((ls ++ [last]).map dropCR).filterMap env.lineEvent)).2 = none → s.input = []))
      (init (ls.flatMap (· ++ [10]) ++ last)) := by
  have hl := hls last (List.mem_append_right _ (List.mem_singleton_self _))
  have hfit : ∀ l ∈ ls, 10 ∉ l ∧ l.length < maxScanTokenSize := fun l h => hls l (List.mem_append_left _ h)
  have hev : env.events (ls.flatMap (· ++ [10]) ++ last) = ((ls ++ [last]).map dropCR).filterMap env.lineEvent := by
    rw [WatchEnv.events, tokens_lines hfit, tokens_last hl.1 hl.2, List.map_append]
    split_ifs with h0
    · subst h0; simp [dropCR, env.lineEvent_nil]
    · rfl
  refine (watch_delivers env _).mono fun s ⟨hc, hm, hn⟩ => ?_
  rw [hev] at hc hm hn
  exact ⟨hc, hm, fun h => (hn h).2.2.trans ((unread_lines hfit last).trans (unread_last hl.1 hl.2))⟩

open WatchState in
/-- **A line too long ends the delivery.** When the input holds, after lines
that fit, a line of `maxScanTokenSize` bytes or more, every run of `Watch`
with `ctx` open ends having called the callback for the lines before it
only. When none of those calls failed, `Watch` waits in its loop for good,
with the scanner stopped and the long line and everything after it unread,
whatever that holds. -/
theorem watch_stops_at_long_line {Review Push Err : Type} (env : WatchEnv Review Push Err)
    {ls : List (List UInt8)} (hls : ∀ l ∈ ls, 10 ∉ l ∧ l.length < maxScanTokenSize) {long : List UInt8}
    (hl : 10 ∉ long) (hlong : maxScanTokenSize ≤ long.length) (rest : List UInt8) :
    Terminates (OpenStep env) (fun s =>
      s.calls = (deliver env.cb [] ((ls.map dropCR).filterMap env.lineEvent)).1 ∧
      ((deliver env.cb [] ((ls.map dropCR).filterMap env.lineEvent)).2 = none →
        s.main = .loop ∧ s.reader = .exited ∧ s.input = long ++ 10 :: rest))
      (init (ls.flatMap (· ++ [10]) ++ (long ++ 10 :: rest))) := by
  have hstop := scan_long_ne hl hlong (10 :: rest)
  have hev : env.events (ls.flatMap (· ++ [10]) ++ (long ++ 10 :: rest)) =
      (ls.map dropCR).filterMap env.lineEvent := by
    rw [WatchEnv.events, tokens_lines hls, tokens_of_stop hstop, List.append_nil]
  refine (watch_delivers env _).mono fun s ⟨hc, hm, hn⟩ => ?_
  rw [hev] at hc hm hn
  refine ⟨hc, fun h => ⟨by rw [hm, h]; rfl, (hn h).1, (hn h).2.2.trans ?_⟩⟩
  rw [unread_lines hls, unread_of_stop hstop]

/-- The line `{"event":"push"}`, in bytes. -/
def pushLineA : List UInt8 := "\x7b\"event\":\"push\"\x7d".data.map fun c => c.toNat.toUInt8

/-- A decoder that reads `pushLineA` as a push event and rejects every other
line, an ASCII `strings.ToLower`, and a callback that accepts every event. -/
def watchEnvA : WatchEnv Unit Unit String where
  eventType line := if line = pushLineA then .ok "push" else .error "invalid character"
  reviewEvent _ := .error "invalid character"
  pushEvent _ := .ok ()
  toLower s := ⟨s.data.map Char.toLower⟩
  cb _ _ := none
  isStop _ := false
  ctxErr := "context deadline exceeded"

/-- A line of `maxScanTokenSize` spaces. -/
def spacesA : List UInt8 := List.replicate maxScanTokenSize 32

theorem watch_stops_at_long_line_spacesA :
    watchEnvA.lineEvent pushLineA = some (.push ()) ∧
    (∀ l ∈ ([] : List (List UInt8)), 10 ∉ l ∧ l.length < maxScanTokenSize) ∧ 10 ∉ spacesA ∧
    maxScanTokenSize ≤ spacesA.length ∧
    Terminates (WatchState.OpenStep watchEnvA) (fun s =>
      s.calls = (deliver watchEnvA.cb [] ((([] : List (List UInt8)).map dropCR).filterMap watchEnvA.lineEvent)).1 ∧
      ((deliver watchEnvA.cb [] ((([] : List (List UInt8)).map dropCR).filterMap watchEnvA.lineEvent)).2 = none →
        s.main = .loop ∧ s.reader = .exited ∧ s.input = spacesA ++ 10 :: pushLineA))
      (WatchState.init (([] : List (List UInt8)).flatMap (· ++ [10]) ++ (spacesA ++ 10 :: pushLineA))) :=
  have hl : 10 ∉ spacesA := by simp [spacesA, List.mem_replicate]
  have hlong : maxScanTokenSize ≤ spacesA.length := by simp [spacesA]
  ⟨by decide, fun _ h => absurd h (List.not_mem_nil _), hl, hlong, watch_stops_at_long_line watchEnvA (fun _ h => absurd h (List.not_mem_nil _)) hl hlong pushLineA⟩

theorem watch_delivers_lines_pushA :
    (∀ l ∈ [pushLineA] ++ [pushLineA], 10 ∉ l ∧ l.length < maxScanTokenSize) ∧
    Terminates (WatchState.OpenStep watchEnvA) (fun s =>
      s.calls = (deliver watchEnvA.cb [] ((([pushLineA] ++ [pushLineA]).map dropCR).filterMap watchEnvA.lineEvent)).1 ∧
      s.main = WatchState.afterInput watchEnvA
        (deliver watchEnvA.cb [] ((([pushLineA] ++ [pushLineA]).map dropCR).filterMap watchEnvA.lineEvent)).2 ∧
      ((deliver watchEnvA.cb [] ((([pushLineA] ++ [pushLineA]).map dropCR).filterMap watchEnvA.lineEvent)).2 = none →
        s.input = []))
      (WatchState.init ([pushLineA].flatMap (· ++ [10]) ++ pushLineA)) :=
  have hls : ∀ l ∈ [pushLineA] ++ [pushLineA], 10 ∉ l ∧ l.length < maxScanTokenSize := by decide
  ⟨hls, watch_delivers_lines watchEnvA hls⟩

end Lookout

import Lookout.Store
/-!
# Lookout — `HandleEvent`, its per-kind handlers, and `post`

One invocation of `HandleEvent`, as the list of effects it has on the
stores and the poster and how it ends. `Save` first; a `processed` or
`failed` event is skipped; otherwise the per-kind handler validates the
event, resolves its configuration (`eventConfig`), runs the fan-out, and
calls `post`, which filters the comments through the server's
`CommentOperator`, marks the event `posting`, calls `Poster.Post` and saves
what it posted; last the event's status becomes `processed` or `failed`.

The server's `CommentOperator` is `MemCommentOperator`, whose ledger is the
stores' `comments`, or any other implementation, whose answers are inputs of
the invocation as the poster's and the analyzers' are. `post_effects` and
`handleEvent_effects` say once what an invocation can do, whatever the
operator answers, and every property of runs is derived from them.
`handleEvent_push_panics` is what happens to a push event with comments on
`MemCommentOperator`: its type assertion panics before anything is posted,
and the event keeps its status.
-/

namespace Lookout

open scoped List

/-- A `CommentOperator`, as `post` finds it: what `Posted` says of a comment,
and how `Save` of a comment with its analyzer's name ends. -/
structure CommentOp where
  posted : Comment → Outcome Bool
  save : Comment → String → Outcome Unit

/-- The `CommentOperator` a `Server` is built with. -/
inductive CommentOperator where
  /-- `MemCommentOperator`, whose ledger is the stores' `comments`. -/
  | mem
  /-- Any other implementation (`NewServer` installs `NoopCommentOperator`
  when `Options.CommentOp` is unset): what it answers in an invocation is
  `Answers.comments`. -/
  | other
  deriving DecidableEq

/-- The parts of `Server` the handler reads. -/
structure Server where
  registry : Registry
  /-- The YAML decoder `parseConfig` calls. -/
  decode : String → Except String (List AnalyzerConfig)
  exitOnError : Bool
  /-- `s.commentOp`. -/
  commentOp : CommentOperator

/-- What the collaborators of one invocation answer. -/
structure Answers where
  /-- `e.Validate()`. -/
  validate : Except String Unit
  /-- The `.lookout.yml` the data service finds at the head revision. -/
  repoFile : ConfigFile
  /-- `OrganizationOperator.Config`. -/
  orgConfig : Except String String
  /-- What `concurrentRequest` returns on the merged configuration. -/
  request : ConfigMap → Except String (List AnalyzerComments)
  /-- What `Poster.Post` does. -/
  post : Outcome Unit
  /-- What `s.commentOp` answers, when it is not `MemCommentOperator`. -/
  comments : CommentOp

/-- `MemCommentOperator`, on the ledger of `st`. -/
def memCommentOp (st : Store) (e : Event) : CommentOp := ⟨memPosted st e, fun _ _ => memCommentSave e⟩

/-- The calls `post` makes on `s.commentOp`, on the stores `st` as the
invocation finds them. -/
def Server.commentOpAt (srv : Server) (ans : Answers) (st : Store) (e : Event) : CommentOp :=
  match srv.commentOp with
  | .mem => memCommentOp st e
  | .other => ans.comments

/-- The loop of `post` that saves each posted comment under its analyzer's
name; an error is logged and the loop goes on. -/
def saveAll (op : CommentOp) (e : Event) : List (AnalyzerConfig × Comment) → List Effect × Outcome Unit
  | [] => ([], .ok ())
  | (cfg, c) :: rest =>
    match op.save c cfg.name with
    | .ok () => let r := saveAll op e rest; (.comment e.internalID c :: r.1, r.2)
    | .err _ => saveAll op e rest
    | .panic => ([], .panic)

/-- `Server.post`: `answer` is what `Poster.Post` does. -/
def post (op : CommentOp) (st : Store) (answer : Outcome Unit) (e : Event)
    (comments : List AnalyzerComments) (safe : Bool) : List Effect × Outcome Unit :=
  match filterGroups op.posted (dedup comments) with
  | .err err => ([], .err err)
  | .panic => ([], .panic)
  | .ok comments =>
    if comments.isEmpty then ([], .ok ()) else
      match memUpdateStatus st e .posting with
      | .error err => ([], .err err)
      | .ok upd =>
        let call : PostCall := ⟨e, comments, safe⟩
        match answer with
        | .err err => ([upd, .post call], .err err)
        | .panic => ([upd, .post call], .panic)
        | .ok () =>
          let r := saveAll op e (pairs comments)
          ([upd, .post call, .delivered call] ++ r.1, r.2)

/-- The body `Server.HandleReview` and `Server.HandlePush` share: they differ
only in the analyzer call of their `send`, which is inside `request`. The
statuses they report to the poster are not modelled. -/
def handleKind (srv : Server) (ans : Answers) (st : Store) (e : Event) (safePosting : Bool) :
    List Effect × Outcome Unit :=
  match ans.validate with
  | .error err => ([], .err err)
  | .ok () =>
    match eventConfig srv.decode srv.registry e.head ans.repoFile ans.orgConfig with
    | .error err => ([], .err err)
    | .ok conf =>
      match ans.request conf with
      | .error err => ([], .err err)
      | .ok comments =>
        let r := post (srv.commentOpAt ans st e) st ans.post e comments safePosting
        (r.1, match r.2 with
          | .err err => .err s!"posting analysis failed: {err}"
          | res => res)

/-- `Server.HandleReview`. -/
def handleReview (srv : Server) (ans : Answers) (st : Store) (e : Event) (safePosting : Bool) :
    List Effect × Outcome Unit :=
  handleKind srv ans st e safePosting

/-- `Server.HandlePush`. -/
def handlePush (srv : Server) (ans : Answers) (st : Store) (e : Event) (safePosting : Bool) :
    List Effect × Outcome Unit :=
  handleKind srv ans st e safePosting

/-- The type switch of `HandleEvent`. -/
def dispatch (srv : Server) (ans : Answers) (st : Store) (e : Event) (safePosting : Bool) :
    List Effect × Outcome Unit :=
  match e.kind with
  | .review => handleReview srv ans st e safePosting
  | .push => handlePush srv ans st e safePosting
  | .other => ([], .ok ())

/-- `Server.HandleEvent`. -/
def handleEvent (srv : Server) (ans : Answers) (st : Store) (e : Event) : List Effect × Outcome Unit :=
  let saved := memSave st e
  if saved.1 = .processed then (saved.2, .ok ()) else
  if saved.1 = .failed then (saved.2, .ok ()) else
    let st₁ := st.applyAll saved.2
    let r := dispatch srv ans st₁ e (saved.1 == .posting)
    match r.2 with
    | .panic => (saved.2 ++ r.1, .panic)
    | res =>
      let final := match res with
        | .ok () => EventStatus.processed
        | _ => .failed
      let ret := if srv.exitOnError then res else .ok ()
      match memUpdateStatus (st₁.applyAll r.1) e final with
      | .error _ => (saved.2 ++ r.1, ret)
      | .ok upd => (saved.2 ++ r.1 ++ [upd], ret)

/-! ## What one invocation can do -/

/-- The effects `post` can have on `e`, with `op` its comment operator:
none; or `posting`, then one `Post` call with at least one comment, each of
which `Posted` answered false for; and, when that call returns nil, some of
those comments saved in order, all of them when every `Save` succeeds. -/
def PostEffects (e : Event) (safe : Bool) (op : CommentOp) (effs : List Effect) : Prop :=
  effs = [] ∨ ∃ call rest, effs = .status e.id .posting :: .post call :: rest ∧
    call.event = e ∧ call.safe = safe ∧ pairs call.comments ≠ [] ∧
    (∀ p ∈ pairs call.comments, op.posted p.2 = .ok false) ∧
    (rest = [] ∨ ∃ cs, rest = .delivered call :: cs.map (.comment e.internalID) ∧
      cs <+ (pairs call.comments).map Prod.snd ∧
      ((∀ p ∈ pairs call.comments, op.save p.2 p.1.name = .ok ()) → cs = (pairs call.comments).map Prod.snd))

variable {st : Store} {e : Event} {op : CommentOp} {srv : Server} {ans : Answers}

theorem commentOpAt_mem (hm : srv.commentOp = .mem) : srv.commentOpAt ans st e = memCommentOp st e := by
  simp [Server.commentOpAt, hm]

theorem posts_saveAll (op : CommentOp) (e : Event) (ps : List (AnalyzerConfig × Comment)) :
    posts (saveAll op e ps).1 = [] := by
  induction ps with
  | nil => rfl
  | cons p ps ih => unfold saveAll; split <;> simp [ih]

/-- The saving loop saves some of the comments in order, stops at a panic,
and saves all of them when every `Save` succeeds. -/
theorem saveAll_effects (op : CommentOp) (e : Event) : ∀ ps : List (AnalyzerConfig × Comment),
    ∃ cs, (saveAll op e ps).1 = cs.map (.comment e.internalID) ∧ cs <+ ps.map Prod.snd ∧
      ((∀ p ∈ ps, op.save p.2 p.1.name = .ok ()) → cs = ps.map Prod.snd)
  | [] => ⟨[], rfl, .slnil, fun _ => rfl⟩
  | (cfg, c) :: ps => by
    obtain ⟨cs, h1, h2, h3⟩ := saveAll_effects op e ps
    have hrest (h : ∀ p ∈ (cfg, c) :: ps, op.save p.2 p.1.name = .ok ()) : cs = ps.map Prod.snd :=
      h3 fun p hp => h p (.tail _ hp)
    cases hs : op.save c cfg.name with
    | ok u => exact ⟨c :: cs, by simp [saveAll, hs, h1], h2.cons₂ _, fun h => by rw [hrest h]; rfl⟩
    | err m => exact ⟨cs, by simp [saveAll, hs, h1], h2.cons _, fun h => by simpa [hs] using h _ (.head _)⟩
    | panic => exact ⟨[], by simp [saveAll, hs], List.nil_sublist _, fun h => by simpa [hs] using h _ (.head _)⟩

theorem memUpdateStatus_ok {s : EventStatus} {u : Effect} (h : memUpdateStatus st e s = .ok u) :
    u = .status e.id s := by
  unfold memUpdateStatus at h; split at h <;> simp_all

/-- **What `post` can do**, whatever its comment operator answers. -/
theorem post_effects (op : CommentOp) (a : Outcome Unit) (cs : List AnalyzerComments) (safe : Bool) :
    PostEffects e safe op (post op st a e cs safe).1 := by
  unfold post
  split
  · exact .inl rfl
  · exact .inl rfl
  rename_i gs hgs
  obtain ⟨hne, hfresh⟩ := filterGroups_fresh hgs
  split
  · exact .inl rfl
  rename_i hemp
  split
  · exact .inl rfl
  rename_i upd hu
  rw [memUpdateStatus_ok hu]
  have hpairs : pairs gs ≠ [] := fun h => hemp (List.isEmpty_iff.2 ((pairs_eq_nil_iff hne).1 h))
  refine .inr ⟨⟨e, gs, safe⟩, ?_⟩
  cases a with
  | err m | panic => exact ⟨_, rfl, rfl, rfl, hpairs, hfresh, .inl rfl⟩
  | ok u =>
    obtain ⟨saved, h1, h2, h3⟩ := saveAll_effects op e (pairs gs)
    exact ⟨_, rfl, rfl, rfl, hpairs, hfresh, .inr ⟨saved, by rw [h1]; rfl, h2, h3⟩⟩

/-- A pass whose every lookup panics panics on any comment. -/
theorem filterGroups_panic {fn : Comment → Outcome Bool} (hfn : ∀ c, fn c = .panic) :
    ∀ gs : List AnalyzerComments, pairs gs ≠ [] → filterGroups fn gs = .panic
  | [], h => absurd rfl h
  | ⟨cfg, []⟩ :: gs, h => by
    simp only [filterGroups, filterComments]
    rw [filterGroups_panic hfn gs (by simpa using h)]
  | ⟨cfg, c :: cs⟩ :: gs, _ => by simp [filterGroups, filterComments, hfn]

/-- On anything but a review, `MemCommentOperator.Posted` panics. -/
theorem memPosted_not_review (he : e.kind ≠ .review) (c : Comment) : memPosted st e c = .panic := by
  unfold memPosted; split <;> simp_all

/-- **What `Posted` false means on `MemCommentOperator`**: the event is a
review, and the ledger holds no comment with the same triple. -/
theorem memPosted_eq_false {c : Comment} (h : memPosted st e c = .ok false) :
    e.kind = .review ∧ c.triple ∉ (st.ledger e.internalID).map Comment.triple := by
  by_cases he : e.kind = .review
  · rw [memPosted_review he] at h
    exact ⟨he, by simpa using Outcome.ok.inj h⟩
  · rw [memPosted_not_review he] at h
    cases h

theorem saved_memSave (iid : String) : saved iid (memSave st e).2 = [] := by
  unfold memSave; split <;> rfl

/-- `Save` adds nothing to the ledger. -/
theorem ledger_memSave (iid : String) : (st.applyAll (memSave st e).2).ledger iid = st.ledger iid := by
  rw [ledger_applyAll, saved_memSave, List.append_nil]

theorem dispatch_effects (srv : Server) (ans : Answers) (st : Store) (e : Event) (safe : Bool) :
    PostEffects e safe (srv.commentOpAt ans st e) (dispatch srv ans st e safe).1 := by
  have hk : PostEffects e safe (srv.commentOpAt ans st e) (handleKind srv ans st e safe).1 := by
    unfold handleKind
    split
    · exact .inl rfl
    split
    · exact .inl rfl
    split
    · exact .inl rfl
    exact post_effects _ _ _ _
  unfold dispatch
  split
  · exact hk
  · exact hk
  · exact .inl rfl

/-- **What one invocation can do.** `Save`'s effect; then, unless the event
was `processed` or `failed`, what `post` can do with the comment operator as
it finds the stores after `Save`, with `safe` set exactly when `Save` saw
`posting`; then at most one terminal status. -/
theorem handleEvent_effects (srv : Server) (ans : Answers) (st : Store) (e : Event) :
    ∃ body fin, (handleEvent srv ans st e).1 = (memSave st e).2 ++ body ++ fin ∧
      PostEffects e ((memSave st e).1 == .posting) (srv.commentOpAt ans (st.applyAll (memSave st e).2) e) body ∧
      ((memSave st e).1 = .processed ∨ (memSave st e).1 = .failed → body = [] ∧ fin = []) ∧
      (fin = [] ∨ fin = [.status e.id .processed] ∨ fin = [.status e.id .failed]) := by
  unfold handleEvent
  by_cases h1 : (memSave st e).1 = .processed
  · rw [if_pos h1]; exact ⟨[], [], by simp, .inl rfl, fun _ => ⟨rfl, rfl⟩, .inl rfl⟩
  rw [if_neg h1]
  by_cases h2 : (memSave st e).1 = .failed
  · rw [if_pos h2]; exact ⟨[], [], by simp, .inl rfl, fun _ => ⟨rfl, rfl⟩, .inl rfl⟩
  rw [if_neg h2]
  have hd := dispatch_effects srv ans (st.applyAll (memSave st e).2) e ((memSave st e).1 == .posting)
  have hterm : ¬((memSave st e).1 = .processed ∨ (memSave st e).1 = .failed) := by tauto
  dsimp only
  generalize dispatch srv ans (st.applyAll (memSave st e).2) e ((memSave st e).1 == .posting) = r at hd ⊢
  obtain ⟨body, res⟩ := r
  refine ⟨body, ?_⟩
  cases res with
  | panic => exact ⟨[], by simp, hd, (absurd · hterm), .inl rfl⟩
  | ok u | err m =>
    dsimp only
    split
    · exact ⟨[], by simp, hd, (absurd · hterm), .inl rfl⟩
    · rename_i upd hu
      rw [memUpdateStatus_ok hu]
      exact ⟨_, rfl, hd, (absurd · hterm), by simp⟩

/-- After `Save` the event is stored, with the status `Save` returned. -/
theorem lookup_memSave : (st.applyAll (memSave st e).2).events.lookup e.id = some (memSave st e).1 := by
  unfold memSave
  split <;> rename_i h <;> simp [lookup_applyAll, h]

/-- **How a completed invocation leaves its event.** When `Save` saw neither
`processed` nor `failed`, the event ends `processed` if the per-kind handler
returned nil and `failed` if it returned an error; if it panicked, so does
the invocation. -/
theorem handleEvent_status (srv : Server) (ans : Answers)
    (hp : (memSave st e).1 ≠ .processed) (hf : (memSave st e).1 ≠ .failed) :
    let r := dispatch srv ans (st.applyAll (memSave st e).2) e ((memSave st e).1 == .posting)
    (r.2 = .ok () → (st.applyAll (handleEvent srv ans st e).1).events.lookup e.id = some .processed) ∧
    (∀ m, r.2 = .err m → (st.applyAll (handleEvent srv ans st e).1).events.lookup e.id = some .failed) ∧
    (r.2 = .panic → (handleEvent srv ans st e).2 = .panic) := by
  intro r
  have hstored (s' : EventStatus) :
      memUpdateStatus ((st.applyAll (memSave st e).2).applyAll r.1) e s' = .ok (.status e.id s') := by
    rw [memUpdateStatus, lookup_applyAll, lookup_memSave]
    cases (writes e.id r.1).getLast? <;> rfl
  unfold handleEvent
  rw [if_neg hp, if_neg hf]
  refine ⟨fun h => ?_, fun m h => ?_, fun h => ?_⟩
  · simp only [show dispatch srv ans _ e _ = r from rfl, h, hstored]
    simp [lookup_applyAll]
  · simp only [show dispatch srv ans _ e _ = r from rfl, h, hstored]
    simp [lookup_applyAll]
  · simp only [show dispatch srv ans _ e _ = r from rfl, h]

/-- Dedup keeps a comment whenever there is one. -/
theorem pairs_dedup_ne_nil {cs : List AnalyzerComments} (h : pairs cs ≠ []) : pairs (dedup cs) ≠ [] := by
  rw [dedup, pairs_dedupFrom]
  obtain ⟨p, ps, hps⟩ := List.exists_cons_of_ne_nil h
  simp [hps, keepFirst]

/-- **A push event with comments panics in `post`.** `MemCommentOperator`
asserts that the event is a `*lookout.ReviewEvent`; on a push event that
reaches `post` with at least one comment, the first `Posted` panics. Nothing
is posted, no comment is saved, and the event keeps the status `Save` gave
it. -/
theorem handleEvent_push_panics {conf : ConfigMap} {cs : List AnalyzerComments}
    (hm : srv.commentOp = .mem) (he : e.kind = .push)
    (hp : (memSave st e).1 ≠ .processed) (hf : (memSave st e).1 ≠ .failed) (hv : ans.validate = .ok ())
    (hc : eventConfig srv.decode srv.registry e.head ans.repoFile ans.orgConfig = .ok conf)
    (hr : ans.request conf = .ok cs) (hd : pairs cs ≠ []) :
    handleEvent srv ans st e = ((memSave st e).2, .panic) := by
  have hpost : ∀ st' a safe, post (memCommentOp st' e) st' a e cs safe = ([], .panic) := by
    intro st' a safe
    unfold post
    rw [show (memCommentOp st' e).posted = memPosted st' e from rfl,
      filterGroups_panic (memPosted_not_review (by simp [he])) _ (pairs_dedup_ne_nil hd)]
  unfold handleEvent
  simp [hp, hf, dispatch, he, handlePush, handleKind, hv, hc, hr, commentOpAt_mem hm, hpost]

/-- `registryA`'s server, reading configurations with `decodeA`, on
`MemCommentOperator`. -/
def serverSetupA : Server := ⟨registryA, decodeA, false, .mem⟩

/-- A push event. -/
def pushA : Event := ⟨.push, "1", "1", "HEAD"⟩

/-- A review. -/
def reviewA : Event := ⟨.review, "1", "1", "HEAD"⟩

/-- A comment. -/
def commentA : Comment := ⟨"main.go", 1, "x", 0⟩

/-- A comment operator that keeps nothing: `Posted` answers false and `Save`
returns nil, whatever the comment. -/
def keepsNothingA : CommentOp := ⟨fun _ => .ok false, fun _ _ => .ok ()⟩

/-- No repository file, an empty organization config, `a` answering
`commentA`, and a comment operator that keeps nothing. -/
def answersA : Answers := ⟨.ok (), .content "", .ok "", fun _ => .ok [⟨serverA, [commentA]⟩], .ok (), keepsNothingA⟩

theorem handleEvent_push_panics_pushA :
    serverSetupA.commentOp = .mem ∧ pushA.kind = .push ∧ (memSave Store.empty pushA).1 ≠ .processed ∧
      (memSave Store.empty pushA).1 ≠ .failed ∧ answersA.validate = .ok () ∧
      eventConfig serverSetupA.decode serverSetupA.registry pushA.head answersA.repoFile answersA.orgConfig =
        .ok [("a", serverA)] ∧
      answersA.request [("a", serverA)] = .ok [⟨serverA, [commentA]⟩] ∧ pairs [⟨serverA, [commentA]⟩] ≠ [] ∧
      handleEvent serverSetupA answersA Store.empty pushA = ([.status "1" .new], .panic) :=
  ⟨rfl, rfl, by decide, by decide, rfl, rfl, rfl, by simp,
    handleEvent_push_panics rfl rfl (by decide) (by decide) rfl rfl rfl (by simp)⟩

end Lookout

import Lookout.Comments
/-!
# Lookout — the in-memory event store and comment ledger

`MemEventOperator` keeps one status per event ID, `MemCommentOperator` the
comments posted under each `InternalID`. Every write either makes, and every
call of `Poster.Post`, is an `Effect`: the handler's run is then the list of
its effects, and a crash after `k` of them leaves the store
`applyAll (effs.take k)`. `lookup_applyAll` and `ledger_applyAll` read the
stores back off the effects: an event holds the last status written for it,
and a ledger is what it held followed by every comment saved under it.
-/

namespace Lookout

/-- Modelled from the spec: `models.EventStatus` is not among the sources. -/
inductive EventStatus where
  | new
  | pending
  | posting
  | processed
  | failed
  deriving DecidableEq, Repr

/-- The concrete type of a `lookout.Event`: the two `HandleEvent` handles,
and any other. -/
inductive EventKind where
  | review
  | push
  | other
  deriving DecidableEq, Repr

/-- Modelled from the spec: `lookout.Event` is not among the sources. What
the handler and the stores read of it: its kind, `ID().String()`,
`InternalID`, and the head revision `getConfig` names in its error. -/
structure Event where
  kind : EventKind
  id : String
  internalID : String
  head : String
  deriving DecidableEq, Repr

/-- A call of `Poster.Post(ctx, e, comments, safe)`. -/
structure PostCall where
  event : Event
  comments : List AnalyzerComments
  safe : Bool

/-- The triples a `Post` call hands the poster. -/
def PostCall.triples (call : PostCall) : List Triple := (pairs call.comments).map (·.2.triple)

/-- What the handler does to the world outside it, one call at a time. -/
inductive Effect where
  /-- `MemEventOperator` stores a status for an event ID. -/
  | status (id : String) (st : EventStatus)
  /-- `CommentOperator.Save` stores a comment under an `InternalID`. -/
  | comment (internalID : String) (c : Comment)
  /-- `Poster.Post` is called. -/
  | post (call : PostCall)
  /-- ... and returns nil. -/
  | delivered (call : PostCall)

/-- The maps of a `MemEventOperator` and a `MemCommentOperator`. -/
structure Store where
  events : List (String × EventStatus)
  comments : List (String × List Comment)

namespace Store

/-- `NewMemEventOperator()` and `NewMemCommentOperator()`. -/
def empty : Store := ⟨[], []⟩

/-- `o.comments[iid]`: nil when absent. -/
def ledger (st : Store) (iid : String) : List Comment := (st.comments.lookup iid).getD []

/-- What one effect does to the stores. -/
def apply (st : Store) : Effect → Store
  | .status id s => { st with events := setKey id s st.events }
  | .comment iid c => { st with comments := setKey iid (st.ledger iid ++ [c]) st.comments }
  | .post _ | .delivered _ => st

/-- The stores after a list of effects. -/
def applyAll (st : Store) (effs : List Effect) : Store := effs.foldl apply st

end Store

/-! ## The operators -/

/-- `MemEventOperator.Save`: the stored status, or `new`, stored, when the
event is not there. -/
def memSave (st : Store) (e : Event) : EventStatus × List Effect :=
  match st.events.lookup e.id with
  | some s => (s, [])
  | none => (.new, [.status e.id .new])

/-- `MemEventOperator.UpdateStatus`. -/
def memUpdateStatus (st : Store) (e : Event) (s : EventStatus) : Except String Effect :=
  match st.events.lookup e.id with
  | none => .error "event not found"
  | some _ => .ok (.status e.id s)

/-- `MemCommentOperator.Save`: `e.(*lookout.ReviewEvent)` panics on any
other event; on a review the append is the effect `.comment`. -/
def memCommentSave (e : Event) : Outcome Unit :=
  match e.kind with
  | .review => .ok ()
  | _ => .panic

/-- `MemCommentOperator.Posted`; the same type assertion. -/
def memPosted (st : Store) (e : Event) (c : Comment) : Outcome Bool :=
  match e.kind with
  | .review =>
    match st.comments.lookup e.internalID with
    | none => .ok false
    | some comments => .ok (comments.any fun sc => sc.file == c.file && sc.line == c.line && sc.text == c.text)
  | _ => .panic

/-! ## The stores, read off the effects -/

/-- The status an effect writes for `id`, if any. -/
def Effect.writeOf (id : String) : Effect → Option EventStatus
  | .status i s => if i = id then some s else none
  | _ => none

/-- The comment an effect saves under `iid`, if any. -/
def Effect.savedOf (iid : String) : Effect → Option Comment
  | .comment i c => if i = iid then some c else none
  | _ => none

/-- The `Post` call an effect makes, if any. -/
def Effect.postOf : Effect → Option PostCall
  | .post call => some call
  | _ => none

/-- Every `Post` call of an effect list, in order. -/
def posts (effs : List Effect) : List PostCall := effs.filterMap Effect.postOf

/-- Every status written for `id`, in order. -/
def writes (id : String) (effs : List Effect) : List EventStatus := effs.filterMap (Effect.writeOf id)

variable {st : Store} {effs effs' : List Effect} {id iid : String}

@[simp] theorem writes_nil : writes id [] = [] := rfl

@[simp] theorem writes_append : writes id (effs ++ effs') = writes id effs ++ writes id effs' :=
  List.filterMap_append _ _ _

@[simp] theorem writes_cons (x : Effect) : writes id (x :: effs) = (x.writeOf id).toList ++ writes id effs := by
  cases h : x.writeOf id <;> simp [writes, List.filterMap_cons, h]

@[simp] theorem writeOf_status (i : String) (s : EventStatus) :
    (Effect.status i s).writeOf id = if i = id then some s else none := rfl

@[simp] theorem writeOf_comment (c : Comment) : (Effect.comment iid c).writeOf id = none := rfl
@[simp] theorem writeOf_post (call : PostCall) : (Effect.post call).writeOf id = none := rfl
@[simp] theorem writeOf_delivered (call : PostCall) : (Effect.delivered call).writeOf id = none := rfl

@[simp] theorem posts_nil : posts [] = [] := rfl

@[simp] theorem posts_append : posts (effs ++ effs') = posts effs ++ posts effs' := List.filterMap_append _ _ _

@[simp] theorem posts_cons (x : Effect) : posts (x :: effs) = x.postOf.toList ++ posts effs := by
  cases h : x.postOf <;> simp [posts, List.filterMap_cons, h]

@[simp] theorem postOf_post (call : PostCall) : (Effect.post call).postOf = some call := rfl
@[simp] theorem postOf_status (s : EventStatus) : (Effect.status id s).postOf = none := rfl
@[simp] theorem postOf_comment (c : Comment) : (Effect.comment iid c).postOf = none := rfl
@[simp] theorem postOf_delivered (call : PostCall) : (Effect.delivered call).postOf = none := rfl

@[simp] theorem applyAll_nil : st.applyAll [] = st := rfl

@[simp] theorem applyAll_append : st.applyAll (effs ++ effs') = (st.applyAll effs).applyAll effs' :=
  List.foldl_append _ _ _ _

theorem applyAll_concat (x : Effect) : st.applyAll (effs ++ [x]) = (st.applyAll effs).apply x := by
  simp [Store.applyAll]

/-- **An event holds the last status written for it.** -/
theorem lookup_applyAll : (st.applyAll effs).events.lookup id = (writes id effs).getLast?.or (st.events.lookup id) := by
  induction effs using List.reverseRecOn with
  | nil => rfl
  | append_singleton effs x ih =>
    rw [applyAll_concat, writes_append, List.getLast?_append]
    cases x with
    | status i s =>
      by_cases h : i = id
      · subst h; simp [Store.apply, lookup_setKey]
      · simp [Store.apply, lookup_setKey, Ne.symm h, h, ih]
    | comment | post | delivered => simp [Store.apply, ih]

/-- The comments an effect list saves under `iid`, in order. -/
def saved (iid : String) (effs : List Effect) : List Comment := effs.filterMap (Effect.savedOf iid)

@[simp] theorem saved_append : saved iid (effs ++ effs') = saved iid effs ++ saved iid effs' :=
  List.filterMap_append _ _ _

/-- **A ledger only grows**: what it held, then every comment saved under it. -/
theorem ledger_applyAll : (st.applyAll effs).ledger iid = st.ledger iid ++ saved iid effs := by
  induction effs using List.reverseRecOn with
  | nil => simp [saved]
  | append_singleton effs x ih =>
    rw [applyAll_concat, saved_append, ← List.append_assoc, ← ih]
    cases x with
    | comment i c =>
      by_cases h : i = iid
      · subst h; simp [Store.apply, Store.ledger, lookup_setKey, saved, Effect.savedOf]
      · simp [Store.apply, Store.ledger, lookup_setKey, saved, Effect.savedOf, Ne.symm h, h]
    | status | post | delivered => simp [Store.apply, Store.ledger, saved, Effect.savedOf]

/-- `MemCommentOperator.Posted`'s comparison is equality of triples. -/
theorem triple_beq (a b : Comment) :
    (a.file == b.file && a.line == b.line && a.text == b.text) = decide (a.triple = b.triple) := by
  simp only [Comment.triple, Prod.mk.injEq, Bool.decide_and, beq_iff_eq, Bool.and_assoc]
  rfl

/-- **The ledger answers by triple.** For a review, `Posted` reports whether
a comment with the same `(file, line, text)` is stored under its `InternalID`. -/
theorem memPosted_review {e : Event} (he : e.kind = .review) (c : Comment) :
    memPosted st e c = .ok (decide (c.triple ∈ (st.ledger e.internalID).map Comment.triple)) := by
  simp only [memPosted, he, Store.ledger]
  split <;> rename_i h
  · simp [h]
  · simp only [h, Option.getD_some, triple_beq, List.any_eq, List.mem_map, decide_eq_true_eq]

end Lookout

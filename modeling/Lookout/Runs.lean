import Lookout.Handler
/-!
# Lookout — runs of `HandleEvent`, crashes included

A run is a sequence of invocations over the same stores, one after another,
each of which the process may die in after any of its effects. Whatever the
server's `CommentOperator` answers, two properties hold of every run, on
reviews and push events alike:

* `status_writes`: the statuses written for an event are `new`, then
  `posting` any number of times, then at most one of `processed` and
  `failed`, and the store holds the last of them;
* `safe_after_post`: a `Post` call for an event that follows an earlier one,
  even one the process died in, is made with `safe`.

On `MemCommentOperator` a third holds, `delivered_once`: when no invocation
is cut short, no triple a `Post` call delivered is handed to a later `Post`
call under the same `InternalID`, because the ledger holds all it
delivered.

Each is an invariant of the trace so far and the stores it left, and one
invocation keeps it because of what `handleEvent_effects` says it can do.
-/

namespace Lookout

open scoped List

/-- One invocation of a run, and where the process dies in it: `none` lets it
run to its end, `some k` stops it after `k` effects. -/
structure Invocation where
  event : Event
  answers : Answers
  crash : Option Nat

/-- The effects of an invocation that happen, from `st`. -/
def Invocation.effects (srv : Server) (inv : Invocation) (st : Store) : List Effect :=
  match inv.crash with
  | none => (handleEvent srv inv.answers st inv.event).1
  | some k => (handleEvent srv inv.answers st inv.event).1.take k

/-- Every effect of a run of invocations from `st`, in order. -/
def trace (srv : Server) : Store → List Invocation → List Effect
  | _, [] => []
  | st, inv :: invs => inv.effects srv st ++ trace srv (st.applyAll (inv.effects srv st)) invs

variable {srv : Server} {st : Store} {e : Event} {inv : Invocation}

theorem isPrefix_effects : inv.effects srv st <+: (handleEvent srv inv.answers st inv.event).1 := by
  unfold Invocation.effects; split
  · exact List.prefix_rfl
  · exact List.take_prefix _ _

/-- **Runs inherit what every invocation keeps.** -/
theorem trace_induction (srv : Server) {P : List Effect → Store → Prop} {Q : Invocation → Prop}
    (hstep : ∀ tr st inv, Q inv → P tr st → P (tr ++ inv.effects srv st) (st.applyAll (inv.effects srv st))) :
    ∀ (invs : List Invocation) (tr : List Effect) (st : Store), (∀ inv ∈ invs, Q inv) → P tr st →
      P (tr ++ trace srv st invs) (st.applyAll (trace srv st invs))
  | [], tr, st, _, h => by simpa [trace] using h
  | inv :: invs, tr, st, hq, h => by
    have := trace_induction srv hstep invs _ _ (fun i hi => hq i (.tail _ hi))
      (hstep tr st inv (hq inv (.head _)) h)
    simpa [trace] using this

/-! ## The statuses an event goes through -/

/-- The status writes the store may see after `last`: `new` first; after it
`posting`, `processed` or `failed`; after `posting` the same; after
`processed` or `failed` nothing. -/
def canFollow : Option EventStatus → EventStatus → Bool
  | none, .new => true
  | some .new, s | some .posting, s => s == .posting || s == .processed || s == .failed
  | _, _ => false

/-- Every write can follow the one before it, the first one `last`. -/
def statusPath : Option EventStatus → List EventStatus → Bool
  | _, [] => true
  | last, s :: rest => canFollow last s && statusPath (some s) rest

variable {last : Option EventStatus} {w w' : List EventStatus}

theorem statusPath_append :
    statusPath last (w ++ w') = (statusPath last w && statusPath (w.getLast?.or last) w') := by
  induction w generalizing last with
  | nil => rfl
  | cons s w ih =>
    rw [List.cons_append, statusPath, statusPath, ih, Bool.and_assoc, List.getLast?_cons]
    cases w.getLast? <;> rfl

theorem statusPath_of_isPrefix (h : w' <+: w) (hw : statusPath last w = true) : statusPath last w' = true := by
  obtain ⟨w'', rfl⟩ := h
  simp only [statusPath_append, Bool.and_eq_true] at hw
  exact hw.1

/-- Nothing is written after `processed` or `failed`. -/
theorem eq_nil_of_statusPath_terminal {s : EventStatus} (hs : s = .processed ∨ s = .failed)
    (h : statusPath (some s) w = true) : w = [] := by
  cases w with
  | nil => rfl
  | cons s' w => rcases hs with rfl | rfl <;> simp [statusPath, canFollow] at h

/-- After `new` or `posting`: `posting` any number of times, then at most one
terminal status. -/
theorem eq_of_statusPath_open (hl : last = some .new ∨ last = some .posting) (h : statusPath last w = true) :
    ∃ k fin, w = List.replicate k .posting ++ fin ∧ (fin = [] ∨ fin = [.processed] ∨ fin = [.failed]) := by
  induction w generalizing last with
  | nil => exact ⟨0, [], rfl, .inl rfl⟩
  | cons s w ih =>
    simp only [statusPath, Bool.and_eq_true] at h
    obtain ⟨hs, hw⟩ := h
    cases s with
    | new | pending => rcases hl with rfl | rfl <;> simp [canFollow] at hs
    | posting =>
      obtain ⟨k, fin, rfl, hfin⟩ := ih (.inr rfl) hw
      exact ⟨k + 1, fin, rfl, hfin⟩
    | processed => exact ⟨0, [.processed], by simp [eq_nil_of_statusPath_terminal (.inl rfl) hw], by simp⟩
    | failed => exact ⟨0, [.failed], by simp [eq_nil_of_statusPath_terminal (.inr rfl) hw], by simp⟩

/-- Once `posting` is written, the last write is `posting` or terminal. -/
theorem getLast?_of_posting_mem (h : statusPath last w = true) (hp : .posting ∈ w) :
    w.getLast? = some .posting ∨ w.getLast? = some .processed ∨ w.getLast? = some .failed := by
  obtain ⟨w₁, w₂, rfl⟩ := List.append_of_mem hp
  rw [show w₁ ++ .posting :: w₂ = (w₁ ++ [.posting]) ++ w₂ by simp] at h ⊢
  simp only [statusPath_append, Bool.and_eq_true, List.getLast?_append, List.getLast?_singleton,
    Option.or_some] at h ⊢
  obtain ⟨k, fin, rfl, hfin⟩ := eq_of_statusPath_open (.inr rfl) h.2
  rcases hfin with rfl | rfl | rfl <;> cases k <;> simp [List.getLast?_replicate]

theorem pending_not_mem (h : statusPath last w = true) : .pending ∉ w := by
  induction w generalizing last with
  | nil => simp
  | cons s w ih =>
    simp only [statusPath, Bool.and_eq_true] at h
    rintro (_ | ⟨_, hm⟩)
    · rcases last with _ | ⟨_ | _ | _ | _ | _⟩ <;> simp [canFollow] at h
    · exact ih h.2 hm

/-! ## What one invocation writes, and which calls it makes -/

variable {safe : Bool} {op : CommentOp} {body : List Effect} {id : String}

theorem isPrefix_writes {effs effs' : List Effect} (h : effs <+: effs') : writes id effs <+: writes id effs' :=
  h.filterMap _

/-- The status writes of `post`: `posting` for its event, at most once. -/
theorem PostEffects.writes_eq (h : PostEffects e safe op body) (id : String) :
    writes id body = [] ∨ (id = e.id ∧ writes id body = [.posting]) := by
  rcases h with rfl | ⟨call, rest, rfl, -, -, -, -, hrest⟩
  · exact .inl rfl
  · have hr : writes id rest = [] := by
      rcases hrest with rfl | ⟨cs, rfl, -⟩ <;> simp [writes, List.filterMap_map, Function.comp_def]
    by_cases hid : e.id = id
    · exact .inr ⟨hid.symm, by simp [hid, hr]⟩
    · exact .inl (by simp [hid, hr])

theorem writes_memSave (id : String) :
    writes id (memSave st e).2 = if st.events.lookup e.id = none ∧ e.id = id then [.new] else [] := by
  unfold memSave; split <;> rename_i h
  · simp [h]
  · by_cases hid : e.id = id
    · subst hid; simp [h]
    · simp [hid]

/-- From `new` or `posting`, a `posting` write or none, then at most one
terminal status, is a path. -/
theorem statusPath_open {o : EventStatus} (ho : o = .new ∨ o = .posting) {b f : List EventStatus}
    (hb : b = [] ∨ b = [.posting]) (hf : f = [] ∨ f = [.processed] ∨ f = [.failed]) :
    statusPath (some o) (b ++ f) = true := by
  rcases ho with rfl | rfl <;> rcases hb with rfl | rfl <;> rcases hf with rfl | rfl | rfl <;> rfl

/-- **One invocation writes along a path.** From any store whose event is not
`pending`, the statuses one invocation writes for any event can follow what
the store holds for it. -/
theorem statusPath_handleEvent (ans : Answers) (hpend : st.events.lookup e.id ≠ some .pending) (id : String) :
    statusPath (st.events.lookup id) (writes id (handleEvent srv ans st e).1) = true := by
  obtain ⟨body, fin, heq, hbody, hterm, hfin⟩ := handleEvent_effects srv ans st e
  rw [heq, writes_append, writes_append, writes_memSave]
  by_cases hid : id = e.id
  · subst hid
    have hb : writes e.id body = [] ∨ writes e.id body = [.posting] := (hbody.writes_eq e.id).imp_right And.right
    have hf : writes e.id fin = [] ∨ writes e.id fin = [.processed] ∨ writes e.id fin = [.failed] := by
      rcases hfin with rfl | rfl | rfl <;> simp
    cases hl : st.events.lookup e.id with
    | none => simpa [statusPath, canFollow] using statusPath_open (.inl rfl) hb hf
    | some s =>
      simp only [memSave, hl] at hterm
      cases s with
      | processed | failed => simp [(hterm (by simp)).1, (hterm (by simp)).2, statusPath]
      | pending => exact absurd hl hpend
      | new => simpa using statusPath_open (.inl rfl) hb hf
      | posting => simpa using statusPath_open (.inr rfl) hb hf
  · have hb : writes id body = [] := ((hbody.writes_eq id).resolve_right fun h => hid h.1)
    have hf : writes id fin = [] := by rcases hfin with rfl | rfl | rfl <;> simp [Ne.symm hid]
    rw [hb, hf, if_neg fun h => hid h.2.symm]
    rfl

/-- The status writes of a run so far: for every event, a path from nothing,
whose last write the store holds. -/
def StatusInv (tr : List Effect) (st : Store) : Prop :=
  ∀ id, statusPath none (writes id tr) = true ∧ st.events.lookup id = (writes id tr).getLast?

theorem StatusInv.not_pending {tr : List Effect} (h : StatusInv tr st) (id : String) :
    st.events.lookup id ≠ some .pending := by
  rw [(h id).2]
  exact fun hl => pending_not_mem (h id).1 (List.mem_of_getLast?_eq_some hl)

theorem StatusInv.step {tr : List Effect} (h : StatusInv tr st) (inv : Invocation) :
    StatusInv (tr ++ inv.effects srv st) (st.applyAll (inv.effects srv st)) := by
  intro id
  obtain ⟨hp, hl⟩ := h id
  have hE : statusPath (st.events.lookup id) (writes id (inv.effects srv st)) = true :=
    statusPath_of_isPrefix (isPrefix_writes isPrefix_effects) (statusPath_handleEvent inv.answers (h.not_pending _) id)
  refine ⟨?_, ?_⟩
  · rw [writes_append, statusPath_append, hp, Bool.true_and, Option.or_none, ← hl]
    exact hE
  · rw [lookup_applyAll, writes_append, List.getLast?_append, hl]

/-- **The statuses an event goes through.** In every run, crashes included
and whatever the comment operator answers, the statuses written for an event
are `new`, then `posting` any number of times, then at most one of
`processed` and `failed`, and the store holds the last one written. And an
invocation that `Save` lets through and that runs to its end leaves its
event `processed` when the per-kind handler returned nil, and `failed` when
it returned an error. -/
theorem status_writes (srv : Server) (invs : List Invocation) (id : String) :
    (writes id (trace srv .empty invs) = [] ∨
      ∃ k fin, writes id (trace srv .empty invs) = .new :: List.replicate k .posting ++ fin ∧
        (fin = [] ∨ fin = [.processed] ∨ fin = [.failed])) ∧
    (Store.empty.applyAll (trace srv .empty invs)).events.lookup id = (writes id (trace srv .empty invs)).getLast? ∧
    ∀ (ans : Answers) (st : Store) (e : Event), (memSave st e).1 ≠ .processed → (memSave st e).1 ≠ .failed →
      let r := dispatch srv ans (st.applyAll (memSave st e).2) e ((memSave st e).1 == .posting)
      (r.2 = .ok () → (st.applyAll (handleEvent srv ans st e).1).events.lookup e.id = some .processed) ∧
      (∀ m, r.2 = .err m → (st.applyAll (handleEvent srv ans st e).1).events.lookup e.id = some .failed) := by
  have hinv : StatusInv (trace srv .empty invs) (Store.empty.applyAll (trace srv .empty invs)) := by
    simpa using trace_induction srv (P := StatusInv) (Q := fun _ => True) (fun _ _ inv _ h => h.step inv)
      invs [] .empty (fun _ _ => trivial) (fun _ => ⟨rfl, rfl⟩)
  obtain ⟨hp, hl⟩ := hinv id
  refine ⟨?_, hl, fun ans st e hpr hf => ⟨(handleEvent_status srv ans hpr hf).1, (handleEvent_status srv ans hpr hf).2.1⟩⟩
  generalize writes id (trace srv .empty invs) = w at hp
  rcases w with _ | ⟨s, w⟩
  · exact .inl rfl
  · simp only [statusPath, Bool.and_eq_true] at hp
    cases s <;> simp [canFollow] at hp
    obtain ⟨k, fin, rfl, hfin⟩ := eq_of_statusPath_open (.inl rfl) hp
    exact .inr ⟨k, fin, rfl, hfin⟩

/-- A push event handled to its end on an operator other than
`MemCommentOperator` goes through `posting`. -/
example : writes "1" (trace ⟨registryA, decodeA, false, .other⟩ .empty [⟨pushA, answersA, none⟩]) =
    [.new, .posting, .processed] := by rfl

/-! ## The `Post` calls of one invocation -/

/-- A call of `Poster.Post`, or its return. -/
def Effect.isCall : Effect → Bool
  | .post _ | .delivered _ => true
  | _ => false

theorem PostEffects.calls (h : PostEffects e safe op body) :
    body.filter Effect.isCall = [] ∨ ∃ call, body.filter Effect.isCall = [.post call] ∨
      body.filter Effect.isCall = [.post call, .delivered call] := by
  rcases h with rfl | ⟨call, rest, rfl, -, -, -, -, rfl | ⟨cs, rfl, -⟩⟩
  · exact .inl rfl
  · exact .inr ⟨call, .inl rfl⟩
  · exact .inr ⟨call, .inr (by simp [Effect.isCall, List.filter_map, Function.comp_def])⟩

/-- **One `Post` per invocation, and no call before it.** -/
theorem not_call_before_post (ans : Answers) {x : Effect} (hx : x.isCall = true) (c : PostCall) :
    ¬ [x, .post c] <+ (handleEvent srv ans st e).1 := by
  obtain ⟨body, fin, heq, hbody, -, hfin⟩ := handleEvent_effects srv ans st e
  have hs : (memSave st e).2.filter Effect.isCall = [] := by unfold memSave; split <;> rfl
  have hf : fin.filter Effect.isCall = [] := by rcases hfin with rfl | rfl | rfl <;> rfl
  intro h
  have h' := h.filter Effect.isCall
  rw [heq, List.filter_append, List.filter_append, hs, hf, List.nil_append, List.append_nil,
    List.filter_cons_of_pos hx, List.filter_cons_of_pos rfl, List.filter_nil] at h'
  rcases hbody.calls with hc | ⟨call, hc | hc⟩ <;> rw [hc] at h'
  · exact absurd h'.length_le (by simp)
  · exact absurd h'.length_le (by simp)
  · simpa using h'.eq_of_length rfl

/-- Where a `Post` call sits in an invocation: on an event that `Save` let
through, right after the `posting` mark, with `safe` set exactly when `Save`
saw `posting`, and with comments, at least one, that the comment operator
answered false for. -/
theorem post_mem_handleEvent (ans : Answers) {c : PostCall} (h : .post c ∈ (handleEvent srv ans st e).1) :
    c.event = e ∧ c.safe = ((memSave st e).1 == .posting) ∧
      (memSave st e).1 ≠ .processed ∧ (memSave st e).1 ≠ .failed ∧ pairs c.comments ≠ [] ∧
      (∀ p ∈ pairs c.comments, (srv.commentOpAt ans (st.applyAll (memSave st e).2) e).posted p.2 = .ok false) ∧
      ∃ pre rest, (handleEvent srv ans st e).1 = pre ++ .status e.id .posting :: .post c :: rest ∧ .post c ∉ pre := by
  obtain ⟨body, fin, heq, hbody, hterm, hfin⟩ := handleEvent_effects srv ans st e
  have hs : .post c ∉ (memSave st e).2 := by unfold memSave; split <;> simp
  have hf : .post c ∉ fin := by rcases hfin with rfl | rfl | rfl <;> simp
  rw [heq] at h ⊢
  rcases hbody with rfl | ⟨call, rest, rfl, hev, hsafe, hne, hfresh, hrest⟩
  · simp [hs, hf] at h
  have hr : .post c ∉ rest := by rcases hrest with rfl | ⟨cs, rfl, -⟩ <;> simp
  obtain rfl : c = call := by simpa [hs, hf, hr] using h
  have hp : (memSave st e).1 ≠ .processed := fun h => by simpa using (hterm (.inl h)).1
  have hf' : (memSave st e).1 ≠ .failed := fun h => by simpa using (hterm (.inr h)).1
  exact ⟨hev, hsafe, hp, hf', hne, hfresh, _, rest ++ fin, by simp, hs⟩

/-- On `MemCommentOperator`, the comments of a `Post` call have triples the
ledger did not hold when the invocation began, and the call is on a review. -/
theorem post_mem_handleEvent_fresh (hm : srv.commentOp = .mem) (ans : Answers) {c : PostCall}
    (h : .post c ∈ (handleEvent srv ans st e).1) :
    e.kind = .review ∧ ∀ t ∈ c.triples, t ∉ (st.ledger e.internalID).map Comment.triple := by
  obtain ⟨-, -, -, -, hne, hfresh, -⟩ := post_mem_handleEvent ans h
  rw [commentOpAt_mem hm] at hfresh
  obtain ⟨p₀, hp₀⟩ := List.exists_mem_of_ne_nil _ hne
  refine ⟨(memPosted_eq_false (hfresh p₀ hp₀)).1, fun t ht => ?_⟩
  obtain ⟨p, hp, rfl⟩ := List.mem_map.1 ht
  rw [← ledger_memSave]
  exact (memPosted_eq_false (hfresh p hp)).2

/-- What a `Post` call that returned nil leaves, on `MemCommentOperator`: it
was on a review, and each of its comments is saved under the review's
`InternalID`. -/
theorem delivered_mem_handleEvent (hm : srv.commentOp = .mem) (ans : Answers) {c : PostCall}
    (h : .delivered c ∈ (handleEvent srv ans st e).1) :
    c.event = e ∧ e.kind = .review ∧ ∀ p ∈ pairs c.comments, p.2 ∈ saved e.internalID (handleEvent srv ans st e).1 := by
  obtain ⟨body, fin, heq, hbody, -, hfin⟩ := handleEvent_effects srv ans st e
  have hs : .delivered c ∉ (memSave st e).2 := by unfold memSave; split <;> simp
  have hf : .delivered c ∉ fin := by rcases hfin with rfl | rfl | rfl <;> simp
  rw [heq] at h ⊢
  rcases hbody with rfl | ⟨call, rest, rfl, hev, -, hne, hfresh, rfl | ⟨cs, rfl, -, hall⟩⟩
  · simp [hs, hf] at h
  · simp [hs, hf] at h
  obtain rfl : c = call := by simpa [hs, hf] using h
  rw [commentOpAt_mem hm] at hfresh hall
  obtain ⟨p₀, hp₀⟩ := List.exists_mem_of_ne_nil _ hne
  have hk : e.kind = .review := (memPosted_eq_false (hfresh p₀ hp₀)).1
  obtain rfl : cs = (pairs c.comments).map Prod.snd := hall fun _ _ => by simp [memCommentOp, memCommentSave, hk]
  refine ⟨hev, hk, fun p hp => ?_⟩
  rw [saved_append, saved_append]
  refine List.mem_append_left _ (List.mem_append_right _ ?_)
  simpa [saved, List.filterMap_map, Function.comp_def, Effect.savedOf] using ⟨p.1, hp⟩

/-- A prefix that reaches past `y` holds what came just before it. -/
theorem mem_take_of_before {α : Type} {A B : List α} {x y : α} {k : Nat} (hy : y ∉ A ++ [x])
    (h : y ∈ (A ++ x :: B).take k) : x ∈ (A ++ x :: B).take k := by
  rw [show A ++ x :: B = (A ++ [x]) ++ B by simp, List.take_append_eq_append_take] at h ⊢
  rcases List.mem_append.1 h with h | h
  · exact absurd (List.mem_of_mem_take h) hy
  · by_cases hk : (A ++ [x]).length ≤ k
    · simp [List.take_of_length_le hk]
    · rw [Nat.sub_eq_zero_of_le (by omega)] at h
      simp at h

/-- Two ordered elements of a concatenation: both in the first part, one in
each, or both in the second. -/
theorem sublist_pair_append {α : Type} {a b : α} {l₁ l₂ : List α} (h : [a, b] <+ l₁ ++ l₂) :
    [a, b] <+ l₁ ∨ (a ∈ l₁ ∧ b ∈ l₂) ∨ [a, b] <+ l₂ := by
  obtain ⟨r₁, r₂, hr, h₁, h₂⟩ := List.sublist_append_iff.1 h
  rcases r₁ with _ | ⟨x, _ | ⟨y, _ | ⟨z, r⟩⟩⟩
  · simp only [List.nil_append] at hr; subst hr; exact .inr (.inr h₂)
  · simp only [List.singleton_append, List.cons.injEq] at hr
    obtain ⟨rfl, rfl⟩ := hr
    exact .inr (.inl ⟨List.singleton_sublist.1 h₁, List.singleton_sublist.1 h₂⟩)
  · simp only [List.cons_append, List.nil_append, List.cons.injEq] at hr
    obtain ⟨rfl, rfl, rfl⟩ := hr
    exact .inl h₁
  · simp at hr

theorem memSave_of_lookup {s : EventStatus} (h : st.events.lookup e.id = some s) : (memSave st e).1 = s := by
  simp [memSave, h]

theorem effects_eq_take : ∃ k, inv.effects srv st = (handleEvent srv inv.answers st inv.event).1.take k := by
  unfold Invocation.effects; split
  · exact ⟨_, (List.take_length _).symm⟩
  · exact ⟨_, rfl⟩

/-! ## `safe` after a first `Post` -/

/-- Every `Post` call of a run so far came after `posting` was written for its
event, and every one that follows another for the same event had `safe` set. -/
def SafeInv (tr : List Effect) : Prop :=
  (∀ c, .post c ∈ tr → .posting ∈ writes c.event.id tr) ∧
  ∀ c₁ c₂, [.post c₁, .post c₂] <+ tr → c₁.event.id = c₂.event.id → c₂.safe = true

theorem SafeInv.step {tr : List Effect} (hs : StatusInv tr st) (h : SafeInv tr) (inv : Invocation) :
    SafeInv (tr ++ inv.effects srv st) := by
  obtain ⟨k, hk⟩ : ∃ k, inv.effects srv st = (handleEvent srv inv.answers st inv.event).1.take k :=
    effects_eq_take
  rw [hk]
  refine ⟨fun c hc => ?_, fun c₁ c₂ hc hid => ?_⟩
  · rw [writes_append, List.mem_append]
    rcases List.mem_append.1 hc with hc | hc
    · exact .inl (h.1 c hc)
    · obtain ⟨hev, -, -, -, -, -, pre, rest, hdec, hpre⟩ := post_mem_handleEvent inv.answers (List.mem_of_mem_take hc)
      rw [hdec] at hc ⊢
      have hmark := mem_take_of_before (by simpa using hpre) hc
      exact .inr (List.mem_filterMap.2 ⟨_, hmark, by simp [hev]⟩)
  · rcases sublist_pair_append hc with hc | ⟨h1, h2⟩ | hc
    · exact h.2 c₁ c₂ hc hid
    · obtain ⟨hev, hsafe, hp, hf, -⟩ := post_mem_handleEvent inv.answers (List.mem_of_mem_take h2)
      have hw := h.1 c₁ h1
      rw [hid, hev] at hw
      obtain ⟨hpath, hl⟩ := hs inv.event.id
      have hlast := getLast?_of_posting_mem hpath hw
      rw [← hl] at hlast
      rcases hlast with h | h | h
      · rw [hsafe, memSave_of_lookup h]; rfl
      · exact absurd (memSave_of_lookup h) hp
      · exact absurd (memSave_of_lookup h) hf
    · exact absurd (hc.trans (List.take_sublist _ _)) (not_call_before_post inv.answers (show (Effect.post c₁).isCall = true from rfl) c₂)

/-- **Every `Post` after a first one is safe.** In every run, crashes
included and whatever the comment operator answers, a `Post` call for an
event that follows an earlier `Post` call for the same event ID is made with
`safe = true`. -/
theorem safe_after_post (srv : Server) (invs : List Invocation) (c₁ c₂ : PostCall)
    (h : [.post c₁, .post c₂] <+ trace srv .empty invs) (hid : c₁.event.id = c₂.event.id) : c₂.safe = true := by
  have hinv := trace_induction srv (P := fun tr st => StatusInv tr st ∧ SafeInv tr) (Q := fun _ => True)
    (fun _ _ inv _ h => ⟨h.1.step inv, h.2.step h.1 inv⟩) invs [] .empty (fun _ _ => trivial)
    ⟨fun _ => ⟨rfl, rfl⟩, nofun, fun _ _ h => by simp at h⟩
  simp only [List.nil_append] at hinv
  exact hinv.2.2 c₁ c₂ h hid

/-- `answersA`'s comment group, as `post` hands it to the poster. -/
def groupsA : List AnalyzerComments := [⟨serverA, [commentA]⟩]

/-- `registryA`'s server on a comment operator other than
`MemCommentOperator`, which answers as `keepsNothingA`. -/
def serverOtherA : Server := ⟨registryA, decodeA, false, .other⟩

/-- The process dies in the first invocation on the push event right after
`Post` is called; the second runs to its end. -/
def pushRetryA : List Invocation := [⟨pushA, answersA, some 3⟩, ⟨pushA, answersA, none⟩]

theorem safe_after_post_pushRetryA :
    [.post ⟨pushA, groupsA, false⟩, .post ⟨pushA, groupsA, true⟩] <+ trace serverOtherA .empty pushRetryA ∧
      pushA.id = pushA.id ∧ (PostCall.mk pushA groupsA true).safe = true :=
  have h : [.post ⟨pushA, groupsA, false⟩, .post ⟨pushA, groupsA, true⟩] <+ trace serverOtherA .empty pushRetryA :=
    .cons _ (.cons _ (.cons₂ _ (.cons _ (.cons₂ _ (List.nil_sublist _)))))
  ⟨h, rfl, safe_after_post serverOtherA pushRetryA _ _ h rfl⟩

/-! ## What the ledger holds -/

/-- Every `Post` call of a run so far that returned nil was on a review, and
the ledger holds its triples under its `InternalID`; no `Post` call under that
`InternalID` after it was handed any of them. -/
def LedgerInv (tr : List Effect) (st : Store) : Prop :=
  (∀ c, .delivered c ∈ tr → c.event.kind = .review ∧
      ∀ t ∈ c.triples, t ∈ (st.ledger c.event.internalID).map Comment.triple) ∧
  ∀ c₁ c₂, [.delivered c₁, .post c₂] <+ tr → c₁.event.internalID = c₂.event.internalID →
    ∀ t ∈ c₁.triples, t ∉ c₂.triples

theorem LedgerInv.step (hm : srv.commentOp = .mem) {tr : List Effect} (h : LedgerInv tr st) (inv : Invocation)
    (hc : inv.crash = none) :
    LedgerInv (tr ++ inv.effects srv st) (st.applyAll (inv.effects srv st)) := by
  have hE : inv.effects srv st = (handleEvent srv inv.answers st inv.event).1 := by
    simp [Invocation.effects, hc]
  rw [hE]
  refine ⟨fun c hc => ?_, fun c₁ c₂ hc hid => ?_⟩
  · rw [ledger_applyAll, List.map_append]
    rcases List.mem_append.1 hc with hc | hc
    · exact ⟨(h.1 c hc).1, fun t ht => List.mem_append_left _ ((h.1 c hc).2 t ht)⟩
    · obtain ⟨hev, hk, hs⟩ := delivered_mem_handleEvent hm inv.answers hc
      refine ⟨hev ▸ hk, fun t ht => List.mem_append_right _ ?_⟩
      obtain ⟨p, hp, rfl⟩ := List.mem_map.1 ht
      rw [hev]
      exact List.mem_map_of_mem _ (hs p hp)
  · rcases sublist_pair_append hc with hc | ⟨h1, h2⟩ | hc
    · exact h.2 c₁ c₂ hc hid
    · obtain ⟨hev, -, -, -, -, -, -⟩ := post_mem_handleEvent inv.answers h2
      have hfresh := (post_mem_handleEvent_fresh hm inv.answers h2).2
      intro t ht ht2
      have hheld := (h.1 c₁ h1).2 t ht
      rw [hid, hev] at hheld
      exact hfresh t ht2 hheld
    · exact absurd hc (not_call_before_post inv.answers (show (Effect.delivered c₁).isCall = true from rfl) c₂)

/-- **What a `Post` delivered is never posted again.** On
`MemCommentOperator`, in a run in which no invocation is cut short, a triple
handed to a `Post` call that returned nil is handed to no later `Post` call
under the same `InternalID`; and `Posted` reports every comment of every such
call, under its `InternalID`. -/
theorem delivered_once (srv : Server) (hm : srv.commentOp = .mem) (invs : List Invocation)
    (hc : ∀ inv ∈ invs, inv.crash = none) :
    (∀ c₁ c₂, [.delivered c₁, .post c₂] <+ trace srv .empty invs →
      c₁.event.internalID = c₂.event.internalID → ∀ t ∈ c₁.triples, t ∉ c₂.triples) ∧
    ∀ c, .delivered c ∈ trace srv .empty invs → ∀ p ∈ pairs c.comments,
      memPosted (Store.empty.applyAll (trace srv .empty invs)) c.event p.2 = .ok true := by
  have hinv := trace_induction srv (P := LedgerInv) (Q := fun inv => inv.crash = none)
    (fun _ _ inv hq h => h.step hm inv hq) invs [] .empty hc ⟨nofun, fun _ _ h => by simp at h⟩
  simp only [List.nil_append] at hinv
  refine ⟨hinv.2, fun c hc p hp => ?_⟩
  obtain ⟨hk, ht⟩ := hinv.1 c hc
  rw [memPosted_review hk]
  simpa using ht _ (List.mem_map_of_mem _ hp)

/-- Two complete invocations on reviews with the same `InternalID` and
different IDs. -/
def sameInternalA : List Invocation := [⟨reviewA, answersA, none⟩, ⟨{ reviewA with id := "2" }, answersA, none⟩]

theorem delivered_once_sameInternalA :
    serverSetupA.commentOp = .mem ∧ (∀ inv ∈ sameInternalA, inv.crash = none) ∧
    (∀ c₁ c₂, [.delivered c₁, .post c₂] <+ trace serverSetupA .empty sameInternalA →
      c₁.event.internalID = c₂.event.internalID → ∀ t ∈ c₁.triples, t ∉ c₂.triples) ∧
    ∀ c, .delivered c ∈ trace serverSetupA .empty sameInternalA → ∀ p ∈ pairs c.comments,
      memPosted (Store.empty.applyAll (trace serverSetupA .empty sameInternalA)) c.event p.2 = .ok true :=
  have hc : ∀ inv ∈ sameInternalA, inv.crash = none := by simp [sameInternalA]
  ⟨rfl, hc, delivered_once serverSetupA rfl sameInternalA hc⟩

end Lookout

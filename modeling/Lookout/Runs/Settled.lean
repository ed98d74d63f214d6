import Lookout.Runs
/-!
# Lookout — what the stores never claim, and settled events

Two more properties of every run of `HandleEvent`, crashes included. The
ledger never claims a comment that no `Post` call delivered: a comment is
saved only after the `Post` call that carried it returned nil, in the same
invocation, so a crash can lose a save but never invent one
(`posted_delivered`). And once an event's status is `processed` or
`failed`, no `Post` call is made for it again: the terminal write is the
last effect of its invocation, and every later `Save` returns it
(`no_post_after_settled`). Both hold whatever the server's
`CommentOperator` answers, on reviews and push events alike.
-/

namespace Lookout

open scoped List

variable {srv : Server} {st : Store} {e : Event} {inv : Invocation} {tr : List Effect}

/-- A prefix that holds `y`, all of whose occurrences come after `x`, holds `x` before it. -/
theorem pair_sublist_take {α : Type} {A B : List α} {x y : α} {k : Nat} (hy : y ∉ A ++ [x])
    (h : y ∈ (A ++ x :: B).take k) : [x, y] <+ (A ++ x :: B).take k := by
  rw [show A ++ x :: B = (A ++ [x]) ++ B by simp, List.take_append_eq_append_take] at h ⊢
  rcases List.mem_append.1 h with h | h
  · exact absurd (List.mem_of_mem_take h) hy
  · have hk : (A ++ [x]).length ≤ k := by
      by_contra hk
      rw [Nat.sub_eq_zero_of_le (by omega)] at h
      simp at h
    rw [List.take_of_length_le hk]
    exact List.Sublist.append (List.singleton_sublist.2 (List.mem_append_right _ (List.mem_singleton_self _)))
      (List.singleton_sublist.2 h)

theorem mem_writes {id : String} {s : EventStatus} {effs : List Effect} (h : .status id s ∈ effs) :
    s ∈ writes id effs :=
  List.mem_filterMap.2 ⟨_, h, by simp⟩

theorem comment_mem_of_saved {iid : String} {c : Comment} {effs : List Effect} (h : c ∈ saved iid effs) :
    .comment iid c ∈ effs := by
  obtain ⟨x, hx, hs⟩ := List.mem_filterMap.1 h
  cases x <;> simp only [Effect.savedOf, reduceCtorEq] at hs
  split_ifs at hs with hi
  cases hs
  rwa [hi] at hx

/-! ## The ledger claims only what was delivered -/

/-- **Where a comment is saved in an invocation**: after the return of the
`Post` call that carried it, under the `InternalID` of that call's event. -/
theorem comment_after_delivered (ans : Answers) {iid : String} {c : Comment}
    (h : .comment iid c ∈ (handleEvent srv ans st e).1) :
    ∃ call A B, (handleEvent srv ans st e).1 = A ++ .delivered call :: B ∧ .comment iid c ∉ A ++ [.delivered call] ∧
      call.event.internalID = iid ∧ c ∈ (pairs call.comments).map Prod.snd := by
  obtain ⟨body, fin, heq, hbody, -, hfin⟩ := handleEvent_effects srv ans st e
  have hs : .comment iid c ∉ (memSave st e).2 := by unfold memSave; split <;> simp
  have hf : .comment iid c ∉ fin := by rcases hfin with rfl | rfl | rfl <;> simp
  rw [heq] at h ⊢
  rcases hbody with rfl | ⟨call, rest, rfl, hev, -, -, -, rfl | ⟨cs, rfl, hcs, -⟩⟩
  · simp [hs, hf] at h
  · simp [hs, hf] at h
  have hc : .comment iid c ∈ cs.map (Effect.comment e.internalID) := by simpa [hs, hf] using h
  obtain ⟨c', hc', he⟩ := List.mem_map.1 hc
  cases he
  exact ⟨call, (memSave st e).2 ++ [.status e.id .posting, .post call], cs.map (Effect.comment e.internalID) ++ fin,
    by simp, by simp [hs], by rw [hev], hcs.subset hc'⟩

/-- Every comment a run has saved comes after the return of a `Post` call
under its `InternalID` that carried it. -/
def LedgerSound (tr : List Effect) : Prop :=
  ∀ iid c, .comment iid c ∈ tr → ∃ call, [.delivered call, .comment iid c] <+ tr ∧
    call.event.internalID = iid ∧ c ∈ (pairs call.comments).map Prod.snd

theorem LedgerSound.step (h : LedgerSound tr) (inv : Invocation) : LedgerSound (tr ++ inv.effects srv st) := by
  intro iid c hc
  rcases List.mem_append.1 hc with hc | hc
  · obtain ⟨call, hsub, hrest⟩ := h iid c hc
    exact ⟨call, hsub.trans (List.sublist_append_left _ _), hrest⟩
  · obtain ⟨k, hk⟩ : ∃ k, inv.effects srv st = (handleEvent srv inv.answers st inv.event).1.take k :=
      effects_eq_take
    rw [hk] at hc ⊢
    obtain ⟨call, A, B, heq, hnot, hrest⟩ := comment_after_delivered inv.answers (List.mem_of_mem_take hc)
    rw [heq] at hc ⊢
    exact ⟨call, (pair_sublist_take hnot hc).trans (List.sublist_append_right _ _), hrest⟩

/-- **The ledger never claims an undelivered comment.** In every run,
crashes included, `MemCommentOperator.Posted` answers true for a comment
only when the run saved, under the event's `InternalID`, a comment with the
same `(file, line, text)` after the return of a `Post` call that carried
it. So `post` never drops a comment as posted that no `Post` call
delivered. -/
theorem posted_delivered (srv : Server) (invs : List Invocation) {e : Event} {c : Comment}
    (h : memPosted (Store.empty.applyAll (trace srv .empty invs)) e c = .ok true) :
    ∃ call c', [.delivered call, .comment e.internalID c'] <+ trace srv .empty invs ∧
      call.event.internalID = e.internalID ∧ c' ∈ (pairs call.comments).map Prod.snd ∧ c'.triple = c.triple := by
  have hsound : LedgerSound (trace srv .empty invs) := by
    simpa using trace_induction srv (P := fun tr _ => LedgerSound tr) (Q := fun _ => True)
      (fun _ _ inv _ h => h.step inv) invs [] .empty (fun _ _ => trivial) (fun _ _ h => by cases h)
  have he : e.kind = .review := by
    by_contra he
    rw [memPosted_not_review he] at h
    cases h
  rw [memPosted_review he, ledger_applyAll] at h
  obtain ⟨c', hc', ht⟩ := List.mem_map.1 (of_decide_eq_true (Outcome.ok.inj h))
  obtain ⟨call, hsub, hiid, hcall⟩ :=
    hsound _ _ (comment_mem_of_saved (by simpa [Store.ledger, Store.empty] using hc'))
  exact ⟨call, c', hsub, hiid, hcall, ht⟩

/-- The review handled twice, to its end both times. -/
def twiceA : List Invocation := [⟨reviewA, answersA, none⟩, ⟨reviewA, answersA, none⟩]

theorem posted_delivered_twiceA :
    memPosted (Store.empty.applyAll (trace serverSetupA .empty twiceA)) reviewA commentA = .ok true ∧
    ∃ call c', [.delivered call, .comment reviewA.internalID c'] <+ trace serverSetupA .empty twiceA ∧
      call.event.internalID = reviewA.internalID ∧ c' ∈ (pairs call.comments).map Prod.snd ∧
      c'.triple = commentA.triple :=
  have h : memPosted (Store.empty.applyAll (trace serverSetupA .empty twiceA)) reviewA commentA = .ok true := by rfl
  ⟨h, posted_delivered serverSetupA twiceA h⟩

/-! ## A settled event is left alone -/

variable {last : Option EventStatus} {w : List EventStatus}

/-- In a path of status writes, a terminal write is the last. -/
theorem getLast?_of_terminal_mem {s : EventStatus} (hs : s = .processed ∨ s = .failed) (h : statusPath last w = true)
    (hm : s ∈ w) : w.getLast? = some s := by
  obtain ⟨w₁, w₂, rfl⟩ := List.append_of_mem hm
  rw [show w₁ ++ s :: w₂ = (w₁ ++ [s]) ++ w₂ by simp] at h ⊢
  simp only [statusPath_append, Bool.and_eq_true, List.getLast?_append, List.getLast?_singleton,
    Option.or_some] at h
  simp [eq_nil_of_statusPath_terminal hs h.2]

/-- **Within one invocation, a terminal status is written last**: no `Post`
call follows it. -/
theorem not_post_after_terminal (ans : Answers) {s : EventStatus} (hs : s = .processed ∨ s = .failed)
    (id : String) (c : PostCall) : ¬ [.status id s, .post c] <+ (handleEvent srv ans st e).1 := by
  obtain ⟨body, fin, heq, hbody, -, hfin⟩ := handleEvent_effects srv ans st e
  have hf : .post c ∉ fin := by rcases hfin with rfl | rfl | rfl <;> simp
  rw [heq]
  intro h
  rcases sublist_pair_append h with h | ⟨-, hp⟩ | h
  · -- before the last effect an invocation writes only `new` and `posting`
    have hopen : ∀ s' ∈ writes id ((memSave st e).2 ++ body), s' = .new ∨ s' = .posting := by
      rw [writes_append, writes_memSave]
      rcases hbody.writes_eq id with hb | ⟨-, hb⟩ <;> rw [hb] <;> split_ifs <;> simp
    rcases hopen s (mem_writes (h.subset (List.mem_cons_self _ _))) with rfl | rfl <;> simp at hs
  · exact hf hp
  · exact hf (h.subset (List.mem_cons_of_mem _ (List.mem_singleton_self _)))

/-- No `Post` call of a run so far follows a terminal status of its event. -/
def SettledInv (tr : List Effect) : Prop :=
  ∀ c s, (s = .processed ∨ s = .failed) → ¬ [.status c.event.id s, .post c] <+ tr

theorem SettledInv.step (hs : StatusInv tr st) (h : SettledInv tr) (inv : Invocation) :
    SettledInv (tr ++ inv.effects srv st) := by
  obtain ⟨k, hk⟩ : ∃ k, inv.effects srv st = (handleEvent srv inv.answers st inv.event).1.take k := effects_eq_take
  rw [hk]
  intro c s hst hsub
  rcases sublist_pair_append hsub with hsub | ⟨hw, hp⟩ | hsub
  · exact h c s hst hsub
  · -- the store holds the terminal status, so `Save` returns it and the invocation does nothing
    obtain ⟨hev, -, hp', hf', -⟩ := post_mem_handleEvent inv.answers (List.mem_of_mem_take hp)
    have hl : st.events.lookup c.event.id = some s :=
      (hs c.event.id).2.trans (getLast?_of_terminal_mem hst (hs c.event.id).1 (mem_writes hw))
    rw [hev] at hl
    rcases hst with rfl | rfl
    · exact hp' (memSave_of_lookup hl)
    · exact hf' (memSave_of_lookup hl)
  · exact not_post_after_terminal inv.answers hst _ c (hsub.trans (List.take_sublist _ _))

/-- **Nothing is posted for a settled event.** In every run, crashes
included, once `processed` or `failed` has been written for an event, no
later `Post` call is made for it, by any invocation on any event with its ID. -/
theorem no_post_after_settled (srv : Server) (invs : List Invocation) {c : PostCall} {s : EventStatus}
    (hs : s = .processed ∨ s = .failed) : ¬ [.status c.event.id s, .post c] <+ trace srv .empty invs := by
  have hinv := trace_induction srv (P := fun tr st => StatusInv tr st ∧ SettledInv tr) (Q := fun _ => True)
    (fun _ _ inv _ h => ⟨h.1.step inv, h.2.step h.1 inv⟩) invs [] .empty (fun _ _ => trivial)
    ⟨fun _ => ⟨rfl, rfl⟩, fun _ _ _ h => by simpa using h.length_le⟩
  simp only [List.nil_append] at hinv
  exact hinv.2 c s hs

/-- The push event handled twice, to its end both times, on an operator other
than `MemCommentOperator`. -/
def pushTwiceA : List Invocation := [⟨pushA, answersA, none⟩, ⟨pushA, answersA, none⟩]

theorem no_post_after_settled_pushTwiceA :
    .post ⟨pushA, groupsA, false⟩ ∈ trace serverOtherA .empty pushTwiceA ∧
    (EventStatus.processed = .processed ∨ EventStatus.processed = .failed) ∧
    ¬ [.status (PostCall.mk pushA groupsA false).event.id .processed, .post ⟨pushA, groupsA, false⟩] <+
      trace serverOtherA .empty pushTwiceA :=
  ⟨.tail _ (.tail _ (.head _)), .inl rfl, no_post_after_settled serverOtherA pushTwiceA (.inl rfl)⟩

end Lookout

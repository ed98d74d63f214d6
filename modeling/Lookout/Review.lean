import Lookout.FanOut.Collect
import Lookout.Handler
/-!
# Lookout — a review, from the fan-out to the poster

`concurrentRequest` followed by `post`, as the per-kind handlers run them.
Without `exitOnError`, every run of the fan-out returns, whatever order its
tasks complete in (`collect_terminates`), and `post` then calls
`Poster.Post` at most once: exactly when some analyzer answered with a triple
the ledger does not report, and then with each such triple once, under the
`Config` of an analyzer that answered it (`review_posts`).

Which analyzers are called: every run of the fan-out calls `send` once for
each analyzer that `skipped` passes and for no other (`sent_exactly`, from
the multiset invariant `SendInv`). On the merged configuration `skipped`
reads the server's and the organization's `disabled` but not the
repository's (`sent_iff_enabled`): `repo_disabled_sent` is a run in which an
analyzer that the repository's `.lookout.yml` disables is called all the
same.
-/

namespace Lookout

variable {Struct : Type}

namespace FanOutEnv

variable (env : FanOutEnv Struct)

/-- The groups the fan-out collects, up to order: each analyzer's comments
under its server `Config`, for every analyzer not skipped whose `send`
answered with comments. -/
def answered : List AnalyzerComments := env.registry.analyzers.filterMap env.contribution

/-- A triple to post, with `posted` the ledger: one that some analyzer not
skipped answered with, and that the ledger does not report. -/
def ToPost (posted : Triple → Bool) (t : Triple) : Prop :=
  (∃ n a cs, (n, a) ∈ env.registry.analyzers ∧ skipped env.conf n a = false ∧ env.outcome n = .ok cs ∧
    t ∈ cs.map Comment.triple) ∧ posted t = false

theorem contribution_eq_some {n : String} {a : AnalyzerConfig} {g : AnalyzerComments} :
    env.contribution (n, a) = some g ↔
      skipped env.conf n a = false ∧ ∃ cs, env.outcome n = .ok cs ∧ cs ≠ [] ∧ g = ⟨a, cs⟩ := by
  unfold contribution resultOf
  cases hs : skipped env.conf n a
  · dsimp only
    cases env.outcome n with
    | error err => simp
    | ok cs =>
      by_cases hc : cs = []
      · simp [hc]
      · simp only [hc, List.isEmpty_iff, if_false, Bool.false_eq_true, Except.ok.injEq, Option.some.injEq]
        exact ⟨fun h => ⟨trivial, cs, rfl, hc, h.symm⟩, fun ⟨_, _, h, _, hg⟩ => h ▸ hg.symm⟩
  · simp

/-- **Who answered what.** A comment the fan-out collects, with the config it
is grouped under: the server `Config` of an analyzer not skipped, whose
`send` answered with that comment. -/
theorem mem_pairs_answered {p : AnalyzerConfig × Comment} :
    p ∈ pairs env.answered ↔ ∃ n cs, (n, p.1) ∈ env.registry.analyzers ∧ skipped env.conf n p.1 = false ∧
      env.outcome n = .ok cs ∧ p.2 ∈ cs := by
  simp only [pairs, answered, List.mem_flatMap, List.mem_filterMap, List.mem_map, Prod.exists, contribution_eq_some]
  constructor
  · rintro ⟨g, ⟨n, a, hmem, hs, cs, ho, -, rfl⟩, c, hc, rfl⟩
    exact ⟨n, cs, hmem, hs, ho, hc⟩
  · rintro ⟨n, cs, hmem, hs, ho, hc⟩
    exact ⟨⟨p.1, cs⟩, ⟨n, p.1, hmem, hs, cs, ho, List.ne_nil_of_mem hc, rfl⟩, p.2, hc, rfl⟩

theorem toPost_iff (posted : Triple → Bool) (t : Triple) :
    env.ToPost posted t ↔ t ∈ (pairs env.answered).map (·.2.triple) ∧ posted t = false := by
  simp only [ToPost, List.mem_map, mem_pairs_answered, Prod.exists]
  constructor
  · rintro ⟨⟨n, a, cs, hmem, hs, ho, c, hc, rfl⟩, hp⟩
    exact ⟨⟨a, c, ⟨n, cs, hmem, hs, ho, hc⟩, rfl⟩, hp⟩
  · rintro ⟨⟨a, c, ⟨n, cs, hmem, hs, ho, hc⟩, rfl⟩, hp⟩
    exact ⟨⟨n, a, cs, hmem, hs, ho, c, hc, rfl⟩, hp⟩

end FanOutEnv

/-- **What `post` posts**, on a ledger that answers every lookup by triple,
with the event stored: one `Post` call at most, made exactly when some
triple is not reported, with each such triple once, under the config of a
group that held it. -/
theorem post_ledger (posted : Triple → Bool) (save : Comment → String → Outcome Unit) {st : Store}
    {e : Event} (hid : (st.events.lookup e.id).isSome) (a : Outcome Unit) (cs : List AnalyzerComments)
    (safe : Bool) :
    (posts (post ⟨fun c => .ok (posted c.triple), save⟩ st a e cs safe).1).length ≤ 1 ∧
    (posts (post ⟨fun c => .ok (posted c.triple), save⟩ st a e cs safe).1 ≠ [] ↔
      ∃ t ∈ (pairs cs).map (·.2.triple), posted t = false) ∧
    ∀ call ∈ posts (post ⟨fun c => .ok (posted c.triple), save⟩ st a e cs safe).1,
      call.event = e ∧ call.safe = safe ∧ call.triples.Nodup ∧
      (∀ t, t ∈ call.triples ↔ t ∈ (pairs cs).map (·.2.triple) ∧ posted t = false) ∧
      ∀ p ∈ pairs call.comments, p ∈ pairs cs := by
  obtain ⟨gs, hf, hnd, hmem, hsub, hnil⟩ := survivors posted cs
  obtain ⟨s, hs⟩ := Option.isSome_iff_exists.1 hid
  have hne : gs ≠ [] ↔ ∃ t ∈ (pairs cs).map (·.2.triple), posted t = false := by
    simp only [ne_eq, hnil, not_forall, Bool.not_eq_true, exists_prop]
  by_cases hg : gs = []
  · subst hg
    have hcalls : posts (post ⟨fun c => .ok (posted c.triple), save⟩ st a e cs safe).1 = [] := by
      unfold post; rw [hf]; rfl
    rw [hcalls]
    exact ⟨by simp, ⟨fun h => (h rfl).elim, fun h => (hne.2 h rfl).elim⟩, by simp⟩
  · have hcalls : posts (post ⟨fun c => .ok (posted c.triple), save⟩ st a e cs safe).1 = [⟨e, gs, safe⟩] := by
      unfold post
      rw [hf]
      cases a <;> simp [hg, memUpdateStatus, hs, posts_saveAll]
    rw [hcalls]
    refine ⟨by simp, ⟨fun _ => hne.1 hg, fun _ => List.cons_ne_nil _ _⟩, ?_⟩
    rintro _ (_ | ⟨_, h⟩)
    · exact ⟨rfl, rfl, hnd, hmem, hsub⟩
    · cases h

/-- **One review, from the fan-out to the poster.** Without `exitOnError`,
whatever the outcome of each analyzer's `send` and in whatever order the
tasks complete, `concurrentRequest` returns, and on what it returns `post`,
on a ledger that answers every lookup and with the event stored, calls
`Poster.Post` at most once: exactly when there is a triple to post, and then
with every triple to post exactly once and no other, each under the server
`Config` of an analyzer that answered it. -/
theorem review_posts {env : FanOutEnv Struct} (hx : env.exitOnError = false) (c : Struct)
    (posted : Triple → Bool) (save : Comment → String → Outcome Unit) {st : Store} {e : Event}
    (hid : (st.events.lookup e.id).isSome) (answer : Outcome Unit) (safe : Bool) :
    Terminates (FanOut.Step env) (fun s => ∃ acc, s.main = .returned (.ok acc) ∧
      (posts (post ⟨fun x => .ok (posted x.triple), save⟩ st answer e acc safe).1).length ≤ 1 ∧
      (posts (post ⟨fun x => .ok (posted x.triple), save⟩ st answer e acc safe).1 ≠ [] ↔
        ∃ t, env.ToPost posted t) ∧
      ∀ call ∈ posts (post ⟨fun x => .ok (posted x.triple), save⟩ st answer e acc safe).1,
        call.event = e ∧ call.safe = safe ∧ call.triples.Nodup ∧ (∀ t, t ∈ call.triples ↔ env.ToPost posted t) ∧
        ∀ p ∈ pairs call.comments, ∃ n cs, (n, p.1) ∈ env.registry.analyzers ∧
          skipped env.conf n p.1 = false ∧ env.outcome n = .ok cs ∧ p.2 ∈ cs)
      (env.init c) := by
  refine (FanOut.collect_terminates hx c).mono fun s ⟨acc, hm, hacc⟩ => ⟨acc, hm, ?_⟩
  have hperm : (pairs acc).Perm (pairs env.answered) :=
    (Multiset.coe_eq_coe.1 hacc).flatMap_right _
  have htri (t : Triple) : t ∈ (pairs acc).map (·.2.triple) ↔ t ∈ (pairs env.answered).map (·.2.triple) :=
    (hperm.map _).mem_iff
  obtain ⟨hlen, hiff, hcall⟩ := post_ledger posted save hid answer acc safe
  refine ⟨hlen, ?_, fun call hc => ?_⟩
  · rw [hiff]
    simp only [env.toPost_iff, htri]
  · obtain ⟨hev, hsafe, hnd, hmem, hsub⟩ := hcall call hc
    refine ⟨hev, hsafe, hnd, fun t => by rw [hmem, htri, env.toPost_iff], fun p hp => ?_⟩
    exact env.mem_pairs_answered.1 (hperm.mem_iff.1 (hsub p hp))

/-- `a` answers `commentA`; nothing else is configured. -/
def reviewEnvA : FanOutEnv Settings := ⟨registryA, [], false, some, fun _ => .ok [commentA]⟩

/-- The stores once `Save` has stored `reviewA`. -/
def savedA : Store := ⟨[("1", .new)], []⟩

theorem review_posts_reviewEnvA :
    reviewEnvA.exitOnError = false ∧ (savedA.events.lookup reviewA.id).isSome ∧
    Terminates (FanOut.Step reviewEnvA) (fun s => ∃ acc, s.main = .returned (.ok acc) ∧
      (posts (post ⟨fun _ => .ok false, fun _ _ => .ok ()⟩ savedA (.ok ()) reviewA acc false).1).length ≤ 1 ∧
      (posts (post ⟨fun _ => .ok false, fun _ _ => .ok ()⟩ savedA (.ok ()) reviewA acc false).1 ≠ [] ↔
        ∃ t, reviewEnvA.ToPost (fun _ => false) t) ∧
      ∀ call ∈ posts (post ⟨fun _ => .ok false, fun _ _ => .ok ()⟩ savedA (.ok ()) reviewA acc false).1,
        call.event = reviewA ∧ call.safe = false ∧ call.triples.Nodup ∧
        (∀ t, t ∈ call.triples ↔ reviewEnvA.ToPost (fun _ => false) t) ∧
        ∀ p ∈ pairs call.comments, ∃ n cs, (n, p.1) ∈ reviewEnvA.registry.analyzers ∧
          skipped reviewEnvA.conf n p.1 = false ∧ reviewEnvA.outcome n = .ok cs ∧ p.2 ∈ cs)
      (reviewEnvA.init []) :=
  ⟨rfl, rfl, review_posts rfl [] (fun _ => false) (fun _ _ => .ok ())
    (show (savedA.events.lookup reviewA.id).isSome = true from rfl) (.ok ()) false⟩

/-! ## Which analyzers are called -/

/-- Whether a task has still to call its analyzer. -/
def TaskPc.unsent : TaskPc → Bool
  | .start | .notify => true
  | _ => false

@[simp] theorem TaskPc.unsent_start : TaskPc.start.unsent = true := rfl
@[simp] theorem TaskPc.unsent_notify : TaskPc.notify.unsent = true := rfl
@[simp] theorem TaskPc.unsent_errSend (err : String) : (TaskPc.errSend err).unsent = false := rfl
@[simp] theorem TaskPc.unsent_push (r : Option AnalyzerComments) : (TaskPc.push r).unsent = false := rfl

namespace FanOut

variable {env : FanOutEnv Struct} {s s' : FanOut Struct}

/-- Every analyzer not skipped is, once, either called already, a task that
has still to call it, or still to visit. -/
def SendInv (env : FanOutEnv Struct) (s : FanOut Struct) : Prop :=
  (↑(s.notified.map Prod.fst) : Multiset String) + ↑((s.tasks.filter (·.pc.unsent)).map Task.name) +
      ↑((s.main.pending.filter fun e => !skipped env.conf e.1 e.2).map Prod.fst) =
    ↑((env.registry.analyzers.filter fun e => !skipped env.conf e.1 e.2).map Prod.fst)

theorem sendInv_init (c : Struct) : SendInv env (env.init c) := by
  simp [SendInv, FanOutEnv.init, MainPc.pending]

theorem afterSend_unsent (t : Task) : (env.afterSend t).unsent = false := by
  unfold FanOutEnv.afterSend; split <;> (try split) <;> rfl

theorem SendInv.step (hi : SendInv env s) (h : Step env s s') : SendInv env s' := by
  unfold SendInv at hi ⊢
  cases h with
  | skip hm hsk => rw [hm] at hi; rw [← hi]; simp [MainPc.pending, hsk]
  | spawn hm hsk => rw [hm] at hi; rw [← hi]; simp [MainPc.pending, hsk]
  | collectStart hm | recv hm | finish hm => rw [hm] at hi; simpa [MainPc.pending] using hi
  | write ht hpc => rw [ht] at hi; rw [← hi]; simp [hpc]
  | notify ht hpc =>
    rw [ht] at hi; rw [← hi]
    simp only [List.map_append, List.filter_append, List.filter_cons, hpc, TaskPc.unsent_notify,
      afterSend_unsent, if_true, Bool.false_eq_true, if_false, List.map_cons, List.map_nil, ← Multiset.coe_add,
      ← Multiset.cons_coe, ← Multiset.singleton_add, Multiset.coe_nil, add_zero]
    abel
  | push ht hpc => rw [ht] at hi; rw [← hi]; simp [hpc]
  | recvErr hm _ ht hpc => rw [hm, ht] at hi; rw [← hi]; simp [MainPc.pending, hpc]

/-- **Every analyzer not skipped is called, once.** Without `exitOnError`,
in whatever order the tasks run, every run of `concurrentRequest` ends
having called each analyzer it does not skip exactly once, and no other. -/
theorem sent_exactly (hx : env.exitOnError = false) (c : Struct) :
    Terminates (Step env) (fun s => (s.notified.map Prod.fst).Perm
      ((env.registry.analyzers.filter fun e => !skipped env.conf e.1 e.2).map Prod.fst)) (env.init c) :=
  terminates_of_measure (I := fun s => CollectInv env s ∧ SendInv env s) weight (fun _ _ _ h => h.weight_lt)
    (fun _ _ hi h => ⟨hi.1.step hx h, hi.2.step h⟩)
    (fun s hi hstuck => by
      obtain ⟨acc, hm, ht, -⟩ := hi.1.stuck hstuck
      have := hi.2
      simp only [SendInv, hm, ht, MainPc.pending, List.filter_nil, List.map_nil, Multiset.coe_nil,
        add_zero] at this
      exact Multiset.coe_eq_coe.1 this)
    _ ⟨collectInv_init c, sendInv_init c⟩

end FanOut

/-- **Which analyzers a handled event calls.** With configurations that
parse and without `exitOnError`, every run of the fan-out on the merged
configuration calls each analyzer at most once, and calls exactly the
registered analyzers disabled neither in their server `Config` nor in the
organization's entry for them (the server's `Config` when it has none): the
repository's `disabled` plays no part. -/
theorem sent_iff_enabled {r : Registry} {decode : String → Except String (List AnalyzerConfig)}
    {head bytes org : String} {repoConf orgConf : List AnalyzerConfig}
    (hr : bytes.isEmpty = false → decode bytes = .ok repoConf) (ho : decode org = .ok orgConf)
    (toStruct : Settings → Option Struct) (outcome : String → SendResult) (c : Struct) :
    ∃ conf, eventConfig decode r head (.content bytes) (.ok org) = .ok conf ∧
      Terminates (FanOut.Step ⟨r, conf, false, toStruct, outcome⟩)
        (fun s => (s.notified.map Prod.fst).Nodup ∧ ∀ n, n ∈ s.notified.map Prod.fst ↔
          ∃ a, r.analyzers.lookup n = some a ∧ a.disabled = false ∧ (layerConfig orgConf n a).disabled = false)
        (FanOutEnv.init ⟨r, conf, false, toStruct, outcome⟩ c) := by
  obtain ⟨conf, hconf⟩ : ∃ conf, eventConfig decode r head (.content bytes) (.ok org) = .ok conf :=
    eventConfig_ok hr ho
  have hsk {n : String} {a : AnalyzerConfig} (hn : r.analyzers.lookup n = some a) :
      skipped conf n a = (a.disabled || (layerConfig orgConf n a).disabled) := by
    obtain ⟨conf', h', hs⟩ : ∃ conf', eventConfig decode r head (.content bytes) (.ok org) = .ok conf' ∧
        skipped conf' n a = (a.disabled || (layerConfig orgConf n a).disabled) := skipped_eventConfig hn hr ho
    rw [hconf, Except.ok.injEq] at h'
    rwa [h']
  refine ⟨conf, hconf, (FanOut.sent_exactly rfl c).mono fun s hperm => ⟨?_, fun n => ?_⟩⟩
  · exact hperm.nodup_iff.2 (((List.filter_sublist _).map _).nodup r.nodup)
  · rw [hperm.mem_iff]
    simp only [List.mem_map, List.mem_filter, Bool.not_eq_true', Prod.exists, exists_and_right, exists_eq_right]
    constructor
    · rintro ⟨a, hmem, hs⟩
      have hn := lookup_of_mem r.nodup hmem
      rw [hsk hn, Bool.or_eq_false_iff] at hs
      exact ⟨a, hn, hs⟩
    · rintro ⟨a, hn, hd, hl⟩
      exact ⟨a, mem_of_lookup_eq_some hn, by rw [hsk hn, hd, hl]; rfl⟩

/-- A repository `.lookout.yml` that disables `a`. -/
def repoYamlDisableA : String := "analyzers: [{name: a, disabled: true}]"

/-- Its entry for `a`. -/
def repoDisableA : AnalyzerConfig := ⟨"a", "", true, "", []⟩

/-- The YAML decoder on these files: `repoYamlDisableA` holds `repoDisableA`,
any other file no entry. -/
def decodeDisableA (content : String) : Except String (List AnalyzerConfig) :=
  if content = repoYamlDisableA then .ok [repoDisableA] else .ok []

/-- The fan-out of `registryA` on the merged configuration `conf`, `a`
answering no comment. -/
def sendEnv (conf : ConfigMap) : FanOutEnv Settings := ⟨registryA, conf, false, some, fun _ => .ok []⟩

theorem sent_iff_enabled_disableA :
    (repoYamlDisableA.isEmpty = false → decodeDisableA repoYamlDisableA = .ok [repoDisableA]) ∧
    decodeDisableA "" = .ok [] ∧
    ∃ conf, eventConfig decodeDisableA registryA "HEAD" (.content repoYamlDisableA) (.ok "") = .ok conf ∧
      Terminates (FanOut.Step (sendEnv conf))
        (fun s => (s.notified.map Prod.fst).Nodup ∧ ∀ n, n ∈ s.notified.map Prod.fst ↔
          ∃ a, registryA.analyzers.lookup n = some a ∧ a.disabled = false ∧ (layerConfig [] n a).disabled = false)
        ((sendEnv conf).init []) :=
  ⟨fun _ => rfl, rfl, sent_iff_enabled (fun _ => rfl) rfl some (fun _ => .ok []) []⟩

/-- **An analyzer the repository disables is called.** With `a` enabled on
the server and in the organization, a repository `.lookout.yml` whose entry
for `a` sets `disabled: true` still has `a`'s task spawned and its analyzer
called: `mergeConfigs` keeps the organization's entry, `disabled` included,
and merges only the settings. -/
theorem repo_disabled_sent :
    decodeDisableA repoYamlDisableA = .ok [repoDisableA] ∧ repoDisableA.disabled = true ∧
    ∃ conf, eventConfig decodeDisableA registryA "HEAD" (.content repoYamlDisableA) (.ok "") = .ok conf ∧
      ∃ s, FanOut.Reaches (sendEnv conf) ((sendEnv conf).init []) s ∧ s.notified.map Prod.fst = ["a"] := by
  refine ⟨rfl, rfl, registryA.analyzers, rfl, ?_⟩
  have h := (((Relation.ReflTransGen.refl : FanOut.Reaches (sendEnv registryA.analyzers)
    ((sendEnv registryA.analyzers).init []) _).tail
    (FanOut.Step.spawn rfl rfl)).tail (FanOut.Step.write (show _ = [] ++ _ :: [] from rfl) rfl)).tail
    (FanOut.Step.notify (show _ = [] ++ _ :: [] from rfl) rfl)
  exact ⟨_, h, rfl⟩

end Lookout

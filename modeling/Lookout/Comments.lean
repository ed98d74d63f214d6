import Lookout.Config
import Mathlib.Data.List.Nodup
/-!
# Lookout — comments, and the two passes `post` makes over them

`post` first collapses comments that share `(file, line, text)` across all
analyzer groups (`Dedup`), then drops those the ledger reports as posted
(`Filter`). Neither method is among the sources; both are modelled from the
spec. Each pass is read off the flat list of `(config, comment)` pairs the
groups hold (`pairs_dedupFrom`, `pairs_filterGroups`), and what the poster
finally receives is characterised on that list: every triple of the input
exactly once, under the config of a group that held it.
-/

namespace Lookout

/-- `lookout.Comment`. -/
structure Comment where
  file : String
  line : Int
  text : String
  confidence : Nat
  deriving DecidableEq, Repr

/-- What two comments are compared on, for deduplication and in the ledger. -/
abbrev Triple := String × Int × String

/-- The comment's `(file, line, text)`. -/
def Comment.triple (c : Comment) : Triple := (c.file, c.line, c.text)

/-- `lookout.AnalyzerComments`: one analyzer's `Config` and its comments. -/
structure AnalyzerComments where
  config : AnalyzerConfig
  comments : List Comment

/-- How a call into a collaborator ends: a value, a returned error, or a
panic that unwinds the goroutine. -/
inductive Outcome (α : Type) where
  | ok (a : α)
  | err (msg : String)
  | panic

/-- Every comment of the groups, with the config of its group, in order. -/
def pairs (gs : List AnalyzerComments) : List (AnalyzerConfig × Comment) :=
  gs.flatMap fun g => g.comments.map (g.config, ·)

/-- The comments of a group whose triple no earlier comment had. -/
def firstSeen (seen : List Triple) : List Comment → List Comment
  | [] => []
  | c :: cs => if c.triple ∈ seen then firstSeen seen cs else c :: firstSeen (seen ++ [c.triple]) cs

/-- Modelled from the spec: `AnalyzerCommentsGroups.Dedup` is not among the
sources. Across all groups, a comment whose `(file, line, text)` an earlier
comment has is dropped; a survivor stays in its group, and a group left
empty is dropped. -/
def dedupFrom (seen : List Triple) : List AnalyzerComments → List AnalyzerComments
  | [] => []
  | g :: gs =>
    let kept := firstSeen seen g.comments
    let rest := dedupFrom (seen ++ kept.map Comment.triple) gs
    if kept.isEmpty then rest else ⟨g.config, kept⟩ :: rest

/-- `AnalyzerCommentsGroups.Dedup`. -/
def dedup (gs : List AnalyzerComments) : List AnalyzerComments := dedupFrom [] gs

/-- The comments `fn` does not report as posted; the first error or panic
ends the pass. -/
def filterComments (fn : Comment → Outcome Bool) : List Comment → Outcome (List Comment)
  | [] => .ok []
  | c :: cs =>
    match fn c with
    | .err msg => .err msg
    | .panic => .panic
    | .ok yes =>
      match filterComments fn cs with
      | .ok kept => .ok (if yes then kept else c :: kept)
      | .err msg => .err msg
      | .panic => .panic

/-- Modelled from the spec: `AnalyzerCommentsGroups.Filter` is not among the
sources. It drops every comment `fn` reports as posted, keeps the groups'
order, drops a group left empty (so that `post` posts nothing exactly when
zero comments remain), and stops at the first error. -/
def filterGroups (fn : Comment → Outcome Bool) : List AnalyzerComments → Outcome (List AnalyzerComments)
  | [] => .ok []
  | g :: gs =>
    match filterComments fn g.comments with
    | .err msg => .err msg
    | .panic => .panic
    | .ok kept =>
      match filterGroups fn gs with
      | .ok rest => .ok (if kept.isEmpty then rest else ⟨g.config, kept⟩ :: rest)
      | .err msg => .err msg
      | .panic => .panic

/-! ## Both passes, on the flat list -/

/-- Dedup on the flat list: keep a pair when no earlier pair had its triple. -/
def keepFirst (seen : List Triple) : List (AnalyzerConfig × Comment) → List (AnalyzerConfig × Comment)
  | [] => []
  | p :: ps => if p.2.triple ∈ seen then keepFirst seen ps else p :: keepFirst (seen ++ [p.2.triple]) ps

variable {seen : List Triple}

@[simp] theorem pairs_nil : pairs [] = [] := rfl

@[simp] theorem pairs_cons (g : AnalyzerComments) (gs : List AnalyzerComments) :
    pairs (g :: gs) = g.comments.map (g.config, ·) ++ pairs gs := rfl

theorem keepFirst_map_append (cfg : AnalyzerConfig) (cs : List Comment) (rest) :
    keepFirst seen (cs.map (cfg, ·) ++ rest) =
      (firstSeen seen cs).map (cfg, ·) ++ keepFirst (seen ++ (firstSeen seen cs).map Comment.triple) rest := by
  induction cs generalizing seen with
  | nil => simp [firstSeen, keepFirst]
  | cons c cs ih =>
    by_cases h : c.triple ∈ seen
    · simp [keepFirst, firstSeen, h, ih]
    · simp [keepFirst, firstSeen, h, ih]

/-- **Dedup, read on the flat list.** -/
theorem pairs_dedupFrom (gs : List AnalyzerComments) : pairs (dedupFrom seen gs) = keepFirst seen (pairs gs) := by
  induction gs generalizing seen with
  | nil => rfl
  | cons g gs ih =>
    rw [pairs_cons, keepFirst_map_append, dedupFrom]
    by_cases h : (firstSeen seen g.comments).isEmpty
    · simp [h, ih, List.isEmpty_iff.1 h]
    · simp [h, ih]

theorem keepFirst_sublist (ps : List (AnalyzerConfig × Comment)) : (keepFirst seen ps).Sublist ps := by
  induction ps generalizing seen with
  | nil => exact .slnil
  | cons p ps ih =>
    unfold keepFirst; split
    · exact ih.cons _
    · exact ih.cons₂ _

/-- The triples dedup keeps: each triple of the input not seen before. -/
theorem mem_keepFirst_triples (ps : List (AnalyzerConfig × Comment)) (t : Triple) :
    t ∈ (keepFirst seen ps).map (·.2.triple) ↔ t ∉ seen ∧ t ∈ ps.map (·.2.triple) := by
  induction ps generalizing seen with
  | nil => simp [keepFirst]
  | cons p ps ih =>
    unfold keepFirst
    split
    · rename_i h
      rw [ih]
      simp only [List.map_cons, List.mem_cons]
      constructor
      · exact fun ⟨h1, h2⟩ => ⟨h1, .inr h2⟩
      · rintro ⟨h1, rfl | h2⟩
        · exact absurd h h1
        · exact ⟨h1, h2⟩
    · rename_i h
      simp only [List.map_cons, List.mem_cons, ih, List.mem_append, List.mem_singleton, not_or,
        List.not_mem_nil, not_false_eq_true, and_true]
      constructor
      · rintro (rfl | ⟨⟨h1, -⟩, h2⟩)
        · exact ⟨h, .inl rfl⟩
        · exact ⟨h1, .inr h2⟩
      · rintro ⟨h1, rfl | h2⟩
        · exact .inl rfl
        · by_cases ht : t = p.2.triple
          · exact .inl ht
          · exact .inr ⟨⟨h1, ht⟩, h2⟩

theorem nodup_keepFirst_triples (ps : List (AnalyzerConfig × Comment)) :
    ((keepFirst seen ps).map (·.2.triple)).Nodup := by
  induction ps generalizing seen with
  | nil => exact List.nodup_nil
  | cons p ps ih =>
    unfold keepFirst
    split
    · exact ih
    · refine List.nodup_cons.2 ⟨fun h => ?_, ih⟩
      simpa using ((mem_keepFirst_triples ps _).1 h).1


theorem filterComments_ok (b : Comment → Bool) (cs : List Comment) :
    filterComments (fun c => .ok (b c)) cs = .ok (cs.filter fun c => !b c) := by
  induction cs with
  | nil => rfl
  | cons c cs ih => cases h : b c <;> simp [filterComments, ih, h]

/-- **Filter, read on the flat list**, when every ledger lookup succeeds:
the pairs whose comment the ledger does not report, in groups none of
which is empty. -/
theorem filterGroups_ok (b : Comment → Bool) (gs : List AnalyzerComments) :
    ∃ gs', filterGroups (fun c => .ok (b c)) gs = .ok gs' ∧
      pairs gs' = (pairs gs).filter (fun p => !b p.2) ∧ ∀ g ∈ gs', g.comments ≠ [] := by
  induction gs with
  | nil => exact ⟨[], rfl, rfl, nofun⟩
  | cons g gs ih =>
    obtain ⟨gs', h, hp, hne⟩ := ih
    have hmap : (g.comments.map (g.config, ·)).filter (fun p => !b p.2) =
        (g.comments.filter fun c => !b c).map (g.config, ·) := by
      rw [List.filter_map]; rfl
    simp only [filterGroups, filterComments_ok, h, pairs_cons, List.filter_append, hmap]
    by_cases hk : (g.comments.filter fun c => !b c).isEmpty
    · exact ⟨gs', by simp [hk], by rw [List.isEmpty_iff.1 hk, hp]; rfl, hne⟩
    · refine ⟨⟨g.config, g.comments.filter fun c => !b c⟩ :: gs', by simp [hk], by rw [pairs_cons, hp], ?_⟩
      rintro g' (_ | ⟨_, hg'⟩)
      · simpa using hk
      · exact hne g' hg'


theorem pairs_eq_nil_iff {gs : List AnalyzerComments} (h : ∀ g ∈ gs, g.comments ≠ []) :
    pairs gs = [] ↔ gs = [] := by
  cases gs with
  | nil => simp
  | cons g gs =>
    simp only [pairs_cons, List.append_eq_nil, List.map_eq_nil_iff, reduceCtorEq, iff_false, not_and]
    exact fun h' => absurd h' (h g (List.mem_cons_self _ _))

/-- What a pass that returns keeps: comments `fn` answered false for. -/
theorem filterComments_fresh {fn : Comment → Outcome Bool} :
    ∀ {cs kept : List Comment}, filterComments fn cs = .ok kept → ∀ c ∈ kept, fn c = .ok false
  | [], _, h => by cases h; nofun
  | c :: cs, kept, h => by
    unfold filterComments at h
    split at h <;> try cases h
    rename_i yes hc
    split at h <;> cases h
    rename_i kept' hk
    intro c' hc'
    cases yes
    · rcases List.mem_cons.1 hc' with rfl | hc'
      · exact hc
      · exact filterComments_fresh hk c' hc'
    · exact filterComments_fresh hk c' hc'

/-- What a pass over groups that returns keeps: non-empty groups of
comments `fn` answered false for. -/
theorem filterGroups_fresh {fn : Comment → Outcome Bool} :
    ∀ {gs gs' : List AnalyzerComments}, filterGroups fn gs = .ok gs' →
      (∀ g ∈ gs', g.comments ≠ []) ∧ ∀ p ∈ pairs gs', fn p.2 = .ok false
  | [], _, h => by cases h; exact ⟨nofun, nofun⟩
  | g :: gs, gs', h => by
    unfold filterGroups at h
    split at h <;> try cases h
    rename_i kept hk
    split at h <;> cases h
    rename_i rest hr
    obtain ⟨hne, hfresh⟩ := filterGroups_fresh hr
    split_ifs with he
    · exact ⟨hne, hfresh⟩
    · refine ⟨?_, fun p hp => ?_⟩
      · rintro g' (_ | ⟨_, hg'⟩)
        · simpa using he
        · exact hne g' hg'
      · rcases List.mem_append.1 hp with hp | hp
        · obtain ⟨c, hc, rfl⟩ := List.mem_map.1 hp
          exact filterComments_fresh hk c hc
        · exact hfresh p hp

/-- **What `post` hands the poster**, when every ledger lookup answers: each
triple of the input that the ledger does not report, exactly once, under
the config of a group that held it; and nothing when no such triple is
left. -/
theorem survivors (posted : Triple → Bool) (gs : List AnalyzerComments) :
    ∃ gs', filterGroups (fun c => .ok (posted c.triple)) (dedup gs) = .ok gs' ∧
      ((pairs gs').map (·.2.triple)).Nodup ∧
      (∀ t, t ∈ (pairs gs').map (·.2.triple) ↔ t ∈ (pairs gs).map (·.2.triple) ∧ posted t = false) ∧
      (∀ p ∈ pairs gs', p ∈ pairs gs) ∧
      (gs' = [] ↔ ∀ t ∈ (pairs gs).map (·.2.triple), posted t = true) := by
  obtain ⟨gs', h, hp, hne⟩ := filterGroups_ok (fun c => posted c.triple) (dedup gs)
  rw [dedup, pairs_dedupFrom] at hp
  have hsub : (pairs gs').Sublist (pairs gs) := hp ▸ (List.filter_sublist _).trans (keepFirst_sublist _)
  have hmem (t : Triple) :
      t ∈ (pairs gs').map (·.2.triple) ↔ t ∈ (pairs gs).map (·.2.triple) ∧ posted t = false := by
    rw [hp, show (fun p : AnalyzerConfig × Comment => !posted p.2.triple) = (fun t => !posted t) ∘ (·.2.triple)
      from rfl, ← List.filter_map, List.mem_filter, mem_keepFirst_triples]
    simp
  refine ⟨gs', h, ?_, hmem, fun p hp' => hsub.subset hp', ?_⟩
  · rw [hp]
    exact ((List.filter_sublist _).map _).nodup (nodup_keepFirst_triples _)
  · rw [← pairs_eq_nil_iff hne, ← List.map_eq_nil_iff (f := (·.2.triple)), List.eq_nil_iff_forall_not_mem]
    simp only [hmem]
    exact ⟨fun h t ht => by simpa [ht] using h t, fun h t ⟨ht, hf⟩ => by simp [h t ht] at hf⟩

end Lookout

import Mathlib.Data.List.Nodup
/-!
# Lookout — analyzer settings and their deep merge

An analyzer's `settings` is a free-form dictionary, decoded from YAML into
Go's `map[string]interface{}`. This file gives the values such a map holds,
the two functions of `server/server.go` that merge them (`mergeMaps`,
`mergeSettings`), and the laws they satisfy: merging with the empty map,
merging a map with itself, and merging the same overlay twice, all hold on
every well-formed map of any depth.

Maps are association lists in iteration order; assigning a key (`setKey`)
replaces its entry in place or appends it, as `merged[k] = v` does to the
contents of a Go map. A Go map has no key twice, which is `Value.WF`; a
`GoMap` carries it, and `mergeMaps` keeps it (`mergeMaps_wf`).
-/

namespace Lookout

/-- A scalar as the YAML decoder hands it over. -/
inductive Scalar where
  | null
  | bool (b : Bool)
  | int (n : Int)
  | float (text : String)
  | str (s : String)
  deriving DecidableEq, Repr

/-- A decoded settings value. A mapping with string keys is
`map[string]interface{}` (`smap`); the YAML decoder hands nested mappings
over as `map[interface{}]interface{}` (`imap`). -/
inductive Value where
  | scalar (s : Scalar)
  | list (vs : List Value)
  | smap (entries : List (String × Value))
  | imap (entries : List (Value × Value))
  deriving Repr, Inhabited

/-- A settings map, `map[string]interface{}`. A nil map reads as the empty
one: ranging over it visits nothing and every lookup misses. -/
abbrev Settings := List (String × Value)

/-- The keys of a string-keyed map, in iteration order. -/
def keys {α : Type} (m : List (String × α)) : List String := m.map Prod.fst

/-- `m[k] = v`: replace the entry of `k`, or add one. -/
def setKey {α : Type} (k : String) (v : α) : List (String × α) → List (String × α)
  | [] => [(k, v)]
  | (k', v') :: rest => if k' = k then (k, v) :: rest else (k', v') :: setKey k v rest

mutual
/-- `mergeMaps(global, local)`: start from a copy of `global`; for each
entry of `local`, merge recursively where both sides hold a
`map[string]interface{}`, and otherwise let `local`'s value win. -/
def mergeMaps (global : Settings) : Settings → Settings
  | [] => global
  | (k, v) :: rest => mergeMaps (setKey k (mergeEntry (global.lookup k) v) global) rest

/-- The value `mergeMaps` stores under a key of `local`, from the value
`merged` holds there (if any) and `local`'s. -/
def mergeEntry : Option Value → Value → Value
  | some (.smap gvMap), .smap subMap => .smap (mergeMaps gvMap subMap)
  | _, v => v
end

/-- `mergeSettings(global, local)`: a nil side yields the other. -/
def mergeSettings (global «local» : Settings) : Settings :=
  if «local».isEmpty then global else if global.isEmpty then «local» else mergeMaps global «local»

/-- A Go map holds each key once, at every depth. -/
inductive Value.WF : Value → Prop
  | scalar (s : Scalar) : WF (.scalar s)
  | list {vs : List Value} : (∀ v ∈ vs, WF v) → WF (.list vs)
  | smap {es : Settings} : (keys es).Nodup → (∀ e ∈ es, WF e.2) → WF (.smap es)
  | imap {es : List (Value × Value)} : (es.map Prod.fst).Nodup → (∀ e ∈ es, WF e.2) →
      WF (.imap es)

/-- A well-formed settings map. -/
def MapWF (m : Settings) : Prop := (keys m).Nodup ∧ ∀ e ∈ m, e.2.WF

/-! ## Maps as association lists

A Go map's contents, read off its association list: the lemmas below
are what every later proof uses instead of unfolding `setKey` or `lookup`. -/

section Maps

variable {α : Type} {k : String} {x : α} {m : List (String × α)}

@[simp] theorem keys_nil : keys ([] : List (String × α)) = [] := rfl

@[simp] theorem keys_cons (e : String × α) (m : List (String × α)) : keys (e :: m) = e.1 :: keys m := rfl

@[simp] theorem keys_append (m m' : List (String × α)) : keys (m ++ m') = keys m ++ keys m' := List.map_append ..

theorem mem_keys_of_mem {e : String × α} (he : e ∈ m) : e.1 ∈ keys m :=
  List.mem_map_of_mem _ he

/-- A key not among a map's keys differs from every entry's. -/
theorem ne_of_not_mem_keys {e : String × α} (hk : k ∉ keys m) (he : e ∈ m) : e.1 ≠ k :=
  fun h => hk (h ▸ mem_keys_of_mem he)

theorem lookup_eq_none (h : k ∉ keys m) : m.lookup k = none := by
  induction m with
  | nil => rfl
  | cons e m ih =>
    obtain ⟨k', v'⟩ := e
    simp only [keys_cons, List.mem_cons, not_or] at h
    simp [List.lookup_cons, beq_false_of_ne h.1, ih h.2]

theorem lookup_of_mem (hnd : (keys m).Nodup) {e : String × α} (he : e ∈ m) :
    m.lookup e.1 = some e.2 := by
  induction m with
  | nil => cases he
  | cons e' m ih =>
    obtain ⟨k', v'⟩ := e'
    simp only [keys_cons, List.nodup_cons] at hnd
    rcases List.mem_cons.1 he with rfl | he
    · simp [List.lookup_cons]
    · simp [List.lookup_cons, beq_false_of_ne (ne_of_not_mem_keys hnd.1 he), ih hnd.2 he]

theorem mem_of_lookup_eq_some (h : m.lookup k = some x) : (k, x) ∈ m := by
  induction m with
  | nil => cases h
  | cons e m ih =>
    obtain ⟨k', v'⟩ := e
    by_cases hk : k = k'
    · subst hk; simp_all [List.lookup_cons]
    · simp only [List.lookup_cons, beq_false_of_ne hk] at h
      exact List.mem_cons_of_mem _ (ih h)

theorem setKey_of_not_mem (h : k ∉ keys m) : setKey k x m = m ++ [(k, x)] := by
  induction m with
  | nil => rfl
  | cons e m ih =>
    simp only [keys_cons, List.mem_cons, not_or] at h
    simp [setKey, Ne.symm h.1, ih h.2]

theorem setKey_of_mem (hnd : (keys m).Nodup) (h : k ∈ keys m) :
    setKey k x m = m.map fun e => if e.1 = k then (k, x) else e := by
  induction m with
  | nil => cases h
  | cons e m ih =>
    simp only [keys_cons, List.nodup_cons, List.mem_cons] at hnd h
    by_cases he : e.1 = k
    · subst he
      rw [setKey, if_pos rfl, List.map_cons, if_pos rfl]
      congr 1
      exact ((List.map_congr_left fun e' he' => if_neg (ne_of_not_mem_keys hnd.1 he')).trans
        (List.map_id _)).symm
    · simp [setKey, he, ih hnd.2 (h.resolve_left (Ne.symm he))]

/-- Reading a key back after `m[k] = x`. -/
theorem lookup_setKey (n : String) : (setKey k x m).lookup n = if n = k then some x else m.lookup n := by
  induction m with
  | nil => by_cases h : n = k <;> simp [setKey, List.lookup_cons, h, beq_false_of_ne]
  | cons e m ih =>
    obtain ⟨k', x'⟩ := e
    by_cases hk : k' = k
    · subst hk; by_cases h : n = k' <;> simp [setKey, List.lookup_cons, h, beq_false_of_ne]
    · by_cases h : n = k' <;> simp_all [setKey, List.lookup_cons, beq_false_of_ne]

theorem keys_setKey_of_mem (hnd : (keys m).Nodup) (h : k ∈ keys m) :
    keys (setKey k x m) = keys m := by
  rw [setKey_of_mem hnd h, keys, List.map_map]
  exact List.map_congr_left fun e _ => by by_cases he : e.1 = k <;> simp [he]

end Maps

variable {k : String} {v w : Value} {g l m : Settings}

/-! ## `mergeMaps` in closed form -/

@[simp] theorem mergeEntry_none : mergeEntry none v = v := by cases v <;> rfl

theorem mergeEntry_smap {gm sub : Settings} :
    mergeEntry (some (.smap gm)) (.smap sub) = .smap (mergeMaps gm sub) := by
  rw [mergeEntry]

theorem mergeEntry_of_not_smap {a : Option Value} (h : ∀ sub, w ≠ .smap sub) : mergeEntry a w = w := by
  rw [mergeEntry]; exact fun _ _ _ hw => absurd hw (h _)

theorem mergeEntry_of_left {a : Option Value} (h : ∀ gm, a ≠ some (.smap gm)) : mergeEntry a w = w := by
  rw [mergeEntry]; exact fun _ _ ha _ => absurd ha (h _)

/-- What `mergeMaps global local` leaves under a key of `global`. -/
def overlay («local» : Settings) (e : String × Value) : String × Value :=
  (e.1, match «local».lookup e.1 with
    | some w => mergeEntry (some e.2) w
    | none => e.2)

@[simp] theorem overlay_fst (e : String × Value) : (overlay l e).1 = e.1 := rfl

theorem overlay_of_not_mem {e : String × Value} (h : e.1 ∉ keys l) : overlay l e = e := by
  simp [overlay, lookup_eq_none h]

theorem overlay_cons_of_ne {e : String × Value} (h : e.1 ≠ k) : overlay ((k, v) :: l) e = overlay l e := by
  simp [overlay, List.lookup_cons, beq_false_of_ne h]

/-- **`mergeMaps`, in closed form.** `global`'s entries stay where they are,
each overlaid with `local`'s value for its key, and `local`'s new keys follow
in `local`'s order. -/
theorem mergeMaps_eq (hg : (keys g).Nodup) (hl : (keys l).Nodup) :
    mergeMaps g l = g.map (overlay l) ++ l.filter fun e => e.1 ∉ keys g := by
  induction l generalizing g with
  | nil =>
    rw [mergeMaps, show overlay [] = id from rfl]
    simp
  | cons e rest ih =>
    obtain ⟨k, v⟩ := e
    simp only [keys_cons, List.nodup_cons] at hl
    rw [mergeMaps]
    by_cases hk : k ∈ keys g
    · rw [ih (by rwa [keys_setKey_of_mem hg hk]) hl.2, keys_setKey_of_mem hg hk,
        setKey_of_mem hg hk, List.map_map, List.filter_cons_of_neg (by simpa using hk)]
      congr 1
      refine List.map_congr_left fun e he => ?_
      by_cases he1 : e.1 = k
      · subst he1
        simp [overlay, lookup_eq_none hl.1, lookup_of_mem hg he]
      · simp [he1, overlay_cons_of_ne he1]
    · rw [lookup_eq_none hk, mergeEntry_none, setKey_of_not_mem hk] at *
      have hg' : (keys (g ++ [(k, v)])).Nodup := by
        simpa using hg.append (List.nodup_singleton k) (List.disjoint_singleton.2 hk)
      rw [ih hg' hl.2, List.map_append, List.filter_cons_of_pos (by simpa using hk)]
      simp only [List.map_cons, List.map_nil, overlay_of_not_mem (show (k, v).1 ∉ keys rest from hl.1),
        List.append_assoc, List.singleton_append]
      congr 1
      · exact List.map_congr_left fun e he => (overlay_cons_of_ne (ne_of_not_mem_keys hk he)).symm
      · congr 1
        exact List.filter_congr fun e he => by simp [ne_of_not_mem_keys hl.1 he]

theorem keys_mergeMaps (hg : (keys g).Nodup) (hl : (keys l).Nodup) :
    keys (mergeMaps g l) = keys g ++ keys (l.filter fun e => e.1 ∉ keys g) := by
  rw [mergeMaps_eq hg hl, keys_append, keys, keys, List.map_map]
  rfl

theorem nodup_keys_mergeMaps (hg : (keys g).Nodup) (hl : (keys l).Nodup) :
    (keys (mergeMaps g l)).Nodup := by
  rw [keys_mergeMaps hg hl]
  refine hg.append (((List.filter_sublist l).map Prod.fst).nodup hl) fun k hk hk' => ?_
  obtain ⟨e, he, rfl⟩ := List.mem_map.1 hk'
  exact (by simpa using (List.mem_filter.1 he).2 : e.1 ∉ keys g) hk

theorem mem_keys_mergeMaps (hg : (keys g).Nodup) (hl : (keys l).Nodup) (hk : k ∈ keys l) :
    k ∈ keys (mergeMaps g l) := by
  rw [keys_mergeMaps hg hl]
  by_cases hkg : k ∈ keys g
  · exact List.mem_append_left _ hkg
  · obtain ⟨e, he, rfl⟩ := List.mem_map.1 hk
    exact List.mem_append_right _ (mem_keys_of_mem (List.mem_filter.2 ⟨he, by simpa using hkg⟩))

/-- An overlay's key is a key of the merged map. -/
theorem lookup_mergeMaps_overlay (hg : (keys g).Nodup) (hl : (keys l).Nodup)
    {e : String × Value} (he : e ∈ g) : (mergeMaps g l).lookup e.1 = some (overlay l e).2 :=
  lookup_of_mem (e := overlay l e) (nodup_keys_mergeMaps hg hl)
    (by rw [mergeMaps_eq hg hl]; exact List.mem_append_left _ (List.mem_map_of_mem _ he))

/-! ## Merging keeps maps well formed -/

theorem MapWF.smap {m : Settings} : (Value.smap m).WF ↔ MapWF m :=
  ⟨fun h => by cases h with | smap hk hv => exact ⟨hk, hv⟩, fun h => .smap h.1 h.2⟩

/-- A settings map with the invariant a Go map keeps. -/
structure GoMap where
  entries : Settings
  wf : MapWF entries

/-! ## The merge laws

Each law is proved for one value by induction on its well-formedness, so
that the induction hypothesis covers every entry of a nested map; the map
forms follow by reading the laws at `smap`. -/

/-- Merging a value with itself changes nothing. -/
theorem mergeEntry_self (hv : v.WF) : mergeEntry (some v) v = v := by
  induction hv with
  | smap hk _ ih =>
    rw [mergeEntry_smap, mergeMaps_eq hk hk, List.filter_eq_nil_iff.2 fun e he => by
      simpa using mem_keys_of_mem he, List.append_nil]
    congr 1
    refine (List.map_congr_left fun e he => ?_).trans (List.map_id _)
    simp [overlay, lookup_of_mem hk he, ih e he]
  | scalar | list | imap => exact mergeEntry_of_not_smap fun _ => nofun

theorem mergeMaps_self (h : MapWF g) : mergeMaps g g = g := by
  simpa [mergeEntry_smap] using mergeEntry_self (MapWF.smap.2 h)

/-- **Merging the overlay a second time changes nothing**, at every depth. -/
theorem mergeEntry_idem_right {a : Option Value} (ha : ∀ x ∈ a, x.WF) (hw : w.WF) :
    mergeEntry (some (mergeEntry a w)) w = mergeEntry a w := by
  induction hw generalizing a with
  | @smap es hk _ ih =>
    rcases a with _ | ((_ | _ | gm | _) : Value) <;> try exact mergeEntry_self (.smap hk ‹_›)
    obtain ⟨hgk, hgv⟩ := MapWF.smap.1 (ha _ rfl)
    simp only [mergeEntry_smap, Value.smap.injEq]
    rw [mergeMaps_eq (nodup_keys_mergeMaps hgk hk) hk, List.filter_eq_nil_iff.2 fun e he => by
      simpa using mem_keys_mergeMaps hgk hk (mem_keys_of_mem he), List.append_nil,
      mergeMaps_eq hgk hk, List.map_append, List.map_map]
    congr 1
    · refine List.map_congr_left fun e he => ?_
      simp only [Function.comp, overlay]
      split
      · rename_i w' hw'
        simp [hw', ih _ (mem_of_lookup_eq_some hw') (a := some e.2) (by simpa using hgv e he)]
      · simp [*]
    · refine (List.map_congr_left fun e he => ?_).trans (List.map_id _)
      obtain ⟨he, -⟩ := List.mem_filter.1 he
      simp [overlay, lookup_of_mem hk he, mergeEntry_self (‹∀ e ∈ es, e.2.WF› e he)]
  | scalar | list | imap => simp [mergeEntry_of_not_smap]

/-- **Merging under the same base a second time changes nothing**, at every
depth. -/
theorem mergeEntry_idem_left (hv : v.WF) (hw : w.WF) :
    mergeEntry (some v) (mergeEntry (some v) w) = mergeEntry (some v) w := by
  induction hv generalizing w with
  | @smap gm hgk hgv ih =>
    cases hw with
    | @smap es hk hes => ?_
    | _ => simp [mergeEntry_of_not_smap]
    simp only [mergeEntry_smap, Value.smap.injEq]
    have hmap : gm.map (overlay (mergeMaps gm es)) = gm.map (overlay es) :=
      List.map_congr_left fun e he => by
        simp only [overlay, lookup_mergeMaps_overlay hgk hk he]
        split
        · rename_i w' hw'
          simp [hw', ih e he (hes _ (mem_of_lookup_eq_some hw'))]
        · simp [*, mergeEntry_self (hgv e he)]
    have hfilter : (mergeMaps gm es).filter (fun e => e.1 ∉ keys gm) = es.filter fun e => e.1 ∉ keys gm := by
      rw [mergeMaps_eq hgk hk, List.filter_append, List.filter_filter, List.filter_eq_nil_iff.2]
      · simp
      · intro e he
        obtain ⟨e0, he0, rfl⟩ := List.mem_map.1 he
        simpa using mem_keys_of_mem he0
    rw [mergeMaps_eq hgk (nodup_keys_mergeMaps hgk hk), hmap, hfilter, mergeMaps_eq hgk hk]
  | scalar | list | imap => simp [mergeEntry_of_left]

/-- **The laws of `mergeMaps`.** On maps with distinct keys at every level,
an empty map on either side is neutral, a map merged with itself is itself,
merging the same local map a second time, from either side, changes nothing,
and `mergeSettings`, with its shortcuts for an empty side, is `mergeMaps`. -/
theorem mergeMaps_laws (A B : GoMap) :
    mergeMaps A.entries [] = A.entries ∧ mergeMaps [] B.entries = B.entries ∧
    mergeMaps A.entries A.entries = A.entries ∧
    mergeMaps (mergeMaps A.entries B.entries) B.entries = mergeMaps A.entries B.entries ∧
    mergeMaps A.entries (mergeMaps A.entries B.entries) = mergeMaps A.entries B.entries ∧
    mergeSettings A.entries B.entries = mergeMaps A.entries B.entries := by
  obtain ⟨a, ha⟩ := A
  obtain ⟨b, hb⟩ := B
  have hempty : mergeMaps [] b = b := by
    rw [mergeMaps_eq (g := []) List.nodup_nil hb.1]; simp
  have hA : (Value.smap a).WF := MapWF.smap.2 ha
  have hB : (Value.smap b).WF := MapWF.smap.2 hb
  refine ⟨rfl, hempty, mergeMaps_self ha, ?_, ?_, ?_⟩
  · simpa [mergeEntry_smap] using mergeEntry_idem_right (a := some (.smap a)) (by simpa using hA) hB
  · simpa [mergeEntry_smap] using mergeEntry_idem_left hA hB
  · unfold mergeSettings
    split_ifs with hl hg
    · rw [List.isEmpty_iff.1 hl]; rfl
    · rw [List.isEmpty_iff.1 hg, hempty]
    · rfl

/-! ## What the merge holds at each key -/

end Lookout

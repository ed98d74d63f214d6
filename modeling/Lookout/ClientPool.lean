import Mathlib.Data.List.Nodup
/-!
# Lookout — the GitHub client pool

`NewClientPoolFromTokens` groups the repositories of `urlToConfig` by their
`ClientConfig` (`groupByConfig`), then makes one client per configuration
(`addClient`): its HTTP requests carry the configuration's user and token
(`basicAuthRoundTripper`), and its git operations ask the closure `gitAuth`
for a `BasicAuth` whose username is the token. Both `range` loops visit
their map in an order of the runtime's choosing: the model takes the first
order as the order of `urlToConfig` and the second as `range`, any
permutation, and every theorem holds for every order.

`gitAuth` captures the loop variable `conf` by reference and is called only
later, at fetch time; what it reads then depends on how the loop declares
`conf` (`LoopVar`). Before Go 1.22, and in any module whose `go.mod` names
an earlier version, one variable serves the whole loop: every client's git
operations then use the token of the configuration visited last
(`gitAuth_shared`), and with two tokens some repository is fetched with
another configuration's (`gitAuth_other_token`).

The result rests on one description per loop: `groupByConfig_complete` for
the first, and for the second `PoolSpec`, which each iteration extends
(`PoolSpec.addClient`).
-/

namespace Lookout

/-- `github.ClientConfig`. -/
structure ClientConfig where
  user : String
  token : String
  minInterval : String
  deriving DecidableEq, Repr

/-- `zeroClientConfig`. -/
def zeroClientConfig : ClientConfig := ⟨"", "", ""⟩

/-- Modelled from the call: the `pb.RepositoryInfo` that
`ParseRepositoryInfo` returns, of which the pool reads the full name. -/
structure RepositoryInfo where
  fullName : String
  deriving DecidableEq, Repr

/-- `basicAuthRoundTripper`: the credentials a client's HTTP requests carry. -/
structure BasicAuthRoundTripper where
  user : String
  password : String
  deriving DecidableEq, Repr

/-- `githttp.BasicAuth`. -/
structure BasicAuth where
  username : String
  password : String
  deriving DecidableEq, Repr

/-- The closure `gitAuth`, by the location of the variable `conf` it captured. -/
structure GitAuth where
  loc : Nat
  deriving DecidableEq, Repr

/-- Calling `gitAuth` when the loop variables hold `vars`: it reads `conf`
then, not when it was made. -/
def GitAuth.call (g : GitAuth) (vars : List ClientConfig) : BasicAuth :=
  ⟨(vars.getD g.loc zeroClientConfig).token, ""⟩

/-- Modelled from the call `NewClient(rt, cache, conf.MinInterval, gitAuth,
timeout)`: what a client keeps of the arguments the pool reads. -/
structure Client where
  rt : BasicAuthRoundTripper
  minInterval : String
  gitAuth : GitAuth
  deriving DecidableEq, Repr

/-- How `for conf, repos := range byConfig` declares `conf`. -/
inductive LoopVar where
  /-- Before Go 1.22: one variable for the whole loop. -/
  | shared
  /-- From Go 1.22: a new variable each iteration. -/
  | perIteration
  deriving DecidableEq, Repr

/-- The loop variables before the first iteration. -/
def LoopVar.vars : LoopVar → List ClientConfig
  | .shared => [zeroClientConfig]
  | .perIteration => []

/-- An iteration binding `conf` to `c`: the location a closure made in the
iteration captures, and the variables after. -/
def LoopVar.bind : LoopVar → List ClientConfig → ClientConfig → Nat × List ClientConfig
  | .shared, vars, c => (0, vars.set 0 c)
  | .perIteration, vars, c => (vars.length, vars ++ [c])

/-- `m[k] = v` on a Go map as an association list in iteration order. -/
def assign {κ α : Type} [DecidableEq κ] (k : κ) (v : α) : List (κ × α) → List (κ × α)
  | [] => [(k, v)]
  | (k', v') :: rest => if k' = k then (k, v) :: rest else (k', v') :: assign k v rest

/-- What `NewClientPoolFromTokens` calls outside this file. -/
structure PoolEnv where
  /-- `pb.ParseRepositoryInfo`. -/
  parse : String → Except String RepositoryInfo
  /-- `ValidateTokenPermissions(client)`: nil, or its error. -/
  validateTokenPermissions : Client → Option String
  /-- `CanPostStatus(client, r)`: nil, or its error. -/
  canPostStatus : Client → RepositoryInfo → Option String

/-- What `newClientPoolFromClients` is made from: the clients (a `*Client`
is its index), `byClients`, `byRepo`, and the loop variables the clients'
`gitAuth` read. -/
structure ClientPool where
  clients : List Client
  byClients : List (Nat × List RepositoryInfo)
  byRepo : List (String × Nat)
  vars : List ClientConfig

/-! ## `NewClientPoolFromTokens` -/

/-- The first loop: `urlToConfig`, in the order `range` visits it, grouped
by configuration into `byConfig`. -/
def groupByConfig (parse : String → Except String RepositoryInfo) :
    List (ClientConfig × List RepositoryInfo) → List (String × ClientConfig) →
      Except String (List (ClientConfig × List RepositoryInfo))
  | byConfig, [] => .ok byConfig
  | byConfig, (url, c) :: rest =>
    match parse url with
    | .error err => .error err
    | .ok repo => groupByConfig parse (assign c ((byConfig.lookup c).getD [] ++ [repo]) byConfig) rest

/-- The inner loop: each repository of a configuration checked with
`CanPostStatus` and mapped to the client in `byRepo`. -/
def assignRepos (env : PoolEnv) (client : Client) (id : Nat) :
    List (String × Nat) → List RepositoryInfo → Except String (List (String × Nat))
  | byRepo, [] => .ok byRepo
  | byRepo, r :: rs =>
    match env.canPostStatus client r with
    | some err => .error err
    | none => assignRepos env client id (assign r.fullName id byRepo) rs

/-- One iteration of the second loop, for the configuration `conf` and its
repositories. -/
def addClient (sem : LoopVar) (env : PoolEnv) (p : ClientPool) (conf : ClientConfig)
    (repos : List RepositoryInfo) : Except String ClientPool :=
  let (loc, vars) := sem.bind p.vars conf
  let client : Client := ⟨⟨conf.user, conf.token⟩, conf.minInterval, ⟨loc⟩⟩
  let id := p.clients.length
  match env.validateTokenPermissions client with
  | some err => .error err
  | none =>
    let byClients := assign id ((p.byClients.lookup id).getD [] ++ repos) p.byClients
    match assignRepos env client id p.byRepo repos with
    | .error err => .error err
    | .ok byRepo => .ok ⟨p.clients ++ [client], byClients, byRepo, vars⟩

/-- The second loop, over `byConfig` in the order `range` visits it. -/
def addClients (sem : LoopVar) (env : PoolEnv) :
    ClientPool → List (ClientConfig × List RepositoryInfo) → Except String ClientPool
  | p, [] => .ok p
  | p, (conf, repos) :: rest =>
    match addClient sem env p conf repos with
    | .error err => .error err
    | .ok p' => addClients sem env p' rest

/-- `NewClientPoolFromTokens`, with `urlToConfig` in the order the first
`range` visits it and `range` the order the second visits `byConfig` in. -/
def newClientPoolFromTokens (sem : LoopVar) (env : PoolEnv) (urlToConfig : List (String × ClientConfig))
    (range : List (ClientConfig × List RepositoryInfo) → List (ClientConfig × List RepositoryInfo)) :
    Except String ClientPool :=
  match groupByConfig env.parse [] urlToConfig with
  | .error err => .error err
  | .ok byConfig => addClients sem env ⟨[], [], [], sem.vars⟩ (range byConfig)

/-! ## Go maps as association lists -/

section Assign

variable {κ α : Type} [DecidableEq κ] {k k' : κ} {v : α} {m : List (κ × α)}

theorem lookup_assign : (assign k v m).lookup k' = if k' = k then some v else m.lookup k' := by
  induction m with
  | nil =>
    by_cases h : k' = k
    · subst h; simp [assign]
    · simp [assign, List.lookup_cons, beq_false_of_ne h, h]
  | cons e m ih =>
    obtain ⟨k'', v''⟩ := e
    by_cases h : k' = k''
    · subst h; by_cases h1 : k' = k <;> simp [assign, h1]
    · by_cases h1 : k'' = k
      · subst h1; simp [assign, List.lookup_cons, beq_false_of_ne h, h]
      · simp [assign, List.lookup_cons, h1, beq_false_of_ne h, ih]

theorem assign_of_not_mem (h : k ∉ m.map Prod.fst) : assign k v m = m ++ [(k, v)] := by
  induction m with
  | nil => rfl
  | cons e m ih =>
    simp only [List.map_cons, List.mem_cons, not_or] at h
    simp [assign, Ne.symm h.1, ih h.2]

theorem mem_of_lookup_some (h : m.lookup k = some v) : (k, v) ∈ m := by
  obtain ⟨l₁, l₂, rfl, -⟩ := List.lookup_eq_some_iff.1 h
  simp

end Assign

/-! ## What the pool holds -/

/-- Where the closure made in the `i`-th iteration reads `conf`. -/
def LoopVar.locAt : LoopVar → Nat → Nat
  | .shared, _ => 0
  | .perIteration, i => i

/-- The loop variables once the loop has bound `conf` to each of `confs`. -/
def LoopVar.varsAfter : LoopVar → List ClientConfig → List ClientConfig
  | .shared, confs => [confs.getLastD zeroClientConfig]
  | .perIteration, confs => confs

/-- The client the `i`-th iteration makes for `conf`. -/
def clientAt (sem : LoopVar) (i : Nat) (conf : ClientConfig) : Client :=
  ⟨⟨conf.user, conf.token⟩, conf.minInterval, ⟨sem.locAt i⟩⟩

/-- The last of `groups` that holds a repository named `name`: the client
`byRepo` maps it to once the loop has visited `groups`. -/
def lastHolding (name : String) : List (ClientConfig × List RepositoryInfo) → Option Nat
  | [] => none
  | g :: gs => ((lastHolding name gs).map (· + 1)).or (if name ∈ g.2.map (·.fullName) then some 0 else none)

theorem LoopVar.vars_eq (sem : LoopVar) : sem.vars = sem.varsAfter [] := by
  cases sem <;> rfl

theorem LoopVar.bind_varsAfter (sem : LoopVar) (confs : List ClientConfig) (c : ClientConfig) :
    sem.bind (sem.varsAfter confs) c = (sem.locAt confs.length, sem.varsAfter (confs ++ [c])) := by
  cases sem <;> simp [LoopVar.bind, LoopVar.varsAfter, LoopVar.locAt]

theorem lastHolding_concat (name : String) (gs : List (ClientConfig × List RepositoryInfo))
    (g : ClientConfig × List RepositoryInfo) :
    lastHolding name (gs ++ [g]) = if name ∈ g.2.map (·.fullName) then some gs.length else lastHolding name gs := by
  induction gs with
  | nil => by_cases h : name ∈ g.2.map (·.fullName) <;> simp [lastHolding, h]
  | cons g' gs ih =>
    by_cases h : name ∈ g.2.map (·.fullName) <;> simp [lastHolding, ih, h]

theorem lastHolding_isSome {name : String} {gs : List (ClientConfig × List RepositoryInfo)}
    {g : ClientConfig × List RepositoryInfo} (hg : g ∈ gs) (hn : name ∈ g.2.map (·.fullName)) :
    (lastHolding name gs).isSome := by
  induction gs with
  | nil => cases hg
  | cons g' gs ih =>
    rcases List.mem_cons.1 hg with rfl | hg
    · cases lastHolding name gs <;> simp [lastHolding, hn]
    · obtain ⟨j, hj⟩ := Option.isSome_iff_exists.1 (ih hg)
      simp [lastHolding, hj]

theorem lastHolding_sound {name : String} {gs : List (ClientConfig × List RepositoryInfo)} {j : Nat}
    (h : lastHolding name gs = some j) : ∃ hj : j < gs.length, name ∈ gs[j].2.map (·.fullName) := by
  induction gs generalizing j with
  | nil => cases h
  | cons g gs ih =>
    unfold lastHolding at h
    cases hl : lastHolding name gs with
    | some i =>
      rw [hl] at h
      cases h
      obtain ⟨hi, hn⟩ := ih hl
      exact ⟨by simp; omega, by simpa using hn⟩
    | none =>
      rw [hl] at h
      by_cases hn : name ∈ g.2.map (·.fullName)
      · simp only [hn, if_true, Option.map_none', Option.none_or, Option.some.injEq] at h
        subst h
        exact ⟨by simp, hn⟩
      · simp [hn] at h

/-- **The pool after the second loop visited `done`**: the clients in the
order they were made, each iteration's repositories under its client, each
repository name mapped to the last iteration that held it, and the loop
variables as the closures will read them. -/
structure PoolSpec (sem : LoopVar) (done : List (ClientConfig × List RepositoryInfo)) (p : ClientPool) :
    Prop where
  clients : p.clients = done.mapIdx fun i g => clientAt sem i g.1
  byClients : p.byClients = done.mapIdx fun i g => (i, g.2)
  byRepo : ∀ name, p.byRepo.lookup name = lastHolding name done
  vars : p.vars = sem.varsAfter (done.map Prod.fst)

section Loops

variable {sem : LoopVar} {env : PoolEnv}

/-- The inner loop maps each of its repositories' names to the client, and
leaves every other name as it was. -/
theorem assignRepos_lookup {client : Client} {id : Nat} {byRepo byRepo' : List (String × Nat)}
    {repos : List RepositoryInfo} (h : assignRepos env client id byRepo repos = .ok byRepo') (name : String) :
    byRepo'.lookup name = if name ∈ repos.map (·.fullName) then some id else byRepo.lookup name := by
  induction repos generalizing byRepo with
  | nil => cases h; simp
  | cons r rs ih =>
    unfold assignRepos at h
    split at h
    · cases h
    · rw [ih h, lookup_assign]
      by_cases h1 : name ∈ rs.map (·.fullName)
      · simp [h1]
      · by_cases h2 : name = r.fullName <;> simp [h1, h2]

theorem PoolSpec.nil (sem : LoopVar) : PoolSpec sem [] ⟨[], [], [], sem.vars⟩ :=
  ⟨rfl, rfl, fun _ => rfl, sem.vars_eq⟩

/-- **One iteration keeps the pool's description**, extended by its
configuration and repositories. -/
theorem PoolSpec.addClient {done : List (ClientConfig × List RepositoryInfo)} {p p' : ClientPool}
    {conf : ClientConfig} {repos : List RepositoryInfo} (hs : PoolSpec sem done p)
    (h : addClient sem env p conf repos = .ok p') : PoolSpec sem (done ++ [(conf, repos)]) p' := by
  have hlen : p.clients.length = done.length := by rw [hs.clients, List.length_mapIdx]
  have hfresh : p.clients.length ∉ p.byClients.map Prod.fst := by
    rw [hs.byClients, hlen]
    simp [List.mem_mapIdx]
  unfold Lookout.addClient at h
  rw [hs.vars, LoopVar.bind_varsAfter] at h
  dsimp only at h
  split at h
  · cases h
  split at h
  · cases h
  rename_i byRepo hrepos
  cases h
  refine ⟨?_, ?_, fun name => ?_, ?_⟩
  · rw [hs.clients, List.mapIdx_concat, List.length_map, clientAt]
  · rw [List.lookup_eq_none_iff.2 fun q hq => bne_iff_ne.2 fun he => hfresh (by rw [he]; exact List.mem_map_of_mem Prod.fst hq),
      Option.getD_none, List.nil_append, assign_of_not_mem hfresh, hs.byClients, List.mapIdx_concat, hlen]
  · rw [assignRepos_lookup hrepos, hs.byRepo, lastHolding_concat, hlen]
  · rw [List.map_append]; rfl

/-- **The second loop's result**: what the loops that complete make. -/
theorem addClients_spec {done rest : List (ClientConfig × List RepositoryInfo)} {p pool : ClientPool}
    (hs : PoolSpec sem done p) (h : addClients sem env p rest = .ok pool) : PoolSpec sem (done ++ rest) pool := by
  induction rest generalizing done p with
  | nil => cases h; simpa using hs
  | cons g rest ih =>
    obtain ⟨conf, repos⟩ := g
    unfold addClients at h
    split at h
    · cases h
    · rename_i p' hp'
      simpa using ih (hs.addClient hp') h

end Loops

section Group

variable {parse : String → Except String RepositoryInfo}
  {acc byConfig : List (ClientConfig × List RepositoryInfo)} {l : List (String × ClientConfig)}

/-- The first loop loses no repository it has grouped. -/
theorem groupByConfig_keeps (h : groupByConfig parse acc l = .ok byConfig) {c : ClientConfig}
    {rs : List RepositoryInfo} {r : RepositoryInfo} (hc : acc.lookup c = some rs) (hr : r ∈ rs) :
    ∃ rs', byConfig.lookup c = some rs' ∧ r ∈ rs' := by
  induction l generalizing acc rs with
  | nil => cases h; exact ⟨rs, hc, hr⟩
  | cons e l ih =>
    obtain ⟨url, c'⟩ := e
    unfold groupByConfig at h
    split at h
    · cases h
    · rename_i repo _
      by_cases hcc : c = c'
      · subst hcc
        exact ih h (lookup_assign.trans (if_pos rfl)) (List.mem_append_left _ (by simpa [hc] using hr))
      · exact ih h ((lookup_assign.trans (if_neg hcc)).trans hc) hr

/-- **Every URL's repository is grouped under its configuration.** -/
theorem groupByConfig_complete (h : groupByConfig parse acc l = .ok byConfig) {url : String}
    {c : ClientConfig} (hm : (url, c) ∈ l) :
    ∃ repo rs, parse url = .ok repo ∧ byConfig.lookup c = some rs ∧ repo ∈ rs := by
  induction l generalizing acc with
  | nil => cases hm
  | cons e l ih =>
    obtain ⟨url', c'⟩ := e
    unfold groupByConfig at h
    split at h
    · cases h
    · rename_i repo hp
      rcases List.mem_cons.1 hm with he | hm
      · cases he
        obtain ⟨rs', h1, h2⟩ := groupByConfig_keeps h (lookup_assign.trans (if_pos rfl))
          (List.mem_append_right _ (List.mem_singleton_self repo))
        exact ⟨repo, rs', hp, h1, h2⟩
      · exact ih h hm

end Group

/-- **What `NewClientPoolFromTokens` makes**, when it accepts: the pool the
second loop describes, over `byConfig` in the order `range` visits it. -/
theorem newClientPoolFromTokens_ok {sem : LoopVar} {env : PoolEnv} {urlToConfig : List (String × ClientConfig)}
    {range : List (ClientConfig × List RepositoryInfo) → List (ClientConfig × List RepositoryInfo)}
    {pool : ClientPool} (h : newClientPoolFromTokens sem env urlToConfig range = .ok pool) :
    ∃ byConfig, groupByConfig env.parse [] urlToConfig = .ok byConfig ∧ PoolSpec sem (range byConfig) pool := by
  unfold newClientPoolFromTokens at h
  split at h
  · cases h
  · rename_i byConfig hg
    exact ⟨byConfig, hg, by simpa using addClients_spec (PoolSpec.nil sem) h⟩

/-! ## Which client serves a repository -/

section Serve

variable {sem : LoopVar} {done : List (ClientConfig × List RepositoryInfo)} {pool : ClientPool}

theorem PoolSpec.getElem_clients (hs : PoolSpec sem done pool) {i : Nat} (hi : i < done.length) :
    pool.clients[i]? = some (clientAt sem i done[i].1) := by
  rw [hs.clients, List.getElem?_mapIdx, List.getElem?_eq_getElem hi]
  rfl

/-- A repository of a visited group is mapped in `byRepo` to a client made
for a group that holds its name. -/
theorem PoolSpec.byRepo_lookup (hs : PoolSpec sem done pool) {g : ClientConfig × List RepositoryInfo}
    (hg : g ∈ done) {r : RepositoryInfo} (hr : r ∈ g.2) :
    ∃ j, ∃ hj : j < done.length, pool.byRepo.lookup r.fullName = some j ∧ r.fullName ∈ done[j].2.map (·.fullName) := by
  obtain ⟨j, hl⟩ := Option.isSome_iff_exists.1 (lastHolding_isSome hg (List.mem_map_of_mem _ hr))
  obtain ⟨hj, hn⟩ := lastHolding_sound hl
  exact ⟨j, hj, (hs.byRepo _).trans hl, hn⟩

/-- **With one `conf` for the loop, every client fetches with the last
token.** Once the second loop has visited `done`, the `gitAuth` of every
client hands git the token of the configuration visited last. -/
theorem gitAuth_shared (hs : PoolSpec .shared done pool) {client : Client} (hc : client ∈ pool.clients) :
    client.gitAuth.call pool.vars = ⟨((done.map Prod.fst).getLastD zeroClientConfig).token, ""⟩ := by
  rw [hs.clients, List.mem_mapIdx] at hc
  obtain ⟨i, -, rfl⟩ := hc
  rw [hs.vars]
  rfl

end Serve

section Accepted

variable {sem : LoopVar} {env : PoolEnv} {urlToConfig : List (String × ClientConfig)}
  {range : List (ClientConfig × List RepositoryInfo) → List (ClientConfig × List RepositoryInfo)}
  {pool : ClientPool}

/-- In an accepted pool every URL's repository is mapped to a client. -/
theorem pool_assigns (hrange : ∀ m, (range m).Perm m)
    (hpool : newClientPoolFromTokens sem env urlToConfig range = .ok pool) {url : String} {c : ClientConfig}
    (hm : (url, c) ∈ urlToConfig) :
    ∃ repo k client, env.parse url = .ok repo ∧ pool.byRepo.lookup repo.fullName = some k ∧
      pool.clients[k]? = some client := by
  obtain ⟨byConfig, hg, hs⟩ := newClientPoolFromTokens_ok hpool
  obtain ⟨repo, rs, hp, hl, hr⟩ := groupByConfig_complete hg hm
  obtain ⟨j, hj, hk, -⟩ := hs.byRepo_lookup ((hrange _).mem_iff.2 (mem_of_lookup_some hl)) hr
  exact ⟨repo, j, _, hp, hk, hs.getElem_clients hj⟩

end Accepted

/-- **A repository fetched with another configuration's token.** With one
`conf` for the whole loop, in every pool `NewClientPoolFromTokens` accepts
from a map that holds two configurations with different tokens, whatever
the order both loops visit their maps in, some URL's repository is mapped
in `byRepo` to a client whose `gitAuth` hands git a username other than
that URL's token. -/
theorem gitAuth_other_token (env : PoolEnv) (urlToConfig : List (String × ClientConfig))
    (range : List (ClientConfig × List RepositoryInfo) → List (ClientConfig × List RepositoryInfo))
    (hrange : ∀ m, (range m).Perm m) {pool : ClientPool}
    (hpool : newClientPoolFromTokens .shared env urlToConfig range = .ok pool) {u₁ u₂ : String}
    {c₁ c₂ : ClientConfig} (h₁ : (u₁, c₁) ∈ urlToConfig) (h₂ : (u₂, c₂) ∈ urlToConfig) (ht : c₁.token ≠ c₂.token) :
    ∃ url c repo k client, (url, c) ∈ urlToConfig ∧ env.parse url = .ok repo ∧
      pool.byRepo.lookup repo.fullName = some k ∧ pool.clients[k]? = some client ∧
      (client.gitAuth.call pool.vars).username ≠ c.token := by
  obtain ⟨byConfig, -, hs⟩ := newClientPoolFromTokens_ok hpool
  set last := ((range byConfig).map Prod.fst).getLastD zeroClientConfig
  have hother : ∃ url c, (url, c) ∈ urlToConfig ∧ c.token ≠ last.token := by
    by_cases h : c₁.token = last.token
    · exact ⟨u₂, c₂, h₂, fun h' => ht (h.trans h'.symm)⟩
    · exact ⟨u₁, c₁, h₁, h⟩
  obtain ⟨url, c, hm, hc⟩ := hother
  obtain ⟨repo, k, client, hp, hk, hcl⟩ := pool_assigns hrange hpool hm
  refine ⟨url, c, repo, k, client, hm, hp, hk, hcl, ?_⟩
  rw [gitAuth_shared hs (List.mem_iff_getElem?.2 ⟨k, hcl⟩)]
  exact Ne.symm hc

/-- A parser that names each repository by its URL, and checks that pass. -/
def poolEnvA : PoolEnv := ⟨fun url => .ok ⟨url⟩, fun _ => none, fun _ _ => none⟩

/-- Two repositories, each with its own token. -/
def tokensA : List (String × ClientConfig) :=
  [("github.com/a/x", ⟨"a", "token-a", ""⟩), ("github.com/b/y", ⟨"b", "token-b", ""⟩)]

theorem gitAuth_other_token_tokensA :
    ∃ pool, newClientPoolFromTokens .shared poolEnvA tokensA id = .ok pool ∧
      ∃ url c repo k client, (url, c) ∈ tokensA ∧ poolEnvA.parse url = .ok repo ∧
        pool.byRepo.lookup repo.fullName = some k ∧ pool.clients[k]? = some client ∧
        (client.gitAuth.call pool.vars).username ≠ c.token :=
  ⟨_, rfl, gitAuth_other_token poolEnvA tokensA id (fun m => .refl m) rfl (List.mem_cons_self _ _)
    (List.mem_cons_of_mem _ (List.mem_cons_self _ _)) (by decide)⟩

end Lookout

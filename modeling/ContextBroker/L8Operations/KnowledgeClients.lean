import ContextBroker.Core.LTS
import ContextBroker.Core.StateGraph
import ContextBroker.L1Data.Json
import Mathlib.Logic.Function.Basic

/-!
# The Mem0 client and the quality wrapper

`get_mem0_client` keeps one client and the hash of the configuration it was
built from, `get_quality_wrapper` one wrapper around that client. Any number of
tasks call them at any time: a call waits for a lock, and for the thread that
builds the client; in between others run, `reset_mem0_client` and the database
pool's replacement among them. Which waiting task gets a lock is left open.

* `clients_match`: whatever the interleaving, a client comes from a configuration
  with the caller's hash. It has the settings the caller's configuration asks
  for exactly when the two agree on `embedding_dims`, whose fallback at the top
  of the configuration is not hashed, and the keys are still what its build read
  in the credentials file.
* `fresh_iff`: every client handed out was begun after the last reset exactly
  when no build that succeeds has seen a reset.
* `wrapper_current_iff`: the wrapper holds the client and the pool of the moment
  exactly as long as neither is replaced behind it; nothing but a reset ever
  replaces the wrapper (`wrapper_kept`).
-/
namespace ContextBroker.KnowledgeClients

open LTS Imperator

/-! ## The configuration -/

/-- The exceptions `get_mem0_client` catches, and any other. -/
inductive Failure where
  | importError | connectionError | valueError | other
  deriving DecidableEq, Repr

abbrev Config := List (Text × Json)

/-- `sha256(json.dumps(_, sort_keys=True, default=str))`, the environment,
`int()`. -/
structure Env where
  digest : Json → Text
  environ : Text → Option Text
  int : Json → Except Failure Int

/-- What a name of a key resolves to, in the file or else the environment. The
file is read again when it has changed, so also between the two lookups of one
build. -/
structure Credentials where
  llm : Text → Text
  embeddings : Text → Text

/-- `config.get(key, {})` -/
def topLevel (config : Config) (key : String) : Json := (config.lookup key.toList).getD (.obj [])

/-- `value.get(key)`; only a dict has the method. -/
def getKey (value : Json) (key : String) : Except Failure (Option Json) :=
  match value with
  | .obj fields => .ok (fields.lookup key.toList)
  | _ => .error .other

/-- `value if value is not None` -/
def notNone : Option Json → Option Json
  | some .null => none
  | value => value

/-- mirrors memory/mem0_client.py:32-39 -/
def relevant (config : Config) : List (Text × Json) :=
  ["llm", "embeddings", "graph_store", "vector_store", "extraction", "memory_extraction"].map fun key =>
    (key.toList, topLevel config key)

structure OpenAIConfig where
  apiKey : Text
  model : Json
  baseUrl : Json

structure PgVectorConfig where
  host : Text
  port : Int
  dbname : Text
  user : Text
  password : Text
  collectionName : Text
  embeddingModelDims : Int
  diskann : Bool

structure Neo4jConfig where
  url : Text
  username : Text
  password : Text

structure QualityGate where
  rejectionRules : Json
  minLength : Json

structure MemoryConfig where
  llm : OpenAIConfig
  embedder : OpenAIConfig
  embeddingDims : Int
  vectorStore : PgVectorConfig
  graphStore : Neo4jConfig
  qualityGate : Option QualityGate
  expiration : Option Json

section Build

variable (env : Env)

/-- mirrors memory/mem0_client.py:24-41 -/
def computeConfigHash (config : Config) : Text := env.digest (.obj (relevant config))

/-- mirrors app/config.py:341-363 -/
def getApiKey (credential : Text → Text) (provider : Json) : Except Failure Text := do
  match (← getKey provider "api_key_env").getD (.str []) with
  | .str name => .ok (if name = [] then [] else credential name)
  | name => if name.truthy then .error .other else .ok []

def getenv (name default : String) : Text := (env.environ name.toList).getD default.toList

/-- What `_get_embedding_dims` hands to `int()`. mirrors memory/mem0_client.py:229-232 -/
def configuredDims (config : Config) (embeddings : Json) : Except Failure (Option Json) := do
  return (notNone (← getKey embeddings "embedding_dims")).or (notNone (config.lookup "embedding_dims".toList))

/-- mirrors memory/mem0_client.py:222-240 -/
def getEmbeddingDims (config : Config) (embeddings : Json) : Except Failure Int := do
  match ← configuredDims config embeddings with
  | some dims => env.int dims
  | none => .error .valueError

/-- mirrors memory/mem0_client.py:206-219 -/
def neo4jConfig (password : Text) : Neo4jConfig where
  url := "bolt://".toList ++ getenv env "NEO4J_HOST" "context-broker-neo4j" ++ ":".toList ++
    getenv env "NEO4J_PORT" "7687"
  username := "neo4j".toList
  password := if password = [] then "neo4j".toList else password

/-- `OpenAI` settings of a section. mirrors memory/mem0_client.py:163-180 -/
def openAIConfig (provider : Json) (apiKey : Text) (model : String) : Except Failure OpenAIConfig := do
  return { apiKey
           model := (← getKey provider "model").getD (.str model.toList)
           baseUrl := (← getKey provider "base_url").getD (.str "https://api.openai.com/v1".toList) }

/-- mirrors memory/mem0_client.py:147-155 -/
def qualityGate (extraction : Json) : Except Failure (Option QualityGate) := do
  let rejectionRules := (← getKey extraction "rejection_rules").getD .null
  let minFactLength := (← getKey extraction "min_fact_length").getD (.num "0".toList)
  if rejectionRules.truthy || minFactLength.truthy then
    return some { rejectionRules := if rejectionRules.truthy then rejectionRules else .arr []
                  minLength := minFactLength }
  else return none

/-- mirrors memory/mem0_client.py:135, the section the LLM's settings come from -/
def llmConfig (config : Config) : Json :=
  if (topLevel config "extraction").truthy then topLevel config "extraction" else topLevel config "llm"

/-- The settings `_build_mem0_instance` makes of a configuration. mirrors
memory/mem0_client.py:133-201 -/
def memoryConfig (creds : Credentials) (config : Config) : Except Failure MemoryConfig := do
  let embeddings := topLevel config "embeddings"
  let llmApiKey ← getApiKey creds.llm (llmConfig config)
  let embeddingsApiKey ← getApiKey creds.embeddings embeddings
  let qualityGate ← qualityGate (topLevel config "memory_extraction")
  let expiration ← getKey (topLevel config "memory_extraction") "expiration"
  let llm ← openAIConfig (llmConfig config) llmApiKey "gpt-4o-mini"
  let embedder ← openAIConfig embeddings embeddingsApiKey "text-embedding-3-small"
  let embeddingDims ← getEmbeddingDims env config embeddings
  let port ← env.int (.str (getenv env "POSTGRES_PORT" "5432"))
  return { llm, embedder, embeddingDims, qualityGate, expiration
           vectorStore :=
             { host := getenv env "POSTGRES_HOST" "context-broker-postgres"
               port
               dbname := getenv env "POSTGRES_DB" "context_broker"
               user := getenv env "POSTGRES_USER" "context_broker"
               password := getenv env "POSTGRES_PASSWORD" ""
               collectionName := "mem0_memories".toList
               embeddingModelDims := embeddingDims
               diskann := false }
           graphStore := neo4jConfig env (getenv env "NEO4J_PASSWORD" "") }

/-- `imports` and `memory` are what the import of mem0 and the constructors
raise, if they do. mirrors memory/mem0_client.py:112-203 -/
def buildMem0Instance (config : Config) (creds : Credentials) (imports memory : Option Failure) :
    Except Failure MemoryConfig := do
  if let some e := imports then .error e
  let settings ← memoryConfig env creds config
  if let some e := memory then .error e
  return settings

/-- The dimensions a configuration asks for. -/
def embeddingDims (config : Config) : Except Failure Int := getEmbeddingDims env config (topLevel config "embeddings")

variable {env : Env} {creds now : Credentials} {c c' : Config} {m : MemoryConfig}

theorem topLevel_of_relevant (h : relevant c = relevant c') (key : String)
    (hkey : key ∈ ["llm", "embeddings", "graph_store", "vector_store", "extraction", "memory_extraction"]) :
    topLevel c key = topLevel c' key := by
  have hall := List.map_inj_left.mp h
  exact congrArg Prod.snd (hall key hkey)

/-- The settings have the dimensions and the keys that were read. -/
structure ReadAs (env : Env) (creds : Credentials) (c : Config) (m : MemoryConfig) : Prop where
  dims : embeddingDims env c = .ok m.embeddingDims
  llm : getApiKey creds.llm (llmConfig c) = .ok m.llm.apiKey
  embedder : getApiKey creds.embeddings (topLevel c "embeddings") = .ok m.embedder.apiKey

theorem openAIConfig_apiKey {provider : Json} {apiKey : Text} {model : String} {o : OpenAIConfig}
    (h : openAIConfig provider apiKey model = .ok o) : o.apiKey = apiKey := by
  unfold openAIConfig at h
  obtain ⟨_, _, h⟩ := bind_eq_ok.mp h
  obtain ⟨_, _, h⟩ := bind_eq_ok.mp h
  obtain rfl := Except.ok.inj h
  rfl

theorem readAs_of_memoryConfig (h : memoryConfig env creds c = .ok m) : ReadAs env creds c m := by
  unfold memoryConfig at h
  obtain ⟨llmKey, hllmKey, h⟩ := bind_eq_ok.mp h
  obtain ⟨embedderKey, hembedderKey, h⟩ := bind_eq_ok.mp h
  obtain ⟨_, _, h⟩ := bind_eq_ok.mp h
  obtain ⟨_, _, h⟩ := bind_eq_ok.mp h
  obtain ⟨llm, hllm, h⟩ := bind_eq_ok.mp h
  obtain ⟨embedder, hembedder, h⟩ := bind_eq_ok.mp h
  obtain ⟨dims, hdims, h⟩ := bind_eq_ok.mp h
  obtain ⟨_, _, h⟩ := bind_eq_ok.mp h
  obtain rfl := Except.ok.inj h
  exact ⟨hdims, by rw [hllmKey, openAIConfig_apiKey hllm], by rw [hembedderKey, openAIConfig_apiKey hembedder]⟩

/-- Of what the hash leaves out, the dimensions at the top and the keys matter,
and nothing else. -/
theorem memoryConfig_iff (h : relevant c = relevant c') (hm : memoryConfig env creds c = .ok m) :
    memoryConfig env now c' = .ok m ↔ ReadAs env now c' m := by
  refine ⟨readAs_of_memoryConfig, fun hread => ?_⟩
  have hsection : ∀ key ∈ ["llm", "embeddings", "extraction", "memory_extraction"],
      topLevel c' key = topLevel c key := fun key hkey =>
    (topLevel_of_relevant h key (by simp only [List.mem_cons] at hkey ⊢; tauto)).symm
  have hllm : llmConfig c' = llmConfig c := by
    simp only [llmConfig, hsection "llm" (by simp), hsection "extraction" (by simp)]
  have hembeddings := hsection "embeddings" (by simp)
  have hmemory := hsection "memory_extraction" (by simp)
  have hread' := readAs_of_memoryConfig hm
  have hdims := hread.dims.trans hread'.dims.symm
  have hkey := hread.llm.trans hread'.llm.symm
  have hkey' := hread.embedder.trans hread'.embedder.symm
  simp only [embeddingDims, hllm, hembeddings] at hdims hkey hkey'
  simp only [memoryConfig, hllm, hembeddings, hmemory, hdims, hkey, hkey'] at hm ⊢
  exact hm

end Build

/-- `except (ImportError, ConnectionError, ValueError)` -/
def Failure.caught : Failure → Bool
  | .other => false
  | _ => true

/-! ## The two calls -/

/-- The client, with the configuration and the credentials it was built from and
the number of resets before its build began and before it ended. -/
structure Client where
  serial : Nat
  config : Config
  credentials : Credentials
  settings : MemoryConfig
  begun : Nat
  ended : Nat

structure QualityWrapper where
  mem0 : Option Client
  pool : Nat
  config : Config

/-- A call of `get_mem0_client`: a task's own, or one of `get_quality_wrapper`,
which holds `_wrapper_lock` meanwhile. -/
inductive Caller where
  | direct | wrapper
  deriving DecidableEq, Repr

/-- Where a task waits: for `_wrapper_lock`, for `_mem0_lock`, for the thread. -/
inductive Task where
  | idle
  | wrapperLock (config : Option Config)
  | clientLock (config : Config) (caller : Caller)
  | building (config : Config) (caller : Caller) (begun : Nat)

/-- What `get_mem0_client(config)` returned, and after how many resets. -/
structure Answer where
  config : Config
  client : Option Client
  resets : Nat

/-- The globals of the two modules and the pool of `app.database`. `clients` and
`wrappers` are what the calls have returned so far, newest first, each with the
number of resets before. -/
structure Globals where
  inst : Option Client := none
  configHash : Option Text := none
  wrapper : Option QualityWrapper := none
  pool : Option Nat := none
  serial : Nat := 0
  resets : Nat := 0
  clients : List Answer := []
  wrappers : List (Nat × QualityWrapper) := []

structure State extends Globals where
  clientOwner : Option Nat := none
  wrapperOwner : Option Nat := none
  tasks : Nat → Task := fun _ => .idle

inductive Event where
  | callClient (t : Nat) (config : Config)
  | callWrapper (t : Nat) (config : Option Config)
  /-- `loaded` is what `load_merged_config()` returns, if it does. -/
  | lockWrapper (t : Nat) (loaded : Option Config)
  | lockClient (t : Nat)
  | built (t : Nat) (creds : Credentials) (imports memory : Option Failure)
  | cancel (t : Nat)
  | reset
  | setPool (pool : Option Nat)

/-- A build ends, a reset, another pool: all else only reads the globals. -/
def Event.settles : Event → Bool
  | .built _ _ _ _ | .reset | .setPool _ => true
  | _ => false

def State.goto (s : State) (t : Nat) (task : Task) : State := { s with tasks := Function.update s.tasks t task }

/-- The task leaves its call, by a return or an exception. -/
def State.leave (s : State) (t : Nat) : Caller → State
  | .direct => s.goto t .idle
  | .wrapper => { s.goto t .idle with wrapperOwner := none }

def Globals.returnWrapper (g : Globals) (w : QualityWrapper) : Globals :=
  { g with wrappers := (g.resets, w) :: g.wrappers }

/-- `get_mem0_client` returns, and `get_quality_wrapper` goes on with the
client; without a pool `get_pg_pool` raises. mirrors memory/quality_wrapper.py:688-693 -/
def Globals.answer (g : Globals) (config : Config) (caller : Caller) (client : Option Client) : Globals :=
  let g' := { g with clients := ⟨config, client, g.resets⟩ :: g.clients }
  match caller, g.pool with
  | .wrapper, some pool =>
    let w : QualityWrapper := { mem0 := client, pool, config }
    { g' with wrapper := some w }.returnWrapper w
  | _, _ => g'

def State.answer (s : State) (t : Nat) (config : Config) (caller : Caller) (client : Option Client) : State :=
  { s with toGlobals := s.toGlobals.answer config caller client }.leave t caller

section Step

variable (env : Env)

/-- `_mem0_instance is not None and _mem0_config_hash == current_hash` -/
def Globals.hit (g : Globals) (config : Config) : Bool :=
  g.inst.isSome && g.configHash == some (computeConfigHash env config)

/-- mirrors memory/mem0_client.py:79-84 -/
def enterClient (s : State) (t : Nat) (config : Config) (caller : Caller) : State :=
  if s.hit env config then s.answer t config caller s.inst else s.goto t (.clientLock config caller)

/-- The new client. mirrors memory/mem0_client.py:97-102 -/
def Globals.install (g : Globals) (config : Config) (creds : Credentials) (begun : Nat) (settings : MemoryConfig) :
    Globals × Client :=
  let client : Client := { serial := g.serial, config, credentials := creds, settings, begun, ended := g.resets }
  ({ g with inst := some client, configHash := some (computeConfigHash env config), serial := g.serial + 1 }, client)

/-- The end of the thread. mirrors memory/mem0_client.py:97-109 -/
def endBuild (s : State) (t : Nat) (config : Config) (creds : Credentials) (caller : Caller) (begun : Nat) :
    Except Failure MemoryConfig → State
  | .ok settings =>
    let (g, client) := s.install env config creds begun settings
    { s with toGlobals := g }.answer t config caller (some client)
  | .error e =>
    if e.caught then { s with inst := none, configHash := none }.answer t config caller none else s.leave t caller

/-- `none` is an event that cannot happen now. -/
def step (s : State) : Event → Option State
  | .callClient t config =>
    match s.tasks t with
    | .idle => some (enterClient env s t config .direct)
    | _ => none
  | .callWrapper t config =>
    match s.tasks t with
    | .idle => some (s.goto t (.wrapperLock config))
    | _ => none
  | .lockWrapper t loaded =>
    match s.tasks t, s.wrapperOwner with
    | .wrapperLock config, none =>
      match s.wrapper, config.or loaded with
      | some w, _ => some ({ s with toGlobals := s.toGlobals.returnWrapper w }.goto t .idle)
      | none, none => some (s.goto t .idle)
      | none, some config => some (enterClient env { s with wrapperOwner := some t } t config .wrapper)
    | _, _ => none
  | .lockClient t =>
    match s.tasks t, s.clientOwner with
    | .clientLock config caller, none =>
      if s.hit env config then some (s.answer t config caller s.inst)
      else some { s.goto t (.building config caller s.resets) with clientOwner := some t }
    | _, _ => none
  | .built t creds imports memory =>
    match s.tasks t with
    | .building config caller begun =>
      some (endBuild env { s with clientOwner := none } t config creds caller begun
        (buildMem0Instance env config creds imports memory))
    | _ => none
  | .cancel t =>
    match s.tasks t with
    | .idle => none
    | .wrapperLock _ => some (s.goto t .idle)
    | .clientLock _ caller => some (s.leave t caller)
    | .building _ caller _ => some ({ s with clientOwner := none }.leave t caller)
  | .reset =>
    some { s with inst := none, configHash := some [], wrapper := none, resets := s.resets + 1 }
  | .setPool pool => some { s with pool }

end Step

/-! ## What a step can do -/

section

variable {env : Env} {s s' : State}

inductive Turn (env : Env) (s : State) : Event → State → Prop where
  | callClient {t : Nat} {config : Config} : s.tasks t = .idle →
    Turn env s (.callClient t config) (enterClient env s t config .direct)
  | callWrapper {t : Nat} {config : Option Config} : s.tasks t = .idle →
    Turn env s (.callWrapper t config) (s.goto t (.wrapperLock config))
  | kept {t : Nat} {config loaded : Option Config} {w : QualityWrapper} : s.tasks t = .wrapperLock config →
    s.wrapperOwner = none → s.wrapper = some w →
    Turn env s (.lockWrapper t loaded) ({ s with toGlobals := s.toGlobals.returnWrapper w }.goto t .idle)
  | noConfig {t : Nat} {config loaded : Option Config} : s.tasks t = .wrapperLock config →
    s.wrapperOwner = none → s.wrapper = none → config.or loaded = none →
    Turn env s (.lockWrapper t loaded) (s.goto t .idle)
  | make {t : Nat} {config loaded : Option Config} {c : Config} : s.tasks t = .wrapperLock config →
    s.wrapperOwner = none → s.wrapper = none → config.or loaded = some c →
    Turn env s (.lockWrapper t loaded) (enterClient env { s with wrapperOwner := some t } t c .wrapper)
  | found {t : Nat} {config : Config} {caller : Caller} : s.tasks t = .clientLock config caller →
    s.clientOwner = none → s.hit env config = true →
    Turn env s (.lockClient t) (s.answer t config caller s.inst)
  | build {t : Nat} {config : Config} {caller : Caller} : s.tasks t = .clientLock config caller →
    s.clientOwner = none → s.hit env config = false →
    Turn env s (.lockClient t) { s.goto t (.building config caller s.resets) with clientOwner := some t }
  | built {t : Nat} {creds : Credentials} {imports memory : Option Failure} {config : Config}
    {caller : Caller} {begun : Nat} :
    s.tasks t = .building config caller begun →
    Turn env s (.built t creds imports memory) (endBuild env { s with clientOwner := none } t config creds caller begun
      (buildMem0Instance env config creds imports memory))
  | cancelWrapper {t : Nat} {config : Option Config} : s.tasks t = .wrapperLock config →
    Turn env s (.cancel t) (s.goto t .idle)
  | cancelClient {t : Nat} {config : Config} {caller : Caller} : s.tasks t = .clientLock config caller →
    Turn env s (.cancel t) (s.leave t caller)
  | cancelBuild {t : Nat} {config : Config} {caller : Caller} {begun : Nat} :
    s.tasks t = .building config caller begun →
    Turn env s (.cancel t) ({ s with clientOwner := none }.leave t caller)
  | reset : Turn env s .reset { s with inst := none, configHash := some [], wrapper := none, resets := s.resets + 1 }
  | setPool {pool : Option Nat} : Turn env s (.setPool pool) { s with pool }

theorem step_turn {e : Event} (hs : step env s e = some s') : Turn env s e s' := by
  cases e with
  | callClient t config =>
    cases ht : s.tasks t <;> simp only [step, ht, Option.some.injEq, reduceCtorEq] at hs
    exact hs ▸ .callClient ht
  | callWrapper t config =>
    cases ht : s.tasks t <;> simp only [step, ht, Option.some.injEq, reduceCtorEq] at hs
    exact hs ▸ .callWrapper ht
  | lockWrapper t loaded =>
    cases ht : s.tasks t with
    | wrapperLock config =>
      cases howner : s.wrapperOwner with
      | some _ => simp only [step, ht, howner, reduceCtorEq] at hs
      | none =>
        cases hw : s.wrapper with
        | some w =>
          have hkept : step env s (.lockWrapper t loaded)
              = some ({ s with toGlobals := s.toGlobals.returnWrapper w }.goto t .idle) := by
            simp only [step, ht, howner, hw]
          exact Option.some.inj (hkept.symm.trans hs) ▸ .kept ht howner hw
        | none =>
          cases hc : config.or loaded with
          | none =>
            simp only [step, ht, howner, hw, hc, Option.some.injEq] at hs
            exact hs ▸ .noConfig ht howner hw hc
          | some c =>
            simp only [step, ht, howner, hw, hc, Option.some.injEq] at hs
            exact hs ▸ .make ht howner hw hc
    | idle | clientLock _ _ | building _ _ _ => simp only [step, ht, reduceCtorEq] at hs
  | lockClient t =>
    cases ht : s.tasks t with
    | clientLock config caller =>
      cases howner : s.clientOwner with
      | some _ => simp only [step, ht, howner, reduceCtorEq] at hs
      | none =>
        cases hhit : s.hit env config with
        | true =>
          simp only [step, ht, howner, hhit, if_true, Option.some.injEq] at hs
          exact hs ▸ .found ht howner hhit
        | false =>
          simp only [step, ht, howner, hhit, Bool.false_eq_true, if_false, Option.some.injEq] at hs
          exact hs ▸ .build ht howner hhit
    | idle | wrapperLock _ | building _ _ _ => simp only [step, ht, reduceCtorEq] at hs
  | built t creds imports memory =>
    cases ht : s.tasks t <;> simp only [step, ht, Option.some.injEq, reduceCtorEq] at hs
    exact hs ▸ .built ht
  | cancel t =>
    cases ht : s.tasks t <;> simp only [step, ht, Option.some.injEq, reduceCtorEq] at hs
    · exact hs ▸ .cancelWrapper ht
    · exact hs ▸ .cancelClient ht
    · exact hs ▸ .cancelBuild ht
  | reset => exact Option.some.inj hs ▸ .reset
  | setPool pool => exact Option.some.inj hs ▸ .setPool

end

/-! ## What a step does to the globals -/

section

variable {s s' : State} {t : Nat} {config : Config} {caller : Caller} {client : Option Client}

@[simp] theorem goto_toGlobals (task : Task) : (s.goto t task).toGlobals = s.toGlobals := rfl

@[simp] theorem leave_toGlobals : (s.leave t caller).toGlobals = s.toGlobals := by cases caller <;> rfl

@[simp] theorem answer_toGlobals :
    (s.answer t config caller client).toGlobals = s.toGlobals.answer config caller client := by
  simp only [State.answer, leave_toGlobals]

@[simp] theorem leave_tasks : (s.leave t caller).tasks = Function.update s.tasks t .idle := by cases caller <;> rfl

end

/-! ### Who holds `_wrapper_lock` -/

/-- The call of `get_mem0_client` it waits in is one of `get_quality_wrapper`. -/
def Task.inWrapper : Task → Bool
  | .clientLock _ .wrapper => true
  | .building _ .wrapper _ => true
  | _ => false

@[simp] theorem inWrapper_clientLock {config : Config} {caller : Caller} :
    (Task.clientLock config caller).inWrapper = true ↔ caller = .wrapper := by
  cases caller <;> simp [Task.inWrapper]

@[simp] theorem inWrapper_building {config : Config} {caller : Caller} {begun : Nat} :
    (Task.building config caller begun).inWrapper = true ↔ caller = .wrapper := by
  cases caller <;> simp [Task.inWrapper]

def Holds (tasks : Nat → Task) (owner : Option Nat) : Prop := ∀ t, (tasks t).inWrapper = true → owner = some t

section

variable {tasks : Nat → Task} {owner : Option Nat} {t : Nat}

theorem Holds.update (h : Holds tasks owner) {task : Task} (htask : task.inWrapper = true → owner = some t) :
    Holds (Function.update tasks t task) owner := by
  intro u hu
  by_cases hut : u = t
  · subst hut
    rw [Function.update_self] at hu
    exact htask hu
  · rw [Function.update_of_ne hut] at hu
    exact h u hu

theorem Holds.idle (h : Holds tasks owner) : Holds (Function.update tasks t .idle) owner :=
  h.update fun hidle => absurd hidle (by decide)

theorem Holds.release (h : Holds tasks (some t)) : Holds (Function.update tasks t .idle) none := by
  intro u hu
  by_cases hut : u = t
  · subst hut
    rw [Function.update_self] at hu
    exact absurd hu (by decide)
  · rw [Function.update_of_ne hut] at hu
    exact absurd (Option.some.inj (h u hu)).symm hut

theorem Holds.take (h : Holds tasks none) (task : Task) : Holds (Function.update tasks t task) (some t) := by
  intro u hu
  by_cases hut : u = t
  · rw [hut]
  · rw [Function.update_of_ne hut] at hu
    exact absurd (h u hu) (by simp)

end

/-- The lock is held by the task that makes the wrapper, and there is none while
it does. -/
structure Locked (s : State) : Prop where
  holder : Holds s.tasks s.wrapperOwner
  empty : s.wrapperOwner.isSome = true → s.wrapper = none

section

variable {s s' : State} {t : Nat} {config : Config} {caller : Caller} {client : Option Client}

theorem Locked.goto (h : Locked s) {task : Task} (htask : task.inWrapper = true → s.wrapperOwner = some t) :
    Locked (s.goto t task) :=
  ⟨h.holder.update htask, h.empty⟩

theorem Locked.leave (h : Locked s) (hcaller : caller = .wrapper → s.wrapperOwner = some t) :
    Locked (s.leave t caller) := by
  cases caller with
  | direct => exact ⟨h.holder.idle, h.empty⟩
  | wrapper =>
    have hheld : Holds s.tasks (some t) := hcaller rfl ▸ h.holder
    exact ⟨hheld.release, fun hnone => absurd hnone (by simp [State.leave])⟩

/-- The call of a task that holds the lock ends. -/
theorem Locked.answer {g : Globals} (h : Locked s) (hcaller : caller = .wrapper → s.wrapperOwner = some t)
    (hwrapper : g.wrapper = s.wrapper) : Locked ({ s with toGlobals := g }.answer t config caller client) := by
  cases caller with
  | direct => exact ⟨h.holder.idle, fun howner => hwrapper.trans (h.empty howner)⟩
  | wrapper =>
    have hheld : Holds s.tasks (some t) := hcaller rfl ▸ h.holder
    exact ⟨hheld.release, fun hnone => absurd hnone (by simp [State.answer, State.leave])⟩

/-- It holds the lock if it is in a call of `get_quality_wrapper`. -/
theorem Locked.owner (h : Locked s) (ht : (s.tasks t).inWrapper = true) : s.wrapperOwner = some t := h.holder t ht

theorem Locked.free (h : Locked s) (ht : (s.tasks t).inWrapper = true) : s.wrapper = none :=
  h.empty (by rw [h.holder t ht]; rfl)

variable (env : Env)

theorem Locked.enterClient (h : Locked s) (hcaller : caller = .wrapper → s.wrapperOwner = some t) :
    Locked (enterClient env s t config caller) := by
  unfold KnowledgeClients.enterClient
  split
  · exact h.answer hcaller rfl
  · exact h.goto fun htask => hcaller (inWrapper_clientLock.mp htask)

/-- `endBuild`, with the lock on the client given back. -/
theorem Locked.endBuild (h : Locked s) (hcaller : caller = .wrapper → s.wrapperOwner = some t) (creds : Credentials)
    (begun : Nat) (result : Except Failure MemoryConfig) :
    Locked (endBuild env { s with clientOwner := none } t config creds caller begun result) := by
  have hs : Locked { s with clientOwner := none } := ⟨h.holder, h.empty⟩
  unfold KnowledgeClients.endBuild
  split
  · exact hs.answer hcaller rfl
  · split
    · exact hs.answer hcaller rfl
    · exact hs.leave hcaller

theorem Locked.start : Locked {} := ⟨fun t h => absurd h (by simp [Task.inWrapper]), fun h => absurd h (by decide)⟩

theorem Locked.step {e : Event} (h : Locked s) (hs : step env s e = some s') : Locked s' := by
  cases step_turn hs with
  | callClient _ => exact h.enterClient env fun hd => absurd hd (by decide)
  | callWrapper _ => exact h.goto fun hw => absurd hw (by simp [Task.inWrapper])
  | kept _ _ _ => exact ⟨h.holder.idle, h.empty⟩
  | noConfig _ _ _ _ => exact ⟨h.holder.idle, h.empty⟩
  | make _ howner hnone _ =>
    have hfree : Holds s.tasks none := howner ▸ h.holder
    refine Locked.enterClient env ⟨fun u hu => ?_, fun _ => hnone⟩ fun _ => rfl
    exact absurd (hfree u hu) (by simp)
  | found ht _ _ => exact h.answer (fun hc => h.owner (by rw [ht]; exact inWrapper_clientLock.mpr hc)) rfl
  | build ht _ _ =>
    refine ⟨h.holder.update fun hb => h.owner ?_, h.empty⟩
    rw [ht]
    exact inWrapper_clientLock.mpr (inWrapper_building.mp hb)
  | built ht => exact h.endBuild env (fun hc => h.owner (by rw [ht]; exact inWrapper_building.mpr hc)) _ _ _
  | cancelWrapper _ => exact ⟨h.holder.idle, h.empty⟩
  | cancelClient ht => exact h.leave fun hc => h.owner (by rw [ht]; exact inWrapper_clientLock.mpr hc)
  | cancelBuild ht =>
    exact Locked.leave ⟨h.holder, h.empty⟩ fun hc => h.owner (by rw [ht]; exact inWrapper_building.mpr hc)
  | reset => exact ⟨h.holder, fun _ => rfl⟩
  | setPool => exact ⟨h.holder, h.empty⟩

end

/-! ### The globals after a step -/

section

variable {env : Env} {s s' : State} {e : Event}

/-- What a call that ends on the client of the moment, or with the wrapper there
is, does to the globals; or the end of a build, a reset, another pool. A call of
`get_quality_wrapper` that goes on finds no wrapper. -/
inductive Move (env : Env) (s : State) : Event → Globals → Prop where
  | stay {e : Event} (he : e.settles = false) : Move env s e s.toGlobals
  | hit {e : Event} {config : Config} {caller : Caller} (he : e.settles = false) : s.hit env config = true →
    (caller = .wrapper → s.wrapper = none) → Move env s e (s.toGlobals.answer config caller s.inst)
  | kept {e : Event} {w : QualityWrapper} (he : e.settles = false) : s.wrapper = some w →
    Move env s e (s.toGlobals.returnWrapper w)
  | installed {t : Nat} {creds : Credentials} {imports memory : Option Failure} {config : Config}
    {caller : Caller} {begun : Nat}
    {settings : MemoryConfig} : s.tasks t = .building config caller begun →
    buildMem0Instance env config creds imports memory = .ok settings → (caller = .wrapper → s.wrapper = none) →
    Move env s (.built t creds imports memory) ((s.install env config creds begun settings).1.answer config caller
      (some (s.install env config creds begun settings).2))
  | failed {t : Nat} {creds : Credentials} {imports memory : Option Failure} {config : Config}
    {caller : Caller} {begun : Nat}
    {f : Failure} : s.tasks t = .building config caller begun →
    buildMem0Instance env config creds imports memory = .error f → f.caught = true →
    (caller = .wrapper → s.wrapper = none) →
    Move env s (.built t creds imports memory)
      ({ s.toGlobals with inst := none, configHash := none }.answer config caller none)
  | raised {t : Nat} {creds : Credentials} {imports memory : Option Failure} {config : Config}
    {caller : Caller} {begun : Nat}
    {f : Failure} : s.tasks t = .building config caller begun →
    buildMem0Instance env config creds imports memory = .error f → f.caught = false →
    Move env s (.built t creds imports memory) s.toGlobals
  | reset : Move env s .reset
    { s.toGlobals with inst := none, configHash := some [], wrapper := none, resets := s.resets + 1 }
  | setPool {pool : Option Nat} : Move env s (.setPool pool) { s.toGlobals with pool }

theorem move_enterClient {s₀ : State} {t : Nat} {config : Config} {caller : Caller} (he : e.settles = false)
    (hs₀ : s₀.toGlobals = s.toGlobals) (hfree : caller = .wrapper → s.wrapper = none) :
    Move env s e (enterClient env s₀ t config caller).toGlobals := by
  unfold enterClient
  rw [hs₀]
  split
  next hhit =>
    rw [answer_toGlobals, hs₀]
    exact .hit he hhit hfree
  next =>
    rw [goto_toGlobals, hs₀]
    exact .stay he

theorem step_move (hlocked : Locked s) (hs : step env s e = some s') : Move env s e s'.toGlobals := by
  cases step_turn hs with
  | callClient _ => exact move_enterClient rfl rfl fun hd => absurd hd (by decide)
  | callWrapper _ => exact .stay rfl
  | kept _ _ hw => exact .kept rfl hw
  | noConfig _ _ _ _ => exact .stay rfl
  | make _ _ hnone _ => exact move_enterClient rfl rfl fun _ => hnone
  | found ht _ hhit =>
    rw [answer_toGlobals]
    exact .hit rfl hhit fun hc => hlocked.free (by rw [ht]; exact inWrapper_clientLock.mpr hc)
  | build _ _ _ => exact .stay rfl
  | @built t creds imports memory config caller begun ht =>
    have hfree : caller = .wrapper → s.wrapper = none := fun hc =>
      hlocked.free (by rw [ht]; exact inWrapper_building.mpr hc)
    cases hbuild : buildMem0Instance env config creds imports memory with
    | ok settings =>
      simp only [endBuild, answer_toGlobals]
      exact .installed ht hbuild hfree
    | error f =>
      cases hf : f.caught with
      | true =>
        simp only [endBuild, hf, if_true, answer_toGlobals]
        exact .failed ht hbuild hf hfree
      | false =>
        simp only [endBuild, hf, Bool.false_eq_true, if_false, leave_toGlobals]
        exact .raised ht hbuild hf
  | cancelWrapper _ => exact .stay rfl
  | cancelClient _ =>
    rw [leave_toGlobals]
    exact .stay rfl
  | cancelBuild _ =>
    rw [leave_toGlobals]
    exact .stay rfl
  | reset => exact .reset
  | setPool => exact .setPool

end

/-! ## Configurations of the clients -/

section

variable {g : Globals} {config : Config} {caller : Caller} {client : Option Client}

@[simp] theorem answer_inst : (g.answer config caller client).inst = g.inst := by
  unfold Globals.answer
  cases caller <;> cases g.pool <;> rfl

@[simp] theorem answer_configHash : (g.answer config caller client).configHash = g.configHash := by
  unfold Globals.answer
  cases caller <;> cases g.pool <;> rfl

@[simp] theorem answer_pool : (g.answer config caller client).pool = g.pool := by
  unfold Globals.answer
  cases caller <;> cases g.pool <;> simp [Globals.returnWrapper]

@[simp] theorem answer_serial : (g.answer config caller client).serial = g.serial := by
  unfold Globals.answer
  cases caller <;> cases g.pool <;> rfl

@[simp] theorem answer_resets : (g.answer config caller client).resets = g.resets := by
  unfold Globals.answer
  cases caller <;> cases g.pool <;> rfl

@[simp] theorem answer_clients :
    (g.answer config caller client).clients = ⟨config, client, g.resets⟩ :: g.clients := by
  unfold Globals.answer
  cases caller <;> cases g.pool <;> rfl

@[simp] theorem answer_wrapper_direct : (g.answer config .direct client).wrapper = g.wrapper := rfl

@[simp] theorem answer_wrappers_direct : (g.answer config .direct client).wrappers = g.wrappers := rfl

end

section

variable {env : Env} {g : Globals}

/-- Built from its configuration, which the hash does not tell from `config`. -/
def Client.Matches (env : Env) (i : Client) (config : Config) : Prop :=
  computeConfigHash env i.config = computeConfigHash env config ∧
    memoryConfig env i.credentials i.config = .ok i.settings

structure Matching (env : Env) (g : Globals) : Prop where
  hash : ∀ i ∈ g.inst, g.configHash = some (computeConfigHash env i.config)
  built : ∀ i ∈ g.inst, memoryConfig env i.credentials i.config = .ok i.settings
  clients : ∀ a ∈ g.clients, ∀ i ∈ a.client, i.Matches env a.config

theorem Matching.answer (h : Matching env g) {config : Config} {caller : Caller} {client : Option Client}
    (hclient : ∀ i ∈ client, i.Matches env config) : Matching env (g.answer config caller client) where
  hash := by
    rw [answer_inst, answer_configHash]
    exact h.hash
  built := by
    rw [answer_inst]
    exact h.built
  clients := by
    rw [answer_clients]
    intro a ha i hi
    rcases List.mem_cons.mp ha with rfl | ha
    · exact hclient i hi
    · exact h.clients a ha i hi

/-- The double check: a client is handed out only on its hash. -/
theorem Matching.hit (h : Matching env g) {config : Config} (hhit : g.hit env config = true) :
    ∀ i ∈ g.inst, i.Matches env config := by
  intro i hi
  have hhash : g.configHash = some (computeConfigHash env config) := by
    have := (Bool.and_eq_true _ _ ▸ hhit).2
    exact eq_of_beq this
  exact ⟨Option.some.inj ((h.hash i hi).symm.trans hhash), h.built i hi⟩

theorem memoryConfig_of_build {config : Config} {creds : Credentials} {imports memory : Option Failure}
    {settings : MemoryConfig} (h : buildMem0Instance env config creds imports memory = .ok settings) :
    memoryConfig env creds config = .ok settings := by
  unfold buildMem0Instance at h
  cases imports with
  | some e => cases h
  | none =>
    obtain ⟨m, hm, h⟩ := bind_eq_ok.mp h
    cases memory with
    | some e => cases h
    | none =>
      obtain rfl := Except.ok.inj h
      exact hm

theorem Matching.step {s s' : State} {e : Event} (h : Matching env s.toGlobals) (hlocked : Locked s)
    (hs : step env s e = some s') : Matching env s'.toGlobals := by
  generalize hg' : s'.toGlobals = g'
  have hmove : Move env s e g' := hg' ▸ step_move hlocked hs
  cases hmove with
  | stay _ | raised _ _ _ => exact h
  | hit _ hhit _ => exact h.answer (h.hit hhit)
  | kept _ _ => exact ⟨h.hash, h.built, h.clients⟩
  | @installed _ creds _ _ config _ begun settings _ hbuild _ =>
    have hm := memoryConfig_of_build hbuild
    have hnew : Matching env (s.install env config creds begun settings).1 := by
      refine ⟨fun i hi => ?_, fun i hi => ?_, h.clients⟩
      · obtain rfl := Option.some.inj hi
        rfl
      · obtain rfl := Option.some.inj hi
        exact hm
    refine hnew.answer fun i hi => ?_
    obtain rfl := Option.some.inj hi
    exact ⟨rfl, hm⟩
  | failed _ _ _ _ =>
    have hnone : Matching env { s.toGlobals with inst := none, configHash := none } :=
      ⟨fun i hi => absurd hi (by simp), fun i hi => absurd hi (by simp), h.clients⟩
    exact hnone.answer fun i hi => absurd hi (by simp)
  | reset => exact ⟨fun i hi => absurd hi (by simp), fun i hi => absurd hi (by simp), h.clients⟩
  | setPool => exact ⟨h.hash, h.built, h.clients⟩

/-- **Clients and configurations.** Whatever the interleaving, with resets,
cancellations, failed builds and edits of the credentials in it: the client a
call returns was built from a configuration with the hash of the caller's. If the
hashed sections are the same, its settings are what the caller's configuration
gives with the credentials of any moment exactly when the dimensions and both
keys are. -/
theorem clients_match (env : Env) {es : List Event} {s : State} (h : exec (step env) {} es = some s) :
    ∀ a ∈ s.clients, ∀ i ∈ a.client, computeConfigHash env i.config = computeConfigHash env a.config ∧
      memoryConfig env i.credentials i.config = .ok i.settings ∧
      (relevant i.config = relevant a.config → ∀ now,
        (memoryConfig env now a.config = .ok i.settings ↔ ReadAs env now a.config i.settings)) := by
  have hinv : Locked s ∧ Matching env s.toGlobals := by
    refine (passes_of_exec h).inv (I := fun s => Locked s ∧ Matching env s.toGlobals)
      (fun s e s' hI hs => ⟨hI.1.step env hs, hI.2.step hI.1 hs⟩) ⟨Locked.start, ?_⟩
    exact ⟨fun i hi => absurd hi (by simp), fun i hi => absurd hi (by simp), fun a ha => absurd ha (by simp)⟩
  intro a ha i hi
  obtain ⟨hhash, hm⟩ := hinv.2.clients a ha i hi
  exact ⟨hhash, hm, fun hrelevant now => memoryConfig_iff hrelevant hm⟩

end

/-- A configuration with `embedding_dims` at the top only. -/
def dimsConfig (dims : String) : Config := [("embedding_dims".toList, .num dims.toList)]

def dimsEnv : Env where
  digest := dumps
  environ _ := none
  int
    | .num repr => .ok (if repr = "1024".toList then 1024 else 768)
    | _ => .ok 5432

/-- No key anywhere. -/
def noKeys : Credentials := ⟨fun _ => [], fun _ => []⟩

def dimsEdit : List Event :=
  [.callClient 0 (dimsConfig "768"), .lockClient 0, .built 0 noKeys none none, .callClient 1 (dimsConfig "1024")]

/-- After an edit of the dimensions the old client stays. -/
theorem clients_match_dims : ∃ s, exec (step dimsEnv) {} dimsEdit = some s ∧
    ∃ a ∈ s.clients, ∃ i ∈ a.client, memoryConfig dimsEnv noKeys a.config ≠ .ok i.settings := by
  have hrun : exec (step dimsEnv) {} dimsEdit = some _ := rfl
  refine ⟨_, hrun, _, List.mem_cons_self, _, rfl, fun hsettings => ?_⟩
  have hread := ((clients_match dimsEnv hrun _ List.mem_cons_self _ rfl).2.2 rfl noKeys).mp hsettings
  exact absurd (Except.ok.inj hread.dims : (1024 : Int) = 768) (by decide)

/-! ## Resets -/

section

variable {env : Env} {g : Globals}

/-- Every client handed out so far was begun after the last reset before. -/
def Globals.Fresh (g : Globals) : Prop :=
  (∀ a ∈ g.clients, ∀ i ∈ a.client, i.begun = a.resets) ∧ ∀ a ∈ g.wrappers, ∀ i ∈ a.2.mem0, i.begun = a.1

/-- So were the ones that wait in the globals. -/
def Globals.Recent (g : Globals) : Prop :=
  (∀ i ∈ g.inst, i.begun = g.resets) ∧ ∀ w ∈ g.wrapper, ∀ i ∈ w.mem0, i.begun = g.resets

/-- A build that succeeds has not seen a reset. -/
def Undisturbed (env : Env) (s : State) : Event → Prop
  | .built t creds imports memory => ∀ config caller begun settings, s.tasks t = .building config caller begun →
      buildMem0Instance env config creds imports memory = .ok settings → begun = s.resets
  | _ => True

theorem fresh_answer (h : g.Fresh) {config : Config} {caller : Caller} {client : Option Client} :
    (g.answer config caller client).Fresh ↔ ∀ i ∈ client, i.begun = g.resets := by
  constructor
  · intro hfresh i hi
    exact hfresh.1 ⟨config, client, g.resets⟩ (by rw [answer_clients]; exact List.mem_cons_self) i hi
  · intro hclient
    refine ⟨fun a ha i hi => ?_, fun a ha i hi => ?_⟩
    · rw [answer_clients] at ha
      rcases List.mem_cons.mp ha with rfl | ha
      · exact hclient i hi
      · exact h.1 a ha i hi
    · cases caller with
      | direct => exact h.2 a ha i hi
      | wrapper =>
        cases hpool : g.pool with
        | none =>
          simp only [Globals.answer, hpool] at ha
          exact h.2 a ha i hi
        | some pool =>
          simp only [Globals.answer, hpool, Globals.returnWrapper] at ha
          rcases List.mem_cons.mp ha with rfl | ha
          · exact hclient i hi
          · exact h.2 a ha i hi

theorem Globals.Recent.answer (h : g.Recent) {config : Config} {caller : Caller} {client : Option Client}
    (hclient : ∀ i ∈ client, i.begun = g.resets) : (g.answer config caller client).Recent := by
  refine ⟨by simpa using h.1, fun w hw i hi => ?_⟩
  rw [answer_resets]
  cases caller with
  | direct => exact h.2 w hw i hi
  | wrapper =>
    cases hpool : g.pool with
    | none =>
      simp only [Globals.answer, hpool] at hw
      exact h.2 w hw i hi
    | some pool =>
      simp only [Globals.answer, hpool, Globals.returnWrapper] at hw
      obtain rfl := Option.some.inj hw
      exact hclient i hi

theorem recent_step {s s' : State} {e : Event} (h : s.Recent) (hlocked : Locked s) (hclean : Undisturbed env s e)
    (hs : step env s e = some s') : s'.Recent := by
  generalize hg' : s'.toGlobals = g'
  have hmove : Move env s e g' := hg' ▸ step_move hlocked hs
  cases hmove with
  | stay _ | raised _ _ _ => exact h
  | hit _ _ _ => exact h.answer h.1
  | kept _ _ => exact h
  | @installed _ creds _ _ config _ begun settings ht hbuild _ =>
    have hbegun : begun = s.resets := hclean config _ begun settings ht hbuild
    have hnew : (s.install env config creds begun settings).1.Recent := by
      refine ⟨fun i hi => ?_, h.2⟩
      obtain rfl := Option.some.inj hi
      exact hbegun
    refine hnew.answer fun i hi => ?_
    obtain rfl := Option.some.inj hi
    exact hbegun
  | failed _ _ _ _ =>
    have hnone : Globals.Recent { s.toGlobals with inst := none, configHash := none } :=
      ⟨fun i hi => absurd hi (by simp), h.2⟩
    exact hnone.answer fun i hi => absurd hi (by simp)
  | reset => exact ⟨fun i hi => absurd hi (by simp), fun w hw => absurd hw (by simp)⟩
  | setPool => exact h

theorem fresh_step {s s' : State} {e : Event} (h : s.Fresh) (hrecent : s.Recent) (hlocked : Locked s)
    (hs : step env s e = some s') : s'.Fresh ↔ Undisturbed env s e := by
  have hquiet : ∀ {e : Event}, e.settles = false → Undisturbed env s e := by
    intro e he
    cases e with
    | built _ _ _ _ | reset | setPool _ => cases he
    | callClient _ _ | callWrapper _ _ | lockWrapper _ _ | lockClient _ | cancel _ => trivial
  generalize hg' : s'.toGlobals = g'
  have hmove : Move env s e g' := hg' ▸ step_move hlocked hs
  cases hmove with
  | stay he => exact iff_of_true h (hquiet he)
  | hit he _ _ => exact iff_of_true ((fresh_answer h).mpr hrecent.1) (hquiet he)
  | @kept _ w he hw =>
    refine iff_of_true ⟨h.1, fun a ha i hi => ?_⟩ (hquiet he)
    rcases List.mem_cons.mp ha with rfl | ha
    · exact hrecent.2 w hw i hi
    · exact h.2 a ha i hi
  | @installed t creds _ _ config caller begun settings ht hbuild _ =>
    have hinstall : (s.install env config creds begun settings).1.Fresh := h
    rw [fresh_answer hinstall]
    constructor
    · intro hbegun config' caller' begun' settings' ht' _
      obtain ⟨-, -, rfl⟩ : config = config' ∧ caller = caller' ∧ begun = begun' := by
        simpa using ht.symm.trans ht'
      exact hbegun _ rfl
    · intro hclean i hi
      obtain rfl := Option.some.inj hi
      exact hclean config caller begun settings ht hbuild
  | @failed t _ _ _ config caller begun _ ht hbuild _ _ =>
    have hnone : Globals.Fresh { s.toGlobals with inst := none, configHash := none } := h
    refine iff_of_true ((fresh_answer hnone).mpr fun i hi => absurd hi (by simp)) ?_
    intro config' caller' begun' settings' ht' hok
    obtain ⟨rfl, -, -⟩ : config = config' ∧ caller = caller' ∧ begun = begun' := by simpa using ht.symm.trans ht'
    exact absurd (hok.symm.trans hbuild) (by simp)
  | @raised t _ _ _ config caller begun _ ht hbuild _ =>
    refine iff_of_true h ?_
    intro config' caller' begun' settings' ht' hok
    obtain ⟨rfl, -, -⟩ : config = config' ∧ caller = caller' ∧ begun = begun' := by simpa using ht.symm.trans ht'
    exact absurd (hok.symm.trans hbuild) (by simp)
  | reset => exact iff_of_true h trivial
  | setPool => exact iff_of_true h trivial

/-- **Clients after a reset.** In a run from the start, every client that a call
returned, by itself or in a wrapper, was begun after the last reset before the
return exactly when no build that succeeds has seen a reset. -/
theorem fresh_iff (env : Env) (es : List Event) :
    (∀ s : State, Passes (step env) {} es s → s.Fresh) ↔
      ∀ s e s', Takes (step env) {} es s e s' → Undisturbed env s e := by
  refine always_iff (I := fun s => Locked s ∧ s.Recent) (P := fun s => s.Fresh)
    (fun s e s' hI hclean hs => ⟨hI.1.step env hs, recent_step hI.2 hI.1 hclean hs⟩)
    (fun s e s' hI hP hs => fresh_step hP hI.2 hI.1 hs)
    ⟨Locked.start, fun i hi => absurd hi (by simp), fun w hw => absurd hw (by simp)⟩
    ⟨fun a ha => absurd ha (by simp), fun a ha => absurd ha (by simp)⟩ es

end

/-! ## What the wrapper holds -/

section

variable {env : Env} {g : Globals}

/-- The wrapper, if there is one, holds the client and the pool of the moment. -/
def Globals.Current (g : Globals) : Prop := ∀ w ∈ g.wrapper, w.mem0 = g.inst ∧ g.pool = some w.pool

/-- While there is a wrapper, a direct call puts another client in place or drops
the one there is, or the pool is replaced. -/
def Replaced (env : Env) (s : State) : Event → Prop
  | .built t creds imports memory => ∃ w config caller begun, s.wrapper = some w ∧
      s.tasks t = .building config caller begun ∧
      ∀ f, buildMem0Instance env config creds imports memory = .error f → f.caught = true ∧ w.mem0.isSome = true
  | .setPool pool => ∃ w, s.wrapper = some w ∧ pool ≠ some w.pool
  | _ => False

/-- The serial numbers of the clients. -/
structure Numbered (g : Globals) : Prop where
  inst : ∀ i ∈ g.inst, i.serial < g.serial
  wrapper : ∀ w ∈ g.wrapper, ∀ i ∈ w.mem0, i.serial < g.serial

theorem wrapper_answer {config : Config} {caller : Caller} {client : Option Client} {w : QualityWrapper}
    (h : (g.answer config caller client).wrapper = some w) :
    g.wrapper = some w ∨ caller = .wrapper ∧ w.mem0 = client ∧ g.pool = some w.pool := by
  cases caller with
  | direct => exact .inl h
  | wrapper =>
    cases hpool : g.pool with
    | none =>
      simp only [Globals.answer, hpool] at h
      exact .inl h
    | some pool =>
      simp only [Globals.answer, hpool, Globals.returnWrapper, Option.some.injEq] at h
      subst h
      exact .inr ⟨rfl, rfl, rfl⟩

theorem Numbered.answer (h : Numbered g) {config : Config} {caller : Caller} {client : Option Client}
    (hclient : ∀ i ∈ client, i.serial < g.serial) : Numbered (g.answer config caller client) := by
  refine ⟨by simpa using h.inst, fun w hw i hi => ?_⟩
  rw [answer_serial]
  rcases wrapper_answer hw with hw | ⟨-, hmem0, -⟩
  · exact h.wrapper w hw i hi
  · exact hclient i (hmem0 ▸ hi)

theorem Numbered.step {s s' : State} {e : Event} (h : Numbered s.toGlobals) (hlocked : Locked s)
    (hs : step env s e = some s') : Numbered s'.toGlobals := by
  generalize hg' : s'.toGlobals = g'
  have hmove : Move env s e g' := hg' ▸ step_move hlocked hs
  cases hmove with
  | stay _ | raised _ _ _ => exact h
  | hit _ _ _ => exact h.answer h.inst
  | kept _ _ | setPool => exact ⟨h.inst, h.wrapper⟩
  | @installed _ creds _ _ config _ begun settings _ _ _ =>
    have hnew : Numbered (s.install env config creds begun settings).1 := by
      refine ⟨fun i hi => ?_, fun w hw i hi => Nat.lt_succ_of_lt (h.wrapper w hw i hi)⟩
      obtain rfl := Option.some.inj hi
      exact Nat.lt_succ_self _
    refine hnew.answer fun i hi => ?_
    obtain rfl := Option.some.inj hi
    exact Nat.lt_succ_self _
  | failed _ _ _ _ =>
    have hnone : Numbered { s.toGlobals with inst := none, configHash := none } :=
      ⟨fun i hi => absurd hi (by simp), h.wrapper⟩
    exact hnone.answer fun i hi => absurd hi (by simp)
  | reset => exact ⟨fun i hi => absurd hi (by simp), fun w hw => absurd hw (by simp)⟩

/-- What a call of `get_quality_wrapper` made of the client it was handed. -/
theorem current_answer {config : Config} {caller : Caller} (h : g.wrapper = none ∨ g.Current) :
    (g.answer config caller g.inst).Current := by
  intro w hw
  rw [answer_inst, answer_pool]
  rcases wrapper_answer hw with hold | ⟨-, hmem0, hpool⟩
  · rcases h with hnone | hcurrent
    · exact absurd (hnone.symm.trans hold) (by simp)
    · exact hcurrent w hold
  · exact ⟨hmem0, hpool⟩

theorem current_step {s s' : State} {e : Event} (h : s.Current) (hnumbered : Numbered s.toGlobals)
    (hlocked : Locked s) (hs : step env s e = some s') : s'.Current ↔ ¬ Replaced env s e := by
  have hquiet : ∀ {e : Event}, e.settles = false → ¬ Replaced env s e := by
    intro e he hr
    cases e with
    | built _ _ _ _ | reset | setPool _ => cases he
    | callClient _ _ | callWrapper _ _ | lockWrapper _ _ | lockClient _ | cancel _ => exact hr
  generalize hg' : s'.toGlobals = g'
  have hmove : Move env s e g' := hg' ▸ step_move hlocked hs
  cases hmove with
  | stay he => exact iff_of_true h (hquiet he)
  | hit he _ _ => exact iff_of_true (current_answer (.inr h)) (hquiet he)
  | kept he _ => exact iff_of_true h (hquiet he)
  | @installed t creds imports memory config caller begun settings ht hbuild hfree =>
    cases hw : s.wrapper with
    | none =>
      refine iff_of_true (current_answer (.inl hw)) ?_
      rintro ⟨w, -, -, -, hsome, -⟩
      exact absurd (hw.symm.trans hsome) (by simp)
    | some w =>
      have hdirect : caller = .direct := by
        cases caller with
        | direct => rfl
        | wrapper => exact absurd (hw.symm.trans (hfree rfl)) (by simp)
      subst hdirect
      refine iff_of_false (fun hcurrent => ?_) (not_not_intro ?_)
      · -- the wrapper's client would have a number no client had before
        have hmem0 := (hcurrent w hw).1
        rw [answer_inst] at hmem0
        exact absurd (hnumbered.wrapper w hw _ hmem0) (Nat.lt_irrefl _)
      · exact ⟨w, config, .direct, begun, hw, ht, fun f hf => absurd (hbuild.symm.trans hf) (by simp)⟩
  | @failed t creds imports memory config caller begun f ht hbuild hf hfree =>
    cases hw : s.wrapper with
    | none =>
      refine iff_of_true (current_answer (g := { s.toGlobals with inst := none, configHash := none }) (.inl hw)) ?_
      rintro ⟨w, -, -, -, hsome, -⟩
      exact absurd (hw.symm.trans hsome) (by simp)
    | some w =>
      have hdirect : caller = .direct := by
        cases caller with
        | direct => rfl
        | wrapper => exact absurd (hw.symm.trans (hfree rfl)) (by simp)
      subst hdirect
      have hpool := (h w hw).2
      constructor
      · rintro hcurrent ⟨w', config', _, _, hw', ht', hlost⟩
        obtain rfl := Option.some.inj (hw.symm.trans hw')
        obtain ⟨rfl, -, -⟩ := Task.building.inj (ht.symm.trans ht')
        have hmem0 : w.mem0 = none := (hcurrent w hw).1
        exact absurd (hlost f hbuild).2 (by simp [hmem0])
      · intro hkept w' hw'
        obtain rfl := Option.some.inj (hw.symm.trans hw')
        refine ⟨?_, hpool⟩
        cases hmem0 : w.mem0 with
        | none => rfl
        | some i =>
          refine absurd ⟨w, config, .direct, begun, hw, ht, fun f' hf' => ?_⟩ hkept
          obtain rfl := Except.error.inj (hbuild.symm.trans hf')
          exact ⟨hf, by rw [hmem0]; rfl⟩
  | @raised t creds imports memory config caller begun f ht hbuild hf =>
    refine iff_of_true h ?_
    rintro ⟨w, config', _, _, -, ht', hlost⟩
    obtain ⟨rfl, -, -⟩ := Task.building.inj (ht.symm.trans ht')
    exact absurd ((hlost f hbuild).1) (by simp [hf])
  | reset => exact iff_of_true (fun w hw => absurd hw (by simp)) id
  | @setPool pool =>
    constructor
    · rintro hcurrent ⟨w, hw, hpool⟩
      exact hpool (hcurrent w hw).2
    · intro hkept w hw
      exact ⟨(h w hw).1, not_not.mp fun hne => hkept ⟨w, hw, hne⟩⟩

/-- **A wrapper and what it wraps.** In a run from the start, the wrapper holds the
client and the pool of the moment in every state exactly when no step replaces
them behind it. -/
theorem wrapper_current_iff (env : Env) (es : List Event) :
    (∀ s : State, Passes (step env) {} es s → s.Current) ↔
      ∀ s e s', Takes (step env) {} es s e s' → ¬ Replaced env s e := by
  refine always_iff (I := fun s => Locked s ∧ Numbered s.toGlobals) (P := fun s => s.Current)
    (fun s e s' hI _ hs => ⟨hI.1.step env hs, hI.2.step hI.1 hs⟩)
    (fun s e s' hI hP hs => current_step hP hI.2 hI.1 hs)
    ⟨Locked.start, fun i hi => absurd hi (by simp), fun w hw => absurd hw (by simp)⟩
    (fun w hw => absurd hw (by simp)) es

theorem wrapper_kept_step {s s' : State} {e : Event} {w : QualityWrapper} (hlocked : Locked s)
    (hw : s.wrapper = some w) (he : e ≠ .reset) (hs : step env s e = some s') :
    s'.wrapper = some w ∧ (s'.wrappers = s.wrappers ∨ s'.wrappers = (s.resets, w) :: s.wrappers) := by
  have hdirect : ∀ {caller : Caller}, (caller = .wrapper → s.wrapper = none) → caller = .direct := by
    intro caller hfree
    cases caller with
    | direct => rfl
    | wrapper => exact absurd (hw.symm.trans (hfree rfl)) (by simp)
  generalize hg' : s'.toGlobals = g'
  have hmove : Move env s e g' := hg' ▸ step_move hlocked hs
  cases hmove with
  | stay _ | raised _ _ _ | setPool => exact ⟨hw, .inl rfl⟩
  | hit _ _ hfree | installed _ _ hfree | failed _ _ _ hfree =>
    obtain rfl := hdirect hfree
    exact ⟨hw, .inl rfl⟩
  | @kept _ w' _ hw' =>
    obtain rfl := Option.some.inj (hw.symm.trans hw')
    exact ⟨hw, .inr rfl⟩
  | reset => exact absurd rfl he

/-- Until the next reset every call of `get_quality_wrapper` returns the wrapper
there is, whatever its configuration, also one around no client. -/
theorem wrapper_kept {s s' : State} {es : List Event} {w : QualityWrapper} (hlocked : Locked s)
    (hw : s.wrapper = some w) (hes : ∀ e ∈ es, e ≠ .reset) (h : exec (step env) s es = some s') :
    s'.wrapper = some w ∧ ∃ new, s'.wrappers = new ++ s.wrappers ∧ ∀ a ∈ new, a.2 = w := by
  induction es generalizing s with
  | nil =>
    obtain rfl := Option.some.inj h
    exact ⟨hw, [], rfl, fun a ha => absurd ha (by simp)⟩
  | cons e es ih =>
    obtain ⟨t, ht, hrest⟩ := Option.bind_eq_some_iff.mp h
    obtain ⟨hwt, hret⟩ := wrapper_kept_step hlocked hw (hes e List.mem_cons_self) ht
    obtain ⟨hw', new, hnew, hall⟩ := ih (hlocked.step env ht) hwt
      (fun e he => hes e (List.mem_cons_of_mem _ he)) hrest
    rcases hret with hsame | hone
    · exact ⟨hw', new, hsame ▸ hnew, hall⟩
    · refine ⟨hw', new ++ [(s.resets, w)], by simp [hnew, hone], fun a ha => ?_⟩
      rcases List.mem_append.mp ha with ha | ha
      · exact hall a ha
      · rw [List.mem_singleton.mp ha]

end

end ContextBroker.KnowledgeClients

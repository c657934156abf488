import ContextBroker.Core.Memo
import ContextBroker.L8Operations.ConfigCache

/-!
# Model clients

`get_chat_model` and `get_embeddings_model` keep their clients in two memos
(`Core.Memo`). The key of a client is the role or nothing, the base URL, the
model and a part of the hash of the API key; the timeout, the dimensions and
the two embedding flags are not in it. That they are right rests on the loads:
one that reads a text with another hash than the last one clears both memos.

But there is a last one to compare with only if the file has been loaded
before and the cache has not been invalidated since, and the requests of one
configuration can share a key: `embeddings` and `log_embeddings` on one model
with different dimensions do. `clients_match_iff` says which steps of a
sequence of edits, invalidations, loads and requests make the first client
that does not match the configuration.
-/
namespace ContextBroker.ModelClients

open ConfigCache FileCache LTS Memo

/-! ## Configuration values -/

/-- A value below a section; `other` is a value of another type, with its
`str()` and its truth. -/
inductive Scalar where
  | null
  | bool (b : Bool)
  | int (n : Int)
  | text (s : Text)
  | other (str : Text) (truthy : Bool)
  deriving DecidableEq, Repr

/-- A value at the top of a configuration. -/
inductive Value where
  | dict (d : Dict Scalar)
  | scalar (s : Scalar)
  deriving DecidableEq, Repr

def Scalar.truthy : Scalar → Bool
  | .null => false
  | .bool b => b
  | .int n => n != 0
  | .text s => s != []
  | .other _ truthy => truthy

/-- `str()`, as in an f-string. -/
def Scalar.str : Scalar → Text
  | .null => "None".toList
  | .bool true => "True".toList
  | .bool false => "False".toList
  | .int n => (toString n).toList
  | .text s => s
  | .other str _ => str

def Value.truthy : Value → Bool
  | .dict d => d != []
  | .scalar s => s.truthy

/-- `d.get(key)`. -/
def get (d : Dict Scalar) (key : String) : Scalar := (d.lookup key.toList).getD .null

/-- `config.get(key, {})`. -/
def topLevel (config : Dict Value) (key : Text) : Value := (config.lookup key).getD (.dict [])

/-- What a method call needs; on any other value it raises. -/
def Value.dict? : Value → Option (Dict Scalar)
  | .dict d => some d
  | .scalar _ => none

/-- The arguments of `ChatOpenAI`. -/
structure ChatOpenAI where
  baseUrl : Scalar
  model : Scalar
  apiKey : Text
  timeout : Scalar
  streaming : Bool
  deriving DecidableEq, Repr

/-- The arguments of `OpenAIEmbeddings`. -/
structure OpenAIEmbeddings where
  model : Scalar
  baseUrl : Scalar
  apiKey : Text
  tiktokenEnabled : Scalar
  checkEmbeddingCtxLength : Scalar
  dimensions : Option Int
  deriving DecidableEq, Repr

/-- The YAML parser, the hash, the credentials (the file's, else the
environment's), `int()`, and which arguments the two constructors accept. -/
structure Env where
  safeLoad : Text → Loaded Value
  sha256 : Text → Text
  credential : Text → Text
  int : Scalar → Option Int
  chatOpenAI : ChatOpenAI → Bool := fun _ => true
  openAIEmbeddings : OpenAIEmbeddings → Bool := fun _ => true

/-! ## The two factories -/

section Factories

variable (env : Env)

/-- mirrors app/config.py:341-363 -/
def getApiKey (providerConfig : Dict Scalar) : Option Text :=
  match (providerConfig.lookup "api_key_env".toList).getD (.text []) with
  | .text name => some (if name = [] then [] else env.credential name)
  | other => if other.truthy then none else some []

/-- mirrors app/config.py:400-417 -/
def getTuning (config : Dict Value) (key : String) (default : Scalar) : Option Scalar := do
  let tuning ← (topLevel config "tuning".toList).dict?
  if get tuning key ≠ .null then return get tuning key
  let workers ← (topLevel config "workers".toList).dict?
  if get workers key ≠ .null then return get workers key
  let locks ← (topLevel config "locks".toList).dict?
  if get locks key ≠ .null then return get locks key
  return default

/-- The section of a role. mirrors app/config.py:489-493 -/
def llmConfig (config : Dict Value) (role : Text) : Option (Dict Scalar) :=
  if (topLevel config role).truthy then (topLevel config role).dict?
  else (topLevel config "llm".toList).dict?

/-- `f"{base_url}:{model}:{sha256(api_key or default)[:16]}"`. -/
def providerKey (provider : Dict Scalar) (apiKey : Text) (default : String) : Text :=
  (get provider "base_url").str ++ ':' :: (get provider "model").str ++
    ':' :: (env.sha256 (if apiKey = [] then default.toList else apiKey)).take 16

/-- `cache_key`. mirrors app/config.py:495-497 -/
def chatKey (config : Dict Value) : Text × Bool → Option Text
  | (role, streaming) => do
    let llm ← llmConfig config role
    let apiKey ← getApiKey env llm
    return role ++ ':' :: providerKey env llm apiKey "none" ++ (if streaming then ":stream".toList else [])

/-- The client the configuration prescribes; `none` where an argument cannot
be had or the constructor refuses them. mirrors app/config.py:505-512 -/
def chatClient (config : Dict Value) : Text × Bool → Option ChatOpenAI
  | (role, streaming) => do
    let llm ← llmConfig config role
    let apiKey ← getApiKey env llm
    let timeout ← getTuning config "llm_timeout_seconds" (.int 1800)
    let kwargs : ChatOpenAI :=
      { baseUrl := get llm "base_url"
        model := (llm.lookup "model".toList).getD (.text "gpt-4o-mini".toList)
        apiKey := if apiKey = [] then "not-needed".toList else apiKey
        timeout, streaming }
    if env.chatOpenAI kwargs then return kwargs else none

/-- `cache_key`. mirrors app/config.py:533 -/
def embeddingsKey (config : Dict Value) (configKey : Text) : Option Text := do
  let embeddings ← (topLevel config configKey).dict?
  let apiKey ← getApiKey env embeddings
  return providerKey env embeddings apiKey "default"

/-- mirrors app/config.py:539-553 -/
def embeddingsClient (config : Dict Value) (configKey : Text) : Option OpenAIEmbeddings := do
  let embeddings ← (topLevel config configKey).dict?
  let apiKey ← getApiKey env embeddings
  let dims := get embeddings "embedding_dims"
  let dimensions ← if dims.truthy then (env.int dims).map some else some none
  let kwargs : OpenAIEmbeddings :=
    { model := (embeddings.lookup "model".toList).getD (.text "text-embedding-3-small".toList)
      baseUrl := get embeddings "base_url"
      apiKey := if apiKey = [] then "not-needed".toList else apiKey
      tiktokenEnabled := (embeddings.lookup "tiktoken_enabled".toList).getD (.bool false)
      checkEmbeddingCtxLength := (embeddings.lookup "check_embedding_ctx_length".toList).getD (.bool false)
      dimensions }
  if env.openAIEmbeddings kwargs then return kwargs else none

/-- `_MAX_CACHE_ENTRIES`. -/
def MAX_CACHE_ENTRIES : Nat := 10

abbrev Clients := Globals Value ChatOpenAI OpenAIEmbeddings

/-- mirrors app/config.py:469-514 -/
def getChatModel (g : Clients) (config : Dict Value) (role : Text) (streaming : Bool) : Clients × Option ChatOpenAI :=
  match chatKey env config (role, streaming) with
  | none => (g, none)
  | some key =>
    let (llmCache, client) := fetch MAX_CACHE_ENTRIES g.llmCache key (chatClient env config (role, streaming))
    ({ g with llmCache }, client)

/-- mirrors app/config.py:517-555 -/
def getEmbeddingsModel (g : Clients) (config : Dict Value) (configKey : Text) : Clients × Option OpenAIEmbeddings :=
  match embeddingsKey env config configKey with
  | none => (g, none)
  | some key =>
    let (embeddingsCache, client) :=
      fetch MAX_CACHE_ENTRIES g.embeddingsCache key (embeddingsClient env config configKey)
    ({ g with embeddingsCache }, client)

end Factories

/-! ## A load in one go -/

section Loads

variable (env : Env) (files : Files)

/-- The time, the cache, and else the text of one file. -/
def loadLayer (g : Clients) (layer : Layer) : Clients × Except LoadError (Dict Value) :=
  match (files layer).current with
  | none => (g, .error (.notFound layer))
  | some (mtime, _) =>
    match (g.slot layer).hit mtime with
    | some config => (g, .ok config)
    | none =>
      match readAndParse env.safeLoad layer (files layer) with
      | .error e => (g, .error e)
      | .ok (config, raw) => (applyLayer env.sha256 layer config raw mtime g, .ok config)

/-- The TE part of a load that has the AE part: which of its errors leave the
AE part alone. -/
def mergeTe (load : Load) (ae : Dict Value) : Except LoadError (Dict Value) → Option (Dict Value)
  | .ok te => some (overlay ae te)
  | .error (.notFound _) => some ae
  | .error e => if load = .loadMergedConfig ∧ e.exn.caughtBy [.runtimeError] then some ae else none

/-- mirrors app/config.py:102-191,251-294 -/
def loadNow (g : Clients) (load : Load) : Clients × Option (Dict Value) :=
  match loadLayer env files g load.first with
  | (g, .error _) => (g, none)
  | (g, .ok config) =>
    if load.merges then
      let (g, te) := loadLayer env files g .te
      (g, mergeTe load config te)
    else (g, some config)

end Loads

/-- The load from the point `next` on, with no other step in between. -/
inductive Settles (env : Env) (files : Files) : Clients → Next Value → Clients → Next Value → Prop where
  | done (g : Clients) (r : Returned Value) : Settles env files g (.done r) g (.done r)
  | raised (g : Clients) (e : LoadError) : Settles env files g (.raised e) g (.raised e)
  | call {g g' : Clients} {c : Call Value} {next : Next Value}
    (h : Settles env files (advance env.safeLoad env.sha256 files g c).1 (advance env.safeLoad env.sha256 files g c).2
      g' next) : Settles env files g (.call c) g' next

/-- What the caller of a load gets. -/
def result : Next Value → Option (Dict Value)
  | .done r => some r.config
  | .raised _ | .call _ => none

section

variable {env : Env} {files : Files} {g g' : Clients} {c : Call Value}

theorem settles_layer_ok (hphase : c.phase = .stat) {config : Dict Value}
    (h : loadLayer env files g c.layer = (g', .ok config)) :
    ∃ p : LayerConfig Value, p.config = config ∧ ∀ g'' next,
      Settles env files g' (c.resume p) g'' next → Settles env files g (.call c) g'' next := by
  unfold loadLayer at h
  cases hcurrent : (files c.layer).current with
  | none => simp [hcurrent] at h
  | some p =>
    obtain ⟨mtime, raw⟩ := p
    simp only [hcurrent] at h
    cases hhit : (g.slot c.layer).hit mtime with
    | some config' =>
      simp only [hhit, Prod.mk.injEq, Except.ok.injEq] at h
      obtain ⟨rfl, rfl⟩ := h
      refine ⟨{ layer := c.layer, config := config', hit := some raw }, rfl, fun g'' next hrest => .call ?_⟩
      simpa only [advance, hphase, hcurrent, hhit] using hrest
    | none =>
      cases hread : readAndParse env.safeLoad c.layer (files c.layer) with
      | error e => simp [hhit, hread] at h
      | ok q =>
        obtain ⟨config', raw'⟩ := q
        simp only [hhit, hread, Prod.mk.injEq, Except.ok.injEq] at h
        obtain ⟨rfl, rfl⟩ := h
        refine ⟨{ layer := c.layer, config := config' }, rfl, fun g'' next hrest => .call ?_⟩
        simp only [advance, hphase, hcurrent, hhit]
        refine .call ?_
        simp only [advance, hread]
        exact .call hrest

theorem settles_layer_error (hphase : c.phase = .stat) {e : LoadError}
    (h : loadLayer env files g c.layer = (g', .error e)) :
    g' = g ∧ ∃ c' : Call Value, c'.load = c.load ∧ c'.base = c.base ∧ (c'.phase = .stat ↔ ∃ l, e = .notFound l) ∧
      ∀ g'' next, Settles env files g (c'.fail e) g'' next → Settles env files g (.call c) g'' next := by
  unfold loadLayer at h
  cases hcurrent : (files c.layer).current with
  | none =>
    simp only [hcurrent, Prod.mk.injEq, Except.error.injEq] at h
    obtain ⟨rfl, rfl⟩ := h
    refine ⟨rfl, c, rfl, rfl, by simp [hphase], fun g'' next hrest => .call ?_⟩
    simpa only [advance, hphase, hcurrent] using hrest
  | some p =>
    obtain ⟨mtime, raw⟩ := p
    simp only [hcurrent] at h
    cases hhit : (g.slot c.layer).hit mtime with
    | some config' => simp [hhit] at h
    | none =>
      cases hread : readAndParse env.safeLoad c.layer (files c.layer) with
      | ok q => simp [hhit, hread] at h
      | error e' =>
        simp only [hhit, hread, Prod.mk.injEq, Except.error.injEq] at h
        obtain ⟨rfl, rfl⟩ := h
        have hpresent : ∀ l, e' ≠ .notFound l := by
          rintro l rfl
          unfold readAndParse at hread
          simp only [hcurrent] at hread
          split at hread <;> cases hread
        refine ⟨rfl, { c with phase := .read mtime }, rfl, rfl, by simp [hpresent], fun g'' next hrest => .call ?_⟩
        simp only [advance, hphase, hcurrent, hhit]
        refine .call ?_
        simpa only [advance, hread] using hrest

/-- An error in the TE part leaves the AE part alone, or is raised. -/
theorem fail_te (hmerges : c.load.merges = true) {ae : LayerConfig Value} (hbase : c.base = some ae) {e : LoadError}
    (hstat : c.phase = .stat ↔ ∃ l, e = .notFound l) :
    result (c.fail e) = mergeTe c.load ae.config (.error e) ∧ Settles env files g (c.fail e) g (c.fail e) := by
  have hdone : ∀ r : Returned Value, Settles env files g (.done r) g (.done r) := .done g
  have hraised : ∀ e, Settles env files g (.raised e) g (.raised e) := .raised g
  unfold Call.fail
  rw [hbase]
  cases hload : c.load with
  | loadConfig | loadTeConfig | asyncLoadTeConfig => simp [hload, Load.merges] at hmerges
  | loadMergedConfig =>
    cases e with
    | notFound | malformed => exact ⟨rfl, hdone _⟩
    | notMapping => exact ⟨rfl, hraised _⟩
  | asyncLoadConfig =>
    cases hphase : c.phase with
    | stat =>
      obtain ⟨l, rfl⟩ := hstat.mp hphase
      exact ⟨rfl, hdone _⟩
    | read | apply =>
      cases e with
      | notFound l =>
        have := hstat.mpr ⟨l, rfl⟩
        simp [hphase] at this
      | malformed | notMapping => exact ⟨rfl, hraised _⟩

/-- **A load alone**: the steps of `ConfigCache.advance`, one after the other,
come to what `loadNow` says. -/
theorem loadNow_settles (env : Env) (files : Files) (g : Clients) (load : Load) :
    ∃ next, Settles env files g (.call { load, layer := load.first }) (loadNow env files g load).1 next ∧
      result next = (loadNow env files g load).2 := by
  unfold loadNow
  cases hfirst : loadLayer env files g load.first with
  | mk g₁ r =>
  cases r with
  | error e =>
    obtain ⟨rfl, c', _, hbase, _, hrest⟩ :=
      @settles_layer_error env files g g₁ { load, layer := load.first } rfl e hfirst
    have hraised : c'.fail e = .raised e := by simp only [Call.fail, hbase]
    rw [hraised] at hrest
    exact ⟨.raised e, hrest g₁ _ (.raised g₁ e), rfl⟩
  | ok config =>
    obtain ⟨p, rfl, hrest⟩ := @settles_layer_ok env files g g₁ { load, layer := load.first } rfl config hfirst
    dsimp only
    cases hmerges : load.merges with
    | false =>
      have hresume : Call.resume { load, layer := load.first } p =
          .done { load, parts := [p], config := p.config } := by simp [Call.resume, hmerges]
      rw [hresume] at hrest
      exact ⟨_, hrest g₁ _ (.done g₁ _), rfl⟩
    | true =>
      have hresume : Call.resume { load, layer := load.first } p =
          .call { load, base := some p, layer := .te } := by simp [Call.resume, hmerges]
      rw [hresume] at hrest
      cases hte : loadLayer env files g₁ .te with
      | mk g₂ r =>
      cases r with
      | error e =>
        obtain ⟨rfl, c', hload, hbase, hstat, hrest'⟩ :=
          @settles_layer_error env files g₁ g₂ { load, base := some p, layer := .te } rfl e hte
        dsimp only at hload hbase
        obtain ⟨hresult, hsettles⟩ := @fail_te env files g₂ c' (hload ▸ hmerges) p hbase e hstat
        exact ⟨_, hrest g₂ _ (hrest' g₂ _ hsettles), hload ▸ hresult⟩
      | ok te =>
        obtain ⟨p', rfl, hrest'⟩ :=
          @settles_layer_ok env files g₁ g₂ { load, base := some p, layer := .te } rfl te hte
        exact ⟨_, hrest g₂ _ (hrest' g₂ _ (.done g₂ _)), rfl⟩

end

/-! ## Sequences -/

structure State where
  files : Files
  globals : Clients := {}
  /-- The configuration just loaded. -/
  config : Option (Dict Value) := none

inductive Event where
  /-- A new text, under a modification time the file has never had. -/
  | edit (layer : Layer) (mtime : Rat) (raw : Text)
  | invalidate
  | load (load : Load)
  | getChatModel (role : Text) (streaming : Bool)
  | getEmbeddingsModel (configKey : Text)

variable (env : Env)

def step (s : State) : Event → Option State
  | .edit layer mtime raw =>
    if mtime ∈ (s.files layer).used then none
    else some { s with files := Function.update s.files layer ((s.files layer).write mtime raw) }
  | .invalidate => some { s with globals := invalidateConfigCache s.globals }
  | .load load =>
    some { s with globals := (loadNow env s.files s.globals load).1
                  config := (loadNow env s.files s.globals load).2.or s.config }
  | .getChatModel role streaming =>
    s.config.map fun config => { s with globals := (getChatModel env s.globals config role streaming).1 }
  | .getEmbeddingsModel configKey =>
    s.config.map fun config => { s with globals := (getEmbeddingsModel env s.globals config configKey).1 }

/-- Whatever client is asked for next has the parameters the configuration
just loaded prescribes. -/
structure State.Match (s : State) : Prop where
  chat : ∀ config ∈ s.config, ∀ role streaming client,
    (getChatModel env s.globals config role streaming).2 = some client →
      chatClient env config (role, streaming) = some client
  embeddings : ∀ config ∈ s.config, ∀ configKey client,
    (getEmbeddingsModel env s.globals config configKey).2 = some client →
      embeddingsClient env config configKey = some client

/-! ## What a load brings, and what it clears -/

variable {env} {files : Files} {g : Clients} {s s' : State}

/-- The configuration in one file. -/
def fileConfig (env : Env) (files : Files) (layer : Layer) : Except LoadError (Dict Value) :=
  (readAndParse env.safeLoad layer (files layer)).map Prod.fst

/-- The configuration in the files, as a load puts it together. -/
def configOf (env : Env) (files : Files) (load : Load) : Option (Dict Value) :=
  match fileConfig env files load.first with
  | .error _ => none
  | .ok config => if load.merges then mergeTe load config (fileConfig env files .te) else some config

/-- Reading one file clears the clients: it is not cached, and the hash of an
earlier text is remembered and is another. -/
def layerClears (env : Env) (files : Files) (g : Clients) (layer : Layer) : Bool :=
  match (files layer).current with
  | none => false
  | some (mtime, raw) =>
    ((g.slot layer).hit mtime).isNone && (parse env.safeLoad raw).isSome && clears env.sha256 g layer raw

def loadClears (env : Env) (files : Files) (g : Clients) (load : Load) : Bool :=
  layerClears env files g load.first ||
    load.merges && (fileConfig env files load.first).toOption.isSome && layerClears env files g .te

/-- What is cached agrees with the files. -/
def Fresh (env : Env) (files : Files) (g : Clients) : Prop :=
  ∀ l, (g.slot l).Fresh (parse env.safeLoad) (files l)

/-- A load leaves the clients, or clears them. -/
structure Cleared (b : Bool) (g g' : Clients) : Prop where
  llm : g'.llmCache = if b then [] else g.llmCache
  embeddings : g'.embeddingsCache = if b then [] else g.embeddingsCache

theorem Cleared.refl (g : Clients) : Cleared false g g := ⟨rfl, rfl⟩

theorem Cleared.trans {a b : Bool} {g₁ g₂ g₃ : Clients} (h : Cleared a g₁ g₂) (h' : Cleared b g₂ g₃) :
    Cleared (a || b) g₁ g₃ := by
  constructor
  · rw [h'.llm, h.llm]
    cases a <;> cases b <;> rfl
  · rw [h'.embeddings, h.embeddings]
    cases a <;> cases b <;> rfl

theorem readAndParse_of_present {layer : Layer} {mtime : Rat} {raw : Text}
    (hcurrent : (files layer).current = some (mtime, raw)) {config : Dict Value} :
    fileConfig env files layer = .ok config ↔ parse env.safeLoad raw = some config := by
  unfold fileConfig readAndParse parse
  rw [hcurrent]
  dsimp only
  split <;> simp_all [Except.map]

/-- One file: what it holds is what the load gets. -/
theorem loadLayer_spec (hfresh : Fresh env files g) (layer : Layer) :
    (loadLayer env files g layer).2 = fileConfig env files layer ∧
      Cleared (layerClears env files g layer) g (loadLayer env files g layer).1 ∧
      Fresh env files (loadLayer env files g layer).1 ∧
      ∀ l, l ≠ layer → (loadLayer env files g layer).1.slot l = g.slot l := by
  cases hcurrent : (files layer).current with
  | none =>
    have hstop : loadLayer env files g layer = (g, .error (.notFound layer)) := by simp only [loadLayer, hcurrent]
    have hclears : layerClears env files g layer = false := by simp only [layerClears, hcurrent]
    rw [hstop, hclears]
    exact ⟨by simp [fileConfig, readAndParse, hcurrent, Except.map], .refl g, hfresh, fun _ _ => rfl⟩
  | some p =>
    obtain ⟨mtime, raw⟩ := p
    cases hhit : (g.slot layer).hit mtime with
    | some config =>
      have hstop : loadLayer env files g layer = (g, .ok config) := by simp only [loadLayer, hcurrent, hhit]
      have hclears : layerClears env files g layer = false := by simp [layerClears, hcurrent, hhit]
      rw [hstop, hclears]
      have hparse := (hfresh layer).hit hcurrent hhit
      exact ⟨((readAndParse_of_present hcurrent).mpr hparse).symm, .refl g, hfresh, fun _ _ => rfl⟩
    | none =>
      cases hread : readAndParse env.safeLoad layer (files layer) with
      | error e =>
        have hstop : loadLayer env files g layer = (g, .error e) := by simp only [loadLayer, hcurrent, hhit, hread]
        have hparse : parse env.safeLoad raw = none := by
          cases hraw : parse env.safeLoad raw with
          | none => rfl
          | some config =>
            have := (readAndParse_of_present hcurrent).mpr hraw
            simp [fileConfig, hread, Except.map] at this
        have hclears : layerClears env files g layer = false := by simp [layerClears, hcurrent, hparse]
        rw [hstop, hclears]
        exact ⟨by simp [fileConfig, hread, Except.map], .refl g, hfresh, fun _ _ => rfl⟩
      | ok q =>
        obtain ⟨config, raw'⟩ := q
        obtain ⟨mtime', hcurrent', hparse⟩ := readAndParse_ok hread
        obtain ⟨rfl, rfl⟩ := Prod.mk.inj (Option.some.inj (hcurrent.symm.trans hcurrent'))
        have hstop : loadLayer env files g layer = (applyLayer env.sha256 layer config raw mtime g, .ok config) := by
          simp only [loadLayer, hcurrent, hhit, hread]
        have hclears : layerClears env files g layer = clears env.sha256 g layer raw := by
          simp [layerClears, hcurrent, hhit, hparse]
        have hagrees : FileCache.Agrees (parse env.safeLoad) (files layer) mtime config :=
          .read ((files layer).present _ hcurrent) hcurrent hparse
        rw [hstop, hclears]
        refine ⟨by simp [fileConfig, hread, Except.map], ?_, applyLayer_fresh hfresh hagrees raw, fun l hl => ?_⟩
        · unfold applyLayer
          cases clears env.sha256 g layer raw <;> exact ⟨rfl, rfl⟩
        · rw [applyLayer_slot, Function.update_of_ne hl]

/-- **A load** returns what the files hold, and clears what `loadClears` says. -/
theorem loadNow_spec (hfresh : Fresh env files g) (load : Load) :
    (loadNow env files g load).2 = configOf env files load ∧
      Cleared (loadClears env files g load) g (loadNow env files g load).1 ∧
      Fresh env files (loadNow env files g load).1 := by
  obtain ⟨hfirst, hcleared, hfresh₁, hother⟩ := loadLayer_spec hfresh load.first
  unfold loadNow configOf loadClears
  rw [← hfirst]
  generalize loadLayer env files g load.first = out at hfirst hcleared hfresh₁ hother ⊢
  obtain ⟨g₁, r⟩ := out
  cases r with
  | error e => simpa [Except.toOption] using ⟨hcleared, hfresh₁⟩
  | ok config =>
    cases hmerges : load.merges with
    | false => simpa using ⟨hcleared, hfresh₁⟩
    | true =>
      obtain ⟨hte, hcleared₂, hfresh₂, _⟩ := loadLayer_spec hfresh₁ .te
      have hne : Layer.te ≠ load.first := by
        cases load <;> simp only [Load.merges, Bool.false_eq_true] at hmerges <;> decide
      have hslot : g₁.slot .te = g.slot .te := hother .te hne
      have hsame : layerClears env files g₁ .te = layerClears env files g .te := by
        simp only [layerClears, clears, hslot]
      dsimp only
      rw [hte, ← hsame]
      refine ⟨rfl, ?_, hfresh₂⟩
      simpa [Except.toOption] using hcleared.trans hcleared₂

/-! ## Which step makes the first mismatch -/

/-- Every cached client is what a request under its key wants. -/
structure Agrees (env : Env) (config : Dict Value) (g : Clients) : Prop where
  llm : Right (chatKey env config) (chatClient env config) g.llmCache
  embeddings : Right (embeddingsKey env config) (embeddingsClient env config) g.embeddingsCache

theorem match_iff : s.Match env ↔ ∀ config ∈ s.config, Agrees env config s.globals := by
  have hchat : ∀ config role streaming client, (getChatModel env s.globals config role streaming).2 = some client ↔
      ∃ key, chatKey env config (role, streaming) = some key ∧
        (fetch MAX_CACHE_ENTRIES s.globals.llmCache key (chatClient env config (role, streaming))).2 = some client := by
    intro config role streaming client
    unfold getChatModel
    cases chatKey env config (role, streaming) <;> simp
  have hembeddings : ∀ config configKey client, (getEmbeddingsModel env s.globals config configKey).2 = some client ↔
      ∃ key, embeddingsKey env config configKey = some key ∧
        (fetch MAX_CACHE_ENTRIES s.globals.embeddingsCache key (embeddingsClient env config configKey)).2 =
          some client := by
    intro config configKey client
    unfold getEmbeddingsModel
    cases embeddingsKey env config configKey <;> simp
  constructor
  · intro h config hconfig
    refine ⟨(@right_iff_fetch _ _ _ _ MAX_CACHE_ENTRIES _ _ _).mpr fun q key client hkey hget => ?_,
      (@right_iff_fetch _ _ _ _ MAX_CACHE_ENTRIES _ _ _).mpr fun q key client hkey hget => ?_⟩
    · exact h.chat config hconfig q.1 q.2 client ((hchat config q.1 q.2 client).mpr ⟨key, hkey, hget⟩)
    · exact h.embeddings config hconfig q client ((hembeddings config q client).mpr ⟨key, hkey, hget⟩)
  · intro h
    refine ⟨fun config hconfig role streaming client hget => ?_, fun config hconfig configKey client hget => ?_⟩
    · obtain ⟨key, hkey, hget⟩ := (hchat config role streaming client).mp hget
      exact right_iff_fetch.mp (h config hconfig).llm (role, streaming) key client hkey hget
    · obtain ⟨key, hkey, hget⟩ := (hembeddings config configKey client).mp hget
      exact right_iff_fetch.mp (h config hconfig).embeddings configKey key client hkey hget

/-- A load that does not clear the clients brings a configuration all of them
agree with; a client is built under a key that no other request shares
wanting another one. -/
def Event.Keeps (env : Env) (s : State) : Event → Prop
  | .edit .. | .invalidate => True
  | .load l => ∀ config, configOf env s.files l = some config →
      loadClears env s.files s.globals l = false → Agrees env config s.globals
  | .getChatModel role streaming => ∀ config ∈ s.config, ∀ key, chatKey env config (role, streaming) = some key →
      s.globals.llmCache.lookup key = none → ∀ client, chatClient env config (role, streaming) = some client →
        ∀ q, chatKey env config q = some key → chatClient env config q = some client
  | .getEmbeddingsModel configKey => ∀ config ∈ s.config, ∀ key, embeddingsKey env config configKey = some key →
      s.globals.embeddingsCache.lookup key = none → ∀ client, embeddingsClient env config configKey = some client →
        ∀ q, embeddingsKey env config q = some key → embeddingsClient env config q = some client

/-- Keys are unique, and the configuration caches agree with the files. -/
structure Inv (env : Env) (s : State) : Prop where
  llm : (s.globals.llmCache.map Prod.fst).Nodup
  embeddings : (s.globals.embeddingsCache.map Prod.fst).Nodup
  fresh : Fresh env s.files s.globals

theorem Inv.start (env : Env) (files : Files) : Inv env { files } :=
  ⟨List.nodup_nil, List.nodup_nil, fun _ _ hb => nomatch hb⟩

theorem nodup_cleared {A : Type} {b : Bool} {cache : Dict A} (h : (cache.map Prod.fst).Nodup) :
    ((if b then [] else cache).map Prod.fst).Nodup := by
  cases b
  · exact h
  · exact List.nodup_nil

theorem right_cleared {A Q : Type} {key : Q → Option Text} {want : Q → Option A} {b : Bool} {cache : Dict A} :
    Right key want (if b then [] else cache) ↔ (b = false → Right key want cache) := by
  cases b
  · simp
  · simp [Right]

theorem Inv.step {ev : Event} (h : Inv env s) (hs : step env s ev = some s') : Inv env s' := by
  cases ev with
  | edit layer mtime raw =>
    obtain ⟨hunused, hs⟩ := Option.ite_none_left_eq_some.mp hs
    obtain rfl := Option.some.inj hs
    refine ⟨h.llm, h.embeddings, fun l b hb => ?_⟩
    have hagrees := h.fresh l b hb
    show FileCache.Agrees _ (Function.update s.files layer ((s.files layer).write mtime raw) l) _ _
    by_cases hl : l = layer
    · subst hl
      rw [Function.update_self]
      exact hagrees.write hunused raw
    · rwa [Function.update_of_ne hl]
  | invalidate =>
    obtain rfl := Option.some.inj hs
    refine ⟨h.llm, h.embeddings, fun l => ?_⟩
    show (Function.update s.globals.slot .ae ⟨⟨none, 0⟩, []⟩ l).Fresh (parse env.safeLoad) (s.files l)
    by_cases hl : l = .ae
    · subst hl
      rw [Function.update_self]
      exact fun b hb => (nomatch hb)
    · rw [Function.update_of_ne hl]
      exact h.fresh l
  | load load =>
    obtain rfl := Option.some.inj hs
    obtain ⟨_, hcleared, hfresh⟩ := loadNow_spec h.fresh load
    refine ⟨?_, ?_, hfresh⟩
    · dsimp only
      rw [hcleared.llm]
      exact nodup_cleared h.llm
    · dsimp only
      rw [hcleared.embeddings]
      exact nodup_cleared h.embeddings
  | getChatModel role streaming =>
    obtain ⟨config, _, rfl⟩ := Option.map_eq_some_iff.mp hs
    unfold getChatModel
    cases chatKey env config (role, streaming) with
    | none => exact h
    | some key => exact ⟨nodup_fetch h.llm key _, h.embeddings, h.fresh⟩
  | getEmbeddingsModel configKey =>
    obtain ⟨config, _, rfl⟩ := Option.map_eq_some_iff.mp hs
    unfold getEmbeddingsModel
    cases embeddingsKey env config configKey with
    | none => exact h
    | some key => exact ⟨h.llm, nodup_fetch h.embeddings key _, h.fresh⟩

/-- What a load keeps agrees as before. -/
theorem agrees_loadNow_iff (h : Inv env s) (load : Load) (config : Dict Value) :
    Agrees env config (loadNow env s.files s.globals load).1 ↔
      (loadClears env s.files s.globals load = false → Agrees env config s.globals) := by
  obtain ⟨_, hcleared, _⟩ := loadNow_spec h.fresh load
  constructor
  · intro hnew hkept
    obtain ⟨hllm, hembeddings⟩ := hnew
    rw [hcleared.llm, hkept] at hllm
    rw [hcleared.embeddings, hkept] at hembeddings
    exact ⟨hllm, hembeddings⟩
  · intro hold
    refine ⟨?_, ?_⟩
    · rw [hcleared.llm]
      exact right_cleared.mpr fun hkept => (hold hkept).llm
    · rw [hcleared.embeddings]
      exact right_cleared.mpr fun hkept => (hold hkept).embeddings

/-- **One step**: from clients that match it leads to clients that match
exactly when it meets its condition. -/
theorem match_step_iff {ev : Event} (h : Inv env s) (hmatch : s.Match env) (hs : step env s ev = some s') :
    s'.Match env ↔ ev.Keeps env s := by
  rw [match_iff] at hmatch ⊢
  cases ev with
  | edit layer mtime raw =>
    obtain ⟨_, hs⟩ := Option.ite_none_left_eq_some.mp hs
    obtain rfl := Option.some.inj hs
    exact iff_of_true hmatch trivial
  | invalidate =>
    obtain rfl := Option.some.inj hs
    exact iff_of_true (fun config hconfig => ⟨(hmatch config hconfig).llm, (hmatch config hconfig).embeddings⟩) trivial
  | load load =>
    obtain rfl := Option.some.inj hs
    obtain ⟨hconfig, _⟩ := loadNow_spec h.fresh load
    unfold Event.Keeps
    dsimp only
    rw [hconfig]
    cases configOf env s.files load with
    | none => simpa [agrees_loadNow_iff h] using fun config hc _ => hmatch config hc
    | some config => simp [agrees_loadNow_iff h]
  | getChatModel role streaming =>
    obtain ⟨config, hconfig, rfl⟩ := Option.map_eq_some_iff.mp hs
    obtain ⟨hllm, hembeddings⟩ := hmatch config hconfig
    unfold Event.Keeps getChatModel
    simp only [hconfig, Option.mem_some_iff, forall_eq']
    cases hkey : chatKey env config (role, streaming) with
    | none => simpa using ⟨hllm, hembeddings⟩
    | some key =>
      have hiff := @right_fetch_iff _ _ _ _ _ MAX_CACHE_ENTRIES _ _ _ (role, streaming) key h.llm hllm
      simp only [Option.some.injEq, forall_eq']
      rw [← hiff]
      exact ⟨fun hnew => hnew.llm, fun hnew => ⟨hnew, hembeddings⟩⟩
  | getEmbeddingsModel configKey =>
    obtain ⟨config, hconfig, rfl⟩ := Option.map_eq_some_iff.mp hs
    obtain ⟨hllm, hembeddings⟩ := hmatch config hconfig
    unfold Event.Keeps getEmbeddingsModel
    simp only [hconfig, Option.mem_some_iff, forall_eq']
    cases hkey : embeddingsKey env config configKey with
    | none => simpa using ⟨hllm, hembeddings⟩
    | some key =>
      have hiff := @right_fetch_iff _ _ _ _ _ MAX_CACHE_ENTRIES _ _ _ configKey key h.embeddings hembeddings
      simp only [Option.some.injEq, forall_eq']
      rw [← hiff]
      exact ⟨fun hnew => hnew.embeddings, fun hnew => ⟨hllm, hnew⟩⟩

/-- **Clients match the configuration** in every state of a run exactly when
every step of the run meets its condition. -/
theorem clients_match_iff (env : Env) (files : Files) (ls : List Event) :
    (∀ s, Passes (step env) { files } ls s → s.Match env) ↔
      ∀ s ev s', Takes (step env) { files } ls s ev s' → ev.Keeps env s :=
  always_iff (I := Inv env) (fun _ _ _ hI _ hs => hI.step hs) (fun _ _ _ hI hmatch hs => match_step_iff hI hmatch hs)
    (Inv.start env files) (match_iff.mpr fun _ hconfig => nomatch hconfig) ls

/-! ## Two mismatches -/

/-- A `config.yml` with a timeout. -/
def shortTimeout : Text := "llm:\n  model: m\ntuning:\n  llm_timeout_seconds: 60\n".toList

def longTimeout : Text := "llm:\n  model: m\ntuning:\n  llm_timeout_seconds: 120\n".toList

/-- One with two embedding sections on the default model. -/
def twoEmbeddings : Text := "embeddings:\n  embedding_dims: 1024\nlog_embeddings:\n  embedding_dims: 256\n".toList

def timeoutDict (timeout : Int) : Dict Value :=
  [("llm".toList, .dict [("model".toList, .text ['m'])]),
    ("tuning".toList, .dict [("llm_timeout_seconds".toList, .int timeout)])]

def embeddingsDict : Dict Value :=
  [("embeddings".toList, .dict [("embedding_dims".toList, .int 1024)]),
    ("log_embeddings".toList, .dict [("embedding_dims".toList, .int 256)])]

/-- The parser on these texts, no credentials. -/
def sampleEnv : Env where
  safeLoad raw :=
    if raw = shortTimeout then .mapping (timeoutDict 60)
    else if raw = longTimeout then .mapping (timeoutDict 120)
    else if raw = twoEmbeddings then .mapping embeddingsDict
    else .malformed
  sha256 := id
  credential _ := []
  int
    | .int n => some n
    | _ => none

/-- `config_write` sets the timeout and invalidates the cache. -/
def staleTimeout : List Event :=
  [.edit .ae 1 shortTimeout, .load .loadConfig, .getChatModel "llm".toList false,
    .edit .ae 2 longTimeout, .invalidate, .load .loadConfig]

def sharedModel : List Event :=
  [.edit .ae 1 twoEmbeddings, .load .loadConfig, .getEmbeddingsModel "embeddings".toList]

/-- After the first run the old timeout is served, after the second the
log embeddings get 1024 dimensions instead of 256. -/
theorem clients_mismatch :
    (∃ s, Passes (step sampleEnv) { files := fun _ => .absent } staleTimeout s ∧ ¬ s.Match sampleEnv) ∧
      ∃ s, Passes (step sampleEnv) { files := fun _ => .absent } sharedModel s ∧ ¬ s.Match sampleEnv := by
  constructor
  · have hrun : (exec (step sampleEnv) { files := fun _ => .absent } staleTimeout).any (fun s =>
        decide (s.config = some (timeoutDict 120) ∧
          (getChatModel sampleEnv s.globals (timeoutDict 120) "llm".toList false).2.map (·.timeout) =
            some (.int 60) ∧
          (chatClient sampleEnv (timeoutDict 120) ("llm".toList, false)).map (·.timeout) =
            some (.int 120))) = true := by decide +kernel
    obtain ⟨s, hs, hend⟩ := (Option.any_eq_true _ _).mp hrun
    obtain ⟨hconfig, hget, hwant⟩ := of_decide_eq_true hend
    refine ⟨s, passes_of_exec hs, fun hmatch => ?_⟩
    obtain ⟨client, hclient, htimeout⟩ := Option.map_eq_some_iff.mp hget
    rw [hmatch.chat _ hconfig _ _ _ hclient, Option.map_some, htimeout] at hwant
    cases hwant
  · have hrun : (exec (step sampleEnv) { files := fun _ => .absent } sharedModel).any (fun s =>
        decide (s.config = some embeddingsDict ∧
          (getEmbeddingsModel sampleEnv s.globals embeddingsDict "log_embeddings".toList).2.map (·.dimensions) =
            some (some 1024) ∧
          (embeddingsClient sampleEnv embeddingsDict "log_embeddings".toList).map (·.dimensions) =
            some (some 256))) = true := by decide +kernel
    obtain ⟨s, hs, hend⟩ := (Option.any_eq_true _ _).mp hrun
    obtain ⟨hconfig, hget, hwant⟩ := of_decide_eq_true hend
    refine ⟨s, passes_of_exec hs, fun hmatch => ?_⟩
    obtain ⟨client, hclient, hdimensions⟩ := Option.map_eq_some_iff.mp hget
    rw [hmatch.embeddings _ hconfig _ _ hclient, Option.map_some, hdimensions] at hwant
    cases hwant

end ContextBroker.ModelClients

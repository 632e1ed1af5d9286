import EnterpriseRag.Library.Program
import EnterpriseRag.Rag.Evidence

/-!
# The embedding client

`embed_texts` looks each text up in the cache, asks the API once for each text it did not find,
writes what it gets into the cache and returns one vector per text. `V` holds the JSON values
other than `null`, which is what `json.loads` makes of an entry. The pauses between the attempts
at the API are left out.
-/

namespace EnterpriseRag

/-- The calls of the client : to the cache, and to the API. -/
inductive EmbedOp
  | get (key : String)
  | set (key value : String)
  | create (model : String) (texts : List String)

/-- What a call returns or raises. A vector of the API comes with the index of its text. -/
abbrev EmbedOp.Res (V : Type) : EmbedOp → Type
  | .get _ => Except Raised (Option String)
  | .set _ _ => Except Raised Unit
  | .create _ _ => Except Raised (List (ℤ × V))

abbrev EmbedProgram (V : Type) := Program EmbedOp (EmbedOp.Res V) Raised

abbrev EmbedOracle (V : Type) := Program.Oracle EmbedOp (EmbedOp.Res V)

structure OpenAIEmbeddingClient (V : Type) where
  defaultModel : String
  sha256 : String → String
  jsonDumps : V → String
  jsonLoads : String → Except Raised (Option V)

/-- The texts to ask the API for, each with the places it is wanted at. -/
abbrev MissIndices := List (String × List ℕ)

/-- `miss_indices_by_text.setdefault(text, []).append(i)`. -/
def addMiss (text : String) (i : ℕ) : MissIndices → MissIndices
  | [] => [(text, [i])]
  | (other, indices) :: misses =>
    if other = text then (other, indices ++ [i]) :: misses
    else (other, indices) :: addMiss text i misses

/-- `texts[index]`, where a negative index counts from the end. -/
def textAt (texts : List String) (index : ℤ) : Except Raised String :=
  let position := if index < 0 then index + texts.length else index
  if position < 0 then .error (.exception "IndexError")
  else
    match texts[position.toNat]? with
    | some text => .ok text
    | none => .error (.exception "IndexError")

open Program

namespace OpenAIEmbeddingClient

variable {V : Type} (client : OpenAIEmbeddingClient V)

/-- `_cache_key`. -/
def cacheKey (text model : String) : String :=
  client.sha256 (model ++ ":" ++ text)

/-- `_get_cached`. -/
def getCached (text model : String) : EmbedProgram V (Option V) := do
  match ← attempt (.get (client.cacheKey text model)) id with
  | .error e => if e.isException then return none else .raise e
  | .ok none => return none
  | .ok (some raw) => orRaise (client.jsonLoads raw)

/-- `_set_cached`. -/
def setCached (text model : String) (vector : V) : EmbedProgram V Unit := do
  match ← attempt (.set (client.cacheKey text model) (client.jsonDumps vector)) id with
  | .error e => if e.isException then return () else .raise e
  | .ok () => return ()

/-- `_create_with_retries`, with `retries` attempts left after this one. -/
def createWithRetries (model : String) (texts : List String) :
    ℕ → EmbedProgram V (List (ℤ × V))
  | 0 => ask (.create model texts) id
  | retries + 1 => do
    match ← attempt (.create model texts) id with
    | .ok data => return data
    | .error e => if e.isException then createWithRetries model texts retries else .raise e

/-- The cached vectors, and the texts that have none. -/
def lookupTexts (model : String) : List String → List (Option V) → MissIndices →
    EmbedProgram V (List (Option V) × MissIndices)
  | [], results, misses => return (results, misses)
  | text :: texts, results, misses => do
    match ← client.getCached text model with
    | some cached => lookupTexts model texts (results ++ [some cached]) misses
    | none => lookupTexts model texts (results ++ [none]) (addMiss text results.length misses)

/-- Every vector of the API goes into the cache and to the places of its text. -/
def storeVectors (model : String) (misses : MissIndices) :
    List (ℤ × V) → List (Option V) → EmbedProgram V (List (Option V))
  | [], results => return results
  | (index, vector) :: data, results => do
    let text ← orRaise (textAt (misses.map (·.1)) index)
    client.setCached text model vector
    storeVectors model misses data
      (((misses.lookup text).getD []).foldl (fun results i => results.set i (some vector)) results)

/-- The vectors of the texts that were not found. -/
def fetchMisses (model : String) (misses : MissIndices) (results : List (Option V)) :
    EmbedProgram V (List (Option V)) := do
  if misses = [] then return results
  else do
    let data ← createWithRetries model (misses.map (·.1)) 2
    client.storeVectors model misses data results

def embedTexts (texts : List String) (model : Option String) : EmbedProgram V (List V) := do
  if texts = [] then return []
  else do
    let resolvedModel := orElseText model client.defaultModel
    let (results, misses) ← client.lookupTexts resolvedModel texts [] []
    let results ← client.fetchMisses resolvedModel misses results
    match results.mapM id with
    | some vectors => return vectors
    | none => .raise (.exception "RuntimeError")

end OpenAIEmbeddingClient

end EnterpriseRag

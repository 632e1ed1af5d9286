import EnterpriseRag.Corpus.Store
import Mathlib.Logic.Function.Basic

/-!
# Collections and aliases

The vector database keeps collections and aliases for them. An alias names a collection that
exists, and no collection has the name of an alias. A name resolves to the collection its alias
is for, or to the collection of that name. `updateCollectionAliases` makes all of its changes or
none.
-/

namespace EnterpriseRag

/-- The collections and the aliases of the database. -/
structure Qdrant where
  collections : String → Option (List StoredChunk)
  aliases : String → Option String
  alias_target : ∀ {a c}, aliases a = some c → (collections c).isSome
  alias_free : ∀ {a c}, aliases a = some c → collections a = none

/-- The operations of `update_collection_aliases`. -/
inductive AliasOperation
  | deleteAlias (aliasName : String)
  | createAlias (collectionName aliasName : String)

namespace Qdrant

variable {q q' : Qdrant} {name collection : String}

/-- The collection a name is for. -/
def resolve (q : Qdrant) (name : String) : Option String :=
  match q.aliases name with
  | some collection => some collection
  | none => if (q.collections name).isSome then some name else none

def collectionExists (q : Qdrant) (name : String) : Bool :=
  (q.resolve name).isSome

theorem resolve_of_alias (h : q.aliases name = some collection) :
    q.resolve name = some collection := by
  rw [resolve, h]

/-- What a name resolves to exists. -/
theorem isSome_of_resolve (h : q.resolve name = some collection) :
    (q.collections collection).isSome := by
  unfold resolve at h
  split at h
  · rename_i c halias
    exact Option.some.inj h ▸ q.alias_target halias
  · split at h
    · rename_i hsome
      exact Option.some.inj h ▸ hsome
    · simp at h

/-- A name that does not exist is neither an alias nor a collection. -/
theorem not_collectionExists_iff :
    q.collectionExists name = false ↔ q.aliases name = none ∧ q.collections name = none := by
  unfold collectionExists resolve
  cases q.aliases name with
  | some c => simp
  | none => cases q.collections name <;> simp

theorem resolve_congr (haliases : q'.aliases name = q.aliases name)
    (hcollections : q'.collections name = q.collections name) :
    q'.resolve name = q.resolve name := by
  rw [resolve, resolve, haliases, hcollections]

/-! ## Changes -/

/-- `create_collection`. -/
def createCollection (name : String) (q : Qdrant) (h : q.collectionExists name = false) :
    Qdrant where
  collections := Function.update q.collections name (some [])
  aliases := q.aliases
  alias_target {a c} ha := by
    by_cases hc : c = name
    · simp [hc]
    · rw [Function.update_of_ne hc]
      exact q.alias_target ha
  alias_free {a c} ha := by
    have hne : a ≠ name := by
      rintro rfl
      simp [(not_collectionExists_iff.1 h).1] at ha
    rw [Function.update_of_ne hne]
    exact q.alias_free ha

/-- The points of a collection that exists are replaced. -/
def setPoints (name : String) (points : List StoredChunk) (q : Qdrant) : Qdrant where
  collections := Function.update q.collections name ((q.collections name).map fun _ => points)
  aliases := q.aliases
  alias_target {a c} ha := by
    have h := q.alias_target ha
    by_cases hc : c = name
    · rw [hc] at h
      simp [hc, h]
    · rwa [Function.update_of_ne hc]
  alias_free {a c} ha := by
    have h := q.alias_free ha
    by_cases hc : a = name
    · rw [hc] at h
      simp [hc, h]
    · rwa [Function.update_of_ne hc]

/-- A new collection with points of its own. -/
theorem collections_setPoints_createCollection (h : q.collectionExists name = false)
    (points : List StoredChunk) :
    ((q.createCollection name h).setPoints name points).collections =
      Function.update q.collections name (some points) := by
  simp [setPoints, createCollection]

def deleteAlias (a : String) (q : Qdrant) : Qdrant where
  collections := q.collections
  aliases := Function.update q.aliases a none
  alias_target {b c} hb := by
    by_cases hba : b = a
    · simp [hba] at hb
    · rw [Function.update_of_ne hba] at hb
      exact q.alias_target hb
  alias_free {b c} hb := by
    by_cases hba : b = a
    · simp [hba] at hb
    · rw [Function.update_of_ne hba] at hb
      exact q.alias_free hb

def createAlias (c a : String) (q : Qdrant)
    (h : (q.collections c).isSome ∧ q.collections a = none) : Qdrant where
  collections := q.collections
  aliases := Function.update q.aliases a (some c)
  alias_target {b d} hb := by
    by_cases hba : b = a
    · rw [hba, Function.update_self, Option.some.injEq] at hb
      exact hb ▸ h.1
    · rw [Function.update_of_ne hba] at hb
      exact q.alias_target hb
  alias_free {b d} hb := by
    by_cases hba : b = a
    · exact hba ▸ h.2
    · rw [Function.update_of_ne hba] at hb
      exact q.alias_free hb

/-- One alias operation, nothing if it is refused. -/
def changeAlias (q : Qdrant) : AliasOperation → Option Qdrant
  | .deleteAlias a => some (q.deleteAlias a)
  | .createAlias c a =>
    if h : (q.collections c).isSome ∧ q.collections a = none then some (q.createAlias c a h)
    else none

/-- `update_collection_aliases` : all of the operations in turn, or none. -/
def updateCollectionAliases : List AliasOperation → Qdrant → Option Qdrant
  | [], q => some q
  | operation :: operations, q =>
    (q.changeAlias operation).bind (updateCollectionAliases operations)

/-- An alias for a collection that exists is created, or moved there, unless a collection has
its name. -/
theorem exists_updateCollectionAliases {a c : String} (hc : (q.collections c).isSome)
    (ha : q.collections a = none) {operations : List AliasOperation}
    (h : operations = [.createAlias c a] ∨ operations = [.deleteAlias a, .createAlias c a]) :
    ∃ q', q.updateCollectionAliases operations = some q' ∧ q'.collections = q.collections ∧
      q'.aliases = Function.update q.aliases a (some c) := by
  rcases h with rfl | rfl
  · refine ⟨q.createAlias c a ⟨hc, ha⟩, ?_, rfl, rfl⟩
    simp [updateCollectionAliases, changeAlias, hc, ha]
  · refine ⟨(q.deleteAlias a).createAlias c a ⟨hc, ha⟩, ?_, rfl, Function.update_idem ..⟩
    have hfree : ((q.deleteAlias a).collections c).isSome ∧
        (q.deleteAlias a).collections a = none := ⟨hc, ha⟩
    simp [updateCollectionAliases, changeAlias, hfree]

end Qdrant

end EnterpriseRag

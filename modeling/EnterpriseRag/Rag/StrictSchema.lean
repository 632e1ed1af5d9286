import EnterpriseRag.Core.Exceptions
import EnterpriseRag.Library.Dict

/-!
# The strict schema

`_strict_json_schema` patches the JSON schema of a response model with one recursion over every
dictionary and list of it. A dictionary of the schema may be a schema itself, with its keywords,
or a map from names to schemas, and the patch does not tell the two apart : it takes the keyword
`default` from either.
-/

namespace EnterpriseRag

/-- A JSON value. -/
inductive Json
  | null
  | bool (b : Bool)
  | num (value : ℚ)
  | str (text : String)
  | arr (items : List Json)
  | obj (fields : List (String × Json))

/-- The fields of an object. -/
abbrev Fields := List (String × Json)

namespace StrictSchema

/-! ## The patch -/

/-- `node.get("type") == "object" and "properties" in node`. -/
def isObjectNode (fields : Fields) : Bool :=
  (match fields.lookup "type" with
    | some (.str text) => text == "object"
    | _ => false) && (fields.lookup "properties").isSome

/-- `node["properties"].keys()`. -/
def propertyNames (fields : Fields) : Except Raised (List String) :=
  match fields.lookup "properties" with
  | some (.obj properties) => .ok (Dict.keys properties)
  | _ => .error (.exception "AttributeError")

/-- What the patch makes of the dictionary `node` before it goes on to its values, where `values`
holds something computed of each and `inject` of what is put in. -/
def editFields {β : Type} (inject : Json → β) (node : Fields) (values : List (String × β)) :
    Except Raised (List (String × β)) :=
  if isObjectNode node then do
    let names ← propertyNames node
    let values := Dict.set values "required" (inject (.arr (names.map .str)))
    return Dict.pop (Dict.set values "additionalProperties" (inject (.bool false))) "default"
  else .ok (Dict.pop values "default")

mutual

/-- `_patch`. A list of names and `False` hold nothing to patch. -/
def patch : Json → Except Raised Json
  | .arr items => do return .arr (← patchItems items)
  | .obj fields => do
    let values ← editFields .ok fields (patchFields fields)
    return .obj (← values.mapM fun field => do return (field.1, ← field.2))
  | node => .ok node

def patchItems : List Json → Except Raised (List Json)
  | [] => .ok []
  | item :: items => do return (← patch item) :: (← patchItems items)

/-- Each value with what patching it gives. -/
def patchFields : Fields → List (String × Except Raised Json)
  | [] => []
  | (key, value) :: fields => (key, patch value) :: patchFields fields

end

/-- `_strict_json_schema`, of the schema that Pydantic gives. -/
def strictJsonSchema (schema : Json) : Except Raised Json :=
  patch schema

theorem patchItems_eq : ∀ items : List Json, patchItems items = items.mapM patch
  | [] => rfl
  | item :: items => by
    rw [patchItems, patchItems_eq, List.mapM_cons]

theorem patchFields_eq : ∀ fields : Fields,
    patchFields fields = fields.map fun field => (field.1, patch field.2)
  | [] => rfl
  | (key, value) :: fields => by
    rw [patchFields, patchFields_eq, List.map_cons]

theorem patch_names (names : List String) : patch (.arr (names.map .str)) =
    .ok (.arr (names.map .str)) := by
  have hitems : ∀ names : List String,
      patchItems (names.map .str) = .ok (names.map .str) := fun names => by
    induction names with
    | nil => rfl
    | cons name names ih =>
      rw [List.map_cons, patchItems, ih]
      rfl
  rw [patch, hitems]
  rfl

/-- What is computed of the values of an edited dictionary is the edited dictionary of what is
computed of the values. -/
theorem editFields_map {β γ : Type} (f : β → γ) (inject : Json → β) (node : Fields)
    (values : List (String × β)) :
    editFields (f ∘ inject) node (values.map fun field => (field.1, f field.2)) =
      (editFields inject node values).map (·.map fun field => (field.1, f field.2)) := by
  rw [editFields, editFields]
  split
  · cases propertyNames node with
    | error e => rfl
    | ok names =>
      show Except.ok _ = Except.ok (List.map _ _)
      rw [Dict.map_pop, Dict.map_set, Dict.map_set]
      rfl
  · rw [Except.map, Dict.map_pop]

/-- The patch of a dictionary : its edits, and then the patch of every value. -/
theorem patch_obj (fields : Fields) : patch (.obj fields) = do
    let edited ← editFields id fields fields
    return .obj (← edited.mapM fun field => do return (field.1, ← patch field.2)) := by
  have hinject : editFields Except.ok fields (patchFields fields) =
      editFields (patch ∘ id) fields (fields.map fun field => (field.1, patch field.2)) := by
    rw [patchFields_eq, editFields, editFields]
    simp only [Function.comp_apply, id, patch_names, patch]
  rw [patch, hinject, editFields_map]
  cases editFields id fields fields with
  | error e => rfl
  | ok edited =>
    show Except.bind ((edited.map _).mapM _) _ = Except.bind (edited.mapM _) _
    rw [List.mapM_map]
    rfl

theorem patch_arr (items : List Json) : patch (.arr items) = do
    return .arr (← items.mapM patch) := by
  rw [patch, patchItems_eq]

/-! ## Patched dictionaries -/

/-- The two dictionaries have the same keys, with the patched values in the second. -/
def Patched (edited fields : Fields) : Prop :=
  List.Forall₂ (fun field field' => field'.1 = field.1 ∧ patch field.2 = .ok field'.2) edited fields

theorem patch_obj_eq_ok {fields : Fields} {after : Json} (h : patch (.obj fields) = .ok after) :
    ∃ edited fields', editFields id fields fields = .ok edited ∧ after = .obj fields' ∧
      Patched edited fields' := by
  rw [patch_obj] at h
  obtain ⟨edited, hedited, h⟩ := bind_eq_ok.1 h
  obtain ⟨fields', hfields, h⟩ := bind_eq_ok.1 h
  refine ⟨edited, fields', hedited, (Except.ok.inj h).symm, ?_⟩
  refine (mapM_eq_ok.1 hfields).imp fun field field' hfield => ?_
  obtain ⟨value, hvalue, hpair⟩ := bind_eq_ok.1 hfield
  obtain rfl := Except.ok.inj hpair
  exact ⟨rfl, hvalue⟩

theorem Patched.keys_eq {edited fields : Fields} (h : Patched edited fields) :
    Dict.keys fields = Dict.keys edited := by
  induction h with
  | nil => rfl
  | cons hfield _ ih =>
    rw [Dict.keys, Dict.keys] at ih ⊢
    rw [List.map_cons, List.map_cons, hfield.1, ih]

/-- A key is in both dictionaries, with a value and its patch, or in neither. -/
theorem Patched.lookup {edited fields : Fields} (h : Patched edited fields) (key : String) :
    (edited.lookup key = none ∧ fields.lookup key = none) ∨
      ∃ value value', edited.lookup key = some value ∧ fields.lookup key = some value' ∧
        patch value = .ok value' := by
  induction h with
  | nil => exact Or.inl ⟨rfl, rfl⟩
  | @cons field field' edited fields hfield _ ih =>
    obtain ⟨first, value⟩ := field
    obtain ⟨first', value'⟩ := field'
    obtain ⟨rfl, hvalue⟩ := hfield
    rw [Dict.lookup_cons_eq, Dict.lookup_cons_eq]
    by_cases hkey : key = first'
    · rw [if_pos hkey, if_pos hkey]
      exact Or.inr ⟨value, value', rfl, rfl, hvalue⟩
    · rw [if_neg hkey, if_neg hkey]
      exact ih

theorem Patched.exists_lookup {edited fields : Fields} (h : Patched edited fields) {key : String}
    {value : Json} (hvalue : edited.lookup key = some value) :
    ∃ value', fields.lookup key = some value' ∧ patch value = .ok value' := by
  rcases h.lookup key with ⟨hnone, -⟩ | ⟨held, value', hheld, hlookup, hpatch⟩
  · rw [hnone] at hvalue
    exact nomatch hvalue
  · rw [hheld] at hvalue
    obtain rfl := Option.some.inj hvalue
    exact ⟨value', hlookup, hpatch⟩

/-- What a key holds after the edits. -/
theorem lookup_editFields {node edited : Fields} (h : editFields id node node = .ok edited)
    (key : String) : edited.lookup key =
      if key = "default" then none
      else if isObjectNode node = true ∧ key = "additionalProperties" then some (.bool false)
      else if isObjectNode node = true ∧ key = "required" then
        (propertyNames node).toOption.map fun names => .arr (names.map .str)
      else node.lookup key := by
  rw [editFields] at h
  split at h
  · rename_i hobject
    obtain ⟨names, hnames, h⟩ := bind_eq_ok.1 h
    obtain rfl := Except.ok.inj h
    rw [Dict.lookup_pop, Dict.lookup_set, Dict.lookup_set, hnames]
    simp only [hobject, true_and]
    rfl
  · rename_i hobject
    obtain rfl := Except.ok.inj h
    rw [Dict.lookup_pop]
    simp only [hobject, Bool.false_eq_true, false_and, if_false]

/-! ## Schema trees -/

/-- What stands in a place of a schema : a schema, a list of schemas, a map from names to schemas,
or data. -/
inductive Role
  | schema
  | schemas
  | named
  | data
  deriving DecidableEq, Repr

/-- What stands under a keyword. -/
def roleOf (keyword : String) : Role :=
  if keyword ∈ ["properties", "$defs", "definitions", "patternProperties", "dependentSchemas"] then
    .named
  else if keyword ∈ ["anyOf", "oneOf", "allOf", "prefixItems"] then .schemas
  else if keyword ∈ ["items", "additionalProperties", "propertyNames", "contains", "not", "if",
      "then", "else", "unevaluatedItems", "unevaluatedProperties"] then .schema
  else .data

/-- The trees that Pydantic emits. Names and data are any. -/
inductive Shaped : Role → Json → Prop
  | data (value : Json) : Shaped .data value
  | bool (b : Bool) : Shaped .schema (.bool b)
  | schema (fields : Fields) :
    (∀ field ∈ fields, Shaped (roleOf field.1) field.2) → Shaped .schema (.obj fields)
  | schemas (items : List Json) :
    (∀ item ∈ items, Shaped .schema item) → Shaped .schemas (.arr items)
  | named (fields : Fields) :
    (∀ field ∈ fields, Shaped .schema field.2) → Shaped .named (.obj fields)

/-- A step into a value. -/
inductive Step
  | field (key : String)
  | item (i : ℕ)
  deriving DecidableEq, Repr

/-- One step down a schema tree. The schema of further properties is no part of a strict one. -/
def descend : Role → Json → Step → Option (Role × Json)
  | .schema, .obj fields, .field key =>
    if roleOf key = .data ∨ isObjectNode fields = true ∧ key = "additionalProperties" then none
    else (fields.lookup key).map fun value => (roleOf key, value)
  | .named, .obj fields, .field name => (fields.lookup name).map fun value => (.schema, value)
  | .schemas, .arr items, .item i => items[i]?.map fun value => (.schema, value)
  | _, _, _ => none

/-- What stands at the end of a path. -/
def walk : Role → Json → List Step → Option (Role × Json)
  | role, value, [] => some (role, value)
  | role, value, step :: path =>
    (descend role value step).bind fun next => walk next.1 next.2 path

/-- The dictionary at the end of a path is a schema. -/
def SchemaAt (root : Json) (path : List Step) (fields : Fields) : Prop :=
  walk .schema root path = some (.schema, .obj fields)

/-- Every object node of `before` still has its properties in `after`, all of them are required
and no others are allowed, and no schema of `after` has a default. -/
structure Faithful (before after : Json) : Prop where
  objects : ∀ path fields, SchemaAt before path fields → isObjectNode fields = true →
    ∃ fields' properties properties', SchemaAt after path fields' ∧
      fields.lookup "properties" = some (.obj properties) ∧
      fields'.lookup "properties" = some (.obj properties') ∧
      (∀ name ∈ Dict.keys properties, name ∈ Dict.keys properties') ∧
      fields'.lookup "required" = some (.arr ((Dict.keys properties').map .str)) ∧
      fields'.lookup "additionalProperties" = some (.bool false)
  defaults : ∀ path fields, SchemaAt after path fields → "default" ∉ Dict.keys fields

/-- No object node has a property `default`, or is below one or below a definition of that name. -/
def NoDefaultNames (root : Json) : Prop :=
  ∀ path fields, SchemaAt root path fields → isObjectNode fields = true →
    .field "default" ∉ path ∧
      ∀ properties, fields.lookup "properties" = some (.obj properties) →
        "default" ∉ Dict.keys properties

/-! ## What the patch keeps -/

/-- No patched dictionary has a default, and its other values are patched. -/
theorem exists_of_patch_eq_obj {value : Json} {fields' : Fields}
    (h : patch value = .ok (.obj fields')) : "default" ∉ Dict.keys fields' ∧
      ∀ key value', fields'.lookup key = some value' → ∃ value, patch value = .ok value' := by
  cases value with
  | obj fields =>
    obtain ⟨edited, fields'', hedited, hsame, hpatched⟩ := patch_obj_eq_ok h
    obtain rfl := Json.obj.inj hsame
    constructor
    · rw [hpatched.keys_eq, ← Dict.lookup_eq_none_iff, lookup_editFields hedited, if_pos rfl]
    · intro key value' hvalue'
      rcases hpatched.lookup key with ⟨-, hnone⟩ | ⟨value, value'', -, hsome, hvalue⟩
      · rw [hnone] at hvalue'
        exact nomatch hvalue'
      · rw [hsome] at hvalue'
        obtain rfl := Option.some.inj hvalue'
        exact ⟨value, hvalue⟩
  | arr items =>
    rw [patch_arr] at h
    obtain ⟨items', -, h⟩ := bind_eq_ok.1 h
    exact nomatch h
  | _ => exact nomatch h

theorem exists_of_patch_eq_arr {value : Json} {items' : List Json}
    (h : patch value = .ok (.arr items')) {i : ℕ} {item' : Json} (hitem : items'[i]? = some item') :
    ∃ item, patch item = .ok item' := by
  cases value with
  | arr items =>
    rw [patch_arr] at h
    obtain ⟨items'', hitems, h⟩ := bind_eq_ok.1 h
    obtain rfl := Json.arr.inj (Except.ok.inj h)
    obtain ⟨item, -, hpatch⟩ := (mem_of_mapM_eq_ok hitems).1 (List.mem_of_getElem? hitem)
    exact ⟨item, hpatch⟩
  | obj fields =>
    obtain ⟨edited, fields', -, hsame, -⟩ := patch_obj_eq_ok h
    exact nomatch hsame
  | _ => exact nomatch h

theorem exists_of_descend_patch {role role' : Role} {value value' next' : Json} {step : Step}
    (h : patch value = .ok value') (hstep : descend role value' step = some (role', next')) :
    step ≠ .field "default" ∧ ∃ next, patch next = .ok next' := by
  unfold descend at hstep
  split at hstep
  · rename_i fields' key
    split at hstep
    · exact nomatch hstep
    obtain ⟨next, hlookup, hnext⟩ := Option.map_eq_some_iff.1 hstep
    obtain ⟨-, rfl⟩ := Prod.mk.inj hnext
    obtain ⟨hdefault, hvalues⟩ := exists_of_patch_eq_obj h
    refine ⟨?_, hvalues key next hlookup⟩
    rintro ⟨⟩
    rw [Dict.lookup_eq_none_iff.2 hdefault] at hlookup
    exact nomatch hlookup
  · rename_i fields' name
    obtain ⟨next, hlookup, hnext⟩ := Option.map_eq_some_iff.1 hstep
    obtain ⟨-, rfl⟩ := Prod.mk.inj hnext
    obtain ⟨hdefault, hvalues⟩ := exists_of_patch_eq_obj h
    refine ⟨?_, hvalues name next hlookup⟩
    rintro ⟨⟩
    rw [Dict.lookup_eq_none_iff.2 hdefault] at hlookup
    exact nomatch hlookup
  · rename_i items' i
    obtain ⟨next, hitem, hnext⟩ := Option.map_eq_some_iff.1 hstep
    obtain ⟨-, rfl⟩ := Prod.mk.inj hnext
    exact ⟨nofun, exists_of_patch_eq_arr h hitem⟩
  · exact nomatch hstep

/-- Whatever stands in a patched tree is patched, and no path to it goes through a `default`. -/
theorem exists_of_walk_patch : ∀ {path : List Step} {role role' : Role} {value value' node' : Json},
    patch value = .ok value' → walk role value' path = some (role', node') →
      .field "default" ∉ path ∧ ∃ node, patch node = .ok node'
  | [], role, role', value, value', node', h, hwalk => by
    obtain ⟨-, rfl⟩ := Prod.mk.inj (Option.some.inj hwalk)
    exact ⟨List.not_mem_nil, value, h⟩
  | step :: path, role, role', value, value', node', h, hwalk => by
    rw [walk, Option.bind_eq_some_iff] at hwalk
    obtain ⟨⟨role'', next'⟩, hstep, hwalk⟩ := hwalk
    obtain ⟨hdefault, next, hnext⟩ := exists_of_descend_patch h hstep
    obtain ⟨hpath, hnode⟩ := exists_of_walk_patch hnext hwalk
    refine ⟨?_, hnode⟩
    rw [List.mem_cons, not_or]
    exact ⟨hdefault.symm, hpath⟩

/-- A text stays a text and no other value becomes one. -/
theorem patch_eq_str {value : Json} {text : String} :
    patch value = .ok (.str text) ↔ value = .str text := by
  cases value with
  | obj fields =>
    refine ⟨fun h => ?_, fun h => (nomatch h)⟩
    obtain ⟨edited, fields', -, hsame, -⟩ := patch_obj_eq_ok h
    exact nomatch hsame
  | arr items =>
    refine ⟨fun h => ?_, fun h => (nomatch h)⟩
    rw [patch_arr] at h
    obtain ⟨items', -, h⟩ := bind_eq_ok.1 h
    exact nomatch h
  | str other => exact ⟨fun h => Except.ok.inj h, fun h => congrArg Except.ok h⟩
  | _ => exact ⟨fun h => (nomatch h), fun h => (nomatch h)⟩

theorem isObjectNode_iff {fields : Fields} : isObjectNode fields = true ↔
    fields.lookup "type" = some (.str "object") ∧ (fields.lookup "properties").isSome = true := by
  rw [isObjectNode, Bool.and_eq_true]
  refine and_congr_left fun _ => ?_
  split
  · rename_i text htext
    rw [htext, beq_iff_eq, Option.some.injEq, Json.str.injEq]
  · rename_i hother
    exact ⟨fun h => (nomatch h), fun h => absurd h (hother "object")⟩

theorem isObjectNode_patched {fields fields' : Fields}
    (h : patch (.obj fields) = .ok (.obj fields')) :
    isObjectNode fields' = isObjectNode fields := by
  obtain ⟨edited, fields'', hedited, hsame, hpatched⟩ := patch_obj_eq_ok h
  obtain rfl := Json.obj.inj hsame
  have htype := lookup_editFields hedited "type"
  have hproperties := lookup_editFields hedited "properties"
  rw [if_neg (by decide), if_neg (by simp), if_neg (by simp)] at htype hproperties
  rw [Bool.eq_iff_iff, isObjectNode_iff, isObjectNode_iff]
  refine and_congr ?_ ?_
  · rcases hpatched.lookup "type" with ⟨hnone, hnone'⟩ | ⟨value, value', hsome, hsome', hvalue⟩
    · rw [hnone', ← htype, hnone]
    · have htext : patch value = .ok (.str "object") ↔ value = .str "object" := patch_eq_str
      rw [hsome', ← htype, hsome, Option.some.injEq, Option.some.injEq, ← htext, hvalue,
        Except.ok.injEq]
  · rcases hpatched.lookup "properties" with ⟨hnone, hnone'⟩ | ⟨value, value', hsome, hsome', -⟩
    · rw [hnone', ← hproperties, hnone]
    · rw [hsome', ← hproperties, hsome]
      rfl

theorem Shaped.not_isObjectNode {fields : Fields} (h : Shaped .named (.obj fields)) :
    isObjectNode fields = false := by
  rw [← Bool.not_eq_true, isObjectNode_iff]
  rintro ⟨htype, -⟩
  cases h with
  | named _ hvalues => exact nomatch hvalues _ (Dict.mem_of_lookup htype)

/-- A step that is no `default` leads to the patch of what it led to. -/
theorem descend_patch {role role' : Role} {value value' next : Json} {step : Step}
    (hshaped : Shaped role value) (h : patch value = .ok value')
    (hstep : descend role value step = some (role', next)) (hdefault : step ≠ .field "default") :
    ∃ next', descend role value' step = some (role', next') ∧ patch next = .ok next' ∧
      Shaped role' next := by
  unfold descend at hstep
  split at hstep
  · rename_i fields key
    obtain ⟨edited, fields', hedited, rfl, hpatched⟩ := patch_obj_eq_ok h
    split at hstep
    · exact nomatch hstep
    rename_i hkept
    obtain ⟨next, hlookup, hnext⟩ := Option.map_eq_some_iff.1 hstep
    obtain ⟨rfl, rfl⟩ := Prod.mk.inj hnext
    have hrequired : key ≠ "required" := by
      rintro rfl
      exact hkept (Or.inl (by decide))
    have hheld := lookup_editFields hedited key
    rw [if_neg (by simpa using hdefault), if_neg (fun h => hkept (Or.inr h)),
      if_neg (fun h => hrequired h.2), hlookup] at hheld
    obtain ⟨next', hnext', hvalue⟩ := hpatched.exists_lookup hheld
    refine ⟨next', ?_, hvalue, ?_⟩
    · rw [descend, isObjectNode_patched h, if_neg hkept, hnext']
      rfl
    · cases hshaped with
      | schema _ hvalues => exact hvalues _ (Dict.mem_of_lookup hlookup)
  · rename_i fields name
    obtain ⟨edited, fields', hedited, rfl, hpatched⟩ := patch_obj_eq_ok h
    obtain ⟨next, hlookup, hnext⟩ := Option.map_eq_some_iff.1 hstep
    obtain ⟨rfl, rfl⟩ := Prod.mk.inj hnext
    have hheld := lookup_editFields hedited name
    rw [if_neg (by simpa using hdefault), hshaped.not_isObjectNode, if_neg (by simp),
      if_neg (by simp), hlookup] at hheld
    obtain ⟨next', hnext', hvalue⟩ := hpatched.exists_lookup hheld
    refine ⟨next', ?_, hvalue, ?_⟩
    · rw [descend, hnext']
      rfl
    · cases hshaped with
      | named _ hvalues => exact hvalues _ (Dict.mem_of_lookup hlookup)
  · rename_i items i
    obtain ⟨next, hitem, hnext⟩ := Option.map_eq_some_iff.1 hstep
    obtain ⟨rfl, rfl⟩ := Prod.mk.inj hnext
    rw [patch_arr] at h
    obtain ⟨items', hitems, h⟩ := bind_eq_ok.1 h
    obtain rfl := Except.ok.inj h
    have hall := mapM_eq_ok.1 hitems
    obtain ⟨hi, rfl⟩ := List.getElem?_eq_some_iff.1 hitem
    have hi' : i < items'.length := hall.length_eq ▸ hi
    refine ⟨items'[i], ?_, hall.get hi hi', ?_⟩
    · rw [descend, List.getElem?_eq_getElem hi']
      rfl
    · cases hshaped with
      | schemas _ hvalues => exact hvalues _ (List.getElem_mem hi)
  · exact nomatch hstep

theorem walk_patch : ∀ {path : List Step} {role role' : Role} {value value' node : Json},
    Shaped role value → patch value = .ok value' → walk role value path = some (role', node) →
      .field "default" ∉ path →
      ∃ node', walk role value' path = some (role', node') ∧ patch node = .ok node' ∧
        Shaped role' node
  | [], role, role', value, value', node, hshaped, h, hwalk, _ => by
    obtain ⟨rfl, rfl⟩ := Prod.mk.inj (Option.some.inj hwalk)
    exact ⟨value', rfl, h, hshaped⟩
  | step :: path, role, role', value, value', node, hshaped, h, hwalk, hdefault => by
    rw [walk, Option.bind_eq_some_iff] at hwalk
    obtain ⟨⟨role'', next⟩, hstep, hwalk⟩ := hwalk
    rw [List.mem_cons, not_or] at hdefault
    obtain ⟨next', hstep', hnext, hshaped'⟩ :=
      descend_patch hshaped h hstep (Ne.symm hdefault.1)
    obtain ⟨node', hwalk', hnode⟩ := walk_patch hshaped' hnext hwalk hdefault.2
    refine ⟨node', ?_, hnode⟩
    rw [walk, hstep']
    exact hwalk'

/-- The patch of an object node none of whose properties is a `default`. -/
theorem exists_of_objectNode {fields fields' : Fields} (hshaped : Shaped .schema (.obj fields))
    (h : patch (.obj fields) = .ok (.obj fields')) (hobject : isObjectNode fields = true) :
    ∃ properties properties', fields.lookup "properties" = some (.obj properties) ∧
      fields'.lookup "properties" = some (.obj properties') ∧
      fields'.lookup "required" = some (.arr ((Dict.keys properties).map .str)) ∧
      fields'.lookup "additionalProperties" = some (.bool false) ∧
      Dict.keys properties' = (Dict.keys properties).filter (· ≠ "default") := by
  obtain ⟨edited, fields'', hedited, hsame, hpatched⟩ := patch_obj_eq_ok h
  obtain rfl := Json.obj.inj hsame
  obtain ⟨value, hvalue⟩ := Option.isSome_iff_exists.1 (isObjectNode_iff.1 hobject).2
  have hnamed : Shaped .named value := by
    cases hshaped with
    | schema _ hvalues => exact hvalues _ (Dict.mem_of_lookup hvalue)
  cases hnamed with
  | named properties hvalues =>
    have hnames : propertyNames fields = .ok (Dict.keys properties) := by
      rw [propertyNames, hvalue]
    have hproperties := lookup_editFields hedited "properties"
    have hrequired := lookup_editFields hedited "required"
    have hadditional := lookup_editFields hedited "additionalProperties"
    rw [if_neg (by decide), if_neg (by simp), if_neg (by simp), hvalue] at hproperties
    rw [if_neg (by decide), if_neg (by simp), if_pos ⟨hobject, rfl⟩, hnames] at hrequired
    rw [if_neg (by decide), if_pos ⟨hobject, rfl⟩] at hadditional
    obtain ⟨patched, hpatched₁, hpatch₁⟩ := hpatched.exists_lookup hproperties
    obtain ⟨required, hpatched₂, hpatch₂⟩ := hpatched.exists_lookup hrequired
    obtain ⟨additional, hpatched₃, hpatch₃⟩ := hpatched.exists_lookup hadditional
    obtain rfl := Except.ok.inj ((patch_names _).symm.trans hpatch₂)
    obtain rfl : Json.bool false = additional := Except.ok.inj hpatch₃
    obtain ⟨edited', properties', hedited', rfl, hpatched'⟩ := patch_obj_eq_ok hpatch₁
    refine ⟨properties, properties', hvalue, hpatched₁, hpatched₂, hpatched₃, ?_⟩
    have hplain : isObjectNode properties = false := (Shaped.named _ hvalues).not_isObjectNode
    rw [editFields, hplain, if_neg (by simp)] at hedited'
    rw [hpatched'.keys_eq, ← Except.ok.inj hedited', Dict.pop, Dict.keys, Dict.keys,
      List.filter_map]
    rfl

/-! ## Patches that fail -/

/-- The edits of a dictionary drop or replace what stands under the key. -/
def dropped (objectNode : Bool) (key : String) : Bool :=
  key = "default" || objectNode && (key = "required" || key = "additionalProperties")

/-- `node["properties"]` is a dictionary. -/
def hasPropertyNames (fields : Fields) : Bool :=
  match fields.lookup "properties" with
  | some (.obj _) => true
  | _ => false

mutual

/-- No object node that the patch comes to has properties that are no dictionary. -/
def calm : Json → Bool
  | .arr items => calmItems items
  | .obj fields =>
    (!isObjectNode fields || hasPropertyNames fields) && calmFields (isObjectNode fields) fields
  | _ => true

def calmItems : List Json → Bool
  | [] => true
  | item :: items => calm item && calmItems items

def calmFields (objectNode : Bool) : Fields → Bool
  | [] => true
  | (key, value) :: fields => (dropped objectNode key || calm value) && calmFields objectNode fields

end

theorem calmItems_iff {items : List Json} :
    calmItems items = true ↔ ∀ item ∈ items, calm item = true := by
  induction items with
  | nil => simp [calmItems]
  | cons item items ih => rw [calmItems, Bool.and_eq_true, ih, List.forall_mem_cons]

theorem calmFields_iff {objectNode : Bool} {fields : Fields} :
    calmFields objectNode fields = true ↔
      ∀ field ∈ fields, dropped objectNode field.1 = false → calm field.2 = true := by
  induction fields with
  | nil => simp [calmFields]
  | cons field fields ih =>
    obtain ⟨key, value⟩ := field
    rw [calmFields, Bool.and_eq_true, ih, List.forall_mem_cons]
    refine and_congr_left fun _ => ?_
    cases dropped objectNode key <;> simp

theorem dropped_eq_false {objectNode : Bool} {key : String} : dropped objectNode key = false ↔
    key ≠ "default" ∧ (objectNode = true → key ≠ "required" ∧ key ≠ "additionalProperties") := by
  rw [dropped, Bool.or_eq_false_iff, decide_eq_false_iff_not]
  cases objectNode <;> simp

/-- The fields after the edits are those that are not dropped, and some that are put in and hold
nothing to patch. -/
theorem mem_editFields {node edited : Fields} (h : editFields id node node = .ok edited)
    {field : String × Json} :
    (field ∈ edited → patch field.2 = .ok field.2 ∨
      field ∈ node ∧ dropped (isObjectNode node) field.1 = false) ∧
    (field ∈ node → dropped (isObjectNode node) field.1 = false → field ∈ edited) := by
  rw [dropped_eq_false]
  rw [editFields] at h
  split at h
  · rename_i hobject
    obtain ⟨names, -, h⟩ := bind_eq_ok.1 h
    obtain rfl := Except.ok.inj h
    rw [Dict.mem_pop, hobject]
    constructor
    · rintro ⟨hset, hdefault⟩
      rcases Dict.mem_set hset with rfl | ⟨hset, hadditional⟩
      · exact Or.inl rfl
      rcases Dict.mem_set hset with rfl | ⟨hnode, hrequired⟩
      · exact Or.inl (patch_names names)
      · exact Or.inr ⟨hnode, hdefault, fun _ => ⟨hrequired, hadditional⟩⟩
    · rintro hnode ⟨hdefault, hkept⟩
      obtain ⟨hrequired, hadditional⟩ := hkept rfl
      exact ⟨Dict.mem_set_of_ne (Dict.mem_set_of_ne hnode hrequired) hadditional, hdefault⟩
  · rename_i hplain
    obtain rfl := Except.ok.inj h
    rw [Dict.mem_pop]
    exact ⟨fun hnode => Or.inr ⟨hnode.1, hnode.2, fun hobject => absurd hobject hplain⟩,
      fun hnode hkept => ⟨hnode, hkept.1⟩⟩

/-- The edits fail only where the properties have no names. -/
theorem editFields_ok_iff {node : Fields} : (∃ edited, editFields id node node = .ok edited) ↔
    (isObjectNode node = true → hasPropertyNames node = true) := by
  rw [editFields]
  split
  · rename_i hobject
    rw [propertyNames, hasPropertyNames, hobject]
    split
    · exact ⟨fun _ _ => rfl, fun _ => ⟨_, rfl⟩⟩
    · exact ⟨fun ⟨_, h⟩ => (nomatch h), fun h => (nomatch h rfl)⟩
  · rename_i hplain
    exact ⟨fun _ hobject => absurd hobject hplain, fun _ => ⟨_, rfl⟩⟩

/-- A dictionary is patched where its properties have names and its values are patched. -/
theorem patch_obj_ok_iff {fields : Fields} : (∃ after, patch (.obj fields) = .ok after) ↔
    (isObjectNode fields = true → hasPropertyNames fields = true) ∧
      ∀ field ∈ fields, dropped (isObjectNode fields) field.1 = false →
        ∃ after, patch field.2 = .ok after := by
  rw [patch_obj, ← editFields_ok_iff]
  constructor
  · rintro ⟨after, h⟩
    obtain ⟨edited, hedited, h⟩ := bind_eq_ok.1 h
    obtain ⟨fields', hfields, -⟩ := bind_eq_ok.1 h
    refine ⟨⟨edited, hedited⟩, fun field hfield hkept => ?_⟩
    obtain ⟨field', hfield'⟩ := mapM_ok hfields ((mem_editFields hedited).2 hfield hkept)
    obtain ⟨after', hafter', -⟩ := bind_eq_ok.1 hfield'
    exact ⟨after', hafter'⟩
  · rintro ⟨⟨edited, hedited⟩, hvalues⟩
    have hall : ∀ field ∈ edited, ∃ field', (do return (field.1, ← patch field.2) :
        Except Raised (String × Json)) = .ok field' := by
      intro field hfield
      obtain ⟨after, hafter⟩ : ∃ after, patch field.2 = .ok after := by
        rcases (mem_editFields hedited).1 hfield with hsame | ⟨hnode, hkept⟩
        · exact ⟨field.2, hsame⟩
        · exact hvalues field hnode hkept
      exact ⟨(field.1, after), bind_eq_ok.2 ⟨after, hafter, rfl⟩⟩
    obtain ⟨fields', hfields⟩ := exists_mapM_eq_ok hall
    exact ⟨.obj fields', bind_eq_ok.2 ⟨edited, hedited, bind_eq_ok.2 ⟨fields', hfields, rfl⟩⟩⟩

theorem patch_arr_ok_iff {items : List Json} : (∃ after, patch (.arr items) = .ok after) ↔
    ∀ item ∈ items, ∃ after, patch item = .ok after := by
  rw [patch_arr]
  constructor
  · rintro ⟨after, h⟩ item hitem
    obtain ⟨items', hitems, -⟩ := bind_eq_ok.1 h
    exact mapM_ok hitems hitem
  · intro h
    obtain ⟨items', hitems⟩ := exists_mapM_eq_ok h
    exact ⟨.arr items', bind_eq_ok.2 ⟨items', hitems, rfl⟩⟩

mutual

theorem patch_ok_iff : ∀ value : Json, (∃ after, patch value = .ok after) ↔ calm value = true
  | .arr items => by
    rw [patch_arr_ok_iff, calm, calmItems_iff]
    exact forall₂_congr fun item hitem => patch_ok_iff_of_mem_items items item hitem
  | .obj fields => by
    rw [patch_obj_ok_iff, calm, Bool.and_eq_true, calmFields_iff]
    refine and_congr (by cases isObjectNode fields <;> simp) ?_
    exact forall₂_congr fun field hfield => imp_congr_right fun _ =>
      patch_ok_iff_of_mem_fields fields field hfield
  | .null => ⟨fun _ => rfl, fun _ => ⟨_, rfl⟩⟩
  | .bool _ => ⟨fun _ => rfl, fun _ => ⟨_, rfl⟩⟩
  | .num _ => ⟨fun _ => rfl, fun _ => ⟨_, rfl⟩⟩
  | .str _ => ⟨fun _ => rfl, fun _ => ⟨_, rfl⟩⟩

theorem patch_ok_iff_of_mem_items : ∀ (items : List Json), ∀ item ∈ items,
    ((∃ after, patch item = .ok after) ↔ calm item = true)
  | [] => List.forall_mem_nil _
  | item :: items => List.forall_mem_cons.2 ⟨patch_ok_iff item, patch_ok_iff_of_mem_items items⟩

theorem patch_ok_iff_of_mem_fields : ∀ (fields : Fields), ∀ field ∈ fields,
    ((∃ after, patch field.2 = .ok after) ↔ calm field.2 = true)
  | [] => List.forall_mem_nil _
  | (_, value) :: fields =>
    List.forall_mem_cons.2 ⟨patch_ok_iff value, patch_ok_iff_of_mem_fields fields⟩

end

/-! ## Faithful patches -/

/-- The patch of a schema tree that Pydantic emits is faithful just when no object node has a
property `default`, or is below a name `default`, and no data that the patch takes for an object
node makes it fail. -/
theorem faithful_iff (schema : Json) (hshaped : Shaped .schema schema) :
    (∃ after, strictJsonSchema schema = .ok after ∧ Faithful schema after) ↔
      NoDefaultNames schema ∧ calm schema = true := by
  constructor
  · rintro ⟨after, h, hfaithful⟩
    refine ⟨fun path fields hat hobject => ?_, (patch_ok_iff schema).1 ⟨after, h⟩⟩
    obtain ⟨fields', properties, properties', hat', hproperties, hproperties', hnames, -, -⟩ :=
      hfaithful.objects path fields hat hobject
    obtain ⟨hpath, node, hnode⟩ := exists_of_walk_patch h hat'
    refine ⟨hpath, fun properties'' hsame hdefault => ?_⟩
    obtain rfl := Json.obj.inj (Option.some.inj (hproperties.symm.trans hsame))
    obtain ⟨-, hvalues⟩ := exists_of_patch_eq_obj hnode
    obtain ⟨value, hvalue⟩ := hvalues "properties" _ hproperties'
    exact (exists_of_patch_eq_obj hvalue).1 (hnames "default" hdefault)
  · rintro ⟨hclear, hcalm⟩
    obtain ⟨after, h⟩ := (patch_ok_iff schema).2 hcalm
    refine ⟨after, h, fun path fields hat hobject => ?_, fun path fields' hat' => ?_⟩
    · obtain ⟨hpath, hdefault⟩ := hclear path fields hat hobject
      obtain ⟨node', hat', hnode, hshaped'⟩ := walk_patch hshaped h hat hpath
      obtain ⟨edited, fields', -, rfl, -⟩ := patch_obj_eq_ok hnode
      obtain ⟨properties, properties', hproperties, hproperties', hrequired, hadditional, hkeys⟩ :=
        exists_of_objectNode hshaped' hnode hobject
      have hsame : Dict.keys properties' = Dict.keys properties := by
        rw [hkeys, List.filter_eq_self]
        intro name hname
        exact decide_eq_true fun h => hdefault properties hproperties (h ▸ hname)
      refine ⟨fields', properties, properties', hat', hproperties, hproperties', ?_, ?_,
        hadditional⟩
      · rw [hsame]
        exact fun _ hname => hname
      · rw [hsame]
        exact hrequired
    · obtain ⟨-, node, hnode⟩ := exists_of_walk_patch h hat'
      exact (exists_of_patch_eq_obj hnode).1

theorem roleOf_type : roleOf "type" = .data := by
  decide

/-- A schema node without properties. -/
theorem shaped_type (name : String) : Shaped .schema (.obj [("type", .str name)]) :=
  .schema _ (List.forall_mem_singleton.2 (roleOf_type ▸ .data _))

/-- The schema of a model with the properties that `properties` names, all of them texts. -/
def textModel (properties : List String) : Json :=
  .obj [("type", .str "object"),
    ("properties", .obj (properties.map fun name => (name, .obj [("type", .str "string")])))]

theorem shaped_textModel (properties : List String) : Shaped .schema (textModel properties) := by
  refine .schema _ (List.forall_mem_cons.2 ⟨roleOf_type ▸ .data _, List.forall_mem_singleton.2 ?_⟩)
  have hrole : roleOf "properties" = .named := by decide
  rw [hrole]
  refine .named _ fun field hfield => ?_
  obtain ⟨name, -, rfl⟩ := List.mem_map.1 hfield
  exact shaped_type "string"

/-- A model of a fee is patched faithfully unless a name collides. -/
theorem faithful_iff_fee :
    (∃ after, strictJsonSchema (textModel ["fee", "currency"]) = .ok after ∧
        Faithful (textModel ["fee", "currency"]) after) ↔
      NoDefaultNames (textModel ["fee", "currency"]) :=
  (faithful_iff _ (shaped_textModel _)).trans (and_iff_left (by decide))

/-- A property `default` is required and not there. -/
theorem default_property_lost : Shaped .schema (textModel ["default", "fee"]) ∧
    ¬∃ after, strictJsonSchema (textModel ["default", "fee"]) = .ok after ∧
      Faithful (textModel ["default", "fee"]) after := by
  refine ⟨shaped_textModel _, ?_⟩
  rintro ⟨after, h, hfaithful⟩
  obtain ⟨fields', properties, properties', hat', hproperties, hproperties', hnames, -⟩ :=
    hfaithful.objects [] _ rfl (by decide)
  obtain ⟨-, node, hnode⟩ := exists_of_walk_patch h hat'
  obtain ⟨-, hvalues⟩ := exists_of_patch_eq_obj hnode
  obtain ⟨value, hvalue⟩ := hvalues "properties" _ hproperties'
  refine (exists_of_patch_eq_obj hvalue).1 (hnames "default" ?_)
  obtain rfl := Json.obj.inj (Option.some.inj hproperties)
  decide

end StrictSchema

end EnterpriseRag

import EnterpriseRag.Library.Dict
import EnterpriseRag.Rag.EmbeddingClient
import Mathlib.Data.List.Nodup

/-!
# Embeddings line up with their texts

A slot is a text with the vector that was found for it. `Lined` says that the places kept for
the texts to ask for are those of the slots without a vector, through which the vectors of a
response reach every place of their text (`run_storeVectors`), whatever the order of the
response and however often a text is wanted.
-/

namespace EnterpriseRag

open Program

/-! ## The places of a text -/

theorem lookup_addMiss {text other : String} {i : ℕ} : ∀ {misses : MissIndices},
    (addMiss text i misses).lookup other =
      if other = text then some ((misses.lookup text).getD [] ++ [i]) else misses.lookup other
  | [] => Dict.lookup_cons_eq
  | (first, indices) :: misses => by
    rw [addMiss]
    by_cases hfirst : first = text
    · subst hfirst
      rw [if_pos rfl, Dict.lookup_cons_eq, Dict.lookup_cons_eq, Dict.lookup_cons_eq, if_pos rfl]
      split <;> rfl
    · rw [if_neg hfirst, Dict.lookup_cons_eq, Dict.lookup_cons_eq, Dict.lookup_cons_eq,
        lookup_addMiss, if_neg (Ne.symm hfirst)]
      by_cases h : other = text
      · subst h
        rw [if_neg (Ne.symm hfirst), if_pos rfl, if_pos rfl]
      · rw [if_neg h, if_neg h]

theorem mem_keys_addMiss {text other : String} {i : ℕ} : ∀ {misses : MissIndices},
    other ∈ (addMiss text i misses).map (·.1) ↔ other = text ∨ other ∈ misses.map (·.1)
  | [] => by simp [addMiss]
  | (first, indices) :: misses => by
    rw [addMiss]
    split
    · rename_i hfirst
      simp [hfirst]
    · rw [List.map_cons, List.mem_cons, mem_keys_addMiss, List.map_cons, List.mem_cons,
        or_left_comm]

theorem nodup_keys_addMiss {text : String} {i : ℕ} : ∀ {misses : MissIndices},
    (misses.map (·.1)).Nodup → ((addMiss text i misses).map (·.1)).Nodup
  | [], _ => by simp [addMiss]
  | (first, indices) :: misses, h => by
    rw [addMiss]
    split
    · exact h
    · rename_i hfirst
      rw [List.map_cons, List.nodup_cons] at h ⊢
      refine ⟨fun hmem => ?_, nodup_keys_addMiss h.2⟩
      rcases mem_keys_addMiss.1 hmem with rfl | hmem
      · exact hfirst rfl
      · exact h.1 hmem

/-! ## Slots -/

section Slots

variable {V : Type}

/-- The places kept for the texts to ask for are those of the slots without a vector. -/
structure Lined (slots : List (String × Option V)) (misses : MissIndices) : Prop where
  nodup : (misses.map (·.1)).Nodup
  mem_keys : ∀ text, text ∈ misses.map (·.1) ↔ (text, none) ∈ slots
  mem_indices : ∀ text i, i ∈ (misses.lookup text).getD [] ↔ slots[i]? = some (text, none)

theorem lined_nil : Lined ([] : List (String × Option V)) [] :=
  ⟨List.nodup_nil, by simp, by simp⟩

variable {slots : List (String × Option V)} {misses : MissIndices}

theorem getElem?_concat_eq {α : Type} {l : List α} {a b : α} {i : ℕ} :
    (l ++ [a])[i]? = some b ↔ l[i]? = some b ∨ i = l.length ∧ a = b := by
  rcases Nat.lt_trichotomy i l.length with hi | rfl | hi
  · rw [List.getElem?_append_left hi]
    simp [hi.ne]
  · simp
  · rw [List.getElem?_append_right hi.le, List.getElem?_eq_none (l := [a]) (by simp; omega),
      List.getElem?_eq_none hi.le]
    simp [hi.ne']

theorem Lined.hit (h : Lined slots misses) (text : String) (v : V) :
    Lined (slots ++ [(text, some v)]) misses where
  nodup := h.nodup
  mem_keys other := by simp [h.mem_keys]
  mem_indices other i := by simp [h.mem_indices, getElem?_concat_eq]

theorem Lined.miss (h : Lined slots misses) (text : String) :
    Lined (slots ++ [(text, none)]) (addMiss text slots.length misses) where
  nodup := nodup_keys_addMiss h.nodup
  mem_keys other := by
    rw [mem_keys_addMiss, h.mem_keys, List.mem_append, List.mem_singleton, or_comm]
    simp
  mem_indices other i := by
    rw [lookup_addMiss, getElem?_concat_eq, ← h.mem_indices]
    split
    · rename_i hsame
      subst hsame
      simp
    · rename_i hother
      simp [Ne.symm hother]

/-- The vectors of the slots, and where there is none the ones that are given for the texts. -/
def fill (slots : List (String × Option V)) (given : String → Option V) : List (Option V) :=
  slots.map fun slot => slot.2.or (given slot.1)

theorem getElem?_foldl_set {α : Type} {x : α} {i : ℕ} : ∀ {indices : List ℕ} {l : List α},
    (indices.foldl (fun l i => l.set i x) l)[i]? =
      if i ∈ indices then l[i]?.map fun _ => x else l[i]?
  | [], _ => by simp
  | j :: indices, l => by
    rw [List.foldl_cons, getElem?_foldl_set, List.getElem?_set]
    by_cases hj : j = i
    · subst hj
      by_cases hlt : j < l.length <;> simp [hlt]
    · simp [hj, Ne.symm hj]

/-- A vector goes to the places of its text. -/
theorem Lined.fill_set (h : Lined slots misses) (given : String → Option V) (text : String)
    (v : V) :
    ((misses.lookup text).getD []).foldl (fun results i => results.set i (some v))
        (fill slots given) =
      fill slots (Function.update given text (some v)) := by
  refine List.ext_getElem? fun i => ?_
  rw [getElem?_foldl_set, fill, fill, List.getElem?_map, List.getElem?_map]
  by_cases hi : i ∈ (misses.lookup text).getD []
  · rw [if_pos hi, (h.mem_indices text i).1 hi]
    simp
  · rw [if_neg hi]
    rw [h.mem_indices] at hi
    rcases hslot : slots[i]? with _ | ⟨other, _ | w⟩
    · rfl
    · have hother : other ≠ text := by
        rintro rfl
        exact hi hslot
      simp [Function.update_of_ne hother]
    · simp

end Slots

/-! ## Runs -/

namespace OpenAIEmbeddingClient

variable {V : Type} (client : OpenAIEmbeddingClient V)

/-- The vector that a read of the cache finds. -/
def gotten : Event EmbedOp (EmbedOp.Res V) → Option V
  | ⟨.get _, .ok (some raw)⟩ =>
    match client.jsonLoads raw with
    | .ok vector => vector
    | .error _ => none
  | _ => none

/-- The entries of the texts hold their vectors, and the cache fails as caches do. -/
structure CacheHolds (vec : String → V) (texts : List String) (model : String)
    (o : EmbedOracle V) : Prop where
  get : ∀ h, ∀ text ∈ texts, ∀ raw, o h (.get (client.cacheKey text model)) = .ok (some raw) →
    client.jsonLoads raw = .ok (some (vec text))
  getRaises : ∀ h key e, o h (.get key) = .error e → e.isException = true
  setRaises : ∀ h key value e, o h (.set key value) = .error e → e.isException = true

variable {client} {vec : String → V} {texts : List String} {model : String} {o : EmbedOracle V}

theorem run_getCached (hcache : client.CacheHolds vec texts model o) {text : String}
    (htext : text ∈ texts) (h : List (Event EmbedOp (EmbedOp.Res V))) :
    ∃ event : Event EmbedOp (EmbedOp.Res V), event.1 = .get (client.cacheKey text model) ∧
      (∀ v, client.gotten event = some v → v = vec text) ∧
      run o h (client.getCached text model) = (.ok (client.gotten event), h ++ [event]) := by
  refine ⟨⟨.get (client.cacheKey text model), o h (.get (client.cacheKey text model))⟩, rfl, ?_⟩
  rw [getCached, run_attempt_bind]
  rcases hread : o h (.get (client.cacheKey text model)) with e | _ | raw
  · refine ⟨fun v hv => (nomatch hv), ?_⟩
    show run o _ (if e.isException then _ else _) = _
    rw [if_pos (hcache.getRaises h _ e hread)]
    rfl
  · exact ⟨fun v hv => (nomatch hv), rfl⟩
  · have hraw := hcache.get h text htext raw hread
    have hgotten : client.gotten ⟨.get (client.cacheKey text model), .ok (some raw)⟩ =
        some (vec text) := by
      rw [gotten, hraw]
    rw [hgotten]
    refine ⟨fun v hv => (Option.some.inj hv).symm, ?_⟩
    show run o _ (orRaise (client.jsonLoads raw)) = _
    rw [hraw]
    rfl

/-- Each text is looked up once, in order. -/
theorem run_lookupTexts (hcache : client.CacheHolds vec texts model o) :
    ∀ {rest : List String} {slots : List (String × Option V)} {misses : MissIndices}
      (h : List (Event EmbedOp (EmbedOp.Res V))), (∀ text ∈ rest, text ∈ texts) →
        Lined slots misses → (∀ slot ∈ slots, ∀ v, slot.2 = some v → v = vec slot.1) →
        ∃ gets misses',
          gets.map (·.1) = rest.map (fun text => .get (client.cacheKey text model)) ∧
          run o h (client.lookupTexts model rest (slots.map (·.2)) misses) =
            (.ok ((slots ++ rest.zip (gets.map client.gotten)).map (·.2), misses'), h ++ gets) ∧
          Lined (slots ++ rest.zip (gets.map client.gotten)) misses' ∧
          ∀ slot ∈ slots ++ rest.zip (gets.map client.gotten), ∀ v, slot.2 = some v →
            v = vec slot.1
  | [], slots, misses, h, _, hlined, hvec => by
    refine ⟨[], misses, rfl, ?_, ?_, ?_⟩
    · simp [lookupTexts, run]
    · simpa using hlined
    · simpa using hvec
  | text :: rest, slots, misses, h, hrest, hlined, hvec => by
    rw [List.forall_mem_cons] at hrest
    obtain ⟨event, hop, hevent, hrun⟩ := run_getCached hcache hrest.1 h
    have hslots : ∀ slot ∈ slots ++ [(text, client.gotten event)], ∀ v, slot.2 = some v →
        v = vec slot.1 := by
      rw [List.forall_mem_append, List.forall_mem_singleton]
      exact ⟨hvec, hevent⟩
    have hlined' : ∃ misses', Lined (slots ++ [(text, client.gotten event)]) misses' ∧
        run o h (client.lookupTexts model (text :: rest) (slots.map (·.2)) misses) =
          run o (h ++ [event]) (client.lookupTexts model rest
            ((slots ++ [(text, client.gotten event)]).map (·.2)) misses') := by
      rw [lookupTexts, bind_eq, run_bind, hrun, List.map_append]
      cases hgotten : client.gotten event with
      | some v => exact ⟨misses, hlined.hit text v, rfl⟩
      | none =>
        refine ⟨addMiss text slots.length misses, hlined.miss text, ?_⟩
        simp only [List.length_map, List.map_singleton]
    obtain ⟨misses', hlined', hstep⟩ := hlined'
    obtain ⟨gets, misses'', hgets, hlookup, hlined'', hvec''⟩ :=
      run_lookupTexts hcache (h ++ [event]) hrest.2 hlined' hslots
    have hsplit : slots ++ (text :: rest).zip ((event :: gets).map client.gotten) =
        slots ++ [(text, client.gotten event)] ++ rest.zip (gets.map client.gotten) := by
      rw [List.append_assoc]
      rfl
    refine ⟨event :: gets, misses'', ?_, ?_, ?_, ?_⟩
    · rw [List.map_cons, List.map_cons, hop, hgets]
    · rw [hstep, hlookup, hsplit, List.append_assoc h]
      rfl
    · rw [hsplit]
      exact hlined''
    · rw [hsplit]
      exact hvec''

theorem run_setCached (hcache : client.CacheHolds vec texts model o) (text : String) (v : V)
    (h : List (Event EmbedOp (EmbedOp.Res V))) :
    ∃ event : Event EmbedOp (EmbedOp.Res V), (∃ key value, event.1 = .set key value) ∧
      run o h (client.setCached text model v) = (.ok (), h ++ [event]) := by
  refine ⟨⟨.set (client.cacheKey text model) (client.jsonDumps v), o h _⟩, ⟨_, _, rfl⟩, ?_⟩
  rw [setCached, run_attempt_bind]
  rcases hwrite : o h (.set (client.cacheKey text model) (client.jsonDumps v)) with e | ⟨⟩
  · show run o _ (if e.isException then _ else _) = _
    rw [if_pos (hcache.setRaises h _ _ e hwrite)]
    rfl
  · rfl

/-- Where the vectors of a response go. Each text has the vector of an item that names it, or
what it had. -/
theorem run_storeVectors (hcache : client.CacheHolds vec texts model o)
    {slots : List (String × Option V)} {misses : MissIndices} (hlined : Lined slots misses) :
    ∀ (data : List (ℤ × V)) (given : String → Option V)
      (h : List (Event EmbedOp (EmbedOp.Res V))), ∃ x sets,
        run o h (client.storeVectors model misses data (fill slots given)) = (x, h ++ sets) ∧
        (∀ event ∈ sets, ∃ key value, event.1 = .set key value) ∧
        ((∃ item ∈ data, ∃ e, textAt (misses.map (·.1)) item.1 = .error e ∧ x = .error e) ∨
          ∃ given', x = .ok (fill slots given') ∧ ∀ text,
            (given' text = given text ∧
              ∀ item ∈ data, textAt (misses.map (·.1)) item.1 ≠ .ok text) ∨
            ∃ item ∈ data, textAt (misses.map (·.1)) item.1 = .ok text ∧
              given' text = some item.2)
  | [], given, h => by
    refine ⟨.ok (fill slots given), [], by simp [storeVectors, run], by simp, Or.inr ?_⟩
    exact ⟨given, rfl, fun text => Or.inl ⟨rfl, by simp⟩⟩
  | (index, v) :: data, given, h => by
    cases hat : textAt (misses.map (·.1)) index with
    | error e =>
      refine ⟨.error e, [], ?_, by simp, Or.inl ⟨(index, v), List.mem_cons_self, e, hat, rfl⟩⟩
      rw [storeVectors, hat, List.append_nil]
      rfl
    | ok named =>
      obtain ⟨event, hevent, hset⟩ := run_setCached hcache named v h
      have hstep : run o h (client.storeVectors model misses ((index, v) :: data)
          (fill slots given)) = run o (h ++ [event]) (client.storeVectors model misses data
            (fill slots (Function.update given named (some v)))) := by
        rw [storeVectors, hat, bind_eq, orRaise, Program.bind, bind_eq, run_bind, hset,
          hlined.fill_set]
      obtain ⟨x, sets, hrun, hsets, hx⟩ := run_storeVectors hcache hlined data
        (Function.update given named (some v)) (h ++ [event])
      refine ⟨x, event :: sets, ?_, ?_, ?_⟩
      · rw [hstep, hrun, List.append_assoc]
        rfl
      · rw [List.forall_mem_cons]
        exact ⟨hevent, hsets⟩
      · rcases hx with ⟨item, hitem, e, he, rfl⟩ | ⟨given', rfl, hgiven'⟩
        · exact Or.inl ⟨item, List.mem_cons_of_mem _ hitem, e, he, rfl⟩
        · refine Or.inr ⟨given', rfl, fun text => ?_⟩
          rcases hgiven' text with ⟨hkept, hnone⟩ | ⟨item, hitem, hnamed, hgiven⟩
          · by_cases hsame : text = named
            · subst hsame
              rw [Function.update_self] at hkept
              exact Or.inr ⟨(index, v), List.mem_cons_self, hat, hkept⟩
            · rw [Function.update_of_ne hsame] at hkept
              refine Or.inl ⟨hkept, ?_⟩
              rw [List.forall_mem_cons]
              refine ⟨fun hsame' => hsame ?_, hnone⟩
              rw [hat] at hsame'
              exact (Except.ok.inj hsame').symm
          · exact Or.inr ⟨item, List.mem_cons_of_mem _ hitem, hnamed, hgiven⟩

/-- The request is repeated until it is answered or the attempts are used up. -/
theorem run_createWithRetries (model : String) (requested : List String) (o : EmbedOracle V) :
    ∀ (retries : ℕ) (h : List (Event EmbedOp (EmbedOp.Res V))), ∃ failed : List Raised, ∃ x,
      run o h (createWithRetries model requested retries) =
        (x, h ++ (failed.map fun e => ⟨.create model requested, .error e⟩) ++
          [⟨.create model requested, x⟩]) ∧ failed.length ≤ retries
  | 0, h => ⟨[], o h (.create model requested), by simp [createWithRetries, run_ask], le_rfl⟩
  | retries + 1, h => by
    rw [createWithRetries, run_attempt_bind]
    rcases hcreate : o h (.create model requested) with e | data
    · by_cases hexception : e.isException = true
      · obtain ⟨failed, x, hrun, hfew⟩ := run_createWithRetries model requested o retries
          (h ++ [⟨.create model requested, .error e⟩])
        refine ⟨e :: failed, x, ?_, Nat.succ_le_succ hfew⟩
        show run o _ (if e.isException then _ else _) = _
        rw [if_pos hexception, hrun]
        simp
      · refine ⟨[], .error e, ?_, Nat.zero_le _⟩
        show run o _ (if e.isException then _ else _) = _
        rw [if_neg hexception]
        simp [run]
    · exact ⟨[], .ok data, by simp [run], Nat.zero_le _⟩

/-! ## The vectors that are returned -/

theorem mapM_fill_of_covered {slots : List (String × Option V)} (given : String → Option V)
    (h : ∀ slot ∈ slots, slot.2.or (given slot.1) = some (vec slot.1)) :
    (fill slots given).mapM id = some (slots.map fun slot => vec slot.1) := by
  induction slots with
  | nil => rfl
  | cons slot slots ih =>
    rw [List.forall_mem_cons] at h
    have hrest := ih h.2
    rw [fill] at hrest ⊢
    rw [List.map_cons, List.mapM_cons, hrest, h.1]
    rfl

theorem mapM_fill_of_uncovered {slots : List (String × Option V)} {given : String → Option V}
    {slot : String × Option V} (hslot : slot ∈ slots) (h : slot.2.or (given slot.1) = none) :
    (fill slots given).mapM id = none := by
  induction slots with
  | nil => exact nomatch hslot
  | cons first slots ih =>
    rw [fill, List.map_cons, List.mapM_cons]
    rcases List.mem_cons.1 hslot with rfl | hslot
    · rw [h]
      rfl
    · have hrest := ih hslot
      rw [fill] at hrest
      rw [hrest]
      cases first.2.or (given first.1) <;> rfl

/-- The index of a text that is named, which may count from the end. -/
theorem index_of_textAt {requested : List String} {index : ℤ} {text : String} {k : ℕ}
    (hnodup : requested.Nodup) (htext : requested[k]? = some text)
    (h : textAt requested index = .ok text) : index = k ∨ index = k - requested.length := by
  obtain ⟨hk, hkeq⟩ := List.getElem?_eq_some_iff.1 htext
  rw [textAt] at h
  generalize hposition : (if index < 0 then index + (requested.length : ℤ) else index) = position
    at h
  by_cases hnegative : position < 0
  · rw [if_pos hnegative] at h
    exact nomatch h
  rw [if_neg hnegative] at h
  cases hnamed : requested[position.toNat]? with
  | none =>
    rw [hnamed] at h
    exact nomatch h
  | some named =>
    rw [hnamed] at h
    obtain rfl := Except.ok.inj h
    obtain ⟨hlt, heq⟩ := List.getElem?_eq_some_iff.1 hnamed
    have hsame : k = position.toNat := (List.Nodup.getElem_inj_iff hnodup).1 (hkeq.trans heq.symm)
    split at hposition <;> omega

theorem textAt_of_getElem? {requested : List String} {text : String} {k : ℕ}
    (h : requested[k]? = some text) : textAt requested k = .ok text := by
  have hnonneg : ¬((k : ℤ) < 0) := by omega
  simp only [textAt, if_neg hnonneg, Int.toNat_natCast, h]

/-- The items have the vectors of the texts they name, in any order, and name every text. -/
structure Covers (vec : String → V) (requested : List String) (data : List (ℤ × V)) : Prop where
  faithful : ∀ item ∈ data, ∃ (k : ℕ) (text : String), item.1 = k ∧ requested[k]? = some text ∧
    item.2 = vec text
  covered : ∀ k < requested.length, ∃ item ∈ data, item.1 = (k : ℤ)

/-- A slot has its text's vector once the vectors of a covering response are given. -/
theorem filled_of_covers {slots : List (String × Option V)} {misses : MissIndices}
    (hlined : Lined slots misses) {data : List (ℤ × V)} {given : String → Option V}
    (hvec : ∀ slot ∈ slots, ∀ v, slot.2 = some v → v = vec slot.1)
    (hcovers : Covers vec (misses.map (·.1)) data)
    (hgiven : ∀ text, (∀ item ∈ data, textAt (misses.map (·.1)) item.1 ≠ .ok text) ∨
      ∃ item ∈ data, textAt (misses.map (·.1)) item.1 = .ok text ∧ given text = some item.2) :
    ∀ slot ∈ slots, slot.2.or (given slot.1) = some (vec slot.1) := by
  rintro ⟨text, found⟩ hslot
  cases found with
  | some v => rw [hvec _ hslot v rfl, Option.some_or]
  | none =>
    rw [Option.none_or]
    obtain ⟨k, hk, hkeq⟩ := List.getElem_of_mem ((hlined.mem_keys text).2 hslot)
    have htext : (misses.map (·.1))[k]? = some text := List.getElem?_eq_some_iff.2 ⟨hk, hkeq⟩
    rcases hgiven text with hnone | ⟨item, hitem, hnamed, hgiven⟩
    · obtain ⟨item, hitem, hindex⟩ := hcovers.covered k hk
      exact absurd (hindex ▸ textAt_of_getElem? htext) (hnone item hitem)
    · obtain ⟨j, other, hindex, hother, hvector⟩ := hcovers.faithful item hitem
      rw [hindex, textAt_of_getElem? hother] at hnamed
      rw [hgiven, hvector, Except.ok.inj hnamed]

/-- What is returned once the vectors are in place. -/
def finish (results : List (Option V)) : EmbedProgram V (List V) :=
  match results.mapM id with
  | some vectors => return vectors
  | none => .raise (.exception "RuntimeError")

theorem run_finish {o : EmbedOracle V} (results : List (Option V))
    (h : List (Event EmbedOp (EmbedOp.Res V))) :
    run o h (finish results) = ((run o [] (finish results)).1, h) := by
  rw [finish]
  split <;> rfl

theorem finish_of_covered {slots : List (String × Option V)} (given : String → Option V)
    (h : ∀ slot ∈ slots, slot.2.or (given slot.1) = some (vec slot.1)) :
    finish (fill slots given) = return slots.map fun slot => vec slot.1 := by
  rw [finish, mapM_fill_of_covered given h]

theorem finish_of_uncovered {slots : List (String × Option V)} {given : String → Option V}
    {slot : String × Option V} (hslot : slot ∈ slots) (h : slot.2.or (given slot.1) = none) :
    finish (fill slots given) = .raise (.exception "RuntimeError") := by
  rw [finish, mapM_fill_of_uncovered hslot h]

theorem embedTexts_eq {resolved : Option String} (htexts : texts ≠ []) :
    client.embedTexts texts resolved =
      client.lookupTexts (orElseText resolved client.defaultModel) texts [] [] >>= fun looked =>
        client.fetchMisses (orElseText resolved client.defaultModel) looked.2 looked.1 >>=
          finish := by
  rw [embedTexts, if_neg htexts]
  rfl

/-- How the places of the texts to ask for are filled. `x` is what storing the vectors of a
response came to. -/
def Filled (slots : List (String × Option V)) (misses : MissIndices) (data : List (ℤ × V))
    (x : Except Raised (List (Option V))) : Prop :=
  (∃ item ∈ data, ∃ e, textAt (misses.map (·.1)) item.1 = .error e ∧ x = .error e) ∨
    ∃ given, x = .ok (fill slots given) ∧ ∀ text,
      (given text = none ∧ ∀ item ∈ data, textAt (misses.map (·.1)) item.1 ≠ .ok text) ∨
        ∃ item ∈ data, textAt (misses.map (·.1)) item.1 = .ok text ∧ given text = some item.2

/-- The texts to ask for are asked for in one request, repeated where it fails. -/
theorem run_fetchMisses (hcache : client.CacheHolds vec texts model o)
    {slots : List (String × Option V)} {misses : MissIndices} (hlined : Lined slots misses)
    (hmisses : misses ≠ []) (h : List (Event EmbedOp (EmbedOp.Res V))) :
    ∃ (failed : List Raised) (response : Except Raised (List (ℤ × V)))
      (x : Except Raised (List (Option V))) (sets : List (Event EmbedOp (EmbedOp.Res V))),
      failed.length ≤ 2 ∧
      run o h (client.fetchMisses model misses (fill slots fun _ => none)) =
        (x, h ++ failed.map (fun e => ⟨.create model (misses.map (·.1)), .error e⟩) ++
          ⟨.create model (misses.map (·.1)), response⟩ :: sets) ∧
      (∀ event ∈ sets, ∃ key value, event.1 = .set key value) ∧
      (∀ e, response = .error e → x = .error e ∧ sets = []) ∧
      ∀ data, response = .ok data → Filled slots misses data x := by
  obtain ⟨failed, response, hcreate, hfew⟩ :=
    run_createWithRetries model (misses.map (·.1)) o 2 h
  cases response with
  | error e =>
    refine ⟨failed, .error e, .error e, [], hfew, ?_, List.forall_mem_nil _, ?_, ?_⟩
    · rw [fetchMisses, if_neg hmisses, bind_eq, run_bind, hcreate]
    · rintro _ ⟨⟩
      exact ⟨rfl, rfl⟩
    · exact fun data h => by cases h
  | ok data =>
    obtain ⟨x, sets, hstore, hsets, hstored⟩ := run_storeVectors hcache hlined data
      (fun _ => none) (h ++ failed.map (fun e => ⟨.create model (misses.map (·.1)), .error e⟩) ++
        [⟨.create model (misses.map (·.1)), .ok data⟩])
    rw [List.append_assoc _ [_] sets] at hstore
    refine ⟨failed, .ok data, x, sets, hfew, ?_, hsets, (fun e h => by cases h), ?_⟩
    · rw [fetchMisses, if_neg hmisses, bind_eq, run_bind, hcreate]
      exact hstore
    · rintro _ ⟨⟩
      exact hstored

/-- A covering response gives every slot its vector. -/
theorem finish_of_covers {slots : List (String × Option V)} {misses : MissIndices}
    (hlined : Lined slots misses) {data : List (ℤ × V)} {x : Except Raised (List (Option V))}
    (hvec : ∀ slot ∈ slots, ∀ v, slot.2 = some v → v = vec slot.1)
    (hcovers : Covers vec (misses.map (·.1)) data) (hfilled : Filled slots misses data x) :
    (x.bind fun results => (run o [] (finish results)).1) =
      .ok (slots.map fun slot => vec slot.1) := by
  rcases hfilled with ⟨item, hitem, e, hnamed, rfl⟩ | ⟨given, rfl, hgiven⟩
  · obtain ⟨k, text, hindex, htext, -⟩ := hcovers.faithful item hitem
    rw [hindex, textAt_of_getElem? htext] at hnamed
    cases hnamed
  · have hslots := filled_of_covers hlined hvec hcovers fun text => (hgiven text).imp_left And.right
    show (run o [] (finish _)).1 = _
    rw [finish_of_covered given hslots]
    rfl

/-- A response that leaves a text out ends in an error. -/
theorem finish_of_left_out {slots : List (String × Option V)} {misses : MissIndices}
    (hlined : Lined slots misses) {data : List (ℤ × V)} {x : Except Raised (List (Option V))}
    (hfilled : Filled slots misses data x) {k : ℕ} (hk : k < (misses.map (·.1)).length)
    (hitems : ∀ item ∈ data, item.1 ≠ k ∧ item.1 ≠ k - (misses.map (·.1)).length) :
    ∃ e, (x.bind fun results => (run o [] (finish results)).1) = .error e := by
  rcases hfilled with ⟨-, -, e, -, rfl⟩ | ⟨given, rfl, hgiven⟩
  · exact ⟨e, rfl⟩
  · have htext : (misses.map (·.1))[k]? = some (misses.map (·.1))[k] := List.getElem?_eq_getElem hk
    have hslot := (hlined.mem_keys _).1 (List.getElem_mem hk)
    have hnone : given (misses.map (·.1))[k] = none := by
      rcases hgiven (misses.map (·.1))[k] with ⟨hkept, -⟩ | ⟨item, hitem, hnamed, -⟩
      · exact hkept
      · exact ((index_of_textAt hlined.nodup htext hnamed).elim (hitems item hitem).1
          (hitems item hitem).2).elim
    refine ⟨.exception "RuntimeError", ?_⟩
    show (run o [] (finish _)).1 = _
    rw [finish_of_uncovered hslot (by rw [hnone, Option.or_none])]
    rfl

/-- The slots of a lookup are those of its texts. -/
theorem map_vec_zip (vec : String → V) {found : List (Option V)}
    (hlength : texts.length = found.length) :
    ((texts.zip found).map fun slot => vec slot.1) = texts.map vec := by
  have hfirst : (texts.zip found).map Prod.fst = texts := List.map_fst_zip hlength.le
  calc ((texts.zip found).map fun slot => vec slot.1)
    _ = ((texts.zip found).map Prod.fst).map vec := by rw [List.map_map]; rfl
    _ = texts.map vec := by rw [hfirst]

/-- What a run asks and returns. Every text is read from the cache once, the different texts
that were not found are asked for in one request, repeated where it fails, and the vectors of a
response that covers them reach their texts. A response that leaves one out ends in an error. -/
theorem embeddings_line_up (client : OpenAIEmbeddingClient V) (vec : String → V)
    (texts : List String) (model : Option String) (o : EmbedOracle V)
    (hcache : client.CacheHolds vec texts (orElseText model client.defaultModel) o) :
    ∃ gets missing,
      gets.map (·.1) = texts.map (fun text =>
        .get (client.cacheKey text (orElseText model client.defaultModel))) ∧
      missing.Nodup ∧
      (∀ text, text ∈ missing ↔ (text, none) ∈ texts.zip (gets.map client.gotten)) ∧
      (missing = [] → run o [] (client.embedTexts texts model) = (.ok (texts.map vec), gets)) ∧
      (missing ≠ [] → ∃ (failed : List Raised) (response : Except Raised (List (ℤ × V)))
        (x : Except Raised (List V)) (sets : List (Event EmbedOp (EmbedOp.Res V))),
        failed.length ≤ 2 ∧
        run o [] (client.embedTexts texts model) =
          (x, gets ++ failed.map (fun e =>
              ⟨.create (orElseText model client.defaultModel) missing, .error e⟩) ++
            ⟨.create (orElseText model client.defaultModel) missing, response⟩ :: sets) ∧
        (∀ event ∈ sets, ∃ key value, event.1 = .set key value) ∧
        (∀ e, response = .error e → x = .error e ∧ sets = []) ∧
        ∀ data, response = .ok data →
          (Covers vec missing data → x = .ok (texts.map vec)) ∧
          ∀ k : ℕ, k < missing.length →
            (∀ item ∈ data, item.1 ≠ k ∧ item.1 ≠ k - missing.length) → ∃ e, x = .error e) := by
  rcases eq_or_ne texts [] with rfl | htexts
  · exact ⟨[], [], rfl, List.nodup_nil, by simp, fun _ => rfl, fun h => absurd rfl h⟩
  obtain ⟨gets, misses, hgets, hlookup, hlined, hvec⟩ := run_lookupTexts hcache [] (fun _ h => h)
    lined_nil (List.forall_mem_nil _)
  rw [List.nil_append] at hlookup hlined hvec
  rw [List.map_nil, List.nil_append] at hlookup
  have hlength : texts.length = (gets.map client.gotten).length := by
    have := congrArg List.length hgets
    simpa using this.symm
  have hvectors := map_vec_zip vec hlength
  generalize hslots : texts.zip (gets.map client.gotten) = slots at hlookup hlined hvec hvectors
  have hfound : slots.map (·.2) = fill slots fun _ => none := by
    rw [fill]
    exact List.map_congr_left fun slot _ => (Option.or_none).symm
  have hrun : run o [] (client.embedTexts texts model) = run o gets
      (client.fetchMisses (orElseText model client.defaultModel) misses
        (fill slots fun _ => none) >>= finish) := by
    rw [embedTexts_eq htexts, bind_eq, run_bind, hlookup, ← hfound]
  refine ⟨gets, misses.map (·.1), hgets, hlined.nodup, fun text => hslots ▸ hlined.mem_keys text,
    fun hnone => ?_, fun hsome => ?_⟩
  · have hcovered : ∀ slot ∈ slots, slot.2.or none = some (vec slot.1) := by
      rintro ⟨text, found⟩ hslot
      cases found with
      | some v => rw [hvec _ hslot v rfl, Option.some_or]
      | none =>
        have hmissing := (hlined.mem_keys text).2 hslot
        rw [hnone] at hmissing
        cases hmissing
    rw [hrun, fetchMisses, if_pos (List.map_eq_nil_iff.1 hnone), ← hvectors]
    show run o gets (finish _) = _
    rw [finish_of_covered (fun _ => none) hcovered]
    rfl
  · have hmisses : misses ≠ [] := fun h => hsome (List.map_eq_nil_iff.2 h)
    obtain ⟨failed, response, x, sets, hfew, hfetch, hsets, herror, hfilled⟩ :=
      run_fetchMisses hcache hlined hmisses gets
    refine ⟨failed, response, x.bind fun results => (run o [] (finish results)).1, sets, hfew, ?_,
      hsets, fun e he => ?_, fun data hdata => ⟨fun hcovers => ?_, fun k hk hitems => ?_⟩⟩
    · rw [hrun, bind_eq, run_bind, hfetch]
      cases x with
      | error e => rfl
      | ok results => exact run_finish results _
    · obtain ⟨rfl, rfl⟩ := herror e he
      exact ⟨rfl, rfl⟩
    · rw [finish_of_covers hlined hvec hcovers (hfilled data hdata), hvectors]
    · exact finish_of_left_out hlined (hfilled data hdata) hk hitems

/-- A client whose vector of a text is its length. -/
def lengthClient : OpenAIEmbeddingClient ℕ where
  defaultModel := "small"
  sha256 := id
  jsonDumps v := toString v
  jsonLoads raw := if raw = "6" then .ok (some 6) else .error (.exception "JSONDecodeError")

/-- The cache knows one text, and the API answers from the last text to the first. -/
def lengthDay : EmbedOracle ℕ
  | _, .get key => if key = "small:Rates?" then .ok (some "6") else .ok none
  | _, .set _ _ => .ok ()
  | _, .create _ texts => .ok (texts.zipIdx.map fun (text, i) => ((i : ℤ), text.length)).reverse

theorem cacheHolds_lengthDay : lengthClient.CacheHolds String.length
    ["Fees?", "Rates?", "Due?", "Fees?"] "small" lengthDay where
  get h text htext raw hread := by
    rw [lengthDay] at hread
    split at hread
    · obtain rfl := Option.some.inj (Except.ok.inj hread)
      revert text
      decide +kernel
    · exact nomatch hread
  getRaises h key e hread := by
    rw [lengthDay] at hread
    split at hread <;> exact nomatch hread
  setRaises _ _ _ _ h := nomatch h

/-- Four texts, one of them wanted twice and one known. -/
theorem embeddings_line_up_fees :
    (∃ (gets : List (Event EmbedOp (EmbedOp.Res ℕ))) (missing : List String),
      gets.map (·.1) =
        [.get "small:Fees?", .get "small:Rates?", .get "small:Due?", .get "small:Fees?"] ∧
      missing.Nodup) ∧
    (run lengthDay [] (lengthClient.embedTexts ["Fees?", "Rates?", "Due?", "Fees?"] none)).1 =
      .ok [5, 6, 4, 5] := by
  obtain ⟨gets, missing, hgets, hnodup, -⟩ := embeddings_line_up lengthClient String.length
    ["Fees?", "Rates?", "Due?", "Fees?"] none lengthDay cacheHolds_lengthDay
  exact ⟨⟨gets, missing, hgets, hnodup⟩, rfl⟩

end OpenAIEmbeddingClient

end EnterpriseRag

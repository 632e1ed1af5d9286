import EnterpriseRag.Library.Transition
import EnterpriseRag.RagOps.Repository
import Mathlib.Data.List.Nodup
import Mathlib.Logic.Function.Basic

/-!
# Replaying the audit log

The admin transactions run in sessions of their own, statement by statement : `update_config`
reads the row `FOR UPDATE`, checks the merged flags, updates and inserts its entry; the
others update and insert. The first statement on the row takes its lock, which the end of
the transaction releases. So every commit is the whole transaction on the row committed
before it (`commit_of_step`), and the entries of the log, applied one after another to the
initial values of the admin fields, give their current values (`replay_reproduces`).
-/

open Transition

namespace EnterpriseRag

/-! ## Replaying -/

/-- The fields an administrator changes, each with the column it reads. -/
def adminFields : List (String × (RagOpsConfig → FieldValue)) :=
  diffFields ++
    [("emergency_disabled", fun c => .bool c.emergencyDisabled),
      ("safety_lockdown_enabled", fun c => .bool c.safetyLockdownEnabled),
      ("corpus_version", fun c => .int c.corpusVersion)]

/-- Values of fields, by name. -/
abbrev FieldValues := String → Option FieldValue

/-- The admin fields of a row. -/
def RagOpsConfig.values (c : RagOpsConfig) : FieldValues := fun name =>
  (adminFields.find? (·.1 = name)).map (·.2 c)

/-- The values after a change. -/
def AuditChange.replay (v : FieldValues) : String × AuditChange → FieldValues
  | (name, .diff _ value) => Function.update v name (some value)
  | (name, .new value) => Function.update v name (some value)
  | (_, .note _) => v

def AuditEntry.replay (v : FieldValues) (entry : AuditEntry) : FieldValues :=
  entry.changes.foldl AuditChange.replay v

/-- The values after the entries of a log, the oldest first. -/
def replay (v : FieldValues) (log : List AuditEntry) : FieldValues :=
  log.foldl AuditEntry.replay v

/-- `v` holds the admin fields of a row, and nothing else. -/
def FieldValues.Of (v : FieldValues) (c : RagOpsConfig) : Prop :=
  (∀ f ∈ adminFields, v f.1 = some (f.2 c)) ∧ ∀ name ∉ adminFields.map Prod.fst, v name = none

theorem nodup_adminFields : (adminFields.map Prod.fst).Nodup := by
  decide

theorem values_of (c : RagOpsConfig) : FieldValues.Of c.values c := by
  refine ⟨fun f hf => ?_, fun name hname => ?_⟩
  · have hfind : adminFields.find? (·.1 = f.1) = some f := by
      obtain ⟨g, hg⟩ : ∃ g, adminFields.find? (·.1 = f.1) = some g := by
        refine Option.isSome_iff_exists.1 (List.find?_isSome.2 ⟨f, hf, by simp⟩)
      have hname : g.1 = f.1 := by simpa using List.find?_some hg
      rw [hg, List.inj_on_of_nodup_map nodup_adminFields (List.mem_of_find?_eq_some hg) hf hname]
    rw [RagOpsConfig.values, hfind, Option.map_some]
  · rw [RagOpsConfig.values, List.find?_eq_none.2, Option.map_none]
    rintro f hf hname'
    exact hname (List.mem_map.2 ⟨f, hf, by simpa using hname'⟩)

theorem FieldValues.Of.eq_values {v : FieldValues} {c : RagOpsConfig} (h : v.Of c) :
    v = c.values := by
  funext name
  by_cases hname : name ∈ adminFields.map Prod.fst
  · obtain ⟨f, hf, rfl⟩ := List.mem_map.1 hname
    rw [h.1 f hf, (values_of c).1 f hf]
  · rw [h.2 name hname, (values_of c).2 name hname]

theorem values_congr {old new : RagOpsConfig} (h : ∀ f ∈ adminFields, f.2 old = f.2 new) :
    old.values = new.values :=
  FieldValues.Of.eq_values
    ⟨fun f hf => ((values_of old).1 f hf).trans (congrArg some (h f hf)), (values_of old).2⟩

/-- The changes of a list of fields. -/
def changesOf (fields : List (String × (RagOpsConfig → FieldValue))) (old new : RagOpsConfig) :
    List (String × AuditChange) :=
  fields.filterMap fun f =>
    if f.2 old = f.2 new then none else some (f.1, .diff (f.2 old) (f.2 new))

/-- Changes set the fields that changed, and nothing else. -/
theorem foldl_changesOf (old new : RagOpsConfig) :
    ∀ {fields : List (String × (RagOpsConfig → FieldValue))}, (fields.map Prod.fst).Nodup →
      ∀ v : FieldValues,
        (∀ f ∈ fields, (changesOf fields old new).foldl AuditChange.replay v f.1 =
          if f.2 old = f.2 new then v f.1 else some (f.2 new)) ∧
        ∀ name ∉ fields.map Prod.fst,
          (changesOf fields old new).foldl AuditChange.replay v name = v name
  | [], _, _ => ⟨(fun _ h => nomatch h), fun _ _ => rfl⟩
  | f :: fields, hnodup, v => by
    obtain ⟨hfresh, hnodup⟩ := List.nodup_cons.1 hnodup
    -- `w` is `v` after the first field
    obtain ⟨w, hw, hothers, hfold⟩ : ∃ w : FieldValues,
        w f.1 = (if f.2 old = f.2 new then v f.1 else some (f.2 new)) ∧
        (∀ name ≠ f.1, w name = v name) ∧
        (changesOf (f :: fields) old new).foldl AuditChange.replay v =
          (changesOf fields old new).foldl AuditChange.replay w := by
      by_cases hsame : f.2 old = f.2 new
      · exact ⟨v, (if_pos hsame).symm, fun _ _ => rfl, by simp [changesOf, hsame]⟩
      · refine ⟨Function.update v f.1 (some (f.2 new)), ?_, fun name hname => ?_, ?_⟩
        · rw [if_neg hsame, Function.update_self]
        · exact Function.update_of_ne hname _ _
        · simp [changesOf, hsame, AuditChange.replay]
    obtain ⟨hchanged, hrest⟩ := foldl_changesOf old new hnodup w
    rw [hfold]
    refine ⟨fun g hg => ?_, fun name hname => ?_⟩
    · rcases List.mem_cons.1 hg with rfl | hg
      · rw [hrest _ hfresh, hw]
      · have hne : g.1 ≠ f.1 := fun h => hfresh (h ▸ List.mem_map_of_mem hg)
        rw [hchanged g hg, hothers _ hne]
    · rw [List.map_cons, List.mem_cons, not_or] at hname
      rw [hrest name hname.2, hothers name hname.1]

/-- Replaying the diff of two rows that agree on the fields it leaves out. -/
theorem replay_diff {old : RagOpsConfig} (new : RagOpsConfig) {v : FieldValues} (hv : v.Of old)
    (hkept : ∀ f ∈ adminFields, f.1 ∉ diffFields.map Prod.fst → f.2 old = f.2 new) :
    FieldValues.Of ((diff old new).foldl AuditChange.replay v) new := by
  have hdiffed : (diffFields.map Prod.fst).Nodup := by decide
  obtain ⟨hchanged, hrest⟩ := foldl_changesOf old new hdiffed v
  refine ⟨fun f hf => ?_, fun name hname => ?_⟩
  · by_cases hmem : f.1 ∈ diffFields.map Prod.fst
    · obtain ⟨g, hg, hname⟩ := List.mem_map.1 hmem
      obtain rfl : g = f :=
        List.inj_on_of_nodup_map nodup_adminFields (List.mem_append_left _ hg) hf hname
      refine (hchanged g hg).trans ?_
      split
      · rename_i hsame
        rw [hv.1 g hf, hsame]
      · rfl
    · exact (hrest _ hmem).trans ((hv.1 f hf).trans (congrArg some (hkept f hf hmem)))
  · refine (hrest name fun hmem => hname ?_).trans (hv.2 name hname)
    rw [adminFields, List.map_append]
    exact List.mem_append_left _ hmem

/-- Replaying the new value of one field, of rows that agree on the others. -/
theorem replay_new {old : RagOpsConfig} (new : RagOpsConfig) {v : FieldValues}
    {f : String × (RagOpsConfig → FieldValue)} (hv : v.Of old) (hf : f ∈ adminFields)
    (hkept : ∀ g ∈ adminFields, g.1 ≠ f.1 → g.2 old = g.2 new) :
    FieldValues.Of (AuditChange.replay v (f.1, .new (f.2 new))) new := by
  refine ⟨fun g hg => ?_, fun name hname => ?_⟩
  · by_cases hsame : g.1 = f.1
    · obtain rfl := List.inj_on_of_nodup_map nodup_adminFields hg hf hsame
      exact Function.update_self _ _ _
    · exact (Function.update_of_ne hsame _ _).trans
        ((hv.1 g hg).trans (congrArg some (hkept g hg hsame)))
  · have hne : name ≠ f.1 := fun h => hname (h ▸ List.mem_map_of_mem hf)
    exact (Function.update_of_ne hne _ _).trans (hv.2 name hname)

/-! ## Transactions -/

/-- One of the five transactions. -/
inductive RowTransaction
  | write (write : RowWrite)
  | recordCacheInvalidation
  deriving DecidableEq, Repr

/-- The whole transaction, started at `now`. -/
def RowTransaction.commit (now : Timestamp) (s : RagOpsStore) :
    RowTransaction → Except RepositoryError RagOpsStore
  | .write w => w.commit now s
  | .recordCacheInvalidation => .ok (EnterpriseRag.recordCacheInvalidation now s)

/-- The transaction as its statements : the row after its UPDATE, and the entries that it
then inserts. -/
def RowTransaction.statements (now : Timestamp) (row : RagOpsRow) (tx : RowTransaction) :
    Except RepositoryError (RagOpsRow × List AuditEntry) :=
  (tx.commit now ⟨row, []⟩).map fun s => (s.row, s.auditLog)

/-- The statements of `update_config` after its SELECT : the merged flags are those of the
row it selected, and the diff is from there. -/
def updateSelected (actor : String) (reason : Option String) (p : ConfigUpdate) (now : Timestamp)
    (old row : RagOpsRow) : Except RepositoryError (RagOpsRow × List AuditEntry) :=
  match checkDependentFlags (old.1.coalesce p actor now) with
  | .error e => .error e
  | .ok () =>
    let new := row.1.coalesce p actor now
    if h : new.Stored then
      let changes := diff old.1 new
      .ok (⟨new, h⟩,
        if changes = [] then [] else [⟨actor, "config_update", changes, reason, now⟩])
    else .error .checkViolation

/-- On the row that was selected, the statements are those of the transaction. -/
theorem updateSelected_self {actor : String} {reason : Option String} {p : ConfigUpdate}
    {now : Timestamp} {row : RagOpsRow} :
    updateSelected actor reason p now row row =
      (RowTransaction.write (.updateConfig actor reason p)).statements now row := by
  simp only [updateSelected, RowTransaction.statements, RowTransaction.commit, RowWrite.commit,
    updateConfig, List.nil_append]
  cases checkDependentFlags (row.1.coalesce p actor now) with
  | error e => rfl
  | ok u =>
    dsimp only
    split <;> rfl

/-- A transaction only adds to the log. -/
theorem RowTransaction.commit_eq (now : Timestamp) (s : RagOpsStore) (tx : RowTransaction) :
    tx.commit now s = (tx.statements now s.row).map fun after =>
      ⟨after.1, s.auditLog ++ after.2⟩ := by
  cases tx with
  | recordCacheInvalidation =>
    simp [statements, commit, EnterpriseRag.recordCacheInvalidation, Except.map]
  | write w =>
    cases w with
    | updateConfig actor reason p =>
      simp only [statements, commit, RowWrite.commit, updateConfig, List.nil_append]
      cases checkDependentFlags (s.row.1.coalesce p actor now) with
      | error e => rfl
      | ok u =>
        dsimp only
        split
        · simp only [Except.map]
          split <;> simp
        · rfl
    | setEmergencyDisabled actor disabled reason => rfl
    | setSafetyLockdown actor enabled reason => rfl
    | bumpCorpusVersion actor source =>
      simp only [statements, commit, RowWrite.commit, bumpCorpusVersion, List.nil_append]
      split <;> rfl

/-- The entries of a transaction, replayed over the row before it, give the row after it. -/
theorem RowTransaction.replay_statements {now : Timestamp} {row row' : RagOpsRow}
    {entries : List AuditEntry} {tx : RowTransaction}
    (h : tx.statements now row = .ok (row', entries)) :
    replay row.1.values entries = row'.1.values := by
  cases tx with
  | recordCacheInvalidation =>
    obtain ⟨rfl, rfl⟩ := Prod.mk.inj (Except.ok.inj h)
    exact values_congr (by simp [adminFields, diffFields, EnterpriseRag.recordCacheInvalidation])
  | write w =>
    cases w with
    | updateConfig actor reason p =>
      rw [← updateSelected_self, updateSelected] at h
      split at h
      · cases h
      dsimp only at h
      split at h
      · obtain ⟨rfl, rfl⟩ := Prod.mk.inj (Except.ok.inj h)
        refine FieldValues.Of.eq_values ?_
        have hdiff := replay_diff (row.1.coalesce p actor now) (values_of row.1) ?_
        · split
          · rename_i hnone
            rwa [hnone] at hdiff
          · exact hdiff
        · simp [adminFields, diffFields, RagOpsConfig.coalesce]
      · cases h
    | setEmergencyDisabled actor disabled reason =>
      obtain ⟨rfl, rfl⟩ := Prod.mk.inj (Except.ok.inj h)
      refine (replay_new (EnterpriseRag.setEmergencyDisabled actor disabled reason now ⟨row, []⟩).row.1
        (f := ("emergency_disabled", fun c => .bool c.emergencyDisabled))
        (values_of row.1) ?_ ?_).eq_values
      · simp [adminFields]
      · simp [adminFields, diffFields, EnterpriseRag.setEmergencyDisabled]
    | setSafetyLockdown actor enabled reason =>
      obtain ⟨rfl, rfl⟩ := Prod.mk.inj (Except.ok.inj h)
      refine (replay_new (EnterpriseRag.setSafetyLockdown actor enabled reason now ⟨row, []⟩).row.1
        (f := ("safety_lockdown_enabled", fun c => .bool c.safetyLockdownEnabled))
        (values_of row.1) ?_ ?_).eq_values
      · simp [adminFields]
      · simp [adminFields, diffFields, EnterpriseRag.setSafetyLockdown]
    | bumpCorpusVersion actor source =>
      simp only [statements, commit, RowWrite.commit, bumpCorpusVersion, List.nil_append] at h
      split at h
      · cases h
      obtain ⟨rfl, rfl⟩ := Prod.mk.inj (Except.ok.inj h)
      refine (replay_new { row.1 with
        corpusVersion := row.1.corpusVersion + 1, updatedAt := now, updatedBy := some actor }
        (f := ("corpus_version", fun c => .int c.corpusVersion))
        (values_of row.1) ?_ ?_).eq_values
      · simp [adminFields]
      · simp [adminFields, diffFields]

/-- `update_config` inserts an entry exactly when a diffed field changed. -/
theorem RowTransaction.entries_updateConfig {actor : String} {reason : Option String}
    {p : ConfigUpdate} {now : Timestamp} {row row' : RagOpsRow} {entries : List AuditEntry}
    (h : (RowTransaction.write (.updateConfig actor reason p)).statements now row =
      .ok (row', entries)) :
    entries ≠ [] ↔ ∃ f ∈ diffFields, f.2 row'.1 ≠ f.2 row.1 := by
  have hdiff : ∀ new : RagOpsConfig,
      diff row.1 new = [] ↔ ∀ f ∈ diffFields, f.2 new = f.2 row.1 := by
    intro new
    simp only [diff, List.filterMap_eq_nil_iff, ite_eq_left_iff, reduceCtorEq, imp_false,
      not_not]
    exact forall₂_congr fun f _ => eq_comm
  rw [← updateSelected_self, updateSelected] at h
  split at h
  · exact nomatch h
  dsimp only at h
  split at h
  · obtain ⟨rfl, rfl⟩ := Prod.mk.inj (Except.ok.inj h)
    split
    · rename_i hnone
      simpa using (hdiff _).1 hnone
    · rename_i hsome
      simpa using mt (hdiff _).2 hsome
  · exact nomatch h

/-- CRAG's and self-reflection's dependent flags need their stage. -/
def RagOpsConfig.DependencyRules (c : RagOpsConfig) : Prop :=
  (c.cragWebEnabled ∨ c.cragShadowEnabled → c.cragEnabled) ∧
    (c.selfReflectiveShadowEnabled ∨ c.selfReflectiveRetrievalEnabled → c.selfReflectiveEnabled)

theorem RagOpsConfig.Stored.dependencyRules {c : RagOpsConfig} (h : c.Stored) :
    c.DependencyRules :=
  ⟨fun hflag => hflag.elim h.cragWeb h.cragShadow,
    fun hflag => hflag.elim h.selfReflectiveShadow h.selfReflectiveRetrieval⟩

/-! ## Sessions -/

/-- Where a session is in its transaction : it has no row lock yet, or it has selected the
row, updated it, or inserted its entries, none of which the others see. -/
inductive Session
  | idle
  | began (tx : RowTransaction) (now : Timestamp)
  | selected (actor : String) (reason : Option String) (payload : ConfigUpdate) (now : Timestamp)
      (old : RagOpsRow)
  | updated (tx : RowTransaction) (now : Timestamp) (row : RagOpsRow) (entries : List AuditEntry)
  | audited (tx : RowTransaction) (now : Timestamp) (after : RagOpsStore)

/-- The committed row and log, the session that has the row lock, and the sessions. -/
structure ConfigDatabase where
  store : RagOpsStore
  lock : Option ℕ
  sessions : ℕ → Session

namespace ConfigDatabase

inductive Statement
  | start (i : ℕ) (tx : RowTransaction) (now : Timestamp)
  | select (i : ℕ)
  | update (i : ℕ)
  | insert (i : ℕ)
  | commit (i : ℕ)
  | rollback (i : ℕ)
  deriving DecidableEq, Repr

/-- No transaction has started. -/
def initial (store : RagOpsStore) : ConfigDatabase :=
  ⟨store, none, fun _ => .idle⟩

def put (s : ConfigDatabase) (i : ℕ) (session : Session) : ConfigDatabase :=
  { s with sessions := Function.update s.sessions i session }

/-- The end of a session's transaction, and of its lock. -/
def release (s : ConfigDatabase) (i : ℕ) : ConfigDatabase :=
  { s.put i .idle with lock := if s.lock = some i then none else s.lock }

/-- One statement of one session. A statement that raises ends its transaction. -/
def step (s : ConfigDatabase) : Statement → Option ConfigDatabase
  | .start i tx now =>
    match s.sessions i with
    | .idle => some (s.put i (.began tx now))
    | _ => none
  | .select i =>
    match s.sessions i with
    | .began (.write (.updateConfig actor reason p)) now =>
      if s.lock = none then
        some { s.put i (.selected actor reason p now s.store.row) with lock := some i }
      else none
    | _ => none
  | .update i =>
    match s.sessions i with
    | .selected actor reason p now old =>
      match updateSelected actor reason p now old s.store.row with
      | .error _ => some (s.release i)
      | .ok (row, entries) =>
        some (s.put i (.updated (.write (.updateConfig actor reason p)) now row entries))
    | .began (.write (.updateConfig _ _ _)) _ => none
    | .began tx now =>
      if s.lock = none then
        match tx.statements now s.store.row with
        | .error _ => some (s.release i)
        | .ok (row, entries) => some { s.put i (.updated tx now row entries) with lock := some i }
      else none
    | _ => none
  | .insert i =>
    match s.sessions i with
    | .updated tx now row entries =>
      some (s.put i (.audited tx now ⟨row, s.store.auditLog ++ entries⟩))
    | _ => none
  | .commit i =>
    match s.sessions i with
    | .audited _ _ after => some { s.release i with store := after }
    | _ => none
  | .rollback i =>
    match s.sessions i with
    | .idle => none
    | _ => some (s.release i)

/-- What a session with the lock has done is its transaction on the committed row. -/
def SessionInv (s : ConfigDatabase) (i : ℕ) : Session → Prop
  | .idle | .began _ _ => True
  | .selected _ _ _ _ old => s.lock = some i ∧ old = s.store.row
  | .updated tx now row entries =>
    s.lock = some i ∧ tx.statements now s.store.row = .ok (row, entries)
  | .audited tx now after => s.lock = some i ∧ tx.commit now s.store = .ok after

def Inv (s : ConfigDatabase) : Prop :=
  ∀ i, s.SessionInv i (s.sessions i)

variable {s s' : ConfigDatabase}

/-- A session without the lock is not concerned by the row. -/
theorem SessionInv.transfer {i : ℕ} {session : Session} (h : s.SessionInv i session)
    (hlock : s.lock = some i → s'.lock = some i ∧ s'.store = s.store) :
    s'.SessionInv i session := by
  cases session with
  | idle => trivial
  | began tx now => trivial
  | selected actor reason p now old =>
    obtain ⟨hlock', hstore⟩ := hlock h.1
    exact ⟨hlock', hstore ▸ h.2⟩
  | updated tx now row entries =>
    obtain ⟨hlock', hstore⟩ := hlock h.1
    exact ⟨hlock', hstore ▸ h.2⟩
  | audited tx now after =>
    obtain ⟨hlock', hstore⟩ := hlock h.1
    exact ⟨hlock', hstore ▸ h.2⟩

/-- A step of session `i` : its own invariant, and the lock and the row of the others. -/
theorem inv_of_session {i : ℕ} (h : s.Inv)
    (hother : ∀ j ≠ i, s'.sessions j = s.sessions j)
    (hself : s'.SessionInv i (s'.sessions i))
    (hlock : ∀ j ≠ i, s.lock = some j → s'.lock = some j ∧ s'.store = s.store) : s'.Inv := by
  intro j
  by_cases hj : j = i
  · exact hj ▸ hself
  · rw [hother j hj]
    exact (h j).transfer (hlock j hj)

theorem inv_release {i : ℕ} (h : s.Inv) : (s.release i).Inv := by
  refine inv_of_session (i := i) h (fun j hj => Function.update_of_ne hj _ _) ?_ ?_
  · rw [show (s.release i).sessions i = .idle from Function.update_self _ _ _]
    trivial
  · intro j hj hlock
    refine ⟨?_, rfl⟩
    rw [release, hlock, if_neg (fun h => hj (Option.some.inj h))]

theorem inv_put {i : ℕ} {session : Session} (h : s.Inv) (hself : s.SessionInv i session) :
    (s.put i session).Inv := by
  refine inv_of_session (i := i) h (fun j hj => Function.update_of_ne hj _ _) ?_ ?_
  · rw [show (s.put i session).sessions i = session from Function.update_self _ _ _]
    exact hself.transfer fun hlock => ⟨hlock, rfl⟩
  · exact fun j _ hlock => ⟨hlock, rfl⟩

/-- Taking the free lock. -/
theorem inv_lock {i : ℕ} {session : Session} (h : s.Inv) (hfree : s.lock = none)
    (hself : ({ s with lock := some i } : ConfigDatabase).SessionInv i session) :
    ({ s.put i session with lock := some i } : ConfigDatabase).Inv := by
  refine inv_of_session (i := i) h (fun j hj => Function.update_of_ne hj _ _) ?_ ?_
  · rw [show (s.put i session).sessions i = session from Function.update_self _ _ _]
    exact hself.transfer fun hlock => ⟨hlock, rfl⟩
  · intro j _ hlock
    rw [hfree] at hlock
    exact nomatch hlock

/-- The invariant of a step, and what a step does to the committed row and log : a commit is
the whole transaction of its session, and nothing else changes them. -/
theorem inv_step {e : Statement} (h : s.Inv) (hstep : s.step e = some s') :
    s'.Inv ∧ (s'.store = s.store ∨ ∃ i tx now, e = .commit i ∧
      s.sessions i = .audited tx now s'.store ∧ tx.commit now s.store = .ok s'.store) := by
  cases e with
  | start i tx now =>
    simp only [step] at hstep
    split at hstep
    · obtain rfl := Option.some.inj hstep
      exact ⟨inv_put h trivial, Or.inl rfl⟩
    · exact nomatch hstep
  | select i =>
    simp only [step] at hstep
    split at hstep
    · split at hstep
      · rename_i hfree
        obtain rfl := Option.some.inj hstep
        exact ⟨inv_lock h hfree ⟨rfl, rfl⟩, Or.inl rfl⟩
      · exact nomatch hstep
    · exact nomatch hstep
  | update i =>
    simp only [step] at hstep
    split at hstep
    · rename_i actor reason p now old hsession
      have hself := h i
      rw [hsession] at hself
      obtain ⟨hlock, rfl⟩ := hself
      split at hstep
      · obtain rfl := Option.some.inj hstep
        exact ⟨inv_release h, Or.inl rfl⟩
      · rename_i row entries hupdated
        obtain rfl := Option.some.inj hstep
        rw [updateSelected_self] at hupdated
        exact ⟨inv_put h ⟨hlock, hupdated⟩, Or.inl rfl⟩
    · exact nomatch hstep
    · split at hstep
      · rename_i hfree
        split at hstep
        · obtain rfl := Option.some.inj hstep
          exact ⟨inv_release h, Or.inl rfl⟩
        · rename_i row entries hupdated
          obtain rfl := Option.some.inj hstep
          exact ⟨inv_lock h hfree ⟨rfl, hupdated⟩, Or.inl rfl⟩
      · exact nomatch hstep
    · exact nomatch hstep
  | insert i =>
    simp only [step] at hstep
    split at hstep
    · rename_i tx now row entries hsession
      have hself := h i
      rw [hsession] at hself
      obtain rfl := Option.some.inj hstep
      refine ⟨inv_put h ⟨hself.1, ?_⟩, Or.inl rfl⟩
      rw [RowTransaction.commit_eq, hself.2]
      rfl
    · exact nomatch hstep
  | commit i =>
    simp only [step] at hstep
    split at hstep
    · rename_i tx now after hsession
      have hself := h i
      rw [hsession] at hself
      obtain rfl := Option.some.inj hstep
      refine ⟨?_, Or.inr ⟨i, tx, now, rfl, hsession, hself.2⟩⟩
      refine inv_of_session (i := i) h (fun j hj => Function.update_of_ne hj _ _) ?_ ?_
      · rw [show (s.release i).sessions i = .idle from Function.update_self _ _ _]
        trivial
      · intro j hj hlock
        exact absurd (Option.some.inj (hlock.symm.trans hself.1)) hj
    · exact nomatch hstep
  | rollback i =>
    simp only [step] at hstep
    split at hstep
    · exact nomatch hstep
    · obtain rfl := Option.some.inj hstep
      exact ⟨inv_release h, Or.inl rfl⟩

/-- The entries since `start`, replayed over its row, give the row. -/
def Replays (start : RagOpsStore) (s : ConfigDatabase) : Prop :=
  ∃ entries, s.store.auditLog = start.auditLog ++ entries ∧
    replay start.row.1.values entries = s.store.row.1.values

theorem replays_step {start : RagOpsStore} {e : Statement} (h : s.Inv) (hreplays : Replays start s)
    (hstep : s.step e = some s') : Replays start s' := by
  obtain ⟨entries, hlog, hrow⟩ := hreplays
  rcases (inv_step h hstep).2 with hstore | ⟨i, tx, now, -, -, hcommit⟩
  · rw [Replays, hstore]
    exact ⟨entries, hlog, hrow⟩
  rw [RowTransaction.commit_eq] at hcommit
  obtain ⟨after, hstatements, hafter⟩ : ∃ after, tx.statements now s.store.row = .ok after ∧
      (⟨after.1, s.store.auditLog ++ after.2⟩ : RagOpsStore) = s'.store := by
    cases hst : tx.statements now s.store.row with
    | error e =>
      rw [hst] at hcommit
      exact nomatch hcommit
    | ok after =>
      rw [hst] at hcommit
      exact ⟨after, rfl, Except.ok.inj hcommit⟩
  refine ⟨entries ++ after.2, ?_, ?_⟩
  · rw [← hafter, hlog, List.append_assoc]
  · rw [replay, List.foldl_append]
    show replay (replay _ entries) after.2 = _
    rw [hrow, ← hafter]
    exact RowTransaction.replay_statements hstatements

/-- An update that switches reranking on, with an emergency stop waiting for its lock. -/
def overlappedUpdates : List Statement :=
  [.start 0 (.write (.updateConfig "admin" none { rerankingEnabled := some true })) 1,
    .start 1 (.write (.setEmergencyDisabled "admin" true (some "incident"))) 2,
    .select 0, .update 0, .insert 0, .commit 0, .update 1, .insert 1, .commit 1]

end ConfigDatabase

end EnterpriseRag

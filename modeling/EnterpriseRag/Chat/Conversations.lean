import EnterpriseRag.Chat.Confinement
import EnterpriseRag.Library.Table
import EnterpriseRag.Library.Threads
import Mathlib.Order.Basic

/-!
# Conversations and their history

The two tables behind the chat, under the requests of many users. Every statement of a
repository is a transaction of its own, so between the calls of one request there may be calls
of any other, and a call that raises may have been committed all the same.

What a request knows of the tables is which conversations are its user's (`Knows`), and a
conversation stays its user's. From there every saved turn is in a conversation of its own user
(`owned`), the messages of a conversation are its owner's and the oldest of them, whenever they
are read (`own_messages`), and the requests of other users change nothing that a user can list
(`undisturbed`).
-/

namespace EnterpriseRag

open Program

/-! ## The tables -/

/-- A row of `conversations`. -/
structure ConversationRow where
  id : ℤ
  username : String
  title : String
  createdAt : ℚ
  updatedAt : ℚ
  deriving DecidableEq, Repr

/-- A row of `chat_history`. -/
structure HistoryRow where
  id : ℤ
  username : String
  conversationId : ℤ
  question : String
  answer : String
  sources : List String
  confidence : ℚ
  createdAt : ℚ
  deriving DecidableEq, Repr

structure ChatStore where
  conversations : Table ConversationRow.id
  history : Table HistoryRow.id

namespace ChatStore

variable (s : ChatStore)

/-- `PostgresConversationRepository.create`, with the next id and the time. -/
def createConversation (username title : String) (id : ℤ) (now : ℚ) : Option ChatStore :=
  (s.conversations.insert ⟨id, username, title, now, now⟩).map fun conversations =>
    { s with conversations }

/-- `get_owned`. -/
def getOwned (conversationId : ℤ) (username : String) : Option ConversationRow :=
  s.conversations.rows.find? fun row => row.id = conversationId ∧ row.username = username

/-- `touch`. -/
def touch (conversationId : ℤ) (now : ℚ) : ChatStore :=
  { s with
    conversations := s.conversations.updateWhere (·.id = conversationId)
      (fun row => { row with updatedAt := now }) fun _ => rfl }

/-- `PostgresChatHistoryRepository.create`. The conversation is a foreign key. -/
def createHistory (row : HistoryRow) : Option ChatStore :=
  if row.conversationId ∈ s.conversations.rows.map ConversationRow.id then
    (s.history.insert row).map fun history => { s with history }
  else none

/-- `ORDER BY … LIMIT … OFFSET …`. Rows the order does not tell apart come in any order. -/
def Selects {ρ : Type} (before : ρ → ρ → Prop) (rows : List ρ) (limit offset : ℕ)
    (result : List ρ) : Prop :=
  ∃ sorted : List ρ,
    sorted.Perm rows ∧ sorted.Pairwise before ∧ result = (sorted.drop offset).take limit

/-- `PostgresConversationRepository.list_by_user`, with `ILIKE` of a title and a search. -/
def ListConversations (ilike : String → String → Bool) (username : String)
    (search : Option String) (limit offset : ℕ) (result : List ConversationRow) : Prop :=
  Selects (fun a b => b.updatedAt ≤ a.updatedAt)
    (s.conversations.rows.filter fun row => row.username = username &&
      search.all fun search => search.isEmpty || ilike row.title ("%" ++ search ++ "%"))
    limit offset result

/-- `PostgresChatHistoryRepository.list_by_user`. -/
def ListByUser (username : String) (limit offset : ℕ) (result : List HistoryRow) : Prop :=
  Selects (fun a b => b.createdAt ≤ a.createdAt) (s.history.rows.filter (·.username = username))
    limit offset result

/-- `list_by_conversation`. -/
def ListByConversation (conversationId : ℤ) (limit : ℕ) (result : List HistoryRow) : Prop :=
  Selects (fun a b => a.createdAt ≤ b.createdAt)
    (s.history.rows.filter (·.conversationId = conversationId)) limit 0 result

/-- What a transaction may answer and leave. One that raises may have been committed. -/
def Commits {β : Type} (committed : β → ChatStore → Prop) (r : Except Raised β)
    (s' : ChatStore) : Prop :=
  (∃ b, committed b s' ∧ ∀ b', r = .ok b' → b' = b) ∨ (s' = s ∧ ∀ b, r ≠ .ok b)

/-- What a call of a request may answer and leave. -/
def Handles : (op : ChatOp) → ChatOp.Res op → ChatStore → Prop
  | .getOwned conversationId username, r, s' =>
    s' = s ∧ ∀ found, r = .ok found → found = (s.getOwned conversationId username).map (·.id)
  | .createConversation username title, r, s' =>
    s.Commits (fun id s' => ∃ now, s.createConversation username title id now = some s') r s'
  | .createHistory username conversationId question answer sources confidence, r, s' =>
    s.Commits (fun _ s' => ∃ id now, s.createHistory
      ⟨id, username, conversationId, question, answer, sources, confidence, now⟩ = some s') r s'
  | .touch conversationId, r, s' =>
    s.Commits (fun _ s' => ∃ now, s.touch conversationId now = s') r s'
  | _, _, s' => s' = s

/-! ## Whose conversations -/

/-- A conversation is there, and the user's. -/
def Owns (username : String) (conversationId : ℤ) : Prop :=
  ∃ row ∈ s.conversations.rows, row.id = conversationId ∧ row.username = username

/-- Every turn is in a conversation of its own user. -/
structure Owned : Prop where
  history : ∀ row ∈ s.history.rows, s.Owns row.username row.conversationId
  titles : ∀ row ∈ s.conversations.rows, row.title.length ≤ 61

variable {s} {s' : ChatStore} {username title : String} {conversationId id : ℤ} {now : ℚ}

theorem owns_of_getOwned {row : ConversationRow}
    (h : s.getOwned conversationId username = some row) :
    s.Owns username conversationId ∧ row.id = conversationId := by
  have hrow := List.find?_some h
  rw [decide_eq_true_eq] at hrow
  exact ⟨⟨row, List.mem_of_find?_eq_some h, hrow⟩, hrow.1⟩

/-- A conversation has one owner. -/
theorem Owns.unique {username' : String} (h : s.Owns username conversationId)
    (h' : s.Owns username' conversationId) : username = username' := by
  obtain ⟨row, hrow, hid, rfl⟩ := h
  obtain ⟨row', hrow', hid', rfl⟩ := h'
  rw [List.inj_on_of_nodup_map s.conversations.nodup hrow hrow' (hid.trans hid'.symm)]

theorem mem_of_createConversation (h : s.createConversation username title id now = some s') :
    s'.history = s.history ∧ ∀ row, row ∈ s'.conversations.rows ↔
      row ∈ s.conversations.rows ∨ row = ⟨id, username, title, now, now⟩ := by
  obtain ⟨conversations, hinsert, rfl⟩ := Option.map_eq_some_iff.1 h
  exact ⟨rfl, fun row => Table.mem_insert hinsert⟩

theorem mem_of_createHistory {row : HistoryRow} (h : s.createHistory row = some s') :
    s'.conversations = s.conversations ∧
      ∀ row', row' ∈ s'.history.rows ↔ row' ∈ s.history.rows ∨ row' = row := by
  unfold createHistory at h
  split at h
  · obtain ⟨history, hinsert, rfl⟩ := Option.map_eq_some_iff.1 h
    exact ⟨rfl, fun row' => Table.mem_insert hinsert⟩
  · cases h

theorem owns_touch_iff : (s.touch conversationId now).Owns username id ↔ s.Owns username id := by
  constructor
  · rintro ⟨row', hrow', hid, husername⟩
    obtain ⟨row, hrow, rfl⟩ := List.mem_map.1 hrow'
    refine ⟨row, hrow, ?_, ?_⟩
    · rw [← hid]
      split <;> rfl
    · rw [← husername]
      split <;> rfl
  · rintro ⟨row, hrow, hid, husername⟩
    refine ⟨if row.id = conversationId then { row with updatedAt := now } else row,
      List.mem_map.2 ⟨row, hrow, by simp⟩, ?_, ?_⟩
    · rw [← hid]
      split <;> rfl
    · rw [← husername]
      split <;> rfl

theorem Owned.createConversation (hs : s.Owned) (htitle : title.length ≤ 61)
    (h : s.createConversation username title id now = some s') : s'.Owned := by
  obtain ⟨hhistory, hconversations⟩ := mem_of_createConversation h
  refine ⟨fun row hrow => ?_, fun row hrow => ?_⟩
  · rw [hhistory] at hrow
    obtain ⟨conversation, hmem, hconversation⟩ := hs.history row hrow
    exact ⟨conversation, (hconversations _).2 (Or.inl hmem), hconversation⟩
  · rcases (hconversations row).1 hrow with hrow | rfl
    · exact hs.titles row hrow
    · exact htitle

theorem Owned.createHistory {row : HistoryRow} (hs : s.Owned)
    (howns : s.Owns row.username row.conversationId) (h : s.createHistory row = some s') :
    s'.Owned := by
  obtain ⟨hconversations, hhistory⟩ := mem_of_createHistory h
  refine ⟨fun row' hrow' => ?_, fun row' hrow' => hs.titles row' (hconversations ▸ hrow')⟩
  rw [Owns, hconversations]
  rcases (hhistory row').1 hrow' with hrow' | rfl
  · exact hs.history row' hrow'
  · exact howns

theorem Owned.touch (hs : s.Owned) : (s.touch conversationId now).Owned := by
  refine ⟨fun row hrow => owns_touch_iff.2 (hs.history row hrow), fun row hrow => ?_⟩
  obtain ⟨row', hrow', rfl⟩ := List.mem_map.1 hrow
  have htitle := hs.titles row' hrow'
  split <;> exact htitle

/-- No call takes a conversation from its user. -/
theorem Owns.handles {op : ChatOp} {r : op.Res} (h : s.Owns username conversationId)
    (hop : s.Handles op r s') : s'.Owns username conversationId := by
  cases op with
  | createConversation username' title =>
    rcases hop with ⟨id, ⟨now, hcreate⟩, -⟩ | ⟨rfl, -⟩
    · obtain ⟨row, hrow, hrow'⟩ := h
      exact ⟨row, ((mem_of_createConversation hcreate).2 row).2 (Or.inl hrow), hrow'⟩
    · exact h
  | createHistory username' conversationId' question answer sources confidence =>
    rcases hop with ⟨-, ⟨id, now, hcreate⟩, -⟩ | ⟨rfl, -⟩
    · rw [Owns, (mem_of_createHistory hcreate).1]
      exact h
    · exact h
  | touch conversationId' =>
    rcases hop with ⟨-, ⟨now, rfl⟩, -⟩ | ⟨rfl, -⟩
    · exact owns_touch_iff.2 h
    · exact h
  | getOwned conversationId' username' => exact hop.1 ▸ h
  | _ => exact (show s' = s from hop) ▸ h

/-! ## What a call leaves -/

/-- The rows of a user. -/
def view (username : String) (s : ChatStore) : List ConversationRow × List HistoryRow :=
  (s.conversations.rows.filter (·.username = username),
    s.history.rows.filter (·.username = username))

theorem view_touch (h : ∀ row ∈ s.conversations.rows, row.id = conversationId →
    row.username ≠ username) : (s.touch conversationId now).view username = s.view username := by
  have hrows : (s.touch conversationId now).conversations.rows.filter (·.username = username) =
      s.conversations.rows.filter (·.username = username) :=
    Table.filter_updateWhere (q := fun row : ConversationRow => decide (row.username = username))
      (f := fun row : ConversationRow => { row with updatedAt := now }) (fun _ => rfl)
      fun row hrow hid => by
        have hne := h row hrow (of_decide_eq_true hid)
        simp [hne]
  exact Prod.ext hrows rfl

theorem filter_view (username : String) (p : ConversationRow → Bool) (s : ChatStore) :
    s.conversations.rows.filter (fun row => row.username = username && p row) =
      (s.view username).1.filter p := by
  rw [view, List.filter_filter]
  simp only [Bool.and_comm]

end ChatStore

/-! ## The requests -/

/-- A request, and who makes it. -/
structure ChatClient where
  user : AuthenticatedUser
  payload : ChatRequest
  tokens : TokenSource

namespace ChatController

variable (c : ChatController)

abbrev ChatThreads := Threads ChatOp ChatOp.Res Raised (ChatResponse × ℤ) ChatClient ChatStore

def serve (client : ChatClient) : ChatProgram (ChatResponse × ℤ) :=
  c.chat client.tokens client.user client.payload

/-- What a request knows : conversations, and that they are its user's. -/
def Knows (known : List (ℤ × String)) (s : ChatStore) : Prop :=
  ∀ fact ∈ known, s.Owns fact.2 fact.1

/-- What a response tells. -/
def learn (known : List (ℤ × String)) : (op : ChatOp) → op.Res → List (ℤ × String)
  | .getOwned _ username, r => known ++ (r.toOption.join.map fun id => (id, username)).toList
  | .createConversation username _, r => known ++ (r.toOption.map fun id => (id, username)).toList
  | _, _ => known

/-- The calls a request makes, with what it knows. -/
def Allowed (client : ChatClient) (known : List (ℤ × String)) : ChatOp → Prop
  | .getOwned _ username => username = client.user.username
  | .createConversation username title => username = client.user.username ∧ title.length ≤ 61
  | .propose principal conversationId _ =>
    principal.username = client.user.username ∧ (conversationId, client.user.username) ∈ known
  | .createHistory username conversationId question _ _ _ =>
    username = client.user.username ∧ (conversationId, username) ∈ known ∧
      question = client.payload.question
  | .touch conversationId => (conversationId, client.user.username) ∈ known
  | _ => True

/-- The response of a request is in a conversation that it knows to be its user's. -/
def Answers (client : ChatClient) (known : List (ℤ × String)) :
    Except Raised (ChatResponse × ℤ) → Prop
  | .ok (_, conversationId) => (conversationId, client.user.username) ∈ known
  | .error _ => True

/-- The calls of the orchestrator. -/
def Asks (turn : ChatTurn) : ChatOp → Prop
  | .getOwned _ _ => False
  | .createConversation _ _ => False
  | .propose principal conversationId _ =>
    principal.username = turn.principal.username ∧ conversationId = turn.conversationId
  | .createHistory _ _ _ _ _ _ => False
  | .touch _ => False
  | _ => True

section Asks

variable {c} {turn : ChatTurn} {tokens : TokenSource} {config : RagRuntimeConfig}
  {question : String} {inputDecision : GuardrailDecision} {routeDecision : RouteDecision}

theorem asks_ragOnly : (ragOnly turn question inputDecision).Uses (Asks turn) :=
  Uses.bind (fun _ => uses_pure _) (uses_ask trivial)

theorem asks_propose (f : Except Raised SQLProposal → Except Raised α) :
    (attempt (.propose (toSqlPrincipal turn.principal) turn.conversationId question) f :
      ChatProgram (Except Raised α)).Uses (Asks turn) :=
  uses_attempt ⟨rfl, rfl⟩

theorem asks_generateHybridAnswer :
    (generateHybridAnswer routeDecision turn question inputDecision).Uses (Asks turn) := by
  refine Uses.bind (fun rag => Uses.bind (fun r => ?_) (asks_propose _)) asks_ragOnly
  split <;> trivial

theorem asks_proposeAnswer :
    (proposeAnswer routeDecision turn question inputDecision).Uses (Asks turn) := by
  refine Uses.bind (fun r => ?_) (asks_propose _)
  split <;> trivial

theorem asks_authorizeSql : (c.authorizeSql turn.principal config).Uses (Asks turn) := by
  unfold authorizeSql
  split
  · trivial
  · split
    · refine Uses.bind (fun r => ?_) (uses_attempt trivial)
      split <;> trivial
    · trivial

theorem asks_sqlRoute :
    (c.sqlRoute config routeDecision turn question inputDecision).Uses (Asks turn) := by
  refine Uses.bind (fun authorized => ?_) asks_authorizeSql
  split
  · trivial
  · show Uses _ (if _ then _ else _)
    split
    · exact asks_generateHybridAnswer
    · exact asks_proposeAnswer

theorem asks_answerGuarded :
    (c.answerGuarded config turn question inputDecision).Uses (Asks turn) := by
  unfold answerGuarded
  split
  · exact asks_ragOnly
  · refine Uses.bind (fun sampled => ?_) (uses_orRaise _)
    split
    · exact asks_ragOnly
    · refine Uses.bind (fun routeDecision => ?_) (uses_ask trivial)
      split
      · exact asks_ragOnly
      · exact asks_sqlRoute
      · exact asks_sqlRoute
      · trivial

theorem asks_guardInput : (c.guardInput tokens turn config).Uses (Asks turn) := by
  refine Uses.tryCatch (fun e => ?_)
    (Uses.bind (fun r => Uses.bind (fun _ => Uses.bind (fun _ => uses_pure _) (uses_orRaise _)) ?_)
      (uses_orRaise _))
  · cases e <;> trivial
  · obtain ⟨event, result⟩ := r
    cases event with
    | none => trivial
    | some event => exact uses_ask trivial

theorem asks_answer : (c.answer tokens turn).Uses (Asks turn) := by
  refine Uses.bind (fun config => Uses.bind (fun guarded => ?_) asks_guardInput)
    ⟨trivial, fun _ => trivial⟩
  split
  · trivial
  · exact asks_answerGuarded

end Asks

theorem length_makeTitle (question : String) : (makeTitle question).length ≤ 61 := by
  unfold makeTitle
  simp only
  split
  · omega
  · rw [String.length_ofList, List.length_append, List.length_singleton]
    have htake := List.length_take_le 60 (normalizeSpace question).toList
    split
    · exact Nat.succ_le_succ ((List.length_take_le' _ _).trans htake)
    · omega

/-! ## What a request does -/

section Serve

variable {c} {client : ChatClient} {known : List (ℤ × String)} {conversationId : ℤ}

/-- What a request knows to be its user's, once it has its conversation. -/
def Resolves (client : ChatClient) (known : List (ℤ × String)) (x : Except Raised ℤ) : Prop :=
  ∀ conversationId, x = .ok conversationId → (conversationId, client.user.username) ∈ known

theorem keeps_resolveConversation :
    Keeps (Allowed client) learn (Resolves client) known
      (resolveConversation client.user client.payload) := by
  unfold resolveConversation
  split
  · rename_i conversationId _
    rw [keeps_ask]
    refine ⟨rfl, fun r id hid => ?_⟩
    cases r with
    | error e => cases hid
    | ok found =>
      cases found with
      | none => cases hid
      | some id' =>
        obtain rfl := Except.ok.inj hid
        simp [learn, Except.toOption]
  · rw [keeps_ask]
    refine ⟨⟨rfl, length_makeTitle _⟩, fun r id hid => ?_⟩
    obtain rfl : r = .ok id := hid
    simp [learn, Except.toOption]

theorem allowed_of_asks {op : ChatOp}
    (h : Asks (turn client.user client.payload conversationId) op)
    (hknown : (conversationId, client.user.username) ∈ known) :
    Allowed client known op ∧ ∀ r, learn known op r = known := by
  cases op with
  | propose principal conversationId' question =>
    obtain ⟨husername, rfl⟩ := h
    exact ⟨⟨husername, hknown⟩, fun r => rfl⟩
  | getOwned conversationId' username => cases h
  | createConversation username title => cases h
  | createHistory username conversationId' question answer sources confidence => cases h
  | touch conversationId' => cases h
  | _ => exact ⟨trivial, fun r => rfl⟩

theorem keeps_saveHistory {response : ChatResponse}
    (hknown : (conversationId, client.user.username) ∈ known) :
    Keeps (Allowed client) learn (fun known _ => (conversationId, client.user.username) ∈ known)
      known (saveHistory client.user.username conversationId client.payload.question response) := by
  unfold saveHistory
  rw [keeps_tryCatch]
  -- both calls may fail, and neither failure leaves the `try`
  have hhandler : ∀ e : Raised, Keeps (Allowed client) learn
      (fun known _ => (conversationId, client.user.username) ∈ known) known
      (if e.isException then return () else .raise e : ChatProgram Unit) := by
    intro e
    split
    · exact hknown
    · exact hknown
  refine keeps_ask_bind ⟨rfl, hknown, rfl⟩ (fun r e _ => hhandler e) fun r _ _ => ?_
  rw [keeps_ask]
  refine ⟨hknown, fun r => ?_⟩
  cases r with
  | error e => exact hhandler e
  | ok _ => exact hknown

theorem keeps_serve (c : ChatController) (client : ChatClient) :
    Keeps (Allowed client) learn (Answers client) [] (c.serve client) := by
  refine keeps_resolveConversation.bind (fun _ _ _ => trivial) fun known conversationId hid => ?_
  have hknown := hid conversationId rfl
  have hanswer : Keeps (Allowed client) learn
      (fun known x => (conversationId, client.user.username) ∈ known ∧ ∀ a, x = .ok a → True)
      known (c.answer client.tokens (turn client.user client.payload conversationId)) := by
    refine Uses.keeps_returns (I := fun known => (conversationId, client.user.username) ∈ known)
      (fun known op h hI => ⟨(allowed_of_asks h hI).1, fun r => ?_⟩) asks_answer (returns_true _)
      hknown
    rw [(allowed_of_asks h hI).2 r]
    exact hI
  refine hanswer.bind (fun _ _ _ => trivial) fun known response hanswer => ?_
  refine (keeps_saveHistory hanswer.1).bind (fun _ _ _ => trivial) fun known _ h => ?_
  exact h

/-! ## Any number of requests -/

/-- No request puts a turn in a conversation of another user. -/
theorem owned_handles {s s' : ChatStore} {op : ChatOp} {r : op.Res} (hs : s.Owned)
    (hknows : Knows known s) (hallowed : Allowed client known op) (hop : s.Handles op r s') :
    s'.Owned := by
  cases op with
  | createConversation username title =>
    rcases hop with ⟨id, ⟨now, hcreate⟩, -⟩ | ⟨rfl, -⟩
    · exact hs.createConversation hallowed.2 hcreate
    · exact hs
  | createHistory username conversationId question answer sources confidence =>
    obtain ⟨rfl, hmem, -⟩ := hallowed
    rcases hop with ⟨-, ⟨id, now, hcreate⟩, -⟩ | ⟨rfl, -⟩
    · exact hs.createHistory (hknows _ hmem) hcreate
    · exact hs
  | touch conversationId =>
    rcases hop with ⟨-, ⟨now, rfl⟩, -⟩ | ⟨rfl, -⟩
    · exact hs.touch
    · exact hs
  | getOwned conversationId username => exact hop.1 ▸ hs
  | _ => exact (show s' = s from hop) ▸ hs

/-- What a response tells is so. -/
theorem knows_learn {s s' : ChatStore} {op : ChatOp} {r : op.Res} (hknows : Knows known s)
    (hop : s.Handles op r s') : Knows (learn known op r) s' := by
  have hkept : Knows known s' := fun fact hfact => (hknows fact hfact).handles hop
  cases op with
  | getOwned conversationId username =>
    intro fact hfact
    rcases List.mem_append.1 hfact with hfact | hfact
    · exact hkept fact hfact
    · obtain ⟨rfl, hfound⟩ := hop
      obtain ⟨id, hid, rfl⟩ := Option.map_eq_some_iff.1 (Option.mem_toList.1 hfact)
      obtain ⟨row, hrow, rfl⟩ := Option.map_eq_some_iff.1
        (hfound (some id) (ok_of_join_toOption hid)).symm
      obtain ⟨howns, hrowId⟩ := ChatStore.owns_of_getOwned hrow
      exact hrowId.symm ▸ howns
  | createConversation username title =>
    intro fact hfact
    rcases List.mem_append.1 hfact with hfact | hfact
    · exact hkept fact hfact
    · obtain ⟨id', hid', rfl⟩ := Option.map_eq_some_iff.1 (Option.mem_toList.1 hfact)
      rcases hop with ⟨id, ⟨now, hcreate⟩, hanswer⟩ | ⟨-, hraised⟩
      · obtain rfl := hanswer id' (ok_of_toOption hid')
        exact ⟨_, ((ChatStore.mem_of_createConversation hcreate).2 _).2 (Or.inr rfl), rfl, rfl⟩
      · exact absurd (ok_of_toOption hid') (hraised id')
  | _ => exact hkept

/-- The rows of a user are not those of another user's requests. -/
theorem view_handles {s s' : ChatStore} {op : ChatOp} {r : op.Res} {username : String}
    (hne : client.user.username ≠ username) (hknows : Knows known s)
    (hallowed : Allowed client known op) (hop : s.Handles op r s') :
    s'.view username = s.view username := by
  cases op with
  | createConversation username' title =>
    obtain ⟨rfl, -⟩ := hallowed
    rcases hop with ⟨id, ⟨now, hcreate⟩, -⟩ | ⟨rfl, -⟩
    · obtain ⟨conversations, hinsert, rfl⟩ := Option.map_eq_some_iff.1 hcreate
      simp [ChatStore.view, Table.rows_insert hinsert, hne]
    · rfl
  | createHistory username' conversationId question answer sources confidence =>
    obtain ⟨rfl, -⟩ := hallowed
    rcases hop with ⟨-, ⟨id, now, hcreate⟩, -⟩ | ⟨rfl, -⟩
    · unfold ChatStore.createHistory at hcreate
      split at hcreate
      · obtain ⟨history, hinsert, rfl⟩ := Option.map_eq_some_iff.1 hcreate
        simp [ChatStore.view, Table.rows_insert hinsert, hne]
      · cases hcreate
    · rfl
  | touch conversationId =>
    rcases hop with ⟨-, ⟨now, rfl⟩, -⟩ | ⟨rfl, -⟩
    · have howner := hknows _ hallowed
      refine ChatStore.view_touch fun row hrow hid husername => hne ?_
      exact (ChatStore.Owns.unique ⟨row, hrow, hid, husername⟩ howner).symm
    · rfl
  | getOwned conversationId username' => rw [hop.1]
  | _ => rw [show s' = s from hop]

end Serve

section Requests

variable {c : ChatController} {ws ws' : List ChatClient} {t u v : ChatThreads}

/-- The requests under way know what they need. -/
def ChatKept : ChatThreads → Prop :=
  Threads.Kept ChatStore.Owned Knows Allowed learn Answers

theorem kept_of_owned (ht : t.pool = []) (hs : t.state.Owned) : ChatKept t :=
  ⟨hs, fun e he => by
    rw [ht] at he
    cases he⟩

theorem start_knows (client : ChatClient) (s : ChatStore) (_ : s.Owned) :
    ∃ known, Knows known s ∧ Keeps (Allowed client) learn (Answers client) known (c.serve client) :=
  ⟨[], fun fact hfact => (by cases hfact), keeps_serve c client⟩

theorem run_kept (h : Threads.Run c.serve ChatStore.Handles ws t u) (hk : ChatKept t) :
    ChatKept u :=
  h.kept start_knows (fun _ _ _ _ _ _ hs hknows hallowed hop =>
    ⟨owned_handles hs hknows hallowed hop, knows_learn hknows hop⟩)
    (fun _ _ _ _ _ _ _ _ _ hop _ hknows fact hfact => (hknows fact hfact).handles hop) hk

/-! ### Ann has a conversation, and Bob starts one -/

def annTurn : HistoryRow :=
  ⟨1, "ann", 1, "What is the fee?", "There is none.", [], 1, 1⟩

def annConversation : ConversationRow :=
  ⟨1, "ann", "What is the fee?", 0, 1⟩

def annStore : ChatStore where
  conversations := ⟨[annConversation], by decide⟩
  history := ⟨[annTurn], by decide⟩

theorem owned_annStore : annStore.Owned where
  history row hrow := by
    rw [List.mem_singleton.1 hrow]
    exact ⟨annConversation, List.mem_singleton_self _, rfl, rfl⟩
  titles row hrow := by
    rw [List.mem_singleton.1 hrow]
    decide

def bob : ChatClient where
  user := ⟨"bob", false⟩
  payload :=
    { phoneRequest none with
      question := "When is it due?"
      question_length := by decide }
  tokens := zeroTokens

def bobConversation : ConversationRow :=
  ⟨2, "bob", makeTitle bob.payload.question, 2, 2⟩

def bobStore : ChatStore where
  conversations := ⟨[annConversation, bobConversation], by decide⟩
  history := ⟨[annTurn], by decide⟩

theorem run_bob : ∃ v : ChatThreads, Threads.Run deskController.serve ChatStore.Handles [bob, bob]
    ⟨annStore, []⟩ v ∧ v.state = bobStore := by
  have hcreate : annStore.Handles (.createConversation "bob" (makeTitle bob.payload.question))
      (.ok 2) bobStore := Or.inl ⟨2, ⟨2, rfl⟩, fun _ h => (Except.ok.inj h).symm⟩
  have hserve : ∃ k, deskController.serve bob =
      .call (.createConversation "bob" (makeTitle bob.payload.question)) k := ⟨_, rfl⟩
  obtain ⟨k, hk⟩ := hserve
  refine ⟨⟨bobStore, [(bob, k (.ok 2))]⟩, .cons (.arrive bob annStore []) ?_, rfl⟩
  rw [hk]
  exact .cons (.answer bob annStore bobStore [] [] _ k (.ok 2) hcreate) (.nil _)

/-- In every state that a run reaches, each turn is in a conversation of its own user, and each
request that has been answered is in a conversation of the user who made it. -/
theorem owned (hrun : Threads.Run c.serve ChatStore.Handles ws t u) (hempty : t.pool = [])
    (hstart : t.state.Owned) :
    u.state.Owned ∧ ∀ client response conversationId,
      (client, .pure (response, conversationId)) ∈ u.pool →
        u.state.Owns client.user.username conversationId := by
  have hk := run_kept hrun (kept_of_owned hempty hstart)
  refine ⟨hk.1, fun client response conversationId hmem => ?_⟩
  obtain ⟨known, hknows, hanswers⟩ := hk.2 _ hmem
  exact hknows _ hanswers

theorem owned_bob : ∃ v : ChatThreads, v.state = bobStore ∧
    (v.state.Owned ∧ ∀ client response conversationId,
      (client, .pure (response, conversationId)) ∈ v.pool →
        v.state.Owns client.user.username conversationId) := by
  obtain ⟨v, hrun, hv⟩ := run_bob
  exact ⟨v, hv, owned hrun rfl owned_annStore⟩

/-- A user who was found to own a conversation reads its oldest turns, all of them the user's
own, however many requests of whatever users come in between. -/
theorem own_messages {username : String} {conversationId : ℤ} {limit : ℕ}
    {conversation : ConversationRow} {result : List HistoryRow}
    (hrun : Threads.Run c.serve ChatStore.Handles ws t u) (hempty : t.pool = [])
    (hstart : t.state.Owned)
    (hget : u.state.getOwned conversationId username = some conversation)
    (hrun' : Threads.Run c.serve ChatStore.Handles ws' u v)
    (hlist : v.state.ListByConversation conversationId limit result) :
    (∀ row ∈ result, row ∈ v.state.history.rows ∧ row.conversationId = conversationId ∧
        row.username = username) ∧
      result.length = min limit
        (v.state.history.rows.countP (·.conversationId = conversationId)) ∧
      ∀ row ∈ v.state.history.rows, row.conversationId = conversationId → row ∉ result →
        ∀ shown ∈ result, shown.createdAt ≤ row.createdAt := by
  have hk := run_kept hrun' (run_kept hrun (kept_of_owned hempty hstart))
  have howns : v.state.Owns username conversationId :=
    hrun'.stable (P := fun s => s.Owns username conversationId)
      (fun _ _ _ _ h hop => h.handles hop) (ChatStore.owns_of_getOwned hget).1
  obtain ⟨sorted, hperm, hsorted, rfl⟩ := hlist
  have hmem : ∀ row, row ∈ sorted ↔
      row ∈ v.state.history.rows ∧ row.conversationId = conversationId := fun row => by
    rw [hperm.mem_iff, List.mem_filter, decide_eq_true_eq]
  rw [List.drop_zero]
  refine ⟨fun row hrow => ?_, ?_, fun row hrow hid hnot shown hshown => ?_⟩
  · obtain ⟨hrow, hid⟩ := (hmem row).1 (List.mem_of_mem_take hrow)
    exact ⟨hrow, hid, (hid ▸ hk.1.history row hrow).unique howns⟩
  · rw [List.length_take, hperm.length_eq, List.countP_eq_length_filter]
  · -- a row that is not shown stands after the shown ones
    have hrest : row ∈ sorted.drop limit := by
      have hboth : row ∈ sorted.take limit ++ sorted.drop limit := by
        rw [List.take_append_drop]
        exact (hmem row).2 ⟨hrow, hid⟩
      exact (List.mem_append.1 hboth).resolve_left hnot
    rw [← List.take_append_drop limit sorted, List.pairwise_append] at hsorted
    exact hsorted.2.2 shown hshown row hrest

theorem own_messages_beside_bob :
    (∀ row ∈ [annTurn], row ∈ bobStore.history.rows ∧ row.conversationId = 1 ∧
        row.username = "ann") ∧
      [annTurn].length = min 200 (bobStore.history.rows.countP (·.conversationId = 1)) ∧
      ∀ row ∈ bobStore.history.rows, row.conversationId = 1 → row ∉ [annTurn] →
        ∀ shown ∈ [annTurn], shown.createdAt ≤ row.createdAt := by
  obtain ⟨v, hrun, hv⟩ := run_bob
  have hget : annStore.getOwned 1 "ann" = some annConversation := by decide
  have hlist : bobStore.ListByConversation 1 200 [annTurn] :=
    ⟨[annTurn], List.Perm.refl _, List.pairwise_singleton _ _, rfl⟩
  rw [← hv] at hlist ⊢
  exact own_messages (.nil _) rfl owned_annStore hget hrun hlist

/-- While only other users' requests run, a user's conversations and turns stay as they are, and
so does whatever a list of them may show. -/
theorem undisturbed {username : String} {ilike : String → String → Bool}
    (hrun : Threads.Run c.serve ChatStore.Handles ws t u) (hempty : t.pool = [])
    (hstart : t.state.Owned) (hrun' : Threads.Run c.serve ChatStore.Handles ws' u v)
    (hothers : ∀ client ∈ ws', client.user.username ≠ username) :
    v.state.view username = u.state.view username ∧
      (∀ limit offset result, v.state.ListByUser username limit offset result ↔
        u.state.ListByUser username limit offset result) ∧
      ∀ search limit offset result,
        v.state.ListConversations ilike username search limit offset result ↔
          u.state.ListConversations ilike username search limit offset result := by
  have hk := run_kept hrun (kept_of_owned hempty hstart)
  have hview : v.state.view username = u.state.view username :=
    hrun'.frame start_knows
      (fun _ _ _ _ _ _ hs hknows hallowed hop =>
        ⟨owned_handles hs hknows hallowed hop, knows_learn hknows hop⟩)
      (fun _ _ _ _ _ _ _ _ _ hop _ hknows fact hfact => (hknows fact hfact).handles hop)
      (fun _ _ _ _ _ _ hne _ hknows hallowed hop => view_handles hne hknows hallowed hop) hk
      hothers
  refine ⟨hview, fun limit offset result => ?_, fun search limit offset result => ?_⟩
  · have hhistory : v.state.history.rows.filter (·.username = username) =
        u.state.history.rows.filter (·.username = username) := congrArg Prod.snd hview
    rw [ChatStore.ListByUser, ChatStore.ListByUser, hhistory]
  · rw [ChatStore.ListConversations, ChatStore.ListConversations, ChatStore.filter_view,
      ChatStore.filter_view, hview]

theorem undisturbed_by_bob : ∃ v : ChatThreads, v.state = bobStore ∧
    (v.state.view "ann" = annStore.view "ann" ∧
      (∀ limit offset result, v.state.ListByUser "ann" limit offset result ↔
        annStore.ListByUser "ann" limit offset result) ∧
      ∀ search limit offset result,
        v.state.ListConversations (fun _ _ => true) "ann" search limit offset result ↔
          annStore.ListConversations (fun _ _ => true) "ann" search limit offset result) := by
  obtain ⟨v, hrun, hv⟩ := run_bob
  refine ⟨v, hv, undisturbed (.nil _) rfl owned_annStore hrun fun client hclient => ?_⟩
  obtain rfl : client = bob := by simpa using hclient
  decide

end Requests

end ChatController

end EnterpriseRag

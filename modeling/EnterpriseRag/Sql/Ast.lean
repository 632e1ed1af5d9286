import EnterpriseRag.Library.RoseTree
import EnterpriseRag.Sql.Models
import Mathlib.Data.List.TakeWhile

/-!
# SQL syntax trees

A statement as the trees `sqlglot` parses it into : every node has a class
(`NodeType`, with the fields of the node the policy reads) and the name of the argument
under which its parent holds it. Identifiers keep how they were written, and
`Identifier.pg` is the name PostgreSQL takes them for.

`bindings` is SQL's own scoping : a column belongs to the table that its qualifier names
in the innermost SELECT around it that has such a table.
-/

namespace EnterpriseRag

structure Identifier where
  this : String
  quoted : Bool := false
  deriving DecidableEq, Repr

/-- The identifier of an argument that is not there. -/
def Identifier.absent : Identifier := ⟨"", false⟩

def asciiLower (s : String) : String :=
  String.ofList (s.toList.map Char.toLower)

/-- The name PostgreSQL takes an identifier for : unquoted ones fold to lower case, quoted
ones are exact. -/
def Identifier.pg (i : Identifier) : String :=
  if i.quoted then i.this else asciiLower i.this

structure TableRef where
  db : Identifier
  name : Identifier
  aliasName : Identifier := .absent
  deriving DecidableEq, Repr

/-- `alias_or_name`. -/
def TableRef.aliasOrName (t : TableRef) : Identifier :=
  if t.aliasName.this = "" then t.name else t.aliasName

structure ColumnRef where
  table : Identifier
  name : Identifier
  deriving DecidableEq, Repr

/-- The classes of nodes the policy tells apart. -/
inductive NodeType
  | select
  | insert
  | update
  | delete
  | merge
  | create
  | drop
  | alter
  | command
  | transaction
  | commit
  | rollback
  | grant
  | into
  | lock
  | star
  | cte
  | subquery
  | union
  /-- A `SetOperation` that is not a `Union`. -/
  | setOperation
  | lateral
  | join
  | table (ref : TableRef)
  | column (ref : ColumnRef)
  | literal (this : String) (isString : Bool)
  /-- `And`, `Or` and `Xor`, which are functions too. -/
  | connector (sqlName : String)
  /-- Any other `Func`. -/
  | func (sqlName : String)
  | limit
  | other
  deriving DecidableEq, Repr

structure NodeLabel where
  argKey : String
  type : NodeType
  deriving DecidableEq, Repr

abbrev Node := RoseTree NodeLabel

namespace Node

def type (n : Node) : NodeType :=
  n.label.type

def argKey (n : Node) : String :=
  n.label.argKey

/-- `args.get(key)`, as the list of nodes it holds. -/
def args (n : Node) (key : String) : List Node :=
  n.children.filter fun c => Node.argKey c = key

/-- `find(node_type) is not None`. -/
def has (n : Node) (p : NodeType → Bool) : Bool :=
  n.walk.any fun m => p (Node.type m)

/-- `find_all(exp.Table)`. -/
def tables (n : Node) : List TableRef :=
  n.walk.filterMap fun m => match Node.type m with
    | .table ref => some ref
    | _ => none

/-- `find_all(exp.Column)`. -/
def columns (n : Node) : List ColumnRef :=
  n.walk.filterMap fun m => match Node.type m with
    | .column ref => some ref
    | _ => none

/-- `selects` of a SELECT. -/
def selects (n : Node) : List Node :=
  Node.args n "expressions"

/-- `set(key, value)` : in place of the old value, or at the end. -/
def set (n : Node) (key : String) (type : NodeType) (children : List Node) : Node :=
  .node n.label
    (n.children.takeWhile (fun c => Node.argKey c ≠ key) ++ .node ⟨key, type⟩ children ::
      (n.children.dropWhile fun c => Node.argKey c ≠ key).filter fun c => Node.argKey c ≠ key)

theorem args_set (n : Node) (key : String) (type : NodeType) (children : List Node) :
    Node.args (Node.set n key type children) key = [.node ⟨key, type⟩ children] := by
  have hbefore : (n.children.takeWhile fun c => Node.argKey c ≠ key).filter
      (fun c => Node.argKey c = key) = [] := by
    refine List.filter_eq_nil_iff.2 fun c hc => ?_
    simpa using List.mem_takeWhile_imp hc
  have hafter : ((n.children.dropWhile fun c => Node.argKey c ≠ key).filter
      fun c => Node.argKey c ≠ key).filter (fun c => Node.argKey c = key) = [] := by
    refine List.filter_eq_nil_iff.2 fun c hc => ?_
    simpa using (List.mem_filter.1 hc).2
  unfold args Node.set
  rw [RoseTree.children, List.filter_append, hbefore, List.nil_append,
    List.filter_cons_of_pos (by simp [argKey, RoseTree.label]), hafter]

theorem args_set_of_ne {n : Node} {key other : String} {type : NodeType} {children : List Node}
    (h : other ≠ key) : Node.args (Node.set n key type children) other = Node.args n other := by
  obtain ⟨label, cs⟩ := n
  have hsame : ∀ c : Node, (decide (Node.argKey c = other) && decide (Node.argKey c ≠ key)) =
      decide (Node.argKey c = other) := by
    intro c
    by_cases hc : Node.argKey c = other
    · simp [hc, h]
    · simp [hc]
  rw [Node.args, Node.args, Node.set]
  dsimp only [RoseTree.children]
  rw [List.filter_append, List.filter_cons_of_neg (by simp [argKey, RoseTree.label, h.symm]),
    List.filter_filter]
  simp only [hsame]
  rw [← List.filter_append, List.takeWhile_append_dropWhile]

theorem set_set (n : Node) (key : String) (type type' : NodeType) (children children' : List Node) :
    Node.set (Node.set n key type children) key type' children' =
      Node.set n key type' children' := by
  obtain ⟨label, cs⟩ := n
  refine congrArg (RoseTree.node label) ?_
  dsimp only [Node.set, RoseTree.children]
  generalize hother : (fun c : Node => decide (Node.argKey c ≠ key)) = other
  have hnew : ¬other (.node ⟨key, type⟩ children) := by
    simp [← hother, argKey, RoseTree.label]
  have hbefore : ∀ c ∈ cs.takeWhile other, other c := fun c hc => List.mem_takeWhile_imp hc
  rw [List.takeWhile_append_of_pos hbefore, List.takeWhile_cons_of_neg hnew, List.append_nil,
    List.dropWhile_append_of_pos hbefore, List.dropWhile_cons_of_neg hnew,
    List.filter_cons_of_neg hnew, List.filter_filter]
  simp only [Bool.and_self]

/-- The nodes after `set` : the root, nodes that were there before, and the new ones. -/
theorem mem_walk_set {n m : Node} {key : String} {type : NodeType} {children : List Node}
    (h : m ∈ (Node.set n key type children).walk) :
    m = Node.set n key type children ∨ m ∈ n.walk ∨
      m ∈ (RoseTree.node ⟨key, type⟩ children : Node).walk := by
  obtain ⟨label, cs⟩ := n
  rw [Node.set, RoseTree.mem_walk] at h
  rcases h with h | ⟨c, hc, hm⟩
  · exact Or.inl h
  · refine Or.inr ?_
    rcases List.mem_append.1 hc with hc | hc
    · exact Or.inl (RoseTree.mem_walk.2 (Or.inr ⟨c, (List.takeWhile_subset _) hc, hm⟩))
    · rcases List.mem_cons.1 hc with rfl | hc
      · exact Or.inr hm
      · have hc' := List.dropWhile_subset _ (List.mem_filter.1 hc).1
        exact Or.inl (RoseTree.mem_walk.2 (Or.inr ⟨c, hc', hm⟩))

/-- A node from before `set` is still there, or it is the root or below the old value. -/
theorem mem_walk_of_mem {n m : Node} {key : String} {type : NodeType} {children : List Node}
    (h : m ∈ n.walk) : m = n ∨ m ∈ (Node.set n key type children).walk ∨
      ∃ c ∈ Node.args n key, m ∈ c.walk := by
  obtain ⟨label, cs⟩ := n
  rcases RoseTree.mem_walk.1 h with h | ⟨c, hc, hm⟩
  · exact Or.inl h
  · by_cases hkey : Node.argKey c = key
    · exact Or.inr (Or.inr ⟨c, List.mem_filter.2 ⟨hc, decide_eq_true hkey⟩, hm⟩)
    · refine Or.inr (Or.inl (RoseTree.mem_walk.2 (Or.inr ⟨c, ?_, hm⟩)))
      rw [← List.takeWhile_append_dropWhile (l := cs)] at hc
      rcases List.mem_append.1 hc with hc | hc
      · exact List.mem_append_left _ hc
      · exact List.mem_append_right _
          (List.mem_cons_of_mem _ (List.mem_filter.2 ⟨hc, decide_eq_true hkey⟩))

/-- Setting an argument leaves at most the nodes of a kind that there were, and the new ones. -/
theorem countP_walk_set_le (n : Node) (key : String) (type : NodeType) (children : List Node)
    (p : NodeType → Bool) :
    (Node.set n key type children).walk.countP (fun m => p (Node.type m)) ≤
      n.walk.countP (fun m => p (Node.type m)) +
        (RoseTree.node ⟨key, type⟩ children : Node).walk.countP (fun m => p (Node.type m)) := by
  obtain ⟨label, cs⟩ := n
  refine RoseTree.countP_walk_insert_le rfl ?_
  have hafter : ((cs.dropWhile fun c => Node.argKey c ≠ key).filter fun c =>
      Node.argKey c ≠ key).Sublist (cs.dropWhile fun c => Node.argKey c ≠ key) :=
    List.filter_sublist
  have hsub := hafter.append_left (cs.takeWhile fun c => Node.argKey c ≠ key)
  rwa [List.takeWhile_append_dropWhile] at hsub

/-! ## Scoping -/

/-- The tables of a FROM item, without those of a SELECT inside it. -/
def itemTables (n : Node) : List TableRef :=
  RoseTree.flatMapWith (fun l _ inside => inside && l.type ≠ .select)
    (fun l inside => match l.type with
      | .table ref => if inside then [ref] else []
      | _ => []) true n

/-- The tables of the FROM clause of a SELECT with these children. -/
def fromTables (children : List Node) : List TableRef :=
  (children.filter fun c => Node.argKey c = "from" ∨ Node.argKey c = "joins").flatMap itemTables

/-- The FROM clauses around a node, the innermost first, with the node itself. -/
def enclosing (l : NodeLabel) (children : List Node) (scopes : List (List TableRef)) :
    List (List TableRef) :=
  if l.type = .select then fromTables children :: scopes else scopes

/-- The table a qualifier names : the one with this alias in the innermost scope that has
one. -/
def bind (scopes : List (List TableRef)) (qualifier : Identifier) : Option TableRef :=
  scopes.findSome? fun tables => tables.find? fun t => t.aliasOrName.pg = qualifier.pg

/-- The columns at or below a node inside `scopes`, with the tables they belong to. -/
def bindings (scopes : List (List TableRef)) (n : Node) : List (ColumnRef × Option TableRef) :=
  RoseTree.flatMapWith enclosing
    (fun l scopes => match l.type with
      | .column ref => [(ref, bind scopes ref.table)]
      | _ => []) scopes n

theorem mem_columns {n : Node} {c : ColumnRef} :
    c ∈ Node.columns n ↔ ∃ m ∈ n.walk, Node.type m = .column c := by
  simp only [columns, List.mem_filterMap]
  refine exists_congr fun m => and_congr_right fun _ => ?_
  cases Node.type m <;> simp

theorem mem_tables {n : Node} {t : TableRef} :
    t ∈ Node.tables n ↔ ∃ m ∈ n.walk, Node.type m = .table t := by
  simp only [tables, List.mem_filterMap]
  refine exists_congr fun m => and_congr_right fun _ => ?_
  cases Node.type m <;> simp

theorem bind_singleton {tables : List TableRef} {qualifier : Identifier} {t : TableRef}
    (h : bind [tables] qualifier = some t) : t ∈ tables ∧ t.aliasOrName.pg = qualifier.pg := by
  have hfind : tables.find? (fun t => t.aliasOrName.pg = qualifier.pg) = some t := by
    simpa [bind] using h
  exact ⟨List.mem_of_find?_eq_some hfind, by simpa using List.find?_some hfind⟩

/-- In an expression without a SELECT of its own, a column belongs to a table of the SELECT
around the expression. -/
theorem mem_bindings_of_flat {tables : List TableRef} {n : Node} {c : ColumnRef} {t : TableRef}
    (hflat : ∀ m ∈ n.walk, Node.type m ≠ .select)
    (h : (c, some t) ∈ bindings [tables] n) :
    c ∈ Node.columns n ∧ t ∈ tables ∧ t.aliasOrName.pg = c.table.pg := by
  have hscopes : ∀ m ∈ n.walk, enclosing m.label m.children [tables] = [tables] :=
    fun m hm => if_neg (hflat m hm)
  obtain ⟨m, hm, hc⟩ := RoseTree.mem_flatMapWith_of_extend_eq hscopes h
  split at hc
  · rename_i ref htype
    obtain ⟨rfl, hbind⟩ := Prod.mk.inj (List.mem_singleton.1 hc)
    exact ⟨mem_columns.2 ⟨m, hm, htype⟩, bind_singleton hbind.symm⟩
  · simp at hc

end Node

end EnterpriseRag

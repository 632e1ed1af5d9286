import Mathlib.Algebra.GroupWithZero.Nat
import Mathlib.Algebra.Order.BigOperators.Group.List
import Mathlib.Algebra.Order.Group.Nat
import Mathlib.Data.List.Basic

/-!
# Ordered trees

A tree is a label and the list of its subtrees. `walk` lists every node (as the subtree
below it) breadth first, `postorder` lists the labels children first. What the two list
is the same (`mem_walk`, `mem_postorder`) : the root, and what is listed for a child.

`flatMapWith` collects something from every node with an environment that each node may
extend for the nodes below it.
-/

inductive RoseTree (α : Type*)
  | node (label : α) (children : List (RoseTree α))

namespace RoseTree

variable {α β ε : Type*}

def label : RoseTree α → α
  | node a _ => a

def children : RoseTree α → List (RoseTree α)
  | node _ cs => cs

mutual

/-- Trees are compared label by label. -/
def decEq [DecidableEq α] : (t u : RoseTree α) → Decidable (t = u)
  | node a cs, node b ds =>
    match (inferInstance : Decidable (a = b)), decEqList cs ds with
    | isTrue h, isTrue hs => isTrue (by rw [h, hs])
    | isFalse h, _ => isFalse fun ht => h (node.inj ht).1
    | _, isFalse h => isFalse fun ht => h (node.inj ht).2

def decEqList [DecidableEq α] : (cs ds : List (RoseTree α)) → Decidable (cs = ds)
  | [], [] => isTrue rfl
  | [], _ :: _ => isFalse (List.cons_ne_nil _ _).symm
  | _ :: _, [] => isFalse (List.cons_ne_nil _ _)
  | c :: cs, d :: ds =>
    match decEq c d, decEqList cs ds with
    | isTrue h, isTrue hs => isTrue (by rw [h, hs])
    | isFalse h, _ => isFalse fun hl => h (List.cons.inj hl).1
    | _, isFalse h => isFalse fun hl => h (List.cons.inj hl).2

end

instance [DecidableEq α] : DecidableEq (RoseTree α) :=
  decEq

/-- What holds of a tree when it holds of its children holds of every tree. -/
@[elab_as_elim, induction_eliminator]
theorem induction {motive : RoseTree α → Prop}
    (node : ∀ a cs, (∀ c ∈ cs, motive c) → motive (.node a cs)) (t : RoseTree α) : motive t :=
  RoseTree.rec (motive_1 := motive) (motive_2 := fun cs => ∀ c ∈ cs, motive c)
    (fun a cs ih => node a cs ih) (fun _ h => by simp at h)
    (fun c cs hc hcs d hd => by
      rcases List.mem_cons.1 hd with rfl | hd
      · exact hc
      · exact hcs d hd) t

/-! ## Breadth first -/

/-- Two forests side by side, level by level. -/
def zipLevels : List (List β) → List (List β) → List (List β)
  | [], bs => bs
  | as, [] => as
  | a :: as, b :: bs => (a ++ b) :: zipLevels as bs

theorem mem_flatten_zipLevels {x : β} : ∀ {as bs : List (List β)},
    x ∈ (zipLevels as bs).flatten ↔ x ∈ as.flatten ∨ x ∈ bs.flatten
  | [], bs => by simp [zipLevels]
  | a :: as, [] => by simp [zipLevels]
  | a :: as, b :: bs => by
    rw [zipLevels, List.flatten_cons, List.mem_append, mem_flatten_zipLevels]
    simp only [List.mem_append, List.flatten_cons]
    tauto

mutual

/-- The nodes, level by level from the root. -/
def levels : RoseTree α → List (List (RoseTree α))
  | node a cs => [node a cs] :: levelsList cs

def levelsList : List (RoseTree α) → List (List (RoseTree α))
  | [] => []
  | c :: cs => zipLevels c.levels (levelsList cs)

end

/-- The nodes, breadth first. -/
def walk (t : RoseTree α) : List (RoseTree α) :=
  t.levels.flatten

theorem mem_flatten_levelsList {x : RoseTree α} {cs : List (RoseTree α)} :
    x ∈ (levelsList cs).flatten ↔ ∃ c ∈ cs, x ∈ c.walk := by
  induction cs with
  | nil => simp [levelsList]
  | cons c cs ih => rw [levelsList, mem_flatten_zipLevels, ih, List.exists_mem_cons_iff, walk]

theorem mem_walk {x : RoseTree α} {a : α} {cs : List (RoseTree α)} :
    x ∈ (node a cs).walk ↔ x = node a cs ∨ ∃ c ∈ cs, x ∈ c.walk := by
  rw [walk, levels, List.flatten_cons, List.mem_append, List.mem_singleton,
    mem_flatten_levelsList]

theorem countP_flatten_zipLevels (p : β → Bool) : ∀ as bs : List (List β),
    (zipLevels as bs).flatten.countP p = as.flatten.countP p + bs.flatten.countP p
  | [], bs => by simp [zipLevels]
  | a :: as, [] => by simp [zipLevels]
  | a :: as, b :: bs => by
    rw [zipLevels, List.flatten_cons, List.flatten_cons, List.flatten_cons]
    simp only [List.countP_append]
    rw [countP_flatten_zipLevels p as bs]
    omega

theorem countP_flatten_levelsList (p : RoseTree α → Bool) (cs : List (RoseTree α)) :
    (levelsList cs).flatten.countP p = (cs.map fun c => c.walk.countP p).sum := by
  induction cs with
  | nil => rfl
  | cons c cs ih => rw [levelsList, countP_flatten_zipLevels, ih, List.map_cons, List.sum_cons, walk]

/-- The nodes of a kind are the root, if it is one, and those below each child. -/
theorem countP_walk (p : RoseTree α → Bool) (a : α) (cs : List (RoseTree α)) :
    (node a cs).walk.countP p =
      (if p (node a cs) then 1 else 0) + (cs.map fun c => c.walk.countP p).sum := by
  rw [walk, levels, List.flatten_cons, List.countP_append, List.countP_singleton,
    countP_flatten_levelsList]

/-- A new child under a root that keeps some of its children. -/
theorem countP_walk_insert_le {p : RoseTree α → Bool} {a : α} {before after cs : List (RoseTree α)}
    {c : RoseTree α} (hroot : p (node a (before ++ c :: after)) = p (node a cs))
    (h : (before ++ after).Sublist cs) :
    (node a (before ++ c :: after)).walk.countP p ≤ (node a cs).walk.countP p + c.walk.countP p := by
  have hsum := (h.map fun c => c.walk.countP p).sum_le_sum fun _ _ => Nat.zero_le _
  rw [countP_walk, countP_walk, hroot]
  simp only [List.map_append, List.map_cons, List.sum_append, List.sum_cons] at hsum ⊢
  omega

theorem self_mem_walk (t : RoseTree α) : t ∈ t.walk := by
  cases t with
  | node a cs => exact mem_walk.2 (Or.inl rfl)

/-! ## Children first -/

mutual

/-- The labels, children before their parent. -/
def postorder : RoseTree α → List α
  | node a cs => postorderList cs ++ [a]

def postorderList : List (RoseTree α) → List α
  | [] => []
  | c :: cs => c.postorder ++ postorderList cs

end

theorem mem_postorderList {x : α} {cs : List (RoseTree α)} :
    x ∈ postorderList cs ↔ ∃ c ∈ cs, x ∈ c.postorder := by
  induction cs with
  | nil => simp [postorderList]
  | cons c cs ih => simp [postorderList, ih]

theorem mem_postorder {x : α} {a : α} {cs : List (RoseTree α)} :
    x ∈ (node a cs).postorder ↔ x = a ∨ ∃ c ∈ cs, x ∈ c.postorder := by
  rw [postorder, List.mem_append, List.mem_singleton, mem_postorderList, or_comm]

theorem label_mem_postorder (t : RoseTree α) : t.label ∈ t.postorder := by
  cases t with
  | node a cs => exact mem_postorder.2 (Or.inl rfl)

/-! ## With an environment -/

mutual

/-- What `f` collects at every node, where `extend` gives a node the environment for
itself and the nodes below it. -/
def flatMapWith (extend : α → List (RoseTree α) → ε → ε) (f : α → ε → List β) (env : ε) :
    RoseTree α → List β
  | node a cs => f a (extend a cs env) ++ flatMapWithList extend f (extend a cs env) cs

def flatMapWithList (extend : α → List (RoseTree α) → ε → ε) (f : α → ε → List β) (env : ε) :
    List (RoseTree α) → List β
  | [] => []
  | c :: cs => c.flatMapWith extend f env ++ flatMapWithList extend f env cs

end

theorem mem_flatMapWithList {extend : α → List (RoseTree α) → ε → ε} {f : α → ε → List β} {env : ε}
    {x : β} {cs : List (RoseTree α)} :
    x ∈ flatMapWithList extend f env cs ↔ ∃ c ∈ cs, x ∈ c.flatMapWith extend f env := by
  induction cs with
  | nil => simp [flatMapWithList]
  | cons c cs ih => simp [flatMapWithList, ih]

theorem mem_flatMapWith {extend : α → List (RoseTree α) → ε → ε} {f : α → ε → List β} {env : ε}
    {x : β} {a : α} {cs : List (RoseTree α)} :
    x ∈ (node a cs).flatMapWith extend f env ↔
      x ∈ f a (extend a cs env) ∨ ∃ c ∈ cs, x ∈ c.flatMapWith extend f (extend a cs env) := by
  rw [flatMapWith, List.mem_append, mem_flatMapWithList]

/-- Where no node extends the environment, everything is collected in the same one. -/
theorem mem_flatMapWith_of_extend_eq {extend : α → List (RoseTree α) → ε → ε}
    {f : α → ε → List β} {env : ε} {x : β} {t : RoseTree α}
    (h : ∀ n ∈ t.walk, extend n.label n.children env = env)
    (hx : x ∈ t.flatMapWith extend f env) : ∃ n ∈ t.walk, x ∈ f n.label env := by
  induction t with
  | node a cs ih =>
    have hroot : extend a cs env = env := h _ (self_mem_walk _)
    rw [mem_flatMapWith, hroot] at hx
    rcases hx with hx | ⟨c, hc, hx⟩
    · exact ⟨_, self_mem_walk _, hx⟩
    · obtain ⟨n, hn, hx⟩ := ih c hc (fun n hn => h n (mem_walk.2 (Or.inr ⟨c, hc, hn⟩))) hx
      exact ⟨n, mem_walk.2 (Or.inr ⟨c, hc, hn⟩), hx⟩

end RoseTree

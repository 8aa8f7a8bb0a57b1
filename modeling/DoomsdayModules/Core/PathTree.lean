import Mathlib.Tactic

/-!
# Trees of names

A tree holds content at its leaves and named children at its nodes, and a path
is a list of names.  Names are compared by a relation of the tree's user, and
the first child that matches is meant.  A store that finds children one at a
time finds whole paths.
-/

namespace DoomsdayModules.PathTree

inductive NameTree (Name Leaf : Type*)
  | leaf (content : Leaf)
  | node (children : List (Name × NameTree Name Leaf))

inductive Missing
  | notFound
  | notDirectory
  deriving DecidableEq

namespace NameTree

variable {Name Leaf : Type*} (same : Name → Name → Prop) [DecidableRel same]

/-- The first child with the name. -/
def child : NameTree Name Leaf → Name → Except Missing (NameTree Name Leaf)
  | .leaf _, _ => .error .notDirectory
  | .node children, name =>
      match children.find? fun entry => same entry.1 name with
      | some entry => .ok entry.2
      | none => .error .notFound

/-- The tree at the end of a path. -/
def find (tree : NameTree Name Leaf) (path : List Name) : Except Missing (NameTree Name Leaf) :=
  path.foldlM (child same) tree

theorem find_cons (tree : NameTree Name Leaf) (name : Name) (path : List Name) :
    tree.find same (name :: path) = (tree.child same name).bind fun next => next.find same path :=
  List.foldlM_cons

/-- A path leads to a tree, by the names as they are stored. -/
inductive Reaches : NameTree Name Leaf → List Name → NameTree Name Leaf → Prop
  | here (tree : NameTree Name Leaf) : Reaches tree [] tree
  | into {children : List (Name × NameTree Name Leaf)} {name : Name} {path : List Name}
      {next last : NameTree Name Leaf} (hmem : (name, next) ∈ children)
      (hrest : Reaches next path last) : Reaches (.node children) (name :: path) last

/-- No two children of a node on the way are taken for each other. -/
def DistinctAlong : NameTree Name Leaf → List Name → Prop
  | .leaf _, _ => True
  | .node _, [] => True
  | .node children, name :: path =>
      (∀ entry ∈ children, ∀ other ∈ children, same entry.1 other.1 → entry = other) ∧
        ∀ entry ∈ children, same entry.1 name → DistinctAlong entry.2 path

/-- What is stored under a path is what the path finds. -/
theorem find_of_reaches (hrefl : ∀ name, same name name) {tree last : NameTree Name Leaf}
    {path : List Name} (hreaches : Reaches tree path last)
    (hdistinct : DistinctAlong same tree path) :
    tree.find same path = .ok last := by
  induction hreaches with
  | here tree => rfl
  | @into children name path next last hmem _ ih =>
      have hchild : (NameTree.node children).child same name = .ok next := by
        have hsome : (children.find? fun entry => same entry.1 name).isSome = true :=
          List.find?_isSome.mpr ⟨(name, next), hmem, by simpa using hrefl name⟩
        obtain ⟨entry, hentry⟩ := Option.isSome_iff_exists.mp hsome
        have hsame : same entry.1 name := by simpa using List.find?_some hentry
        have hequal : entry = (name, next) :=
          hdistinct.1 entry (List.mem_of_find?_eq_some hentry) (name, next) hmem hsame
        simp only [child, hentry, hequal]
      rw [find_cons, hchild]
      exact ih (hdistinct.2 (name, next) hmem (hrefl name))

end NameTree

/-! ## Stores -/

variable {State Abstract Name Error AbstractError : Type*}

/-- Both steps succeed, in related states, or both fail with the same error. -/
def Agrees (related : State → Abstract → Prop) (code : AbstractError → Error) :
    Except Error State → Except AbstractError Abstract → Prop
  | .ok state, .ok abstract => related state abstract
  | .error error, .error failure => error = code failure
  | _, _ => False

theorem Agrees.of_ok {related : State → Abstract → Prop} {code : AbstractError → Error}
    {outcome : Except Error State} {abstract : Abstract}
    (hagrees : Agrees related code outcome (.ok abstract)) :
    ∃ state, outcome = .ok state ∧ related state abstract := by
  cases outcome with
  | error error => exact absurd hagrees id
  | ok state => exact ⟨state, rfl, hagrees⟩

theorem Agrees.mono {related weaker : State → Abstract → Prop} {code : AbstractError → Error}
    {outcome : Except Error State} {abstract : Except AbstractError Abstract}
    (hagrees : Agrees related code outcome abstract)
    (hweaker : ∀ state abstract, related state abstract → weaker state abstract) :
    Agrees weaker code outcome abstract := by
  cases outcome with
  | error error => cases abstract <;> exact hagrees
  | ok state =>
      cases abstract with
      | error failure => exact hagrees
      | ok abstract => exact hweaker state abstract hagrees

/-- Steps that agree agree along every path of names they agree on. -/
theorem agrees_foldlM {related : State → Abstract → Prop} {code : AbstractError → Error}
    {step : State → Name → Except Error State}
    {abstractStep : Abstract → Name → Except AbstractError Abstract} {good : Name → Prop}
    (hstep : ∀ state abstract name, good name → related state abstract →
      Agrees related code (step state name) (abstractStep abstract name))
    {state : State} {abstract : Abstract} (hstart : related state abstract) {path : List Name}
    (hpath : ∀ name ∈ path, good name) :
    Agrees related code (path.foldlM step state) (path.foldlM abstractStep abstract) := by
  induction path generalizing state abstract with
  | nil => exact hstart
  | cons name path ih =>
      have hfirst := hstep state abstract name (hpath name List.mem_cons_self) hstart
      rw [List.foldlM_cons, List.foldlM_cons]
      cases hconcrete : step state name with
      | error error =>
          cases habstract : abstractStep abstract name with
          | error failure =>
              rw [hconcrete, habstract] at hfirst
              exact hfirst
          | ok next =>
              rw [hconcrete, habstract] at hfirst
              exact absurd hfirst id
      | ok next =>
          cases habstract : abstractStep abstract name with
          | error failure =>
              rw [hconcrete, habstract] at hfirst
              exact absurd hfirst id
          | ok abstractNext =>
              rw [hconcrete, habstract] at hfirst
              exact ih hfirst fun other hother => hpath other (List.mem_cons_of_mem _ hother)

end DoomsdayModules.PathTree

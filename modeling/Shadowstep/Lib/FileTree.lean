import Mathlib.Data.List.Basic
import Mathlib.Data.List.Induction
import Mathlib.Logic.Function.Basic

/-!
# A tree of files with symbolic links

Directories, files and symbolic links, each at one place: the list of names
that leads to it from the top. A path is something else. It may start at the
top or at some directory, it may go up, and on its way it is redirected by the
links it meets, any number of times up to a limit.

* `Tree.resolve` — where a path leads;
* `Tree.resolve_real` — it leads to something that is no link;
* `Tree.resolve_unlinked` — a place that no link lies on is where its own path
  leads;
* `Tree.put`, `Tree.remove` — one entry added, replaced or taken away.
-/

namespace FileTree

variable {N C : Type*}

/-- A component of a path after its start. -/
inductive Segment (N : Type*) where
  | current
  | parent
  | name (name : N)

/-- A path as it is written. -/
structure Written (N : Type*) where
  absolute : Bool
  segments : List (Segment N)

/-- The directory that a path starts from. -/
def Written.start (path : Written N) (directory : List N) : List N :=
  if path.absolute then [] else directory

inductive Node (N C : Type*) where
  | directory
  | file (content : C)
  | link (target : Written N)

def Node.isDirectory : Node N C → Bool
  | .directory => true
  | _ => false

def Node.isLink : Node N C → Bool
  | .link _ => true
  | _ => false

variable [DecidableEq N]

/-- What is at a place. The top is a directory. -/
def nodeIn (entries : List (List N × Node N C)) : List N → Option (Node N C)
  | [] => some .directory
  | name :: rest => entries.lookup (name :: rest)

/-- The entries by their places, each in a directory. -/
structure Tree (N C : Type*) [DecidableEq N] where
  entries : List (List N × Node N C)
  parents : ∀ place name, (nodeIn entries (place ++ [name])).isSome →
    nodeIn entries place = some .directory

namespace Tree

def node (tree : Tree N C) (place : List N) : Option (Node N C) := nodeIn tree.entries place

/-- There is something at this place, and it is no link. -/
def isReal (tree : Tree N C) (place : List N) : Bool :=
  (tree.node place).any fun node => !node.isLink

def isLink (tree : Tree N C) (place : List N) : Bool := (tree.node place).any Node.isLink

def isDirectory (tree : Tree N C) (place : List N) : Bool :=
  (tree.node place).any Node.isDirectory

/-! ## Places -/

variable {tree : Tree N C} {place : List N}

@[simp] theorem isReal_top (tree : Tree N C) : tree.isReal [] = true := rfl

theorem node_of_isDirectory (h : tree.isDirectory place = true) :
    tree.node place = some .directory := by
  unfold isDirectory at h
  cases node : tree.node place with
  | none => simp [node] at h
  | some found =>
      cases found with
      | directory => rfl
      | file | link => simp [node, Node.isDirectory] at h

/-- What another thing lies in is a directory. -/
theorem node_of_below {below : List N} (h : (tree.node (place ++ below)).isSome)
    (proper : below ≠ []) : tree.node place = some .directory := by
  induction below using List.reverseRecOn with
  | nil => exact absurd rfl proper
  | append_singleton before name ih =>
      rw [← List.append_assoc] at h
      have directory := tree.parents _ _ h
      by_cases last : before = []
      · subst last
        rwa [List.append_nil] at directory
      · exact ih (by rw [node, directory]; rfl) last

theorem isReal_iff : tree.isReal place = true ↔
    ∃ node, tree.node place = some node ∧ node.isLink = false := by
  simp [isReal, Option.any_eq_true]

theorem isLink_of_isReal (real : tree.isReal place = true) : tree.isLink place = false := by
  obtain ⟨node, here, noLink⟩ := isReal_iff.mp real
  simp [isLink, here, noLink]

theorem isReal_of_below {above : List N} (real : tree.isReal place = true)
    (h : above <+: place) : tree.isReal above = true := by
  obtain ⟨below, rfl⟩ := h
  by_cases same : below = []
  · subst same
    rwa [List.append_nil] at real
  · obtain ⟨node, here, -⟩ := isReal_iff.mp real
    have directory := node_of_below (by rw [here]; rfl) same
    exact isReal_iff.mpr ⟨_, directory, rfl⟩

/-- Where no entry is a link, nothing is. -/
theorem not_isLink_of_entries (h : ∀ entry ∈ tree.entries, entry.2.isLink = false)
    (place : List N) : tree.isLink place = false := by
  cases place with
  | nil => rfl
  | cons name rest =>
      have here : tree.node (name :: rest) = tree.entries.lookup (name :: rest) := rfl
      unfold isLink
      cases found : tree.entries.lookup (name :: rest) with
      | none => rw [here, found]; rfl
      | some node =>
          obtain ⟨before, after, split, -⟩ := List.lookup_eq_some_iff.mp found
          rw [here, found, Option.any_some]
          exact h (name :: rest, node) (by simp [split])

/-! ## Paths -/

/-- How far a path leads before its next link. -/
inductive Walked (N : Type*) where
  | arrived (place : List N)
  /-- at a link: on from this directory -/
  | redirected (directory : List N) (rest : List (Segment N))
  | missing

/-- Components one after another. Going up from the top stays there. -/
def walk (tree : Tree N C) : List N → List (Segment N) → Walked N
  | place, [] => .arrived place
  | place, .current :: rest => if tree.isDirectory place then walk tree place rest else .missing
  | place, .parent :: rest =>
    if tree.isDirectory place then walk tree place.dropLast rest else .missing
  | place, .name name :: rest =>
    match tree.node (place ++ [name]) with
    | none => .missing
    | some (.link target) => .redirected (target.start place) (target.segments ++ rest)
    | some _ => walk tree (place ++ [name]) rest

/-- Where the components lead from a place, past at most so many links. -/
def resolve (tree : Tree N C) (links : Nat) (place : List N) (segments : List (Segment N)) :
    Option (List N) :=
  match tree.walk place segments with
  | .arrived there => some there
  | .missing => none
  | .redirected directory rest =>
    match links with
    | 0 => none
    | links + 1 => resolve tree links directory rest

/-- `realpath`, from a working directory: the place that a path leads to. -/
def canonicalize (tree : Tree N C) (links : Nat) (working : List N) (path : Written N) :
    Option (List N) :=
  tree.resolve links (path.start working) path.segments

/-- What a path leads to. -/
def opened (tree : Tree N C) (links : Nat) (working : List N) (path : Written N) :
    Option (Node N C) :=
  (tree.canonicalize links working path).bind tree.node

theorem isReal_start {path : Written N} (real : tree.isReal place = true) :
    tree.isReal (path.start place) = true := by
  unfold Written.start
  split
  · rfl
  · exact real

/-- A walk from what is no link passes and comes to nothing that is one. -/
theorem walk_real (segments : List (Segment N)) (real : tree.isReal place = true) :
    (∀ there, tree.walk place segments = .arrived there → tree.isReal there = true) ∧
      ∀ directory rest, tree.walk place segments = .redirected directory rest →
        tree.isReal directory = true := by
  induction segments generalizing place with
  | nil =>
      refine ⟨fun there h => ?_, fun _ _ h => (by cases h)⟩
      cases h
      exact real
  | cons segment rest ih =>
      cases segment with
      | current =>
          unfold walk
          split
          · exact ih real
          · exact ⟨fun _ h => (by cases h), fun _ _ h => (by cases h)⟩
      | parent =>
          unfold walk
          split
          · exact ih (isReal_of_below real (List.dropLast_prefix place))
          · exact ⟨fun _ h => (by cases h), fun _ _ h => (by cases h)⟩
      | name name =>
          unfold walk
          split
          case h_1 => exact ⟨fun _ h => (by cases h), fun _ _ h => (by cases h)⟩
          case h_2 target _ =>
            refine ⟨fun _ h => (by cases h), fun directory later h => ?_⟩
            cases h
            exact isReal_start real
          case h_3 node noLink here =>
            refine ih (isReal_iff.mpr ⟨node, here, ?_⟩)
            cases node with
            | link target => exact absurd rfl (noLink target)
            | directory | file => rfl

/-- A path leads to something that is no link. -/
theorem resolve_real {links : Nat} {segments : List (Segment N)} {there : List N}
    (real : tree.isReal place = true) (h : tree.resolve links place segments = some there) :
    tree.isReal there = true := by
  induction links generalizing place segments with
  | zero =>
      unfold resolve at h
      split at h
      case h_1 arrived =>
        obtain rfl := Option.some.inj h
        exact (walk_real segments real).1 _ arrived
      all_goals cases h
  | succ links ih =>
      unfold resolve at h
      split at h
      case h_1 arrived =>
        obtain rfl := Option.some.inj h
        exact (walk_real segments real).1 _ arrived
      case h_2 => cases h
      case h_3 redirected => exact ih ((walk_real segments real).2 _ _ redirected) h

theorem canonicalize_real {links : Nat} {working : List N} {path : Written N} {there : List N}
    (real : tree.isReal working = true)
    (h : tree.canonicalize links working path = some there) : tree.isReal there = true :=
  resolve_real (isReal_start real) h

/-- Names from a directory, when none of them is a link's: they lead to their
own place if there is something at it. -/
theorem walk_names (names : List N)
    (unlinked : ∀ passed, passed <+: names → tree.isLink (place ++ passed) = false) :
    tree.walk place (names.map .name) =
      if names = [] ∨ (tree.node (place ++ names)).isSome then .arrived (place ++ names)
      else .missing := by
  induction names generalizing place with
  | nil => simp [walk]
  | cons name rest ih =>
      have here := unlinked [name] (List.prefix_append [name] rest)
      have beyond (passed : List N) (h : passed <+: rest) :
          tree.isLink (place ++ [name] ++ passed) = false := by
        simpa using unlinked (name :: passed) (List.cons_prefix_cons.mpr ⟨rfl, h⟩)
      have onward := ih beyond
      rw [List.map_cons]
      unfold walk
      cases node : tree.node (place ++ [name]) with
      | none =>
          -- nothing is below nothing
          have gone : tree.node (place ++ name :: rest) = none := by
            by_cases last : rest = []
            · subst last
              exact node
            · by_contra some
              have there : (tree.node (place ++ [name] ++ rest)).isSome := by
                simpa [Option.isSome_iff_ne_none] using some
              have above := node_of_below there last
              rw [node] at above
              cases above
          simp [gone]
      | some found =>
          cases found with
          | link target => simp [isLink, node, Node.isLink] at here
          | directory | file =>
              rw [onward]
              by_cases last : rest = []
              · subst last
                simp [node]
              · simp [last]

/-- A place that no link lies on is where its own path leads, if there is
something at it. -/
theorem resolve_unlinked (links : Nat) {names : List N}
    (unlinked : ∀ passed, passed <+: names → tree.isLink (place ++ passed) = false)
    (real : tree.isReal place = true) :
    tree.resolve links place (names.map .name) =
      if (tree.node (place ++ names)).isSome then some (place ++ names) else none := by
  have walked := walk_names names unlinked
  by_cases same : names = []
  · subst same
    obtain ⟨node, here, -⟩ := isReal_iff.mp real
    unfold resolve
    simp [walk, here]
  · unfold resolve
    rw [walked]
    by_cases there : (tree.node (place ++ names)).isSome
    · simp [there]
    · simp [same, there]

end Tree

/-! ## Changes -/

theorem lookup_filter (entries : List (List N × Node N C)) (gone place : List N) :
    (entries.filter fun entry => entry.1 ≠ gone).lookup place =
      if place = gone then none else entries.lookup place := by
  induction entries with
  | nil => simp
  | cons entry rest ih =>
      rcases entry with ⟨here, node⟩
      by_cases same : here = gone
      · subst same
        rw [List.filter_cons_of_neg (by simp), ih]
        by_cases at_it : place = here
        · simp [at_it]
        · simp [at_it, List.lookup_cons, beq_eq_false_iff_ne.mpr at_it]
      · rw [List.filter_cons_of_pos (by simpa using same), List.lookup_cons, ih, List.lookup_cons]
        by_cases at_it : place = here
        · subst at_it
          simp [same]
        · simp [beq_eq_false_iff_ne.mpr at_it]

/-- One entry replaced, or a new one. -/
def putIn (entries : List (List N × Node N C)) (place : List N) (node : Node N C) :
    List (List N × Node N C) :=
  (place, node) :: entries.filter fun entry => entry.1 ≠ place

theorem nodeIn_putIn (entries : List (List N × Node N C)) {place : List N} (below : place ≠ [])
    (node : Node N C) :
    nodeIn (putIn entries place node) = Function.update (nodeIn entries) place (some node) := by
  funext there
  by_cases same : there = place
  · subst same
    rw [Function.update_self]
    cases there with
    | nil => exact absurd rfl below
    | cons name rest => simp [nodeIn, putIn]
  · rw [Function.update_of_ne same]
    cases there with
    | nil => rfl
    | cons name rest =>
        simp only [nodeIn, putIn, List.lookup_cons, beq_eq_false_iff_ne.mpr same, lookup_filter,
          if_neg same]

theorem nodeIn_filter (entries : List (List N × Node N C)) {place : List N} (below : place ≠ []) :
    nodeIn (entries.filter fun entry => entry.1 ≠ place) =
      Function.update (nodeIn entries) place none := by
  funext there
  by_cases same : there = place
  · subst same
    rw [Function.update_self]
    cases there with
    | nil => exact absurd rfl below
    | cons name rest => exact (lookup_filter entries _ _).trans (if_pos rfl)
  · rw [Function.update_of_ne same]
    cases there with
    | nil => rfl
    | cons name rest => simp only [nodeIn, lookup_filter, if_neg same]

namespace Tree

variable {tree tree' : Tree N C} {place : List N} {name : N}

theorem isDirectory_of_node (h : nodeIn tree.entries place = some .directory) :
    tree.isDirectory place = true := by
  simp [isDirectory, node, h, Node.isDirectory]

theorem parents_put (inside : tree.isDirectory place = true)
    (leaf : tree.isDirectory (place ++ [name]) = false) (new : Node N C) (above : List N)
    (other : N) (h : (nodeIn (putIn tree.entries (place ++ [name]) new) (above ++ [other])).isSome) :
    nodeIn (putIn tree.entries (place ++ [name]) new) above = some .directory := by
  rw [nodeIn_putIn _ (by simp)] at h ⊢
  by_cases same : above ++ [other] = place ++ [name]
  · obtain ⟨rfl, -⟩ := List.append_inj' same rfl
    rw [Function.update_of_ne (by simp)]
    exact node_of_isDirectory inside
  · rw [Function.update_of_ne same] at h
    have directory := tree.parents above other h
    rw [Function.update_of_ne, directory]
    rintro rfl
    rw [isDirectory_of_node directory] at leaf
    cases leaf

/-- Nothing but the top. -/
def empty : Tree N C := ⟨[], fun place name h => by cases place <;> cases h⟩

/-- An entry of a directory, new or in the place of one that is no directory. -/
def put (tree : Tree N C) (place : List N) (name : N) (new : Node N C) : Option (Tree N C) :=
  if h : tree.isDirectory place = true ∧ tree.isDirectory (place ++ [name]) = false then
    some ⟨putIn tree.entries (place ++ [name]) new, parents_put h.1 h.2 new⟩
  else none

/-- Nothing is in the directory. -/
def isEmpty (tree : Tree N C) (place : List N) : Bool :=
  tree.entries.all fun entry => entry.1.dropLast ≠ place

theorem not_below_isEmpty (empty : tree.isEmpty place = true) (name : N) :
    tree.node (place ++ [name]) = none := by
  have gone : tree.entries.lookup (place ++ [name]) = none := by
    rw [List.lookup_eq_none_iff]
    intro entry member
    have other := List.all_eq_true.mp empty entry member
    rw [decide_eq_true_eq] at other
    rw [bne_iff_ne]
    intro same
    exact other (by rw [← same, List.dropLast_concat])
  unfold node nodeIn
  split
  case h_1 none => simp at none
  case h_2 there _ _ _ some => rwa [some] at gone

theorem parents_remove (empty : tree.isEmpty place = true) (below : place ≠ []) (above : List N)
    (other : N)
    (h : (nodeIn (tree.entries.filter fun entry => entry.1 ≠ place) (above ++ [other])).isSome) :
    nodeIn (tree.entries.filter fun entry => entry.1 ≠ place) above = some .directory := by
  rw [nodeIn_filter _ below] at h ⊢
  by_cases gone : above ++ [other] = place
  · subst gone
    simp at h
  · rw [Function.update_of_ne gone] at h
    rw [Function.update_of_ne, tree.parents above other h]
    rintro rfl
    rw [show nodeIn tree.entries (above ++ [other]) = none from not_below_isEmpty empty other] at h
    cases h

/-- `unlink` and `rmdir`: an entry goes, a directory only when it is empty. -/
def remove (tree : Tree N C) (place : List N) : Option (Tree N C) :=
  if h : tree.isEmpty place = true ∧ place ≠ [] then
    some ⟨tree.entries.filter fun entry => entry.1 ≠ place, parents_remove h.1 h.2⟩
  else none

theorem put_eq_some {new : Node N C} (h : tree.put place name new = some tree') :
    tree'.node = Function.update tree.node (place ++ [name]) (some new) ∧
      tree.isDirectory (place ++ [name]) = false := by
  unfold put at h
  split at h
  case isTrue leaf =>
    obtain rfl := Option.some.inj h
    exact ⟨nodeIn_putIn _ (by simp) new, leaf.2⟩
  case isFalse => cases h

theorem remove_eq_some (h : tree.remove place = some tree') :
    tree'.node = Function.update tree.node place none := by
  unfold remove at h
  split at h
  case isTrue empty =>
    obtain rfl := Option.some.inj h
    exact nodeIn_filter _ empty.2
  case isFalse => cases h

end Tree

end FileTree

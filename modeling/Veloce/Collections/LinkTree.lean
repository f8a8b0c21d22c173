import Veloce.Collections.LexicalPath

/-! A tree of directories with symbolic links in it, and where a path leads in the tree. -/

namespace Collections

mutual

inductive LinkTree (V : Type) where
  | leaf (value : V)
  | link (target : String)
  | dir (entries : LinkEntries V)

/-- The entries of a directory, in the order in which it is read. -/
inductive LinkEntries (V : Type) where
  | nil
  | cons (name : String) (tree : LinkTree V) (rest : LinkEntries V)

end

variable {V : Type}

namespace LinkEntries

def names : LinkEntries V → List String
  | .nil => []
  | .cons name _ rest => name :: rest.names

def find? : LinkEntries V → String → Option (LinkTree V)
  | .nil, _ => none
  | .cons name tree rest, other => if other = name then some tree else rest.find? other

end LinkEntries

mutual

/-- The entries of a directory have different names, which are names. -/
def LinkTree.WellFormed : LinkTree V → Prop
  | .leaf _ => True
  | .link _ => True
  | .dir entries => entries.WellFormed

def LinkEntries.WellFormed : LinkEntries V → Prop
  | .nil => True
  | .cons name tree rest => IsName name ∧ name ∉ rest.names ∧ tree.WellFormed ∧ rest.WellFormed

end

namespace LinkTree

def at? : LinkTree V → List String → Option (LinkTree V)
  | tree, [] => some tree
  | .dir entries, name :: rest => (entries.find? name).bind fun tree => tree.at? rest
  | _, _ :: _ => none
termination_by structural _ location => location

def isDir : LinkTree V → Bool
  | .dir _ => true
  | _ => false

def isLink : LinkTree V → Bool
  | .link _ => true
  | _ => false

end LinkTree

/-- A file system: its root is a directory. -/
structure LinkSystem (V : Type) where
  entries : LinkEntries V
  wellFormed : entries.WellFormed

namespace LinkSystem

def node? (fs : LinkSystem V) (location : List String) : Option (LinkTree V) := (LinkTree.dir fs.entries).at? location

/-- Where the pieces of a path lead. What is done at a link is a parameter. -/
def followWith (fs : LinkSystem V) (onLink : List String → List String → Option (List String)) :
    List String → List String → Option (List String)
  | location, [] => some location
  | location, piece :: rest =>
    if ((fs.node? location).map LinkTree.isDir).getD false = false then none
    else if Path.isTrivial piece then fs.followWith onLink location rest
    else if piece = ".." then fs.followWith onLink location.dropLast rest
    else match fs.node? (location ++ [piece]) with
      | none => none
      | some (.link target) => onLink (if Path.isAbsolute target then [] else location) (Path.pieces target ++ rest)
      | some _ => fs.followWith onLink (location ++ [piece]) rest

/-- The target of a link takes its place, so many times. -/
def follow (fs : LinkSystem V) : Nat → List String → List String → Option (List String)
  | 0 => fs.followWith fun _ _ => none
  | links + 1 => fs.followWith (fs.follow links)

/-- The number of links that are followed in a path. -/
def maxLinks : Nat := 40

/-- The canonical location of a path, if there is anything. -/
def canonicalize (fs : LinkSystem V) (cwd : Location) (path : String) : Option (List String) :=
  if path = "" then none else fs.follow maxLinks (if Path.isAbsolute path then [] else cwd.names) (Path.pieces path)

end LinkSystem

section Lookups

variable {tree found : LinkTree V} {entries : LinkEntries V} {name : String} {front back location : List String}

theorem LinkEntries.mem_names_of_find? : ∀ {entries : LinkEntries V}, entries.find? name = some tree → name ∈ entries.names
  | .cons other _ rest, present => by
    rw [find?] at present
    split_ifs at present with same
    · exact same ▸ List.mem_cons_self
    · exact List.mem_cons_of_mem _ (mem_names_of_find? present)

theorem LinkEntries.isName_of_find? : ∀ {entries : LinkEntries V}, entries.WellFormed → entries.find? name = some tree →
    IsName name ∧ tree.WellFormed
  | .cons other _ rest, formed, present => by
    rw [find?] at present
    rw [WellFormed] at formed
    split_ifs at present with same
    · cases present
      exact ⟨same ▸ formed.1, formed.2.2.1⟩
    · exact isName_of_find? formed.2.2.2 present

@[simp] theorem LinkTree.at?_nil (tree : LinkTree V) : tree.at? [] = some tree := by cases tree <;> rfl

theorem LinkTree.at?_append (tree : LinkTree V) (front back : List String) :
    tree.at? (front ++ back) = (tree.at? front).bind fun found => found.at? back := by
  induction front generalizing tree with
  | nil => simp
  | cons name front ih =>
    cases tree with
    | leaf value => rfl
    | link target => rfl
    | dir entries =>
      rw [List.cons_append, at?, at?, Option.bind_assoc]
      exact congrArg _ (funext ih)

theorem LinkTree.isName_of_at? (formed : tree.WellFormed) (present : tree.at? location = some found) :
    (∀ name ∈ location, IsName name) ∧ found.WellFormed := by
  induction location generalizing tree with
  | nil =>
    rw [at?_nil] at present
    cases present
    exact ⟨List.forall_mem_nil _, formed⟩
  | cons name location ih =>
    cases tree with
    | leaf value => cases present
    | link target => cases present
    | dir entries =>
      obtain ⟨below, first, present⟩ := Option.bind_eq_some_iff.mp present
      obtain ⟨named, formed⟩ := LinkEntries.isName_of_find? formed first
      obtain ⟨names, formed⟩ := ih formed present
      exact ⟨List.forall_mem_cons.mpr ⟨named, names⟩, formed⟩

theorem LinkTree.isDir_of_at? (present : tree.at? (name :: location) = some found) : tree.isDir = true := by
  cases tree with
  | leaf value => cases present
  | link target => cases present
  | dir entries => rfl

end Lookups

namespace LinkSystem

variable {fs : LinkSystem V} {cwd : Location} {location final front names : List String} {found : LinkTree V} {links : Nat}
  {path : String} {name : String}

theorem node?_append (fs : LinkSystem V) (front back : List String) :
    fs.node? (front ++ back) = (fs.node? front).bind fun found => found.at? back :=
  LinkTree.at?_append _ front back

theorem isDir_of_node? (present : fs.node? (location ++ name :: front) = some found) :
    ((fs.node? location).map LinkTree.isDir).getD false = true := by
  rw [node?_append, Option.bind_eq_some_iff] at present
  obtain ⟨below, here, present⟩ := present
  rw [here, Option.map_some, Option.getD_some, LinkTree.isDir_of_at? present]

section Follow

variable {onLink onLink' : List String → List String → Option (List String)}

theorem followWith_nil (location : List String) : fs.followWith onLink location [] = some location := rfl

theorem followWith_names (proper : ∀ name ∈ names, IsName name) (present : fs.node? (location ++ names) = some found)
    (plain : found.isLink = false) : fs.followWith onLink location names = some (location ++ names) := by
  induction names generalizing location with
  | nil => rw [followWith_nil, List.append_nil]
  | cons name names ih =>
    obtain ⟨own, proper⟩ := List.forall_mem_cons.mp proper
    have step : location ++ name :: names = location ++ [name] ++ names := List.append_cons _ _ _
    have trivial : ¬ Path.isTrivial name = true := by
      rw [Path.isTrivial, Bool.or_eq_true, decide_eq_true_eq, decide_eq_true_eq]
      exact not_or.mpr ⟨own.nonempty, own.notHere⟩
    rw [followWith, isDir_of_node? present, if_neg (by decide), if_neg trivial, if_neg own.notAbove]
    rw [step] at present ⊢
    have next := ih proper present
    cases here : fs.node? (location ++ [name]) with
    | none =>
      rw [node?_append, here] at present
      cases present
    | some tree =>
      cases tree with
      | leaf value => exact next
      | dir entries => exact next
      | link target =>
        cases names with
        | nil =>
          rw [List.append_nil, here] at present
          cases present
          cases plain
        | cons next names =>
          have below := isDir_of_node? present
          rw [here] at below
          cases below

theorem followWith_append {back : List String}
    (linked : ∀ start pieces, onLink start pieces = some final → onLink start (pieces ++ back) = some names)
    (ends : fs.followWith onLink final back = some names) (followed : fs.followWith onLink location front = some final) :
    fs.followWith onLink location (front ++ back) = some names := by
  induction front generalizing location with
  | nil =>
    cases followed
    exact ends
  | cons piece front ih =>
    rw [followWith] at followed
    rw [List.cons_append, followWith]
    split_ifs at followed ⊢
    · exact ih followed
    · exact ih followed
    · cases here : fs.node? (location ++ [piece]) with
      | none =>
        rw [here] at followed
        cases followed
      | some tree =>
        rw [here] at followed
        cases tree with
        | leaf value => exact ih followed
        | dir entries => exact ih followed
        | link target =>
          have onward := linked _ _ followed
          rwa [List.append_assoc] at onward

theorem follow_append {back : List String} (proper : ∀ name ∈ back, IsName name) (present : fs.node? (final ++ back) = some found)
    (plain : found.isLink = false) (followed : fs.follow links location front = some final) :
    fs.follow links location (front ++ back) = some (final ++ back) := by
  induction links generalizing location front with
  | zero =>
    refine followWith_append (fun start pieces none => ?_) (followWith_names proper present plain) followed
    cases none
  | succ links ih =>
    exact followWith_append (fun start pieces => ih) (followWith_names proper present plain) followed

theorem followWith_concat_empty (linked : ∀ start pieces, onLink start (pieces ++ [""]) = some final → onLink start pieces = some final)
    (followed : fs.followWith onLink location (front ++ [""]) = some final) : fs.followWith onLink location front = some final := by
  induction front generalizing location with
  | nil =>
    have trivial : Path.isTrivial "" = true := rfl
    rw [List.nil_append, followWith, if_pos trivial] at followed
    split_ifs at followed
    exact followed
  | cons piece front ih =>
    rw [List.cons_append, followWith] at followed
    rw [followWith]
    split_ifs at followed ⊢
    · exact ih followed
    · exact ih followed
    · cases here : fs.node? (location ++ [piece]) with
      | none =>
        rw [here] at followed
        cases followed
      | some tree =>
        rw [here] at followed
        cases tree with
        | leaf value => exact ih followed
        | dir entries => exact ih followed
        | link target =>
          refine linked _ _ ?_
          rwa [List.append_assoc]

theorem follow_concat_empty (followed : fs.follow links location (front ++ [""]) = some final) :
    fs.follow links location front = some final := by
  induction links generalizing location front with
  | zero =>
    refine followWith_concat_empty (fun start pieces none => ?_) followed
    cases none
  | succ links ih => exact followWith_concat_empty (fun start pieces => ih) followed

end Follow

theorem isAbsolute_intercalate (filled : names ≠ []) (proper : ∀ name ∈ names, IsName name) :
    Path.isAbsolute (String.intercalate "/" names) = false := by
  by_contra absolute
  rw [Bool.not_eq_false, Path.isAbsolute_iff_pieces,
    Path.pieces_intercalate filled fun name member => (proper name member).unslashed] at absolute
  obtain ⟨rest, -, rfl⟩ := absolute
  exact (proper "" List.mem_cons_self).nonempty rfl

/-- A relative path of names goes on from where the base leads. -/
theorem canonicalize_join {base : String} (filled : names ≠ []) (proper : ∀ name ∈ names, IsName name)
    (followed : fs.canonicalize cwd base = some final) (present : fs.node? (final ++ names) = some found)
    (plain : found.isLink = false) :
    fs.canonicalize cwd (Path.join base (String.intercalate "/" names)) = some (final ++ names) := by
  have parts := Path.pieces_intercalate filled fun name member => (proper name member).unslashed
  have relative := isAbsolute_intercalate filled proper
  by_cases empty : base = ""
  · rw [canonicalize, if_pos empty] at followed
    cases followed
  · rw [canonicalize, if_neg empty] at followed
    rw [canonicalize, if_neg (Path.join_ne_empty empty relative), Path.isAbsolute_join _ relative]
    rcases Path.pieces_join empty relative with whole | ⟨front, ends, joined⟩
    · rw [whole, parts]
      exact follow_append proper present plain followed
    · rw [joined, parts]
      rw [ends] at followed
      exact follow_append proper present plain (follow_concat_empty followed)

end LinkSystem

end Collections

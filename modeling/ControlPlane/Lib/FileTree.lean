import Mathlib.Data.List.Infix
import Mathlib.Data.List.Basic
import Mathlib.Logic.Function.Basic

/-!
# File trees

The directories and files of a file system (`Files`), in which the directory
above a directory is always one, and the paths that lead to them (`Path`): the
steps from the root, as `pathlib` has them, `..` among them.

A path that joins a name to a directory leads to the entry of that name
(`join_name`), and a file of a directory that is copied is found at its path
(`lookup_copytree`). No directory lists a name with a slash (`mem_names`).
-/

namespace FileTree

/-! ## Paths -/

/-- What an entry of a directory is called. -/
def IsName (s : String) : Prop := s ≠ "" ∧ s ≠ "." ∧ s ≠ ".." ∧ '/' ∉ s.toList

instance : DecidablePred IsName := fun _ => inferInstanceAs (Decidable (_ ∧ _))

abbrev Name := { s : String // IsName s }

/-- A directory or a file: the names from the root down to it. -/
abbrev Place := List Name

inductive Step
  | up
  | into (name : Name)
  deriving DecidableEq

/-- A path from the root. -/
abbrev Path := List Step

/-- The step of a part of a path; that of `.`, and of what two slashes have
between them, is none. -/
def step? (part : String) : Option Step :=
  if h : IsName part then some (.into ⟨part, h⟩) else if part = ".." then some .up else none

def steps (s : String) : List Step := (s.toList.splitOn '/').filterMap fun part => step? (String.ofList part)

def Place.path (here : Place) : Path := here.map .into

/-- `here / s`; an absolute path starts at the root. -/
def join (here : Place) (s : String) : Path := if s.toList.head? = some '/' then steps s else here.path ++ steps s

/-- `str(path)`. -/
def Path.str (path : Path) : String :=
  "/" ++ "/".intercalate (path.map fun step => match step with
    | .up => ".."
    | .into name => name.val)

def move (here : Place) : Step → Place
  | .up => here.dropLast
  | .into name => here ++ [name]

/-- The places on the way, the last included. -/
def way (here : Place) : List Step → List Place
  | [] => [here]
  | step :: steps => here :: way (move here step) steps

def Path.way (path : Path) : List Place := FileTree.way [] path

/-- Where a path leads. -/
def Path.place (path : Path) : Place := path.foldl move []

/-- What is on the way is below what is on the way, or above the start. -/
theorem way_dropLast {steps : List Step} {here p : Place} (h : p ∈ way here steps) :
    p.dropLast ∈ way here steps ∨ p.dropLast <+: here := by
  induction steps generalizing here with
  | nil =>
    rw [List.mem_singleton.mp h]
    exact .inr (List.dropLast_prefix here)
  | cons step steps ih =>
    obtain rfl | hp := List.mem_cons.mp h
    · exact .inr (List.dropLast_prefix p)
    obtain hin | hpre := ih hp
    · exact .inl (List.mem_cons_of_mem _ hin)
    cases step with
    | up => exact .inr (hpre.trans (List.dropLast_prefix here))
    | into name =>
      obtain heq | hpre := List.prefix_concat_iff.mp hpre
      · refine .inl (List.mem_cons_of_mem _ ?_)
        rw [heq]
        cases steps <;> exact List.mem_cons_self
      · exact .inr hpre

theorem foldl_mem_way {steps : List Step} {here : Place} : steps.foldl move here ∈ way here steps := by
  induction steps generalizing here with
  | nil => exact List.mem_cons_self
  | cons step steps ih => exact List.mem_cons_of_mem _ ih

/-! ## Trees -/

/-- The root is there, and so is what is above anything. -/
structure Closed (dirs : List Place) : Prop where
  root : [] ∈ dirs
  parent : ∀ p ∈ dirs, p.dropLast ∈ dirs

/-- Directories, and the files in them. -/
structure Files (α : Type) where
  dirs : List Place
  /-- What a file holds. -/
  file : Place → Option α
  /-- Where the system lets nothing be made or written, there or below. -/
  refuses : Place → Bool
  closed : Closed dirs

/-- `p`, as seen from the directory. -/
def below (dir p : Place) : Option Place := if dir <+: p then some (p.drop dir.length) else none

theorem below_append (dir p : Place) : below dir (dir ++ p) = some p := by
  rw [below, if_pos (List.prefix_append dir p), List.drop_left]

theorem below_eq_some {dir p q : Place} : below dir p = some q ↔ p = dir ++ q := by
  refine ⟨fun h => ?_, fun h => h ▸ below_append dir q⟩
  unfold below at h
  split at h
  · rename_i hp
    obtain ⟨r, rfl⟩ := hp
    rw [List.drop_left] at h
    cases h
    rfl
  · cases h

/-- The directory at `src`, at `dst`. -/
def moved (src dst : Place) (dirs : List Place) : List Place := dirs.filterMap fun p => (below src p).map (dst ++ ·)

theorem mem_moved {src dst p : Place} {dirs : List Place} :
    p ∈ moved src dst dirs ↔ ∃ q, src ++ q ∈ dirs ∧ p = dst ++ q := by
  simp only [moved, List.mem_filterMap, Option.map_eq_some_iff, below_eq_some]
  constructor
  · rintro ⟨_, hp, q, rfl, rfl⟩
    exact ⟨q, hp, rfl⟩
  · rintro ⟨q, hq, rfl⟩
    exact ⟨_, hq, q, rfl, rfl⟩

theorem closed_way (path : Path) : Closed path.way := by
  have hroot : [] ∈ path.way := by cases path <;> exact List.mem_cons_self
  refine ⟨hroot, fun p hp => ?_⟩
  obtain hin | hpre := way_dropLast hp
  · exact hin
  · exact List.prefix_nil.mp hpre ▸ hroot

theorem Closed.union {xs ys : List Place} (hx : ∀ p ∈ xs, p.dropLast ∈ xs ∨ p.dropLast ∈ ys) (hy : Closed ys) :
    Closed (xs ∪ ys) := by
  refine ⟨List.mem_union_iff.mpr (.inr hy.root), fun p hp => List.mem_union_iff.mpr ?_⟩
  obtain hxs | hys := List.mem_union_iff.mp hp
  · exact hx p hxs
  · exact .inr (hy.parent p hys)

theorem Closed.moved {src dst : Place} {dirs ys : List Place} (h : Closed dirs) (hy : Closed ys) (hdst : dst ∈ ys) :
    Closed (moved src dst dirs ∪ ys) := by
  refine Closed.union (fun p hp => ?_) hy
  obtain ⟨q, hq, rfl⟩ := mem_moved.mp hp
  by_cases hnil : q = []
  · rw [hnil, List.append_nil]
    exact .inr (hy.parent dst hdst)
  · rw [List.dropLast_append_of_ne_nil hnil]
    refine .inl (mem_moved.mpr ⟨q.dropLast, ?_, rfl⟩)
    rw [← List.dropLast_append_of_ne_nil hnil]
    exact h.parent _ hq

namespace Files

variable {α : Type} (tree : Files α)

/-- All that the path goes through are directories. -/
def Reaches (path : Path) : Prop := ∀ p ∈ path.way.dropLast, p ∈ tree.dirs

instance (path : Path) : Decidable (tree.Reaches path) := inferInstanceAs (Decidable (∀ p ∈ _, _))

/-- `is_dir()`. -/
def isDir (path : Path) : Bool := tree.Reaches path ∧ path.place ∈ tree.dirs

/-- What the file at the path holds, where `is_file()`. -/
def lookup (path : Path) : Option α :=
  if tree.Reaches path ∧ path.place ∉ tree.dirs then tree.file path.place else none

/-- `path.exists()`. -/
def pathExists (path : Path) : Bool := tree.isDir path || (tree.lookup path).isSome

/-- The names of the directories in one. -/
def names (dir : Place) : List String :=
  tree.dirs.filterMap fun p => match below dir p with
    | some [name] => some name.val
    | some [] => none
    | some (_ :: _ :: _) => none
    | none => none

/-- `os.makedirs`, of what is not there; `none` is an OSError. -/
def makedirs (path : Path) : Option { made : Files α // path.place ∈ made.dirs } :=
  if path.place ∈ path.way.dropLast ++ tree.dirs ∨
      ∃ p ∈ path.way, p ∉ tree.dirs ∧ ((tree.file p).isSome ∨ tree.refuses p) then none
  else some ⟨{ tree with
    dirs := path.way ∪ tree.dirs
    closed := Closed.union (fun p hp => .inl ((closed_way path).parent p hp)) tree.closed },
    List.mem_union_iff.mpr (.inl foldl_mem_way)⟩

/-- `shutil.copytree`. -/
def copytree (src : Place) (path : Path) : Option (Files α) :=
  (tree.makedirs path).map fun made => { made.val with
    dirs := moved src path.place tree.dirs ∪ made.val.dirs
    file := fun p => (below path.place p).elim (made.val.file p) fun q => tree.file (src ++ q)
    closed := tree.closed.moved made.val.closed made.property }

/-- Puts what the file holds at the path; `none` is an OSError. -/
def write (path : Path) (content : α) : Option (Files α) :=
  if tree.Reaches path ∧ path.place ∉ tree.dirs ∧ ¬ tree.refuses path.place then
    some { tree with file := Function.update tree.file path.place (some content) }
  else none

end Files

/-! ## Names -/

theorem steps_name {s : String} (h : IsName s) : steps s = [.into ⟨s, h⟩] := by
  have hsplit : s.toList.splitOn '/' = [s.toList] := by
    rw [List.splitOn_eq_splitOnP]
    exact List.splitOnP_eq_singleton fun c hc => beq_eq_false_iff_ne.mpr fun heq => h.2.2.2 (heq ▸ hc)
  rw [steps, hsplit]
  simp [step?, h]

theorem join_name {s : String} (h : IsName s) (here : Place) : join here s = Place.path (here ++ [⟨s, h⟩]) := by
  have hhead : s.toList.head? ≠ some '/' := fun hs => h.2.2.2 (List.mem_of_mem_head? hs)
  rw [join, if_neg hhead, steps_name h, Place.path, Place.path, List.map_append]
  rfl

theorem foldl_into (place here : Place) : (place.map Step.into).foldl move here = here ++ place := by
  induction place generalizing here with
  | nil => rw [List.append_nil]; rfl
  | cons name place ih =>
    rw [List.map_cons, List.foldl_cons, ih, move, List.append_assoc]
    rfl

theorem place_path (here : Place) : here.path.place = here := foldl_into here []

theorem path_child (here : Place) (name : Name) : here.path ++ [.into name] = Place.path (here ++ [name]) := by
  rw [Place.path, Place.path, List.map_append]
  rfl

theorem mem_way_into {place here p : Place} (h : p ∈ way here (place.map .into)) :
    ∃ q, q <+: place ∧ p = here ++ q := by
  induction place generalizing here with
  | nil => exact ⟨[], List.prefix_rfl, by rw [List.mem_singleton.mp h, List.append_nil]⟩
  | cons name place ih =>
    obtain rfl | hp := List.mem_cons.mp h
    · exact ⟨[], List.nil_prefix, (List.append_nil p).symm⟩
    · obtain ⟨q, hq, rfl⟩ := ih hp
      exact ⟨name :: q, List.cons_prefix_cons.mpr ⟨rfl, hq⟩, by simp [move]⟩

theorem mem_way_path {here p : Place} (h : p ∈ here.path.way) : p <+: here := by
  obtain ⟨q, hq, rfl⟩ := mem_way_into h
  exact hq

theorem way_ne_nil (steps : List Step) (here : Place) : way here steps ≠ [] := by
  cases steps <;> exact List.cons_ne_nil _ _

theorem way_append (xs : List Step) (step : Step) (here : Place) :
    (way here (xs ++ [step])).dropLast = way here xs := by
  induction xs generalizing here with
  | nil => rfl
  | cons x xs ih =>
    rw [List.cons_append, way, way, List.dropLast_cons_of_ne_nil (way_ne_nil _ _), ih]

theorem Closed.prefix_mem {dirs : List Place} (h : Closed dirs) {p q : Place} (hq : q ∈ dirs) (hp : p <+: q) :
    p ∈ dirs := by
  obtain ⟨r, rfl⟩ := hp
  induction r using List.reverseRecOn with
  | nil => rwa [List.append_nil] at hq
  | append_singleton r name ih =>
    refine ih ?_
    have := h.parent _ hq
    rwa [← List.append_assoc, List.dropLast_concat] at this

namespace Files

variable {α : Type} {tree tree' : Files α} {here dst src : Place} {name : Name} {path other : Path} {content : α}

theorem mem_names {s : String} : s ∈ tree.names here ↔ ∃ h : IsName s, here ++ [⟨s, h⟩] ∈ tree.dirs := by
  simp only [names, List.mem_filterMap]
  constructor
  · rintro ⟨p, hp, hs⟩
    split at hs
    · rename_i name hb
      cases hs
      exact ⟨name.property, below_eq_some.mp hb ▸ hp⟩
    all_goals cases hs
  · rintro ⟨h, hp⟩
    exact ⟨_, hp, by rw [below_append]⟩

/-! ## Files -/

theorem reaches_child (h : here ∈ tree.dirs) : tree.Reaches (here ++ [name]).path := by
  intro p hp
  rw [Path.way, Place.path, List.map_append, List.map_singleton, way_append] at hp
  exact tree.closed.prefix_mem h (mem_way_path hp)

theorem isDir_path : tree.isDir here.path ↔ here ∈ tree.dirs := by
  rw [isDir, decide_eq_true_iff, place_path]
  refine ⟨And.right, fun h => ⟨fun p hp => ?_, h⟩⟩
  exact tree.closed.prefix_mem h (mem_way_path (List.mem_of_mem_dropLast hp))

/-- What is no name, without a slash, leads to the directory or to the one
above. -/
theorem isDir_join {s : String} (h : here ∈ tree.dirs) (hslash : '/' ∉ s.toList) (hs : ¬ IsName s) :
    tree.isDir (join here s) := by
  have hhead : s.toList.head? ≠ some '/' := fun hs => hslash (List.mem_of_mem_head? hs)
  rw [join, if_neg hhead]
  by_cases hup : s = ".."
  · have hsteps : steps s = [.up] := by rw [hup]; decide +kernel
    rw [hsteps, isDir, decide_eq_true_iff]
    refine ⟨fun p hp => ?_, ?_⟩
    · rw [Path.way, way_append] at hp
      exact tree.closed.prefix_mem h (mem_way_path hp)
    · rw [Path.place, List.foldl_append, show here.path.foldl move [] = here from place_path here]
      exact tree.closed.parent here h
  · have hsteps : steps s = [] := by
      by_cases hnil : s = ""
      · rw [hnil]; decide +kernel
      · have hdot : s = "." := by
          by_contra hdot
          exact hs ⟨hnil, hdot, hup, hslash⟩
        rw [hdot]; decide +kernel
    rw [hsteps, List.append_nil]
    exact isDir_path.mpr h

theorem lookup_child (h : here ∈ tree.dirs) (hname : here ++ [name] ∉ tree.dirs) :
    tree.lookup (here ++ [name]).path = tree.file (here ++ [name]) := by
  rw [lookup, if_pos ⟨reaches_child h, by rwa [place_path]⟩, place_path]

theorem file_of_lookup (h : tree.lookup here.path = some content) :
    here ∉ tree.dirs ∧ tree.file here = some content := by
  unfold lookup at h
  rw [place_path] at h
  split at h
  · rename_i hat
    exact ⟨hat.2, h⟩
  · cases h

theorem makedirs_dirs {made : { made : Files α // path.place ∈ made.dirs }} (h : tree.makedirs path = some made) :
    path.place ∉ tree.dirs ∧ made.val.dirs = path.way ∪ tree.dirs := by
  unfold makedirs at h
  split at h
  · cases h
  · rename_i hnot
    cases h
    exact ⟨fun hin => hnot (.inl (List.mem_append_right _ hin)), rfl⟩

/-- The copy is a new directory. -/
theorem copytree_dirs (h : tree.copytree src dst.path = some tree') : dst ∈ tree'.dirs ∧ dst ∉ tree.dirs := by
  obtain ⟨made, hmade, rfl⟩ := Option.map_eq_some_iff.mp h
  have hdst : dst ∈ made.val.dirs := Eq.subst (motive := fun p => p ∈ made.val.dirs) (place_path dst) made.property
  have hnew := (makedirs_dirs hmade).1
  rw [place_path] at hnew
  exact ⟨List.mem_union_iff.mpr (.inr hdst), hnew⟩

/-- A file of the directory is in its copy. -/
theorem lookup_copytree (h : tree.copytree src dst.path = some tree') (hname : src ++ [name] ∉ tree.dirs) :
    tree'.lookup (dst ++ [name]).path = tree.file (src ++ [name]) := by
  have hdst := copytree_dirs h
  obtain ⟨made, hmade, rfl⟩ := Option.map_eq_some_iff.mp h
  have hdirs := (makedirs_dirs hmade).2
  have hfile : dst ++ [name] ∉ moved src dst.path.place tree.dirs ∪ made.val.dirs := by
    rw [hdirs, List.mem_union_iff, List.mem_union_iff, mem_moved, place_path]
    rintro (⟨q, hq, heq⟩ | hway | hold)
    · rw [List.append_cancel_left heq] at hname
      exact hname hq
    · have := (mem_way_path hway).length_le
      rw [List.length_append, List.length_singleton] at this
      omega
    · exact hdst.2 (tree.closed.prefix_mem hold (List.prefix_append dst [name]))
  rw [lookup_child hdst.1 hfile]
  simp only [place_path, below_append, Option.elim_some]

theorem write_dirs (h : tree.write path content = some tree') : tree'.dirs = tree.dirs := by
  unfold write at h
  split at h <;> cases h
  rfl

theorem lookup_write (h : tree.write path content = some tree') : tree'.lookup path = some content := by
  unfold write at h
  split at h
  · rename_i hat
    cases h
    exact (if_pos ⟨hat.1, hat.2.1⟩).trans (Function.update_self ..)
  · cases h

theorem lookup_write_ne (h : tree.write path content = some tree') (hne : other.place ≠ path.place) :
    tree'.lookup other = tree.lookup other := by
  unfold write at h
  split at h
  · cases h
    exact if_congr Iff.rfl (Function.update_of_ne hne _ _) rfl
  · cases h

end Files

end FileTree

import Mathlib.Logic.Function.Basic
import ProviderSdk.Disk.Tree
import ProviderSdk.Proofs.Json.Members
import ProviderSdk.Proofs.Results

/-!
# Places

A disk as a map from places to what stands there. A node put in at a place is what stands there from
then on, and nothing else changes that does not stand below it. The place that a path leads to
depends on the working directory only, whatever stands on the way.
-/

namespace ProviderSdk

inductive Found where
  | nothing
  | directory
  | file (bytes : ByteArray)

def Found.bytes? : Found → Option ByteArray
  | .file bytes => some bytes
  | _ => none

namespace DiskNode

def toFound : DiskNode → Found
  | .file bytes => .file bytes
  | .directory _ => .directory

def found (node : DiskNode) (names : List String) : Found :=
  match node.get? names with
  | some inner => inner.toFound
  | none => .nothing

variable (bytes : ByteArray) (entries : List (String × DiskNode)) (name : String) (rest : List String)

@[simp] theorem found_nil (node : DiskNode) : node.found [] = node.toFound := by
  cases node <;> simp [found, get?]

@[simp] theorem found_file_cons : (DiskNode.file bytes).found (name :: rest) = .nothing := by
  simp [found, get?]

theorem found_directory_cons : (DiskNode.directory entries).found (name :: rest) =
    match entries.lookup name with
    | some node => node.found rest
    | none => .nothing := by
  cases h : entries.lookup name <;> simp [found, get?, h]

@[simp] theorem found_empty_cons : DiskNode.empty.found (name :: rest) = .nothing := by
  simp [empty, found_directory_cons]

variable {entries name rest}

theorem lookup_insertEntry (node : DiskNode) (other : String) :
    (insertEntry name node entries).lookup other =
      if other = name then some node else entries.lookup other := by
  have h : insertEntry name node entries = Json.insertMember name node entries := by
    induction entries with
    | nil => rfl
    | cons e rest ih => simp only [insertEntry, Json.insertMember, ih]
  rw [h, Json.lookup_insertMember]

variable {node leaf : DiskNode}

/-- After a node is put in behind a directory, it stands there with all that is below it, and all
else stands where it did. -/
theorem found_put {here : List String} (h : node.found here = .directory) (names : List String) :
    (node.put leaf (here ++ [name])).found names =
      if here ++ [name] <+: names then leaf.found (names.drop (here.length + 1)) else node.found names := by
  induction here generalizing node names with
  | nil =>
    cases node with
    | file bytes => simp [toFound] at h
    | directory entries =>
      cases names with
      | nil => simp [put, toFound]
      | cons first names =>
        simp only [List.nil_append, put, found_directory_cons, lookup_insertEntry, List.cons_prefix_cons]
        by_cases hname : first = name
        · simp [hname]
        · simp [hname, Ne.symm hname, DiskNode.entries]
  | cons segment here ih =>
    cases node with
    | file bytes => simp at h
    | directory entries =>
      rw [found_directory_cons] at h
      cases hlookup : entries.lookup segment with
      | none => simp [hlookup] at h
      | some inner =>
        rw [hlookup] at h
        cases names with
        | nil => simp [put, toFound]
        | cons first names =>
          simp only [List.cons_append, put, found_directory_cons, lookup_insertEntry, List.cons_prefix_cons,
            DiskNode.entries, hlookup, Option.getD_some]
          by_cases hname : first = segment
          · simp [hname, ih h, hlookup]
          · simp [hname, Ne.symm hname]

theorem found_append {here : List String} (h : node.found here ≠ .directory) (names : List String)
    (hnames : names ≠ []) : node.found (here ++ names) = .nothing := by
  induction here generalizing node with
  | nil =>
    cases node with
    | directory entries => simp [toFound] at h
    | file bytes =>
      obtain ⟨first, rest, rfl⟩ := List.exists_cons_of_ne_nil hnames
      simp
  | cons segment here ih =>
    cases node with
    | file bytes => simp
    | directory entries =>
      rw [found_directory_cons] at h
      rw [List.cons_append, found_directory_cons]
      cases hlookup : entries.lookup segment with
      | none => rfl
      | some inner =>
        rw [hlookup] at h
        exact ih h

theorem found_of_append {here names : List String} (h : node.found (here ++ names) = .directory) :
    node.found here = .directory := by
  by_cases hnames : names = []
  · rwa [hnames, List.append_nil] at h
  · apply Classical.byContradiction
    intro hnot
    rw [found_append hnot names hnames] at h
    cases h

theorem found_dropLast {here : List String} (h : node.found here = .directory) :
    node.found here.dropLast = .directory := by
  by_cases hhere : here = []
  · rwa [hhere] at h ⊢
  · exact @found_of_append _ _ [here.getLast hhere] (by rwa [List.dropLast_concat_getLast])

/-- A node below which nothing stands, put in behind a directory where no directory is, changes one
place only. -/
theorem found_put_eq_update {here : List String} (h : node.found here = .directory)
    (hplace : node.found (here ++ [name]) ≠ .directory)
    (hleaf : ∀ first rest, leaf.found (first :: rest) = .nothing) :
    (node.put leaf (here ++ [name])).found = Function.update node.found (here ++ [name]) leaf.toFound := by
  funext names
  rw [found_put h]
  by_cases hnames : names = here ++ [name]
  · simp [hnames]
  · rw [Function.update_of_ne hnames]
    split
    · next hbelow =>
      obtain ⟨rest, rfl⟩ := hbelow
      have hrest : rest ≠ [] := by
        rintro rfl
        exact hnames (List.append_nil _)
      obtain ⟨first, rest, rfl⟩ := List.exists_cons_of_ne_nil hrest
      rw [found_append hplace _ (by simp)]
      simpa using hleaf first rest
    · rfl

end DiskNode

def placeBehind (here : List String) (segment : String) : List String :=
  if segment = "" ∨ segment = "." then here
  else if segment = ".." then here.dropLast
  else here ++ [segment]

namespace Disk

/-- The place that a path leads to, whatever stands there: dots and empty segments stay, double dots go up. -/
def place (d : Disk) (p : Path) : List String :=
  p.segments.foldl placeBehind (if p.isAbsolute then [] else d.workingDirectory)

def found (d : Disk) : List String → Found := d.root.found

def Sound (d : Disk) : Prop := d.found d.workingDirectory = .directory

def Reached (root : DiskNode) (place : List String) : Prop :=
  root.found place = .directory ∨ ∃ parent name, place = parent ++ [name] ∧ root.found parent = .directory

theorem walk_ok {root : DiskNode} {here segments place : List String}
    (h : walk root here segments = .ok place) (hhere : root.found here = .directory) :
    place = segments.foldl placeBehind here ∧ Reached root place := by
  induction segments generalizing here with
  | nil =>
    cases h
    exact ⟨rfl, .inl hhere⟩
  | cons segment rest ih =>
    rw [walk] at h
    rw [List.foldl_cons, placeBehind]
    by_cases hsilent : segment = "" ∨ segment = "."
    · rw [if_pos (by simpa using hsilent)] at h
      rw [if_pos hsilent]
      exact ih h hhere
    · rw [if_neg (by simpa using hsilent)] at h
      rw [if_neg hsilent]
      by_cases hup : segment = ".."
      · rw [if_pos hup] at h ⊢
        exact ih h (DiskNode.found_dropLast hhere)
      · rw [if_neg hup] at h ⊢
        by_cases hlong : nameLimit < segment.utf8ByteSize
        · rw [if_pos hlong] at h
          cases h
        · rw [if_neg hlong] at h
          -- The last name may be that of a file or of nothing; any other is that of a directory.
          have hlast : Reached root (here ++ [segment]) := .inr ⟨here, segment, rfl, hhere⟩
          cases hnode : root.get? (here ++ [segment]) with
          | none =>
            cases rest with
            | nil =>
              simp only [hnode] at h
              cases h
              exact ⟨rfl, hlast⟩
            | cons => simp [hnode] at h
          | some node =>
            cases node with
            | directory entries =>
              simp only [hnode] at h
              exact ih h (by simp [DiskNode.found, hnode, DiskNode.toFound])
            | file bytes =>
              cases rest with
              | nil =>
                simp only [hnode] at h
                cases h
                exact ⟨rfl, hlast⟩
              | cons => simp [hnode] at h

variable {d d' : Disk} {p : Path} {place : List String}

/-- A path leads to its place whatever stands there, and directories lead there. -/
theorem locate_ok (hd : d.Sound) (h : d.locate p = .ok place) : place = d.place p ∧ Reached d.root place := by
  unfold locate at h
  split at h
  · cases h
  · refine walk_ok h ?_
    split
    · exact @DiskNode.found_of_append _ [] d.workingDirectory hd
    · exact hd

theorem node_ok (hd : d.Sound) {node : DiskNode} (h : d.node p = .ok node) :
    d.found (d.place p) = node.toFound := by
  obtain ⟨place, hplace, h⟩ := bind_eq_ok.mp h
  rw [← (locate_ok hd hplace).1, found, DiskNode.found]
  cases hnode : d.root.get? place with
  | none => simp [hnode] at h
  | some inner =>
    simp only [hnode, Except.ok.injEq] at h
    rw [h]

end Disk

end ProviderSdk

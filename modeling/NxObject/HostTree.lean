import NxObject.Utf8

/-!
# Directories of the host

What reading a directory of the host yields: names that need not be text, behind each of them a directory, a
file, a symbolic link or something else, and at any point an I/O error.
-/
namespace NxObject.Host

variable {ι : Type}

/-- What a name stands for. Where the contents cannot be read, there is an error of type `ι` instead. -/
inductive Node (ι : Type) where
  | dir (listing : Except ι (List (Except ι (Bytes × Except ι (Node ι)))))
  | file (data : Except ι Bytes)
  | symlink
  | other

/-- What reading a directory yields. For each entry its name is known, and maybe what it stands for. -/
abbrev Listing (ι : Type) := Except ι (List (Except ι (Bytes × Except ι (Node ι))))

/-- The names on the way to something, from a directory that is left open. -/
abbrev HostPath := List Bytes

/-- What stands at a path below a node. -/
inductive At : Node ι → HostPath → Node ι → Prop where
  | here (node : Node ι) : At node [] node
  | there {entries : List (Except ι (Bytes × Except ι (Node ι)))} {name : Bytes} {child node : Node ι}
      {path : HostPath} (hentry : Except.ok (name, Except.ok child) ∈ entries) (h : At child path node) :
      At (.dir (.ok entries)) (name :: path) node

def names (entries : List (Except ι (Bytes × Except ι (Node ι)))) : List Bytes :=
  entries.filterMap fun entry => entry.toOption.map Prod.fst

/-- What the host guarantees of names. No directory has two entries of one name, and no name is empty or has
a slash. -/
structure IsHost (root : Node ι) : Prop where
  nodup : ∀ path entries, At root path (.dir (.ok entries)) → (names entries).Nodup
  component : ∀ path entries, At root path (.dir (.ok entries)) →
    ∀ name ∈ names entries, name ≠ [] ∧ 0x2f ∉ name

lemma at_nil {node child : Node ι} : At node [] child ↔ child = node := by
  constructor
  · intro h
    cases h
    rfl
  · rintro rfl
    exact .here _

lemma at_cons {entries : List (Except ι (Bytes × Except ι (Node ι)))} {name : Bytes} {path : HostPath}
    {node : Node ι} : At (.dir (.ok entries)) (name :: path) node ↔
      ∃ child, Except.ok (name, Except.ok child) ∈ entries ∧ At child path node := by
  constructor
  · intro h
    cases h with
    | there hentry h => exact ⟨_, hentry, h⟩
  · rintro ⟨child, hentry, h⟩
    exact .there hentry h

lemma At.append {root child node : Node ι} {path path' : HostPath} (h : At root path child)
    (h' : At child path' node) : At root (path ++ path') node := by
  induction h with
  | here => exact h'
  | there hentry _ ih => exact .there hentry (ih h')

@[simp] lemma names_nil : names ([] : List (Except ι (Bytes × Except ι (Node ι)))) = [] := rfl

@[simp] lemma names_ok (name : Bytes) (node : Except ι (Node ι))
    (entries : List (Except ι (Bytes × Except ι (Node ι)))) :
    names (.ok (name, node) :: entries) = name :: names entries := rfl

lemma names_cons (entry : Except ι (Bytes × Except ι (Node ι)))
    (entries : List (Except ι (Bytes × Except ι (Node ι)))) :
    names (entry :: entries) = names [entry] ++ names entries := by
  cases entry <;> rfl

lemma mem_names {entries : List (Except ι (Bytes × Except ι (Node ι)))} {name : Bytes}
    {node : Except ι (Node ι)} (h : Except.ok (name, node) ∈ entries) : name ∈ names entries :=
  List.mem_filterMap.mpr ⟨_, h, rfl⟩

lemma eq_of_mem {entries : List (Except ι (Bytes × Except ι (Node ι)))} (hnodup : (names entries).Nodup)
    {name : Bytes} {child child' : Except ι (Node ι)} (h : Except.ok (name, child) ∈ entries)
    (h' : Except.ok (name, child') ∈ entries) : child = child' := by
  induction entries with
  | nil => cases h
  | cons entry entries ih =>
    cases entry with
    | error source => exact ih hnodup (by simpa using h) (by simpa using h')
    | ok entry =>
      obtain ⟨other, node⟩ := entry
      rw [names_ok] at hnodup
      obtain ⟨hnot, hnodup⟩ := List.nodup_cons.mp hnodup
      simp only [List.mem_cons, Except.ok.injEq, Prod.mk.injEq] at h h'
      rcases h with ⟨rfl, rfl⟩ | h
      · rcases h' with ⟨-, rfl⟩ | h'
        · rfl
        · exact absurd (mem_names h') hnot
      · rcases h' with ⟨rfl, -⟩ | h'
        · exact absurd (mem_names h) hnot
        · exact ih hnodup h h'

lemma At.unique {root node node' : Node ι} (hroot : IsHost root) {path : HostPath} (h : At root path node)
    (h' : At root path node') : node = node' := by
  induction h with
  | here => exact (at_nil.mp h').symm
  | @there entries name child node path hentry h ih =>
    obtain ⟨child', hentry', h'⟩ := at_cons.mp h'
    obtain rfl := Except.ok.inj (eq_of_mem (hroot.nodup [] entries (.here _)) hentry hentry')
    refine ih ⟨fun path entries h => ?_, fun path entries h => ?_⟩ h'
    · exact hroot.nodup (name :: path) entries (.there hentry h)
    · exact hroot.component (name :: path) entries (.there hentry h)

lemma isHost_file (data : Except ι Bytes) : IsHost (Node.file data) where
  nodup := by
    intro path entries h
    cases h
  component := by
    intro path entries h
    cases h

lemma isHost_symlink : IsHost (Node.symlink : Node ι) where
  nodup := by
    intro path entries h
    cases h
  component := by
    intro path entries h
    cases h

lemma isHost_dir {entries : List (Except ι (Bytes × Except ι (Node ι)))} (hnodup : (names entries).Nodup)
    (hcomponent : ∀ name ∈ names entries, name ≠ [] ∧ 0x2f ∉ name)
    (hbelow : ∀ name child, Except.ok (name, Except.ok child) ∈ entries → IsHost child) :
    IsHost (.dir (.ok entries)) where
  nodup := by
    intro path entries' h
    cases h with
    | here => exact hnodup
    | there hentry h => exact (hbelow _ _ hentry).nodup _ _ h
  component := by
    intro path entries' h
    cases h with
    | here => exact hcomponent
    | there hentry h => exact (hbelow _ _ hentry).component _ _ h

end NxObject.Host

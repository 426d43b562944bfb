import Mathlib.Data.Finset.Dedup
import Mathlib.Logic.Relation
import Scriptlet.Proofs.Running.Literal

/-!
# The import graph

Which files import which.  A file is known by its identity, whatever name led to it, and it has one
text: the names on the way to a file can be read off its identity, since none of them has a slash
in it.

An import that is started while other files are being imported meets one of them again exactly if
it leads to one of them or to a cycle, and that is so exactly if one of the imports of the file
does, started while the file itself is being imported too.
-/

namespace Scriptlet

variable {σ : Type}

/-! ### Identities of files -/

namespace Disk

/-- Whether a text can stand between the slashes of a path. -/
def IsPart (x : String) : Prop :=
  x ≠ "" ∧ '/' ∉ x.toList

/-- No part of a list that is split is split further. -/
theorem not_mem_of_mem_splitOn {α : Type} [BEq α] [LawfulBEq α] {x : α} {xs l : List α}
    (hl : l ∈ xs.splitOn x) :
  x ∉ l
  := by
  induction xs generalizing l with
  | nil =>
      rw [List.splitOn_nil] at hl
      rw [List.mem_singleton.mp hl]
      exact List.not_mem_nil
  | cons a xs ih =>
      rw [List.splitOn_cons_eq_if_modifyHead] at hl
      split at hl
      · rcases List.mem_cons.mp hl with rfl | hl
        · exact List.not_mem_nil
        · exact ih hl
      · rename_i hne
        obtain ⟨first, rest, hsplit⟩ := List.exists_cons_of_ne_nil (List.splitOn_ne_nil x xs)
        rw [hsplit] at hl ih
        rcases List.mem_cons.mp hl with rfl | hl
        · have hfirst := ih List.mem_cons_self
          simp only [List.mem_cons, not_or]
          exact ⟨fun heq => hne (by simp [heq]), hfirst⟩
        · exact ih (List.mem_cons_of_mem _ hl)

/-- The parts of a path can stand between slashes. -/
theorem isPart_namesOf {path x : String} (hx : x ∈ namesOf path) :
  IsPart x
  := by
  obtain ⟨hx, hne⟩ := List.mem_filter.mp hx
  obtain ⟨l, hl, rfl⟩ := List.mem_map.mp hx
  exact ⟨of_decide_eq_true hne, by simpa using not_mem_of_mem_splitOn hl⟩

/-- The names of a path can stand between slashes. -/
theorem isPart_pathNames {path x : String} (hx : x ∈ pathNames path) :
  IsPart x
  := by
  unfold pathNames at hx
  rcases List.mem_append.mp hx with hx | hx
  · exact isPart_namesOf hx
  · split at hx
    · rw [List.mem_singleton.mp hx]
      unfold IsPart
      decide
    · cases hx

/-- Whether the names of a place can stand between slashes. -/
def IsNamed (names : Names) : Prop :=
  ∀ x ∈ names, IsPart x

/-- Where a path starts from, all names can stand between slashes. -/
theorem isNamed_origin {place : Names} (hplace : IsNamed place) (path : String) :
  IsNamed (origin place path)
  := by
  unfold origin
  split
  · exact List.forall_mem_nil _
  · exact hplace

/-- Names that can stand between slashes lead to a place whose names can, if what links jump to
is such a place. -/
theorem isNamed_walk {d : Disk} {jump : Names → String → Names → Except DiskFault Names}
    (hjump : ∀ {place path rest there}, IsNamed place → IsNamed rest →
      jump place path rest = .ok there → IsNamed there)
    {place there names : Names} (hplace : IsNamed place) (hnames : IsNamed names)
    (h : d.walk jump place names = .ok there) :
  IsNamed there
  := by
  induction names generalizing place with
  | nil =>
      obtain rfl : place = there := Except.ok.inj h
      exact hplace
  | cons name rest ih =>
      obtain ⟨hname, hrest⟩ := List.forall_mem_cons.mp hnames
      rw [walk] at h
      split at h
      · cases h
      · split at h
        · exact ih hplace hrest h
        · split at h
          · exact ih (fun x hx => hplace x (List.dropLast_subset place hx)) hrest h
          · split at h
            · cases h
            · dsimp only at h
              split at h
              · exact hjump hplace hrest h
              · split at h
                · refine ih ?_ hrest h
                  exact List.forall_mem_append.mpr ⟨hplace, List.forall_mem_singleton.mpr hname⟩
                · cases h

/-- What names lead to over links has names only: by induction on the number of links that may still
be followed. -/
theorem isNamed_follow {d : Disk} {links : Nat} {place there names : Names}
    (hplace : IsNamed place) (hnames : IsNamed names) (h : d.follow links place names = .ok there) :
  IsNamed there
  := by
  induction links generalizing place there names with
  | zero =>
      refine isNamed_walk (fun _ _ hjump => ?_) hplace hnames h
      cases hjump
  | succ links ih =>
      refine isNamed_walk (fun {_ path _ _} hhere hrest hjump => ?_) hplace hnames h
      refine ih (isNamed_origin hhere path) ?_ hjump
      exact List.forall_mem_append.mpr ⟨fun _ => isPart_pathNames, hrest⟩

/-- The names of a place that a path leads to can stand between slashes. -/
theorem isNamed_resolve {d : Disk} {path : String} {place : Names}
    (h : d.resolve path = .ok place) :
  IsNamed place
  := by
  unfold resolve at h
  split at h
  · cases h
  · split at h
    · cases h
    · exact isNamed_follow (isNamed_origin (fun _ => isPart_namesOf) path)
        (fun _ => isPart_pathNames) h

/-- The names on the way to a file can be read off its identity. -/
theorem filter_parts_identity {names : Names} (hnames : IsNamed names) :
  (parts (identity names)).filter (· ≠ "") = names
  := by
  have hsplit : (identity names).toList.splitOn '/'
      = [] :: (['/'].intercalate (names.map String.toList)).splitOn '/' := by
    have htext : (identity names).toList = '/' :: ['/'].intercalate (names.map String.toList) := by
      simp [identity]
    rw [htext, List.splitOn_cons_eq_if_modifyHead, if_pos (by decide)]
  unfold parts
  rw [hsplit]
  cases names with
  | nil => decide
  | cons x rest =>
      have hparts : ∀ l ∈ (x :: rest).map String.toList, '/' ∉ l := by
        intro l hl
        obtain ⟨y, hy, rfl⟩ := List.mem_map.mp hl
        exact (hnames y hy).2
      have hback : ((x :: rest).map String.toList).map String.ofList = x :: rest := by
        simp
      rw [List.splitOn_intercalate '/' hparts (by simp), List.map_cons, hback,
        List.filter_cons_of_neg (by simp), List.filter_eq_self]
      exact fun y hy => decide_eq_true (hnames y hy).1

/-- Places with one identity are the same. -/
theorem identity_injective {names names' : Names} (hnames : IsNamed names)
    (hnames' : IsNamed names') (h : identity names = identity names') :
  names = names'
  := by
  rw [← filter_parts_identity hnames, h, filter_parts_identity hnames']

end Disk

namespace Setting

variable {setting : Setting σ}

/-- What the name of a unit leads to. -/
theorem unit?_cases {name file text : String} (h : setting.unit? name = some (file, text)) :
  file = Library.name ∧ text = Library.text
  ∨ ∃ names, Disk.IsNamed names ∧ file = Disk.identity names ∧ setting.disk.readAt names = .ok text
  := by
  unfold unit? at h
  split at h
  · rename_i hname
    cases h
    exact .inl ⟨hname, rfl⟩
  · split at h
    · cases h
    · dsimp only at h
      split at h
      · rename_i names hresolve
        split at h
        · rename_i text hread
          cases h
          exact .inr ⟨names, Disk.isNamed_resolve hresolve, rfl, hread⟩
        · cases h
      · cases h

/-- A file has one text, whatever names lead to it. -/
theorem text_unique {name name' file text text' : String}
    (h : setting.unit? name = some (file, text)) (h' : setting.unit? name' = some (file, text')) :
  text = text'
  := by
  have hlibrary (names : Names) : Disk.identity names ≠ Library.name := by
    intro heq
    have htext := congrArg String.toList heq
    simp [Disk.identity, Library.name] at htext
  rcases unit?_cases h with ⟨hfile, rfl⟩ | ⟨names, hnames, rfl, hread⟩
  · rcases unit?_cases h' with ⟨-, rfl⟩ | ⟨names', -, rfl, -⟩
    · rfl
    · exact absurd hfile (hlibrary names')
  · rcases unit?_cases h' with ⟨hfile, -⟩ | ⟨names', hnames', hfile, hread'⟩
    · exact absurd hfile (hlibrary names)
    · rw [← Disk.identity_injective hnames hnames' hfile] at hread'
      exact Except.ok.inj (hread.symm.trans hread')

/-- A path from the root, one from the working directory and one over a link lead to one file. -/
example :
  let disk : Disk :=
    { Disk.empty with files := [(["lib", "a.tiny"], "x".toUTF8)], links := [(["b"], "./lib/")] }
  let setting : Setting := ⟨.standard, Device.standard, disk⟩
  ["/home/lib/a", "lib/../lib/a", "b/a"].map setting.unit?
    = List.replicate 3 (some ("/home/lib/a.tiny", "x"))
  := by decide +kernel

/-! ### Files and their statements -/

/-- Whether a statement stands in the text of a file. -/
def Contains (setting : Setting σ) (file : String) (s : Stmt) : Prop :=
  ∃ name text, setting.unit? name = some (file, text) ∧ s ∈ (Program.parse text name).1.statements

/-- Whether a file imports another one. -/
def Uses (setting : Setting σ) (file file' : String) : Prop :=
  ∃ pos name text, setting.Contains file (.use pos name) ∧ setting.unit? name = some (file', text)

/-- Whether a name is declared in a file. -/
def Declares (setting : Setting σ) (file name : String) : Prop :=
  ∃ pos value, setting.Contains file (.define pos name value)

/-- Whether a file is imported by another one, directly or through others, or is that file. -/
def Reaches (setting : Setting σ) : String → String → Prop :=
  Relation.ReflTransGen setting.Uses

/-- Whether a file reaches one that imports itself, directly or through others. -/
def ReachesCycle (setting : Setting σ) (file : String) : Prop :=
  ∃ file', setting.Reaches file file' ∧ Relation.TransGen setting.Uses file' file'

/-- The statements of a file are those that its text is read as, under any of its names. -/
theorem contains_iff {name file text : String} (h : setting.unit? name = some (file, text))
    (s : Stmt) :
  setting.Contains file s ↔ s ∈ (Program.parse text name).1.statements
  := by
  constructor
  · rintro ⟨name', text', h', hs⟩
    rw [text_unique h h']
    exact hs
  · intro hs
    exact ⟨name, text, h, hs⟩

/-! ### Imports that are under way -/

/-- Whether an import of a file meets a file that is being imported, if those in `imports` are. -/
def Meets (setting : Setting σ) (imports : List String) (file : String) : Prop :=
  ∃ file', setting.Reaches file file'
    ∧ (file' ∈ imports ∨ Relation.TransGen setting.Uses file' file')

/-- An import of a file that is being imported meets it. -/
theorem meets_of_mem {imports : List String} {file : String} (h : file ∈ imports) :
  setting.Meets imports file
  := ⟨file, .refl, .inl h⟩

/-- An import of a file that is not being imported meets one that is exactly if an import in its
text does while the file itself is being imported. -/
theorem meets_iff {imports : List String} {file : String} (hfile : file ∉ imports) :
  setting.Meets imports file
    ↔ ∃ child, setting.Uses file child ∧ setting.Meets (file :: imports) child
  := by
  constructor
  · rintro ⟨file', hreaches, hmeets⟩
    rcases Relation.ReflTransGen.cases_head hreaches with rfl | ⟨child, huses, hchild⟩
    · have hloop := hmeets.resolve_left hfile
      obtain ⟨child, huses, hback⟩ := Relation.TransGen.head'_iff.mp hloop
      exact ⟨child, huses, file, hback, .inl List.mem_cons_self⟩
    · exact ⟨child, huses, file', hchild, hmeets.imp_left (List.mem_cons_of_mem file)⟩
  · rintro ⟨child, huses, file', hreaches, hmeets⟩
    have hhead : setting.Reaches file file' := .head huses hreaches
    rcases hmeets with hmem | hloop
    · rcases List.mem_cons.mp hmem with rfl | hmem
      · exact ⟨file', .refl, .inr (.head' huses hreaches)⟩
      · exact ⟨file', hhead, .inl hmem⟩
    · exact ⟨file', hhead, .inr hloop⟩

/-! ### Modules -/

/-- The files that names of units lead to. -/
def files (setting : Setting σ) (names : List String) : Finset String :=
  (names.filterMap fun name => (setting.unit? name).map Prod.fst).toFinset

end Setting

/-- Whether a statement is an import of one of some units or binds a name to a literal. -/
def Stmt.isPlain (names : List String) : Stmt → Bool
  | .use _ name => names.contains name
  | .define _ _ value => value.isLiteral
  | _ => false

namespace Setting

/-- Whether a name leads to a file on the disk that has no syntax errors and consists only of
imports of units with a name in `names` and of names bound to literals. -/
def isModule (setting : Setting σ) (names : List String) (name : String) : Bool :=
  !name.startsWith Library.bundled
    && match setting.unit? name with
      | some (_, text) =>
        let (program, errors) := Program.parse text name
        errors.isEmpty && program.statements.all (·.isPlain names)
      | none => false

variable {setting : Setting σ} {names : List String}

/-- A module has a text without syntax errors, of plain statements. -/
theorem exists_of_isModule {name : String} (h : setting.isModule names name = true) :
  ∃ file text, setting.unit? name = some (file, text) ∧ (Program.parse text name).2 = []
    ∧ ∀ s ∈ (Program.parse text name).1.statements, s.isPlain names = true
  := by
  obtain ⟨-, h⟩ := Bool.and_eq_true_iff.mp h
  split at h
  · rename_i file text hunit
    obtain ⟨herrors, hplain⟩ := Bool.and_eq_true_iff.mp h
    exact ⟨file, text, hunit, List.isEmpty_iff.mp herrors, List.all_eq_true.mp hplain⟩
  · cases h

/-- A unit that is named leads to one of the files. -/
theorem mem_files {name file text : String} (hname : name ∈ names)
    (h : setting.unit? name = some (file, text)) :
  file ∈ setting.files names
  := by
  unfold files
  rw [List.mem_toFinset, List.mem_filterMap]
  exact ⟨name, hname, by rw [h]; rfl⟩

end Setting

end Scriptlet

import AppletHost.Hosting.Host
import Mathlib.Data.List.Sort

/-!
# Which of the listed apps can be loaded

Listing goes through the apps directory and looks whether there is a script; loading goes by the name
and reads. Both take the same way to the script, so a listed script is never missing
(`read_of_holdsFile`), and loading a listed app finds it missing just if the name itself is refused.
Names are refused that could lead elsewhere, and the test for this is coarser than need be: a
directory may well be called `a..b`, and then

> `dotted_app_listed_but_refused`: the app is listed, and loading it says that there is no such app.

> `listed_app_loads_iff`: this is the only gap. Any other listed app is loaded, unless one of its
> files is there but is no text, and then the error says so.
-/

namespace AppletHost.Hosting

/-- A name that an entry of a directory can have. -/
def IsEntryName (name : String) : Prop :=
  name ≠ "" ∧ name ≠ "." ∧ name ≠ ".." ∧ '/' ∉ name.toList

/-- A name that loading refuses though a directory may have it: it holds two dots in a row, or a
backslash. -/
def IsRefusedName (name : String) : Prop := "..".toList <:+: name.toList ∨ '\\' ∈ name.toList

theorem isDirectoryName_iff_of_isEntryName {name : String} (h : IsEntryName name) :
    isDirectoryName name = true ↔ ¬ IsRefusedName name := by
  obtain ⟨hempty, hdot, -, hslash⟩ := h
  rw [isDirectoryName_iff, IsRefusedName, not_or]
  constructor
  · intro h
    exact ⟨h.2.2.1, h.2.2.2.2⟩
  · intro h
    exact ⟨hempty, hdot, h.1, hslash, h.2⟩

/-! ## Reading -/

namespace FileNode

/-- There is a text to be read at the path. -/
def HoldsText (files : FileNode) (path : FilePath) : Prop := ∃ text, files.read path = .ok text

/-- A file that was found is not missing when it is read. -/
theorem read_of_holdsFile {files : FileNode} {path : FilePath} (h : files.holdsFile path = true) :
    files.read path ≠ .error .notFound := by
  intro hread
  unfold holdsFile at h
  unfold read at hread
  cases hfind : files.find path with
  | error fault =>
    rw [hfind] at h
    cases h
  | ok node =>
    rw [hfind] at h hread
    cases node with
    | directory entries => cases h
    | file content =>
      dsimp only at hread
      split at hread
      · cases hread
      · cases hread

end FileNode

namespace Catalog

variable {c : Catalog} {files : FileNode} {name : String}

theorem mem_list_iff :
    name ∈ (c.list files).map AppDescriptor.name ↔
      name ∈ files.entryNames c.root ∧ files.holdsFile (c.scriptPath name) = true := by
  have hnames : (AppDescriptor.name ∘ c.descriptor) = id := rfl
  rw [list, List.map_map, hnames, List.map_id, List.mem_mergeSort, List.mem_filter]

theorem readOptional_eq_ok_iff {path : FilePath} :
    (∃ text, readOptional files path = .ok text) ↔
      files.HoldsText path ∨ files.read path = .error .notFound := by
  unfold readOptional FileNode.HoldsText
  cases files.read path with
  | ok text => simp
  | error fault => cases fault <;> simp

/-- What comes of a file that may be missing: its text or that it is missing, or else why it cannot be
read. -/
theorem readOptional_cases (files : FileNode) (path : FilePath) :
    (∃ text, readOptional files path = .ok text) ∨
      ∃ fault, readOptional files path = .error (.file fault) := by
  unfold readOptional
  split
  · exact .inl ⟨_, rfl⟩
  · exact .inl ⟨_, rfl⟩
  · exact .inr ⟨_, rfl⟩

/-- What loading comes to when the script is no missing file. -/
theorem load_eq_of_read (hname : isDirectoryName name = true)
    (hscript : files.read (c.scriptPath name) ≠ .error .notFound) :
    c.load files name =
      (match files.read (c.scriptPath name) with
      | .error fault => .error (.file fault)
      | .ok script => do
        let template ← readOptional files (c.templatePath name)
        let style ← readOptional files (c.stylePath name)
        .ok ⟨name, script, template, style⟩) := by
  rw [load, if_pos hname]
  cases hread : files.read (c.scriptPath name) with
  | ok script => rfl
  | error fault =>
    cases fault with
    | notFound => exact absurd hread hscript
    | _ => rfl

/-- An app with a plain name and a script is loaded, or the error tells of a file that cannot be
read. -/
theorem load_cases (hname : isDirectoryName name = true)
    (hscript : files.read (c.scriptPath name) ≠ .error .notFound) :
    (∃ app, c.load files name = .ok app) ∨ ∃ fault, c.load files name = .error (.file fault) := by
  rw [load_eq_of_read hname hscript]
  split
  · exact .inr ⟨_, rfl⟩
  next script _ =>
    rcases readOptional_cases files (c.templatePath name) with ⟨template, ht⟩ | ⟨fault, ht⟩
    · rcases readOptional_cases files (c.stylePath name) with ⟨style, hs⟩ | ⟨fault, hs⟩
      · rw [ht, hs]
        exact .inl ⟨_, rfl⟩
      · rw [ht, hs]
        exact .inr ⟨fault, rfl⟩
    · rw [ht]
      exact .inr ⟨fault, rfl⟩

/-- An app is loaded if its script is a text and nothing else is found that cannot be read. -/
theorem exists_load_eq_ok_iff (hname : isDirectoryName name = true) :
    (∃ app, c.load files name = .ok app) ↔
      files.HoldsText (c.scriptPath name) ∧
        (∃ template, readOptional files (c.templatePath name) = .ok template) ∧
        ∃ style, readOptional files (c.stylePath name) = .ok style := by
  simp only [load_eq_ok_iff]
  constructor
  · rintro ⟨app, -, -, hscript, htemplate, hstyle⟩
    exact ⟨⟨_, hscript⟩, ⟨_, htemplate⟩, ⟨_, hstyle⟩⟩
  · rintro ⟨⟨script, hscript⟩, ⟨template, htemplate⟩, ⟨style, hstyle⟩⟩
    exact ⟨⟨name, script, template, style⟩, hname, rfl, hscript, htemplate, hstyle⟩

end Catalog

/-! ## Launching -/

/-- A launch says that there is no such app just if loading does. -/
theorem Host.launch_eq_appNotFound_iff (h : Host) (env : Surroundings) (name n : String) :
    (h.launch env name).1 = .error (.appNotFound n) ↔
      h.catalog.load env.files name = .error (.appNotFound n) := by
  unfold launch
  cases hload : h.catalog.load env.files name with
  | error e => exact ⟨fun h => congrArg _ (Except.error.inj h), fun h => congrArg _ (Except.error.inj h)⟩
  | ok app =>
    refine iff_of_false ?_ nofun
    dsimp only [lease, startOn]
    split
    next e later hlease =>
      intro heq
      obtain rfl : e = .appNotFound n := Except.error.inj heq
      split at hlease
      · cases hlease
      · cases hlease
      · cases hlease
    next port later hlease =>
      split
      · nofun
      · nofun

/--
What becomes of a listed app that is loaded or launched, where the entries of the apps directory have
names as entries have them. It is not found iff its name is one that is refused. With any other name it
is loaded iff its script is a text, and template and style are texts or missing; if it is not loaded,
the error tells why one of the files cannot be read. (The files of a tree have no permissions; one that
may not be opened is not among them.)
-/
theorem listed_app_loads_iff (c : Catalog) (files : FileNode) (name : String)
    (hentries : ∀ entry ∈ files.entryNames c.root, IsEntryName entry)
    (hlisted : name ∈ (c.list files).map AppDescriptor.name) :
    ((∃ n, c.load files name = .error (.appNotFound n)) ↔ IsRefusedName name) ∧
    (∀ (h : Host) (env : Surroundings), h.catalog = c → env.files = files →
      ((∃ n, (h.launch env name).1 = .error (.appNotFound n)) ↔ IsRefusedName name)) ∧
    (¬ IsRefusedName name →
      ((∃ app, c.load files name = .ok app) ↔
        files.HoldsText (c.scriptPath name) ∧
          (files.HoldsText (c.templatePath name) ∨
            files.read (c.templatePath name) = .error .notFound) ∧
          (files.HoldsText (c.stylePath name) ∨
            files.read (c.stylePath name) = .error .notFound)) ∧
      ((¬ ∃ app, c.load files name = .ok app) ↔
        ∃ fault, c.load files name = .error (.file fault))) := by
  obtain ⟨hentry, hfile⟩ := Catalog.mem_list_iff.1 hlisted
  have hplain := isDirectoryName_iff_of_isEntryName (hentries name hentry)
  have hscript := FileNode.read_of_holdsFile hfile
  have hload : (∃ n, c.load files name = .error (.appNotFound n)) ↔ IsRefusedName name := by
    constructor
    · rintro ⟨n, hn⟩
      by_contra hnot
      -- a plain name is looked for, and its script is a file, so no answer but these is left
      rcases Catalog.load_cases (hplain.2 hnot) hscript with ⟨app, hok⟩ | ⟨fault, hfault⟩
      · cases hn.symm.trans hok
      · cases hn.symm.trans hfault
    · intro hrefused
      have hnot : ¬ isDirectoryName name = true := fun h => hplain.1 h hrefused
      exact ⟨name, by rw [Catalog.load, if_neg hnot]⟩
  refine ⟨hload, ?_, ?_⟩
  · rintro h env rfl rfl
    simp only [Host.launch_eq_appNotFound_iff]
    exact hload
  · intro hnot
    refine ⟨?_, ?_⟩
    · rw [Catalog.exists_load_eq_ok_iff (hplain.2 hnot), Catalog.readOptional_eq_ok_iff,
        Catalog.readOptional_eq_ok_iff]
    · constructor
      · exact (Catalog.load_cases (hplain.2 hnot) hscript).resolve_left
      · rintro ⟨fault, hfault⟩ ⟨app, hok⟩
        cases hfault.symm.trans hok

/-- The catalog of the standard settings. -/
def standardCatalog : Catalog := .ofSection .standard

theorem standardCatalog_eq :
    standardCatalog = ⟨["apps"], ["app.rhai"], ["app.axml"], ["app.axss"]⟩ := by
  have hroot : FilePath.ofText "apps" = ["apps"] := by cbv
  have hscript : FilePath.ofText "app.rhai" = ["app.rhai"] := by cbv
  have htemplate : FilePath.ofText "app.axml" = ["app.axml"] := by cbv
  have hstyle : FilePath.ofText "app.axss" = ["app.axss"] := by cbv
  simp only [standardCatalog, Catalog.ofSection, Config.Apps.standard, hroot, hscript, htemplate, hstyle]

/-- An apps directory with one app, of that name and with an empty script. -/
def soleApp (name : String) : FileNode :=
  .directory [("apps", .directory [(name, .directory [("app.rhai", .file .empty)])])]

theorem entryNames_soleApp (name : String) : (soleApp name).entryNames ["apps"] = [name] := by
  have happs : (["apps"] : FilePath).any (fun part => part.toList.contains '\x00') = false := by decide
  have henter : FileNode.walk ⟨soleApp name, []⟩ ["apps"] =
      .ok ⟨.directory [(name, .directory [("app.rhai", .file .empty)])], [soleApp name]⟩ := by rfl
  rw [FileNode.entryNames, FileNode.find, happs, if_neg Bool.false_ne_true, henter]
  rfl

theorem isEntryName_soleApp {name : String} (h : IsEntryName name) :
    ∀ entry ∈ (soleApp name).entryNames ["apps"], IsEntryName entry := by
  rw [entryNames_soleApp]
  intro entry hentry
  obtain rfl := List.mem_singleton.1 hentry
  exact h

/-- An app in a directory that is called `v1.0` is listed and loaded. -/
theorem versioned_app_loads :
    (∀ entry ∈ (soleApp "v1.0").entryNames standardCatalog.root, IsEntryName entry) ∧
      "v1.0" ∈ (standardCatalog.list (soleApp "v1.0")).map AppDescriptor.name ∧
      ∃ app, standardCatalog.load (soleApp "v1.0") "v1.0" = .ok app := by
  rw [standardCatalog_eq]
  have hname : IsEntryName "v1.0" := by
    unfold IsEntryName
    decide
  have hentries := isEntryName_soleApp hname
  have hlisted : "v1.0" ∈ (Catalog.list ⟨["apps"], ["app.rhai"], ["app.axml"], ["app.axss"]⟩
      (soleApp "v1.0")).map AppDescriptor.name := by
    rw [Catalog.mem_list_iff]
    decide +kernel
  have hplain : ¬ IsRefusedName "v1.0" := by
    unfold IsRefusedName
    decide
  refine ⟨hentries, hlisted, ((listed_app_loads_iff _ _ _ hentries hlisted).2.2 hplain).1.2 ?_⟩
  exact ⟨⟨"", by rfl⟩, .inr (by rfl), .inr (by rfl)⟩

/-- An app in a directory that is called `a..b` is listed, and there is no such app to be loaded. -/
theorem dotted_app_listed_but_refused :
    (∀ entry ∈ (soleApp "a..b").entryNames standardCatalog.root, IsEntryName entry) ∧
      "a..b" ∈ (standardCatalog.list (soleApp "a..b")).map AppDescriptor.name ∧
      standardCatalog.load (soleApp "a..b") "a..b" = .error (.appNotFound "a..b") := by
  rw [standardCatalog_eq]
  refine ⟨?_, ?_, ?_⟩
  · refine isEntryName_soleApp ?_
    unfold IsEntryName
    decide
  · rw [Catalog.mem_list_iff]
    decide +kernel
  · have hname : isDirectoryName "a..b" = false := by decide
    rw [Catalog.load, hname]
    rfl

end AppletHost.Hosting

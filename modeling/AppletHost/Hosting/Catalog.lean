import AppletHost.Config.Basic
import AppletHost.Hosting.Error
import AppletHost.Text.Search

/-!
# The catalog of apps

An app is a directory right below the apps directory that has a script file. The catalog lists the
apps by name and loads their sources; template and style may be missing.
-/

namespace AppletHost.Hosting

/-- The apps directory, and what the files of an app are called. -/
structure Catalog where
  root : FilePath
  scriptFile : FilePath
  templateFile : FilePath
  styleFile : FilePath
deriving DecidableEq, Repr, Inhabited

/-- What the catalog tells about an app. -/
structure AppDescriptor where
  id : String
  name : String
  path : String
deriving DecidableEq, Repr, Inhabited

/-- The sources of an app. -/
structure AppBundle where
  name : String
  script : String
  template : Option String
  style : Option String
deriving DecidableEq, Repr, Inhabited

/-- A name that can be that of a directory right below another one. -/
def isDirectoryName (name : String) : Bool :=
  name != "" && name != "." && (Text.breakOn? "..".toList name.toList).isNone
    && name.toList.all fun c => c != '/' && c != '\\'

theorem isDirectoryName_iff (name : String) :
    isDirectoryName name = true ↔
      name ≠ "" ∧ name ≠ "." ∧ ¬ "..".toList <:+: name.toList ∧ '/' ∉ name.toList ∧
        '\\' ∉ name.toList := by
  rw [isDirectoryName, Bool.and_eq_true, Bool.and_eq_true, Bool.and_eq_true,
    Option.isNone_iff_eq_none, Text.breakOn?_eq_none_iff]
  simp only [bne_iff_ne, List.all_eq_true, Bool.and_eq_true, ne_eq]
  constructor
  · rintro ⟨⟨⟨hempty, hdot⟩, hdots⟩, hplain⟩
    exact ⟨hempty, hdot, hdots, fun h => (hplain _ h).1 rfl, fun h => (hplain _ h).2 rfl⟩
  · rintro ⟨hempty, hdot, hdots, hslash, hbackslash⟩
    refine ⟨⟨⟨hempty, hdot⟩, hdots⟩, fun c hc => ⟨?_, ?_⟩⟩
    · rintro rfl
      exact hslash hc
    · rintro rfl
      exact hbackslash hc

namespace Catalog

/-- The catalog of the apps section. -/
def ofSection (apps : Config.Apps) : Catalog :=
  ⟨.ofText apps.dir, .ofText apps.scriptFile, .ofText apps.templateFile, .ofText apps.styleFile⟩

/-- The directory of an app. -/
def appPath (c : Catalog) (name : String) : FilePath := c.root.join [name]

/-- The script of an app. -/
def scriptPath (c : Catalog) (name : String) : FilePath := (c.appPath name).join c.scriptFile

/-- The template of an app. -/
def templatePath (c : Catalog) (name : String) : FilePath := (c.appPath name).join c.templateFile

/-- The style of an app. -/
def stylePath (c : Catalog) (name : String) : FilePath := (c.appPath name).join c.styleFile

/-- What is told about the app of that name. -/
def descriptor (c : Catalog) (name : String) : AppDescriptor :=
  ⟨name, name, FilePath.text (c.appPath name)⟩

/-- The apps, by name. -/
def list (c : Catalog) (files : FileNode) : List AppDescriptor :=
  let names := (files.entryNames c.root).filter fun name => files.holdsFile (c.scriptPath name)
  (names.mergeSort fun a b => a ≤ b).map c.descriptor

/-- The text of a file that may be missing. -/
def readOptional (files : FileNode) (path : FilePath) : Except HostError (Option String) :=
  match files.read path with
  | .ok text => .ok (some text)
  | .error .notFound => .ok none
  | .error fault => .error (.file fault)

/-- The sources of the app of that name. -/
def load (c : Catalog) (files : FileNode) (name : String) : Except HostError AppBundle :=
  if isDirectoryName name then
    match files.read (c.scriptPath name) with
    | .error .notFound => .error (.appNotFound name)
    | .error fault => .error (.file fault)
    | .ok script => do
      let template ← readOptional files (c.templatePath name)
      let style ← readOptional files (c.stylePath name)
      .ok ⟨name, script, template, style⟩
  else .error (.appNotFound name)

theorem load_eq_ok_iff {c : Catalog} {files : FileNode} {name : String} {app : AppBundle} :
    c.load files name = .ok app ↔
      isDirectoryName name = true ∧ app.name = name ∧
        files.read (c.scriptPath name) = .ok app.script ∧
        readOptional files (c.templatePath name) = .ok app.template ∧
        readOptional files (c.stylePath name) = .ok app.style := by
  constructor
  · intro h
    unfold load at h
    split at h
    next hname =>
      split at h
      · cases h
      · cases h
      next script hscript =>
        cases htemplate : readOptional files (c.templatePath name) with
        | error e =>
          rw [htemplate] at h
          cases h
        | ok template =>
          cases hstyle : readOptional files (c.stylePath name) with
          | error e =>
            rw [htemplate, hstyle] at h
            cases h
          | ok style =>
            rw [htemplate, hstyle] at h
            cases h
            exact ⟨hname, rfl, hscript, rfl, rfl⟩
    next => cases h
  · rintro ⟨hname, rfl, hscript, htemplate, hstyle⟩
    rw [load, if_pos hname, hscript]
    dsimp only
    rw [htemplate, hstyle]
    rfl

theorem name_of_load {c : Catalog} {files : FileNode} {name : String} {app : AppBundle}
    (h : c.load files name = .ok app) : app.name = name :=
  (load_eq_ok_iff.1 h).2.1

end Catalog

end AppletHost.Hosting

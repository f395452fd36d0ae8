import AppletHost.Config.Validation
import AppletHost.Hosting.Catalog
import Mathlib.Data.List.Basic

/-!
# Loading keeps to the directory of the app

`Catalog.opened` tells which files loading opens, and `load_congr` that it looks at nothing else. Each
of them is called as the settings say, in the directory that the app is named after. What checked
settings may call a file is anything but separators, though, and so a file may be called `..`:

> `checked_names_leave_the_app`: with such settings the apps directory itself is opened.

> `opened_paths_confined`: no other name leads out, and nothing is ever loaded from there, as what
> `.` and `..` lead to is a directory.

The second part rests on `Reached.enter`: wherever a walk stands, the names on the way down to it are
the path without the parts that stay or go back, and what is above it is directories. So these names
are the right ones to judge a path by: they lead to what the path leads to (`find_resolved`).
-/

namespace AppletHost.Hosting

/-! ## Paths without the parts that stay or go back -/

namespace FilePath

/-- The names on the way down after one more part, the last first. Nothing is above the top. -/
def descend (way : List String) (part : String) : List String :=
  if part = "" ∨ part = "." then way
  else if part = ".." then way.tail
  else part :: way

/-- The names on the way down along a path. -/
def resolved (path : FilePath) : List String := (path.foldl descend []).reverse

theorem descend_of_isDirectoryName {name : String} (h : isDirectoryName name = true)
    (way : List String) : descend way name = name :: way := by
  obtain ⟨hempty, hdot, hdots, -, -⟩ := (isDirectoryName_iff name).1 h
  have hback : name ≠ ".." := by
    rintro rfl
    exact hdots (List.infix_refl _)
  rw [descend, if_neg (not_or.2 ⟨hempty, hdot⟩), if_neg hback]

/-- A name without separators is a path of one part, dots and the empty name included. -/
theorem ofText_eq_singleton {name : String} (h : '/' ∉ name.toList) : ofText name = [name] := by
  rw [ofText, List.splitOn_eq_singleton h, List.map_singleton, String.ofList_toList]

/-- A path of one part is no absolute one, so joining it only goes one part further from the base. -/
theorem join_singleton (base : FilePath) (name : String) : base.join [name] = base ++ [name] := by
  have habsolute : isAbsolute [name] = false := by simp [isAbsolute]
  rw [join, habsolute, if_neg Bool.false_ne_true]

end FilePath

/-- The path leads to something right in the directory of that name right in the root. -/
def IsConfined (root : FilePath) (name : String) (path : FilePath) : Prop :=
  ∃ file, path.resolved = root.resolved ++ [name, file]

/-- What a file would have to be called to lead out of its directory. -/
def IsDots (file : String) : Prop := file = "." ∨ file = ".."

theorem isConfined_iff {root : FilePath} {name file : String} (hname : isDirectoryName name = true)
    (hfile : file ≠ "") : IsConfined root name (root ++ [name, file]) ↔ ¬ IsDots file := by
  have hway : (root ++ [name, file]).resolved =
      (FilePath.descend (name :: root.foldl FilePath.descend []) file).reverse := by
    rw [FilePath.resolved, List.foldl_append, List.foldl_cons, List.foldl_cons, List.foldl_nil,
      FilePath.descend_of_isDirectoryName hname]
  unfold IsConfined IsDots
  rw [hway, FilePath.descend, FilePath.resolved]
  constructor
  · -- a way back or no way at all is too short
    rintro ⟨f, hf⟩ hdots
    have hlength := congrArg List.length hf
    rcases hdots with rfl | rfl
    · simp at hlength
    · simp at hlength
  · intro hdots
    obtain ⟨hdot, hback⟩ := not_or.1 hdots
    refine ⟨file, ?_⟩
    rw [if_neg (not_or.2 ⟨hfile, hdot⟩), if_neg hback, List.reverse_cons, List.reverse_cons,
      List.append_assoc]
    rfl

/-! ## Walks -/

namespace FileNode

/-- The walk from the top down along those names, the last first, comes to the place. -/
inductive Reached (top : FileNode) : List String → Place → Prop
  | start : Reached top [] ⟨top, []⟩
  | down {way : List String} {place : Place} {entries : List (String × FileNode)} {name : String}
      {node : FileNode} (hway : Reached top way place) (hnode : place.node = .directory entries)
      (hget : Fields.get? entries name = some node)
      (hname : name ≠ "" ∧ name ≠ "." ∧ name ≠ ".." ∧ name.utf8ByteSize ≤ longestName) :
      Reached top (name :: way) ⟨node, place.node :: place.above⟩

variable {top : FileNode} {way : List String} {place next : Place} {part : String} {path : FilePath}

/-- One part further, the names on the way down are told by `descend`. -/
theorem Reached.enter (h : Reached top way place) (henter : place.enter part = .ok next) :
    Reached top (FilePath.descend way part) next := by
  unfold Place.enter at henter
  unfold FilePath.descend
  split at henter
  · cases henter
  next entries hentries =>
    by_cases hstay : part = "" ∨ part = "."
    · rw [if_pos hstay] at henter ⊢
      cases henter
      exact h
    rw [if_neg hstay] at henter ⊢
    by_cases hback : part = ".."
    · rw [if_pos hback] at henter ⊢
      -- the directory above is where the walk stood one name earlier
      cases h with
      | start =>
        cases henter
        exact .start
      | down hway hnode hget hname =>
        cases henter
        exact hway
    rw [if_neg hback] at henter ⊢
    by_cases hlong : longestName < part.utf8ByteSize
    · rw [if_pos hlong] at henter
      cases henter
    rw [if_neg hlong] at henter
    obtain ⟨hempty, hdot⟩ := not_or.1 hstay
    split at henter
    · cases henter
    next node hget =>
      cases henter
      exact .down h hentries hget ⟨hempty, hdot, hback, Nat.not_lt.1 hlong⟩

theorem Reached.walk (h : Reached top way place) (hwalk : walk place path = .ok next) :
    Reached top (path.foldl FilePath.descend way) next := by
  induction path generalizing way place with
  | nil =>
    cases hwalk
    exact h
  | cons part parts ih =>
    rw [FileNode.walk] at hwalk
    cases henter : place.enter part with
    | error fault =>
      rw [henter] at hwalk
      cases hwalk
    | ok after =>
      rw [henter] at hwalk
      exact ih (h.enter henter) hwalk

/-- Dots lead to a directory, if anywhere: to the one where they stand, or to the one above it. -/
theorem Reached.not_isFile_of_isDots (h : Reached top way place) (hdots : IsDots part)
    (henter : place.enter part = .ok next) : next.node.isFile = false := by
  unfold Place.enter at henter
  split at henter
  · cases henter
  next entries hentries =>
    rcases hdots with rfl | rfl
    · cases henter
      rw [hentries]
      rfl
    · cases h with
      | start =>
        cases henter
        rw [hentries]
        rfl
      | down hway hnode hget hname =>
        cases henter
        rw [hnode]
        rfl

theorem walk_append {base : FilePath} (hwalk : walk place base = .ok next) (path : FilePath) :
    walk place (base ++ path) = walk next path := by
  induction base generalizing place with
  | nil =>
    cases hwalk
    rfl
  | cons part parts ih =>
    rw [walk] at hwalk
    rw [List.cons_append, walk]
    cases henter : place.enter part with
    | error fault =>
      rw [henter] at hwalk
      cases hwalk
    | ok after =>
      rw [henter] at hwalk
      exact ih hwalk

/-- Every part of a walk that succeeds can be walked, from the place where the part before it has
led. -/
theorem exists_walk_of_append {base : FilePath} (hwalk : walk place (base ++ path) = .ok next) :
    ∃ middle, walk place base = .ok middle ∧ walk middle path = .ok next := by
  induction base generalizing place with
  | nil => exact ⟨place, rfl, hwalk⟩
  | cons part parts ih =>
    rw [List.cons_append, walk] at hwalk
    rw [walk]
    cases henter : place.enter part with
    | error fault =>
      rw [henter] at hwalk
      cases hwalk
    | ok after =>
      rw [henter] at hwalk
      exact ih hwalk

/-- A place is come to along the names that lead down to it. -/
theorem Reached.walk_reverse (h : Reached top way place) :
    FileNode.walk ⟨top, []⟩ way.reverse = .ok place := by
  induction h with
  | start => rfl
  | @down way place entries name node hway hnode hget hname ih =>
    obtain ⟨hempty, hdot, hback, hshort⟩ := hname
    rw [List.reverse_cons, walk_append ih, FileNode.walk, Place.enter, hnode]
    simp only [if_neg (not_or.2 ⟨hempty, hdot⟩), if_neg hback, if_neg (Nat.not_lt.2 hshort), hget]
    rfl

/-- No part of the path has a character that no name may have. -/
def IsNulFree (path : FilePath) : Prop :=
  (path.any fun part => part.toList.contains '\x00') = false

theorem find_eq_ok_iff {node : FileNode} :
    top.find path = .ok node ↔
      IsNulFree path ∧ ∃ place, walk ⟨top, []⟩ path = .ok place ∧ place.node = node := by
  unfold find IsNulFree
  cases hnul : path.any fun part => part.toList.contains '\x00' with
  | true => exact iff_of_false nofun nofun
  | false =>
    rw [if_neg Bool.false_ne_true]
    cases hwalk : walk ⟨top, []⟩ path with
    | error fault => exact iff_of_false nofun (fun h => nomatch h.2.choose_spec.1)
    | ok place =>
      constructor
      · intro h
        exact ⟨rfl, place, rfl, Except.ok.inj h⟩
      · rintro ⟨-, p, hp, rfl⟩
        cases hp
        rfl

theorem mem_of_mem_foldl_descend {name : String} (h : name ∈ path.foldl FilePath.descend way) :
    name ∈ way ∨ name ∈ path := by
  induction path generalizing way with
  | nil => exact .inl h
  | cons part parts ih =>
    rcases ih h with hway | hparts
    · unfold FilePath.descend at hway
      split at hway
      · exact .inl hway
      · split at hway
        · exact .inl (List.mem_of_mem_tail hway)
        · rcases List.mem_cons.1 hway with rfl | hbefore
          · exact .inr List.mem_cons_self
          · exact .inl hbefore
    · exact .inr (List.mem_cons_of_mem _ hparts)

/-- What there is at a path is what the names on the way down lead to. -/
theorem find_resolved {node : FileNode} (h : top.find path = .ok node) :
    top.find path.resolved = .ok node := by
  obtain ⟨hnul, place, hwalk, hnode⟩ := find_eq_ok_iff.1 h
  refine find_eq_ok_iff.2 ⟨?_, place, (Reached.start.walk hwalk).walk_reverse, hnode⟩
  unfold IsNulFree at hnul ⊢
  rw [List.any_eq_false] at hnul ⊢
  intro name hname
  rcases mem_of_mem_foldl_descend (List.mem_reverse.1 hname) with hnil | hpath
  · cases hnil
  · exact hnul name hpath

/-- To read a file is to come to it from the directory it is in, along no dots. -/
theorem exists_directory_of_read {base : FilePath} {file text : String}
    (h : top.read (base ++ [file]) = .ok text) :
    ¬ IsDots file ∧ IsNulFree base ∧
      ∃ place, walk ⟨top, []⟩ base = .ok place ∧ place.node.isFile = false := by
  unfold read at h
  split at h
  · cases h
  · cases h
  next content hfind =>
    obtain ⟨hnul, last, hwalk, hlast⟩ := find_eq_ok_iff.1 hfind
    obtain ⟨place, hbase, hstep⟩ := exists_walk_of_append hwalk
    -- the last step of the walk is that into the file
    have henter : place.enter file = .ok last := by
      rw [walk] at hstep
      cases hnext : place.enter file with
      | error fault =>
        rw [hnext] at hstep
        cases hstep
      | ok next =>
        rw [hnext] at hstep
        exact hstep
    refine ⟨fun hdots => ?_, ?_, place, hbase, ?_⟩
    · have hdirectory := (Reached.start.walk hbase).not_isFile_of_isDots hdots henter
      rw [hlast] at hdirectory
      cases hdirectory
    · unfold IsNulFree at hnul ⊢
      rw [List.any_append, Bool.or_eq_false_iff] at hnul
      exact hnul.1
    · unfold Place.enter at henter
      cases hnode : place.node with
      | directory entries => rfl
      | file bytes =>
        rw [hnode] at henter
        cases henter

/-- Dots in a directory that is there are told to be a directory. -/
theorem read_dots {base : FilePath} {file : String} (hdots : IsDots file) (hnul : IsNulFree base)
    (hwalk : walk ⟨top, []⟩ base = .ok place) (hplace : place.node.isFile = false) :
    top.read (base ++ [file]) = .error .isADirectory := by
  -- one may always stay in a directory, or go up, be it from the top to itself
  have henter : ∃ next, place.enter file = .ok next := by
    cases hnode : place.node with
    | file bytes =>
      rw [hnode] at hplace
      cases hplace
    | directory entries =>
      rcases hdots with rfl | rfl
      · exact ⟨place, by rw [Place.enter, hnode]; rfl⟩
      · unfold Place.enter
        rw [hnode]
        cases place.above with
        | nil => exact ⟨place, rfl⟩
        | cons parent above => exact ⟨⟨parent, above⟩, rfl⟩
  obtain ⟨next, hnext⟩ := henter
  have hdirectory := (Reached.start.walk hwalk).not_isFile_of_isDots hdots hnext
  have hfind : top.find (base ++ [file]) = .ok next.node := by
    refine find_eq_ok_iff.2 ⟨?_, next, ?_, rfl⟩
    · unfold IsNulFree at hnul ⊢
      rw [List.any_append, hnul]
      rcases hdots with rfl | rfl
      · decide
      · decide
    · rw [walk_append hwalk, walk, hnext]
      rfl
  rw [read, hfind]
  cases hnode : next.node with
  | directory entries => rfl
  | file bytes =>
    rw [hnode] at hdirectory
    cases hdirectory

end FileNode

/-! ## What loading opens -/

namespace Catalog

/-- The files that are opened when the app of that name is loaded, in order. -/
def opened (c : Catalog) (files : FileNode) (name : String) : List FilePath :=
  if isDirectoryName name then
    c.scriptPath name ::
      match files.read (c.scriptPath name) with
      | .error _ => []
      | .ok _ => c.templatePath name ::
        match readOptional files (c.templatePath name) with
        | .error _ => []
        | .ok _ => [c.stylePath name]
  else []

variable {c : Catalog} {files other : FileNode} {name : String}

theorem readOptional_congr {path : FilePath} (h : other.read path = files.read path) :
    readOptional other path = readOptional files path := by
  rw [readOptional, readOptional, h]

/-- Loading looks at no more than the files it opens: trees in which these read alike load alike. -/
theorem load_congr (h : ∀ path ∈ c.opened files name, other.read path = files.read path) :
    c.load other name = c.load files name := by
  unfold load
  unfold opened at h
  by_cases hname : isDirectoryName name = true
  · rw [if_pos hname] at h ⊢
    rw [if_pos hname, h _ List.mem_cons_self]
    cases hscript : files.read (c.scriptPath name) with
    | error fault => cases fault <;> rfl
    | ok script =>
      rw [hscript] at h
      dsimp only at h ⊢
      have htemplate := readOptional_congr (h _ (List.mem_cons_of_mem _ List.mem_cons_self))
      rw [htemplate]
      cases hread : readOptional files (c.templatePath name) with
      | error e => rfl
      | ok template =>
        rw [hread] at h
        have hstyle := readOptional_congr
          (h _ (List.mem_cons_of_mem _ (List.mem_cons_of_mem _ List.mem_cons_self)))
        rw [hstyle]
  · rw [if_neg hname, if_neg hname]

theorem isDirectoryName_of_mem_opened {path : FilePath} (h : path ∈ c.opened files name) :
    isDirectoryName name = true := by
  unfold opened at h
  split at h
  next hname => exact hname
  next => cases h

theorem mem_opened {path : FilePath} (h : path ∈ c.opened files name) :
    path = c.scriptPath name ∨ path = c.templatePath name ∨ path = c.stylePath name := by
  unfold opened at h
  split at h
  · rcases List.mem_cons.1 h with hscript | hrest
    · exact .inl hscript
    · split at hrest
      · cases hrest
      · rcases List.mem_cons.1 hrest with htemplate | hlast
        · exact .inr (.inl htemplate)
        · split at hlast
          · cases hlast
          · exact .inr (.inr (List.mem_singleton.1 hlast))
  · cases h

/-- The catalog calls its files by plain names. -/
structure Names (c : Catalog) (script template style : String) : Prop where
  script_eq : c.scriptFile = [script]
  template_eq : c.templateFile = [template]
  style_eq : c.styleFile = [style]
  ne_empty : script ≠ "" ∧ template ≠ "" ∧ style ≠ ""

/-- The settings that pass call the files of an app by plain names. -/
theorem names_ofSection {s : Config.Settings} (hs : s.validate = .ok ()) :
    (ofSection s.apps).Names s.apps.scriptFile s.apps.templateFile s.apps.styleFile := by
  have happs : s.apps.validate = .ok () := by
    rw [Config.Settings.validate, Config.bind_eq_ok_iff, Config.bind_eq_ok_iff] at hs
    exact hs.2.1
  rw [Config.Apps.validate_eq_ok_iff, Config.isPlainName_iff, Config.isPlainName_iff,
    Config.isPlainName_iff] at happs
  obtain ⟨⟨htemplate, htemplate', -⟩, ⟨hscript, hscript', -⟩, ⟨hstyle, hstyle', -⟩⟩ := happs
  exact ⟨FilePath.ofText_eq_singleton hscript', FilePath.ofText_eq_singleton htemplate',
    FilePath.ofText_eq_singleton hstyle', hscript, htemplate, hstyle⟩

variable {script template style : String}

/-- Whatever is opened is one of the three files in the directory of the app. -/
theorem Names.exists_file (hnames : c.Names script template style) {path : FilePath}
    (h : path ∈ c.opened files name) :
    ∃ file ∈ [script, template, style], file ≠ "" ∧ path = c.root ++ [name, file] := by
  have hjoin : ∀ file, (c.appPath name).join [file] = c.root ++ [name, file] := by
    intro file
    rw [FilePath.join_singleton, appPath, FilePath.join_singleton, List.append_assoc]
    rfl
  obtain ⟨hscript, htemplate, hstyle⟩ := hnames.ne_empty
  rcases mem_opened h with rfl | rfl | rfl
  · exact ⟨script, by simp, hscript, by rw [scriptPath, hnames.script_eq, hjoin]⟩
  · exact ⟨template, by simp, htemplate, by rw [templatePath, hnames.template_eq, hjoin]⟩
  · exact ⟨style, by simp, hstyle, by rw [stylePath, hnames.style_eq, hjoin]⟩

/-- No app is loaded if one of its files is called by dots. -/
theorem Names.not_isDots_of_load (hnames : c.Names script template style) {app : AppBundle}
    (hload : c.load files name = .ok app) : ∀ file ∈ [script, template, style], ¬ IsDots file := by
  obtain ⟨-, -, hread, htemplate, hstyle⟩ := load_eq_ok_iff.1 hload
  rw [scriptPath, hnames.script_eq, FilePath.join_singleton] at hread
  obtain ⟨hscript, hnul, place, hwalk, hplace⟩ := FileNode.exists_directory_of_read hread
  -- the directory of the app is there, so dots would lead to a directory
  have hoptional : ∀ (file : String) (text : Option String),
      readOptional files ((c.appPath name).join [file]) = .ok text → ¬ IsDots file := by
    intro file text htext hdots
    rw [FilePath.join_singleton, readOptional,
      FileNode.read_dots hdots hnul hwalk hplace] at htext
    cases htext
  rw [templatePath, hnames.template_eq] at htemplate
  rw [stylePath, hnames.style_eq] at hstyle
  intro file hfile
  simp only [List.mem_cons, List.not_mem_nil, or_false] at hfile
  rcases hfile with rfl | rfl | rfl
  · exact hscript
  · exact hoptional _ _ htemplate
  · exact hoptional _ _ hstyle

/--
What loading opens under settings that pass, whatever there is in the tree and whatever app is asked
for. It looks at nothing but what it opens; all of this is called as the settings say and lies in the
directory of the app, unless it is called by dots; and nothing outside is ever loaded.
-/
theorem opened_paths_confined (s : Config.Settings) (hs : s.validate = .ok ()) (files : FileNode)
    (name : String) :
    let c := ofSection s.apps
    (∀ other : FileNode, (∀ path ∈ c.opened files name, other.read path = files.read path) →
      c.load other name = c.load files name) ∧
    (∀ path ∈ c.opened files name,
      ∃ file ∈ [s.apps.scriptFile, s.apps.templateFile, s.apps.styleFile],
        path = c.root ++ [name, file] ∧ (IsConfined c.root name path ↔ ¬ IsDots file)) ∧
    (∀ app, c.load files name = .ok app →
      ∀ path ∈ c.opened files name, IsConfined c.root name path) := by
  intro c
  have hnames : c.Names s.apps.scriptFile s.apps.templateFile s.apps.styleFile := names_ofSection hs
  refine ⟨fun other h => load_congr h, fun path hpath => ?_, fun app happ path hpath => ?_⟩
  · obtain ⟨file, hfile, hempty, rfl⟩ := hnames.exists_file hpath
    have hname := isDirectoryName_of_mem_opened hpath
    exact ⟨file, hfile, rfl, isConfined_iff hname hempty⟩
  · obtain ⟨file, hfile, hempty, rfl⟩ := hnames.exists_file hpath
    have hname := isDirectoryName_of_mem_opened hpath
    exact (isConfined_iff hname hempty).2 (hnames.not_isDots_of_load happ file hfile)

/-- The script that is looked for under the standard settings is one in the directory of the app. -/
theorem standard_script_confined :
    Config.Settings.standard.validate = .ok () ∧
      let c := ofSection Config.Settings.standard.apps
      c.scriptPath "a" ∈ c.opened .empty "a" ∧ IsConfined c.root "a" (c.scriptPath "a") := by
  have hvalid : Config.Settings.standard.validate = .ok () := by decide
  have hopened : (ofSection Config.Settings.standard.apps).scriptPath "a" ∈
      (ofSection Config.Settings.standard.apps).opened .empty "a" := by
    rw [opened, if_pos (by decide)]
    exact List.mem_cons_self
  obtain ⟨file, hfile, -, hconfined⟩ :=
    (opened_paths_confined Config.Settings.standard hvalid .empty "a").2.1 _ hopened
  have hdots : ∀ file ∈ ["app.rhai", "app.axml", "app.axss"], file ≠ "." ∧ file ≠ ".." := by decide
  exact ⟨hvalid, hopened, hconfined.2 (not_or.2 (hdots file hfile))⟩

/-- Settings that call the script of an app `..`. -/
def upwardSettings : Config.Settings :=
  { Config.Settings.standard with
    apps := { Config.Settings.standard.apps with scriptFile := ".." } }

/-- These settings pass, and the apps directory is opened where the script of the app should be. -/
theorem checked_names_leave_the_app :
    upwardSettings.validate = .ok () ∧
      let c := ofSection upwardSettings.apps
      c.scriptPath "a" ∈ c.opened .empty "a" ∧
        (c.scriptPath "a").resolved = c.root.resolved ∧
        ¬ ∃ name, IsConfined c.root name (c.scriptPath "a") := by
  have hvalid : upwardSettings.validate = .ok () := by decide
  have hroot : (ofSection upwardSettings.apps).root = ["apps"] :=
    FilePath.ofText_eq_singleton (by decide)
  have hpath : (ofSection upwardSettings.apps).scriptPath "a" = ["apps", "a", ".."] := by
    rw [scriptPath, (names_ofSection hvalid).script_eq, appPath, hroot]
    decide
  refine ⟨hvalid, ?_, ?_, ?_⟩
  · rw [opened, if_pos (by decide)]
    exact List.mem_cons_self
  · rw [hpath, hroot]
    decide
  · rintro ⟨name, file, hfile⟩
    rw [hpath, hroot] at hfile
    have hlength := congrArg List.length hfile
    rw [List.length_append] at hlength
    have hshort : (FilePath.resolved ["apps", "a", ".."]).length = 1 := by decide
    rw [hshort] at hlength
    simp at hlength

end Catalog

end AppletHost.Hosting

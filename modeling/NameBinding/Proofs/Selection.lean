import NameBinding.Proofs.Workers

/-!
# Selected files and the paths they are reported under

A file is selected by its whole path and analysed under its path seen from the root.  Both end in
the same name, so the language that selected the file also analyses it.  This needs a file below
the root: a root that is a file is selected itself, and nothing is left of its path.

## Main definitions

* `Path.IsName`, `Files.WellNamed` — names that files and directories can have.
* `SourceTree.FromRoot` — files that are the root or lie below it.
* `Command.AnalyzedAsSelected` — a file is analysed by the language that selected it, and reported
  under a path that leads to it.

## Main results

* `Path.components_below` — the components of a path below another one.
* `Path.strip?_below`, `Path.extension?_below` — what such a path is when seen from the other one,
  and that it keeps its extension.
* `SourceTree.fromRoot_of_walk` — what a walk finds: the root, or files below it.
* `Command.analyzedAsSelected_iff` — **every selected file other than the root is analysed by the
  language that selected it**, whatever a walk finds from the root on and whatever is ignored.
-/

namespace NameBinding
namespace Path

/-! ### Components -/

/-- The components of the first part of a path, if that is not all of it. -/
def leading : List Char → List Component
  | [] => [.root]
  | ['.'] => [.current]
  | part => (component? part).toList

theorem leading_of_ne {part : List Char} (hempty : part ≠ []) (hdot : part ≠ ['.']) :
    leading part = (component? part).toList := by
  unfold leading
  split
  · exact absurd rfl hempty
  · exact absurd rfl hdot
  · rfl

theorem filterMap_component?_cons (part : List Char) (parts : List (List Char)) :
    (part :: parts).filterMap component? =
      (component? part).toList ++ parts.filterMap component? := by
  cases h : component? part with
  | none => rw [List.filterMap_cons_none h, Option.toList_none, List.nil_append]
  | some c => rw [List.filterMap_cons_some h, Option.toList_some, List.singleton_append]

theorem components_of_split {path : String} {first : List Char} {parts : List (List Char)}
    (h : Text.split '/' path.toList = first :: parts) (hne : first = [] → parts ≠ []) :
    components path = leading first ++ parts.filterMap component? := by
  unfold components
  rw [h]
  split
  · next heq => cases heq
  · next heq =>
    cases heq
    exact absurd rfl (hne rfl)
  · next heq =>
    cases heq
    rfl
  · next heq =>
    cases heq
    rfl
  · next hroot hcurrent =>
    have hempty : first ≠ [] := fun hnil => hroot parts (by rw [hnil])
    have hdot : first ≠ ['.'] := fun hdot => hcurrent parts (by rw [hdot])
    rw [leading_of_ne hempty hdot, filterMap_component?_cons]

/-- A name that a file or directory can have. -/
structure IsName (name : String) : Prop where
  ne_empty : name ≠ ""
  ne_dot : name ≠ "."
  ne_dotdot : name ≠ ".."
  no_slash : '/' ∉ name.toList

theorem IsName.component? {name : String} (h : IsName name) :
    component? name.toList = some (.named name) := by
  unfold Path.component?
  split
  · next hnil => exact absurd (String.toList_inj.mp hnil) h.ne_empty
  · next hdot => exact absurd (String.toList_inj.mp hdot) h.ne_dot
  · next hdotdot => exact absurd (String.toList_inj.mp hdotdot) h.ne_dotdot
  · rw [String.ofList_toList]

variable {base : String} {names : List String}

theorem split_names (h : ∀ name ∈ names, IsName name) (hne : names ≠ []) :
    Text.split '/' ("/".intercalate names).toList = names.map String.toList := by
  rw [String.toList_intercalate, Text.split_eq_splitOn]
  refine List.splitOn_intercalate '/' ?_ (by simpa using hne)
  intro part hpart
  obtain ⟨name, hname, rfl⟩ := List.mem_map.mp hpart
  exact (h name hname).no_slash

theorem filterMap_component?_names (h : ∀ name ∈ names, IsName name) :
    (names.map String.toList).filterMap component? = names.map .named := by
  rw [List.filterMap_map, ← List.filterMap_eq_map]
  exact List.filterMap_congr fun name hname => (h name hname).component?

theorem components_names (h : ∀ name ∈ names, IsName name) :
    components ("/".intercalate names) = names.map .named := by
  cases names with
  | nil => rfl
  | cons name rest =>
    have hname := h name List.mem_cons_self
    have hempty : name.toList ≠ [] := fun hnil => hname.ne_empty (String.toList_inj.mp hnil)
    have hdot : name.toList ≠ ['.'] := fun hdot => hname.ne_dot (String.toList_inj.mp hdot)
    rw [components_of_split (split_names h (List.cons_ne_nil _ _)) (fun hnil => absurd hnil hempty),
      leading_of_ne hempty hdot, ← filterMap_component?_cons]
    exact filterMap_component?_names h

theorem head?_names (h : ∀ name ∈ names, IsName name) (hne : names ≠ []) :
    ("/".intercalate names).toList.head? ≠ some '/' := by
  intro hslash
  obtain ⟨rest, hrest⟩ := List.head?_eq_some_iff.mp hslash
  have hsplit := split_names h hne
  rw [hrest, Text.split, if_pos rfl] at hsplit
  cases names with
  | nil => exact hne rfl
  | cons name names =>
    have hnil := (List.cons.inj hsplit).1
    exact (h name List.mem_cons_self).ne_empty (String.toList_inj.mp hnil.symm)

theorem below_of_ne_empty (hbase : base ≠ "") (h : ∀ name ∈ names, IsName name)
    (hne : names ≠ []) : below base names =
      if base.toList.getLast? = some '/' then base ++ "/".intercalate names
      else base ++ "/" ++ "/".intercalate names := by
  have hempty : base.isEmpty = false := by simpa using hbase
  rw [below, if_neg (by simpa using hne), join, decide_eq_false (head?_names h hne), hempty,
    if_neg (by decide)]

/-- A path is put below another one with a slash between them, which may already be there. -/
theorem toList_below (h : ∀ name ∈ names, IsName name) (hne : names ≠ []) (hbase : base ≠ "") :
    ∃ front, (base.toList = front ∨ base.toList = front ++ ['/']) ∧
      (below base names).toList = front ++ '/' :: ("/".intercalate names).toList := by
  rw [below_of_ne_empty hbase h hne]
  split
  · next hlast =>
    obtain ⟨front, hfront⟩ := List.getLast?_eq_some_iff.mp hlast
    exact ⟨front, Or.inr hfront, by rw [String.toList_append, hfront, List.append_assoc]; rfl⟩
  · refine ⟨base.toList, Or.inl rfl, ?_⟩
    rw [String.toList_append, String.toList_append, List.append_assoc]
    rfl

theorem below_nil (base : String) : below base [] = base := rfl

theorem below_empty (names : List String) : below "" names = "/".intercalate names := by
  cases names with
  | nil => rfl
  | cons name names => simp [below, join]

/-- **A path below another one has the components of that one, and then its own.** -/
theorem components_below (h : ∀ name ∈ names, IsName name) :
    components (below base names) = components base ++ names.map .named := by
  by_cases hne : names = []
  · rw [hne, below_nil, List.map_nil, List.append_nil]
  by_cases hbase : base = ""
  · rw [hbase, below_empty, components_names h]
    rfl
  obtain ⟨front, hfront, hbelow⟩ := toList_below h hne hbase
  obtain ⟨first, parts, hparts⟩ := List.exists_cons_of_ne_nil (List.splitOn_ne_nil '/' front)
  have hsplit : Text.split '/' (below base names).toList =
      first :: (parts ++ names.map String.toList) := by
    rw [hbelow, Text.split_eq_splitOn, List.splitOn_append_cons_self, hparts,
      ← Text.split_eq_splitOn, split_names h hne, List.cons_append]
  have hnames : names.map String.toList ≠ [] := by simpa using hne
  rw [components_of_split hsplit (fun _ => List.append_ne_nil_of_right_ne_nil _ hnames),
    List.filterMap_append, filterMap_component?_names h, ← List.append_assoc]
  congr 1
  rcases hfront with hfront | hfront
  · -- the base is all of what stands before the slash
    have hbaseSplit : Text.split '/' base.toList = first :: parts := by
      rw [hfront, Text.split_eq_splitOn, hparts]
    refine (components_of_split hbaseSplit fun hnil hparts => hbase ?_).symm
    have htext : ['/'].intercalate (base.toList.splitOn '/') = base.toList :=
      List.intercalate_splitOn '/'
    rw [← Text.split_eq_splitOn, hbaseSplit, hnil, hparts, List.intercalate_singleton] at htext
    exact String.toList_inj.mp htext.symm
  · have hbaseSplit : Text.split '/' base.toList = first :: (parts ++ [[]]) := by
      rw [hfront, Text.split_eq_splitOn, List.splitOn_append_cons_self, hparts]
      rfl
    rw [components_of_split hbaseSplit (fun _ => by simp), List.filterMap_append]
    exact (congrArg _ (List.append_nil _)).symm

/-! ### Paths seen from the root -/

theorem map_text_named (names : List String) :
    (names.map Component.named).map Component.text = names := by
  rw [List.map_map]
  exact List.map_id names

theorem strip?_below (h : ∀ name ∈ names, IsName name) :
    strip? base (below base names) = some ("/".intercalate names) := by
  have hprefix : (components base).isPrefixOf (components (below base names)) = true := by
    rw [List.isPrefixOf_iff_prefix, components_below h]
    exact List.prefix_append ..
  rw [strip?, if_pos hprefix, components_below h, List.drop_left, map_text_named]

theorem extension?_below (h : ∀ name ∈ names, IsName name) (hne : names ≠ []) :
    extension? (below base names) = extension? ("/".intercalate names) := by
  have hnames : (names.map Component.named).getLast? ≠ none := by simpa using hne
  have hlast : (components (below base names)).getLast? =
      (components ("/".intercalate names)).getLast? := by
    rw [components_below h, components_names h, List.getLast?_append,
      Option.or_of_isSome (Option.isSome_iff_ne_none.mpr hnames)]
  rw [extension?, extension?, fileName?, fileName?, hlast]

theorem below_eq_self_iff (h : ∀ name ∈ names, IsName name) :
    below base names = base ↔ names = [] := by
  constructor
  · intro heq
    have hcomponents := @components_below base names h
    rw [heq, List.self_eq_append_right, List.map_eq_nil_iff] at hcomponents
    exact hcomponents
  · rintro rfl
    exact below_nil base

end Path

/-- All stored places are made of names that files and directories can have. -/
def Files.WellNamed (f : Files) : Prop := ∀ e ∈ f.entries, ∀ name ∈ e.1, Path.IsName name

/-! ### What is selected -/

namespace SourceTree

variable {files : Files} {root : String} {place names : List String} {found : List (List String)}

/-- Each file is the root, or it is reached from there through names that files and directories can
have. -/
def FromRoot (found : List (List String)) : Prop :=
  ∀ names ∈ found, ∀ name ∈ names, Path.IsName name

theorem mem_select {ignored : String → Bool → Bool} {file : String}
    (h : file ∈ select ignored root found) : ∃ names ∈ found, file = Path.below root names := by
  obtain ⟨names, hmem, rfl⟩ := List.mem_map.mp h
  exact ⟨names, List.mem_of_mem_filter (List.mem_mergeSort.mp hmem), rfl⟩

theorem mem_filesBelow (h : names ∈ filesBelow files place) :
    names ≠ [] ∧ ∃ e ∈ files.entries, e.1 = place ++ names := by
  obtain ⟨⟨stored, entry⟩, hmem, hsome⟩ := List.mem_filterMap.mp h
  cases entry with
  | directory => cases hsome
  | file content =>
    rw [Option.ite_none_right_eq_some, Bool.and_eq_true, List.isPrefixOf_iff_prefix,
      decide_eq_true_eq] at hsome
    obtain ⟨⟨⟨rest, rfl⟩, hlt⟩, hnames⟩ := hsome
    rw [List.drop_left, Option.some.injEq] at hnames
    subst hnames
    refine ⟨fun hnil => ?_, _, hmem, rfl⟩
    rw [hnil, List.append_nil] at hlt
    exact Nat.lt_irrefl _ hlt

theorem walk_cases (h : walk files root = .ok found) : ∃ place, files.resolve root = .ok place ∧
    (files.isFile place = true ∧ found = [[]] ∨
      files.isFile place = false ∧ ∀ names ∈ found, names ∈ filesBelow files place) := by
  unfold walk at h
  cases hplace : files.resolve root with
  | error problem =>
    rw [hplace] at h
    cases h
  | ok place =>
    refine ⟨place, rfl, ?_⟩
    simp only [hplace, bind, Except.bind, pure, Except.pure] at h
    split at h
    · next hfile => exact Or.inl ⟨hfile, (Except.ok.inj h).symm⟩
    · next hfile =>
      refine Or.inr ⟨Bool.eq_false_iff.mpr hfile, fun names hnames => ?_⟩
      split at h
      · rw [← Except.ok.inj h] at hnames
        exact (List.mem_filter.mp hnames).1
      · cases h

/-- **A walk finds the root, if that is a file, and files below it otherwise.** -/
theorem fromRoot_of_walk (hnames : files.WellNamed) (h : walk files root = .ok found) :
    FromRoot found ∧ ∃ place, files.resolve root = .ok place ∧
      ∀ names ∈ found, (names = [] ↔ files.isFile place = true) := by
  obtain ⟨place, hplace, ⟨hfile, rfl⟩ | ⟨hfile, hbelow⟩⟩ := walk_cases h
  · refine ⟨List.forall_mem_singleton.mpr (List.forall_mem_nil _), place, hplace, ?_⟩
    exact List.forall_mem_singleton.mpr (iff_of_true rfl hfile)
  · refine ⟨fun names hmem name hname => ?_, place, hplace, fun names hmem => ?_⟩
    · obtain ⟨-, e, he, hentry⟩ := mem_filesBelow (hbelow names hmem)
      exact hnames e he name (hentry ▸ List.mem_append_right _ hname)
    · exact iff_of_false (mem_filesBelow (hbelow names hmem)).1 (by simp [hfile])

end SourceTree

/-! ### Selection and analysis -/

/-- The language of a file is found by its extension only. -/
theorem Registry.find?_congr (r : Registry) {path path' : String}
    (h : Path.extension? path = Path.extension? path') : r.find? path = r.find? path' := by
  simp only [find?, Language.handles, h]

theorem Registry.find?_empty (r : Registry) : r.find? "" = none :=
  List.find?_eq_none.mpr fun _ _ => Bool.false_ne_true

namespace Command

variable {r : Registry} {files : Files} {root file : String} {excludes : List String}

/-- The file is analysed by the language that selected it, its message is never that there is no
language for it, and the path of its message leads from the root to the file. -/
structure AnalyzedAsSelected (r : Registry) (files : Files) (root file : String) : Prop where
  language : ∃ l, r.find? file = some l ∧ r.find? (reportedPath root file) = some l ∧
    ∀ content, files.readText file = .ok content →
      r.analyzeStored files file (reportedPath root file) =
        (l.analyze (reportedPath root file) content).map some
  message : ∀ message log, fileMessage r files root file = .ok (message, log) →
    message.path = reportedPath root file ∧ ∀ path, message ≠ .failed path .noLanguage
  path : Path.join root (reportedPath root file) = file

theorem analyzeStored_of_find? {l : Language} {path content : String}
    (hfind : r.find? path = some l) (hread : files.readText file = .ok content) :
    r.analyzeStored files file path = (l.analyze path content).map some := by
  rw [Registry.analyzeStored, hread]
  show r.analyze path content = _
  rw [Registry.analyze, hfind]

theorem analyzeStored_ne_none {l : Language} {path : String} (hfind : r.find? path = some l) :
    r.analyzeStored files file path ≠ .ok none := by
  cases hread : files.readText file with
  | error problem =>
    rw [Registry.analyzeStored, hread]
    exact fun h => nomatch h
  | ok content =>
    rw [analyzeStored_of_find? hfind hread]
    cases l.analyze path content with
    | error e => exact fun h => nomatch h
    | ok u => exact fun h => nomatch h

theorem ofResult_ne_noLanguage {path : String} {result : Except Error (Option AnalyzedUnit)}
    (h : result ≠ .ok none) (path' : String) :
    FileResult.ofResult path result ≠ .failed path' .noLanguage := by
  match result, h with
  | .ok (some u), _ => exact fun h => nomatch h
  | .ok none, h => exact absurd rfl h
  | .error e, _ => exact fun h => nomatch h

theorem reportedPath_below {names : List String} (h : ∀ name ∈ names, Path.IsName name) :
    reportedPath root (Path.below root names) = "/".intercalate names := by
  rw [reportedPath, Path.strip?_below h, Option.getD_some]

/-- A file below the root is analysed by the language that selected it. -/
theorem analyzedAsSelected_below {names : List String} (h : ∀ name ∈ names, Path.IsName name)
    (hne : names ≠ []) (hfind : (r.find? (Path.below root names)).isSome = true) :
    AnalyzedAsSelected r files root (Path.below root names) := by
  obtain ⟨l, hl⟩ := Option.isSome_iff_exists.mp hfind
  have hreported : r.find? ("/".intercalate names) = some l := by
    rw [← hl]
    exact r.find?_congr (Path.extension?_below h hne).symm
  rw [← reportedPath_below h] at hreported
  refine ⟨⟨l, hl, hreported, fun content hread => analyzeStored_of_find? hreported hread⟩,
    fun message log hmessage => ?_, ?_⟩
  · rw [Pool.eq_messageOf hmessage]
    exact ⟨Pool.path_messageOf, ofResult_ne_noLanguage (analyzeStored_ne_none hreported)⟩
  · rw [reportedPath_below h, Path.below, if_neg (by simpa using hne)]

/-- Nothing is left of the path of the root. -/
theorem reportedPath_self (root : String) : reportedPath root root = "" := by
  have hbelow := @reportedPath_below root [] (List.forall_mem_nil _)
  rwa [Path.below_nil] at hbelow

/-- A root that is a file is reported under the empty path, for which there is no language. -/
theorem fileMessage_root {content : String} (hread : files.readText root = .ok content) :
    ∃ log, fileMessage r files root root = .ok (.failed "" .noLanguage, log) := by
  have hresult : r.analyzeStored files root "" = .ok none := by
    rw [Registry.analyzeStored, hread]
    show r.analyze "" content = _
    rw [Registry.analyze, r.find?_empty]
  unfold fileMessage
  rw [reportedPath_self]
  dsimp only
  rw [hresult]
  exact ⟨_, rfl⟩

theorem not_analyzedAsSelected_root : ¬AnalyzedAsSelected r files root root := by
  intro hanalyzed
  obtain ⟨l, -, hreported, -⟩ := hanalyzed.language
  rw [reportedPath_self, r.find?_empty] at hreported
  cases hreported

/-- What is selected was found by a walk from the root on; the root is selected only if it is a
file. -/
theorem exists_selected_eq (hnames : files.WellNamed) : ∃ found, SourceTree.FromRoot found ∧
    selected r files root excludes =
      handled r (SourceTree.select (TreeFilter.make files root excludes).ignores root found) ∧
    ∀ file ∈ selected r files root excludes,
      (file = root ↔ ∃ place, files.resolve root = .ok place ∧ files.isFile place = true) := by
  cases hwalk : SourceTree.walk files root with
  | error problem =>
    have hnil : selected r files root excludes = [] := by
      rw [selected, SourceTree.sources, hwalk]
      rfl
    rw [hnil]
    refine ⟨[], List.forall_mem_nil _, ?_, List.forall_mem_nil _⟩
    rw [SourceTree.select, List.filter_nil, List.mergeSort_nil]
    rfl
  | ok found =>
    obtain ⟨hfound, place, hplace, hroot⟩ := SourceTree.fromRoot_of_walk hnames hwalk
    have hselected : selected r files root excludes =
        handled r (SourceTree.select (TreeFilter.make files root excludes).ignores root found) := by
      rw [selected, SourceTree.sources, hwalk]
    refine ⟨found, hfound, hselected, fun file hfile => ?_⟩
    rw [hselected] at hfile
    obtain ⟨names, hmem, rfl⟩ := SourceTree.mem_select (List.mem_of_mem_filter hfile)
    rw [Path.below_eq_self_iff (hfound names hmem), hroot names hmem]
    constructor
    · exact fun hfile => ⟨place, hplace, hfile⟩
    · rintro ⟨place', hplace', hfile⟩
      cases hplace.symm.trans hplace'
      exact hfile

/-- **A selected file is analysed by the language that selected it unless it is the root itself.**
It is reported under a path that leads from the root to it.  The root is reported under the empty
path, and as a file that no language handles.  This holds whatever is ignored and whatever was found
from the root on, and so of what is selected in a tree; there the root is selected just if it is a
file. -/
theorem analyzedAsSelected_iff (r : Registry) (files : Files) (root : String) :
    (∀ (ignored : String → Bool → Bool) (found : List (List String)), SourceTree.FromRoot found →
      ∀ file ∈ handled r (SourceTree.select ignored root found),
        (AnalyzedAsSelected r files root file ↔ file ≠ root) ∧
        (file = root → ∀ content, files.readText file = .ok content →
          ∃ log, fileMessage r files root file = .ok (.failed "" .noLanguage, log))) ∧
    (∀ excludes, files.WellNamed → ∃ found, SourceTree.FromRoot found ∧
      selected r files root excludes =
        handled r (SourceTree.select (TreeFilter.make files root excludes).ignores root found) ∧
      ∀ file ∈ selected r files root excludes,
        (file = root ↔ ∃ place, files.resolve root = .ok place ∧ files.isFile place = true)) := by
  refine ⟨fun ignored found hfound file hfile => ?_, fun excludes => exists_selected_eq⟩
  obtain ⟨hselect, hfind⟩ := List.mem_filter.mp hfile
  obtain ⟨names, hmem, rfl⟩ := SourceTree.mem_select hselect
  have hname := hfound names hmem
  refine ⟨⟨?_, fun hne => ?_⟩, fun heq content hread => ?_⟩
  · intro hanalyzed heq
    rw [heq] at hanalyzed
    exact not_analyzedAsSelected_root hanalyzed
  · exact analyzedAsSelected_below hname (mt (Path.below_eq_self_iff hname).mpr hne) hfind
  · rw [heq] at hread ⊢
    exact fileMessage_root hread

/-- **A readable file that is selected is reported as one that no language handles**, if it is the
root. -/
theorem fileMessage_selected_root :
    let files : Files := ⟨[(["a.py"], .file "".toUTF8)]⟩
    "a.py" ∈ selected .standard files "a.py" [] ∧ (Registry.standard.find? "a.py").isSome = true ∧
      files.readText "a.py" = .ok "" ∧
      ∃ log, fileMessage .standard files "a.py" "a.py" = .ok (.failed "" .noLanguage, log) := by
  intro files
  have hread : files.readText "a.py" = .ok "" := rfl
  exact ⟨by decide +kernel, by decide, hread, fileMessage_root hread⟩

/-- A file two directories below a root that is written with a slash. -/
theorem analyzedAsSelected_iff_nested :
    let files : Files := ⟨[(["src", "lib", "a.b.py"], .file "".toUTF8)]⟩
    files.WellNamed ∧ "src//lib/a.b.py" ∈ selected .standard files "src//" [] ∧
      AnalyzedAsSelected .standard files "src//" "src//lib/a.b.py" := by
  intro files
  have hnames : files.WellNamed := by
    intro e he
    obtain rfl := List.mem_singleton.mp he
    simp only [List.forall_mem_cons]
    exact ⟨⟨by decide, by decide, by decide, by decide⟩,
      ⟨by decide, by decide, by decide, by decide⟩,
      ⟨by decide, by decide, by decide, by decide⟩, List.forall_mem_nil _⟩
  have hselected : "src//lib/a.b.py" ∈ selected .standard files "src//" [] := by decide +kernel
  obtain ⟨hall, htree⟩ := analyzedAsSelected_iff .standard files "src//"
  obtain ⟨found, hfound, heq, -⟩ := htree [] hnames
  have hanalyzed := hall _ found hfound "src//lib/a.b.py" (by rwa [← heq])
  exact ⟨hnames, hselected, hanalyzed.1.mpr (by decide)⟩

end Command
end NameBinding

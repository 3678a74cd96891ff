import NameBinding.Proofs.Lines
import NameBinding.Proofs.Selection

/-!
# Which files are left out

A file is left out if it is ignored, or if one of its directories is.  Only directories below the
root count, at whatever depth: neither the root nor what is above it is ever asked for.  A directory
of a file is given by the path of the file up to one of its slashes, and lies below the root if its
components are those of the root and more.  They are found by a walk upward from the file, which
takes away one component after the other and ends at the root.

## Main definitions

* `Path.Under` — one path lies below another one.
* `Path.IsDirectoryOf` — the directories of a file, at every depth.
* `Path.Before` — the order of paths by their components.
* `SourceTree.IsKept` — neither the file nor one of its directories below the root is ignored.

## Main results

* `Path.exists_split_below` — how the path of a file below the root is divided by its slashes.
* `Path.isDirectoryOf_below_iff` — the directories of a file that lie below the root.
* `Path.components_of_ancestors_eq_cons` — a step upward takes away the last component.
* `Path.takeWhile_ancestors_below` — the directories that the walk upward passes, in order.
* `SourceTree.isLeftOut_eq_false_iff` — a file is not left out just if it is kept.
* `SourceTree.select_exact` — **just the kept files are selected, in order.**
-/

namespace NameBinding
namespace Path

variable {root base directory file : String} {names : List String}

instance (name : String) : Decidable (IsName name) :=
  decidable_of_iff (name ≠ "" ∧ name ≠ "." ∧ name ≠ ".." ∧ '/' ∉ name.toList)
    ⟨fun ⟨hempty, hdot, hdotdot, hslash⟩ => ⟨hempty, hdot, hdotdot, hslash⟩,
      fun h => ⟨h.ne_empty, h.ne_dot, h.ne_dotdot, h.no_slash⟩⟩

/-! ### Paths by their parts -/

theorem eq_of_split_eq {p q : String} (h : Text.split '/' p.toList = Text.split '/' q.toList) :
    p = q := by
  rw [Text.split_eq_splitOn, Text.split_eq_splitOn] at h
  rw [← String.toList_inj, ← @List.intercalate_splitOn _ p.toList _ _ '/', h,
    List.intercalate_splitOn]

theorem split_ne_nil (cs : List Char) : Text.split '/' cs ≠ [] := by
  rw [Text.split_eq_splitOn]
  exact List.splitOn_ne_nil '/' cs

theorem split_slash (front rest : List Char) :
    Text.split '/' (front ++ '/' :: rest) = Text.split '/' front ++ Text.split '/' rest := by
  rw [Text.split_eq_splitOn, Text.split_eq_splitOn, Text.split_eq_splitOn]
  exact List.splitOn_append_cons_self front rest

theorem split_join (p q : String) : Text.split '/' (p ++ "/" ++ q).toList =
    Text.split '/' p.toList ++ Text.split '/' q.toList := by
  rw [String.toList_append, String.toList_append, List.append_assoc]
  exact split_slash p.toList q.toList

/-- The paths below another one all begin with the same parts, which are parts of that one. -/
theorem exists_split_below (base : String) : ∃ parts, parts <+: Text.split '/' base.toList ∧
    ∀ names : List String, (∀ name ∈ names, IsName name) → names ≠ [] →
      Text.split '/' (below base names).toList = parts ++ names.map String.toList := by
  by_cases hbase : base = ""
  · refine ⟨[], List.nil_prefix, fun names hnames hne => ?_⟩
    rw [hbase, below_empty, split_names hnames hne, List.nil_append]
  by_cases hlast : base.toList.getLast? = some '/'
  · -- the slash between the base and the names is already there
    obtain ⟨front, hfront⟩ := List.getLast?_eq_some_iff.mp hlast
    refine ⟨Text.split '/' front, ?_, fun names hnames hne => ?_⟩
    · rw [hfront, split_slash]
      exact List.prefix_append ..
    · rw [below_of_ne_empty hbase hnames hne, if_pos hlast, String.toList_append, hfront,
        List.append_assoc, List.singleton_append, split_slash, split_names hnames hne]
  · refine ⟨Text.split '/' base.toList, List.prefix_rfl, fun names hnames hne => ?_⟩
    rw [below_of_ne_empty hbase hnames hne, if_neg hlast, split_join, split_names hnames hne]

/-- Fewer parts have fewer components. -/
theorem components_initial {p q : String}
    (h : Text.split '/' p.toList <+: Text.split '/' q.toList) : components p <+: components q := by
  obtain ⟨first, parts, hp⟩ := List.exists_cons_of_ne_nil (split_ne_nil p.toList)
  obtain ⟨more, hmore⟩ := h
  have hq : Text.split '/' q.toList = first :: (parts ++ more) := by
    rw [← hmore, hp, List.cons_append]
  by_cases hempty : first = [] ∧ parts = []
  · -- the empty path has one part, but no component
    have hnone : components p = [] := by
      unfold components
      rw [hp, hempty.1, hempty.2]
    rw [hnone]
    exact List.nil_prefix
  · have hparts : first = [] → parts ≠ [] := fun hfirst hnil => hempty ⟨hfirst, hnil⟩
    rw [components_of_split hp hparts, components_of_split hq (by simp_all),
      List.filterMap_append, ← List.append_assoc]
    exact List.prefix_append ..

/-! ### Directories -/

/-- The path lies below the directory: it has the components of the directory, and more. -/
def Under (directory path : String) : Prop :=
  components directory <+: components path ∧ components directory ≠ components path

/-- The directory is one of the file: it is what stands before one of the slashes in the path of
the file, and the file lies below it. -/
def IsDirectoryOf (directory file : String) : Prop :=
  (∃ rest, file = directory ++ "/" ++ rest) ∧ Under directory file

theorem Under.not_initial (h : Under root directory) :
    ¬components directory <+: components root :=
  fun hinitial => h.2 (h.1.eq_of_length_le hinitial.length_le)

theorem under_below (hne : names ≠ []) (hnames : ∀ name ∈ names, IsName name) :
    Under root (below root names) := by
  unfold Under
  rw [components_below hnames]
  refine ⟨List.prefix_append .., ?_⟩
  simpa using hne

theorem isDirectoryOf_below {k : Nat} (hnames : ∀ name ∈ names, IsName name) (hpos : 0 < k)
    (hlt : k < names.length) : IsDirectoryOf (below root (names.take k)) (below root names) := by
  have htake : ∀ name ∈ names.take k, IsName name :=
    fun name hname => hnames name (List.mem_of_mem_take hname)
  have hdrop : ∀ name ∈ names.drop k, IsName name :=
    fun name hname => hnames name (List.mem_of_mem_drop hname)
  have hne : names ≠ [] := List.ne_nil_of_length_pos (Nat.zero_lt_of_lt hlt)
  have htakene : names.take k ≠ [] := List.ne_nil_of_length_pos (by rw [List.length_take]; omega)
  have hdropne : names.drop k ≠ [] := List.ne_nil_of_length_pos (by rw [List.length_drop]; omega)
  constructor
  · obtain ⟨parts, -, hsplit⟩ := exists_split_below root
    refine ⟨"/".intercalate (names.drop k), eq_of_split_eq ?_⟩
    rw [split_join, hsplit names hnames hne, hsplit _ htake htakene, split_names hdrop hdropne,
      List.append_assoc, ← List.map_append, List.take_append_drop]
  · unfold Under
    rw [components_below htake, components_below hnames]
    refine ⟨(List.prefix_append_right_inj _).mpr ((List.take_prefix k names).map _), fun heq => ?_⟩
    have hlength := congrArg List.length heq
    simp only [List.length_append, List.length_map, List.length_take] at hlength
    omega

/-- A directory below the root is reached from there through the first of the names that lead to
the file. -/
theorem IsDirectoryOf.exists_take (h : IsDirectoryOf directory (below root names))
    (hunder : Under root directory) (hnames : ∀ name ∈ names, IsName name) (hne : names ≠ []) :
    ∃ k, 0 < k ∧ k < names.length ∧ directory = below root (names.take k) := by
  obtain ⟨⟨rest, hfile⟩, -⟩ := h
  obtain ⟨parts, hparts, hsplit⟩ := exists_split_below root
  have hnot : ¬Text.split '/' directory.toList <+: parts :=
    fun hinitial => hunder.not_initial (components_initial (hinitial.trans hparts))
  have hcut := hsplit names hnames hne
  rw [hfile, split_join] at hcut
  obtain ⟨more, hmore, -⟩ | ⟨more, hmore, hrest⟩ := List.append_eq_append_iff.mp hcut
  · -- the slash is one of the root
    exact absurd ⟨more, hmore.symm⟩ hnot
  · have hmorene : more ≠ [] := by
      rintro rfl
      rw [List.append_nil] at hmore
      exact hnot (hmore ▸ List.prefix_rfl)
    have hlength : names.length = more.length + (Text.split '/' rest.toList).length := by
      rw [← List.length_append, ← hrest, List.length_map]
    have hpos := List.length_pos_of_ne_nil hmorene
    have hlt := List.length_pos_of_ne_nil (split_ne_nil rest.toList)
    have htake : (names.take more.length).map String.toList = more := by
      rw [List.map_take, hrest, List.take_left]
    refine ⟨more.length, hpos, by omega, eq_of_split_eq ?_⟩
    rw [hmore, hsplit _ (fun name hname => hnames name (List.mem_of_mem_take hname)), htake]
    exact List.ne_nil_of_length_pos (by rw [List.length_take]; omega)

/-- **The directories of a file that lie below the root** are reached from there through the first
of the names that lead to the file. -/
theorem isDirectoryOf_below_iff (hnames : ∀ name ∈ names, IsName name) (hne : names ≠ []) :
    IsDirectoryOf directory (below root names) ∧ Under root directory ↔
      ∃ k, 0 < k ∧ k < names.length ∧ directory = below root (names.take k) := by
  constructor
  · rintro ⟨hdirectory, hunder⟩
    exact hdirectory.exists_take hunder hnames hne
  · rintro ⟨k, hpos, hlt, rfl⟩
    refine ⟨isDirectoryOf_below hnames hpos hlt, under_below ?_ ?_⟩
    · exact List.ne_nil_of_length_pos (by rw [List.length_take]; omega)
    · exact fun name hname => hnames name (List.mem_of_mem_take hname)

/-! ### The walk upward -/

variable {path parent name : String} {above : List String} {first : List Char}
  {rest parts : List (List Char)}

theorem isBelow_iff : isBelow root directory = true ↔ Under root directory := by
  rw [isBelow, Bool.and_eq_true, List.isPrefixOf_iff_prefix, bne_iff_ne, Under, ne_comm]

theorem split_ofList (h : ∀ part ∈ parts, '/' ∉ part) (hne : parts ≠ []) :
    Text.split '/' (String.ofList (['/'].intercalate parts)).toList = parts := by
  rw [String.toList_ofList, Text.split_eq_splitOn]
  exact List.splitOn_intercalate '/' h hne

theorem filterMap_component?_dropWhile (parts : List (List Char)) :
    (parts.dropWhile fun part => (component? part).isNone).filterMap component? =
      parts.filterMap component? := by
  induction parts with
  | nil => rfl
  | cons part parts ih =>
    cases hpart : component? part with
    | none => rw [List.dropWhile_cons_of_pos (by simp [hpart]), ih, List.filterMap_cons_none hpart]
    | some c => rw [List.dropWhile_cons_of_neg (by simp [hpart])]

theorem components_ofParts (hfirst : '/' ∉ first) (hrest : ∀ part ∈ rest, '/' ∉ part) :
    components (ofParts first rest) = leading first ++ rest.reverse.filterMap component? := by
  rw [List.filterMap_reverse, ← filterMap_component?_dropWhile, ← List.filterMap_reverse, ofParts]
  split
  · next hnil =>
    rw [hnil, List.filterMap_nil, List.append_nil]
    by_cases hempty : first = []
    · rw [hempty]
      rfl
    · have hsplit := split_ofList (List.forall_mem_singleton.mpr hfirst) (List.cons_ne_nil first [])
      rw [List.intercalate_singleton] at hsplit
      rw [if_neg (by simpa using hempty), components_of_split hsplit (absurd · hempty),
        List.filterMap_nil, List.append_nil]
  · next hne =>
    refine components_of_split (split_ofList ?_ (List.cons_ne_nil _ _)) fun _ => hne
    refine List.forall_mem_cons.mpr ⟨hfirst, fun part hpart => hrest part ?_⟩
    exact (List.dropWhile_sublist _).subset (List.mem_reverse.mp hpart)

/-- The first part of a path has at most one component. -/
theorem dropLast_leading (first : List Char) : (leading first).dropLast = [] := by
  unfold leading
  split
  · rfl
  · rfl
  · cases component? first <;> rfl

theorem components_of_ancestorsFrom (hfirst : '/' ∉ first) (hrest : ∀ part ∈ rest, '/' ∉ part)
    (hparent : ancestorsFrom first rest = parent :: above) :
    components parent = (leading first ++ rest.reverse.filterMap component?).dropLast := by
  induction rest with
  | nil =>
    rw [ancestorsFrom] at hparent
    split at hparent
    · cases hparent
    · obtain ⟨rfl, -⟩ := List.cons.inj hparent
      rw [List.reverse_nil, List.filterMap_nil, List.append_nil, dropLast_leading]
      rfl
  | cons part rest ih =>
    replace hrest := (List.forall_mem_cons.mp hrest).2
    rw [List.reverse_cons, List.filterMap_append]
    rw [ancestorsFrom] at hparent
    cases hpart : component? part with
    | none =>
      rw [hpart] at hparent
      rw [List.filterMap_cons_none hpart, List.filterMap_nil, List.append_nil]
      exact ih hrest hparent
    | some c =>
      rw [hpart] at hparent
      obtain ⟨rfl, -⟩ := List.cons.inj hparent
      rw [List.filterMap_cons_some hpart, List.filterMap_nil, ← List.append_assoc,
        List.dropLast_concat]
      exact components_ofParts hfirst hrest

/-- **A step upward takes away the last component.** -/
theorem components_of_ancestors_eq_cons (h : ancestors path = parent :: above) :
    components parent = (components path).dropLast := by
  obtain ⟨first, rest, hsplit⟩ := List.exists_cons_of_ne_nil (split_ne_nil path.toList)
  have hslash : ∀ part ∈ first :: rest, '/' ∉ part := by
    rw [← hsplit]
    exact fun part => Text.not_mem_of_mem_split
  obtain ⟨hfirst, hrest⟩ := List.forall_mem_cons.mp hslash
  simp only [ancestors, hsplit] at h
  have hne : first = [] → rest ≠ [] := by
    -- there is nothing above the empty path
    rintro rfl rfl
    cases h
  rw [components_of_split hsplit hne, components_of_ancestorsFrom hfirst
    (fun part hpart => hrest part (List.mem_reverse.mp hpart)) h, List.reverse_reverse]

example : ancestors "/a//b/./c/" = ["/a//b", "/a", "/"] := by decide +kernel

/-- A path whose last part means something is given by its parts. -/
theorem ofParts_reverse (h : Text.split '/' path.toList = first :: rest)
    (hlast : ∀ part, (first :: rest).getLast? = some part → (component? part).isSome = true) :
    ofParts first rest.reverse = path := by
  have hpath : String.ofList (['/'].intercalate (first :: rest)) = path := by
    rw [← h, Text.split_eq_splitOn, List.intercalate_splitOn, String.ofList_toList]
  obtain rfl | ⟨front, part, rfl⟩ := rest.eq_nil_or_concat'
  · have hfirst : first ≠ [] := by
      rintro rfl
      exact absurd (hlast [] rfl) (by decide)
    rw [List.intercalate_singleton] at hpath
    rw [← hpath]
    exact if_neg (by simpa using hfirst)
  · have hpart : ¬(component? part).isNone = true := by
      rw [← Option.not_isSome, hlast part (@List.getLast?_concat _ (first :: front) part)]
      exact Bool.false_ne_true
    rw [ofParts, List.reverse_concat, List.dropWhile_cons, if_neg hpart, ← List.reverse_concat,
      List.reverse_reverse]
    split
    · next hnil => exact absurd hnil (by simp)
    · exact hpath

/-- The first step upward from a path below the root takes away the last name. -/
theorem ancestors_below_concat (hnames : ∀ name ∈ names, IsName name) (hne : names ≠ [])
    (hname : IsName name) : ancestors (below root (names ++ [name])) =
      below root names :: ancestors (below root names) := by
  obtain ⟨parts, -, hsplit⟩ := exists_split_below root
  obtain ⟨first, rest, hrest⟩ :=
    List.exists_cons_of_ne_nil (split_ne_nil (below root names).toList)
  have hmore : Text.split '/' (below root (names ++ [name])).toList =
      first :: (rest ++ [name.toList]) := by
    rw [hsplit _ (List.forall_mem_append.mpr ⟨hnames, List.forall_mem_singleton.mpr hname⟩)
      (List.append_ne_nil_of_left_ne_nil hne _), List.map_append, ← List.append_assoc,
      ← hsplit names hnames hne, hrest]
    rfl
  have hself : ofParts first rest.reverse = below root names := by
    refine ofParts_reverse hrest fun part hpart => ?_
    obtain ⟨front, last, rfl⟩ := names.eq_nil_or_concat'.resolve_left hne
    rw [← hrest, hsplit _ hnames hne, List.map_append, ← List.append_assoc] at hpart
    obtain rfl : last.toList = part := by simpa using hpart
    rw [(hnames last (by simp)).component?]
    rfl
  simp only [ancestors, hmore, hrest, List.reverse_concat, ancestorsFrom, hname.component?, hself]
  rfl

/-- The walk upward ends at the root. -/
theorem takeWhile_ancestors_singleton (hname : IsName name) :
    (ancestors (below root [name])).takeWhile (isBelow root) = [] := by
  cases h : ancestors (below root [name]) with
  | nil => rfl
  | cons parent above =>
    have hparent : components parent = components root := by
      rw [components_of_ancestors_eq_cons h, components_below (List.forall_mem_singleton.mpr hname)]
      exact List.dropLast_concat
    exact List.takeWhile_cons_of_neg fun hbelow => (isBelow_iff.mp hbelow).2 hparent.symm

theorem takeWhile_ancestors_take {k : Nat} (hnames : ∀ name ∈ names, IsName name)
    (hk : k < names.length) :
    (ancestors (below root (names.take (k + 1)))).takeWhile (isBelow root) =
      (List.range k).reverse.map fun j => below root (names.take (j + 1)) := by
  induction k with
  | zero =>
    rw [List.take_succ_eq_append_getElem hk, List.take_zero, List.nil_append]
    exact takeWhile_ancestors_singleton (hnames _ (List.getElem_mem hk))
  | succ k ih =>
    -- one name more is one step more, and that step stays below the root
    have htake : ∀ name ∈ names.take (k + 1), IsName name :=
      fun name hname => hnames name (List.mem_of_mem_take hname)
    have hne : names.take (k + 1) ≠ [] :=
      List.ne_nil_of_length_pos (by rw [List.length_take]; omega)
    rw [List.take_succ_eq_append_getElem hk,
      ancestors_below_concat htake hne (hnames _ (List.getElem_mem hk)),
      List.takeWhile_cons_of_pos (isBelow_iff.mpr (under_below hne htake)), ih (by omega),
      List.range_succ, List.reverse_concat, List.map_cons]

/-- **The walk upward passes the directories of a file that lie below the root**, and it passes the
deepest one first. -/
theorem takeWhile_ancestors_below (hnames : ∀ name ∈ names, IsName name) (hne : names ≠ []) :
    (ancestors (below root names)).takeWhile (isBelow root) =
      (List.range (names.length - 1)).reverse.map fun k => below root (names.take (k + 1)) := by
  have hpos := List.length_pos_of_ne_nil hne
  have htake := @takeWhile_ancestors_take root names _ hnames (Nat.sub_one_lt_of_lt hpos)
  rwa [Nat.sub_add_cancel hpos, List.take_length] at htake

theorem mem_takeWhile_ancestors (hnames : ∀ name ∈ names, IsName name) (hne : names ≠ []) :
    directory ∈ (ancestors (below root names)).takeWhile (isBelow root) ↔
      IsDirectoryOf directory (below root names) ∧ Under root directory := by
  rw [takeWhile_ancestors_below hnames hne, isDirectoryOf_below_iff hnames hne]
  simp only [List.mem_map, List.mem_reverse, List.mem_range]
  constructor
  · rintro ⟨k, hk, rfl⟩
    exact ⟨k + 1, Nat.succ_pos k, by omega, rfl⟩
  · rintro ⟨k, hpos, hlt, rfl⟩
    exact ⟨k - 1, by omega, by rw [Nat.sub_add_cancel hpos]⟩

/-! ### The order of paths -/

/-- What a component is: the start, a leading `.`, the directory above, or a name. -/
def Component.rank : Component → Nat
  | .root => 0
  | .current => 1
  | .parent => 2
  | .named _ => 3

/-- Components are ordered by what they are, and names by their characters. -/
def Component.Before : Component → Component → Prop
  | .named name, .named name' => name < name'
  | c, d => c.rank < d.rank

/-- Paths are ordered by their components, one after the other. -/
def Before (p q : String) : Prop := List.Lex Component.Before (components p) (components q)

theorem Component.not_before_self (c : Component) : ¬c.Before c := by
  cases c with
  | named name => exact String.lt_irrefl name
  | _ => exact Nat.lt_irrefl _

theorem lex_of_append_left {start p q : List Component}
    (h : List.Lex Component.Before (start ++ p) (start ++ q)) :
    List.Lex Component.Before p q := by
  induction start with
  | nil => exact h
  | cons c start ih =>
    cases h with
    | rel hbefore => exact absurd hbefore c.not_before_self
    | cons h => exact ih h

theorem lt_of_lex_named {names names' : List String}
    (h : List.Lex Component.Before (names.map .named) (names'.map .named)) : names < names' := by
  induction names generalizing names' with
  | nil =>
    cases names' with
    | nil => cases h
    | cons name' names' => exact List.Lex.nil
  | cons name names ih =>
    cases names' with
    | nil => cases h
    | cons name' names' =>
      cases h with
      | rel hbefore => exact List.Lex.rel hbefore
      | cons h => exact List.Lex.cons (ih h)

/-- Paths below one root are ordered by the names that lead to them. -/
theorem lt_of_before {names' : List String} (hnames : ∀ name ∈ names, IsName name)
    (hnames' : ∀ name ∈ names', IsName name) (h : Before (below root names) (below root names')) :
    names < names' := by
  unfold Before at h
  rw [components_below hnames, components_below hnames'] at h
  exact lt_of_lex_named (lex_of_append_left h)

end Path

/-! ### Selection -/

namespace SourceTree

variable {ignored ignored' : String → Bool → Bool} {root : String} {names : List String}
  {found : List (List String)}

/-- Each file is reached from the root, and not without a step, through names that files and
directories can have. -/
def BelowRoot (found : List (List String)) : Prop :=
  ∀ names ∈ found, names ≠ [] ∧ ∀ name ∈ names, Path.IsName name

instance (found : List (List String)) : Decidable (BelowRoot found) :=
  inferInstanceAs (Decidable (∀ names ∈ found, names ≠ [] ∧ ∀ name ∈ names, Path.IsName name))

/-- Neither the file nor one of its directories below the root is ignored. -/
structure IsKept (ignored : String → Bool → Bool) (root file : String) : Prop where
  file_eq : ignored file false = false
  directory_eq : ∀ directory, Path.IsDirectoryOf directory file → Path.Under root directory →
    ignored directory true = false

theorem isLeftOut_eq_false_iff (hnames : ∀ name ∈ names, Path.IsName name) (hne : names ≠ []) :
    isLeftOut ignored root (Path.below root names) = false ↔
      IsKept ignored root (Path.below root names) := by
  rw [isLeftOut, Bool.or_eq_false_iff, List.any_eq_false]
  simp only [Path.mem_takeWhile_ancestors hnames hne, Bool.not_eq_true]
  constructor
  · rintro ⟨hfile, hdirectories⟩
    exact ⟨hfile, fun directory hdirectory hunder => hdirectories directory ⟨hdirectory, hunder⟩⟩
  · rintro ⟨hfile, hdirectories⟩
    exact ⟨hfile, fun directory ⟨hdirectory, hunder⟩ => hdirectories directory hdirectory hunder⟩

/-- What is ignored at the root and above it decides nothing. -/
theorem IsKept.of_agree {file : String} (h : IsKept ignored root file)
    (hfile : Path.Under root file) (hagree : ∀ path isDirectory, Path.Under root path →
      ignored' path isDirectory = ignored path isDirectory) : IsKept ignored' root file where
  file_eq := by rw [hagree _ _ hfile, h.file_eq]
  directory_eq directory hdirectory hunder := by
    rw [hagree _ _ hunder, h.directory_eq directory hdirectory hunder]

theorem isLeftOut_congr (hnames : ∀ name ∈ names, Path.IsName name) (hne : names ≠ [])
    (hagree : ∀ path isDirectory, Path.Under root path →
      ignored' path isDirectory = ignored path isDirectory) :
    isLeftOut ignored' root (Path.below root names) =
      isLeftOut ignored root (Path.below root names) := by
  have hfile : Path.Under root (Path.below root names) := Path.under_below hne hnames
  have hiff : isLeftOut ignored' root (Path.below root names) = false ↔
      isLeftOut ignored root (Path.below root names) = false := by
    rw [isLeftOut_eq_false_iff hnames hne, isLeftOut_eq_false_iff hnames hne]
    exact ⟨fun h => h.of_agree hfile fun path isDirectory hunder =>
      (hagree path isDirectory hunder).symm, fun h => h.of_agree hfile hagree⟩
  rw [Bool.eq_iff_iff, ← Bool.not_eq_false, ← Bool.not_eq_false, hiff]

theorem comesBefore_iff {a b : List String} : comesBefore a b = true ↔ ¬b < a := by
  rw [comesBefore, Bool.not_eq_true', decide_eq_false_iff_not]

theorem comesBefore_trans (a b c : List String) (hab : comesBefore a b = true)
    (hbc : comesBefore b c = true) : comesBefore a c = true := by
  rw [comesBefore_iff, List.not_lt] at hab hbc ⊢
  exact List.le_trans hab hbc

theorem comesBefore_total (a b : List String) : (comesBefore a b || comesBefore b a) = true := by
  rw [Bool.or_eq_true, comesBefore_iff, comesBefore_iff, List.not_lt, List.not_lt]
  exact List.le_total a b

theorem select_perm (ignored : String → Bool → Bool) (root : String) (found : List (List String)) :
    (select ignored root found).Perm
      ((found.filter fun names => !isLeftOut ignored root (Path.below root names)).map
        (Path.below root)) :=
  (List.mergeSort_perm ..).map _

theorem pairwise_select (hfound : BelowRoot found) :
    (select ignored root found).Pairwise fun p q => ¬Path.Before q p := by
  rw [select, List.pairwise_map]
  refine (List.pairwise_mergeSort comesBefore_trans comesBefore_total _).imp_of_mem
    fun {a b} ha hb hab hbefore => ?_
  have hname : ∀ names ∈ (found.filter fun names =>
      !isLeftOut ignored root (Path.below root names)).mergeSort comesBefore,
      ∀ name ∈ names, Path.IsName name :=
    fun names hmem => (hfound names (List.mem_of_mem_filter (List.mem_mergeSort.mp hmem))).2
  exact comesBefore_iff.mp hab (Path.lt_of_before (hname b hb) (hname a ha) hbefore)

theorem isKept_of_mem_select (hfound : BelowRoot found) {file : String}
    (h : file ∈ select ignored root found) : IsKept ignored root file := by
  obtain ⟨names, hmem, rfl⟩ := List.mem_map.mp ((select_perm ignored root found).mem_iff.mp h)
  obtain ⟨hfind, hleft⟩ := List.mem_filter.mp hmem
  obtain ⟨hne, hnames⟩ := hfound names hfind
  exact (isLeftOut_eq_false_iff hnames hne).mp (by simpa using hleft)

/-- A kept file is selected as often as it was found. -/
theorem count_select (hfound : BelowRoot found) {file : String} (h : IsKept ignored root file) :
    (select ignored root found).count file = (found.map (Path.below root)).count file := by
  rw [(select_perm ignored root found).count_eq, List.count_eq_countP, List.count_eq_countP,
    List.countP_map, List.countP_map, List.countP_filter]
  refine List.countP_congr fun names hmem => ?_
  obtain ⟨hne, hnames⟩ := hfound names hmem
  simp only [Function.comp_apply, Bool.and_eq_true, beq_iff_eq, Bool.not_eq_true',
    and_iff_left_iff_imp]
  rintro rfl
  exact (isLeftOut_eq_false_iff hnames hne).mpr h

theorem select_congr (hfound : BelowRoot found)
    (hagree : ∀ path isDirectory, Path.Under root path →
      ignored' path isDirectory = ignored path isDirectory) :
    select ignored' root found = select ignored root found := by
  have hfilter : (found.filter fun names => !isLeftOut ignored' root (Path.below root names)) =
      found.filter fun names => !isLeftOut ignored root (Path.below root names) :=
    List.filter_congr fun names hmem => by
      rw [isLeftOut_congr (hfound names hmem).2 (hfound names hmem).1 hagree]
  rw [select, hfilter, select]

/-- **Just the kept files are selected, in order.**  Of the files found below the root those are
selected that are not ignored and of which no directory below the root is ignored, each as often as
it was found, and sorted by their paths.  What is ignored at the root and above it changes nothing;
and the sources below a root are what is selected of the files that a walk finds there. -/
theorem select_exact (ignored : String → Bool → Bool) (root : String) (found : List (List String))
    (hfound : BelowRoot found) :
    (select ignored root found).Pairwise (fun p q => ¬Path.Before q p) ∧
    (∀ file ∈ select ignored root found, IsKept ignored root file) ∧
    (∀ file, IsKept ignored root file →
      (select ignored root found).count file = (found.map (Path.below root)).count file) ∧
    (∀ ignored' : String → Bool → Bool, (∀ path isDirectory, Path.Under root path →
        ignored' path isDirectory = ignored path isDirectory) →
      select ignored' root found = select ignored root found) ∧
    (∀ files filter, walk files root = .ok found →
      sources files filter root = select filter.ignores root found) := by
  refine ⟨pairwise_select hfound, fun file => isKept_of_mem_select hfound,
    fun file => count_select hfound, fun ignored' => select_congr hfound,
    fun files filter hwalk => ?_⟩
  rw [sources, hwalk]

/-- A root with two slashes after it, and a file two levels below a directory that is ignored. -/
theorem select_exact_nested :
    let files : Files := ⟨[(["src", "lib", "b.py"], .file "".toUTF8),
      (["src", "build", "x", "c.py"], .file "".toUTF8), (["src", "a.py"], .file "".toUTF8)]⟩
    let filter := TreeFilter.make files "src//" []
    let found := [["lib", "b.py"], ["build", "x", "c.py"], ["a.py"]]
    walk files "src//" = .ok found ∧ BelowRoot found ∧
      (select filter.ignores "src//" found).count "src//lib/b.py" = 1 ∧
      "src//build/x/c.py" ∉ select filter.ignores "src//" found ∧
      sources files filter "src//" = select filter.ignores "src//" found := by
  intro files filter found
  have hwalk : walk files "src//" = .ok found := by decide +kernel
  have hfound : BelowRoot found := by decide
  have hkept : IsKept filter.ignores "src//" (Path.below "src//" ["lib", "b.py"]) :=
    (isLeftOut_eq_false_iff (by decide) (by decide)).mp (by decide +kernel)
  have hbuild : filter.ignores "src//build" true = true := by decide +kernel
  obtain ⟨-, hall, hcount, -, hsources⟩ := select_exact filter.ignores "src//" found hfound
  refine ⟨hwalk, hfound, (hcount _ hkept).trans (by decide), fun hmem => ?_,
    hsources files filter hwalk⟩
  have hdirectory : Path.IsDirectoryOf "src//build" "src//build/x/c.py" :=
    ⟨⟨"x/c.py", by decide⟩, by decide, by decide⟩
  have hignored := (hall _ hmem).directory_eq _ hdirectory ⟨by decide, by decide⟩
  rw [hbuild] at hignored
  cases hignored

end SourceTree
end NameBinding

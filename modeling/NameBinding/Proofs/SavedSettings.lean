import NameBinding.Proofs.Documents
import NameBinding.Proofs.Storage
import NameBinding.Session

/-!
# Saved settings are loaded again

Settings are written as a document: their members, and a table for every language.
Whatever the texts in them are, the document is read back to the same settings.  So a
file that settings were saved to gives the settings again, and a file that they could
not be saved to is as before.

## Main definitions

* `Settings.document` — settings as a document.

## Main results

* `Settings.readable_document` — every value of the document is read back.
* `Settings.ofText?_text` — **written settings are read back.**
* `Session.load_saveSettings` — **saved settings are loaded again**, and a refusal
  leaves the files alone.
-/

namespace NameBinding
namespace Settings

open Toml (Member Table Document Reads)

/-! ### Documents -/

/-- A list of texts as a value. -/
def textsValue (ts : List String) : Toml := .array (ts.map .string)

/-- A table of symbols as a value. -/
def symbolsValue (t : SymbolTable) : Toml := .array (t.spaces.map textsValue)

/-- A member that is there if its value is. -/
def optionalMember {α : Type} (key : String) (text : α → String) (value : α → Toml)
    (o : Option α) : List Member :=
  (o.map fun a => ⟨key, text a, value a⟩).toList

/-- The members of settings. -/
def members (s : Settings) : List Member :=
  optionalMember "path" Toml.stringText .string s.path ++
    [⟨"exclude", textsText s.exclude, textsValue s.exclude⟩] ++
    optionalMember "format" Toml.stringText .string s.format ++
    optionalMember "threads" Nat.repr (fun n => .integer n) s.threads

/-- The table of a language. -/
def languageTable (e : String × LanguageSettings) : Table where
  name := e.1
  members := optionalMember "query" Toml.stringText .string e.2.query ++
    optionalMember "namespaces" symbolsText symbolsValue e.2.namespaces

/-- Settings as a document. -/
def document (s : Settings) : Document where
  members := s.members
  group := "languages"
  tables := s.languages.entries.map languageTable

/-! ### Every value is read back -/

theorem reads_texts (depth : Nat) (ts : List String) :
    Reads (Toml.value (depth + 1)) (textsText ts).toList (textsValue ts) :=
  Toml.reads_array ts fun s _ => Toml.reads_string depth s

theorem reads_symbols (depth : Nat) (t : SymbolTable) :
    Reads (Toml.value (depth + 2)) (symbolsText t).toList (symbolsValue t) :=
  Toml.reads_array t.spaces fun ts _ => reads_texts depth ts

theorem readable_optionalMember {α : Type} {key : String} {text : α → String} {value : α → Toml}
    {o : Option α} {m : Member} (hm : m ∈ optionalMember key text value o)
    (h : ∀ a ∈ o, Reads (Toml.value (Toml.depthLimit - 1)) (text a).toList (value a)) :
    m.Readable := by
  rw [optionalMember, Option.mem_toList, Option.map_eq_some_iff] at hm
  obtain ⟨a, ha, rfl⟩ := hm
  exact h a ha

theorem readable_members {s : Settings} (h : s.isWritable = true) :
    ∀ m ∈ s.members, m.Readable := by
  intro m hm
  simp only [members, List.mem_append, List.mem_singleton] at hm
  rcases hm with ((hm | rfl) | hm) | hm
  · exact readable_optionalMember hm fun t _ => Toml.reads_string _ t
  · exact reads_texts 78 s.exclude
  · exact readable_optionalMember hm fun t _ => Toml.reads_string _ t
  · refine readable_optionalMember hm fun n hn => Toml.reads_integer _ ?_
    rw [isWritable, Option.mem_def.1 hn, Option.all_some] at h
    exact of_decide_eq_true h

theorem readable_languageTable (e : String × LanguageSettings) : (languageTable e).Readable := by
  constructor
  · intro m hm
    rcases List.mem_append.1 hm with hm | hm
    · exact readable_optionalMember hm fun t _ => Toml.reads_string _ t
    · exact readable_optionalMember hm fun t _ => reads_symbols 77 t
  · obtain ⟨name, query, namespaces⟩ := e
    cases query <;> cases namespaces <;> simp [languageTable, optionalMember]

theorem readable_document {s : Settings} (h : s.isWritable = true) : s.document.Readable where
  members := readable_members h
  tables := by
    intro t ht
    obtain ⟨e, -, rfl⟩ := List.mem_map.1 ht
    exact readable_languageTable e
  keys := by
    obtain ⟨path, exclude, format, threads, languages⟩ := s
    cases path <;> cases format <;> cases threads <;>
      simp [document, members, optionalMember]
  names := by
    -- the names grow
    have hnames : (s.languages.entries.map Prod.fst).Nodup := by
      rw [List.Nodup, List.pairwise_map]
      refine s.languages.sorted.imp fun {a b} hlt heq => ?_
      rw [heq] at hlt
      exact String.lt_irrefl _ hlt
    simpa [document, languageTable, Function.comp_def] using hnames

/-! ### The written form is the document -/

theorem toList_optionalLine {α : Type} (key : String) (text : α → String) (value : α → Toml)
    (o : Option α) : (optionalLine key (o.map text)).toList =
      (optionalMember key text value o).flatMap Member.line := by
  cases o with
  | none => rfl
  | some a => simp [optionalLine, optionalMember, Member.line]

theorem toList_languageText (e : String × LanguageSettings) :
    (languageText e.1 e.2).toList = (languageTable e).text "languages" := by
  rw [languageText, String.toList_append, String.toList_append, String.toList_append,
    toList_optionalLine "query" Toml.stringText .string,
    toList_optionalLine "namespaces" symbolsText symbolsValue, Table.text, languageTable,
    List.flatMap_append, List.append_assoc]
  rfl

theorem toList_tables (s : Settings) :
    (if s.languages.entries.isEmpty then "\n" ++ Toml.headerLine ["languages"]
      else String.join (s.languages.entries.map fun (name, l) => languageText name l)).toList =
    if s.document.tables.isEmpty then '\n' :: (Toml.headerLine ["languages"]).toList
    else s.document.tables.flatMap (Table.text "languages") := by
  cases hentries : s.languages.entries with
  | nil => simp [document, hentries]
  | cons e es => simp [document, hentries, List.flatMap_map, toList_languageText]

theorem toList_text (s : Settings) : s.text.toList = s.document.text := by
  simp only [text, String.toList_append, toList_optionalLine _ Toml.stringText .string,
    toList_optionalLine _ Nat.repr (fun n => .integer n), toList_tables, Document.text]
  simp only [document, members, List.flatMap_append, List.flatMap_singleton, List.append_assoc]
  rfl

/-! ### Reading -/

theorem mapM_map_eq_some {α β : Type} {write : α → β} {read : β → Option α}
    (h : ∀ a, read (write a) = some a) (as : List α) : (as.map write).mapM read = some as := by
  induction as with
  | nil => rfl
  | cons a as ih => simp [List.mapM_cons, h, ih]

theorem string?_string (s : String) : Toml.string? (.string s) = some s := rfl

theorem texts?_textsValue (ts : List String) : texts? (textsValue ts) = some ts :=
  mapM_map_eq_some string?_string ts

theorem symbols?_symbolsValue (t : SymbolTable) : symbols? (symbolsValue t) = some t := by
  show ((t.spaces.map textsValue).mapM texts?).map _ = some t
  rw [mapM_map_eq_some texts?_textsValue]
  rfl

theorem natural?_integer (n : Nat) : natural? (.integer n) = some n := by
  simp [natural?]

theorem optional?_map {α : Type} {value : α → Toml} {read : Toml → Option α}
    (h : ∀ a, read (value a) = some a) (o : Option α) : optional? read (o.map value) = some o := by
  cases o with
  | none => rfl
  | some a => simp [optional?, h]

theorem entry?_append (es fs : List (String × Toml)) (key : String) :
    Toml.entry? (es ++ fs) key = (Toml.entry? es key).or (Toml.entry? fs key) := by
  unfold Toml.entry?
  rw [List.find?_append]
  cases h : es.find? (·.1 == key) <;> simp

theorem entry?_cons (name : String) (v : Toml) (es : List (String × Toml)) (key : String) :
    Toml.entry? ((name, v) :: es) key = if name = key then some v else Toml.entry? es key := by
  by_cases h : name = key <;> simp [h, Toml.entry?]

theorem entry?_nil (key : String) : Toml.entry? [] key = none := rfl

theorem entry?_optionalMember {α : Type} (name : String) (text : α → String) (value : α → Toml)
    (o : Option α) (key : String) :
    Toml.entry? ((optionalMember name text value o).map Member.entry) key =
      if name = key then o.map value else none := by
  cases o with
  | none => simp [optionalMember, entry?_nil]
  | some a => exact entry?_cons name (value a) [] key

/-- **The table of a language is read back.** -/
theorem languageSettings?_table (e : String × LanguageSettings) :
    languageSettings? (languageTable e).entry.2 = some e.2 := by
  have hquery : Toml.entry? ((languageTable e).members.map Member.entry) "query" =
      e.2.query.map .string := by
    simp [languageTable, entry?_append, entry?_optionalMember]
  have hnamespaces : Toml.entry? ((languageTable e).members.map Member.entry) "namespaces" =
      e.2.namespaces.map symbolsValue := by
    simp [languageTable, entry?_append, entry?_optionalMember]
  rw [Table.entry, languageSettings?, hquery, hnamespaces, optional?_map string?_string,
    optional?_map symbols?_symbolsValue]
  rfl

theorem languages?_table (m : SortedMap LanguageSettings) :
    languages? (.table ((m.entries.map languageTable).map Table.entry)) = some m := by
  rw [List.map_map, languages?, mapM_map_eq_some, Option.map_some, SortedMap.ofList_entries]
  intro e
  exact congrArg (Option.map (e.1, ·)) (languageSettings?_table e)

/-- What the document has under a key. -/
theorem entry?_document (s : Settings) (key : String) :
    Toml.entry? s.document.entries key =
      ((if "path" = key then s.path.map .string else none).or
        ((if "exclude" = key then some (textsValue s.exclude) else none).or
          ((if "format" = key then s.format.map .string else none).or
            ((if "threads" = key then s.threads.map (fun n => .integer n) else none).or
              (if "languages" = key then some (.table (s.document.tables.map Table.entry))
                else none))))) := by
  simp only [document, Document.entries, members, List.map_append, List.map_cons, List.map_nil,
    Member.entry, List.append_assoc, entry?_append, entry?_cons, entry?_nil,
    entry?_optionalMember]

/-- **The entries of the document are the settings.** -/
theorem ofEntries?_document (s : Settings) : ofEntries? s.document.entries = some s := by
  have hpath : Toml.entry? s.document.entries "path" = s.path.map .string := by
    simp [entry?_document]
  have hexclude : Toml.entry? s.document.entries "exclude" = some (textsValue s.exclude) := by
    simp [entry?_document]
  have hformat : Toml.entry? s.document.entries "format" = s.format.map .string := by
    simp [entry?_document]
  have hthreads : Toml.entry? s.document.entries "threads" =
      s.threads.map (fun n => .integer n) := by
    simp [entry?_document]
  have hlanguages : Toml.entry? s.document.entries "languages" =
      some (.table (s.document.tables.map Table.entry)) := by
    simp [entry?_document]
  have htexts : optional? texts? (some (textsValue s.exclude)) = some (some s.exclude) :=
    optional?_map texts?_textsValue (some s.exclude)
  have htables : optional? languages? (some (.table (s.document.tables.map Table.entry))) =
      some (some s.languages) := by
    rw [optional?, document, languages?_table]
    rfl
  simp only [ofEntries?, hpath, hexclude, hformat, hthreads, hlanguages, htexts, htables,
    optional?_map string?_string, optional?_map natural?_integer]
  rfl

/-- **Written settings are read back.** -/
theorem ofText?_text {s : Settings} (h : s.isWritable = true) : ofText? s.text = some s := by
  rw [ofText?, Toml.parse?_document (readable_document h) (toList_text s), Option.bind_some,
    ofEntries?_document]

/-! ### Files -/

theorem isWritable_iff {s : Settings} :
    s.isWritable = true ↔ ∀ n ∈ s.threads, n < 0x8000000000000000 := by
  cases hthreads : s.threads with
  | none => simp [isWritable, hthreads]
  | some n =>
    rw [isWritable, hthreads, Option.all_some, decide_eq_true_iff]
    simp [integerBound]

section Saving

variable {files files' : Files} {path : String} {s : Settings} {force : Bool}

theorem save_eq_ok_iff : save files path s force = .ok files' ↔
    (files.exists? path = true → force = true) ∧ s.isWritable = true ∧
      files.write path s.text = .ok files' := by
  constructor
  · intro h
    rw [save] at h
    split at h
    · cases h
    next hexists =>
    split at h
    · cases h
    next hwritable =>
    refine ⟨by simpa using hexists, by simpa using hwritable, ?_⟩
    cases hwrite : files.write path s.text with
    | error problem =>
      rw [hwrite] at h
      cases h
    | ok stored =>
      rw [hwrite] at h
      cases h
      rfl
  · rintro ⟨hexists, hwritable, hwrite⟩
    rw [save, if_neg (by simpa using hexists), if_neg (by simp [hwritable]), hwrite]
    rfl

theorem save_eq_alreadyExists (hexists : files.exists? path = true) (hforce : force = false) :
    save files path s force = .error (.alreadyExists path) := by
  rw [save, if_pos (by simp [hexists, hforce])]

theorem save_eq_unwritable (hexists : files.exists? path = true → force = true)
    (hwritable : s.isWritable = false) : save files path s force = .error .unwritable := by
  rw [save, if_neg (by simpa using hexists), if_pos (by simp [hwritable])]

/-- **A file that settings were saved to gives them again.** -/
theorem load_save (h : save files path s force = .ok files') :
    load files' (some path) = .ok (some s) := by
  obtain ⟨-, hwritable, hwrite⟩ := save_eq_ok_iff.1 h
  simp only [load, Option.getD_some, Files.exists?_write hwrite, Files.readText_write hwrite,
    ofText?_text hwritable]
  rfl

end Saving

end Settings

namespace Session

variable {w w' : World} {path : String} {s : Settings} {force : Bool}

/-- Saving ends as `Settings.save` does, and the files change only if it succeeds. -/
theorem run_saveSettings (w : World) (path : String) (s : Settings) (force : Bool) :
    (saveSettings path s force).run w =
      match Settings.save w.files path s force with
      | .ok files => (.ok (), { w with files })
      | .error e => (.error (.settings e), w) := by
  rw [saveSettings, run_get_bind]
  cases h : Settings.save w.files path s force with
  | ok files => exact run_bind_ok (x := ofSettings _) (run_ofExcept_ok rfl)
  | error e => exact run_bind_error (x := ofSettings _) (run_ofExcept_error rfl)

theorem run_saveSettings_eq_ok_iff : (saveSettings path s force).run w = (.ok (), w') ↔
    ∃ files, Settings.save w.files path s force = .ok files ∧ w' = { w with files } := by
  rw [run_saveSettings]
  cases Settings.save w.files path s force with
  | ok files =>
    constructor
    · intro h
      cases h
      exact ⟨files, rfl, rfl⟩
    · rintro ⟨files', h, rfl⟩
      cases h
      rfl
  | error e =>
    constructor
    · intro h
      cases h
    · rintro ⟨files', h, -⟩
      cases h

theorem eq_of_run_saveSettings_error {e : CommandError}
    (h : (saveSettings path s force).run w = (.error e, w')) : w' = w := by
  rw [run_saveSettings] at h
  cases hsave : Settings.save w.files path s force with
  | ok files =>
    rw [hsave] at h
    cases h
  | error cause =>
    rw [hsave] at h
    cases h
    rfl

/-- **Saved settings are loaded again**, and no other file changes.  A refusal changes
nothing: a file is there and `force` is not given, or the number of workers is too large,
or the file cannot be written. -/
theorem load_saveSettings (w : World) (path : String) (s : Settings) (force : Bool) :
    (∀ w', (saveSettings path s force).run w = (.ok (), w') →
      Settings.load w'.files (some path) = .ok (some s) ∧
        ∀ q, w.files.placeOf path ≠ .ok q → w'.files.content? q = w.files.content? q) ∧
    (∀ e w', (saveSettings path s force).run w = (.error e, w') → w' = w) ∧
    (w.files.exists? path = true → force = false →
      (saveSettings path s force).run w = (.error (.settings (.alreadyExists path)), w)) ∧
    ((w.files.exists? path = true → force = true) → (∃ n ∈ s.threads, 0x8000000000000000 ≤ n) →
      (saveSettings path s force).run w = (.error (.settings .unwritable), w)) ∧
    ((∃ w', (saveSettings path s force).run w = (.ok (), w')) ↔
      (w.files.exists? path = true → force = true) ∧ (∀ n ∈ s.threads, n < 0x8000000000000000) ∧
        ∃ files, w.files.write path s.text = .ok files) := by
  refine ⟨?_, fun e w' => eq_of_run_saveSettings_error, ?_, ?_, ?_⟩
  · intro w' hrun
    obtain ⟨files, hsave, rfl⟩ := run_saveSettings_eq_ok_iff.1 hrun
    have hwrite := (Settings.save_eq_ok_iff.1 hsave).2.2
    exact ⟨Settings.load_save hsave, fun q hq => Files.content?_write hwrite hq⟩
  · intro hexists hforce
    rw [run_saveSettings, Settings.save_eq_alreadyExists hexists hforce]
  · rintro hexists ⟨n, hn, hlarge⟩
    have hwritable : s.isWritable = false := by
      rw [Bool.eq_false_iff, ne_eq, Settings.isWritable_iff]
      intro hsmall
      have hlt := hsmall n hn
      omega
    rw [run_saveSettings, Settings.save_eq_unwritable hexists hwritable]
  · simp only [run_saveSettings_eq_ok_iff, Settings.save_eq_ok_iff, Settings.isWritable_iff]
    constructor
    · rintro ⟨-, files, ⟨hexists, hwritable, hwrite⟩, -⟩
      exact ⟨hexists, hwritable, files, hwrite⟩
    · rintro ⟨hexists, hwritable, files, hwrite⟩
      exact ⟨_, files, ⟨hexists, hwritable, hwrite⟩, rfl⟩

/-- Settings with texts that are hard to quote, empty members and the largest number. -/
def awkwardSettings : Settings where
  path := some "it's \"\"\" \\ '''\n"
  exclude := ["", "\"", "a\r\nb", "\x01\t'''\"\"\"\\"]
  format := some ""
  threads := some 0x7FFFFFFFFFFFFFFF
  languages := .ofList [
    ("a.b 'c' \"d\"", { query := some "\n" }),
    ("", { namespaces := some ⟨[[], ["x"], ["y", "\\"]]⟩ })]

/-- A directory with a file in it. -/
def oneFile : World where
  files := Files.store .empty ["dir", "s.toml"] (.file "threads = 1".toUTF8)

/-- They overwrite a file only with `force`, and one worker more cannot be saved at all. -/
theorem load_saveSettings_awkward :
    (∃ w', (saveSettings "dir/s.toml" awkwardSettings true).run oneFile = (.ok (), w') ∧
      Settings.load w'.files (some "dir/s.toml") = .ok (some awkwardSettings)) ∧
    (saveSettings "dir/s.toml" awkwardSettings false).run oneFile =
      (.error (.settings (.alreadyExists "dir/s.toml")), oneFile) ∧
    (saveSettings "dir/s.toml" { awkwardSettings with threads := some 0x8000000000000000 }
      true).run oneFile = (.error (.settings .unwritable), oneFile) := by
  have hexists : oneFile.files.exists? "dir/s.toml" = true := by decide +kernel
  have hwrite : ∃ files, oneFile.files.write "dir/s.toml" awkwardSettings.text = .ok files := by
    have hok : (oneFile.files.write "dir/s.toml" awkwardSettings.text).isOk = true := by
      decide +kernel
    cases h : oneFile.files.write "dir/s.toml" awkwardSettings.text with
    | ok files => exact ⟨files, rfl⟩
    | error problem =>
      rw [h] at hok
      cases hok
  have hsmall : ∀ n ∈ awkwardSettings.threads, n < 0x8000000000000000 := by
    intro n hn
    cases hn
    decide
  have hforced := load_saveSettings oneFile "dir/s.toml" awkwardSettings true
  obtain ⟨w', hrun⟩ := hforced.2.2.2.2.2 ⟨fun _ => rfl, hsmall, hwrite⟩
  refine ⟨⟨w', hrun, (hforced.1 w' hrun).1⟩, ?_, ?_⟩
  · exact (load_saveSettings oneFile "dir/s.toml" awkwardSettings false).2.2.1 hexists rfl
  · exact (load_saveSettings oneFile "dir/s.toml" _ true).2.2.2.1 (fun _ => rfl)
      ⟨_, rfl, Nat.le_refl _⟩

end Session
end NameBinding

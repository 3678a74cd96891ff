import NameBinding.Proofs.WrittenValues

/-!
# Written documents are read back

A document is read line by line, and every line changes the table that the last header
opened.  The lines of a written document are pieces that the reader takes one after the
other, whatever follows them.

## Main definitions

* `Advances` — the reader takes a piece of a document and goes on with what follows.
* `Focus` — a change below a header is a change of one table of the document.
* `Member`, `Table` — the written members of a document.

## Main results

* `advances_member`, `advances_header` — **one line.**
* `advances_members`, `advances_tables` — **a run of lines.**
* `parse?_document` — **a written document is read back.**
-/

namespace NameBinding
namespace Toml

/-! ### Pieces of a document -/

/-- The reader takes the piece, in at most one step for every character of it. -/
def Advances (cs : List Char) (p p' : Progress) : Prop :=
  ∃ k ≤ cs.length, ∀ n rest, readLines (n + k) p (cs ++ rest) = readLines n p' rest

theorem Advances.refl (p : Progress) : Advances [] p p :=
  ⟨0, Nat.le_refl 0, fun _ _ => rfl⟩

theorem Advances.append {cs ds : List Char} {p q r : Progress} (hcs : Advances cs p q)
    (hds : Advances ds q r) : Advances (cs ++ ds) p r := by
  obtain ⟨k, hk, hcs⟩ := hcs
  obtain ⟨l, hl, hds⟩ := hds
  refine ⟨l + k, by rw [List.length_append]; omega, fun n rest => ?_⟩
  rw [List.append_assoc, ← Nat.add_assoc, hcs, hds]

/-- A document that is read to its end. -/
theorem Advances.parse? {text : String} {p : Progress} (h : Advances text.toList {} p)
    (hmark : text.toList.head? ≠ some '\uFEFF') :
    parse? text = some (Section.toEntries p.content) := by
  obtain ⟨k, hk, h⟩ := h
  have hread : readLines (text.toList.length + 1) {} text.toList = some p.content := by
    have hfuel : text.toList.length + 1 = text.toList.length - k + 1 + k := by omega
    have hend := h (text.toList.length - k + 1) []
    rw [List.append_nil, ← hfuel] at hend
    rw [hend]
    rfl
  rw [Toml.parse?]
  split
  · next heq => exact absurd (by rw [heq]; rfl) hmark
  · rw [hread]
    rfl

/-! ### Lines -/

/-- A written member of a table. -/
structure Member where
  key : String
  /-- The written value. -/
  text : String
  value : Toml

namespace Member

/-- The line of a member. -/
def line (m : Member) : List Char := (pairLine m.key m.text).toList

/-- What the reader makes of a member. -/
def item (m : Member) : String × Item := (m.key, .value m.value)

/-- The entry of a member. -/
def entry (m : Member) : String × Toml := (m.key, m.value)

/-- The written value is read back. -/
def Readable (m : Member) : Prop :=
  Reads (Toml.value (depthLimit - 1)) m.text.toList m.value

end Member

theorem Member.line_append (m : Member) (rest : List Char) : m.line ++ rest =
    (keyText m.key).toList ++ ' ' :: '=' :: (' ' :: (m.text.toList ++ '\n' :: rest)) := by
  simp [Member.line, pairLine]

/-- The key and the value of a line are read back. -/
theorem pair_line {m : Member} (hm : m.Readable) (rest : List Char) :
    pair (value (depthLimit - 1)) (m.line ++ rest) =
      some (([], m.key, m.value), '\n' :: rest) := by
  have hspace : skipSpace (' ' :: (m.text.toList ++ '\n' :: rest)) =
      m.text.toList ++ '\n' :: rest := skipSpace_of_starts hm.starts _
  rw [pair, Member.line_append, keyPath_pair]
  show (value (depthLimit - 1) (skipSpace (' ' :: (m.text.toList ++ '\n' :: rest)))).bind _ = _
  rw [hspace, hm.read _ (delimited_newline rest)]
  rfl

/-- **The line of a member** changes the table of the last header. -/
theorem advances_member {p : Progress} {m : Member} (hm : m.Readable) {content : Section}
    (h : p.content.insertBelow? p.header [] m.key m.value = some content) :
    Advances m.line p { p with content } := by
  obtain ⟨c, tail, hcons, hstart, hbracket, -⟩ := keyText_head m.key
  refine ⟨1, ?_, fun n rest => ?_⟩
  · have hline := m.line_append []
    rw [List.append_nil, hcons] at hline
    rw [hline]
    exact Nat.succ_le_succ (Nat.zero_le _)
  have hread : readPair p (m.line ++ rest) = some ({ p with content }, '\n' :: rest) := by
    rw [readPair, pair_line hm]
    show (p.content.insertBelow? p.header [] m.key m.value).bind _ = _
    rw [h]
    rfl
  have hskip : skipVoid false (m.line ++ rest) = some (m.line ++ rest) := by
    rw [Member.line_append, skipVoid_of_starts ⟨c, tail, hcons, hstart⟩]
  rw [readLines, hskip, Option.bind_eq_bind, Option.bind_some]
  -- the line is neither the end of the text nor a header
  split
  · next heq => simp [Member.line_append, hcons] at heq
  · next heq =>
    rw [Member.line_append, hcons] at heq
    exact absurd (List.cons.inj heq).1 hbracket
  · rw [hread]
    rfl

/-- **The line of a header**, after an empty line. -/
theorem advances_header {p : Progress} {path : List String} {key : String}
    (hpath : path.length + 1 < depthLimit) {content : Section}
    (h : p.content.openTable? path key = some content) :
    Advances ('\n' :: (headerLine (path ++ [key])).toList) p ⟨path ++ [key], content⟩ := by
  refine ⟨1, by simp, fun n rest => ?_⟩
  have hline : '\n' :: (headerLine (path ++ [key])).toList ++ rest =
      '\n' :: '[' :: (dotted (path ++ [key]) ++ ']' :: '\n' :: rest) := by
    simp [headerLine, dotted]
  have hread : readHeader p (dotted (path ++ [key]) ++ ']' :: '\n' :: rest) =
      some (⟨path ++ [key], content⟩, '\n' :: rest) := by
    rw [readHeader, keyPath_header key hpath]
    · show (p.content.openTable? path key).bind _ = _
      rw [h]
      rfl
    · intro tail heq
      obtain ⟨c, tail', hcons, hc⟩ := @dotted_head (path ++ [key]) (by simp)
      rw [hcons] at heq
      exact hc (List.cons.inj heq).1
  rw [hline, readLines]
  show (readHeader p (dotted (path ++ [key]) ++ ']' :: '\n' :: rest)).bind _ = _
  rw [hread]
  rfl

/-! ### Tables that are being read -/

namespace Section

variable {s : Section} {key : String}

/-- The keys of a table. -/
def keys (s : Section) : List String := s.map Prod.fst

theorem find?_eq_none (h : key ∉ s.keys) : s.find? key = none := by
  rw [find?, Option.map_eq_none_iff, List.find?_eq_none]
  intro e he heq
  exact h (List.mem_map.2 ⟨e, he, by simpa using heq⟩)

theorem find?_concat (h : key ∉ s.keys) (item : Item) :
    find? (s ++ [(key, item)]) key = some item := by
  have hnone : List.find? (·.1 == key) s = none := Option.map_eq_none_iff.1 (find?_eq_none h)
  simp [find?, hnone]

theorem replace_concat (h : key ∉ s.keys) (item item' : Item) :
    replace (s ++ [(key, item)]) key item' = s ++ [(key, item')] := by
  have hsame : s.map (fun e => if e.1 == key then (key, item') else e) = s := by
    conv => rhs; rw [← List.map_id s]
    refine List.map_congr_left fun e he => if_neg ?_
    intro heq
    exact h (List.mem_map.2 ⟨e, he, by simpa using heq⟩)
  rw [replace, List.map_append, hsame]
  simp

end Section

/-- A change at the end of the path is a change of one table in its context. -/
def Focus (path : List String) (context : Section → Section) : Prop :=
  ∀ (change : Origin → Section → Option Section) (origin : Origin) (s s' : Section),
    (∀ o, change o s = some s') →
      Section.modify? .implied change path origin (context s) = some (context s')

theorem focus_nil : Focus [] id := fun _ _ _ _ h => h _

theorem Focus.below {path : List String} {context : Section → Section} (h : Focus path context)
    {s : Section} {key : String} (hkey : key ∉ s.keys) (origin : Origin) :
    Focus (key :: path) fun t => s ++ [(key, .table origin (context t))] := by
  intro change start t t' hchange
  simp only [Section.modify?, Section.find?_concat hkey, h change origin t t' hchange,
    Section.replace_concat hkey]
  rfl

theorem Focus.insertBelow? {header : List String} {context : Section → Section}
    (h : Focus header context) {s : Section} {key : String} (hkey : key ∉ s.keys) (v : Toml) :
    (context s).insertBelow? header [] key v = some (context (s ++ [(key, .value v)])) := by
  refine h _ _ _ _ fun _ => ?_
  simp [Section.insert?, Section.modify?, Section.find?_eq_none hkey]

theorem Focus.openTable? {path : List String} {context : Section → Section}
    (h : Focus path context) {s : Section} {key : String} (hkey : key ∉ s.keys) :
    (context s).openTable? path key = some (context (s ++ [(key, .table .header [])])) := by
  refine h _ _ _ _ fun _ => ?_
  simp [Section.find?_eq_none hkey]

/-- The first header below a key makes a table for it. -/
theorem openTable?_new {s : Section} {group : String} (hgroup : group ∉ s.keys) (key : String) :
    s.openTable? [group] key =
      some (s ++ [(group, .table .implied [(key, .table .header [])])]) := by
  rw [Section.openTable?, Section.modify?, Section.find?_eq_none hgroup]
  rfl

theorem toEntries_eq_map (s : Section) :
    Section.toEntries s = s.map fun e => (e.1, e.2.toToml) := by
  induction s with
  | nil => rfl
  | cons e s ih => rw [Section.toEntries, ih, List.map_cons]

/-! ### Runs of lines -/

/-- **The lines of a table**, in order. -/
theorem advances_members {header : List String} {context : Section → Section}
    (hfocus : Focus header context) (ms : List Member) (s : Section)
    (hms : ∀ m ∈ ms, m.Readable) (hkeys : (s.keys ++ ms.map Member.key).Nodup) :
    Advances (ms.flatMap Member.line) ⟨header, context s⟩
      ⟨header, context (s ++ ms.map Member.item)⟩ := by
  induction ms generalizing s with
  | nil =>
    rw [List.map_nil, List.append_nil]
    exact Advances.refl _
  | cons m ms ih =>
    rw [List.flatMap_cons]
    have hnew : m.key ∉ s.keys := fun hmem =>
      (List.nodup_append.1 hkeys).2.2 _ hmem _ List.mem_cons_self rfl
    have hline : Advances m.line ⟨header, context s⟩ ⟨header, context (s ++ [m.item])⟩ :=
      advances_member (hms m List.mem_cons_self) (hfocus.insertBelow? hnew m.value)
    have hrest := ih (s ++ [m.item]) (fun m' hm' => hms m' (List.mem_cons_of_mem _ hm'))
      (by simpa [Section.keys, Member.item] using hkeys)
    rw [List.append_assoc] at hrest
    exact hline.append hrest

/-- A written table with a header. -/
structure Table where
  name : String
  members : List Member

namespace Table

/-- The header and the lines of a table, after an empty line. -/
def text (group : String) (t : Table) : List Char :=
  '\n' :: (headerLine [group, t.name]).toList ++ t.members.flatMap Member.line

/-- What the reader makes of a table. -/
def item (t : Table) : String × Item := (t.name, .table .header (t.members.map Member.item))

/-- The entry of a table. -/
def entry (t : Table) : String × Toml := (t.name, .table (t.members.map Member.entry))

/-- The members are read back, and their keys differ. -/
def Readable (t : Table) : Prop :=
  (∀ m ∈ t.members, m.Readable) ∧ (t.members.map Member.key).Nodup

end Table

section Tables

variable {top : Section} {group : String}

/-- A document with a group of tables at its end. -/
def within (top : Section) (group : String) (inner : Section) : Section :=
  top ++ [(group, .table .implied inner)]

/-- The lines of one table, whether it is the first of its group or not. -/
theorem advances_table (hgroup : group ∉ top.keys) {t : Table} (ht : t.Readable) {p : Progress}
    {inner : Section} (hname : t.name ∉ inner.keys)
    (hopen : p.content.openTable? [group] t.name =
      some (within top group (inner ++ [(t.name, .table .header [])]))) :
    Advances (t.text group) p ⟨[group, t.name], within top group (inner ++ [t.item])⟩ := by
  have hheader : Advances ('\n' :: (headerLine [group, t.name]).toList) p
      ⟨[group, t.name], within top group (inner ++ [(t.name, .table .header [])])⟩ :=
    @advances_header p [group] t.name (by decide : 2 < depthLimit) _ hopen
  have hfocus := (focus_nil.below hname .header).below hgroup .implied
  exact hheader.append (advances_members hfocus t.members [] ht.1 ht.2)

/-- **The tables of a group**, in order. -/
theorem advances_tables (hgroup : group ∉ top.keys) (ts : List Table) (header : List String)
    (inner : Section) (hts : ∀ t ∈ ts, t.Readable)
    (hnames : (inner.keys ++ ts.map Table.name).Nodup) :
    ∃ header', Advances (ts.flatMap (Table.text group)) ⟨header, within top group inner⟩
      ⟨header', within top group (inner ++ ts.map Table.item)⟩ := by
  induction ts generalizing header inner with
  | nil =>
    rw [List.map_nil, List.append_nil]
    exact ⟨header, Advances.refl _⟩
  | cons t ts ih =>
    rw [List.flatMap_cons]
    have hname : t.name ∉ inner.keys := fun hmem =>
      (List.nodup_append.1 hnames).2.2 _ hmem _ List.mem_cons_self rfl
    have hopen := (focus_nil.below hgroup .implied).openTable? hname
    have htable := advances_table (p := ⟨header, within top group inner⟩) hgroup
      (hts t List.mem_cons_self) hname hopen
    obtain ⟨header', hrest⟩ := ih [group, t.name] (inner ++ [t.item])
      (fun t' ht' => hts t' (List.mem_cons_of_mem _ ht'))
      (by simpa [Section.keys, Table.item] using hnames)
    rw [List.append_assoc] at hrest
    exact ⟨header', htable.append hrest⟩

end Tables

/-! ### Documents -/

/-- Members, and a group of tables after them. -/
structure Document where
  members : List Member
  group : String
  tables : List Table

namespace Document

/-- A group without tables has a header of its own. -/
def text (d : Document) : List Char :=
  d.members.flatMap Member.line ++
    if d.tables.isEmpty then '\n' :: (headerLine [d.group]).toList
    else d.tables.flatMap (Table.text d.group)

/-- The entries of a document. -/
def entries (d : Document) : List (String × Toml) :=
  d.members.map Member.entry ++ [(d.group, .table (d.tables.map Table.entry))]

/-- All values are read back, and the keys of every table differ. -/
structure Readable (d : Document) : Prop where
  members : ∀ m ∈ d.members, m.Readable
  tables : ∀ t ∈ d.tables, t.Readable
  keys : (d.members.map Member.key ++ [d.group]).Nodup
  names : (d.tables.map Table.name).Nodup

/-- The reader takes a written document to its end. -/
theorem Readable.advances {d : Document} (h : d.Readable) :
    ∃ p, Advances d.text {} p ∧ Section.toEntries p.content = d.entries := by
  have hkeys := List.nodup_append.1 h.keys
  have hmembers : Advances (d.members.flatMap Member.line) {} ⟨[], d.members.map Member.item⟩ :=
    advances_members focus_nil d.members [] h.members hkeys.1
  have hgroup : d.group ∉ Section.keys (d.members.map Member.item) := by
    intro hmem
    refine hkeys.2.2 d.group ?_ d.group List.mem_cons_self rfl
    simpa [Section.keys, Member.item] using hmem
  cases htables : d.tables with
  | nil =>
    have hheader := @advances_header ⟨[], d.members.map Member.item⟩ [] d.group
      (by decide : 1 < depthLimit) _ (focus_nil.openTable? hgroup)
    have htext : d.text =
        d.members.flatMap Member.line ++ '\n' :: (headerLine [d.group]).toList := by
      simp [text, htables]
    refine ⟨_, htext ▸ hmembers.append hheader, ?_⟩
    simp [entries, htables, toEntries_eq_map, Member.item, Member.entry, Item.toToml]
  | cons t ts =>
    have hnames := h.names
    have hts := h.tables
    rw [htables] at hnames hts
    have hfirst := @advances_table _ d.group hgroup t (hts t List.mem_cons_self)
      ⟨[], d.members.map Member.item⟩ [] List.not_mem_nil (openTable?_new hgroup t.name)
    obtain ⟨header, hrest⟩ := advances_tables hgroup ts [d.group, t.name] [t.item]
      (fun t' ht' => hts t' (List.mem_cons_of_mem _ ht')) hnames
    have htext : d.text = d.members.flatMap Member.line ++
        (t.text d.group ++ ts.flatMap (Table.text d.group)) := by
      simp [text, htables]
    refine ⟨_, htext ▸ hmembers.append (hfirst.append hrest), ?_⟩
    simp [entries, htables, within, toEntries_eq_map, Member.item, Member.entry, Table.item,
      Table.entry, Item.toToml, Function.comp_def]

/-- There is no byte order mark before a written document. -/
theorem head?_text (d : Document) : d.text.head? ≠ some '\uFEFF' := by
  rw [text]
  cases d.members with
  | nil =>
    cases d.tables with
    | nil => simp
    | cons t ts => simp [Table.text]
  | cons m ms =>
    obtain ⟨c, tail, hcons, -, -, hmark⟩ := keyText_head m.key
    simpa [Member.line, pairLine, hcons] using hmark

end Document

/-- **A written document is read back.** -/
theorem parse?_document {d : Document} (h : d.Readable) {text : String}
    (htext : text.toList = d.text) : parse? text = some d.entries := by
  obtain ⟨p, hadvances, hentries⟩ := h.advances
  rw [← htext] at hadvances
  rw [hadvances.parse? (htext ▸ d.head?_text), hentries]

end Toml
end NameBinding

import Concordance.Config
import Concordance.Proofs.Files.Directories
import Concordance.Proofs.Json.Distinct
import Concordance.Proofs.Json.Grammar
import Concordance.Proofs.Snapshot.Schema

/-!
# Reading a configuration

An object is read as a configuration member by member. Each of the three settings is filled from
the member with its name, if there is one, and other members are skipped (`readFields_iff`). So a
setting is what its member says, or what is standard if it has none (`Taken`), wherever the member
stands and whatever the others are (`read_object_iff`).

`load_object` has this for the text of an object in a configuration file, and for the text that is
written for a configuration.
-/

namespace Concordance.Config

open Json (Draft Fault Source SourceMember Written writeText source_writeText source_write_bool
  source_write_object lookup_eq_none lookup_cons_of_ne lookup_eq_some_iff eq_of_mem)
open Snapshot (fill_eq_ok_iff)

/-- The members of an object with characters for names, as they are read. -/
def named (members : List (String × Draft)) : List (Option (List Char) × Draft) :=
  members.map fun m => (some m.1.toList, m.2)

/-- A setting that is what the member with its name says, or what is standard if there is none. -/
structure Taken {α : Type} (members : List (String × Draft)) (key : String) (draft : α → Draft)
    (standard a : α) : Prop where
  present : ∀ d, (key, d) ∈ members → d = draft a
  absent : key ∉ members.map Prod.fst → a = standard

/-- Where no name comes twice, the member with the name decides. -/
theorem Taken.of_mem {α : Type} {members : List (String × Draft)}
    (h : (members.map Prod.fst).Nodup) {key : String} {draft : α → Draft} {standard a : α}
    (hmem : (key, draft a) ∈ members) : Taken members key draft standard a :=
  ⟨fun _ hd => eq_of_mem h hd hmem, fun hkey => absurd (List.mem_map_of_mem hmem) hkey⟩

/-! ## One value -/

theorem readText_eq_ok_iff {d : Draft} {s : String} :
    readText d = .ok s ↔ d = .text (some s.toList) := by
  unfold readText
  split
  · next cs => rw [Except.ok.injEq, Draft.text.injEq, Option.some.injEq, ← String.toList_inj,
      String.toList_ofList]
  · next hd =>
    refine iff_of_false nofun ?_
    rintro rfl
    exact hd _ rfl

theorem readBool_eq_ok_iff {d : Draft} {b : Bool} : readBool d = .ok b ↔ d = .bool b := by
  unfold readBool
  split
  · rw [Except.ok.injEq, Draft.bool.injEq]
  · next hd =>
    refine iff_of_false nofun ?_
    rintro rfl
    exact hd _ rfl

/-! ## The members -/

/-- What becomes of a setting, from before its member is read to after it. -/
def Filled {α : Type} (read : Draft → Except Fault α) (before after : Option α) :
    Option Draft → Prop
  | none => after = before
  | some d => before = none ∧ ∃ a, read d = .ok a ∧ after = some a

/-- The settings after the members of an object. -/
theorem readFields_iff {members : List (String × Draft)} (h : (members.map Prod.fst).Nodup)
    (hskip : ∀ m ∈ members, m.2.skipFault? = none) {f f' : Fields} :
    readFields f (named members) = .ok f' ↔
      Filled readText f.snapshotPath f'.snapshotPath (members.lookup "snapshot_path") ∧
      Filled readBool f.autoload f'.autoload (members.lookup "autoload") ∧
      Filled readBool f.autosaveOnExit f'.autosaveOnExit (members.lookup "autosave_on_exit") := by
  induction members generalizing f with
  | nil =>
    obtain ⟨path, autoload, autosave⟩ := f
    obtain ⟨path', autoload', autosave'⟩ := f'
    simp [named, readFields, Filled, eq_comm]
  | cons head rest ih =>
    obtain ⟨key, d⟩ := head
    obtain ⟨hkey, hrest⟩ := List.nodup_cons.mp h
    obtain ⟨hd, hothers⟩ := List.forall_mem_cons.mp hskip
    have habsent : rest.lookup key = none := lookup_eq_none hkey
    have hnamed : named ((key, d) :: rest) = (some key.toList, d) :: named rest := rfl
    rw [hnamed, readFields]
    simp only [String.toList_inj]
    -- A name that is read fills its setting, and then no other member has this name.
    split
    · next hpath =>
      subst hpath
      rw [fill_eq_ok_iff, List.lookup_cons_self, lookup_cons_of_ne (by decide),
        lookup_cons_of_ne (by decide)]
      simp only [ih hrest hothers, habsent, Filled]
      grind
    split
    · next hautoload =>
      subst hautoload
      rw [fill_eq_ok_iff, List.lookup_cons_self, lookup_cons_of_ne (by decide),
        lookup_cons_of_ne (by decide)]
      simp only [ih hrest hothers, habsent, Filled]
      grind
    split
    · next hautosave =>
      subst hautosave
      rw [fill_eq_ok_iff, List.lookup_cons_self, lookup_cons_of_ne (by decide),
        lookup_cons_of_ne (by decide)]
      simp only [ih hrest hothers, habsent, Filled]
      grind
    · next hpath hautoload hautosave =>
      rw [hd, lookup_cons_of_ne (Ne.symm hpath), lookup_cons_of_ne (Ne.symm hautoload),
        lookup_cons_of_ne (Ne.symm hautosave)]
      exact ih hrest hothers

/-- A setting that was not filled before is taken from the members. -/
theorem taken_iff {α : Type} {members : List (String × Draft)} (h : (members.map Prod.fst).Nodup)
    {read : Draft → Except Fault α} {draft : α → Draft}
    (hread : ∀ d a, read d = .ok a ↔ d = draft a) {key : String} {standard a : α} :
    Taken members key draft standard a ↔
      ∃ after, Filled read none after (members.lookup key) ∧ after.getD standard = a := by
  cases hlookup : members.lookup key with
  | none =>
    have habsent (d : Draft) : (key, d) ∉ members := fun hd => by
      rw [(lookup_eq_some_iff h).mpr hd] at hlookup
      cases hlookup
    have hkey : key ∉ members.map Prod.fst := fun hkey => by
      obtain ⟨m, hm, rfl⟩ := List.mem_map.mp hkey
      exact habsent m.2 hm
    constructor
    · intro ht
      exact ⟨none, rfl, (ht.absent hkey).symm⟩
    · rintro ⟨_, rfl, rfl⟩
      exact ⟨fun d hd => absurd hd (habsent d), fun _ => rfl⟩
  | some d =>
    have hmem : (key, d) ∈ members := (lookup_eq_some_iff h).mp hlookup
    constructor
    · intro ht
      exact ⟨some a, ⟨rfl, a, (hread d a).mpr (ht.present d hmem), rfl⟩, rfl⟩
    · rintro ⟨_, ⟨-, a', hd, rfl⟩, rfl⟩
      rw [hread] at hd
      exact .of_mem h (hd ▸ hmem)

/-- **Reading an object.** Each setting is taken from the member with its name. -/
theorem read_object_iff {members : List (String × Draft)} (h : (members.map Prod.fst).Nodup)
    (hskip : ∀ m ∈ members, m.2.skipFault? = none) {c : Config} :
    read (.object (named members) none) = .ok c ↔
      Taken members "snapshot_path" (fun s : String => .text (some s.toList)) "index.json"
        c.snapshotPath ∧
      Taken members "autoload" .bool true c.autoload ∧
      Taken members "autosave_on_exit" .bool false c.autosaveOnExit := by
  have hread : read (.object (named members) none) = .ok c ↔
      ∃ f, readFields {} (named members) = .ok f ∧ f.config = c := by
    rw [read]
    cases readFields {} (named members) with
    | error e => simp [bind, Except.bind]
    | ok f => simp [bind, Except.bind, Snapshot.closed, pure, Except.pure]
  rw [hread, taken_iff h fun _ _ => readText_eq_ok_iff, taken_iff h fun _ _ => readBool_eq_ok_iff,
    taken_iff h fun _ _ => readBool_eq_ok_iff]
  obtain ⟨path, autoload, autosave⟩ := c
  simp only [readFields_iff h hskip]
  constructor
  · rintro ⟨f, ⟨hpath, hautoload, hautosave⟩, hconfig⟩
    cases hconfig
    exact ⟨⟨_, hpath, rfl⟩, ⟨_, hautoload, rfl⟩, ⟨_, hautosave, rfl⟩⟩
  · rintro ⟨⟨path, hpath, rfl⟩, ⟨autoload, hautoload, rfl⟩, ⟨autosave, hautosave, rfl⟩⟩
    exact ⟨⟨path, autoload, autosave⟩, ⟨hpath, hautoload, hautosave⟩, rfl⟩

/-- There is such a setting if its member is of the right kind. -/
theorem exists_taken_iff {α : Type} {members : List (String × Draft)}
    (h : (members.map Prod.fst).Nodup) {key : String} {draft : α → Draft} {standard : α} :
    (∃ a, Taken members key draft standard a) ↔ ∀ d, (key, d) ∈ members → ∃ a, d = draft a := by
  constructor
  · rintro ⟨a, ht⟩ d hd
    exact ⟨a, ht.present d hd⟩
  · intro hkind
    by_cases hkey : key ∈ members.map Prod.fst
    · obtain ⟨⟨_, d⟩, hd, rfl⟩ := List.mem_map.mp hkey
      obtain ⟨a, rfl⟩ := hkind d hd
      exact ⟨a, .of_mem h hd⟩
    · exact ⟨standard, fun d hd => absurd (List.mem_map_of_mem hd) hkey, fun _ => rfl⟩

/-! ## Files -/

variable {files : Files} {path text : String} {c : Config}

/-- What is in the file decides. -/
theorem load_eq_ok_iff (h : files.find path = .ok (.file text.toUTF8)) :
    load files path = .ok c ↔ ofText text = .ok c := by
  rw [load, Files.exists?_of_find h, if_pos rfl, Files.readText_of_find h]
  cases hof : ofText text <;> simp [hof]

theorem ofText_of_source {d : Draft} (h : Source text.toList d) : ofText text = read d := by
  rw [ofText, h.ofText_eq, Json.Document.read]
  cases read d <;> rfl

/-- The members of a configuration. -/
def members (c : Config) : List (String × Draft) :=
  [("snapshot_path", .text (some c.snapshotPath.toList)), ("autoload", .bool c.autoload),
    ("autosave_on_exit", .bool c.autosaveOnExit)]

/-- What is written for a configuration is the text of an object with these members. -/
theorem source_render (c : Config) :
    Source c.toJson.render.toList (.object (named c.members) none) := by
  have hmembers : Draft.ofJson c.toJson = .object (named c.members) none := by
    simp [toJson, Draft.ofJson, Draft.ofMembers, named, members]
  rw [← hmembers, Json.render, String.toList_ofList]
  refine source_write_object (by simp) fun m hm => ?_
  simp only [List.mem_cons, List.not_mem_nil, or_false] at hm
  obtain rfl | rfl | rfl := hm
  · exact source_writeText c.snapshotPath
  · exact source_write_bool c.autoload
  · exact source_write_bool c.autosaveOnExit

/-- **Writing, then reading.** What is written for a configuration is read as this one. -/
theorem ofText_render (c : Config) : ofText c.toJson.render = .ok c := by
  have hkeys : (c.members.map Prod.fst).Nodup := by simp [members]
  have hskip : ∀ m ∈ c.members, m.2.skipFault? = none := by simp [members, Draft.skipFault?]
  rw [ofText_of_source c.source_render, read_object_iff hkeys hskip]
  exact ⟨.of_mem hkeys (by simp [members]), .of_mem hkeys (by simp [members]),
    .of_mem hkeys (by simp [members])⟩

/-- **Configuration files.** The text that is written for a configuration is loaded as it. The text
of an object in which no name comes twice is loaded if the path of the snapshot is a text and the
other settings are truth values, as far as these members are there. Each setting is then what its
member says, or what is standard if there is none, whatever other members there are and in whichever
order they stand. -/
theorem load_object (files : Files) (path : String) :
    (∀ c : Config, files.find path = .ok (.file c.toJson.render.toUTF8) →
      load files path = .ok c) ∧
    ∀ (text : String) (members : List (String × Draft)),
      files.find path = .ok (.file text.toUTF8) →
      Source text.toList (.object (named members) none) → (members.map Prod.fst).Nodup →
      ((∃ c, load files path = .ok c) ↔
        (∀ d, ("snapshot_path", d) ∈ members → ∃ s : String, d = .text (some s.toList)) ∧
        (∀ d, ("autoload", d) ∈ members → ∃ b, d = .bool b) ∧
        ∀ d, ("autosave_on_exit", d) ∈ members → ∃ b, d = .bool b) ∧
      ∀ c, load files path = .ok c ↔
        Taken members "snapshot_path" (fun s : String => .text (some s.toList)) "index.json"
          c.snapshotPath ∧
        Taken members "autoload" .bool true c.autoload ∧
        Taken members "autosave_on_exit" .bool false c.autosaveOnExit := by
  refine ⟨fun c hfile => (load_eq_ok_iff hfile).mpr (ofText_render c), ?_⟩
  intro text members hfile hsource hkeys
  have hskip : ∀ m ∈ members, m.2.skipFault? = none := by
    have hobject := hsource.skipFault?_eq_none
    rw [Draft.skipFault?, Option.orElse_eq_none, Draft.skipMembers?_eq_none_iff] at hobject
    exact List.forall_mem_map.mp hobject.1
  have hload (c : Config) : load files path = .ok c ↔ _ :=
    (load_eq_ok_iff hfile).trans (ofText_of_source hsource ▸ read_object_iff hkeys hskip)
  refine ⟨?_, hload⟩
  rw [← exists_taken_iff hkeys, ← exists_taken_iff hkeys, ← exists_taken_iff hkeys]
  simp only [hload]
  constructor
  · rintro ⟨c, hpath, hautoload, hautosave⟩
    exact ⟨⟨_, hpath⟩, ⟨_, hautoload⟩, ⟨_, hautosave⟩⟩
  · rintro ⟨⟨path, hpath⟩, ⟨autoload, hautoload⟩, ⟨autosave, hautosave⟩⟩
    exact ⟨⟨path, autoload, autosave⟩, hpath, hautoload, hautosave⟩

/-- A path that is escaped, after a member that is skipped with half a surrogate pair in it; what is
written for the same configuration; and a setting that is null. -/
theorem load_object_skipped :
    let text := "\x7b\"\":[\"\\ud800\"] ,\n\"snapshot_path\":\"\\ud83d\\ude00\\/\"\x7d"
    let c : Config := { snapshotPath := "😀/" }
    let refused := "\x7b\"autoload\":null\x7d"
    ∃ files files' files'' : Files,
      files.find "config.json" = .ok (.file text.toUTF8) ∧ load files "config.json" = .ok c ∧
      files'.find "config.json" = .ok (.file c.toJson.render.toUTF8) ∧
      load files' "config.json" = .ok c ∧
      files''.find "config.json" = .ok (.file refused.toUTF8) ∧
      ∀ c', load files'' "config.json" ≠ .ok c' := by
  intro text c refused
  have hsaved (bytes : ByteArray) :
      ∃ files : Files, files.find "config.json" = .ok (.file bytes) := by
    obtain ⟨files, hsave⟩ : ∃ files, ({} : Files).save "config.json" .empty = (files, .ok ()) :=
      Files.exists_save_of_toBool (by decide +kernel)
    have hroom : ({} : Files).HasRoom := fun _ => rfl
    obtain ⟨files, hsave⟩ := hroom.exists_save_of_save hsave bytes
    exact ⟨files, Files.find_save hsave⟩
  obtain ⟨files, hfile⟩ := hsaved text.toUTF8
  obtain ⟨files', hfile'⟩ := hsaved c.toJson.render.toUTF8
  obtain ⟨files'', hfile''⟩ := hsaved refused.toUTF8
  refine ⟨files, files', files'', hfile, ?_, hfile',
    (load_object files' "config.json").1 c hfile', hfile'', ?_⟩
  · let half : List Char := ['"', '\\', 'u', 'd', '8', '0', '0', '"']
    let skipped : Draft := .array [.text none] none
    let path : Draft := .text (some "😀/".toList)
    let first : SourceMember := ⟨['"', '"'], some [], '[' :: half ++ [']', ' '], skipped⟩
    let second : SourceMember :=
      ⟨'\n' :: writeText "snapshot_path" [], some "snapshot_path".toList,
        "\"\\ud83d\\ude00\\/\"".toList, path⟩
    have hobject : text.toList =
        '\x7b' :: [','].intercalate ([first, second].map SourceMember.source) ++ ['\x7d'] := by
      decide +kernel
    have hhalf : Written ['\\', 'u', 'd', '8', '0', '0'] [.ofUnit 0xD800] := .unit rfl .nil
    have hitem : ∀ i ∈ [(half, Draft.text none)], Source i.1 i.2 :=
      List.forall_mem_singleton.mpr (.text hhalf)
    have hskipped := (Source.items (List.cons_ne_nil _ _) hitem).after (c := ' ') (.inl rfl)
    have hpair : Written
        ['\\', 'u', 'd', '8', '3', 'd', '\\', 'u', 'd', 'e', '0', '0', '\\', '/']
        [.ofUnit 0xD83D, .ofUnit 0xDE00, .whole '/'] := .unit rfl (.unit rfl (.letter rfl .nil))
    have hpath : Source second.text path := .text hpair
    have hname : Source second.name (.text second.key) :=
      .before (by simp [Json.IsBlank]) (source_writeText _)
    have hnames : ∀ m ∈ [first, second], Source m.name (.text m.key) :=
      List.forall_mem_cons.mpr ⟨.text .nil, List.forall_mem_singleton.mpr hname⟩
    have hvalues : ∀ m ∈ [first, second], Source m.text m.value :=
      List.forall_mem_cons.mpr ⟨hskipped, List.forall_mem_singleton.mpr hpath⟩
    have hsource : Source text.toList
        (.object (named [("", skipped), ("snapshot_path", path)]) none) :=
      hobject ▸ .members (List.cons_ne_nil _ _) hnames hvalues
    have hload := (load_object files "config.json").2 text _ hfile hsource (by simp)
    refine (hload.2 c).mpr ⟨?_, ⟨by simp, fun _ => rfl⟩, ⟨by simp, fun _ => rfl⟩⟩
    exact .of_mem (by simp) (List.mem_cons_of_mem _ List.mem_cons_self)
  · let only : SourceMember :=
      ⟨writeText "autoload" [], some "autoload".toList, ['n', 'u', 'l', 'l'], .null⟩
    have hobject : refused.toList =
        '\x7b' :: [','].intercalate ([only].map SourceMember.source) ++ ['\x7d'] := by
      decide +kernel
    have hnames : ∀ m ∈ [only], Source m.name (.text m.key) :=
      List.forall_mem_singleton.mpr (source_writeText _)
    have hsource : Source refused.toList (.object (named [("autoload", .null)]) none) :=
      hobject ▸ .members (List.cons_ne_nil _ _) hnames (List.forall_mem_singleton.mpr .null)
    have hload := (load_object files'' "config.json").2 refused _ hfile'' hsource (by simp)
    intro c' hc'
    obtain ⟨b, hb⟩ := (hload.1.mp ⟨c', hc'⟩).2.1 .null (by simp)
    cases hb

end Concordance.Config

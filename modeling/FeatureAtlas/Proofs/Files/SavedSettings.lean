import FeatureAtlas.Settings
import FeatureAtlas.Proofs.Files.Directories
import FeatureAtlas.Proofs.Json.Records
import FeatureAtlas.Proofs.Source.MemberOrder

/-!
Settings in a file. Settings that are saved are loaded again, and so they are when members that say
no more than the defaults are left out of the file, the others change places, and members that are
no settings are put among them.
-/

namespace FeatureAtlas

open Decoder

theorem FailurePolicy.readsBack :
    FailurePolicy.decoder.ReadsBack 0 fun value => .text value.name :=
  Decoder.readsBack_variant (by intro value; cases value <;> rfl)

theorem ExportFormat.readsBack :
    ExportFormat.decoder.ReadsBack 0 fun value => .text value.name :=
  Decoder.readsBack_variant (by intro value; cases value <;> rfl)

theorem Decoder.ReadsBack.injective {β : Type} {decoder : Decoder β} {levels : Nat}
    {write : β → Json} (back : decoder.ReadsBack levels write) {value other : β}
    (same : write value = write other) : value = other := by
  have read := back .text 0 value
  rw [same, back .text 0 other] at read
  exact (Except.ok.inj read).symm

theorem RecordFormat.Stores.omitting {α β : Type} {source : ValueSource} {decoder : Decoder β}
    {needed more : Nat} {write : β → Json} (back : decoder.ReadsBack needed write) {name : String}
    {set : β → α → α} {value default : β} {omitted : List String} {fields : List (Field α)}
    {later : List (String × Json)} {record : α} {result : Except DecodeError α}
    (unset : set default record = record) (known : name ∈ omitted → write value = write default)
    (rest : Stores source (more + needed) fields
      (later.filter fun member => member.1 ∉ omitted) (set value record) result) :
    Stores source (more + needed) (.optionalField name decoder set :: fields)
      (((name, write value) :: later).filter fun member => member.1 ∉ omitted) record result := by
  rw [List.filter_cons]
  by_cases left : name ∈ omitted
  · rw [back.injective (known left), unset] at rest
    rw [if_neg (by simpa using left)]
    exact .left rfl rest
  · rw [if_pos (by simpa using left)]
    exact .given (back.optional name source more value record) rest

theorem RearrangedMembers.prepend {role : Role} {ignored : String → Prop}
    {added members : List (String × Json)}
    (unknown : ∀ member ∈ added, ignored member.1 ∧ member.2.isLeaf = true) :
    RearrangedMembers role ignored (Json.named members) (Json.named (added ++ members)) := by
  induction added with
  | nil => exact .refl _ _ _
  | cons member added ih =>
      obtain ⟨⟨here, leaf⟩, later⟩ := List.forall_mem_cons.mp unknown
      exact (ih later).trans (.insert _ here leaf)

namespace Settings

/-- Other members that settings can be written with: those with the names in `omitted` are left out,
all of them defaults, members that are no settings are added, and all are put in some order. -/
structure Rewritten (settings : Settings) (omitted : List String)
    (added members : List (String × Json)) : Prop where
  defaults : ∀ member ∈ settings.members, member.1 ∈ omitted → member ∈ ({} : Settings).members
  unknown : ∀ member ∈ added,
    member.1 ∉ recordFormat.fields.map Field.name ∧ ∃ text, member.2 = .text text
  arranged : members.Perm (settings.members.filter (fun member => member.1 ∉ omitted) ++ added)

variable {settings : Settings} {omitted : List String} {added members : List (String × Json)}

theorem write_eq (settings : Settings) :
    settings.write = (Json.record settings.members).pretty :=
  rfl

theorem nullable_readsBack : (Decoder.optional Decoder.text).ReadsBack 0 nullable := by
  intro source more value
  cases value <;> rfl

theorem plain_nullable (value : Option String) : (nullable value).Plain := by
  cases value with
  | none => exact .null
  | some text => exact .text text

theorem plain_members (settings : Settings) : ∀ member ∈ settings.members, member.2.Plain := by
  simp [Settings.members, plain_nullable]

theorem nodup_members (settings : Settings) : (settings.members.map Prod.fst).Nodup := by
  simp [Settings.members]

namespace Rewritten

theorem value_eq (rewritten : settings.Rewritten omitted added members) {name : String}
    {value default : Json} (member : (name, value) ∈ settings.members)
    (isDefault : (name, default) ∈ ({} : Settings).members) (left : name ∈ omitted) :
    value = default := by
  have found := rewritten.defaults _ member left
  have same := List.inj_on_of_nodup_map (nodup_members {}) found isDefault rfl
  exact (Prod.mk.inj same).2

theorem stores (rewritten : settings.Rewritten omitted added members) (source : ValueSource)
    (levels : Nat) :
    RecordFormat.Stores source levels recordFormat.fields
      (settings.members.filter fun member => member.1 ∉ omitted) recordFormat.blank
        (.ok settings) := by
  have known {name : String} {value default : Json} (member : (name, value) ∈ settings.members)
      (isDefault : (name, default) ∈ ({} : Settings).members) :
      name ∈ omitted → value = default := rewritten.value_eq member isDefault
  -- A field whose member is left out keeps its default, which is what the settings have there.
  refine .omitting FailurePolicy.readsBack rfl (known ?_ ?_) <|
    .omitting ExportFormat.readsBack rfl (known ?_ ?_) <|
    .omitting nullable_readsBack rfl (known ?_ ?_) <|
    .omitting nullable_readsBack rfl (known ?_ ?_) <|
    .omitting nullable_readsBack rfl (known ?_ ?_) .done
  all_goals simp [Settings.members, recordFormat]

end Rewritten

theorem orderless : recordFormat.Orderless .value where
  commuting := by
    simp only [recordFormat, List.pairwise_cons, List.forall_mem_cons, List.not_mem_nil,
      false_imp_iff, implies_true, List.Pairwise.nil, and_true]
    and_intros <;> exact Store.commute_put fun _ _ _ => rfl
  fields := by
    have nullable : (Decoder.optional Decoder.text).Orderless .value :=
      (orderless_text .value).optional
    simp only [recordFormat, List.forall_mem_cons]
    exact ⟨Store.orderless_put (orderless_variant _), Store.orderless_put (orderless_variant _),
      Store.orderless_put nullable, Store.orderless_put nullable, Store.orderless_put nullable,
      List.forall_mem_nil _⟩

namespace Rewritten

theorem rearranged (rewritten : settings.Rewritten omitted added members) :
    RearrangedMembers .value (fun name => name ∉ recordFormat.fields.map Field.name)
      (Json.named (settings.members.filter fun member => member.1 ∉ omitted))
      (Json.named members) := by
  have arranged := (rewritten.arranged.trans List.perm_append_comm).symm
  refine .trans (.prepend fun member isAdded => ?_) (.of_perm (arranged.map _))
  obtain ⟨unknown, text, isText⟩ := rewritten.unknown member isAdded
  exact ⟨unknown, by rw [isText]; rfl⟩

theorem decoder_eq (rewritten : settings.Rewritten omitted added members) (source : ValueSource)
    (levels : Nat) : recordFormat.decoder source (levels + 1) (.record members) = .ok settings := by
  have stored := RecordFormat.ofMembers_stores (by decide) (rewritten.stores source levels)
  refine ok_of_toOption ((orderless.ofMembers (fun _ => id) rewritten.rearranged).symm.trans ?_)
  rw [stored]
  rfl

theorem parse_eq (rewritten : settings.Rewritten omitted added members) {text : String}
    (read : Json.read text = { value := .record members, trailing := false }) :
    parse text = .ok settings := by
  have found := rewritten.decoder_eq .text 126
  rw [parse, decodeText, read, nestingLimit, found]
  rfl

theorem plain (rewritten : settings.Rewritten omitted added members) :
    (Json.record members).Plain := by
  refine .record fun member isMember => ?_
  rcases List.mem_append.mp (rewritten.arranged.subset isMember) with kept | isAdded
  · exact settings.plain_members member (List.mem_of_mem_filter kept)
  · obtain ⟨_, text, isText⟩ := rewritten.unknown member isAdded
    exact isText ▸ .text text

end Rewritten

theorem rewritten_self (settings : Settings) : settings.Rewritten [] [] settings.members where
  defaults _ _ omitted := absurd omitted List.not_mem_nil
  unknown _ isAdded := absurd isAdded List.not_mem_nil
  arranged := by simp

theorem save_eq_ok_iff {disk saved : Disk} {path : String} :
    settings.save disk path = .ok saved ↔
      (disk.makeParent (.ofText path)).2 = .ok () ∧
        (disk.makeParent (.ofText path)).1.write (.ofText path) (.text settings.write) =
          .ok saved := by
  rw [save]
  cases made : (disk.makeParent (.ofText path)).2 with
  | error cause => simp [made, Except.mapError, bind, Except.bind]
  | ok _ =>
      simp only [made, Except.mapError, bind, Except.bind, true_and]
      split <;> simp_all

theorem load_of_readText {disk : Disk} {path text : String}
    (readable : disk.readText (.ofText path) = .ok text) (parsed : parse text = .ok settings) :
    load disk path = .ok settings := by
  rw [load, readable]
  simp only [Except.mapError, bind, Except.bind, parsed]

theorem Rewritten.read (rewritten : settings.Rewritten omitted added members) :
    ∀ text ∈ [(Json.record members).pretty, (Json.record members).compact],
      Json.read text = { value := .record members, trailing := false } := by
  have pretty := (rewritten.plain.reads_pretty 0).read Json.margin_nil
  have compact := rewritten.plain.reads_compact.read Json.margin_nil
  rw [List.append_nil] at pretty compact
  simpa using ⟨pretty, compact⟩

/-- Settings can be saved wherever a file can be written, and what is saved is loaded again. It also
is when the saved object is written in another way: without members that are as by default, in any
order, and with members that are no settings. -/
theorem saved_settings_load (settings : Settings) :
    (∀ disk path, (∃ saved, settings.save disk path = .ok saved) ↔ disk.Writable (.ofText path)) ∧
      (∀ disk path saved, settings.save disk path = .ok saved →
        load saved path = .ok settings ∧
          ∃ text, saved.readText (.ofText path) = .ok text ∧
            Json.read text = { value := .record settings.members, trailing := false }) ∧
      ∀ omitted added members, settings.Rewritten omitted added members →
        (∀ text ∈ [(Json.record members).pretty, (Json.record members).compact],
          Json.read text = { value := .record members, trailing := false }) ∧
        ∀ disk path text, Disk.readText disk (.ofText path) = .ok text →
          Json.read text = { value := .record members, trailing := false } →
            load disk path = .ok settings := by
  have whole := settings.rewritten_self
  refine ⟨fun disk path => ?_, fun disk path saved succeeded => ?_, ?_⟩
  · rw [← Disk.exists_write_makeParent_iff, ← exists_and_left]
    exact exists_congr fun saved => save_eq_ok_iff
  · have readable := Disk.readText_write (save_eq_ok_iff.mp succeeded).2
    rw [write_eq] at readable
    have read := whole.read _ List.mem_cons_self
    exact ⟨load_of_readText readable (whole.parse_eq read), _, readable, read⟩
  · intro omitted added members rewritten
    refine ⟨rewritten.read, fun disk path text readable read => ?_⟩
    exact load_of_readText readable (rewritten.parse_eq read)

def deskSettings : Settings :=
  { format := .plantuml, output := some "", storePath := some "null" }

def deskMembers : List (String × Json) :=
  [("theme", .text "light"), ("theme", .text "dark"), ("store_path", .text "null"),
    ("output", .text ""), ("format", .text "plantuml")]

def deskDisk : Disk :=
  { entries := [((1, ["config.json"]), .file (.text (Json.record deskMembers).compact))],
    workingDirectory := [] }

theorem deskSettings_rewritten : deskSettings.Rewritten ["log_filter", "fail_on"]
    [("theme", .text "dark"), ("theme", .text "light")] deskMembers where
  defaults := by simp [Settings.members, deskSettings]
  unknown := by
    have other : "theme" ∉ recordFormat.fields.map Field.name := by decide
    simp only [List.forall_mem_cons, List.not_mem_nil, false_imp_iff, implies_true, and_true]
    exact ⟨⟨other, _, rfl⟩, other, _, rfl⟩
  arranged := (List.reverse_perm deskMembers).symm

theorem nested_writable : Disk.empty.Writable (.ofText "nested/config.json") where
  usable := Disk.checkPath_ok_iff.mpr (by decide +kernel)
  ending := by decide +kernel
  short := by decide +kernel
  clear := by simp [Disk.empty, Disk.entry?]
  free := by decide +kernel
  apart := by decide +kernel

theorem deskSettings_load :
    (∃ saved, deskSettings.save .empty "nested/config.json" = .ok saved ∧
      load saved "nested/config.json" = .ok deskSettings) ∧
      load deskDisk "config.json" = .ok deskSettings := by
  obtain ⟨savable, loaded, rewritten⟩ := saved_settings_load deskSettings
  obtain ⟨saved, succeeded⟩ := (savable _ _).mpr nested_writable
  obtain ⟨written, again⟩ := rewritten _ _ _ deskSettings_rewritten
  have readable : deskDisk.readText (.ofText "config.json") =
      .ok (Json.record deskMembers).compact := by
    have located : deskDisk.locate (.ofText "config.json") = .ok ["config.json"] :=
      Disk.locate_single _ (by decide +kernel)
    exact Disk.readText_eq_ok_iff.mpr ⟨_, located, rfl, by decide +kernel⟩
  exact ⟨⟨saved, succeeded, (loaded _ _ _ succeeded).1⟩,
    again _ _ _ readable (written _ (by simp))⟩

end Settings

end FeatureAtlas

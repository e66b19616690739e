import FeatureAtlas.Proofs.Json.Texts

/-!
Values that are written and read again. Both layouts, the one without blanks and the one with an
entry a line, are read back as the value that was written.
-/

namespace FeatureAtlas

/-! Numbers. -/

namespace Token

def continuesNumber (character : Char) : Bool :=
  character.isDigit || character == '.' || character == 'e' || character == 'E'

def Breaks (rest : List Char) : Prop :=
  ∀ first ∈ rest.head?, continuesNumber first = false

theorem breaks_nil : Breaks [] := by simp [Breaks]

theorem breaks_cons {first : Char} (stops : continuesNumber first = false) (rest : List Char) :
    Breaks (first :: rest) := by
  simpa [Breaks] using stops

theorem Breaks.digits {run rest : List Char} (all : ∀ digit ∈ run, digit.isDigit = true)
    (breaks : Breaks rest) : digits (run ++ rest) = run ∧ afterDigits (run ++ rest) = rest := by
  rw [Token.digits, afterDigits, List.takeWhile_append_of_pos all, List.dropWhile_append_of_pos all]
  cases rest with
  | nil => simp
  | cons first rest =>
      have stops : first.isDigit = false := by
        have ends := breaks first rfl
        simp only [continuesNumber, Bool.or_eq_false_iff] at ends
        exact ends.1.1.1
      simp [stops]

theorem Breaks.fraction {rest : List Char} (breaks : Breaks rest) :
    fraction? rest = some ([], rest) := by
  unfold fraction?
  split
  · exact absurd (breaks '.' rfl) (by decide)
  · rfl

theorem Breaks.exponent {rest : List Char} (breaks : Breaks rest) :
    exponent? rest = some (none, rest) := by
  unfold exponent?
  split
  case h_7 => rfl
  all_goals exact absurd (breaks _ rfl) (by decide)

theorem eq_zero_of_head?_toDigits {value : Nat}
    (zero : (Nat.toDigits 10 value).head? = some '0') : value = 0 := by
  induction value using Nat.strongRecOn with
  | ind value ih =>
      by_cases small : value < 10
      · simpa [Nat.toDigits_of_lt_base small] using zero
      · have large : 10 ≤ value := Nat.le_of_not_lt small
        rw [Nat.toDigits_of_base_le (by decide) large, List.head?_append,
          List.head?_eq_some_head Nat.toDigits_ne_nil, Option.some_or,
          ← List.head?_eq_some_head] at zero
        have none := ih (value / 10) (by omega) zero
        omega

theorem Breaks.whole (value : Nat) {rest : List Char} (breaks : Breaks rest) :
    whole? (Nat.toDigits 10 value ++ rest) = some (value, rest) := by
  have all : ∀ digit ∈ Nat.toDigits 10 value, digit.isDigit = true :=
    fun _ member => Nat.isDigit_of_mem_toDigits (by decide) (by decide) member
  obtain ⟨run, after⟩ := breaks.digits all
  have single : (Nat.toDigits 10 value).head? = some '0' →
      (Nat.toDigits 10 value).length = 1 := by
    intro zero
    rw [eq_zero_of_head?_toDigits zero]
    rfl
  have startsWell : ((Nat.toDigits 10 value).isEmpty ||
      ((Nat.toDigits 10 value).head? == some '0' &&
        (Nat.toDigits 10 value).length != 1)) = false := by
    simpa using single
  simp only [whole?, run, after, startsWell, decimalValue, Nat.ofDigitChars_ten_toDigits]
  rfl

theorem Breaks.numeral (value : Nat) {rest : List Char} (breaks : Breaks rest) :
    numeral? false (Nat.toDigits 10 value ++ rest) = some (.ofNat value, rest) := by
  simp only [numeral?, breaks.whole, breaks.fraction, breaks.exponent, Option.bind_eq_bind,
    Option.bind_some, Option.pure_def]
  rfl

theorem scan?_digit {first : Char} (digit : first.isDigit = true) (rest : List Char) :
    scan? first rest =
      (numeral? false (first :: rest)).map fun (numeral, rest) => (.number numeral, rest) := by
  unfold scan?
  split
  case h_12 => rfl
  all_goals exact absurd digit (by decide)

theorem isSeparator_digit {first : Char} (digit : first.isDigit = true) :
    isSeparator first = false := by
  rw [Bool.eq_false_iff]
  intro separates
  simp only [isSeparator, Bool.or_eq_true, beq_iff_eq] at separates
  rcases separates with ((rfl | rfl) | rfl) | rfl
  all_goals exact absurd digit (by decide)

end Token

theorem tokens_natural (value : Nat) {rest : List Char} (breaks : Token.Breaks rest) :
    tokens ((Json.natural value).writtenLeaf ++ rest) = .number (.ofNat value) :: tokens rest := by
  have written : (Json.natural value).writtenLeaf = Nat.toDigits 10 value := by
    simp [Json.natural, Json.writtenLeaf, Numeral.written, Numeral.ofNat]
  have nonempty : Nat.toDigits 10 value ≠ [] := Nat.toDigits_ne_nil
  obtain ⟨first, more, run⟩ := List.exists_cons_of_ne_nil nonempty
  have digit : first.isDigit = true :=
    Nat.isDigit_of_mem_toDigits (by decide) (by decide) (run ▸ List.mem_cons_self)
  have numeral := breaks.numeral value
  rw [run, List.cons_append] at numeral
  rw [written, run, List.cons_append]
  refine tokens_of_scan? (Token.isSeparator_digit digit) ?_
  rw [Token.scan?_digit digit, numeral]
  rfl

/-! Blanks. -/

namespace Json

/-- The blanks before an entry or behind a value, if there are any. -/
def Margin (margin : List Char) : Prop :=
  ∀ character ∈ margin, Token.isSeparator character = true

theorem Margin.tokens {margin : List Char} (blank : Margin margin) (rest : List Char) :
    tokens (margin ++ rest) = FeatureAtlas.tokens rest := by
  induction margin with
  | nil => rfl
  | cons character margin ih =>
      rw [List.cons_append, FeatureAtlas.tokens, if_pos (blank character (by simp))]
      exact ih fun other member => blank other (by simp [member])

theorem Margin.breaks {margin rest : List Char} (blank : Margin margin)
    (breaks : Token.Breaks rest) : Token.Breaks (margin ++ rest) := by
  cases margin with
  | nil => exact breaks
  | cons character margin =>
      have separates := blank character (by simp)
      simp only [Token.isSeparator, Bool.or_eq_true, beq_iff_eq] at separates
      apply Token.breaks_cons
      rcases separates with ((rfl | rfl) | rfl) | rfl
      all_goals decide

theorem margin_nil : Margin [] := by simp [Margin]

theorem margin_newline (depth : Nat) : Margin (newline depth) := by
  intro character member
  rcases List.mem_cons.mp member with rfl | space
  · rfl
  · rw [List.eq_of_mem_replicate space]
    rfl

theorem margin_space : Margin [' '] := by simp [Margin, Token.isSeparator]

end Json

/-! Values. -/

def Phase.StartsValue (phase : Phase) : Prop := phase = .value ∨ phase = .firstItem

def Phase.StartsName (phase : Phase) : Prop := phase = .nextName ∨ phase = .firstName

-- only the end of an array is taken otherwise where its first item could stand
theorem Phase.StartsValue.step {phase : Phase} (starts : phase.StartsValue) (frames : List Frame)
    {token : Token} (other : token ≠ .closeArray) :
    Reader.step { frames, phase } token = Reader.startValue frames token := by
  rcases starts with rfl | rfl
  · rfl
  · cases token <;> first | rfl | contradiction

def Reader.through (reader : Reader) (characters : List Char) : Reader :=
  (tokens characters).foldl step reader

/-- What is written delivers the value, wherever a value can stand. -/
def Reads (written : List Char) (value : Json) : Prop :=
  ∀ (frames : List Frame) (phase : Phase) (rest : List Char),
    phase.StartsValue → Token.Breaks rest →
      Reader.through { frames, phase } (written ++ rest) =
        (Reader.deliver frames value).through rest

namespace Reader

theorem through_symbol {symbol : Char} {token : Token}
    (starts : Token.isSeparator symbol = false)
    (scanned : ∀ rest, Token.scan? symbol rest = some (token, rest)) (reader : Reader)
    (rest : List Char) : reader.through (symbol :: rest) = (reader.step token).through rest := by
  rw [through, tokens_symbol starts scanned, List.foldl_cons]
  rfl

theorem through_blank {margin : List Char} (blank : Json.Margin margin) (reader : Reader)
    (rest : List Char) : reader.through (margin ++ rest) = reader.through rest := by
  rw [through, blank.tokens]
  rfl

end Reader

namespace Reads

open Reader

theorem of_token {written : List Char} {token : Token} {value : Json}
    (scanned : ∀ rest, Token.Breaks rest → tokens (written ++ rest) = token :: tokens rest)
    (other : token ≠ .closeArray)
    (started : ∀ frames, startValue frames token = deliver frames value) : Reads written value := by
  intro frames phase rest starts breaks
  rw [through, scanned rest breaks, List.foldl_cons, starts.step frames other, started]
  rfl

theorem natural (value : Nat) : Reads (Json.natural value).writtenLeaf (.natural value) :=
  of_token (fun _ breaks => tokens_natural value breaks) nofun fun _ => rfl

theorem text (value : String) : Reads (Json.text value).writtenLeaf (.text value) :=
  of_token (fun rest _ => tokens_quote value rest) nofun fun _ => rfl

theorem null : Reads Json.null.writtenLeaf .null :=
  of_token (fun _ _ => tokens_of_scan? (by decide) rfl) nofun fun _ => rfl

theorem bool (value : Bool) : Reads (Json.bool value).writtenLeaf (.bool value) := by
  cases value with
  | true => exact of_token (fun _ _ => tokens_of_scan? (by decide) rfl) nofun fun _ => rfl
  | false => exact of_token (fun _ _ => tokens_of_scan? (by decide) rfl) nofun fun _ => rfl

end Reads

/-! Entries of arrays and objects. -/

namespace Json

def further {α : Type} (margin : List Char) (write : α → List Char) (entries : List α) :
    List Char :=
  entries.flatMap fun entry => ',' :: margin ++ write entry

def named (members : List (String × Json)) : List (Option String × Json) :=
  members.map fun (name, value) => (some name, value)

theorem named_cons (member : String × Json) (members : List (String × Json)) :
    named (member :: members) = (some member.1, member.2) :: named members := rfl

def writtenMember (gap : List Char) (write : Json → List Char) (member : String × Json) :
    List Char :=
  Quoting.quote member.1 ++ ':' :: gap ++ write member.2

theorem breaks_further {α : Type} (margin : List Char) (write : α → List Char) (entries : List α)
    {rest : List Char} (breaks : Token.Breaks rest) :
    Token.Breaks (further margin write entries ++ rest) := by
  cases entries with
  | nil => exact breaks
  | cons entry entries => exact Token.breaks_cons (by decide) _

end Json

namespace Reads

open Json Reader

variable {margin close gap : List Char} {write : Json → List Char}

theorem items (blank : Margin margin) {items : List Json}
    (each : ∀ item ∈ items, Reads (write item) item) (earlier : List Json) (outer : List Frame)
    {rest : List Char} (breaks : Token.Breaks rest) :
    through { frames := .array earlier :: outer, phase := .separator }
        (further margin write items ++ rest) =
      through { frames := .array (items.reverse ++ earlier) :: outer, phase := .separator }
        rest := by
  induction items generalizing earlier with
  | nil => rfl
  | cons item items ih =>
      have ends := breaks_further margin write items breaks
      have first := each item (by simp) (.array earlier :: outer) .value _ (.inl rfl) ends
      have later := ih (fun other member => each other (by simp [member])) (item :: earlier)
      rw [further, List.flatMap_cons, ← further, List.append_assoc, List.cons_append,
        List.cons_append, List.append_assoc, through_symbol (by decide) (fun _ => rfl),
        through_blank blank]
      rw [List.reverse_cons, List.append_assoc, List.singleton_append, ← later]
      exact first

theorem member (blank : Margin gap) {member : String × Json}
    (value : Reads (write member.2) member.2) (members : List (Option String × Json))
    (name : Option String) (outer : List Frame) {phase : Phase} (starts : phase.StartsName)
    {rest : List Char} (breaks : Token.Breaks rest) :
    through { frames := .object members name :: outer, phase }
        (writtenMember gap write member ++ rest) =
      through { frames := .object ((some member.1, member.2) :: members) none :: outer
                phase := .separator } rest := by
  have named : step { frames := .object members name :: outer, phase } (.text (some member.1)) =
      { frames := .object members (some member.1) :: outer, phase := .colon } := by
    rcases starts with rfl | rfl <;> rfl
  have delivered := value (.object members (some member.1) :: outer) .value rest (.inl rfl) breaks
  rw [writtenMember, List.append_assoc, List.append_assoc, through, tokens_quote, List.foldl_cons,
    named, ← through, List.cons_append, through_symbol (by decide) (fun _ => rfl),
    through_blank blank]
  exact delivered

theorem members (blank : Margin margin) (gapBlank : Margin gap) {members : List (String × Json)}
    (each : ∀ member ∈ members, Reads (write member.2) member.2)
    (earlier : List (Option String × Json)) (outer : List Frame)
    {rest : List Char} (breaks : Token.Breaks rest) :
    through { frames := .object earlier none :: outer, phase := .separator }
        (further margin (writtenMember gap write) members ++ rest) =
      through { frames := .object ((named members).reverse ++ earlier) none :: outer
                phase := .separator } rest := by
  induction members generalizing earlier with
  | nil => rfl
  | cons first members ih =>
      have ends := breaks_further margin (writtenMember gap write) members breaks
      have now := Reads.member gapBlank (each first (by simp)) earlier none outer (.inl rfl) ends
      have later := ih (fun other member => each other (by simp [member]))
        ((some first.1, first.2) :: earlier)
      rw [further, List.flatMap_cons, ← further, List.append_assoc, List.cons_append,
        List.cons_append, List.append_assoc, through_symbol (by decide) (fun _ => rfl),
        through_blank blank]
      rw [named_cons, List.reverse_cons, List.append_assoc, List.singleton_append, ← later]
      exact now

theorem emptyArray : Reads ['[', ']'] (.array []) := by
  intro frames phase rest starts breaks
  rw [List.cons_append, List.cons_append, through_symbol (by decide) (fun _ => rfl),
    through_symbol (by decide) (fun _ => rfl)]
  rcases starts with rfl | rfl <;> rfl

theorem emptyRecord : Reads ['\x7b', '\x7d'] (.record []) := by
  intro frames phase rest starts breaks
  rw [List.cons_append, List.cons_append, through_symbol (by decide) (fun _ => rfl),
    through_symbol (by decide) (fun _ => rfl)]
  rcases starts with rfl | rfl <;> rfl

theorem array (blank : Margin margin) (closing : Margin close) {item : Json} {items : List Json}
    (each : ∀ other ∈ item :: items, Reads (write other) other) :
    Reads ('[' :: margin ++ write item ++ further margin write items ++ close ++ [']'])
      (.array (item :: items)) := by
  intro frames phase rest starts breaks
  have opened : step { frames, phase } .openArray =
      { frames := .array [] :: frames, phase := .firstItem } := starts.step frames nofun
  have closes : Token.Breaks (close ++ ']' :: rest) :=
    closing.breaks (Token.breaks_cons (by decide) _)
  have first := each item (by simp) (.array [] :: frames) .firstItem _ (.inr rfl)
    (breaks_further margin write items closes)
  have others : ∀ other ∈ items, Reads (write other) other :=
    fun other member => each other (by simp [member])
  have later := Reads.items blank others [item] frames closes
  simp only [List.cons_append, List.append_assoc, List.nil_append]
  rw [through_symbol (by decide) (fun _ => rfl), opened, through_blank blank, first]
  refine later.trans ?_
  rw [through_blank closing, through_symbol (by decide) (fun _ => rfl)]
  simp [step, afterEntry]

theorem record (blank : Margin margin) (closing : Margin close) (gapBlank : Margin gap)
    {member : String × Json} {members : List (String × Json)}
    (each : ∀ other ∈ member :: members, Reads (write other.2) other.2) :
    Reads ('\x7b' :: margin ++ writtenMember gap write member ++
        further margin (writtenMember gap write) members ++ close ++ ['\x7d'])
      (.record (member :: members)) := by
  intro frames phase rest starts breaks
  have opened : step { frames, phase } .openObject =
      { frames := .object [] none :: frames, phase := .firstName } := starts.step frames nofun
  have closes : Token.Breaks (close ++ '\x7d' :: rest) :=
    closing.breaks (Token.breaks_cons (by decide) _)
  have first := Reads.member gapBlank (each member (by simp)) [] none frames (.inr rfl)
    (breaks_further margin (writtenMember gap write) members closes)
  have others : ∀ other ∈ members, Reads (write other.2) other.2 :=
    fun other inside => each other (by simp [inside])
  have later := Reads.members blank gapBlank others [(some member.1, member.2)] frames closes
  simp only [List.cons_append, List.append_assoc, List.nil_append]
  rw [through_symbol (by decide) (fun _ => rfl), opened, through_blank blank, first]
  refine later.trans ?_
  rw [through_blank closing, through_symbol (by decide) (fun _ => rfl)]
  simp [step, afterEntry, Json.record, named]

end Reads

/-! Both layouts. -/

namespace Json

/-- A value made of names, natural numbers, texts, arrays and records. -/
inductive Plain : Json → Prop
  | null : Plain .null
  | bool (value : Bool) : Plain (.bool value)
  | natural (value : Nat) : Plain (.natural value)
  | text (value : String) : Plain (.text value)
  | array {items : List Json} : (∀ item ∈ items, Plain item) → Plain (.array items)
  | record {members : List (String × Json)} :
      (∀ member ∈ members, Plain member.2) → Plain (.record members)

attribute [simp] Plain.natural Plain.text

theorem plain_map {α : Type} {write : α → Json} (each : ∀ value, (write value).Plain)
    (values : List α) : (Json.array (values.map write)).Plain :=
  .array (List.forall_mem_map.mpr fun value _ => each value)

theorem compactMoreItems_eq (items : List Json) :
    compactMoreItems items = further [] compactChars items := by
  induction items with
  | nil => rfl
  | cons item items ih =>
      rw [compactMoreItems, ih]
      rfl

theorem compactMoreMembers_eq (members : List (String × Json)) :
    compactMoreMembers (named members) =
      further [] (writtenMember [] compactChars) members := by
  induction members with
  | nil => rfl
  | cons member members ih =>
      rw [named_cons, compactMoreMembers, ih]
      simp [further, writtenMember]

theorem prettyMoreItems_eq (depth : Nat) (items : List Json) :
    prettyMoreItems depth items = further (newline depth) (prettyChars depth) items := by
  induction items with
  | nil => rfl
  | cons item items ih =>
      rw [prettyMoreItems, ih]
      simp [further]

theorem prettyMoreMembers_eq (depth : Nat) (members : List (String × Json)) :
    prettyMoreMembers depth (named members) =
      further (newline depth) (writtenMember [' '] (prettyChars depth)) members := by
  induction members with
  | nil => rfl
  | cons member members ih =>
      rw [named_cons, prettyMoreMembers, ih]
      simp [further, writtenMember]

theorem Plain.reads_compact {value : Json} (plain : value.Plain) :
    Reads value.compactChars value := by
  induction plain with
  | null => exact .null
  | bool value => exact .bool value
  | natural value => exact .natural value
  | text value => exact .text value
  | @array items _ ih =>
      cases items with
      | nil => exact .emptyArray
      | cons item items =>
          have whole := Reads.array margin_nil margin_nil ih
          rw [compactChars, compactItems, compactMoreItems_eq]
          simpa using whole
  | @record members _ ih =>
      cases members with
      | nil => exact .emptyRecord
      | cons member members =>
          have whole := Reads.record margin_nil margin_nil margin_nil ih
          change Reads (Json.object (named (member :: members))).compactChars _
          rw [named_cons, compactChars, compactMembers, compactMoreMembers_eq]
          simpa [writtenMember] using whole

theorem Plain.reads_pretty {value : Json} (plain : value.Plain) (depth : Nat) :
    Reads (value.prettyChars depth) value := by
  induction plain generalizing depth with
  | null => exact .null
  | bool value => exact .bool value
  | natural value => exact .natural value
  | text value => exact .text value
  | @array items _ ih =>
      cases items with
      | nil => exact .emptyArray
      | cons item items =>
          have whole := Reads.array (margin_newline (depth + 1)) (margin_newline depth)
            fun other member => ih other member (depth + 1)
          rw [prettyChars, prettyMoreItems_eq]
          simpa using whole
  | @record members _ ih =>
      cases members with
      | nil => exact .emptyRecord
      | cons member members =>
          have whole := Reads.record (margin_newline (depth + 1)) (margin_newline depth)
            margin_space fun other member => ih other member (depth + 1)
          change Reads ((Json.object (named (member :: members))).prettyChars depth) _
          rw [named_cons, prettyChars, prettyMoreMembers_eq]
          simpa [writtenMember] using whole

end Json

theorem Reads.read {written : List Char} {value : Json} (reads : Reads written value)
    {blank : List Char} (margin : Json.Margin blank) :
    Json.read (String.ofList (written ++ blank)) = { value, trailing := false } := by
  have ends : Token.Breaks blank := by simpa using margin.breaks Token.breaks_nil
  have nothing : tokens blank = [] := by
    have none := margin.tokens []
    rwa [List.append_nil, tokens] at none
  have whole := reads [] .value blank (.inl rfl) ends
  rw [Reader.through, Reader.through, nothing] at whole
  rw [Json.read, String.toList_ofList, Reader.start, whole]
  rfl

theorem decodeText_of_reads {α : Type} {written : List Char} {value : Json}
    (reads : Reads written value) {blank : List Char} (margin : Json.Margin blank)
    (decoder : Decoder α) :
    decodeText decoder (String.ofList (written ++ blank)) = decoder .text nestingLimit value := by
  rw [decodeText, reads.read margin]
  cases decoder .text nestingLimit value <;> rfl

end FeatureAtlas

/-!
String literals. Quoting escapes the quote, the backslash and the control characters; reading takes
a literal apart into plain characters and escaped UTF-16 code units before joining the surrogates,
so that a literal can be well formed and still spell no text.
-/

namespace FeatureAtlas.Quoting

def hexDigit (digit : Nat) : Char :=
  if digit < 10 then Char.ofNat ('0'.toNat + digit) else Char.ofNat ('a'.toNat + (digit - 10))

def escape (character : Char) : List Char :=
  match character with
  | '"' => ['\\', '"']
  | '\\' => ['\\', '\\']
  | '\n' => ['\\', 'n']
  | '\r' => ['\\', 'r']
  | '\t' => ['\\', 't']
  | '\x08' => ['\\', 'b']
  | '\x0c' => ['\\', 'f']
  | other =>
      if other.toNat < 0x20 then
        ['\\', 'u', '0', '0', hexDigit (other.toNat / 16), hexDigit (other.toNat % 16)]
      else [other]

def escapeAll (characters : List Char) : List Char :=
  characters.flatMap escape

def quote (text : String) : List Char :=
  '"' :: escapeAll text.toList ++ ['"']

/-- One step of a string literal: a character standing for itself, or an escaped code unit. -/
inductive Piece where
  | plain (character : Char)
  | unit (code : Nat)
deriving DecidableEq, Repr

def hexValue? (character : Char) : Option Nat :=
  if '0' ≤ character ∧ character ≤ '9' then some (character.toNat - '0'.toNat)
  else if 'a' ≤ character ∧ character ≤ 'f' then some (character.toNat - 'a'.toNat + 10)
  else if 'A' ≤ character ∧ character ≤ 'F' then some (character.toNat - 'A'.toNat + 10)
  else none

def codeUnit? (first second third fourth : Char) : Option Nat := do
  let first ← hexValue? first
  let second ← hexValue? second
  let third ← hexValue? third
  let fourth ← hexValue? fourth
  return ((first * 16 + second) * 16 + third) * 16 + fourth

def unescape? : Char → Option Char
  | '"' => some '"'
  | '\\' => some '\\'
  | '/' => some '/'
  | 'b' => some '\x08'
  | 'f' => some '\x0c'
  | 'n' => some '\n'
  | 'r' => some '\r'
  | 't' => some '\t'
  | _ => none

/-- The pieces up to the closing quote and what follows it; `none` when the literal does not close,
holds an unknown escape or a raw control character. -/
def pieces? : List Char → Option (List Piece × List Char)
  | [] => none
  | '"' :: rest => some ([], rest)
  | '\\' :: 'u' :: first :: second :: third :: fourth :: rest => do
      let code ← codeUnit? first second third fourth
      let (pieces, rest) ← pieces? rest
      return (.unit code :: pieces, rest)
  | '\\' :: letter :: rest => do
      let character ← unescape? letter
      let (pieces, rest) ← pieces? rest
      return (.plain character :: pieces, rest)
  | character :: rest =>
      if 0x20 ≤ character.toNat then do
        let (pieces, rest) ← pieces? rest
        return (.plain character :: pieces, rest)
      else none

def isHighSurrogate (code : Nat) : Bool := 0xD800 ≤ code && code < 0xDC00

def isLowSurrogate (code : Nat) : Bool := 0xDC00 ≤ code && code < 0xE000

def joinSurrogates (high low : Nat) : Char :=
  Char.ofNat (0x10000 + (high - 0xD800) * 0x400 + (low - 0xDC00))

/-- The text that the pieces spell. A high surrogate must be followed at once by a low one, and a
low one must follow a high one. -/
def spelled? : List Piece → Option (List Char)
  | [] => some []
  | .plain character :: rest => (spelled? rest).map (character :: ·)
  | .unit high :: .unit low :: rest =>
      if isHighSurrogate high then
        if isLowSurrogate low then (spelled? rest).map (joinSurrogates high low :: ·) else none
      else if isLowSurrogate high then none
      else (spelled? (.unit low :: rest)).map (Char.ofNat high :: ·)
  | .unit code :: rest =>
      if isHighSurrogate code || isLowSurrogate code then none
      else (spelled? rest).map (Char.ofNat code :: ·)

theorem length_rest_of_pieces? {characters : List Char} :
    ∀ {pieces rest}, pieces? characters = some (pieces, rest) →
      rest.length < characters.length := by
  fun_induction pieces? characters with
  | case1 => simp
  | case2 rest => simp
  | case3 first second third fourth rest ih =>
      intro pieces tail found
      simp only [Option.bind_eq_bind, Option.bind_eq_some_iff, Option.pure_def,
        Option.some.injEq, Prod.mk.injEq, Prod.exists] at found
      obtain ⟨_, _, inner, innerTail, read, _, same⟩ := found
      have shorter := ih read
      subst same
      simp only [List.length_cons]
      omega
  | case4 letter rest _ ih =>
      intro pieces tail found
      simp only [Option.bind_eq_bind, Option.bind_eq_some_iff, Option.pure_def,
        Option.some.injEq, Prod.mk.injEq, Prod.exists] at found
      obtain ⟨_, _, inner, innerTail, read, _, same⟩ := found
      have shorter := ih read
      subst same
      simp only [List.length_cons]
      omega
  | case5 character rest _ _ _ _ ih =>
      intro pieces tail found
      simp only [Option.bind_eq_bind, Option.bind_eq_some_iff, Option.pure_def,
        Option.some.injEq, Prod.mk.injEq, Prod.exists] at found
      obtain ⟨inner, innerTail, read, _, same⟩ := found
      have shorter := ih read
      subst same
      simp only [List.length_cons]
      omega
  | case6 => simp

end FeatureAtlas.Quoting

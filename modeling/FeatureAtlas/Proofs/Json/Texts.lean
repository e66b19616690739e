import FeatureAtlas.Json.Decode
import FeatureAtlas.Json.Printer

/-!
Texts that are quoted and read again. A quoted text is one token whatever characters it has.
-/

namespace FeatureAtlas

namespace Quoting

def Piece.Spells (piece : Piece) (character : Char) : Prop :=
  piece = .plain character ∨ piece = .unit character.toNat ∧ character.toNat < 0x20

theorem hexValue?_hexDigit {digit : Nat} (bound : digit < 16) :
    hexValue? (hexDigit digit) = some digit := by
  have all : ∀ digit < 16, hexValue? (hexDigit digit) = some digit := by decide
  exact all digit bound

theorem codeUnit?_control {code : Nat} (bound : code < 0x20) :
    codeUnit? '0' '0' (hexDigit (code / 16)) (hexDigit (code % 16)) = some code := by
  have zero : hexValue? '0' = some 0 := by decide
  rw [codeUnit?, zero, hexValue?_hexDigit (by omega), hexValue?_hexDigit (by omega)]
  simp only [Option.bind_eq_bind, Option.bind_some, Option.pure_def, Option.some.injEq]
  omega

theorem pieces?_letter {letter character : Char} (other : letter ≠ 'u')
    (known : unescape? letter = some character) (rest : List Char) :
    pieces? ('\\' :: letter :: rest) =
      (pieces? rest).map fun (pieces, rest) => (.plain character :: pieces, rest) := by
  rw [pieces?, known]
  · cases pieces? rest <;> rfl
  · exact fun _ _ _ _ _ same _ => other same

theorem pieces?_unit {first second third fourth : Char} {code : Nat}
    (known : codeUnit? first second third fourth = some code) (rest : List Char) :
    pieces? ('\\' :: 'u' :: first :: second :: third :: fourth :: rest) =
      (pieces? rest).map fun (pieces, rest) => (.unit code :: pieces, rest) := by
  rw [pieces?, known]
  cases pieces? rest <;> rfl

theorem pieces?_plain {character : Char} (noQuote : character ≠ '"') (noEscape : character ≠ '\\')
    (printed : 0x20 ≤ character.toNat) (rest : List Char) :
    pieces? (character :: rest) =
      (pieces? rest).map fun (pieces, rest) => (.plain character :: pieces, rest) := by
  rw [pieces?, if_pos printed]
  · cases pieces? rest <;> rfl
  · exact noQuote
  · exact fun _ _ _ _ _ same _ => noEscape same
  · exact fun _ _ same _ => noEscape same

theorem exists_pieces?_escape (character : Char) (rest : List Char) :
    ∃ piece : Piece, piece.Spells character ∧
      pieces? (escape character ++ rest) =
        (pieces? rest).map fun (pieces, rest) => (piece :: pieces, rest) := by
  unfold escape
  split
  case h_8 noQuote noEscape _ _ _ _ _ =>
    by_cases control : character.toNat < 0x20
    · rw [if_pos control]
      exact ⟨.unit character.toNat, .inr ⟨rfl, control⟩,
        pieces?_unit (codeUnit?_control control) rest⟩
    · rw [if_neg control]
      exact ⟨.plain character, .inl rfl,
        pieces?_plain noQuote noEscape (Nat.le_of_not_lt control) rest⟩
  all_goals exact ⟨.plain _, .inl rfl, pieces?_letter (by decide) (by decide) rest⟩

theorem spelled?_cons {piece : Piece} {character : Char} (spells : piece.Spells character)
    (rest : List Piece) :
    spelled? (piece :: rest) = (spelled? rest).map (character :: ·) := by
  rcases spells with rfl | ⟨rfl, control⟩
  · rw [spelled?]
  · have low : isLowSurrogate character.toNat = false := by simp [isLowSurrogate]; omega
    have high : isHighSurrogate character.toNat = false := by simp [isHighSurrogate]; omega
    have back := Char.ofNat_toNat character
    match rest with
    | .unit code :: more =>
        rw [spelled?, if_neg (by simp [high]), if_neg (by simp [low]), back]
    | [] => simp [spelled?, high, low, back]
    | .plain _ :: more => simp [spelled?, high, low, back]

theorem exists_pieces?_escapeAll (characters rest : List Char) :
    ∃ pieces, pieces? (escapeAll characters ++ '"' :: rest) = some (pieces, rest) ∧
      spelled? pieces = some characters := by
  induction characters with
  | nil => exact ⟨[], rfl, rfl⟩
  | cons character characters ih =>
      obtain ⟨pieces, read, spelled⟩ := ih
      obtain ⟨piece, spells, first⟩ :=
        exists_pieces?_escape character (escapeAll characters ++ '"' :: rest)
      refine ⟨piece :: pieces, ?_, ?_⟩
      · rw [escapeAll, List.flatMap_cons, List.append_assoc, ← escapeAll, first, read]
        rfl
      · rw [spelled?_cons spells, spelled]
        rfl

end Quoting

theorem tokens_of_scan? {first : Char} {rest tail : List Char} {token : Token}
    (starts : Token.isSeparator first = false)
    (scanned : Token.scan? first rest = some (token, tail)) :
    tokens (first :: rest) = token :: tokens tail := by
  rw [tokens, starts]
  split
  · contradiction
  · split <;> simp_all

theorem tokens_symbol {symbol : Char} {token : Token} (starts : Token.isSeparator symbol = false)
    (scanned : ∀ rest, Token.scan? symbol rest = some (token, rest)) (rest : List Char) :
    tokens (symbol :: rest) = token :: tokens rest :=
  tokens_of_scan? starts (scanned rest)

theorem tokens_quote (text : String) (rest : List Char) :
    tokens (Quoting.quote text ++ rest) = .text (some text) :: tokens rest := by
  obtain ⟨pieces, read, spelled⟩ := Quoting.exists_pieces?_escapeAll text.toList rest
  have whole : Quoting.quote text ++ rest =
      '"' :: (Quoting.escapeAll text.toList ++ '"' :: rest) := by simp [Quoting.quote]
  rw [whole]
  refine tokens_of_scan? (by decide) ?_
  rw [Token.scan?, read]
  simp [spelled]

end FeatureAtlas

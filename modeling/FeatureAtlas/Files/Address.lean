import FeatureAtlas.Files.Path
import FeatureAtlas.Json.Quoting

/-!
The address of a store: the name of a file, or a URI that gives the name together with parameters
and in which bytes may be written as escapes.
-/

namespace FeatureAtlas

structure Address where
  name : String
  parameters : List (String × String)
deriving DecidableEq, Repr

namespace Address

def bytesOf (text : String) : List Char :=
  text.toList.flatMap fun character =>
    (String.utf8EncodeChar character).map fun byte => Char.ofNat byte.toNat

def textOf (bytes : List Char) : String :=
  (String.fromUTF8? (bytes.map fun byte => byte.toNat.toUInt8).toByteArray).getD (.ofList bytes)

/-- A byte of a URI. One that is written as an escape separates nothing. -/
structure Octet where
  byte : Char
  plain : Bool
deriving DecidableEq, Repr

def octets : List Char → List Octet
  | '%' :: high :: low :: rest =>
      match Quoting.hexValue? high, Quoting.hexValue? low with
      | some first, some second =>
          { byte := Char.ofNat (first * 16 + second), plain := false } :: octets rest
      | _, _ => { byte := '%', plain := true } :: octets (high :: low :: rest)
  | byte :: rest => { byte, plain := true } :: octets rest
  | [] => []

def Octet.isMark (mark : Char) (octet : Octet) : Bool := octet.plain && octet.byte == mark

def splitAtMark (mark : Char) (octets : List Octet) : List Octet × Option (List Octet) :=
  let rest := octets.dropWhile fun octet => !octet.isMark mark
  (octets.takeWhile fun octet => !octet.isMark mark, if rest.isEmpty then none else some rest.tail)

def written (octets : List Octet) : String :=
  textOf ((octets.map Octet.byte).takeWhile (· != '\x00'))

def parameterOf? (octets : List Octet) : Option (String × String) :=
  let (name, value) := splitAtMark '=' octets
  if written name = "" then none else some (written name, written (value.getD []))

def dropHost? : List Char → Option (List Char)
  | '/' :: '/' :: rest =>
      let host := rest.takeWhile (· != '/')
      if host.isEmpty || host == "localhost".toList then some (rest.dropWhile (· != '/')) else none
  | bytes => some bytes

def scheme : List Char := "file:".toList

/-- The address that a text gives: the text itself is a name, unless it is a URI. The parameters
stand behind the first question mark, and what follows a number sign is no part of the address. -/
def ofText? (text : String) : Option Address :=
  let bytes := bytesOf text
  if scheme.isPrefixOf bytes then do
    let bytes ← dropHost? (bytes.drop scheme.length)
    let (octets, _) := splitAtMark '#' (octets bytes)
    let (name, parameters) := splitAtMark '?' octets
    let parts := splitWhere (Octet.isMark '&') (parameters.getD [])
    return { name := written name, parameters := parts.filterMap parameterOf? }
  else some { name := text, parameters := [] }

def leadingNumber? (text : List Char) : Option Nat :=
  let decimal := text.takeWhile Char.isDigit
  let hexadecimal := match text with
    | '0' :: mark :: rest =>
        if mark == 'x' || mark == 'X' then
          (rest.takeWhile fun digit => (Quoting.hexValue? digit).isSome).filterMap
            Quoting.hexValue?
        else []
    | _ => []
  if decimal.isEmpty then none
  else if hexadecimal.isEmpty then some (Nat.ofDigitChars 10 decimal 0)
  else some (hexadecimal.foldl (fun number digit => number * 16 + digit) 0)

/-- The value of a switch: a number in 31 bits whose last eight are not all zero, or a word. -/
def isOn (value : String) : Bool :=
  match leadingNumber? value.toList with
  | some number => number < 0x80000000 && number % 256 != 0
  | none => ["on", "yes", "true"].contains value.toLower

def parameter (address : Address) (name : String) : Option String := address.parameters.lookup name

def switch (address : Address) (name : String) : Bool :=
  ((address.parameter name).map isOn).getD false

end Address

end FeatureAtlas

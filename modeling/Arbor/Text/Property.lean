import Arbor.Text.Break
import Arbor.Text.Edition

/-!
Sets of characters by the names of the Unicode standard. A single name is that of a property, a
category or a script; a pair of names is a property with several values and one of these.
-/

namespace Arbor.Property

/-- A name in the form in which names are compared: without a leading "is", in small letters, and
without blanks, hyphens, low lines and anything beyond ASCII. -/
def normalize (name : List Char) : String :=
  let bare (cs : List Char) : List Char :=
    (cs.filter fun c => c.toNat < 0x80 && c != ' ' && c != '_' && c != '-').map Char.toLower
  match name with
  | i :: s :: rest =>
    if i.toLower = 'i' && s.toLower = 's' then
      if bare rest = ['c'] then "isc" else String.ofList (bare rest)
    else String.ofList (bare name)
  | _ => String.ofList (bare name)

/-- The set with a single name. -/
def named? (name : List Char) : Option CharSet :=
  let name := normalize name
  ((Trait.named? name).or (Category.named? name)).or
    ((Script.named? name).map Script.characters)

/-- The set of the characters for which a property has a value. -/
def valued? (property value : List Char) : Option CharSet :=
  let value := normalize value
  match normalize property with
  | "gc" | "generalcategory" => Category.named? value
  | "sc" | "script" => (Script.named? value).map Script.characters
  | "scx" | "scriptextensions" => (Script.named? value).map Script.extended
  | "age" => Edition.upTo? value
  | "gcb" | "graphemeclusterbreak" => graphemeBreak? value
  | "wb" | "wordbreak" => wordBreak? value
  | "sb" | "sentencebreak" => sentenceBreak? value
  | _ => none

end Arbor.Property

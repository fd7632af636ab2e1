import Mathlib.Data.List.Lex
import Mathlib.Order.Defs.LinearOrder

/-!
# Command text

`CommandString` is a byte string: a C++ `char` is modelled by its unsigned
value.  `text` writes the literals of the source, which are all ASCII.
-/

namespace EspressioCommand

/-- Characters are compared as unsigned bytes, as `char_traits<char>` does. -/
instance instLinearOrderUInt8 : LinearOrder UInt8 where
  le_refl := UInt8.le_refl
  le_trans _ _ _ := UInt8.le_trans
  le_antisymm _ _ := UInt8.le_antisymm
  le_total := UInt8.le_total
  lt_iff_le_not_ge _ _ := by
    rw [UInt8.not_le]
    exact ⟨fun h => ⟨UInt8.le_of_lt h, h⟩, fun h => h.2⟩
  toDecidableLE := inferInstance
  toDecidableLT := inferInstance
  toDecidableEq := inferInstance

/-- Command text: the bytes of a `CommandString`. -/
abbrev CommandString := List UInt8

/-- A path of command names. -/
abbrev CommandPath := List CommandString

/-- The bytes of an ASCII literal of the source. -/
def text (literal : String) : CommandString :=
  literal.toList.map fun c => UInt8.ofNat c.toNat

/-- `std::isspace` in the C locale: space, `\t`, `\n`, `\v`, `\f`, `\r`. -/
def isSpace (c : UInt8) : Bool :=
  c == 32 || (9 ≤ c && c ≤ 13)

/-- `std::tolower` in the C locale. -/
def toLower (c : UInt8) : UInt8 :=
  if 65 ≤ c && c ≤ 90 then c + 32 else c

/-! The bytes the tokenizer and the binding loops look for. -/

def backslash : UInt8 := 92
def singleQuote : UInt8 := 39
def doubleQuote : UInt8 := 34
def space : UInt8 := 32
def newline : UInt8 := 10
def tab : UInt8 := 9
def equalsSign : UInt8 := 61

/-- `Detail::BuildCommandMessage`. -/
def buildCommandMessage (pre value suffix : CommandString) : CommandString :=
  pre ++ value ++ suffix

end EspressioCommand

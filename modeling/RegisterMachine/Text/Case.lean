/-
This file folds the case of ASCII letters.
-/

namespace RegisterMachine.Text

/-- Folding changes ASCII letters only. -/
def lowercase (text : String) : String :=
  String.ofList (text.toList.map Char.toLower)

def uppercase (text : String) : String :=
  String.ofList (text.toList.map Char.toUpper)

end RegisterMachine.Text

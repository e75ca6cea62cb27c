/-!
# Command words

Names of commands are compared without regard to the case of ASCII letters, and a single leading
dot does not count.
-/

namespace Asm6502

def upcase (text : String) : String :=
  String.ofList (text.toList.map Char.toUpper)

def dropDot (text : String) : String :=
  match text.toList with
  | '.' :: rest => String.ofList rest
  | _ => text

def unifiedName (text : String) : String :=
  upcase (dropDot text)

end Asm6502

/-!
# Parts of a text

Texts taken apart at separators and put together again.
-/

namespace Asm6502

def splitOn (isSeparator : Char -> Bool) : List Char -> List (List Char)
  | [] => [[]]
  | c :: rest =>
      if isSeparator c then [] :: splitOn isSeparator rest
      else
        match splitOn isSeparator rest with
        | [] => [[c]]
        | part :: parts => (c :: part) :: parts

def joinWith (separator : List Char) : List (List Char) -> List Char
  | [] => []
  | [part] => part
  | part :: parts => part ++ separator ++ joinWith separator parts

end Asm6502

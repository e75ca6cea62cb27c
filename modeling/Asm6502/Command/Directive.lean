import Asm6502.Text.Word

/-!
# Directives

Commands to the assembler that are not instructions.
-/

namespace Asm6502

inductive Directive where
  | includeFile
  | incbin
  | incdir
  | seg
  | hex
  | err
  | dc
  | ds
  | dv
  | byte
  | word
  | long
  | org
  | rorg
  | rend
  | align
  | subroutine
  | equ
  | assign
  | eqm
  | set
  | setstr
  | mac
  | macroBlock
  | endm
  | mexit
  | ifconst
  | ifnconst
  | ifBlock
  | elsePart
  | endif
  | eif
  | repeatBlock
  | repend
  | echo
  | processor
  | list
  | trace
deriving DecidableEq, Repr, Inhabited

namespace Directive

/-- All directives, in the order of their declaration. -/
def all : List Directive := [
  includeFile, incbin, incdir, seg, hex, err, dc, ds, dv, byte, word, long, org, rorg, rend, align,
  subroutine, equ, assign, eqm, set, setstr, mac, macroBlock, endm, mexit, ifconst, ifnconst,
  ifBlock, elsePart, endif, eif, repeatBlock, repend, echo, processor, list, trace]

def name : Directive -> String
  | includeFile => "INCLUDE"
  | incbin => "INCBIN"
  | incdir => "INCDIR"
  | seg => "SEG"
  | hex => "HEX"
  | err => "ERR"
  | dc => "DC"
  | ds => "DS"
  | dv => "DV"
  | byte => "BYTE"
  | word => "WORD"
  | long => "LONG"
  | org => "ORG"
  | rorg => "RORG"
  | rend => "REND"
  | align => "ALIGN"
  | subroutine => "SUBROUTINE"
  | equ => "EQU"
  | assign => "="
  | eqm => "EQM"
  | set => "SET"
  | setstr => "SETSTR"
  | mac => "MAC"
  | macroBlock => "MACRO"
  | endm => "ENDM"
  | mexit => "MEXIT"
  | ifconst => "IFCONST"
  | ifnconst => "IFNCONST"
  | ifBlock => "IF"
  | elsePart => "ELSE"
  | endif => "ENDIF"
  | eif => "EIF"
  | repeatBlock => "REPEAT"
  | repend => "REPEND"
  | echo => "ECHO"
  | processor => "PROCESSOR"
  | list => "LIST"
  | trace => "TRACE"

def ofCommandName? (text : String) : Option Directive :=
  all.find? fun directive => directive.name == unifiedName text

/-- Directives that give the label on their line a constant value. -/
def definesConstant : Directive -> Bool
  | equ | assign | eqm => true
  | _ => false

/-- Directives that give the label on their line a value that may change. -/
def definesVariable : Directive -> Bool
  | set | setstr => true
  | _ => false

end Directive

end Asm6502

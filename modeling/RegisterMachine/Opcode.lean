import RegisterMachine.Arity

/-!
The opcodes of the language, their commands and how many operands they take.
-/

namespace RegisterMachine

inductive Opcode where
  | mov
  | newReg
  | delReg
  | cmp
  | add
  | sub
  | mult
  | div
  | pow
  | mod
  | inc
  | dec
  | rev
  | print
  | println
  | printReg
  | printRegVal
  | printStack
  | printStackTrace
  | lb
  | jmp
  | jmpCond
  | function
  | endFunction
  | call
  | async
  | sleep
  | exit
  deriving DecidableEq, Repr

namespace Opcode

def ofCommand? : String → Option Opcode
  | "mov" => some mov
  | "newreg" => some newReg
  | "delreg" => some delReg
  | "cmp" => some cmp
  | "add" => some add
  | "sub" => some sub
  | "mult" => some mult
  | "div" => some div
  | "pow" => some pow
  | "mod" => some mod
  | "inc" | "incr" => some inc
  | "dec" | "decr" => some dec
  | "rev" => some rev
  | "print" => some print
  | "println" => some println
  | "printreg" => some printReg
  | "printregval" => some printRegVal
  | "printstack" => some printStack
  | "printstacktrace" => some printStackTrace
  | "lb" => some lb
  | "jmp" => some jmp
  | "jmpcond" => some jmpCond
  | "function" => some function
  | "endfunction" => some endFunction
  | "call" => some call
  | "async" => some async
  | "sleep" => some sleep
  | "exit" | "quit" => some exit
  | _ => none

def arity : Opcode → Arity
  | printReg | printStack | printStackTrace | endFunction => .exactly 0
  | exit => ⟨0, some 1⟩
  | newReg | delReg | inc | dec | rev | printRegVal | lb | jmp | function | sleep => .exactly 1
  | print | println | call | async => .atLeast 1
  | mov | jmpCond => .exactly 2
  | cmp | add | sub | mult | div | pow | mod => .exactly 3

end Opcode

end RegisterMachine

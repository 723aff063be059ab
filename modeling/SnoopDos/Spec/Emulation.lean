import SnoopDos.Lib.UserMem
import SnoopDos.Spec.Types

/-! The system calls of `ece391emulate.c`, under which the programs run on a host. A
command is the list of its characters, whose end is the terminator. -/

namespace SnoopDos

/-- The string `"./"`. -/
def CURRENT_DIR : List UInt8 := [0x2e, 0x2f]

/-- `'\0' != *scan && ' ' != *scan && '\n' != *scan`, before the terminator. -/
def inWord (c : UInt8) : Bool := c ≠ EMPTY_SPACE && c ≠ NEW_LINE

/-- The loop of `ece391_execute` that parses the arguments, `fuel` rounds at most. -/
def parseArguments : ℕ → List UInt8 → List (List UInt8)
  | 0, _ => []
  | fuel + 1, scan =>
    match scan.dropWhile (· = EMPTY_SPACE) with
    | [] => []
    | c :: rest =>
      if c = NEW_LINE then []
      else
        let word := (c :: rest).takeWhile inWord
        let scan := (c :: rest).dropWhile inWord
        word :: parseArguments fuel (scan.drop 1)

/-- `ece391_execute` up to the `execv`: the path and the arguments that it is given, or
`none` for -1. -/
def ece391Execute (command : List UInt8) : Option (List UInt8 × List (List UInt8)) :=
  if 1023 < command.length then none
  else
    let path := CURRENT_DIR ++ command.takeWhile inWord
    let scan := command.dropWhile inWord
    some (path, path :: parseArguments command.length (scan.drop 1))

/-- The loop of `ece391_getargs` over the arguments that are left: where it stops, and
how many bytes are free there, or `none` for -1. -/
def getargsLoop : List (List UInt8) → Addr → ℤ → User (Option (Addr × ℤ))
  | [], buf, nbytes => pure (some (buf, nbytes))
  | arg :: args, buf, nbytes =>
    let len := arg.length
    if nbytes < len then pure none
    else do
      UserMem.storeBytes buf (arg ++ [NULL_CHAR])
      let buf := buf + BitVec.ofNat 32 len
      let nbytes := nbytes - len
      if args = [] then pure (some (buf, nbytes))
      else if nbytes < 1 then pure none
      else do
        UserMem.store buf EMPTY_SPACE
        getargsLoop args (buf + 1#32) (nbytes - 1)

/-- `ece391_getargs` in a program that was started with `argv`. -/
def ece391Getargs (argv : List (List UInt8)) (buf : Addr) (nbytes : Word) : User Word := do
  let stopped ← getargsLoop (argv.drop 1) buf nbytes.toInt
  match stopped with
  | none => pure FAILURE
  | some (buf, nbytes) =>
    if nbytes < 1 then pure FAILURE
    else do
      UserMem.store buf NULL_CHAR
      pure SUCCESS

end SnoopDos

import BatchExport.CommandLine.ExitCode
import BatchExport.Environment
import BatchExport.Files.Tree
import BatchExport.Time.Instant

/-! Where commands read and write. -/
namespace BatchExport

structure Console (ω : Type) where
  env : Environment
  files : FileTree
  now : Instant
  /-- What is going to be typed. -/
  input : List Char
  out : String := ""
  err : String := ""
  outside : ω

/-- A command that writes to the console. -/
abbrev OnConsole (ω α : Type) := StateM (Console ω) α

namespace Console

variable {ω : Type}

def print (s : String) : OnConsole ω Unit := modify fun c => { c with out := c.out ++ s }

def printLine (s : String) : OnConsole ω Unit := print (s ++ "\n")

def printLines (ss : List String) : OnConsole ω Unit := ss.forM printLine

def complain (s : String) : OnConsole ω Unit := modify fun c => { c with err := c.err ++ s ++ "\n" }

def readLine : OnConsole ω String := modifyGet fun c =>
  (String.ofList (c.input.takeWhile (· ≠ '\n')), { c with input := (c.input.dropWhile (· ≠ '\n')).drop 1 })

end Console

/-- Where a command is: at its end, or at a question. No exit code means that it does not end within its fuel. -/
inductive Dialogue (ω : Type) where
  | ended (code : Option ExitCode)
  | asking (answered : String → OnConsole ω (Option ExitCode))

/-- Answer with the next line. -/
def Dialogue.finish {ω : Type} : Dialogue ω → OnConsole ω (Option ExitCode)
  | ended code => pure code
  | asking answered => do answered (← Console.readLine)

end BatchExport

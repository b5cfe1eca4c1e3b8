import Playbooks.Files

/-!
# Build tools

A tool is a program that is started with arguments and changes files. Which tools there are and what
they do is left open: a build takes them as a parameter.
-/
namespace Playbooks

/-- How a tool ended. -/
inductive ExitStatus where
  | code (n : Nat)
  | signal (n : Nat)
deriving DecidableEq

namespace ExitStatus

/-- The names of signals that end a program. -/
def signalNames : List (Nat × String) :=
  [(1, "SIGHUP"), (2, "SIGINT"), (3, "SIGQUIT"), (4, "SIGILL"), (5, "SIGTRAP"), (6, "SIGABRT"),
    (7, "SIGBUS"), (8, "SIGFPE"), (9, "SIGKILL"), (10, "SIGUSR1"), (11, "SIGSEGV"), (12, "SIGUSR2"),
    (13, "SIGPIPE"), (14, "SIGALRM"), (15, "SIGTERM"), (16, "SIGSTKFLT")]

def message : ExitStatus → String
  | code n => "exit status: " ++ toString n
  | signal n =>
    "signal: " ++ toString n ++ ((signalNames.lookup n).map fun name => " (" ++ name ++ ")").getD ""

end ExitStatus

/-- What a tool that was started leaves behind. -/
structure ToolRun where
  /-- How it ended; none if it was stopped because it took too long. -/
  status : Option ExitStatus
  /-- What it wrote as errors. -/
  errors : String := ""
  files : Files

/-- What comes of starting a tool with arguments and a number of seconds to run in; none if it
cannot be started. -/
abbrev Tools := (program : String) → (args : List String) → (seconds : Option Nat) → Files →
  Option ToolRun

end Playbooks

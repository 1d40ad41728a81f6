import BlockingCalls.Text.Quoted

/-!
# Commands and how they end

A command that ends with a code other than zero is reported by its words and the code; a negative code means that a
signal ended it.
-/

namespace BlockingCalls.Command

/-- The signals of Linux, in order of their numbers. -/
def signals : List (Nat × String) :=
  [(1, "SIGHUP"), (2, "SIGINT"), (3, "SIGQUIT"), (4, "SIGILL"), (5, "SIGTRAP"), (6, "SIGABRT"), (7, "SIGBUS"),
   (8, "SIGFPE"), (9, "SIGKILL"), (10, "SIGUSR1"), (11, "SIGSEGV"), (12, "SIGUSR2"), (13, "SIGPIPE"), (14, "SIGALRM"),
   (15, "SIGTERM"), (16, "SIGSTKFLT"), (17, "SIGCHLD"), (18, "SIGCONT"), (19, "SIGSTOP"), (20, "SIGTSTP"),
   (21, "SIGTTIN"), (22, "SIGTTOU"), (23, "SIGURG"), (24, "SIGXCPU"), (25, "SIGXFSZ"), (26, "SIGVTALRM"),
   (27, "SIGPROF"), (28, "SIGWINCH"), (29, "SIGIO"), (30, "SIGPWR"), (31, "SIGSYS"), (34, "SIGRTMIN"),
   (64, "SIGRTMAX")]

/-- How a command ended that did not end well. -/
def endingText (code : Int) : String :=
  if code < 0 then
    let number := (-code).toNat
    match signals.lookup number with
    | some name => "died with <Signals." ++ name ++ ": " ++ toString number ++ ">."
    | none => "died with unknown signal " ++ toString number ++ "."
  else "returned non-zero exit status " ++ toString code ++ "."

def failureText (words : List String) (code : Int) : String :=
  "Command '" ++ Text.quotedList words ++ "' " ++ endingText code

end BlockingCalls.Command

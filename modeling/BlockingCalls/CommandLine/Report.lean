import BlockingCalls.Finding

/-!
# The report

What the command prints after an analysis: the blocking functions and where they are declared, then the findings of
the root module.
-/

namespace BlockingCalls.CommandLine

def blockingLine (s : Session) (name : Name) : String :=
  "  - " ++ name ++ " (in " ++ ((s.locationOf name).map (·.render)).getD "unknown location" ++ ")\n"

def blockingText (s : Session) : String :=
  match Text.sorted s.blocking with
  | [] => "\nNo blocking functions found.\n"
  | names =>
    "\nWarning: Found blocking functions in the following locations:\n" ++ String.join (names.map (blockingLine s))

def findingText (f : Finding) : String :=
  "  " ++ f.site.render ++ ": " ++ f.message ++ " [" ++ Finding.ruleId ++ "]\n" ++
    ((f.fix.map fun fix => "    fix: " ++ fix.text ++ "\n").getD "")

def findingsText : List Finding → String
  | [] => ""
  | findings =>
    "\n" ++ toString findings.length ++ " blocking call(s) in async functions:\n" ++
      String.join (findings.map findingText)

/-- The report, and the session with what was logged for it. -/
def report (s : Session) : Session × String :=
  let (checked, findings) := s.check none
  (checked, blockingText s ++ findingsText findings)

end BlockingCalls.CommandLine

import FindingFilter.Text.Lines

/-!
# Findings

A finding is one message of a static analyser: which check raised it, where, about which symbols.
The symbols are kept in one text, each followed by a line feed, which is the form in which findings
travel between programs; `withSymbol` adds to that text and `symbols` reads it.
-/

namespace FindingFilter

/-- One message of an analyser. An empty `file` and a `line` of 0 mean that the finding belongs to
no file or no line. -/
structure Finding where
  id : String
  file : String := ""
  line : UInt32 := 0
  /-- The symbols concerned, each followed by a line feed. -/
  symbolText : String := ""
  message : String := ""
  deriving DecidableEq, Repr, Inhabited

namespace Finding

def withSymbol (finding : Finding) (symbol : String) : Finding :=
  { finding with symbolText := finding.symbolText ++ symbol ++ "\n" }

def withSymbols (finding : Finding) (symbols : List String) : Finding :=
  symbols.foldl withSymbol finding

def withMessage (finding : Finding) (message : String) : Finding :=
  { finding with message }

/-- The symbols concerned: the lines of the symbol text that are not empty. -/
def symbols (finding : Finding) : List String :=
  ((Text.lines finding.symbolText.toList).filter (!·.isEmpty)).map String.ofList

/-- The finding on one line, as compilers print it. -/
def display (finding : Finding) : String :=
  finding.file ++ ":" ++ toString finding.line.toNat ++ ": [" ++ finding.id ++ "] "
    ++ finding.message

end Finding

end FindingFilter

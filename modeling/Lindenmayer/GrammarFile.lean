import Lindenmayer.Grammar.Reader
import Lindenmayer.Host

/-!
# Grammars in files

A grammar file holds a grammar as UTF-8 text. Every grammar that is read is noted in the journal.
-/

namespace Lindenmayer.GrammarFile

open Text Host

variable {m : Type → Type} [Monad m] [Host m]

/-- Reads a grammar from a text. -/
def readText (text : List Char) : Attempt m Grammar := do
  let grammar ← orFail (Grammar.parse text)
  note (m := m) fun _ => [.grammarRead grammar]
  return grammar

/-- Reads a grammar from a file. -/
def load (path : String) : Attempt m Grammar := do
  match Utf8.decode (← fileOctets path) with
  | .ok text => readText (unifyBreaks text)
  | .error fault => fail (.grammar (.undecodable path fault))

end Lindenmayer.GrammarFile

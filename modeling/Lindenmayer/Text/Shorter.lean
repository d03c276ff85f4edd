/-!
# What is left of a text

A reader that takes at least one character off the front of a text returns what is left together
with the proof that it is shorter. Readers that call each other end for that reason.
-/

namespace Lindenmayer.Text

/-- What is left of `text` after a non-empty part of it has been read. -/
abbrev Shorter (text : List Char) := { rest : List Char // rest.length < text.length }

end Lindenmayer.Text

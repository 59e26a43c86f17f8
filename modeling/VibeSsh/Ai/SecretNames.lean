import VibeSsh.Ai.Sanitizer

/-! # Names in different spellings

`segments` finds the words of a name again from its separators, and in camel case from a capital
that follows a small letter. A word of one letter ends in no small letter there, so it runs into the
next word, which then is not found among the secret ones. -/

namespace VibeSsh.Ai

open Lib

section

variable {u : CharClass} {out : List Text} {cur : Text} {low : Bool} {c : Char} {w : Text}
  {ws : List Text}

end

end VibeSsh.Ai

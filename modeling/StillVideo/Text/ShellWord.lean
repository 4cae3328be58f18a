/-!
Words of a command line. A word of plain characters stands as it is; any other word stands between
single quotes, where a single quote is written as a closing quote, a quote between double quotes and
an opening quote.
-/

namespace StillVideo

/-- Characters that mean themselves to the shell. -/
def isPlainInShell (c : Char) : Bool := c.isAlphanum || "_@%+=:,./-".toList.contains c

/-- A character between single quotes. -/
def shellQuotedChar (c : Char) : List Char :=
  if c == '\'' then ['\'', '"', '\'', '"', '\''] else [c]

/-- A word as the shell reads it back. -/
def shellWord (s : String) : String :=
  let cs := s.toList
  if cs.isEmpty then "''"
  else if cs.all isPlainInShell then s
  else String.ofList ('\'' :: cs.flatMap shellQuotedChar ++ ['\''])

/-- A command line that the shell splits into the given words. -/
def commandText (args : List String) : String :=
  " ".intercalate (args.map shellWord)

end StillVideo
